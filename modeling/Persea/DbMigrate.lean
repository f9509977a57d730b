import Persea.AddressBookConfig
import Persea.BaseExcept
import Persea.BaseUtf8
import Persea.BaseWorklist
import Persea.VaultKeys

/-! `db-migrate-from-vault`. In Vault a folder is closed unless a group of its `.config`, or of an inherited one, lets
a user in; in the database it is open unless it or an ancestor has groups. -/

namespace Persea.DbMigrate

open Base Base.Text Vault AddressBook List Option

def validateName (name : Text) : Except VaultError Unit :=
  if name = [] ∨ 64 < (Utf8.encode name).length then .error (.badName "name must be 1-64 characters")
  else if name = ".config" ∨ name = "." ∨ name = ".." then .error (.badName "reserved name")
  else if '/' ∈ name ∨ '\\' ∈ name then .error (.badName "name cannot contain path separators")
  else if name.all isKeyChar then .ok ()
  else .error (.badName "name must be alphanumeric, hyphens, underscores, or dots")

def validatePath (path : Text) : Except VaultError Unit :=
  if path = [] then .error (.badName "path cannot be empty")
  else if 256 < (Utf8.encode path).length then .error (.badName "path too long (max 256 chars)")
  else if path.head? = some '/' ∨ path.getLast? = some '/' then .error (.badName "path cannot start or end with /")
  else if "//" <:+: path then .error (.badName "path cannot contain empty segments")
  else (path.splitOn '/').forM validateName

structure FolderConfig where
  allowedGroups : List Text
  description : Text
  inheritFromParent : Bool
deriving DecidableEq, Repr

/-- What Vault holds of a scope: the keys under a path, where those of folders end with a slash, and the secrets. The
empty path is the scope itself. -/
structure Content where
  list : Text → Except VaultError (List Text)
  config : Text → Except VaultError FolderConfig
  entry : Text → Text → Except VaultError AddressBookEntry
  folder_segment : ∀ path keys name, list path = .ok keys → name ++ ['/'] ∈ keys → '/' ∉ name

variable (content : Content)

def getFolderConfig (folder : Text) : Except VaultError FolderConfig := do
  validatePath folder
  content.config folder

def listChildren (folderPath : Text) : Except VaultError (List Text) := do
  validatePath folderPath
  content.list folderPath

def listEntries (folder : Text) : Except VaultError (List Text) := do
  validatePath folder
  let keys ← content.list folder
  return keys.filter (· ≠ ".config")

def getEntry (folder entry : Text) : Except VaultError AddressBookEntry := do
  validatePath folder
  validateName entry
  content.entry folder entry

def accessWalk (content : Content) (userGroups : List Text) : List Text → Except VaultError Bool
  | [] => .ok false
  | current :: parents =>
    match getFolderConfig content current with
    | .error .notFound => .ok false
    | .error e => .error e
    | .ok config =>
      if Book.sharesGroup config.allowedGroups userGroups then .ok true
      else if config.inheritFromParent = false then .ok false
      else accessWalk content userGroups parents

def resolveFolderAccess (folder : Text) (userGroups : List Text) : Except VaultError Bool :=
  accessWalk content userGroups (folder :: Rbac.abFolderAncestors folder)

/-- The reads of Vault that the migration depends on. -/
inductive Read
  | top
  | subfolders (path : Text)
  | config (path : Text)
  | entries (path : Text)
  | entry (path name : Text)

def attempt {α : Type} (failure : Option VaultError) (answer : Except VaultError α) : Except VaultError α :=
  match failure with
  | some e => .error e
  | none => answer

def folderName (key : Text) : Option Text := if key.getLast? = some '/' then some key.dropLast else none

section Migration

variable (content : Content) (failing : Read → Option VaultError) (scope : Text) (overwrite dryRun : Bool)

def listFoldersInScope : Except VaultError (List Text) :=
  match attempt (failing .top) (content.list []) with
  | .ok keys => .ok (keys.filterMap folderName)
  | .error .notFound => .ok []
  | .error e => .error e

def subfolderPaths (path : Text) : List Text :=
  match attempt (failing (.subfolders path)) (listChildren content path) with
  | .ok keys => keys.filterMap fun key => (folderName key).map fun name => path ++ '/' :: name
  | .error _ => []

def folderRow (folderConfig : Except VaultError FolderConfig) (path : Text) : AbFolder :=
  match folderConfig with
  | .ok config => ⟨scope, path, config.description, [','].intercalate config.allowedGroups, true⟩
  | .error _ => ⟨scope, path, [], [], true⟩

def ensureSegments (folderConfig : Except VaultError FolderConfig) :
    (parent : Option Text) → List Text → Book → Book × Option Text
  | parent, [], book => (book, parent)
  | parent, segment :: rest, book =>
    let currentPath := (parent.map fun p => p ++ '/' :: segment).getD segment
    if (book.getAbFolder scope currentPath).isSome then ensureSegments folderConfig (some currentPath) rest book
    else
      let row := if rest = [] then folderRow scope folderConfig currentPath else ⟨scope, currentPath, [], [], true⟩
      let book := if dryRun then book else (book.createAbFolder row).getD book
      ensureSegments folderConfig (some currentPath) rest book

variable (folderPath : Text)

def ensureFolderGroup (folderConfig : Except VaultError FolderConfig) (book : Book) : Book × Option Text :=
  ensureSegments scope dryRun folderConfig none (folderPath.splitOn '/') book

def entryExists (name : Text) (book : Book) : Bool :=
  (book.getAbFolder scope folderPath).isSome && (book.getAbEntry scope folderPath name).isSome

def entryRow (name : Text) (entry : AddressBookEntry) : AbEntry where
  scope := scope
  folder := folderPath
  name := name
  displayName := entry.displayName.getD name
  protocol := entry.sessionType
  hostname := entry.hostname.getD []
  port := entry.port
  username := entry.username.getD []
  allowedGroups := []

def insertAbEntry (name : Text) (entry : AddressBookEntry) (book : Book) : Book :=
  if (book.getAbFolder scope folderPath).isNone then book
  else
    match book.createAbEntry (entryRow scope folderPath name entry) with
    | some book => book
    | none => if overwrite then book.updateAbEntry (entryRow scope folderPath name entry) else book

def migrateEntry (parent : Text) (book : Book) (name : Text) : Book :=
  match attempt (failing (.entry folderPath name)) (getEntry content folderPath name) with
  | .error _ => book
  | .ok entry =>
    if dryRun || !overwrite && entryExists scope parent name book then book
    else insertAbEntry scope overwrite parent name entry book

def readConfig : Except VaultError FolderConfig :=
  attempt (failing (.config folderPath)) (getFolderConfig content folderPath)

def migrateFolder (book : Book) (folderPath : Text) : Book :=
  let (book, parent) := ensureFolderGroup scope dryRun folderPath (readConfig content failing folderPath) book
  match attempt (failing (.entries folderPath)) (listEntries content folderPath) with
  | .error _ => book
  | .ok entries =>
    entries.foldl (migrateEntry content failing scope overwrite dryRun folderPath (parent.getD [])) book

/-- The folders that were migrated and the database; a failed listing of the scope ends the command. The loop that
collects the folders works through their list while it grows. -/
def cmdDbMigrateFromVault (fuel : ℕ) (book : Book) : Option (List Text × Book) :=
  match listFoldersInScope content failing with
  | .error _ => some ([], book)
  | .ok top => (Worklist.run (subfolderPaths content failing) fuel top 0).map fun folderPaths =>
    (folderPaths, folderPaths.foldl (migrateFolder content failing scope overwrite dryRun) book)

end Migration

variable {name path : Text}

section Folders

variable {content : Content} {failing : Read → Option VaultError}

theorem attempt_eq_ok {α : Type} {failure : Option VaultError} {answer : Except VaultError α} {a : α}
    (h : attempt failure answer = .ok a) : answer = .ok a := by
  cases failure with
  | none => exact h
  | some e => cases h

theorem mem_of_folderName {keys : List Text} {key : Text} (hkey : key ∈ keys) (h : folderName key = some name) :
    name ++ ['/'] ∈ keys := by
  unfold folderName at h
  split_ifs at h with hlast
  rw [← some.inj h, dropLast_append_getLast? '/' hlast]
  exact hkey

theorem validatePath_eq_ok_iff : validatePath path = .ok () ↔
      (Utf8.encode path).length ≤ 256 ∧ ∀ segment ∈ path.splitOn '/', validateName segment = .ok () := by
  have hempty : validateName [] ≠ .ok () := by decide
  rw [validatePath]
  split_ifs with hnil hlong hends hslashes
  · simp [hnil, hempty]
  · simp [Nat.not_le.mpr hlong]
  · refine iff_of_false (by simp) fun hall => hempty (hall.2 [] ?_)
    rcases hends with hhead | hlast
    · obtain ⟨rest, rfl⟩ := head?_eq_some_iff.mp hhead
      exact @nil_mem_splitOn '/' [] rest (.inl rfl)
    · obtain ⟨init, rfl⟩ := getLast?_eq_some_iff.mp hlast
      exact nil_mem_splitOn (.inr (.inr rfl))
  · refine iff_of_false (by simp) fun hall => hempty (hall.2 [] ?_)
    obtain ⟨before, after, rfl⟩ := hslashes
    have hcut : before ++ "//" ++ after = (before ++ ['/']) ++ '/' :: after := by simp
    rw [hcut]
    exact nil_mem_splitOn (.inr (.inl (by simp)))
  · rw [Except.forM_eq_ok_iff]
    exact (and_iff_right (Nat.not_lt.mp hlong)).symm

theorem of_validatePath (h : validatePath path = .ok ()) : path ≠ [] ∧ path.length ≤ 256 := by
  unfold validatePath at h
  split_ifs at h with hempty hlong
  exact ⟨hempty, (Utf8.length_le_length_encode path).trans (not_lt.mp hlong)⟩

theorem not_mem_of_top {top : List Text} (h : listFoldersInScope content failing = .ok top)
    (hpath : path ∈ top) : '/' ∉ path := by
  unfold listFoldersInScope at h
  split at h
  · rename_i keys hkeys
    rw [← Except.ok.inj h] at hpath
    obtain ⟨key, hkey, hname⟩ := mem_filterMap.mp hpath
    exact content.folder_segment [] keys path (attempt_eq_ok hkeys) (mem_of_folderName hkey hname)
  · rw [← Except.ok.inj h] at hpath
    cases hpath
  · cases h

theorem of_mem_subfolderPaths {sub : Text} (h : sub ∈ subfolderPaths content failing path) :
    path ≠ [] ∧ path.length ≤ 256 ∧ ∃ name, sub = path ++ '/' :: name ∧ '/' ∉ name := by
  unfold subfolderPaths at h
  split at h
  · rename_i keys hkeys
    obtain ⟨⟨⟩, hvalid, hlist⟩ := Except.bind_eq_ok_iff.mp (attempt_eq_ok hkeys)
    obtain ⟨hne, hlength⟩ := of_validatePath hvalid
    obtain ⟨key, hkey, hsub⟩ := mem_filterMap.mp h
    obtain ⟨name, hname, rfl⟩ := map_eq_some_iff.mp hsub
    exact ⟨hne, hlength, name, rfl, content.folder_segment path keys name hlist (mem_of_folderName hkey hname)⟩
  · cases h

theorem exists_run_subfolderPaths (top : List Text) :
    ∃ fuel folderPaths, Worklist.run (subfolderPaths content failing) fuel top 0 = some folderPaths := by
  refine Worklist.exists_run (fun path : Text => 257 - path.length) (fun path sub hsub => ?_) top 0
  obtain ⟨-, hlength, name, rfl, -⟩ := of_mem_subfolderPaths hsub
  rw [length_append, length_cons]
  omega

theorem exists_migration (scope : Text) (overwrite dryRun : Bool) (book : Book) :
    ∃ fuel result, cmdDbMigrateFromVault content failing scope overwrite dryRun fuel book = some result := by
  unfold cmdDbMigrateFromVault
  cases listFoldersInScope content failing with
  | error e => exact ⟨0, _, rfl⟩
  | ok top =>
    obtain ⟨fuel, folderPaths, hended⟩ := exists_run_subfolderPaths top
    refine ⟨fuel, (folderPaths, folderPaths.foldl (migrateFolder content failing scope overwrite dryRun) book), ?_⟩
    dsimp only
    rw [hended, map_some]

end Folders

/-! ### The rows -/

def trail : (parent : Option Text) → List Text → List Text
  | _, [] => []
  | parent, segment :: rest =>
    let currentPath := (parent.map fun p => p ++ '/' :: segment).getD segment
    currentPath :: trail (some currentPath) rest

def pathTrail (path : Text) : List Text := trail none (path.splitOn '/')

theorem trail_append (parent : Option Text) (segments : List Text) (name : Text) :
    trail parent (segments ++ [name]) = trail parent segments ++
      [(((trail parent segments).getLast?.or parent).map fun p => p ++ '/' :: name).getD name] := by
  induction segments generalizing parent with
  | nil => rfl
  | cons segment rest ih =>
    rw [cons_append, trail, ih, trail]
    cases hrest : trail (some ((parent.map fun p => p ++ '/' :: segment).getD segment)) rest with
    | nil => simp
    | cons c cs => simp [getLast?_cons]

theorem pathTrail_top (h : '/' ∉ path) : pathTrail path = [path] := by
  rw [pathTrail, splitOn_eq_singleton h]
  rfl

theorem pathTrail_sub (hlast : (pathTrail path).getLast? = some path) (hname : '/' ∉ name) :
    pathTrail (path ++ '/' :: name) = pathTrail path ++ [path ++ '/' :: name] := by
  rw [pathTrail, splitOn_append_cons_self, splitOn_eq_singleton hname, trail_append]
  change pathTrail path ++ [(((pathTrail path).getLast?.or none).map fun p => p ++ '/' :: name).getD name] = _
  rw [hlast]
  rfl

section Rows

variable {scope : Text}

variable {folderConfig : Except VaultError FolderConfig}

variable {content : Content} {failing : Read → Option VaultError} {done : List Text} {book : Book}

theorem ensureSegments_append {segments : List Text} (parent : Option Text)
    (htrail : ∀ c ∈ trail parent segments, (book.getAbFolder scope c).isSome) (dryRun : Bool) :
    ensureSegments scope dryRun folderConfig parent (segments ++ [name]) book =
      ensureSegments scope dryRun folderConfig ((trail parent segments).getLast?.or parent) [name] book := by
  induction segments generalizing parent with
  | nil => rfl
  | cons segment rest ih =>
    rw [trail] at htrail ⊢
    rw [cons_append, ensureSegments, if_pos (htrail _ mem_cons_self),
      ih _ fun c hc => htrail c (mem_cons_of_mem _ hc)]
    cases hrest : trail (some ((parent.map fun p => p ++ '/' :: segment).getD segment)) rest with
    | nil => rfl
    | cons c cs => simp [getLast?_cons]

/-- The rows of a migration: those of the folders that have had their turn, and entries without groups. -/
structure Migrated (content : Content) (failing : Read → Option VaultError) (scope : Text) (done : List Text)
    (book : Book) : Prop where
  row : ∀ path ∈ done, book.getAbFolder scope path = some (folderRow scope (readConfig content failing path) path)
  only : ∀ path, (book.getAbFolder scope path).isSome = true → path ∈ done
  trail_done : ∀ path ∈ done, ∀ c ∈ pathTrail path, c ∈ done
  trail_last : ∀ path ∈ done, (pathTrail path).getLast? = some path
  ancestors_done : ∀ path ∈ done, ∀ c ∈ Rbac.abFolderAncestors path, c ∈ done
  entry_open : ∀ e ∈ book.entries, e.allowedGroups = []

theorem Migrated.nil
    (hfolders : book.folders = []) : Migrated content failing scope [] book where
  row := fun _ h => by cases h
  only := fun path h => by simp [Book.getAbFolder, hfolders] at h
  trail_done := fun _ h => by cases h
  trail_last := fun _ h => by cases h
  ancestors_done := fun _ h => by cases h
  entry_open := by
    intro e he
    obtain ⟨f, hf, -⟩ := book.entry_folder e he
    rw [hfolders] at hf
    cases hf

theorem addEntry_spec (book : Book) (row : AbEntry) :
    (book.addEntry row).folders = book.folders ∧ ∀ e ∈ (book.addEntry row).entries, e ∈ book.entries ∨ e = row := by
  unfold Book.addEntry
  split_ifs
  · exact ⟨rfl, fun e he => (mem_append.mp he).imp_right mem_singleton.mp⟩
  · exact ⟨rfl, fun e he => .inl he⟩

theorem insertAbEntry_spec (overwrite : Bool) (folderPath name : Text) (entry : AddressBookEntry) (book : Book) :
    (insertAbEntry scope overwrite folderPath name entry book).folders = book.folders ∧
      ∀ e ∈ (insertAbEntry scope overwrite folderPath name entry book).entries,
        e ∈ book.entries ∨ e.allowedGroups = [] := by
  unfold insertAbEntry
  by_cases hfolder : (book.getAbFolder scope folderPath).isNone
  · rw [if_pos hfolder]
    exact ⟨rfl, fun e he => .inl he⟩
  · rw [if_neg hfolder]
    cases hcreate : book.createAbEntry (entryRow scope folderPath name entry) with
    | some created =>
      rw [Book.createAbEntry] at hcreate
      split_ifs at hcreate
      rw [← some.inj hcreate]
      obtain ⟨hfolders, hentries⟩ := addEntry_spec book (entryRow scope folderPath name entry)
      refine ⟨hfolders, fun e he => (hentries e he).imp_right fun hnew => ?_⟩
      rw [hnew, entryRow]
    | none =>
      dsimp only
      split_ifs with hoverwrite
      · refine ⟨rfl, fun e he => ?_⟩
        obtain ⟨e₀, he₀, rfl⟩ := List.mem_map.mp he
        split_ifs
        · exact .inr rfl
        · exact .inl he₀
      · exact ⟨rfl, fun e he => .inl he⟩

theorem migrateEntry_spec (content : Content) (failing : Read → Option VaultError) (scope : Text)
    (overwrite dryRun : Bool) (folderPath parent : Text) (book : Book) (name : Text) :
    (migrateEntry content failing scope overwrite dryRun folderPath parent book name).folders = book.folders ∧
      ∀ e ∈ (migrateEntry content failing scope overwrite dryRun folderPath parent book name).entries,
        e ∈ book.entries ∨ e.allowedGroups = [] := by
  unfold migrateEntry
  split
  · exact ⟨rfl, fun e he => .inl he⟩
  · split_ifs
    · exact ⟨rfl, fun e he => .inl he⟩
    · exact insertAbEntry_spec overwrite parent name _ book

theorem Migrated.entries
    (h : Migrated content failing scope done book) (overwrite dryRun : Bool) (folderPath parent : Text)
    (names : List Text) :
    Migrated content failing scope done
      (names.foldl (migrateEntry content failing scope overwrite dryRun folderPath parent) book) := by
  induction names generalizing book with
  | nil => exact h
  | cons name names ih =>
    obtain ⟨hfolders, hentries⟩ :=
      migrateEntry_spec content failing scope overwrite dryRun folderPath parent book name
    apply ih
    have hget : ∀ path, Book.getAbFolder
        (migrateEntry content failing scope overwrite dryRun folderPath parent book name) scope path =
        book.getAbFolder scope path := by
      intro path
      rw [Book.getAbFolder, Book.getAbFolder, hfolders]
    refine { h with row := ?_, only := ?_, entry_open := ?_ }
    · intro path hpath
      rw [hget, h.row path hpath]
    · intro path hpath
      rw [hget] at hpath
      exact h.only path hpath
    · intro e he
      rcases hentries e he with hold | hopen
      · exact h.entry_open e hold
      · exact hopen

theorem ensureFolderGroup_eq {way : List Text} (hway : pathTrail path = way ++ [path])
    (hexists : ∀ c ∈ way, (book.getAbFolder scope c).isSome) :
    ensureFolderGroup scope false path folderConfig book =
      (if (book.getAbFolder scope path).isSome then book else book.addFolder (folderRow scope folderConfig path),
        some path) := by
  obtain ⟨segments, name, hsplit⟩ : ∃ segments name, path.splitOn '/' = segments ++ [name] := by
    rcases eq_nil_or_concat (path.splitOn '/') with hnil | ⟨segments, name, hconcat⟩
    · exact absurd hnil (splitOn_ne_nil _ _)
    · exact ⟨segments, name, by rw [hconcat, concat_eq_append]⟩
  rw [pathTrail, hsplit, trail_append] at hway
  obtain ⟨rfl, hlast⟩ := append_inj' hway rfl
  rw [List.cons.injEq] at hlast
  rw [ensureFolderGroup, hsplit, ensureSegments_append none hexists, ensureSegments, hlast.1]
  by_cases hpath : (book.getAbFolder scope path).isSome
  · rw [if_pos hpath, if_pos hpath]
    rfl
  · have hcreate : book.createAbFolder (folderRow scope folderConfig path) =
        some (book.addFolder (folderRow scope folderConfig path)) := by
      rw [Book.createAbFolder, if_neg]
      cases folderConfig <;> exact hpath
    rw [if_neg hpath, if_neg hpath]
    simp only [if_true, Bool.false_eq_true, if_false, hcreate, getD_some]
    rfl

theorem folderRow_key (scope : Text) (folderConfig : Except VaultError FolderConfig) (path : Text) :
    (folderRow scope folderConfig path).scope = scope ∧ (folderRow scope folderConfig path).name = path := by
  cases folderConfig <;> exact ⟨rfl, rfl⟩

theorem Migrated.ensured {way : List Text}
    (h : Migrated content failing scope done book) (hway : pathTrail path = way ++ [path])
    (hwaydone : ∀ c ∈ way, c ∈ done) (hancestors : ∀ c ∈ Rbac.abFolderAncestors path, c ∈ done) :
    Migrated content failing scope (done ++ [path])
      (if (book.getAbFolder scope path).isSome then book
        else book.addFolder (folderRow scope (readConfig content failing path) path)) := by
  have hold : ∀ c ∈ done, c ∈ done ++ [path] := fun c hc => mem_append_left _ hc
  have hsplit : ∀ c ∈ done ++ [path], c ∈ done ∨ c = path := fun c hc =>
    (mem_append.mp hc).imp_right mem_singleton.mp
  have htrail : ∀ c ∈ done ++ [path], ∀ d ∈ pathTrail c, d ∈ done ++ [path] := by
    intro c hc d hd
    rcases hsplit c hc with hc | rfl
    · exact hold d (h.trail_done c hc d hd)
    · rw [hway] at hd
      rcases mem_append.mp hd with hd | hd
      · exact hold d (hwaydone d hd)
      · exact mem_append_right _ hd
  have hlast : ∀ c ∈ done ++ [path], (pathTrail c).getLast? = some c := by
    intro c hc
    rcases hsplit c hc with hc | rfl
    · exact h.trail_last c hc
    · rw [hway, getLast?_concat]
  have habove : ∀ c ∈ done ++ [path], ∀ d ∈ Rbac.abFolderAncestors c, d ∈ done ++ [path] := by
    intro c hc d hd
    rcases hsplit c hc with hc | rfl
    · exact hold d (h.ancestors_done c hc d hd)
    · exact hold d (hancestors d hd)
  by_cases hpath : (book.getAbFolder scope path).isSome
  · rw [if_pos hpath]
    have hdone := h.only path hpath
    refine ⟨?_, fun c hc => hold c (h.only c hc), htrail, hlast, habove, h.entry_open⟩
    intro c hc
    rcases hsplit c hc with hc | rfl
    · exact h.row c hc
    · exact h.row c hdone
  · rw [if_neg hpath]
    obtain ⟨hscope, hname⟩ := folderRow_key scope (readConfig content failing path) path
    refine ⟨?_, ?_, htrail, hlast, habove, h.entry_open⟩
    · intro c hc
      rw [getAbFolder_addFolder, hscope, hname]
      rcases hsplit c hc with hc | rfl
      · rw [h.row c hc, some_or]
      · rw [not_isSome_iff_eq_none.mp hpath, none_or, if_pos ⟨rfl, rfl⟩]
    · intro c hc
      rw [getAbFolder_addFolder, hscope, hname, isSome_or, Bool.or_eq_true] at hc
      rcases hc with hc | hc
      · exact hold c (h.only c hc)
      · split_ifs at hc with hsame
        · rw [← hsame.2]
          exact mem_append_right _ mem_cons_self
        · cases hc

theorem Migrated.folder
    (h : Migrated content failing scope done book) (overwrite : Bool)
    (hpath : '/' ∉ path ∨ ∃ parent ∈ done, parent ≠ [] ∧ ∃ name, path = parent ++ '/' :: name ∧ '/' ∉ name) :
    Migrated content failing scope (done ++ [path])
      (migrateFolder content failing scope overwrite false book path) := by
  obtain ⟨way, hway, hwaydone, hancestors⟩ : ∃ way, pathTrail path = way ++ [path] ∧ (∀ c ∈ way, c ∈ done) ∧
      ∀ c ∈ Rbac.abFolderAncestors path, c ∈ done := by
    rcases hpath with htop | ⟨parent, hparent, hne, name, rfl, hname⟩
    · refine ⟨[], pathTrail_top htop, ?_, ?_⟩
      · intro c hc
        cases hc
      · intro c hc
        rw [Rbac.abFolderAncestors_top htop] at hc
        cases hc
    · refine ⟨pathTrail parent, pathTrail_sub (h.trail_last parent hparent) hname, h.trail_done parent hparent, ?_⟩
      intro c hc
      rw [Rbac.abFolderAncestors_sub hne hname] at hc
      rcases mem_cons.mp hc with rfl | hc
      · exact hparent
      · exact h.ancestors_done parent hparent c hc
  have hexists : ∀ c ∈ way, (book.getAbFolder scope c).isSome := by
    intro c hc
    rw [h.row c (hwaydone c hc)]
    rfl
  have hensured := h.ensured hway hwaydone hancestors
  unfold migrateFolder
  dsimp only
  rw [ensureFolderGroup_eq hway hexists]
  dsimp only
  split
  · exact hensured
  · exact hensured.entries overwrite false path _ _

theorem migrated_of_cmd {overwrite : Bool} {fuel : ℕ}
    {book' : Book} {folderPaths : List Text} (hempty : book.folders = [])
    (h : cmdDbMigrateFromVault content failing scope overwrite false fuel book = some (folderPaths, book')) :
    Migrated content failing scope folderPaths book' := by
  unfold cmdDbMigrateFromVault at h
  cases htop : listFoldersInScope content failing with
  | error e =>
    rw [htop, some.injEq, Prod.mk.injEq] at h
    rw [← h.1, ← h.2]
    exact Migrated.nil hempty
  | ok top =>
    rw [htop] at h
    obtain ⟨paths, hrun, hpaths⟩ := map_eq_some_iff.mp h
    rw [Prod.mk.injEq] at hpaths
    obtain ⟨rfl, rfl⟩ := hpaths
    have hgrown := Worklist.grown_run (Worklist.grown_start _ top) hrun
    refine hgrown.foldl (Migrated.nil hempty) ?_
    intro done path book hmigrated hpath
    refine hmigrated.folder overwrite ?_
    rcases hpath with hmem | ⟨parent, hparent, hsub⟩
    · exact .inl (not_mem_of_top htop hmem)
    · obtain ⟨hne, -, hname⟩ := of_mem_subfolderPaths hsub
      exact .inr ⟨parent, hparent, hne, hname⟩

end Rows

/-! ### Access before and after -/

/-- The groups that Vault lets in: those of the folder, and those of each folder it goes on to inherit from. -/
def reachingGroups (content : Content) : List Text → List Text
  | [] => []
  | current :: parents =>
    match getFolderConfig content current with
    | .error _ => []
    | .ok config => config.allowedGroups ++ if config.inheritFromParent then reachingGroups content parents else []

def migratedGroups (content : Content) (failing : Read → Option VaultError) (path : Text) : List Text :=
  match readConfig content failing path with
  | .ok config => Book.groupList ([','].intercalate config.allowedGroups)
  | .error _ => []

def nearestGroups (groups : Text → List Text) : List Text → List Text
  | [] => []
  | current :: parents => if groups current = [] then nearestGroups groups parents else groups current

/-- The folder or an ancestor gets groups, and Vault lets in each group of the nearest that does. -/
def KeptClosed (content : Content) (failing : Read → Option VaultError) (path : Text) : Prop :=
  nearestGroups (migratedGroups content failing) (path :: Rbac.abFolderAncestors path) ≠ [] ∧
    ∀ g ∈ nearestGroups (migratedGroups content failing) (path :: Rbac.abFolderAncestors path),
      g ∈ reachingGroups content (path :: Rbac.abFolderAncestors path)

theorem sharesGroup_iff {groups userGroups : List Text} :
    Book.sharesGroup groups userGroups ↔ ∃ g ∈ groups, g ∈ userGroups := by
  simp [Book.sharesGroup]

theorem accessWalk_iff (content : Content) (userGroups path : List Text) :
    accessWalk content userGroups path = .ok true ↔ ∃ g ∈ reachingGroups content path, g ∈ userGroups := by
  induction path with
  | nil => simp [accessWalk, reachingGroups]
  | cons current parents ih =>
    rw [accessWalk, reachingGroups]
    cases hconfig : getFolderConfig content current with
    | error e => cases e <;> simp
    | ok config =>
      by_cases hshares : Book.sharesGroup config.allowedGroups userGroups
      · obtain ⟨g, hg, huser⟩ := sharesGroup_iff.mp hshares
        simp only [hshares, if_true, true_iff]
        exact ⟨g, mem_append_left _ hg, huser⟩
      · have hnone : ¬∃ g ∈ config.allowedGroups, g ∈ userGroups := fun hex => hshares (sharesGroup_iff.mpr hex)
        dsimp only
        rw [if_neg hshares]
        cases hinherit : config.inheritFromParent with
        | false =>
          simp only [if_true, Bool.false_eq_true, if_false, append_nil, Except.ok.injEq, false_iff]
          exact hnone
        | true =>
          simp only [Bool.true_eq_false, if_false, if_true]
          rw [ih]
          constructor
          · rintro ⟨g, hg, huser⟩
            exact ⟨g, mem_append_right _ hg, huser⟩
          · rintro ⟨g, hg, huser⟩
            rcases mem_append.mp hg with hg | hg
            · exact absurd ⟨g, hg, huser⟩ hnone
            · exact ⟨g, hg, huser⟩

theorem folderRow_access (content : Content) (failing : Read → Option VaultError) (scope path : Text) :
    Book.groupList (folderRow scope (readConfig content failing path) path).allowedGroups =
        migratedGroups content failing path ∧
      (folderRow scope (readConfig content failing path) path).inheritFromParent := by
  unfold migratedGroups
  cases readConfig content failing path <;> exact ⟨rfl, rfl⟩

section Access

variable {content : Content} {failing : Read → Option VaultError} {scope : Text} {done : List Text} {book : Book}

theorem Migrated.aclWalk_eq (h : Migrated content failing scope done book) (userGroups : List Text)
    {chain : List Text} (hchain : ∀ c ∈ chain, c ∈ done) :
    book.aclWalk scope userGroups chain =
      if nearestGroups (migratedGroups content failing) chain = [] then none
      else some (userGroups ≠ [] &&
        Book.sharesGroup (nearestGroups (migratedGroups content failing) chain) userGroups) := by
  induction chain with
  | nil => rfl
  | cons current parents ih =>
    obtain ⟨hgroups, hinherit⟩ := folderRow_access content failing scope current
    rw [Book.aclWalk, h.row current (hchain current mem_cons_self)]
    dsimp only
    rw [hgroups, hinherit, nearestGroups]
    by_cases hnone : migratedGroups content failing current = []
    · rw [if_neg (not_not.mpr hnone), if_pos hnone, if_neg (by decide)]
      exact ih fun c hc => hchain c (mem_cons_of_mem _ hc)
    · rw [if_pos hnone, if_neg hnone, if_neg hnone]

theorem Migrated.folderAllowed_iff (h : Migrated content failing scope done book) (hpath : path ∈ done)
    (userGroups : List Text) :
    book.folderAllowedForUser scope path userGroups ↔
      nearestGroups (migratedGroups content failing) (path :: Rbac.abFolderAncestors path) = [] ∨
        ∃ g ∈ nearestGroups (migratedGroups content failing) (path :: Rbac.abFolderAncestors path),
          g ∈ userGroups := by
  have hchain : ∀ c ∈ path :: Rbac.abFolderAncestors path, c ∈ done := by
    intro c hc
    rcases mem_cons.mp hc with rfl | hc
    · exact hpath
    · exact h.ancestors_done path hpath c hc
  rw [Book.folderAllowedForUser, h.aclWalk_eq userGroups hchain]
  generalize nearestGroups (migratedGroups content failing) (path :: Rbac.abFolderAncestors path) = groups
  by_cases hgroups : groups = []
  · rw [if_pos hgroups, h.row path hpath]
    simp only [hgroups, true_or, iff_true, List.all_eq_true]
    intro e he
    rw [Book.listAbEntries, mem_insertionSort, Book.entriesOf] at he
    rw [Book.entryAllowed, h.entry_open e (mem_of_mem_filter he)]
    rfl
  · rw [if_neg hgroups]
    simp only [Bool.and_eq_true, decide_eq_true_eq, hgroups, false_or]
    rw [sharesGroup_iff]
    constructor
    · exact fun hshares => hshares.2
    · rintro ⟨g, hg, huser⟩
      exact ⟨ne_nil_of_mem huser, g, hg, huser⟩

/-- **Closed folders.** After a migration into an empty database, a migrated folder is denied to everyone whom Vault
does not let in exactly if it or an ancestor gets groups and Vault lets in each group of the nearest. -/
theorem migration_keeps_closed_iff {overwrite : Bool} {fuel : ℕ} {book' : Book} {folderPaths : List Text}
    (hempty : book.folders = [])
    (h : cmdDbMigrateFromVault content failing scope overwrite false fuel book = some (folderPaths, book'))
    {path : Text} (hpath : path ∈ folderPaths) :
    (∀ userGroups, resolveFolderAccess content path userGroups ≠ .ok true →
        book'.folderAllowedForUser scope path userGroups = false) ↔
      KeptClosed content failing path := by
  have hallowed := (migrated_of_cmd hempty h).folderAllowed_iff hpath
  have hgranted : ∀ userGroups, resolveFolderAccess content path userGroups = .ok true ↔
      ∃ g ∈ reachingGroups content (path :: Rbac.abFolderAncestors path), g ∈ userGroups :=
    fun userGroups => accessWalk_iff content userGroups _
  unfold KeptClosed
  constructor
  · intro hclosed
    constructor
    · intro hnone
      have hdenied := hclosed [] fun hgrant => by
        obtain ⟨g, -, hg⟩ := (hgranted []).mp hgrant
        cases hg
      rw [(hallowed []).mpr (.inl hnone)] at hdenied
      cases hdenied
    · intro g hg
      by_contra hnot
      have hdenied := hclosed [g] fun hgrant => by
        obtain ⟨g', hg', hmem⟩ := (hgranted [g]).mp hgrant
        rw [mem_singleton.mp hmem] at hg'
        exact hnot hg'
      rw [(hallowed [g]).mpr (.inr ⟨g, hg, mem_cons_self⟩)] at hdenied
      cases hdenied
  · rintro ⟨hsome, hreach⟩ userGroups hdenied
    rw [Bool.eq_false_iff]
    intro hallow
    rcases (hallowed userGroups).mp hallow with hnone | ⟨g, hg, huser⟩
    · exact hsome hnone
    · exact hdenied ((hgranted userGroups).mpr ⟨g, hreach g hg, huser⟩)

end Access

def emptyBook : Book := ⟨[], [], Book.noEntries⟩

def oneFolder : Content where
  list path := if path = [] then .ok [['f', '/']] else if path = ['f'] then .ok [".config"] else .error .notFound
  config path := if path = ['f'] then .ok ⟨[['a']], [], false⟩ else .error .notFound
  entry _ _ := .error .notFound
  folder_segment := by
    intro path keys name hlist hname
    split_ifs at hlist
    · rw [← Except.ok.inj hlist, List.mem_singleton] at hname
      have hsame : name ++ ['/'] = ['f'] ++ ['/'] := hname
      rw [(List.append_left_inj _).mp hsame]
      decide
    · rw [← Except.ok.inj hlist, List.mem_singleton] at hname
      exact absurd (congrArg List.getLast? hname) (by simp)

def shared : Text := "shared"

/-- Without failures the folder is as closed as before. -/
theorem migration_keeps_oneFolder :
    ∃ book', cmdDbMigrateFromVault oneFolder (fun _ => none) shared false false 2 emptyBook = some ([['f']], book') ∧
      ∀ userGroups, resolveFolderAccess oneFolder ['f'] userGroups ≠ .ok true →
        book'.folderAllowedForUser shared ['f'] userGroups = false := by
  have hfolders : (cmdDbMigrateFromVault oneFolder (fun _ => none) shared false false 2 emptyBook).map (·.1) =
      some [['f']] := by decide +kernel
  obtain ⟨⟨folderPaths, book'⟩, hcmd, rfl⟩ := map_eq_some_iff.mp hfolders
  refine ⟨book', hcmd, (migration_keeps_closed_iff rfl hcmd mem_cons_self).mpr ?_⟩
  rw [KeptClosed, Rbac.abFolderAncestors_top (by decide)]
  decide +kernel

def failingConfig : Read → Option VaultError
  | .config _ => some .unavailable
  | _ => none

/-- **A folder opened.** Vault does not let the group `b` in; after a migration that could not read the config of the
folder it is open to everyone. -/
theorem migration_opens_oneFolder : resolveFolderAccess oneFolder ['f'] [['b']] = .ok false ∧
      ∃ book', cmdDbMigrateFromVault oneFolder failingConfig shared false false 2 emptyBook = some ([['f']], book') ∧
        book'.folderAllowedForUser shared ['f'] [['b']] = true := by
  have hfolders : (cmdDbMigrateFromVault oneFolder failingConfig shared false false 2 emptyBook).map (·.1) =
      some [['f']] := by decide +kernel
  obtain ⟨⟨folderPaths, book'⟩, hcmd, rfl⟩ := map_eq_some_iff.mp hfolders
  refine ⟨?_, book', hcmd, ?_⟩
  · rw [resolveFolderAccess, Rbac.abFolderAncestors_top (by decide)]
    rfl
  · refine ((migrated_of_cmd rfl hcmd).folderAllowed_iff mem_cons_self _).mpr (.inl ?_)
    rw [Rbac.abFolderAncestors_top (by decide)]
    decide +kernel

end Persea.DbMigrate
