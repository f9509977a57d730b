import Persea.AddressBook
import Persea.AuthIdentity

/-! The address-book import, `import_csv`, and the folders it adds. Every row names a folder by its path, and the
missing levels of the path are created without groups and without inheritance: who sees them is then left to the
groups of their entries. -/

namespace Persea.AddressBook

open Base Base.Text List Book

structure ImportRow where
  (name protocol hostname : Text)
  port : Option Nat
  (username password folder displayName : Text)
  allowedGroups : List Text
  privateKey : Option Text
deriving DecidableEq, Repr

inductive ImportMode where
  | create
  | upsert
  | update
deriving DecidableEq, Repr

def ImportMode.fromText (mode : Text) : Option ImportMode :=
  if mode = "create" then some .create
  else if mode = "upsert" then some .upsert
  else if mode = "update" then some .update
  else none

structure ImportEnv where
  /-- No encryption key is configured: credentials are dropped. -/
  keyEmpty : Bool
  /-- Encrypting and storing a credential: the text of the error, if it fails. -/
  storeCredential : (credentialType : String) → (value : Text) → Option String
  /-- The comparison of the settings and the stored credentials in `row_matches_entry`. -/
  sameSettings : AbEntry → ImportRow → Bool

structure Report where
  (imported updated unchanged skipped passwordsDropped : Nat)
  errors : List (Nat × String)
deriving DecidableEq, Repr

def Report.fail (r : Report) (rowIndex : Nat) (error : String) : Report :=
  { r with errors := r.errors ++ [(rowIndex, error)] }

def lowerAscii (s : Text) : Text := s.map Char.toLower

def slugLoop : (slug : Text) → (prevSep : Bool) → Text → Text
  | slug, _, [] => slug
  | slug, prevSep, c :: rest =>
    let lower := c.toLower
    if lower.isAlphanum then slugLoop (lower :: slug) false rest
    else if isWhitespace c then slugLoop (if !prevSep && !slug.isEmpty then '-' :: slug else slug) true rest
    else if lower = '.' ∨ lower = '_' ∨ lower = '-' then
      slugLoop (if !prevSep && !slug.isEmpty then lower :: slug else slug) true rest
    else slugLoop slug prevSep rest

def slugify (name : Text) : Text :=
  ((slugLoop [] false (trim name)).dropWhile fun c => c = '-' ∨ c = '.' ∨ c = '_').reverse

def fuzzyKey (name : Text) : Text := (lowerAscii name).filter Char.isAlphanum

def validProtocols : List String := ["ssh", "rdp", "vnc", "spice", "web", "vdi", "proxmox", "powershell"]

def validateRow (name protocol hostname : Text) : Except String Unit :=
  if trim name = [] then .error "name is required"
  else
    let protocol := String.ofList (lowerAscii (trim protocol))
    let valid := String.intercalate ", " validProtocols
    if protocol ∉ validProtocols then .error s!"invalid protocol '{protocol}' (must be one of {valid})"
    else if trim hostname = [] ∧ protocol ∉ ["web", "vdi", "proxmox"] then
      .error s!"hostname is required for protocol '{protocol}'"
    else .ok ()

def ImportRow.slug (row : ImportRow) : Except String Text :=
  let friendlyName := trim row.name
  let slug := slugify friendlyName
  match validateRow friendlyName (lowerAscii (trim row.protocol)) (trim row.hostname) with
  | .error e => .error e
  | .ok () =>
    if slug = [] then
      .error (s!"'{String.ofList friendlyName}' contains no usable characters for the entry identifier — " ++
        "use at least one letter, digit, dot, underscore or dash")
    else if 64 < slug.length then
      .error (s!"'{String.ofList friendlyName}' is too long — " ++
        s!"the connection identifier may be at most 64 characters (got {slug.length})")
    else .ok slug

def normalizeFolder (path : Text) : Text := ((trim path).dropWhile (· = '/')).rdropWhile (· = '/')

def ImportRow.groups (row : ImportRow) : Text := [','].intercalate ((row.allowedGroups.map trim).filter (· ≠ []))

def getOrCreateFolder (book : Book) (scope name : Text) : Book :=
  match book.getAbFolder scope name with
  | some _ => book
  | none => (book.createAbFolder ⟨scope, name, [], [], false⟩).getD book

def segmentError (path segment : Text) : Option String :=
  if segment = ['.'] ∨ segment = ['.', '.'] then
    some s!"invalid folder path '{String.ofList path}': '.' and '..' segments are not allowed"
  else if segment.any isControl then
    some s!"invalid folder path '{String.ofList path}': control characters are not allowed"
  else none

def below (current segment : Text) : Text := if current = [] then segment else current ++ '/' :: segment

def ensureLevels (scope path : Text) : (current : Text) → List Text → Book → Book × Except String Text
  | current, [], book => (book, .ok current)
  | current, segment :: segments, book =>
    match segmentError path segment with
    | some e => (book, .error e)
    | none =>
      ensureLevels scope path (below current segment) segments
        (getOrCreateFolder book scope (below current segment))

/-- The path of the leaf stands for its id. -/
def ensureFolder (book : Book) (scope path : Text) : Book × Except String Text :=
  match (path.splitOn '/').filter (· ≠ []) with
  | [] => (getOrCreateFolder book scope [], .ok [])
  | segments => ensureLevels scope path [] segments book

variable (env : ImportEnv)

def storeRowCredential (rowIndex : Nat) (credentialType : String) (value : Text) (r : Report) : Bool × Report :=
  if value = [] then (true, r)
  else if env.keyEmpty then (true, { r with passwordsDropped := r.passwordsDropped + 1 })
  else
    match env.storeCredential credentialType value with
    | none => (true, r)
    | some e => (false, r.fail rowIndex e)

def storeRowCredentials (rowIndex : Nat) (row : ImportRow) (r : Report) : Bool × Report :=
  match storeRowCredential env rowIndex "password" row.password r with
  | (false, r) => (false, r)
  | (true, r) => storeRowCredential env rowIndex "private_key" (row.privateKey.getD []) r

def effectiveDisplayName (friendlyName displayNameOverride : Text) : Text :=
  if trim displayNameOverride = [] then friendlyName else trim displayNameOverride

def ImportRow.entry (row : ImportRow) (scope folder slug : Text) : AbEntry where
  scope := scope
  folder := folder
  name := slug
  displayName := effectiveDisplayName (trim row.name) row.displayName
  protocol := lowerAscii (trim row.protocol)
  hostname := trim row.hostname
  port := row.port
  username := trim row.username
  allowedGroups := row.groups

def rowMatchesEntry (entry : AbEntry) (row : ImportRow) : Bool :=
  entry.protocol = lowerAscii (trim row.protocol) && entry.hostname = trim row.hostname && entry.port = row.port &&
    entry.username = trim row.username && entry.allowedGroups = row.groups && env.sameSettings entry row

def insertNewRow (rowIndex : Nat) (row : ImportRow) (entry : AbEntry) (book : Book) (r : Report) : Book × Report :=
  match book.createAbEntry entry with
  | none => (book, { r with skipped := r.skipped + 1 })
  | some created =>
    match storeRowCredentials env rowIndex row r with
    | (true, r) => (created, { r with imported := r.imported + 1 })
    | (false, r) => (created.deleteAbEntry entry.scope entry.folder entry.name, r)

def updateExistingRow (rowIndex : Nat) (row : ImportRow) (entry : AbEntry) (book : Book)
    (r : Report) : Book × Report :=
  match storeRowCredentials env rowIndex row r with
  | (true, r) => (book.updateAbEntry entry, { r with updated := r.updated + 1 })
  | (false, r) => (book.updateAbEntry entry, r)

/-- A row whose folder is there. Near-duplicates are reported where a row would be created. -/
def importEntry (mode : ImportMode) (rowIndex : Nat) (row : ImportRow) (scope folder slug : Text)
    (book : Book) (r : Report) : Book × Report :=
  let entry := row.entry scope folder slug
  match book.getAbEntry scope folder slug with
  | some existing =>
    match mode with
    | .create => (book, { r with skipped := r.skipped + 1 })
    | .update => updateExistingRow env rowIndex row entry book r
    | .upsert =>
      if rowMatchesEntry env existing row then (book, { r with unchanged := r.unchanged + 1 })
      else updateExistingRow env rowIndex row entry book r
  | none =>
    if mode = .update then
      (book, r.fail rowIndex (s!"no existing entry '{String.ofList slug}' to update — " ++
        "use mode 'upsert' to create missing rows"))
    else
      match (book.listAbEntries scope folder).find? fun e => fuzzyKey e.name = fuzzyKey slug with
      | some hit =>
        (book, { r.fail rowIndex (s!"'{String.ofList (trim row.name)}' is a near-duplicate of existing entry " ++
          s!"'{String.ofList hit.name}' (skipped)") with skipped := r.skipped + 1 })
      | none => insertNewRow env rowIndex row entry book r

def importRow (scope : Text) (mode : ImportMode) (rowIndex : Nat) (row : ImportRow) (book : Book)
    (r : Report) : Book × Report :=
  match row.slug with
  | .error e => (book, r.fail rowIndex e)
  | .ok slug =>
    match ensureFolder book scope (normalizeFolder row.folder) with
    | (book, .error e) => (book, r.fail rowIndex s!"validation error: {e}")
    | (book, .ok folder) => importEntry env mode rowIndex row scope folder slug book r

inductive ImportError where
  | forbidden (msg : String)
  | internal (msg : String)
  | validation (msg : String)
deriving DecidableEq, Repr

/-- The body, or the rows of a parsed CSV body. -/
structure ImportRequest where
  scope : Text
  mode : Option Text
  rows : List ImportRow
deriving DecidableEq, Repr

def importRows (env : ImportEnv) (scope : Text) (mode : ImportMode) (rows : List ImportRow) (book : Book) (r : Report) :
    Book × Report :=
  (rows.zipIdx 1).foldl (fun state row => importRow env scope mode row.2 row.1 state.1 state.2) (book, r)

def importScope (req : ImportRequest) : Text := if trim req.scope = [] then "shared" else trim req.scope

def importCsv (env : ImportEnv) (identity : Option Auth.AuthIdentity) (storageAvailable : Bool) (queryMode : Text)
    (req : ImportRequest) (report : Report) (book : Book) : Book × Except ImportError Report :=
  if identity.any (fun id => id.hasRole "admin") = false then (book, .error (.forbidden "admin role required"))
  else if storageAvailable = false then
    (book, .error (.internal "address book unavailable: no storage backend configured"))
  else
    let mode := lowerAscii (trim (req.mode.getD queryMode))
    match ImportMode.fromText mode with
    | none =>
      (book, .error (.validation
        s!"invalid mode '{String.ofList mode}' (must be one of: create, upsert, update)"))
    | some mode =>
      let done := importRows env (importScope req) mode req.rows book report
      (done.1, .ok done.2)

def addedFolder (scope name : Text) : AbFolder := ⟨scope, name, [], [], false⟩

def levels (path : Text) : (current : Text) → List Text → List Text
  | _, [] => []
  | current, segment :: segments =>
    match segmentError path segment with
    | some _ => []
    | none => below current segment :: levels path (below current segment) segments

def pathLevels (path : Text) : List Text :=
  match (path.splitOn '/').filter (· ≠ []) with
  | [] => [[]]
  | segments => levels path [] segments

/-- The folders that a row makes sure of: those of its path, if the row passes its checks. -/
def ImportRow.levels (row : ImportRow) : List Text :=
  match row.slug with
  | .error _ => []
  | .ok _ => pathLevels (normalizeFolder row.folder)

variable {book : Book} {scope : Text}

theorem getAbFolder_getOrCreateFolder (book : Book) (scope name p : Text) :
    (getOrCreateFolder book scope name).getAbFolder scope p =
      (book.getAbFolder scope p).or (if name = p then some (addedFolder scope p) else none) := by
  unfold getOrCreateFolder
  split
  · rename_i f hf
    split_ifs with hp
    · rw [← hp, hf]
      rfl
    · rw [Option.or_none]
  · rename_i hnone
    have hcreate : book.createAbFolder (addedFolder scope name) = some (book.addFolder (addedFolder scope name)) := by
      rw [createAbFolder, if_neg]
      simp [addedFolder, hnone]
    change ((book.createAbFolder (addedFolder scope name)).getD book).getAbFolder scope p = _
    rw [hcreate, Option.getD_some, getAbFolder_addFolder]
    by_cases hp : name = p
    · subst hp
      simp [addedFolder]
    · simp [addedFolder, hp]

theorem entries_getOrCreateFolder (book : Book) (scope name : Text) :
    (getOrCreateFolder book scope name).entries = book.entries := by
  unfold getOrCreateFolder createAbFolder
  split
  · rfl
  · split_ifs <;> rfl

theorem getAbFolder_ensureLevels (scope path p : Text) (current : Text) (segments : List Text) (book : Book) :
    (ensureLevels scope path current segments book).1.getAbFolder scope p = (book.getAbFolder scope p).or
        (if p ∈ levels path current segments then some (addedFolder scope p) else none) := by
  induction segments generalizing current book with
  | nil => simp [ensureLevels, levels]
  | cons segment segments ih =>
    cases hsegment : segmentError path segment with
    | some e => simp [ensureLevels, levels, hsegment]
    | none =>
      simp only [ensureLevels, levels, hsegment]
      rw [ih, getAbFolder_getOrCreateFolder]
      by_cases hp : below current segment = p
      · simp [hp]
      · simp [hp, Ne.symm hp]

theorem entries_ensureLevels (scope path : Text) (current : Text) (segments : List Text) (book : Book) :
    (ensureLevels scope path current segments book).1.entries = book.entries := by
  induction segments generalizing current book with
  | nil => rfl
  | cons segment segments ih =>
    simp only [ensureLevels]
    split
    · rfl
    · rw [ih, entries_getOrCreateFolder]

theorem getAbFolder_ensureFolder (book : Book) (scope path p : Text) :
    (ensureFolder book scope path).1.getAbFolder scope p =
      (book.getAbFolder scope p).or (if p ∈ pathLevels path then some (addedFolder scope p) else none) := by
  unfold ensureFolder pathLevels
  split
  · rw [getAbFolder_getOrCreateFolder]
    by_cases hp : p = []
    · simp [hp]
    · simp [hp, Ne.symm hp]
  · exact getAbFolder_ensureLevels scope path p [] _ book

theorem entries_ensureFolder (book : Book) (scope path : Text) :
    (ensureFolder book scope path).1.entries = book.entries := by
  unfold ensureFolder
  split
  · exact entries_getOrCreateFolder book scope []
  · exact entries_ensureLevels scope path [] _ book

theorem leaf_mem_levels {path current folder : Text} {segments : List Text} {book : Book} (hne : segments ≠ [])
    (h : (ensureLevels scope path current segments book).2 = .ok folder) :
    folder ∈ levels path current segments := by
  induction segments generalizing current book with
  | nil => exact absurd rfl hne
  | cons segment segments ih =>
    cases hsegment : segmentError path segment with
    | some e =>
      simp only [ensureLevels, hsegment] at h
      cases h
    | none =>
      simp only [ensureLevels, levels, hsegment] at h ⊢
      cases segments with
      | nil =>
        cases h
        exact mem_cons_self
      | cons next segments => exact mem_cons_of_mem _ (ih (cons_ne_nil _ _) h)

theorem leaf_mem_pathLevels {path folder : Text} (h : (ensureFolder book scope path).2 = .ok folder) :
    folder ∈ pathLevels path := by
  unfold ensureFolder at h
  unfold pathLevels
  split at h
  · cases h
    exact mem_singleton_self _
  · rename_i hne
    exact leaf_mem_levels hne h

/-! ### The entries after an import -/

def pathLeaf (path : Text) : Option Text :=
  let segments := (path.splitOn '/').filter (· ≠ [])
  if segments.any fun segment => (segmentError path segment).isSome then none else some (segments.foldl below [])

def ImportRow.target (row : ImportRow) : Option (Text × Text) :=
  match row.slug with
  | .error _ => none
  | .ok slug => (pathLeaf (normalizeFolder row.folder)).map fun folder => (folder, slug)

def credentialKept (credentialType : String) (value : Text) : Bool :=
  value = [] || env.keyEmpty || (env.storeCredential credentialType value).isNone

def credentialsKept (row : ImportRow) : Bool :=
  credentialKept env "password" row.password && credentialKept env "private_key" (row.privateKey.getD [])

/-- **One folder's view of the import**: what a row makes of the folder's entries. -/
def settleRow (scope : Text) (mode : ImportMode) (p : Text) (existing : List AbEntry)
    (row : ImportRow) : List AbEntry :=
  match row.target with
  | none => existing
  | some (folder, slug) =>
    if folder ≠ p then existing
    else
      match existing.find? fun e => e.name = slug with
      | some old =>
        if mode = .create ∨ mode = .upsert ∧ rowMatchesEntry env old row = true then existing
        else existing.map fun e => if e.name = slug then row.entry scope p slug else e
      | none =>
        if mode = .update ∨ (existing.any fun e => fuzzyKey e.name = fuzzyKey slug) = true ∨
          credentialsKept env row = false then existing
        else existing ++ [row.entry scope p slug]

def entriesLeft (env : ImportEnv) (scope : Text) (mode : ImportMode) (rows : List ImportRow) (p : Text) :
    List AbEntry :=
  rows.foldl (settleRow env scope mode p) []

theorem ensureLevels_leaf (scope path : Text) (current : Text) (segments : List Text) (book : Book) :
    (ensureLevels scope path current segments book).2.toOption =
      if segments.any fun segment => (segmentError path segment).isSome then none
      else some (segments.foldl below current) := by
  induction segments generalizing current book with
  | nil => rfl
  | cons segment segments ih =>
    cases hsegment : segmentError path segment with
    | some e => simp [ensureLevels, hsegment, Except.toOption]
    | none => simp [ensureLevels, hsegment, ih]

theorem ensureFolder_leaf (book : Book) (scope path : Text) :
    (ensureFolder book scope path).2.toOption = pathLeaf path := by
  unfold ensureFolder pathLeaf
  split
  · rename_i hnil
    rw [hnil]
    rfl
  · exact ensureLevels_leaf scope path [] _ book

theorem storeRowCredential_kept (env : ImportEnv) (rowIndex : Nat) (credentialType : String) (value : Text)
    (r : Report) :
    (storeRowCredential env rowIndex credentialType value r).1 = credentialKept env credentialType value := by
  unfold storeRowCredential credentialKept
  by_cases hvalue : value = []
  · simp [hvalue]
  · cases hkey : env.keyEmpty with
    | true => simp [hvalue]
    | false => cases hstore : env.storeCredential credentialType value <;> simp [hvalue]

theorem storeRowCredentials_kept (env : ImportEnv) (rowIndex : Nat) (row : ImportRow) (r : Report) :
    (storeRowCredentials env rowIndex row r).1 = credentialsKept env row := by
  have hpassword := storeRowCredential_kept env rowIndex "password" row.password r
  unfold storeRowCredentials credentialsKept
  rw [← hpassword]
  cases storeRowCredential env rowIndex "password" row.password r with
  | mk kept r' =>
    cases kept with
    | false => rfl
    | true => exact storeRowCredential_kept env rowIndex "private_key" (row.privateKey.getD []) r'

theorem entriesOf_addEntry {entry : AbEntry} (hfolder : (book.getAbFolder scope entry.folder).isSome)
    (hscope : entry.scope = scope) (p : Text) :
    (book.addEntry entry).entriesOf scope p = book.entriesOf scope p ++ if entry.folder = p then [entry] else [] := by
  obtain ⟨f, hf⟩ := Option.isSome_iff_exists.mp hfolder
  have hkey := find?_some hf
  simp only [decide_eq_true_eq] at hkey
  have hexists : ∃ f ∈ book.folders, f.scope = entry.scope ∧ f.name = entry.folder :=
    ⟨f, mem_of_find?_eq_some hf, hkey.1.trans hscope.symm, hkey.2⟩
  simp only [entriesOf, addEntry, dif_pos hexists, filter_append]
  by_cases hp : entry.folder = p
  · simp [hp, hscope]
  · simp [hp]

theorem entriesOf_updateAbEntry (book : Book) (entry : AbEntry) (hscope : entry.scope = scope) (p : Text) :
    (book.updateAbEntry entry).entriesOf scope p =
      (book.entriesOf scope p).map fun e => if entry.folder = p ∧ e.name = entry.name then entry else e := by
  simp only [entriesOf, updateAbEntry, List.filter_map]
  have hkey : (fun e : AbEntry => decide (e.scope = scope ∧ e.folder = p)) ∘
      (fun e => if e.scope = entry.scope ∧ e.folder = entry.folder ∧ e.name = entry.name then entry else e) =
      fun e => decide (e.scope = scope ∧ e.folder = p) := by
    funext e
    simp only [Function.comp_apply]
    split_ifs with hsame
    · rw [hsame.1, hsame.2.1]
    · rfl
  rw [hkey]
  apply map_congr_left
  intro e he
  obtain ⟨hescope, hefolder⟩ : e.scope = scope ∧ e.folder = p := by simpa using (mem_filter.mp he).2
  simp only [hescope, hefolder, hscope, true_and, eq_comm (a := p)]

theorem entriesOf_deleteAbEntry (book : Book) (scope folder name p : Text) :
    (book.deleteAbEntry scope folder name).entriesOf scope p =
      (book.entriesOf scope p).filter fun e => ¬(folder = p ∧ e.name = name) := by
  simp only [entriesOf, deleteAbEntry, List.filter_filter]
  apply filter_congr
  intro e _
  by_cases hkey : e.scope = scope ∧ e.folder = p
  · simp [hkey.1, hkey.2, eq_comm (a := p)]
  · rw [decide_eq_false hkey, Bool.and_false, Bool.false_and]

theorem entriesOf_insertNewRow (env : ImportEnv) (rowIndex : Nat) (row : ImportRow) (r : Report) (entry : AbEntry)
    (hfolder : (book.getAbFolder scope entry.folder).isSome) (hscope : entry.scope = scope)
    (hnew : book.getAbEntry scope entry.folder entry.name = none) (p : Text) :
    (insertNewRow env rowIndex row entry book r).1.entriesOf scope p =
      book.entriesOf scope p ++ if entry.folder = p ∧ credentialsKept env row then [entry] else [] := by
  have hcreate : book.createAbEntry entry = some (book.addEntry entry) := by
    rw [createAbEntry, hscope, hnew]
    rfl
  have hkept := storeRowCredentials_kept env rowIndex row r
  unfold insertNewRow
  rw [hcreate]
  cases hstore : storeRowCredentials env rowIndex row r with
  | mk kept r' =>
    rw [hstore] at hkept
    simp only at hkept
    rw [← hkept]
    cases kept with
    | true =>
      simp only [and_true]
      exact entriesOf_addEntry hfolder hscope p
    | false =>
      simp only [hscope, Bool.false_eq_true, and_false, if_false, append_nil]
      rw [entriesOf_deleteAbEntry, entriesOf_addEntry hfolder hscope, filter_append]
      by_cases hp : entry.folder = p
      · subst hp
        have hothers : ∀ e ∈ book.entriesOf scope entry.folder, e.name ≠ entry.name := by
          intro e he hname
          exact find?_eq_none.mp hnew e he (by simp [hname])
        have hself : (book.entriesOf scope entry.folder).filter (fun e => ¬(True ∧ e.name = entry.name)) =
            book.entriesOf scope entry.folder :=
          filter_eq_self.mpr fun e he => by simp [hothers e he]
        simpa using hself
      · simp [hp]

theorem entriesOf_updateExistingRow (book : Book) (env : ImportEnv) (rowIndex : Nat) (row : ImportRow) (r : Report) (entry : AbEntry)
    (hscope : entry.scope = scope) (p : Text) :
    (updateExistingRow env rowIndex row entry book r).1.entriesOf scope p =
      (book.entriesOf scope p).map fun e => if entry.folder = p ∧ e.name = entry.name then entry else e := by
  have hbook : (updateExistingRow env rowIndex row entry book r).1 = book.updateAbEntry entry := by
    unfold updateExistingRow
    split <;> rfl
  rw [hbook]
  exact entriesOf_updateAbEntry book entry hscope p

theorem near_duplicate_iff (book : Book) (scope folder slug : Text) :
    ((book.listAbEntries scope folder).find? fun e => fuzzyKey e.name = fuzzyKey slug) = none ↔
      ((book.entriesOf scope folder).any fun e => fuzzyKey e.name = fuzzyKey slug) = false := by
  simp only [find?_eq_none, List.any_eq_false, listAbEntries, mem_insertionSort]

variable {env : ImportEnv} {mode : ImportMode} {row : ImportRow} {folder slug : Text}

@[simp] theorem ImportRow.entry_folder (row : ImportRow) (scope folder slug : Text) :
    (row.entry scope folder slug).folder = folder := rfl

@[simp] theorem ImportRow.entry_name (row : ImportRow) (scope folder slug : Text) :
    (row.entry scope folder slug).name = slug := rfl

variable (rowIndex : Nat) {p : Text}

theorem entriesOf_importEntry_ne (hfolder : (book.getAbFolder scope folder).isSome) (rowIndex : Nat)
    (r : Report) (hp : folder ≠ p) :
    (importEntry env mode rowIndex row scope folder slug book r).1.entriesOf scope p = book.entriesOf scope p := by
  have hupdate := entriesOf_updateExistingRow book env rowIndex row r (row.entry scope folder slug)
    (rfl : _ = scope) p
  simp only [ImportRow.entry_folder, hp, false_and, if_false, List.map_id'] at hupdate
  unfold importEntry
  cases hold : book.getAbEntry scope folder slug with
  | some old =>
    cases mode with
    | create => rfl
    | update => exact hupdate
    | upsert =>
      by_cases hsame : rowMatchesEntry env old row
      · simp only [hsame, if_true]
      · simp only [hsame]
        exact hupdate
  | none =>
    have hinsert := entriesOf_insertNewRow env rowIndex row r (row.entry scope folder slug) hfolder rfl hold p
    simp only [ImportRow.entry_folder, hp, false_and, if_false, append_nil] at hinsert
    by_cases hmode : mode = .update
    · simp only [hmode, if_true]
    · simp only [hmode, if_false]
      split
      · rfl
      · exact hinsert

theorem entriesOf_importEntry (hfolder : (book.getAbFolder scope folder).isSome)
    (htarget : row.target = some (folder, slug)) (rowIndex : Nat) (r : Report) :
    (importEntry env mode rowIndex row scope folder slug book r).1.entriesOf scope folder =
      settleRow env scope mode folder (book.entriesOf scope folder) row := by
  have hupdate := entriesOf_updateExistingRow book env rowIndex row r (row.entry scope folder slug)
    (rfl : _ = scope) folder
  simp only [ImportRow.entry_folder, ImportRow.entry_name, true_and] at hupdate
  unfold importEntry settleRow
  simp only [htarget, ne_eq, not_true_eq_false, if_false]
  rw [getAbEntry]
  cases hold : (book.entriesOf scope folder).find? fun e => decide (e.name = slug) with
  | some old =>
    cases mode with
    | create => simp
    | update => simpa using hupdate
    | upsert =>
      by_cases hsame : rowMatchesEntry env old row
      · simp [hsame]
      · simpa [hsame] using hupdate
  | none =>
    by_cases hmode : mode = .update
    · simp [hmode]
    · have hinsert := entriesOf_insertNewRow env rowIndex row r (row.entry scope folder slug) hfolder rfl hold folder
      simp only [ImportRow.entry_folder, true_and] at hinsert
      simp only [hmode, if_false, false_or]
      cases hnear : (book.listAbEntries scope folder).find? fun e => decide (fuzzyKey e.name = fuzzyKey slug) with
      | some hit =>
        have hany : ((book.entriesOf scope folder).any fun e => fuzzyKey e.name = fuzzyKey slug) := by
          by_contra hany
          have hnone := (near_duplicate_iff book scope folder slug).mpr (by simpa using hany)
          rw [hnear] at hnone
          cases hnone
        simp [hany]
      | none =>
        have hany := (near_duplicate_iff book scope folder slug).mp hnear
        simp only [hinsert, hany, Bool.false_eq_true, false_or]
        cases credentialsKept env row <;> simp

theorem folders_importEntry (r : Report) :
    (importEntry env mode rowIndex row scope folder slug book r).1.folders = book.folders := by
  have hupdate : (updateExistingRow env rowIndex row (row.entry scope folder slug) book r).1.folders =
      book.folders := by
    unfold updateExistingRow
    split <;> rfl
  have hadd : (book.addEntry (row.entry scope folder slug)).folders = book.folders := by
    unfold addEntry
    split_ifs <;> rfl
  have hinsert : (insertNewRow env rowIndex row (row.entry scope folder slug) book r).1.folders = book.folders := by
    unfold insertNewRow createAbEntry
    split_ifs
    · rfl
    · simp only
      split
      · exact hadd
      · exact hadd
  unfold importEntry
  split
  · split
    · rfl
    · exact hupdate
    · split_ifs
      · rfl
      · exact hupdate
  · split_ifs
    · rfl
    · split
      · rfl
      · exact hinsert

theorem importRow_cases (env : ImportEnv) (scope : Text) (mode : ImportMode) (row : ImportRow) (rowIndex : Nat)
    (book : Book) (r : Report) :
    row.target = none ∧ ((importRow env scope mode rowIndex row book r).1 = book ∧ row.levels = [] ∨
        (importRow env scope mode rowIndex row book r).1 = (ensureFolder book scope (normalizeFolder row.folder)).1 ∧
          row.levels = pathLevels (normalizeFolder row.folder)) ∨
      ∃ folder slug, row.target = some (folder, slug) ∧ row.levels = pathLevels (normalizeFolder row.folder) ∧
        folder ∈ row.levels ∧
        (importRow env scope mode rowIndex row book r).1 = (importEntry env mode rowIndex row scope folder slug
            (ensureFolder book scope (normalizeFolder row.folder)).1 r).1 := by
  unfold importRow ImportRow.target ImportRow.levels
  cases row.slug with
  | error e => exact .inl ⟨rfl, .inl ⟨rfl, rfl⟩⟩
  | ok slug =>
    have hleaf := ensureFolder_leaf book scope (normalizeFolder row.folder)
    have hmem : ∀ {folder : Text}, (ensureFolder book scope (normalizeFolder row.folder)).2 = .ok folder →
          folder ∈ pathLevels (normalizeFolder row.folder) := leaf_mem_pathLevels
    cases hensure : ensureFolder book scope (normalizeFolder row.folder) with
    | mk book' leaf =>
      rw [hensure] at hleaf hmem
      cases leaf with
      | error e =>
        have hnone : pathLeaf (normalizeFolder row.folder) = none := hleaf.symm
        simp [hnone]
      | ok folder =>
        have hsome : pathLeaf (normalizeFolder row.folder) = some folder := hleaf.symm
        right
        exact ⟨folder, slug, by simp [hsome], rfl, hmem rfl, rfl⟩

theorem getAbFolder_importRow (book : Book) (r : Report) (p : Text) :
    (importRow env scope mode rowIndex row book r).1.getAbFolder scope p =
      (book.getAbFolder scope p).or (if p ∈ row.levels then some (addedFolder scope p) else none) := by
  rcases importRow_cases env scope mode row rowIndex book r with
    ⟨-, ⟨hbook, hlevels⟩ | ⟨hbook, hlevels⟩⟩ | ⟨folder, slug, -, hlevels, -, hbook⟩
  · simp [hbook, hlevels]
  · rw [hbook, hlevels]
    exact getAbFolder_ensureFolder book scope _ p
  · rw [hbook, hlevels, ← getAbFolder_ensureFolder, getAbFolder, folders_importEntry]
    rfl

theorem entriesOf_importRow (book : Book) (r : Report) (p : Text) :
    (importRow env scope mode rowIndex row book r).1.entriesOf scope p =
      settleRow env scope mode p (book.entriesOf scope p) row := by
  have hentries : ∀ path, (ensureFolder book scope path).1.entriesOf scope p = book.entriesOf scope p := by
    intro path
    rw [entriesOf, entries_ensureFolder]
    rfl
  rcases importRow_cases env scope mode row rowIndex book r with
    ⟨htarget, ⟨hbook, -⟩ | ⟨hbook, -⟩⟩ | ⟨folder, slug, htarget, hlevels, hmem, hbook⟩
  · simp only [settleRow, htarget, hbook]
  · simp only [settleRow, htarget, hbook, hentries]
  · have hfolder : ((ensureFolder book scope (normalizeFolder row.folder)).1.getAbFolder scope folder).isSome := by
      rw [getAbFolder_ensureFolder, ← hlevels, if_pos hmem]
      cases book.getAbFolder scope folder <;> rfl
    rw [hbook]
    by_cases hp : folder = p
    · subst hp
      rw [entriesOf_importEntry hfolder htarget, hentries]
    · rw [entriesOf_importEntry_ne hfolder rowIndex r hp, hentries]
      simp [settleRow, htarget, hp]

theorem importRows_from (env : ImportEnv) (scope : Text) (mode : ImportMode) (rows : List ImportRow) (n : Nat)
    (book : Book) (r : Report) (p : Text) :
    let done := (rows.zipIdx n).foldl
      (fun state row => importRow env scope mode row.2 row.1 state.1 state.2) (book, r)
    done.1.getAbFolder scope p = (book.getAbFolder scope p).or
          (if ∃ row ∈ rows, p ∈ row.levels then some (addedFolder scope p) else none) ∧
      done.1.entriesOf scope p = rows.foldl (settleRow env scope mode p) (book.entriesOf scope p) := by
  induction rows generalizing n book r with
  | nil => simp
  | cons row rows ih =>
    obtain ⟨hfolder, hentries⟩ := ih (n + 1) (importRow env scope mode n row book r).1
      (importRow env scope mode n row book r).2
    rw [getAbFolder_importRow] at hfolder
    rw [entriesOf_importRow] at hentries
    simp only [zipIdx_cons, foldl_cons]
    refine ⟨hfolder.trans ?_, hentries⟩
    by_cases hp : p ∈ row.levels
    · simp [hp]
    · simp [hp]

def Beneath (p q : Text) : Prop := q ++ ['/'] <+: p

def importMode (identity : Option Auth.AuthIdentity) (storageAvailable : Bool) (queryMode : Text)
    (req : ImportRequest) : Option ImportMode :=
  if identity.any (fun id => id.hasRole "admin") = false ∨ storageAvailable = false then none
  else ImportMode.fromText (lowerAscii (trim (req.mode.getD queryMode)))

theorem importCsv_book (env : ImportEnv) (identity : Option Auth.AuthIdentity) (storageAvailable : Bool)
    (queryMode : Text) (req : ImportRequest) (report : Report) (book : Book) :
    (importCsv env identity storageAvailable queryMode req report book).1 =
      match importMode identity storageAvailable queryMode req with
      | none => book
      | some mode => (importRows env (importScope req) mode req.rows book report).1 := by
  unfold importCsv importMode
  by_cases hadmin : identity.any (fun id => id.hasRole "admin") = false
  · simp [hadmin]
  · by_cases hstorage : storageAvailable = false
    · simp [hadmin, hstorage]
    · rw [if_neg hadmin, if_neg hstorage, if_neg (not_or.mpr ⟨hadmin, hstorage⟩)]
      dsimp only
      cases ImportMode.fromText (lowerAscii (trim (req.mode.getD queryMode))) <;> rfl

/-- The folder is new and beneath one that the user is denied. -/
structure OpensBeneath (book book' : Book) (scope p q : Text) (userGroups : List Text) : Prop where
  missing : book.getAbFolder scope p = none
  created : (book'.getAbFolder scope p).isSome
  existing : (book.getAbFolder scope q).isSome
  denied : book.folderAllowedForUser scope q userGroups = false
  beneath : Beneath p q

/-- The condition on the rows: each missing folder that a row's path makes sure of, beneath a folder that the user is
denied, is also left with an entry whose groups the user is not in. -/
def LeavesRestricted (env : ImportEnv) (scope : Text) (mode : ImportMode) (rows : List ImportRow) (book : Book)
    (userGroups : List Text) : Prop :=
  ∀ p q, book.getAbFolder scope p = none → (∃ row ∈ rows, p ∈ row.levels) → (book.getAbFolder scope q).isSome →
    book.folderAllowedForUser scope q userGroups = false → Beneath p q →
    ∃ entry ∈ entriesLeft env scope mode rows p, entryAllowed userGroups entry = false

theorem entriesOf_of_missing (h : book.getAbFolder scope p = none) : book.entriesOf scope p = [] := by
  apply filter_eq_nil_iff.mpr
  intro e he hkey
  obtain ⟨hescope, hefolder⟩ : e.scope = scope ∧ e.folder = p := by simpa using hkey
  obtain ⟨f, hf, hfscope, hfname⟩ := book.entry_folder e he
  exact find?_eq_none.mp h f hf (by simp [hfscope, hfname, hescope, hefolder])

theorem folderAllowed_added (h : book.getAbFolder scope p = some (addedFolder scope p))
    (userGroups : List Text) :
    book.folderAllowedForUser scope p userGroups = (book.entriesOf scope p).all (entryAllowed userGroups) := by
  have hwalk : book.aclWalk scope userGroups (p :: Rbac.abFolderAncestors p) = none := by
    rw [aclWalk, h]
    rfl
  rw [folderAllowedForUser, hwalk, h]
  apply Bool.eq_iff_iff.mpr
  simp only [List.all_eq_true, listAbEntries, mem_insertionSort]

/-- **Imports and restricted subtrees.** Every folder that an import adds beneath a folder denied to a user is
denied too exactly if the import leaves in it an entry restricted to groups that the user is not in. -/
theorem import_keeps_denied_iff (env : ImportEnv) (identity : Option Auth.AuthIdentity) (storageAvailable : Bool)
    (queryMode : Text) (req : ImportRequest) (report : Report) (book : Book) (userGroups : List Text) :
    (∀ p q, OpensBeneath book (importCsv env identity storageAvailable queryMode req report book).1
        (importScope req) p q userGroups →
      (importCsv env identity storageAvailable queryMode req report book).1.folderAllowedForUser (importScope req) p
        userGroups = false) ↔
      ∀ mode ∈ importMode identity storageAvailable queryMode req,
        LeavesRestricted env (importScope req) mode req.rows book userGroups := by
  rw [importCsv_book]
  cases importMode identity storageAvailable queryMode req with
  | none =>
    refine iff_of_true ?_ nofun
    intro p q hopens
    have hcreated := hopens.created
    rw [hopens.missing] at hcreated
    cases hcreated
  | some mode =>
    have hrows := importRows_from env (importScope req) mode req.rows 1 book report
    have hadded : ∀ p, book.getAbFolder (importScope req) p = none → (∃ row ∈ req.rows, p ∈ row.levels) →
        (importRows env (importScope req) mode req.rows book report).1.getAbFolder (importScope req) p =
            some (addedFolder (importScope req) p) ∧
          (importRows env (importScope req) mode req.rows book report).1.entriesOf (importScope req) p =
            entriesLeft env (importScope req) mode req.rows p := by
      intro p hmissing hlevel
      obtain ⟨hfolder, hentries⟩ := hrows p
      rw [hmissing, if_pos hlevel] at hfolder
      rw [entriesOf_of_missing hmissing] at hentries
      exact ⟨hfolder, hentries⟩
    have hdenied : ∀ p, book.getAbFolder (importScope req) p = none → (∃ row ∈ req.rows, p ∈ row.levels) →
        ((importRows env (importScope req) mode req.rows book report).1.folderAllowedForUser (importScope req) p
            userGroups = false ↔
          ∃ entry ∈ entriesLeft env (importScope req) mode req.rows p, entryAllowed userGroups entry = false) := by
      intro p hmissing hlevel
      obtain ⟨hfolder, hentries⟩ := hadded p hmissing hlevel
      rw [folderAllowed_added hfolder, hentries, List.all_eq_false]
      simp
    simp only [Option.mem_some_iff, forall_eq']
    constructor
    · intro hkeeps p q hmissing hlevel hexisting hqdenied hbeneath
      apply (hdenied p hmissing hlevel).mp
      refine hkeeps p q ⟨hmissing, ?_, hexisting, hqdenied, hbeneath⟩
      rw [(hadded p hmissing hlevel).1]
      rfl
    · intro hleaves p q hopens
      have hlevel : ∃ row ∈ req.rows, p ∈ row.levels := by
        by_contra hnone
        have hcreated := hopens.created
        have hfolder := (hrows p).1
        rw [hopens.missing, if_neg hnone] at hfolder
        rw [importRows, hfolder] at hcreated
        cases hcreated
      exact (hdenied p hopens.missing hlevel).mpr
        (hleaves p q hopens.missing hlevel hopens.existing hopens.denied hopens.beneath)

def keylessEnv : ImportEnv := ⟨true, fun _ _ => none, fun _ _ => false⟩

def restrictedBook : Book where
  folders := [⟨"shared", ['q'], [], ['g'], true⟩]
  entries := []
  entry_folder := by simp

def nestedImport : Book :=
  (importCsv keylessEnv (some (.user "root" "" "admin" [])) true "upsert"
    ⟨[], none, [⟨['a'], "ssh", ['h'], none, [], [], ['q', '/', 'n'], [], [], none⟩]⟩ ⟨0, 0, 0, 0, 0, []⟩
    restrictedBook).1

theorem restrictedBook_denied : restrictedBook.folderAllowedForUser "shared" ['q'] [] = false := by
  rw [folderAllowedForUser, Rbac.abFolderAncestors_top (by decide)]
  decide +kernel

/-- **A restricted subtree opened.** The folder is denied to a user without groups; the import adds a folder beneath
it that this user is allowed to see. -/
theorem import_opens_nested_folder : OpensBeneath restrictedBook nestedImport "shared" ['q', '/', 'n'] ['q'] [] ∧
      nestedImport.folderAllowedForUser "shared" ['q', '/', 'n'] [] = true := by
  have hadded : nestedImport.getAbFolder "shared" ['q', '/', 'n'] =
      some (addedFolder "shared" ['q', '/', 'n']) := by decide +kernel
  refine ⟨⟨by decide +kernel, by rw [hadded]; rfl, by decide +kernel, restrictedBook_denied, ?_⟩, ?_⟩
  · exact ⟨['n'], rfl⟩
  · rw [folderAllowed_added hadded]
    decide +kernel

end Persea.AddressBook
