import Persea.AddressBookAccess
import Persea.BaseExcept
import Persea.RbacGhosts

/-! What a caller sees of the address book: the entries of one folder, the whole tree, and the entries they may connect
to. A folder is shown or not as a whole, and an entry of a folder that is shown is shown by its own groups. -/

namespace Persea.AddressBook

open Base Base.Text Auth Rbac List Option Book

structure Site where
  world : GrantWorld
  users : List UserRow
  /-- The users that have a `custom_role_id`, with it. -/
  customRoleIds : List (Int × Text)
  /-- The rows of `custom_role_permissions`. -/
  rolePermissions : List (Text × Text)
  /-- `list_ab_folders` succeeds. -/
  storageAvailable : Bool
  /-- The session manager has a database. -/
  managerDb : Bool

variable (site : Site)

def Site.database : Database := ⟨site.world.poolActive, site.users, site.world.tablesWith site.world.permissions⟩

def Site.book (site : Site) : Book := site.world.book

def groups : AuthIdentity → List Text
  | .apiKey _ => []
  | .user _ _ _ groups => groups.map String.toList

def Site.identityUserId (id : AuthIdentity) : Option Int :=
  (identityEmail id).bind fun email => (site.database.getUserByEmail email).map UserRow.id

def Site.customPermissions (userId : Int) : List Text :=
  (site.rolePermissions.filter fun row => (userId, row.1) ∈ site.customRoleIds).map Prod.snd

def Site.caller (id : AuthIdentity) : Caller :=
  if id.hasRole "admin" then .admin
  else
    match site.identityUserId id with
    | some userId => .user userId (site.customPermissions userId)
    | none => .other

def Site.identityHasObjectPermission (id : AuthIdentity) (objectType : ObjectType) (objectId : Text)
    (permission : ObjectPermission) : Bool :=
  (site.caller id).hasObjectPermission site.world objectType objectId permission

def Site.identityHasCustomPermission (id : AuthIdentity) (permission : Text) : Bool :=
  match site.caller id with
  | .admin => true
  | .user _ permissions => permission ∈ permissions
  | .other => false

def Site.readsFolder (id : AuthIdentity) (folder : Text) : Bool :=
  site.identityHasObjectPermission id .connectionGroup folder .read

def Site.folderShown (id : AuthIdentity) (scope folder : Text) : Bool :=
  id.hasRole "admin" || site.book.folderAllowedForUser scope folder (groups id) || site.readsFolder id folder

def checkFolderAccessDb (scope folder : Text) (id : AuthIdentity) : Except AbError Unit :=
  if id.hasRole "admin" then .ok ()
  else if site.readsFolder id folder then .ok ()
  else if site.book.folderAllowedForUser scope folder (groups id) then .ok ()
  else .error (.forbidden "no access to this folder")

def Site.entryShown (id : AuthIdentity) (entry : AbEntry) : Bool :=
  id.hasRole "admin" || site.identityHasCustomPermission id "read" || entryAllowed (groups id) entry

def checkEntryAccessDb (scope folder name : Text) (id : AuthIdentity) : Except AbError Unit :=
  if id.hasRole "admin" then .ok ()
  else if site.identityHasCustomPermission id "read" then .ok ()
  else
    match site.book.getAbEntry scope folder name with
    | none => .error (.notFound "entry not found: Query returned no rows")
    | some entry =>
      if entryAllowed (groups id) entry then .ok () else .error (.forbidden "no access to this entry")

/-- The gate at the beginning of a handler: a permission of the custom role stands in for the role. -/
def Site.admit (identity : Option AuthIdentity) (permission : Text) (unavailable : String) :
    Except AbError AuthIdentity :=
  match identity with
  | none => .error (.forbidden "operator role required")
  | some id =>
    if (id.hasRole "operator" || site.identityHasCustomPermission id permission) = false then
      .error (.forbidden "operator role required")
    else if site.storageAvailable = false then .error (.vault unavailable)
    else .ok id

def noBackend : String := "address book unavailable: no storage backend configured"

def abListEntries (identity : Option AuthIdentity) (scope folder : Text) : Except AbError (List AbEntry) := do
  let id ← site.admit identity "read" "address book unavailable"
  checkFolderAccessDb site scope folder id
  match site.book.getAbFolder scope folder with
  | none => .error (.notFound "folder not found: Query returned no rows")
  | some _ => .ok ((site.book.listAbEntries scope folder).filter (site.entryShown id))

def Book.listAbFolders (book : Book) : List AbFolder :=
  book.folders.insertionSort fun a b => a.scope ≠ b.scope ∧ lexLe a.scope b.scope = true ∨
    a.scope = b.scope ∧ lexLe a.name b.name = true

structure FolderListing where
  (name scope path : Text)
  hasChildren : Bool
  description : Text
  entries : List AbEntry
deriving DecidableEq, Repr

def abListAll (identity : Option AuthIdentity) : Except AbError (List FolderListing) := do
  let id ← site.admit identity "read" noBackend
  let folders := site.book.listAbFolders
  .ok ((folders.filter fun folder => site.folderShown id folder.scope folder.name).map fun folder =>
    { name := folder.name
      scope := folder.scope
      path := folder.name
      hasChildren := folders.any fun f => f.scope = folder.scope ∧ folder.name ++ ['/'] <+: f.name
      description := folder.description
      entries := (site.book.listAbEntries folder.scope folder.name).filter (site.entryShown id) })

def rbacConnectDenied : String :=
  "No permission to connect to this entry. Ask an administrator to grant your group Connect access to it."

def Site.connectGranted (id : AuthIdentity) (scope folder name : Text) : Bool :=
  rbacConnectAllowed (if site.managerDb then some site.database else none) id scope folder name

/-- The checks of `ab_connect_entry`, which the permission to connect to everything passes over. -/
def Site.connectChecks (id : AuthIdentity) (scope folder name : Text) : Except AbError Unit :=
  if site.identityHasCustomPermission id "connect" then .ok ()
  else do
    checkFolderAccessDb site scope folder id
    if site.connectGranted id scope folder name = false then .error (.forbidden rbacConnectDenied)
    else if (site.book.getAbFolder scope folder).isNone then
      .error (.notFound "folder not found: Query returned no rows")
    else checkEntryAccessDb site scope folder name id

def abConnectEntry (identity : Option AuthIdentity) (scope folder name : Text) : Except AbError AbEntry := do
  let id ← site.admit identity "connect" "address book unavailable"
  site.connectChecks id scope folder name
  match site.book.getAbFolder scope folder with
  | none => .error (.notFound "folder not found: Query returned no rows")
  | some _ =>
    match site.book.getAbEntry scope folder name with
    | none => .error (.notFound "entry not found: Query returned no rows")
    | some entry => .ok entry

theorem admit_eq_ok {site : Site} {id id' : AuthIdentity} {permission : Text} {unavailable : String} :
    site.admit (some id) permission unavailable = .ok id' ↔
      id' = id ∧ (id.hasRole "operator" || site.identityHasCustomPermission id permission) ∧
        site.storageAvailable := by
  rw [ Site.admit]
  split_ifs with hrole hstorage
  · simp [hrole]
  · simp [hstorage]
  · rw [Bool.not_eq_false] at hrole hstorage
    simp only [Except.ok.injEq, hrole, hstorage, and_true]
    exact eq_comm

theorem checkFolderAccessDb_eq_ok {site : Site} {scope folder : Text} {id : AuthIdentity} :
    checkFolderAccessDb site scope folder id = .ok () ↔ site.folderShown id scope folder := by
  rw [checkFolderAccessDb, Site.folderShown, Bool.or_assoc, Bool.or_comm (folderAllowedForUser _ _ _ _)]
  split_ifs <;> simp_all

def Site.Admits (id : AuthIdentity) (permission : Text) : Prop :=
  (id.hasRole "operator" || site.identityHasCustomPermission id permission) = true ∧ site.storageAvailable = true

variable {id : AuthIdentity} {scope folder name : Text} {e entry : AbEntry} {book : Book} {site}

theorem mem_abListEntries_iff : (∃ entries, abListEntries site (some id) scope folder = .ok entries ∧ e ∈ entries) ↔
      site.Admits id "read" ∧ site.folderShown id scope folder ∧
        (site.book.getAbFolder scope folder).isSome ∧ e ∈ site.book.entriesOf scope folder ∧
        site.entryShown id e := by
  simp only [abListEntries, Base.Except.bind_eq_ok_iff, admit_eq_ok, Site.Admits]
  cases hfolder : site.book.getAbFolder scope folder with
  | none => simp
  | some row =>
    simp only [Except.ok.injEq, isSome_some, true_and]
    constructor
    · rintro ⟨entries, ⟨id', ⟨rfl, hgate⟩, u, hfolder, rfl⟩, he⟩
      rw [mem_filter, mem_listAbEntries] at he
      exact ⟨hgate, checkFolderAccessDb_eq_ok.mp hfolder, he⟩
    · rintro ⟨hgate, hshown, he⟩
      refine ⟨_, ⟨id, ⟨rfl, hgate⟩, (), checkFolderAccessDb_eq_ok.mpr hshown, rfl⟩, ?_⟩
      rw [mem_filter, mem_listAbEntries]
      exact he

theorem mem_abListAll_iff : (∃ listing, abListAll site (some id) = .ok listing ∧
        ∃ f ∈ listing, f.scope = e.scope ∧ f.path = e.folder ∧ e ∈ f.entries) ↔
      site.Admits id "read" ∧ site.folderShown id e.scope e.folder ∧ e ∈ site.book.entries ∧
        site.entryShown id e := by
  simp only [abListAll, Base.Except.bind_eq_ok_iff, admit_eq_ok, Site.Admits, Except.ok.injEq]
  constructor
  · rintro ⟨listing, ⟨id', ⟨rfl, hgate⟩, rfl⟩, f, hf, hscope, hpath, he⟩
    obtain ⟨row, hrow, rfl⟩ := List.mem_map.mp hf
    obtain ⟨hrow, hshown⟩ := mem_filter.mp hrow
    rw [mem_filter, mem_listAbEntries] at he
    rw [← hscope, ← hpath]
    exact ⟨hgate, hshown, mem_of_mem_filter he.1, he.2⟩
  · rintro ⟨hgate, hshown, he, hentry⟩
    obtain ⟨row, hrow, hscope, hname⟩ := site.book.entry_folder e he
    refine ⟨_, ⟨id, ⟨rfl, hgate⟩, rfl⟩, _, List.mem_map.mpr ⟨row, mem_filter.mpr ⟨?_, ?_⟩, rfl⟩, hscope, hname, ?_⟩
    · exact (mem_insertionSort _).mpr hrow
    · rw [hscope, hname]
      exact hshown
    · rw [mem_filter, mem_listAbEntries]
      exact ⟨mem_filter.mpr ⟨he, by simp [hscope, hname]⟩, hentry⟩

theorem checkEntryAccessDb_eq_ok
    (he : site.book.getAbEntry scope folder name = some e) :
    checkEntryAccessDb site scope folder name id = .ok () ↔ site.entryShown id e := by
  rw [checkEntryAccessDb, Site.entryShown, he]
  split_ifs <;> simp_all

theorem connectChecks_eq_ok
    (hfolder : (site.book.getAbFolder scope folder).isSome) (he : site.book.getAbEntry scope folder name = some e) :
    site.connectChecks id scope folder name = .ok () ↔ site.identityHasCustomPermission id "connect" ∨
        site.folderShown id scope folder ∧ site.connectGranted id scope folder name ∧
          site.entryShown id e := by
  have hnone : ¬(site.book.getAbFolder scope folder).isNone := by
    rw [isNone_iff_eq_none]
    intro hnone
    rw [hnone] at hfolder
    cases hfolder
  rw [Site.connectChecks]
  by_cases hcustom : site.identityHasCustomPermission id "connect"
  · rw [if_pos hcustom]
    exact iff_of_true rfl (.inl hcustom)
  · rw [if_neg hcustom, or_iff_right hcustom, Base.Except.bind_unit_eq_ok_iff, if_neg hnone, checkFolderAccessDb_eq_ok]
    refine and_congr_right fun _ => ?_
    rw [← checkEntryAccessDb_eq_ok he]
    cases site.connectGranted id scope folder name <;> simp

theorem abConnectEntry_eq_ok : abConnectEntry site (some id) scope folder name = .ok e ↔
      site.Admits id "connect" ∧ (site.book.getAbFolder scope folder).isSome ∧
        site.book.getAbEntry scope folder name = some e ∧
        (site.identityHasCustomPermission id "connect" ∨
          site.folderShown id scope folder ∧ site.connectGranted id scope folder name ∧
            site.entryShown id e) := by
  simp only [abConnectEntry, Base.Except.bind_eq_ok_iff, admit_eq_ok, Site.Admits, and_assoc]
  cases hfolder : site.book.getAbFolder scope folder with
  | none => simp
  | some row =>
    cases hentry : site.book.getAbEntry scope folder name with
    | none => simp
    | some entry =>
      have hchecks := @connectChecks_eq_ok site id scope folder name entry (by rw [hfolder]; rfl) hentry
      simp only [isSome_some, some.injEq, Except.ok.injEq, true_and]
      constructor
      · rintro ⟨id', rfl, hrole, hstorage, _, hpass, rfl⟩
        exact ⟨hrole, hstorage, rfl, hchecks.mp hpass⟩
      · rintro ⟨hrole, hstorage, rfl, hpass⟩
        exact ⟨id, rfl, hrole, hstorage, (), hchecks.mpr hpass, rfl⟩

def Site.addEntry (site : Site) (entry : AbEntry) : Site :=
  { site with world := { site.world with book := site.world.book.addEntry entry } }

theorem folders_addEntry (book : Book) (entry : AbEntry) : (book.addEntry entry).folders = book.folders := by
  rw [addEntry]
  split_ifs <;> rfl

theorem getAbFolder_addEntry (book : Book) (entry : AbEntry) (scope name : Text) :
    (book.addEntry entry).getAbFolder scope name = book.getAbFolder scope name := by
  rw [getAbFolder, folders_addEntry]
  rfl

theorem entries_addEntry
    (hfolder : (book.getAbFolder entry.scope entry.folder).isSome) :
    (book.addEntry entry).entries = book.entries ++ [entry] := by
  have hrow : ∃ f ∈ book.folders, f.scope = entry.scope ∧ f.name = entry.folder := by
    rw [getAbFolder, find?_isSome] at hfolder
    simpa using hfolder
  rw [addEntry, dif_pos hrow]

theorem book_addEntry : (site.addEntry entry).book = site.book.addEntry entry := rfl

theorem database_addEntry : (site.addEntry entry).database = site.database := by
  have htables : ∀ permissions, (site.addEntry entry).world.tablesWith permissions = site.world.tablesWith permissions := by
    intro permissions
    rw [GrantWorld.tablesWith, GrantWorld.tablesWith]
    change Tables.mk _ _ _ ((site.world.book.addEntry entry).folders.map _) = _
    rw [folders_addEntry]
    rfl
  rw [Site.database, Site.database, htables]
  rfl

theorem identityHasCustomPermission_addEntry (permission : Text) :
    (site.addEntry entry).identityHasCustomPermission id permission = site.identityHasCustomPermission id permission := rfl

theorem readsFolder_addEntry (folder : Text) :
    (site.addEntry entry).readsFolder id folder = site.readsFolder id folder := by
  have htables : (site.addEntry entry).world.tablesWith (site.addEntry entry).world.permissions =
      site.world.tablesWith site.world.permissions := congrArg Database.tables database_addEntry
  have hcaller : (site.addEntry entry).caller id = site.caller id := rfl
  rw [Site.readsFolder, Site.readsFolder, Site.identityHasObjectPermission, Site.identityHasObjectPermission, hcaller]
  cases site.caller id with
  | admin | other => rfl
  | user userId permissions => rw [Caller.hasObjectPermission, Caller.hasObjectPermission, htables]

theorem connectGranted_addEntry (scope folder name : Text) :
    (site.addEntry entry).connectGranted id scope folder name = site.connectGranted id scope folder name := by
  rw [Site.connectGranted, Site.connectGranted, database_addEntry]
  rfl

theorem admits_addEntry {permission : Text} : (site.addEntry entry).Admits id permission ↔ site.Admits id permission := Iff.rfl

theorem entryShown_addEntry (e : AbEntry) : (site.addEntry entry).entryShown id e = site.entryShown id e := rfl

theorem aclWalk_addEntry (book : Book) (entry : AbEntry) (scope : Text) (userGroups : List Text) (paths : List Text) :
    (book.addEntry entry).aclWalk scope userGroups paths = book.aclWalk scope userGroups paths := by
  induction paths with
  | nil => rfl
  | cons path paths ih => rw [aclWalk, aclWalk, getAbFolder_addEntry, ih]

theorem entriesOf_addEntry_any
    (hfolder : (book.getAbFolder entry.scope entry.folder).isSome) (scope folder : Text) :
    (book.addEntry entry).entriesOf scope folder =
      book.entriesOf scope folder ++ if entry.scope = scope ∧ entry.folder = folder then [entry] else [] := by
  rw [entriesOf, entries_addEntry hfolder, filter_append, filter_singleton]
  simp only [entriesOf, Bool.cond_decide]

theorem folderAllowed_addEntry
    (hfolder : (book.getAbFolder entry.scope entry.folder).isSome)
    (hother : ¬(entry.scope = scope ∧ entry.folder = folder)) (userGroups : List Text) :
    (book.addEntry entry).folderAllowedForUser scope folder userGroups =
      book.folderAllowedForUser scope folder userGroups := by
  rw [folderAllowedForUser, folderAllowedForUser, aclWalk_addEntry, getAbFolder_addEntry, listAbEntries,
    entriesOf_addEntry_any hfolder, if_neg hother, append_nil]
  rfl

theorem folderAllowed_addEntry_self
    (hwalk : ∀ path, Walk book entry.scope entry.folder path →
      ∃ row, book.getAbFolder entry.scope path = some row ∧ groupList row.allowedGroups = [])
    {userGroups : List Text} (hentry : entryAllowed userGroups entry = false) :
    (book.addEntry entry).folderAllowedForUser entry.scope entry.folder userGroups = false := by
  obtain ⟨row, hrow, -⟩ := hwalk entry.folder .here
  have hnone : book.aclWalk entry.scope userGroups (entry.folder :: abFolderAncestors entry.folder) = none := by
    rw [← walkLoop_eq]
    exact walkLoop_eq_none .here hwalk
  rw [folderAllowedForUser, aclWalk_addEntry, hnone, getAbFolder_addEntry, hrow]
  change ((book.addEntry entry).listAbEntries entry.scope entry.folder).all (entryAllowed userGroups) = false
  rw [List.all_eq_false]
  refine ⟨entry, mem_listAbEntries.mpr ?_, by rw [hentry]; decide⟩
  rw [entriesOf_addEntry_any (by rw [hrow]; rfl), if_pos ⟨rfl, rfl⟩]
  exact mem_append_right _ mem_cons_self

/-! ### What one more entry hides -/

inductive View where
  | listEntries | listAll | connect
deriving DecidableEq, Repr

def Site.Shows (site : Site) (id : AuthIdentity) (e : AbEntry) : View → Prop
  | .listEntries => ∃ entries, abListEntries site (some id) e.scope e.folder = .ok entries ∧ e ∈ entries
  | .listAll => ∃ listing, abListAll site (some id) = .ok listing ∧
      ∃ f ∈ listing, f.scope = e.scope ∧ f.path = e.folder ∧ e ∈ f.entries
  | .connect => abConnectEntry site (some id) e.scope e.folder e.name = .ok e

theorem folderAllowed_of_addEntry
    (hfolder : (book.getAbFolder entry.scope entry.folder).isSome) {userGroups : List Text}
    (h : (book.addEntry entry).folderAllowedForUser scope folder userGroups) :
    book.folderAllowedForUser scope folder userGroups := by
  rw [folderAllowedForUser, aclWalk_addEntry, getAbFolder_addEntry] at h
  rw [folderAllowedForUser]
  cases hwalk : book.aclWalk scope userGroups (folder :: abFolderAncestors folder) with
  | some allowed =>
    rw [hwalk] at h
    exact h
  | none =>
    rw [hwalk] at h
    cases hrow : book.getAbFolder scope folder with
    | none =>
      rw [hrow] at h
      exact h
    | some row =>
      rw [hrow] at h
      change (listAbEntries _ scope folder).all _ = true at h ⊢
      rw [List.all_eq_true] at h ⊢
      intro e he
      apply h e
      rw [mem_listAbEntries] at he ⊢
      rw [entriesOf_addEntry_any hfolder]
      exact mem_append_left _ he

theorem folderShown_of_addEntry
    (hfolder : (site.book.getAbFolder entry.scope entry.folder).isSome)
    (h : (site.addEntry entry).folderShown id scope folder) : site.folderShown id scope folder := by
  rw [Site.folderShown, readsFolder_addEntry, Bool.or_eq_true, Bool.or_eq_true] at h
  rw [Site.folderShown, Bool.or_eq_true, Bool.or_eq_true]
  rcases h with (hadmin | hallowed) | hread
  · exact .inl (.inl hadmin)
  · exact .inl (.inr (folderAllowed_of_addEntry hfolder hallowed))
  · exact .inr hread

theorem folderShown_addEntry
    (hfolder : (site.book.getAbFolder entry.scope entry.folder).isSome)
    (hother : ¬(entry.scope = scope ∧ entry.folder = folder)) :
    (site.addEntry entry).folderShown id scope folder = site.folderShown id scope folder := by
  rw [Site.folderShown, readsFolder_addEntry, book_addEntry, folderAllowed_addEntry hfolder hother, Site.folderShown]

theorem shows_addEntry_iff
    (hfolder : (site.book.getAbFolder entry.scope entry.folder).isSome) (he : e ∈ site.book.entries) (view : View) :
    (site.addEntry entry).Shows id e view ↔ site.Shows id e view ∧
      (view = .connect ∧ site.identityHasCustomPermission id "connect" ∨
        (site.addEntry entry).folderShown id e.scope e.folder) := by
  have hrow : ∀ scope name, (site.addEntry entry).book.getAbFolder scope name = site.book.getAbFolder scope name :=
    getAbFolder_addEntry site.world.book entry
  have hentries : (site.addEntry entry).book.entries = site.book.entries ++ [entry] := entries_addEntry hfolder
  have hmem : e ∈ site.book.entriesOf e.scope e.folder := mem_filter.mpr ⟨he, by simp⟩
  have hmem' : e ∈ (site.addEntry entry).book.entriesOf e.scope e.folder :=
    mem_filter.mpr ⟨by rw [hentries]; exact mem_append_left _ he, by simp⟩
  have hshown := @folderShown_of_addEntry site id e.scope e.folder entry hfolder
  cases view with
  | listEntries =>
    rw [Site.Shows, Site.Shows, mem_abListEntries_iff, mem_abListEntries_iff, admits_addEntry, hrow, entryShown_addEntry]
    simp only [hmem, hmem', true_and, reduceCtorEq, false_and, false_or]
    tauto
  | listAll =>
    rw [Site.Shows, Site.Shows, mem_abListAll_iff, mem_abListAll_iff, admits_addEntry, entryShown_addEntry, hentries]
    simp only [he, mem_append, true_or, true_and, reduceCtorEq, false_and, false_or]
    tauto
  | connect =>
    have hget : (site.addEntry entry).book.getAbEntry e.scope e.folder e.name =
        site.book.getAbEntry e.scope e.folder e.name := by
      have hsome : (site.book.getAbEntry e.scope e.folder e.name).isSome := find?_isSome.mpr ⟨e, hmem, by simp⟩
      obtain ⟨found, hfound⟩ := isSome_iff_exists.mp hsome
      rw [hfound]
      rw [getAbEntry, book_addEntry, entriesOf_addEntry_any hfolder, find?_append]
      change (site.book.getAbEntry e.scope e.folder e.name).or _ = some found
      rw [hfound, some_or]
    rw [Site.Shows, Site.Shows, abConnectEntry_eq_ok, abConnectEntry_eq_ok, admits_addEntry, hrow, hget,
      connectGranted_addEntry, entryShown_addEntry, identityHasCustomPermission_addEntry]
    simp only [true_and]
    tauto

theorem Site.Shows.shown {view : View} (h : site.Shows id e view) :
    view = .connect ∧ site.identityHasCustomPermission id "connect" ∨
      site.folderShown id e.scope e.folder := by
  cases view with
  | listEntries => exact .inr (mem_abListEntries_iff.mp h).2.1
  | listAll => exact .inr (mem_abListAll_iff.mp h).2.1
  | connect =>
    rcases (abConnectEntry_eq_ok.mp h).2.2.2 with hcustom | hfolder
    · exact .inl ⟨rfl, hcustom⟩
    · exact .inr hfolder.1

/-- **One restricted entry** in a folder that no list of groups has decided about hides every entry of the
folder from callers without the grant to read it, who connect to one only by the permission for everything.
Nothing else changes. -/
theorem restricted_entry_hides {site : Site} {id : AuthIdentity} {entry : AbEntry} (hadmin : id.hasRole "admin" = false)
    (hwalk : ∀ path, Walk site.book entry.scope entry.folder path →
      ∃ row, site.book.getAbFolder entry.scope path = some row ∧ groupList row.allowedGroups = [])
    (hentry : entryAllowed (groups id) entry = false) :
    ∀ e ∈ site.book.entries, ∀ view,
      (¬(entry.scope = e.scope ∧ entry.folder = e.folder) ∨ site.readsFolder id entry.folder = true →
        ((site.addEntry entry).Shows id e view ↔ site.Shows id e view)) ∧
      (entry.scope = e.scope ∧ entry.folder = e.folder ∧ site.readsFolder id entry.folder = false →
        ((site.addEntry entry).Shows id e view ↔
          site.Shows id e view ∧ view = .connect ∧ site.identityHasCustomPermission id "connect" = true)) := by
  intro e he view
  have hfolder : (site.book.getAbFolder entry.scope entry.folder).isSome = true := by
    obtain ⟨row, hrow, -⟩ := hwalk entry.folder .here
    rw [hrow]
    rfl
  rw [shows_addEntry_iff hfolder he view]
  constructor
  · intro hframe
    refine and_iff_left_of_imp fun hshows => ?_
    rcases hshows.shown with hcustom | hshown
    · exact .inl hcustom
    · right
      by_cases hsame : entry.scope = e.scope ∧ entry.folder = e.folder
      · have hread := hframe.resolve_left (not_not_intro hsame)
        rw [Site.folderShown, readsFolder_addEntry, ← hsame.2, hread, Bool.or_true]
      · rw [folderShown_addEntry hfolder hsame, hshown]
  · rintro ⟨hscope, hname, hread⟩
    have hclosed : (site.addEntry entry).folderShown id e.scope e.folder = false := by
      have hallowed : (site.addEntry entry).book.folderAllowedForUser entry.scope entry.folder (groups id) = false :=
        folderAllowed_addEntry_self hwalk hentry
      rw [Site.folderShown, readsFolder_addEntry, ← hscope, ← hname, hadmin, hallowed, hread]
      rfl
    rw [hclosed]
    simp

def sharedEntry (name allowedGroups : Text) : AbEntry :=
  ⟨"shared", "Public", name, name, "ssh", "10.0.0.1", some 22, [], allowedGroups⟩

def publicSite : Site where
  world :=
    { poolActive := false
      book := (addFolder ⟨[], [], by simp⟩ ⟨"shared", "Public", [], [], false⟩).addEntry
        (sharedEntry "web" [])
      groups := []
      userGroups := []
      permissions := []
      history := [] }
  users := []
  customRoleIds := []
  rolePermissions := []
  storageAvailable := true
  managerDb := true

def ann : AuthIdentity := .user "ann@x.io" "Ann" "operator" []

theorem publicSite_walk {path : Text} (h : Walk publicSite.book "shared" "Public" path) :
    ∃ row, publicSite.book.getAbFolder "shared" path = some row ∧ groupList row.allowedGroups = [] := by
  have hrow : publicSite.book.getAbFolder "shared" "Public" =
      some ⟨"shared", "Public", [], [], false⟩ := by decide +kernel
  have hpath : path = "Public" := by
    induction h with
    | here => rfl
    | @up current parent name row _ hcurrent _ hinherit _ _ ih =>
      -- the folder does not inherit
      rw [ih, hrow, some.injEq] at hcurrent
      rw [← hcurrent] at hinherit
      cases hinherit
  rw [hpath]
  exact ⟨_, hrow, by decide⟩

theorem restricted_entry_hides_web :
    ¬(publicSite.addEntry (sharedEntry "db" "ops")).Shows ann (sharedEntry "web" []) .listAll := by
  have hhides := @restricted_entry_hides publicSite ann (sharedEntry "db" "ops") (by decide +kernel)
    (fun _ => publicSite_walk) (by decide +kernel) (sharedEntry "web" []) (by decide +kernel) .listAll
  rw [hhides.2 ⟨rfl, rfl, by decide +kernel⟩]
  rintro ⟨-, hconnect, -⟩
  cases hconnect

/-- The entry `web` is gone from the lists once the folder has an entry for the group `ops`. -/
theorem restricted_entry_hides_another :
    abListEntries publicSite (some ann) "shared" "Public" = .ok [sharedEntry "web" []] ∧
      abListEntries (publicSite.addEntry (sharedEntry "db" "ops")) (some ann) "shared"
        "Public" = .error (.forbidden "no access to this folder") ∧
      (abListAll publicSite (some ann)).map (·.map FolderListing.entries) = .ok [[sharedEntry "web" []]] ∧
      abListAll (publicSite.addEntry (sharedEntry "db" "ops")) (some ann) = .ok [] := by
  decide +kernel

end Persea.AddressBook
