import Persea.BaseTransition
import Persea.ImportFolders
import Persea.RbacConnect

/-! Grants and the objects they name. A grant names its object by the path, and no deletion looks at the grants: an
object created again under the path meets those of the deleted one. -/

namespace Persea.Rbac

open Base Base.Text AddressBook Transition List

inductive Mark where
  | granted (row : PermissionRow)
  | folderGone (scope name : Text)
  | entryGone (scope folder name : Text)
deriving DecidableEq, Repr

structure GrantWorld where
  poolActive : Bool
  book : Book
  groups : List GroupRow
  userGroups : List UserGroupRow
  permissions : List PermissionRow
  /-- The newest first. -/
  history : List Mark

open GrantWorld

variable (w : GrantWorld)

def GrantWorld.tablesWith (permissions : List PermissionRow) : Tables where
  groups := w.groups
  userGroups := w.userGroups
  permissions := permissions
  folders := w.book.folders.map fun f => ⟨f.scope, f.name⟩

def GrantWorld.check (permissions : List PermissionRow) (userId : Int) (connectionId : Text)
    (permission : ObjectPermission) : Bool :=
  let t := w.tablesWith permissions
  (checkConnectionPermission w.poolActive (rowCount t) t userId connectionId permission).getD false

inductive Caller where
  | admin
  | user (id : Int) (customRole : List Text)
  | other

def Caller.hasObjectPermission (objectType : ObjectType) (objectId : Text)
    (permission : ObjectPermission) : Caller → Bool
  | .admin => true
  | .other => false
  | .user id customRole =>
    decide (permission.asStr ∈ customRole) ||
      match objectType with
      | .connection => w.check w.permissions id objectId permission
      | .connectionGroup =>
        let t := w.tablesWith w.permissions
        (groupObjectCheck (rowCount t) t id objectId permission).getD false

inductive AbError where
  | forbidden (msg : String)
  | notFound (msg : String)
  | conflict (msg : String)
  | internal (msg : String)
  | session (msg : String)
  | vault (msg : String)
deriving DecidableEq, Repr

def subPaths (book : Book) (scope folder : Text) : List Text :=
  (book.folders.filter fun f => f.scope = scope ∧ folder ++ ['/'] <+: f.name).map AbFolder.name

def folderMarks (book : Book) (scope name : Text) : List Mark :=
  .folderGone scope name :: (book.entriesOf scope name).map fun e => .entryGone scope name e.name

def deletedMarks (book : Book) (scope folder : Text) : List Mark :=
  (subPaths book scope folder ++ [folder]).flatMap (folderMarks book scope)

def abDeleteFolder (caller : Caller) (scope folder : Text) : Except AbError (GrantWorld × Nat × Nat) :=
  if caller.hasObjectPermission w .connectionGroup folder .delete = false then
    .error (.forbidden "admin role required")
  else if (w.book.getAbFolder scope folder).isNone then
    .error (.notFound "folder not found: Query returned no rows")
  else
    let paths := subPaths w.book scope folder ++ [folder]
    let entryCount := (paths.map fun path => (w.book.entriesOf scope path).length).sum
    .ok
      ({ w with
          book := paths.foldl (fun book path => book.deleteAbFolder scope path) w.book
          history := deletedMarks w.book scope folder ++ w.history },
        paths.length - 1, entryCount)

/-- In vault mode the copy in Vault is removed first; `vaultError` is how that fails. -/
def abDeleteEntry (caller : Caller) (vaultError : Option AbError) (scope folder entry : Text) :
    Except AbError GrantWorld :=
  if caller.hasObjectPermission w .connection (connectionKey scope folder entry) .delete = false then
    .error (.forbidden "admin role required")
  else
    match vaultError with
    | some e => .error e
    | none =>
      if (w.book.getAbFolder scope folder).isNone then
        .error (.notFound "folder not found: Query returned no rows")
      else if (w.book.getAbEntry scope folder entry).isNone then
        .error (.notFound "entry not found: Query returned no rows")
      else
        .ok { w with
          book := w.book.deleteAbEntry scope folder entry
          history := .entryGone scope folder entry :: w.history }

def parseEntityRef : Text → EntityType × Text
  | 'u' :: ':' :: rest => (.user, rest)
  | 'g' :: ':' :: rest => (.group, rest)
  | entityId => (.user, entityId)

def grantPermission (objectType : ObjectType) (entityId objectId : Text)
    (permission : ObjectPermission) : GrantWorld :=
  let entity := parseEntityRef entityId
  let row : PermissionRow := ⟨entity.2, entity.1, objectType, objectId, permission.asStr⟩
  { w with
    permissions := if row ∈ w.permissions then w.permissions else w.permissions ++ [row]
    history := .granted row :: w.history }

def revokeConnectionPermission (entityId connectionId : Text) (permission : ObjectPermission) : GrantWorld :=
  let entity := parseEntityRef entityId
  let row : PermissionRow := ⟨entity.2, entity.1, .connection, connectionId, permission.asStr⟩
  { w with permissions := w.permissions.filter (· ≠ row) }

def deleteGroup (groups : List GroupRow) (groupId : Text) : List GroupRow :=
  (groups.map fun g => if g.parentId = some groupId then { g with parentId := none } else g).filter
    fun g => g.id ≠ groupId

inductive GrantEvent where
  | createFolder (folder : AbFolder)
  | updateFolder (folder : AbFolder)
  | deleteFolder (caller : Caller) (scope folder : Text)
  | createEntry (entry : AbEntry)
  | updateEntry (entry : AbEntry)
  | deleteEntry (caller : Caller) (vaultError : Option AbError) (scope folder entry : Text)
  | importCsv (env : ImportEnv) (identity : Option Auth.AuthIdentity) (queryMode : Text) (req : ImportRequest)
  | grant (objectType : ObjectType) (entityId objectId : Text) (permission : ObjectPermission)
  | revoke (entityId connectionId : Text) (permission : ObjectPermission)
  | createGroup (group : GroupRow)
  | deleteGroup (groupId : Text)
  | addUserToGroup (row : UserGroupRow)
  | removeUserFromGroup (row : UserGroupRow)

def GrantWorld.step : GrantEvent → GrantWorld
  | .createFolder folder => { w with book := (w.book.createAbFolder folder).getD w.book }
  | .updateFolder folder => { w with book := (w.book.updateAbFolder folder).getD w.book }
  | .deleteFolder caller scope folder =>
    match abDeleteFolder w caller scope folder with
    | .error _ => w
    | .ok (w', _) => w'
  | .createEntry entry => { w with book := (w.book.createAbEntry entry).getD w.book }
  | .updateEntry entry => { w with book := w.book.updateAbEntry entry }
  | .deleteEntry caller vaultError scope folder entry =>
    match abDeleteEntry w caller vaultError scope folder entry with
    | .error _ => w
    | .ok w' => w'
  | .importCsv env identity queryMode req =>
    { w with book := (AddressBook.importCsv env identity true queryMode req ⟨0, 0, 0, 0, 0, []⟩ w.book).1 }
  | .grant objectType entityId objectId permission => grantPermission w objectType entityId objectId permission
  | .revoke entityId connectionId permission => revokeConnectionPermission w entityId connectionId permission
  | .createGroup group => { w with groups := w.groups ++ [group] }
  | .deleteGroup groupId => { w with groups := Rbac.deleteGroup w.groups groupId }
  | .addUserToGroup row => { w with userGroups := if row ∈ w.userGroups then w.userGroups else w.userGroups ++ [row] }
  | .removeUserFromGroup row => { w with userGroups := w.userGroups.filter (· ≠ row) }

/-! ### Ghost grants -/

/-- The mark is the deletion of the object that a grant names. Grants on folders have no scope in them: seen from a
scope, it is the deletion of its own folder. -/
def Mark.deletes (scope : Text) (row : PermissionRow) : Mark → Bool
  | .granted _ => false
  | .folderGone s name => row.objectType = .connectionGroup ∧ s = scope ∧ name = row.objectId
  | .entryGone s folder name => row.objectType = .connection ∧ connectionKey s folder name = row.objectId

/-- The grant was made after the last deletion of its object, or there was none. -/
def fresh (scope : Text) (row : PermissionRow) : List Mark → Bool
  | [] => true
  | .granted other :: marks => other = row || fresh scope row marks
  | mark :: marks => !mark.deletes scope row && fresh scope row marks

/-- Every permission on a connection is there without the grants that are older than a deletion of their object. -/
def GrantWorld.NoGhosts : Prop :=
  ∀ (scope folder entry : Text) (userId : Int) (permission : ObjectPermission),
    w.check w.permissions userId (connectionKey scope folder entry) permission = true →
      w.check (w.permissions.filter fun row => fresh scope row w.history) userId (connectionKey scope folder entry)
        permission = true

/-- The condition: what is deleted is not named by a grant. -/
def Ungranted : GrantEvent → Prop
  | .deleteFolder _ scope folder =>
    ∀ row ∈ w.permissions, ∀ mark ∈ deletedMarks w.book scope folder, mark.deletes scope row = false
  | .deleteEntry _ _ scope folder entry =>
    ∀ row ∈ w.permissions, (Mark.entryGone scope folder entry).deletes scope row = false
  | _ => True

instance (w : GrantWorld) : (event : GrantEvent) → Decidable (Ungranted w event)
  | .deleteFolder _ _ _ | .deleteEntry _ _ _ _ _ => inferInstanceAs (Decidable (∀ row ∈ w.permissions, _))
  | .createFolder _ | .updateFolder _ | .createEntry _ | .updateEntry _ | .importCsv _ _ _ _ | .grant _ _ _ _
  | .revoke _ _ _ | .createGroup _ | .deleteGroup _ | .addUserToGroup _ | .removeUserFromGroup _ => isTrue trivial

def GrantWorld.Inv : Prop := ∀ scope, ∀ row ∈ w.permissions, fresh scope row w.history = true

variable {w : GrantWorld}

theorem GrantWorld.Inv.noGhosts (hinv : w.Inv) : w.NoGhosts := by
  intro scope folder entry userId permission hallowed
  rw [filter_eq_self.mpr (hinv scope)]
  exact hallowed

variable {scope folder : Text} {row : PermissionRow} {caller : Caller} {book : Book} {mark : Mark}

theorem fresh_append {marks history : List Mark}
    (hgone : ∀ mark ∈ marks, (∀ other, mark ≠ .granted other) ∧ mark.deletes scope row = false)
    (h : fresh scope row history) : fresh scope row (marks ++ history) := by
  induction marks with
  | nil => exact h
  | cons mark marks ih =>
    obtain ⟨hmark, hdeletes⟩ := hgone mark mem_cons_self
    have hrest := ih fun m hm => hgone m (mem_cons_of_mem _ hm)
    cases mark with
    | granted other => exact absurd rfl (hmark other)
    | folderGone s name
    | entryGone s folder name => simp only [cons_append, fresh, hdeletes, hrest, Bool.not_false, Bool.and_self]

theorem mem_deletedMarks (h : mark ∈ deletedMarks book scope folder) :
    (∃ name, mark = .folderGone scope name) ∨ ∃ name entry, mark = .entryGone scope name entry := by
  obtain ⟨name, -, hmark⟩ := mem_flatMap.mp h
  rcases mem_cons.mp hmark with rfl | hmark
  · exact .inl ⟨name, rfl⟩
  · obtain ⟨e, -, rfl⟩ := mem_map.mp hmark
    exact .inr ⟨name, e.name, rfl⟩

theorem deletes_of_mem_deletedMarks {scope folder other : Text}
    (hmem : mark ∈ deletedMarks book scope folder) (h : mark.deletes scope row = false) :
    (∀ r, mark ≠ .granted r) ∧ mark.deletes other row = false := by
  rcases mem_deletedMarks hmem with ⟨name, rfl⟩ | ⟨name, entry, rfl⟩
  · refine ⟨nofun, ?_⟩
    simp only [Mark.deletes, decide_eq_false_iff_not] at h ⊢
    rintro ⟨htype, -, hname⟩
    exact h ⟨htype, trivial, hname⟩
  · exact ⟨nofun, h⟩

theorem GrantWorld.Inv.deleteFolder (hinv : w.Inv)
    (hguard : Ungranted w (.deleteFolder caller scope folder)) :
    (w.step (.deleteFolder caller scope folder)).Inv := by
  simp only [step, abDeleteFolder]
  split_ifs
  · exact hinv
  · exact hinv
  · intro other row hrow
    apply fresh_append
    · intro mark hmark
      exact deletes_of_mem_deletedMarks hmark (hguard row hrow mark hmark)
    · exact hinv other row hrow

theorem GrantWorld.Inv.deleteEntry (hinv : w.Inv) {vaultError : Option AbError} {scope folder entry : Text}
    (hguard : Ungranted w (.deleteEntry caller vaultError scope folder entry)) :
    (w.step (.deleteEntry caller vaultError scope folder entry)).Inv := by
  cases vaultError with
  | some e =>
    simp only [step, abDeleteEntry]
    split_ifs
    · exact hinv
    · exact hinv
  | none =>
    simp only [step, abDeleteEntry]
    split_ifs
    · exact hinv
    · exact hinv
    · exact hinv
    · intro other row hrow
      have hgone : (Mark.entryGone scope folder entry).deletes other row = false := hguard row hrow
      simp only [fresh, hgone, hinv other row hrow, Bool.not_false, Bool.and_self]

theorem GrantWorld.Inv.grant (hinv : w.Inv) (objectType : ObjectType) (entityId objectId : Text)
    (permission : ObjectPermission) : (grantPermission w objectType entityId objectId permission).Inv := by
  intro scope row hrow
  simp only [grantPermission, fresh, Bool.or_eq_true, decide_eq_true_eq]
  by_cases hnew : row ∈ w.permissions
  · exact .inr (hinv scope row hnew)
  · left
    simp only [grantPermission] at hrow
    split_ifs at hrow
    · exact absurd hrow hnew
    · rcases mem_append.mp hrow with hrow | hrow
      · exact absurd hrow hnew
      · exact (mem_singleton.mp hrow).symm

theorem GrantWorld.Inv.step {event : GrantEvent} (hinv : w.Inv) (hguard : Ungranted w event) :
    (w.step event).Inv := by
  cases event with
  | deleteFolder => exact hinv.deleteFolder hguard
  | deleteEntry => exact hinv.deleteEntry hguard
  | grant objectType entityId objectId permission => exact hinv.grant objectType entityId objectId permission
  | revoke entityId connectionId permission =>
    intro scope row hrow
    exact hinv scope row (mem_of_mem_filter hrow)
  | createFolder | updateFolder | createEntry | updateEntry | importCsv | createGroup | deleteGroup
  | addUserToGroup | removeUserFromGroup => exact hinv

def grantedEntry : GrantWorld where
  poolActive := false
  book := ⟨[⟨['s'], ['f'], [], [], true⟩], [⟨['s'], ['f'], ['e'], [], [], [], none, [], []⟩], by simp⟩
  groups := []
  userGroups := []
  permissions := [⟨['1'], .user, .connection, connectionKey ['s'] ['f'] ['e'], "connect"⟩]
  history := []

def recreate : List GrantEvent :=
  [.deleteEntry .admin none ['s'] ['f'] ['e'], .createEntry ⟨['s'], ['f'], ['e'], [], [], [], none, [], []⟩]

def revokeAndRecreate : List GrantEvent :=
  [GrantEvent.revoke ['u', ':', '1'] (connectionKey ['s'] ['f'] ['e']) .connect] ++ recreate ++
    [GrantEvent.grant .connection ['u', ':', '1'] (connectionKey ['s'] ['f'] ['e']) .connect]

end Persea.Rbac
