import Persea.BaseSaturation
import Persea.BaseText

/-! The access decision `check_connection_permission` and its tables. The rusqlite branch and the pool
branch are two sets of queries over the same rows. A recursive query is evaluated with fuel; `none` stands
for an evaluation that has not ended. -/

namespace Persea.Rbac

open Base Base.Text Saturation

inductive ObjectPermission where
  | read
  | connect
  | update
  | delete
  | administer
deriving DecidableEq, Repr

def ObjectPermission.asStr : ObjectPermission → Text
  | .read => "read"
  | .connect => "connect"
  | .update => "update"
  | .delete => "delete"
  | .administer => "administer"

inductive EntityType where
  | user
  | group
deriving DecidableEq, Repr

inductive ObjectType where
  | connection
  | connectionGroup
deriving DecidableEq, Repr

structure GroupRow where
  id : Text
  parentId : Option Text
deriving DecidableEq, Repr

structure UserGroupRow where
  userId : Int
  groupId : Text
deriving DecidableEq, Repr

structure PermissionRow where
  entityId : Text
  entityType : EntityType
  objectType : ObjectType
  objectId : Text
  permission : Text
deriving DecidableEq, Repr

structure FolderRow where
  scope : Text
  name : Text
deriving DecidableEq, Repr

structure Tables where
  groups : List GroupRow
  userGroups : List UserGroupRow
  permissions : List PermissionRow
  folders : List FolderRow
deriving DecidableEq, Repr

def abFolderAncestors (folder : Text) : List Text :=
  match _hsplit : rsplitOnce '/' folder with
  | none => []
  | some (parent, _) => if parent = [] then [] else parent :: abFolderAncestors parent
termination_by folder.length
decreasing_by
  rw [(rsplitOnce_eq_some.mp _hsplit).1, List.length_append, List.length_cons]
  omega

theorem abFolderAncestors_top {folder : Text} (h : '/' ∉ folder) : abFolderAncestors folder = [] := by
  rw [abFolderAncestors]
  split
  · rfl
  · rename_i hsplit
    rw [rsplitOnce_eq_none.mpr h] at hsplit
    cases hsplit

theorem abFolderAncestors_sub {parent name : Text} (hparent : parent ≠ []) (hname : '/' ∉ name) :
    abFolderAncestors (parent ++ '/' :: name) = parent :: abFolderAncestors parent := by
  have hsplit : rsplitOnce '/' (parent ++ '/' :: name) = some (parent, name) := rsplitOnce_eq_some.mpr ⟨rfl, hname⟩
  rw [abFolderAncestors]
  split
  · rename_i hnone
    rw [hsplit] at hnone
    cases hnone
  · rename_i hsome
    rw [hsplit, Option.some.injEq, Prod.mk.injEq] at hsome
    rw [← hsome.1, if_neg hparent]

variable (t : Tables)

def abFolderPathForConnection (connectionId : Text) : Option Text :=
  let parts := connectionId.splitOn '/'
  if parts.length < 3 then none
  else
    let scope := parts.headD []
    let entry := parts.getLastD []
    if scope = [] ∨ entry = [] then none
    else
      let folder := ['/'].intercalate (parts.dropLast.drop 1)
      if folder = [] then none
      else if ⟨scope, folder⟩ ∈ t.folders then some folder
      else none

/-- An `i64` as the text it is compared with in `entity_id`. -/
def i64Text : Int → Text
  | .ofNat n => decimal n
  | .negSucc n => '-' :: decimal (n + 1)

def grantees (entityType : EntityType) (objectType : ObjectType) (objectId : Text)
    (permission : ObjectPermission) : List Text :=
  (t.permissions.filter fun p => p.entityType = entityType ∧ p.objectType = objectType ∧
    p.objectId = objectId ∧ p.permission = permission.asStr).map PermissionRow.entityId

def directGrant (userId : Int) (objectType : ObjectType) (objectId : Text) (permission : ObjectPermission) : Bool :=
  i64Text userId ∈ grantees t .user objectType objectId permission

def parentIds (groupId : Text) : List Text := (t.groups.filter fun g => g.id = groupId).filterMap GroupRow.parentId

/-- Both recursive parts: `parent_id`, and groups granted on connection-group objects in the chain. -/
def chainIds (permission : ObjectPermission) (groupId : Text) : List Text :=
  parentIds t groupId ++ grantees t .group .connectionGroup groupId permission

def memberOfAny (userId : Int) (groupIds : List Text) : Bool :=
  t.userGroups.any fun ug => ug.userId = userId ∧ ug.groupId ∈ groupIds

def memberOfChain (userId : Int) (next : Text → List Text) (fuel : Nat) (first : List Text) : Option Bool :=
  (recursiveUnion next fuel first).map (memberOfAny t userId)

variable (fuel : Nat)

def groupObjectCheck (t : Tables) (userId : Int) (objectId : Text) (permission : ObjectPermission) : Option Bool :=
  if directGrant t userId .connectionGroup objectId permission then some true
  else memberOfChain t userId (parentIds t) fuel (grantees t .group .connectionGroup objectId permission)

def firstAllowed (check : Text → Option Bool) : List Text → Option Bool
  | [] => some false
  | objectId :: objectIds =>
    (check objectId).bind fun allowed => if allowed then some true else firstAllowed check objectIds

def checkGroupObjectPermission (t : Tables) (userId : Int) (objectId : Text)
    (permission : ObjectPermission) : Option Bool :=
  groupObjectCheck fuel t userId objectId permission

def checkConnectionPermissionLocal (t : Tables) (userId : Int) (connectionId : Text)
    (permission : ObjectPermission) : Option Bool :=
  let folderPath := abFolderPathForConnection t connectionId
  if directGrant t userId .connection connectionId permission then some true
  else if folderPath.any fun folder => directGrant t userId .connectionGroup folder permission then some true
  else
    let inherited := memberOfChain t userId (chainIds t permission) fuel
      (grantees t .group .connection connectionId permission ++
        grantees t .group .connectionGroup (folderPath.getD []) permission)
    inherited.bind fun allowed =>
      if allowed then some true
      else
        match folderPath with
        | none => some false
        | some folder =>
          firstAllowed (checkGroupObjectPermission fuel t userId · permission) (abFolderAncestors folder)

def rbacCheckConnectionPermissionPool (t : Tables) (userId : Int) (connectionId : Text)
    (permission : ObjectPermission) : Option Bool :=
  memberOfChain t userId (chainIds t permission) fuel (grantees t .group .connection connectionId permission)

def rbacCheckGroupObjectPermissionPool (t : Tables) (userId : Int) (objectId : Text)
    (permission : ObjectPermission) : Option Bool :=
  groupObjectCheck fuel t userId objectId permission

def checkConnectionPermissionPool (t : Tables) (userId : Int) (connectionId : Text)
    (permission : ObjectPermission) : Option Bool :=
  let folderPath := abFolderPathForConnection t connectionId
  (rbacCheckConnectionPermissionPool fuel t userId connectionId permission).bind fun onConnection =>
    if onConnection then some true
    else
      match folderPath with
      | none => some false
      | some folder =>
        firstAllowed (rbacCheckGroupObjectPermissionPool fuel t userId · permission)
          (folder :: abFolderAncestors folder)

def checkConnectionPermission (poolActive : Bool) (fuel : Nat) (t : Tables) (userId : Int)
    (connectionId : Text) (permission : ObjectPermission) : Option Bool :=
  if poolActive then checkConnectionPermissionPool fuel t userId connectionId permission
  else checkConnectionPermissionLocal fuel t userId connectionId permission

end Persea.Rbac
