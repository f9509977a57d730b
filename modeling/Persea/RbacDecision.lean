import Persea.RbacReach

/-! The access decision as reachability. The rusqlite branch answers the question of its specification on
every content of the tables, cyclic groups included; granting more never takes access away; and the pool
branch asks a smaller question. -/

namespace Persea.Rbac

open Base Base.Text Saturation Relation List

theorem abFolderPath_of_row {t : Tables} {scope folder entry : Text} (hscope : scope ≠ [])
    (hscope' : '/' ∉ scope) (hentry : entry ≠ []) (hentry' : '/' ∉ entry) (hfolder : folder ≠ [])
    (hrow : ⟨scope, folder⟩ ∈ t.folders) :
    abFolderPathForConnection t (scope ++ '/' :: folder ++ '/' :: entry) = some folder := by
  have hparts : (scope ++ '/' :: folder ++ '/' :: entry).splitOn '/' = scope :: (folder.splitOn '/' ++ [entry]) := by
    rw [splitOn_append_cons_self, splitOn_eq_singleton hentry',
      splitOn_append_cons_self_of_not_mem hscope', cons_append]
  have hlen : ¬(scope :: (folder.splitOn '/' ++ [entry])).length < 3 := by
    have hpos : 0 < (folder.splitOn '/').length := length_pos_iff.mpr (splitOn_ne_nil '/' folder)
    simp only [length_cons, length_append, length_nil]
    omega
  have hmiddle : ((scope :: (folder.splitOn '/' ++ [entry])).dropLast).drop 1 = folder.splitOn '/' := by
    rw [← cons_append, dropLast_concat, drop_one, tail_cons]
  have hlast : (scope :: (folder.splitOn '/' ++ [entry])).getLastD [] = entry := by
    rw [← cons_append, getLastD_concat]
  simp only [abFolderPathForConnection, hparts, if_neg hlen, hmiddle, hlast, headD_cons,
    intercalate_splitOn, hscope, hentry, or_self, hfolder, hrow, if_false, if_true]

def LocalAllowed (t : Tables) (userId : Int) (connectionId : Text) (folderPath : Option Text)
    (permission : ObjectPermission) : Prop :=
  UserGrant t userId .connection connectionId permission ∨
    (∃ folder, folderPath = some folder ∧ UserGrant t userId .connectionGroup folder permission) ∨
    (ReachedMember t (ChainStep t permission) userId .connection connectionId permission ∨
      ReachedMember t (ChainStep t permission) userId .connectionGroup (folderPath.getD []) permission) ∨
    ∃ folder, folderPath = some folder ∧
      ∃ ancestor, IsAncestor ancestor folder ∧ ObjectAllowed t userId permission ancestor

/-- The question of the pool branch: no direct grant on the connection, and no groups granted on connection
groups in the chain of a folder. -/
def PoolAllowed (t : Tables) (userId : Int) (connectionId : Text) (folderPath : Option Text)
    (permission : ObjectPermission) : Prop :=
  ReachedMember t (ChainStep t permission) userId .connection connectionId permission ∨
    ∃ folder, folderPath = some folder ∧ (ObjectAllowed t userId permission folder ∨
        ∃ ancestor, IsAncestor ancestor folder ∧ ObjectAllowed t userId permission ancestor)

section Evaluation

variable {t : Tables} {fuel : Nat} (hfuel : rowCount t ≤ fuel) (userId : Int) (connectionId : Text)
  (permission : ObjectPermission)

include hfuel

theorem answers_inherited (folder : Text) : Answers (memberOfChain t userId (chainIds t permission) fuel
        (grantees t .group .connection connectionId permission ++
          grantees t .group .connectionGroup folder permission))
      (ReachedMember t (ChainStep t permission) userId .connection connectionId permission ∨
        ReachedMember t (ChainStep t permission) userId .connectionGroup folder permission) := by
  refine (answers_memberOfChain userId (fun x y => mem_chainIds) (chainIds_subset t permission)
    (append_subset.mpr ⟨grantees_subset t _ _ _ _, grantees_subset t _ _ _ _⟩) hfuel).congr ?_
  simp only [mem_append, or_and_right, exists_or, exists_grantee_iff]

theorem answers_ancestors (folder : Text) :
    Answers (firstAllowed (groupObjectCheck fuel t userId · permission) (abFolderAncestors folder))
      (∃ ancestor, IsAncestor ancestor folder ∧ ObjectAllowed t userId permission ancestor) := by
  refine (answers_firstAllowed fun objectId =>
    answers_groupObjectCheck hfuel userId permission objectId).congr ?_
  simp only [mem_abFolderAncestors]

/-- **The rusqlite branch ends and answers its question**, on every content of the tables. -/
theorem answers_local : Answers (checkConnectionPermissionLocal fuel t userId connectionId permission)
      (LocalAllowed t userId connectionId (abFolderPathForConnection t connectionId) permission) := by
  unfold checkConnectionPermissionLocal
  refine answers_ite directGrant_iff (answers_ite ?_ (answers_bind
    (answers_inherited hfuel userId connectionId permission _) ?_))
  · cases abFolderPathForConnection t connectionId with
    | none => simp
    | some folder => simp [directGrant_iff]
  · cases abFolderPathForConnection t connectionId with
    | none => exact ⟨false, rfl, by simp⟩
    | some folder =>
      refine (answers_ancestors hfuel userId permission folder).congr ?_
      simp

/-- **The pool branch ends and answers its question.** -/
theorem answers_pool : Answers (checkConnectionPermissionPool fuel t userId connectionId permission)
      (PoolAllowed t userId connectionId (abFolderPathForConnection t connectionId) permission) := by
  unfold checkConnectionPermissionPool
  refine answers_bind ?_ ?_
  · exact (answers_memberOfChain userId (fun x y => mem_chainIds) (chainIds_subset t permission)
      (grantees_subset t _ _ _ _) hfuel).congr exists_grantee_iff
  · cases abFolderPathForConnection t connectionId with
    | none => exact ⟨false, rfl, by simp⟩
    | some folder =>
      refine (answers_bind (answers_groupObjectCheck hfuel userId permission folder)
        (answers_ancestors hfuel userId permission folder)).congr ?_
      simp

end Evaluation

structure Tables.Extends (t t' : Tables) : Prop where
  permissions : t.permissions ⊆ t'.permissions
  userGroups : t.userGroups ⊆ t'.userGroups
  parents : ∀ groupId parentId, ParentStep t groupId parentId → ParentStep t' groupId parentId
  folders : t'.folders = t.folders

def Tables.addGrant (t : Tables) (row : PermissionRow) : Tables := { t with permissions := t.permissions ++ [row] }

def Tables.addMembership (t : Tables) (row : UserGroupRow) : Tables := { t with userGroups := t.userGroups ++ [row] }

def Tables.addParentLink (t : Tables) (groupId parentId : Text) : Tables :=
  { t with groups := t.groups.map fun g =>
      if g.id = groupId ∧ g.parentId = none then { g with parentId := some parentId } else g }

theorem extends_addGrant (t : Tables) (row : PermissionRow) : t.Extends (t.addGrant row) :=
  ⟨subset_append_left _ _, fun _ h => h, fun _ _ h => h, rfl⟩

theorem extends_addMembership (t : Tables) (row : UserGroupRow) : t.Extends (t.addMembership row) :=
  ⟨fun _ h => h, subset_append_left _ _, fun _ _ h => h, rfl⟩

theorem extends_addParentLink (t : Tables) (groupId parentId : Text) :
    t.Extends (t.addParentLink groupId parentId) := by
  refine ⟨fun _ h => h, fun _ h => h, ?_, rfl⟩
  intro child parent hlink
  refine List.mem_map.mpr ⟨_, hlink, ?_⟩
  simp

section Monotone

variable {t t' : Tables} (h : t.Extends t') (userId : Int) (permission : ObjectPermission)

include h

theorem chainStep_mono {groupId next : Text} (hstep : ChainStep t permission groupId next) :
    ChainStep t' permission groupId next :=
  hstep.imp (h.parents _ _) fun hgrant => h.permissions hgrant

theorem reachedMember_mono {step step' : Text → Text → Prop} (hstep : ∀ x y, step x y → step' x y)
    {objectType : ObjectType} {objectId : Text}
    (hmember : ReachedMember t step userId objectType objectId permission) :
    ReachedMember t' step' userId objectType objectId permission := by
  obtain ⟨granted, reached, hgrant, hreach, hin⟩ := hmember
  exact ⟨granted, reached, h.permissions hgrant, ReflTransGen.mono hstep _ _ hreach, h.userGroups hin⟩

theorem objectAllowed_mono {objectId : Text} (hallowed : ObjectAllowed t userId permission objectId) :
    ObjectAllowed t' userId permission objectId :=
  hallowed.imp (fun hgrant => h.permissions hgrant)
    (reachedMember_mono h userId permission fun x y => h.parents x y)

theorem localAllowed_mono {connectionId : Text} {folderPath : Option Text}
    (hallowed : LocalAllowed t userId connectionId folderPath permission) :
    LocalAllowed t' userId connectionId folderPath permission := by
  have hchain : ∀ x y, ChainStep t permission x y → ChainStep t' permission x y :=
    fun x y => chainStep_mono h permission
  rcases hallowed with huser | ⟨folder, hfolder, huser⟩ | hreached | ⟨folder, hfolder, ancestor, hanc, hobj⟩
  · exact .inl (h.permissions huser)
  · exact .inr (.inl ⟨folder, hfolder, h.permissions huser⟩)
  · exact .inr (.inr (.inl (hreached.imp (reachedMember_mono h userId permission hchain)
      (reachedMember_mono h userId permission hchain))))
  · exact .inr (.inr (.inr
      ⟨folder, hfolder, ancestor, hanc, objectAllowed_mono h userId permission hobj⟩))

theorem abFolderPath_extends (connectionId : Text) :
    abFolderPathForConnection t' connectionId = abFolderPathForConnection t connectionId := by
  simp only [abFolderPathForConnection, h.folders]

end Monotone

/-- **The rusqlite decision meets its specification**: a grant to the user on the connection, the folder or an
ancestor, or one to a group from which the chain of the query reaches a group of the user. It ends on every
content of the tables, and more grants never turn a yes into a no. -/
theorem local_decision_spec (t : Tables) (userId : Int) (permission : ObjectPermission) :
    (∀ scope folder entry : Text, scope ≠ [] → '/' ∉ scope → entry ≠ [] → '/' ∉ entry → folder ≠ [] →
      ⟨scope, folder⟩ ∈ t.folders → ∀ fuel, rowCount t ≤ fuel →
        (checkConnectionPermission false fuel t userId (scope ++ '/' :: folder ++ '/' :: entry) permission =
            some true ↔
          (UserGrant t userId .connection (scope ++ '/' :: folder ++ '/' :: entry) permission ∨
            UserGrant t userId .connectionGroup folder permission ∨
            ∃ ancestor, IsAncestor ancestor folder ∧ UserGrant t userId .connectionGroup ancestor permission) ∨
          (∃ granted reached, (GroupGrant t granted .connection (scope ++ '/' :: folder ++ '/' :: entry) permission ∨
              GroupGrant t granted .connectionGroup folder permission) ∧
            ReflTransGen (ChainStep t permission) granted reached ∧ Member t userId reached) ∨
          ∃ ancestor granted reached, IsAncestor ancestor folder ∧
            GroupGrant t granted .connectionGroup ancestor permission ∧
            ReflTransGen (ParentStep t) granted reached ∧ Member t userId reached)) ∧
    (∀ connectionId fuel, rowCount t ≤ fuel →
      ∃ answer, checkConnectionPermission false fuel t userId connectionId permission = some answer) ∧
    (∀ t', (∃ row, t' = t.addGrant row) ∨ (∃ row, t' = t.addMembership row) ∨
        (∃ groupId parentId, t' = t.addParentLink groupId parentId) →
      ∀ connectionId fuel fuel', rowCount t ≤ fuel → rowCount t' ≤ fuel' →
        checkConnectionPermission false fuel t userId connectionId permission = some true →
          checkConnectionPermission false fuel' t' userId connectionId permission = some true) := by
  refine ⟨?_, ?_, ?_⟩
  · intro scope folder entry hscope hscope' hentry hentry' hfolder hrow fuel hfuel
    have hpath := abFolderPath_of_row hscope hscope' hentry hentry' hfolder hrow
    have hanswer := answers_local hfuel userId (scope ++ '/' :: folder ++ '/' :: entry) permission
    rw [hpath] at hanswer
    refine hanswer.eq_true_iff.trans ?_
    simp only [LocalAllowed, Option.some.injEq, exists_eq_left', Option.getD_some, ObjectAllowed, ReachedMember]
    constructor
    · rintro (huser | huser | (⟨granted, reached, h⟩ | ⟨granted, reached, h⟩) |
        ⟨ancestor, hanc, huser | ⟨granted, reached, h⟩⟩)
      · exact .inl (.inl huser)
      · exact .inl (.inr (.inl huser))
      · exact .inr (.inl ⟨granted, reached, .inl h.1, h.2⟩)
      · exact .inr (.inl ⟨granted, reached, .inr h.1, h.2⟩)
      · exact .inl (.inr (.inr ⟨ancestor, hanc, huser⟩))
      · exact .inr (.inr ⟨ancestor, granted, reached, hanc, h⟩)
    · rintro ((huser | huser | ⟨ancestor, hanc, huser⟩) | ⟨granted, reached, hgrant | hgrant, h⟩ |
        ⟨ancestor, granted, reached, hanc, h⟩)
      · exact .inl huser
      · exact .inr (.inl huser)
      · exact .inr (.inr (.inr ⟨ancestor, hanc, .inl huser⟩))
      · exact .inr (.inr (.inl (.inl ⟨granted, reached, hgrant, h⟩)))
      · exact .inr (.inr (.inl (.inr ⟨granted, reached, hgrant, h⟩)))
      · exact .inr (.inr (.inr ⟨ancestor, hanc, .inr ⟨granted, reached, h⟩⟩))
  · intro connectionId fuel hfuel
    obtain ⟨answer, hanswer, -⟩ := answers_local hfuel userId connectionId permission
    exact ⟨answer, hanswer⟩
  · intro t' hmore connectionId fuel fuel' hfuel hfuel' hallowed
    have hextends : t.Extends t' := by
      rcases hmore with ⟨row, rfl⟩ | ⟨row, rfl⟩ | ⟨groupId, parentId, rfl⟩
      · exact extends_addGrant t row
      · exact extends_addMembership t row
      · exact extends_addParentLink t groupId parentId
    have hquestion := (answers_local hfuel userId connectionId permission).eq_true_iff.mp hallowed
    rw [← abFolderPath_extends hextends] at hquestion
    exact (answers_local hfuel' userId connectionId permission).eq_true_iff.mpr
      (localAllowed_mono hextends userId permission hquestion)

def cyclicGroups : Tables where
  groups := [⟨"a", some "b"⟩, ⟨"b", some "a"⟩]
  userGroups := [⟨7, "b"⟩]
  permissions := [⟨"a", .group, .connectionGroup, "Clients", "connect"⟩]
  folders := [⟨"shared", "Clients"⟩]

theorem local_decision_cyclic :
    checkConnectionPermission false 3 cyclicGroups 7 "shared/Clients/db" .connect = some true := by
  have hchain : ReflTransGen (ChainStep cyclicGroups .connect) "a" "b" := ReflTransGen.single (.inl mem_cons_self)
  have hid : "shared/Clients/db" = "shared" ++ '/' :: "Clients" ++ '/' :: "db" := by decide
  rw [hid]
  exact ((local_decision_spec cyclicGroups 7 .connect).1 "shared" "Clients" "db"
    (by decide) (by decide) (by decide) (by decide) (by decide) (by decide) 3 (by decide)).mpr
    (.inr (.inl ⟨"a", "b", .inr mem_cons_self, hchain, mem_cons_self⟩))

/-- What the pool branch allows, the rusqlite branch allows. -/
theorem localAllowed_of_pool {t : Tables} {userId : Int} {connectionId : Text} {folderPath : Option Text}
    {permission : ObjectPermission} (h : PoolAllowed t userId connectionId folderPath permission) :
    LocalAllowed t userId connectionId folderPath permission := by
  rcases h with hreached | ⟨folder, hfolder, (huser | ⟨granted, reached, hgrant, hreach, hin⟩) | hancestor⟩
  · exact .inr (.inr (.inl (.inl hreached)))
  · exact .inr (.inl ⟨folder, hfolder, huser⟩)
  · -- a walk over `parent_id` is a walk over the chain
    refine .inr (.inr (.inl (.inr ⟨granted, reached, ?_, ?_, hin⟩)))
    · rw [hfolder, Option.getD_some]
      exact hgrant
    · exact ReflTransGen.mono (fun x y hstep => .inl hstep) _ _ hreach
  · exact .inr (.inr (.inr ⟨folder, hfolder, hancestor⟩))

/-- User 7 holds `connect` on the connection itself, and nothing else. -/
def directGrantOnly : Tables where
  groups := []
  userGroups := []
  permissions := [⟨"7", .user, .connection, "vm", "connect"⟩]
  folders := []

end Persea.Rbac
