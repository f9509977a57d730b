import Persea.RbacQueries

/-! What the access decision is for: grants, group chains and folder ancestry as relations on the rows. Each
query is related to its relation once; every recursive query ends when its fuel covers the rows of the
tables. -/

namespace Persea.Rbac

open Base Base.Text Saturation Relation List

variable (t : Tables)

def UserGrant (userId : Int) (objectType : ObjectType) (objectId : Text) (permission : ObjectPermission) : Prop :=
  ⟨i64Text userId, .user, objectType, objectId, permission.asStr⟩ ∈ t.permissions

def GroupGrant (groupId : Text) (objectType : ObjectType) (objectId : Text)
    (permission : ObjectPermission) : Prop :=
  ⟨groupId, .group, objectType, objectId, permission.asStr⟩ ∈ t.permissions

def Member (t : Tables) (userId : Int) (groupId : Text) : Prop := ⟨userId, groupId⟩ ∈ t.userGroups

def ParentStep (groupId parentId : Text) : Prop := ⟨groupId, some parentId⟩ ∈ t.groups

/-- One step of the chain: to the parent, or to a group granted on the connection group of that id. -/
def ChainStep (permission : ObjectPermission) (groupId next : Text) : Prop :=
  ParentStep t groupId next ∨ GroupGrant t next .connectionGroup groupId permission

def ReachedMember (step : Text → Text → Prop) (userId : Int) (objectType : ObjectType)
    (objectId : Text) (permission : ObjectPermission) : Prop :=
  ∃ granted reached, GroupGrant t granted objectType objectId permission ∧
    ReflTransGen step granted reached ∧ Member t userId reached

def IsAncestor (ancestor folder : Text) : Prop := ancestor ≠ [] ∧ ∃ rest, folder = ancestor ++ '/' :: rest

variable {t : Tables} {objectType : ObjectType} {objectId : Text} {permission : ObjectPermission} {userId : Int}
  {p q : Prop}

theorem mem_grantees {entityType : EntityType} {entityId : Text} :
    entityId ∈ grantees t entityType objectType objectId permission ↔
      ⟨entityId, entityType, objectType, objectId, permission.asStr⟩ ∈ t.permissions := by
  simp only [grantees, List.mem_map, mem_filter, decide_eq_true_eq]
  constructor
  · rintro ⟨⟨e, et, ot, o, p⟩, ⟨hmem, rfl, rfl, rfl, rfl⟩, rfl⟩
    exact hmem
  · intro hmem
    exact ⟨_, ⟨hmem, rfl, rfl, rfl, rfl⟩, rfl⟩

theorem directGrant_iff : directGrant t userId objectType objectId permission ↔
      UserGrant t userId objectType objectId permission := by
  rw [directGrant, decide_eq_true_eq, mem_grantees]
  rfl

theorem mem_parentIds {groupId parentId : Text} : parentId ∈ parentIds t groupId ↔ ParentStep t groupId parentId := by
  simp only [parentIds, mem_filterMap, mem_filter, decide_eq_true_eq]
  constructor
  · rintro ⟨⟨id, parent⟩, ⟨hmem, rfl⟩, hparent⟩
    simp only at hparent
    rw [hparent] at hmem
    exact hmem
  · intro hmem
    exact ⟨_, ⟨hmem, rfl⟩, rfl⟩

theorem mem_chainIds {groupId next : Text} :
    next ∈ chainIds t permission groupId ↔ ChainStep t permission groupId next := by
  rw [chainIds, mem_append, mem_parentIds, mem_grantees]
  rfl

theorem memberOfAny_iff {groupIds : List Text} :
    memberOfAny t userId groupIds ↔ ∃ groupId ∈ groupIds, Member t userId groupId := by
  simp only [memberOfAny, List.any_eq_true, decide_eq_true_eq]
  constructor
  · rintro ⟨⟨u, g⟩, hmem, rfl, hg⟩
    exact ⟨g, hg, hmem⟩
  · rintro ⟨g, hg, hmem⟩
    exact ⟨_, hmem, rfl, hg⟩

theorem mem_abFolderAncestors {folder ancestor : Text} :
    ancestor ∈ abFolderAncestors folder ↔ IsAncestor ancestor folder := by
  fun_induction abFolderAncestors folder with
  | case1 folder hsplit =>
    -- no slash at all
    rw [rsplitOnce_eq_none] at hsplit
    refine ⟨fun h => absurd h not_mem_nil, ?_⟩
    rintro ⟨-, rest, rfl⟩
    exact absurd (by simp) hsplit
  | case2 folder name hsplit =>
    -- a single slash, in front
    obtain ⟨rfl, hname⟩ := rsplitOnce_eq_some.mp hsplit
    refine ⟨fun h => absurd h not_mem_nil, ?_⟩
    rintro ⟨hne, rest, hrest⟩
    cases ancestor with
    | nil => exact absurd rfl hne
    | cons c ancestor =>
      rw [nil_append, cons_append, List.cons.injEq] at hrest
      exact absurd (by rw [hrest.2]; simp) hname
  | case3 folder parent name hsplit hparent ih =>
    obtain ⟨rfl, hname⟩ := rsplitOnce_eq_some.mp hsplit
    rw [mem_cons, ih]
    constructor
    · rintro (rfl | ⟨hne, rest, rfl⟩)
      · exact ⟨hparent, name, rfl⟩
      · exact ⟨hne, rest ++ '/' :: name, by simp⟩
    · rintro ⟨hne, rest, hrest⟩
      -- the slash after the ancestor is the last one, or stands in the parent
      rcases append_eq_append_iff.mp hrest with ⟨more, hmore, hsplit'⟩ | ⟨more, hmore, hsplit'⟩
      · cases more with
        | nil =>
          left
          rw [hmore, append_nil]
        | cons c more =>
          rw [cons_append, List.cons.injEq] at hsplit'
          exact absurd (by rw [hsplit'.2]; simp) hname
      · cases more with
        | nil =>
          left
          rw [hmore, append_nil]
        | cons c more =>
          right
          rw [cons_append, List.cons.injEq] at hsplit'
          exact ⟨hne, more, by rw [hmore, hsplit'.1]⟩

def Answers (result : Option Bool) (question : Prop) : Prop :=
  ∃ answer, result = some answer ∧ (answer = true ↔ question)

variable {step : Text → Text → Prop} {result : Option Bool}

theorem Answers.eq_true_iff {question : Prop} (h : Answers result question) : result = some true ↔ question := by
  obtain ⟨answer, rfl, hiff⟩ := h
  rw [← hiff, Option.some.injEq]

theorem Answers.congr {question question' : Prop} (h : Answers result question)
    (hiff : question ↔ question') : Answers result question' := by
  obtain ⟨answer, hresult, hanswer⟩ := h
  exact ⟨answer, hresult, hanswer.trans hiff⟩

theorem Answers.eq_iff {left right : Option Bool} (hleft : Answers left p)
    (hright : Answers right q) : left = right ↔ (p ↔ q) := by
  obtain ⟨a, rfl, ha⟩ := hleft
  obtain ⟨b, rfl, hb⟩ := hright
  rw [Option.some.injEq, ← ha, ← hb, Bool.eq_iff_iff]

theorem answers_ite {condition : Bool} {rest : Option Bool} (hcondition : condition ↔ p)
    (hrest : Answers rest q) : Answers (if condition then some true else rest) (p ∨ q) := by
  cases condition with
  | true => exact ⟨true, rfl, by simp [hcondition.mp rfl]⟩
  | false =>
    have hp : ¬p := fun hp => absurd (hcondition.mpr hp) (by decide)
    exact hrest.congr (or_iff_right hp).symm

theorem answers_bind {first rest : Option Bool} (hfirst : Answers first p) (hrest : Answers rest q) :
    Answers (first.bind fun allowed => if allowed then some true else rest) (p ∨ q) := by
  obtain ⟨answer, rfl, hanswer⟩ := hfirst
  exact answers_ite hanswer hrest

theorem answers_firstAllowed {check : Text → Option Bool} {question : Text → Prop} {objectIds : List Text}
    (hcheck : ∀ objectId, Answers (check objectId) (question objectId)) :
    Answers (firstAllowed check objectIds) (∃ objectId ∈ objectIds, question objectId) := by
  induction objectIds with
  | nil => exact ⟨false, rfl, by simp⟩
  | cons objectId objectIds ih =>
    refine (answers_bind (hcheck objectId) ih).congr ?_
    simp

/-- As many turns as this are enough for every recursive query: one for each group id the queries can
return. -/
def rowCount (t : Tables) : Nat := t.permissions.length + t.groups.length

def groupIdRows (t : Tables) : List Text :=
  t.permissions.map PermissionRow.entityId ++ t.groups.filterMap GroupRow.parentId

theorem length_groupIdRows (t : Tables) : (groupIdRows t).length ≤ rowCount t := by
  rw [groupIdRows, length_append, length_map]
  exact Nat.add_le_add_left (length_filterMap_le _ _) _

theorem grantees_subset (t : Tables) (entityType : EntityType) (objectType : ObjectType) (objectId : Text)
    (permission : ObjectPermission) : grantees t entityType objectType objectId permission ⊆ groupIdRows t := by
  intro entityId h
  exact mem_append_left _ (List.mem_map.mpr ⟨_, mem_grantees.mp h, rfl⟩)

theorem parentIds_subset (t : Tables) (groupId : Text) : parentIds t groupId ⊆ groupIdRows t := by
  intro parentId h
  exact mem_append_right _ (mem_filterMap.mpr ⟨_, mem_parentIds.mp h, rfl⟩)

theorem chainIds_subset (t : Tables) (permission : ObjectPermission) (groupId : Text) :
    chainIds t permission groupId ⊆ groupIdRows t :=
  append_subset.mpr ⟨parentIds_subset t groupId, grantees_subset t _ _ _ _⟩

theorem answers_memberOfChain (userId : Int) {next : Text → List Text}
    (hnext : ∀ x y, y ∈ next x ↔ step x y) (hrows : ∀ x, next x ⊆ groupIdRows t) {first : List Text}
    (hfirst : first ⊆ groupIdRows t) {fuel : Nat} (hfuel : rowCount t ≤ fuel) :
    Answers (memberOfChain t userId next fuel first)
      (∃ granted ∈ first, ∃ reached, ReflTransGen step granted reached ∧ Member t userId reached) := by
  obtain ⟨rows, hunion⟩ := recursiveUnion_isSome hrows hfirst ((length_groupIdRows t).trans hfuel)
  have hstep : (fun x y => y ∈ next x) = step := by
    funext x y
    exact propext (hnext x y)
  refine ⟨memberOfAny t userId rows, by rw [memberOfChain, hunion, Option.map_some], ?_⟩
  rw [memberOfAny_iff]
  constructor
  · rintro ⟨reached, hmem, hmember⟩
    obtain ⟨granted, hgranted, hreaches⟩ := (mem_recursiveUnion hunion reached).mp hmem
    exact ⟨granted, hgranted, reached, hstep ▸ hreaches, hmember⟩
  · rintro ⟨granted, hgranted, reached, hreaches, hmember⟩
    refine ⟨reached, (mem_recursiveUnion hunion reached).mpr ⟨granted, hgranted, ?_⟩, hmember⟩
    rw [Reaches, hstep]
    exact hreaches

theorem exists_grantee_iff : (∃ granted ∈ grantees t .group objectType objectId permission,
        ∃ reached, ReflTransGen step granted reached ∧ Member t userId reached) ↔
      ReachedMember t step userId objectType objectId permission := by
  constructor
  · rintro ⟨granted, hgranted, reached, h⟩
    exact ⟨granted, reached, mem_grantees.mp hgranted, h⟩
  · rintro ⟨granted, reached, hgranted, h⟩
    exact ⟨granted, mem_grantees.mpr hgranted, reached, h⟩

def ObjectAllowed (t : Tables) (userId : Int) (permission : ObjectPermission) (objectId : Text) : Prop :=
  UserGrant t userId .connectionGroup objectId permission ∨
    ReachedMember t (ParentStep t) userId .connectionGroup objectId permission

theorem answers_groupObjectCheck {fuel : Nat} (hfuel : rowCount t ≤ fuel) (userId : Int)
    (permission : ObjectPermission) (objectId : Text) :
    Answers (groupObjectCheck fuel t userId objectId permission)
      (ObjectAllowed t userId permission objectId) := by
  refine answers_ite directGrant_iff ?_
  exact (answers_memberOfChain userId (fun x y => mem_parentIds) (parentIds_subset t)
    (grantees_subset t _ _ _ _) hfuel).congr exists_grantee_iff

end Persea.Rbac
