import Persea.BaseStore
import Persea.BaseText

/-! Custom roles. The row of a role, the deletion of its permissions and the insertion of each new one are statements
of their own, and no transaction holds them together, on the rusqlite connection as on the pool. -/

namespace Persea.Rbac

open Base Base.Text List

structure RoleTables where
  roles : Store Text (Text × Option Text)
  permissions : List (Text × Text)

inductive Backend where
  | rusqlite
  | pool
deriving DecidableEq, Repr

inductive RoleStatement where
  | writeRole
  | deletePermissions
  | prepareInsert
  | insertPermission (permission : Text)
deriving DecidableEq, Repr

section Writes

/- The error of a statement that fails, such as a name that is taken. -/
variable (failing : RoleStatement → Option String)

def insertLoop (roleId : Text) : (seen permissions : List Text) → RoleTables → RoleTables × Except String Unit
  | _, [], t => (t, .ok ())
  | seen, permission :: permissions, t =>
    if permission ∈ seen then insertLoop roleId seen permissions t
    else
      match failing (.insertPermission permission) with
      | some e => (t, .error e)
      | none => insertLoop roleId (seen ++ [permission]) permissions
        { t with permissions := t.permissions ++ [(roleId, permission)] }

variable (backend : Backend)

def insertRolePermissions (roleId : Text) (permissions : List Text) (t : RoleTables) :
    RoleTables × Except String Unit :=
  match if backend = .rusqlite then failing .prepareInsert else none with
  | some e => (t, .error e)
  | none => insertLoop failing roleId [] permissions t

def createCustomRole (id name : Text) (description : Option Text) (permissions : List Text)
    (t : RoleTables) : RoleTables × Except String Text :=
  match failing .writeRole with
  | some e => (t, .error e)
  | none =>
    if id ∈ t.roles then (t, .error "UNIQUE constraint failed: custom_roles.id")
    else
      let (t, inserted) := insertRolePermissions failing backend id permissions
        { t with roles := t.roles.insert id (name, description) }
      (t, inserted.map fun _ => id)

def updateCustomRole (id name : Text) (description : Option Text) (permissions : List Text)
    (t : RoleTables) : RoleTables × Except String Bool :=
  match failing .writeRole with
  | some e => (t, .error e)
  | none =>
    if id ∉ t.roles then (t, .ok false)
    else
      let t := { t with roles := t.roles.insert id (name, description) }
      match failing .deletePermissions with
      | some e => (t, .error e)
      | none =>
        let (t, inserted) := insertRolePermissions failing backend id permissions
          { t with permissions := t.permissions.filter fun row => row.1 ≠ id }
        (t, inserted.map fun _ => true)

def written (permissions : List Text) : List Text :=
  if backend = .rusqlite ∧ failing .prepareInsert ≠ none then []
  else permissions.takeWhile fun p => failing (.insertPermission p) = none

def Inserts (permissions : List Text) : Prop :=
  ¬(backend = .rusqlite ∧ failing .prepareInsert ≠ none) ∧ ∀ p ∈ permissions, failing (.insertPermission p) = none

variable {failing} {id : Text}

theorem insertLoop_spec {seen permissions : List Text} {t : RoleTables}
    (hseen : ∀ p ∈ seen, failing (.insertPermission p) = none ∧ (id, p) ∈ t.permissions) :
    (insertLoop failing id seen permissions t).1.roles = t.roles ∧
      (∀ p, (id, p) ∈ (insertLoop failing id seen permissions t).1.permissions ↔
        (id, p) ∈ t.permissions ∨ p ∈ permissions.takeWhile fun p => failing (.insertPermission p) = none) ∧
      ((∃ e, (insertLoop failing id seen permissions t).2 = .error e) ↔
        ¬∀ p ∈ permissions, failing (.insertPermission p) = none) := by
  induction permissions generalizing seen t with
  | nil => simp [insertLoop]
  | cons permission permissions ih =>
    rw [insertLoop, forall_mem_cons]
    split_ifs with hin
    · obtain ⟨hok, hrow⟩ := hseen permission hin
      obtain ⟨hroles, hrows, herror⟩ := ih hseen
      refine ⟨hroles, fun p => ?_, by rw [herror, and_iff_right hok]⟩
      rw [hrows, takeWhile_cons_of_pos (by simpa using hok), mem_cons]
      constructor
      · exact Or.imp_right .inr
      · rintro (h | rfl | h)
        · exact .inl h
        · exact .inl hrow
        · exact .inr h
    · cases hfail : failing (.insertPermission permission) with
      | some e => simp [hfail]
      | none =>
        have hnext : ∀ p ∈ seen ++ [permission], failing (.insertPermission p) = none ∧
            (id, p) ∈ t.permissions ++ [(id, permission)] := by
          intro p hp
          rcases mem_append.mp hp with hp | hp
          · exact ⟨(hseen p hp).1, mem_append_left _ (hseen p hp).2⟩
          · obtain rfl := mem_singleton.mp hp
            exact ⟨hfail, by simp⟩
        obtain ⟨hroles, hrows, herror⟩ := @ih (seen ++ [permission]) { t with permissions := _ } hnext
        refine ⟨hroles, fun p => ?_, by rw [herror, and_iff_right rfl]⟩
        rw [hrows, takeWhile_cons_of_pos (by simpa using hfail), mem_cons]
        simp [or_assoc]

theorem insertRolePermissions_spec (backend : Backend) (permissions : List Text) (t : RoleTables) :
    (insertRolePermissions failing backend id permissions t).1.roles = t.roles ∧
      (∀ p, (id, p) ∈ (insertRolePermissions failing backend id permissions t).1.permissions ↔
        (id, p) ∈ t.permissions ∨ p ∈ written failing backend permissions) ∧
      ((∃ e, (insertRolePermissions failing backend id permissions t).2 = .error e) ↔
        ¬Inserts failing backend permissions) := by
  have hloop := @insertLoop_spec failing id [] permissions t (by simp)
  unfold insertRolePermissions written Inserts
  cases backend with
  | pool => simpa using hloop
  | rusqlite =>
    cases hprepare : failing .prepareInsert with
    | none => simpa [hprepare] using hloop
    | some e => simp

end Writes

def Atomic {α : Type} (id : Text) (before : RoleTables) (result : RoleTables × Except String α) : Prop :=
  (∃ e, result.2 = .error e) → result.1.roles.lookup id = before.roles.lookup id ∧
    ∀ p, (id, p) ∈ result.1.permissions ↔ (id, p) ∈ before.permissions

theorem exists_map_error_iff {α β : Type} {f : α → β} {x : Except String α} :
    (∃ e, x.map f = .error e) ↔ ∃ e, x = .error e := by
  cases x <;> simp [Except.map]

/-- **Writes of custom roles.** An error leaves the role as it was exactly if it is that of the first statement,
or, for an update, if what had been written by then was what was stored. -/
theorem custom_role_writes_atomic_iff (failing : RoleStatement → Option String) (backend : Backend) (id name : Text)
    (description : Option Text) (permissions : List Text) (t : RoleTables) :
    (Atomic id t (createCustomRole failing backend id name description permissions t) ↔
      failing .writeRole ≠ none ∨ id ∈ t.roles ∨ Inserts failing backend permissions) ∧
    (Atomic id t (updateCustomRole failing backend id name description permissions t) ↔
      failing .writeRole ≠ none ∨ id ∉ t.roles ∨
        (failing .deletePermissions = none ∧ Inserts failing backend permissions) ∨
        (t.roles.lookup id = some (name, description) ∧ (failing .deletePermissions ≠ none ∨
          ∀ p, p ∈ written failing backend permissions ↔ (id, p) ∈ t.permissions))) := by
  constructor
  · unfold createCustomRole Atomic
    cases failing .writeRole with
    | some e => simp
    | none =>
      by_cases hid : id ∈ t.roles
      · simp [hid]
      · obtain ⟨hroles, -, herror⟩ := @insertRolePermissions_spec failing id backend permissions
          { t with roles := t.roles.insert id (name, description) }
        have habsent : t.roles.lookup id = none := AList.lookup_eq_none.mpr hid
        simp only [if_neg hid, exists_map_error_iff, herror, hroles, AList.lookup_insert, habsent]
        simp [hid]
  · unfold updateCustomRole Atomic
    cases failing .writeRole with
    | some e => simp
    | none =>
      by_cases hid : id ∈ t.roles
      · cases failing .deletePermissions with
        | some e => simp [hid, eq_comm]
        | none =>
          obtain ⟨hroles, hrows, herror⟩ := @insertRolePermissions_spec failing id backend permissions
            ⟨t.roles.insert id (name, description), t.permissions.filter fun row => row.1 ≠ id⟩
          simp only [hid, not_true_eq_false, if_false, exists_map_error_iff, herror, hroles, hrows, AList.lookup_insert]
          simp [eq_comm, imp_iff_not_or]
      · simp [hid]

/-- **Permissions lost.** The insertion of the second permission fails, after the old ones are deleted. -/
theorem updateCustomRole_loses_permissions :
    ∃ t : RoleTables, (['r'], ['x']) ∈ t.permissions ∧ ∀ backend ∈ [Backend.rusqlite, .pool],
      let result := updateCustomRole (fun s => if s = .insertPermission ['b'] then some "disk full" else none) backend
        ['r'] ['n'] none [['a'], ['b']] t
      result.2 = .error "disk full" ∧ (['r'], ['x']) ∉ result.1.permissions :=
  ⟨⟨AList.insert ['r'] (['n'], none) ∅, [(['r'], ['x'])]⟩, by decide, by decide +kernel⟩

end Persea.Rbac
