import Persea.AddressBook

/-! Who sees a folder. `folder_allowed_for_user` walks from a folder up its path until it meets a list of groups, and
looks at the groups of the entries where it meets none. -/

namespace Persea.AddressBook

open Base Base.Text Book

/-- The loop of `folder_allowed_for_user`. What it returns is the answer; `none` is the end of the loop. -/
def Book.walkLoop (book : Book) (scope : Text) (userGroups : List Text) (current : Text) : Option Bool :=
  match book.getAbFolder scope current with
  | none => some false
  | some folder =>
    let groups := groupList folder.allowedGroups
    if groups ≠ [] then if userGroups = [] then some false else some (sharesGroup groups userGroups)
    else if folder.inheritFromParent = false then none
    else
      match _hsplit : rsplitOnce '/' current with
      | none => none
      | some (parent, _) => if parent = [] then none else book.walkLoop scope userGroups parent
termination_by current.length
decreasing_by
  rw [(rsplitOnce_eq_some.mp _hsplit).1, List.length_append, List.length_cons]
  omega

def Book.folderAllowedLoop (book : Book) (scope folderName : Text) (userGroups : List Text) : Bool :=
  match book.walkLoop scope userGroups folderName with
  | some allowed => allowed
  | none =>
    match book.getAbFolder scope folderName with
    | none => false
    | some _ => (book.listAbEntries scope folderName).all (entryAllowed userGroups)

variable {book : Book} {scope : Text} {userGroups : List Text}

theorem abFolderAncestors_of_split {folder parent name : Text} (h : rsplitOnce '/' folder = some (parent, name)) :
    Rbac.abFolderAncestors folder = if parent = [] then [] else parent :: Rbac.abFolderAncestors parent := by
  rw [Rbac.abFolderAncestors]
  split
  · rename_i hnone
    rw [h] at hnone
    cases hnone
  · rename_i hsome
    rw [h, Option.some.injEq, Prod.mk.injEq] at hsome
    rw [← hsome.1]

theorem walkLoop_eq (book : Book) (scope : Text) (userGroups : List Text) (current : Text) :
    book.walkLoop scope userGroups current =
      book.aclWalk scope userGroups (current :: Rbac.abFolderAncestors current) := by
  fun_induction walkLoop book scope userGroups current with
  | case1 current hrow => rw [aclWalk, hrow]
  | case2 current folder hrow groups hgroups hnone | case3 current folder hrow groups hgroups hnone =>
    rw [aclWalk, hrow]
    simp [groups, hgroups, hnone]
  | case4 current folder hrow groups hgroups hinherit =>
    rw [aclWalk, hrow]
    simp only [if_neg hgroups, if_pos hinherit, groups]
  | case5 current folder hrow groups hgroups hinherit hsplit =>
    rw [aclWalk, hrow, Rbac.abFolderAncestors_top (rsplitOnce_eq_none.mp hsplit)]
    simp only [if_neg hgroups, if_neg hinherit, groups, aclWalk]
  | case6 current folder hrow groups hgroups hinherit name hsplit =>
    rw [aclWalk, hrow, abFolderAncestors_of_split hsplit]
    simp only [if_neg hgroups, if_neg hinherit, if_true, groups, aclWalk]
  | case7 current folder hrow groups hgroups hinherit parent name hsplit hparent ih =>
    rw [ih, abFolderAncestors_of_split hsplit, if_neg hparent]
    conv_rhs => rw [aclWalk, hrow]
    simp only [if_neg hgroups, if_neg hinherit, groups]

theorem folderAllowedLoop_eq (book : Book) (scope folderName : Text) (userGroups : List Text) :
    book.folderAllowedLoop scope folderName userGroups = book.folderAllowedForUser scope folderName userGroups := by
  rw [folderAllowedLoop, walkLoop_eq]
  rfl

inductive Walk (book : Book) (scope folder : Text) : Text → Prop where
  | here : Walk book scope folder folder
  | up {current parent name : Text} {row : AbFolder} (h : Walk book scope folder current)
      (hrow : book.getAbFolder scope current = some row) (hgroups : groupList row.allowedGroups = [])
      (hinherit : row.inheritFromParent = true) (hsplit : rsplitOnce '/' current = some (parent, name))
      (hparent : parent ≠ []) : Walk book scope folder parent

variable {folder current : Text} {e : AbEntry}

theorem Walk.walkLoop_eq (h : Walk book scope folder current) :
    book.walkLoop scope userGroups folder = book.walkLoop scope userGroups current := by
  induction h with
  | here => rfl
  | @up current parent name row _ hrow hgroups hinherit hsplit hparent ih =>
    rw [ih, walkLoop, hrow]
    simp only [hgroups, hinherit, ne_eq, not_true_eq_false, if_false, Bool.true_eq_false]
    split
    · rename_i hnone
      rw [hsplit] at hnone
      cases hnone
    · rename_i hsome
      rw [hsplit, Option.some.injEq, Prod.mk.injEq] at hsome
      rw [← hsome.1, if_neg hparent]

theorem walkLoop_eq_none (hcurrent : Walk book scope folder current)
    (h : ∀ path, Walk book scope folder path →
      ∃ row, book.getAbFolder scope path = some row ∧ groupList row.allowedGroups = []) :
    book.walkLoop scope userGroups current = none := by
  fun_induction walkLoop book scope userGroups current with
  | case1 current hrow =>
    obtain ⟨row, hsome, -⟩ := h current hcurrent
    rw [hrow] at hsome
    cases hsome
  | case2 current folder hrow groups hgroups _ | case3 current folder hrow groups hgroups _ =>
    obtain ⟨row, hsome, hnil⟩ := h current hcurrent
    rw [hrow, Option.some.injEq] at hsome
    rw [← hsome] at hnil
    exact absurd hnil hgroups
  | case4 | case5 | case6 => rfl
  | case7 current folder hrow groups hgroups hinherit parent name hsplit hparent ih =>
    exact ih (hcurrent.up hrow (not_not.mp hgroups) (by simpa using hinherit) hsplit hparent)

theorem sharesGroup_iff {groups : List Text} : sharesGroup groups userGroups ↔ ∃ g ∈ groups, g ∈ userGroups := by
  simp [sharesGroup]

theorem entryAllowed_iff : entryAllowed userGroups e ↔
    groupList e.allowedGroups = [] ∨ ∃ g ∈ groupList e.allowedGroups, g ∈ userGroups := by
  rw [entryAllowed, Bool.or_eq_true, decide_eq_true_eq, sharesGroup_iff]

theorem mem_listAbEntries :
    e ∈ book.listAbEntries scope folder ↔ e ∈ book.entriesOf scope folder := List.mem_insertionSort _

/-- **Who may see a folder.** A missing row on the walk denies, the first list of groups on it decides, and without one
it is the entries of the folder that decide. -/
theorem folderAllowedLoop_spec (book : Book) (scope folder : Text) (userGroups : List Text) :
    book.folderAllowedForUser scope folder userGroups = book.folderAllowedLoop scope folder userGroups ∧
    ((∃ path, Walk book scope folder path ∧ book.getAbFolder scope path = none) →
      book.folderAllowedLoop scope folder userGroups = false) ∧
    (∀ path row, Walk book scope folder path → book.getAbFolder scope path = some row →
      groupList row.allowedGroups ≠ [] → (book.folderAllowedLoop scope folder userGroups = true ↔
          userGroups ≠ [] ∧ ∃ g ∈ groupList row.allowedGroups, g ∈ userGroups)) ∧
    ((∀ path, Walk book scope folder path →
        ∃ row, book.getAbFolder scope path = some row ∧ groupList row.allowedGroups = []) →
      (book.folderAllowedLoop scope folder userGroups = true ↔
        ∀ e ∈ book.entriesOf scope folder, groupList e.allowedGroups = [] ∨
          ∃ g ∈ groupList e.allowedGroups, g ∈ userGroups)) := by
  refine ⟨(folderAllowedLoop_eq book scope folder userGroups).symm, ?_, ?_, ?_⟩
  · rintro ⟨path, hpath, hmissing⟩
    rw [folderAllowedLoop, hpath.walkLoop_eq, walkLoop, hmissing]
  · intro path row hpath hrow hgroups
    rw [folderAllowedLoop, hpath.walkLoop_eq, walkLoop, hrow]
    by_cases hnone : userGroups = []
    · simp [hgroups, hnone]
    · simp only [hgroups, hnone, ne_eq, not_false_eq_true, if_true, if_false, true_and, sharesGroup_iff]
  · intro h
    obtain ⟨row, hrow, -⟩ := h folder .here
    rw [folderAllowedLoop, walkLoop_eq_none .here h, hrow]
    change (book.listAbEntries scope folder).all (entryAllowed userGroups) = true ↔ _
    simp only [List.all_eq_true, mem_listAbEntries, entryAllowed_iff]

end Persea.AddressBook
