import Persea.AddressBookAccess
import Persea.BaseDescent

/-! Whether a folder or one below it may be seen. `folder_or_descendant_accessible_db` asks this of every row below a
folder, and asks each of them in the same way, so a row is asked about once for every way down to it. -/

namespace Persea.AddressBook

open Base Base.Text List Descent

def Book.listAbFoldersOf (book : Book) (scope : Text) : List AbFolder :=
  (book.folders.filter fun f => f.scope = scope).insertionSort fun a b => lexLe a.name b.name = true

def descendLoop (path : Text) (accessible : Text → Option (Bool × Nat)) : List AbFolder → Option (Bool × Nat)
  | [] => some (false, 0)
  | folder :: folders =>
    if path ++ ['/'] <+: folder.name then
      match accessible folder.name with
      | none => none
      | some (true, calls) => some (true, calls)
      | some (false, calls) => (descendLoop path accessible folders).map fun result => (result.1, calls + result.2)
    else descendLoop path accessible folders

/-- The answer and the number of calls of `folder_allowed_for_user`; `none` is a call that has not returned. -/
def Book.folderOrDescendantAccessibleDb (book : Book) (scope : Text) (userGroups : List Text) :
    (fuel : Nat) → (path : Text) → Option (Bool × Nat)
  | 0, _ => none
  | fuel + 1, path =>
    if book.folderAllowedForUser scope path userGroups then some (true, 1)
    else
      (descendLoop path (book.folderOrDescendantAccessibleDb scope userGroups fuel)
        (book.listAbFoldersOf scope)).map fun result => (result.1, 1 + result.2)

def Book.rowsBelow (book : Book) (scope path : Text) : List Text :=
  ((book.listAbFoldersOf scope).map AbFolder.name).filter fun name => path ++ ['/'] <+: name

variable {book : Book} {scope : Text}

theorem mem_rowsBelow {path name : Text} : name ∈ book.rowsBelow scope path ↔
      name ∈ (book.listAbFoldersOf scope).map AbFolder.name ∧ path ++ ['/'] <+: name := by
  rw [Book.rowsBelow, mem_filter, decide_eq_true_eq]

theorem length_rowsBelow_le (path : Text) :
    (book.rowsBelow scope path).length ≤ (book.listAbFoldersOf scope).length := by
  rw [← length_map (f := AbFolder.name)]
  exact length_filter_le _ _

theorem nodup_names (hunique : (book.folders.map fun f => (f.scope, f.name)).Nodup) (scope : Text) :
    ((book.listAbFoldersOf scope).map AbFolder.name).Nodup := by
  have hrows : (book.listAbFoldersOf scope).Perm (book.folders.filter fun f => f.scope = scope) :=
    perm_insertionSort _ _
  rw [(hrows.map AbFolder.name).nodup_iff, nodup_map_iff_inj_on (hunique.of_map _ |>.filter _)]
  intro f hf g hg hname
  rw [mem_filter, decide_eq_true_eq] at hf hg
  exact inj_on_of_nodup_map hunique hf.1 hg.1 (by rw [hf.2, hg.2, hname])

theorem below_or_below {a b c : Text} (ha : a ++ ['/'] <+: c) (hb : b ++ ['/'] <+: c) :
    a = b ∨ a ++ ['/'] <+: b ∨ b ++ ['/'] <+: a := by
  have hshort : ∀ x y : Text, x ++ ['/'] <+: c → y ++ ['/'] <+: c → x.length < y.length → x ++ ['/'] <+: y := by
    intro x y hx hy hlt
    exact prefix_of_prefix_length_le hx ((prefix_append y ['/']).trans hy) (by simp; omega)
  rcases Nat.lt_trichotomy a.length b.length with hlt | heq | hgt
  · exact .inr (.inl (hshort a b ha hb hlt))
  · left
    have hac := (prefix_append a ['/']).trans ha
    have hbc := (prefix_append b ['/']).trans hb
    exact (prefix_of_prefix_length_le hac hbc heq.le).eq_of_length heq
  · exact .inr (.inr (hshort b a hb ha hgt))

theorem rowsBelow_trans (a b : Text) (hb : b ∈ book.rowsBelow scope a) (c : Text) (hc : c ∈ book.rowsBelow scope b) :
    c ∈ book.rowsBelow scope a := by
  rw [mem_rowsBelow] at hb hc ⊢
  exact ⟨hc.1, hb.2.trans ((prefix_append b ['/']).trans hc.2)⟩

theorem nested_rowsBelow (hunique : (book.folders.map fun f => (f.scope, f.name)).Nodup) (scope : Text) :
    Nested (book.rowsBelow scope) where
  nodup path := (nodup_names hunique scope).filter _
  irrefl path hmem := by
    have hlength := (mem_rowsBelow.mp hmem).2.length_le
    rw [length_append, length_singleton] at hlength
    omega
  trans := rowsBelow_trans
  linear a b hb c hc d hdb hdc := by
    rw [mem_rowsBelow] at hb hc hdb hdc
    rcases below_or_below hdb.2 hdc.2 with heq | hbc | hcb
    · exact .inl heq
    · exact .inr (.inl (mem_rowsBelow.mpr ⟨hc.1, hbc⟩))
    · exact .inr (.inr (mem_rowsBelow.mpr ⟨hb.1, hcb⟩))

theorem descendLoop_eq_tryAll (path : Text) (accessible : Text → Option (Bool × Nat)) (folders : List AbFolder) :
    descendLoop path accessible folders
      = tryAll accessible ((folders.map AbFolder.name).filter fun name => path ++ ['/'] <+: name) := by
  induction folders with
  | nil => rfl
  | cons folder folders ih =>
    rw [descendLoop, map_cons]
    by_cases hbelow : path ++ ['/'] <+: folder.name
    · rw [if_pos hbelow, filter_cons_of_pos (by simpa using hbelow), ih]
      rfl
    · rw [if_neg hbelow, filter_cons_of_neg (by simpa using hbelow), ih]

theorem folderOrDescendantAccessibleDb_eq_visit (book : Book) (scope : Text) (userGroups : List Text) (fuel : Nat)
    (path : Text) :
    book.folderOrDescendantAccessibleDb scope userGroups fuel path
      = visit (book.rowsBelow scope) (fun name => book.folderAllowedForUser scope name userGroups) fuel path := by
  induction fuel generalizing path with
  | zero => rfl
  | succ fuel ih =>
    rw [Book.folderOrDescendantAccessibleDb, visit, descendLoop_eq_tryAll]
    rw [funext ih]
    rfl

/-- **What the walk down answers.** It returns, and says yes exactly if the folder may be seen or a row below it. -/
theorem folderOrDescendantAccessibleDb_returns (book : Book) (scope path : Text) (userGroups : List Text) :
    ∃ enough, ∀ fuel, enough ≤ fuel →
      ∃ found calls, book.folderOrDescendantAccessibleDb scope userGroups fuel path = some (found, calls) ∧
        (found = true ↔ book.folderAllowedForUser scope path userGroups = true ∨
          ∃ folder ∈ book.folders, folder.scope = scope ∧ path ++ ['/'] <+: folder.name ∧
            book.folderAllowedForUser scope folder.name userGroups = true) := by
  -- names grow longer on the way down, up to that of some row
  obtain ⟨longest, hlongest⟩ : ∃ n, n = (((book.listAbFoldersOf scope).map AbFolder.name).map List.length).sum := ⟨_, rfl⟩
  have hrank : ∀ a, ∀ b ∈ book.rowsBelow scope a, longest - b.length < longest - a.length := by
    intro a b hb
    obtain ⟨hrow, hbelow⟩ := mem_rowsBelow.mp hb
    have hle := single_le_sum (fun _ _ => Nat.zero_le _) _ (List.mem_map_of_mem (f := List.length) hrow)
    have hlt := hbelow.length_le
    rw [length_append, length_singleton] at hlt
    omega
  refine ⟨longest - path.length + 1, fun fuel hfuel => ?_⟩
  obtain ⟨calls, hvisit⟩ := @exists_visit _ _ (fun name => book.folderAllowedForUser scope name userGroups)
    rowsBelow_trans (fun name => longest - name.length) hrank fuel path hfuel
  rw [← folderOrDescendantAccessibleDb_eq_visit] at hvisit
  refine ⟨_, calls, hvisit, ?_⟩
  have hrow : ∀ folder, folder ∈ book.listAbFoldersOf scope ↔ folder ∈ book.folders ∧ folder.scope = scope := by
    intro folder
    rw [Book.listAbFoldersOf, mem_insertionSort, mem_filter, decide_eq_true_eq]
  simp only [leads, Bool.or_eq_true, List.any_eq_true, mem_rowsBelow, List.mem_map, hrow]
  refine or_congr_right ⟨?_, ?_⟩
  · rintro ⟨_, ⟨⟨folder, ⟨hmem, hscope⟩, rfl⟩, hbelow⟩, hallowed⟩
    exact ⟨folder, hmem, hscope, hbelow, hallowed⟩
  · rintro ⟨folder, hmem, hscope, hbelow, hallowed⟩
    exact ⟨folder.name, ⟨⟨folder, ⟨hmem, hscope⟩, rfl⟩, hbelow⟩, hallowed⟩

/-- **The calls of one walk down.** The walk asks about each folder of its trail, and about a row below one of them that
leads nowhere as often as there are ways to it: twice as often for every row in between. -/
theorem folderOrDescendantAccessibleDb_calls_le_iff (book : Book) (scope path : Text) (userGroups : List Text)
    (hunique : (book.folders.map fun f => (f.scope, f.name)).Nodup) :
    (∀ fuel, (book.listAbFoldersOf scope).length < fuel →
      ∃ found calls, book.folderOrDescendantAccessibleDb scope userGroups fuel path = some (found, calls) ∧
        calls ≤ (book.listAbFoldersOf scope).length + 1) ↔
    ∃ trail, Trail (book.rowsBelow scope) (fun name => book.folderAllowedForUser scope name userGroups) path trail ∧
      (trail.map (tests (book.rowsBelow scope)
        fun name => book.folderAllowedForUser scope name userGroups)).sum ≤ (book.listAbFoldersOf scope).length + 1 := by
  have hnested := nested_rowsBelow hunique scope
  have hlength := @length_rowsBelow_le book scope path
  constructor
  · intro h
    obtain ⟨trail, htrail⟩ := exists_trail hnested (fun name => book.folderAllowedForUser scope name userGroups) path
    obtain ⟨found, calls, hcalls, hle⟩ := h _ (Nat.lt_succ_self _)
    rw [folderOrDescendantAccessibleDb_eq_visit, visit_of_trail hnested htrail (by omega),
      Option.some.injEq, Prod.mk.injEq] at hcalls
    exact ⟨trail, htrail, hcalls.2 ▸ hle⟩
  · rintro ⟨trail, htrail, hle⟩ fuel hfuel
    have hvisit := @visit_of_trail _ _ _ _ hnested fuel path trail htrail (by omega)
    rw [← folderOrDescendantAccessibleDb_eq_visit] at hvisit
    exact ⟨_, _, hvisit, hle⟩

def nestedFolders : Book where
  folders := ["a", "a/b", "a/b/c", "a/b/c/d"].map fun name => ⟨"shared", name.toList, [], "ops", false⟩
  entries := []
  entry_folder := by simp

theorem folderAllowed_nestedFolders (scope path : Text) : nestedFolders.folderAllowedForUser scope path [] = false := by
  rw [Book.folderAllowedForUser, Book.aclWalk]
  cases hrow : nestedFolders.getAbFolder scope path with
  | none => rfl
  | some row =>
    have hgroups : ∀ f ∈ nestedFolders.folders, f.allowedGroups = "ops" := by decide
    have hops : Book.groupList row.allowedGroups ≠ [] := by
      rw [hgroups row (mem_of_find?_eq_some hrow)]
      decide
    simp [hops]

theorem folderOrDescendantAccessibleDb_calls_two :
    ∃ found calls, nestedFolders.folderOrDescendantAccessibleDb "shared" [] 5 "a/b/c" =
      some (found, calls) ∧ calls ≤ 4 + 1 := by
  refine (folderOrDescendantAccessibleDb_calls_le_iff nestedFolders "shared" "a/b/c" [] (by decide)).mpr
    ⟨["a/b/c"], .last (.inr ?_), ?_⟩ 5 (by decide)
  · intro name _
    simp [leads, folderAllowed_nestedFolders]
  · simp only [folderAllowed_nestedFolders]
    decide

/-- From the first folder the fourth is asked about four times, and the third twice. -/
theorem folderOrDescendantAccessibleDb_calls_eight : (nestedFolders.listAbFoldersOf "shared").length = 4 ∧
      nestedFolders.folderOrDescendantAccessibleDb "shared" [] 5 "a" = some (false, 8) := by
  refine ⟨by decide, ?_⟩
  rw [folderOrDescendantAccessibleDb_eq_visit,
    visit_of_leads_eq_false (nested_rowsBelow (by decide) _) (by simp [leads, folderAllowed_nestedFolders])
      (by decide)]
  decide

end Persea.AddressBook
