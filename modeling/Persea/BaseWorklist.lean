import Mathlib.Tactic

/-! A list that grows while it is worked through: the children of each item are put at its end. The items that come
out are those of the start and, each after the item it is a child of, their descendants. A stack of items is emptied in
the same way. -/

namespace Base.Worklist

open List Option

variable {α : Type} (children : α → List α)

/-- From the item at `i` on; `none` is a list that has not been worked through. -/
def run : (fuel : ℕ) → (items : List α) → (i : ℕ) → Option (List α)
  | 0, _, _ => none
  | fuel + 1, items, i =>
    match items[i]? with
    | none => some items
    | some a => run fuel (items ++ children a) (i + 1)

/-- Every item is one of the start, or a child of one before it. -/
def Grown (start items : List α) : Prop :=
  ∀ before a after, items = before ++ a :: after → a ∈ start ∨ ∃ b ∈ before, a ∈ children b

theorem grown_start (start : List α) : Grown children start start := by
  intro before a after h
  refine .inl ?_
  rw [h]
  exact mem_append_right _ mem_cons_self

variable {children}

variable {items result start : List α} {fuel i : ℕ}

theorem Grown.append (h : Grown children start items) {b : α} (hb : b ∈ items) :
    Grown children start (items ++ children b) := by
  intro before a after heq
  rcases append_eq_append_iff.mp heq with ⟨more, hbefore, hchildren⟩ | ⟨more, hitems, hafter⟩
  · -- the item is among the new ones
    refine .inr ⟨b, ?_, ?_⟩
    · rw [hbefore]
      exact mem_append_left _ hb
    · rw [hchildren]
      exact mem_append_right _ mem_cons_self
  · cases more with
    | nil =>
      rw [append_nil] at hitems
      refine .inr ⟨b, hitems ▸ hb, ?_⟩
      rw [nil_append] at hafter
      rw [← hafter]
      exact mem_cons_self
    | cons c more =>
      rw [cons_append, List.cons.injEq] at hafter
      obtain ⟨rfl, -⟩ := hafter
      exact h before a more hitems

theorem grown_run (h : Grown children start items) (hrun : run children fuel items i = some result) :
    Grown children start result := by
  induction fuel generalizing items i with
  | zero => cases hrun
  | succ fuel ih =>
    rw [run] at hrun
    cases hitem : items[i]? with
    | none =>
      rw [hitem] at hrun
      rwa [← some.inj hrun]
    | some a =>
      rw [hitem] at hrun
      exact ih (h.append (mem_of_getElem? hitem)) hrun

theorem closed_run (hrun : run children fuel items i = some result)
    (hdone : ∀ a ∈ items.take i, ∀ b ∈ children a, b ∈ items) :
    items ⊆ result ∧ ∀ a ∈ result, ∀ b ∈ children a, b ∈ result := by
  induction fuel generalizing items i with
  | zero => cases hrun
  | succ fuel ih =>
    rw [run] at hrun
    cases hitem : items[i]? with
    | none =>
      rw [hitem] at hrun
      rw [List.take_of_length_le (List.getElem?_eq_none_iff.mp hitem)] at hdone
      rw [← some.inj hrun]
      exact ⟨List.Subset.refl items, hdone⟩
    | some a =>
      rw [hitem] at hrun
      obtain ⟨hlt, -⟩ := List.getElem?_eq_some_iff.mp hitem
      obtain ⟨hsub, hclosed⟩ := ih hrun (by
        intro x hx b hb
        rw [List.take_append_of_le_length hlt, List.take_add_one, hitem, List.mem_append] at hx
        rcases hx with hx | hx
        · exact List.mem_append_left _ (hdone x hx b hb)
        · rw [List.mem_singleton.mp hx] at hb
          exact List.mem_append_right _ hb)
      exact ⟨fun x hx => hsub (List.mem_append_left _ hx), hclosed⟩

theorem nodup_run (start : List α) {Met : α → Prop} (hchildren : ∀ a, (children a).Nodup)
    (hparent : ∀ a b c, c ∈ children a → c ∈ children b → a = b)
    (hmet : ∀ a, Met a → ∀ b ∈ children a, Met b) (hstart : ∀ c ∈ start, ∀ a, Met a → c ∉ children a)
    (hitems : items.Nodup) (hitem : ∀ c ∈ items, Met c ∧ (c ∈ start ∨ ∃ a ∈ items.take i, c ∈ children a))
    (hrun : run children fuel items i = some result) : result.Nodup := by
  induction fuel generalizing items i with
  | zero => cases hrun
  | succ fuel ih =>
    rw [run] at hrun
    cases ha : items[i]? with
    | none =>
      rw [ha] at hrun
      rwa [← some.inj hrun]
    | some a =>
      rw [ha] at hrun
      obtain ⟨hlt, -⟩ := List.getElem?_eq_some_iff.mp ha
      have htake : (items ++ children a).take (i + 1) = items.take i ++ [a] := by
        rw [List.take_append_of_le_length hlt, List.take_add_one, ha]
        rfl
      have hmeta := (hitem a (List.mem_of_getElem? ha)).1
      refine ih (hitems.append (hchildren a) fun c hc hchild => ?_) (fun c hc => ?_) hrun
      · rcases (hitem c hc).2 with hin | ⟨b, hb, hbc⟩
        · exact hstart c hin a hmeta hchild
        · -- the item at `i` would be among those before it
          rw [hparent b a c hbc hchild] at hb
          have hnodup := hitems.sublist (List.take_sublist (i + 1) items)
          rw [List.take_add_one, ha, toList_some, List.nodup_append] at hnodup
          exact hnodup.2.2 a hb a List.mem_cons_self rfl
      · rw [htake]
        rcases List.mem_append.mp hc with hc | hc
        · exact ⟨(hitem c hc).1, (hitem c hc).2.imp_right fun ⟨b, hb, hbc⟩ => ⟨b, List.mem_append_left _ hb, hbc⟩⟩
        · exact ⟨hmet a hmeta c hc, .inr ⟨a, List.mem_append_right _ List.mem_cons_self, hc⟩⟩

/-- **Fold rule.** What holds of nothing, and is kept by one more item whose parent has had its turn, holds of all
items. -/
theorem Grown.foldl (h : Grown children start items) {σ : Type} {step : σ → α → σ} {Inv : List α → σ → Prop}
    {s : σ} (hnil : Inv [] s)
    (hstep : ∀ before a s, Inv before s → (a ∈ start ∨ ∃ b ∈ before, a ∈ children b) →
      Inv (before ++ [a]) (step s a)) :
    Inv items (items.foldl step s) := by
  have hrest : ∀ (after before : List α) (s : σ), items = before ++ after → Inv before s →
      Inv items (after.foldl step s) := by
    intro after
    induction after with
    | nil =>
      intro before s heq hinv
      rwa [heq, append_nil]
    | cons a after ih =>
      intro before s heq hinv
      exact ih (before ++ [a]) (step s a) (by rw [heq]; simp) (hstep before a s hinv (h before a after heq))
  exact hrest items [] s rfl hnil

def Ends (children : α → List α) (items : List α) (i : ℕ) : Prop :=
  ∃ fuel result, run children fuel items i = some result

theorem ends_of_none (hitem : items[i]? = none) : Ends children items i := ⟨1, items, by rw [run, hitem]⟩

theorem ends_of_some {a : α} (hitem : items[i]? = some a) (h : Ends children (items ++ children a) (i + 1)) :
    Ends children items i := by
  obtain ⟨fuel, result, hrun⟩ := h
  exact ⟨fuel + 1, result, by rw [run, hitem]; exact hrun⟩

section Rank

variable {rank : α → ℕ} (hrank : ∀ a, ∀ b ∈ children a, rank b < rank a)
include hrank

theorem ends_of_level {bound : ℕ}
    (hbelow : ∀ (items : List α) (i : ℕ), (∀ a ∈ items.drop i, rank a < bound) → Ends children items i) (n : ℕ)
    (items : List α) (i : ℕ) (hranks : ∀ a ∈ items.drop i, rank a ≤ bound)
    (hlater : ∀ a ∈ items.drop (i + n), rank a < bound) : Ends children items i := by
  induction n generalizing items i with
  | zero => exact hbelow items i hlater
  | succ n ih =>
    cases hitem : items[i]? with
    | none => exact ends_of_none hitem
    | some a =>
      have hlt : i < items.length := (List.getElem?_eq_some_iff.mp hitem).1
      have hle : rank a ≤ bound := by
        refine hranks a (List.mem_of_mem_head? ?_)
        rw [List.head?_drop, hitem]
        rfl
      have hchild : ∀ b ∈ children a, rank b < bound := fun b hb => (hrank a b hb).trans_le hle
      refine ends_of_some hitem (ih (items ++ children a) (i + 1) ?_ ?_)
      · intro b hb
        rw [List.drop_append_of_le_length hlt] at hb
        rcases List.mem_append.mp hb with hb | hb
        · exact hranks b (List.drop_subset_drop_left items (Nat.le_succ i) hb)
        · exact (hchild b hb).le
      · intro b hb
        rw [List.drop_append] at hb
        rcases List.mem_append.mp hb with hb | hb
        · exact hlater b (by rwa [Nat.add_right_comm] at hb)
        · exact hchild b (List.mem_of_mem_drop hb)

theorem ends_of_rank_lt (bound : ℕ) (items : List α) (i : ℕ) (hranks : ∀ a ∈ items.drop i, rank a < bound) :
    Ends children items i := by
  induction bound generalizing items i with
  | zero =>
    apply ends_of_none
    rw [← head?_drop, head?_eq_none_iff]
    exact eq_nil_iff_forall_not_mem.mpr fun a ha => absurd (hranks a ha) (Nat.not_lt_zero _)
  | succ bound ih =>
    refine ends_of_level hrank ih items.length items i (fun a ha => Nat.le_of_lt_succ (hranks a ha)) fun a ha => ?_
    rw [drop_eq_nil_of_le (Nat.le_add_left _ _)] at ha
    cases ha

end Rank

theorem exists_run (rank : α → ℕ) (hrank : ∀ a, ∀ b ∈ children a, rank b < rank a) (items : List α) (i : ℕ) :
    ∃ fuel result, run children fuel items i = some result := by
  refine ends_of_rank_lt hrank (((items.drop i).map rank).sum + 1) items i fun a ha => Nat.lt_succ_of_le ?_
  exact single_le_sum (fun _ _ => Nat.zero_le _) _ (List.mem_map_of_mem ha)

/-- The items in the order in which they are taken from a stack, on which the children of each are put when it is taken.
The top of the stack is at the head of the list. -/
def drain (children : α → List α) : (fuel : ℕ) → (stack : List α) → Option (List α)
  | 0, _ => none
  | _ + 1, [] => some []
  | fuel + 1, a :: stack => (drain children fuel ((children a).reverse ++ stack)).map (a :: ·)

theorem mem_drain_iff {stack result : List α} {fuel : ℕ} (h : drain children fuel stack = some result) {x : α} :
    x ∈ result ↔ ∃ a ∈ stack, Relation.ReflTransGen (fun a b => b ∈ children a) a x := by
  induction fuel generalizing stack result with
  | zero => cases h
  | succ fuel ih =>
    cases stack with
    | nil =>
      cases h
      simp
    | cons a stack =>
      rw [drain, map_eq_some_iff] at h
      obtain ⟨rest, hrest, rfl⟩ := h
      rw [mem_cons, ih hrest, exists_mem_cons_iff, Relation.ReflTransGen.cases_head_iff]
      constructor
      · rintro (rfl | ⟨b, hb, hreach⟩)
        · exact .inl (.inl rfl)
        · rcases mem_append.mp hb with hb | hb
          · exact .inl (.inr ⟨b, mem_reverse.mp hb, hreach⟩)
          · exact .inr ⟨b, hb, hreach⟩
      · rintro ((rfl | ⟨b, hb, hreach⟩) | ⟨b, hb, hreach⟩)
        · exact .inl rfl
        · exact .inr ⟨b, mem_append_left _ (mem_reverse.mpr hb), hreach⟩
        · exact .inr ⟨b, mem_append_right _ hb, hreach⟩

theorem exists_drain (rank : α → ℕ) (hrank : ∀ a, ∀ b ∈ children a, rank b < rank a) (stack : List α) :
    ∃ fuel result, drain children fuel stack = some result := by
  -- one item on top of a stack that is emptied, by induction on the rank
  have hitem : ∀ n a, rank a < n → ∀ stack, (∃ fuel result, drain children fuel stack = some result) →
      ∃ fuel result, drain children fuel (a :: stack) = some result := by
    intro n
    induction n with
    | zero => exact fun a h => absurd h (Nat.not_lt_zero _)
    | succ n ih =>
      intro a ha stack hstack
      have hchildren : ∀ items : List α, (∀ b ∈ items, rank b < n) →
          ∃ fuel result, drain children fuel (items ++ stack) = some result := by
        intro items hitems
        induction items with
        | nil => exact hstack
        | cons b items ihitems =>
          obtain ⟨hb, hrest⟩ := forall_mem_cons.mp hitems
          exact ih b hb (items ++ stack) (ihitems hrest)
      obtain ⟨fuel, result, hdrain⟩ := hchildren (children a).reverse fun b hb =>
        Nat.lt_of_lt_of_le (hrank a b (mem_reverse.mp hb)) (Nat.le_of_lt_succ ha)
      exact ⟨fuel + 1, a :: result, by rw [drain, hdrain, map_some]⟩
  induction stack with
  | nil => exact ⟨1, [], rfl⟩
  | cons a stack ih => exact hitem _ a (Nat.lt_succ_self _) stack ih

end Base.Worklist
