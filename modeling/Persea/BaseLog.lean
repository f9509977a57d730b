import Mathlib.Tactic

/-! Numbered logs. The entries of a log carry consecutive numbers, so the entries after a number are a suffix
of the log, whether it is read whole or after its oldest entries have been dropped. -/

namespace Base.Log

variable {α : Type} (key : α → ℕ)

def NumberedFrom : ℕ → List α → Prop
  | _, [] => True
  | n, x :: xs => key x = n + 1 ∧ NumberedFrom (n + 1) xs

variable {key} {n : ℕ} {l : List α}

theorem numberedFrom_append {right : List α} :
    NumberedFrom key n (l ++ right) ↔ NumberedFrom key n l ∧ NumberedFrom key (n + l.length) right := by
  induction l generalizing n with
  | nil => simp [NumberedFrom]
  | cons x xs ih =>
    have hlength : n + 1 + xs.length = n + (xs.length + 1) := by omega
    simp [NumberedFrom, ih, and_assoc, hlength]

section

variable (h : NumberedFrom key n l)

include h

theorem NumberedFrom.drop (k : ℕ) : NumberedFrom key (n + k) (l.drop k) := by
  induction l generalizing n k with
  | nil => simp [NumberedFrom]
  | cons x xs ih =>
    cases k with
    | zero => exact h
    | succ k =>
      have hindex : n + (k + 1) = n + 1 + k := by omega
      rw [hindex]
      exact ih h.2 k

theorem NumberedFrom.key_eq {i : ℕ} {x : α} (hi : l[i]? = some x) : key x = n + i + 1 := by
  induction l generalizing n i with
  | nil => cases hi
  | cons y ys ih =>
    cases i with
    | zero =>
      obtain rfl : y = x := by simpa using hi
      exact h.1
    | succ i =>
      rw [ih h.2 (by simpa using hi)]
      omega

theorem NumberedFrom.lt_key : ∀ x ∈ l, n < key x := by
  intro x hx
  obtain ⟨i, hi⟩ := List.mem_iff_getElem?.mp hx
  rw [h.key_eq hi]
  omega

theorem NumberedFrom.key_le : ∀ x ∈ l, key x ≤ n + l.length := by
  intro x hx
  obtain ⟨i, hi⟩ := List.mem_iff_getElem?.mp hx
  obtain ⟨hlt, _⟩ := List.getElem?_eq_some_iff.mp hi
  rw [h.key_eq hi]
  omega

theorem NumberedFrom.pairwise : l.Pairwise fun a b => key a < key b := by
  induction l generalizing n with
  | nil => exact List.Pairwise.nil
  | cons x xs ih =>
    apply List.Pairwise.cons _ (ih h.2)
    intro y hy
    rw [h.1]
    exact h.2.lt_key y hy

theorem NumberedFrom.filter_lt (c : ℕ) : l.filter (fun x => c < key x) = l.drop (c - n) := by
  induction l generalizing n with
  | nil => simp
  | cons x xs ih =>
    by_cases hc : c < key x
    · have hzero : c - n = 0 ∧ c - (n + 1) = 0 := by
        rw [h.1] at hc
        omega
      rw [List.filter_cons_of_pos (by simpa using hc), ih h.2, hzero.1, hzero.2, List.drop_zero, List.drop_zero]
    · have hsucc : c - n = c - (n + 1) + 1 := by
        rw [h.1] at hc
        omega
      rw [List.filter_cons_of_neg (by simpa using hc), ih h.2, hsucc, List.drop_succ_cons]

end

theorem filter_lt_drop (h : NumberedFrom key 0 l) {k c : ℕ} (hk : k ≤ c) :
    (l.drop k).filter (fun x => c < key x) = l.drop c := by
  have hdrop : NumberedFrom key (0 + k) (l.drop k) := h.drop k
  rw [hdrop.filter_lt, List.drop_drop]
  congr 1
  omega

def retain (cap : ℕ) (l : List α) : List α := l.drop (l.length - cap)

theorem retain_drop_concat (cap : ℕ) (l : List α) (x : α) {k : ℕ} (hk : k ≤ l.length) :
    retain cap (l.drop k ++ [x]) = (l ++ [x]).drop (k + (l.length - k + 1 - cap)) := by
  rw [retain, ← List.drop_drop, List.drop_append_of_le_length hk]
  congr 1
  simp

end Base.Log
