import Mathlib.Data.List.Infix
import Mathlib.Tactic

/-! Concatenated words read in pieces: what has arrived is a number of whole words and the beginning of the next one.
Words of one length are blocks. -/

namespace Base.Chunk

open List

variable {α : Type}

/-- `tail` is what has arrived of the first of the words to come: not all of it, and nothing when no
word is to come. -/
def Begins (tail : List α) : List (List α) → Prop
  | [] => tail = []
  | word :: _ => tail <+: word ∧ tail ≠ word

variable {words : List (List α)} {l : List α}

theorem begins_nil (hwords : ∀ word ∈ words, word ≠ []) : Begins [] words := by
  cases words with
  | nil => rfl
  | cons word words => exact ⟨ nil_prefix, fun h => hwords word mem_cons_self h.symm⟩

theorem Begins.length_le {tail : List α} {n : ℕ} (h : Begins tail words)
    (hwords : ∀ word ∈ words, word.length ≤ n) : tail.length ≤ n := by
  cases words with
  | nil =>
    have htail : tail = [] := h
    simp [htail]
  | cons word words => exact h.1.length_le.trans (hwords word mem_cons_self)

theorem exists_split (words : List (List α)) (hwords : ∀ word ∈ words, word ≠ [])
    (arrived : List α) (harrived : arrived <+: words.flatten) :
    ∃ done todo tail, words = done ++ todo ∧ arrived = done.flatten ++ tail ∧ Begins tail todo := by
  induction words generalizing arrived with
  | nil =>
    have h : arrived = [] := by simpa using harrived
    exact ⟨[], [], [], rfl, by simpa using h, rfl⟩
  | cons word words ih =>
    rw [flatten_cons] at harrived
    rcases prefix_or_prefix_of_prefix harrived (prefix_append word words.flatten) with
      hshort | ⟨rest, rfl⟩
    · by_cases heq : arrived = word
      · subst heq
        exact ⟨[arrived], words, [], rfl, by simp, begins_nil fun w hw => hwords w (mem_cons_of_mem _ hw)⟩
      · exact ⟨[], word :: words, arrived, rfl, rfl, hshort, heq⟩
    · have hrest : rest <+: words.flatten := (prefix_append_right_inj word).mp harrived
      obtain ⟨done, todo, tail, hsplit, hrest', hbegins⟩ :=
        ih (fun w hw => hwords w (mem_cons_of_mem _ hw)) rest hrest
      exact ⟨word :: done, todo, tail, by rw [hsplit, cons_append],
        by rw [hrest', flatten_cons, append_assoc], hbegins⟩

def wholes (n : ℕ) (l : List α) : List (List α) := (List.range (l.length / n)).map fun i => (l.drop (n * i)).take n

def remainder (n : ℕ) (l : List α) : List α := l.drop (n * (l.length / n))

variable {n : ℕ}

theorem remainder_length_lt (hn : 0 < n) (l : List α) : (remainder n l).length < n := by
  have hmod := Nat.mod_add_div l.length n
  have hlt := Nat.mod_lt l.length hn
  rw [remainder, length_drop]
  omega

theorem wholes_of_lt (h : l.length < n) : wholes n l = [] := by rw [wholes, Nat.div_eq_of_lt h, range_zero, map_nil]

theorem remainder_of_lt (h : l.length < n) : remainder n l = l := by
  rw [remainder, Nat.div_eq_of_lt h, Nat.mul_zero, drop_zero]

theorem drop_block_append {b : List α} (hb : b.length = n) (l : List α) (k : ℕ) :
    (b ++ l).drop (n + k) = l.drop k := by
  rw [← hb, drop_append, drop_eq_nil_of_le (Nat.le_add_right _ _), nil_append, Nat.add_sub_cancel_left]

section Block

variable {b : List α} (hn : 0 < n) (hb : b.length = n)

include hn hb

variable (l : List α)

theorem length_block_append_div : (b ++ l).length / n = l.length / n + 1 := by
  rw [length_append, hb, Nat.add_comm, Nat.add_div_right _ hn]

theorem wholes_block_append : wholes n (b ++ l) = b :: wholes n l := by
  rw [wholes, length_block_append_div hn hb, range_succ_eq_map, map_cons, List.map_map]
  congr 1
  · rw [Nat.mul_zero, drop_zero, ← hb, take_left]
  · apply map_congr_left
    intro i _
    rw [Function.comp_apply, Nat.mul_succ, Nat.add_comm, drop_block_append hb]

theorem remainder_block_append : remainder n (b ++ l) = remainder n l := by
  rw [remainder, length_block_append_div hn hb, Nat.mul_succ, Nat.add_comm, drop_block_append hb]
  rfl

end Block

theorem block_induction {motive : List α → Prop} (hn : 0 < n) (short : ∀ l, l.length < n → motive l)
    (block : ∀ b l, b.length = n → motive l → motive (b ++ l)) (l : List α) : motive l := by
  by_cases h : l.length < n
  · exact short l h
  · have hlen : (l.take n).length = n := by
      rw [length_take]
      omega
    rw [← take_append_drop n l]
    exact block _ _ hlen (block_induction hn short block (l.drop n))
termination_by l.length
decreasing_by
  rw [length_drop]
  omega

theorem wholes_append (hn : 0 < n) (l more : List α) :
    wholes n (l ++ more) = wholes n l ++ wholes n (remainder n l ++ more) := by
  induction l using block_induction hn with
  | short l h => rw [wholes_of_lt h, remainder_of_lt h, nil_append]
  | block b l hb ih =>
    rw [append_assoc, wholes_block_append hn hb, wholes_block_append hn hb,
      remainder_block_append hn hb, ih, cons_append]

theorem remainder_append (hn : 0 < n) (l more : List α) :
    remainder n (l ++ more) = remainder n (remainder n l ++ more) := by
  induction l using block_induction hn with
  | short l h => rw [remainder_of_lt h]
  | block b l hb ih => rw [append_assoc, remainder_block_append hn hb, remainder_block_append hn hb, ih]

end Base.Chunk
