import Mathlib.Data.List.Nodup
import Mathlib.Tactic

/-! The occurrences of the elements of a list, numbered. A loop that counts how often it has met an element sees every
element once for each number up to its count. -/

namespace Base.Occurrence

variable {κ : Type} [DecidableEq κ] [BEq κ] [LawfulBEq κ]

/-- The elements with the numbers of their occurrences, where each has already occurred some times. -/
def numbered : (before : κ → Nat) → List κ → List (κ × Nat)
  | _, [] => []
  | before, k :: keys => (k, before k + 1) :: numbered (Function.update before k (before k + 1)) keys

theorem mem_numbered_iff {before : κ → Nat} {keys : List κ} {k : κ} {n : Nat} :
    (k, n) ∈ numbered before keys ↔ before k < n ∧ n ≤ before k + keys.count k := by
  induction keys generalizing before with
  | nil =>
    rw [numbered, List.count_nil]
    refine iff_of_false List.not_mem_nil ?_
    omega
  | cons first keys ih =>
    rw [numbered, List.mem_cons, ih, Prod.mk.injEq]
    by_cases hk : k = first
    · subst hk
      rw [Function.update_self, List.count_cons_self]
      constructor
      · rintro (⟨-, rfl⟩ | h)
        · omega
        · omega
      · intro h
        rcases Nat.eq_or_lt_of_le (Nat.succ_le_of_lt h.1) with heq | hlt
        · exact .inl ⟨rfl, heq.symm⟩
        · right
          omega
    · rw [Function.update_of_ne hk, List.count_cons_of_ne (Ne.symm hk)]
      simp [hk]

theorem nodup_numbered (before : κ → Nat) (keys : List κ) : (numbered before keys).Nodup := by
  induction keys generalizing before with
  | nil => exact List.nodup_nil
  | cons first keys ih =>
    rw [numbered, List.nodup_cons]
    refine ⟨fun hmem => ?_, ih _⟩
    rw [mem_numbered_iff, Function.update_self] at hmem
    omega

theorem nodup_map_numbered_iff {β : Type} {rename : κ × Nat → β} {keys : List κ} :
    ((numbered (fun _ => 0) keys).map rename).Nodup ↔
      ∀ k m l n, 0 < m → m ≤ keys.count k → 0 < n → n ≤ keys.count l → rename (k, m) = rename (l, n) →
        k = l ∧ m = n := by
  rw [List.nodup_map_iff_inj_on (nodup_numbered _ keys)]
  constructor
  · intro h k m l n hm hmle hn hnle heq
    have hpair := h (k, m) (mem_numbered_iff.mpr ⟨hm, by omega⟩) (l, n) (mem_numbered_iff.mpr ⟨hn, by omega⟩) heq
    exact Prod.mk.inj hpair
  · rintro h ⟨k, m⟩ hk ⟨l, n⟩ hl heq
    rw [mem_numbered_iff, Nat.zero_add] at hk hl
    obtain ⟨rfl, rfl⟩ := h k m l n hk.1 hk.2 hl.1 hl.2 heq
    rfl

end Base.Occurrence
