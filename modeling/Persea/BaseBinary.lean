import Mathlib.Algebra.CharP.Two
import Mathlib.Algebra.Polynomial.Expand
import Mathlib.Algebra.Polynomial.Inductions
import Mathlib.Algebra.Polynomial.Reverse
import Mathlib.Data.ZMod.Basic
import Mathlib.Tactic

/-! Words as polynomials: bit `i` is the coefficient of `X ^ i`. Over the field of two elements the product is the
carry-less one, and the integer product of words whose bits are `s` places apart keeps its columns apart. -/

namespace Base.Binary

open Polynomial List

variable {w : ℕ}

noncomputable def bits (v : BitVec w) : ℕ[X] := ∑ i ∈ Finset.range w, monomial i (v.getLsbD i).toNat

variable (v x y : BitVec w)

theorem coeff_bits (k : ℕ) : (bits v).coeff k = (v.getLsbD k).toNat := by
  simp only [bits, finsetSum_coeff, coeff_monomial, Finset.sum_ite_eq', Finset.mem_range]
  split_ifs with hk
  · rfl
  · rw [BitVec.getLsbD_of_ge v k (by omega)]
    rfl

theorem sum_testBit (n : ℕ) (h : n < 2 ^ w) : ∑ i ∈ Finset.range w, (n.testBit i).toNat * 2 ^ i = n := by
  induction w generalizing n with
  | zero =>
    rw [pow_zero, Nat.lt_one_iff] at h
    rw [h]
    rfl
  | succ w ih =>
    have hhalf := ih (n / 2) (by rw [pow_succ] at h; omega)
    rw [Finset.sum_range_succ']
    have hterm : ∀ i, (n.testBit (i + 1)).toNat * 2 ^ (i + 1) = 2 * (((n / 2).testBit i).toNat * 2 ^ i) := by
      intro i
      rw [Nat.testBit_succ, pow_succ]
      ring
    simp only [hterm]
    rw [← Finset.mul_sum, hhalf, Nat.testBit_zero, pow_zero, mul_one]
    rcases Nat.mod_two_eq_zero_or_one n with hn | hn <;> simp only [hn] <;> simp <;> omega

theorem eval_bits : (bits v).eval 2 = v.toNat := by
  simp only [bits, eval_finsetSum, eval_monomial]
  exact sum_testBit v.toNat v.isLt

/-- The field of two elements, with its ring structure only. -/
def F2 : Type := ZMod 2

instance : CommRing F2 := inferInstanceAs (CommRing (ZMod 2))

instance : DecidableEq F2 := inferInstanceAs (DecidableEq (ZMod 2))

instance : Nontrivial F2 := inferInstanceAs (Nontrivial (ZMod 2))

instance : CharP F2 2 := inferInstanceAs (CharP (ZMod 2) 2)

def bit (b : Bool) : F2 := b.toNat

theorem bit_xor (a b : Bool) : bit (a ^^ b) = bit a + bit b := by cases a <;> cases b <;> decide

theorem bit_injective : Function.Injective bit := by
  intro a b
  revert a b
  decide

theorem bit_odd (n : ℕ) : bit (decide (n % 2 = 1)) = n := by
  have hmod : ((n % 2 : ℕ) : F2) = n := ZMod.natCast_mod n 2
  rw [← hmod]
  rcases Nat.mod_two_eq_zero_or_one n with h | h <;> rw [h] <;> rfl

noncomputable def poly (v : BitVec w) : F2[X] := (bits v).map (Nat.castRingHom F2)

theorem coeff_poly (k : ℕ) : (poly v).coeff k = bit (v.getLsbD k) := by
  rw [poly, coeff_map, coeff_bits]
  rfl

theorem poly_injective : Function.Injective (poly : BitVec w → F2[X]) := by
  intro a b h
  apply BitVec.eq_of_getLsbD_eq
  intro i _
  apply bit_injective
  rw [← coeff_poly, ← coeff_poly, h]

theorem poly_zero : poly (0#w) = 0 := by
  ext k
  rw [coeff_poly, BitVec.getLsbD_zero, coeff_zero]
  rfl

theorem poly_xor (a b : BitVec w) : poly (a ^^^ b) = poly a + poly b := by
  ext k
  rw [coeff_add, coeff_poly, coeff_poly, coeff_poly, BitVec.getLsbD_xor, bit_xor]

theorem degree_poly_lt : (poly v).degree < w := by
  rw [degree_lt_iff_coeff_zero]
  intro k hk
  rw [coeff_poly, BitVec.getLsbD_of_ge v k hk]
  rfl

theorem degree_poly_sub_lt (a b : BitVec w) : (poly a - poly b).degree < w :=
  lt_of_le_of_lt (degree_sub_le _ _) (max_lt (degree_poly_lt a) (degree_poly_lt b))

theorem natDegree_poly_le (v : BitVec (w + 1)) : (poly v).natDegree ≤ w := by
  rw [natDegree_le_iff_coeff_eq_zero]
  intro k hk
  rw [coeff_poly, BitVec.getLsbD_of_ge v k (by omega)]
  rfl

theorem poly_mul_X_pow {n : ℕ} (hn : n ≤ w) : poly v * X ^ n = poly (v <<< n) + poly (v >>> (w - n)) * X ^ w := by
  ext k
  rw [coeff_add, coeff_mul_X_pow', coeff_mul_X_pow', coeff_poly, coeff_poly, coeff_poly,
    BitVec.getLsbD_shiftLeft, BitVec.getLsbD_ushiftRight]
  by_cases hk : k < w
  · rw [if_neg (show ¬w ≤ k by omega), add_zero]
    by_cases hkn : n ≤ k
    · rw [if_pos hkn, decide_eq_true hk, decide_eq_false (show ¬k < n by omega)]
      rfl
    · rw [if_neg hkn, decide_eq_true (show k < n by omega), Bool.not_true, Bool.and_false, Bool.false_and]
      rfl
  · rw [if_pos (show n ≤ k by omega), if_pos (show w ≤ k by omega), decide_eq_false hk,
      show w - n + (k - w) = k - n by omega, Bool.false_and, Bool.false_and]
    exact (zero_add _).symm

theorem poly_append {m : ℕ} (hi : BitVec m) (lo : BitVec w) : poly (hi ++ lo) = poly lo + poly hi * X ^ w := by
  ext k
  rw [coeff_add, coeff_mul_X_pow', coeff_poly, coeff_poly, coeff_poly, BitVec.getLsbD_append]
  by_cases hk : k < w
  · rw [if_pos hk, if_neg (show ¬w ≤ k by omega), add_zero]
  · rw [if_neg hk, if_pos (show w ≤ k by omega), BitVec.getLsbD_of_ge lo k (by omega)]
    exact (zero_add _).symm

theorem poly_reverse (v : BitVec (w + 1)) : poly v.reverse = reflect w (poly v) := by
  ext k
  rw [coeff_reflect, coeff_poly, coeff_poly, BitVec.getLsbD_reverse, BitVec.getMsbD_eq_getLsbD]
  by_cases hk : k ≤ w
  · rw [revAt_le hk, decide_eq_true (show k < w + 1 by omega), Bool.true_and, Nat.add_sub_cancel]
  · rw [revAt_eq_self_of_lt (by omega), decide_eq_false (show ¬k < w + 1 by omega),
      BitVec.getLsbD_of_ge v k (by omega), Bool.false_and]

def carryless (x y : BitVec w) : BitVec (w + w) :=
  (range w).foldl (fun acc i => if y.getLsbD i then acc ^^^ x.setWidth (w + w) <<< i else acc) 0#(w + w)

theorem poly_setWidth_shiftLeft {i : ℕ} (hi : i ≤ w) : poly (x.setWidth (w + w) <<< i) = poly x * X ^ i := by
  ext k
  rw [coeff_mul_X_pow', coeff_poly, coeff_poly, BitVec.getLsbD_shiftLeft, BitVec.getLsbD_setWidth]
  by_cases hk : i ≤ k
  · rw [if_pos hk, decide_eq_false (show ¬k < i by omega), Bool.not_false, Bool.and_true]
    by_cases hx : k - i < w
    · rw [decide_eq_true (show k < w + w by omega), decide_eq_true (show k - i < w + w by omega)]
      rfl
    · rw [BitVec.getLsbD_of_ge x (k - i) (by omega), Bool.and_false, Bool.and_false]
  · rw [if_neg hk, decide_eq_true (show k < i by omega), Bool.not_true, Bool.and_false, Bool.false_and]
    rfl

theorem poly_carryless_upTo {n : ℕ} (hn : n ≤ w) : poly ((range n).foldl
        (fun acc i => if y.getLsbD i then acc ^^^ x.setWidth (w + w) <<< i else acc) 0#(w + w)) =
      poly x * ∑ i ∈ Finset.range n, C (bit (y.getLsbD i)) * X ^ i := by
  induction n with
  | zero => rw [range_zero, foldl_nil, poly_zero, Finset.range_zero, Finset.sum_empty, mul_zero]
  | succ n ih =>
    rw [range_succ, foldl_append, foldl_cons, foldl_nil, Finset.sum_range_succ, mul_add, ← ih (by omega)]
    cases y.getLsbD n with
    | false => rw [if_neg (by decide), show bit false = 0 from rfl, C_0, zero_mul, mul_zero, add_zero]
    | true =>
      rw [if_pos rfl, poly_xor, poly_setWidth_shiftLeft x (by omega), show bit true = 1 from rfl, C_1, one_mul]

theorem poly_eq_sum : poly v = ∑ i ∈ Finset.range w, C (bit (v.getLsbD i)) * X ^ i := by
  ext k
  simp only [coeff_poly, finsetSum_coeff, coeff_C_mul_X_pow, Finset.sum_ite_eq, Finset.mem_range]
  split_ifs with hk
  · rfl
  · rw [BitVec.getLsbD_of_ge v k (by omega)]
    rfl

theorem poly_carryless : poly (carryless x y) = poly x * poly y := by
  rw [carryless, poly_carryless_upTo x y le_rfl, ← poly_eq_sum]

/-- All bits of `v` stand at the places `e`, `e + s`, `e + 2 * s` and so on. -/
def OnComb (s e : ℕ) (v : BitVec w) : Prop := ∀ p, v.getLsbD p = true → e ≤ p ∧ s ∣ p - e

noncomputable def teeth (s e : ℕ) (v : BitVec w) : ℕ[X] :=
  ∑ u ∈ Finset.range w, monomial u (v.getLsbD (e + s * u)).toNat

theorem coeff_teeth {s : ℕ} (hs : 0 < s) (e : ℕ) (v : BitVec w) (k : ℕ) :
    (teeth s e v).coeff k = (v.getLsbD (e + s * k)).toNat := by
  simp only [teeth, finsetSum_coeff, coeff_monomial, Finset.sum_ite_eq', Finset.mem_range]
  split_ifs with hk
  · rfl
  · have hle : k ≤ s * k := Nat.le_mul_of_pos_left k hs
    rw [BitVec.getLsbD_of_ge v _ (by omega)]
    rfl

theorem bits_of_onComb {s e : ℕ} (hs : 0 < s) {v : BitVec w} (hv : OnComb s e v) :
    bits v = X ^ e * expand ℕ s (teeth s e v) := by
  ext k
  rw [coeff_X_pow_mul', coeff_expand hs, coeff_bits, coeff_teeth hs]
  by_cases hk : e ≤ k ∧ s ∣ k - e
  · rw [if_pos hk.1, if_pos hk.2, Nat.mul_div_cancel' hk.2, Nat.add_sub_cancel' hk.1]
  · have hoff : v.getLsbD k = false := by
      cases hbit : v.getLsbD k with
      | false => rfl
      | true => exact absurd (hv k hbit) hk
    rw [hoff]
    split_ifs with he hd
    · exact absurd ⟨he, hd⟩ hk
    · rfl
    · rfl

theorem coeff_teeth_mul_le {s : ℕ} (hs : 0 < s) (e f : ℕ) (a b : BitVec w) (k : ℕ) :
    (teeth s e a * teeth s f b).coeff k ≤ k + 1 := by
  rw [coeff_mul]
  calc ∑ p ∈ Finset.HasAntidiagonal.antidiagonal k, (teeth s e a).coeff p.1 * (teeth s f b).coeff p.2
      ≤ ∑ _p ∈ Finset.HasAntidiagonal.antidiagonal k, 1 := by
        apply Finset.sum_le_sum
        intro p _
        rw [coeff_teeth hs, coeff_teeth hs]
        exact Nat.mul_le_mul (Bool.toNat_le _) (Bool.toNat_le _)
    _ = k + 1 := by rw [Finset.sum_const, smul_eq_mul, mul_one, Finset.Nat.card_antidiagonal]

theorem eval_div_pow_mod_two {B : ℕ} (hB : 2 ∣ B) (F : ℕ[X]) (k : ℕ) (hF : ∀ j < k, F.coeff j < B) :
    F.eval B / B ^ k % 2 = F.coeff k % 2 := by
  induction k generalizing F with
  | zero =>
    have heval := congrArg (eval B) (divX_mul_X_add F)
    rw [eval_add, eval_mul, eval_X, eval_C] at heval
    obtain ⟨half, rfl⟩ := hB
    rw [pow_zero, Nat.div_one, ← heval, show eval (2 * half) F.divX * (2 * half) + F.coeff 0 =
      F.coeff 0 + 2 * (eval (2 * half) F.divX * half) by ring, Nat.add_mul_mod_self_left]
  | succ k ih =>
    have heval := congrArg (eval B) (divX_mul_X_add F)
    rw [eval_add, eval_mul, eval_X, eval_C] at heval
    have hfirst : F.coeff 0 < B := hF 0 (by omega)
    have hdiv : F.eval B / B = F.divX.eval B := by
      rw [← heval, mul_comm, Nat.mul_add_div (by omega), Nat.div_eq_of_lt hfirst, add_zero]
    have hrest : ∀ j < k, F.divX.coeff j < B := by
      intro j hj
      rw [coeff_divX]
      exact hF (j + 1) (by omega)
    rw [pow_succ', ← Nat.div_div_eq_div_mul, hdiv, ih F.divX hrest, coeff_divX]

section Holes

variable {s e f : ℕ} {a b : BitVec w}

theorem bits_mul_of_onComb (hs : 0 < s) (ha : OnComb s e a) (hb : OnComb s f b) :
    bits a * bits b = X ^ (e + f) * expand ℕ s (teeth s e a * teeth s f b) := by
  rw [bits_of_onComb hs ha, bits_of_onComb hs hb, map_mul, pow_add]
  ring

theorem coeff_poly_mul (a b : BitVec w) (p : ℕ) : (poly a * poly b).coeff p = ((bits a * bits b).coeff p : F2) := by
  rw [poly, poly, ← Polynomial.map_mul, coeff_map]
  rfl

theorem coeff_poly_mul_of_off (hs : 0 < s) (ha : OnComb s e a) (hb : OnComb s f b) {p : ℕ}
    (hp : ¬(e + f ≤ p ∧ s ∣ p - (e + f))) : (poly a * poly b).coeff p = 0 := by
  rw [coeff_poly_mul, bits_mul_of_onComb hs ha hb, coeff_X_pow_mul', coeff_expand hs]
  split_ifs with he hd
  · exact absurd ⟨he, hd⟩ hp
  · exact Nat.cast_zero
  · exact Nat.cast_zero

/-- **Integer products keep the columns of combs apart**: column `k` has at most `k + 1` pairs, so no column
below `2 ^ s` receives a carry. -/
theorem bit_mul_of_onComb (hs : 0 < s) (ha : OnComb s e a) (hb : OnComb s f b) {p : ℕ} (hpw : p < w)
    (hps : p < e + f + s * 2 ^ s) (hp : p % s = (e + f) % s) :
    bit ((a * b).getLsbD p) = (poly a * poly b).coeff p := by
  have hvalue : a.toNat * b.toNat = 2 ^ (e + f) * (teeth s e a * teeth s f b).eval (2 ^ s) := by
    rw [← eval_bits, ← eval_bits, ← eval_mul, bits_mul_of_onComb hs ha hb, eval_mul, eval_pow, eval_X, expand_eval]
  have hbit : (a * b).getLsbD p = (a.toNat * b.toNat).testBit p := by
    rw [BitVec.getLsbD, BitVec.toNat_mul, Nat.testBit_mod_two_pow, decide_eq_true hpw, Bool.true_and]
  rw [hbit, hvalue, Nat.testBit_two_pow_mul]
  by_cases hlow : e + f ≤ p
  · obtain ⟨k, hk⟩ : s ∣ p - (e + f) := (Nat.modEq_iff_dvd' hlow).mp hp.symm
    have hcolumn : k < 2 ^ s := by
      apply Nat.lt_of_mul_lt_mul_left
      calc s * k = p - (e + f) := hk.symm
        _ < s * 2 ^ s := by omega
    have hcarry : ∀ j < k, (teeth s e a * teeth s f b).coeff j < 2 ^ s := by
      intro j hj
      have hle := coeff_teeth_mul_le hs e f a b j
      omega
    have hparity := eval_div_pow_mod_two (dvd_pow_self 2 (by omega)) (teeth s e a * teeth s f b) k hcarry
    rw [decide_eq_true hlow, Bool.true_and, hk, Nat.testBit_eq_decide_div_mod_eq, pow_mul, hparity, bit_odd,
      coeff_poly_mul, bits_mul_of_onComb hs ha hb, coeff_X_pow_mul', if_pos hlow, coeff_expand hs, hk,
      if_pos (Dvd.intro k rfl), Nat.mul_div_cancel_left k hs]
  · rw [decide_eq_false hlow, Bool.false_and, coeff_poly_mul_of_off hs ha hb fun h => hlow h.1]
    rfl

end Holes

end Base.Binary
