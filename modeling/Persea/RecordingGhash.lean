import Persea.BaseGcm

/-! The `Ghash` of the streaming decryptor: the hash of GCM over two 64-bit words in the bit-reversed representation,
with each product made of six integer products with holes. The result is the hash of the standard. -/

namespace Persea.Recording

open Polynomial Base Base.Binary Base.Gcm Finset
open BitVec hiding zero_mul

abbrev Words := BitVec 64 × BitVec 64

abbrev Block := Vector UInt8 16

def u128FromLeBytes (bytes : Block) : BitVec 128 :=
  bytes.toList.foldr (fun b acc => acc <<< 8 ||| b.toBitVec.setWidth 128) 0#128

def u128ToLeBytes (v : BitVec 128) : Block := Vector.ofFn fun i => ⟨v.extractLsb' (8 * i.val) 8⟩

def wordsOf (v : BitVec 128) : Words := (v.setWidth 64, (v >>> 64).setWidth 64)

def mulx (v : BitVec 128) : BitVec 128 :=
  let vHi := v >>> 127
  v <<< 1 ^^^ (vHi ^^^ vHi <<< 127 ^^^ vHi <<< 126 ^^^ vHi <<< 121)

/-- The carry-less product of two words, of which the low word is kept. -/
def bmul64 (x y : BitVec 64) : BitVec 64 :=
  let m0 : BitVec 64 := 0x1111111111111111#64
  let m1 := m0 <<< 1
  let m2 := m1 <<< 1
  let m3 := m2 <<< 1
  let x0 := x &&& m0
  let x1 := x &&& m1
  let x2 := x &&& m2
  let x3 := x &&& m3
  let y0 := y &&& m0
  let y1 := y &&& m1
  let y2 := y &&& m2
  let y3 := y &&& m3
  let z0 := x0 * y0 ^^^ x1 * y3 ^^^ x2 * y2 ^^^ x3 * y1
  let z1 := x0 * y1 ^^^ x1 * y0 ^^^ x2 * y3 ^^^ x3 * y2
  let z2 := x0 * y2 ^^^ x1 * y1 ^^^ x2 * y0 ^^^ x3 * y3
  let z3 := x0 * y3 ^^^ x1 * y2 ^^^ x2 * y1 ^^^ x3 * y0
  (z0 &&& m0) ||| (z1 &&& m1) ||| (z2 &&& m2) ||| (z3 &&& m3)

def polyvalMul (a b : Words) : Words :=
  let a0r := a.1.reverse
  let a1r := a.2.reverse
  let a2 := a.1 ^^^ a.2
  let a2r := a0r ^^^ a1r
  let b0r := b.1.reverse
  let b1r := b.2.reverse
  let b2 := b.1 ^^^ b.2
  let b2r := b0r ^^^ b1r
  let z0 := bmul64 a.1 b.1
  let z1 := bmul64 a.2 b.2
  let z2 := bmul64 a2 b2 ^^^ (z0 ^^^ z1)
  let z0h := bmul64 a0r b0r
  let z1h := bmul64 a1r b1r
  let z2h := bmul64 a2r b2r ^^^ (z0h ^^^ z1h)
  let z0h := z0h.reverse >>> 1
  let z1h := z1h.reverse >>> 1
  let z2h := z2h.reverse >>> 1
  let v0 := z0
  let v1 := z0h ^^^ z2
  let v2 := z1 ^^^ z2h
  let v3 := z1h
  let v2 := v2 ^^^ (v0 ^^^ v0 >>> 1 ^^^ v0 >>> 2 ^^^ v0 >>> 7)
  let v1 := v1 ^^^ (v0 <<< 63 ^^^ v0 <<< 62 ^^^ v0 <<< 57)
  let v3 := v3 ^^^ (v1 ^^^ v1 >>> 1 ^^^ v1 >>> 2 ^^^ v1 >>> 7)
  let v2 := v2 ^^^ (v1 <<< 63 ^^^ v1 <<< 62 ^^^ v1 <<< 57)
  (v2, v3)

structure Ghash where
  h : Words
  y : Words
deriving DecidableEq, Repr

def Ghash.new (h : Block) : Ghash := { h := wordsOf (mulx (u128FromLeBytes h.reverse)), y := (0, 0) }

def Ghash.updateBlock (ghash : Ghash) (block : Block) : Ghash :=
  let x := wordsOf (u128FromLeBytes block.reverse)
  { ghash with y := polyvalMul (ghash.y.1 ^^^ x.1, ghash.y.2 ^^^ x.2) ghash.h }

def Ghash.finalize (ghash : Ghash) : Block :=
  (u128ToLeBytes (ghash.y.1.setWidth 128 ||| ghash.y.2.setWidth 128 <<< 64)).reverse

/-! ### The product of two words -/

def mask (i : ℕ) : BitVec 64 := 0x1111111111111111#64 <<< i

/-- The four products that meet at the places `i`, `i + 4` and so on. -/
def column (x y : BitVec 64) (i : ℕ) : BitVec 64 :=
  (x &&& mask 0) * (y &&& mask (i % 4)) ^^^ (x &&& mask 1) * (y &&& mask ((i + 3) % 4)) ^^^
    (x &&& mask 2) * (y &&& mask ((i + 2) % 4)) ^^^ (x &&& mask 3) * (y &&& mask ((i + 1) % 4))

variable (x y : BitVec 64) (v : BitVec 128) (a b : Words) {k : ℕ}

theorem bmul64_eq : bmul64 x y = (column x y 0 &&& mask 0) ||| (column x y 1 &&& mask 1) |||
      (column x y 2 &&& mask 2) ||| (column x y 3 &&& mask 3) := rfl

theorem getLsbD_mask {i k : ℕ} (hi : i < 4) (hk : k < 64) : (mask i).getLsbD k = decide (k % 4 = i) := by
  have hall : ∀ i < 4, ∀ k < 64, (mask i).getLsbD k = decide (k % 4 = i) := by decide +kernel
  exact hall i hi k hk

theorem onComb_mask {i : ℕ} (hi : i < 4) : OnComb 4 i (x &&& mask i) := by
  intro p hp
  have hp64 : p < 64 := lt_of_getLsbD hp
  rw [getLsbD_and, getLsbD_mask hi hp64, Bool.and_eq_true, decide_eq_true_eq] at hp
  omega

theorem poly_eq_sum_masks : poly x = ∑ i ∈ Finset.range 4, poly (x &&& mask i) := by
  ext k
  rw [finsetSum_coeff]
  by_cases hk : k < 64
  · have hterm : ∀ i ∈ Finset.range 4, (poly (x &&& mask i)).coeff k = if k % 4 = i then (poly x).coeff k else 0 := by
      intro i hi
      rw [coeff_poly, coeff_poly, getLsbD_and, getLsbD_mask (mem_range.mp hi) hk]
      split_ifs with h
      · rw [decide_eq_true h, Bool.and_true]
      · rw [decide_eq_false h, Bool.and_false]
        rfl
    rw [sum_congr rfl hterm, sum_ite_eq, if_pos (mem_range.mpr (by omega))]
  · have hzero : ∀ v : BitVec 64, (poly v).coeff k = 0 := by
      intro v
      rw [coeff_poly, getLsbD_of_ge v k (by omega)]
      rfl
    simp only [hzero, sum_const_zero]

theorem coeff_mul_masks (k : ℕ) : (poly x * poly y).coeff k =
      ∑ i ∈ Finset.range 4, (poly (x &&& mask i) * poly (y &&& mask ((k % 4 + 4 - i) % 4))).coeff k := by
  rw [poly_eq_sum_masks x, poly_eq_sum_masks y, sum_mul_sum, finsetSum_coeff]
  apply sum_congr rfl
  intro i hi
  rw [mem_range] at hi
  rw [finsetSum_coeff]
  apply sum_eq_single_of_mem
  · exact mem_range.mpr (Nat.mod_lt _ (by decide))
  · intro j hj hne
    rw [mem_range] at hj
    apply coeff_poly_mul_of_off (s := 4) (by decide) (onComb_mask x hi) (onComb_mask y hj)
    omega

theorem bit_mul_masks {i j k : ℕ} (hi : i < 4) (hj : j < 4) (hk : k < 64) (hplace : k % 4 = (i + j) % 4) :
    bit (((x &&& mask i) * (y &&& mask j)).getLsbD k) = (poly (x &&& mask i) * poly (y &&& mask j)).coeff k :=
  bit_mul_of_onComb (by decide) (onComb_mask x hi) (onComb_mask y hj) hk (by omega) hplace

theorem bit_column (hk : k < 64) : bit ((column x y (k % 4)).getLsbD k) = (poly x * poly y).coeff k := by
  rw [coeff_mul_masks, column]
  simp only [getLsbD_xor, bit_xor, sum_range_succ, sum_range_zero, zero_add]
  have hmod : k % 4 < 4 := Nat.mod_lt _ (by decide)
  rw [show (k % 4 + 4 - 0) % 4 = k % 4 % 4 by omega, show (k % 4 + 4 - 1) % 4 = (k % 4 + 3) % 4 by omega,
    show (k % 4 + 4 - 2) % 4 = (k % 4 + 2) % 4 by omega, show (k % 4 + 4 - 3) % 4 = (k % 4 + 1) % 4 by omega,
    bit_mul_masks x y (by omega) (by omega) hk (by omega), bit_mul_masks x y (by omega) (by omega) hk (by omega),
    bit_mul_masks x y (by omega) (by omega) hk (by omega), bit_mul_masks x y (by omega) (by omega) hk (by omega)]

theorem getLsbD_bmul64 (hk : k < 64) : (bmul64 x y).getLsbD k = (column x y (k % 4)).getLsbD k := by
  have hmod : k % 4 < 4 := Nat.mod_lt _ (by decide)
  rw [bmul64_eq]
  simp only [getLsbD_or, getLsbD_and, getLsbD_mask (show 0 < 4 by decide) hk,
    getLsbD_mask (show 1 < 4 by decide) hk, getLsbD_mask (show 2 < 4 by decide) hk,
    getLsbD_mask (show 3 < 4 by decide) hk]
  rcases (by omega : k % 4 = 0 ∨ k % 4 = 1 ∨ k % 4 = 2 ∨ k % 4 = 3) with h | h | h | h <;> simp [h]

/-- **`bmul64` is the low half of the carry-less product.** -/
theorem coeff_bmul64 (x y : BitVec 64) {k : ℕ} (hk : k < 64) :
    (poly (bmul64 x y)).coeff k = (poly x * poly y).coeff k := by
  rw [coeff_poly, getLsbD_bmul64 x y hk, bit_column x y hk]

def highHalf (low : BitVec 64) : BitVec 64 := low.reverse >>> 1

theorem poly_highHalf_xor (a b : BitVec 64) : poly (highHalf (a ^^^ b)) = poly (highHalf a) + poly (highHalf b) := by
  rw [highHalf, reverse_xor, ushiftRight_xor_distrib, poly_xor]
  rfl

theorem coeff_mul_reverse (hk : k ≤ 126) :
    (poly x.reverse * poly y.reverse).coeff (126 - k) = (poly x * poly y).coeff k := by
  rw [poly_reverse, poly_reverse, ← reflect_mul _ _ (natDegree_poly_le x) (natDegree_poly_le y),
    coeff_reflect, revAt_le (by omega), show 63 + 63 - (126 - k) = k by omega]

/-- **Both halves of the product**: the low one, and the high one by reversal. -/
theorem poly_mul_halves :
    poly x * poly y = poly (bmul64 x y) + poly (highHalf (bmul64 x.reverse y.reverse)) * X ^ 64 := by
  ext k
  rw [coeff_add, coeff_mul_X_pow']
  by_cases hk : k < 64
  · rw [if_neg (show ¬64 ≤ k by omega), add_zero, coeff_bmul64 x y hk]
  · have hlow : (poly (bmul64 x y)).coeff k = 0 := by
      rw [coeff_poly, getLsbD_of_ge _ k (by omega)]
      rfl
    rw [if_pos (show 64 ≤ k by omega), hlow, zero_add, highHalf, coeff_poly, getLsbD_ushiftRight,
      getLsbD_reverse, getMsbD_eq_getLsbD]
    by_cases htop : k ≤ 126
    · rw [decide_eq_true (show 1 + (k - 64) < 64 by omega), Bool.true_and,
        show 64 - 1 - (1 + (k - 64)) = 126 - k by omega, ← coeff_mul_reverse x y htop, ← coeff_poly,
        coeff_bmul64 _ _ (by omega)]
    · rw [decide_eq_false (show ¬1 + (k - 64) < 64 by omega), Bool.false_and]
      apply coeff_eq_zero_of_natDegree_lt
      have hdegree := natDegree_mul_le (p := poly x) (q := poly y)
      have hx := natDegree_poly_le x
      have hy := natDegree_poly_le y
      omega

noncomputable def reversedModulus : F2[X] := X ^ 128 + X ^ 127 + X ^ 126 + X ^ 121 + 1

def foldLow (v : BitVec 64) : BitVec 64 := v <<< 63 ^^^ v <<< 62 ^^^ v <<< 57

def foldHigh (v : BitVec 64) : BitVec 64 := v ^^^ v >>> 1 ^^^ v >>> 2 ^^^ v >>> 7

theorem reversedModulus_eq : reversedModulus = X ^ 128 + X ^ 127 + X ^ 126 + X ^ 121 + 1 := by
  unfold reversedModulus
  with_reducible rfl

theorem poly_fold (v : BitVec 64) :
    poly v + (poly (foldLow v) + poly (foldHigh v) * X ^ 64) * X ^ 64 = poly v * reversedModulus := by
  have h57 : poly v * X ^ 57 = poly (v <<< 57) + poly (v >>> 7) * X ^ 64 := poly_mul_X_pow v (by decide)
  have h62 : poly v * X ^ 62 = poly (v <<< 62) + poly (v >>> 2) * X ^ 64 := poly_mul_X_pow v (by decide)
  have h63 : poly v * X ^ 63 = poly (v <<< 63) + poly (v >>> 1) * X ^ 64 := poly_mul_X_pow v (by decide)
  have hlow : poly (foldLow v) = poly (v <<< 63) + poly (v <<< 62) + poly (v <<< 57) := by
    rw [foldLow, poly_xor, poly_xor]
  have hhigh : poly (foldHigh v) = poly v + poly (v >>> 1) + poly (v >>> 2) + poly (v >>> 7) := by
    rw [foldHigh, poly_xor, poly_xor, poly_xor]
  linear_combination (-X ^ 64) * (h57 + h62 + h63) + X ^ 64 * hlow + X ^ 128 * hhigh - poly v * reversedModulus_eq

def productWords (a b : Words) : BitVec 64 × BitVec 64 × BitVec 64 × BitVec 64 :=
  let z0 := bmul64 a.1 b.1
  let z1 := bmul64 a.2 b.2
  let z2 := bmul64 (a.1 ^^^ a.2) (b.1 ^^^ b.2) ^^^ (z0 ^^^ z1)
  let z0h := bmul64 a.1.reverse b.1.reverse
  let z1h := bmul64 a.2.reverse b.2.reverse
  let z2h := bmul64 (a.1.reverse ^^^ a.2.reverse) (b.1.reverse ^^^ b.2.reverse) ^^^ (z0h ^^^ z1h)
  (z0, highHalf z0h ^^^ z2, z1 ^^^ highHalf z2h, highHalf z1h)

def reduceWords (v : BitVec 64 × BitVec 64 × BitVec 64 × BitVec 64) : Words :=
  let v1 := v.2.1 ^^^ foldLow v.1
  (v.2.2.1 ^^^ foldHigh v.1 ^^^ foldLow v1, v.2.2.2 ^^^ foldHigh v1)

theorem polyvalMul_eq : polyvalMul a b = reduceWords (productWords a b) := rfl

def joined (a : Words) : BitVec 128 := a.2 ++ a.1

theorem poly_joined : poly (joined a) = poly a.1 + poly a.2 * X ^ 64 := poly_append a.2 a.1

theorem two_eq_zero : (2 : F2[X]) = 0 := CharTwo.two_eq_zero

/-- **Karatsuba's rule**: three products of words make up the product of the pairs. -/
theorem poly_productWords (a b : Words) : let v := productWords a b
    poly (joined a) * poly (joined b) =
      poly v.1 + poly v.2.1 * X ^ 64 + poly v.2.2.1 * X ^ 128 + poly v.2.2.2 * X ^ 192 := by
  have h0 := poly_mul_halves a.1 b.1
  have h1 := poly_mul_halves a.2 b.2
  have h2 := poly_mul_halves (a.1 ^^^ a.2) (b.1 ^^^ b.2)
  rw [reverse_xor, reverse_xor, poly_xor, poly_xor] at h2
  simp only [productWords, poly_joined, poly_xor, poly_highHalf_xor]
  linear_combination (1 - X ^ 64) * h0 + (X ^ 128 - X ^ 64) * h1 + X ^ 64 * h2 -
    (poly (bmul64 a.1 b.1) + poly (highHalf (bmul64 a.1.reverse b.1.reverse)) * X ^ 64 +
      poly (bmul64 a.2 b.2) + poly (highHalf (bmul64 a.2.reverse b.2.reverse)) * X ^ 64) * X ^ 64 * two_eq_zero

/-- The reduction takes away a multiple of the modulus and divides by `X ^ 128`. -/
theorem poly_reduceWords (v : BitVec 64 × BitVec 64 × BitVec 64 × BitVec 64) :
    poly v.1 + poly v.2.1 * X ^ 64 + poly v.2.2.1 * X ^ 128 + poly v.2.2.2 * X ^ 192 =
      poly (joined (reduceWords v)) * X ^ 128 + reversedModulus * poly (joined (v.1, v.2.1 ^^^ foldLow v.1)) := by
  have hlow := poly_fold v.1
  have hnext := poly_fold (v.2.1 ^^^ foldLow v.1)
  simp only [poly_joined, reduceWords, poly_xor] at hnext ⊢
  linear_combination hlow + X ^ 64 * hnext - (poly (foldLow v.1) * X ^ 64 + poly (foldHigh v.1) * X ^ 128 +
    poly (foldLow (v.2.1 ^^^ foldLow v.1)) * X ^ 128 +
      poly (foldHigh (v.2.1 ^^^ foldLow v.1)) * X ^ 192) * two_eq_zero

theorem reflect_reversedModulus : reflect 128 reversedModulus = modulus := by
  rw [reversedModulus_eq, modulus_eq, reflect_add, reflect_add, reflect_add, reflect_add, reflect_one,
    reflect_monomial, reflect_monomial, reflect_monomial, reflect_monomial, revAt_le (by decide),
    revAt_le (by decide), revAt_le (by decide), revAt_le (by decide)]
  simp only [Nat.sub_self, show 128 - 127 = 1 from rfl, show 128 - 126 = 2 from rfl, show 128 - 121 = 7 from rfl]
  ring

theorem natDegree_reversedModulus : reversedModulus.natDegree ≤ 128 := by
  rw [reversedModulus_eq]
  compute_degree

theorem element_eq : element v = AdjoinRoot.mk modulus (reflect 127 (poly v)) := by rw [element, poly_reverse]

theorem mk_reflect_reversedModulus_mul {n : ℕ} {c : F2[X]} (hc : c.natDegree ≤ n) :
    AdjoinRoot.mk modulus (reflect (128 + n) (reversedModulus * c)) = 0 := by
  rw [reflect_mul _ _ natDegree_reversedModulus hc, reflect_reversedModulus, map_mul, AdjoinRoot.mk_self, zero_mul]

theorem reflect_succ_mul {m n : ℕ} {f g : F2[X]} (hf : f.natDegree ≤ m) (hg : g.natDegree ≤ n) :
    reflect (1 + (m + n)) (f * g) = X * (reflect m f * reflect n g) := by
  rw [← one_mul (f * g), reflect_mul _ _ (natDegree_one.le.trans (Nat.zero_le 1)) (natDegree_mul_le_of_le hf hg),
    reflect_mul _ _ hf hg, reflect_one, pow_one]

theorem reflect_mul_X_pow {m : ℕ} {f : F2[X]} (hf : f.natDegree ≤ m) (n : ℕ) :
    reflect (m + n) (f * X ^ n) = reflect m f := by
  rw [reflect_mul _ _ hf (natDegree_X_pow_le n), reflect_monomial, revAt_le le_rfl, Nat.sub_self, pow_zero, mul_one]

/-- **`polyval_mul` in the bit order of GCM** is the product of its factors, times `X`. -/
theorem element_polyvalMul :
    element (joined (polyvalMul a b)) = AdjoinRoot.root modulus * element (joined a) * element (joined b) := by
  have hproduct := (poly_productWords a b).trans (poly_reduceWords (productWords a b))
  rw [← polyvalMul_eq] at hproduct
  have hreflect := congrArg (fun p => AdjoinRoot.mk modulus (reflect 255 p)) hproduct
  simp only [reflect_add, map_add] at hreflect
  have hleft := reflect_succ_mul (natDegree_poly_le (joined a)) (natDegree_poly_le (joined b))
  have hright := reflect_mul_X_pow (natDegree_poly_le (joined (polyvalMul a b))) 128
  have hmultiple := mk_reflect_reversedModulus_mul (natDegree_poly_le (joined ((productWords a b).1,
      (productWords a b).2.1 ^^^ foldLow (productWords a b).1)))
  simp only [Nat.reduceAdd] at hleft hright hmultiple
  rw [hleft, hright, hmultiple, add_zero, map_mul, map_mul, AdjoinRoot.mk_X, ← element_eq, ← element_eq,
    ← element_eq] at hreflect
  rw [← hreflect, mul_assoc]

theorem poly_mulx : poly v * X = poly (mulx v) + reversedModulus * poly (v >>> 127) := by
  have hshift := poly_mul_X_pow v (n := 1) (by decide)
  simp only [Nat.reduceSub, pow_one] at hshift
  have hplace : ∀ n, n < 128 → poly ((v >>> 127) <<< n) = poly (v >>> 127) * X ^ n := by
    intro n hn
    have hout : v >>> 127 >>> (128 - n) = 0#128 := by
      rw [← shiftRight_add]
      exact ushiftRight_eq_zero (by omega)
    rw [poly_mul_X_pow (v >>> 127) hn.le, hout, poly_zero, zero_mul, add_zero]
  have hmulx : poly (mulx v) = poly (v <<< 1) + (poly (v >>> 127) + poly (v >>> 127) * X ^ 127 +
      poly (v >>> 127) * X ^ 126 + poly (v >>> 127) * X ^ 121) := by
    rw [mulx, poly_xor, poly_xor, poly_xor, poly_xor, hplace 127 (by decide), hplace 126 (by decide),
      hplace 121 (by decide)]
  linear_combination hshift - hmulx - poly (v >>> 127) * reversedModulus_eq - (poly (v >>> 127) * (1 + X ^ 127 +
    X ^ 126 + X ^ 121)) * two_eq_zero

/-- **`mulx` in the bit order of GCM** divides by `X`. -/
theorem element_mulx : AdjoinRoot.root modulus * element (mulx v) = element v := by
  have hreflect := congrArg (fun p => AdjoinRoot.mk modulus (reflect 128 p)) (poly_mulx v)
  simp only [reflect_add, map_add] at hreflect
  have htop : (poly (v >>> 127)).natDegree ≤ 0 := by
    rw [natDegree_le_iff_coeff_eq_zero]
    intro k hk
    rw [coeff_poly, getLsbD_ushiftRight, getLsbD_of_ge v _ (by omega)]
    rfl
  have hleft := reflect_mul_X_pow (natDegree_poly_le v) 1
  have hright := reflect_succ_mul (natDegree_poly_le (mulx v)) (natDegree_one (R := F2)).le
  have hmultiple := mk_reflect_reversedModulus_mul htop
  simp only [Nat.reduceAdd, pow_one, mul_one, reflect_one, pow_zero, add_zero] at hleft hright hmultiple
  rw [hleft, hright, hmultiple, add_zero, map_mul, AdjoinRoot.mk_X, ← element_eq, ← element_eq] at hreflect
  exact hreflect.symm

theorem joined_wordsOf : joined (wordsOf v) = v := by
  apply eq_of_getLsbD_eq
  intro i hi
  rw [joined, getLsbD_append]
  by_cases h : i < 64
  · rw [if_pos h, wordsOf, getLsbD_setWidth, decide_eq_true h, Bool.true_and]
  · rw [if_neg h, wordsOf, getLsbD_setWidth, getLsbD_ushiftRight,
      decide_eq_true (show i - 64 < 64 by omega), Bool.true_and, show 64 + (i - 64) = i by omega]

theorem joined_xor : joined (a.1 ^^^ b.1, a.2 ^^^ b.2) = joined a ^^^ joined b := xor_append.symm

/-- **`polyval_mul` by the stored key is the multiplication of blocks by the key.** -/
theorem joined_polyvalMul_mulx (a : Words) (h : BitVec 128) :
    joined (polyvalMul a (wordsOf (mulx h))) = Gcm.mul (joined a) h := by
  apply element_injective
  rw [element_polyvalMul, joined_wordsOf, element_mul, ← element_mulx h]
  ring

theorem u128FromLeBytes_reverse (bytes : Block) : u128FromLeBytes bytes.reverse = blockOf bytes := by
  rw [u128FromLeBytes, blockOf, Vector.toList_reverse, List.foldr_reverse]

theorem joined_or : a.1.setWidth 128 ||| a.2.setWidth 128 <<< 64 = joined a := by
  apply eq_of_getLsbD_eq
  intro i hi
  rw [joined, getLsbD_append, getLsbD_or, getLsbD_shiftLeft, getLsbD_setWidth,
    getLsbD_setWidth, decide_eq_true hi]
  by_cases h : i < 64
  · rw [if_pos h, decide_eq_true h]
    simp
  · rw [if_neg h, decide_eq_false h, getLsbD_of_ge a.1 i (by omega),
      decide_eq_true (show i - 64 < 128 by omega)]
    simp

theorem finalize_eq (ghash : Ghash) : ghash.finalize = bytesOf (joined ghash.y) := by
  rw [Ghash.finalize, joined_or]
  apply Vector.ext
  intro i hi
  rw [Vector.getElem_reverse, u128ToLeBytes, bytesOf, Vector.getElem_ofFn, Vector.getElem_ofFn]

theorem updateBlock_h (ghash : Ghash) (block : Block) : (ghash.updateBlock block).h = ghash.h := rfl

theorem joined_updateBlock {ghash : Ghash} {h : BitVec 128} (hkey : ghash.h = wordsOf (mulx h)) (block : Block) :
    joined (ghash.updateBlock block).y = Gcm.mul (joined ghash.y ^^^ blockOf block) h := by
  rw [Ghash.updateBlock, hkey, joined_polyvalMul_mulx, joined_xor, joined_wordsOf, u128FromLeBytes_reverse]

theorem joined_foldl_updateBlock {h : BitVec 128} (blocks : List Block) {ghash : Ghash}
    (hkey : ghash.h = wordsOf (mulx h)) :
    joined (blocks.foldl Ghash.updateBlock ghash).y =
      (blocks.map blockOf).foldl (fun y x => Gcm.mul (y ^^^ x) h) (joined ghash.y) := by
  induction blocks generalizing ghash with
  | nil => rfl
  | cons block blocks ih =>
    rw [List.foldl_cons, ih ((updateBlock_h ghash block).trans hkey), List.map_cons, List.foldl_cons,
      joined_updateBlock hkey]

theorem joined_new (h : Block) : joined (Ghash.new h).y = 0#128 := by
  change (0#64 ++ 0#64 : BitVec 128) = 0#128
  decide

theorem new_h (h : Block) : (Ghash.new h).h = wordsOf (mulx (blockOf h)) := by rw [Ghash.new, u128FromLeBytes_reverse]

theorem finalize_foldl_updateBlock (h : Block) (blocks : List Block) :
    (blocks.foldl Ghash.updateBlock (Ghash.new h)).finalize = bytesOf (ghash (blockOf h) (blocks.map blockOf)) := by
  rw [finalize_eq, joined_foldl_updateBlock blocks (new_h h), joined_new, ghash]

/-- **The hand-written hash is the hash of GCM**: each product of words is the low half of their carry-less
product, and the product by the stored key is the multiplication of blocks by the key, in the field. -/
theorem ghash_conforms :
    (∀ (h : Block) (blocks : List Block), (blocks.foldl Ghash.updateBlock (Ghash.new h)).finalize =
      bytesOf (ghash (blockOf h) (blocks.map blockOf))) ∧
    (∀ x y : BitVec 64, bmul64 x y = (carryless x y).setWidth 64) ∧
    (∀ (a : Words) (h : Block), joined (polyvalMul a (Ghash.new h).h) = Gcm.mul (joined a) (blockOf h) ∧
      element (joined (polyvalMul a (Ghash.new h).h)) = element (joined a) * element (blockOf h)) := by
  refine ⟨finalize_foldl_updateBlock, ?_, ?_⟩
  · intro x y
    apply eq_of_getLsbD_eq
    intro k hk
    apply bit_injective
    rw [← coeff_poly, coeff_bmul64 x y hk, ← poly_carryless, coeff_poly, getLsbD_setWidth,
      decide_eq_true hk, Bool.true_and]
  · intro a h
    have hmul : joined (polyvalMul a (Ghash.new h).h) = Gcm.mul (joined a) (blockOf h) := by
      rw [new_h, joined_polyvalMul_mulx]
    exact ⟨hmul, by rw [hmul, element_mul]⟩

end Persea.Recording
