import Mathlib.Data.List.GetD
import Mathlib.RingTheory.AdjoinRoot
import Persea.BaseBinary
import Persea.BaseChunk

/-! The Galois/counter mode as its standard states it. A block is a word of 128 bits whose leftmost bit is the
coefficient of `1`; multiplication is that of the quotient by `X ^ 128 + X ^ 7 + X ^ 2 + X + 1`. -/

namespace Base.Gcm

open Polynomial Base.Binary AdjoinRoot
open List hiding Vector

/-- Sixteen bytes as a block: the first byte is the leftmost. -/
def blockOf (bytes : Vector UInt8 16) : BitVec 128 :=
  bytes.toList.foldl (fun acc b => acc <<< 8 ||| b.toBitVec.setWidth 128) 0#128

def bytesOf (block : BitVec 128) : Vector UInt8 16 := Vector.ofFn fun i => ⟨block.extractLsb' (8 * (15 - i.val)) 8⟩

/-- `11100001` and 120 zeros. -/
def reduction : BitVec 128 := 0xE1#128 <<< 120

def nextMultiple (v : BitVec 128) : BitVec 128 := if v.getLsbD 0 then v >>> 1 ^^^ reduction else v >>> 1

def mulStep (x : BitVec 128) (zv : BitVec 128 × BitVec 128) (i : ℕ) : BitVec 128 × BitVec 128 :=
  (if x.getMsbD i then zv.1 ^^^ zv.2 else zv.1, nextMultiple zv.2)

def mul (x y : BitVec 128) : BitVec 128 := ((List.range 128).foldl (mulStep x) (0#128, y)).1

def ghash (h : BitVec 128) (blocks : List (BitVec 128)) : BitVec 128 :=
  blocks.foldl (fun y x => mul (y ^^^ x) h) 0#128

/-! ### Blocks as elements of the quotient -/

theorem mk_eq_mk_of_eq_add {p f g : F2[X]} (h : p = f + g) : mk p f = mk p g := by
  rw [mk_eq_mk, CharTwo.sub_eq_add, ← h]

theorem eq_of_mk_eq {p f g : F2[X]} (hp : p.Monic) (hdegree : (f - g).degree < p.degree)
    (h : mk p f = mk p g) : f = g := by
  by_contra hne
  exact hp.not_dvd_of_degree_lt (sub_ne_zero.mpr hne) hdegree (mk_eq_mk.mp h)

noncomputable def modulus : F2[X] := X ^ 128 + (X ^ 7 + X ^ 2 + X + 1)

theorem modulus_eq : modulus = X ^ 128 + (X ^ 7 + X ^ 2 + X + 1) := by
  unfold modulus
  with_reducible rfl

theorem modulus_monic : modulus.Monic := by
  unfold modulus
  apply monic_X_pow_add
  compute_degree!

theorem degree_modulus : modulus.degree = (128 : ℕ) := by
  unfold modulus
  compute_degree!

noncomputable def element (v : BitVec 128) : AdjoinRoot modulus := mk modulus (poly v.reverse)

theorem reverse_xor {w : ℕ} (a b : BitVec w) : (a ^^^ b).reverse = a.reverse ^^^ b.reverse := by
  apply BitVec.eq_of_getLsbD_eq
  intro i hi
  simp only [BitVec.getLsbD_reverse, BitVec.getLsbD_xor, BitVec.getMsbD_xor]

theorem element_xor (a b : BitVec 128) : element (a ^^^ b) = element a + element b := by
  rw [element, reverse_xor, poly_xor, map_add]
  rfl

theorem element_zero : element 0#128 = 0 := by
  rw [element, show (0#128).reverse = 0#128 by decide +kernel, poly_zero, map_zero]

theorem reverse_reverse {w : ℕ} (v : BitVec w) : v.reverse.reverse = v := by
  apply BitVec.eq_of_getLsbD_eq
  intro i hi
  rw [BitVec.getLsbD_reverse, BitVec.getMsbD_reverse]

theorem element_injective : Function.Injective element := by
  intro a b h
  have hdegree : (poly a.reverse - poly b.reverse).degree < modulus.degree :=
    lt_of_lt_of_eq (degree_poly_sub_lt _ _) degree_modulus.symm
  have hpoly := eq_of_mk_eq modulus_monic hdegree h
  rw [← reverse_reverse a, poly_injective hpoly, reverse_reverse]

theorem mk_X_pow_eq : mk modulus (X ^ 128) = mk modulus (X ^ 7 + X ^ 2 + X + 1) := mk_eq_mk_of_eq_add modulus_eq

theorem poly_twoPow {w i : ℕ} (hi : i < w) : poly (BitVec.twoPow w i) = X ^ i := by
  ext k
  rw [coeff_poly, BitVec.getLsbD_twoPow, coeff_X_pow, decide_eq_true hi, Bool.true_and]
  by_cases hk : k = i
  · rw [if_pos hk, decide_eq_true hk.symm]
    rfl
  · rw [if_neg hk, decide_eq_false (Ne.symm hk)]
    rfl

theorem element_reduction : element reduction = mk modulus (X ^ 128) := by
  have hbits : reduction.reverse =
      BitVec.twoPow 128 7 ^^^ BitVec.twoPow 128 2 ^^^ BitVec.twoPow 128 1 ^^^ BitVec.twoPow 128 0 := by decide +kernel
  rw [element, hbits, poly_xor, poly_xor, poly_xor, poly_twoPow (by decide), poly_twoPow (by decide),
    poly_twoPow (by decide), poly_twoPow (by decide), mk_X_pow_eq, pow_one, pow_zero]

variable (v : BitVec 128) (bytes : Vector UInt8 16) {k : ℕ} {text : List UInt8}

theorem reverse_ushiftRight_one : (v >>> 1).reverse = v.reverse <<< 1 := by
  apply BitVec.eq_of_getLsbD_eq
  intro i hi
  rw [BitVec.getLsbD_reverse, BitVec.getLsbD_shiftLeft, BitVec.getLsbD_reverse,
    BitVec.getMsbD_ushiftRight, decide_eq_true hi, Bool.true_and, Bool.true_and]

theorem poly_reverse_top : poly (v.reverse >>> 127) = C (bit (v.getLsbD 0)) := by
  ext k
  rw [coeff_poly, BitVec.getLsbD_ushiftRight, BitVec.getLsbD_reverse, coeff_C]
  by_cases hk : k = 0
  · rw [if_pos hk, hk, BitVec.getMsbD_eq_getLsbD, decide_eq_true (by decide), Bool.true_and]
  · rw [if_neg hk, BitVec.getMsbD_of_ge _ _ (by omega)]
    rfl

/-- **The next multiple is the product by `X`.** -/
theorem element_nextMultiple : element (nextMultiple v) = element v * root modulus := by
  have hshift := congrArg (mk modulus)
    (poly_mul_X_pow v.reverse (n := 1) (by decide))
  rw [show 128 - 1 = 127 from rfl, poly_reverse_top, ← reverse_ushiftRight_one, pow_one, map_mul, map_add,
    map_mul, mk_X, mk_C, ← element_reduction] at hshift
  unfold nextMultiple
  cases hbit : v.getLsbD 0 with
  | false =>
    rw [hbit, show bit false = 0 from rfl, map_zero, zero_mul, add_zero] at hshift
    rw [if_neg (by decide)]
    exact hshift.symm
  | true =>
    rw [hbit, show bit true = 1 from rfl, map_one, one_mul] at hshift
    rw [if_pos rfl, element_xor]
    exact hshift.symm

/-- The loop after its first `n` turns: the multiples of the bits seen so far are added up, and the second
part is the second factor times `X ^ n`. -/
theorem element_mul_upTo (x y : BitVec 128) (n : ℕ) : let zv := (List.range n).foldl (mulStep x) (0#128, y)
    element zv.1 = (∑ i ∈ Finset.range n, of modulus (bit (x.getMsbD i)) * root modulus ^ i) * element y ∧
      element zv.2 = element y * root modulus ^ n := by
  induction n with
  | zero =>
    refine ⟨?_, ?_⟩
    · rw [range_zero, foldl_nil, Finset.range_zero, Finset.sum_empty, zero_mul]
      exact element_zero
    · rw [range_zero, foldl_nil, pow_zero, mul_one]
  | succ n ih =>
    obtain ⟨hz, hv⟩ := ih
    rw [range_succ, foldl_append, foldl_cons, foldl_nil]
    refine ⟨?_, ?_⟩
    · rw [Finset.sum_range_succ, add_mul, ← hz, mulStep]
      cases x.getMsbD n with
      | false => rw [if_neg (by decide), show bit false = 0 from rfl, map_zero, zero_mul, zero_mul, add_zero]
      | true =>
        rw [if_pos rfl, element_xor, hv, show bit true = 1 from rfl, map_one, one_mul]
        ring
    · rw [mulStep, element_nextMultiple, hv, pow_succ]
      ring

theorem element_eq_sum (x : BitVec 128) : element x = ∑ i ∈ Finset.range 128,
      of modulus (bit (x.getMsbD i)) * root modulus ^ i := by
  rw [element, poly_eq_sum, map_sum]
  apply Finset.sum_congr rfl
  intro i _
  rw [BitVec.getLsbD_reverse, map_mul, map_pow, mk_X, mk_C]

/-- **The multiplication of blocks is the product in the quotient.** -/
theorem element_mul (x y : BitVec 128) : element (mul x y) = element x * element y := by
  rw [mul, (element_mul_upTo x y 128).1, ← element_eq_sum]

theorem getLsbD_shift_or (acc : BitVec 128) (b : UInt8) (hk : k < 128) :
    (acc <<< 8 ||| b.toBitVec.setWidth 128).getLsbD k =
      if k < 8 then b.toBitVec.getLsbD k else acc.getLsbD (k - 8) := by
  rw [BitVec.getLsbD_or, BitVec.getLsbD_shiftLeft, BitVec.getLsbD_setWidth, decide_eq_true hk]
  by_cases h : k < 8
  · rw [if_pos h, decide_eq_true h]
    simp
  · rw [if_neg h, decide_eq_false h, BitVec.getLsbD_of_ge b.toBitVec k (by omega)]
    simp

theorem getLsbD_foldl_bytes (l : List UInt8) (hk : k < 128) :
    (l.foldl (fun (acc : BitVec 128) b => acc <<< 8 ||| b.toBitVec.setWidth 128) 0#128).getLsbD k =
      if k < 8 * l.length then (l.getD (l.length - 1 - k / 8) 0).toBitVec.getLsbD (k % 8) else false := by
  induction l using List.reverseRecOn generalizing k with
  | nil => simp
  | append_singleton l b ih =>
    rw [foldl_append, foldl_cons, foldl_nil, getLsbD_shift_or _ _ hk, length_append,
      length_singleton]
    by_cases h : k < 8
    · rw [if_pos h, if_pos (by omega), Nat.div_eq_of_lt h, Nat.mod_eq_of_lt h, Nat.add_sub_cancel,
        Nat.sub_zero, getD_append_right _ _ _ _ le_rfl, Nat.sub_self]
      rfl
    · rw [if_neg h, ih (by omega)]
      by_cases hin : k - 8 < 8 * l.length
      · rw [if_pos hin, if_pos (by omega), show (k - 8) % 8 = k % 8 by omega,
          show l.length + 1 - 1 - k / 8 = l.length - 1 - (k - 8) / 8 by omega,
          getD_append _ _ _ _ (by omega)]
      · rw [if_neg hin, if_neg (by omega)]

theorem getLsbD_blockOf (hk : k < 128) :
    (blockOf bytes).getLsbD k = (bytes[15 - k / 8]).toBitVec.getLsbD (k % 8) := by
  have hlen : bytes.toList.length = 16 := Vector.length_toList
  rw [blockOf, getLsbD_foldl_bytes _ hk, if_pos (by omega), hlen,
    getD_eq_getElem _ _ (by omega), Vector.getElem_toList]

theorem getLsbD_bytesOf {i j : ℕ} (hi : i < 16) (hj : j < 8) :
    ((bytesOf v)[i]).toBitVec.getLsbD j = v.getLsbD (8 * (15 - i) + j) := by
  rw [bytesOf, Vector.getElem_ofFn, BitVec.getLsbD_extractLsb', decide_eq_true hj, Bool.true_and]

theorem blockOf_bytesOf : blockOf (bytesOf v) = v := by
  apply BitVec.eq_of_getLsbD_eq
  intro k hk
  rw [getLsbD_blockOf _ hk, getLsbD_bytesOf v (by omega) (Nat.mod_lt _ (by decide)),
    show 8 * (15 - (15 - k / 8)) + k % 8 = k by omega]

theorem blockOf_injective : Function.Injective blockOf := by
  intro a b h
  apply Vector.ext
  intro i hi
  apply UInt8.eq_of_toBitVec_eq
  apply BitVec.eq_of_getLsbD_eq
  intro j hj
  have hbit := congrArg (fun v : BitVec 128 => v.getLsbD (8 * (15 - i) + j)) h
  simp only [getLsbD_blockOf _ (show 8 * (15 - i) + j < 128 by omega)] at hbit
  simpa only [show 15 - (8 * (15 - i) + j) / 8 = i by omega, show (8 * (15 - i) + j) % 8 = j by omega] using hbit

theorem bytesOf_blockOf : bytesOf (blockOf bytes) = bytes := blockOf_injective (blockOf_bytesOf _)

def beBytes {w : ℕ} (n : ℕ) (v : BitVec w) : Vector UInt8 n :=
  Vector.ofFn fun i => ⟨v.extractLsb' (8 * (n - 1 - i.val)) 8⟩

theorem getLsbD_beBytes {w n : ℕ} (v : BitVec w) {i j : ℕ} (hi : i < n) (hj : j < 8) :
    ((beBytes n v)[i]).toBitVec.getLsbD j = v.getLsbD (8 * (n - 1 - i) + j) := by
  rw [beBytes, Vector.getElem_ofFn, BitVec.getLsbD_extractLsb', decide_eq_true hj, Bool.true_and]

def inc32 (block : BitVec 128) : BitVec 128 := block.extractLsb' 32 96 ++ (block.extractLsb' 0 32 + 1#32)

variable (cipher : Vector UInt8 16 → Vector UInt8 16)

def keystream (icb : BitVec 128) : ℕ → List UInt8
  | 0 => []
  | n + 1 => (cipher (bytesOf icb)).toList ++ keystream (inc32 icb) n

def gctr (icb : BitVec 128) (text : List UInt8) : List UInt8 :=
  List.zipWith (· ^^^ ·) text (keystream cipher icb ((text.length + 15) / 16))

variable (nonce : Vector UInt8 12)

def preCounter : BitVec 128 := blockOf (nonce ++ beBytes 4 1#32)

def padBlock (bytes : List UInt8) : Vector UInt8 16 := Vector.ofFn fun i => bytes.getD i.val 0

def padBlocks (text : List UInt8) : List (BitVec 128) :=
  (List.range ((text.length + 15) / 16)).map fun i => blockOf (padBlock ((text.drop (16 * i)).take 16))

/-- The lengths of the associated data, which there is none of, and of the ciphertext, in bits. -/
def lengthsBlock (length : ℕ) : BitVec 128 := 0#64 ++ BitVec.ofNat 64 (8 * length)

def tag (ciphertext : List UInt8) : List UInt8 :=
  gctr cipher (preCounter nonce)
    (bytesOf (ghash (blockOf (cipher (bytesOf 0#128)))
      (padBlocks ciphertext ++ [lengthsBlock ciphertext.length]))).toList

def decrypt (ciphertext stored : List UInt8) : Option (List UInt8) :=
  if stored = tag cipher nonce ciphertext then some (gctr cipher (inc32 (preCounter nonce)) ciphertext) else none

theorem gctr_nil (icb : BitVec 128) : gctr cipher icb [] = [] := rfl

theorem gctr_block_append (icb : BitVec 128) {b : List UInt8} (hb : b.length = 16) (text : List UInt8) :
    gctr cipher icb (b ++ text) =
      List.zipWith (· ^^^ ·) b (cipher (bytesOf icb)).toList ++ gctr cipher (inc32 icb) text := by
  have hblocks : ((b ++ text).length + 15) / 16 = (text.length + 15) / 16 + 1 := by
    rw [length_append]
    omega
  rw [gctr, hblocks, keystream, zipWith_append (by rw [hb, Vector.length_toList])]
  rfl

theorem gctr_of_lt (icb : BitVec 128) (hne : text ≠ []) (hlt : text.length < 16) :
    gctr cipher icb text = List.zipWith (· ^^^ ·) text (cipher (bytesOf icb)).toList := by
  have hpos := length_pos_iff.mpr hne
  rw [gctr, show (text.length + 15) / 16 = 0 + 1 by omega, keystream, keystream, append_nil]

theorem gctr_block (icb : BitVec 128) {b : List UInt8} (hb : b.length = 16) :
    gctr cipher icb b = List.zipWith (· ^^^ ·) b (cipher (bytesOf icb)).toList := by
  have h := gctr_block_append cipher icb hb []
  rwa [append_nil, gctr_nil, append_nil] at h

theorem padBlocks_nil : padBlocks [] = [] := rfl

theorem padBlocks_block_append {b : List UInt8} (hb : b.length = 16) (text : List UInt8) :
    padBlocks (b ++ text) = blockOf (padBlock b) :: padBlocks text := by
  have hblocks : ((b ++ text).length + 15) / 16 = (text.length + 15) / 16 + 1 := by
    rw [length_append]
    omega
  have hfirst : (b ++ text).take 16 = b := by rw [← hb, take_left]
  have hrest : ∀ i, (b ++ text).drop (16 * i.succ) = text.drop (16 * i) := by
    intro i
    rw [Nat.mul_succ, Nat.add_comm, Chunk.drop_block_append hb]
  rw [padBlocks, hblocks, range_succ_eq_map, map_cons, map_map, Nat.mul_zero, drop_zero, hfirst]
  simp only [Function.comp_def, hrest]
  rfl

theorem padBlocks_of_lt (hne : text ≠ []) (hlt : text.length < 16) : padBlocks text = [blockOf (padBlock text)] := by
  have hpos := length_pos_iff.mpr hne
  rw [padBlocks, show (text.length + 15) / 16 = 1 by omega, range_one, map_singleton, Nat.mul_zero,
    drop_zero, take_of_length_le hlt.le]

theorem padBlocks_eq (text : List UInt8) :
    padBlocks text = (Chunk.wholes 16 text).map (fun b => blockOf (padBlock b)) ++
      if Chunk.remainder 16 text = [] then [] else [blockOf (padBlock (Chunk.remainder 16 text))] := by
  induction text using Chunk.block_induction (show 0 < 16 by decide) with
  | short text h =>
    rw [Chunk.wholes_of_lt h, Chunk.remainder_of_lt h, map_nil, nil_append]
    split_ifs with hnil
    · rw [hnil, padBlocks_nil]
    · rw [padBlocks_of_lt hnil h]
  | block b text hb ih =>
    rw [padBlocks_block_append hb, Chunk.wholes_block_append (by decide) hb,
      Chunk.remainder_block_append (by decide) hb, map_cons, ih, cons_append]

theorem length_le_keystream (icb : BitVec 128) (text : List UInt8) :
    text.length ≤ (keystream cipher icb ((text.length + 15) / 16)).length := by
  have hlength : ∀ n icb, (keystream cipher icb n).length = 16 * n := by
    intro n
    induction n with
    | zero => exact fun _ => rfl
    | succ n ih =>
      intro icb
      rw [keystream, length_append, ih, Vector.length_toList, Nat.mul_succ, Nat.add_comm]
  rw [hlength]
  omega

theorem length_gctr (icb : BitVec 128) (text : List UInt8) : (gctr cipher icb text).length = text.length := by
  rw [gctr, length_zipWith, min_eq_left (length_le_keystream ..)]

theorem gctr_gctr (icb : BitVec 128) (text : List UInt8) : gctr cipher icb (gctr cipher icb text) = text := by
  rw [gctr, length_gctr]
  apply ext_getElem
  · rw [length_zipWith, length_gctr, min_eq_left (length_le_keystream ..)]
  · intro i _ _
    simp only [gctr, getElem_zipWith, UInt8.xor_assoc, UInt8.xor_self, UInt8.xor_zero]

theorem length_tag (ciphertext : List UInt8) : (tag cipher nonce ciphertext).length = 16 := by
  rw [tag, length_gctr, Vector.length_toList]

def encrypt (plaintext : List UInt8) : List UInt8 × Vector UInt8 16 :=
  let ciphertext := gctr cipher (inc32 (preCounter nonce)) plaintext
  (ciphertext, ⟨(tag cipher nonce ciphertext).toArray, size_toArray.trans (length_tag ..)⟩)

theorem decrypt_encrypt (plaintext : List UInt8) : let sealed := encrypt cipher nonce plaintext
    sealed.1.length = plaintext.length ∧ decrypt cipher nonce sealed.1 sealed.2.toList = some plaintext := by
  have htag : (encrypt cipher nonce plaintext).2.toList = tag cipher nonce (encrypt cipher nonce plaintext).1 := rfl
  refine ⟨length_gctr cipher _ plaintext, ?_⟩
  rw [decrypt, if_pos htag, encrypt, gctr_gctr]

end Base.Gcm
