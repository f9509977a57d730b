import Mathlib.Data.List.Basic
import Mathlib.Tactic

/-! Texts and their UTF-8 bytes. The first byte of a character gives the number of its bytes, and a byte below `0x80`
is a character of its own. -/

namespace Base.Utf8

open List

def encode (text : List Char) : List UInt8 := text.flatMap String.utf8EncodeChar

def decode (bytes : List UInt8) : Option (List Char) := bytes.toByteArray.utf8Decode?.map Array.toList

def leadWidth (b : UInt8) : Option Nat :=
  if b < 0x80 then some 1
  else if b < 0xC0 then none
  else if b < 0xE0 then some 2
  else if b < 0xF0 then some 3
  else some 4

@[simp] theorem encode_nil : encode [] = [] := rfl

variable {bytes : List UInt8} (c : Char) (text : List Char) {b : UInt8}

@[simp] theorem encode_cons : encode (c :: text) = String.utf8EncodeChar c ++ encode text := rfl

@[simp] theorem encode_append (left right : List Char) :
    encode (left ++ right) = encode left ++ encode right := flatMap_append

theorem decode_encode : decode (encode text) = some text := by
  change text.utf8Encode.utf8Decode?.map Array.toList = some text
  rw [utf8Decode?_utf8Encode, Option.map_some]

theorem encode_of_decode {text : List Char} (h : decode bytes = some text) : encode text = bytes := by
  obtain ⟨chars, hchars, rfl⟩ := Option.map_eq_some_iff.mp h
  have hsome : bytes.toByteArray.utf8Decode?.isSome := by rw [hchars]; rfl
  have hget : bytes.toByteArray.utf8Decode?.get hsome = chars := by simp [hchars]
  have hencode : chars.toList.utf8Encode = bytes.toByteArray := by
    rw [← hget]
    exact ByteArray.utf8Encode_get_utf8Decode?
  have hdata := congrArg (fun b : ByteArray => b.data.toList) hencode
  simpa [List.utf8Encode, encode] using hdata

theorem encode_injective {left right : List Char} (heq : encode left = encode right) : left = right := by
  have h := congrArg decode heq
  rw [decode_encode, decode_encode] at h
  exact Option.some.inj h

/-! ### The bytes of one character -/

theorem ofNat_lt_iff {n : Nat} (hn : n < 256) (bound : UInt8) : UInt8.ofNat n < bound ↔ n < bound.toNat := by
  rw [UInt8.lt_iff_toNat_lt, UInt8.toNat_ofNat', Nat.mod_eq_of_lt hn]

theorem le_ofNat {n : Nat} (hn : n < 256) {bound : UInt8} (hle : bound.toNat ≤ n) : bound ≤ UInt8.ofNat n := by
  rw [← UInt8.not_lt, ofNat_lt_iff hn]
  omega

theorem encodeChar_ascii {c : Char} (hc : c.toNat < 0x80) : String.utf8EncodeChar c = [UInt8.ofNat c.toNat] := by
  have hle : c.val.toNat ≤ 0x7f := Nat.le_of_lt_succ hc
  simp only [String.utf8EncodeChar, if_pos hle]
  rfl

/-- The shape of an encoded character: a first byte that announces the number of bytes, and
continuation bytes after it. -/
theorem encodeChar_shape : ∃ b tail, String.utf8EncodeChar c = b :: tail ∧
    leadWidth b = some (tail.length + 1) ∧ (0x80 ≤ c.toNat → 0x80 ≤ b) ∧ ∀ x ∈ tail, 0x80 ≤ x := by
  have hcont : ∀ n : Nat, (0x80 : UInt8) ≤ UInt8.ofNat (n % 0x40 + 0x80) :=
    fun n => le_ofNat (by omega) (Nat.le_add_left _ _)
  have hval : c.val.toNat < 0x110000 := by
    rcases c.valid with h | ⟨_, h⟩
    · exact lt_trans h (by decide)
    · exact h
  have hnat : c.toNat = c.val.toNat := rfl
  by_cases h1 : c.val.toNat ≤ 0x7f
  · refine ⟨UInt8.ofNat c.toNat, [], encodeChar_ascii (by omega), ?_, fun h => by omega, by simp⟩
    rw [leadWidth, if_pos]
    · rfl
    · rw [ofNat_lt_iff (by omega)]
      simp only [UInt8.toNat_ofNat]
      omega
  · simp only [String.utf8EncodeChar, if_neg h1]
    by_cases h2 : c.val.toNat ≤ 0x7ff
    · rw [if_pos h2]
      refine ⟨_, _, rfl, ?_, fun _ => ?_, fun x hx => ?_⟩
      · simp only [leadWidth, ofNat_lt_iff (show c.val.toNat / 64 % 0x20 + 0xc0 < 256 by omega), UInt8.toNat_ofNat]
        rw [if_neg (by omega), if_neg (by omega), if_pos (by omega)]
        rfl
      · exact le_ofNat (by omega) (le_trans (by decide) (Nat.le_add_left _ _))
      · simp only [mem_cons, not_mem_nil, or_false] at hx
        rw [hx]
        exact hcont _
    · rw [if_neg h2]
      by_cases h3 : c.val.toNat ≤ 0xffff
      · rw [if_pos h3]
        refine ⟨_, _, rfl, ?_, fun _ => ?_, fun x hx => ?_⟩
        · simp only [leadWidth, ofNat_lt_iff (show c.val.toNat / 4096 % 0x10 + 0xe0 < 256 by omega),
            UInt8.toNat_ofNat]
          rw [if_neg (by omega), if_neg (by omega), if_neg (by omega), if_pos (by omega)]
          rfl
        · exact le_ofNat (by omega) (le_trans (by decide) (Nat.le_add_left _ _))
        · simp only [mem_cons, not_mem_nil, or_false] at hx
          rcases hx with rfl | rfl <;> exact hcont _
      · rw [if_neg h3]
        refine ⟨_, _, rfl, ?_, fun _ => ?_, fun x hx => ?_⟩
        · simp only [leadWidth, ofNat_lt_iff (show c.val.toNat / 262144 % 0x08 + 0xf0 < 256 by omega),
            UInt8.toNat_ofNat]
          rw [if_neg (by omega), if_neg (by omega), if_neg (by omega), if_neg (by omega)]
          rfl
        · exact le_ofNat (by omega) (le_trans (by decide) (Nat.le_add_left _ _))
        · simp only [mem_cons, not_mem_nil, or_false] at hx
          rcases hx with rfl | rfl | rfl <;> exact hcont _

theorem encodeChar_ne_nil : String.utf8EncodeChar c ≠ [] := by
  obtain ⟨b, tail, h, _⟩ := encodeChar_shape c
  rw [h]
  exact cons_ne_nil _ _

theorem encodeChar_of_mem_ascii {c : Char} (hmem : b ∈ String.utf8EncodeChar c) (hb : b < 0x80) :
    c.toNat = b.toNat := by
  obtain ⟨lead, tail, hshape, _, hlead, htail⟩ := encodeChar_shape c
  by_cases hc : c.toNat < 0x80
  · rw [encodeChar_ascii hc, mem_singleton] at hmem
    rw [hmem, UInt8.toNat_ofNat', Nat.mod_eq_of_lt (by omega)]
  · rw [hshape, mem_cons] at hmem
    rcases hmem with rfl | hmem
    · exact absurd hb (UInt8.not_lt.mpr (hlead (by omega)))
    · exact absurd hb (UInt8.not_lt.mpr (htail b hmem))

theorem length_le_length_encode : text.length ≤ (encode text).length := by
  induction text with
  | nil => simp
  | cons c text ih =>
    have hpos : 0 < (String.utf8EncodeChar c).length := length_pos_iff.mpr (encodeChar_ne_nil c)
    rw [encode_cons, length_append, length_cons]
    omega

theorem length_encode_ascii {text : List Char} (htext : ∀ c ∈ text, c.toNat < 0x80) :
    (encode text).length = text.length := by
  induction text with
  | nil => rfl
  | cons c text ih =>
    rw [encode_cons, encodeChar_ascii (htext c mem_cons_self), length_append, length_singleton,
      length_cons, ih fun d hd => htext d (mem_cons_of_mem _ hd), Nat.add_comm]

theorem count_encode (hc : c.toNat < 0x80) (text : List Char) :
    (encode text).count (UInt8.ofNat c.toNat) = text.count c := by
  have hnat : (UInt8.ofNat c.toNat).toNat = c.toNat := by rw [UInt8.toNat_ofNat', Nat.mod_eq_of_lt (by omega)]
  have hlt : UInt8.ofNat c.toNat < 0x80 := by
    rw [ofNat_lt_iff (by omega)]
    exact hc
  induction text with
  | nil => rfl
  | cons d text ih =>
    rw [encode_cons, count_append, ih, count_cons]
    by_cases hd : d = c
    · subst hd
      rw [encodeChar_ascii hc]
      simp [Nat.add_comm]
    · have hnot : UInt8.ofNat c.toNat ∉ String.utf8EncodeChar d := by
        intro hmem
        have h := encodeChar_of_mem_ascii hmem hlt
        rw [hnat] at h
        exact hd (Char.ext (UInt32.toNat_inj.mp h))
      rw [count_eq_zero_of_not_mem hnot]
      simp [hd]

def Valid (bytes : List UInt8) : Prop := ∃ text, encode text = bytes

theorem decode_isSome_iff : (decode bytes).isSome ↔ Valid bytes := by
  rw [Option.isSome_iff_exists]
  constructor
  · rintro ⟨text, h⟩
    exact ⟨text, encode_of_decode h⟩
  · rintro ⟨text, rfl⟩
    exact ⟨text, decode_encode text⟩

instance (bytes : List UInt8) : Decidable (Valid bytes) := decidable_of_iff _ decode_isSome_iff

theorem encode_ascii (hb : b < 0x80) : encode [Char.ofNat b.toNat] = [b] := by
  have hb' : b.toNat < 0x80 := UInt8.lt_iff_toNat_lt.mp hb
  have hvalid : b.toNat.isValidChar := .inl (by omega)
  have hnat : (Char.ofNat b.toNat).toNat = b.toNat := by
    rw [Char.ofNat, dif_pos hvalid]
    rfl
  rw [encode_cons, encode_nil, append_nil, encodeChar_ascii (by rw [hnat]; exact hb'), hnat, UInt8.ofNat_toNat]

theorem valid_append_ascii {left right : List UInt8} (hb : b < 0x80) :
    Valid (left ++ b :: right) ↔ Valid left ∧ Valid right := by
  constructor
  · rintro ⟨text, htext⟩
    induction text generalizing left with
    | nil => cases left <;> contradiction
    | cons c text ih =>
      rw [encode_cons] at htext
      rcases append_eq_append_iff.mp htext with ⟨more, hleft, hmore⟩ | ⟨more, hchar, hmore⟩
      · -- the character ends before the byte
        obtain ⟨⟨front, hfront⟩, hright⟩ := ih hmore
        exact ⟨⟨c :: front, by rw [encode_cons, hfront, hleft]⟩, hright⟩
      · cases more with
        | nil =>
          rw [append_nil] at hchar
          obtain ⟨-, hright⟩ := ih (show encode text = [] ++ b :: right from hmore.symm)
          exact ⟨⟨[c], by rw [encode_cons, encode_nil, append_nil, hchar]⟩, hright⟩
        | cons first more =>
          -- the byte is in the character, which then is the byte alone
          rw [cons_append, List.cons.injEq] at hmore
          obtain ⟨rfl, hright⟩ := hmore
          have hmem : b ∈ String.utf8EncodeChar c := by
            rw [hchar]
            exact mem_append_right _ mem_cons_self
          have hc : c.toNat < 0x80 := by
            rw [encodeChar_of_mem_ascii hmem hb]
            exact UInt8.lt_iff_toNat_lt.mp hb
          rw [encodeChar_ascii hc] at hchar
          obtain ⟨rfl, rfl⟩ : left = [] ∧ more = [] := by
            have hlen := congrArg List.length hchar
            simp only [length_append, length_cons, length_nil] at hlen
            exact ⟨length_eq_zero_iff.mp (by omega), length_eq_zero_iff.mp (by omega)⟩
          exact ⟨⟨[], rfl⟩, ⟨text, by rw [hright, nil_append]⟩⟩
  · rintro ⟨⟨front, rfl⟩, ⟨back, rfl⟩⟩
    refine ⟨front ++ [Char.ofNat b.toNat] ++ back, ?_⟩
    rw [encode_append, encode_append, encode_ascii hb, append_assoc]
    rfl

theorem valid_nil : Valid [] := ⟨[], rfl⟩

theorem valid_of_ascii (h : ∀ b ∈ bytes, b < 0x80) : Valid bytes := by
  induction bytes with
  | nil => exact valid_nil
  | cons b bytes ih =>
    rw [forall_mem_cons] at h
    have hcut : Valid ([] ++ b :: bytes) ↔ Valid [] ∧ Valid bytes := valid_append_ascii h.1
    exact hcut.mpr ⟨valid_nil, ih h.2⟩

end Base.Utf8
