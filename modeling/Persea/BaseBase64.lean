import Persea.BaseText
import Persea.BaseUtf8

/-! Base64 with padding: decoding by groups of four characters, and how many bytes a text stands for. -/

namespace Base.Base64

open Text List Option

def sextet (c : Char) : Option Nat :=
  if c.isUpper then some (c.toNat - 'A'.toNat)
  else if c.isLower then some (c.toNat - 'a'.toNat + 26)
  else if c.isDigit then some (c.toNat - '0'.toNat + 52)
  else if c = '+' then some 62
  else if c = '/' then some 63
  else none

def decode : List Char → Option (List UInt8)
  | [] => some []
  | [a, b, '=', '='] => do
      let w ← sextet a
      let x ← sextet b
      return [UInt8.ofNat (w * 4 + x / 16)]
  | [a, b, c, '='] => do
      let w ← sextet a
      let x ← sextet b
      let y ← sextet c
      return [UInt8.ofNat (w * 4 + x / 16), UInt8.ofNat (x * 16 + y / 4)]
  | a :: b :: c :: d :: rest => do
      let w ← sextet a
      let x ← sextet b
      let y ← sextet c
      let z ← sextet d
      let bytes ← decode rest
      return UInt8.ofNat (w * 4 + x / 16) :: UInt8.ofNat (x * 16 + y / 4) :: UInt8.ofNat (y * 64 + z) :: bytes
  | _ => none

def padding (text : List Char) : Nat := if ['=', '='] <:+ text then 2 else if ['='] <:+ text then 1 else 0

example : decode "TWFu" = some [77, 97, 110] ∧ decode "TWE=" = some [77, 97] ∧
    decode "TQ==" = some [77] ∧ decode "TQ=" = none := by decide

variable (front : List Char) {c : Char} {text : List Char}

theorem sextet_ne_pad {n : Nat} (h : sextet c = some n) : c ≠ '=' := by
  rintro rfl
  have hnone : sextet '=' = none := by decide
  rw [hnone] at h
  contradiction

theorem sextet_visible {n : Nat} (h : sextet c = some n) : Visible c := by
  have hnat : c.toNat = c.val.toNat := rfl
  unfold sextet at h
  unfold Visible
  split_ifs at h with hupper hlower hdigit hplus hslash
  · have hbounds : 65 ≤ c.val.toNat ∧ c.val.toNat ≤ 90 := of_decide_eq_true hupper
    omega
  · obtain ⟨hlow, hhigh⟩ := (Bool.and_eq_true _ _).mp hlower
    have hbounds : 97 ≤ c.val.toNat ∧ c.val.toNat ≤ 122 := ⟨of_decide_eq_true hlow, of_decide_eq_true hhigh⟩
    omega
  · simp only [Char.isDigit, Bool.and_eq_true, decide_eq_true_eq, UInt32.le_iff_toNat_le] at hdigit
    have hbounds : 48 ≤ c.val.toNat ∧ c.val.toNat ≤ 57 := hdigit
    omega
  · subst hplus
    decide
  · subst hslash
    decide

theorem visible_pad : Visible '=' := by decide

theorem padding_append (htext : 2 ≤ text.length) : padding (front ++ text) = padding text := by
  have hsuffix : ∀ l : List Char, l.length ≤ 2 → (l <:+ front ++ text ↔ l <:+ text) := by
    intro l hl
    constructor
    · intro h
      exact suffix_of_suffix_length_le h (suffix_append _ _) (hl.trans htext)
    · intro h
      exact h.trans (suffix_append _ _)
  unfold padding
  rw [if_congr (hsuffix _ (by decide)) rfl (if_congr (hsuffix _ (by decide)) rfl rfl)]

theorem padding_one (hc : c ≠ '=') : padding (front ++ [c, '=']) = 1 := by
  have htwo : ¬['=', '='] <:+ front ++ [c, '='] := by
    rintro ⟨before, h⟩
    exact hc (List.cons.inj (append_inj' h rfl).2).1.symm
  have hone : ['='] <:+ front ++ [c, '='] := ⟨front ++ [c], by simp⟩
  rw [padding, if_neg htwo, if_pos hone]

theorem padding_none (hc : c ≠ '=') : padding (front ++ [c]) = 0 := by
  have hone : ¬['='] <:+ front ++ [c] := by
    rintro ⟨before, h⟩
    exact hc (List.cons.inj (append_inj' h rfl).2).1.symm
  have htwo : ¬['=', '='] <:+ front ++ [c] := fun h => hone (List.IsSuffix.trans ⟨['='], rfl⟩ h)
  rw [padding, if_neg htwo, if_neg hone]

/-- **What a decodable text looks like**: groups of four visible characters, and three bytes for each group less
the padding. -/
theorem decode_shape {bytes : List UInt8} (h : decode text = some bytes) :
    (∀ c ∈ text, Visible c) ∧ ∃ groups, text.length = 4 * groups ∧ bytes.length + padding text = 3 * groups := by
  fun_induction decode text generalizing bytes with
  | case1 =>
    obtain rfl : [] = bytes := Option.some.inj h
    exact ⟨by simp, 0, rfl, by decide⟩
  | case2 a b =>
    obtain ⟨w, ha, h⟩ := bind_eq_some_iff.mp h
    obtain ⟨x, hb, h⟩ := bind_eq_some_iff.mp h
    cases h
    have hpadding : padding [a, b, '=', '='] = 2 := if_pos ⟨[a, b], rfl⟩
    refine ⟨?_, 1, rfl, by rw [hpadding]; rfl⟩
    simp [sextet_visible ha, sextet_visible hb, visible_pad]
  | case3 a b c hc =>
    obtain ⟨w, ha, h⟩ := bind_eq_some_iff.mp h
    obtain ⟨x, hb, h⟩ := bind_eq_some_iff.mp h
    obtain ⟨y, hc, h⟩ := bind_eq_some_iff.mp h
    cases h
    have hpadding : padding [a, b, c, '='] = 1 := padding_one [a, b] (sextet_ne_pad hc)
    refine ⟨?_, 1, rfl, by rw [hpadding]; rfl⟩
    simp [sextet_visible ha, sextet_visible hb, sextet_visible hc, visible_pad]
  | case4 a b c d rest _ _ ih =>
    obtain ⟨w, ha, h⟩ := bind_eq_some_iff.mp h
    obtain ⟨x, hb, h⟩ := bind_eq_some_iff.mp h
    obtain ⟨y, hc, h⟩ := bind_eq_some_iff.mp h
    obtain ⟨z, hd, h⟩ := bind_eq_some_iff.mp h
    obtain ⟨tail, hrest, h⟩ := bind_eq_some_iff.mp h
    cases h
    obtain ⟨hvisible, groups, hlength, hbytes⟩ := ih hrest
    -- the padding of the text is that of its last group
    have hpadding : padding (a :: b :: c :: d :: rest) = padding rest := by
      cases rest with
      | nil => exact padding_none [a, b, c] (sextet_ne_pad hd)
      | cons e rest =>
        rw [length_cons] at hlength
        exact padding_append [a, b, c, d] (by rw [length_cons]; omega)
    refine ⟨?_, groups + 1, ?_, ?_⟩
    · simpa [sextet_visible ha, sextet_visible hb, sextet_visible hc, sextet_visible hd] using hvisible
    · simp only [length_cons]
      omega
    · rw [hpadding]
      simp only [length_cons]
      omega
  | case5 => contradiction

end Base.Base64
