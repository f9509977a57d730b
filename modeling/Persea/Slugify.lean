import Persea.BaseText

/-! `slugify`: the identifier that is made of a friendly name. -/

namespace Persea.Slugify

open Base Base.Text List

def isSeparator (c : Char) : Bool := c ∈ ['.', '_', '-']

/-- The slug so far and `prev_sep`. -/
abbrev State := Text × Bool

def State.separate (s : State) (c : Char) : State := (if s.2 = false ∧ s.1 ≠ [] then s.1 ++ [c] else s.1, true)

def State.push (s : State) (c : Char) : State :=
  if c.toLower.isAlphanum then (s.1 ++ [c.toLower], false)
  else if isWhitespace c then s.separate '-'
  else if isSeparator c.toLower then s.separate c.toLower
  else s

def slugify (name : Text) : Text := ((trim name).foldl State.push ([], false)).1.rdropWhile isSeparator

def isWord (c : Char) : Bool := c.isLower || c.isDigit

/-- Runs of `[a-z0-9]` that are joined by single separators. -/
inductive Slug : Text → Prop
  | single {c : Char} (hc : isWord c = true) : Slug [c]
  | word {t : Text} {c : Char} (ht : Slug t) (hc : isWord c = true) : Slug (t ++ [c])
  | joined {t : Text} {sep c : Char} (ht : Slug t) (hsep : isSeparator sep = true) (hc : isWord c = true) :
    Slug (t ++ [sep, c])

variable {t : Text} {c : Char} {s : State}

theorem isWord_iff : isWord c ↔ 97 ≤ c.toNat ∧ c.toNat ≤ 122 ∨ 48 ≤ c.toNat ∧ c.toNat ≤ 57 := by
  change (decide (97 ≤ c.val) && decide (c.val ≤ 122) || decide (48 ≤ c.val) && decide (c.val ≤ 57)) ↔ _
  simp only [Bool.or_eq_true, Bool.and_eq_true, decide_eq_true_eq, UInt32.le_iff_toNat_le]
  rfl

theorem isUpper_iff : c.isUpper ↔ 65 ≤ c.toNat ∧ c.toNat ≤ 90 := by
  change decide (65 ≤ c.val ∧ c.val ≤ 90) ↔ _
  rw [decide_eq_true_eq, UInt32.le_iff_toNat_le, UInt32.le_iff_toNat_le]
  rfl

theorem isWord_toLower (h : c.toLower.isAlphanum) : isWord c.toLower := by
  by_cases hupper : c.isUpper
  · exact (Bool.or_eq_true _ _).mpr (.inl (isLower_toLower hupper))
  · rw [toLower_of_not_isUpper hupper] at h ⊢
    rw [isUpper_iff] at hupper
    rw [isAlphanum_iff] at h
    rw [isWord_iff]
    omega

theorem push_word (hc : isWord c) : s.push c = (s.1 ++ [c], false) := by
  rw [isWord_iff] at hc
  have hupper : ¬c.isUpper := by
    rw [isUpper_iff]
    omega
  rw [State.push, toLower_of_not_isUpper hupper, if_pos (isAlphanum_iff.mpr (hc.imp_left .inr))]

theorem isSeparator_iff : isSeparator c ↔ c = '.' ∨ c = '_' ∨ c = '-' := by simp [isSeparator]

theorem separator_plain (hc : isSeparator c) :
    (c.toLower = c ∧ ¬c.isAlphanum ∧ ¬isWhitespace c) ∧ Visible c ∧ isWord c = false := by
  rcases isSeparator_iff.mp hc with rfl | rfl | rfl <;> decide

theorem push_separator (hc : isSeparator c) (ht : t ≠ []) : State.push (t, false) c = (t ++ [c], true) := by
  obtain ⟨hlower, halphanum, hblank⟩ := (separator_plain hc).1
  rw [State.push, hlower, if_neg halphanum, if_neg hblank, if_pos hc, State.separate, if_pos ⟨rfl, ht⟩]

theorem Slug.ne_nil (h : Slug t) : t ≠ [] := by cases h <;> simp

theorem Slug.visible (h : Slug t) : ∀ c ∈ t, Visible c := by
  have hword : ∀ c, isWord c → Visible c := fun c hc => by
    rw [isWord_iff] at hc
    rw [Visible]
    omega
  induction h with
  | single hc => simpa using hword _ hc
  | word ht hc ih => simpa [or_imp, forall_and] using ⟨ih, hword _ hc⟩
  | joined ht hsep hc ih => simpa [or_imp, forall_and] using ⟨ih, (separator_plain hsep).2.1, hword _ hc⟩

theorem Slug.rdropWhile (h : Slug t) : t.rdropWhile isSeparator = t := by
  have hword : ∀ c, isWord c → ¬isSeparator c := by
    intro c hc hsep
    rw [(separator_plain hsep).2.2] at hc
    cases hc
  cases h with
  | single hc => exact rdropWhile_concat_neg _ [] _ (hword _ hc)
  | word ht hc => exact rdropWhile_concat_neg _ _ _ (hword _ hc)
  | joined ht hsep hc =>
    rw [append_cons]
    exact rdropWhile_concat_neg _ _ _ (hword _ hc)

/-- What the loop has made: nothing, a slug, or a slug with a separator after it. -/
inductive Begun : State → Prop
  | empty (sep : Bool) : Begun ([], sep)
  | slug {t : Text} (ht : Slug t) : Begun (t, false)
  | separated {t : Text} {c : Char} (ht : Slug t) (hc : isSeparator c = true) : Begun (t ++ [c], true)

theorem Begun.separate (h : Begun s) (hc : isSeparator c) : Begun (s.separate c) := by
  rw [State.separate]
  cases h with
  | empty sep =>
    rw [if_neg (by simp)]
    exact .empty true
  | slug ht =>
    rw [if_pos ⟨rfl, ht.ne_nil⟩]
    exact .separated ht hc
  | separated ht hd =>
    rw [if_neg (by simp)]
    exact .separated ht hd

theorem Begun.push (h : Begun s) (c : Char) : Begun (s.push c) := by
  rw [State.push]
  split_ifs with hword hblank hsep
  · have hword := isWord_toLower hword
    cases h with
    | empty sep => exact .slug (.single hword)
    | slug ht => exact .slug (ht.word hword)
    | separated ht hd =>
      rw [append_assoc]
      exact .slug (ht.joined hd hword)
  · exact h.separate (by decide)
  · exact h.separate hsep
  · exact h

theorem Begun.foldl (h : Begun s) (name : Text) : Begun (name.foldl State.push s) := by
  induction name generalizing s with
  | nil => exact h
  | cons c name ih => exact ih (h.push c)

theorem Begun.rdropWhile (h : Begun s) : s.1.rdropWhile isSeparator = [] ∨ Slug (s.1.rdropWhile isSeparator) := by
  cases h with
  | empty sep => exact .inl rfl
  | slug ht =>
    rw [ht.rdropWhile]
    exact .inr ht
  | separated ht hc =>
    rw [rdropWhile_concat_pos _ _ _ hc, ht.rdropWhile]
    exact .inr ht

theorem Slug.foldl (h : Slug t) : t.foldl State.push ([], false) = (t, false) := by
  induction h with
  | single hc => exact push_word hc
  | word ht hc ih => rw [foldl_append, ih, foldl_cons, foldl_nil, push_word hc]
  | joined ht hsep hc ih =>
    rw [foldl_append, ih, foldl_cons, foldl_cons, foldl_nil, push_separator hsep ht.ne_nil, push_word hc, append_assoc]
    rfl

/-- **Slugs.** What `slugify` returns is empty or a slug, and it is its own slug. -/
theorem slugify_stable (name : Text) :
    (slugify name = [] ∨ Slug (slugify name)) ∧ slugify (slugify name) = slugify name := by
  have hshape : slugify name = [] ∨ Slug (slugify name) := ((Begun.empty false).foldl (trim name)).rdropWhile
  refine ⟨hshape, ?_⟩
  rcases hshape with hnil | hslug
  · rw [hnil]
    rfl
  · rw [slugify, trim_eq_self hslug.visible, hslug.foldl, hslug.rdropWhile]

end Persea.Slugify
