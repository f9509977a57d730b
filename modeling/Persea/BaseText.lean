import Mathlib.Data.List.DropRight
import Mathlib.Data.List.Sort
import Mathlib.Tactic

/-! Texts as lists of characters: cutting at a separator, words that go on after a separator, blanks, lines,
the order of texts, decimal and hexadecimal numerals, the wildcards of SQL's `LIKE`, and respelling letter by letter. -/

namespace Base

open List Option

abbrev Text := List Char

instance : Coe String Text := ⟨String.toList⟩

instance instLawfulBEqText : LawfulBEq Text := instLawfulBEq

namespace Text

variable {α : Type} [DecidableEq α]

/-! ### Cutting at a separator -/

/-- What stands before and after the first separator (`find`, `split_once`, `position`). -/
def splitOnce (sep : α) : List α → Option (List α × List α)
  | [] => none
  | c :: rest =>
    if c = sep then some ([], rest)
    else (splitOnce sep rest).map fun (before, after) => (c :: before, after)

variable {sep : α} {s before after name beginning : List α} {c : Char}

theorem splitOnce_eq_none : splitOnce sep s = none ↔ sep ∉ s := by
  induction s with
  | nil => simp [splitOnce]
  | cons c s ih =>
    rw [splitOnce]
    by_cases hc : c = sep
    · simp [hc]
    · simp [hc, ih, Ne.symm hc]

theorem splitOnce_append (hsep : sep ∉ before) (after : List α) :
    splitOnce sep (before ++ sep :: after) = some (before, after) := by
  induction before with
  | nil => simp [splitOnce]
  | cons c before ih =>
    have hc : c ≠ sep := fun h => hsep (h ▸ mem_cons_self)
    rw [cons_append, splitOnce, if_neg hc, ih fun h => hsep (mem_cons_of_mem c h)]
    rfl

theorem splitOnce_eq_some : splitOnce sep s = some (before, after) ↔ s = before ++ sep :: after ∧ sep ∉ before := by
  constructor
  · intro h
    have hmem : sep ∈ s := by
      by_contra hnot
      rw [splitOnce_eq_none.mpr hnot] at h
      contradiction
    obtain ⟨left, right, hs, hleft⟩ := eq_append_cons_of_mem hmem
    rw [hs, splitOnce_append hleft] at h
    simp only [some.injEq, Prod.mk.injEq] at h
    rw [← h.1, ← h.2]
    exact ⟨hs, hleft⟩
  · rintro ⟨rfl, hbefore⟩
    exact splitOnce_append hbefore after

omit [DecidableEq α] in
theorem append_cut_inj {p : α → Prop} {a b x y : List α} {s t : α} (ha : ∀ c ∈ a, ¬p c) (hb : ∀ c ∈ b, ¬p c)
    (hs : p s) (ht : p t) (h : a ++ s :: x = b ++ t :: y) : a = b ∧ s :: x = t :: y := by
  induction a generalizing b with
  | nil =>
    cases b with
    | nil => exact ⟨rfl, h⟩
    | cons d b =>
      rw [nil_append, cons_append, cons.injEq] at h
      exact absurd (h.1 ▸ hs) (hb d mem_cons_self)
  | cons c a ih =>
    cases b with
    | nil =>
      rw [nil_append, cons_append, cons.injEq] at h
      exact absurd (h.1 ▸ ht) (ha c mem_cons_self)
    | cons d b =>
      rw [cons_append, cons_append, cons.injEq] at h
      obtain ⟨rfl, hrest⟩ := ih (fun e he => ha e (mem_cons_of_mem c he))
        (fun e he => hb e (mem_cons_of_mem d he)) h.2
      exact ⟨by rw [h.1], hrest⟩

theorem split_induction (sep : α) {motive : List α → Prop} (whole : ∀ s, sep ∉ s → motive s)
    (cut : ∀ before after, sep ∉ before → motive after → motive (before ++ sep :: after)) (s : List α) :
    motive s := by
  induction hlen : s.length using Nat.strong_induction_on generalizing s with
  | _ n ih =>
    by_cases hsep : sep ∈ s
    · obtain ⟨before, after, rfl, hbefore⟩ := eq_append_cons_of_mem hsep
      rw [length_append, length_cons] at hlen
      exact cut before after hbefore (ih after.length (by omega) after rfl)
    · exact whole s hsep

theorem not_mem_of_mem_splitOn {piece : List α} (h : piece ∈ s.splitOn sep) : sep ∉ piece := by
  induction s using split_induction sep with
  | whole s hsep =>
    rw [splitOn_eq_singleton hsep, mem_singleton] at h
    rwa [h]
  | cut before after hbefore ih =>
    rw [splitOn_append_cons_self, splitOn_eq_singleton hbefore, singleton_append, mem_cons] at h
    rcases h with rfl | h
    · exact hbefore
    · exact ih h

theorem mem_of_mem_splitOn {sep c : α} {s : List α} (h : c ∈ s) : c = sep ∨ ∃ piece ∈ s.splitOn sep, c ∈ piece := by
  induction s using split_induction sep with
  | whole s hsep => exact .inr ⟨s, by rw [splitOn_eq_singleton hsep]; exact mem_cons_self, h⟩
  | cut before after hbefore ih =>
    rw [splitOn_append_cons_self, splitOn_eq_singleton hbefore, singleton_append]
    rcases mem_append.mp h with h | h
    · exact .inr ⟨before, mem_cons_self, h⟩
    · rcases mem_cons.mp h with rfl | h
      · exact .inl rfl
      · rcases ih h with hc | ⟨piece, hpiece, hc⟩
        · exact .inl hc
        · exact .inr ⟨piece, mem_cons_of_mem _ hpiece, hc⟩

omit [DecidableEq α] in
theorem infix_append_iff {word : List α} (hbefore : sep ∉ before) :
    sep :: word <:+: before ++ after ↔ sep :: word <:+: after := by
  induction before with
  | nil => rfl
  | cons c before ih =>
    have hc : sep ≠ c := fun h => hbefore (h ▸ mem_cons_self)
    rw [cons_append, infix_cons_iff, ih fun h => hbefore (mem_cons_of_mem c h), cons_prefix_cons]
    exact or_iff_right fun h => hc h.1

theorem mem_dropLast_splitOn_iff {piece : List α} (hpiece : sep ∉ piece) :
    piece ∈ (s.splitOn sep).dropLast ↔ piece ++ [sep] <+: s ∨ sep :: (piece ++ [sep]) <:+: s := by
  induction s using split_induction sep with
  | whole s hsep =>
    rw [splitOn_eq_singleton hsep]
    constructor
    · simp
    · rintro (h | h)
      · exact absurd (h.subset (by simp)) hsep
      · exact absurd (h.subset (by simp)) hsep
  | cut before after hbefore ih =>
    have hfront : piece ++ [sep] <+: before ++ sep :: after ↔ piece = before := by
      constructor
      · rintro ⟨rest, h⟩
        rw [append_assoc, singleton_append] at h
        have hcut := congrArg (splitOnce sep) h
        rw [splitOnce_append hpiece, splitOnce_append hbefore] at hcut
        exact (Prod.mk.inj (some.inj hcut)).1
      · rintro rfl
        exact ⟨after, by simp⟩
    rw [splitOn_append_cons_self, splitOn_eq_singleton hbefore, singleton_append,
      dropLast_cons_of_ne_nil (splitOn_ne_nil _ _), mem_cons, ih, hfront, infix_append_iff hbefore,
      infix_cons_iff, cons_prefix_cons]
    simp only [true_and]

theorem splitOnce_length (h : splitOnce sep s = some (before, after)) : after.length < s.length := by
  rw [(splitOnce_eq_some.mp h).1, length_append, length_cons]
  omega

theorem splitOnce_some_append {left : List α} (h : splitOnce sep left = some (before, after)) (right : List α) :
    splitOnce sep (left ++ right) = some (before, after ++ right) := by
  obtain ⟨rfl, hbefore⟩ := splitOnce_eq_some.mp h
  rw [append_assoc, cons_append, splitOnce_append hbefore]

theorem count_splitOnce {buffer : List α} : buffer.count sep = match splitOnce sep buffer with
      | none => 0
      | some (_, rest) => rest.count sep + 1 := by
  induction buffer with
  | nil => rfl
  | cons b buffer ih =>
    rw [splitOnce]
    by_cases hb : b = sep
    · simp [hb]
    · rw [if_neg hb, count_cons_of_ne hb, ih]
      cases splitOnce sep buffer <;> rfl

/-- What stands before and after the last separator (`rsplit_once`). -/
def rsplitOnce (sep : α) (s : List α) : Option (List α × List α) :=
  (splitOnce sep s.reverse).map fun (after, before) => (before.reverse, after.reverse)

theorem rsplitOnce_eq_none : rsplitOnce sep s = none ↔ sep ∉ s := by
  rw [rsplitOnce, map_eq_none_iff, splitOnce_eq_none, mem_reverse]

theorem rsplitOnce_eq_some : rsplitOnce sep s = some (before, after) ↔ s = before ++ sep :: after ∧ sep ∉ after := by
  have hreverse : (s.reverse = after.reverse ++ sep :: before.reverse) ↔ s = before ++ sep :: after := by
    rw [reverse_eq_iff]
    simp
  constructor
  · intro h
    obtain ⟨⟨after', before'⟩, hsplit, heq⟩ := map_eq_some_iff.mp h
    simp only [Prod.mk.injEq] at heq
    obtain ⟨hs, hnot⟩ := splitOnce_eq_some.mp hsplit
    rw [← heq.1, ← heq.2]
    refine ⟨?_, by rwa [mem_reverse]⟩
    rw [reverse_eq_iff] at hs
    simpa using hs
  · rintro ⟨hs, hnot⟩
    have hsplit : splitOnce sep s.reverse = some (after.reverse, before.reverse) :=
      splitOnce_eq_some.mpr ⟨hreverse.mpr hs, by rwa [mem_reverse]⟩
    simp only [rsplitOnce, hsplit, map_some, reverse_reverse]

/-- The name is the beginning itself, or goes on after it with a separator. -/
def Continues (sep : α) (name beginning : List α) : Prop := name = beginning ∨ beginning ++ [sep] <+: name

instance (sep : α) (name beginning : List α) : Decidable (Continues sep name beginning) :=
  inferInstanceAs (Decidable (_ ∨ _))

omit [DecidableEq α] in
theorem continues_iff : Continues sep name beginning ↔ beginning ++ [sep] <+: name ++ [sep] := by
  rw [Continues, prefix_concat_iff, append_cancel_right_eq, eq_comm]

omit [DecidableEq α] in
theorem continues_append_left (head : List α) :
    Continues sep (head ++ name) (head ++ beginning) ↔ Continues sep name beginning := by
  rw [Continues, append_assoc, append_cancel_left_eq, prefix_append_right_inj, Continues]

omit [DecidableEq α] in
theorem continues_of_notMem (hname : sep ∉ name) : Continues sep name beginning ↔ name = beginning := by
  constructor
  · rintro (h | h)
    · exact h
    · exact absurd (h.subset (mem_append_right _ mem_cons_self)) hname
  · exact .inl

omit [DecidableEq α] in
theorem continues_sep_iff {head rest : List α} : Continues sep (head ++ sep :: rest) beginning ↔
      Continues sep head beginning ∨ ∃ more, beginning = head ++ sep :: more ∧ Continues sep rest more := by
  have hhead : head ++ [sep] <+: head ++ sep :: rest ++ [sep] := ⟨rest ++ [sep], by simp⟩
  have hafter : ∀ more, Continues sep (head ++ sep :: rest) (head ++ sep :: more) ↔ Continues sep rest more := by
    intro more
    rw [continues_append_left]
    exact continues_append_left [sep]
  constructor
  · intro h
    rcases prefix_or_prefix_of_prefix (continues_iff.mp h) hhead with hshort | hlong
    · exact .inl (continues_iff.mpr hshort)
    · rcases continues_iff.mpr hlong with heq | ⟨more, hmore⟩
      · exact .inl (.inl heq.symm)
      · obtain rfl : head ++ sep :: more = beginning := by simpa using hmore
        exact .inr ⟨more, rfl, (hafter more).mp h⟩
  · rintro (h | ⟨more, rfl, hmore⟩)
    · exact continues_iff.mpr ((continues_iff.mp h).trans hhead)
    · exact (hafter more).mpr hmore

omit [DecidableEq α] in
/-- **Where a beginning ends** in a name with a word that holds no separator: in what stands before the word, with
the word, or in what may stand after it. -/
theorem continues_word_iff {head word : List α} (hword : sep ∉ word) (rest : Option (List α)) :
    Continues sep (head ++ sep :: (word ++ (rest.map (sep :: ·)).getD [])) beginning ↔
      Continues sep head beginning ∨ beginning = head ++ sep :: word ∨
        ∃ last ∈ rest, ∃ more, beginning = head ++ sep :: (word ++ sep :: more) ∧ Continues sep last more := by
  rw [continues_sep_iff]
  cases rest with
  | none => simp [continues_of_notMem hword]
  | some last =>
    simp only [map_some, getD_some, continues_sep_iff, continues_of_notMem hword]
    constructor
    · rintro (h | ⟨more, rfl, rfl | ⟨more, rfl, hmore⟩⟩)
      · exact .inl h
      · exact .inr (.inl rfl)
      · exact .inr (.inr ⟨last, rfl, more, rfl, hmore⟩)
    · rintro (h | rfl | ⟨last', hlast, more, rfl, hmore⟩)
      · exact .inl h
      · exact .inr ⟨word, rfl, .inl rfl⟩
      · obtain rfl : last = last' := some.inj hlast
        exact .inr ⟨_, rfl, .inr ⟨more, rfl, hmore⟩⟩

def isWhitespace (c : Char) : Bool :=
  (9 ≤ c.toNat && c.toNat ≤ 13) || c.toNat ∈ [0x20, 0x85, 0xa0, 0x1680, 0x2028, 0x2029, 0x202f, 0x205f, 0x3000] ||
    (0x2000 ≤ c.toNat && c.toNat ≤ 0x200a)

def isControl (c : Char) : Bool := c.toNat < 32 || 127 ≤ c.toNat && c.toNat < 160

def trimEnd (s : Text) : Text := s.rdropWhile isWhitespace

def trim (s : Text) : Text := trimEnd (s.dropWhile isWhitespace)

def Visible (c : Char) : Prop := 33 ≤ c.toNat ∧ c.toNat < 127

instance : DecidablePred Visible := fun c => inferInstanceAs (Decidable (33 ≤ c.toNat ∧ c.toNat < 127))

theorem isWhitespace_of_visible (hc : Visible c) : isWhitespace c = false := by
  obtain ⟨hlow, hhigh⟩ := hc
  simp only [isWhitespace, mem_cons, not_mem_nil, or_false, Bool.or_eq_false_iff, Bool.and_eq_false_iff,
    decide_eq_false_iff_not]
  omega

theorem trimEnd_eq_self {s : Text} (h : ∀ c ∈ s, Visible c) : trimEnd s = s := by
  rw [trimEnd, rdropWhile_eq_self_iff]
  intro hne
  rw [isWhitespace_of_visible (h _ (getLast_mem hne))]
  decide

theorem trim_eq_self {s : Text} (h : ∀ c ∈ s, Visible c) : trim s = s := by
  have hfront : s.dropWhile isWhitespace = s := by
    cases s with
    | nil => rfl
    | cons c s => rw [dropWhile_cons_of_neg]; simp [isWhitespace_of_visible (h c mem_cons_self)]
  rw [trim, hfront, trimEnd_eq_self h]

theorem rdropWhile_of_not_mem {s : Text} (h : c ∉ s) : s.rdropWhile (· = c) = s := by
  rw [rdropWhile_eq_self_iff]
  intro hne hlast
  exact h (of_decide_eq_true hlast ▸ getLast_mem hne)

theorem trimEnd_append (first second : Text) :
    trimEnd (first ++ second) = if trimEnd second = [] then trimEnd first else first ++ trimEnd second := by
  simp only [trimEnd, List.rdropWhile, List.reverse_append, List.dropWhile_append, List.isEmpty_iff,
    List.reverse_eq_nil_iff]
  split_ifs
  · rfl
  · rw [List.reverse_append, List.reverse_reverse]

/-- The lines of a text (`str::lines`), without the `\n` or `\r\n` that ends them; the last one need not be ended. -/
def lines (text : Text) : List Text :=
  let pieces := text.splitOn '\n'
  let ended := pieces.dropLast.map fun line => if line.getLast? = some '\r' then line.dropLast else line
  ended ++ (pieces.getLast?.toList.filter (· ≠ []))

theorem lines_line {line : Text} (hline : '\n' ∉ line) (hreturn : line.getLast? ≠ some '\r') (rest : Text) :
    lines (line ++ '\n' :: rest) = line :: lines rest := by
  have hsplit : (line ++ '\n' :: rest).splitOn '\n' = line :: rest.splitOn '\n' := by
    rw [splitOn_append_cons_self, splitOn_eq_singleton hline]
    rfl
  obtain ⟨last, hlast⟩ := getLast?_isSome.mpr (splitOn_ne_nil '\n' rest) |> isSome_iff_exists.mp
  simp only [lines, hsplit, dropLast_cons_of_ne_nil (splitOn_ne_nil '\n' rest), map_cons,
    if_neg hreturn, getLast?_cons, hlast, getD_some, cons_append]

/-- The order of texts by code points, which is that of their UTF-8 bytes. -/
def lexLe (a b : Text) : Bool := !b.lex a fun x y => decide (x.toNat < y.toNat)

theorem lexLe_self (a : Text) : lexLe a a := by
  induction a with
  | nil => rfl
  | cons c a ih =>
    simp only [lexLe, lex, lt_irrefl, decide_false, beq_self_eq_true, Bool.true_and, Bool.false_or]
    exact ih

omit [DecidableEq α] in
theorem filter_insertionSort {r : α → α → Prop} [DecidableRel r] {p : α → Bool}
    (h : ∀ a b, p a → p b → r a b) (l : List α) :
    (l.insertionSort r).filter p = l.filter p := by
  have hsorted : (l.filter p).Pairwise r := by
    apply pairwise_of_forall_mem_list
    intro a ha b hb
    exact h a b (mem_filter.mp ha).2 (mem_filter.mp hb).2
  have hsub : (l.filter p).Sublist ((l.insertionSort r).filter p) := by
    have hkept := (sublist_insertionSort hsorted filter_sublist).filter p
    simpa only [List.filter_filter, Bool.and_self] using hkept
  have hlength : (l.filter p).length = ((l.insertionSort r).filter p).length :=
    ((perm_insertionSort r l).filter p).length_eq.symm
  exact (hsub.eq_of_length hlength).symm

def decimal (n : Nat) : Text := Nat.toDigits 10 n

theorem decimal_ne_nil (n : Nat) : decimal n ≠ [] := Nat.toDigits_ne_nil

theorem isDigit_of_mem_decimal {n : Nat} (h : c ∈ decimal n) : c.isDigit :=
  Nat.isDigit_of_mem_toDigits (by decide) (by decide) h

theorem not_mem_decimal (hc : c.isDigit = false) (n : Nat) : c ∉ decimal n := by
  intro h
  rw [isDigit_of_mem_decimal h] at hc
  exact absurd hc (by decide)

def eqIgnoreAsciiCase (a b : Text) : Bool := a.map Char.toLower = b.map Char.toLower

theorem isLower_toLower (h : c.isUpper) : c.toLower.isLower := by
  have hupper : c.val ≥ 'A'.val ∧ c.val ≤ 'Z'.val := of_decide_eq_true h
  have hval : c.toLower.val = c.val + 32 := congrArg Char.val (dif_pos hupper)
  have hrange : 65 ≤ c.val.toNat ∧ c.val.toNat ≤ 90 :=
    ⟨UInt32.le_iff_toNat_le.mp hupper.1, UInt32.le_iff_toNat_le.mp hupper.2⟩
  have hsum : (c.val + 32).toNat = c.val.toNat + 32 := by
    rw [UInt32.toNat_add]
    exact Nat.mod_eq_of_lt (by change c.val.toNat + 32 < 2 ^ 32; omega)
  have hlow : 97 ≤ c.val + 32 := UInt32.le_iff_toNat_le.mpr (by rw [hsum]; change 97 ≤ _; omega)
  have hhigh : c.val + 32 ≤ 122 := UInt32.le_iff_toNat_le.mpr (by rw [hsum]; change _ ≤ 122; omega)
  change (decide (97 ≤ c.toLower.val) && decide (c.toLower.val ≤ 122))
  rw [hval, decide_eq_true hlow, decide_eq_true hhigh, Bool.and_self]

theorem toLower_of_not_isUpper (h : ¬c.isUpper) : c.toLower = c := dif_neg fun hupper => h (decide_eq_true hupper)

theorem toLower_eq_iff {d : Char} (hd : d.isAlpha = false) : c.toLower = d ↔ c = d := by
  by_cases hupper : c.isUpper
  · -- the letter and the one it becomes are letters
    have hc : c.isAlpha := (Bool.or_eq_true _ _).mpr (.inl hupper)
    have hlower : c.toLower.isAlpha := (Bool.or_eq_true _ _).mpr (.inr (isLower_toLower hupper))
    exact ⟨fun h => by rw [h, hd] at hlower; contradiction, fun h => by rw [h, hd] at hc; contradiction⟩
  · rw [toLower_of_not_isUpper hupper]

theorem eqIgnoreAsciiCase_iff {a b : Text} :
    eqIgnoreAsciiCase a b ↔ a.map Char.toLower = b.map Char.toLower := decide_eq_true_iff

theorem eqIgnoreAsciiCase_takeWhile {a b : Text} {d : Char} (hd : d.isAlpha = false)
    (h : eqIgnoreAsciiCase a b) : eqIgnoreAsciiCase (a.takeWhile (· ≠ d)) (b.takeWhile (· ≠ d)) := by
  have hmap : ∀ t : Text, (t.takeWhile (· ≠ d)).map Char.toLower = (t.map Char.toLower).takeWhile (· ≠ d) := by
    intro t
    rw [takeWhile_map]
    congr 2
    funext c
    simp [toLower_eq_iff hd]
  rw [eqIgnoreAsciiCase_iff] at h ⊢
  rw [hmap, hmap, h]

theorem isAlphanum_iff : c.isAlphanum ↔
      (65 ≤ c.toNat ∧ c.toNat ≤ 90 ∨ 97 ≤ c.toNat ∧ c.toNat ≤ 122) ∨ 48 ≤ c.toNat ∧ c.toNat ≤ 57 := by
  change ((decide (65 ≤ c.val ∧ c.val ≤ 90) || (decide (97 ≤ c.val) && decide (c.val ≤ 122))) ||
    (decide (48 ≤ c.val) && decide (c.val ≤ 57))) ↔ _
  simp only [Bool.or_eq_true, Bool.and_eq_true, decide_eq_true_eq, UInt32.le_iff_toNat_le]
  rfl

theorem nil_mem_splitOn {sep : Char} {before after : Text}
    (h : before = [] ∨ before.getLast? = some sep ∨ after = []) : [] ∈ (before ++ sep :: after).splitOn sep := by
  rw [splitOn_append_cons_self, mem_append]
  rcases h with rfl | hlast | rfl
  · left
    simp
  · left
    obtain ⟨init, rfl⟩ := getLast?_eq_some_iff.mp hlast
    rw [splitOn_append_cons_self]
    simp
  · right
    simp

theorem intercalate_concat {sep : Text} {texts : List Text} (h : texts ≠ []) (text : Text) :
    sep.intercalate (texts ++ [text]) = sep.intercalate texts ++ sep ++ text := by
  induction texts with
  | nil => exact absurd rfl h
  | cons first rest ih =>
    cases rest with
    | nil => simp
    | cons second rest =>
      have hrest := ih (cons_ne_nil _ _)
      rw [cons_append, intercalate_cons_of_ne_nil (concat_ne_nil _ _), hrest, intercalate_cons_cons]
      simp only [append_assoc]

theorem intercalate_induction {P : Text → Prop} {sep : Text} {texts : List Text} (hnil : P []) (hsep : P sep)
    (happend : ∀ {a b}, P a → P b → P (a ++ b)) (h : ∀ text ∈ texts, P text) : P (sep.intercalate texts) := by
  induction texts with
  | nil => exact hnil
  | cons text texts ih =>
    obtain ⟨htext, htexts⟩ := forall_mem_cons.mp h
    cases texts with
    | nil => simpa using htext
    | cons next texts =>
      rw [intercalate_cons_cons]
      exact happend (happend htext hsep) (ih htexts)

theorem length_intercalate {texts : List Text} (h : texts ≠ []) :
    ([c].intercalate texts).length + 1 = (texts.map fun text => text.length + 1).sum := by
  induction texts with
  | nil => exact absurd rfl h
  | cons first rest ih =>
    cases rest with
    | nil => simp
    | cons second rest =>
      have hrest := ih (cons_ne_nil _ _)
      rw [map_cons, sum_cons, ← hrest, intercalate_cons_cons]
      simp only [length_append, length_singleton]
      omega

def hexDigits : Nat → Nat → Text
  | 0, _ => []
  | width + 1, n => hexDigits width (n / 16) ++ [Nat.digitChar (n % 16)]

theorem length_hexDigits (width n : Nat) : (hexDigits width n).length = width := by
  induction width generalizing n with
  | zero => rfl
  | succ width ih => rw [hexDigits, length_append, ih, length_singleton]

theorem isAlphanum_of_mem_hexDigits {width n : Nat} (h : c ∈ hexDigits width n) : c.isAlphanum := by
  induction width generalizing n with
  | zero => simp [hexDigits] at h
  | succ width ih =>
    have hdigit : ∀ d < 16, (Nat.digitChar d).isAlphanum := by decide
    rcases mem_append.mp h with h | h
    · exact ih h
    · rw [mem_singleton.mp h]
      exact hdigit _ (Nat.mod_lt _ (by decide))

/-- `LIKE` with a folding of letters: `%` stands for any text, `_` for any character. -/
def like (fold : Char → Char) : Text → Text → Bool
  | [], text => text.isEmpty
  | c :: pattern, text =>
    if c = '%' then text.tails.any fun rest => like fold pattern rest
    else
      match text with
      | [] => false
      | d :: text => (c = '_' || fold c = fold d) && like fold pattern text

def containing (needle : Text) : Text := '%' :: (needle ++ ['%'])

variable {fold : Char → Char}

theorem like_percent {pattern text rest : Text} (hrest : rest <:+ text) (h : like fold pattern rest) :
    like fold ('%' :: pattern) text := by
  unfold like
  rw [if_pos rfl]
  exact any_eq_true.mpr ⟨rest, (mem_tails _ _).mpr hrest, h⟩

theorem like_append {pattern text : Text} (h : like fold pattern text) (needle : Text) :
    like fold (needle ++ pattern) (needle ++ text) := by
  induction needle with
  | nil => exact h
  | cons c needle ih =>
    rw [cons_append, cons_append]
    by_cases hc : c = '%'
    · subst hc
      exact like_percent (suffix_cons _ _) ih
    · simp [like, hc, ih]

theorem like_containing (needle : Text) : like fold (containing needle) needle := by
  have hend : like fold ['%'] [] := like_percent suffix_rfl rfl
  have happend := like_append hend needle
  rw [append_nil] at happend
  exact like_percent suffix_rfl happend

/-- One letter of a word is written out as its spelling. -/
inductive Respells {α : Type} (spelling : α → List α) : List α → List α → Prop
  | letter (left : List α) (c : α) (right : List α) :
      Respells spelling (left ++ c :: right) (left ++ spelling c ++ right)

section

variable {α : Type} {spelling : α → List α}

theorem eqvGen_flatMap (left word : List α) :
    Relation.EqvGen (Respells spelling) (left ++ word) (left ++ word.flatMap spelling) := by
  induction word generalizing left with
  | nil => exact Relation.EqvGen.refl _
  | cons c word ih =>
    have hletter : Relation.EqvGen (Respells spelling) (left ++ c :: word) (left ++ spelling c ++ word) :=
      Relation.EqvGen.rel _ _ (Respells.letter left c word)
    have hrest := ih (left ++ spelling c)
    rw [append_assoc left (spelling c) (word.flatMap spelling)] at hrest
    exact Relation.EqvGen.trans _ _ _ hletter hrest

/-- **Equal spellings.** Where a spelling is spelled as itself, two words have one spelling exactly if writing letters
out and taking spellings back together turns one into the other. -/
theorem eqvGen_respells_iff (hspelling : ∀ c, (spelling c).flatMap spelling = spelling c) {a b : List α} :
    Relation.EqvGen (Respells spelling) a b ↔ a.flatMap spelling = b.flatMap spelling := by
  constructor
  · intro h
    induction h with
    | rel _ _ hstep =>
      obtain ⟨left, c, right⟩ := hstep
      simp only [flatMap_append, flatMap_cons, hspelling c, append_assoc]
    | refl => rfl
    | symm _ _ _ ih => exact ih.symm
    | trans _ _ _ _ _ ih₁ ih₂ => exact ih₁.trans ih₂
  · intro h
    have ha : Relation.EqvGen (Respells spelling) a (a.flatMap spelling) := eqvGen_flatMap [] a
    have hb : Relation.EqvGen (Respells spelling) b (b.flatMap spelling) := eqvGen_flatMap [] b
    rw [h] at ha
    exact ha.trans _ _ _ (hb.symm _ _)

end

end Text

end Base
