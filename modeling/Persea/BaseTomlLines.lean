import Persea.BaseTomlScan

/-! Lines of TOML: comments, a key with a number, a key with a string. A line that assigns a string is a statement where
a statement may begin, and completes none where the line before it has left a value open. -/

namespace Base.Toml

open List Option Reader Mode

variable (R : Reader)

variable {c : Char} {word : Text} {m : Mode} {key s : Text} {m' : Mode} {out : List Statement}

theorem isBlank_of_isBare (hc : isBare c) : isBlank c = false := by
  simp [isBlank, ne_of_isBare hc (d := ' ') (by decide), ne_of_isBare hc (d := '\t') (by decide)]

def IsKey (key : Text) : Prop := key ≠ [] ∧ key.all isBare = true

instance (key : Text) : Decidable (IsKey key) := inferInstanceAs (Decidable (_ ∧ _))

variable (ctx : Context) (q : Quote) (entries : Table) (outer : Context) {spelled : Text} (place : Place)
  (path : List Text) {words : Text} {digit marks : Nat}

theorem Reader.run_goes_on {mode : Text → Mode} (hword : word.all isBare)
    (hnext : ∀ begun c, isBare c → R.char (mode begun) c = (mode (begun ++ [c])).go) (begun : Text) :
    R.run (mode begun) word = (mode (begun ++ word)).go := by
  induction word generalizing begun with
  | nil => rw [append_nil, run_nil]
  | cons c word ih =>
    rw [all_cons, Bool.and_eq_true] at hword
    rw [run_cons, R.step_of_isPlain _ (isPlain_of_isBare hword.1), hnext begun c hword.1, go_andThen, ih hword.2,
      append_assoc]
    rfl

theorem Reader.run_begins {mode : Text → Mode} (hfirst : ∀ c, isBare c → R.char m c = (mode [c]).go)
    (hnext : ∀ begun c, isBare c → R.char (mode begun) c = (mode (begun ++ [c])).go) (hkey : IsKey key) :
    R.run m key = (mode key).go := by
  obtain ⟨hne, hbare⟩ := hkey
  cases key with
  | nil => exact absurd rfl hne
  | cons c word =>
    rw [all_cons, Bool.and_eq_true] at hbare
    rw [run_cons, R.step_of_isPlain _ (isPlain_of_isBare hbare.1), hfirst c hbare.1, go_andThen,
      R.run_goes_on hbare.2 hnext]
    rfl

theorem startKey_of_isBare (hc : isBare c) : startKey place path c = (bare place path [c]).go := by
  rw [startKey, if_neg (ne_of_isBare hc (by decide)), if_neg (ne_of_isBare hc (by decide)), if_pos hc]

theorem Reader.run_key {place : Place} {path : List Text}
    (hm : ∀ c, isBare c → R.char m c = startKey place path c) (hkey : IsKey key) :
    R.run m key = (bare place path key).go := by
  refine R.run_begins (fun c hc => (hm c hc).trans (startKey_of_isBare place path hc)) (fun begun c hc => ?_) hkey
  rw [char, if_pos hc]

theorem Reader.char_start (hc : isBare c) : R.char .start c = startKey .statement [] c := by
  rw [char, isBlank_of_isBare hc, if_neg (by decide), if_neg (ne_of_isBare hc (by decide)),
    if_neg (ne_of_isBare hc (by decide))]

theorem Reader.char_pair (hc : isBare c) :
    R.char (.pair entries outer) c = startKey (.pair entries outer) [] c := by
  rw [char, isBlank_of_isBare hc, if_neg (by decide), if_neg (ne_of_isBare hc (by decide)),
    if_neg (ne_of_isBare hc (by decide))]

def Spells (spelled s : Text) : Prop :=
  ∀ (R : Reader) (ctx : Context) (word : Text),
    R.run (.text (.line ctx) .basic word) spelled = (text (.line ctx) .basic (word ++ s)).go

theorem spells_nil : Spells [] [] := by
  intro R ctx word
  rw [run_nil, append_nil]

theorem Spells.append {first second t : Text} (hfirst : Spells first s) (hsecond : Spells second t) :
    Spells (first ++ second) (s ++ t) := by
  intro R ctx word
  rw [R.run_append_go (hfirst R ctx word), hsecond R ctx (word ++ s), append_assoc]

def IsVerbatim (c : Char) : Prop := isPlain c = true ∧ c ≠ '"' ∧ c ≠ '\\'

instance (c : Char) : Decidable (IsVerbatim c) := inferInstanceAs (Decidable (_ ∧ _))

theorem spells_verbatim (hc : IsVerbatim c) : Spells [c] [c] := by
  intro R ctx word
  obtain ⟨hplain, hquote, hslash⟩ := hc
  rw [run_cons, R.step_of_isPlain _ hplain, char, Body.char, if_neg (show c ≠ Quote.basic.mark from hquote),
    if_neg fun h => hslash h.2, if_pos hplain, go_andThen, run_nil]

theorem spells_self (hs : ∀ c ∈ s, IsVerbatim c) : Spells s s := by
  induction s with
  | nil => exact spells_nil
  | cons c s ih =>
    rw [forall_mem_cons] at hs
    exact (spells_verbatim hs.1).append (ih hs.2)

theorem Reader.run_backslash (word rest : Text) :
    R.run (.text (.line ctx) .basic word) ('\\' :: rest) = R.run (.escape (.line ctx) word) rest := by
  rw [run_cons, R.step_of_isPlain _ (by decide)]
  exact go_andThen _ _

theorem spells_escape {d : Char} (hc : isPlain c) (h : unescape c = some d) : Spells ['\\', c] [d] := by
  intro R ctx word
  have hletter : R.char (.escape (.line ctx) word) c = (text (.line ctx) .basic (word ++ [d])).go := by
    simp only [char, Body.escaped, h, Body.resume]
  rw [run_backslash, run_cons, R.step_of_isPlain _ hc, hletter, go_andThen, run_nil]

theorem isPlain_of_hexValue (h : hexValue c = some digit) : isPlain c := by
  by_cases hdigit : c.isDigit
  · exact isPlain_of_isBare (by simp [isBare, Char.isAlphanum, hdigit])
  · rw [hexValue, if_neg hdigit] at h
    simp only [isPlain, Bool.or_eq_true, Bool.and_eq_true, decide_eq_true_eq]
    split_ifs at h <;> omega

theorem Reader.run_hexDigit (word : Text) (left code : Nat) (h : hexValue c = some digit) (hleft : 1 < left)
    (rest : Text) :
    R.run (.hex (.line ctx) word left code) (c :: rest) =
      R.run (.hex (.line ctx) word (left - 1) (code * 16 + digit)) rest := by
  rw [run_cons, R.step_of_isPlain _ (isPlain_of_hexValue h), char, Body.hexDigit, h]
  simp only [bind_some, if_pos hleft, go_andThen]

theorem spells_hex {a b d : Char} {x y z w : Nat} (ha : hexValue a = some x) (hb : hexValue b = some y)
    (hc : hexValue c = some z) (hd : hexValue d = some w)
    (hvalid : (((0 * 16 + x) * 16 + y) * 16 + z) * 16 + w < 0xd800) :
    Spells ['\\', 'u', a, b, c, d] [Char.ofNat ((((0 * 16 + x) * 16 + y) * 16 + z) * 16 + w)] := by
  intro R ctx word
  have hu : R.step (.escape (.line ctx) word) 'u' = (hex (.line ctx) word 4 0).go := rfl
  rw [run_backslash, run_cons, hu, go_andThen, R.run_hexDigit ctx word 4 _ ha (by decide),
    R.run_hexDigit ctx word 3 _ hb (by decide), R.run_hexDigit ctx word 2 _ hc (by decide), run_cons,
    R.step_of_isPlain _ (isPlain_of_hexValue hd), char, Body.hexDigit, hd]
  simp only [bind_some]
  rw [if_neg (by decide), if_pos (.inl hvalid), go_andThen, run_nil]
  rfl

/-! ### Lines that assign -/

def textLine (key spelled : Text) : Text := key ++ ' ' :: '=' :: ' ' :: '"' :: (spelled ++ ['"', '\n'])

def scalarLine (key word : Text) : Text := key ++ ' ' :: '=' :: ' ' :: (word ++ ['\n'])

def Begins (spelled : Text) : Prop := ∀ c ∈ spelled.head?, isPlain c = true ∧ c ≠ '"'

theorem Next.andThen_go (r : Next) : (r.andThen fun m => m.go) = r := by
  rcases r with _ | ⟨m, out⟩
  · rfl
  · simp [Next.some_andThen, go]

theorem Reader.run_step (h : R.step m c = m'.go) (rest : Text) : R.run m (c :: rest) = R.run m' rest := by
  rw [run_cons, h, go_andThen]

theorem Reader.run_equals (key rest : Text) :
    R.run (.bare .statement [] key) (' ' :: '=' :: ' ' :: rest) = R.run (.value (.statement [] key)) rest :=
  (R.run_step rfl _).trans ((R.run_step rfl _).trans (R.run_step rfl _))

theorem Reader.run_equals_pair (key rest : Text) :
    R.run (.bare (.pair entries outer) [] key) (' ' :: '=' :: ' ' :: rest) =
      R.run (.value (.pair entries [] key outer)) rest :=
  (R.run_step rfl _).trans ((R.run_step rfl _).trans (R.run_step rfl _))

theorem Reader.finish_newline (node : Node) :
    ((finish ctx node).andThen fun m => R.run m ['\n']) = (finish ctx node).andThen lineAfter := by
  cases ctx with
  | statement path key => rfl
  | array items outer => rfl
  | pair entries path key outer =>
    rw [finish]
    cases insert path key node entries <;> rfl

theorem Spells.of_nil (h : Spells [] s) (R : Reader) : s = [] := by
  have hrun := h R (.statement [] []) []
  rw [run_nil, go, go, some.injEq, Prod.mk.injEq, text.injEq] at hrun
  exact hrun.1.2.2.symm

theorem Reader.run_quote (h : Spells spelled s) (hbegins : Begins spelled) :
    R.run (.quote ctx .basic) (spelled ++ ['"', '\n']) = (finish ctx (.text s)).andThen lineAfter := by
  cases spelled with
  | nil =>
    have hmark : R.step (.quote ctx .basic) '"' = (twoQuotes ctx .basic).go := rfl
    have hnewline : R.step (.twoQuotes ctx .basic) '\n' = (finish ctx (.text [])).andThen lineAfter := rfl
    rw [h.of_nil R, nil_append, run_cons, hmark, go_andThen, run_cons, hnewline]
    exact Next.andThen_go _
  | cons c rest =>
    obtain ⟨hplain, hquote⟩ := hbegins c rfl
    -- past the opening mark, a string that is not empty is read as if it had begun before
    have hfirst : R.step (.quote ctx .basic) c = R.step (.text (.line ctx) .basic []) c := by
      rw [R.step_of_isPlain _ hplain, R.step_of_isPlain _ hplain, char, char,
        if_neg (show c ≠ Quote.basic.mark from hquote)]
    have hclose : R.step (.text (.line ctx) .basic s) '"' = finish ctx (.text s) := rfl
    rw [cons_append, run_cons, hfirst, ← run_cons, ← cons_append, R.run_append_go (h R ctx []),
      nil_append, run_cons, hclose, R.finish_newline]

/-- **A key with a string is one statement.** -/
theorem Reader.run_textLine (hkey : IsKey key) (h : Spells spelled s) (hbegins : Begins spelled) :
    R.run .start (textLine key spelled) = some (.start, [.assign [] key (.text s)]) := by
  have hopen : R.step (.value (.statement [] key)) '"' = (quote (.statement [] key) .basic).go := rfl
  rw [textLine, R.run_append_go (R.run_key (fun c hc => R.char_start hc) hkey), run_equals, run_cons, hopen,
    go_andThen, R.run_quote _ h hbegins]
  rfl

theorem isToken_of_isBare (hc : isBare c) : isToken c := by simp [isToken, hc]

theorem startValue_of_isBare (hc : isBare c) : startValue ctx c = (token ctx [c]).go := by
  rw [startValue, if_neg (ne_of_isBare hc (by decide)), if_neg (ne_of_isBare hc (by decide)),
    if_neg (ne_of_isBare hc (by decide)), if_neg (ne_of_isBare hc (by decide)), if_pos (isToken_of_isBare hc)]

theorem Reader.run_word {ctx : Context} (hm : ∀ c, isBare c → R.char m c = startValue ctx c)
    (hword : IsKey word) : R.run m word = (token ctx word).go := by
  refine R.run_begins (fun c hc => (hm c hc).trans (startValue_of_isBare ctx hc)) (fun begun c hc => ?_) hword
  rw [char, if_pos (isToken_of_isBare hc)]

theorem Reader.char_value (hc : isBare c) : R.char (.value ctx) c = startValue ctx c := by
  rw [char, isBlank_of_isBare hc, if_neg (by decide)]

theorem isKey_decimal (n : Nat) : IsKey (Text.decimal n) := by
  refine ⟨Text.decimal_ne_nil n, List.all_eq_true.mpr fun c hc => ?_⟩
  simp [isBare, Char.isAlphanum, Text.isDigit_of_mem_decimal hc]

theorem Reader.run_scalarLine (hkey : IsKey key) {n : Nat} (hn : n < 2 ^ 63) :
    R.run .start (scalarLine key (Text.decimal n)) = some (.start, [.assign [] key (.scalar (Text.decimal n))]) := by
  have hnewline : R.step (.token (.statement [] key) (Text.decimal n)) '\n' =
      some (.start, [.assign [] key (.scalar (Text.decimal n))]) := by
    change (R.finishToken _ _).andThen lineAfter = _
    rw [finishToken, if_pos (R.scalar_decimal n hn)]
    rfl
  rw [scalarLine, R.run_append_go (R.run_key (fun c hc => R.char_start hc) hkey), run_equals,
    R.run_append_go (R.run_word (fun c hc => R.char_value _ hc) (isKey_decimal n)), run_cons, hnewline]
  exact Next.andThen_go _

theorem Reader.run_comment {back : Mode} (h : words.all isPlain) :
    R.run (.comment back) words = (comment back).go := by
  induction words with
  | nil => rfl
  | cons c words ih =>
    rw [all_cons, Bool.and_eq_true] at h
    rw [run_cons, R.step_of_isPlain _ h.1, char, if_pos h.1, go_andThen, ih h.2]

theorem Reader.run_commentLine (h : words.all isPlain) :
    R.run .start ('#' :: (words ++ ['\n'])) = start.go := by
  have hmark : R.step .start '#' = (comment .start).go := rfl
  rw [run_cons, hmark, go_andThen, R.run_append_go (R.run_comment h)]
  rfl

/-- A place that a line break leads to: between statements, in an array or an inline table, or in a string. -/
def Mode.AtLine : Mode → Prop
  | .start => True
  | .element _ _ => True
  | .afterElement _ _ => True
  | .pair _ _ => True
  | .afterPair _ _ => True
  | .multi _ _ _ marks => marks = 0
  | .fold _ _ => True
  | _ => False

theorem atLine_of_lineAfter (h : lineAfter m = some (m', out)) : m'.AtLine := by
  cases m <;> first | contradiction | (cases h; exact trivial)

theorem atLine_of_andThen_lineAfter {r : Next} (h : r.andThen lineAfter = some (m, out)) : m.AtLine := by
  obtain ⟨m', first, more, -, hline, -⟩ := Next.andThen_eq_some.mp h
  exact atLine_of_lineAfter hline

theorem Reader.atLine_of_newline {lineBreak : Text} (h : R.newline lineBreak m = some (m', out)) : m'.AtLine := by
  cases m with
  | comment back => exact atLine_of_lineAfter h
  | token ctx word | date ctx word | twoQuotes ctx q => exact atLine_of_andThen_lineAfter h
  | multiOpen ctx q =>
    cases h
    exact rfl
  | multi ctx q word marks =>
    rw [newline] at h
    split_ifs at h
    · cases h
      exact rfl
    · exact atLine_of_andThen_lineAfter h
  | escape body word =>
    cases body with
    | key place path => contradiction
    | line ctx => contradiction
    | multi ctx =>
      cases h
      exact trivial
  | foldStart ctx word | fold ctx word =>
    cases h
    exact trivial
  | _ => first | contradiction | (cases h; exact trivial)

theorem Reader.atLine_of_step (h : R.step m '\n' = some (m', out)) : m'.AtLine := by
  cases m <;> simp only [step, if_true] at h <;> exact R.atLine_of_newline h

theorem Reader.close_of_atLine (hm : m.AtLine) : R.close m = some out ↔ m = .start ∧ out = [] := by
  cases m with
  | start => exact ⟨fun h => ⟨rfl, by cases h; rfl⟩, fun h => by rw [h.2]; rfl⟩
  | multi ctx q word marks =>
    obtain rfl : marks = 0 := hm
    exact ⟨fun h => by contradiction, fun h => by cases h.1⟩
  | _ => first | exact hm.elim | exact ⟨fun h => by contradiction, fun h => by cases h.1⟩

theorem Reader.statements_line {text : Text} :
    R.statements (text ++ ['\n']) = some out ↔ R.run .start (text ++ ['\n']) = some (.start, out) := by
  rw [statements, Option.bind_eq_some_iff]
  constructor
  · rintro ⟨⟨m, first⟩, hrun, hout⟩
    obtain ⟨rest, hclose, rfl⟩ := map_eq_some_iff.mp hout
    have hline : m.AtLine := by
      rw [run_append, Next.andThen_eq_some] at hrun
      obtain ⟨m', before, more, -, hstep, -⟩ := hrun
      rw [run_cons, Next.andThen_eq_some] at hstep
      obtain ⟨m'', _, _, hstep, hend, -⟩ := hstep
      obtain ⟨rfl, -⟩ := Prod.mk.inj (some.inj hend)
      exact R.atLine_of_step hstep
    obtain ⟨rfl, rfl⟩ := (R.close_of_atLine hline).mp hclose
    rw [hrun, append_nil]
  · intro hrun
    have hclose : R.close .start = some [] := rfl
    refine ⟨(.start, out), hrun, ?_⟩
    dsimp only
    rw [hclose, map_some, append_nil]

theorem isVerbatim_of_isBare (hc : isBare c) : IsVerbatim c :=
  ⟨isPlain_of_isBare hc, ne_of_isBare hc (by decide), ne_of_isBare hc (by decide)⟩

theorem begins_of_isVerbatim (hs : ∀ c ∈ s, IsVerbatim c) : Begins s := by
  intro c hc
  obtain ⟨hplain, hquote, -⟩ := hs c (mem_of_mem_head? hc)
  exact ⟨hplain, hquote⟩

theorem Reader.char_element (items : List Node) (outer : Context) (hc : isBare c) :
    R.char (.element items outer) c = startValue (.array items outer) c := by
  rw [char, isBlank_of_isBare hc, if_neg (by decide), if_neg (ne_of_isBare hc (by decide)),
    if_neg (ne_of_isBare hc (by decide))]

theorem Reader.run_element {items : List Node} {outer : Context} (hkey : IsKey key)
    (hdate : isDate key = false) (rest : Text) :
    R.run (.element items outer) (key ++ ' ' :: '=' :: rest) = none := by
  have hblank : R.step (.token (.array items outer) key) ' ' =
      (R.finishToken (.array items outer) key).andThen (after · ' ') := by
    rw [R.step_of_isPlain _ (by decide), char, if_neg (by decide), if_neg (by simp [hdate])]
  rw [R.run_append_go (R.run_word (fun c hc => R.char_element items outer hc) hkey), run_cons, hblank, finishToken]
  split_ifs
  · rfl
  · rfl

theorem after_of_isBare (m : Mode) (hc : isBare c) : after m c = none := by
  have hne : ∀ d, isBare d = false → c ≠ d := fun d hd => ne_of_isBare hc hd
  cases m <;> simp [after, isBlank_of_isBare hc, hne '#' (by decide), hne ',' (by decide), hne ']' (by decide),
    hne '\x7d' (by decide)]

theorem Reader.run_after (hm : ∀ c, R.char m c = after m c) (hkey : IsKey key) (rest : Text) :
    R.run m (key ++ rest) = none := by
  obtain ⟨hne, hbare⟩ := hkey
  cases key with
  | nil => exact absurd rfl hne
  | cons c word =>
    rw [all_cons, Bool.and_eq_true] at hbare
    rw [cons_append, run_cons, R.step_of_isPlain _ (isPlain_of_isBare hbare.1), hm, after_of_isBare m hbare.1,
      Next.none_andThen]

theorem Reader.step_multi (word : Text) (hmarks : marks < 3) (hplain : isPlain c)
    (hmark : c ≠ q.mark) (hslash : c ≠ '\\') :
    ∃ longer, R.step (.multi ctx q word marks) c = (multi ctx q longer 0).go := by
  refine ⟨word ++ List.replicate marks q.mark ++ [c], ?_⟩
  rw [R.step_of_isPlain _ hplain, char, if_neg hmark, if_pos hmarks, multiChar, if_neg hmark,
    if_neg fun h => hslash h.2, if_pos hplain]

theorem Reader.run_multi (hne : s ≠ []) (hs : ∀ c ∈ s, isPlain c ∧ c ≠ q.mark ∧ c ≠ '\\')
    (word : Text) (hmarks : marks < 3) :
    ∃ longer, R.run (.multi ctx q word marks) s = (multi ctx q longer 0).go := by
  induction s generalizing word marks with
  | nil => exact absurd rfl hne
  | cons c s ih =>
    rw [forall_mem_cons] at hs
    obtain ⟨longer, hstep⟩ := R.step_multi ctx q word hmarks hs.1.1 hs.1.2.1 hs.1.2.2
    rw [run_cons, hstep, go_andThen]
    by_cases hend : s = []
    · exact ⟨longer, by rw [hend, run_nil]⟩
    · exact ih hend hs.2 longer (by decide)

theorem Reader.step_multi_quote (word : Text) :
    ∃ longer marks, marks < 3 ∧ R.step (.multi ctx q word 0) '"' = (multi ctx q longer marks).go := by
  cases q with
  | basic => exact ⟨word, 1, by decide, rfl⟩
  | literal => exact ⟨word ++ [] ++ ['"'], 0, by decide, rfl⟩

theorem Reader.run_multi_textLine (word : Text) (hkey : IsKey key) (hne : s ≠ [])
    (hs : ∀ c ∈ s, isBare c) :
    ∃ longer, R.run (.multi ctx q word 0) (textLine key s) = (multi ctx q longer 0).go := by
  have hbare : ∀ c, isBare c → isPlain c ∧ c ≠ q.mark ∧ c ≠ '\\' := by
    intro c hc
    refine ⟨isPlain_of_isBare hc, ne_of_isBare hc ?_, ne_of_isBare hc (by decide)⟩
    cases q <;> decide
  have hequals : ∀ c ∈ [' ', '=', ' '], isPlain c ∧ c ≠ q.mark ∧ c ≠ '\\' := by
    intro c hc
    simp only [mem_cons, not_mem_nil, or_false] at hc
    rcases hc with rfl | rfl | rfl
    · cases q <;> decide
    · cases q <;> decide
    · cases q <;> decide
  have hkeys : ∀ c ∈ key, isPlain c ∧ c ≠ q.mark ∧ c ≠ '\\' :=
    fun c hc => hbare c (List.all_eq_true.mp hkey.2 c hc)
  obtain ⟨w₁, h₁⟩ := R.run_multi ctx q hkey.1 hkeys word (show 0 < 3 by decide)
  obtain ⟨w₂, h₂⟩ := R.run_multi ctx q (by decide) hequals w₁ (show 0 < 3 by decide)
  obtain ⟨w₃, marks₃, hmarks₃, h₃⟩ := R.step_multi_quote ctx q w₂
  obtain ⟨w₄, h₄⟩ := R.run_multi ctx q hne (fun c hc => hbare c (hs c hc)) w₃ hmarks₃
  obtain ⟨w₅, marks₅, hmarks₅, h₅⟩ := R.step_multi_quote ctx q w₄
  refine ⟨w₅ ++ List.replicate marks₅ q.mark ++ ['\n'], ?_⟩
  have hnewline : R.step (.multi ctx q w₅ marks₅) '\n' =
      (multi ctx q (w₅ ++ List.replicate marks₅ q.mark ++ ['\n']) 0).go := by
    rw [step, if_pos rfl, newline, if_pos hmarks₅]
    intro back h
    cases h
  change R.run _ (key ++ ([' ', '=', ' '] ++ ('"' :: (s ++ ['"', '\n'])))) = _
  rw [R.run_append_go h₁, R.run_append_go h₂, run_cons, h₃, go_andThen, R.run_append_go h₄, run_cons, h₅,
    go_andThen, run_cons, hnewline, go_andThen, run_nil]

theorem Reader.run_fold (word : Text) (hkey : IsKey key) (rest : Text) :
    R.run (.fold ctx word) (key ++ rest) = R.run (.multi ctx .basic word 0) (key ++ rest) := by
  obtain ⟨hne, hbare⟩ := hkey
  cases key with
  | nil => exact absurd rfl hne
  | cons c key =>
    rw [all_cons, Bool.and_eq_true] at hbare
    have hplain : isPlain c := isPlain_of_isBare hbare.1
    have hmark : c ≠ Quote.basic.mark := ne_of_isBare hbare.1 (by decide)
    rw [cons_append, run_cons, run_cons, R.step_of_isPlain _ hplain, R.step_of_isPlain _ hplain, char, char,
      isBlank_of_isBare hbare.1, if_neg (by decide), if_neg hmark, if_pos (by decide), replicate_zero,
      append_nil]

theorem Reader.start_of_run_textLine (hm : m.AtLine) (hkey : IsKey key)
    (hdate : isDate key = false) (hne : s ≠ []) (hs : ∀ c ∈ s, isBare c)
    (h : R.run m (textLine key s) = some (.start, out)) : m = .start := by
  cases m with
  | start => rfl
  | element items outer =>
    rw [textLine, R.run_element hkey hdate] at h
    contradiction
  | afterElement items outer | afterPair entries outer =>
    rw [textLine, R.run_after (fun c => rfl) hkey] at h
    contradiction
  | pair entries outer =>
    have hverbatim : ∀ c ∈ s, IsVerbatim c := fun c hc => isVerbatim_of_isBare (hs c hc)
    have hopen : R.step (.value (.pair entries [] key outer)) '"' =
        (quote (.pair entries [] key outer) .basic).go := rfl
    rw [textLine, R.run_append_go (R.run_key (fun c hc => R.char_pair entries outer hc) hkey), run_equals_pair,
      run_cons, hopen, go_andThen, R.run_quote _ (spells_self hverbatim) (begins_of_isVerbatim hverbatim),
      finish] at h
    cases hinsert : insert [] key (.text s) entries with
    | none =>
      rw [hinsert] at h
      contradiction
    | some more =>
      rw [hinsert] at h
      cases h
  | multi ctx q word marks =>
    obtain rfl : marks = 0 := hm
    obtain ⟨longer, hrun⟩ := R.run_multi_textLine ctx q word hkey hne hs
    rw [hrun] at h
    cases h
  | fold ctx word =>
    obtain ⟨longer, hrun⟩ := R.run_multi_textLine ctx .basic word hkey hne hs
    rw [textLine, R.run_fold ctx word hkey, ← textLine, hrun] at h
    cases h
  | _ => exact hm.elim

end Base.Toml
