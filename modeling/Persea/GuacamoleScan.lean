import Persea.GuacamoleDump

/-! Tables that are written as `mysqldump` writes them. The scanners agree on where a statement, a row and a value end,
whatever a value holds. Inside of its quotes a value loses the blanks at its ends, and `\Z` is read as a letter. -/

namespace Persea.Guacamole

open Base Base.Text Protocol List TupleScan

def escapeChar (c : Char) : Text :=
  if c = '\x00' then ['\\', '0']
  else if c = '\n' then ['\\', 'n']
  else if c = '\r' then ['\\', 'r']
  else if c = '\x1a' then ['\\', 'Z']
  else if c = '\\' ∨ c = '\'' ∨ c = '"' then ['\\', c]
  else [c]

def escapeSql (s : Text) : Text := s.flatMap escapeChar

inductive Literal where
  | null
  | int (i : Int)
  | string (s : Text)
deriving DecidableEq, Repr

def Literal.render : Literal → Text
  | null => "NULL"
  | int i => Rbac.i64Text i
  | string s => '\'' :: escapeSql s ++ ['\'']

def renderValues (row : List Literal) : Text := [','].intercalate (row.map Literal.render)

def renderRow (row : List Literal) : Text := '(' :: renderValues row ++ [')']

def renderRows (rows : List (List Literal)) : Text := [',', '\n'].intercalate (rows.map renderRow)

def insertInto : Text := "INSERT INTO "
def valuesWord : Text := " VALUES"

def insertHead (table : Text) : Text := insertInto ++ '`' :: (table ++ '`' :: valuesWord)

def renderInsert (table : Text) (rows : List (List Literal)) : Text := insertHead table ++ '\n' :: renderRows rows

def intOrNull (i : Option Int) : Literal := i.elim .null .int

def Connection.row (c : Connection) : List Literal :=
  [.int c.id, .string c.name, intOrNull c.parentId, .string c.protocol, .null, .null, .null, .int 0, .null, .null, .null]

def Group.row (g : Group) : List Literal :=
  [.int g.id, intOrNull g.parentId, .string g.name, .string "ORGANIZATIONAL", .null, .null, .null]

def Parameter.row (p : Parameter) : List Literal := [.int p.connectionId, .string p.name, .string p.value]

def InI64 (i : Int) : Prop := -2 ^ 63 ≤ i ∧ i < 2 ^ 63

/-- The rows of the three tables. A table is written in several statements if it is long, each with some of its rows. -/
structure Dump where
  connections : List (List Connection)
  groups : List (List Group)
  parameters : List (List Parameter)
  rows_ne_nil : [] ∉ connections ∧ [] ∉ groups ∧ [] ∉ parameters
  connection_range : ∀ rows ∈ connections, ∀ c ∈ rows, InI64 c.id ∧ ∀ pid ∈ c.parentId, InI64 pid
  group_range : ∀ rows ∈ groups, ∀ g ∈ rows, InI64 g.id ∧ ∀ pid ∈ g.parentId, InI64 pid
  parameter_range : ∀ rows ∈ parameters, ∀ p ∈ rows, InI64 p.connectionId

/-- The statements with their tables, which stand in the order of their names. -/
def Dump.inserts (d : Dump) : List (Text × List (List Literal)) :=
  d.connections.map (fun rows => (connectionTable, rows.map Connection.row)) ++
    d.groups.map (fun rows => (groupTable, rows.map Group.row)) ++
    d.parameters.map (fun rows => (parameterTable, rows.map Parameter.row))

def renderInserts (inserts : List (Text × List (List Literal))) : Text :=
  inserts.flatMap fun insert => renderInsert insert.1 insert.2 ++ [';', '\n']

def Dump.render (d : Dump) : Text := renderInserts d.inserts

@[simp] theorem escapeSql_cons (c : Char) (s : Text) : escapeSql (c :: s) = escapeChar c ++ escapeSql s := rfl

theorem escapeSql_append (s t : Text) : escapeSql (s ++ t) = escapeSql s ++ escapeSql t := flatMap_append

def readBack (c : Char) : Char := if c = '\x1a' then 'Z' else c

theorem escapeChar_cases (c : Char) : (escapeChar c = [c] ∧ c ≠ '\\' ∧ c ≠ '\'' ∧ c ≠ '\n' ∧ c ≠ '\r' ∧ c ≠ '\x1a') ∨
      ∃ code, escapeChar c = ['\\', code] ∧ isWhitespace code = false ∧
        unescapeChar code = readBack c ∧ (isWhitespace c → c = '\n' ∨ c = '\r') := by
  unfold escapeChar
  split_ifs with h₀ h₁ h₂ h₃ h₄
  · exact .inr ⟨_, rfl, by decide, by rw [h₀]; decide, by rw [h₀]; decide⟩
  · exact .inr ⟨_, rfl, by decide, by rw [h₁]; decide, fun _ => .inl h₁⟩
  · exact .inr ⟨_, rfl, by decide, by rw [h₂]; decide, fun _ => .inr h₂⟩
  · exact .inr ⟨_, rfl, by decide, by rw [h₃]; decide, by rw [h₃]; decide⟩
  · rcases h₄ with rfl | rfl | rfl <;> exact .inr ⟨_, rfl, by decide, by decide, by decide⟩
  · push Not at h₄
    exact .inl ⟨rfl, h₄.1, h₄.2.1, h₁, h₂, h₃⟩

theorem unescapeSql_escapeSql (s : Text) : unescapeSql (escapeSql s) = s.map readBack := by
  induction s with
  | nil => rfl
  | cons c s ih =>
    rw [escapeSql_cons, map_cons, ← ih]
    rcases escapeChar_cases c with ⟨hchar, hne, -, -, -, hz⟩ | ⟨code, hchar, -, hcode, -⟩
    · rw [hchar, singleton_append, unescapeSql.eq_def, readBack, if_neg hz]
      simp only [if_neg hne]
    · rw [hchar, cons_append, singleton_append, unescapeSql.eq_def]
      simp only [if_pos, hcode]

def isPlainBlank (c : Char) : Bool := isWhitespace c ∧ c ≠ '\n' ∧ c ≠ '\r'

variable {c : Char} {s text table : Text}

theorem isPlainBlank_of_blank (hblank : isWhitespace c → c = '\n' ∨ c = '\r') : isPlainBlank c = false := by
  by_cases hc : isWhitespace c
  · rcases hblank hc with rfl | rfl <;> decide
  · simp [isPlainBlank, hc]

theorem dropWhile_escapeSql (s : Text) :
    (escapeSql s).dropWhile isWhitespace = escapeSql (s.dropWhile isPlainBlank) := by
  induction s with
  | nil => rfl
  | cons c s ih =>
    rw [escapeSql_cons]
    rcases escapeChar_cases c with ⟨hchar, -, -, hn, hr, -⟩ | ⟨code, hchar, -, -, hblank⟩
    · have hplain : isPlainBlank c = isWhitespace c := by simp [isPlainBlank, hn, hr]
      rw [hchar, singleton_append, dropWhile_cons, dropWhile_cons, hplain]
      split_ifs
      · exact ih
      · rw [escapeSql_cons, hchar, singleton_append]
    · have hplain := isPlainBlank_of_blank hblank
      rw [dropWhile_cons_of_neg (by rw [hplain]; decide), escapeSql_cons, hchar, cons_append,
        dropWhile_cons_of_neg (by decide)]

theorem trimEnd_escapeSql (s : Text) : trimEnd (escapeSql s) = escapeSql (s.rdropWhile isPlainBlank) := by
  induction s using reverseRecOn with
  | nil => rfl
  | append_singleton s c ih =>
    rw [escapeSql_append, rdropWhile_concat, show escapeSql [c] = escapeChar c from append_nil _]
    rcases escapeChar_cases c with ⟨hchar, -, -, hn, hr, -⟩ | ⟨code, hchar, hcode, -, hblank⟩
    · have hplain : isPlainBlank c = isWhitespace c := by simp [isPlainBlank, hn, hr]
      rw [hchar, trimEnd, rdropWhile_concat, hplain]
      split_ifs
      · exact ih
      · rw [escapeSql_append, show escapeSql [c] = escapeChar c from append_nil _, hchar]
    · rw [hchar, trimEnd, show escapeSql s ++ ['\\', code] = (escapeSql s ++ ['\\']) ++ [code] by simp,
        rdropWhile_concat_neg _ _ _ (by rw [hcode]; decide), isPlainBlank_of_blank hblank, if_neg (by decide),
        escapeSql_append, show escapeSql [c] = escapeChar c from append_nil _, hchar]
      simp

theorem reread_eq (s : Text) :
    unescapeSql (trim (escapeSql s)) = ((s.dropWhile isPlainBlank).rdropWhile isPlainBlank).map readBack := by
  rw [trim, dropWhile_escapeSql, trimEnd_escapeSql, unescapeSql_escapeSql]

/-- The value has no blank at its ends, except for line ends, and no character that is written `\Z`. -/
def Readable (s : Text) : Prop :=
  '\x1a' ∉ s ∧ (∀ c, s.head? = some c → isPlainBlank c = false) ∧ ∀ c, s.getLast? = some c → isPlainBlank c = false

theorem map_readBack_eq_self_iff : s.map readBack = s ↔ '\x1a' ∉ s := by
  induction s with
  | nil => simp
  | cons c s ih =>
    rw [map_cons, cons.injEq, ih, mem_cons, not_or]
    refine and_congr_left fun _ => ⟨?_, ?_⟩
    · rintro hback rfl
      exact absurd hback (by decide)
    · intro hc
      rw [readBack, if_neg (Ne.symm hc)]

theorem dropWhile_eq_self_of_head :
    s.dropWhile isPlainBlank = s ↔ ∀ c, s.head? = some c → isPlainBlank c = false := by
  cases s with
  | nil => simp
  | cons c s => simp

theorem rdropWhile_eq_self_of_last :
    s.rdropWhile isPlainBlank = s ↔ ∀ c, s.getLast? = some c → isPlainBlank c = false := by
  rw [rdropWhile_eq_self_iff]
  constructor
  · intro h c hc
    have hne : s ≠ [] := by
      rintro rfl
      cases hc
    rw [getLast?_eq_some_getLast hne, Option.some.injEq] at hc
    simpa [hc] using h hne
  · intro h hne
    simpa using h _ (getLast?_eq_some_getLast hne)

theorem reread_eq_self_iff : unescapeSql (trim (escapeSql s)) = s ↔ Readable s := by
  rw [reread_eq, Readable, ← dropWhile_eq_self_of_head, ← rdropWhile_eq_self_of_last, ← map_readBack_eq_self_iff]
  constructor
  · -- what is trimmed is missing, since a character is read as one
    intro h
    have hlength := congrArg length h
    rw [length_map] at hlength
    have hend := ( rdropWhile_prefix isPlainBlank (l := s.dropWhile isPlainBlank)).length_le
    have hfront : s.dropWhile isPlainBlank = s := (dropWhile_suffix isPlainBlank).eq_of_length_le (by omega)
    rw [hfront] at h hlength
    have hback : s.rdropWhile isPlainBlank = s := ( rdropWhile_prefix isPlainBlank s).eq_of_length hlength
    rw [hback] at h
    exact ⟨h, hfront, hback⟩
  · rintro ⟨hmap, hfront, hback⟩
    rw [hfront, hback, hmap]

/-! ### Statements -/

def Passes (text : Text) : Prop :=
  ∀ rest current, splitFrom .statement (text ++ rest) current = splitFrom .statement rest (current ++ text)

theorem Passes.append {a b : Text} (ha : Passes a) (hb : Passes b) : Passes (a ++ b) := by
  intro rest current
  rw [append_assoc, ha, hb, append_assoc]

theorem passes_nil : Passes [] := by
  intro rest current
  rw [nil_append, append_nil]

def isPlainSql (c : Char) : Bool := c ∉ ['#', '-', '/', ';', '\'', '`']

theorem passes_char (hc : isPlainSql c) : Passes [c] := by
  simp only [isPlainSql, decide_eq_true_eq, mem_cons, not_mem_nil, or_false, not_or] at hc
  obtain ⟨hhash, hdash, hslash, hsemi, hquote, htick⟩ := hc
  intro rest current
  rw [singleton_append]
  cases rest with
  | nil => simp only [splitFrom, hhash, hsemi, or_self, if_false]
  | cons next rest => simp only [splitFrom, hhash, hdash, hslash, hsemi, hquote, htick, false_and, or_self, if_false]

theorem passes_of_all (h : text.all isPlainSql) : Passes text := by
  induction text with
  | nil => exact passes_nil
  | cons c text ih =>
    rw [all_cons, Bool.and_eq_true] at h
    exact (passes_char h.1).append (ih h.2)

theorem passes_digits {digits : Text} (h : ∀ c ∈ digits, c.isDigit) : Passes digits := by
  apply passes_of_all
  rw [all_eq_true]
  intro c hc
  rw [isPlainSql, decide_eq_true_eq]
  intro hmem
  simp only [mem_cons, not_mem_nil, or_false] at hmem
  rcases hmem with rfl | rfl | rfl | rfl | rfl | rfl <;> exact absurd (h _ hc) (by decide)

theorem passes_i64Text (i : Int) : Passes (Rbac.i64Text i) := by
  cases i with
  | ofNat n => exact passes_digits fun c hc => isDigit_of_mem_decimal hc
  | negSucc n =>
    intro rest current
    have hdigits : ∀ c ∈ decimal (n + 1), c.isDigit := fun c hc => isDigit_of_mem_decimal hc
    obtain ⟨d, digits, hdecimal⟩ := exists_cons_of_ne_nil (decimal_ne_nil (n + 1))
    have hd : startsLineComment (d :: (digits ++ rest)) = false := by
      unfold startsLineComment
      split
      · rename_i heq
        rw [cons.injEq] at heq
        have hdash := hdigits d (hdecimal ▸ mem_cons_self)
        rw [heq.1] at hdash
        exact absurd hdash (by decide)
      · rfl
    have hpass := passes_digits hdigits rest (current ++ ['-'])
    rw [hdecimal, cons_append] at hpass
    rw [Rbac.i64Text, hdecimal, cons_append, cons_append, splitFrom, hd]
    simpa using hpass

theorem splitFrom_quote (s rest current : Text) : splitFrom .quote (escapeSql s ++ '\'' :: rest) current =
      splitFrom .statement rest (current ++ (escapeSql s ++ ['\''])) := by
  induction s generalizing current with
  | nil =>
    cases rest with
    | nil => rfl
    | cons next rest => rfl
  | cons c s ih =>
    rw [escapeSql_cons]
    -- a quote follows, so that a character is not the last one
    obtain ⟨next, more, hmore⟩ : ∃ next more, escapeSql s ++ '\'' :: rest = next :: more :=
      exists_cons_of_ne_nil (by simp)
    rcases escapeChar_cases c with ⟨hchar, hslash, hquote, -⟩ | ⟨code, hchar, -⟩
    · rw [hchar, singleton_append, cons_append, hmore, splitFrom, if_neg hslash, if_neg hquote, ← hmore, ih]
      simp
    · rw [hchar, cons_append, singleton_append, cons_append, cons_append, splitFrom, if_pos rfl, ih]
      simp

theorem passes_string (s : Text) : Passes ('\'' :: escapeSql s ++ ['\'']) := by
  intro rest current
  obtain ⟨next, more, hmore⟩ : ∃ next more, escapeSql s ++ '\'' :: rest = next :: more :=
    exists_cons_of_ne_nil (by simp)
  have hquote := splitFrom_quote s rest (current ++ ['\''])
  rw [hmore] at hquote
  rw [append_assoc, cons_append, singleton_append, hmore, splitFrom]
  simpa using hquote

variable (literal : Literal) {inserts : List (Text × List (List Literal))} (u : Uppercase)
  (rows : List (List Literal)) (row : List Literal) (results : List Text) {texts : List Text}
  {needle before : Text}

theorem passes_render : Passes literal.render := by
  cases literal with
  | null => exact passes_of_all (by decide)
  | int i => exact passes_i64Text i
  | string s => exact passes_string s

theorem passes_renderRows : Passes (renderRows rows) := by
  apply intercalate_induction passes_nil (passes_of_all (by decide)) Passes.append
  intro text htext
  obtain ⟨row, -, rfl⟩ := mem_map.mp htext
  have hvalues : Passes (renderValues row) := by
    apply intercalate_induction passes_nil (passes_char (by decide)) Passes.append
    intro value hvalue
    obtain ⟨literal, -, rfl⟩ := mem_map.mp hvalue
    exact passes_render literal
  exact ((passes_char (c := '(') (by decide)).append hvalues).append (passes_char (by decide))

theorem splitFrom_ident {name : Text} (hname : '`' ∉ name) (rest current : Text) :
    splitFrom .ident (name ++ '`' :: rest) current = splitFrom .statement rest (current ++ (name ++ ['`'])) := by
  induction name generalizing current with
  | nil => rw [nil_append, splitFrom, if_pos rfl, nil_append]
  | cons c name ih =>
    rw [mem_cons, not_or] at hname
    rw [cons_append, splitFrom, if_neg (Ne.symm hname.1), ih hname.2]
    simp

theorem passes_insertHead (htable : '`' ∉ table) : Passes (insertHead table) := by
  intro rest current
  have hinto : Passes insertInto := passes_of_all (by decide)
  have hvalues : Passes valuesWord := passes_of_all (by decide)
  obtain ⟨next, more, hmore⟩ : ∃ next more, table ++ '`' :: (valuesWord ++ rest) = next :: more :=
    exists_cons_of_ne_nil (by simp)
  have hident := splitFrom_ident htable (valuesWord ++ rest) (current ++ insertInto ++ ['`'])
  rw [hmore, hvalues] at hident
  have htext : insertHead table ++ rest = insertInto ++ '`' :: (table ++ '`' :: (valuesWord ++ rest)) := by
    simp [insertHead]
  rw [htext, hinto, hmore, splitFrom]
  simpa [insertHead] using hident

theorem passes_renderInsert (htable : '`' ∉ table) (rows : List (List Literal)) : Passes (renderInsert table rows) :=
  (passes_insertHead htable).append ((passes_char (c := '\n') (by decide)).append (passes_renderRows rows))

theorem trim_newline_cons (s : Text) : trim ('\n' :: s) = trim s := by
  rw [trim, dropWhile_cons_of_pos (by decide), trim]

theorem trim_renderInsert (table : Text) {rows : List (List Literal)} (hrows : rows ≠ []) :
    trim (renderInsert table rows) = renderInsert table rows := by
  obtain ⟨front, hlast⟩ : ∃ front, renderRows rows = front ++ [')'] := by
    obtain ⟨init, last, rfl⟩ := (eq_nil_or_concat rows).resolve_left hrows
    by_cases hinit : init = []
    · rw [hinit]
      exact ⟨'(' :: renderValues last, by simp [renderRows, renderRow]⟩
    · rw [renderRows, concat_eq_append, map_append, map_singleton, intercalate_concat (by simpa using hinit), renderRow]
      exact ⟨_, (append_assoc _ _ _).symm⟩
  have hfront : (renderInsert table rows).dropWhile isWhitespace = renderInsert table rows := rfl
  rw [trim, hfront, trimEnd, renderInsert, hlast]
  rw [show insertHead table ++ '\n' :: (front ++ [')']) = (insertHead table ++ '\n' :: front) ++ [')'] by simp]
  exact rdropWhile_concat_neg _ _ _ (by decide)

theorem renderInsert_ne_nil (table : Text) (rows : List (List Literal)) : renderInsert table rows ≠ [] := by
  simp [renderInsert]

theorem splitFrom_semicolon (rest current : Text) : splitFrom .statement (';' :: '\n' :: rest) current =
      pushStatement current (splitFrom .statement rest ['\n']) := by
  have hnewline := passes_char (c := '\n') (by decide) rest []
  rw [singleton_append, nil_append] at hnewline
  have hcomment : ¬(';' = '#' ∨ ';' = '-' ∧ startsLineComment ('\n' :: rest)) := by
    rintro (h | ⟨h, -⟩) <;> exact absurd h (by decide)
  rw [splitFrom, if_neg hcomment, if_neg (by decide), if_pos rfl, hnewline]

theorem map_trim_splitFrom (h : ∀ insert ∈ inserts, '`' ∉ insert.1 ∧ insert.2 ≠ []) {current : Text}
    (hcurrent : current = [] ∨ current = ['\n']) :
    (splitFrom .statement (renderInserts inserts) current).map trim =
      inserts.map fun insert => renderInsert insert.1 insert.2 := by
  induction inserts generalizing current with
  | nil => rcases hcurrent with rfl | rfl <;> rfl
  | cons insert inserts ih =>
    obtain ⟨⟨htable, hrows⟩, hrest⟩ := forall_mem_cons.mp h
    have htrim : trim (current ++ renderInsert insert.1 insert.2) = renderInsert insert.1 insert.2 := by
      rcases hcurrent with rfl | rfl
      · exact trim_renderInsert insert.1 hrows
      · rw [singleton_append, trim_newline_cons, trim_renderInsert insert.1 hrows]
    rw [renderInserts, flatMap_cons, append_assoc, passes_renderInsert htable, cons_append,
      singleton_append, splitFrom_semicolon, pushStatement, htrim, if_neg (renderInsert_ne_nil _ _),
      map_cons, htrim, map_cons]
    exact congrArg _ (ih hrest (.inr rfl))

def TupleScan.keep (s : TupleScan) (text : Text) : TupleScan := { s with start := s.start.map (· ++ text) }

theorem TupleScan.push_eq (s : TupleScan) (c : Char) : s.push c = s.keep [c] := rfl

theorem TupleScan.keep_keep (s : TupleScan) (a b : Text) : (s.keep a).keep b = s.keep (a ++ b) := by
  simp [keep, Function.comp_def]

theorem TupleScan.keep_nil (s : TupleScan) : s.keep [] = s := by simp [keep]

def Keeps (text : Text) : Prop :=
  ∀ s : TupleScan, s.inQuote = false → s.escape = false → text.foldl step s = s.keep text

theorem Keeps.append {a b : Text} (ha : Keeps a) (hb : Keeps b) : Keeps (a ++ b) := by
  intro s hquote hescape
  rw [foldl_append, ha s hquote hescape, hb (s.keep a) hquote hescape, s.keep_keep]

theorem keeps_nil : Keeps [] := fun s _ _ => s.keep_nil.symm

def isPlainRow (c : Char) : Bool := c ∉ ['\'', '(', ')', '\\', ',']

theorem keeps_char (hc : c ≠ '\'' ∧ c ≠ '(' ∧ c ≠ ')') : Keeps [c] := by
  intro s hquote hescape
  simp [step, push_eq, hquote, hescape, hc]

theorem keeps_of_all (h : text.all isPlainRow) : Keeps text := by
  induction text with
  | nil => exact keeps_nil
  | cons c text ih =>
    rw [all_cons, Bool.and_eq_true] at h
    have hc := h.1
    simp only [isPlainRow, decide_eq_true_eq, mem_cons, not_mem_nil, or_false, not_or] at hc
    exact (keeps_char ⟨hc.1, hc.2.1, hc.2.2.1⟩).append (ih h.2)

theorem foldl_step_escapeSql (s : Text) {scan : TupleScan} (hquote : scan.inQuote) (hescape : scan.escape = false) :
    (escapeSql s).foldl step scan = scan.keep (escapeSql s) := by
  induction s generalizing scan with
  | nil => exact scan.keep_nil.symm
  | cons c s ih =>
    have hc : (escapeChar c).foldl step scan = scan.keep (escapeChar c) := by
      rcases escapeChar_cases c with ⟨hchar, hslash, hq, -⟩ | ⟨code, hchar, -⟩
      · simp [hchar, step, push_eq, hquote, hescape, hslash, hq]
      · simp [hchar, step, push, keep, hquote, hescape, Function.comp_def]
    rw [escapeSql_cons, foldl_append, hc, @ih (scan.keep (escapeChar c)) hquote hescape, scan.keep_keep]

theorem all_isPlainRow_i64Text (i : Int) : (Rbac.i64Text i).all isPlainRow := by
  have hdigit : ∀ n, (decimal n).all isPlainRow := by
    intro n
    rw [all_eq_true]
    intro c hc
    rw [isPlainRow, decide_eq_true_eq]
    intro hmem
    simp only [mem_cons, not_mem_nil, or_false] at hmem
    rcases hmem with rfl | rfl | rfl | rfl | rfl <;> exact absurd (isDigit_of_mem_decimal hc) (by decide)
  cases i with
  | ofNat n => exact hdigit n
  | negSucc n =>
    rw [Rbac.i64Text, all_cons, hdigit]
    rfl

theorem keeps_render : Keeps literal.render := by
  cases literal with
  | null => exact keeps_of_all (by decide)
  | int i => exact keeps_of_all (all_isPlainRow_i64Text i)
  | string s =>
    intro scan hquote hescape
    have hopen : step scan '\'' = { scan.keep ['\''] with inQuote := true } := by
      simp [step, push_eq, hquote, hescape]
    have hinner := @foldl_step_escapeSql s { scan.keep ['\''] with inQuote := true } rfl hescape
    rw [Literal.render, cons_append, foldl_cons, hopen, foldl_append, hinner, foldl_cons, foldl_nil]
    simp [step, push, keep, hquote, hescape, Function.comp_def]

theorem keeps_renderValues : Keeps (renderValues row) := by
  apply intercalate_induction keeps_nil (keeps_char (by decide)) Keeps.append
  intro value hvalue
  obtain ⟨literal, -, rfl⟩ := mem_map.mp hvalue
  exact keeps_render literal

theorem foldl_step_renderRow : (renderRow row).foldl step ⟨0, false, false, none, results⟩ =
      ⟨0, false, false, none, results ++ [renderValues row]⟩ := by
  have hopen : step ⟨0, false, false, none, results⟩ '(' = ⟨1, false, false, some [], results⟩ := rfl
  rw [renderRow, cons_append, foldl_cons, hopen, foldl_append,
    keeps_renderValues row ⟨1, false, false, some [], results⟩ rfl rfl]
  rfl

theorem foldl_step_renderRows : (renderRows rows).foldl step ⟨0, false, false, none, results⟩ =
      ⟨0, false, false, none, results ++ rows.map renderValues⟩ := by
  rw [renderRows]
  induction rows generalizing results with
  | nil => simp
  | cons row rows ih =>
    cases rows with
    | nil => simpa using foldl_step_renderRow row results
    | cons next rows =>
      have hbetween : [',', '\n'].foldl step ⟨0, false, false, none, results ++ [renderValues row]⟩ =
        ⟨0, false, false, none, results ++ [renderValues row]⟩ := rfl
      rw [map_cons, map_cons, intercalate_cons_cons, ← map_cons, foldl_append,
        foldl_append, foldl_step_renderRow, hbetween, ih]
      simp

def Literal.read : Literal → Text
  | null => "NULL"
  | int i => Rbac.i64Text i
  | string s => trim (escapeSql s)

def Literal.content : Literal → Text
  | null => "NULL"
  | int i => Rbac.i64Text i
  | string s => escapeSql s

theorem tupleFrom_plain (h : text.all isPlainRow) (current rest : Text) :
    tupleFrom false false current (text ++ rest) = tupleFrom false false (current ++ text) rest := by
  induction text generalizing current with
  | nil => simp
  | cons c text ih =>
    rw [all_cons, Bool.and_eq_true] at h
    have hc := h.1
    simp only [isPlainRow, decide_eq_true_eq, mem_cons, not_mem_nil, or_false, not_or] at hc
    rw [cons_append, tupleFrom]
    simp [hc, ih h.2]

theorem tupleFrom_escapeSql (s current rest : Text) :
    tupleFrom true false current (escapeSql s ++ rest) = tupleFrom true false (current ++ escapeSql s) rest := by
  induction s generalizing current with
  | nil => simp [escapeSql]
  | cons c s ih =>
    rw [escapeSql_cons]
    rcases escapeChar_cases c with ⟨hchar, hslash, hquote, -⟩ | ⟨code, hchar, -⟩
    · rw [hchar, singleton_append, cons_append, tupleFrom]
      simp [hslash, hquote, ih]
    · rw [hchar, cons_append, singleton_append, cons_append, cons_append, tupleFrom,
        if_neg (by decide), if_pos ⟨rfl, rfl⟩, tupleFrom, if_pos rfl, ih]
      simp

theorem tupleFrom_render (current rest : Text) :
    tupleFrom false false current (literal.render ++ rest) = tupleFrom false false (current ++ literal.content) rest := by
  cases literal with
  | null => exact tupleFrom_plain (by decide) current rest
  | int i => exact tupleFrom_plain (all_isPlainRow_i64Text i) current rest
  | string s =>
    rw [Literal.render, append_assoc, cons_append, singleton_append, tupleFrom]
    have hopen := tupleFrom_escapeSql s current ('\'' :: rest)
    rw [tupleFrom] at hopen
    simpa [Literal.content] using hopen

theorem mem_i64Text {i : Int} (h : c ∈ Rbac.i64Text i) : c = '-' ∨ 48 ≤ c.toNat ∧ c.toNat ≤ 57 := by
  cases i with
  | ofNat n => exact .inr (Char.isDigit_iff_toNat.mp (isDigit_of_mem_decimal h))
  | negSucc n =>
    rcases mem_cons.mp h with rfl | h
    · exact .inl rfl
    · exact .inr (Char.isDigit_iff_toNat.mp (isDigit_of_mem_decimal h))

theorem trim_content : trim literal.content = literal.read := by
  cases literal with
  | null => decide
  | int i =>
    apply trim_eq_self
    intro c hc
    rcases mem_i64Text hc with rfl | hdigit
    · decide
    · exact ⟨by omega, by omega⟩
  | string s => rfl

theorem parseTuple_renderValues {row : List Literal} (hrow : row ≠ []) :
    parseTuple (renderValues row) = row.map Literal.read := by
  rw [parseTuple, renderValues]
  induction row with
  | nil => exact absurd rfl hrow
  | cons literal row ih =>
    cases row with
    | nil =>
      have hlast := tupleFrom_render literal [] []
      rw [append_nil] at hlast
      simp [hlast, tupleFrom, trim_content]
    | cons next row =>
      rw [map_cons, map_cons, intercalate_cons_cons, ← map_cons, append_assoc,
        tupleFrom_render, singleton_append, tupleFrom, nil_append]
      simpa [trim_content] using ih (cons_ne_nil _ _)

theorem parseI64_i64Text {i : Int} (hi : InI64 i) : parseI64 (Rbac.i64Text i) = some i := by
  obtain ⟨hlow, hhigh⟩ := hi
  cases i with
  | ofNat n =>
    have hn : n < 2 ^ 63 := by
      rw [Int.ofNat_eq_natCast] at hhigh
      omega
    have hparse : parseUsize (decimal n) = some n := parseUsize_decimal (by rw [usizeMax]; omega)
    have hminus : ∀ digits, decimal n ≠ '-' :: digits := by
      intro digits heq
      exact absurd (isDigit_of_mem_decimal (heq ▸ mem_cons_self : '-' ∈ decimal n)) (by decide)
    rw [Rbac.i64Text, parseI64, hparse, Option.filter_some, if_pos (decide_eq_true hn)]
    · rfl
    · exact hminus
  | negSucc n =>
    have hn : n + 1 ≤ 2 ^ 63 := by
      rw [Int.negSucc_eq] at hlow
      omega
    have hparse : parseUsize (decimal (n + 1)) = some (n + 1) := parseUsize_decimal (by rw [usizeMax]; omega)
    have hplus : '+' ∉ decimal (n + 1) := not_mem_decimal (by decide) _
    rw [Rbac.i64Text, parseI64, if_neg hplus, hparse, Option.filter_some, if_pos (decide_eq_true hn)]
    rfl

theorem parseNullableInt_read {i : Option Int} (hi : ∀ n ∈ i, InI64 n) : parseNullableInt (intOrNull i).read = i := by
  cases i with
  | none => decide
  | some i =>
    have hnull : eqIgnoreAsciiCase (Rbac.i64Text i) "NULL" = false := by
      rw [eqIgnoreAsciiCase, decide_eq_false_iff_not]
      intro heq
      -- the first character would be an `n`
      have hhead := congrArg head? heq
      rw [head?_map] at hhead
      obtain ⟨c, hc, hlower⟩ := Option.map_eq_some_iff.mp hhead
      rcases mem_i64Text (mem_of_head? hc) with rfl | ⟨hfrom, hto⟩
      · exact absurd hlower (by decide)
      · rw [← Char.ofNat_toNat c] at hlower
        interval_cases c.toNat <;> exact absurd hlower (by decide)
    change (if eqIgnoreAsciiCase (Rbac.i64Text i) "NULL" then none else parseI64 (Rbac.i64Text i)) = some i
    rw [hnull, if_neg Bool.false_ne_true, parseI64_i64Text (hi i rfl)]

theorem toUppercase_ascii (hs : s.all (·.toNat < 128)) : toUppercase u s = s.map Char.toUpper := by
  induction s with
  | nil => rfl
  | cons c s ih =>
    rw [all_cons, Bool.and_eq_true, decide_eq_true_eq] at hs
    rw [toUppercase, flatMap_cons, u.upper_ascii c hs.1, map_cons, ← ih hs.2]
    rfl

theorem length_of_findText (h : findText needle text = some before) : needle.length ≤ text.length := by
  induction text generalizing before with
  | nil =>
    rw [findText] at h
    split_ifs at h with hneedle
    rw [hneedle]
  | cons c text ih =>
    rw [findText] at h
    split_ifs at h with hpre
    · exact hpre.length_le
    · obtain ⟨found, hfound, -⟩ := Option.map_eq_some_iff.mp h
      exact Nat.le_succ_of_le (ih hfound)

theorem findText_append (h : findText needle text = some before) (rest : Text) :
    findText needle (text ++ rest) = some before := by
  induction text generalizing before with
  | nil =>
    rw [findText] at h
    split_ifs at h with hneedle
    subst hneedle
    cases rest with
    | nil | cons c rest => simpa [findText] using h
  | cons c text ih =>
    rw [findText] at h
    rw [cons_append, findText]
    split_ifs at h with hpre
    · have hlong : needle <+: c :: (text ++ rest) := hpre.trans (prefix_append (c :: text) rest)
      rw [if_pos hlong, h]
    · obtain ⟨found, hfound, rfl⟩ := Option.map_eq_some_iff.mp h
      have hnot : ¬needle <+: c :: (text ++ rest) := by
        intro hlong
        apply hpre
        exact prefix_of_prefix_length_le hlong (prefix_append (c :: text) rest)
          (Nat.le_succ_of_le (length_of_findText hfound))
      rw [if_neg hnot, ih hfound, Option.map_some]

theorem dropBytes_append (hs : s.all (·.toNat < 128)) (rest : Text) :
    dropBytes s.length (s ++ rest) = some rest := by
  induction s with
  | nil => cases rest <;> rfl
  | cons c s ih =>
    rw [all_cons, Bool.and_eq_true, decide_eq_true_eq] at hs
    have hsize : c.utf8Size = 1 := Char.utf8Size_eq_one_iff.mpr (UInt32.le_iff_toNat_le.mpr (Nat.le_of_lt_succ hs.1))
    rw [cons_append, dropBytes, hsize, length_cons, if_neg (Nat.succ_ne_zero _), if_neg (by omega)]
    exact ih hs.2

def tables : List Text := [connectionTable, groupTable, parameterTable]

-- The words are spelled out for the kernel, which is slow to take a string apart.
theorem tables_eq : tables =
    [['g', 'u', 'a', 'c', 'a', 'm', 'o', 'l', 'e', '_', 'c', 'o', 'n', 'n', 'e', 'c', 't', 'i', 'o', 'n'],
     ['g', 'u', 'a', 'c', 'a', 'm', 'o', 'l', 'e', '_', 'c', 'o', 'n', 'n', 'e', 'c', 't', 'i', 'o', 'n', '_',
      'g', 'r', 'o', 'u', 'p'],
     ['g', 'u', 'a', 'c', 'a', 'm', 'o', 'l', 'e', '_', 'c', 'o', 'n', 'n', 'e', 'c', 't', 'i', 'o', 'n', '_',
      'p', 'a', 'r', 'a', 'm', 'e', 't', 'e', 'r']] := by
  decide +kernel

theorem insertHead_eq (table : Text) : insertHead table =
    ['I', 'N', 'S', 'E', 'R', 'T', ' ', 'I', 'N', 'T', 'O', ' '] ++
      '`' :: (table ++ '`' :: [' ', 'V', 'A', 'L', 'U', 'E', 'S']) := by
  rw [insertHead, show insertInto = ['I', 'N', 'S', 'E', 'R', 'T', ' ', 'I', 'N', 'T', 'O', ' '] by decide,
    show valuesWord = [' ', 'V', 'A', 'L', 'U', 'E', 'S'] by decide]

theorem insertHead_facts (h : table ∈ tables) : '`' ∉ table ∧ (insertHead table).all (·.toNat < 128) ∧
      (findText "VALUES" ((insertHead table).map Char.toUpper)).map (fun before => (Utf8.encode before).length + 6) =
        some (insertHead table).length := by
  simp only [tables_eq, mem_cons, not_mem_nil, or_false] at h
  rw [insertHead_eq]
  rcases h with rfl | rfl | rfl <;> decide +kernel

theorem extractTuples_renderInsert (h : table ∈ tables) (rows : List (List Literal)) :
    extractTuples u (renderInsert table rows) = some (rows.map renderValues) := by
  obtain ⟨-, hascii, hfind⟩ := insertHead_facts h
  obtain ⟨before, hbefore, hlength⟩ := Option.map_eq_some_iff.mp hfind
  have hupper : toUppercase u (renderInsert table rows) =
      (insertHead table).map Char.toUpper ++ toUppercase u ('\n' :: renderRows rows) := by
    rw [← toUppercase_ascii u hascii, renderInsert, toUppercase, flatMap_append]
    rfl
  have hnewline : step ⟨0, false, false, none, []⟩ '\n' = ⟨0, false, false, none, []⟩ := rfl
  rw [extractTuples, hupper, findText_append hbefore]
  change (dropBytes ((Utf8.encode before).length + 6) (renderInsert table rows)).map _ = _
  rw [hlength, renderInsert, dropBytes_append hascii, Option.map_some, foldl_cons, hnewline, foldl_step_renderRows]
  rfl

theorem mapM_trim {ι β : Type} {read : Text → Option β} {text : ι → Text} {result : ι → β} {inserts : List ι}
    (hread : ∀ insert ∈ inserts, read (text insert) = some (result insert)) {statements : List Text}
    (hstatements : statements.map trim = inserts.map text) :
    (statements.mapM fun stmt => read (trim stmt)) = some (inserts.map result) := by
  induction statements generalizing inserts with
  | nil =>
    cases inserts with
    | nil => rfl
    | cons _ _ => cases hstatements
  | cons stmt statements ih =>
    cases inserts with
    | nil => cases hstatements
    | cons insert inserts =>
      obtain ⟨hstmt, hrest⟩ := cons.inj hstatements
      obtain ⟨hfirst, hmore⟩ := forall_mem_cons.mp hread
      rw [mapM_cons, hstmt, hfirst, ih hmore hrest]
      rfl

theorem parseTable_renderInserts {α : Type} (wanted : Text → Bool) (row : List Text → Option α)
    (h : ∀ insert ∈ inserts, insert.1 ∈ tables ∧ insert.2 ≠ [] ∧ [] ∉ insert.2) :
    parseTable u wanted row (renderInserts inserts) = some (inserts.flatMap fun insert =>
      if wanted (renderInsert insert.1 insert.2) then insert.2.filterMap fun values => row (values.map Literal.read)
      else []) := by
  have hsplit := @map_trim_splitFrom inserts
    (fun insert hinsert => ⟨(insertHead_facts (h insert hinsert).1).1, (h insert hinsert).2.1⟩) [] (.inl rfl)
  have hread : ∀ insert ∈ inserts, statementRows u wanted row (renderInsert insert.1 insert.2) =
      some (if wanted (renderInsert insert.1 insert.2) then
        insert.2.filterMap fun values => row (values.map Literal.read) else []) := by
    intro insert hinsert
    obtain ⟨htable, -, hvalues⟩ := h insert hinsert
    rw [statementRows]
    split_ifs
    · rw [extractTuples_renderInsert u htable, Option.map_some, filterMap_map]
      congr 1
      apply filterMap_congr
      intro values hmem
      rw [Function.comp_apply, parseTuple_renderValues fun hnil => hvalues (hnil ▸ hmem)]
    · rfl
  rw [parseTable, splitStatements, mapM_trim hread hsplit, Option.map_some, flatMap_def]

end Persea.Guacamole
