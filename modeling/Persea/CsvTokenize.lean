import Persea.BaseText

/-! CSV texts: `csv_escape_field` writes a field, and `tokenize` of the address-book import reads records of fields. The
tokenizer is a state machine with one character of lookahead, for the second quote of a pair and for the line feed
of a CRLF. -/

namespace Persea.Csv

open Base List

def isFormulaTrigger (c : Char) : Bool := c ∈ ['=', '+', '-', '@', '\t', '\r']

def safeField : Text → Text
  | [] => []
  | c :: rest => if isFormulaTrigger c then '\'' :: c :: rest else c :: rest

def doubleQuotes (field : Text) : Text := field.flatMap fun c => if c = '"' then ['"', '"'] else [c]

def needsQuotes (c : Char) : Bool := c = ',' || c = '"' || c = '\n' || c = '\r'

def csvEscapeField (field : Text) : Text :=
  if (safeField field).any needsQuotes then '"' :: doubleQuotes (safeField field) ++ ['"'] else safeField field

def csvLine (record : List Text) : Text := [','].intercalate (record.map csvEscapeField) ++ ['\n']

structure CsvError where
  row : Nat
  message : String
deriving DecidableEq, Repr

structure Scanner where
  records : List (List Text)
  record : List Text
  field : Text
  inQuotes : Bool
  recordStarted : Bool
deriving DecidableEq, Repr

def Scanner.new : Scanner := ⟨[], [], [], false, false⟩

variable (s : Scanner)

def Scanner.endRecord : Scanner :=
  { s with records := s.records ++ [s.record ++ [s.field]], record := [], field := [], recordStarted := false }

def Scanner.step (c : Char) (next : Option Char) : Scanner :=
  if c = '"' ∧ s.inQuotes then
    if next = some '"' then { s with field := s.field ++ ['"'] } else { s with inQuotes := false }
  else if c = '"' ∧ s.field = [] then { s with inQuotes := true, recordStarted := true }
  else if c = '"' then { s with field := s.field ++ ['"'] }
  else if c = ',' ∧ !s.inQuotes then
    { s with record := s.record ++ [s.field], field := [], recordStarted := true }
  else if c = '\n' ∧ !s.inQuotes then s.endRecord
  else if c = '\r' ∧ !s.inQuotes then s.endRecord
  else { s with field := s.field ++ [c], recordStarted := true }

def Scanner.takesNext (c : Char) (next : Option Char) : Bool :=
  (c = '"' && s.inQuotes && next = some '"') || (c = '\r' && !s.inQuotes && next = some '\n')

def Scanner.finish : Except CsvError (List (List Text)) :=
  if s.inQuotes then .error ⟨s.records.length, "unterminated quoted field"⟩
  else if s.recordStarted ∨ s.record ≠ [] ∨ s.field ≠ [] then .ok (s.records ++ [s.record ++ [s.field]])
  else .ok s.records

def Scanner.run (s : Scanner) : Text → Except CsvError (List (List Text))
  | [] => s.finish
  | [c] => (s.step c none).finish
  | c :: d :: rest =>
    if s.takesNext c (some d) then (s.step c (some d)).run rest else (s.step c (some d)).run (d :: rest)

def tokenize (input : Text) : Except CsvError (List (List Text)) := Scanner.new.run input

namespace Scanner

variable {s : Scanner} {c : Char} {rest : Text}

theorem run_cons (h : s.takesNext c rest.head? = false) : s.run (c :: rest) = (s.step c rest.head?).run rest := by
  cases rest with
  | nil => rfl
  | cons d rest =>
    rw [run, if_neg (by rw [← head?_cons (l := rest), h]; exact Bool.false_ne_true)]
    rfl

theorem takesNext_of_ne (hquote : c ≠ '"') (hcr : c ≠ '\r') (next : Option Char) : s.takesNext c next = false := by
  simp [takesNext, hquote, hcr]

theorem run_plain (hc : needsQuotes c = false) :
    s.run (c :: rest) = run { s with field := s.field ++ [c], recordStarted := true } rest := by
  simp only [needsQuotes, Bool.or_eq_false_iff, decide_eq_false_iff_not] at hc
  obtain ⟨⟨⟨hcomma, hquote⟩, hlf⟩, hcr⟩ := hc
  rw [run_cons (takesNext_of_ne hquote hcr _), step]
  simp only [hcomma, hquote, hlf, hcr, false_and, if_false]

theorem run_comma (hquotes : s.inQuotes = false) :
    s.run (',' :: rest) = run { s with record := s.record ++ [s.field], field := [], recordStarted := true } rest := by
  rw [run_cons (takesNext_of_ne (by decide) (by decide) _), step]
  simp [hquotes]

theorem run_newline (hquotes : s.inQuotes = false) : s.run ('\n' :: rest) = s.endRecord.run rest := by
  rw [run_cons (takesNext_of_ne (by decide) (by decide) _), step]
  simp [hquotes]

theorem run_open (hquotes : s.inQuotes = false) (hfield : s.field = []) :
    s.run ('"' :: rest) = run { s with inQuotes := true, recordStarted := true } rest := by
  rw [run_cons (by simp [takesNext, hquotes]), step]
  simp [hquotes, hfield]

theorem run_close (hquotes : s.inQuotes) (hrest : rest.head? ≠ some '"') :
    s.run ('"' :: rest) = run { s with inQuotes := false } rest := by
  rw [run_cons (by simp [takesNext, hrest]), step]
  simp [hquotes, hrest]

theorem run_pair (hquotes : s.inQuotes) :
    s.run ('"' :: '"' :: rest) = run { s with field := s.field ++ ['"'] } rest := by
  rw [run, if_pos (by simp [takesNext, hquotes]), step]
  simp [hquotes]

theorem run_quoted (hquotes : s.inQuotes) (hc : c ≠ '"') :
    s.run (c :: rest) = run { s with field := s.field ++ [c], recordStarted := true } rest := by
  rw [run_cons (by simp [takesNext, hquotes, hc]), step]
  simp [hquotes, hc]

theorem exists_run_text {s : Scanner} {text rest : Text} (htext : text.any needsQuotes = false) :
    ∃ recordStarted, s.run (text ++ rest) = run { s with field := s.field ++ text, recordStarted } rest := by
  induction text generalizing s with
  | nil => exact ⟨s.recordStarted, by simp⟩
  | cons c text ih =>
    rw [any_cons, Bool.or_eq_false_iff] at htext
    obtain ⟨recordStarted, hrun⟩ := @ih { s with field := s.field ++ [c], recordStarted := true } htext.2
    refine ⟨recordStarted, ?_⟩
    rw [cons_append, run_plain htext.1, hrun, append_assoc, singleton_append]

theorem exists_run_doubleQuotes {s : Scanner} {text rest : Text} (hquotes : s.inQuotes)
    (hrest : rest.head? ≠ some '"') :
    ∃ recordStarted, s.run (doubleQuotes text ++ '"' :: rest) =
      run { s with field := s.field ++ text, inQuotes := false, recordStarted } rest := by
  induction text generalizing s with
  | nil =>
    refine ⟨s.recordStarted, ?_⟩
    change s.run ('"' :: rest) = _
    rw [run_close hquotes hrest, append_nil]
  | cons c text ih =>
    by_cases hc : c = '"'
    · subst hc
      obtain ⟨recordStarted, hrun⟩ := @ih { s with field := s.field ++ ['"'] } hquotes
      refine ⟨recordStarted, ?_⟩
      change s.run ('"' :: '"' :: (doubleQuotes text ++ '"' :: rest)) = _
      rw [run_pair hquotes, hrun, append_assoc, singleton_append]
    · obtain ⟨recordStarted, hrun⟩ := @ih { s with field := s.field ++ [c], recordStarted := true } hquotes
      refine ⟨recordStarted, ?_⟩
      have hcons : doubleQuotes (c :: text) = c :: doubleQuotes text := by
        rw [doubleQuotes, flatMap_cons, if_neg hc]
        rfl
      rw [hcons, cons_append, run_quoted hquotes hc, hrun, append_assoc, singleton_append]

theorem exists_run_csvEscapeField (hquotes : s.inQuotes = false) (hfield : s.field = []) (field : Text)
    (hrest : rest.head? ≠ some '"') :
    ∃ recordStarted, s.run (csvEscapeField field ++ rest) =
      run { s with field := safeField field, inQuotes := false, recordStarted } rest := by
  unfold csvEscapeField
  cases hany : (safeField field).any needsQuotes with
  | false =>
    obtain ⟨recordStarted, hrun⟩ := @exists_run_text s (safeField field) rest hany
    rw [hfield, nil_append, hquotes] at hrun
    exact ⟨recordStarted, hrun⟩
  | true =>
    obtain ⟨recordStarted, hrun⟩ := @exists_run_doubleQuotes { s with inQuotes := true, recordStarted := true }
      (safeField field) rest rfl hrest
    refine ⟨recordStarted, ?_⟩
    rw [if_pos rfl, cons_append, cons_append, append_assoc, singleton_append,
      run_open hquotes hfield, hrun, hfield, nil_append]

theorem run_csvLine (hquotes : s.inQuotes = false) (hfield : s.field = []) {record : List Text}
    (hrecord : record ≠ []) (rest : Text) :
    s.run (csvLine record ++ rest) =
      run ⟨s.records ++ [s.record ++ record.map safeField], [], [], false, false⟩ rest := by
  induction record generalizing s with
  | nil => contradiction
  | cons field record ih =>
    cases record with
    | nil =>
      have hline : csvLine [field] ++ rest = csvEscapeField field ++ '\n' :: rest := by simp [csvLine]
      have hnext : ('\n' :: rest).head? ≠ some '"' := by simp
      obtain ⟨recordStarted, hrun⟩ := exists_run_csvEscapeField hquotes hfield field hnext
      rw [hline, hrun, run_newline rfl]
      rfl
    | cons next record =>
      have hline : csvLine (field :: next :: record) ++ rest =
          csvEscapeField field ++ ',' :: (csvLine (next :: record) ++ rest) := by
        simp [csvLine, List.intercalate]
      have hnext : (',' :: (csvLine (next :: record) ++ rest)).head? ≠ some '"' := by simp
      obtain ⟨recordStarted, hrun⟩ := exists_run_csvEscapeField hquotes hfield field hnext
      rw [hline, hrun, run_comma rfl, ih rfl rfl (cons_ne_nil _ _)]
      simp only [map_cons, append_assoc, singleton_append]

theorem run_csvLines (hquotes : s.inQuotes = false) (hfield : s.field = []) (hrecord : s.record = [])
    (hstarted : s.recordStarted = false) {records : List (List Text)} (hrecords : ∀ record ∈ records, record ≠ []) :
    s.run (records.flatMap csvLine) = .ok (s.records ++ records.map (·.map safeField)) := by
  induction records generalizing s with
  | nil => simp [run, finish, hquotes, hfield, hrecord, hstarted]
  | cons record records ih =>
    rw [flatMap_cons, run_csvLine hquotes hfield (hrecords record mem_cons_self),
      ih rfl rfl rfl rfl fun r hr => hrecords r (mem_cons_of_mem _ hr), hrecord]
    simp

end Scanner

theorem not_isFormulaTrigger_safeField (field : Text) : ∀ c ∈ (safeField field).head?, isFormulaTrigger c = false := by
  intro c hc
  cases field with
  | nil => contradiction
  | cons d rest =>
    rw [safeField] at hc
    split_ifs at hc with hd
    · rw [← Option.some.inj hc]
      decide
    · rw [← Option.some.inj hc]
      exact Bool.eq_false_iff.mpr hd

/-- **Export and import agree**: the records that were written are read back, with an apostrophe before a field that
would be taken for a formula. -/
theorem tokenize_csvLines {records : List (List Text)} (hrecords : ∀ record ∈ records, record ≠ []) :
    tokenize (records.flatMap csvLine) = .ok (records.map (·.map safeField)) ∧
      ∀ record ∈ records.map (·.map safeField), ∀ field ∈ record, ∀ c ∈ field.head?, isFormulaTrigger c = false := by
  refine ⟨Scanner.run_csvLines rfl rfl rfl rfl hrecords, ?_⟩
  intro record hrecord field hfield
  obtain ⟨written, -, rfl⟩ := List.mem_map.mp hrecord
  obtain ⟨original, -, rfl⟩ := List.mem_map.mp hfield
  exact not_isFormulaTrigger_safeField original

/-- Commas, quotes, line ends, an empty field, a formula and a record of one empty field. -/
theorem tokenize_csvLines_mixed :
    tokenize ([["a,b".toList, "\"q\"".toList, "x\r\ny".toList, []], ["=1+1".toList], [[]]].flatMap csvLine) =
      .ok [["a,b".toList, "\"q\"".toList, "x\r\ny".toList, []], ["'=1+1".toList], [[]]] :=
  (tokenize_csvLines (by decide)).1

end Persea.Csv
