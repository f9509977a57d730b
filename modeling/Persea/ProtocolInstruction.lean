import Persea.BaseText

/-! Guacamole instructions as text: `Instruction::encode`, and `Instruction::parse` with its five errors.
Strings are lists of characters; the length prefix of an element counts characters. -/

namespace Persea.Protocol

open Base Base.Text List

structure Instruction where
  opcode : Text
  args : List Text
deriving DecidableEq, Repr

open Instruction

inductive ParseError where
  | empty
  | malformedElement
  | invalidLength
  | truncated
  | unexpectedChar
deriving DecidableEq, Repr

def ParseError.display : ParseError → String
  | .empty => "empty instruction"
  | .malformedElement => "malformed element (missing '.')"
  | .invalidLength => "invalid length prefix"
  | .truncated => "instruction truncated"
  | .unexpectedChar => "unexpected character in instruction"

variable (i : Instruction)

def Instruction.elements : List Text := i.opcode :: i.args

def encodeElement (s : Text) : Text := decimal s.length ++ '.' :: s

def Instruction.body : Text := encodeElement i.opcode ++ i.args.flatMap (fun arg => ',' :: encodeElement arg)

def Instruction.encode : Text := i.body ++ [';']

def usizeMax : Nat := 2 ^ 64 - 1

def stripPlus : Text → Text
  | '+' :: digits => digits
  | digits => digits

/-- `str::parse::<usize>`: one leading `+` is accepted, and a value above `usize::MAX` is an error. -/
def parseUsize (s : Text) : Option Nat :=
  let digits := stripPlus s
  if digits ≠ [] ∧ digits.all Char.isDigit ∧ Nat.ofDigitChars 10 digits 0 ≤ usizeMax then
    some (Nat.ofDigitChars 10 digits 0)
  else none

def parseU32 (s : Text) : Option Nat := (parseUsize s).filter (· < 2 ^ 32)

/-- `str::parse::<i64>`: a `-` is followed by digits only. -/
def parseI64 : Text → Option Int
  | '-' :: digits =>
    if '+' ∈ digits then none else ((parseUsize digits).filter (· ≤ 2 ^ 63)).map fun n => -(n : Int)
  | s => ((parseUsize s).filter (· < 2 ^ 63)).map fun n => (n : Int)

def parseElement (remaining : Text) : Except ParseError (Text × Text) :=
  match splitOnce '.' remaining with
  | none => .error .malformedElement
  | some (digits, data) =>
    match parseUsize digits with
    | none => .error .invalidLength
    | some len => if data.length < len then .error .truncated else .ok (data.take len, data.drop len)

variable {rest digits : Text} {n : Nat} {data : Text} {i : Instruction} {left right : Text}

theorem parseElement_length {s element : Text} (h : parseElement s = .ok (element, rest)) :
    rest.length < s.length := by
  unfold parseElement at h
  split at h
  · contradiction
  · rename_i digits data hsplit
    have hlen := splitOnce_length hsplit
    split at h
    · contradiction
    · split at h
      · contradiction
      · simp only [Except.ok.injEq, Prod.mk.injEq] at h
        rw [← h.2, length_drop]
        omega

def parseElements (remaining : Text) : Except ParseError (List Text) :=
  match _helement : parseElement remaining with
  | .error e => .error e
  | .ok (element, []) => .ok [element]
  | .ok (element, sep :: rest) =>
    if sep = ',' then (parseElements rest).map (element :: ·) else .error .unexpectedChar
termination_by remaining.length
decreasing_by
  have hlen := parseElement_length _helement
  simp only [List.length_cons] at hlen
  omega

/-- `Instruction::parse`; every trailing `;` of the data is trimmed first. -/
def Instruction.parse (data : Text) : Except ParseError Instruction :=
  let data := data.rdropWhile (· = ';')
  if data = [] then .error .empty
  else
    match parseElements data with
    | .error e => .error e
    | .ok [] => .error .empty
    | .ok (opcode :: args) => .ok ⟨opcode, args⟩

theorem parseUsize_digits (hne : digits ≠ []) (hdigits : ∀ c ∈ digits, c.isDigit) :
    parseUsize digits = if Nat.ofDigitChars 10 digits 0 ≤ usizeMax then
      some (Nat.ofDigitChars 10 digits 0) else none := by
  have hplus : stripPlus digits = digits := by
    unfold stripPlus
    split
    · exact absurd (hdigits '+' mem_cons_self) (by decide)
    · rfl
  have hall : digits.all Char.isDigit := List.all_eq_true.mpr hdigits
  simp only [parseUsize, hplus, hall, hne, ne_eq, not_false_eq_true, true_and]

theorem parseUsize_decimal (hn : n ≤ usizeMax) : parseUsize (decimal n) = some n := by
  have hvalue : Nat.ofDigitChars 10 (decimal n) 0 = n := Nat.ofDigitChars_ten_toDigits
  rw [parseUsize_digits (decimal_ne_nil n) fun c hc => isDigit_of_mem_decimal hc, hvalue, if_pos hn]

/-- How elements stand in a text that is parsed: each is a length, a `.` and as many characters as it says. -/
inductive Spells : Text → List Text → Prop where
  | last {digits data : Text} (hdigits : parseUsize digits = some data.length) : Spells (digits ++ '.' :: data) [data]
  | comma {digits data rest : Text} {elements : List Text} (hdigits : parseUsize digits = some data.length)
      (hrest : Spells rest elements) : Spells (digits ++ '.' :: (data ++ ',' :: rest)) (data :: elements)

theorem Spells.ne_nil {s : Text} {elements : List Text} (h : Spells s elements) : s ≠ [] := by cases h <;> simp

theorem parseUsize_some (h : parseUsize digits = some n) :
    (∀ c ∈ stripPlus digits, c.isDigit) ∧ n ≤ usizeMax := by
  simp only [parseUsize] at h
  split_ifs at h with hdigits
  exact ⟨List.all_eq_true.mp hdigits.2.1, Option.some.inj h ▸ hdigits.2.2⟩

theorem not_mem_of_parseUsize (h : parseUsize digits = some n) : '.' ∉ digits := by
  intro hmem
  have hdot : '.' ∈ stripPlus digits := by
    unfold stripPlus
    split
    · simpa using hmem
    · exact hmem
  exact absurd ((parseUsize_some h).1 '.' hdot) (by decide)

theorem parseElement_eq_ok_iff {s : Text} : parseElement s = .ok (data, rest) ↔
      ∃ digits, parseUsize digits = some data.length ∧ s = digits ++ '.' :: (data ++ rest) := by
  constructor
  · intro h
    unfold parseElement at h
    split at h
    · contradiction
    · rename_i digits tail hsplit
      split at h
      · contradiction
      · rename_i len hlen
        split_ifs at h with hshort
        cases h
        refine ⟨digits, ?_, ?_⟩
        · rw [hlen, length_take, Nat.min_eq_left (Nat.not_lt.mp hshort)]
        · rw [take_append_drop, (splitOnce_eq_some.mp hsplit).1]
  · rintro ⟨digits, hdigits, rfl⟩
    have hlen : ¬(data ++ rest).length < data.length := by simp
    simp only [parseElement, splitOnce_append (not_mem_of_parseUsize hdigits), hdigits, hlen, if_false,
      take_left, drop_left]

theorem parseElement_encodeElement {s : Text} (hs : s.length ≤ usizeMax) (rest : Text) :
    parseElement (encodeElement s ++ rest) = .ok (s, rest) := by
  have hsplit : splitOnce '.' (encodeElement s ++ rest) = some (decimal s.length, s ++ rest) := by
    rw [encodeElement, append_assoc, cons_append]
    exact splitOnce_append (not_mem_decimal (by decide) _) _
  have hlen : ¬(s ++ rest).length < s.length := by simp
  simp only [parseElement, hsplit, parseUsize_decimal hs, hlen, if_false, take_left, drop_left]

theorem parseElements_last {s element : Text} (h : parseElement s = .ok (element, [])) :
    parseElements s = .ok [element] := by
  rw [parseElements]
  split <;> simp_all

theorem parseElements_comma {s element : Text} (h : parseElement s = .ok (element, ',' :: rest)) :
    parseElements s = (parseElements rest).map (element :: ·) := by
  rw [parseElements]
  split <;> simp_all

/-- **The grammar of `parse`**, error paths apart. -/
theorem parseElements_eq_ok_iff {s : Text} {elements : List Text} :
    parseElements s = .ok elements ↔ Spells s elements := by
  constructor
  · intro h
    fun_induction parseElements s generalizing elements with
    | case1 | case4 => contradiction
    | case2 s data hread =>
      obtain ⟨digits, hdigits, rfl⟩ := parseElement_eq_ok_iff.mp hread
      rw [append_nil, ← Except.ok.inj h]
      exact .last hdigits
    | case3 s data rest hread ih =>
      obtain ⟨digits, hdigits, rfl⟩ := parseElement_eq_ok_iff.mp hread
      cases hrest : parseElements rest with
      | error e =>
        rw [hrest] at h
        contradiction
      | ok others =>
        rw [hrest] at h
        rw [← Except.ok.inj h]
        exact .comma hdigits (ih hrest)
  · intro h
    induction h with
    | last hdigits => exact parseElements_last (parseElement_eq_ok_iff.mpr ⟨_, hdigits, by rw [append_nil]⟩)
    | comma hdigits _ ih =>
      rw [parseElements_comma (parseElement_eq_ok_iff.mpr ⟨_, hdigits, rfl⟩), ih]
      rfl

theorem parse_eq_ok_iff : parse data = .ok i ↔ Spells (data.rdropWhile (· = ';')) i.elements := by
  rw [← parseElements_eq_ok_iff]
  simp only [parse]
  by_cases hempty : data.rdropWhile (· = ';') = []
  · have hnil : parseElements [] = .error .malformedElement := by
      rw [parseElements]
      split <;> simp_all [parseElement, splitOnce]
    simp [hempty, hnil]
  · rw [if_neg hempty]
    rcases h : parseElements (data.rdropWhile (· = ';')) with e | elements
    · simp
    · cases elements with
      | nil => simp [elements]
      | cons opcode args =>
        cases i
        simp [elements]

theorem Spells.element {s : Text} {elements : List Text} (h : Spells s elements) {element : Text}
    (hmem : element ∈ elements) : element ⊆ s ∧ element.length ≤ usizeMax := by
  induction h with
  | last hdigits =>
    rw [mem_singleton.mp hmem]
    exact ⟨fun c hc => by simp [hc], (parseUsize_some hdigits).2⟩
  | comma hdigits _ ih =>
    rcases mem_cons.mp hmem with rfl | hmem
    · exact ⟨fun c hc => by simp [hc], (parseUsize_some hdigits).2⟩
    · exact ⟨fun c hc => by simp [(ih hmem).1 hc], (ih hmem).2⟩

theorem parseElements_encode (element : Text) (others : List Text)
    (hlen : ∀ s ∈ element :: others, s.length ≤ usizeMax) :
    parseElements (encodeElement element ++ others.flatMap (fun s => ',' :: encodeElement s)) =
      .ok (element :: others) := by
  induction others generalizing element with
  | nil =>
    have h := parseElement_encodeElement (hlen element mem_cons_self) []
    exact parseElements_last h
  | cons next others ih =>
    have h := parseElement_encodeElement (hlen element mem_cons_self)
      (',' :: (encodeElement next ++ others.flatMap (fun s => ',' :: encodeElement s)))
    rw [flatMap_cons, cons_append, parseElements_comma h, ih next fun s hs => hlen s (mem_cons_of_mem _ hs)]
    rfl

theorem getLast?_body (element : Text) (others : List Text) :
    (encodeElement element ++ others.flatMap (fun s => ',' :: encodeElement s)).getLast? =
      (element :: others).getLast?.map fun s => s.getLast?.getD '.' := by
  induction others generalizing element with
  | nil => simp [encodeElement, getLast?_cons]
  | cons next others ih =>
    have htail : (encodeElement next ++ others.flatMap fun s => ',' :: encodeElement s).getLast? ≠ none := by
      simp [encodeElement]
    obtain ⟨c, hc⟩ := Option.ne_none_iff_exists'.mp htail
    rw [flatMap_cons, cons_append, getLast?_append, getLast?_cons, hc, getLast?_cons_cons, ← ih next, hc]
    rfl

theorem body_ne_nil (i : Instruction) : i.body ≠ [] := by simp [body, encodeElement]

theorem parse_body_of_getLast (hlen : ∀ s ∈ i.elements, s.length ≤ usizeMax)
    (hlast : i.body.getLast? ≠ some ';') : parse i.body = .ok i := by
  have htrim : i.body.rdropWhile (· = ';') = i.body := by
    rw [rdropWhile_eq_self_iff]
    intro hne hsemi
    exact hlast (by rw [getLast?_eq_some_getLast hne, of_decide_eq_true hsemi])
  simp only [parse, htrim, body_ne_nil, if_false]
  rw [body, parseElements_encode i.opcode i.args hlen]

theorem parse_body (hlen : ∀ s ∈ i.elements, s.length ≤ usizeMax) (hsemi : ';' ∉ i.body) : parse i.body = .ok i :=
  parse_body_of_getLast hlen fun hlast => hsemi (mem_of_getLast? hlast)

theorem parseElement_cut {s : Text} (hs : s.length ≤ usizeMax)
    (hcut : encodeElement s = left ++ ';' :: right) : parseElement left = .error .truncated := by
  have hdigits : ';' ∉ decimal s.length := not_mem_decimal (by decide) _
  rcases append_eq_append_iff.mp hcut with ⟨data, hleft, hdata⟩ | ⟨digits, hdigits', hright⟩
  · cases data with
    | nil => simp at hdata
    | cons c data =>
      rw [cons_append, List.cons.injEq] at hdata
      obtain ⟨rfl, hdata⟩ := hdata
      have hsplit : splitOnce '.' left = some (decimal s.length, data) := by
        rw [hleft]
        exact splitOnce_append (not_mem_decimal (by decide) _) _
      have hlen : data.length < s.length := by
        rw [hdata]
        simp
      simp only [parseElement, hsplit, parseUsize_decimal hs, if_pos hlen]
  · cases digits with
    | nil => simp at hright
    | cons c digits =>
      obtain ⟨rfl, -⟩ := List.cons.inj hright
      exact absurd (hdigits' ▸ mem_append_right left mem_cons_self) hdigits

theorem parseElements_cut {element : Text} {others : List Text} (hlen : ∀ s ∈ element :: others, s.length ≤ usizeMax)
    (hcut : encodeElement element ++ others.flatMap (fun s => ',' :: encodeElement s) = left ++ ';' :: right) :
    parseElements left = .error .truncated := by
  induction others generalizing element left with
  | nil =>
    rw [flatMap_nil, append_nil] at hcut
    rw [parseElements]
    split <;> simp_all [parseElement_cut (hlen element mem_cons_self) hcut]
  | cons next others ih =>
    rw [flatMap_cons, cons_append] at hcut
    rcases append_eq_append_iff.mp hcut with ⟨rest, hleft, hrest⟩ | ⟨data, helement, hdata⟩
    · -- the cut is in a later element
      cases rest with
      | nil => simp at hrest
      | cons c rest =>
        rw [cons_append, List.cons.injEq] at hrest
        obtain ⟨rfl, hrest⟩ := hrest
        have hread := parseElement_encodeElement (hlen element mem_cons_self) (',' :: rest)
        rw [hleft, parseElements_comma hread, ih (fun s hs => hlen s (mem_cons_of_mem _ hs)) hrest]
        rfl
    · cases data with
      | nil => simp at hdata
      | cons c data =>
        obtain ⟨rfl, -⟩ := List.cons.inj hdata
        have hshort := parseElement_cut (hlen element mem_cons_self) helement
        rw [parseElements]
        split <;> simp_all

theorem parse_cut (hlen : ∀ s ∈ i.elements, s.length ≤ usizeMax)
    (htrim : data.rdropWhile (· = ';') = left) (hcut : i.body = left ++ ';' :: right) :
    parse data = .error .truncated := by
  have hread : parseElements left = .error .truncated := parseElements_cut hlen hcut
  have hne : left ≠ [] := by
    rintro rfl
    rw [parseElements] at hread
    split at hread <;> simp_all [parseElement, splitOnce]
  simp only [parse, htrim, hne, if_false, hread]

theorem parse_encode_eq_parse_body (i : Instruction) : parse i.encode = parse i.body := by
  have htrim : i.encode.rdropWhile (· = ';') = i.body.rdropWhile (· = ';') := rdropWhile_concat_pos _ _ _ (by simp)
  simp only [parse, htrim]

theorem exists_trimmed (hlast : i.body.getLast? = some ';') :
    ∃ right, i.body = i.body.rdropWhile (· = ';') ++ ';' :: right := by
  have hsplit : i.body.rdropWhile (· = ';') ++ i.body.rtakeWhile (· = ';') = i.body := rdropWhile_append_rtakeWhile
  cases htake : i.body.rtakeWhile (· = ';') with
  | nil =>
    rw [rtakeWhile_eq_nil_iff] at htake
    rw [getLast?_eq_some_getLast (body_ne_nil i), Option.some.injEq] at hlast
    exact absurd (decide_eq_true hlast) (htake (body_ne_nil i))
  | cons c right =>
    have hmem : c ∈ i.body.rtakeWhile (· = ';') := htake ▸ mem_cons_self
    have hc := mem_rtakeWhile_imp hmem
    rw [htake, of_decide_eq_true hc] at hsplit
    exact ⟨right, hsplit.symm⟩

/-- **Round trip.** `parse` gives an encoded instruction back exactly when its last element does not end in a
`;`: every trailing `;` is trimmed, also one that is data. No text has more than `usize::MAX` characters. -/
theorem parse_encode_iff {i : Instruction} (hlen : ∀ s ∈ i.elements, s.length ≤ usizeMax) :
    parse i.encode = .ok i ↔ ∀ last ∈ i.elements.getLast?, last.getLast? ≠ some ';' := by
  have hbody : i.body.getLast? = some ';' ↔ ∃ last ∈ i.elements.getLast?, last.getLast? = some ';' := by
    rw [body, getLast?_body, Option.map_eq_some_iff]
    refine exists_congr fun last => and_congr_right fun _ => ?_
    cases last.getLast? <;> simp
  rw [parse_encode_eq_parse_body]
  constructor
  · intro hparse last hmem hsemi
    obtain ⟨right, hright⟩ := exists_trimmed (hbody.mpr ⟨last, hmem, hsemi⟩)
    rw [parse_cut hlen rfl hright] at hparse
    contradiction
  · intro hlast
    refine parse_body_of_getLast hlen fun hsemi => ?_
    obtain ⟨last, hmem, hsemi⟩ := hbody.mp hsemi
    exact hlast last hmem hsemi

theorem parse_encode_separators : parse (encode ⟨"a;b", ["3.x,", "é"]⟩) = .ok ⟨"a;b", ["3.x,", "é"]⟩ :=
  (parse_encode_iff (by decide)).mpr (by decide)

/-- An upload to a file whose name ends in `;`. -/
theorem parse_encode_trailing_semicolon : parse (encode ⟨"file", ["0", "text/plain", "a;"]⟩) = .error .truncated := by
  decide +kernel

end Persea.Protocol
