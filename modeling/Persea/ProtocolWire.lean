import Persea.BaseUtf8
import Persea.ProtocolInstruction

/-! The wire format as guacd reads it, element by element, by the declared number of characters. Encoded instructions
are read back whole, and not before their last byte. -/

namespace Persea.Protocol

open Base Base.Text List Option Utf8

abbrev Bytes := List UInt8

def isAsciiDigit (b : UInt8) : Bool := '0'.toUInt8 ≤ b && b ≤ '9'.toUInt8

def digitsValue (digits : Bytes) : Nat := digits.foldl (fun value b => 10 * value + (b.toNat - '0'.toNat)) 0

def takeChars : Nat → Bytes → Option (Bytes × Bytes)
  | 0, rest => some ([], rest)
  | _ + 1, [] => none
  | n + 1, b :: rest =>
    match Utf8.leadWidth b with
    | none => none
    | some width =>
      if rest.length + 1 < width then none
      else (takeChars n ((b :: rest).drop width)).map fun (data, tail) =>
        ((b :: rest).take width ++ data, tail)

def readElement (buf : Bytes) : Option (Bytes × Bytes) :=
  match buf.dropWhile isAsciiDigit with
  | [] => none
  | sep :: data =>
    if sep = '.'.toUInt8 ∧ buf.takeWhile isAsciiDigit ≠ [] then
      takeChars (digitsValue (buf.takeWhile isAsciiDigit)) data
    else none

/-! ### Reading consumes bytes -/

variable {buf data rest : Bytes} {elements : List Bytes}

theorem append_of_takeChars {n : Nat} (h : takeChars n buf = some (data, rest)) : data ++ rest = buf := by
  induction n generalizing buf data with
  | zero =>
    simp only [takeChars, some.injEq, Prod.mk.injEq] at h
    rw [← h.1, ← h.2, nil_append]
  | succ n ih =>
    cases buf with
    | nil => simp [takeChars] at h
    | cons b buf =>
      rw [takeChars] at h
      split at h
      · contradiction
      · rename_i width _
        split at h
        · contradiction
        · obtain ⟨⟨data', rest'⟩, htake, heq⟩ := map_eq_some_iff.mp h
          simp only [Prod.mk.injEq] at heq
          obtain ⟨rfl, rfl⟩ := heq
          rw [append_assoc, ih htake, take_append_drop]

theorem exists_digits (h : readElement buf = some (data, rest)) :
    ∃ digits, buf = digits ++ '.'.toUInt8 :: (data ++ rest) ∧ ∀ b ∈ digits, isAsciiDigit b := by
  unfold readElement at h
  split at h
  · contradiction
  · rename_i sep tail hdrop
    split at h
    · rename_i hsep
      refine ⟨buf.takeWhile isAsciiDigit, ?_, fun b hb => mem_takeWhile_imp hb⟩
      rw [append_of_takeChars h, ← hsep.1, ← hdrop, takeWhile_append_dropWhile]
    · contradiction

theorem readElement_length (h : readElement buf = some (data, rest)) : rest.length < buf.length := by
  obtain ⟨digits, rfl, -⟩ := exists_digits h
  rw [length_append, length_cons, length_append]
  omega

def readInstruction (buf : Bytes) : Option (List Bytes × Bytes) :=
  match _helement : readElement buf with
  | none => none
  | some (_, []) => none
  | some (data, sep :: rest) =>
    if sep = ';'.toUInt8 then some ([data], rest)
    else if sep = ','.toUInt8 then
      (readInstruction rest).map fun (others, tail) => (data :: others, tail)
    else none
termination_by buf.length
decreasing_by
  have hlen := readElement_length _helement
  simp only [List.length_cons] at hlen
  omega

theorem readInstruction_of_incomplete (h : readElement buf = none) : readInstruction buf = none := by
  rw [readInstruction]
  split <;> simp_all

theorem readInstruction_of_element {sep : UInt8} (h : readElement buf = some (data, sep :: rest)) :
    readInstruction buf =
      if sep = ';'.toUInt8 then some ([data], rest)
      else if sep = ','.toUInt8 then
        (readInstruction rest).map fun (others, tail) => (data :: others, tail)
      else none := by
  rw [readInstruction]
  split <;> simp_all

theorem readInstruction_length (h : readInstruction buf = some (elements, rest)) : rest.length < buf.length := by
  fun_induction readInstruction buf generalizing elements with
  | case3 buf data tail helement =>
    have hlen := readElement_length helement
    simp only [some.injEq, Prod.mk.injEq] at h
    rw [← h.2]
    simp only [length_cons] at hlen
    omega
  | case4 buf data tail helement hsemi ih =>
    have hlen := readElement_length helement
    obtain ⟨⟨others, tail'⟩, hread, heq⟩ := map_eq_some_iff.mp h
    simp only [Prod.mk.injEq] at heq
    have hrest := ih (heq.2 ▸ hread)
    simp only [length_cons] at hlen
    omega
  | _ => contradiction

def readStream (buf : Bytes) : List (List Bytes) × Bytes :=
  match _hread : readInstruction buf with
  | none => ([], buf)
  | some (elements, rest) => (elements :: (readStream rest).1, (readStream rest).2)
termination_by buf.length
decreasing_by
  all_goals exact readInstruction_length _hread

theorem readStream_of_incomplete (h : readInstruction buf = none) : readStream buf = ([], buf) := by
  rw [readStream]
  split <;> simp_all

theorem readStream_of_instruction (h : readInstruction buf = some (elements, rest)) :
    readStream buf = (elements :: (readStream rest).1, (readStream rest).2) := by
  rw [readStream]
  split <;> simp_all

theorem readStream_rest_of_nil (h : (readStream buf).1 = []) : (readStream buf).2 = buf := by
  cases hread : readInstruction buf with
  | none => rw [readStream_of_incomplete hread]
  | some result =>
    rw [readStream_of_instruction hread] at h
    contradiction

theorem takeChars_append {n : Nat} (h : takeChars n buf = some (data, rest))
    (more : Bytes) : takeChars n (buf ++ more) = some (data, rest ++ more) := by
  induction n generalizing buf data with
  | zero =>
    simp only [takeChars, some.injEq, Prod.mk.injEq] at h
    rw [takeChars, h.1, h.2]
  | succ n ih =>
    cases buf with
    | nil => simp [takeChars] at h
    | cons b buf =>
      rw [takeChars] at h
      rw [cons_append, takeChars]
      split at h
      · contradiction
      · rename_i width hwidth
        split at h
        · contradiction
        · rename_i hlen
          obtain ⟨⟨data', rest'⟩, htake, heq⟩ := map_eq_some_iff.mp h
          simp only [Prod.mk.injEq] at heq
          have hwide : width ≤ (b :: buf).length := by
            rw [length_cons]
            omega
          have hshort : ¬(buf ++ more).length + 1 < width := by
            rw [length_append]
            omega
          have hmore := ih (heq.2 ▸ htake)
          rw [← drop_append_of_le_length hwide, cons_append] at hmore
          rw [if_neg hshort, hmore, map_some, ← cons_append, take_append_of_le_length hwide, ← heq.1]

theorem readElement_append (h : readElement buf = some (data, rest))
    (more : Bytes) : readElement (buf ++ more) = some (data, rest ++ more) := by
  unfold readElement at h
  split at h
  · contradiction
  · rename_i sep tail hdrop
    have hdrop' : (buf ++ more).dropWhile isAsciiDigit = sep :: (tail ++ more) := by
      rw [dropWhile_append, hdrop]
      rfl
    have htake' : (buf ++ more).takeWhile isAsciiDigit = buf.takeWhile isAsciiDigit := by
      have hsplit := takeWhile_append_dropWhile (p := isAsciiDigit) (l := buf)
      have hlen := congrArg List.length hsplit
      rw [length_append, hdrop, length_cons] at hlen
      rw [takeWhile_append, if_neg (by omega)]
    split at h
    · rename_i hsep
      rw [readElement, hdrop']
      simp only [htake', hsep, ne_eq, not_false_eq_true, and_self, if_true]
      exact takeChars_append h more
    · contradiction

theorem readInstruction_append (h : readInstruction buf = some (elements, rest)) (more : Bytes) :
    readInstruction (buf ++ more) = some (elements, rest ++ more) := by
  -- along the recursion of the reader: each element read from `buf` is read from `buf ++ more`
  fun_induction readInstruction buf generalizing elements with
  | case3 buf data tail helement =>
    have hmore : readElement (buf ++ more) = some (data, ';'.toUInt8 :: (tail ++ more)) :=
      readElement_append helement more
    simp only [some.injEq, Prod.mk.injEq] at h
    rw [readInstruction_of_element hmore, if_pos rfl, h.1, h.2]
  | case4 buf data tail helement hsemi ih =>
    have hmore : readElement (buf ++ more) = some (data, ','.toUInt8 :: (tail ++ more)) :=
      readElement_append helement more
    obtain ⟨⟨others, tail'⟩, hread, heq⟩ := map_eq_some_iff.mp h
    simp only [Prod.mk.injEq] at heq
    rw [readInstruction_of_element hmore, if_neg hsemi, if_pos rfl, ih (heq.2 ▸ hread), ← heq.1]
    rfl
  | _ => contradiction

theorem readStream_prefix_append (buf more : Bytes) : (readStream buf).1 <+: (readStream (buf ++ more)).1 := by
  fun_induction readStream buf with
  | case1 buf hread => exact nil_prefix
  | case2 buf elements rest hread ih =>
    rw [readStream_of_instruction (readInstruction_append hread more)]
    exact (prefix_cons_inj elements).mpr ih

theorem takeChars_encode (text : Text) (rest : Bytes) :
    takeChars text.length (Utf8.encode text ++ rest) = some (Utf8.encode text, rest) := by
  induction text with
  | nil => rfl
  | cons c text ih =>
    obtain ⟨b, tail, hshape, hwidth, -, -⟩ := encodeChar_shape c
    have hlen : ¬(tail ++ (Utf8.encode text ++ rest)).length + 1 < tail.length + 1 := by
      rw [length_append]
      omega
    rw [encode_cons, hshape, append_assoc, cons_append, length_cons, takeChars, hwidth]
    simp only [if_neg hlen, drop_succ_cons, drop_left, take_succ_cons, take_left, ih, map_some]

theorem encode_digit {c : Char} (hc : c.isDigit) :
    String.utf8EncodeChar c = [UInt8.ofNat c.toNat] ∧ isAsciiDigit (UInt8.ofNat c.toNat) ∧
      (UInt8.ofNat c.toNat).toNat = c.toNat := by
  have hrange : 48 ≤ c.toNat ∧ c.toNat ≤ 57 := Char.isDigit_iff_toNat.mp hc
  have hnat : (UInt8.ofNat c.toNat).toNat = c.toNat := by rw [UInt8.toNat_ofNat', Nat.mod_eq_of_lt (by omega)]
  refine ⟨encodeChar_ascii (by omega), ?_, hnat⟩
  simp only [isAsciiDigit, Bool.and_eq_true, decide_eq_true_eq, UInt8.le_iff_toNat_le, hnat]
  exact hrange

variable (instrs : List Instruction) (i : Instruction) {digits : Text} {tail : Bytes}

theorem isAsciiDigit_of_mem_encode (hdigits : ∀ c ∈ digits, c.isDigit) :
    ∀ b ∈ Utf8.encode digits, isAsciiDigit b := by
  intro b hb
  obtain ⟨c, hc, hmem⟩ := mem_flatMap.mp hb
  obtain ⟨hencode, hdigit, -⟩ := encode_digit (hdigits c hc)
  rw [hencode, mem_singleton] at hmem
  rw [hmem, hdigit]

theorem digitsValue_encode (hdigits : ∀ c ∈ digits, c.isDigit) :
    digitsValue (Utf8.encode digits) = Nat.ofDigitChars 10 digits 0 := by
  unfold digitsValue Nat.ofDigitChars
  generalize (0 : Nat) = value
  induction digits generalizing value with
  | nil => rfl
  | cons c digits ih =>
    obtain ⟨hencode, -, hnat⟩ := encode_digit (hdigits c mem_cons_self)
    rw [encode_cons, hencode, foldl_append, foldl_cons, foldl_cons, foldl_nil,
      ih (fun d hd => hdigits d (mem_cons_of_mem _ hd)), hnat]

theorem readElement_encodeElement (s : Text) (rest : Bytes) :
    readElement (Utf8.encode (encodeElement s) ++ rest) = some (Utf8.encode s, rest) := by
  have hdigits : ∀ c ∈ decimal s.length, c.isDigit := fun c hc => isDigit_of_mem_decimal hc
  have hall := isAsciiDigit_of_mem_encode hdigits
  have hsplit : Utf8.encode (encodeElement s) ++ rest =
      Utf8.encode (decimal s.length) ++ '.'.toUInt8 :: (Utf8.encode s ++ rest) := by
    simp only [encodeElement, encode_append, encode_cons, append_assoc]
    rfl
  have hdot : ¬isAsciiDigit '.'.toUInt8 := by decide
  have hne : Utf8.encode (decimal s.length) ≠ [] := by
    obtain ⟨c, digits, hcons⟩ := exists_cons_of_ne_nil (decimal_ne_nil s.length)
    rw [hcons, encode_cons]
    exact append_ne_nil_of_left_ne_nil (encodeChar_ne_nil c) _
  have hdrop : (Utf8.encode (encodeElement s) ++ rest).dropWhile isAsciiDigit =
      '.'.toUInt8 :: (Utf8.encode s ++ rest) := by
    rw [hsplit, dropWhile_append_of_pos hall, dropWhile_cons_of_neg hdot]
  have htake : (Utf8.encode (encodeElement s) ++ rest).takeWhile isAsciiDigit = Utf8.encode (decimal s.length) := by
    rw [hsplit, takeWhile_append_of_pos hall, takeWhile_cons_of_neg hdot, append_nil]
  have hvalue : digitsValue (Utf8.encode (decimal s.length)) = s.length := by
    rw [digitsValue_encode hdigits]
    exact Nat.ofDigitChars_ten_toDigits
  rw [readElement, hdrop]
  simp only [htake, hne, ne_eq, not_false_eq_true, and_self, if_true, hvalue]
  exact takeChars_encode s rest

def Instruction.bytes (i : Instruction) : Bytes := Utf8.encode i.encode

def Instruction.wire (i : Instruction) : List Bytes := i.elements.map Utf8.encode

theorem readInstruction_encodeElements (element : Text) (others : List Text) (rest : Bytes) :
    readInstruction (Utf8.encode (encodeElement element ++
        others.flatMap (fun s => ',' :: encodeElement s) ++ [';']) ++ rest) =
      some ((element :: others).map Utf8.encode, rest) := by
  induction others generalizing element with
  | nil =>
    have helement := readElement_encodeElement element (';'.toUInt8 :: rest)
    simp only [flatMap_nil, append_nil, encode_append, append_assoc]
    exact (readInstruction_of_element helement).trans (if_pos rfl)
  | cons next others ih =>
    have helement := readElement_encodeElement element (','.toUInt8 :: (Utf8.encode (encodeElement next ++
      others.flatMap (fun s => ',' :: encodeElement s) ++ [';']) ++ rest))
    have hread := readInstruction_of_element helement
    rw [if_neg (by decide), if_pos rfl, ih next] at hread
    simp only [flatMap_cons, cons_append, encode_append, encode_cons, append_assoc] at hread ⊢
    exact hread

theorem readInstruction_bytes (rest : Bytes) : readInstruction (i.bytes ++ rest) = some (i.wire, rest) :=
  readInstruction_encodeElements i.opcode i.args rest

theorem bytes_ne_nil : i.bytes ≠ [] := by
  intro h
  have hread := readInstruction_bytes i []
  rw [h, nil_append, readInstruction_of_incomplete rfl] at hread
  contradiction

theorem readInstruction_of_begins {i : Instruction} (hbegins : tail <+: i.bytes) (hne : tail ≠ i.bytes) :
    readInstruction tail = none := by
  obtain ⟨more, hmore⟩ := hbegins
  cases hread : readInstruction tail with
  | none => rfl
  | some result =>
    obtain ⟨elements, rest⟩ := result
    have hwhole := readInstruction_append hread more
    have hbytes := readInstruction_bytes i []
    rw [append_nil, ← hmore, hwhole] at hbytes
    simp only [some.injEq, Prod.mk.injEq, append_eq_nil_iff] at hbytes
    rw [hbytes.2.2, append_nil] at hmore
    exact absurd hmore hne

def streamBytes (instrs : List Instruction) : Bytes := (instrs.map Instruction.bytes).flatten

theorem streamBytes_append (left right : List Instruction) :
    streamBytes (left ++ right) = streamBytes left ++ streamBytes right := by
  simp [streamBytes]

theorem readStream_streamBytes (htail : readInstruction tail = none) :
    readStream (streamBytes instrs ++ tail) = (instrs.map Instruction.wire, tail) := by
  induction instrs with
  | nil => exact readStream_of_incomplete htail
  | cons i instrs ih =>
    have hread := readInstruction_bytes i (streamBytes instrs ++ tail)
    rw [← append_assoc] at hread
    have hstream := readStream_of_instruction hread
    rw [ih] at hstream
    exact hstream

theorem readStream_streamBytes_nil : readStream (streamBytes instrs) = (instrs.map Instruction.wire, []) := by
  have hnil : readInstruction [] = none := readInstruction_of_incomplete rfl
  have h := readStream_streamBytes instrs hnil
  rwa [append_nil] at h

end Persea.Protocol
