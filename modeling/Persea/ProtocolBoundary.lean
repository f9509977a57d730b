import Persea.ProtocolWire

/-! `last_instruction_boundary`, with the structural walk for small ASCII buffers in front of it. For every buffer the
answer is the end of what the wire format reads. -/

namespace Persea.Protocol

open Base Base.Text List Utf8

def boundaryFastPathMax : Nat := 1024

def lengthPrefix (rest : Bytes) : Option (Nat × Bytes) :=
  match rest.dropWhile isAsciiDigit with
  | [] => none
  | sep :: data =>
    if rest.takeWhile isAsciiDigit = [] ∨ sep ≠ '.'.toUInt8 then none
    else
      match (Utf8.decode (rest.takeWhile isAsciiDigit)).bind parseUsize with
      | none => none
      | some len => some (len, data)

/-- Skip `len` characters of element data. A continuation byte in first place stops the scan. -/
def skipChars : Nat → Bytes → Option Bytes
  | 0, rest => some rest
  | _ + 1, [] => none
  | n + 1, b :: rest =>
    match Utf8.leadWidth b with
    | none => none
    | some charLen =>
      if rest.length + 1 < charLen then none else skipChars n ((b :: rest).drop charLen)

def scanElement (rest : Bytes) : Option Bytes :=
  match lengthPrefix rest with
  | none => none
  | some (len, data) => skipChars len data

variable {rest data : Bytes} {len : Nat} {tail buf : Bytes} {size : Nat} {lastEnd : Option Nat} {sep : UInt8}

theorem suffix_of_lengthPrefix (h : lengthPrefix rest = some (len, data)) : ∃ sep, sep :: data <:+ rest := by
  unfold lengthPrefix at h
  split at h
  · contradiction
  · rename_i sep tail hdrop
    split at h
    · contradiction
    · split at h
      · contradiction
      · simp only [Option.some.injEq, Prod.mk.injEq] at h
        rw [← h.2]
        exact ⟨sep, hdrop ▸ dropWhile_suffix _⟩

theorem lengthPrefix_length (h : lengthPrefix rest = some (len, data)) : data.length < rest.length := by
  obtain ⟨sep, hsuffix⟩ := suffix_of_lengthPrefix h
  exact hsuffix.length_le

theorem skipChars_eq (n : Nat) (buf : Bytes) : skipChars n buf = (takeChars n buf).map Prod.snd := by
  induction n generalizing buf with
  | zero => rfl
  | succ n ih =>
    cases buf with
    | nil => rfl
    | cons b buf =>
      rw [skipChars, takeChars]
      cases Utf8.leadWidth b with
      | none => rfl
      | some width =>
        by_cases hshort : buf.length + 1 < width
        · simp only [if_pos hshort, Option.map_none]
        · simp only [if_neg hshort, ih, Option.map_map]
          rfl

theorem scanElement_length (h : scanElement rest = some tail) : tail.length < rest.length := by
  unfold scanElement at h
  split at h
  · contradiction
  · rename_i len data hlength
    have hlen := lengthPrefix_length hlength
    rw [skipChars_eq] at h
    obtain ⟨⟨skipped, rest'⟩, htake, heq⟩ := Option.map_eq_some_iff.mp h
    simp only at heq
    rw [← append_of_takeChars htake, length_append] at hlen
    rw [← heq]
    omega

/-- The scan proper. `size` is the length of the whole buffer, so that `size - tail.length` is the
position in front of `tail`. -/
def scanInstructions (size : Nat) (lastEnd : Option Nat) (rest : Bytes) : Option Nat :=
  match _hscan : scanElement rest with
  | none => lastEnd
  | some [] => lastEnd
  | some (sep :: tail) =>
    if sep = ','.toUInt8 then scanInstructions size lastEnd tail
    else if sep = ';'.toUInt8 then
      if tail = [] then some (size - tail.length)
      else scanInstructions size (some (size - tail.length)) tail
    else lastEnd
termination_by rest.length
decreasing_by
  all_goals
    have hlen := scanElement_length _hscan
    simp only [length_cons] at hlen
    omega

/-- `fast_instruction_boundary`: the walk that jumps over element data by its declared length. -/
def fastInstructionBoundary (size : Nat) (rest : Bytes) : Option Nat :=
  match _hlength : lengthPrefix rest with
  | none => none
  | some (len, data) =>
    -- `pos.checked_add(len)?`
    if usizeMax < size - data.length + len then none
    else
      match _hdata : data.drop len with
      | [] => none
      | sep :: tail =>
        if sep = ','.toUInt8 then fastInstructionBoundary size tail
        else if sep = ';'.toUInt8 then
          if tail = [] then some size else fastInstructionBoundary size tail
        else none
termination_by rest.length
decreasing_by
  all_goals
    have hlen := lengthPrefix_length _hlength
    have hdrop := congrArg length _hdata
    simp only [length_drop, length_cons] at hdrop
    omega

def lastInstructionBoundary (buf : Bytes) : Option Nat :=
  if buf.length < boundaryFastPathMax ∧ buf.getLast? = some ';'.toUInt8 ∧
      buf.all (· < 0x80) ∧ (fastInstructionBoundary buf.length buf).isSome then
    some buf.length
  else scanInstructions buf.length none buf

/-! ### The scan reads the wire format -/

theorem leadWidth_pos {b : UInt8} {width : Nat} (h : Utf8.leadWidth b = some width) : 0 < width := by
  unfold Utf8.leadWidth at h
  split_ifs at h <;> simp at h <;> omega

theorem takeChars_of_length_lt {n : Nat} (h : buf.length < n) : takeChars n buf = none := by
  induction n generalizing buf with
  | zero => omega
  | succ n ih =>
    cases buf with
    | nil => rfl
    | cons b buf =>
      rw [takeChars]
      split
      · rfl
      · rename_i width hwidth
        have hpos := leadWidth_pos hwidth
        have hdrop : ((b :: buf).drop width).length < n := by
          rw [length_cons] at h
          rw [length_drop, length_cons]
          omega
        split
        · rfl
        · rw [ih hdrop, Option.map_none]

theorem decode_bind_parseUsize {digits : Bytes} (hne : digits ≠ [])
    (hdigits : ∀ b ∈ digits, isAsciiDigit b) :
    (Utf8.decode digits).bind parseUsize =
      if digitsValue digits ≤ usizeMax then some (digitsValue digits) else none := by
  have hrange : ∀ b ∈ digits, 48 ≤ b.toNat ∧ b.toNat ≤ 57 := by
    intro b hb
    have h := hdigits b hb
    simp only [isAsciiDigit, Bool.and_eq_true, decide_eq_true_eq, UInt8.le_iff_toNat_le] at h
    exact h
  have hchar : ∀ b ∈ digits, (Char.ofNat b.toNat).toNat = b.toNat := by
    intro b hb
    have h := hrange b hb
    have hvalid : b.toNat.isValidChar := .inl (by omega)
    rw [Char.ofNat, dif_pos hvalid]
    rfl
  have hdigit : ∀ c ∈ digits.map (fun b => Char.ofNat b.toNat), c.isDigit := by
    intro c hc
    obtain ⟨b, hb, rfl⟩ := mem_map.mp hc
    rw [Char.isDigit_iff_toNat, hchar b hb]
    exact hrange b hb
  have hencode : Utf8.encode (digits.map fun b => Char.ofNat b.toNat) = digits := by
    unfold Utf8.encode
    rw [flatMap_map]
    conv_rhs => rw [← map_id digits, map_eq_flatMap]
    apply flatMap_congr
    intro b hb
    rw [(encode_digit (hdigit _ (mem_map_of_mem hb))).1, hchar b hb, UInt8.ofNat_toNat]
    rfl
  have hne' : (digits.map fun b => Char.ofNat b.toNat) ≠ [] := by simpa using hne
  have hvalue := digitsValue_encode hdigit
  rw [hencode] at hvalue
  rw [hvalue, ← parseUsize_digits hne' hdigit]
  conv_lhs => rw [← hencode, decode_encode]
  rfl

theorem lengthPrefix_eq (rest : Bytes) : lengthPrefix rest = match rest.dropWhile isAsciiDigit with
      | [] => none
      | sep :: data =>
        if sep = '.'.toUInt8 ∧ rest.takeWhile isAsciiDigit ≠ [] ∧
            digitsValue (rest.takeWhile isAsciiDigit) ≤ usizeMax then
          some (digitsValue (rest.takeWhile isAsciiDigit), data)
        else none := by
  unfold lengthPrefix
  cases rest.dropWhile isAsciiDigit with
  | nil => rfl
  | cons sep data =>
    by_cases hne : rest.takeWhile isAsciiDigit = []
    · simp [hne]
    by_cases hsep : sep = '.'.toUInt8
    · have hall : ∀ b ∈ rest.takeWhile isAsciiDigit, isAsciiDigit b := fun b hb => mem_takeWhile_imp hb
      simp only [hne, hsep, ne_eq, not_true_eq_false, or_self, if_false, not_false_eq_true, true_and,
        decode_bind_parseUsize hne hall]
      split_ifs <;> rfl
    · simp [hsep]

theorem scanElement_eq (hrest : rest.length ≤ usizeMax) : scanElement rest = (readElement rest).map Prod.snd := by
  rw [scanElement, readElement, lengthPrefix_eq]
  cases hdrop : rest.dropWhile isAsciiDigit with
  | nil => rfl
  | cons sep data =>
    by_cases hsep : sep = '.'.toUInt8 ∧ rest.takeWhile isAsciiDigit ≠ []
    · by_cases hvalue : digitsValue (rest.takeWhile isAsciiDigit) ≤ usizeMax
      · simp only [hsep, ne_eq, not_false_eq_true, hvalue, and_self, if_true, skipChars_eq]
      · have hle : (rest.dropWhile isAsciiDigit).length ≤ rest.length := length_dropWhile_le _ _
        rw [hdrop, length_cons] at hle
        have hpast : takeChars (digitsValue (rest.takeWhile isAsciiDigit)) data = none :=
          takeChars_of_length_lt (by omega)
        simp only [hsep, ne_eq, not_false_eq_true, hvalue, and_false, if_false, and_self, if_true, hpast,
          Option.map_none]
    · have hsep' : ¬(sep = '.'.toUInt8 ∧ rest.takeWhile isAsciiDigit ≠ [] ∧
          digitsValue (rest.takeWhile isAsciiDigit) ≤ usizeMax) := fun h => hsep ⟨h.1, h.2.1⟩
      simp only [if_neg hsep, if_neg hsep', Option.map_none]

theorem scanInstructions_of_stop (h : scanElement rest = none ∨ scanElement rest = some []) :
    scanInstructions size lastEnd rest = lastEnd := by
  rw [scanInstructions]
  split <;> simp_all

theorem scanInstructions_of_element (h : scanElement rest = some (sep :: tail)) : scanInstructions size lastEnd rest =
      if sep = ','.toUInt8 then scanInstructions size lastEnd tail
      else if sep = ';'.toUInt8 then
        if tail = [] then some (size - tail.length)
        else scanInstructions size (some (size - tail.length)) tail
      else lastEnd := by
  rw [scanInstructions]
  split <;> simp_all

theorem scanInstructions_nil (size : Nat) (lastEnd : Option Nat) : scanInstructions size lastEnd [] = lastEnd :=
  scanInstructions_of_stop (.inl rfl)

theorem scanInstructions_readInstruction (hrest : rest.length ≤ usizeMax) : scanInstructions size lastEnd rest =
      match readInstruction rest with
      | none => lastEnd
      | some (_, tail) => scanInstructions size (some (size - tail.length)) tail := by
  fun_induction readInstruction rest with
  | case1 rest helement =>
    apply scanInstructions_of_stop
    rw [scanElement_eq hrest, helement]
    exact .inl rfl
  | case2 rest data helement =>
    apply scanInstructions_of_stop
    rw [scanElement_eq hrest, helement]
    exact .inr rfl
  | case3 rest data tail helement =>
    have hscan : scanElement rest = some (';'.toUInt8 :: tail) := by
      rw [scanElement_eq hrest, helement, Option.map_some]
    rw [scanInstructions_of_element hscan, if_neg (by decide), if_pos rfl]
    by_cases htail : tail = []
    · rw [if_pos htail, htail]
      exact (scanInstructions_nil size _).symm
    · rw [if_neg htail]
  | case4 rest data tail helement hsemi ih =>
    have hlen := readElement_length helement
    simp only [length_cons] at hlen
    have hscan : scanElement rest = some (','.toUInt8 :: tail) := by
      rw [scanElement_eq hrest, helement, Option.map_some]
    rw [scanInstructions_of_element hscan, if_pos rfl, ih (by omega)]
    cases readInstruction tail <;> rfl
  | case5 rest data sep tail helement hsemi hcomma =>
    have hscan : scanElement rest = some (sep :: tail) := by rw [scanElement_eq hrest, helement, Option.map_some]
    rw [scanInstructions_of_element hscan, if_neg hcomma, if_neg hsemi]

theorem scanInstructions_eq (hrest : rest.length ≤ usizeMax) : scanInstructions size lastEnd rest =
      if (readStream rest).1 = [] then lastEnd else some (size - (readStream rest).2.length) := by
  fun_induction readStream rest generalizing lastEnd with
  | case1 rest hread => rw [scanInstructions_readInstruction hrest, hread, if_pos rfl]
  | case2 rest elements tail hread ih =>
    have hlen := readInstruction_length hread
    rw [scanInstructions_readInstruction hrest, hread, if_neg (cons_ne_nil _ _)]
    change scanInstructions size (some (size - tail.length)) tail = _
    rw [ih (by omega)]
    split_ifs with hnil
    · rw [readStream_rest_of_nil hnil]
    · rfl

/-! ### The fast path -/

theorem skipChars_ascii {n : Nat} (hascii : ∀ b ∈ buf, b < 0x80) (hn : n ≤ buf.length) :
    skipChars n buf = some (buf.drop n) := by
  induction n generalizing buf with
  | zero => rfl
  | succ n ih =>
    cases buf with
    | nil => simp at hn
    | cons b buf =>
      have hwidth : Utf8.leadWidth b = some 1 := if_pos (hascii b mem_cons_self)
      rw [length_cons] at hn
      rw [skipChars, hwidth]
      simp only [drop_succ_cons, drop_zero]
      rw [if_neg (by omega), ih (fun x hx => hascii x (mem_cons_of_mem _ hx)) (by omega)]

theorem lengthPrefix_subset (h : lengthPrefix rest = some (len, data)) : data ⊆ rest := by
  obtain ⟨sep, hsuffix⟩ := suffix_of_lengthPrefix h
  intro b hb
  exact hsuffix.subset (mem_cons_of_mem sep hb)

theorem scanElement_of_drop (hascii : ∀ b ∈ rest, b < 0x80) (hlength : lengthPrefix rest = some (len, data))
    (hdrop : data.drop len = sep :: tail) :
    scanElement rest = some (sep :: tail) ∧ ∀ b ∈ tail, b < 0x80 := by
  have hsub := lengthPrefix_subset hlength
  have hlen := congrArg length hdrop
  rw [length_drop, length_cons] at hlen
  constructor
  · rw [scanElement, hlength]
    change skipChars len data = _
    rw [skipChars_ascii (fun b hb => hascii b (hsub hb)) (by omega), hdrop]
  · intro b hb
    have hmem : b ∈ data.drop len := hdrop ▸ mem_cons_of_mem _ hb
    exact hascii b (hsub (mem_of_mem_drop hmem))

theorem fastInstructionBoundary_scan {result : Nat}
    (hascii : ∀ b ∈ rest, b < 0x80) (h : fastInstructionBoundary size rest = some result) :
    scanInstructions size lastEnd rest = some size := by
  fun_induction fastInstructionBoundary size rest generalizing lastEnd with
  | case4 rest len data hlength hbound tail hdrop ih =>
    obtain ⟨hscan, htail⟩ := scanElement_of_drop hascii hlength hdrop
    rw [scanInstructions_of_element hscan, if_pos rfl, ih htail h]
  | case5 rest len data hlength hbound hcomma hdrop =>
    obtain ⟨hscan, -⟩ := scanElement_of_drop hascii hlength hdrop
    rw [scanInstructions_of_element hscan, if_neg (by decide), if_pos rfl, if_pos rfl]
    rfl
  | case6 rest len data hlength hbound tail htail hdrop hcomma ih =>
    obtain ⟨hscan, hascii'⟩ := scanElement_of_drop hascii hlength hdrop
    rw [scanInstructions_of_element hscan, if_neg (by decide), if_pos rfl, if_neg htail, ih hascii' h]
  | _ => contradiction

def fullScan (buf : Bytes) : Option Nat := scanInstructions buf.length none buf

theorem fullScan_of_fast (hascii : buf.all (· < 0x80))
    (hfast : (fastInstructionBoundary buf.length buf).isSome) : fullScan buf = some buf.length := by
  obtain ⟨result, hresult⟩ := Option.isSome_iff_exists.mp hfast
  have hbytes : ∀ b ∈ buf, b < 0x80 := by simpa [all_eq_true] using hascii
  exact fastInstructionBoundary_scan hbytes hresult

/-- **The fast path changes nothing**: on every byte buffer, well formed or not, the answer is the one of
the scan alone. -/
theorem lastInstructionBoundary_eq_fullScan (buf : Bytes) : lastInstructionBoundary buf = fullScan buf := by
  unfold lastInstructionBoundary
  split_ifs with hfast
  · exact (fullScan_of_fast hfast.2.2.1 hfast.2.2.2).symm
  · rfl

/-- **The boundary is the end of what the wire format reads**, on the fast path and on the scan. -/
theorem lastInstructionBoundary_eq (hbuf : buf.length ≤ usizeMax) : lastInstructionBoundary buf =
      if (readStream buf).1 = [] then none else some (buf.length - (readStream buf).2.length) := by
  rw [← scanInstructions_eq hbuf]
  unfold lastInstructionBoundary
  split_ifs with hfast
  · exact (fullScan_of_fast hfast.2.2.1 hfast.2.2.2).symm
  · rfl

/-- **The boundary is the end of the last complete instruction**: of a stream of encodings and the
beginning of one more, wherever it is cut, the boundary is the length of the stream. A buffer is never
longer than a `usize` counts. -/
theorem lastInstructionBoundary_streamBytes (instrs : List Instruction) (next : Instruction)
    {begun : Bytes} (hbegun : begun <+: next.bytes) (hproper : begun ≠ next.bytes)
    (hbuf : (streamBytes instrs ++ begun).length ≤ usizeMax) :
    lastInstructionBoundary (streamBytes instrs ++ begun) =
      if instrs = [] then none else some (streamBytes instrs).length := by
  have hincomplete : readInstruction begun = none := readInstruction_of_begins hbegun hproper
  rw [lastInstructionBoundary_eq hbuf, readStream_streamBytes instrs hincomplete, length_append, Nat.add_sub_cancel]
  simp only [map_eq_nil_iff]

/-- Two instructions, one with a `;` and a two-byte character in its data, and a third that is cut
inside such a character. -/
theorem lastInstructionBoundary_two_and_begun :
    lastInstructionBoundary (streamBytes [⟨['k', 'e', 'y'], [[';']]⟩, ⟨['é'], []⟩] ++ (Utf8.encode "2.é").take 3) =
      some (streamBytes [⟨['k', 'e', 'y'], [[';']]⟩, ⟨['é'], []⟩]).length :=
  lastInstructionBoundary_streamBytes _ ⟨"éa", []⟩ (by decide) (by decide) (by decide)

theorem ascii_of_isAsciiDigit {b : UInt8} (h : isAsciiDigit b) : b < 0x80 := by
  simp only [isAsciiDigit, Bool.and_eq_true, decide_eq_true_eq] at h
  exact UInt8.lt_of_le_of_lt h.2 (by decide)

theorem valid_element {digits : Bytes} (hdigits : ∀ b ∈ digits, isAsciiDigit b) (hsep : sep < 0x80) :
    Utf8.Valid (digits ++ '.'.toUInt8 :: (data ++ sep :: rest)) ↔ Utf8.Valid data ∧ Utf8.Valid rest := by
  have hvalid : Utf8.Valid digits := valid_of_ascii fun b hb => ascii_of_isAsciiDigit (hdigits b hb)
  rw [valid_append_ascii (by decide), valid_append_ascii hsep]
  exact and_iff_right hvalid

theorem exists_valid_instruction {elements : List Bytes} (h : readInstruction buf = some (elements, rest)) :
    ∃ front, buf = front ++ ';'.toUInt8 :: rest ∧ (Utf8.Valid front ↔ ∀ data ∈ elements, Utf8.Valid data) := by
  fun_induction readInstruction buf generalizing elements with
  | case3 buf data tail helement =>
    obtain ⟨digits, hbuf, hdigits⟩ := exists_digits helement
    simp only [Option.some.injEq, Prod.mk.injEq] at h
    obtain ⟨rfl, rfl⟩ := h
    refine ⟨digits ++ '.'.toUInt8 :: data, by rw [hbuf, append_assoc, cons_append], ?_⟩
    have hvalid : Utf8.Valid digits := valid_of_ascii fun b hb => ascii_of_isAsciiDigit (hdigits b hb)
    rw [valid_append_ascii (by decide), forall_mem_singleton]
    exact and_iff_right hvalid
  | case4 buf data tail helement hsemi ih =>
    obtain ⟨digits, hbuf, hdigits⟩ := exists_digits helement
    obtain ⟨⟨others, rest'⟩, hread, heq⟩ := Option.map_eq_some_iff.mp h
    cases heq
    obtain ⟨front, rfl, hfront⟩ := ih hread
    refine ⟨digits ++ '.'.toUInt8 :: (data ++ ','.toUInt8 :: front), ?_, ?_⟩
    · rw [hbuf]
      simp
    · rw [valid_element hdigits (by decide), hfront, forall_mem_cons]
  | _ => contradiction

theorem exists_valid_stream (buf : Bytes) : ∃ front, buf = front ++ (readStream buf).2 ∧
      (Utf8.Valid front ↔ ∀ elements ∈ (readStream buf).1, ∀ data ∈ elements, Utf8.Valid data) := by
  fun_induction readStream buf with
  | case1 buf hread => exact ⟨[], rfl, by simp [valid_nil]⟩
  | case2 buf elements rest hread ih =>
    obtain ⟨first, rfl, hfirst⟩ := exists_valid_instruction hread
    obtain ⟨front, hrest, hfront⟩ := ih
    refine ⟨first ++ ';'.toUInt8 :: front, ?_, ?_⟩
    · rw [append_assoc, cons_append, ← hrest]
    · rw [valid_append_ascii (by decide), hfirst, hfront, forall_mem_cons]

/-- **What the scanner releases is valid UTF-8** exactly when the elements of the complete instructions are: their
characters are counted by first bytes, and nothing looks at the bytes after those. -/
theorem released_valid_iff {buf : Bytes} (hbuf : buf.length ≤ usizeMax) :
    (∀ n, lastInstructionBoundary buf = some n → Utf8.Valid (buf.take n)) ↔
      ∀ elements ∈ (readStream buf).1, ∀ data ∈ elements, Utf8.Valid data := by
  obtain ⟨front, hfront, hvalid⟩ := exists_valid_stream buf
  rw [lastInstructionBoundary_eq hbuf]
  by_cases hnone : (readStream buf).1 = []
  · simp [hnone]
  · have htake : buf.take (buf.length - (readStream buf).2.length) = front := by
      have hlength : buf.length - (readStream buf).2.length = front.length := by
        have h := congrArg length hfront
        rw [length_append] at h
        omega
      rw [hlength]
      nth_rewrite 1 [hfront]
      exact take_left
    simp only [if_neg hnone, Option.some.injEq, forall_eq', htake]
    exact hvalid

theorem released_valid_accent : lastInstructionBoundary (Utf8.encode "1.é;1") = some 5 ∧
      Utf8.Valid ((Utf8.encode "1.é;1").take 5) := by
  have hboundary : lastInstructionBoundary (Utf8.encode "1.é;1") = some 5 := by decide +kernel
  exact ⟨hboundary, (released_valid_iff (by decide)).mpr (by decide +kernel) 5 hboundary⟩

/-- A first byte of two with a letter after it, as a text in Latin-1 has them, is released. -/
theorem released_invalid : lastInstructionBoundary [0x31, 0x2E, 0xC3, 0x41, 0x3B] = some 5 ∧
      ¬Utf8.Valid ([0x31, 0x2E, 0xC3, 0x41, 0x3B].take 5) := by
  decide +kernel

end Persea.Protocol
