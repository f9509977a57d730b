import Persea.ProtocolWire

/-! `InstructionParser`: the streaming parser cuts its buffer at every `;` and parses each piece. How the
input is cut into chunks makes no difference, but a `;` that is data of an element is taken for the
end of an instruction. -/

namespace Persea.Protocol

open Base Base.Text List Instruction

def maxProtocolBufferLen : Nat := 1048576

structure InstructionParser where
  buffer : Bytes
deriving DecidableEq, Repr

open InstructionParser

def InstructionParser.new : InstructionParser := ⟨[]⟩

def parsePiece (piece : Bytes) : Except ParseError Instruction :=
  match Utf8.decode piece with
  | none => .error .malformedElement
  | some text => parse text

def drain (buffer : Bytes) : List (Except ParseError Instruction) × Bytes :=
  match _hsplit : splitOnce ';'.toUInt8 buffer with
  | none => ([], buffer)
  | some (piece, rest) => (parsePiece piece :: (drain rest).1, (drain rest).2)
termination_by buffer.length
decreasing_by
  all_goals exact splitOnce_length _hsplit

def InstructionParser.receive (parser : InstructionParser) (data : Text) :
    List (Except ParseError Instruction) × InstructionParser :=
  let buffer := parser.buffer ++ Utf8.encode data
  if maxProtocolBufferLen < buffer.length then ([], ⟨[]⟩)
  else ((drain buffer).1, ⟨(drain buffer).2⟩)

def InstructionParser.receiveAll (parser : InstructionParser) : List Text → List (Except ParseError Instruction)
  | [] => []
  | chunk :: chunks => (parser.receive chunk).1 ++ (parser.receive chunk).2.receiveAll chunks

def InstructionParser.afterAll (parser : InstructionParser) : List Text → InstructionParser
  | [] => parser
  | chunk :: chunks => (parser.receive chunk).2.afterAll chunks

def InstructionParser.Within (parser : InstructionParser) : List Text → Prop
  | [] => True
  | chunk :: chunks =>
    (parser.buffer ++ Utf8.encode chunk).length ≤ maxProtocolBufferLen ∧ (parser.receive chunk).2.Within chunks

instance InstructionParser.decidableWithin : (parser : InstructionParser) → (chunks : List Text) →
    Decidable (parser.Within chunks)
  | _, [] => isTrue trivial
  | parser, chunk :: chunks =>
    haveI := decidableWithin (parser.receive chunk).2 chunks
    inferInstanceAs (Decidable (_ ∧ _))

theorem drain_of_none {buffer : Bytes} (h : splitOnce ';'.toUInt8 buffer = none) : drain buffer = ([], buffer) := by
  rw [drain]
  split <;> simp_all

theorem drain_of_some {buffer piece rest : Bytes} (h : splitOnce ';'.toUInt8 buffer = some (piece, rest)) :
    drain buffer = (parsePiece piece :: (drain rest).1, (drain rest).2) := by
  rw [drain]
  split <;> simp_all

theorem drain_append (left right : Bytes) : drain (left ++ right) =
      ((drain left).1 ++ (drain ((drain left).2 ++ right)).1, (drain ((drain left).2 ++ right)).2) := by
  fun_induction drain left with
  | case1 left hsplit => rfl
  | case2 left piece rest hsplit ih =>
    rw [drain_of_some (splitOnce_some_append hsplit right), ih]
    rfl

variable (buffer : Bytes) {chunks : List Text} (text : Text)

theorem splitOnce_drain : splitOnce ';'.toUInt8 (drain buffer).2 = none := by
  fun_induction drain buffer with
  | case1 buffer hsplit => exact hsplit
  | case2 buffer piece rest hsplit ih => exact ih

theorem drain_length : (drain buffer).2.length ≤ buffer.length := by
  fun_induction drain buffer with
  | case1 buffer hsplit => exact Nat.le_refl _
  | case2 buffer piece rest hsplit ih => exact ih.trans (splitOnce_length hsplit).le

theorem drain_results_length : (drain buffer).1.length = buffer.count ';'.toUInt8 := by
  fun_induction drain buffer with
  | case1 buffer hsplit => rw [count_splitOnce, hsplit, length_nil]
  | case2 buffer piece rest hsplit ih => rw [count_splitOnce, hsplit, length_cons, ih]

variable {parser : InstructionParser} {s : Text} {i : Instruction} {instrs : List Instruction}

theorem receive_of_le {chunk : Text} (h : (parser.buffer ++ Utf8.encode chunk).length ≤ maxProtocolBufferLen) :
    parser.receive chunk =
      ((drain (parser.buffer ++ Utf8.encode chunk)).1, ⟨(drain (parser.buffer ++ Utf8.encode chunk)).2⟩) := by
  rw [receive]
  exact if_neg (Nat.not_lt.mpr h)

theorem splitOnce_receive (parser : InstructionParser) (chunk : Text) :
    splitOnce ';'.toUInt8 (parser.receive chunk).2.buffer = none := by
  by_cases h : (parser.buffer ++ Utf8.encode chunk).length ≤ maxProtocolBufferLen
  · rw [receive_of_le h]
    exact splitOnce_drain _
  · rw [receive, if_pos (Nat.not_le.mp h)]
    rfl

theorem splitOnce_afterAll (hbuffer : splitOnce ';'.toUInt8 parser.buffer = none)
    (chunks : List Text) : splitOnce ';'.toUInt8 (parser.afterAll chunks).buffer = none := by
  induction chunks generalizing parser with
  | nil => exact hbuffer
  | cons chunk chunks ih => exact ih (splitOnce_receive parser chunk)

theorem receiveAll_within (hbuffer : splitOnce ';'.toUInt8 parser.buffer = none)
    (hwithin : parser.Within chunks) :
    (parser.receiveAll chunks, (parser.afterAll chunks).buffer) =
      drain (parser.buffer ++ Utf8.encode chunks.flatten) := by
  induction chunks generalizing parser with
  | nil =>
    rw [flatten_nil, Utf8.encode_nil, append_nil, drain_of_none hbuffer]
    rfl
  | cons chunk chunks ih =>
    obtain ⟨hfits, hwithin⟩ := hwithin
    have hrest := ih (splitOnce_receive parser chunk) hwithin
    rw [receive_of_le hfits] at hrest
    rw [flatten_cons, Utf8.encode_append, ← append_assoc, drain_append, ← hrest,
      receiveAll, afterAll, receive_of_le hfits]

theorem within_of_length_le
    (hsize : (parser.buffer ++ Utf8.encode chunks.flatten).length ≤ maxProtocolBufferLen) :
    parser.Within chunks := by
  induction chunks generalizing parser with
  | nil => trivial
  | cons chunk chunks ih =>
    rw [flatten_cons, Utf8.encode_append, ← append_assoc, length_append] at hsize
    have hfits : (parser.buffer ++ Utf8.encode chunk).length ≤ maxProtocolBufferLen := by omega
    refine ⟨hfits, ih ?_⟩
    rw [receive_of_le hfits, length_append]
    exact le_trans (Nat.add_le_add_right (drain_length _) _) hsize

theorem receiveAll_eq (parser : InstructionParser) (chunks : List Text)
    (hbuffer : splitOnce ';'.toUInt8 parser.buffer = none)
    (hsize : (parser.buffer ++ Utf8.encode chunks.flatten).length ≤ maxProtocolBufferLen) :
    parser.receiveAll chunks = (drain (parser.buffer ++ Utf8.encode chunks.flatten)).1 :=
  congrArg Prod.fst (receiveAll_within hbuffer (within_of_length_le hsize))

/-- **Chunks do not matter**: two cuts of one input leave the same results and the same buffer, from every
state a parser can be in, when the buffer stays within its limit in both. -/
theorem receiveAll_cut_irrelevant {earlier chunks chunks' : List Text} (hsame : chunks.flatten = chunks'.flatten)
    (hwithin : (InstructionParser.new.afterAll earlier).Within chunks)
    (hwithin' : (InstructionParser.new.afterAll earlier).Within chunks') :
    (InstructionParser.new.afterAll earlier).receiveAll chunks =
        (InstructionParser.new.afterAll earlier).receiveAll chunks' ∧
      (InstructionParser.new.afterAll earlier).afterAll chunks =
        (InstructionParser.new.afterAll earlier).afterAll chunks' := by
  have hbuffer : splitOnce ';'.toUInt8 (InstructionParser.new.afterAll earlier).buffer = none :=
    splitOnce_afterAll rfl earlier
  have hdrain := receiveAll_within hbuffer hwithin
  rw [hsame, ← receiveAll_within hbuffer hwithin', Prod.mk.injEq] at hdrain
  exact ⟨hdrain.1, congrArg InstructionParser.mk hdrain.2⟩

theorem receiveAll_cut_nop : new.receiveAll ["3.nop;x", ";3.no"] = new.receiveAll ["3.", "nop", ";x;3.n", "o"] ∧
      new.afterAll ["3.nop;x", ";3.no"] = new.afterAll ["3.", "nop", ";x;3.n", "o"] :=
  @receiveAll_cut_irrelevant [] _ _ (by decide) (by decide +kernel) (by decide +kernel)

/-! ### Streams of encodings -/

theorem encode_flatten (instrs : List Instruction) :
    Utf8.encode (instrs.map encode).flatten = streamBytes instrs := by
  induction instrs with
  | nil => rfl
  | cons i instrs ih =>
    rw [map_cons, flatten_cons, Utf8.encode_append, ih]
    rfl

theorem streamBytes_cons (i : Instruction) (instrs : List Instruction) :
    streamBytes (i :: instrs) = Utf8.encode i.body ++ ';'.toUInt8 :: streamBytes instrs := by
  change Utf8.encode (i.body ++ [';']) ++ streamBytes instrs = _
  rw [Utf8.encode_append, append_assoc]
  rfl

theorem count_semicolon : (Utf8.encode text).count ';'.toUInt8 = text.count ';' :=
  Utf8.count_encode ';' (by decide) text

theorem mem_encodeElement : ';' ∈ encodeElement s ↔ ';' ∈ s := by
  have hdigits : ';' ∉ decimal s.length := not_mem_decimal (by decide) _
  simp [encodeElement, hdigits]

theorem semicolon_mem_body : ';' ∈ i.body ↔ ∃ s ∈ i.elements, ';' ∈ s := by simp [body, elements, mem_encodeElement]

theorem not_mem_body (h : ∀ s ∈ i.elements, ';' ∉ s) : ';' ∉ i.body := by
  intro hmem
  obtain ⟨s, hs, hmem⟩ := semicolon_mem_body.mp hmem
  exact h s hs hmem

theorem count_streamBytes (instrs : List Instruction) : (streamBytes instrs).count ';'.toUInt8 =
      instrs.length + (instrs.map fun i => i.body.count ';').sum := by
  induction instrs with
  | nil => rfl
  | cons i instrs ih =>
    rw [streamBytes_cons, count_append, count_cons_self, ih, count_semicolon, map_cons, sum_cons, length_cons]
    omega

theorem element_sublist_body (hs : s ∈ i.elements) : s.Sublist i.body := by
  have hself : ∀ t : Text, t.Sublist (encodeElement t) := by
    intro t
    exact (sublist_cons_self '.' t).trans (sublist_append_right _ _)
  rcases mem_cons.mp hs with rfl | hs
  · exact (hself _).trans (sublist_append_left _ _)
  · have hflat : (',' :: encodeElement s).Sublist (i.args.flatMap fun arg => ',' :: encodeElement arg) :=
      sublist_flatten_of_mem (mem_map_of_mem hs)
    exact (hself s).trans ((sublist_cons_self _ _).trans
      (hflat.trans (sublist_append_right _ _)))

theorem element_length_le_streamBytes (hi : i ∈ instrs)
    (hs : s ∈ i.elements) : s.length ≤ (streamBytes instrs).length := by
  have hencode : (Utf8.encode i.encode).Sublist (streamBytes instrs) := sublist_flatten_of_mem (mem_map_of_mem hi)
  calc s.length ≤ i.body.length := (element_sublist_body hs).length_le
    _ ≤ i.encode.length := by
        rw [encode, length_append]
        exact Nat.le_add_right _ _
    _ ≤ (Utf8.encode i.encode).length := Utf8.length_le_length_encode _
    _ ≤ (streamBytes instrs).length := hencode.length_le

theorem not_mem_encode {piece : Text} (h : ';' ∉ piece) : ';'.toUInt8 ∉ Utf8.encode piece := by
  rwa [← count_eq_zero, count_semicolon, count_eq_zero]

theorem drain_encode : (drain (Utf8.encode text)).1 = (text.splitOn ';').dropLast.map parse := by
  induction text using split_induction ';' with
  | whole text hsemi =>
    rw [drain_of_none (splitOnce_eq_none.mpr (not_mem_encode hsemi)), splitOn_eq_singleton hsemi]
    rfl
  | cut piece rest hpiece ih =>
    have hparse : parsePiece (Utf8.encode piece) = parse piece := by rw [parsePiece, Utf8.decode_encode]
    have hbytes : Utf8.encode (piece ++ ';' :: rest) = Utf8.encode piece ++ ';'.toUInt8 :: Utf8.encode rest :=
      Utf8.encode_append piece (';' :: rest)
    rw [hbytes, drain_of_some (splitOnce_append (not_mem_encode hpiece) _), hparse, ih,
      splitOn_append_cons_self, splitOn_eq_singleton hpiece, singleton_append,
      dropLast_cons_of_ne_nil (splitOn_ne_nil _ _), map_cons]

theorem splitOn_encodings (instrs : List Instruction) :
    ((instrs.map encode).flatten.splitOn ';').dropLast = instrs.flatMap fun i => i.body.splitOn ';' := by
  induction instrs with
  | nil => rfl
  | cons i instrs ih =>
    rw [map_cons, flatten_cons, encode, append_assoc, singleton_append,
      splitOn_append_cons_self, dropLast_append_of_ne_nil (splitOn_ne_nil _ _), ih, flatMap_cons]

theorem drain_streamBytes_pieces (instrs : List Instruction) :
    (drain (streamBytes instrs)).1 = instrs.flatMap fun i => (i.body.splitOn ';').map parse := by
  rw [← encode_flatten, drain_encode, splitOn_encodings, map_flatMap]

theorem drain_streamBytes (hsemi : ∀ i ∈ instrs, ';' ∉ i.body)
    (hlen : ∀ i ∈ instrs, ∀ s ∈ i.elements, s.length ≤ usizeMax) :
    (drain (streamBytes instrs)).1 = instrs.map Except.ok := by
  rw [drain_streamBytes_pieces, map_eq_flatMap]
  refine flatMap_congr fun i hi => ?_
  rw [splitOn_eq_singleton (hsemi i hi), map_singleton, parse_body (hlen i hi) (hsemi i hi)]

theorem truncated_mem_pieces (hlen : ∀ s ∈ i.elements, s.length ≤ usizeMax)
    (hsemi : ';' ∈ i.body) : .error .truncated ∈ (i.body.splitOn ';').map parse := by
  obtain ⟨left, right, hcut, hleft⟩ := eq_append_cons_of_mem hsemi
  refine mem_map.mpr ⟨left, ?_, parse_cut hlen (Text.rdropWhile_of_not_mem hleft) hcut⟩
  rw [hcut, splitOn_append_cons_self, splitOn_eq_singleton hleft]
  exact mem_append_left _ mem_cons_self

theorem eq_of_streamBytes_eq {others : List Instruction} (hsemi : ∀ i ∈ instrs, ';' ∉ i.body)
    (hlen : ∀ i ∈ instrs, ∀ s ∈ i.elements, s.length ≤ usizeMax)
    (hlen' : ∀ i ∈ others, ∀ s ∈ i.elements, s.length ≤ usizeMax)
    (h : streamBytes instrs = streamBytes others) : instrs = others := by
  have hdrain : (drain (streamBytes others)).1 = instrs.map Except.ok := by rw [← h, drain_streamBytes hsemi hlen]
  have hsemi' : ∀ i ∈ others, ';' ∉ i.body := by
    intro i hi hmem
    have hpieces := truncated_mem_pieces (hlen' i hi) hmem
    have hmem' : .error .truncated ∈ (drain (streamBytes others)).1 := by
      rw [drain_streamBytes_pieces]
      exact mem_flatMap.mpr ⟨i, hi, hpieces⟩
    rw [hdrain] at hmem'
    simp at hmem'
  rw [drain_streamBytes hsemi' hlen'] at hdrain
  exact (map_injective_iff.mpr (fun _ _ => Except.ok.inj) hdrain).symm

/-- **The streaming parser returns the encoded instructions exactly when no element holds a `;`**, for
every list of instructions and every way of cutting their encodings into chunks. -/
theorem receiveAll_encodings_iff (instrs : List Instruction) (chunks : List Text)
    (hcut : chunks.flatten = (instrs.map encode).flatten)
    (hsize : (Utf8.encode chunks.flatten).length ≤ maxProtocolBufferLen) :
    new.receiveAll chunks = instrs.map Except.ok ↔ ∀ i ∈ instrs, ∀ s ∈ i.elements, ';' ∉ s := by
  have hstream : Utf8.encode chunks.flatten = streamBytes instrs := by rw [hcut, encode_flatten]
  have hreceive : new.receiveAll chunks = (drain (streamBytes instrs)).1 := by
    rw [receiveAll_eq new chunks rfl hsize, hstream]
    rfl
  rw [hstream] at hsize
  rw [hreceive]
  constructor
  · -- as many results as `;` in the stream, but only one instruction for each terminator
    intro hresults i hi s hs hsemi
    have hcount := congrArg length hresults
    rw [drain_results_length, count_streamBytes, length_map] at hcount
    have hzero : (instrs.map fun i => i.body.count ';').sum = 0 := by omega
    have hbody := sum_eq_zero_iff.mp hzero (i.body.count ';') (mem_map_of_mem hi)
    exact count_eq_zero.mp hbody (semicolon_mem_body.mpr ⟨s, hs, hsemi⟩)
  · intro hsemi
    apply drain_streamBytes
    · intro i hi
      exact not_mem_body (hsemi i hi)
    · intro i hi s hs
      exact ((element_length_le_streamBytes hi hs).trans hsize).trans (by decide)

theorem receiveAll_size_cut : new.receiveAll ["4.si", "ze,3.800,1", ".0;3.nop;"] =
      [.ok ⟨"size", ["800", "0"]⟩, .ok ⟨"nop", []⟩] :=
  (receiveAll_encodings_iff [⟨"size", ["800", "0"]⟩, ⟨"nop", []⟩]
    ["4.si", "ze,3.800,1", ".0;3.nop;"] (by decide) (by decide +kernel)).mpr (by decide)

theorem receiveAll_splits_data : ¬∀ (instrs : List Instruction) (chunks : List Text),
    chunks.flatten = (instrs.map encode).flatten → (Utf8.encode chunks.flatten).length ≤ maxProtocolBufferLen →
        new.receiveAll chunks = instrs.map Except.ok := by
  intro h
  have hresult : new.receiveAll ["3.a;b;"] = [.error .truncated, .error .malformedElement] := by decide +kernel
  rw [h [⟨"a;b", []⟩] ["3.a;b;"] (by decide) (by decide +kernel)] at hresult
  exact absurd hresult (by decide)

end Persea.Protocol
