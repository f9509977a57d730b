import Persea.ProxyTunnel

/-! Read-only connections. The filter re-encodes what it lets through, so guacd never sees bytes whose
framing the viewer chose: the stream to guacd is a sequence of encodings of allowed instructions. -/

namespace Persea.Proxy

open Base Protocol List Instruction

/-- guacd has only been sent encodings of instructions a viewer may send. -/
def ShadowSafe (t : Tunnel) : Prop :=
  t.readOnly = true ∧ ∃ sent : List Instruction, t.toGuacd = streamBytes sent ∧
    ∀ i ∈ sent, shadowBlockedOpcode i.opcode = false

theorem encode_filterReadOnlyInput (text : Text) : ∃ sent : List Instruction,
    Utf8.encode (filterReadOnlyInput text) = streamBytes sent ∧ ∀ i ∈ sent, shadowBlockedOpcode i.opcode = false := by
  refine ⟨(receivedInstructions text).filter fun i => !shadowBlockedOpcode i.opcode, encode_flatten _, ?_⟩
  intro i hi
  simpa using (mem_filter.mp hi).2

variable {i j : Instruction} {α β : Type} {p : α → Bool} {l : List α} {f : α → List β} {t t' : Tunnel}

theorem ShadowSafe.append (h : ShadowSafe t) (hreadOnly : t'.readOnly = t.readOnly)
    (more : List Instruction) (hsent : t'.toGuacd = t.toGuacd ++ streamBytes more)
    (hmore : ∀ i ∈ more, shadowBlockedOpcode i.opcode = false) : ShadowSafe t' := by
  obtain ⟨hread, sent, hbytes, hallowed⟩ := h
  refine ⟨hreadOnly.trans hread, sent ++ more, by rw [hsent, hbytes, streamBytes_append], ?_⟩
  intro i hi
  rcases mem_append.mp hi with hi | hi
  · exact hallowed i hi
  · exact hmore i hi

theorem shadowSafe_of_eq (h : ShadowSafe t) (hreadOnly : t'.readOnly = t.readOnly)
    (hsent : t'.toGuacd = t.toGuacd) : ShadowSafe t' :=
  h.append hreadOnly [] (by rw [hsent, streamBytes]; simp) (by simp)

theorem guacdToWs_toGuacd (t : Tunnel) (data : Bytes) :
    (t.guacdToWs data).readOnly = t.readOnly ∧ (t.guacdToWs data).toGuacd = t.toGuacd := by
  rcases guacdToWs_cases t data with h | h | h | ⟨bytes, rest, h⟩
  · rw [h]
    exact ⟨rfl, rfl⟩
  · rw [h]
    exact ⟨rfl, rfl⟩
  · rw [h]
    exact ⟨rfl, rfl⟩
  · rw [h]
    cases hdecode : Utf8.decode bytes with
    | none =>
      simp only [Tunnel.flush, hdecode]
      exact ⟨rfl, rfl⟩
    | some text =>
      obtain ⟨lastError, sniffed, disconnected, hflush⟩ := flush_of_decode (t.extend data) rest hdecode
      rw [hflush]
      exact ⟨rfl, rfl⟩

theorem shadowSafe_wsToGuacd (msg : Message) (h : ShadowSafe t) : ShadowSafe (t.wsToGuacd msg) := by
  rcases wsToGuacd_cases t msg with hmsg | hmsg | ⟨i, hmsg⟩ | ⟨text, hmsg, hforwarded⟩
  · rw [hmsg]
    exact h
  · -- the connection is over: the only bytes are the `disconnect` instruction
    rw [hmsg]
    exact h.append rfl [⟨"disconnect", []⟩] (by simp [Tunnel.endBrowser, streamBytes])
      (by decide)
  · rw [hmsg]
    exact shadowSafe_of_eq h rfl rfl
  · obtain ⟨input, hinput⟩ := filtered_of_forwarded h.1 hforwarded
    obtain ⟨more, hmore, hallowed⟩ := encode_filterReadOnlyInput input
    obtain ⟨sniffed, hforward⟩ := forward_eq t text
    rw [hmsg, hforward]
    exact h.append rfl more (by rw [hinput, hmore]) hallowed

theorem shadowSafe_step (t : Tunnel) (event : ProxyEvent) (h : ShadowSafe t) : ShadowSafe (t.step event) := by
  cases event with
  | guacdRead data => exact shadowSafe_of_eq h (guacdToWs_toGuacd t data).1 (guacdToWs_toGuacd t data).2
  | browser msg => exact shadowSafe_wsToGuacd msg h

/-- **Shadow safety.** Whatever a read-only viewer sends, guacd reads from the bytes it has been sent, or
from any beginning of them, only instructions whose opcode is not blocked. -/
theorem readOnly_forwards_no_blocked (recording : Option Bytes) (events : List ProxyEvent) (bytes : Bytes)
    (hbytes : bytes <+: (Transition.run Tunnel.step (Tunnel.start true recording) events).toGuacd) :
    ∀ elements ∈ (readStream bytes).1,
      ∃ i : Instruction, elements = i.wire ∧ shadowBlockedOpcode i.opcode = false := by
  have hstart : ShadowSafe (Tunnel.start true recording) := ⟨rfl, [], rfl, by simp⟩
  obtain ⟨-, sent, hsent, hallowed⟩ := Transition.invariant_run_of_step Tunnel.step shadowSafe_step hstart events
  intro elements hmem
  obtain ⟨more, hmore⟩ := hbytes
  have hread : (readStream bytes).1 <+: sent.map wire := by
    have h := readStream_prefix_append bytes more
    rwa [hmore, hsent, readStream_streamBytes_nil] at h
  obtain ⟨i, hi, hwire⟩ := List.mem_map.mp (hread.subset hmem)
  exact ⟨i, hwire.symm, hallowed i hi⟩

def viewerEvents : List ProxyEvent :=
  [.browser (.text "9.x,3.key,2.65;3.key,2.65,1.1;"), .browser (.text "4.sync,1.5;3.key,2.65,1.1;")]

theorem readOnly_forwards_sync : (Transition.run Tunnel.step (Tunnel.start true none) viewerEvents).toGuacd =
        Utf8.encode "4.sync,1.5;" ∧
      ∀ elements ∈ (readStream (Utf8.encode "4.sync,1.5;")).1,
        ∃ i : Instruction, elements = i.wire ∧ shadowBlockedOpcode i.opcode = false :=
  ⟨by decide +kernel, readOnly_forwards_no_blocked none viewerEvents (Utf8.encode "4.sync,1.5;") (by decide +kernel)⟩

/-! ### What the filter keeps -/

/-- What the parser makes of one instruction: the pieces of its encoding between `;` that parse. -/
def parsedPieces (i : Instruction) : List Instruction :=
  (i.body.splitOn ';').filterMap fun piece => (parse piece).toOption

theorem receivedInstructions_encodings {instrs : List Instruction}
    (hsize : (streamBytes instrs).length ≤ maxProtocolBufferLen) :
    receivedInstructions (instrs.map encode).flatten = instrs.flatMap parsedPieces := by
  have hfits : (InstructionParser.new.buffer ++ Utf8.encode (instrs.map encode).flatten).length ≤
      maxProtocolBufferLen := by
    rw [encode_flatten]
    exact hsize
  rw [receivedInstructions, receive_of_le hfits, encode_flatten]
  change (drain (streamBytes instrs)).1.filterMap Except.toOption = _
  rw [drain_streamBytes_pieces, filterMap_flatMap]
  refine flatMap_congr fun i _ => ?_
  rw [filterMap_map]
  rfl

theorem parsedPieces_of_not_mem (hlen : ∀ s ∈ i.elements, s.length ≤ usizeMax) (hsemi : ';' ∉ i.body) :
    parsedPieces i = [i] := by
  rw [parsedPieces, splitOn_eq_singleton hsemi]
  simp [parse_body hlen hsemi, Except.toOption]

theorem mem_parsedPieces (h : j ∈ parsedPieces i) : ';' ∉ j.body ∧ ∀ s ∈ j.elements, s.length ≤ usizeMax := by
  obtain ⟨piece, hpiece, hparse⟩ := mem_filterMap.mp h
  have hread : parse piece = .ok j := by
    cases hres : parse piece with
    | error e => simp [hres, Except.toOption] at hparse
    | ok k => simpa [hres, Except.toOption] using hparse
  have hspells := parse_eq_ok_iff.mp hread
  have hsemi : ';' ∉ piece.rdropWhile (· = ';') := fun hmem =>
    Text.not_mem_of_mem_splitOn hpiece (( rdropWhile_prefix _ _).subset hmem)
  refine ⟨not_mem_body fun s hs hmem => hsemi ((hspells.element hs).1 hmem), fun s hs => (hspells.element hs).2⟩

theorem spells_piece_iff {piece : Text} (hpiece : piece ∈ i.body.splitOn ';') :
    Spells piece j.elements ↔ (parse piece).toOption = some j := by
  have htrim : piece.rdropWhile (· = ';') = piece := Text.rdropWhile_of_not_mem (Text.not_mem_of_mem_splitOn hpiece)
  rw [← htrim, ← parse_eq_ok_iff, htrim]
  cases parse piece <;> simp [Except.toOption]

theorem filter_parsedPieces_eq_nil_iff : (parsedPieces i).filter (fun j => !shadowBlockedOpcode j.opcode) = [] ↔
      ∀ piece ∈ i.encode.splitOn ';', ∀ j : Instruction, Spells piece j.elements →
        shadowBlockedOpcode j.opcode := by
  have hpieces : i.encode.splitOn ';' = i.body.splitOn ';' ++ [[]] := by
    rw [encode, splitOn_append_cons_self, splitOn_nil]
  simp only [filter_eq_nil_iff, parsedPieces, mem_filterMap, Bool.not_eq_true', Bool.not_eq_false]
  rw [hpieces]
  constructor
  · intro h piece hpiece j hspells
    rcases mem_append.mp hpiece with hpiece | hpiece
    · exact h j ⟨piece, hpiece, (spells_piece_iff hpiece).mp hspells⟩
    · exact absurd (mem_singleton.mp hpiece) hspells.ne_nil
  · rintro h j ⟨piece, hpiece, hparse⟩
    exact h piece (mem_append_left _ hpiece) j ((spells_piece_iff hpiece).mpr hparse)

theorem length_filter_le_flatMap (hone : ∀ a ∈ l, p a → (f a).length = 1) :
    (l.filter p).length ≤ (l.flatMap f).length := by
  induction l with
  | nil => exact Nat.le_refl _
  | cons a l ih =>
    have hrest := ih fun b hb => hone b (mem_cons_of_mem a hb)
    rw [flatMap_cons, length_append]
    cases ha : p a with
    | true =>
      rw [filter_cons_of_pos ha, length_cons, hone a mem_cons_self ha]
      omega
    | false =>
      rw [filter_cons_of_neg (by simp [ha])]
      omega

theorem eq_nil_of_length_eq (hone : ∀ a ∈ l, p a → (f a).length = 1)
    (h : (l.flatMap f).length = (l.filter p).length) :
    ∀ a ∈ l, p a = false → f a = [] := by
  induction l with
  | nil => simp
  | cons a l ih =>
    have hone' := fun b hb => hone b (mem_cons_of_mem a hb)
    have hrest := length_filter_le_flatMap hone'
    rw [flatMap_cons, length_append] at h
    intro b hb hblocked
    cases ha : p a with
    | true =>
      rw [filter_cons_of_pos ha, length_cons, hone a mem_cons_self ha] at h
      rcases mem_cons.mp hb with rfl | hb
      · rw [ha] at hblocked
        contradiction
      · exact ih hone' (by omega) b hb hblocked
    | false =>
      rw [filter_cons_of_neg (by simp [ha])] at h
      rcases mem_cons.mp hb with rfl | hb
      · exact eq_nil_of_length_eq_zero (by omega)
      · exact ih hone' (by omega) b hb hblocked

theorem flatMap_eq_filter {f : α → List α} (hkeep : ∀ a ∈ l, p a → f a = [a])
    (hdrop : ∀ a ∈ l, p a = false → f a = []) :
    l.flatMap f = l.filter p := by
  induction l with
  | nil => rfl
  | cons a l ih =>
    have hrest := ih (fun b hb => hkeep b (mem_cons_of_mem a hb))
      fun b hb => hdrop b (mem_cons_of_mem a hb)
    rw [flatMap_cons, hrest]
    cases ha : p a with
    | true =>
      rw [hkeep a mem_cons_self ha, filter_cons_of_pos ha]
      rfl
    | false =>
      rw [hdrop a mem_cons_self ha, filter_cons_of_neg (by simp [ha])]
      rfl

/-- **What the shadow filter forwards** is the allowed instructions exactly when no allowed one has a `;` in its
elements and no piece of a blocked one between two `;` spells an allowed one. -/
theorem filterReadOnlyInput_exact_iff {instrs : List Instruction}
    (hsize : (Utf8.encode (instrs.map encode).flatten).length ≤ maxProtocolBufferLen) :
    filterReadOnlyInput (instrs.map encode).flatten =
        ((instrs.filter fun i => !shadowBlockedOpcode i.opcode).map encode).flatten ↔
      (∀ i ∈ instrs, shadowBlockedOpcode i.opcode = false → ∀ s ∈ i.elements, ';' ∉ s) ∧
        ∀ i ∈ instrs, shadowBlockedOpcode i.opcode = true → ∀ piece ∈ i.encode.splitOn ';',
          ∀ j : Instruction, Spells piece j.elements → shadowBlockedOpcode j.opcode = true := by
  rw [encode_flatten] at hsize
  have hlen : ∀ i ∈ instrs, ∀ s ∈ i.elements, s.length ≤ usizeMax := by
    intro i hi s hs
    exact ((element_length_le_streamBytes hi hs).trans hsize).trans (by decide)
  have hkeep : ∀ i ∈ instrs, ';' ∉ i.body → (!shadowBlockedOpcode i.opcode) = true →
      ((parsedPieces i).filter fun j => !shadowBlockedOpcode j.opcode) = [i] := by
    intro i hi hsemi hallowed
    rw [parsedPieces_of_not_mem (hlen i hi) hsemi, filter_singleton, hallowed]
    rfl
  rw [filterReadOnlyInput, receivedInstructions_encodings hsize, filter_flatMap]
  constructor
  · intro h
    have hsent : (instrs.flatMap fun i => (parsedPieces i).filter fun j => !shadowBlockedOpcode j.opcode) =
        instrs.filter fun i => !shadowBlockedOpcode i.opcode := by
      refine eq_of_streamBytes_eq ?_ ?_ ?_ ?_
      · intro j hj
        obtain ⟨i, -, hj⟩ := mem_flatMap.mp hj
        exact (mem_parsedPieces (mem_filter.mp hj).1).1
      · intro j hj
        obtain ⟨i, -, hj⟩ := mem_flatMap.mp hj
        exact (mem_parsedPieces (mem_filter.mp hj).1).2
      · intro i hi
        exact hlen i (mem_filter.mp hi).1
      · rw [← encode_flatten, ← encode_flatten, ← h, ← flatMap_def]
    have hsemi : ∀ i ∈ instrs, (!shadowBlockedOpcode i.opcode) = true → ';' ∉ i.body := by
      -- an allowed instruction is among those that were parsed, and these hold no `;`
      intro i hi hallowed
      have hmem : i ∈ instrs.filter fun j => !shadowBlockedOpcode j.opcode := mem_filter.mpr ⟨hi, hallowed⟩
      rw [← hsent] at hmem
      obtain ⟨k, -, hmem⟩ := mem_flatMap.mp hmem
      exact (mem_parsedPieces (mem_filter.mp hmem).1).1
    have hnil := eq_nil_of_length_eq (fun i hi hallowed => by rw [hkeep i hi (hsemi i hi hallowed) hallowed]; rfl)
      (congrArg List.length hsent)
    refine ⟨fun i hi hallowed s hs hmem => ?_, fun i hi hblocked => ?_⟩
    · exact hsemi i hi (by rw [hallowed]; rfl) (semicolon_mem_body.mpr ⟨s, hs, hmem⟩)
    · exact filter_parsedPieces_eq_nil_iff.mp (hnil i hi (by rw [hblocked]; rfl))
  · rintro ⟨hallowed, hblocked⟩
    rw [← flatMap_def]
    refine congrArg (List.flatMap encode) (flatMap_eq_filter ?_ ?_)
    · intro i hi hpass
      exact hkeep i hi (not_mem_body (hallowed i hi (by simpa using hpass))) hpass
    · intro i hi hblock
      exact filter_parsedPieces_eq_nil_iff.mpr (hblocked i hi (by simpa using hblock))

theorem filterReadOnlyInput_sync : filterReadOnlyInput ([⟨"sync", ["5"]⟩, ⟨"argv", ["a;b"]⟩, ⟨"nop", []⟩].map
      encode).flatten = "4.sync,1.5;3.nop;" := by
  have hblocked : ∀ i ∈ [(⟨"sync", ["5"]⟩ : Instruction), ⟨"argv", ["a;b"]⟩,
      ⟨"nop", []⟩], shadowBlockedOpcode i.opcode = true →
        (parsedPieces i).filter (fun j => !shadowBlockedOpcode j.opcode) = [] := by decide +kernel
  refine ((filterReadOnlyInput_exact_iff (by decide +kernel)).mpr ⟨by decide +kernel, ?_⟩).trans (by decide +kernel)
  exact fun i hi h => filter_parsedPieces_eq_nil_iff.mp (hblocked i hi h)

/-- An allowed instruction with a `;` in a name is dropped, and data of a blocked one is forwarded. -/
theorem filterReadOnlyInput_inexact : filterReadOnlyInput (encode ⟨"pipe", ["0", "text/plain", "a;b"]⟩) = [] ∧
      shadowBlockedOpcode "pipe" = false ∧
      filterReadOnlyInput (encode ⟨"argv", [";10.disconnect;"]⟩) = "10.disconnect;" ∧
      shadowBlockedOpcode "argv" = true := by
  decide +kernel

end Persea.Proxy
