import Persea.ProxyShadow

/-! The upload audit and the framing of the browser's messages. `ws_to_guacd` parses each message by itself and cuts
at every `;`; guacd reads one stream, by the declared lengths. -/

namespace Persea.Proxy

open Base Protocol List Transition Tunnel Instruction

def Tunnel.sniffedUploads (t : Tunnel) : List Instruction :=
  t.sniffed.filterMap fun (direction, i) => if direction = .browserToGuacd then some i else none

def isTransfer (i : Instruction) : Bool := i.opcode ∈ browserTransferOpcodes

def isTransferWire (elements : List Bytes) : Bool :=
  elements.head?.any fun opcode => opcode ∈ browserTransferOpcodes.map Utf8.encode

def uploadsOf (text : Text) : List Instruction :=
  if browserTransferOpcodes.any fun opcode => containsText text (opcode ++ [',']) then
    (receivedInstructions text).filter isTransfer
  else []

/-- A message of whole instructions: no element holds a `;`, a transfer instruction has an argument, and a message
with one fits into the parser's buffer. -/
def WholeMessage (text : Text) : Prop :=
  ∃ instrs : List Instruction, text = (instrs.map encode).flatten ∧
    (∀ i ∈ instrs, (∀ s ∈ i.elements, ';' ∉ s) ∧ (isTransfer i = true → i.args ≠ [])) ∧
    ((Utf8.encode text).length ≤ maxProtocolBufferLen ∨ ∀ i ∈ instrs, isTransfer i = false)

/-- Every message that goes on to guacd is whole. -/
def ForwardsWhole (t : Tunnel) : ProxyEvent → Prop
  | .guacdRead _ => True
  | .browser msg => ∀ text, t.forwarded msg = some text → WholeMessage text

variable {instrs : List Instruction} (t : Tunnel) (text : Text) (found : List Instruction) {i : Instruction}

theorem opcode_comma_in_encode (hargs : i.args ≠ []) : i.opcode ++ [','] <:+: i.encode := by
  obtain ⟨arg, args, hcons⟩ := exists_cons_of_ne_nil hargs
  refine ⟨Text.decimal i.opcode.length ++ ['.'],
    encodeElement arg ++ args.flatMap (fun arg => ',' :: encodeElement arg) ++ [';'], ?_⟩
  simp [encode, body, encodeElement, hcons]

theorem encode_infix_flatten (hi : i ∈ instrs) : i.encode <:+: (instrs.map encode).flatten :=
  infix_of_mem_flatten (List.mem_map_of_mem hi)

theorem receive_new : (InstructionParser.new.receive text).1 =
    if maxProtocolBufferLen < (Utf8.encode text).length then [] else (drain (Utf8.encode text)).1 := by
  change (if maxProtocolBufferLen < (Utf8.encode text).length then ([], (⟨[]⟩ : InstructionParser))
    else ((drain (Utf8.encode text)).1, ⟨(drain (Utf8.encode text)).2⟩)).1 = _
  split_ifs <;> rfl

theorem receivedInstructions_whole (hsemi : ∀ i ∈ instrs, ∀ s ∈ i.elements, ';' ∉ s) :
    receivedInstructions (instrs.map encode).flatten =
      if maxProtocolBufferLen < (Utf8.encode (instrs.map encode).flatten).length then [] else instrs := by
  rw [receivedInstructions, receive_new]
  split_ifs with hsize
  · rfl
  · rw [encode_flatten] at hsize ⊢
    have hlen : ∀ i ∈ instrs, ∀ s ∈ i.elements, s.length ≤ usizeMax := by
      intro i hi s hs
      exact ((element_length_le_streamBytes hi hs).trans (not_lt.mp hsize)).trans (by decide)
    have hbody : ∀ i ∈ instrs, ';' ∉ i.body := fun i hi => not_mem_body (hsemi i hi)
    rw [drain_streamBytes hbody hlen, filterMap_map]
    exact filterMap_some

theorem uploadsOf_whole
    (hwhole : ∀ i ∈ instrs, (∀ s ∈ i.elements, ';' ∉ s) ∧ (isTransfer i → i.args ≠ []))
    (hsize : (Utf8.encode (instrs.map encode).flatten).length ≤ maxProtocolBufferLen ∨
      ∀ i ∈ instrs, isTransfer i = false) :
    uploadsOf (instrs.map encode).flatten = instrs.filter isTransfer := by
  unfold uploadsOf
  rw [receivedInstructions_whole fun i hi => (hwhole i hi).1]
  have hnone : (∀ i ∈ instrs, isTransfer i = false) → instrs.filter isTransfer = [] := by
    intro h
    rw [filter_eq_nil_iff]
    intro i hi
    rw [h i hi]
    decide
  split_ifs with hcontains hlong
  · -- too long for the parser, so it holds no transfer
    rcases hsize with hsize | hsize
    · exact absurd hlong (not_lt.mpr hsize)
    · exact (hnone hsize).symm
  · rfl
  · -- an instruction of the message that is a transfer would have been noticed
    refine (hnone fun i hi => ?_).symm
    by_contra htransfer
    rw [Bool.not_eq_false] at htransfer
    refine hcontains (List.any_eq_true.mpr ⟨i.opcode, of_decide_eq_true htransfer, containsText_iff.mpr ?_⟩)
    exact (opcode_comma_in_encode ((hwhole i hi).2 htransfer)).trans (encode_infix_flatten hi)

@[simp] theorem sniffedUploads_append_uploads :
    ({ t with sniffed := t.sniffed ++ found.map (TransferDirection.browserToGuacd, ·) } : Tunnel).sniffedUploads =
      t.sniffedUploads ++ found := by
  simp [sniffedUploads, filterMap_map]

theorem inspectBrowser_eq : t.inspectBrowser text =
    { t with sniffed := t.sniffed ++ (uploadsOf text).map (TransferDirection.browserToGuacd, ·) } := by
  unfold inspectBrowser uploadsOf
  split_ifs
  · rfl
  · simp

theorem forward_eq_uploads : (t.forward text).toGuacd = t.toGuacd ++ Utf8.encode text ∧
      (t.forward text).sniffedUploads = t.sniffedUploads ++ uploadsOf text := by
  unfold forward
  rw [inspectBrowser_eq]
  exact ⟨rfl, sniffedUploads_append_uploads t (uploadsOf text)⟩

theorem inspectGuacd_sniffedUploads (t : Tunnel) :
    (found.foldl inspectGuacd t).sniffedUploads = t.sniffedUploads := by
  induction found generalizing t with
  | nil => rfl
  | cons i found ih =>
    rw [foldl_cons, ih]
    unfold inspectGuacd
    split_ifs
    · rfl
    · simp [sniffedUploads]
    · rfl

theorem flush_sniffedUploads (bytes rest : Bytes) : (t.flush bytes rest).sniffedUploads = t.sniffedUploads := by
  unfold flush
  cases Utf8.decode bytes with
  | none => rfl
  | some text => exact inspectGuacd_sniffedUploads (receivedInstructions text) { t with carry := rest }

theorem guacdToWs_sniffedUploads (data : Bytes) : (t.guacdToWs data).sniffedUploads = t.sniffedUploads := by
  rcases guacdToWs_cases t data with h | h | h | ⟨bytes, rest, h⟩
  · rw [h]
  · rw [h]
    rfl
  · rw [h]
    rfl
  · rw [h, flush_sniffedUploads]
    rfl

def Audited (t : Tunnel) : Prop :=
  ∃ sent : List Instruction, t.toGuacd = streamBytes sent ∧ t.sniffedUploads = sent.filter isTransfer

theorem Audited.append {t t' : Tunnel} (h : Audited t) (more : List Instruction)
    (hsent : t'.toGuacd = t.toGuacd ++ streamBytes more)
    (hsniffed : t'.sniffedUploads = t.sniffedUploads ++ more.filter isTransfer) : Audited t' := by
  obtain ⟨sent, hbytes, huploads⟩ := h
  exact ⟨sent ++ more, by rw [hsent, hbytes, streamBytes_append], by rw [hsniffed, huploads, filter_append]⟩

theorem Audited.step {t : Tunnel} {event : ProxyEvent} (h : Audited t) (hwhole : ForwardsWhole t event) :
    Audited (t.step event) := by
  cases event with
  | guacdRead data =>
    refine h.append [] ?_ ?_
    · exact ((guacdToWs_toGuacd t data).2).trans (append_nil _).symm
    · exact (guacdToWs_sniffedUploads t data).trans (append_nil _).symm
  | browser msg =>
    rcases wsToGuacd_cases t msg with hmsg | hmsg | ⟨i, hmsg⟩ | ⟨text, hmsg, hforwarded⟩
    · rw [Tunnel.step, hmsg]
      exact h
    · rw [Tunnel.step, hmsg]
      exact h.append [⟨"disconnect", []⟩] (by simp [Tunnel.endBrowser, streamBytes])
        (append_nil _).symm
    · rw [Tunnel.step, hmsg]
      exact h
    · obtain ⟨instrs, rfl, hinstrs, hsize⟩ := hwhole text hforwarded
      obtain ⟨hsent, hsniffed⟩ := forward_eq_uploads t (instrs.map encode).flatten
      refine h.append instrs ?_ ?_
      · rw [Tunnel.step, hmsg, hsent, encode_flatten]
      · rw [Tunnel.step, hmsg, hsniffed, uploadsOf_whole hinstrs hsize]

theorem isTransferWire_wire (i : Instruction) : isTransferWire i.wire = isTransfer i := by
  have hmem : Utf8.encode i.opcode ∈ browserTransferOpcodes.map Utf8.encode ↔ i.opcode ∈ browserTransferOpcodes := by
    constructor
    · intro h
      obtain ⟨opcode, hopcode, heq⟩ := List.mem_map.mp h
      rwa [← Utf8.encode_injective heq]
    · exact List.mem_map_of_mem
  simp only [isTransferWire, isTransfer, wire, elements, map_cons, head?_cons, Option.any_some, hmem]

/-- **The audit sees what guacd reads.** While every message that goes on to guacd is whole, the transfer
instructions handed to the audit are those that guacd reads from the forwarded bytes as one stream. -/
theorem uploads_audited (readOnly : Bool) (recording : Option Bytes) (events : List ProxyEvent)
    (hwhole : Guarded step ForwardsWhole (start readOnly recording) events) :
    (run step (start readOnly recording) events).sniffedUploads.map wire =
      (readStream (run step (start readOnly recording) events).toGuacd).1.filter
        isTransferWire := by
  have hstart : Audited (start readOnly recording) := ⟨[], rfl, rfl⟩
  obtain ⟨sent, hbytes, huploads⟩ := invariant_run step (fun t event h hguard => h.step hguard) hstart hwhole
  rw [hbytes, huploads, readStream_streamBytes_nil, List.filter_map]
  congr 1
  apply filter_congr
  intro i _
  exact (isTransferWire_wire i).symm

def fileInstruction (name : String) : Instruction := ⟨"file", ["0", "text/plain", name.toList]⟩

def endInstruction : Instruction := ⟨"end", ["0"]⟩

def wholeUpload : List ProxyEvent :=
  [.browser (.text ((fileInstruction "a.txt").encode ++ encode ⟨"blob", ["0", "QQ=="].map String.toList⟩)),
    .browser (.text endInstruction.encode)]

theorem wholeUpload_guarded : Guarded step ForwardsWhole (start false none) wholeUpload := by
  refine ⟨fun text htext => ?_, fun text htext => ?_, trivial⟩
  · cases htext
    exact ⟨[fileInstruction "a.txt", ⟨"blob", ["0", "QQ=="].map String.toList⟩], by decide +kernel,
      by decide +kernel, .inl (by decide +kernel)⟩
  · cases htext
    exact ⟨[endInstruction], by decide +kernel, by decide +kernel, .inl (by decide +kernel)⟩

theorem uploads_audited_whole : (run step (start false none) wholeUpload).sniffedUploads.length = 3 ∧
      (run step (start false none) wholeUpload).sniffedUploads.map wire =
        (readStream (run step (start false none) wholeUpload).toGuacd).1.filter
          isTransferWire :=
  ⟨by decide +kernel, uploads_audited false none wholeUpload wholeUpload_guarded⟩

/-- A `file` instruction cut into two messages, and one whose file name holds a `;`. -/
def hiddenUploads : List ProxyEvent :=
  [.browser (.text ((fileInstruction "a.txt").encode.take 18)),
    .browser (.text ((fileInstruction "a.txt").encode.drop 18)),
    .browser (.text (fileInstruction "a;b").encode)]

/-- guacd opens both files, and the audit has seen neither. -/
theorem uploads_hidden : (run step (start false none) hiddenUploads).sniffedUploads = [] ∧
      (readStream (run step (start false none) hiddenUploads).toGuacd).1.filter
        isTransferWire = [(fileInstruction "a.txt").wire, (fileInstruction "a;b").wire] := by
  decide +kernel

end Persea.Proxy
