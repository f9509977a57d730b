import Persea.BaseChunk
import Persea.ProxyTunnel

/-! What the browser receives. Whatever the cuts of guacd's byte stream and whatever pings come in
between, the relayed messages are groups of whole instructions, and with the carry they are the bytes
received so far. -/

namespace Persea.Proxy

open Base Protocol List Transition Tunnel Instruction

def groupText (group : List Instruction) : Text := (group.map encode).flatten

theorem wsToGuacd_frame (t : Tunnel) (msg : Message) :
    (t.wsToGuacd msg).carry = t.carry ∧ (t.wsToGuacd msg).guacdDone = t.guacdDone ∧ ((t.wsToGuacd msg).sink = t.sink ∨
        ∃ i : Instruction, (t.wsToGuacd msg).sink = t.sink ++ [.echoed i.encode]) := by
  rcases wsToGuacd_cases t msg with h | h | ⟨i, h⟩ | ⟨text, h, -⟩
  · rw [h]
    exact ⟨rfl, rfl, .inl rfl⟩
  · rw [h]
    exact ⟨rfl, rfl, .inl rfl⟩
  · rw [h]
    exact ⟨rfl, rfl, .inr ⟨i, rfl⟩⟩
  · obtain ⟨sniffed, hforward⟩ := forward_eq t text
    rw [h, hforward]
    exact ⟨rfl, rfl, .inl rfl⟩

/-- The relayed messages are groups of whole instructions, and the carry is the beginning of the next
one. `arrived` are the bytes received so far of the encodings of `instrs`. -/
def Aligned (instrs : List Instruction) (arrived : Bytes) (t : Tunnel) : Prop :=
  ∃ (groups : List (List Instruction)) (todo : List Instruction),
    instrs = groups.flatten ++ todo ∧ t.relayed = groups.map groupText ∧
      arrived = streamBytes groups.flatten ++ t.carry ∧
      Chunk.Begins t.carry (todo.map bytes)

variable {todo instrs : List Instruction} {arrived : Bytes} {t : Tunnel}

theorem exists_split_carry {carry : Bytes} (h : carry <+: streamBytes todo) :
    ∃ done rest tail, todo = done ++ rest ∧ carry = streamBytes done ++ tail ∧
      Chunk.Begins tail (rest.map bytes) := by
  have hne : ∀ word ∈ todo.map bytes, word ≠ [] := by
    intro word hword
    obtain ⟨i, -, rfl⟩ := List.mem_map.mp hword
    exact bytes_ne_nil i
  obtain ⟨doneWords, restWords, tail, hsplit, hcarry, hbegins⟩ := Chunk.exists_split _ hne carry h
  obtain ⟨done, rest, htodo, rfl, rfl⟩ := map_eq_append_iff.mp hsplit
  exact ⟨done, rest, tail, htodo, hcarry, hbegins⟩

variable (groups : List (List Instruction)) {events : List ProxyEvent} {tail : Bytes}

theorem readInstruction_of_tail (h : Chunk.Begins tail (todo.map bytes)) : readInstruction tail = none := by
  cases todo with
  | nil =>
    have htail : tail = [] := h
    rw [htail]
    exact readInstruction_of_incomplete rfl
  | cons i todo => exact readInstruction_of_begins h.1 h.2

theorem boundary_of_split {done : List Instruction} (hsize : (streamBytes done ++ tail).length ≤ usizeMax)
    (hbegins : Chunk.Begins tail (todo.map bytes)) :
    lastInstructionBoundary (streamBytes done ++ tail) =
      if done = [] then none else some (streamBytes done).length := by
  rw [lastInstructionBoundary_eq hsize, readStream_streamBytes done (readInstruction_of_tail hbegins)]
  simp only [map_eq_nil_iff, length_append, Nat.add_sub_cancel]

/-- The read does not force a flush: an incomplete instruction is within the limit of the carry. -/
def Unforced (t : Tunnel) (data : Bytes) : Prop :=
  (t.carry ++ data).length ≤ usizeMax ∧
    (lastInstructionBoundary (t.carry ++ data) = none → (t.carry ++ data).length ≤ maxGuacdCarry)

theorem aligned_guacdToWs {data : Bytes}
    (haligned : Aligned instrs arrived t) (hdone : t.guacdDone = false) (hdata : data ≠ [])
    (hstream : arrived ++ data <+: streamBytes instrs) (hcarry : Unforced t data) :
    Aligned instrs (arrived ++ data) (t.guacdToWs data) ∧ (t.guacdToWs data).guacdDone = false := by
  obtain ⟨groups, todo, hinstrs, hrelayed, harrived, -⟩ := haligned
  have hnext : t.carry ++ data <+: streamBytes todo := by
    rw [hinstrs, harrived, streamBytes_append, append_assoc] at hstream
    exact (prefix_append_right_inj _).mp hstream
  obtain ⟨done, rest, tail, htodo, hsplit, hbegins⟩ := exists_split_carry hnext
  have hsize : (streamBytes done ++ tail).length ≤ usizeMax := by
    rw [← hsplit]
    exact hcarry.1
  have hboundary := boundary_of_split hsize hbegins
  have harrived' : arrived ++ data = streamBytes groups.flatten ++ (t.carry ++ data) := by rw [harrived, append_assoc]
  rw [← hsplit] at hboundary
  by_cases hnone : done = []
  · -- no instruction is complete, and the carry is below its limit
    rw [if_pos hnone] at hboundary
    rw [guacdToWs_of_no_boundary hdone hdata hboundary (hcarry.2 hboundary)]
    refine ⟨⟨groups, todo, hinstrs, hrelayed, harrived', ?_⟩, hdone⟩
    have htail : (t.extend data).carry = tail := by
      change t.carry ++ data = tail
      rw [hsplit, hnone]
      rfl
    rw [htail, htodo, hnone, nil_append]
    exact hbegins
  · rw [if_neg hnone] at hboundary
    have hdecode : Utf8.decode (streamBytes done) = some (groupText done) := by
      rw [← encode_flatten, Utf8.decode_encode]
      rfl
    obtain ⟨lastError, sniffed, disconnected, hflush⟩ := flush_of_decode (t.extend data) tail hdecode
    rw [guacdToWs_of_boundary hdone hdata hboundary, hsplit, take_left, drop_left, hflush]
    refine ⟨⟨groups ++ [done], rest, ?_, ?_, ?_, hbegins⟩, hdone⟩
    · rw [hinstrs, htodo, flatten_concat, append_assoc]
    · have hlast : t.relayed ++ [groupText done] = (groups ++ [done]).map groupText := by
        rw [hrelayed, map_append, map_singleton]
      rw [← hlast]
      simp [relayed, extend, Frame.relayedText]
    · rw [harrived', hsplit, flatten_concat, streamBytes_append, append_assoc]

/-! ### Whole runs -/

def received : List ProxyEvent → Bytes
  | [] => []
  | .guacdRead data :: events => if data = [] then [] else data ++ received events
  | .browser _ :: events => received events

def CarryWithin (t : Tunnel) : ProxyEvent → Prop
  | .guacdRead data => (t.carry ++ data).length ≤ maxGuacdCarry
  | .browser _ => True

instance (t : Tunnel) : (event : ProxyEvent) → Decidable (CarryWithin t event)
  | .guacdRead data => inferInstanceAs (Decidable ((t.carry ++ data).length ≤ maxGuacdCarry))
  | .browser _ => isTrue trivial

theorem relayed_browser (t : Tunnel) (msg : Message) : (t.wsToGuacd msg).relayed = t.relayed := by
  obtain ⟨-, -, hsink | ⟨i, hsink⟩⟩ := wsToGuacd_frame t msg
  · rw [relayed, hsink]
    rfl
  · simp [relayed, hsink, filterMap_append, Frame.relayedText]

theorem Aligned.of_eq {t' : Tunnel}
    (h : Aligned instrs arrived t) (hcarry : t'.carry = t.carry) (hrelayed : t'.relayed = t.relayed) :
    Aligned instrs arrived t' := by
  unfold Aligned
  rw [hcarry, hrelayed]
  exact h

theorem aligned_run_done
    (haligned : Aligned instrs arrived t) (hdone : t.guacdDone) (events : List ProxyEvent) :
    Aligned instrs arrived (run step t events) := by
  have hkeep : ∀ t event, Aligned instrs arrived t ∧ t.guacdDone →
      Aligned instrs arrived (step t event) ∧ (step t event).guacdDone := ?_
  · exact (invariant_run_of_step step hkeep ⟨haligned, hdone⟩ events).1
  rintro t event ⟨haligned, hdone⟩
  cases event with
  | guacdRead data =>
    have hsame : t.step (.guacdRead data) = t := by simp only [step, guacdToWs, hdone, if_true]
    rw [hsame]
    exact ⟨haligned, hdone⟩
  | browser msg =>
    obtain ⟨hcarry, hdone', -⟩ := wsToGuacd_frame t msg
    exact ⟨haligned.of_eq hcarry (relayed_browser t msg), hdone'.trans hdone⟩

theorem aligned_run_of_guard {guard : Tunnel → ProxyEvent → Prop}
    (hguard : ∀ arrived t data, Aligned instrs arrived t → arrived ++ data <+: streamBytes instrs →
      guard t (.guacdRead data) → Unforced t data)
    (haligned : Aligned instrs arrived t) (hdone : t.guacdDone = false)
    (hstream : arrived ++ received events <+: streamBytes instrs)
    (hcarry : Guarded step guard t events) :
    Aligned instrs (arrived ++ received events) (run step t events) := by
  induction events generalizing t arrived with
  | nil => simpa [received] using haligned
  | cons event events ih =>
    cases event with
    | guacdRead data =>
      by_cases hdata : data = []
      · simp only [received, hdata, if_true, append_nil, run_cons]
        apply aligned_run_done
        · exact haligned.of_eq (by simp [step, guacdToWs, hdone])
            (by simp [step, guacdToWs, hdone, relayed])
        · simp [step, guacdToWs, hdone]
      · simp only [received, if_neg hdata, ← append_assoc] at hstream ⊢
        have hnext := (prefix_append _ _).trans hstream
        obtain ⟨hstep, hdone'⟩ := aligned_guacdToWs haligned hdone hdata hnext
          (hguard _ _ _ haligned hnext hcarry.1)
        exact ih hstep hdone' hstream hcarry.2
    | browser msg =>
      obtain ⟨hcarry', hdone', -⟩ := wsToGuacd_frame t msg
      exact ih (haligned.of_eq hcarry' (relayed_browser t msg)) (hdone'.trans hdone) hstream hcarry.2

theorem aligned_run (haligned : Aligned instrs arrived t) (hdone : t.guacdDone = false)
    (hstream : arrived ++ received events <+: streamBytes instrs)
    (hcarry : Guarded step CarryWithin t events) :
    Aligned instrs (arrived ++ received events) (run step t events) := by
  apply aligned_run_of_guard _ haligned hdone hstream hcarry
  intro arrived t data _ _ hwithin
  have hlimit : (t.carry ++ data).length ≤ maxGuacdCarry := hwithin
  exact ⟨hlimit.trans (by decide), fun _ => hlimit⟩

theorem aligned_start (instrs : List Instruction) (readOnly : Bool) (recording : Option Bytes) :
    Aligned instrs [] (start readOnly recording) := by
  refine ⟨[], instrs, rfl, rfl, rfl, Chunk.begins_nil ?_⟩
  intro word hword
  obtain ⟨i, -, rfl⟩ := List.mem_map.mp hword
  exact bytes_ne_nil i

theorem guacdToWs_sink (t : Tunnel) (data : Bytes) :
    (t.guacdToWs data).sink = t.sink ∨ ∃ text, (t.guacdToWs data).sink = t.sink ++ [.relayed text] := by
  rcases guacdToWs_cases t data with h | h | h | ⟨bytes, rest, h⟩
  · exact .inl (by rw [h])
  · exact .inl (by rw [h])
  · exact .inl (by rw [h, extend])
  · rw [h]
    cases hdecode : Utf8.decode bytes with
    | none =>
      left
      simp only [flush, hdecode, extend]
    | some text =>
      obtain ⟨lastError, sniffed, disconnected, hflush⟩ := flush_of_decode (t.extend data) rest hdecode
      exact .inr ⟨text, by rw [hflush, extend]⟩

/-- Every echo on the sink is one instruction. -/
def EchoesWhole (t : Tunnel) : Prop := ∀ text, .echoed text ∈ t.sink → ∃ i : Instruction, text = i.encode

theorem echoesWhole_step (t : Tunnel) (event : ProxyEvent) (h : EchoesWhole t) : EchoesWhole (t.step event) := by
  intro text hmem
  cases event with
  | guacdRead data =>
    rcases guacdToWs_sink t data with hsink | ⟨sent, hsink⟩
    · exact h text (hsink ▸ hmem)
    · simp only [step, hsink, mem_append, mem_singleton, reduceCtorEq, or_false] at hmem
      exact h text hmem
  | browser msg =>
    obtain ⟨-, -, hsink | ⟨i, hsink⟩⟩ := wsToGuacd_frame t msg
    · exact h text (hsink ▸ hmem)
    · simp only [step, hsink, mem_append, mem_singleton, Frame.echoed.injEq] at hmem
      rcases hmem with hmem | hmem
      · exact h text hmem
      · exact ⟨i, hmem⟩

theorem encode_groupText (group : List Instruction) : Utf8.encode (groupText group) = streamBytes group :=
  encode_flatten group

theorem flatten_map_encode_groupText :
    ((groups.map groupText).map Utf8.encode).flatten = streamBytes groups.flatten := by
  induction groups with
  | nil => rfl
  | cons group groups ih => simp only [map_cons, flatten_cons, ih, encode_groupText, streamBytes_append]

theorem flatMap_readStream_groupText :
    (groups.map groupText).flatMap (fun text => (readStream (Utf8.encode text)).1) = groups.flatten.map wire := by
  induction groups with
  | nil => rfl
  | cons group groups ih =>
    rw [map_cons, flatMap_cons, ih, encode_groupText, readStream_streamBytes_nil, flatten_cons, map_append]

/-- **Stream integrity.** However the reads are cut and interleaved with the browser's messages, while the carry
keeps its limit: the messages to the browser are whole instructions, those relayed and the carry are the bytes
received, and they are read as the instructions in order. -/
theorem guacdToWs_stream_integrity (instrs : List Instruction) (readOnly : Bool) (recording : Option Bytes)
    (events : List ProxyEvent) (hstream : received events <+: streamBytes instrs)
    (hcarry : Guarded step CarryWithin (start readOnly recording) events) :
    let t := run step (start readOnly recording) events
    (∀ frame ∈ t.sink, ∃ group, frame.text = groupText group) ∧
      (t.relayed.map Utf8.encode).flatten ++ t.carry = received events ∧
      (∀ text ∈ t.relayed, (readStream (Utf8.encode text)).2 = []) ∧
      ∃ k, t.relayed.flatMap (fun text => (readStream (Utf8.encode text)).1) = (instrs.take k).map wire ∧
        Chunk.Begins t.carry ((instrs.drop k).map bytes) := by
  intro t
  obtain ⟨groups, todo, hinstrs, hrelayed, harrived, hbegins⟩ :=
    aligned_run (aligned_start instrs readOnly recording) rfl hstream hcarry
  have hechoes : EchoesWhole t := invariant_run_of_step step echoesWhole_step
    (fun text hmem => absurd hmem not_mem_nil) events
  refine ⟨?_, ?_, ?_, groups.flatten.length, ?_, ?_⟩
  · intro frame hframe
    cases frame with
    | relayed text =>
      have hmem : text ∈ t.relayed := mem_filterMap.mpr ⟨_, hframe, rfl⟩
      rw [hrelayed] at hmem
      obtain ⟨group, -, hgroup⟩ := List.mem_map.mp hmem
      exact ⟨group, hgroup.symm⟩
    | echoed text =>
      obtain ⟨i, hi⟩ := hechoes text hframe
      refine ⟨[i], ?_⟩
      simp [Frame.text, groupText, hi]
  · rw [hrelayed, flatten_map_encode_groupText, ← harrived]
    rfl
  · intro text htext
    rw [hrelayed] at htext
    obtain ⟨group, -, rfl⟩ := List.mem_map.mp htext
    rw [encode_groupText, readStream_streamBytes_nil]
  · rw [hrelayed, flatMap_readStream_groupText, hinstrs, take_left]
  · rw [hinstrs, drop_left]
    exact hbegins

def cutEvents : List ProxyEvent :=
  [.guacdRead [52, 46, 110, 97, 109, 101, 44, 49, 46, 0xC3], .browser (.text "0.,4.ping,1.5;"),
    .guacdRead [0xA9, 59, 51, 46, 110]]

theorem stream_integrity_cut_character : let t := run step (start false none) cutEvents
    t.sink = [.echoed "0.,4.ping,1.5;", .relayed "4.name,1.é;"] ∧
      (t.relayed.map Utf8.encode).flatten ++ t.carry = received cutEvents :=
  ⟨by decide +kernel, (guacdToWs_stream_integrity [⟨"name", ["é"]⟩, ⟨"nop", []⟩] false none cutEvents
      (by decide +kernel) (by decide +kernel)).2.1⟩

end Persea.Proxy
