import Persea.ProxyDownstream

/-! Server disconnects. `guacd_to_ws` looks for `10.disconnect;` in every text it sends, and so also finds it in the
data of other instructions. -/

namespace Persea.Proxy

open Base Protocol List Transition Tunnel

variable {instrs : List Instruction} {t : Tunnel} (bytes : Bytes) {text : Text}

theorem announcesDisconnect_iff :
    announcesDisconnect text ↔ "10.disconnect".toList ∈ (text.splitOn ';').dropLast := by
  rw [Text.mem_dropLast_splitOn_iff (by decide), announcesDisconnect, Bool.or_eq_true, containsText_iff,
    isPrefixOf_iff_prefix]
  rfl

theorem announcesDisconnect_groupText (group : List Instruction) :
    announcesDisconnect (groupText group) ↔ ∃ i ∈ group, announcesDisconnect i.encode := by
  have hone : ∀ i : Instruction, (i.encode.splitOn ';').dropLast = i.body.splitOn ';' := by
    intro i
    have h := splitOn_encodings [i]
    rwa [map_singleton, flatten_singleton, flatMap_singleton] at h
  simp only [announcesDisconnect_iff, hone]
  rw [groupText, splitOn_encodings, mem_flatMap]

theorem flush_serverDisconnected (t : Tunnel) {bytes : Bytes} (rest : Bytes)
    (h : Utf8.decode bytes = some text) :
    (t.flush bytes rest).serverDisconnected = (t.serverDisconnected || announcesDisconnect text) := by
  obtain ⟨lastError, sniffed, hfold⟩ := foldl_inspectGuacd (receivedInstructions text) { t with carry := rest }
  simp only [flush, h, hfold]

def Flagged (t : Tunnel) : Prop := t.serverDisconnected = t.relayed.any announcesDisconnect

theorem Flagged.of_eq {t t' : Tunnel} (h : Flagged t) (hflag : t'.serverDisconnected = t.serverDisconnected)
    (hrelayed : t'.relayed = t.relayed) : Flagged t' := by
  unfold Flagged
  rw [hflag, hrelayed]
  exact h

theorem flagged_flush (h : Flagged t) (bytes rest : Bytes) : Flagged (t.flush bytes rest) := by
  cases hdecode : Utf8.decode bytes with
  | none => exact h.of_eq (by simp only [flush, hdecode]) (by simp only [flush, hdecode]; rfl)
  | some text =>
    have hrelayed : (t.flush bytes rest).relayed = t.relayed ++ [text] := by
      obtain ⟨lastError, sniffed, disconnected, hflush⟩ := flush_of_decode t rest hdecode
      rw [hflush]
      simp [relayed, Frame.relayedText]
    unfold Flagged
    rw [flush_serverDisconnected t rest hdecode, hrelayed, any_append, h]
    simp

theorem flagged_step (t : Tunnel) (event : ProxyEvent) (h : Flagged t) : Flagged (t.step event) := by
  cases event with
  | guacdRead data =>
    rcases guacdToWs_cases t data with hread | hread | hread | ⟨bytes, rest, hread⟩
    · exact h.of_eq (by rw [step, hread]) (by rw [step, hread])
    · exact h.of_eq (by rw [step, hread]) (by rw [step, hread]; rfl)
    · exact h.of_eq (by rw [step, hread]; rfl) (by rw [step, hread]; rfl)
    · rw [step, hread]
      have hextend : Flagged (t.extend data) := h.of_eq rfl rfl
      exact flagged_flush hextend bytes rest
  | browser msg =>
    refine h.of_eq ?_ (relayed_browser t msg)
    rcases wsToGuacd_cases t msg with hmsg | hmsg | ⟨i, hmsg⟩ | ⟨text, hmsg, -⟩
    · rw [step, hmsg]
    · rw [step, hmsg]
      rfl
    · rw [step, hmsg]
    · obtain ⟨sniffed, hforward⟩ := forward_eq t text
      rw [step, hmsg, hforward]

def ReadFits : ProxyEvent → Prop
  | .guacdRead data => data.length ≤ 65536
  | .browser _ => True

instance : (event : ProxyEvent) → Decidable (ReadFits event)
  | .guacdRead data => inferInstanceAs (Decidable (data.length ≤ 65536))
  | .browser _ => isTrue trivial

theorem unforced_of_size (hsize : ∀ i ∈ instrs, i.bytes.length ≤ maxGuacdCarry) {arrived data : Bytes}
    (haligned : Aligned instrs arrived t) (hstream : arrived ++ data <+: streamBytes instrs)
    (hfits : data.length ≤ 65536) : Unforced t data := by
  obtain ⟨groups, todo, hinstrs, -, harrived, hcarry⟩ := haligned
  have hwords : ∀ word ∈ todo.map Instruction.bytes, word.length ≤ maxGuacdCarry := by
    intro word hword
    obtain ⟨i, hi, rfl⟩ := List.mem_map.mp hword
    exact hsize i (hinstrs ▸ mem_append_right _ hi)
  have hfits' : (t.carry ++ data).length ≤ usizeMax := by
    have hle := hcarry.length_le hwords
    rw [length_append]
    exact (Nat.add_le_add hle hfits).trans (by decide)
  refine ⟨hfits', fun hnone => ?_⟩
  have hnext : t.carry ++ data <+: streamBytes todo := by
    rw [hinstrs, harrived, streamBytes_append, append_assoc] at hstream
    exact (prefix_append_right_inj _).mp hstream
  obtain ⟨done, rest, tail, rfl, hsplit, hbegins⟩ := exists_split_carry hnext
  rw [hsplit] at hnone hfits' ⊢
  rw [boundary_of_split hfits' hbegins] at hnone
  have hdone : done = [] := by
    by_contra hne
    rw [if_neg hne] at hnone
    contradiction
  rw [hdone]
  rw [map_append] at hwords
  exact hbegins.length_le fun word hword => hwords word (mem_append_right _ hword)

theorem exists_relayed (hsize : ∀ i ∈ instrs, i.bytes.length ≤ maxGuacdCarry) {readOnly : Bool}
    {recording : Option Bytes} {events : List ProxyEvent} (hfits : ∀ event ∈ events, ReadFits event)
    (hstream : received events <+: streamBytes instrs) :
    ∃ done todo, instrs = done ++ todo ∧
      (((run step (start readOnly recording) events).relayed.map Utf8.encode).flatten = streamBytes done) ∧
      (readStream (received events)).1 = done.map Instruction.wire ∧
      ((run step (start readOnly recording) events).serverDisconnected ↔
        ∃ i ∈ done, announcesDisconnect i.encode) := by
  have hflagged := invariant_run_of_step step flagged_step
    (s := start readOnly recording) rfl events
  obtain ⟨groups, todo, hinstrs, hrelayed, harrived, hbegins⟩ := aligned_run_of_guard
    (fun _ _ _ haligned hnext hread => unforced_of_size hsize haligned hnext hread)
    (aligned_start instrs readOnly recording) rfl hstream (guarded_of_mem _ hfits _)
  refine ⟨groups.flatten, todo, hinstrs, ?_, ?_, ?_⟩
  · rw [hrelayed, flatten_map_encode_groupText]
  · rw [nil_append] at harrived
    rw [harrived, readStream_streamBytes _ (readInstruction_of_tail hbegins)]
  · rw [hflagged, hrelayed, List.any_map, List.any_eq_true]
    simp only [Function.comp_apply, announcesDisconnect_groupText, mem_flatten]
    constructor
    · rintro ⟨group, hgroup, i, hi, hannounce⟩
      exact ⟨i, ⟨group, hgroup, hi⟩, hannounce⟩
    · rintro ⟨i, ⟨group, hgroup, hi⟩, hannounce⟩
      exact ⟨group, hgroup, i, hi, hannounce⟩

def Tunnel.DisconnectRelayed (t : Tunnel) : Prop :=
  ∃ elements ∈ (readStream (t.relayed.map Utf8.encode).flatten).1, elements.head? = some (Utf8.encode "disconnect")

theorem disconnectRelayed_iff {done : List Instruction}
    (h : (t.relayed.map Utf8.encode).flatten = streamBytes done) :
    t.DisconnectRelayed ↔ ∃ i ∈ done, i.opcode = "disconnect" := by
  unfold DisconnectRelayed
  rw [h, readStream_streamBytes_nil]
  simp only [List.mem_map, exists_exists_and_eq_and]
  refine exists_congr fun i => and_congr_right fun _ => ?_
  rw [Instruction.wire, Instruction.elements, map_cons, head?_cons, Option.some.injEq]
  exact ⟨Utf8.encode_injective, congrArg Utf8.encode⟩

def concernsDisconnect (i : Instruction) : Bool := i.opcode = "disconnect" || announcesDisconnect i.encode

theorem concernsDisconnect_iff {i : Instruction} : concernsDisconnect i ↔
    i.opcode = "disconnect" ∨ announcesDisconnect i.encode := by
  rw [concernsDisconnect, Bool.or_eq_true, decide_eq_true_eq]

def byteReads (bytes : Bytes) : List ProxyEvent := bytes.map fun b => .guacdRead [b]

theorem received_byteReads : received (byteReads bytes) = bytes := by
  induction bytes with
  | nil => rfl
  | cons b bytes ih =>
    change received (.guacdRead [b] :: byteReads bytes) = _
    rw [received, if_neg (cons_ne_nil b []), ih]
    rfl

theorem readFits_byteReads : ∀ event ∈ byteReads bytes, ReadFits event := by
  intro event hevent
  obtain ⟨b, -, rfl⟩ := List.mem_map.mp hevent
  change 1 ≤ 65536
  decide

theorem relayed_byteReads {instrs : List Instruction} (hsize : ∀ i ∈ instrs, i.bytes.length ≤ maxGuacdCarry)
    {readOnly : Bool} {recording : Option Bytes} :
    ((run step (start readOnly recording)
        (byteReads (streamBytes instrs))).serverDisconnected ↔
      ∃ i ∈ instrs, announcesDisconnect i.encode) ∧
    ((run step (start readOnly recording)
        (byteReads (streamBytes instrs))).DisconnectRelayed ↔ ∃ i ∈ instrs, i.opcode = "disconnect") := by
  have hread : received (byteReads (streamBytes instrs)) = streamBytes instrs := received_byteReads _
  have hstream : received (byteReads (streamBytes instrs)) <+: streamBytes instrs := by rw [hread]
  obtain ⟨done, todo, hsplit, hbytes, hwire, hflag⟩ :=
    @exists_relayed instrs hsize readOnly recording _ (readFits_byteReads (streamBytes instrs)) hstream
  have hdone : instrs = done := by
    rw [hread, readStream_streamBytes_nil] at hwire
    have hlength := congrArg List.length hwire
    rw [length_map, length_map] at hlength
    have hend : instrs ++ [] = done ++ todo := by rw [append_nil, hsplit]
    exact append_inj_left hend hlength
  rw [hflag, disconnectRelayed_iff hbytes, ← hdone]
  exact ⟨Iff.rfl, Iff.rfl⟩

/-- **Disconnects are detected exactly**, in every cut of the stream and at every time, if and only if the first
instruction that is a `disconnect` or announces one is both. Instructions are within the limit of the carry. -/
theorem serverDisconnected_exact_iff {instrs : List Instruction}
    (hsize : ∀ i ∈ instrs, i.bytes.length ≤ maxGuacdCarry) :
    (∀ (readOnly : Bool) (recording : Option Bytes) (events : List ProxyEvent),
      (∀ event ∈ events, ReadFits event) → received events <+: streamBytes instrs →
        ((run step (start readOnly recording) events).serverDisconnected = true ↔
          (run step (start readOnly recording) events).DisconnectRelayed)) ↔
      ∀ i ∈ instrs.find? concernsDisconnect, i.opcode = "disconnect" ∧ announcesDisconnect i.encode = true := by
  constructor
  · intro hexact i hfind
    obtain ⟨hconcerns, earlier, later, rfl, hearlier⟩ := find?_eq_some_iff_append.mp hfind
    -- the run that ends with this instruction
    have hupto : earlier ++ i :: later = (earlier ++ [i]) ++ later := append_cons earlier i later
    have hstream : received (byteReads (streamBytes (earlier ++ [i]))) <+: streamBytes (earlier ++ i :: later) := by
      rw [received_byteReads, hupto, streamBytes_append _ later]
      exact prefix_append _ _
    obtain ⟨hflag, hrelayed⟩ := relayed_byteReads fun j hj => hsize j (hupto ▸ mem_append_left later hj)
    have hrun := hexact false none _ (readFits_byteReads _) hstream
    rw [hflag, hrelayed] at hrun
    have hnone : ∀ j ∈ earlier, ¬(j.opcode = "disconnect" ∨ announcesDisconnect j.encode = true) := by
      intro j hj hconcerns
      have hnot := hearlier j hj
      rw [concernsDisconnect_iff.mpr hconcerns] at hnot
      contradiction
    rcases concernsDisconnect_iff.mp hconcerns with hopcode | hannounce
    · obtain ⟨j, hj, hannounce⟩ := hrun.mpr ⟨i, mem_append_right _ mem_cons_self, hopcode⟩
      rcases mem_append.mp hj with hj | hj
      · exact absurd (.inr hannounce) (hnone j hj)
      · exact ⟨hopcode, mem_singleton.mp hj ▸ hannounce⟩
    · obtain ⟨j, hj, hopcode⟩ := hrun.mp ⟨i, mem_append_right _ mem_cons_self, hannounce⟩
      rcases mem_append.mp hj with hj | hj
      · exact absurd (.inl hopcode) (hnone j hj)
      · exact ⟨mem_singleton.mp hj ▸ hopcode, hannounce⟩
  · intro hfirst readOnly recording events hfits hstream
    obtain ⟨done, todo, rfl, hbytes, -, hflag⟩ := exists_relayed hsize hfits hstream
    rw [hflag, disconnectRelayed_iff hbytes]
    have hboth : ∀ i ∈ done, concernsDisconnect i = true →
        ∃ k ∈ done, k.opcode = "disconnect" ∧ announcesDisconnect k.encode = true := by
      intro i hi hconcerns
      obtain ⟨k, hk⟩ := Option.isSome_iff_exists.mp (find?_isSome.mpr ⟨i, hi, hconcerns⟩)
      refine ⟨k, mem_of_find?_eq_some hk, hfirst k ?_⟩
      rw [find?_append, hk]
      rfl
    constructor
    · rintro ⟨i, hi, hannounce⟩
      obtain ⟨k, hk, hopcode, -⟩ := hboth i hi (concernsDisconnect_iff.mpr (.inr hannounce))
      exact ⟨k, hk, hopcode⟩
    · rintro ⟨i, hi, hopcode⟩
      obtain ⟨k, hk, -, hannounce⟩ := hboth i hi (concernsDisconnect_iff.mpr (.inl hopcode))
      exact ⟨k, hk, hannounce⟩

def disconnectStream : List Instruction := [⟨"name", ["10.disconnect;"]⟩, ⟨"disconnect", []⟩]

theorem serverDisconnected_cut : (run step (start false none)
      [.guacdRead ((streamBytes disconnectStream).take 30),
        .guacdRead ((streamBytes disconnectStream).drop 30)]).serverDisconnected = true ↔
    (run step (start false none)
      [.guacdRead ((streamBytes disconnectStream).take 30),
        .guacdRead ((streamBytes disconnectStream).drop 30)]).DisconnectRelayed :=
  (@serverDisconnected_exact_iff disconnectStream (by decide +kernel)).mpr (by decide +kernel) _ _ _
    (by decide +kernel) (by decide +kernel)

/-- A title with the words between two `;` sets the flag, a `disconnect` with an argument does not. -/
theorem serverDisconnected_inexact : (run step (start false none)
        [.guacdRead (Instruction.bytes ⟨"name".toList, [";10.disconnect;".toList]⟩)]).serverDisconnected = true ∧
      (readStream (Instruction.bytes ⟨"name".toList, [";10.disconnect;".toList]⟩)).1 =
        [["name".toList, ";10.disconnect;".toList].map Utf8.encode] ∧
      (run step (start false none)
        [.guacdRead (Instruction.bytes ⟨"disconnect".toList, ["0".toList]⟩)]).serverDisconnected = false := by
  decide +kernel

end Persea.Proxy
