import Persea.BaseTransition
import Persea.ProtocolBoundary
import Persea.ProtocolStreaming

/-! The two tasks of `proxy_ws_guacd`: `guacd_to_ws` sends whole instructions as text, `ws_to_guacd` answers pings and
forwards the filtered input. Every event is one turn of the loop of one of them. -/

namespace Persea.Proxy

open Base Protocol List

def maxGuacdCarry : Nat := 16 * 1024 * 1024

def maxWsMsgSize : Nat := 64 * 1024 * 1024

inductive Frame where
  | relayed (text : Text)
  | echoed (text : Text)
deriving DecidableEq, Repr

def Frame.text : Frame → Text
  | .relayed text => text
  | .echoed text => text

def Frame.relayedText : Frame → Option Text
  | .relayed text => some text
  | .echoed _ => none

inductive TransferDirection where
  | browserToGuacd
  | guacdToBrowser
deriving DecidableEq, Repr

structure Tunnel where
  readOnly : Bool
  /-- Bytes from guacd after the last complete instruction. -/
  carry : Bytes
  sink : List Frame
  recording : Option Bytes
  serverDisconnected : Bool
  lastError : Option Text
  /-- Instructions handed to the file-transfer audit. -/
  sniffed : List (TransferDirection × Instruction)
  /-- `guacd_to_ws` has returned. -/
  guacdDone : Bool
  /-- Bytes written to guacd. -/
  toGuacd : Bytes
  /-- Number of `update_activity` calls. -/
  activity : Nat
  /-- `ws_to_guacd` has returned. -/
  browserDone : Bool
deriving DecidableEq, Repr

def Tunnel.start (readOnly : Bool) (recording : Option Bytes) : Tunnel :=
  { readOnly, carry := [], sink := [], recording, serverDisconnected := false, lastError := none,
    sniffed := [], guacdDone := false, toGuacd := [], activity := 0, browserDone := false }

variable (t : Tunnel)

def Tunnel.relayed : List Text := t.sink.filterMap Frame.relayedText

def containsText (text needle : Text) : Bool := text.tails.any fun rest => needle.isPrefixOf rest

theorem containsText_iff {text needle : Text} : containsText text needle ↔ needle <:+: text := by
  unfold containsText
  rw [any_eq_true]
  constructor
  · rintro ⟨rest, hrest, hneedle⟩
    exact (List.isPrefixOf_iff_prefix.mp hneedle).isInfix.trans ((mem_tails _ _).mp hrest).isInfix
  · rintro ⟨before, after, rfl⟩
    refine ⟨needle ++ after, (mem_tails _ _).mpr ⟨before, by simp⟩, ?_⟩
    exact isPrefixOf_iff_prefix.mpr (prefix_append _ _)

/-- The instructions of `parser.receive(text).into_iter().flatten()` for a fresh parser. -/
def receivedInstructions (text : Text) : List Instruction :=
  (InstructionParser.new.receive text).1.filterMap Except.toOption

def guacdTransferOpcodes : List Text := ["file", "blob", "ack", "end", "body"].map String.toList

def Tunnel.inspectGuacd (i : Instruction) : Tunnel :=
  if i.opcode = "error" then
    { t with lastError := some (i.args.headD "unknown error") }
  else if i.opcode ∈ guacdTransferOpcodes then
    { t with sniffed := t.sniffed ++ [(.guacdToBrowser, i)] }
  else t

def announcesDisconnect (text : Text) : Bool :=
  "10.disconnect;".toList.isPrefixOf text || containsText text ";10.disconnect;"

def Tunnel.flush (bytes rest : Bytes) : Tunnel :=
  match Utf8.decode bytes with
  | none => { t with carry := rest, guacdDone := true }
  | some text =>
    let t := (receivedInstructions text).foldl Tunnel.inspectGuacd { t with carry := rest }
    { t with
      serverDisconnected := t.serverDisconnected || announcesDisconnect text
      sink := t.sink ++ [.relayed text] }

theorem foldl_inspectGuacd (found : List Instruction) (t : Tunnel) :
    ∃ lastError sniffed, found.foldl Tunnel.inspectGuacd t = { t with lastError, sniffed } := by
  induction found generalizing t with
  | nil => exact ⟨t.lastError, t.sniffed, rfl⟩
  | cons i found ih =>
    have hone : ∃ lastError sniffed, t.inspectGuacd i = { t with lastError, sniffed } := by
      unfold Tunnel.inspectGuacd
      split_ifs
      · exact ⟨_, _, rfl⟩
      · exact ⟨_, _, rfl⟩
      · exact ⟨t.lastError, t.sniffed, rfl⟩
    obtain ⟨lastError, sniffed, hone⟩ := hone
    rw [foldl_cons, hone]
    exact ih _

variable (t : Tunnel) {data : Bytes} {text : Text}

theorem flush_of_decode {bytes : Bytes} (rest : Bytes) (h : Utf8.decode bytes = some text) :
    ∃ lastError sniffed serverDisconnected, t.flush bytes rest =
      { t with carry := rest, sink := t.sink ++ [.relayed text], lastError, sniffed, serverDisconnected } := by
  obtain ⟨lastError, sniffed, hfold⟩ := foldl_inspectGuacd (receivedInstructions text) { t with carry := rest }
  simp only [Tunnel.flush, h, hfold]
  exact ⟨lastError, sniffed, _, rfl⟩

def Tunnel.extend (data : Bytes) : Tunnel :=
  { t with carry := t.carry ++ data, recording := t.recording.map (· ++ data) }

def Tunnel.guacdToWs (data : Bytes) : Tunnel :=
  if t.guacdDone then t
  else if data = [] then { t with guacdDone := true }
  else
    let carry := t.carry ++ data
    match lastInstructionBoundary carry with
    | some stop => (t.extend data).flush (carry.take stop) (carry.drop stop)
    | none => if maxGuacdCarry < carry.length then (t.extend data).flush carry [] else t.extend data

theorem guacdToWs_of_boundary {t : Tunnel} {stop : Nat} (hdone : t.guacdDone = false) (hdata : data ≠ [])
    (hstop : lastInstructionBoundary (t.carry ++ data) = some stop) :
    t.guacdToWs data = (t.extend data).flush ((t.carry ++ data).take stop) ((t.carry ++ data).drop stop) := by
  simp only [Tunnel.guacdToWs, hdone, hdata, hstop, Bool.false_eq_true, if_false]

theorem guacdToWs_of_no_boundary {t : Tunnel} (hdone : t.guacdDone = false) (hdata : data ≠ [])
    (hstop : lastInstructionBoundary (t.carry ++ data) = none)
    (hcarry : (t.carry ++ data).length ≤ maxGuacdCarry) : t.guacdToWs data = t.extend data := by
  simp only [Tunnel.guacdToWs, hdone, hdata, hstop, Nat.not_lt.mpr hcarry, Bool.false_eq_true, if_false]

theorem guacdToWs_cases (data : Bytes) : t.guacdToWs data = t ∨ t.guacdToWs data = { t with guacdDone := true } ∨
      t.guacdToWs data = t.extend data ∨
      ∃ bytes rest, t.guacdToWs data = (t.extend data).flush bytes rest := by
  unfold Tunnel.guacdToWs
  by_cases hdone : t.guacdDone
  · exact .inl (if_pos hdone)
  rw [if_neg hdone]
  by_cases hdata : data = []
  · exact .inr (.inl (if_pos hdata))
  rw [if_neg hdata]
  cases hstop : lastInstructionBoundary (t.carry ++ data) with
  | some stop =>
    simp only [hstop]
    exact .inr (.inr (.inr ⟨_, _, rfl⟩))
  | none =>
    simp only [hstop]
    by_cases hcarry : maxGuacdCarry < (t.carry ++ data).length
    · exact .inr (.inr (.inr ⟨_, _, if_pos hcarry⟩))
    · exact .inr (.inr (.inl (if_neg hcarry)))

def shadowBlockedOpcodes : List Text :=
  ["key", "mouse", "clipboard", "argv", "get", "file", "blob", "end", "body", "size", "ack"].map String.toList

def shadowBlockedOpcode (opcode : Text) : Bool := opcode ∈ shadowBlockedOpcodes

def filterReadOnlyInput (text : Text) : Text :=
  ((receivedInstructions text).filter fun i => !shadowBlockedOpcode i.opcode).flatMap Instruction.encode

/-- The arguments of a message on the internal channel: an instruction with the empty opcode. -/
def internalArgs (text : Text) : Option (List Text) :=
  if "0.,".toList.isPrefixOf text then
    match Instruction.parse (text.rdropWhile (· = ';')) with
    | .error _ => none
    | .ok i => if i.opcode = [] then some i.args else none
  else none

def browserTransferOpcodes : List Text := ["file", "blob", "ack", "end"].map String.toList

def Tunnel.inspectBrowser (text : Text) : Tunnel :=
  if browserTransferOpcodes.any fun opcode => containsText text (opcode ++ [',']) then
    let found := (receivedInstructions text).filter fun i => i.opcode ∈ browserTransferOpcodes
    { t with sniffed := t.sniffed ++ found.map (TransferDirection.browserToGuacd, ·) }
  else t

def Tunnel.endBrowser (t : Tunnel) : Tunnel :=
  { t with
    toGuacd := t.toGuacd ++ Instruction.bytes ⟨"disconnect", []⟩
    browserDone := true }

def Tunnel.forward (t : Tunnel) (text : Text) : Tunnel :=
  let t := t.inspectBrowser text
  { t with activity := t.activity + 1, toGuacd := t.toGuacd ++ Utf8.encode text }

theorem forward_eq (text : Text) : ∃ sniffed, t.forward text =
    { t with sniffed, activity := t.activity + 1, toGuacd := t.toGuacd ++ Utf8.encode text } := by
  unfold Tunnel.forward Tunnel.inspectBrowser
  split_ifs
  · exact ⟨_, rfl⟩
  · exact ⟨t.sniffed, rfl⟩

def Tunnel.browserText (t : Tunnel) (text : Text) : Tunnel :=
  if maxWsMsgSize < (Utf8.encode text).length then t.endBrowser
  else
    match internalArgs text with
    | some args =>
      -- only pings are answered on the internal channel, the rest is dropped
      if args.head? = some "ping".toList then
        { t with sink := t.sink ++ [.echoed (Instruction.encode ⟨[], args⟩)] }
      else t
    | none =>
      if t.readOnly then
        if filterReadOnlyInput text = [] then t else t.forward (filterReadOnlyInput text)
      else t.forward text

inductive Message where
  | text (text : Text)
  | binary (len : Nat)
  | close
  | other
deriving DecidableEq, Repr

def Tunnel.wsToGuacd (t : Tunnel) (msg : Message) : Tunnel :=
  if t.browserDone then t
  else
    match msg with
    | .text text => t.browserText text
    | .binary len => if maxWsMsgSize < len then t.endBrowser else t
    | .close => t.endBrowser
    | .other => t

def Tunnel.forwarded (t : Tunnel) : Message → Option Text
  | .text text =>
    if t.browserDone ∨ maxWsMsgSize < (Utf8.encode text).length ∨ internalArgs text ≠ none then none
    else if t.readOnly then (some (filterReadOnlyInput text)).filter (· ≠ []) else some text
  | _ => none

theorem wsToGuacd_cases (msg : Message) : t.wsToGuacd msg = t ∨ t.wsToGuacd msg = t.endBrowser ∨
      (∃ i : Instruction, t.wsToGuacd msg = { t with sink := t.sink ++ [.echoed i.encode] }) ∨
      ∃ text, t.wsToGuacd msg = t.forward text ∧ t.forwarded msg = some text := by
  unfold Tunnel.wsToGuacd
  by_cases hdone : t.browserDone
  · rw [if_pos hdone]
    exact .inl rfl
  rw [if_neg hdone]
  cases msg with
  | text text =>
    simp only [Tunnel.browserText]
    by_cases hsize : maxWsMsgSize < (Utf8.encode text).length
    · rw [if_pos hsize]
      exact .inr (.inl rfl)
    rw [if_neg hsize]
    cases hargs : internalArgs text with
    | some args =>
      by_cases hping : args.head? = some "ping"
      · exact .inr (.inr (.inl ⟨⟨[], args⟩, if_pos hping⟩))
      · exact .inl (if_neg hping)
    | none =>
      have hforwarded : t.forwarded (.text text) =
          if t.readOnly then (some (filterReadOnlyInput text)).filter (· ≠ []) else some text := by
        rw [Tunnel.forwarded, if_neg]
        simp [hdone, hsize, hargs]
      rw [hforwarded]
      by_cases hreadOnly : t.readOnly
      · by_cases hempty : filterReadOnlyInput text = []
        · simp only [hreadOnly, hempty, if_true, true_or]
        · simp only [hreadOnly, hempty, if_true, if_false]
          exact .inr (.inr (.inr ⟨_, rfl, by simp [hempty]⟩))
      · simp only [if_neg hreadOnly]
        exact .inr (.inr (.inr ⟨text, rfl, rfl⟩))
  | binary len =>
    by_cases hsize : maxWsMsgSize < len
    · exact .inr (.inl (if_pos hsize))
    · exact .inl (if_neg hsize)
  | close => exact .inr (.inl rfl)
  | other => exact .inl rfl

theorem filtered_of_forwarded {t : Tunnel} {msg : Message} (hreadOnly : t.readOnly)
    (h : t.forwarded msg = some text) : ∃ input, text = filterReadOnlyInput input := by
  cases msg with
  | text input =>
    refine ⟨input, ?_⟩
    simp only [Tunnel.forwarded, hreadOnly, if_true] at h
    split_ifs at h
    exact (Option.some.inj (Option.filter_eq_some_iff.mp h).1).symm
  | _ => contradiction

inductive ProxyEvent where
  | guacdRead (data : Bytes)
  | browser (msg : Message)
deriving DecidableEq, Repr

def Tunnel.step : ProxyEvent → Tunnel
  | .guacdRead data => t.guacdToWs data
  | .browser msg => t.wsToGuacd msg

end Persea.Proxy
