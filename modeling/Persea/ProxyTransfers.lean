import Persea.BaseBase64
import Persea.BaseStore
import Persea.ProxyTunnel

/-! The file-transfer audit. `sniff_transfer_instruction` follows the transfers of both directions in one map by their
stream index; in the ledger each direction has streams of its own. -/

namespace Persea.Proxy

open Base Protocol Transition Option List AList

inductive TransferKind where
  | upload
  | download
deriving DecidableEq, Repr

def TransferDirection.kind : TransferDirection → TransferKind
  | .browserToGuacd => .upload
  | .guacdToBrowser => .download

structure PendingTransfer where
  kind : TransferKind
  filename : Text
  mimetype : Text
  size : Nat
deriving DecidableEq, Repr

structure TransferAuditEvent where
  kind : TransferKind
  filename : Text
  mimetype : Text
  size : Nat
  error : Bool
deriving DecidableEq, Repr

def base64BlobLen (data : Text) : Nat :=
  let data := Text.trimEnd data
  let len := (Utf8.encode data).length
  let len :=
    if "==" <:+ data then len - 2
    else if 0 < len ∧ "=" <:+ data then len - 1
    else len
  len * 3 / 4

def maxPendingTransfers : Nat := 4096

abbrev Pending := Store Int PendingTransfer

/-- A full map gives up its smallest index for a new one. -/
def trackTransfer (pending : Pending) (idx : Int) (t : PendingTransfer) : Pending :=
  let pending :=
    if pending.lookup idx = none ∧ maxPendingTransfers ≤ pending.entries.length then
      match pending.keys.min? with
      | some oldest => pending.erase oldest
      | none => pending
    else pending
  pending.insert idx t

def parseI64 : Text → Option Int
  | '-' :: digits =>
    if digits ≠ [] ∧ digits.all Char.isDigit ∧ Nat.ofDigitChars 10 digits 0 ≤ 2 ^ 63 then
      some (-(Nat.ofDigitChars 10 digits 0 : Int))
    else none
  | s =>
    let digits := stripPlus s
    if digits ≠ [] ∧ digits.all Char.isDigit ∧ Nat.ofDigitChars 10 digits 0 < 2 ^ 63 then
      some (Nat.ofDigitChars 10 digits 0 : Int)
    else none

def streamIndex (args : List Text) : Option Int := args.head?.bind parseI64

variable (direction : TransferDirection)

def fileTransfer : List Text → Option (Int × PendingTransfer)
  | idx :: mimetype :: filename :: _ =>
    ((parseI64 idx).filter (0 ≤ ·)).map fun idx => (idx, ⟨direction.kind, filename, mimetype, 0⟩)
  | _ => none

def streamIndexMimetype : Text := "application/vnd.glyptodon.guacamole.stream-index+json"

def bodyTransfer : List Text → Option (Int × PendingTransfer)
  | _ :: idx :: mimetype :: path :: _ =>
    if direction = .guacdToBrowser ∧ mimetype ≠ streamIndexMimetype then
      ((parseI64 idx).filter (0 ≤ ·)).map fun idx =>
        (idx, ⟨.download, path.rtakeWhile (· ≠ '/'), mimetype, 0⟩)
    else none
  | _ => none

def opened (i : Instruction) : Option (Int × PendingTransfer) :=
  if i.opcode = "file" then fileTransfer direction i.args
  else if i.opcode = "body" then bodyTransfer direction i.args
  else none

variable (i : Instruction)

def ackFails : Bool := i.args[2]?.getD "0".toList ≠ "0".toList

def tracked (pending : Pending) (i : Instruction) : Option (Int × PendingTransfer) := do
  let idx ← streamIndex i.args
  let p ← pending.lookup idx
  return (idx, p)

def PendingTransfer.finished (p : PendingTransfer) (error : Bool) : TransferAuditEvent :=
  ⟨p.kind, p.filename, p.mimetype, p.size, error⟩

def sniffStream (direction : TransferDirection) (pending : Pending) (idx : Int)
    (p : PendingTransfer) : Pending × List TransferAuditEvent :=
  if i.opcode = "blob" then
    match i.args[1]? with
    | some data =>
      if p.kind = direction.kind then
        (pending.insert idx { p with size := (p.size + base64BlobLen data) % 2 ^ 64 }, [])
      else (pending, [])
    | none => (pending, [])
  else if i.opcode = "end" then
    if p.kind = direction.kind then (pending.erase idx, [p.finished false]) else (pending, [])
  else if i.opcode = "ack" then
    -- acknowledgements run against the transfer
    if p.kind ≠ direction.kind ∧ ackFails i then (pending.erase idx, [p.finished true]) else (pending, [])
  else (pending, [])

def sniffTransferInstruction (direction : TransferDirection) (pending : Pending) :
    Pending × List TransferAuditEvent :=
  match opened direction i with
  | some (idx, t) => (trackTransfer pending idx t, [])
  | none =>
    match tracked pending i with
    | some (idx, p) => sniffStream i direction pending idx p
    | none => (pending, [])

structure Sniffer where
  pending : Pending
  emitted : List TransferAuditEvent

def Sniffer.start : Sniffer := ⟨∅, []⟩

def Sniffer.step (s : Sniffer) (event : TransferDirection × Instruction) : Sniffer :=
  let (pending, events) := sniffTransferInstruction event.2 event.1 s.pending
  ⟨pending, s.emitted ++ events⟩

structure Transfer where
  filename : Text
  mimetype : Text
  blobs : List Text
deriving DecidableEq, Repr

structure Completed where
  kind : TransferKind
  transfer : Transfer
  error : Bool
deriving DecidableEq, Repr

def Transfer.decodedSize (t : Transfer) : Option Nat :=
  (t.blobs.mapM Base64.decode).map fun bytes => bytes.flatten.length

/-- Every direction has its own streams, as many as it likes. -/
structure Ledger where
  streams : TransferKind → Int → Option Transfer
  completed : List Completed

open Ledger

def Ledger.start : Ledger := ⟨fun _ _ => none, []⟩

variable (l : Ledger)

def Ledger.set (kind : TransferKind) (idx : Int) (t : Option Transfer) : Ledger :=
  { l with streams := fun k j => if k = kind ∧ j = idx then t else l.streams k j }

def Ledger.complete (kind : TransferKind) (idx : Int) (error : Bool) : Ledger :=
  match l.streams kind idx with
  | some t => { l.set kind idx none with completed := l.completed ++ [⟨kind, t, error⟩] }
  | none => l

def Ledger.carry (kind : TransferKind) (idx : Int) (data : Text) : Ledger :=
  match l.streams kind idx with
  | some t => l.set kind idx (some { t with blobs := t.blobs ++ [data] })
  | none => l

def TransferKind.other : TransferKind → TransferKind
  | .upload => .download
  | .download => .upload

def Ledger.stepStream (i : Instruction) (direction : TransferDirection) (idx : Int) : Ledger :=
  if i.opcode = "blob" then
    match i.args[1]? with
    | some data => l.carry direction.kind idx data
    | none => l
  else if i.opcode = "end" then l.complete direction.kind idx false
  else if i.opcode = "ack" ∧ ackFails i then l.complete direction.kind.other idx true
  else l

/-- A transfer is opened by `file` or `body`, carries its blobs, and is completed by its `end` or by a failing
acknowledgement of the other side. -/
def Ledger.step (event : TransferDirection × Instruction) : Ledger :=
  match opened event.1 event.2 with
  | some (idx, t) => l.set t.kind idx (some ⟨t.filename, t.mimetype, []⟩)
  | none =>
    match streamIndex event.2.args with
    | some idx => l.stepStream event.2 event.1 idx
    | none => l

structure Records (e : TransferAuditEvent) (c : Completed) : Prop where
  kind : e.kind = c.kind
  filename : e.filename = c.transfer.filename
  mimetype : e.mimetype = c.transfer.mimetype
  error : e.error = c.error
  size : ∀ n ∈ c.transfer.decodedSize, e.size = n

/-- The instruction can be followed: the index it opens is not in use by the other direction, the map has room
for a new one, and the size of a transfer stays below `2 ^ 64`. -/
def Trackable (s : Sniffer) (event : TransferDirection × Instruction) : Prop :=
  (∀ x ∈ opened event.1 event.2, (∀ p ∈ s.pending.lookup x.1, p.kind = x.2.kind) ∧
    (s.pending.lookup x.1 ≠ none ∨ s.pending.entries.length < maxPendingTransfers)) ∧
  (event.2.opcode = "blob" → ∀ x ∈ tracked s.pending event.2, ∀ data ∈ event.2.args[1]?,
    x.2.size + base64BlobLen data < 2 ^ 64)

instance (s : Sniffer) (event : TransferDirection × Instruction) : Decidable (Trackable s event) :=
  inferInstanceAs (Decidable (_ ∧ _))

variable {data : Text} {idx : Int} {s : Sniffer} {l : Ledger} {event : TransferDirection × Instruction}
  {p : PendingTransfer}

/-- **The size of a blob is the number of its bytes.** -/
theorem base64BlobLen_decode {bytes : List UInt8} (h : Base64.decode data = some bytes) :
    base64BlobLen data = bytes.length := by
  obtain ⟨hvisible, groups, hlength, hbytes⟩ := Base64.decode_shape h
  have htrim : Text.trimEnd data = data := Text.trimEnd_eq_self hvisible
  have hlen : (Utf8.encode data).length = 4 * groups := by
    rw [Utf8.length_encode_ascii fun c hc => (hvisible c hc).2.trans (by decide), hlength]
  have hpadding : base64BlobLen data = (4 * groups - Base64.padding data) * 3 / 4 := by
    have hpos : ['='] <:+ data → 0 < 4 * groups := fun hsuffix => hlength ▸ hsuffix.length_le
    have hone : 0 < 4 * groups ∧ ['='] <:+ data ↔ ['='] <:+ data := ⟨And.right, fun h => ⟨hpos h, h⟩⟩
    have htwo : "==" = ['=', '='] := rfl
    have hsingle : "=" = ['='] := rfl
    simp only [base64BlobLen, htrim, hlen, Base64.padding, htwo, hsingle, hone]
    split_ifs <;> rfl
  have hle : Base64.padding data ≤ 2 := by
    unfold Base64.padding
    split_ifs <;> omega
  rw [hpadding]
  omega

theorem decodedSize_append {t : Transfer} {n : Nat} (h : { t with blobs := t.blobs ++ [data] }.decodedSize = some n) :
    ∃ m bytes, t.decodedSize = some m ∧ Base64.decode data = some bytes ∧ n = m + bytes.length := by
  obtain ⟨all, hall, hn⟩ := map_eq_some_iff.mp h
  rw [mapM_append] at hall
  obtain ⟨before, hbefore, hall⟩ := Option.bind_eq_some_iff.mp hall
  obtain ⟨last, hlast, hall⟩ := Option.bind_eq_some_iff.mp hall
  obtain ⟨bytes, hbytes, hlast⟩ := Option.bind_eq_some_iff.mp hlast
  obtain rfl : [bytes] = last := some.inj hlast
  obtain rfl : before ++ [bytes] = all := some.inj hall
  refine ⟨before.flatten.length, bytes, by rw [Transfer.decodedSize, hbefore, map_some], hbytes, ?_⟩
  rw [← hn, flatten_append, length_append, flatten_singleton]

/-! ### The map follows the ledger -/

structure Represents (p : PendingTransfer) (t : Transfer) : Prop where
  filename : p.filename = t.filename
  mimetype : p.mimetype = t.mimetype
  size : ∀ n ∈ t.decodedSize, p.size = n

def Agrees : Option PendingTransfer → (TransferKind → Option Transfer) → Prop
  | none, streams => ∀ kind, streams kind = none
  | some p, streams => (∃ t, streams p.kind = some t ∧ Represents p t) ∧ streams p.kind.other = none

structure Follows (s : Sniffer) (l : Ledger) : Prop where
  streams : ∀ idx, Agrees (s.pending.lookup idx) fun kind => l.streams kind idx
  events : Forall₂ Records s.emitted l.completed

theorem other_ne (kind : TransferKind) : kind.other ≠ kind := by cases kind <;> decide

theorem eq_other_of_ne {a b : TransferKind} (h : a ≠ b) : b.other = a := by
  cases a <;> cases b <;> simp_all [TransferKind.other]

theorem agrees_of_update {pending pending' : Pending} {streams streams' : TransferKind → Int → Option Transfer}
    (h : ∀ j, Agrees (pending.lookup j) fun kind => streams kind j)
    (hpending : ∀ j, j ≠ idx → pending'.lookup j = pending.lookup j)
    (hstreams : ∀ kind j, j ≠ idx → streams' kind j = streams kind j)
    (hidx : Agrees (pending'.lookup idx) fun kind => streams' kind idx) (j : Int) :
    Agrees (pending'.lookup j) fun kind => streams' kind j := by
  by_cases hj : j = idx
  · rw [hj]
    exact hidx
  · have hrow : (fun kind => streams' kind j) = fun kind => streams kind j := funext fun kind => hstreams kind j hj
    rw [hpending j hj, hrow]
    exact h j

theorem Ledger.set_ne (l : Ledger) (kind : TransferKind) (t : Option Transfer) {j : Int} (hj : j ≠ idx)
    (k : TransferKind) : (l.set kind idx t).streams k j = l.streams k j := if_neg fun h => hj h.2

@[simp] theorem Ledger.set_self (l : Ledger) (kind : TransferKind) (idx : Int) (t : Option Transfer) :
    (l.set kind idx t).streams kind idx = t := if_pos ⟨rfl, rfl⟩

theorem Ledger.set_other (l : Ledger) (kind : TransferKind) (idx : Int) (t : Option Transfer) :
    (l.set kind idx t).streams kind.other idx = l.streams kind.other idx := if_neg fun h => other_ne kind h.1

theorem trackTransfer_eq {pending : Pending} (t : PendingTransfer)
    (hroom : pending.lookup idx ≠ none ∨ pending.entries.length < maxPendingTransfers) :
    trackTransfer pending idx t = pending.insert idx t := by
  unfold trackTransfer
  rw [if_neg]
  rintro ⟨hnone, hfull⟩
  rcases hroom with hsome | hless
  · exact hsome hnone
  · omega

theorem opened_size {direction : TransferDirection} {i : Instruction} {t : PendingTransfer}
    (h : opened direction i = some (idx, t)) : t.size = 0 := by
  unfold opened at h
  split_ifs at h
  · unfold fileTransfer at h
    split at h
    · obtain ⟨_, _, heq⟩ := map_eq_some_iff.mp h
      rw [← (Prod.mk.inj heq).2]
    · contradiction
  · unfold bodyTransfer at h
    split at h
    · split_ifs at h
      obtain ⟨_, _, heq⟩ := map_eq_some_iff.mp h
      rw [← (Prod.mk.inj heq).2]
    · contradiction

theorem follows_opened {t : PendingTransfer} (h : Follows s l) (hopened : opened event.1 event.2 = some (idx, t))
    (hguard : Trackable s event) : Follows (s.step event) (l.step event) := by
  obtain ⟨hkind, hroom⟩ := hguard.1 (idx, t) hopened
  have hs : s.step event = ⟨s.pending.insert idx t, s.emitted⟩ := by
    simp only [Sniffer.step, sniffTransferInstruction, hopened, trackTransfer_eq t hroom, append_nil]
  have hl : l.step event = l.set t.kind idx (some ⟨t.filename, t.mimetype, []⟩) := by simp only [step, hopened]
  have hother : l.streams t.kind.other idx = none := by
    have hagrees := h.streams idx
    cases hp : s.pending.lookup idx with
    | none =>
      rw [hp] at hagrees
      exact hagrees _
    | some p =>
      rw [hp] at hagrees
      rw [← hkind p hp]
      exact hagrees.2
  rw [hs, hl]
  refine ⟨agrees_of_update h.streams (fun j hj => lookup_insert_ne hj) (fun k j hj => l.set_ne _ _ hj k) ?_,
    h.events⟩
  rw [lookup_insert]
  refine ⟨⟨_, l.set_self _ _ _, rfl, rfl, ?_⟩, (l.set_other _ _ _).trans hother⟩
  intro n hn
  obtain rfl : 0 = n := some.inj hn
  exact opened_size hopened

theorem follows_carry (h : Follows s l)
    (hp : s.pending.lookup idx = some p) (hsize : p.size + base64BlobLen data < 2 ^ 64) :
    Follows ⟨s.pending.insert idx { p with size := (p.size + base64BlobLen data) % 2 ^ 64 }, s.emitted⟩
      (l.carry p.kind idx data) := by
  have hagrees := h.streams idx
  rw [hp] at hagrees
  obtain ⟨⟨t, ht, hrep⟩, hother⟩ := hagrees
  have hl : l.carry p.kind idx data = l.set p.kind idx (some { t with blobs := t.blobs ++ [data] }) := by
    simp only [carry, ht]
  rw [hl]
  refine ⟨agrees_of_update h.streams (fun j hj => lookup_insert_ne hj) (fun k j hj => l.set_ne _ _ hj k) ?_,
    h.events⟩
  rw [lookup_insert]
  refine ⟨⟨_, l.set_self _ _ _, hrep.filename, hrep.mimetype, ?_⟩, (l.set_other _ _ _).trans hother⟩
  intro n hn
  obtain ⟨m, bytes, hm, hdata, rfl⟩ := decodedSize_append hn
  change (p.size + base64BlobLen data) % 2 ^ 64 = m + bytes.length
  rw [Nat.mod_eq_of_lt hsize, hrep.size m hm, base64BlobLen_decode hdata]

theorem follows_complete (h : Follows s l) (hp : s.pending.lookup idx = some p) (error : Bool) :
    Follows ⟨s.pending.erase idx, s.emitted ++ [p.finished error]⟩ (l.complete p.kind idx error) := by
  have hagrees := h.streams idx
  rw [hp] at hagrees
  obtain ⟨⟨t, ht, hrep⟩, hother⟩ := hagrees
  have hl : l.complete p.kind idx error =
      { l.set p.kind idx none with completed := l.completed ++ [⟨p.kind, t, error⟩] } := by
    simp only [complete, ht]
  rw [hl]
  refine ⟨agrees_of_update h.streams (fun j hj => lookup_erase_ne hj) (fun k j hj => l.set_ne _ _ hj k) ?_, ?_⟩
  · rw [lookup_erase]
    intro kind
    by_cases hkind : kind = p.kind
    · rw [hkind]
      exact l.set_self _ _ _
    · rw [← eq_other_of_ne hkind]
      exact (l.set_other _ _ _).trans hother
  · refine rel_append h.events (Forall₂.cons ?_ Forall₂.nil)
    exact ⟨rfl, hrep.filename, hrep.mimetype, rfl, hrep.size⟩

theorem Ledger.carry_of_none {kind : TransferKind} (h : l.streams kind idx = none) (data : Text) :
    l.carry kind idx data = l := by
  simp only [carry, h]

theorem Ledger.complete_of_none {kind : TransferKind} (h : l.streams kind idx = none)
    (error : Bool) : l.complete kind idx error = l := by
  simp only [complete, h]

theorem Ledger.stepStream_of_none (h : ∀ kind, l.streams kind idx = none) (i : Instruction)
    (direction : TransferDirection) : l.stepStream i direction idx = l := by
  unfold stepStream
  split_ifs
  · split
    · exact carry_of_none (h _) _
    · rfl
  · exact complete_of_none (h _) _
  · exact complete_of_none (h _) _
  · rfl

theorem follows_stream (h : Follows s l) (hp : s.pending.lookup idx = some p)
    (hsize : event.2.opcode = "blob" → ∀ data ∈ event.2.args[1]?, p.size + base64BlobLen data < 2 ^ 64) :
    Follows ⟨(sniffStream event.2 event.1 s.pending idx p).1,
      s.emitted ++ (sniffStream event.2 event.1 s.pending idx p).2⟩ (l.stepStream event.2 event.1 idx) := by
  -- the direction that does not have the index open has nothing to carry or to complete
  have hother : ∀ kind, p.kind ≠ kind → l.streams kind idx = none := by
    intro kind hkind
    have hagrees := h.streams idx
    rw [hp] at hagrees
    rw [← eq_other_of_ne hkind.symm]
    exact hagrees.2
  have hsame : Follows ⟨s.pending, s.emitted ++ []⟩ l := by rwa [append_nil]
  unfold sniffStream stepStream
  by_cases hblob : event.2.opcode = "blob"
  · simp only [if_pos hblob]
    cases hdata : event.2.args[1]? with
    | none => exact hsame
    | some data =>
      by_cases hkind : p.kind = event.1.kind
      · simp only [if_pos hkind, append_nil]
        rw [← hkind]
        exact follows_carry h hp (hsize hblob data hdata)
      · simp only [if_neg hkind]
        rw [carry_of_none (hother _ hkind)]
        exact hsame
  simp only [if_neg hblob]
  by_cases hend : event.2.opcode = "end"
  · simp only [if_pos hend]
    by_cases hkind : p.kind = event.1.kind
    · simp only [if_pos hkind]
      rw [← hkind]
      exact follows_complete h hp false
    · simp only [if_neg hkind]
      rw [complete_of_none (hother _ hkind)]
      exact hsame
  simp only [if_neg hend]
  by_cases hack : event.2.opcode = "ack"
  · simp only [hack, if_true, true_and]
    by_cases hfails : ackFails event.2
    · by_cases hkind : p.kind = event.1.kind
      · simp only [hkind, ne_eq, not_true_eq_false, false_and, if_false, if_pos hfails]
        rw [complete_of_none (hother _ (hkind ▸ (other_ne _).symm))]
        exact hsame
      · rw [if_pos ⟨hkind, hfails⟩, if_pos hfails, eq_other_of_ne hkind]
        exact follows_complete h hp true
    · rw [if_neg fun h => hfails h.2, if_neg hfails]
      exact hsame
  · rw [if_neg hack, if_neg fun h => hack h.1]
    exact hsame

theorem follows_step (h : Follows s l) (hguard : Trackable s event) : Follows (s.step event) (l.step event) := by
  cases hopened : opened event.1 event.2 with
  | some x => exact follows_opened h hopened hguard
  | none =>
    simp only [Sniffer.step, sniffTransferInstruction, step, hopened]
    cases hidx : streamIndex event.2.args with
    | none =>
      have htracked : tracked s.pending event.2 = none := by rw [tracked, hidx]; rfl
      simp only [htracked, append_nil]
      exact h
    | some idx =>
      cases hp : s.pending.lookup idx with
      | none =>
        have hagrees := h.streams idx
        have htracked : tracked s.pending event.2 = none := by simp [tracked, hidx, hp]
        rw [hp] at hagrees
        simp only [htracked, append_nil]
        rw [stepStream_of_none hagrees]
        exact h
      | some p =>
        have htracked : tracked s.pending event.2 = some (idx, p) := by simp [tracked, hidx, hp]
        simp only [htracked]
        exact follows_stream h hp fun hblob => hguard.2 hblob (idx, p) htracked

/-- **The audit is complete**: while every instruction can be followed, there is one audit event for each completed
transfer of either direction, in order, with its direction, its name and the number of its bytes. -/
theorem transfers_audited (events : List (TransferDirection × Instruction))
    (hguarded : Guarded Sniffer.step Trackable Sniffer.start events) :
    Forall₂ Records (run Sniffer.step Sniffer.start events).emitted
      (run step start events).completed := by
  have hstart : Follows Sniffer.start start := ⟨fun idx kind => rfl, Forall₂.nil⟩
  exact (simulation_run Sniffer.step (fun s l event h hguard => follows_step h hguard) hstart
    hguarded).events

def instruction (opcode : String) (args : List String) : Instruction := ⟨opcode.toList, args.map String.toList⟩

def bothWays (down : String) : List (TransferDirection × Instruction) :=
  [(.browserToGuacd, instruction "file" ["0", "text/plain", "up.txt"]),
    (.guacdToBrowser, instruction "file" [down, "text/plain", "down.txt"]),
    (.browserToGuacd, instruction "blob" ["0", "QUJD"]),
    (.guacdToBrowser, instruction "blob" [down, "QQ=="]),
    (.browserToGuacd, instruction "end" ["0"]),
    (.guacdToBrowser, instruction "end" [down])]

def uploadEvent : TransferAuditEvent := ⟨.upload, "up.txt", "text/plain", 3, false⟩

def downloadEvent : TransferAuditEvent := ⟨.download, "down.txt", "text/plain", 1, false⟩

theorem transfers_audited_both :
    (run Sniffer.step Sniffer.start (bothWays "1")).emitted = [uploadEvent, downloadEvent] ∧
      Forall₂ Records (run Sniffer.step Sniffer.start (bothWays "1")).emitted
        (run step start (bothWays "1")).completed :=
  ⟨by decide +kernel, transfers_audited (bothWays "1") (by decide +kernel)⟩

/-- At one index the download takes the place of the upload, and the upload is never told of. -/
theorem upload_unaudited : (run Sniffer.step Sniffer.start (bothWays "0")).emitted = [downloadEvent] ∧
      (run step start (bothWays "0")).completed.map (·.kind) = [.upload, .download] := by
  decide +kernel

end Persea.Proxy
