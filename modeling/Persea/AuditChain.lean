import Persea.BaseJson
import Persea.BaseUtf8
import Mathlib.Data.List.Nodup

/-! The audit log: every row carries the hash of its event and that of the row before it. SHA-256, the JSON parser and
the date format are other people's code, and appear as parameters. -/

namespace Persea.Audit

open Base List

structure Event (DateTime : Type) where
  eventType : Text
  timestamp : DateTime
  userId : Option Text
  sourceIp : Option Text
  outcome : Text
  details : Json
  sessionId : Option Text

structure AuditEvent (DateTime : Type) extends Event DateTime where
  id : Int
  prevHash : Text
  eventHash : Text

structure Row where
  id : Int
  eventType : Text
  timestamp : Text
  userId : Option Text
  sourceIp : Option Text
  outcome : Text
  details : Option Text
  sessionId : Option Text
  prevHash : Text
  eventHash : Text
deriving DecidableEq, Repr

structure Libraries (DateTime : Type) where
  /-- SHA-256, in hexadecimal. -/
  sha256Hex : List UInt8 → Text
  toRfc3339 : DateTime → Text
  parseFromRfc3339 : Text → Option DateTime
  fromStr : Text → Option Json

variable {DateTime : Type} (lib : Libraries DateTime)

def optional (key : String) (value : Option Text) : List (Text × Json) :=
  (value.map fun s => (key.toList, Json.string s)).toList

def canonical (event : Event DateTime) : List (Text × Json) :=
  ("details".toList, event.details) :: ("event_type".toList, .string event.eventType) ::
    ("outcome".toList, .string event.outcome) ::
    (optional "session_id" event.sessionId ++ (optional "source_ip" event.sourceIp ++
        ("timestamp".toList, .string (lib.toRfc3339 event.timestamp)) :: optional "user_id" event.userId))

def computeEventHash (event : Event DateTime) : Text :=
  lib.sha256Hex (Utf8.encode (Json.object (canonical lib event)).print)

def genesisHash : Text := replicate 64 '0'

variable (rows : List Row)

def tailHash : Text := (rows.getLast?.map Row.eventHash).getD genesisHash

def eventRow (id : Int) (event : Event DateTime) (prevHash : Text) : Row where
  id := id
  eventType := event.eventType
  timestamp := lib.toRfc3339 event.timestamp
  userId := event.userId
  sourceIp := event.sourceIp
  outcome := event.outcome
  details :=
    match event.details with
    | .null => none
    | details => some details.print
  sessionId := event.sessionId
  prevHash := prevHash
  eventHash := computeEventHash lib event

def nextId : Int := (rows.getLast?.map Row.id).getD 0 + 1

def logEvent (event : Event DateTime) : List Row := rows ++ [eventRow lib (nextId rows) event (tailHash rows)]

def writeLog (events : List (Event DateTime)) : List Row := events.foldl (logEvent lib) []

def readRow (now : DateTime) (row : Row) : AuditEvent DateTime where
  eventType := row.eventType
  timestamp := (lib.parseFromRfc3339 row.timestamp).getD now
  userId := row.userId
  sourceIp := row.sourceIp
  outcome := row.outcome
  details :=
    match row.details with
    | some s => (lib.fromStr s).getD .null
    | none => .null
  sessionId := row.sessionId
  id := row.id
  prevHash := row.prevHash
  eventHash := row.eventHash

structure ChainError where
  eventId : Int
  message : Text
deriving DecidableEq, Repr

inductive ChainStatus where
  | verified
  | broken
deriving DecidableEq, Repr

structure ChainVerification where
  status : ChainStatus
  eventsScanned : Nat
  errors : List ChainError
deriving DecidableEq, Repr

structure Scan where
  eventsScanned : Nat
  errors : List ChainError
  prevEventHash : Option Text

def prevErrors (firstId : Option Int) (prevEventHash : Option Text) (event : AuditEvent DateTime) : List ChainError :=
  match prevEventHash with
  | some expected =>
    if event.prevHash ≠ expected then
      [⟨event.id, "prev_hash mismatch: expected " ++ expected ++ ", got " ++ event.prevHash⟩]
    else []
  | none =>
    if event.prevHash ≠ genesisHash ∧ firstId ≠ some event.id then
      [⟨event.id, "prev_hash " ++ event.prevHash ++ " does not match genesis hash or preceding event"⟩]
    else []

def hashErrors (event : AuditEvent DateTime) : List ChainError :=
  let computed := computeEventHash lib event.toEvent
  if computed ≠ event.eventHash then
    [⟨event.id, "event_hash mismatch: stored=" ++ event.eventHash ++ ", recomputed=" ++ computed⟩]
  else []

def scanEvent (firstId : Option Int) (scan : Scan) (event : AuditEvent DateTime) : Scan where
  eventsScanned := scan.eventsScanned + 1
  errors := scan.errors ++ (prevErrors firstId scan.prevEventHash event ++ hashErrors lib event)
  prevEventHash := some event.eventHash

def verifyEvents (events : List (AuditEvent DateTime)) (firstId : Option Int) : ChainVerification :=
  let scan := events.foldl (scanEvent lib firstId) ⟨0, [], none⟩
  ⟨if scan.errors = [] then .verified else .broken, scan.eventsScanned, scan.errors⟩

def textLe (a b : Text) : Bool := !b.lex a fun x y => decide (x.toNat < y.toNat)

/-- The rows in the order of their ids; bounds are compared with the timestamps as texts. -/
def verifyChain (now : DateTime) (rows : List Row) (fromTs toTs : Option Text) : ChainVerification :=
  let scanned := rows.filter fun row =>
    (fromTs.all fun f => textLe f row.timestamp) && toTs.all fun t => textLe row.timestamp t
  verifyEvents lib (scanned.map (readRow lib now)) (rows.map Row.id).min?

def Valid (firstId : Option Int) : Option Text → List (AuditEvent DateTime) → Prop
  | _, [] => True
  | prevEventHash, event :: events =>
    prevErrors firstId prevEventHash event = [] ∧ hashErrors lib event = [] ∧
      Valid firstId (some event.eventHash) events

variable {lib}

theorem scan_errors_eq_nil (firstId : Option Int) (scan : Scan) (events : List (AuditEvent DateTime)) :
    (events.foldl (scanEvent lib firstId) scan).errors = [] ↔
      scan.errors = [] ∧ Valid lib firstId scan.prevEventHash events := by
  induction events generalizing scan with
  | nil => simp [Valid]
  | cons event events ih =>
    rw [foldl_cons, ih]
    simp only [scanEvent, append_eq_nil_iff, Valid]
    tauto

theorem verifyEvents_status (events : List (AuditEvent DateTime)) (firstId : Option Int) :
    (verifyEvents lib events firstId).status = .verified ↔ Valid lib firstId none events := by
  have herrors : (events.foldl (scanEvent lib firstId) ⟨0, [], none⟩).errors = [] ↔ _ :=
    scan_errors_eq_nil firstId ⟨0, [], none⟩ events
  constructor
  · intro hstatus
    by_cases h : (events.foldl (scanEvent lib firstId) ⟨0, [], none⟩).errors = []
    · exact (herrors.mp h).2
    · rw [show (verifyEvents lib events firstId).status = .broken from if_neg h] at hstatus
      contradiction
  · intro hvalid
    exact if_pos (herrors.mpr ⟨rfl, hvalid⟩)

variable {event : AuditEvent DateTime} {firstId : Option Int} {prev : Option Text} {k : Nat} {rows : List Row}
  {i j : Nat} {a b : Row}

theorem hashErrors_eq_nil : hashErrors lib event = [] ↔ computeEventHash lib event.toEvent = event.eventHash := by
  simp [hashErrors]

theorem prevErrors_some_eq_nil {expected : Text} :
    prevErrors firstId (some expected) event = [] ↔ event.prevHash = expected := by
  simp [prevErrors]

theorem Valid.linked {events : List (AuditEvent DateTime)}
    (h : Valid lib firstId prev events) {a b : AuditEvent DateTime} (ha : events[k]? = some a)
    (hb : events[k + 1]? = some b) : b.prevHash = a.eventHash := by
  induction events generalizing prev k with
  | nil => cases ha
  | cons event events ih =>
    cases k with
    | zero =>
      obtain rfl : event = a := by simpa using ha
      cases events with
      | nil => cases hb
      | cons next events =>
        obtain rfl : next = b := by simpa using hb
        exact prevErrors_some_eq_nil.mp h.2.2.1
    | succ k => exact ih h.2.2 ha hb

theorem Valid.hashed {events : List (AuditEvent DateTime)}
    (h : Valid lib firstId prev events) (hmem : event ∈ events) :
    computeEventHash lib event.toEvent = event.eventHash := by
  induction events generalizing prev with
  | nil => exact absurd hmem not_mem_nil
  | cons head events ih =>
    rcases mem_cons.mp hmem with rfl | hmem
    · exact hashErrors_eq_nil.mp h.2.1
    · exact ih h.2.2 hmem

/-- A verified log, with no bounds: rows that read back to the hash they carry, each chained to the one before. -/
structure Verified (lib : Libraries DateTime) (now : DateTime) (rows : List Row) : Prop where
  hashed : ∀ row ∈ rows, computeEventHash lib (readRow lib now row).toEvent = row.eventHash
  linked : ∀ (k : Nat) (a b : Row), rows[k]? = some a → rows[k + 1]? = some b → b.prevHash = a.eventHash

theorem verified_of_status {now : DateTime}
    (h : (verifyChain lib now rows none none).status = .verified) : Verified lib now rows := by
  have hvalid : Valid lib (rows.map Row.id).min? none (rows.map (readRow lib now)) := by
    rw [← verifyEvents_status]
    simpa [verifyChain] using h
  refine ⟨fun row hrow => hvalid.hashed (mem_map_of_mem hrow), fun k a b ha hb => ?_⟩
  have ha' : (rows.map (readRow lib now))[k]? = some (readRow lib now a) := by rw [getElem?_map, ha]; rfl
  have hb' : (rows.map (readRow lib now))[k + 1]? = some (readRow lib now b) := by rw [getElem?_map, hb]; rfl
  exact hvalid.linked ha' hb'

theorem optional_append_inj {key : String} {a b : Option Text} {x y : List (Text × Json)}
    (hx : ∀ field ∈ x.head?, field.1 ≠ key.toList) (hy : ∀ field ∈ y.head?, field.1 ≠ key.toList)
    (h : optional key a ++ x = optional key b ++ y) : a = b ∧ x = y := by
  cases a with
  | none =>
    cases b with
    | none => exact ⟨rfl, h⟩
    | some t =>
      have hhead : x.head? = some (key.toList, .string t) := congrArg head? h
      exact absurd rfl (hx _ hhead)
  | some s =>
    cases b with
    | none =>
      have hhead : y.head? = some (key.toList, .string s) := congrArg head? h.symm
      exact absurd rfl (hy _ hhead)
    | some t =>
      obtain ⟨hfield, hrest⟩ := cons.inj h
      obtain rfl : s = t := Json.string.inj (Prod.mk.inj hfield).2
      exact ⟨rfl, hrest⟩

theorem head_ne_session_id (event : Event DateTime) (field : Text × Json)
    (h : field ∈ (optional "source_ip" event.sourceIp ++
      ("timestamp".toList, Json.string (lib.toRfc3339 event.timestamp)) :: optional "user_id" event.userId).head?) :
    field.1 ≠ "session_id".toList := by
  cases hip : event.sourceIp with
  | none =>
    rw [hip] at h
    cases h
    show "timestamp".toList ≠ "session_id".toList
    decide
  | some ip =>
    rw [hip] at h
    cases h
    show "source_ip".toList ≠ "session_id".toList
    decide

theorem head_ne_source_ip (event : Event DateTime) (field : Text × Json)
    (h : field ∈ (("timestamp".toList, Json.string (lib.toRfc3339 event.timestamp)) ::
      optional "user_id" event.userId).head?) : field.1 ≠ "source_ip".toList := by
  cases h
  show "timestamp".toList ≠ "source_ip".toList
  decide

theorem canonical_injective (hrfc : Function.Injective lib.toRfc3339) : Function.Injective (canonical lib) := by
  intro a b h
  obtain ⟨hdetails, h⟩ := cons.inj h
  obtain ⟨htype, h⟩ := cons.inj h
  obtain ⟨houtcome, h⟩ := cons.inj h
  obtain ⟨hsession, h⟩ := optional_append_inj (head_ne_session_id a) (head_ne_session_id b) h
  obtain ⟨hip, h⟩ := optional_append_inj (head_ne_source_ip a) (head_ne_source_ip b) h
  obtain ⟨htime, h⟩ := cons.inj h
  have huser : a.userId = b.userId := (optional_append_inj (x := []) (y := []) nofun nofun (by simpa using h)).1
  have htimestamp : a.timestamp = b.timestamp := hrfc (Json.string.inj (Prod.mk.inj htime).2)
  cases a
  cases b
  simp only [Event.mk.injEq]
  exact ⟨Json.string.inj (Prod.mk.inj htype).2, htimestamp, huser, hip, Json.string.inj (Prod.mk.inj houtcome).2,
    (Prod.mk.inj hdetails).2, hsession⟩

theorem computeEventHash_injective (hsha : Function.Injective lib.sha256Hex)
    (hrfc : Function.Injective lib.toRfc3339) : Function.Injective (computeEventHash lib) := by
  intro a b h
  have hprint := Json.print_injective (Utf8.encode_injective (hsha h))
  exact canonical_injective hrfc (Json.object.inj hprint)

structure Libraries.ReadsBack (lib : Libraries DateTime) (event : Event DateTime) : Prop where
  timestamp : lib.parseFromRfc3339 (lib.toRfc3339 event.timestamp) = some event.timestamp
  details : lib.fromStr event.details.print = some event.details

theorem readRow_eventRow {event : Event DateTime} (h : lib.ReadsBack event) (now : DateTime) (id : Int)
    (prevHash : Text) : (readRow lib now (eventRow lib id event prevHash)).toEvent = event := by
  have htimestamp := h.timestamp
  have hdetails := h.details
  cases event with
  | mk eventType timestamp userId sourceIp outcome details sessionId =>
    simp only at htimestamp hdetails
    cases details <;> simp [readRow, eventRow, htimestamp, hdetails]

def prevHashAt (lib : Libraries DateTime) (events : List (Event DateTime)) : Nat → Text
  | 0 => genesisHash
  | k + 1 => (events[k]?.map (computeEventHash lib)).getD genesisHash

theorem prevHashAt_succ {events : List (Event DateTime)} {event : Event DateTime}
    (h : events[k]? = some event) : prevHashAt lib events (k + 1) = computeEventHash lib event := by
  rw [prevHashAt, h]
  rfl

theorem prevHashAt_concat {events : List (Event DateTime)} (hk : k ≤ events.length)
    (event : Event DateTime) : prevHashAt lib (events ++ [event]) k = prevHashAt lib events k := by
  cases k with
  | zero => rfl
  | succ k => rw [prevHashAt, prevHashAt, getElem?_append_left hk]

theorem writeLog_concat (events : List (Event DateTime)) (event : Event DateTime) :
    writeLog lib (events ++ [event]) = logEvent lib (writeLog lib events) event := by
  simp [writeLog]

theorem getElem?_foldl_logEvent (events : List (Event DateTime)) (hk : k < rows.length) :
    (events.foldl (logEvent lib) rows)[k]? = rows[k]? := by
  induction events generalizing rows with
  | nil => rfl
  | cons event events ih => rw [foldl_cons, ih (by simp [logEvent]; omega), logEvent, getElem?_append_left hk]

theorem writeLog_first (event : Event DateTime) (events : List (Event DateTime)) :
    (writeLog lib (event :: events))[0]? = some (eventRow lib 1 event genesisHash) := by
  have hrow : (events.foldl (logEvent lib) (logEvent lib [] event))[0]? = (logEvent lib [] event)[0]? :=
    getElem?_foldl_logEvent events Nat.one_pos
  exact hrow

theorem length_writeLog (events : List (Event DateTime)) : (writeLog lib events).length = events.length := by
  induction events using reverseRecOn with
  | nil => rfl
  | append_singleton events event ih => simp [writeLog_concat, logEvent, ih]

theorem tailHash_writeLog (events : List (Event DateTime)) :
    tailHash (writeLog lib events) = prevHashAt lib events events.length := by
  cases events using reverseRecOn with
  | nil => rfl
  | append_singleton events event =>
    rw [writeLog_concat, length_append, length_singleton, prevHashAt_succ getElem?_concat_length]
    simp [logEvent, tailHash, eventRow]

theorem writeLog_row {events : List (Event DateTime)} {row : Row} (h : (writeLog lib events)[k]? = some row) :
    ∃ event, events[k]? = some event ∧ row = eventRow lib row.id event (prevHashAt lib events k) := by
  induction events using reverseRecOn with
  | nil => cases h
  | append_singleton events event ih =>
    rw [writeLog_concat, logEvent, getElem?_append, length_writeLog] at h
    split_ifs at h with hk
    · obtain ⟨event', hevent', hrow⟩ := ih h
      refine ⟨event', (getElem?_append_left hk).trans hevent', ?_⟩
      rw [prevHashAt_concat (Nat.le_of_lt hk)]
      exact hrow
    · rw [getElem?_singleton] at h
      split_ifs at h with hzero
      obtain rfl : k = events.length := by omega
      cases h
      refine ⟨event, getElem?_concat_length, ?_⟩
      rw [prevHashAt_concat (Nat.le_refl _), ← tailHash_writeLog]
      rfl

theorem writeLog_getElem {events : List (Event DateTime)} (hk : k < (writeLog lib events).length) :
    ∃ row event, (writeLog lib events)[k]? = some row ∧ events[k]? = some event ∧
      row.eventHash = computeEventHash lib event ∧ row.prevHash = prevHashAt lib events k := by
  obtain ⟨row, hrow⟩ : ∃ row, (writeLog lib events)[k]? = some row := ⟨_, getElem?_eq_getElem hk⟩
  obtain ⟨event, hevent, heq⟩ := writeLog_row hrow
  exact ⟨row, event, hrow, hevent, by rw [heq]; rfl, by rw [heq]; rfl⟩

/-- Each event was chained to the last row at the time, and can be read back. -/
inductive Linear (lib : Libraries DateTime) : List Row → Prop
  | nil : Linear lib []
  | concat {rows : List Row} (h : Linear lib rows) (id : Int) {event : Event DateTime} (hread : lib.ReadsBack event) :
      Linear lib (rows ++ [eventRow lib id event (tailHash rows)])

theorem linear_writeLog (events : List (Event DateTime)) (hread : ∀ event ∈ events, lib.ReadsBack event) :
    Linear lib (writeLog lib events) := by
  induction events using reverseRecOn with
  | nil => exact .nil
  | append_singleton events event ih =>
    rw [writeLog_concat]
    have hlinear := ih fun e he => hread e (mem_append_left _ he)
    exact hlinear.concat _ (hread event (mem_append_right _ mem_cons_self))

theorem valid_concat_iff {events : List (AuditEvent DateTime)} :
    Valid lib firstId prev (events ++ [event]) ↔ Valid lib firstId prev events ∧
      prevErrors firstId ((events.getLast?.map AuditEvent.eventHash).or prev) event = [] ∧
      hashErrors lib event = [] := by
  induction events generalizing prev with
  | nil => simp [Valid]
  | cons head events ih =>
    rw [cons_append, Valid, ih, Valid]
    have hlast : ((events.getLast?.map AuditEvent.eventHash).or (some head.eventHash)) =
        (((head :: events).getLast?.map AuditEvent.eventHash).or prev) := by
      cases events using reverseRecOn with
      | nil => rfl
      | append_singleton events last => rw [← cons_append, getLast?_concat, getLast?_concat]; rfl
    rw [hlast]
    tauto

theorem prevErrors_none (h : event.prevHash = genesisHash) : prevErrors firstId none event = [] := by
  simp [prevErrors, h]

theorem Linear.valid (h : Linear lib rows) (firstId : Option Int) (now : DateTime) :
    Valid lib firstId none (rows.map (readRow lib now)) := by
  induction h with
  | nil => trivial
  | @concat rows h id event hread ih =>
    rw [map_append, map_singleton, valid_concat_iff]
    refine ⟨ih, ?_, ?_⟩
    · rw [Option.or_none]
      cases rows using reverseRecOn with
      | nil => exact prevErrors_none rfl
      | append_singleton rows last =>
        rw [map_append, map_singleton, getLast?_concat]
        refine prevErrors_some_eq_nil.mpr ?_
        simp [readRow, eventRow, tailHash]
    · rw [hashErrors_eq_nil, readRow_eventRow hread]
      rfl

/-- **A linear log verifies.** -/
theorem Linear.verifyChain_status (h : Linear lib rows) (now : DateTime) :
    (verifyChain lib now rows none none).status = .verified := by
  have hvalid := (verifyEvents_status _ _).mpr (h.valid (rows.map Row.id).min? now)
  simpa [verifyChain] using hvalid

/-! ### Tampering -/

def exchange (rows : List Row) (i j : Nat) : List Row :=
  match rows[i]?, rows[j]? with
  | some a, some b => (rows.set i { b with id := a.id }).set j { a with id := b.id }
  | _, _ => rows

theorem getElem?_exchange_left (ha : rows[i]? = some a)
    (hb : rows[j]? = some b) (hne : i ≠ j) : (exchange rows i j)[i]? = some { b with id := a.id } := by
  have hi : i < rows.length := (List.getElem?_eq_some_iff.mp ha).1
  simp only [exchange, ha, hb]
  rw [List.getElem?_set_ne (Ne.symm hne), List.getElem?_set_self hi]

theorem getElem?_exchange_right (ha : rows[i]? = some a)
    (hb : rows[j]? = some b) : (exchange rows i j)[j]? = some { a with id := b.id } := by
  have hj : j < rows.length := (List.getElem?_eq_some_iff.mp hb).1
  simp only [exchange, ha, hb]
  rw [List.getElem?_set_self (by rwa [List.length_set])]

theorem getElem?_exchange_of_ne (ha : rows[i]? = some a)
    (hb : rows[j]? = some b) (hi : k ≠ i) (hj : k ≠ j) : (exchange rows i j)[k]? = rows[k]? := by
  simp only [exchange, ha, hb]
  rw [getElem?_set_ne (Ne.symm hj), getElem?_set_ne (Ne.symm hi)]

section Tampering

variable {events : List (Event DateTime)} {now : DateTime}

section

variable (hinj : Function.Injective (computeEventHash lib))

include hinj

theorem position_of_hash (hnodup : events.Nodup) {l : Nat}
    {a b : Event DateTime} (ha : events[k]? = some a) (hb : events[l]? = some b)
    (h : computeEventHash lib a = computeEventHash lib b) : k = l := by
  obtain rfl := hinj h
  have hk : k < events.length := (List.getElem?_eq_some_iff.mp ha).1
  exact (List.getElem?_inj hk hnodup).mp (ha.trans hb.symm)

theorem not_verified_of_changed {row row' : Row}
    (hrow : (writeLog lib events)[i]? = some row) (hread : ∀ event ∈ events[i]?, lib.ReadsBack event)
    (hhash : row'.eventHash = row.eventHash)
    (hchanged : (readRow lib now row').toEvent ≠ (readRow lib now row).toEvent) :
    ¬Verified lib now ((writeLog lib events).set i row') := by
  intro hverified
  obtain ⟨event, hevent, heq⟩ := writeLog_row hrow
  have hmem : row' ∈ (writeLog lib events).set i row' := List.mem_set (List.getElem?_eq_some_iff.mp hrow).1 row'
  have hrehash : computeEventHash lib (readRow lib now row').toEvent = computeEventHash lib event := by
    rw [hverified.hashed row' hmem, hhash, heq]
    rfl
  apply hchanged
  rw [hinj hrehash, heq, readRow_eventRow (hread event hevent)]

/-- **A missing row is noticed**, unless it was the first or the last one. -/
theorem not_verified_of_deleted (hnodup : events.Nodup)
    (hi : i + 2 < (writeLog lib events).length) :
    ¬Verified lib now ((writeLog lib events).eraseIdx (i + 1)) := by
  intro hverified
  obtain ⟨a, first, ha, hfirst, hahash, -⟩ := writeLog_getElem (show i < (writeLog lib events).length by omega)
  obtain ⟨b, second, hb, hsecond, -, -⟩ := writeLog_getElem (show i + 1 < (writeLog lib events).length by omega)
  obtain ⟨c, third, hc, -, -, hcprev⟩ := writeLog_getElem hi
  have hlink := hverified.linked i a c ((getElem?_eraseIdx_of_lt (by omega)).trans ha)
    ((getElem?_eraseIdx_of_ge (by omega)).trans hc)
  rw [hcprev, prevHashAt_succ hsecond, hahash] at hlink
  have hsame := position_of_hash hinj hnodup hsecond hfirst hlink
  omega

theorem not_verified_of_exchanged (hnodup : events.Nodup)
    (hgenesis : ∀ first second, events = [first, second] → computeEventHash lib second ≠ genesisHash)
    (hij : i < j) (hj : j < (writeLog lib events).length) : ¬Verified lib now (exchange (writeLog lib events) i j) := by
  intro hverified
  obtain ⟨a, first, ha, hfirst, hahash, haprev⟩ := writeLog_getElem (hij.trans hj)
  obtain ⟨b, second, hb, hsecond, hbhash, hbprev⟩ := writeLog_getElem hj
  have hleft := getElem?_exchange_left ha hb (by omega)
  cases i with
  | succ i =>
    -- The row that has moved to the front is chained to the event that was before it.
    obtain ⟨c, before, hc, hbefore, hchash, -⟩ := writeLog_getElem (show i < (writeLog lib events).length by omega)
    obtain ⟨l, rfl⟩ : ∃ l, j = l + 1 := ⟨j - 1, by omega⟩
    obtain ⟨d, other, hd, hother, -, -⟩ := writeLog_getElem (show l < (writeLog lib events).length by omega)
    have hlink := hverified.linked i c _ ((getElem?_exchange_of_ne ha hb (by omega) (by omega)).trans hc) hleft
    have hprev : b.prevHash = c.eventHash := hlink
    rw [hbprev, prevHashAt_succ hother, hchash] at hprev
    have hsame := position_of_hash hinj hnodup hother hbefore hprev
    omega
  | zero =>
    by_cases hone : j = 1
    · subst hone
      have hright := getElem?_exchange_right ha hb
      by_cases htwo : 2 < (writeLog lib events).length
      · -- The third row of the log has stayed, and is chained to the event that has moved away.
        obtain ⟨c, third, hc, -, -, hcprev⟩ := writeLog_getElem htwo
        have hlink := hverified.linked 1 _ c hright
          ((getElem?_exchange_of_ne ha hb (by omega) (by omega)).trans hc)
        have hprev : c.prevHash = a.eventHash := hlink
        rw [hcprev, prevHashAt_succ hsecond, hahash] at hprev
        have hsame := position_of_hash hinj hnodup hsecond hfirst hprev
        omega
      · -- The two rows are the whole log, whose first event is chained to nothing.
        have hlink := hverified.linked 0 _ _ hleft hright
        have hprev : a.prevHash = b.eventHash := hlink
        rw [haprev, hbhash] at hprev
        have hevents : events = [first, second] := by
          rw [length_writeLog] at htwo hj
          refine ext_getElem? fun k => ?_
          match k with
          | 0 => exact hfirst
          | 1 => exact hsecond
          | k + 2 => rw [getElem?_eq_none (by omega), getElem?_eq_none (by simp)]
        exact hgenesis first second hevents hprev.symm
    · -- The second row of the log has stayed, and is chained to the event that has moved away.
      obtain ⟨c, next, hc, hnext, -, hcprev⟩ := writeLog_getElem (show 1 < (writeLog lib events).length by omega)
      have hlink := hverified.linked 0 _ c hleft
        ((getElem?_exchange_of_ne ha hb (by omega) (Ne.symm hone)).trans hc)
      have hprev : c.prevHash = b.eventHash := hlink
      rw [hcprev, prevHashAt_succ hfirst, hbhash] at hprev
      have hsame := position_of_hash hinj hnodup hfirst hsecond hprev
      omega

end

end Tampering

/-- **Tampering is evident.** No log verifies in which a hashed field of one row reads back changed, a row
between the first and the last is missing, or two rows have changed places. -/
theorem tamper_evident (lib : Libraries DateTime) (hsha : Function.Injective lib.sha256Hex)
    (hrfc : Function.Injective lib.toRfc3339) (events : List (Event DateTime)) (hnodup : events.Nodup)
    (hgenesis : ∀ first second, events = [first, second] → computeEventHash lib second ≠ genesisHash)
    (now : DateTime) :
    (∀ (i : Nat) (row row' : Row), (writeLog lib events)[i]? = some row →
        (∀ event ∈ events[i]?, lib.ReadsBack event) →
        row'.id = row.id → row'.prevHash = row.prevHash → row'.eventHash = row.eventHash →
        (readRow lib now row').toEvent ≠ (readRow lib now row).toEvent →
        (verifyChain lib now ((writeLog lib events).set i row') none none).status ≠ .verified) ∧
      (∀ i, 0 < i → i + 1 < (writeLog lib events).length →
        (verifyChain lib now ((writeLog lib events).eraseIdx i) none none).status ≠ .verified) ∧
      ∀ i j, i < j → j < (writeLog lib events).length →
        (verifyChain lib now (exchange (writeLog lib events) i j) none none).status ≠ .verified := by
  have hinj := computeEventHash_injective hsha hrfc
  refine ⟨fun i row row' hrow hread _ _ hhash hchanged hstatus => ?_, fun i hpos hlast hstatus => ?_,
    fun i j hij hj hstatus => ?_⟩
  · exact not_verified_of_changed hinj hrow hread hhash hchanged (verified_of_status hstatus)
  · obtain ⟨k, rfl⟩ : ∃ k, i = k + 1 := ⟨i - 1, by omega⟩
    exact not_verified_of_deleted hinj hnodup hlast (verified_of_status hstatus)
  · exact not_verified_of_exchanged hinj hnodup hgenesis hij hj (verified_of_status hstatus)

/-! A hash function with known digests; every other text is hashed to something that is not a digest. -/

def knownSha (digests : List (List UInt8 × Text)) (bytes : List UInt8) : Text :=
  match digests.find? (·.1 = bytes) with
  | some known => known.2
  | none => 'x' :: bytes.map fun b => Char.ofNat b.toNat

theorem byteChar_injective : Function.Injective fun b : UInt8 => Char.ofNat b.toNat := by
  intro a b h
  have hchar : ∀ n < 256, (Char.ofNat n).toNat = n := by decide +kernel
  have heq : (Char.ofNat a.toNat).toNat = (Char.ofNat b.toNat).toNat := congrArg Char.toNat h
  rw [hchar _ a.toNat_lt, hchar _ b.toNat_lt] at heq
  exact UInt8.toNat_inj.mp heq

theorem knownSha_injective {digests : List (List UInt8 × Text)} (hnodup : (digests.map Prod.snd).Nodup)
    (hdigest : ∀ known ∈ digests, known.2.head? ≠ some 'x') : Function.Injective (knownSha digests) := by
  intro x y h
  unfold knownSha at h
  cases hx : digests.find? (·.1 = x) with
  | some a =>
    have hamem := mem_of_find?_eq_some hx
    cases hy : digests.find? (·.1 = y) with
    | some b =>
      rw [hx, hy] at h
      obtain rfl := inj_on_of_nodup_map hnodup hamem (mem_of_find?_eq_some hy) h
      have hax : a.1 = x := by simpa using find?_some hx
      have hay : a.1 = y := by simpa using find?_some hy
      exact hax.symm.trans hay
    | none =>
      rw [hx, hy] at h
      exact absurd (congrArg head? h) (hdigest a hamem)
  | none =>
    cases hy : digests.find? (·.1 = y) with
    | some b =>
      rw [hx, hy] at h
      exact absurd (congrArg head? h.symm) (hdigest b (mem_of_find?_eq_some hy))
    | none =>
      rw [hx, hy] at h
      exact byteChar_injective.list_map (cons.inj h).2

theorem knownSha_ne_genesisHash {digests : List (List UInt8 × Text)}
    (hdigest : ∀ known ∈ digests, known.2 ≠ genesisHash) (bytes : List UInt8) :
    knownSha digests bytes ≠ genesisHash := by
  unfold knownSha
  split
  · rename_i known hknown
    exact hdigest known (mem_of_find?_eq_some hknown)
  · exact fun h => absurd (cons.inj h).1 (by decide)

def loginDetails : Json := .object [("method", .string "password")]

def loginEvent : Event Text :=
  ⟨"auth.login", "2026-01-01T08:00:00+00:00", some "alice", some "10.0.0.1", "success", loginDetails, none⟩

def startEvent : Event Text :=
  ⟨"session.start", "2026-01-01T08:00:05+00:00", some "alice", none, "success", .null, some "s-1"⟩

def loginEvents : List (Event Text) :=
  [loginEvent, startEvent, ⟨"session.end", "2026-01-01T09:00:00+00:00", some "alice", none, "success", .null,
      some "s-1"⟩]

def loginTexts : List Text := map (flatMap String.toList)
  [["\x7b\"details\":\x7b\"method\":\"password\"\x7d", ",\"event_type\":\"auth.login\"", ",\"outcome\":\"success\"",
      ",\"source_ip\":\"10.0.0.1\"", ",\"timestamp\":\"2026-01-01T08:00:00+00:00\"", ",\"user_id\":\"alice\"\x7d"],
    ["\x7b\"details\":null", ",\"event_type\":\"session.start\"", ",\"outcome\":\"success\"",
      ",\"session_id\":\"s-1\"", ",\"timestamp\":\"2026-01-01T08:00:05+00:00\"", ",\"user_id\":\"alice\"\x7d"],
    ["\x7b\"details\":null", ",\"event_type\":\"session.end\"", ",\"outcome\":\"success\"",
      ",\"session_id\":\"s-1\"", ",\"timestamp\":\"2026-01-01T09:00:00+00:00\"", ",\"user_id\":\"alice\"\x7d"]]

def loginDigests : List (List UInt8 × Text) :=
  (loginTexts.map Utf8.encode).zip
    [Text.hexDigits 64 0x5e2a8a756c62902bb515fc83680586daef926eb6cbf35a523de52409d735e267,
      Text.hexDigits 64 0x291a9be238a57a290ae705b12bb93072957bf054a0e2e0f8238b4ce7e7426100,
      Text.hexDigits 64 0xcf153ccdd453334fcbf784348fb2fdffefaaa7625745c05a0c27fee0a54d92f1]

def loginLib : Libraries Text where
  sha256Hex := knownSha loginDigests
  toRfc3339 := id
  parseFromRfc3339 := some
  fromStr text := if text = "null" then some .null else if text = loginDetails.print then some loginDetails else none

theorem loginLib_readsBack : ∀ event ∈ loginEvents, loginLib.ReadsBack event := by
  intro event hmem
  rcases mem_cons.mp hmem with rfl | hmem
  · exact ⟨rfl, rfl⟩
  rcases mem_cons.mp hmem with rfl | hmem
  · exact ⟨rfl, rfl⟩
  rcases mem_cons.mp hmem with rfl | hmem
  · exact ⟨rfl, rfl⟩
  · exact absurd hmem not_mem_nil

example : loginEvents.map (fun event => (Json.object (canonical loginLib event)).print) = loginTexts := by
  decide +kernel

theorem loginLib_ne_genesisHash (event : Event Text) : computeEventHash loginLib event ≠ genesisHash := by
  unfold computeEventHash
  dsimp only [loginLib]
  exact knownSha_ne_genesisHash (by decide +kernel) _

def loginRow : Row := eventRow loginLib 1 loginEvent genesisHash

def loginForged : Row := { loginRow with userId := some "bob" }

/-- The log verifies as it was written, and not with another user in the first row, without the second row, or
with two rows exchanged. -/
theorem tamper_evident_login : let rows := writeLog loginLib loginEvents
    let status := fun rows => (verifyChain loginLib [] rows none none).status
    status rows = .verified ∧ status (rows.set 0 loginForged) ≠ .verified ∧ status (rows.eraseIdx 1) ≠ .verified ∧
      status (exchange rows 0 1) ≠ .verified ∧ status (exchange rows 0 2) ≠ .verified ∧
      status (exchange (writeLog loginLib [loginEvent, startEvent]) 0 1) ≠ .verified := by
  have hsha : Function.Injective loginLib.sha256Hex := by
    dsimp only [loginLib]
    exact knownSha_injective (by decide +kernel) (by decide +kernel)
  have hgenesis : ∀ event, computeEventHash loginLib event ≠ genesisHash := loginLib_ne_genesisHash
  have hnodup : loginEvents.Nodup := Nodup.of_map Event.eventType (by decide +kernel)
  have hlength : (writeLog loginLib loginEvents).length = 3 := length_writeLog loginEvents
  have hlengthTwo : (writeLog loginLib [loginEvent, startEvent]).length = 2 := length_writeLog _
  have hforged : (readRow loginLib [] loginForged).toEvent ≠ (readRow loginLib [] loginRow).toEvent := by
    intro h
    have huser : loginForged.userId = loginRow.userId := congrArg Event.userId h
    exact absurd huser (by decide +kernel)
  obtain ⟨hchanged, hdeleted, hexchanged⟩ := tamper_evident loginLib hsha Function.injective_id loginEvents hnodup
    (fun _ second _ => hgenesis second) []
  obtain ⟨-, -, hexchangedTwo⟩ := tamper_evident loginLib hsha Function.injective_id [loginEvent, startEvent]
    (hnodup.sublist (sublist_append_left [loginEvent, startEvent] _)) (fun _ second _ => hgenesis second) []
  refine ⟨(linear_writeLog loginEvents loginLib_readsBack).verifyChain_status [], ?_,
    hdeleted 1 (by decide) (by omega), hexchanged 0 1 (by decide) (by omega),
    hexchanged 0 2 (by decide) (by omega), hexchangedTwo 0 1 (by decide) (by omega)⟩
  have hrow : (writeLog loginLib loginEvents)[0]? = some loginRow := by
    rw [loginEvents, loginRow]
    exact writeLog_first _ _
  exact hchanged 0 loginRow loginForged hrow
    (fun event hevent => loginLib_readsBack event (mem_of_getElem? hevent)) (by rw [loginForged])
    (by rw [loginForged]) (by rw [loginForged]) hforged

end Persea.Audit
