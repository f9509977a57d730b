import Persea.BaseText
import Persea.SessionFeed
import Persea.SessionHistory

/-! The own-scoped views of a session. Each compares the creator with names of the caller in its own way: the list
takes the stable key or the display name, the others the display name. -/

namespace Persea.Sessions

open Base Auth List Option

inductive AppError where
  | session (msg : String)
  | forbidden (msg : String)
  | conflict (msg : String)
  | internal (msg : String)
deriving DecidableEq, Repr

def isAdmin (identity : Option AuthIdentity) : Bool := identity.any fun id => id.hasRole "admin"

def newestFirst {α : Type} (time : α → Time) (l : List α) : List α := l.insertionSort fun a b => time b ≤ time a

theorem mem_newestFirst {α : Type} {time : α → Time} {l : List α} {a : α} : a ∈ newestFirst time l ↔ a ∈ l :=
  mem_insertionSort _

structure SessionInfo where
  sessionId : Uuid
  details : SessionDetails
  addressBookFolder : Option String
  createdAt : Time
  shareUrl : Option String
deriving DecidableEq, Repr

structure ListSessionsQuery where
  all : Bool
  limit : Option Nat
deriving DecidableEq, Repr

def redactShareUrl (identity : Option AuthIdentity) (info : SessionInfo) : SessionInfo :=
  if identity.any fun id => id.hasRole "admin" || sessionOwnedBy id info.details.createdBy then info
  else { info with shareUrl := none }

def listSessions (sessions : List SessionInfo) (identity : Option AuthIdentity) (q : ListSessionsQuery) :
    List SessionInfo :=
  let showAll := q.all && isAdmin identity
  let visible := sessions.filter fun s => showAll || identity.any fun id => sessionOwnedBy id s.details.createdBy
  let sorted := newestFirst SessionInfo.createdAt (visible.map (redactShareUrl identity))
  match q.limit with
  | some limit => sorted.take limit
  | none => sorted

structure EventsQuery where
  since : Option Nat
  replay : Option Bool
  all : Option Bool
deriving DecidableEq, Repr

structure EventsRequest where
  query : EventsQuery
  /-- The `Last-Event-ID` header, if it is a number. -/
  lastEventId : Option Nat
  /-- The `Accept` header names `application/json`. -/
  acceptsJson : Bool
deriving DecidableEq, Repr

inductive EventsResponse where
  | replay (cursor : Nat) (events : List SessionEvent)
  | stream (subscriber : Subscriber)
deriving DecidableEq, Repr

def replayResponse (log : EventLog) (since : Nat) (owner : String) (showAll : Bool) : EventsResponse :=
  let (cursor, events) := log.replayEvents since
  .replay cursor (events.filter fun e => showAll || e.createdBy = owner)

def sseResponse (claims : List String) (resumeFrom : Option Nat) (owner : String) (showAll : Bool) :
    Except AppError EventsResponse :=
  if owner ∈ claims then
    .error (.conflict "already connected to the session event stream — close the existing connection first")
  else .ok (.stream (Subscriber.new owner showAll resumeFrom))

def sessionEvents (log : EventLog) (claims : List String) (identity : Option AuthIdentity) (req : EventsRequest) :
    Except AppError EventsResponse :=
  match identity with
  | none => .error (.forbidden "authentication required")
  | some id =>
    let owner := id.displayName
    let showAll := req.query.all.getD false && id.hasRole "admin"
    let since := req.query.since.or req.lastEventId
    if req.query.replay.getD false || req.acceptsJson then .ok (replayResponse log (since.getD 0) owner showAll)
    else sseResponse claims since owner showAll

def EventsResponse.shows (e : SessionEvent) : EventsResponse → Bool
  | .replay _ events => e ∈ events
  | .stream subscriber => subscriber.passes e

/-! ### Recordings -/

structure RecordingMeta where
  addressBookEntry : Option String
  createdAt : String
  (user folder entryDisplayName sessionType : Option String)
deriving DecidableEq, Repr

def sidecar (createdAt : String) (info : Option SessionInfo) : RecordingMeta :=
  { addressBookEntry := info.bind fun s => s.details.addressBookEntry
    createdAt
    user := info.map fun s => s.details.createdBy
    folder := info.bind fun s => s.addressBookFolder
    entryDisplayName := info.bind fun s => s.details.entryDisplayName
    sessionType := info.map fun s => s.details.sessionType }

structure RecordingFile where
  sizeBytes : Nat
  modified : Time
deriving DecidableEq, Repr

/-- What the directory holds under one base name: the recording, the encrypted recording and the sidecar. -/
structure Recording where
  base : String
  plain : Option RecordingFile
  enc : Option RecordingFile
  sidecar : Option RecordingMeta
deriving DecidableEq, Repr

structure RecordingEntry where
  name : String
  file : RecordingFile
  sidecar : Option RecordingMeta
deriving DecidableEq, Repr

def Recording.plainName (r : Recording) : String := r.base ++ ".guac"

def Recording.encName (r : Recording) : String := r.base ++ ".guac.enc"

def Recording.entries (r : Recording) : List RecordingEntry :=
  (r.plain.map fun file => ⟨r.plainName, file, r.sidecar⟩).toList ++
    (r.enc.map fun file => ⟨r.encName, file, r.sidecar⟩).toList

def RecordingEntry.user (e : RecordingEntry) : Option String := e.sidecar.bind RecordingMeta.user

def RecordingEntry.haystack (e : RecordingEntry) : String :=
  " ".intercalate [(e.sidecar.bind RecordingMeta.entryDisplayName).getD "", e.user.getD "",
    (e.sidecar.bind RecordingMeta.folder).getD ""]

def listRecordings (trim lower : String → String) (dir : List Recording) (identity : Option AuthIdentity)
    (q : Option String) : Except AppError (List RecordingEntry) :=
  if identity.any fun id => id.hasRole "poweruser" then
    let ownName := identity.map AuthIdentity.displayName
    let query := ((q.map trim).filter fun s => s ≠ "").map lower
    let found := (dir.flatMap Recording.entries).filter fun e =>
      query.all fun needle => needle.toList <:+: (lower e.haystack).toList
    let kept := if isAdmin identity then found else found.filter fun e => e.user = ownName
    .ok (newestFirst (fun e => e.file.modified) kept)
  else .error (.forbidden "requires poweruser or admin role")

variable (dir : List Recording)

def hasFile (name : String) : Bool := (dir.flatMap Recording.entries).any fun e => e.name = name

def stripSuffix (name suffix : String) : Option String :=
  if suffix.toList <:+ name.toList then some (String.ofList (name.toList.take (name.length - suffix.length)))
  else none

def isSafeRecordingName (name : String) : Bool :=
  let chars := name.toList
  let isGuac : Bool := ".guac" <:+ chars
  let isEnc : Bool := ".guac.enc" <:+ chars
  if name = "" ∨ name = ".guac" ∨ name = ".guac.enc" ∨ (!isGuac && !isEnc) ∨ '/' ∈ chars ∨ '\\' ∈ chars ∨
      ".." <:+: chars ∨ Char.ofNat 0 ∈ chars then false
  else if hasFile dir name then true
  else if isGuac then hasFile dir (name ++ ".enc")
  else
    match stripSuffix name ".enc" with
    | some plain => hasFile dir plain
    | none => false

def streamDecryptThreshold : Nat := 32 * 1024 * 1024

structure Decryption where
  keyConfigured : Bool
  decrypts : Recording → Bool

/-- What is played: a recording above the threshold is decrypted while it is sent. -/
def openRecording (d : Decryption) : Option Recording → Except AppError RecordingFile
  | none => .error (.session "recording not found")
  | some r =>
    match r.enc with
    | some file =>
      if !d.keyConfigured then
        .error (.internal "recording is encrypted but no encryption key is configured")
      else if streamDecryptThreshold < file.sizeBytes ∨ d.decrypts r then .ok file
      else .error (.internal "failed to decrypt recording")
    | none =>
      match r.plain with
      | some file => .ok file
      | none => .error (.session "recording not found")

def findRecording (name : String) : Option Recording :=
  let plainName := if ".guac.enc" <:+ name.toList then (stripSuffix name ".enc").getD name else name
  dir.find? fun r => r.plainName = plainName

def serveRecording (d : Decryption) (dir : List Recording) (identity : Option AuthIdentity) (name : String) :
    Except AppError RecordingFile :=
  if identity.any fun id => id.hasRole "poweruser" then
    if isSafeRecordingName dir name then
      let recording := findRecording dir name
      let owner := identity.map AuthIdentity.displayName
      if !isAdmin identity && (recording.bind Recording.sidecar).bind RecordingMeta.user ≠ owner then
        .error (.forbidden "recording belongs to another user")
      else openRecording d recording
    else .error (.internal "invalid recording name")
  else .error (.forbidden "requires poweruser or admin role")

structure ReportQuery where
  (user entry sessionType : Option String)
  fromTime : Option Time
  toTime : Option Time
  limit : Option Nat
  offset : Option Nat
deriving DecidableEq, Repr

structure Report where
  sessions : List HistoryRow
  (total limit offset : Nat)
deriving DecidableEq, Repr

def columnLike (column : Option String) (needle : String) : Bool :=
  column.any fun text => Text.like Char.toLower (Text.containing needle.toList) text.toList

def querySessionHistory (t : History) (user entry sessionType : Option String) (fromTime toTime : Option Time)
    (limit offset : Nat) : List HistoryRow × Nat :=
  let matching := t.filter fun row =>
    user.all (columnLike (some row.details.createdBy)) &&
    entry.all (fun e => columnLike row.details.addressBookEntry e || columnLike row.details.entryDisplayName e) &&
    sessionType.all (fun type => row.details.sessionType = type) &&
    fromTime.all (fun time => time ≤ row.startedAt) &&
    toTime.all (fun time => row.startedAt ≤ time)
  (((newestFirst HistoryRow.startedAt matching).drop offset).take limit, matching.length)

def reportSessions (t : History) (identity : Option AuthIdentity) (q : ReportQuery) : Except AppError Report :=
  if identity.any fun id => id.hasRole "poweruser" then
    let admin := isAdmin identity
    let ownName := identity.map AuthIdentity.displayName
    let userFilter := if admin then q.user else ownName
    let limit := min (q.limit.getD 100) 1000
    let offset := q.offset.getD 0
    let (rows, total) := querySessionHistory t userFilter q.entry q.sessionType q.fromTime q.toTime limit offset
    let rows := if admin then rows else rows.filter fun row => some row.details.createdBy = ownName
    .ok { sessions := rows, total, limit, offset }
  else .error (.forbidden "poweruser role required")

theorem mem_page {α : Type} {l : List α} {a : α} (h : a ∈ l) : ∃ k, a ∈ (l.drop k).take 1 := by
  obtain ⟨k, hk⟩ := getElem?_of_mem h
  refine ⟨k, mem_of_getElem? (i := 0) ?_⟩
  simpa using hk

theorem exists_page {t : History} {row : HistoryRow} {user : String} (hrow : row ∈ t)
    (hlike : columnLike (some row.details.createdBy) user) :
    ∃ offset, row ∈ (querySessionHistory t (some user) none none none none 1 offset).1 := by
  refine mem_page (mem_newestFirst.mpr (mem_filter.mpr ⟨hrow, ?_⟩))
  simpa using hlike

section Views

variable {v : AuthIdentity}

theorem redactShareUrl_details (identity : Option AuthIdentity) (info : SessionInfo) :
    (redactShareUrl identity info).details = info.details := by
  rw [redactShareUrl]
  split <;> rfl

theorem listed_iff (hv : v.hasRole "admin" = false) {sessions : List SessionInfo} {info : SessionInfo}
    (hinfo : info ∈ sessions) :
    (∃ q, redactShareUrl (some v) info ∈ listSessions sessions (some v) q) ↔
      sessionOwnedBy v info.details.createdBy := by
  constructor
  · rintro ⟨q, hmem⟩
    have hsorted : redactShareUrl (some v) info ∈ newestFirst SessionInfo.createdAt
        ((sessions.filter fun s => (q.all && isAdmin (some v)) || (some v).any fun id =>
          sessionOwnedBy id s.details.createdBy).map (redactShareUrl (some v))) := by
      rw [listSessions] at hmem
      split at hmem
      · exact mem_of_mem_take hmem
      · exact hmem
    obtain ⟨s, hs, heq⟩ := List.mem_map.mp (mem_newestFirst.mp hsorted)
    have howned := (mem_filter.mp hs).2
    have hdetails : s.details = info.details := by
      rw [← redactShareUrl_details (some v) s, heq, redactShareUrl_details]
    simpa [isAdmin, hv, hdetails] using howned
  · intro howned
    refine ⟨⟨false, none⟩, ?_⟩
    rw [listSessions]
    refine mem_newestFirst.mpr (List.mem_map_of_mem (mem_filter.mpr ⟨hinfo, ?_⟩))
    simpa using howned

theorem event_shown_iff (hv : v.hasRole "admin" = false) {log : EventLog} {e : SessionEvent} (he : e ∈ log.events)
    (hid : 0 < e.id) (claims : List String) :
    (∃ req resp, sessionEvents log claims (some v) req = .ok resp ∧ resp.shows e) ↔
      e.createdBy = v.displayName := by
  constructor
  · rintro ⟨req, resp, hresp, hshows⟩
    simp only [sessionEvents, hv, Bool.and_false] at hresp
    split at hresp
    · cases hresp
      have hmem := of_decide_eq_true hshows
      simpa using (mem_filter.mp hmem).2
    · rw [sseResponse] at hresp
      split at hresp
      · cases hresp
      · cases hresp
        simpa [EventsResponse.shows, Subscriber.passes, Subscriber.new] using hshows
  · intro howner
    refine ⟨⟨⟨none, some true, none⟩, none, false⟩, _, rfl, ?_⟩
    simp [replayResponse, EventLog.replayEvents, EventsResponse.shows, he, hid, howner]

variable (hv : v.hasRole "admin" = false) (hpower : v.hasRole "poweruser")

include hv hpower

theorem recording_listed_iff (trim lower : String → String) {dir : List Recording} {e : RecordingEntry}
    (he : e ∈ dir.flatMap Recording.entries) :
    (∃ q l, listRecordings trim lower dir (some v) q = .ok l ∧ e ∈ l) ↔ e.user = some v.displayName := by
  constructor
  · rintro ⟨q, l, hl, hmem⟩
    simp only [listRecordings, any_some, hpower, if_true, isAdmin, hv] at hl
    cases hl
    have hkept := mem_newestFirst.mp hmem
    simpa using (mem_filter.mp hkept).2
  · intro howner
    refine ⟨none, _, by simp only [listRecordings, any_some, hpower, if_true]; rfl, ?_⟩
    refine mem_newestFirst.mpr ?_
    simpa [isAdmin, hv, howner] using he

theorem playable_iff {d : Decryption} {dir : List Recording} {name : String} {r : Recording} {file : RecordingFile}
    (hsafe : isSafeRecordingName dir name) (hfind : findRecording dir name = some r)
    (hopens : openRecording d (some r) = .ok file) :
    (∃ file, serveRecording d dir (some v) name = .ok file) ↔
      r.sidecar.bind RecordingMeta.user = some v.displayName := by
  by_cases howner : r.sidecar.bind RecordingMeta.user = some v.displayName
  · simp [serveRecording, hpower, hsafe, hfind, isAdmin, hv, howner, hopens]
  · simp [serveRecording, hpower, hsafe, hfind, isAdmin, hv, howner]

theorem reported_iff {t : History} {row : HistoryRow} (hrow : row ∈ t) :
    (∃ q report, reportSessions t (some v) q = .ok report ∧ row ∈ report.sessions) ↔
      row.details.createdBy = v.displayName := by
  constructor
  · rintro ⟨q, report, hreport, hmem⟩
    simp only [reportSessions, any_some, hpower, if_true, isAdmin, hv] at hreport
    cases hreport
    simpa using (mem_filter.mp hmem).2
  · intro howner
    have hlike : columnLike (some row.details.createdBy) v.displayName := by
      rw [howner]
      exact Text.like_containing v.displayName.toList
    -- the row has a place in the order, and a page of one row at that place shows it
    obtain ⟨k, hk⟩ := exists_page hrow hlike
    refine ⟨⟨none, none, none, none, none, some 1, some k⟩, _, by
      simp only [reportSessions, any_some, hpower, if_true]; rfl, ?_⟩
    simpa [isAdmin, hv, howner] using hk

end Views

/-! ### The views agree -/

structure Records where
  sessions : List SessionInfo
  log : EventLog
  /-- The users with an open event stream. -/
  claims : List String
  recordings : List Recording
  decryption : Decryption
  history : History

/-- What a session has left in the records: an event, a recording that can be played, with the sidecar that was
written for the session, and a row. -/
structure Traces where
  info : SessionInfo
  event : SessionEvent
  recording : Recording
  row : HistoryRow

def Traces.creator (t : Traces) : String := t.info.details.createdBy

structure Traces.In (t : Traces) (r : Records) : Prop where
  session : t.info ∈ r.sessions
  event : t.event ∈ r.log.events
  numbered : 0 < t.event.id
  published : ∃ now kind x, x.createdBy = t.creator ∧
    sessionEvent now t.info.sessionId kind x = { t.event with id := 0 }
  recording : findRecording r.recordings t.recording.plainName = some t.recording
  safe : isSafeRecordingName r.recordings t.recording.plainName = true
  opens : ∃ file, openRecording r.decryption (some t.recording) = .ok file
  sidecar : ∃ createdAt, t.recording.sidecar = some (sidecar createdAt (some t.info))
  row : t.row ∈ r.history
  inserted : t.row.details = t.info.details

def Records.Lists (r : Records) (v : AuthIdentity) (t : Traces) : Prop :=
  ∃ q, redactShareUrl (some v) t.info ∈ listSessions r.sessions (some v) q

/-- The other views show what belongs to the session exactly when the session is listed. -/
structure ViewsAgree (trim lower : String → String) (r : Records) (v : AuthIdentity) (t : Traces) : Prop where
  events : (∃ req resp, sessionEvents r.log r.claims (some v) req = .ok resp ∧ resp.shows t.event = true) ↔
    r.Lists v t
  recordings : v.hasRole "poweruser" = true → ∀ e ∈ t.recording.entries,
    (∃ q l, listRecordings trim lower r.recordings (some v) q = .ok l ∧ e ∈ l) ↔ r.Lists v t
  playback : v.hasRole "poweruser" = true →
    ((∃ file, serveRecording r.decryption r.recordings (some v) t.recording.plainName = .ok file) ↔ r.Lists v t)
  report : v.hasRole "poweruser" = true →
    ((∃ q report, reportSessions r.history (some v) q = .ok report ∧ t.row ∈ report.sessions) ↔ r.Lists v t)

theorem Traces.In.event_createdBy {t : Traces} {r : Records} (h : t.In r) : t.event.createdBy = t.creator := by
  obtain ⟨now, kind, x, hx, hevent⟩ := h.published
  rw [← hx]
  exact (congrArg SessionEvent.createdBy hevent).symm

theorem Traces.In.sidecar_user {t : Traces} {r : Records} (h : t.In r) :
    t.recording.sidecar.bind RecordingMeta.user = some t.creator := by
  obtain ⟨createdAt, hsidecar⟩ := h.sidecar
  rw [hsidecar]
  rfl

theorem entries_sidecar {r : Recording} {e : RecordingEntry} (h : e ∈ r.entries) : e.sidecar = r.sidecar := by
  rcases mem_append.mp h with h | h
  · obtain ⟨file, _, rfl⟩ := map_eq_some_iff.mp (mem_toList.mp h)
    rfl
  · obtain ⟨file, _, rfl⟩ := map_eq_some_iff.mp (mem_toList.mp h)
    rfl

theorem agrees_iff {v : AuthIdentity} {creator : String} :
    (creator = v.displayName ↔ sessionOwnedBy v creator) ↔
      (creator = identityKey v → v.displayName = identityKey v) := by
  rw [sessionOwnedBy_iff]
  constructor
  · intro h hkey
    rw [← h.mpr (.inl hkey), hkey]
  · intro h
    constructor
    · exact .inr
    · rintro (hkey | hname)
      · rw [hkey, h hkey]
      · exact hname

/-- **Own-scoped views.** The views of a session that was created through `POST /api/sessions` agree for an
identity that is no administrator exactly when the identity has not the key of the creator or goes by its key. -/
theorem own_views_agree_iff (trim lower : String → String) (r : Records) (t : Traces) (a v : AuthIdentity)
    (hin : t.In r) (hcreated : t.creator = createdBy .postSessions a) (hv : v.hasRole "admin" = false) :
    ViewsAgree trim lower r v t ↔ (identityKey a = identityKey v → v.displayName = identityKey v) := by
  have hlists : r.Lists v t ↔ sessionOwnedBy v t.creator = true := listed_iff hv hin.session
  have hcondition : (t.creator = v.displayName ↔ r.Lists v t) ↔
      (identityKey a = identityKey v → v.displayName = identityKey v) := by
    rw [hlists, agrees_iff, hcreated]
    rfl
  rw [← hcondition]
  constructor
  · intro h
    rw [← h.events, event_shown_iff hv hin.event hin.numbered, hin.event_createdBy]
  · intro hagrees
    refine ⟨?_, fun hpower e he => ?_, fun hpower => ?_, fun hpower => ?_⟩
    · rw [event_shown_iff hv hin.event hin.numbered, hin.event_createdBy]
      exact hagrees
    · have hmem : e ∈ r.recordings.flatMap Recording.entries :=
        mem_flatMap.mpr ⟨t.recording, mem_of_find?_eq_some hin.recording, he⟩
      have huser : e.user = some t.creator := by
        rw [RecordingEntry.user, entries_sidecar he]
        exact hin.sidecar_user
      rw [recording_listed_iff hv hpower trim lower hmem, huser, some_inj]
      exact hagrees
    · obtain ⟨file, hopens⟩ := hin.opens
      rw [playable_iff hv hpower hin.safe hin.recording hopens, hin.sidecar_user, some_inj]
      exact hagrees
    · rw [reported_iff hv hpower hin.row, hin.inserted]
      exact hagrees

def tracesOf (email : String) : Traces :=
  let info : SessionInfo :=
    { sessionId := 0, details := ⟨"ssh", email, none, none⟩, addressBookFolder := none, createdAt := 100,
      shareUrl := none }
  { info
    event := ⟨1, .sessionStarted, 0, .pending, email, 100⟩
    recording :=
      ⟨"5f0c7f1e-2b1d-4a43-9c1e-0f3b1a2c4d5e", some ⟨10, 100⟩, none,
        some (sidecar "2026-01-01T00:00:00+00:00" (some info))⟩
    row := ⟨0, info.details, 100, none, "active"⟩ }

def recordsOf (t : Traces) : Records :=
  { sessions := [t.info], log := { events := [t.event], nextId := 2 }, claims := [], recordings := [t.recording],
    decryption := ⟨false, fun _ => false⟩, history := [t.row] }

/-- A power user without a name goes by their address. -/
def ops : AuthIdentity := .user "ops@example.com" "" "poweruser" []

theorem own_views_agree_ops :
    ViewsAgree (fun s => s.trimAscii.toString) String.toLower (recordsOf (tracesOf "ops@example.com")) ops
      (tracesOf "ops@example.com") := by
  have hin : (tracesOf "ops@example.com").In (recordsOf (tracesOf "ops@example.com")) :=
    { session := mem_singleton.mpr rfl
      event := mem_singleton.mpr rfl
      numbered := by decide
      published := ⟨100, .sessionStarted, newSession 100 "ops@example.com" "share" false, rfl, rfl⟩
      recording := by decide +kernel
      safe := by decide +kernel
      opens := ⟨⟨10, 100⟩, rfl⟩
      sidecar := ⟨_, rfl⟩
      row := mem_singleton.mpr rfl
      inserted := rfl }
  have hagree := own_views_agree_iff (fun s => s.trimAscii.toString) String.toLower _ _ ops ops hin rfl
    (by decide +kernel)
  exact hagree.mpr fun _ => by decide +kernel

/-- A power user whose name is not their address. -/
def powerAlice : AuthIdentity := .user "alice@example.com" "Alice" "poweruser" []

theorem own_views_disagree :
    listSessions (recordsOf (tracesOf "alice@example.com")).sessions (some powerAlice) ⟨false, none⟩ =
        [(tracesOf "alice@example.com").info] ∧
      sessionEvents (recordsOf (tracesOf "alice@example.com")).log [] (some powerAlice)
        ⟨⟨none, some true, none⟩, none, false⟩ = .ok (.replay 1 []) ∧
      listRecordings (fun s => s.trimAscii.toString) String.toLower
        (recordsOf (tracesOf "alice@example.com")).recordings (some powerAlice) none = .ok [] ∧
      serveRecording ⟨false, fun _ => false⟩ (recordsOf (tracesOf "alice@example.com")).recordings (some powerAlice)
        "5f0c7f1e-2b1d-4a43-9c1e-0f3b1a2c4d5e.guac" = .error (.forbidden "recording belongs to another user") ∧
      reportSessions (recordsOf (tracesOf "alice@example.com")).history (some powerAlice)
        ⟨none, none, none, none, none, none, none⟩ = .ok ⟨[], 1, 100, 0⟩ ∧
      ¬ViewsAgree (fun s => s.trimAscii.toString) String.toLower (recordsOf (tracesOf "alice@example.com")) powerAlice
        (tracesOf "alice@example.com") := by
  refine ⟨by decide +kernel, by decide +kernel, by decide +kernel, by decide +kernel, by decide +kernel, ?_⟩
  intro hagree
  have hadmin : powerAlice.hasRole "admin" = false := by decide +kernel
  have hlisted : (recordsOf (tracesOf "alice@example.com")).Lists powerAlice (tracesOf "alice@example.com") :=
    (listed_iff hadmin (mem_singleton.mpr rfl)).mpr (by decide +kernel)
  have hshown := (event_shown_iff hadmin (mem_singleton.mpr rfl) (by decide) _).mp (hagree.events.mpr hlisted)
  exact absurd hshown (by decide +kernel)

end Persea.Sessions
