import Persea.BaseStore
import Persea.AuthIdentity

/-! The session manager. Every critical section is one function, in which at most one session changes: an edit says
what it becomes and how the gauge moves. What follows after the locks is a list of follow-ups. -/

namespace Persea.Sessions

open Base Auth Option AList

abbrev Uuid := Nat

abbrev Time := Nat

inductive SessionStatus where
  | pending
  | active
  | completed
  | error
  | expired
  | disconnected
  | loggedOut
deriving DecidableEq, Repr

structure ShadowToken where
  token : String
  expiresAt : Time
deriving DecidableEq, Repr

structure Session where
  status : SessionStatus
  createdBy : String
  createdAt : Time
  lastActivity : Time
  /-- A guacd stream is waiting for its owner. -/
  guacdStream : Bool
  /-- Parameters for a deferred guacd connection are present. -/
  deferredParams : Bool
  activeConnections : Nat
  shareToken : String
  shadowTokens : List ShadowToken
deriving DecidableEq, Repr

variable (s : Session)

def Session.isActive : Bool := s.status = .active

structure Config where
  maxSessions : Nat
  maxViewers : Nat
  (sessionMaxDurationSecs sessionIdleTimeoutSecs sessionCleanupDelaySecs sessionPendingTimeoutSecs : Nat)
deriving DecidableEq, Repr

structure Manager where
  sessions : Store Uuid Session
  /-- Increments minus decrements of the `sessions_active` gauge; the exported counter is this value modulo
  `2 ^ 64`. -/
  sessionsActive : Int
  ownerConnected : Finset Uuid
  disconnectedAt : Store Uuid Time

variable (m : Manager)

def Manager.session (id : Uuid) : Option Session := m.sessions.lookup id

structure Edit where
  session : Session
  gauge : Int

def Manager.edit (id : Uuid) (f : Session → Option Edit) : Manager :=
  match (m.session id).bind f with
  | none => m
  | some e => { m with sessions := m.sessions.insert id e.session, sessionsActive := m.sessionsActive + e.gauge }

def Manager.edits (id : Uuid) (f : Session → Option Edit) : Bool := ((m.session id).bind f).isSome

inductive FollowUp where
  | markOwnerConnected (id : Uuid)
  | markOwnerDisconnected (id : Uuid)
  | insertDisconnectedAt (id : Uuid)
  | removeDisconnectedAt (id : Uuid)
deriving DecidableEq, Repr

def Manager.followUp (now : Time) : FollowUp → Manager
  | .markOwnerConnected id => { m with ownerConnected := insert id m.ownerConnected }
  | .markOwnerDisconnected id => { m with ownerConnected := m.ownerConnected.erase id }
  | .insertDisconnectedAt id => { m with disconnectedAt := m.disconnectedAt.insert id now }
  | .removeDisconnectedAt id => { m with disconnectedAt := m.disconnectedAt.erase id }

def Manager.hasStatus (id : Uuid) (status : SessionStatus) : Bool := (m.session id).any fun s => s.status = status

def Manager.isSessionPending (id : Uuid) : Bool := m.hasStatus id .pending

def Manager.isSessionDisconnected (id : Uuid) : Bool := m.hasStatus id .disconnected

def Manager.getSessionCreator (id : Uuid) : Option String := (m.session id).map Session.createdBy

inductive ShareTokenValidation where
  | owner
  | shadow
  | invalid
deriving DecidableEq, Repr

/-- `check_share_token_match`. The source compares SHA-256 digests of the tokens. -/
def checkShareTokenMatch (provided : String) (now : Time) : ShareTokenValidation :=
  if s.shareToken = provided then .owner
  else if s.shadowTokens.any fun t => now < t.expiresAt ∧ t.token = provided then .shadow
  else .invalid

def Manager.validateShareToken (id : Uuid) (token : String) (now : Time) : ShareTokenValidation :=
  match m.session id with
  | none => .invalid
  | some s => checkShareTokenMatch s token now

inductive OwnerPath where
  | take
  | reconnect
deriving DecidableEq, Repr

def OwnerPath.status : OwnerPath → SessionStatus
  | .take => .pending
  | .reconnect => .disconnected

variable (path : OwnerPath)

/-- Phase 1 takes the deferred parameters. -/
def lookEdit (s : Session) : Option Edit :=
  if s.status = path.status then some ⟨{ s with deferredParams := false }, 0⟩ else none

def connectFailedEdit (s : Session) : Option Edit :=
  if s.status = path.status then some ⟨{ s with status := .error }, 0⟩ else none

/-- Phase 3 hands out the stream. -/
def installGives (connected : Bool) (s : Session) : Bool := s.status = path.status ∧ (s.guacdStream || connected)

/-- Phase 3: install a new stream, restore the parameters, and if there is a stream become active. -/
def installEdit (deferred connected : Bool) (s : Session) : Option Edit :=
  if s.status ≠ path.status then none
  else if s.guacdStream || connected then
    some ⟨{ s with
      guacdStream := false
      deferredParams := deferred
      status := .active
      activeConnections := s.activeConnections + 1 }, 1⟩
  else some ⟨{ s with deferredParams := deferred }, 0⟩

def ownerFollowUps (id : Uuid) : List FollowUp :=
  match path with
  | .take => [.markOwnerConnected id]
  | .reconnect => [.removeDisconnectedAt id, .markOwnerConnected id]

inductive SessionError where
  | notFound
  | notActive
  | viewerLimit (viewers max : Nat)
deriving DecidableEq, Repr

def reserveEdit (maxViewers : Nat) (ownerIsConnected : Bool) (s : Session) : Except SessionError Edit :=
  if s.status ≠ .active then .error .notActive
  else
    let viewers := s.activeConnections - if ownerIsConnected then 1 else 0
    if 0 < maxViewers ∧ maxViewers ≤ viewers then .error (.viewerLimit viewers maxViewers)
    else .ok ⟨{ s with activeConnections := s.activeConnections + 1 }, 0⟩

def Manager.reserveViewerSlot (id : Uuid) (maxViewers : Nat) : Except SessionError Edit :=
  match m.session id with
  | none => .error .notFound
  | some s => reserveEdit maxViewers (id ∈ m.ownerConnected) s

def leaveEdit : Option Edit := some ⟨{ s with activeConnections := s.activeConnections - 1 }, 0⟩

def touchEdit (now : Time) (s : Session) : Option Edit := some ⟨{ s with lastActivity := now }, 0⟩

def mintEdit (token : String) (now : Time) (s : Session) : Option Edit :=
  some ⟨{ s with
    shadowTokens := (s.shadowTokens.filter fun t => now < t.expiresAt) ++ [⟨token, now + 600⟩] }, 0⟩

/-- `complete_session`. The gauge is decremented for a disconnected session too. -/
def completeEdit : Option Edit :=
  if s.status = .active ∨ s.status = .disconnected then some ⟨{ s with status := .completed }, -1⟩ else none

def disconnectEdit : Option Edit :=
  if s.status = .active then some ⟨{ s with status := .disconnected, guacdStream := false }, -1⟩ else none

def errorEdit : Option Edit :=
  if s.status = .error then none
  else some ⟨{ s with status := .error, guacdStream := false }, if s.status = .active then -1 else 0⟩

def logoutEdit : Option Edit :=
  if s.status = .loggedOut then none
  else some ⟨{ s with status := .loggedOut, guacdStream := false }, if s.status = .active then -1 else 0⟩

def pendingTimeoutEdit : Option Edit :=
  if s.status = .pending then some ⟨{ s with status := .expired, guacdStream := false }, 0⟩ else none

/-- The terminal transition of `reap_completed_sessions`. -/
def finalizeEdit : Option Edit := if s.status = .disconnected then some ⟨{ s with status := .expired }, 0⟩ else none

def Manager.deleteSession (id : Uuid) : Manager :=
  match m.session id with
  | none => m
  | some s =>
    { m with
      sessions := m.sessions.erase id
      sessionsActive := m.sessionsActive - if s.status = .active then 1 else 0 }

def deleteFollowUps (id : Uuid) : List FollowUp := [.removeDisconnectedAt id, .markOwnerDisconnected id]

/-- The removal at the end of `reap_completed_sessions`: whatever the session is by now. -/
def Manager.removeSession (id : Uuid) : Manager :=
  { m with
    sessions := m.sessions.erase id
    disconnectedAt := m.disconnectedAt.erase id
    ownerConnected := m.ownerConnected.erase id }

def Manager.removeSessions (ids : List Uuid) : Manager := ids.foldl Manager.removeSession m

def Session.isLive : Bool := s.status = .pending ∨ s.status = .active

/-- The insertion of `create_session`, under the cap on live sessions. -/
def Manager.createSession (cfg : Config) (id : Uuid) (s : Session) : Manager :=
  if 0 < cfg.maxSessions ∧ cfg.maxSessions ≤ Store.count Session.isLive m.sessions then m
  else { m with sessions := m.sessions.insert id s }

variable (cfg : Config)

def pastMaxDuration (now : Time) (s : Session) : Bool :=
  0 < cfg.sessionMaxDurationSecs ∧ s.isLive ∧ cfg.sessionMaxDurationSecs < now - s.createdAt

def pastIdleTimeout (now : Time) (s : Session) : Bool :=
  0 < cfg.sessionIdleTimeoutSecs ∧ s.isLive ∧ 0 < s.lastActivity ∧ cfg.sessionIdleTimeoutSecs < now - s.lastActivity

def pastCleanupDelay (now : Time) (s : Session) : Bool :=
  (s.status = .completed ∨ s.status = .error ∨ s.status = .expired) ∧ cfg.sessionCleanupDelaySecs < now - s.createdAt

/-- `reap_completed_sessions` picks this session for the end of its reconnect window. -/
def pastReconnectWindow (now : Time) (disconnectedAt : Option Time) (s : Session) : Bool :=
  s.status = .disconnected ∧ cfg.sessionCleanupDelaySecs < now - disconnectedAt.getD s.createdAt

inductive Operation where
  | look (path : OwnerPath)
  | connectFailed (path : OwnerPath)
  | install (path : OwnerPath) (deferred connected : Bool)
  | reserveViewerSlot
  | disconnectViewer
  | updateActivity
  | mintShadowToken (token : String)
  | completeSession
  | disconnectSession
  | errorSession
  | logout
  | pendingTimeout
  | finalize
deriving DecidableEq, Repr

open Operation

def Operation.edit (now : Time) (ownerIsConnected : Bool) : Operation → Session → Option Edit
  | .look path => lookEdit path
  | .connectFailed path => connectFailedEdit path
  | .install path deferred connected => installEdit path deferred connected
  | .reserveViewerSlot => fun s => (reserveEdit cfg.maxViewers ownerIsConnected s).toOption
  | .disconnectViewer => leaveEdit
  | .updateActivity => touchEdit now
  | .mintShadowToken token => mintEdit token now
  | .completeSession => completeEdit
  | .disconnectSession => disconnectEdit
  | .errorSession => errorEdit
  | .logout => logoutEdit
  | .pendingTimeout => pendingTimeoutEdit
  | .finalize => finalizeEdit

inductive Action where
  | skip
  | onSession (id : Uuid) (op : Operation)
  | createSession (id : Uuid) (s : Session)
  | deleteSession (id : Uuid)
  | removeSessions (ids : List Uuid)
  | followUp (f : FollowUp)
deriving DecidableEq, Repr

def Manager.perform (now : Time) (m : Manager) : Action → Manager
  | .skip => m
  | .onSession id op => m.edit id (op.edit cfg now (id ∈ m.ownerConnected))
  | .createSession id s => m.createSession cfg id s
  | .deleteSession id => m.deleteSession id
  | .removeSessions ids => m.removeSessions ids
  | .followUp f => m.followUp now f

section Perform

variable {cfg : Config} {now : Time} {m : Manager} {id k : Uuid} {s s' : Session} {e : Edit}

variable {f : Session → Option Edit}

theorem edit_eq_self (h : (m.session id).bind f = none) : m.edit id f = m := by simp only [Manager.edit, h]

theorem edit_eq (h : (m.session id).bind f = some e) : m.edit id f =
      { m with sessions := m.sessions.insert id e.session, sessionsActive := m.sessionsActive + e.gauge } := by
  simp only [Manager.edit, h]

theorem edit_session_self (h : (m.session id).bind f = some e) : (m.edit id f).session id = some e.session := by
  rw [edit_eq h]
  exact lookup_insert m.sessions

theorem edit_session_ne (hne : k ≠ id) : (m.edit id f).session k = m.session k := by
  cases h : (m.session id).bind f with
  | none => rw [edit_eq_self h]
  | some e =>
    rw [edit_eq h]
    exact lookup_insert_ne hne

@[simp] theorem followUp_sessions (m : Manager) (now : Time) (f : FollowUp) :
    (m.followUp now f).sessions = m.sessions := by
  cases f <;> rfl

@[simp] theorem followUp_sessionsActive (m : Manager) (now : Time) (f : FollowUp) :
    (m.followUp now f).sessionsActive = m.sessionsActive := by
  cases f <;> rfl

theorem session_of_erase (h : (m.sessions.erase id).lookup k = some s) : m.session k = some s := by
  by_cases hk : k = id
  · rw [hk, lookup_erase] at h
    cases h
  · rwa [lookup_erase_ne hk] at h

theorem deleteSession_session (h : (m.deleteSession id).session k = some s) : m.session k = some s := by
  cases hid : m.session id with
  | none => simpa only [Manager.deleteSession, hid] using h
  | some old =>
    simp only [Manager.deleteSession, hid] at h
    exact session_of_erase h

theorem removeSessions_session {ids : List Uuid} (h : (m.removeSessions ids).session k = some s) :
    m.session k = some s := by
  induction ids generalizing m with
  | nil => exact h
  | cons id ids ih => exact session_of_erase (ih h)

theorem perform_session {a : Action} (h : (m.perform cfg now a).session k = some s') :
    a = .createSession k s' ∨ m.session k = some s' ∨ ∃ op s e, a = .onSession k op ∧ m.session k = some s ∧
        op.edit cfg now (k ∈ m.ownerConnected) s = some e ∧ s' = e.session := by
  cases a with
  | skip => exact .inr (.inl h)
  | onSession id op =>
    by_cases hk : k = id
    · subst hk
      cases hedit : (m.session k).bind (op.edit cfg now (k ∈ m.ownerConnected)) with
      | none =>
        rw [Manager.perform, edit_eq_self hedit] at h
        exact .inr (.inl h)
      | some e =>
        rw [Manager.perform, edit_session_self hedit] at h
        obtain ⟨s, hs, he⟩ := Option.bind_eq_some_iff.mp hedit
        exact .inr (.inr ⟨op, s, e, rfl, hs, he, (some.inj h).symm⟩)
    · rw [Manager.perform, edit_session_ne hk] at h
      exact .inr (.inl h)
  | createSession id new =>
    simp only [Manager.perform, Manager.createSession] at h
    split at h
    · exact .inr (.inl h)
    · by_cases hk : k = id
      · subst hk
        rw [Manager.session, lookup_insert] at h
        exact .inl (by rw [some.inj h])
      · rw [Manager.session, lookup_insert_ne hk] at h
        exact .inr (.inl h)
  | deleteSession id => exact .inr (.inl (deleteSession_session h))
  | removeSessions ids => exact .inr (.inl (removeSessions_session h))
  | followUp f =>
    rw [Manager.perform, Manager.session, followUp_sessions] at h
    exact .inr (.inl h)

end Perform

def activeWeight (s : Session) : Int := if s.status = .active then 1 else 0

def Operation.connections (op : Operation) (s : Session) : Nat :=
  match op with
  | .install path _ connected =>
    if installGives path connected s then s.activeConnections + 1 else s.activeConnections
  | .reserveViewerSlot => s.activeConnections + 1
  | .disconnectViewer => s.activeConnections - 1
  | _ => s.activeConnections

/-- An operation that takes place. The gauge follows the status, except that `complete_session` counts a
disconnected session as active. -/
structure Operation.Spec (op : Operation) (s : Session) (e : Edit) : Prop where
  createdBy : e.session.createdBy = s.createdBy
  connections : e.session.activeConnections = op.connections s
  gauge : (op = .completeSession → s.status ≠ .disconnected) → e.gauge = activeWeight e.session - activeWeight s

theorem OwnerPath.status_ne_active (path : OwnerPath) : path.status ≠ .active := by cases path <;> decide

variable {connected : Bool} {op : Operation}

theorem installEdit_spec {path : OwnerPath} {deferred : Bool} {s : Session} {e : Edit}
    (h : installEdit path deferred connected s = some e) :
    Spec (.install path deferred connected) s e := by
  have hactive := path.status_ne_active
  rw [installEdit] at h
  split_ifs at h with hstatus hstream
  · cases h
    have hs := not_not.mp hstatus
    have hgives : installGives path connected s := by simpa [installGives, hs] using hstream
    exact ⟨rfl, by simp [connections, hgives], fun _ => by simp [activeWeight, hs, hactive]⟩
  · cases h
    have hgives : installGives path connected s = false := by simpa [installGives] using fun _ => hstream
    exact ⟨rfl, by simp [connections, hgives], fun _ => by simp [activeWeight]⟩

theorem reserveEdit_eq_some {maxViewers : Nat} {ownerIsConnected : Bool} {s : Session} {e : Edit}
    (h : (reserveEdit maxViewers ownerIsConnected s).toOption = some e) :
    s.status = .active ∧ e = ⟨{ s with activeConnections := s.activeConnections + 1 }, 0⟩ := by
  rw [reserveEdit] at h
  by_cases hstatus : s.status = .active
  · by_cases hfull : 0 < maxViewers ∧ maxViewers ≤ s.activeConnections - if ownerIsConnected then 1 else 0
    · simp [hstatus, hfull, Except.toOption] at h
    · rw [if_neg (not_not.mpr hstatus), if_neg hfull] at h
      exact ⟨hstatus, (some.inj h).symm⟩
  · simp [hstatus, Except.toOption] at h

theorem reserveEdit_spec {maxViewers : Nat} {ownerIsConnected : Bool} {s : Session} {e : Edit}
    (h : (reserveEdit maxViewers ownerIsConnected s).toOption = some e) :
    Spec .reserveViewerSlot s e := by
  obtain ⟨hstatus, rfl⟩ := reserveEdit_eq_some h
  exact ⟨rfl, rfl, fun _ => by simp [activeWeight, hstatus]⟩

theorem edit_spec {cfg : Config} {now : Time} {s : Session} {e : Edit}
    (h : op.edit cfg now connected s = some e) : op.Spec s e := by
  cases op with
  | look path =>
    obtain ⟨_, he⟩ := ite_none_right_eq_some.mp h
    cases he
    exact ⟨rfl, rfl, fun _ => by simp [activeWeight]⟩
  | connectFailed path =>
    obtain ⟨hs, he⟩ := ite_none_right_eq_some.mp h
    cases he
    exact ⟨rfl, rfl, fun _ => by simp [activeWeight, hs, path.status_ne_active]⟩
  | install path deferred connected => exact installEdit_spec h
  | reserveViewerSlot => exact reserveEdit_spec h
  | disconnectViewer | updateActivity | mintShadowToken token =>
    cases h
    exact ⟨rfl, rfl, fun _ => by simp [activeWeight]⟩
  | completeSession =>
    obtain ⟨hs, he⟩ := ite_none_right_eq_some.mp h
    cases he
    exact ⟨rfl, rfl, fun hnot => by simp [activeWeight, hs.resolve_right (hnot rfl)]⟩
  | disconnectSession | pendingTimeout | finalize =>
    obtain ⟨hs, he⟩ := ite_none_right_eq_some.mp h
    cases he
    exact ⟨rfl, rfl, fun _ => by simp [activeWeight, hs]⟩
  | errorSession | logout =>
    obtain ⟨hs, he⟩ := ite_none_left_eq_some.mp h
    cases he
    exact ⟨rfl, rfl, fun _ => by by_cases hactive : s.status = .active <;> simp [activeWeight, hactive]⟩

def Operation.result (cfg : Config) (now : Time) (ownerIsConnected : Bool) (op : Operation) (s : Session) : Session :=
  ((op.edit cfg now ownerIsConnected s).map Edit.session).getD s

theorem perform_onSession {cfg : Config} {now : Time} {m : Manager} {id : Uuid} {s : Session}
    (hs : m.session id = some s) :
    (m.perform cfg now (.onSession id op)).session id = some (op.result cfg now (id ∈ m.ownerConnected) s) := by
  rw [Manager.perform, result]
  cases he : op.edit cfg now (id ∈ m.ownerConnected) s with
  | none =>
    rw [edit_eq_self (by rw [hs]; exact he), hs]
    rfl
  | some e =>
    rw [edit_session_self (e := e) (by rw [hs]; exact he)]
    rfl

/-- The operations that take a session out of the active status. -/
def Operation.keepsActive : Operation → Bool
  | .completeSession => false
  | .disconnectSession => false
  | .errorSession => false
  | .logout => false
  | _ => true

theorem result_active_iff {cfg : Config} {now : Time} {s : Session} (hs : s.status = .active) :
    (op.result cfg now connected s).status = .active ↔ op.keepsActive := by
  cases op with
  | look path | connectFailed path | install path deferred connected =>
    simp [result, edit, lookEdit, connectFailedEdit, installEdit, hs, keepsActive, path.status_ne_active.symm]
  | reserveViewerSlot =>
    simp only [result, edit, reserveEdit, keepsActive]
    split_ifs <;> simp_all [Except.toOption]
  | disconnectViewer | updateActivity | mintShadowToken token | completeSession | disconnectSession | errorSession
  | logout | pendingTimeout | finalize =>
    simp [result, edit, leaveEdit, touchEdit, mintEdit, completeEdit, disconnectEdit, errorEdit, logoutEdit,
      pendingTimeoutEdit, finalizeEdit, hs, keepsActive]

theorem result_connections {cfg : Config} {now : Time} (op : Operation) (s : Session) :
    (op.result cfg now connected s).activeConnections =
      if (op.edit cfg now connected s).isSome then op.connections s else s.activeConnections := by
  rw [result]
  cases he : op.edit cfg now connected s with
  | none => rfl
  | some e => simpa using (edit_spec he).connections

end Persea.Sessions
