import Persea.SessionWorld

/-! The lifecycle events of sessions. What a step publishes is read off the status before and after it. A ledger keeps
every event, and every time a session has left the live statuses. -/

namespace Persea.Sessions

open Base Transition Option Manager List

def SessionStatus.isTerminal : SessionStatus → Bool
  | .completed | .error | .expired | .loggedOut => true
  | _ => false

def SessionStatus.isLive (status : SessionStatus) : Bool := status = .pending ∨ status = .active

/-- The transitions an operation may make. -/
def Operation.Moves : Operation → SessionStatus → SessionStatus → Prop
  | .connectFailed path, old, new => old = path.status ∧ new = .error
  | .install path _ _, old, new => old = path.status ∧ new = .active
  | .completeSession, old, new => (old = .active ∨ old = .disconnected) ∧ new = .completed
  | .disconnectSession, old, new => old = .active ∧ new = .disconnected
  | .errorSession, old, new => old ≠ .error ∧ new = .error
  | .logout, old, new => old ≠ .loggedOut ∧ new = .loggedOut
  | .pendingTimeout, old, new => old = .pending ∧ new = .expired
  | .finalize, old, new => old = .disconnected ∧ new = .expired
  | _, _, _ => False

variable {connected : Bool} {s : Session} {e : Edit} {op : Operation} {id k : Uuid}

theorem installEdit_moves {path : OwnerPath} {deferred : Bool} (h : installEdit path deferred connected s = some e) :
    e.session.status = s.status ∨ Operation.Moves (.install path deferred connected) s.status e.session.status := by
  rw [installEdit] at h
  split_ifs at h with hstatus hstream
  · cases h
    exact .inr ⟨not_not.mp hstatus, rfl⟩
  · cases h
    exact .inl rfl

theorem reserveEdit_status {maxViewers : Nat} {ownerIsConnected : Bool}
    (h : (reserveEdit maxViewers ownerIsConnected s).toOption = some e) : e.session.status = s.status := by
  obtain ⟨-, rfl⟩ := reserveEdit_eq_some h
  rfl

theorem edit_moves {cfg : Config} {now : Time} (h : op.edit cfg now connected s = some e) :
    e.session.status = s.status ∨ op.Moves s.status e.session.status := by
  cases op with
  | look path =>
    obtain ⟨_, he⟩ := ite_none_right_eq_some.mp h
    cases he
    exact .inl rfl
  | connectFailed path | completeSession | disconnectSession | pendingTimeout | finalize =>
    obtain ⟨hs, he⟩ := ite_none_right_eq_some.mp h
    cases he
    exact .inr ⟨hs, rfl⟩
  | install path deferred connected => exact installEdit_moves h
  | reserveViewerSlot => exact .inl (reserveEdit_status h)
  | disconnectViewer | updateActivity | mintShadowToken token =>
    cases h
    exact .inl rfl
  | errorSession | logout =>
    obtain ⟨hs, he⟩ := ite_none_left_eq_some.mp h
    cases he
    exact .inr ⟨hs, rfl⟩

theorem result_moves (cfg : Config) (now : Time) (connected : Bool) (op : Operation) (s : Session) :
    (op.result cfg now connected s).status = s.status ∨ op.Moves s.status (op.result cfg now connected s).status := by
  rw [Operation.result]
  cases he : op.edit cfg now connected s with
  | none => exact .inl rfl
  | some e => exact edit_moves he

theorem moves_of_terminal {old new : SessionStatus} (hmoves : op.Moves old new)
    (hterminal : old.isTerminal) : op = .errorSession ∨ op = .logout := by
  cases op with
  | connectFailed path | install path deferred connected =>
    rw [hmoves.1] at hterminal
    cases path <;> cases hterminal
  | completeSession => rcases hmoves.1 with h | h <;> rw [h] at hterminal <;> cases hterminal
  | disconnectSession | pendingTimeout | finalize =>
    rw [hmoves.1] at hterminal
    cases hterminal
  | errorSession => exact .inl rfl
  | logout => exact .inr rfl
  | _ => exact hmoves.elim

inductive SessionEventKind where
  | sessionStarted
  | statusChanged
  | sessionEnded
deriving DecidableEq, Repr

structure SessionEvent where
  /-- The cursor, `0` until the event bus has assigned it. -/
  id : Nat
  event : SessionEventKind
  sessionId : Uuid
  status : SessionStatus
  createdBy : String
  timestamp : Time
deriving DecidableEq, Repr

def sessionEvent (now : Time) (id : Uuid) (kind : SessionEventKind) (s : Session) : SessionEvent :=
  { id := 0, event := kind, sessionId := id, status := s.status, createdBy := s.createdBy, timestamp := now }

def publishTransition (now : Time) (id : Uuid) (old : SessionStatus) (s : Session) : List SessionEvent :=
  if old = s.status then []
  else [sessionEvent now id (if s.status.isTerminal then .sessionEnded else .statusChanged) s]

/-- The events of a critical section. `create_session` publishes before it looks at the cap, and
`delete_session` leaves the session completed as it takes it out of the map. -/
def Action.publishes (cfg : Config) (now : Time) (m : Manager) : Action → List SessionEvent
  | .onSession id op =>
    match m.session id with
    | none => []
    | some s => publishTransition now id s.status (op.result cfg now (id ∈ m.ownerConnected) s)
  | .createSession id s => [sessionEvent now id .sessionStarted s]
  | .deleteSession id =>
    match m.session id with
    | none => []
    | some s => publishTransition now id s.status { s with status := .completed }
  | _ => []

def departure (id : Uuid) (old new : SessionStatus) : List Uuid := if old.isLive && !new.isLive then [id] else []

def Action.departs (cfg : Config) (now : Time) (m : Manager) : Action → List Uuid
  | .onSession id op =>
    match m.session id with
    | none => []
    | some s => departure id s.status (op.result cfg now (id ∈ m.ownerConnected) s).status
  | .deleteSession id =>
    match m.session id with
    | none => []
    | some s => departure id s.status .completed
  | _ => []

structure Ledger where
  world : World
  /-- Every event published so far. -/
  published : List SessionEvent
  /-- Every departure from the live statuses so far. -/
  departures : List Uuid

open Ledger

def Ledger.init (config : Config) (now : Time) : Ledger :=
  { world := World.init config now, published := [], departures := [] }

def Ledger.step (l : Ledger) (event : Event) : Ledger :=
  let w := l.world
  { world := w.step event
    published := l.published ++ (w.action event).publishes w.config w.now w.manager
    departures := l.departures ++ (w.action event).departs w.config w.now w.manager }

def Ledger.about (l : Ledger) (id : Uuid) : List SessionEvent := l.published.filter (·.sessionId = id)

def endedCount (id : Uuid) (events : List SessionEvent) : Nat :=
  (events.filter (·.sessionId = id)).countP (·.event = .sessionEnded)

def Ledger.ended (l : Ledger) (id : Uuid) : Nat := endedCount id l.published

def Ledger.departed (l : Ledger) (id : Uuid) : Nat := l.departures.count id

theorem Ledger.run_world (l : Ledger) (events : List Event) :
    (run step l events).world = run World.step l.world events := by
  induction events generalizing l with
  | nil => rfl
  | cons event events ih => exact ih (l.step event)

def Manager.endedAs (m : Manager) (id : Uuid) (status : SessionStatus) : Bool :=
  (m.session id).all fun s => !s.status.isTerminal || s.status = status

/-- `error_session`, the logout and `delete_session` do not look whether the session has already ended. Here it
has not, or the operation would leave its status as it is. -/
def Action.endsOnce (m : Manager) : Action → Bool
  | .onSession id .errorSession => m.endedAs id .error
  | .onSession id .logout => m.endedAs id .loggedOut
  | .deleteSession id => m.endedAs id .completed
  | _ => true

def endsOnce (l : Ledger) (event : Event) : Prop := (l.world.action event).endsOnce l.world.manager = true

instance (l : Ledger) (event : Event) : Decidable (endsOnce l event) := inferInstanceAs (Decidable (_ = true))

/-! ### Every end is paid for by a departure -/

theorem endedCount_append (id : Uuid) (left right : List SessionEvent) :
    endedCount id (left ++ right) = endedCount id left + endedCount id right := by
  simp only [endedCount, filter_append, countP_append]

theorem endedCount_publishTransition_ne {now : Time} (hne : k ≠ id) (old : SessionStatus)
    (s : Session) : endedCount id (publishTransition now k old s) = 0 := by
  rw [publishTransition]
  split <;> simp [endedCount, sessionEvent, hne]

theorem departure_count_ne (hne : k ≠ id) (old new : SessionStatus) : (departure k old new).count id = 0 := by
  rw [departure]
  split <;> simp [hne]

/-- A disconnected session has left the live statuses and its end is still to come. -/
def openEnds (s : Option Session) : Nat := if s.any (·.status = .disconnected) then 1 else 0

theorem transition_balance (now : Time) (id : Uuid) {s' : Session}
    (hends : s.status.isTerminal → s'.status = s.status) :
    endedCount id (publishTransition now id s.status s') + openEnds (some s') ≤
      openEnds (some s) + (departure id s.status s'.status).count id := by
  have hcount : endedCount id (publishTransition now id s.status s') =
      if s.status = s'.status then 0 else if s'.status.isTerminal then 1 else 0 := by
    rw [publishTransition]
    split
    · rfl
    · cases hterminal : s'.status.isTerminal <;> simp [endedCount, sessionEvent]
  rw [hcount]
  cases hold : s.status <;> cases hnew : s'.status <;>
    simp_all [openEnds, departure, SessionStatus.isTerminal, SessionStatus.isLive]

theorem result_of_ended {cfg : Config} {now : Time} {m : Manager}
    (hsafe : Action.endsOnce m (.onSession id op)) (hs : m.session id = some s)
    (hterminal : s.status.isTerminal) : (op.result cfg now connected s).status = s.status := by
  rcases result_moves cfg now connected op s with hsame | hmoves
  · exact hsame
  · rcases moves_of_terminal hmoves hterminal with rfl | rfl
    · have herror : s.status = .error := by simpa [Action.endsOnce, endedAs, hs, hterminal] using hsafe
      exact absurd herror hmoves.1
    · have hout : s.status = .loggedOut := by simpa [Action.endsOnce, endedAs, hs, hterminal] using hsafe
      exact absurd hout hmoves.1

section Balance

variable {cfg : Config} {now : Time} {m : Manager}

theorem openEnds_le_of_session {m' : Manager} (h : ∀ s, m'.session id = some s → m.session id = some s) :
    openEnds (m'.session id) ≤ openEnds (m.session id) := by
  cases hs : m'.session id with
  | none => exact Nat.zero_le _
  | some s => rw [h s hs]

theorem onSession_balance (hsafe : Action.endsOnce m (.onSession k op)) :
    endedCount id (Action.publishes cfg now m (.onSession k op)) +
        openEnds ((m.perform cfg now (.onSession k op)).session id) ≤
      openEnds (m.session id) + (Action.departs cfg now m (.onSession k op)).count id := by
  cases hk : m.session k with
  | none =>
    have hsame : m.perform cfg now (.onSession k op) = m := by
      show m.edit k _ = m
      exact edit_eq_self (by rw [hk]; rfl)
    rw [hsame]
    simp [Action.publishes, Action.departs, hk, endedCount]
  | some s =>
    simp only [Action.publishes, Action.departs, hk]
    by_cases hid : k = id
    · subst hid
      rw [perform_onSession hk, hk]
      exact transition_balance now k fun hterminal => result_of_ended hsafe hk hterminal
    · rw [endedCount_publishTransition_ne hid, departure_count_ne hid, perform,
        edit_session_ne (Ne.symm hid), Nat.zero_add, Nat.add_zero]

theorem deleteSession_balance (hsafe : Action.endsOnce m (.deleteSession k)) :
    endedCount id (Action.publishes cfg now m (.deleteSession k)) +
        openEnds ((m.perform cfg now (.deleteSession k)).session id) ≤
      openEnds (m.session id) + (Action.departs cfg now m (.deleteSession k)).count id := by
  have hle : openEnds ((m.deleteSession k).session id) ≤ openEnds (m.session id) :=
    openEnds_le_of_session fun s hs => deleteSession_session hs
  cases hk : m.session k with
  | none =>
    rw [perform]
    simpa [Action.publishes, Action.departs, hk, endedCount] using hle
  | some s =>
    simp only [Action.publishes, Action.departs, hk]
    by_cases hid : k = id
    · subst hid
      have hgone : (m.perform cfg now (.deleteSession k)).session k = none := by
        simp only [perform, deleteSession, hk]
        exact AList.lookup_erase k m.sessions
      have hbalance : endedCount k (publishTransition now k s.status { s with status := .completed }) +
            openEnds (some { s with status := .completed }) ≤
          openEnds (some s) + (departure k s.status .completed).count k := by
        apply transition_balance
        intro hterminal
        have hcompleted : s.status = .completed := by simpa [Action.endsOnce, endedAs, hk, hterminal] using hsafe
        exact hcompleted.symm
      rw [hgone, hk]
      exact le_trans (Nat.add_le_add_left (Nat.zero_le _) _) hbalance
    · rw [endedCount_publishTransition_ne hid, departure_count_ne hid, Nat.zero_add, Nat.add_zero]
      exact hle

theorem action_balance (cfg : Config) (now : Time) {a : Action} (hsafe : a.endsOnce m)
    (hnew : ∀ k s, a = .createSession k s → s.status = .pending) (id : Uuid) :
    endedCount id (a.publishes cfg now m) + openEnds ((m.perform cfg now a).session id) ≤
      openEnds (m.session id) + (a.departs cfg now m).count id := by
  cases a with
  | skip => simp [Action.publishes, Action.departs, endedCount, perform]
  | onSession k op => exact onSession_balance hsafe
  | createSession k new =>
    have hstarted : endedCount id [sessionEvent now k .sessionStarted new] = 0 := by
      rw [endedCount, countP_eq_zero]
      intro e he
      rw [mem_singleton.mp (mem_filter.mp he).1]
      simp [sessionEvent]
    have hle : openEnds ((m.createSession cfg k new).session id) ≤ openEnds (m.session id) := by
      cases hs : (m.createSession cfg k new).session id with
      | none => exact Nat.zero_le _
      | some s =>
        have hs' : (m.perform cfg now (.createSession k new)).session id = some s := hs
        rcases perform_session hs' with hcreate | hsame | ⟨op, _, _, hop, _⟩
        · have hpending : s.status = .pending := hnew id s hcreate
          simp [openEnds, hpending]
        · rw [hsame]
        · cases hop
    rw [perform, Action.publishes, hstarted]
    simpa [Action.departs] using hle
  | deleteSession k => exact deleteSession_balance hsafe
  | removeSessions ids =>
    have hle : openEnds ((m.removeSessions ids).session id) ≤ openEnds (m.session id) :=
      openEnds_le_of_session fun s hs => removeSessions_session hs
    rw [perform]
    simpa [Action.publishes, Action.departs, endedCount] using hle
  | followUp f => simp [Action.publishes, Action.departs, endedCount, perform, session]

end Balance

/-- Every published end of a session, and the one a disconnected session still owes, has its departure. -/
def EndsPaid (l : Ledger) : Prop := ∀ id, l.ended id + openEnds (l.world.manager.session id) ≤ l.departed id

theorem EndsPaid.init (config : Config) (now : Time) : EndsPaid (init config now) := by
  intro id
  rfl

theorem EndsPaid.step {l : Ledger} {event : Event} (hpaid : EndsPaid l) (hsafe : endsOnce l event) :
    EndsPaid (l.step event) := by
  intro id
  have hnew : ∀ k s, l.world.action event = .createSession k s → s.status = .pending := by
    intro k s hcreate
    obtain ⟨createdBy, shareToken, deferred, _, _, rfl⟩ := action_create hcreate
    rfl
  have hbalance := action_balance l.world.config l.world.now hsafe hnew id
  have hended : (l.step event).ended id = l.ended id +
      endedCount id ((l.world.action event).publishes l.world.config l.world.now l.world.manager) :=
    endedCount_append id _ _
  have hdeparted : (l.step event).departed id = l.departed id +
      ((l.world.action event).departs l.world.config l.world.now l.world.manager).count id :=
    count_append
  have hsession : (l.step event).world.manager.session id =
      (l.world.manager.perform l.world.config l.world.now (l.world.action event)).session id := rfl
  have hbefore := hpaid id
  rw [hended, hdeparted, hsession]
  omega

/-- Nothing more happens to a session: it keeps its status as long as it is in the map, and these are all the
events about it. -/
structure Rests (id : Uuid) (status : SessionStatus) (about : List SessionEvent) (l : Ledger) : Prop where
  created : id < l.world.nextId
  kept : ∀ s, l.world.manager.session id = some s → s.status = status
  quiet : l.about id = about

theorem publishTransition_filter {now : Time} {old : SessionStatus}
    (h : k = id → old = s.status) : (publishTransition now k old s).filter (·.sessionId = id) = [] := by
  rw [publishTransition]
  split
  · rfl
  · rename_i hne
    have hk : k ≠ id := fun hk => hne (h hk)
    simp [sessionEvent, hk]

theorem publishes_filter (cfg : Config) (now : Time) {m : Manager} {a : Action}
    (hsafe : a.endsOnce m) (hnew : ∀ s, a ≠ .createSession id s)
    (hended : ∀ s, m.session id = some s → s.status.isTerminal) :
    (a.publishes cfg now m).filter (·.sessionId = id) = [] := by
  cases a with
  | onSession k op =>
    cases hk : m.session k with
    | none => simp [Action.publishes, hk]
    | some s =>
      simp only [Action.publishes, hk]
      apply publishTransition_filter
      rintro rfl
      exact (result_of_ended hsafe hk (hended s hk)).symm
  | createSession k new =>
    have hk : k ≠ id := by
      rintro rfl
      exact hnew new rfl
    simp [Action.publishes, sessionEvent, hk]
  | deleteSession k =>
    cases hk : m.session k with
    | none => simp [Action.publishes, hk]
    | some s =>
      simp only [Action.publishes, hk]
      apply publishTransition_filter
      rintro rfl
      simpa [Action.endsOnce, endedAs, hk, hended s hk] using hsafe
  | _ => rfl

theorem Rests.step {status : SessionStatus} {about : List SessionEvent} {l : Ledger} {event : Event}
    (hterminal : status.isTerminal) (hrests : Rests id status about l) (hsafe : endsOnce l event) :
    Rests id status about (l.step event) := by
  have hended : ∀ s, l.world.manager.session id = some s → s.status.isTerminal := by
    intro s hs
    rw [hrests.kept s hs]
    exact hterminal
  have hnew : ∀ s, l.world.action event ≠ .createSession id s := by
    intro s hcreate
    obtain ⟨_, _, _, _, hid, _⟩ := action_create hcreate
    exact absurd hid (Nat.ne_of_lt hrests.created)
  refine ⟨lt_of_lt_of_le hrests.created (l.world.nextId_le_step event), ?_, ?_⟩
  · intro s' hs'
    have hs'' : (l.world.manager.perform l.world.config l.world.now (l.world.action event)).session id =
        some s' := hs'
    rcases perform_session hs'' with hcreate | hsame | ⟨op, s, e, hop, hs, he, rfl⟩
    · exact absurd hcreate (hnew s')
    · exact hrests.kept s' hsame
    · have hresult : op.result l.world.config l.world.now (id ∈ l.world.manager.ownerConnected) s = e.session := by
        rw [Operation.result, he]
        rfl
      rw [endsOnce, hop] at hsafe
      rw [← hresult, result_of_ended hsafe hs (hended s hs)]
      exact hrests.kept s hs
  · have hquiet := publishes_filter l.world.config l.world.now hsafe hnew hended
    calc (l.step event).about id
        = l.about id ++ ((l.world.action event).publishes l.world.config l.world.now
            l.world.manager).filter (·.sessionId = id) := filter_append ..
      _ = l.about id := by rw [hquiet, append_nil]
      _ = about := hrests.quiet

/-- **Ends are final and published once**: in a run in which `error_session`, the logout and `delete_session`
meet no session that has ended otherwise, no session publishes more ends than it has left the live statuses. -/
theorem ends_final_and_published_once (config : Config) (now : Time) (events more : List Event)
    (hguarded : Guarded step endsOnce (init config now) (events ++ more)) :
    (∀ id s, (run step (init config now) events).world.manager.session id = some s → s.status.isTerminal = true →
        (∀ s', (run step (init config now) (events ++ more)).world.manager.session id =
          some s' → s'.status = s.status) ∧
        (run step (init config now) (events ++ more)).about id = (run step (init config now) events).about id) ∧
    ∀ id, (run step (init config now) (events ++ more)).ended id ≤
      (run step (init config now) (events ++ more)).departed id := by
  have hpaid : EndsPaid (run step (init config now) (events ++ more)) :=
    invariant_run step (fun l event => EndsPaid.step) (EndsPaid.init config now) hguarded
  refine ⟨?_, fun id => le_trans (Nat.le_add_right _ _) (hpaid id)⟩
  intro id s hs hterminal
  rw [run_append]
  set l := run step (init config now) events with hl
  have hfresh : l.world.Fresh := by
    rw [hl, run_world]
    exact invariant_run_of_step World.step (fun w event hw => hw.step event)
      (World.Fresh.init config now) events
  have hstart : Rests id s.status (l.about id) l := by
    refine ⟨hfresh id s hs, ?_, rfl⟩
    intro s' hs'
    rw [some.inj (hs'.symm.trans hs)]
  have hend : Rests id s.status (l.about id) (run step l more) :=
    invariant_run step (fun l' event hrests hsafe => hrests.step hterminal hsafe) hstart
      (guarded_append Ledger.step |>.mp hguarded).2
  exact ⟨hend.kept, hend.quiet⟩

/-- The owner works in session 0 for a while, the viewer comes five seconds later, and guacd ends the owner's
connection. -/
def completedSession : List Event :=
  [Event.create "alice@example.com" "share" false, .request 0 (some alice) none] ++ steps 0 5 ++
    replicate 5 .tick ++ [Event.request 0 none (some "share")] ++ steps 1 8 ++ ends 0 .guacdEnded true

theorem end_published_once_after_completion :
    (run step (init plainConfig 100) completedSession).world.manager.hasStatus 0
        .completed = true ∧
      (run step (init plainConfig 100) (completedSession ++ [.tick])).ended 0 ≤
        (run step (init plainConfig 100) (completedSession ++ [.tick])).departed 0 := by
  have h := ends_final_and_published_once plainConfig 100 completedSession [.tick] (by decide +kernel)
  exact ⟨by decide +kernel, h.2 0⟩

/-- The teardown of the viewer turns the completed session into an error, and a logout publishes two ends of a
session that has left the live statuses once. -/
theorem ends_changed_and_published_twice : (run step (init plainConfig 100)
        (completedSession ++ ends 1 .guacdEnded true)).world.manager.hasStatus 0 .error = true ∧
      (run step (init plainConfig 100) completedSession).world.manager.hasStatus 0
        .completed = true ∧
      (run step (init plainConfig 100)
        [.create "alice@example.com" "share" false, .logout 0, .task 1, .task 1]).ended 0 = 2 ∧
      (run step (init plainConfig 100)
        [.create "alice@example.com" "share" false, .logout 0, .task 1, .task 1]).departed 0 = 1 := by
  decide +kernel

end Persea.Sessions
