import Persea.SessionWorld

/-! The `sessions_active` gauge. Every transition moves it by hand. It follows the number of active sessions
as long as `complete_session` does not meet a disconnected session and the cleanup does not remove an
active one. -/

namespace Persea.Sessions

open Base Transition World Session

/-- The gauge is the number of active sessions in the map. -/
def GaugeOk (m : Manager) : Prop := m.sessionsActive = (Store.count isActive m.sessions : Nat)

def Manager.exported (m : Manager) : Nat := (m.sessionsActive % 2 ^ 64).toNat

theorem weight_isActive (s : Session) : ((Store.weight isActive s : Nat) : Int) = activeWeight s := by
  by_cases h : s.status = .active <;> simp [Store.weight, isActive, activeWeight, h]

/-! ### One critical section -/

/-- The two critical sections that must not meet the wrong session. -/
def GaugeSafe (m : Manager) : Action → Prop
  | .onSession id .completeSession => m.isSessionDisconnected id = false
  | .removeSessions ids => ∀ id ∈ ids, m.hasStatus id .active = false
  | _ => True

instance (m : Manager) : (a : Action) → Decidable (GaugeSafe m a)
  | .onSession id op =>
    if h : op = .completeSession then
      decidable_of_iff (m.isSessionDisconnected id = false) (by rw [h]; rfl)
    else isTrue (by cases op <;> trivial)
  | .removeSessions ids => inferInstanceAs (Decidable (∀ id ∈ ids, m.hasStatus id .active = false))
  | .skip | .createSession _ _ | .deleteSession _ | .followUp _ => isTrue trivial

variable {m : Manager}

variable {id : Uuid}

theorem GaugeOk.edit (hok : GaugeOk m) {f : Session → Option Edit} (hf : ∀ s e, m.session id = some s → f s = some e →
      e.gauge = activeWeight e.session - activeWeight s) : GaugeOk (m.edit id f) := by
  cases hedit : (m.session id).bind f with
  | none => rwa [edit_eq_self hedit]
  | some e =>
    obtain ⟨s, hs, he⟩ := Option.bind_eq_some_iff.mp hedit
    have hgauge := hf s e hs he
    have hcount := Store.count_replace (p := isActive) hs e.session
    have hold := weight_isActive s
    have hnew := weight_isActive e.session
    rw [edit_eq hedit]
    simp only [GaugeOk] at hok ⊢
    omega

theorem GaugeOk.deleteSession (hok : GaugeOk m) (id : Uuid) : GaugeOk (m.deleteSession id) := by
  cases hs : m.session id with
  | none => simpa only [Manager.deleteSession, hs] using hok
  | some s =>
    have hcount := Store.count_erase (p := isActive) hs
    have hold := weight_isActive s
    simp only [Manager.deleteSession, hs, GaugeOk, activeWeight] at hok hold ⊢
    omega

theorem GaugeOk.removeSession (hok : GaugeOk m) (hactive : m.hasStatus id .active = false) :
    GaugeOk (m.removeSession id) := by
  cases hs : m.session id with
  | none =>
    have hsame : m.sessions.erase id = m.sessions := Store.erase_of_lookup_none hs
    simpa only [GaugeOk, Manager.removeSession, hsame] using hok
  | some s =>
    have hcount := Store.count_erase (p := isActive) hs
    have hweight : Store.weight isActive s = 0 := by
      have hstatus : s.status ≠ .active := by simpa [Manager.hasStatus, hs] using hactive
      simp [Store.weight, isActive, hstatus]
    simp only [GaugeOk, Manager.removeSession] at hok ⊢
    omega

theorem removeSession_hasStatus {k : Uuid} {status : SessionStatus} (h : m.hasStatus k status = false) :
    (m.removeSession id).hasStatus k status = false := by
  cases hs : (m.removeSession id).session k with
  | none => simp [Manager.hasStatus, hs]
  | some s =>
    have hbefore : m.session k = some s := session_of_erase hs
    simpa [Manager.hasStatus, hs, hbefore] using h

theorem GaugeOk.removeSessions (hok : GaugeOk m) {ids : List Uuid}
    (hids : ∀ id ∈ ids, m.hasStatus id .active = false) : GaugeOk (m.removeSessions ids) := by
  induction ids generalizing m with
  | nil => exact hok
  | cons id ids ih =>
    refine ih (hok.removeSession (hids id List.mem_cons_self)) ?_
    intro k hk
    exact removeSession_hasStatus (hids k (List.mem_cons_of_mem id hk))

theorem GaugeOk.createSession (hok : GaugeOk m) {cfg : Config} {s : Session}
    (hnew : m.session id = none) (hpending : s.status = .pending) : GaugeOk (m.createSession cfg id s) := by
  rw [Manager.createSession]
  split
  · exact hok
  · have hcount := Store.count_insert_new (p := isActive) hnew s
    have hweight : Store.weight isActive s = 0 := by simp [Store.weight, isActive, hpending]
    simp only [GaugeOk] at hok ⊢
    omega

theorem GaugeOk.perform (hok : GaugeOk m) {cfg : Config} {now : Time} {a : Action} (hsafe : GaugeSafe m a)
    (hcreate : ∀ id s, a = .createSession id s → m.session id = none ∧ s.status = .pending) :
    GaugeOk (m.perform cfg now a) := by
  cases a with
  | skip => exact hok
  | onSession id op =>
    refine hok.edit fun s e hs he => (edit_spec he).gauge ?_
    rintro rfl hdisconnected
    have hsafe : m.isSessionDisconnected id = false := hsafe
    simp [Manager.isSessionDisconnected, Manager.hasStatus, hs, hdisconnected] at hsafe
  | createSession id s =>
    obtain ⟨hnew, hpending⟩ := hcreate id s rfl
    exact hok.createSession hnew hpending
  | deleteSession id => exact hok.deleteSession id
  | removeSessions ids => exact hok.removeSessions hsafe
  | followUp f => simpa only [GaugeOk, Manager.perform, followUp_sessions, followUp_sessionsActive] using hok

/-- The event's critical section is safe in this state. -/
def GaugeSafeStep (w : World) (event : Event) : Prop := GaugeSafe w.manager (w.action event)

instance (w : World) (event : Event) : Decidable (GaugeSafeStep w event) :=
  inferInstanceAs (Decidable (GaugeSafe w.manager (w.action event)))

structure Counted (w : World) : Prop where
  fresh : w.Fresh
  gauge : GaugeOk w.manager

theorem Counted.init (config : Config) (now : Time) : Counted (init config now) := ⟨Fresh.init config now, rfl⟩

theorem Counted.step {w : World} {event : Event} (h : Counted w) (hsafe : GaugeSafeStep w event) :
    Counted (w.step event) := by
  refine ⟨h.fresh.step event, h.gauge.perform hsafe ?_⟩
  intro id s hcreate
  obtain ⟨createdBy, shareToken, deferred, _, rfl, rfl⟩ := action_create hcreate
  exact ⟨h.fresh.session_nextId, rfl⟩

/-- **The gauge counts the active sessions**, while `complete_session` never runs on a disconnected session and
the cleanup never removes an active one; so it is never below zero. -/
theorem sessionsActive_eq_count (config : Config) (now : Time) (events : List Event)
    (hsafe : Guarded step GaugeSafeStep (init config now) events) :
    let m := (run step (init config now) events).manager
    m.sessionsActive = (Store.count isActive m.sessions : Nat) ∧ 0 ≤ m.sessionsActive ∧
      m.exported = Store.count isActive m.sessions % 2 ^ 64 := by
  intro m
  have hcounted := invariant_run step (fun _ _ => Counted.step) (Counted.init config now) hsafe
  have hgauge : m.sessionsActive = (Store.count isActive m.sessions : Nat) := hcounted.gauge
  refine ⟨hgauge, by omega, ?_⟩
  rw [Manager.exported, hgauge]
  omega

theorem sessionsActive_owner_and_viewer : Guarded step GaugeSafeStep (init plainConfig 100)
        (sharedSession ++ ends 0 .browserEnded false ++ ends 1 .browserEnded false) ∧
      (run step (init plainConfig 100)
        (sharedSession ++ ends 0 .browserEnded false ++ ends 1 .browserEnded false)).manager.exported = 0 := by
  have hsafe : Guarded step GaugeSafeStep (init plainConfig 100)
      (sharedSession ++ ends 0 .browserEnded false ++ ends 1 .browserEnded false) := by decide +kernel
  have hcount := (sessionsActive_eq_count plainConfig 100 _ hsafe).2.2
  refine ⟨hsafe, hcount.trans ?_⟩
  decide +kernel

/-- The owner's tab is closed while the remote side logs out: both connections give up their slots, the
owner's finds none left and disconnects the session, and the viewer's then completes it. -/
def completedAfterDisconnect : List Event :=
  sharedSession ++ List.replicate 5 .tick ++
    [Event.conn 0 (.proxyEnds .browserEnded false), .conn 1 (.proxyEnds .guacdEnded true)] ++
    steps 1 1 ++ steps 0 6 ++ steps 1 1

/-- The owner reconnects between the scan of the cleanup and its removals. -/
def removedAfterReconnect : List Event :=
  [Event.create "alice@example.com" "share" true, .request 0 (some alice) none] ++ steps 0 6 ++
    ends 0 .browserEnded false ++ [Event.tick, .tick, .cleanup, .task 1, .task 1] ++
    [Event.request 0 (some alice) none] ++ steps 1 9 ++ [Event.task 1, .task 1]

/-- **The gauge is decremented below zero, and it stays up for a session that is gone.** -/
theorem gauge_leaves_count : (Store.count isActive (afterScript completedAfterDisconnect).manager.sessions = 0 ∧
      (afterScript completedAfterDisconnect).manager.sessionsActive = -1 ∧
      (afterScript completedAfterDisconnect).manager.exported = 2 ^ 64 - 1) ∧
    (Store.count isActive (afterScript removedAfterReconnect).manager.sessions = 0 ∧
      (afterScript removedAfterReconnect).manager.sessionsActive = 1) := by
  refine ⟨?_, ?_⟩ <;> decide +kernel

end Persea.Sessions
