import Persea.SessionEvents

/-! The caps on live sessions. `create_session` counts the sessions of its caller at the start and all sessions when
it inserts; `reconnect_session` counts nothing. -/

namespace Persea.Sessions

open Base Transition Option Manager Session Store

inductive CallPc where
  /-- The live sessions of the caller are counted, one session at a time. -/
  | count (todo : List Uuid) (userCount : Nat)
  /-- Everything between the count and the insertion. -/
  | prepare
  | created
  | refused (message : String)
deriving DecidableEq, Repr

structure Call where
  createdBy : String
  shareToken : String
  deferred : Bool
  pc : CallPc
deriving DecidableEq, Repr

structure Intake where
  world : World
  maxSessionsPerUser : Nat
  calls : List Call

open Intake

inductive IntakeEvent where
  | call (createdBy shareToken : String) (deferred : Bool)
  | proceed (k : Nat)
  /-- The preparation of a call fails. -/
  | fail (k : Nat) (message : String)
  /-- A step of the world that is not a creation. -/
  | other (event : Event)
deriving DecidableEq, Repr

def Intake.init (config : Config) (maxSessionsPerUser : Nat) (now : Time) : Intake :=
  { world := World.init config now, maxSessionsPerUser, calls := [] }

def Event.isCreate : Event → Bool
  | .create _ _ _ => true
  | _ => false

def Session.isLiveAmong (users : String → Bool) (s : Session) : Bool := s.isLive && users s.createdBy

def Session.isLiveOf (user : String) : Session → Bool := isLiveAmong fun u => u = user

variable (i : Intake)

def Call.new (createdBy shareToken : String) (deferred : Bool) : Call :=
  { createdBy, shareToken, deferred,
    pc := if i.maxSessionsPerUser = 0 then .prepare else .count i.world.manager.sessions.keys 0 }

def Call.next (c : Call) : CallPc :=
  match c.pc with
  | .count (id :: todo) userCount =>
    .count todo (if i.world.manager.picked (isLiveOf c.createdBy) id then userCount + 1 else userCount)
  | .count [] userCount =>
    if i.maxSessionsPerUser ≤ userCount then
      .refused ("maximum sessions per user reached (" ++ toString i.maxSessionsPerUser ++ ")")
    else .prepare
  | .prepare =>
    let cap := i.world.config.maxSessions
    if 0 < cap ∧ cap ≤ count isLive i.world.manager.sessions then
      .refused ("maximum concurrent sessions reached (" ++ toString cap ++ ")")
    else .created
  | pc => pc

def Intake.worldEvent : IntakeEvent → Option Event
  | .proceed k =>
    (i.calls[k]?).bind fun c =>
      if c.pc = .prepare then some (.create c.createdBy c.shareToken c.deferred) else none
  | .other event => if event.isCreate then none else some event
  | _ => none

def Intake.nextCalls : IntakeEvent → List Call
  | .call createdBy shareToken deferred => i.calls ++ [Call.new i createdBy shareToken deferred]
  | .proceed k => i.calls.modify k fun c => { c with pc := c.next i }
  | .fail k message => i.calls.modify k fun c => if c.pc = .prepare then { c with pc := .refused message } else c
  | .other _ => i.calls

def Intake.step (i : Intake) (event : IntakeEvent) : Intake :=
  { world := ((i.worldEvent event).map i.world.step).getD i.world
    maxSessionsPerUser := i.maxSessionsPerUser
    calls := i.nextCalls event }

/-! ### Arrivals -/

variable (m : Manager)

def Manager.liveAmong (users : String → Bool) : Nat := count (isLiveAmong users) m.sessions

def Manager.live : Nat := count isLive m.sessions

def Manager.liveOf (user : String) : Nat := count (isLiveOf user) m.sessions

theorem Manager.live_eq (m : Manager) : m.live = m.liveAmong fun _ => true := by
  have hlive : isLive = isLiveAmong fun _ => true := by
    funext s
    exact (Bool.and_true s.isLive).symm
  rw [live, liveAmong, hlive]

def Action.arrives : Action → Option Session
  | .onSession id (.install .reconnect _ connected) => (m.session id).filter (installGives .reconnect connected)
  | .createSession _ s => some s
  | _ => none

variable {a : Action} {s : Session}

theorem arrives_cases {m : Manager} (h : a.arrives m = some s) :
    (∃ id, a = .createSession id s) ∨ ∃ id op, a = .onSession id op := by
  cases a with
  | createSession id new =>
    cases h
    exact .inl ⟨id, rfl⟩
  | onSession id op => exact .inr ⟨id, op, rfl⟩
  | _ => cases h

def arrivalWeight (users : String → Bool) (s : Option Session) : Nat := if s.any (users ·.createdBy) then 1 else 0

theorem live_of_moves {op : Operation} {old new : SessionStatus} (hmoves : op.Moves old new)
    (hlive : new.isLive) :
    old.isLive ∨ ∃ deferred connected, op = .install .reconnect deferred connected := by
  cases op with
  | install path deferred connected =>
    cases path with
    | take => exact .inl (by rw [hmoves.1]; rfl)
    | reconnect => exact .inr ⟨deferred, connected, rfl⟩
  | connectFailed path | completeSession | disconnectSession | errorSession | logout | pendingTimeout | finalize =>
    rw [hmoves.2] at hlive
    cases hlive
  | _ => exact hmoves.elim

theorem installGives_of_moves {path : OwnerPath} {deferred connected : Bool} {e : Edit}
    (h : installEdit path deferred connected s = some e) (hmoved : e.session.status ≠ s.status) :
    installGives path connected s := by
  rw [installEdit] at h
  split_ifs at h with hstatus hstream
  · simpa [installGives, not_not.mp hstatus] using hstream
  · cases h
    exact absurd rfl hmoved

def Action.revives : Action → Option Uuid
  | .onSession id (.install .reconnect _ connected) =>
    if m.givesStream id .reconnect connected then some id else none
  | _ => none

section Perform

variable {cfg : Config} {now : Time} {m : Manager} {users : String → Bool}

theorem perform_isLive {k : Uuid} {s' : Session} (h : (m.perform cfg now a).session k = some s')
    (hlive : s'.isLive) :
    (∃ s, m.session k = some s ∧ s.isLive) ∨ a = .createSession k s' ∨ a.revives m = some k := by
  rcases perform_session h with hcreate | hsame | ⟨op, s, e, rfl, hs, he, rfl⟩
  · exact .inr (.inl hcreate)
  · exact .inl ⟨s', hsame, hlive⟩
  · by_cases hmoved : e.session.status = s.status
    · refine .inl ⟨s, hs, ?_⟩
      rw [isLive, hmoved] at hlive
      exact hlive
    · rcases live_of_moves ((edit_moves he).resolve_left hmoved) hlive with hold | ⟨deferred, connected, rfl⟩
      · exact .inl ⟨s, hs, hold⟩
      · have hgives : installGives .reconnect connected s := installGives_of_moves he hmoved
        refine .inr (.inr ?_)
        simp [Action.revives, givesStream, hs, hgives]

theorem edit_weight {id : Uuid} {op : Operation} {e : Edit} (hs : m.session id = some s)
    (he : op.edit cfg now (id ∈ m.ownerConnected) s = some e) :
    weight (isLiveAmong users) e.session ≤
      weight (isLiveAmong users) s + arrivalWeight users (Action.arrives m (.onSession id op)) := by
  by_cases hnew : isLiveAmong users e.session
  swap
  · simp [weight, hnew]
  obtain ⟨hlive, huser⟩ : e.session.isLive ∧ users e.session.createdBy := by
    simpa [isLiveAmong] using hnew
  rw [(edit_spec he).createdBy] at huser
  by_cases hold : s.isLive
  · simp [weight, isLiveAmong, hold, hlive, huser, (edit_spec he).createdBy]
  -- the session was not live: the operation is a reconnect that has a stream
  have hmoved : e.session.status ≠ s.status := by
    intro hsame
    rw [isLive, hsame] at hlive
    exact hold hlive
  have hmoves := (edit_moves he).resolve_left hmoved
  rcases live_of_moves hmoves hlive with hlive' | ⟨deferred, connected, rfl⟩
  · exact absurd hlive' hold
  · have hgives : installGives .reconnect connected s := installGives_of_moves he hmoved
    have harrives : arrivalWeight users (Action.arrives m (.onSession id (.install .reconnect deferred connected))) =
        1 := by
      simp [arrivalWeight, Action.arrives, hs, Option.filter, hgives, huser]
    rw [harrives, weight, if_pos hnew]
    exact Nat.le_add_left _ _

theorem removeSessions_liveAmong (m : Manager) (users : String → Bool) (ids : List Uuid) :
    (m.removeSessions ids).liveAmong users ≤ m.liveAmong users := by
  induction ids generalizing m with
  | nil => exact le_rfl
  | cons id ids ih =>
    apply le_trans (ih (m.removeSession id))
    show count _ (m.sessions.erase id) ≤ count _ m.sessions
    cases hs : m.sessions.lookup id with
    | none => rw [erase_of_lookup_none hs]
    | some s =>
      rw [← count_erase (p := isLiveAmong users) hs]
      exact Nat.le_add_right _ _

theorem perform_liveAmong (hnew : ∀ id s, a = .createSession id s → m.session id = none) :
    (m.perform cfg now a).liveAmong users ≤ m.liveAmong users + arrivalWeight users (a.arrives m) := by
  cases a with
  | skip => exact Nat.le_add_right _ _
  | onSession id op =>
    rw [perform]
    cases hedit : (m.session id).bind (op.edit cfg now (id ∈ m.ownerConnected)) with
    | none =>
      rw [edit_eq_self hedit]
      exact Nat.le_add_right _ _
    | some e =>
      obtain ⟨s, hs, he⟩ := Option.bind_eq_some_iff.mp hedit
      have hcount := count_replace (p := isLiveAmong users) hs e.session
      have hweight : weight (isLiveAmong users) e.session ≤ weight (isLiveAmong users) s +
            arrivalWeight users (Action.arrives m (.onSession id op)) := edit_weight hs he
      rw [edit_eq hedit]
      simp only [liveAmong]
      omega
  | createSession id s =>
    rw [perform, createSession]
    split
    · exact Nat.le_add_right _ _
    · have hcount := count_insert_new (p := isLiveAmong users) (hnew id s rfl) s
      have hweight : weight (isLiveAmong users) s ≤ arrivalWeight users (Action.arrives m (.createSession id s)) := by
        cases hlive : s.isLive <;> cases huser : users s.createdBy <;>
          simp [weight, isLiveAmong, arrivalWeight, Action.arrives, hlive, huser]
      simp only [liveAmong]
      omega
  | deleteSession id =>
    rw [perform]
    cases hs : m.session id with
    | none =>
      simp only [deleteSession, hs]
      exact Nat.le_add_right _ _
    | some s =>
      have hcount := count_erase (p := isLiveAmong users) hs
      simp only [deleteSession, hs, liveAmong]
      omega
  | removeSessions ids => exact le_trans (removeSessions_liveAmong m users ids) (Nat.le_add_right _ _)
  | followUp f =>
    rw [perform, liveAmong, followUp_sessions]
    exact Nat.le_add_right _ _

end Perform

/-! ### The caps in every run -/

def Manager.userRoom (m : Manager) (maxSessionsPerUser : Nat) (user : String) : Bool :=
  maxSessionsPerUser = 0 ∨ m.liveOf user < maxSessionsPerUser

def Manager.room (m : Manager) (maxSessions : Nat) : Bool := maxSessions = 0 ∨ m.live < maxSessions

/-- The creator of an arriving session has room for it; a session that is not new also has room under the
global cap, which an insertion checks itself. -/
def Action.hasRoom (m : Manager) (maxSessions maxSessionsPerUser : Nat) (a : Action) : Bool :=
  match a with
  | .createSession _ s => m.userRoom maxSessionsPerUser s.createdBy
  | a => (a.arrives m).all fun s => m.room maxSessions && m.userRoom maxSessionsPerUser s.createdBy

def arrivesWithRoom (i : Intake) (event : IntakeEvent) : Prop :=
  (i.worldEvent event).all (fun e =>
    (i.world.action e).hasRoom i.world.manager i.world.config.maxSessions i.maxSessionsPerUser) = true

instance (i : Intake) (event : IntakeEvent) : Decidable (arrivesWithRoom i event) :=
  inferInstanceAs (Decidable (_ = true))

structure CapsKept (config : Config) (maxSessionsPerUser : Nat) (i : Intake) : Prop where
  config_eq : i.world.config = config
  perUser_eq : i.maxSessionsPerUser = maxSessionsPerUser
  fresh : i.world.Fresh
  live : 0 < config.maxSessions → i.world.manager.live ≤ config.maxSessions
  liveOf : 0 < maxSessionsPerUser → ∀ user, i.world.manager.liveOf user ≤ maxSessionsPerUser

theorem CapsKept.init (config : Config) (maxSessionsPerUser : Nat) (now : Time) :
    CapsKept config maxSessionsPerUser (init config maxSessionsPerUser now) :=
  ⟨rfl, rfl, World.Fresh.init config now, fun _ => Nat.zero_le _, fun _ _ => Nat.zero_le _⟩

section World

variable {w : World} {event : Event} {maxSessionsPerUser : Nat}

theorem step_liveAmong (hfresh : w.Fresh) (event : Event) (users : String → Bool) :
    (w.step event).manager.liveAmong users ≤
      w.manager.liveAmong users + arrivalWeight users ((w.action event).arrives w.manager) := by
  show (w.manager.perform w.config w.now (w.action event)).liveAmong users ≤ _
  apply perform_liveAmong
  intro id s hcreate
  obtain ⟨_, _, _, _, rfl, _⟩ := action_create hcreate
  exact hfresh.session_nextId

theorem live_createSession (m : Manager) (cfg : Config) {id : Uuid} (s : Session) (hlimit : 0 < cfg.maxSessions)
    (hnew : m.session id = none) (hbefore : m.live ≤ cfg.maxSessions) :
    (m.createSession cfg id s).live ≤ cfg.maxSessions := by
  rw [createSession]
  split
  · exact hbefore
  · rename_i hroom
    have hlt : m.live < cfg.maxSessions := by
      rw [not_and, not_le] at hroom
      exact hroom hlimit
    have hcount := count_insert_new (p := isLive) hnew s
    have hweight : weight isLive s ≤ 1 := by
      rw [weight]
      split <;> omega
    simp only [live] at hlt ⊢
    omega

theorem step_live (hfresh : w.Fresh)
    (hroom : (w.action event).hasRoom w.manager w.config.maxSessions maxSessionsPerUser)
    (hlimit : 0 < w.config.maxSessions) (hbefore : w.manager.live ≤ w.config.maxSessions) :
    (w.step event).manager.live ≤ w.config.maxSessions := by
  have hstep := step_liveAmong hfresh event fun _ => true
  rw [← live_eq, ← live_eq] at hstep
  cases harrives : (w.action event).arrives w.manager with
  | none =>
    rw [harrives] at hstep
    exact le_trans hstep hbefore
  | some s =>
    rcases arrives_cases harrives with ⟨id, hcreate⟩ | ⟨id, op, hop⟩
    · obtain ⟨_, _, _, _, rfl, _⟩ := action_create hcreate
      have hmanager : (w.step event).manager = w.manager.createSession w.config w.nextId s := by
        show w.manager.perform w.config w.now (w.action event) = _
        rw [hcreate]
        rfl
      rw [hmanager]
      exact live_createSession w.manager w.config s hlimit hfresh.session_nextId hbefore
    · have hlt : w.manager.live < w.config.maxSessions := by
        rw [hop] at hroom harrives
        simp only [Action.hasRoom, harrives, all_some, Bool.and_eq_true] at hroom
        simpa [room, Nat.ne_of_gt hlimit] using hroom.1
      have hweight : arrivalWeight (fun _ => true) (some s) = 1 := rfl
      rw [harrives, hweight] at hstep
      omega

theorem userRoom_of_hasRoom {m : Manager} {maxSessions : Nat}
    (hroom : a.hasRoom m maxSessions maxSessionsPerUser) (harrives : a.arrives m = some s) :
    m.userRoom maxSessionsPerUser s.createdBy := by
  rcases arrives_cases harrives with ⟨id, rfl⟩ | ⟨id, op, rfl⟩
  · exact hroom
  · simp only [Action.hasRoom, harrives, all_some, Bool.and_eq_true] at hroom
    exact hroom.2

theorem step_liveOf (hfresh : w.Fresh)
    (hroom : (w.action event).hasRoom w.manager w.config.maxSessions maxSessionsPerUser)
    (hlimit : 0 < maxSessionsPerUser) {user : String} (hbefore : w.manager.liveOf user ≤ maxSessionsPerUser) :
    (w.step event).manager.liveOf user ≤ maxSessionsPerUser := by
  have hstep : (w.step event).manager.liveOf user ≤ w.manager.liveOf user +
      arrivalWeight (fun u => u = user) ((w.action event).arrives w.manager) := step_liveAmong hfresh event _
  cases harrives : (w.action event).arrives w.manager with
  | none =>
    rw [harrives] at hstep
    exact le_trans hstep hbefore
  | some s =>
    rw [harrives] at hstep
    by_cases huser : s.createdBy = user
    · have hlt : w.manager.liveOf user < maxSessionsPerUser := by
        rw [← huser]
        simpa [userRoom, Nat.ne_of_gt hlimit] using userRoom_of_hasRoom hroom harrives
      have hweight : arrivalWeight (fun u => u = user) (some s) = 1 := by simp [arrivalWeight, huser]
      omega
    · have hweight : arrivalWeight (fun u => u = user) (some s) = 0 := by simp [arrivalWeight, huser]
      omega

end World

theorem CapsKept.step {config : Config} {maxSessionsPerUser : Nat} {i : Intake} {event : IntakeEvent}
    (h : CapsKept config maxSessionsPerUser i) (hsafe : arrivesWithRoom i event) :
    CapsKept config maxSessionsPerUser (i.step event) := by
  cases hevent : i.worldEvent event with
  | none =>
    have hworld : (i.step event).world = i.world := by simp only [Intake.step, hevent, map_none, getD_none]
    refine ⟨?_, h.perUser_eq, ?_, ?_, ?_⟩ <;> rw [hworld]
    · exact h.config_eq
    · exact h.fresh
    · exact h.live
    · exact h.liveOf
  | some e =>
    have hworld : (i.step event).world = i.world.step e := by simp only [Intake.step, hevent, map_some, getD_some]
    have hroom : (i.world.action e).hasRoom i.world.manager i.world.config.maxSessions maxSessionsPerUser := by
      rw [arrivesWithRoom, hevent, h.perUser_eq] at hsafe
      exact hsafe
    refine ⟨?_, h.perUser_eq, ?_, ?_, ?_⟩ <;> rw [hworld]
    · exact h.config_eq
    · exact h.fresh.step e
    · intro hlimit
      rw [← h.config_eq] at hlimit ⊢
      apply step_live h.fresh hroom hlimit
      rw [h.config_eq] at hlimit ⊢
      exact h.live hlimit
    · intro hlimit user
      exact step_liveOf h.fresh hroom hlimit (h.liveOf hlimit user)

def oneSessionConfig : Config := { plainConfig with maxSessions := 1 }

def refusedCall : List IntakeEvent :=
  [.call "alice@example.com" "share" true, .proceed 0, .proceed 0, .call "alice@example.com" "share" true,
    .proceed 1, .proceed 1]

def concurrentCalls : List IntakeEvent :=
  [.call "alice@example.com" "share" true, .call "alice@example.com" "share" true, .proceed 0, .proceed 1,
    .proceed 0, .proceed 1]

/-- Alice's session is disconnected, Bob creates theirs, and Alice reconnects. -/
def reconnectAtCap : List IntakeEvent :=
  [IntakeEvent.call "alice@example.com" "share" true, .proceed 0] ++
    ([Event.request 0 (some alice) none] ++ steps 0 6 ++ ends 0 .browserEnded false).map .other ++
    [IntakeEvent.call "bob@example.com" "share" true, .proceed 1] ++
    ([Event.request 0 (some alice) none] ++ steps 1 7).map .other

end Persea.Sessions
