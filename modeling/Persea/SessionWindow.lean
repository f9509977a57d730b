import Persea.SessionCleanup
import Persea.SessionOwner

/-! The reconnect window. The clean-up measures the age of an ended session from its creation, and of a disconnected
one from an entry written after the disconnect. A timed world keeps the times that count beside the world. -/

namespace Persea.Sessions

open Base Auth Transition Option World Operation OwnerPath List AList

/-! ### Reconnecting -/

def World.gains (w : World) (i : Nat) (events : List Event) : Bool :=
  ((run step w events).conns[i]?).any fun c => c.pc = .proxy .owner w.now

def World.attempt (w : World) (id : Uuid) (identity : AuthIdentity) : List Event :=
  .request id (some identity) none :: steps w.conns.length 7

def Pc.reconnects (pc : Pc) : Bool := pc = .connect .reconnect ∨ pc = .install .reconnect true true

/-- Each owner gets the session by connecting, or an attempt to reconnect it is under way and gets it. -/
def World.Reconnectable (w : World) (id : Uuid) : Prop :=
  ∃ x, w.manager.session id = some x ∧ ((∀ identity, sessionOwnedBy identity x.createdBy = true →
        w.gains w.conns.length (w.attempt id identity) = true) ∨
      ∃ i c n, w.conns[i]? = some c ∧ c.sessionId = id ∧ c.pc.reconnects = true ∧ w.gains i (steps i n) = true)

structure Waits (w : World) (i : Nat) (id : Uuid) (identity : Option AuthIdentity) (pc : Pc) (x : Session) :
    Prop where
  conn : ∃ c, w.conns[i]? = some c ∧ c.sessionId = id ∧ c.identity = identity ∧ c.pc = pc ∧ c.pending = []
  session : w.manager.session id = some x

theorem World.step_conn {w : World} {i : Nat} {c : Conn} (hc : w.conns[i]? = some c) (input : Input) :
    (w.step (.conn i input)).conns[i]? = some (c.next w.config w.now w.manager input) ∧
      (w.step (.conn i input)).manager = w.manager.perform w.config w.now (c.action input) := by
  have hlt : i < w.conns.length := (List.getElem?_eq_some_iff.mp hc).1
  constructor
  · simp only [step, nextConns, hc]
    exact List.getElem?_set_self hlt
  · simp only [step, nextManager, action, hc]

variable {owner : AuthIdentity} {m : Manager} {cfg : Config} {now : Time} {a : Action} {op : Operation} {j : Nat}
  {job : Job} {started : Time} {x' : Session} {t : Time}

namespace Waits

variable {w : World} {i : Nat} {id : Uuid} {identity : Option AuthIdentity} {pc : Pc} {x : Session}

theorem step (h : Waits w i id identity pc x) {pc' : Pc}
    (hpc : ∀ c : Conn, c.sessionId = id → c.identity = identity → c.pc = pc →
      c.nextPc w.config w.now w.manager .ok = pc' ∧ c.followUps w.config w.now w.manager .ok = []) :
    Waits (w.step (.conn i .ok)) i id identity pc'
      (match pc.operation .ok with
        | some op => op.result w.config w.now (id ∈ w.manager.ownerConnected) x
        | none => x) := by
  obtain ⟨c, hc, rfl, rfl, rfl, hidle⟩ := h.conn
  obtain ⟨hnext, hfollow⟩ := hpc c rfl rfl rfl
  obtain ⟨hconn, hmanager⟩ := step_conn hc .ok
  refine ⟨⟨_, hconn, ?_⟩, ?_⟩
  · simp [Conn.next, hidle, hnext, hfollow]
  · simp only [hmanager, Conn.action, hidle]
    cases hop : c.pc.operation .ok with
    | none => exact h.session
    | some op => exact perform_onSession h.session

theorem gains_succ {n : Nat} (h : (w.step (.conn i .ok)).gains i (steps i n)) :
    w.gains i (steps i (n + 1)) := h

theorem gains_install (h : Waits w i id identity (.install .reconnect true true) x)
    (hx : x.status = .disconnected) : w.gains i (steps i 1) := by
  obtain ⟨c, hc, rfl, _, hpc, hidle⟩ := h.conn
  obtain ⟨hconn, _⟩ := World.step_conn hc .ok
  have hgives : w.manager.givesStream c.sessionId .reconnect true := by
    simp [Manager.givesStream, h.session, installGives, hx, status]
  have hrun : run World.step w (steps i 1) = w.step (.conn i .ok) := rfl
  rw [World.gains, hrun, hconn]
  simp [Conn.next, hidle, Conn.nextPc, hpc, hgives]

theorem gains_connect (h : Waits w i id identity (.connect .reconnect) x) (hx : x.status = .disconnected) :
    w.gains i (steps i 2) := by
  have hnext : Waits (w.step (.conn i .ok)) i id identity (.install .reconnect true true) _ := h.step (by
    intro c _ _ hpc
    simp [Conn.nextPc, Conn.followUps, hpc])
  exact gains_succ (hnext.gains_install hx)

theorem gains_look (h : Waits w i id identity (.look .reconnect) x) (hx : x.status = .disconnected)
    (hparams : x.deferredParams) : w.gains i (steps i 3) := by
  have hnext : Waits (w.step (.conn i .ok)) i id identity (.connect .reconnect) _ := h.step (by
    rintro c rfl _ hpc
    simp [Conn.nextPc, Conn.followUps, hpc, lookNext, h.session, hx, status, hparams])
  apply gains_succ
  apply hnext.gains_connect
  simp [Pc.operation, result, edit, lookEdit, hx, status]

theorem gains_take (h : Waits w i id identity (.look .take) x) (hx : x.status = .disconnected)
    (hparams : x.deferredParams) : w.gains i (steps i 4) := by
  have hnext : Waits (w.step (.conn i .ok)) i id identity (.look .reconnect) _ := h.step (by
    rintro c rfl _ hpc
    simp [Conn.nextPc, Conn.followUps, hpc, lookNext, h.session, hx, status, otherwise])
  have hsame : result w.config w.now (id ∈ w.manager.ownerConnected) (.look .take) x = x := by
    simp [result, edit, lookEdit, hx, status]
  simp only [Pc.operation, hsame] at hnext
  exact gains_succ (hnext.gains_look hx hparams)

theorem gains_authorize (h : Waits w i id (some owner) .authorize x)
    (hx : x.status = .disconnected) (hparams : x.deferredParams)
    (howner : sessionOwnedBy owner x.createdBy) : w.gains i (steps i 5) := by
  have hauthorized : ownerPathAuthorized (some owner) (w.manager.getSessionCreator id) := by
    simp only [Manager.getSessionCreator, h.session, map_some, ownerPathAuthorized, Bool.or_eq_true]
    exact .inr ((Bool.or_eq_true _ _).mp howner)
  have hnext : Waits (w.step (.conn i .ok)) i id (some owner) (.look .take) _ := h.step (by
    rintro c rfl hidentity hpc
    simp [Conn.nextPc, Conn.followUps, hpc, hidentity, hauthorized])
  exact gains_succ (hnext.gains_take hx hparams)

theorem gains_checkDisconnected (h : Waits w i id (some owner) .checkDisconnected x)
    (hx : x.status = .disconnected) (hparams : x.deferredParams)
    (howner : sessionOwnedBy owner x.createdBy) : w.gains i (steps i 6) := by
  have hnext : Waits (w.step (.conn i .ok)) i id (some owner) .authorize _ := h.step (by
    rintro c rfl _ hpc
    simp [Conn.nextPc, Conn.followUps, hpc, Manager.isSessionDisconnected, Manager.hasStatus, h.session, hx])
  exact gains_succ (hnext.gains_authorize hx hparams howner)

theorem gains_checkPending (h : Waits w i id (some owner) .checkPending x)
    (hx : x.status = .disconnected) (hparams : x.deferredParams)
    (howner : sessionOwnedBy owner x.createdBy) : w.gains i (steps i 7) := by
  have hnext : Waits (w.step (.conn i .ok)) i id (some owner) .checkDisconnected _ := h.step (by
    rintro c rfl _ hpc
    simp [Conn.nextPc, Conn.followUps, hpc, Manager.isSessionPending, Manager.hasStatus, h.session, hx])
  exact gains_succ (hnext.gains_checkDisconnected hx hparams howner)

end Waits

theorem gains_attempt {w : World} {id : Uuid} {x : Session} (hsession : w.manager.session id = some x)
    (hx : x.status = .disconnected) (hparams : x.deferredParams)
    (howner : sessionOwnedBy owner x.createdBy) : w.gains w.conns.length (w.attempt id owner) := by
  have hconn : (w.step (.request id (some owner) none)).conns[w.conns.length]? =
      some (Conn.new id (some owner) none) := by
    simp [step, nextConns]
  have hwaits : Waits (w.step (.request id (some owner) none)) w.conns.length id (some owner) .checkPending x :=
    ⟨⟨_, hconn, rfl, rfl, rfl, rfl⟩, hsession⟩
  have hstarted : (w.step (.request id (some owner) none)).gains w.conns.length (steps w.conns.length 7) :=
    hwaits.gains_checkPending hx hparams howner
  rw [gains, attempt, run_cons]
  exact hstarted

def Manager.moves (m : Manager) (cfg : Config) (now : Time) (id : Uuid) (op : Operation) : Bool :=
  (m.session id).any fun x => (op.result cfg now (id ∈ m.ownerConnected) x).status ≠ x.status

/-- The session that enters a status in a critical section. The end that the clean-up gives to a disconnected
session does not count: it belongs to the removal. -/
def Action.enters (cfg : Config) (now : Time) (m : Manager) : Action → Option Uuid
  | .createSession id _ => some id
  | .onSession id op => if op ≠ .finalize ∧ m.moves cfg now id op then some id else none
  | _ => none

structure Timed where
  world : World
  /-- When the session entered its status. -/
  since : Store Uuid Time
  /-- When the session became disconnected, until it is reconnected or its deletion is asked for. -/
  window : Store Uuid Time

def Timed.init (config : Config) (now : Time) : Timed := { world := World.init config now, since := ∅, window := ∅ }

variable (s : Timed)

def Timed.delay : Nat := s.world.config.sessionCleanupDelaySecs

def Timed.nextSince (a : Action) : Store Uuid Time :=
  match a.enters s.world.config s.world.now s.world.manager with
  | some id => s.since.insert id s.world.now
  | none => s.since

def Timed.nextWindow : Action → Store Uuid Time
  | .onSession id .disconnectSession =>
    if s.world.manager.moves s.world.config s.world.now id .disconnectSession then s.window.insert id s.world.now
    else s.window
  | .onSession id (.install path deferred connected) =>
    if s.world.manager.moves s.world.config s.world.now id (.install path deferred connected) then s.window.erase id
    else s.window
  | .onSession id .logout => s.window.erase id
  | _ => s.window

def Timed.step (s : Timed) (event : Event) : Timed :=
  { world := s.world.step event
    since := s.nextSince (s.world.action event)
    window := s.nextWindow (s.world.action event) }

theorem run_timed_world (s : Timed) (events : List Event) :
    (run Timed.step s events).world = run step s.world events := by
  induction events generalizing s with
  | nil => rfl
  | cons event events ih => exact ih (s.step event)

def Timed.isOpen (id : Uuid) : Bool := (s.window.lookup id).any fun t => s.world.now < t + s.delay

/-- A session is disconnected with the parameters of its connection. -/
def Action.keepsParams (m : Manager) : Action → Bool
  | .onSession id .disconnectSession => (m.session id).all fun x => x.status = .active → x.deferredParams
  | _ => true

/-- Critical sections that end or spoil a disconnected session: the teardown of a viewer, an attempt that has
failed, an attempt without parameters, and a reaper's `delete_session`. -/
def Action.spoils : Action → Option Uuid
  | .onSession id .completeSession => some id
  | .onSession id .errorSession => some id
  | .onSession id (.connectFailed .reconnect) => some id
  | .onSession id (.install .reconnect false _) => some id
  | .deleteSession id => some id
  | _ => none

/-- guacd does not answer this session's reconnect. -/
def World.fails (w : World) : Event → Option Uuid
  | .conn i .fail =>
    (w.conns[i]?).bind fun c => if c.pc = .connect .reconnect ∧ c.pending = [] then some c.sessionId else none
  | _ => none

def Job.scans : Job → Option (Time × Uuid)
  | .cleanupScan started (id :: _) _ _ => some (started, id)
  | _ => none

/-- A scan comes to a session whose age is past the delay, by the timestamp that the scan reads, although the
session has not been in its status for the delay. -/
def Timed.misjudges : Event → Bool
  | .task j =>
    (s.world.tasks[j]?).any fun t =>
      t.pending = [] && t.job.scans.any fun (started, id) =>
        t.job.scanPicks s.world.config s.world.manager id &&
          (s.since.lookup id).any fun u => started < u + s.delay
  | _ => false

/-- Sessions are disconnected with their parameters and are left alone while their window is open, a session that a
clean-up has picked enters no other status, and no scan misjudges a session. -/
def keepsWindows (event : Event) : Prop :=
  ((s.world.action event).keepsParams s.world.manager &&
    (s.world.action event).spoils.all (fun id => !s.isOpen id) &&
    (s.world.fails event).all (fun id => !s.isOpen id) &&
    ((s.world.action event).enters s.world.config s.world.now s.world.manager).all (fun id => !s.world.picked id) &&
    !s.misjudges event) = true

instance (s : Timed) (event : Event) : Decidable (keepsWindows s event) := inferInstanceAs (Decidable (_ = true))

variable {w : World} {event : Event} {id : Uuid} {x : Session} {s}

theorem removeSessions_session_ne {ids : List Uuid} (h : id ∉ ids) :
    (m.removeSessions ids).session id = m.session id := by
  induction ids generalizing m with
  | nil => rfl
  | cons k ids ih =>
    obtain ⟨hk, hids⟩ := not_or.mp (mem_cons.not.mp h)
    have htail : ((m.removeSession k).removeSessions ids).session id = (m.removeSession k).session id := ih hids
    exact htail.trans (lookup_erase_ne hk)

theorem perform_session_ne
    (hsession : ∀ op, a ≠ .onSession id op) (hcreate : ∀ x, a ≠ .createSession id x) (hdelete : a ≠ .deleteSession id)
    (hremove : ∀ ids, a = .removeSessions ids → id ∉ ids) : (m.perform cfg now a).session id = m.session id := by
  cases a with
  | skip => rfl
  | onSession k op =>
    have hne : id ≠ k := fun heq => hsession op (by rw [heq])
    exact edit_session_ne hne
  | createSession k x =>
    have hne : id ≠ k := fun heq => hcreate x (by rw [heq])
    simp only [Manager.perform, Manager.createSession]
    split
    · rfl
    · exact lookup_insert_ne hne
  | deleteSession k =>
    have hne : id ≠ k := fun heq => hdelete (by rw [heq])
    simp only [Manager.perform, Manager.deleteSession]
    split
    · rfl
    · exact lookup_erase_ne hne
  | removeSessions ids => exact removeSessions_session_ne (hremove ids rfl)
  | followUp f => rw [Manager.perform, Manager.session, followUp_sessions, Manager.session]

theorem result_disconnected (cfg : Config) (now : Time) (connected : Bool)
    (hx : x.status = .disconnected) (hspoils : Action.spoils (.onSession id op) = none) (hlogout : op ≠ .logout)
    (hfinalize : op ≠ .finalize)
    (hinstall : ∀ path d c, op = .install path d c → (op.result cfg now connected x).status = x.status) :
    (op.result cfg now connected x).status = .disconnected ∧ (op ≠ .look .reconnect → x.deferredParams →
        (op.result cfg now connected x).deferredParams) := by
  cases op with
  | look path => cases path <;> simp [result, edit, lookEdit, hx, status]
  | connectFailed path =>
    cases path with
    | take => simp [result, edit, connectFailedEdit, hx, status]
    | reconnect => cases hspoils
  | install path d c =>
    have hsame := hinstall path d c rfl
    rw [hx] at hsame
    refine ⟨hsame, fun _ hparams => ?_⟩
    cases path with
    | take => simpa [result, edit, installEdit, hx, status] using hparams
    | reconnect =>
      cases d with
      | false => cases hspoils
      | true =>
        by_cases hstream : (x.guacdStream || c)
        · simp [result, edit, installEdit, hx, status, hstream]
        · simp [result, edit, installEdit, hx, status, hstream]
  | reserveViewerSlot => simp [result, edit, reserveEdit, hx, Except.toOption]
  | disconnectViewer => simp [result, edit, leaveEdit, hx]
  | updateActivity => simp [result, edit, touchEdit, hx]
  | mintShadowToken token => simp [result, edit, mintEdit, hx]
  | completeSession | errorSession => cases hspoils
  | disconnectSession => simp [result, edit, disconnectEdit, hx]
  | logout => exact absurd rfl hlogout
  | pendingTimeout => simp [result, edit, pendingTimeoutEdit, hx]
  | finalize => exact absurd rfl hfinalize

theorem picked_of_getElem {t : Task} (ht : w.tasks[j]? = some t) (hid : id ∈ t.job.picks) : w.picked id :=
  any_eq_true.mpr ⟨t, mem_of_getElem? ht, decide_eq_true hid⟩

theorem action_onSession (h : w.action event = .onSession id op) :
    (∃ i input c, event = .conn i input ∧ w.conns[i]? = some c ∧ c.pending = [] ∧ c.sessionId = id ∧
        c.pc.operation input = some op) ∨
      (∃ token, op = .mintShadowToken token) ∨
      ∃ j t, event = .task j ∧ w.tasks[j]? = some t ∧ t.pending = [] ∧ t.job.action w.now = .onSession id op := by
  cases event with
  | mintShadow k token =>
    obtain ⟨_, rfl⟩ := Action.onSession.inj h
    exact .inr (.inl ⟨token, rfl⟩)
  | conn i input =>
    simp only [action] at h
    split at h
    · rename_i c hc
      rw [Conn.action] at h
      split at h
      · cases h
      · rename_i hpending
        split at h
        · rename_i op' hop
          cases h
          exact .inl ⟨i, input, c, rfl, hc, hpending, rfl, hop⟩
        · cases h
    · cases h
  | task j =>
    simp only [action] at h
    split at h
    · rename_i t ht
      rw [Task.action] at h
      split at h
      · cases h
      · rename_i hpending
        exact .inr (.inr ⟨j, t, rfl, ht, hpending, h⟩)
    · cases h
  | _ => cases h

theorem picked_of_finalize (h : w.action event = .onSession id .finalize) : w.picked id := by
  rcases action_onSession h with ⟨i, input, c, _, _, _, _, hop⟩ | ⟨token, hop⟩ | ⟨j, t, _, ht, _, haction⟩
  · revert hop
    fun_cases Pc.operation c.pc input <;> simp
  · cases hop
  · refine picked_of_getElem ht ?_
    revert haction
    fun_cases Job.action w.now t.job with
    | case5 toRemove k toFinalize =>
      intro haction
      obtain ⟨rfl, _⟩ := Action.onSession.inj haction
      simp [Job.picks]
    | _ => simp

theorem picked_of_removeSessions {ids : List Uuid} (h : w.action event = .removeSessions ids) (hid : id ∈ ids) :
    w.picked id := by
  cases event with
  | task j =>
    simp only [action] at h
    split at h
    · rename_i t ht
      exact picked_of_getElem ht (Task.removes_picks h id hid)
    · cases h
  | conn i input =>
    simp only [action, Conn.action] at h
    split at h
    · split at h
      · cases h
      · split at h <;> cases h
    · cases h
  | _ => cases h

/-- A connection has taken the parameters of the session and guacd has not refused it. -/
def World.Holds (w : World) (id : Uuid) : Prop :=
  ∃ (i : Nat) (c : Conn), w.conns[i]? = some c ∧ c.sessionId = id ∧ c.pending = [] ∧ c.pc.reconnects = true

structure WindowsKept (s : Timed) : Prop where
  fresh : s.world.Fresh
  known : ∀ id, s.world.picked id = true → id < s.world.nextId
  entered : ∀ id x, s.world.manager.session id = some x → ∃ u, s.since.lookup id = some u
  scanned : ∀ (j : Nat) (t : Task) (started : Time) (id : Uuid), s.world.tasks[j]? = some t →
    t.job.scans = some (started, id) → started ≤ s.world.now
  /-- What a clean-up has picked has been in its status for the delay. -/
  due : ∀ id x u, s.world.picked id = true → s.world.manager.session id = some x → s.since.lookup id = some u →
    u + s.delay ≤ s.world.now
  /-- A session in its window is disconnected, and has its parameters or is being reconnected with them. -/
  opened : ∀ id t, s.window.lookup id = some t → s.world.now < t + s.delay →
    ∃ x, s.world.manager.session id = some x ∧ x.status = .disconnected ∧ s.since.lookup id = some t ∧
      (x.deferredParams = true ∨ s.world.Holds id)

theorem WindowsKept.init (config : Config) (now : Time) : WindowsKept (Timed.init config now) where
  fresh := World.Fresh.init config now
  known id hpicked := by simp [Timed.init, World.init, World.picked] at hpicked
  entered id x hx := by simp [Timed.init, World.init, Manager.empty, Manager.session] at hx
  scanned j t started id ht := by simp [Timed.init, World.init] at ht
  due id x u hpicked := by simp [Timed.init, World.init, World.picked] at hpicked
  opened id t ht := by simp [Timed.init] at ht

/-! ### One step -/

theorem World.now_le_step (w : World) (event : Event) : w.now ≤ (w.step event).now := by
  simp only [step]
  split
  · exact Nat.le_succ w.now
  · exact le_rfl

theorem picked_of_step (h : (w.step event).picked id) :
    w.picked id ∨ ∃ j t, event = .task j ∧ w.tasks[j]? = some t ∧ t.pending = [] ∧
      t.job.scanPicks w.config w.manager id := by
  obtain ⟨t', hmem, hid⟩ := any_eq_true.mp h
  obtain ⟨j, ht'⟩ := getElem?_of_mem hmem
  rcases getElem_nextTasks ht' with ⟨hold, _⟩ | ⟨job, hjob, rfl⟩ | ⟨t, rfl, ht, rfl⟩
  · exact .inl (picked_of_getElem hold (of_decide_eq_true hid))
  · simp [(spawns_picks hjob).1] at hid
  · rcases Task.next_picks (of_decide_eq_true hid) with hpicks | ⟨hpending, hscan⟩
    · exact .inl (picked_of_getElem ht hpicks)
    · exact .inr ⟨j, t, rfl, ht, hpending, hscan⟩

theorem action_of_scanPicks {t : Task} (ht : w.tasks[j]? = some t)
    (hpending : t.pending = []) (hscan : t.job.scanPicks w.config w.manager id) :
    w.action (.task j) = .skip := by
  simp only [action, ht, Task.action, hpending]
  revert hscan
  fun_cases Job.scanPicks w.config w.manager id t.job with
  | case1 => intro _; rfl
  | case2 => simp

theorem Job.scans_of_scanPicks (h : job.scanPicks cfg m id) : ∃ started, job.scans = some (started, id) := by
  revert h
  fun_cases Job.scanPicks cfg m id job with
  | case1 started k todo toRemove toFinalize =>
    intro h
    obtain rfl := of_decide_eq_true ((Bool.and_eq_true _ _).mp h).1
    exact ⟨started, rfl⟩
  | case2 =>
    intro h
    cases h

theorem Job.started_of_scans {started' : Time} {todo toRemove toFinalize : List Uuid}
    (h : (Job.cleanupScan started' todo toRemove toFinalize).scans = some (started, id)) : started' = started := by
  cases todo with
  | nil => cases h
  | cons k todo => exact (Prod.mk.inj (some.inj h)).1

theorem Job.scans_of_next
    (h : (job.next cfg now m).scans = some (started, id)) : ∃ k, job.scans = some (started, k) := by
  revert h
  fun_cases Job.next cfg now m job with
  | case8 started' k todo toRemove toFinalize | case9 started' k todo toRemove toFinalize
  | case10 started' k todo toRemove toFinalize =>
    intro h
    obtain rfl := Job.started_of_scans h
    exact ⟨k, rfl⟩
  | _ =>
    intro h
    cases h

theorem World.scans_of_spawns
    (h : w.spawns event = some job) (hscans : job.scans = some (started, id)) : started = w.now := by
  cases event with
  | create createdBy shareToken deferred =>
    obtain ⟨_, hjob⟩ := ite_none_right_eq_some.mp h
    cases hjob
    cases hscans
  | cleanup =>
    cases h
    exact (Job.started_of_scans hscans).symm
  | logout k | reap reaper =>
    cases h
    cases hscans
  | _ => cases h

theorem keepsWindows_iff : keepsWindows s event ↔ (s.world.action event).keepsParams s.world.manager ∧
      (∀ id, (s.world.action event).spoils = some id → s.isOpen id = false) ∧
      (∀ id, s.world.fails event = some id → s.isOpen id = false) ∧
      (∀ id, (s.world.action event).enters s.world.config s.world.now s.world.manager = some id →
        s.world.picked id = false) ∧
      s.misjudges event = false := by
  simp only [keepsWindows, Bool.and_eq_true, Option.all_eq_true, Bool.not_eq_true', and_assoc]

theorem nextSince_lookup_ne
    (h : a.enters s.world.config s.world.now s.world.manager ≠ some id) :
    (s.nextSince a).lookup id = s.since.lookup id := by
  rw [Timed.nextSince]
  split
  · rename_i k hk
    refine lookup_insert_ne fun heq => h ?_
    rw [heq, hk]
  · rfl

theorem nextSince_lookup_self
    (h : a.enters s.world.config s.world.now s.world.manager = some id) :
    (s.nextSince a).lookup id = some s.world.now := by
  simp only [Timed.nextSince, h]
  exact lookup_insert s.since

theorem session_of_step (hid : id ≠ w.nextId)
    (h : (w.step event).manager.session id = some x') : ∃ x, w.manager.session id = some x := by
  rcases step_session h with ⟨_, _, _, _, hnext⟩ | ⟨x, hx, _⟩
  · exact absurd hnext hid
  · exact ⟨x, hx⟩

theorem World.step_conn_ne {i : Nat} {c : Conn} (hc : w.conns[i]? = some c)
    (hevent : ∀ input, event ≠ .conn i input) : (w.step event).conns[i]? = some c := by
  cases event with
  | request id identity token =>
    simp only [step, nextConns]
    rw [List.getElem?_append_left (List.getElem?_eq_some_iff.mp hc).1]
    exact hc
  | conn k input =>
    have hne : k ≠ i := fun heq => hevent input (by rw [heq])
    simp only [step, nextConns]
    split
    · rw [List.getElem?_set_ne hne]
      exact hc
    · exact hc
  | _ => exact hc

theorem nextWindow_lookup (h : (s.nextWindow a).lookup id = some t) : (a = .onSession id .disconnectSession ∧
        s.world.manager.moves s.world.config s.world.now id .disconnectSession ∧ t = s.world.now) ∨
      (s.window.lookup id = some t ∧ a ≠ .onSession id .logout ∧ ∀ path d c, a = .onSession id (.install path d c) →
          s.world.manager.moves s.world.config s.world.now id (.install path d c) = false) := by
  have herase : ∀ k, (s.window.erase k).lookup id = some t → id ≠ k ∧ s.window.lookup id = some t := by
    intro k hk
    by_cases heq : id = k
    · rw [heq, lookup_erase] at hk
      cases hk
    · rw [lookup_erase_ne heq] at hk
      exact ⟨heq, hk⟩
  revert h
  fun_cases Timed.nextWindow s a with
  | case1 k hmoves =>
    intro h
    by_cases hid : id = k
    · subst hid
      rw [lookup_insert] at h
      exact .inl ⟨rfl, hmoves, (some.inj h).symm⟩
    · rw [lookup_insert_ne hid] at h
      exact .inr ⟨h, by simp, by simp⟩
  | case2 k hmoves =>
    intro h
    exact .inr ⟨h, by simp, by simp⟩
  | case3 k path deferred connected hmoves =>
    intro h
    obtain ⟨hne, hold⟩ := herase k h
    exact .inr ⟨hold, by simp, by simp [hne.symm]⟩
  | case4 k path deferred connected hmoves =>
    intro h
    refine .inr ⟨h, by simp, ?_⟩
    intro path' d c heq
    obtain ⟨rfl, hop⟩ := Action.onSession.inj heq
    rw [← hop]
    exact Bool.not_eq_true _ ▸ hmoves
  | case5 k =>
    intro h
    obtain ⟨hne, hold⟩ := herase k h
    exact .inr ⟨hold, by simp [hne.symm], by simp⟩
  | case6 a hdisconnect hinstall hlogout =>
    intro h
    exact .inr ⟨h, hlogout id, fun path d c heq => absurd heq (hinstall id path d c)⟩

theorem step_onSession
    (haction : w.action event = .onSession id op) (hx : w.manager.session id = some x) :
    (w.step event).manager.session id = some (op.result w.config w.now (id ∈ w.manager.ownerConnected) x) := by
  show (w.manager.perform w.config w.now (w.action event)).session id = _
  rw [haction]
  exact perform_onSession hx

theorem spoils_onSession {k : Uuid} (h : Action.spoils (.onSession id op) = some k) : k = id := by
  cases op with
  | connectFailed path =>
    cases path with
    | take => cases h
    | reconnect => exact (some.inj h).symm
  | install path d c =>
    cases path with
    | take => cases h
    | reconnect =>
      cases d with
      | true => cases h
      | false => exact (some.inj h).symm
  | completeSession | errorSession => exact (some.inj h).symm
  | _ => cases h

theorem enters_cases
    (h : a.enters cfg now m = some id) : (∃ x, a = .createSession id x) ∨ ∃ op, a = .onSession id op := by
  cases a with
  | createSession k x =>
    cases h
    exact .inl ⟨x, rfl⟩
  | onSession k op =>
    obtain ⟨_, hk⟩ := ite_none_right_eq_some.mp h
    cases hk
    exact .inr ⟨op, rfl⟩
  | _ => cases h

theorem opened_of_disconnect (hguard : keepsWindows s event)
    (haction : s.world.action event = .onSession id .disconnectSession)
    (hmoves : s.world.manager.moves s.world.config s.world.now id .disconnectSession) :
    ∃ x', (s.world.step event).manager.session id = some x' ∧ x'.status = .disconnected ∧
      (s.step event).since.lookup id = some s.world.now ∧ x'.deferredParams := by
  obtain ⟨hparams, _⟩ := keepsWindows_iff.mp hguard
  cases hx : s.world.manager.session id with
  | none => simp [Manager.moves, hx] at hmoves
  | some x =>
    have hactive : x.status = .active := by
      by_contra hnot
      simp [Manager.moves, hx, result, edit, disconnectEdit, hnot] at hmoves
    rw [haction] at hparams
    have hhas : x.deferredParams := by simpa [Action.keepsParams, hx, hactive] using hparams
    refine ⟨_, step_onSession haction hx, ?_, ?_, ?_⟩
    · simp [result, edit, disconnectEdit, hactive]
    · refine nextSince_lookup_self ?_
      simp [haction, Action.enters, hmoves]
    · simp [result, edit, disconnectEdit, hactive, hhas]

theorem World.Holds.step (h : w.Holds id)
    (hx : w.manager.session id = some x) (hstatus : x.status = .disconnected) (hfails : w.fails event ≠ some id)
    (hinstall : ∀ path d c, w.action event = .onSession id (.install path d c) →
      w.manager.moves w.config w.now id (.install path d c) = false) : (w.step event).Holds id := by
  obtain ⟨i, c, hc, rfl, hpending, hpc⟩ := h
  by_cases hevent : ∃ input, event = .conn i input
  · obtain ⟨input, rfl⟩ := hevent
    obtain ⟨hconn, _⟩ := step_conn hc input
    refine ⟨i, _, hconn, ?_⟩
    rcases of_decide_eq_true hpc with hpc | hpc
    · cases input with
      | fail => simp [fails, hc, hpc, hpending] at hfails
      | _ => simp [Conn.next, hpending, Conn.nextPc, Conn.followUps, hpc, Pc.reconnects]
    · -- the attempt gets the stream
      have hmoves := hinstall .reconnect true true
        (by simp [action, hc, Conn.action, hpending, Pc.operation, hpc])
      simp [Manager.moves, hx, result, edit, installEdit, hstatus, status] at hmoves
  · exact ⟨i, c, step_conn_ne hc fun input heq => hevent ⟨input, heq⟩, rfl, hpending, hpc⟩

theorem holds_of_look
    (haction : w.action event = .onSession id (.look .reconnect)) (hx : w.manager.session id = some x)
    (hstatus : x.status = .disconnected) (hparams : x.deferredParams) : (w.step event).Holds id := by
  rcases action_onSession haction with
    ⟨i, input, c, rfl, hc, hpending, rfl, hop⟩ | ⟨token, hop⟩ | ⟨j, t, _, _, _, hjob⟩
  · have hpc : c.pc = .look .reconnect := by
      revert hop
      fun_cases Pc.operation c.pc input <;> simp_all
    obtain ⟨hconn, _⟩ := step_conn hc input
    refine ⟨i, _, hconn, ?_⟩
    simp [Conn.next, hpending, Conn.nextPc, Conn.followUps, hpc, lookNext, hx, hstatus, status, hparams,
      Pc.reconnects]
  · cases hop
  · revert hjob
    fun_cases Job.action w.now t.job <;> simp

namespace WindowsKept

section

variable (h : WindowsKept s)

include h

theorem known_step (hpicked : (s.world.step event).picked id) : id < s.world.nextId := by
  rcases picked_of_step hpicked with hbefore | ⟨j, t, _, _, _, hscan⟩
  · exact h.known id hbefore
  · obtain ⟨x, hx, _⟩ := not_live_of_scanPicks hscan
    exact h.fresh id x hx

theorem entered_step
    (hx' : (s.world.step event).manager.session id = some x') : ∃ u, (s.step event).since.lookup id = some u := by
  by_cases henters : (s.world.action event).enters s.world.config s.world.now s.world.manager = some id
  · exact ⟨s.world.now, nextSince_lookup_self henters⟩
  · have hold : ∃ x, s.world.manager.session id = some x := by
      rcases perform_session hx' with hcreate | hsame | ⟨op, x, e, _, hx, _, _⟩
      · rw [hcreate] at henters
        exact absurd rfl henters
      · exact ⟨x', hsame⟩
      · exact ⟨x, hx⟩
    obtain ⟨x, hx⟩ := hold
    obtain ⟨u, hu⟩ := h.entered id x hx
    exact ⟨u, (nextSince_lookup_ne henters).trans hu⟩

theorem scanned_step {t' : Task}
    (ht' : (s.world.step event).tasks[j]? = some t') (hscans : t'.job.scans = some (started, id)) :
    started ≤ (s.world.step event).now := by
  have hmono := s.world.now_le_step event
  rcases getElem_nextTasks ht' with ⟨hold, _⟩ | ⟨job, hjob, rfl⟩ | ⟨t, _, ht, rfl⟩
  · exact le_trans (h.scanned j t' started id hold hscans) hmono
  · rw [scans_of_spawns hjob hscans]
    exact hmono
  · have hbefore : ∃ k, t.job.scans = some (started, k) := by
      rw [Task.next] at hscans
      split at hscans
      · exact ⟨id, hscans⟩
      · exact Job.scans_of_next hscans
    obtain ⟨k, hk⟩ := hbefore
    exact le_trans (h.scanned j t started k ht hk) hmono

theorem due_step (hguard : keepsWindows s event) {u : Time}
    (hpicked : (s.world.step event).picked id) (hx' : (s.world.step event).manager.session id = some x')
    (hu : (s.step event).since.lookup id = some u) : u + s.delay ≤ (s.world.step event).now := by
  obtain ⟨_, _, _, hunpicked, hjudges⟩ := keepsWindows_iff.mp hguard
  have hmono := s.world.now_le_step event
  obtain ⟨x, hx⟩ := session_of_step (Nat.ne_of_lt (h.known_step hpicked)) hx'
  rcases picked_of_step hpicked with hbefore | ⟨j, t, rfl, ht, hpending, hscan⟩
  · have hsame : (s.step event).since.lookup id = s.since.lookup id := nextSince_lookup_ne fun henters => by
      rw [hunpicked id henters] at hbefore
      cases hbefore
    exact le_trans (h.due id x u hbefore hx (hsame.symm.trans hu)) hmono
  · have hsame : (s.step (.task j)).since.lookup id = s.since.lookup id := nextSince_lookup_ne (by
      rw [action_of_scanPicks ht hpending hscan]
      simp [Action.enters])
    obtain ⟨started, hscans⟩ := Job.scans_of_scanPicks hscan
    have hlate : ¬started < u + s.delay := by
      intro hearly
      simp [Timed.misjudges, ht, hpending, hscans, hscan, hsame.symm.trans hu, hearly] at hjudges
    exact le_trans (le_trans (not_lt.mp hlate) (h.scanned j t started id ht hscans)) hmono

theorem not_picked
    (hx : s.world.manager.session id = some x) (hsince : s.since.lookup id = some t)
    (hnow : s.world.now < t + s.delay) : s.world.picked id = false := by
  rw [← Bool.not_eq_true]
  intro hpicked
  exact absurd (h.due id x t hpicked hx hsince) (not_le.mpr hnow)

theorem stays_disconnected (hguard : keepsWindows s event)
    (hx : s.world.manager.session id = some x) (hstatus : x.status = .disconnected)
    (hsince : s.since.lookup id = some t) (hnow : s.world.now < t + s.delay) (hopen : s.isOpen id)
    (hlogout : s.world.action event ≠ .onSession id .logout)
    (hinstall : ∀ path d c, s.world.action event = .onSession id (.install path d c) →
      s.world.manager.moves s.world.config s.world.now id (.install path d c) = false) :
    ∃ x', (s.world.step event).manager.session id = some x' ∧ x'.status = .disconnected ∧
      (s.step event).since.lookup id = some t ∧
      (s.world.action event ≠ .onSession id (.look .reconnect) → x.deferredParams →
        x'.deferredParams) := by
  obtain ⟨_, hspoils, _, _, _⟩ := keepsWindows_iff.mp hguard
  have hunpicked := h.not_picked hx hsince hnow
  by_cases hop : ∃ op, s.world.action event = .onSession id op
  · obtain ⟨op, hop⟩ := hop
    have hspoil : Action.spoils (.onSession id op) = none := by
      rw [eq_none_iff_forall_ne_some]
      intro k hk
      obtain rfl := spoils_onSession hk
      rw [hspoils _ (by rw [hop]; exact hk)] at hopen
      cases hopen
    obtain ⟨hstays, hparams⟩ := result_disconnected s.world.config s.world.now
      (id ∈ s.world.manager.ownerConnected) hstatus hspoil (fun heq => hlogout (heq ▸ hop))
      (fun heq => by
        rw [picked_of_finalize (heq ▸ hop)] at hunpicked
        cases hunpicked)
      (fun path d c heq => by
        have hstill := hinstall path d c (heq ▸ hop)
        simpa [Manager.moves, hx, heq] using hstill)
    refine ⟨_, step_onSession hop hx, hstays, ?_, fun hne => hparams fun heq => hne (heq ▸ hop)⟩
    refine (nextSince_lookup_ne ?_).trans hsince
    have hmoves : s.world.manager.moves s.world.config s.world.now id op = false := by
      simp [Manager.moves, hx, hstays, hstatus]
    simp [hop, Action.enters, hmoves]
  · have hcreate : ∀ x, s.world.action event ≠ .createSession id x := by
      intro x₀ haction
      obtain ⟨_, _, _, _, rfl, _⟩ := action_create haction
      rw [h.fresh.session_nextId] at hx
      cases hx
    have hsame : (s.world.step event).manager.session id = s.world.manager.session id := by
      refine perform_session_ne (fun op hop' => hop ⟨op, hop'⟩) hcreate (fun hdelete => ?_) fun ids hremove hid => ?_
      · rw [hspoils id (by rw [hdelete]; rfl)] at hopen
        cases hopen
      · rw [picked_of_removeSessions hremove hid] at hunpicked
        cases hunpicked
    refine ⟨x, hsame.trans hx, hstatus, (nextSince_lookup_ne fun henters => ?_).trans hsince,
      fun _ hparams => hparams⟩
    rcases enters_cases henters with ⟨x₀, haction⟩ | ⟨op, haction⟩
    · exact hcreate x₀ haction
    · exact hop ⟨op, haction⟩

theorem opened_step (hguard : keepsWindows s event)
    (ht : (s.step event).window.lookup id = some t) (hnow' : (s.world.step event).now < t + s.delay) :
    ∃ x', (s.world.step event).manager.session id = some x' ∧ x'.status = .disconnected ∧
      (s.step event).since.lookup id = some t ∧ (x'.deferredParams ∨ (s.world.step event).Holds id) := by
  obtain ⟨_, _, hfails, _, _⟩ := keepsWindows_iff.mp hguard
  rcases nextWindow_lookup ht with ⟨haction, hmoves, rfl⟩ | ⟨hold, hlogout, hinstall⟩
  · obtain ⟨x', hx', hstatus, hsince, hparams⟩ := opened_of_disconnect hguard haction hmoves
    exact ⟨x', hx', hstatus, hsince, .inl hparams⟩
  · have hnow : s.world.now < t + s.delay := lt_of_le_of_lt (s.world.now_le_step event) hnow'
    have hopen : s.isOpen id := by simp [Timed.isOpen, hold, hnow]
    obtain ⟨x, hx, hstatus, hsince, hhas⟩ := h.opened id t hold hnow
    obtain ⟨x', hx', hstatus', hsince', hkeeps⟩ :=
      h.stays_disconnected hguard hx hstatus hsince hnow hopen hlogout hinstall
    refine ⟨x', hx', hstatus', hsince', ?_⟩
    rcases hhas with hparams | hholds
    · by_cases hlook : s.world.action event = .onSession id (.look .reconnect)
      · exact .inr (holds_of_look hlook hx hstatus hparams)
      · exact .inl (hkeeps hlook hparams)
    · refine .inr (hholds.step hx hstatus (fun hfail => ?_) hinstall)
      rw [hfails id hfail] at hopen
      cases hopen

/-- **One step.** -/
theorem step (event : Event) (hguard : keepsWindows s event) : WindowsKept (s.step event) where
  fresh := h.fresh.step event
  known _ hpicked := Nat.lt_of_lt_of_le (h.known_step hpicked) (s.world.nextId_le_step event)
  entered _ _ hx := h.entered_step hx
  scanned _ _ _ _ ht hscans := h.scanned_step ht hscans
  due _ _ _ hpicked hx hu := h.due_step hguard hpicked hx hu
  opened _ _ ht hnow := h.opened_step hguard ht hnow

theorem reconnectable (ht : s.window.lookup id = some t)
    (hnow : s.world.now < t + s.delay) : s.world.Reconnectable id := by
  obtain ⟨x, hx, hstatus, _, hhas⟩ := h.opened id t ht hnow
  refine ⟨x, hx, ?_⟩
  rcases hhas with hparams | ⟨i, c, hc, hid, hpending, hpc⟩
  · exact .inl fun owner howner => gains_attempt hx hstatus hparams howner
  · refine .inr ⟨i, c, ?_⟩
    rcases of_decide_eq_true hpc with hat | hat
    · have hwaits : Waits s.world i id c.identity (.connect .reconnect) x := ⟨⟨c, hc, hid, rfl, hat, hpending⟩, hx⟩
      exact ⟨2, hc, hid, hpc, hwaits.gains_connect hstatus⟩
    · have hwaits : Waits s.world i id c.identity (.install .reconnect true true) x :=
        ⟨⟨c, hc, hid, rfl, hat, hpending⟩, hx⟩
      exact ⟨1, hc, hid, hpc, hwaits.gains_install hstatus⟩

end

end WindowsKept

theorem run_config (w : World) (events : List Event) : (run step w events).config = w.config := by
  induction events generalizing w with
  | nil => rfl
  | cons event events ih => exact ih (w.step event)

def leftSession (deferred : Bool) : List Event :=
  [Event.create "alice@example.com" "share" deferred, .request 0 (some alice) none] ++ steps 0 7 ++
    ends 0 .browserEnded false

def leftAndCleanedUp : List Event := leftSession true ++ [Event.tick, .tick, .cleanup, .task 1, .task 1, .task 1]

theorem not_reconnectable
    (howner : (w.manager.session id).all (fun x => sessionOwnedBy owner x.createdBy))
    (hattempt : w.gains w.conns.length (w.attempt id owner) = false)
    (hconns : ∀ c ∈ w.conns, c.pc.reconnects = false) : ¬w.Reconnectable id := by
  rintro ⟨x, hx, hgains | ⟨i, c, n, hc, _, hpc, _⟩⟩
  · rw [hx] at howner
    rw [hgains owner howner] at hattempt
    cases hattempt
  · rw [hconns c (mem_of_getElem? hc)] at hpc
    cases hpc

/-- The session ends on its server six seconds after its creation, and a clean-up runs at once. -/
def endedAndCleanedUp : List Event :=
  [Event.create "alice@example.com" "share" false, .request 0 (some alice) none] ++ steps 0 5 ++
    replicate 6 .tick ++ ends 0 .guacdEnded true ++ [Event.cleanup, .task 1, .task 1]

end Persea.Sessions
