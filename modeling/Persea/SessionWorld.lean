import Persea.SessionManager
import Persea.BaseTransition

/-! The tasks that share the session manager: connections, logouts, timeouts and reapers. A task runs one critical
section at a time. The program counter of a connection follows `ws_handler` and `handle_ws`. -/

namespace Persea.Sessions

open Base Auth

/-! ### Connections -/

inductive ConnectionKind where
  | owner
  | viewer
  | shadow
deriving DecidableEq, Repr

inductive ProxyResult where
  | guacdEnded
  | browserEnded
  | cancelled
deriving DecidableEq, Repr

structure ProxyOutcome where
  result : ProxyResult
  serverDisconnected : Bool
  elapsed : Nat
deriving DecidableEq, Repr

def ProxyOutcome.markError (o : ProxyOutcome) : Bool := o.result = .guacdEnded ∧ o.elapsed < 5

inductive Closed where
  | forbidden
  | noToken
  | tokenRejected
  | joinFailed (e : SessionError)
  | guacdConnection
  | ended (status : String)
deriving DecidableEq, Repr

def Closed.message : Closed → Option String
  | .forbidden => some "only the session owner or an administrator may connect to a pending or disconnected session"
  | .joinFailed (.viewerLimit viewers max) =>
    some ("share viewer limit reached: " ++ toString viewers ++ " of " ++ toString max ++
      " viewers already connected")
  | _ => none

/-- Where a connection is. Each value before `closed` stands for the critical section that comes next, or
for waiting on guacd (`connect`, `join`) or on the proxy loop (`proxy`). -/
inductive Pc where
  | checkPending
  | checkDisconnected
  | authorize
  | look (path : OwnerPath)
  | connect (path : OwnerPath)
  | connectFailed (path : OwnerPath)
  | install (path : OwnerPath) (deferred connected : Bool)
  | validate
  | reserve (readOnly : Bool)
  | readInfo (readOnly : Bool)
  | join (readOnly : Bool)
  | joinFailed
  | proxy (kind : ConnectionKind) (start : Time)
  | leave (kind : ConnectionKind) (outcome : ProxyOutcome)
  | settle (kind : ConnectionKind) (outcome : ProxyOutcome)
  | settleDisconnect (kind : ConnectionKind)
  | closed (reason : Closed)
deriving DecidableEq, Repr

inductive Input where
  | ok
  | fail
  | activity
  | proxyEnds (result : ProxyResult) (serverDisconnected : Bool)
deriving DecidableEq, Repr

structure Conn where
  sessionId : Uuid
  identity : Option AuthIdentity
  token : Option String
  /-- `owner_path_authorized` has accepted the identity for the session. -/
  authorized : Bool
  pc : Pc
  /-- Follow-ups that come before the next critical section. -/
  pending : List FollowUp
deriving DecidableEq, Repr

def Conn.new (sessionId : Uuid) (identity : Option AuthIdentity) (token : Option String) : Conn :=
  { sessionId, identity, token, authorized := false, pc := .checkPending, pending := [] }

def Pc.operation : Pc → Input → Option Operation
  | .look path, _ => some (.look path)
  | .connectFailed path, _ => some (.connectFailed path)
  | .install path deferred connected, _ => some (.install path deferred connected)
  | .reserve _, _ => some .reserveViewerSlot
  | .joinFailed, _ => some .disconnectViewer
  | .proxy _ _, .activity => some .updateActivity
  | .leave _ _, _ => some .disconnectViewer
  | .settle _ outcome, _ =>
    if outcome.markError then some .errorSession
    else if outcome.serverDisconnected then some .completeSession
    else none
  | .settleDisconnect _, _ => some .disconnectSession
  | _, _ => none

def Conn.action (c : Conn) (input : Input) : Action :=
  match c.pending with
  | f :: _ => .followUp f
  | [] =>
    match c.pc.operation input with
    | some op => .onSession c.sessionId op
    | none => .skip

/-- Where `handle_ws` goes when the path has returned `None`. -/
def OwnerPath.otherwise : OwnerPath → Pc
  | .take => .look .reconnect
  | .reconnect => .validate

variable (m : Manager)

def Manager.givesStream (id : Uuid) (path : OwnerPath) (connected : Bool) : Bool :=
  (m.session id).any (installGives path connected)

def lookNext (id : Uuid) (path : OwnerPath) : Pc :=
  match m.session id with
  | none => path.otherwise
  | some s =>
    if s.status ≠ path.status then path.otherwise
    else if s.deferredParams then .connect path
    else .install path false false

/-- The share token decides whether the connection joins, and as what. -/
def validateNext (now : Time) (c : Conn) : Pc :=
  match c.token with
  | none => .closed .noToken
  | some token =>
    match m.validateShareToken c.sessionId token now with
    | .invalid => .closed .tokenRejected
    | .owner => .reserve false
    | .shadow => .reserve true

def settleNext (id : Uuid) (kind : ConnectionKind) (outcome : ProxyOutcome) : Pc :=
  if outcome.markError then .closed (.ended "error")
  else if outcome.serverDisconnected then .closed (.ended "completed")
  else
    match m.session id with
    | none => .closed (.ended "completed")
    | some s => if s.activeConnections = 0 then .settleDisconnect kind else .closed (.ended "active")

variable (cfg : Config)

def Conn.nextPc (now : Time) (m : Manager) (c : Conn) (input : Input) : Pc :=
  match c.pc with
  | .checkPending => if m.isSessionPending c.sessionId then .authorize else .checkDisconnected
  | .checkDisconnected => if m.isSessionDisconnected c.sessionId then .authorize else .look .take
  | .authorize =>
    if ownerPathAuthorized c.identity (m.getSessionCreator c.sessionId) then .look .take
    else .closed .forbidden
  | .look path => lookNext m c.sessionId path
  | .connect path =>
    match input with
    | .ok => .install path true true
    | .fail => .connectFailed path
    | _ => .connect path
  | .connectFailed path => path.otherwise
  | .install path _ connected =>
    if m.givesStream c.sessionId path connected then .proxy .owner now else path.otherwise
  | .validate => validateNext m now c
  | .reserve readOnly =>
    match m.reserveViewerSlot c.sessionId cfg.maxViewers with
    | .ok _ => .readInfo readOnly
    | .error e => .closed (.joinFailed e)
  | .readInfo readOnly =>
    if (m.session c.sessionId).isSome then .join readOnly else .closed (.joinFailed .notFound)
  | .join readOnly =>
    match input with
    | .ok => .proxy (if readOnly then .shadow else .viewer) now
    | .fail => .joinFailed
    | _ => .join readOnly
  | .joinFailed => .closed .guacdConnection
  | .proxy kind start =>
    match input with
    | .proxyEnds result serverDisconnected => .leave kind ⟨result, serverDisconnected, now - start⟩
    | _ => .proxy kind start
  | .leave kind outcome => .settle kind outcome
  | .settle kind outcome => settleNext m c.sessionId kind outcome
  | .settleDisconnect _ => .closed (.ended "disconnected")
  | .closed reason => .closed reason

def Conn.followUps (now : Time) (m : Manager) (c : Conn) (input : Input) : List FollowUp :=
  let id := c.sessionId
  let did (op : Operation) : Bool := m.edits id (op.edit cfg now (id ∈ m.ownerConnected))
  match c.pc with
  | .install path _ connected => if m.givesStream id path connected then ownerFollowUps path id else []
  | .leave .owner _ => [.markOwnerDisconnected id]
  | .settle kind outcome =>
    match Pc.operation (.settle kind outcome) input with
    | some op => if did op then [.markOwnerDisconnected id] else []
    | none => []
  | .settleDisconnect _ =>
    if did .disconnectSession then [.insertDisconnectedAt id, .markOwnerDisconnected id] else []
  | _ => []

def Conn.passes (c : Conn) : Bool :=
  c.pc = .authorize ∧ ownerPathAuthorized c.identity (m.getSessionCreator c.sessionId)

def Conn.next (now : Time) (m : Manager) (c : Conn) (input : Input) : Conn :=
  match c.pending with
  | _ :: rest => { c with pending := rest }
  | [] =>
    { c with
      authorized := c.authorized || c.passes m
      pc := c.nextPc cfg now m input
      pending := c.followUps cfg now m input }

/-- The reapers that end live sessions. -/
inductive Reaper where
  | expired
  | idle
deriving DecidableEq, Repr

def Reaper.picks (now : Time) : Reaper → Session → Bool
  | .expired => pastMaxDuration cfg now
  | .idle => pastIdleTimeout cfg now

/-- The jobs. A reaper reads the clock once and then locks one session of the map at a time. -/
inductive Job where
  | logout (id : Uuid)
  | pendingTimeout (id : Uuid) (due : Time)
  | scan (reaper : Reaper) (now : Time) (todo found : List Uuid)
  | delete (ids : List Uuid)
  | cleanupScan (now : Time) (todo toRemove toFinalize : List Uuid)
  | cleanup (toRemove toFinalize : List Uuid)
  | finished
deriving DecidableEq, Repr

structure Task where
  job : Job
  pending : List FollowUp
deriving DecidableEq, Repr

def Job.action (now : Time) : Job → Action
  | .logout id => .onSession id .logout
  | .pendingTimeout id due => if due ≤ now then .onSession id .pendingTimeout else .skip
  | .delete (id :: _) => .deleteSession id
  | .cleanup _ (id :: _) => .onSession id .finalize
  | .cleanup toRemove [] => .removeSessions toRemove
  | _ => .skip

def Task.action (now : Time) (t : Task) : Action :=
  match t.pending with
  | f :: _ => .followUp f
  | [] => t.job.action now

def Manager.picked (p : Session → Bool) (id : Uuid) : Bool := (m.session id).any p

def Job.next (now : Time) (m : Manager) : Job → Job
  | .logout id => .delete [id]
  | .pendingTimeout id due => if due ≤ now then .finished else .pendingTimeout id due
  | .scan reaper started (id :: todo) found =>
    .scan reaper started todo (if m.picked (reaper.picks cfg started) id then found ++ [id] else found)
  | .scan _ _ [] found => .delete found
  | .delete (_ :: ids) => .delete ids
  | .delete [] => .finished
  | .cleanupScan started (id :: todo) toRemove toFinalize =>
    if m.picked (pastCleanupDelay cfg started) id then
      .cleanupScan started todo (toRemove ++ [id]) toFinalize
    else if m.picked (pastReconnectWindow cfg started (m.disconnectedAt.lookup id)) id then
      .cleanupScan started todo toRemove (toFinalize ++ [id])
    else .cleanupScan started todo toRemove toFinalize
  | .cleanupScan _ [] toRemove toFinalize => .cleanup toRemove toFinalize
  | .cleanup toRemove (id :: toFinalize) => .cleanup (toRemove ++ [id]) toFinalize
  | .cleanup _ [] => .finished
  | .finished => .finished

def Job.followUps : Job → List FollowUp
  | .delete (id :: _) => if (m.session id).isSome then deleteFollowUps id else []
  | _ => []

def Task.next (cfg : Config) (now : Time) (m : Manager) (t : Task) : Task :=
  match t.pending with
  | _ :: rest => { t with pending := rest }
  | [] => { job := t.job.next cfg now m, pending := t.job.followUps m }

structure OwnerGrant where
  sessionId : Uuid
  identity : Option AuthIdentity
  creator : String
  authorized : Bool
deriving DecidableEq, Repr

structure World where
  config : Config
  now : Time
  manager : Manager
  /-- Session ids are random in the source and never come twice here. -/
  nextId : Uuid
  conns : List Conn
  tasks : List Task
  /-- Every handing out of an owner's stream so far. -/
  ownerGrants : List OwnerGrant

open World

def Manager.empty : Manager := { sessions := ∅, sessionsActive := 0, ownerConnected := ∅, disconnectedAt := ∅ }

def World.init (config : Config) (now : Time) : World :=
  { config, now, manager := Manager.empty, nextId := 0, conns := [], tasks := [], ownerGrants := [] }

inductive Event where
  | tick
  | create (createdBy shareToken : String) (deferred : Bool)
  | mintShadow (id : Uuid) (token : String)
  | request (id : Uuid) (identity : Option AuthIdentity) (token : Option String)
  | conn (i : Nat) (input : Input)
  | logout (id : Uuid)
  | reap (reaper : Reaper)
  | cleanup
  | task (j : Nat)
deriving DecidableEq, Repr

/-- The session `create_session` inserts: its guacd stream is open, or the connection is deferred. -/
def newSession (now : Time) (createdBy shareToken : String) (deferred : Bool) : Session :=
  { status := .pending, createdBy, createdAt := now, lastActivity := now, guacdStream := !deferred,
    deferredParams := deferred, activeConnections := 0, shareToken, shadowTokens := [] }

def World.action (w : World) : Event → Action
  | .create createdBy shareToken deferred => .createSession w.nextId (newSession w.now createdBy shareToken deferred)
  | .mintShadow id token => .onSession id (.mintShadowToken token)
  | .conn i input =>
    match w.conns[i]? with
    | some c => c.action input
    | none => .skip
  | .task j =>
    match w.tasks[j]? with
    | some t => t.action w.now
    | none => .skip
  | _ => .skip

variable (w : World)

def World.nextManager (event : Event) : Manager := w.manager.perform w.config w.now (w.action event)

def World.nextConns : Event → List Conn
  | .request id identity token => w.conns ++ [Conn.new id identity token]
  | .conn i input =>
    match w.conns[i]? with
    | some c => w.conns.set i (c.next w.config w.now w.manager input)
    | none => w.conns
  | _ => w.conns

def World.nextTasks : Event → List Task
  | .create createdBy shareToken deferred =>
    if ((w.nextManager (.create createdBy shareToken deferred)).session w.nextId).isSome then
      w.tasks ++ [⟨.pendingTimeout w.nextId (w.now + w.config.sessionPendingTimeoutSecs), []⟩]
    else w.tasks
  | .logout id => w.tasks ++ [⟨.logout id, []⟩]
  | .reap reaper => w.tasks ++ [⟨.scan reaper w.now w.manager.sessions.keys [], []⟩]
  | .cleanup => w.tasks ++ [⟨.cleanupScan w.now w.manager.sessions.keys [] [], []⟩]
  | .task j =>
    match w.tasks[j]? with
    | some t => w.tasks.set j (t.next w.config w.now w.manager)
    | none => w.tasks
  | _ => w.tasks

def Conn.grant (c : Conn) : Option OwnerGrant :=
  match c.pending, c.pc, m.session c.sessionId with
  | [], .install path _ connected, some s =>
    if installGives path connected s then some ⟨c.sessionId, c.identity, s.createdBy, c.authorized⟩
    else none
  | _, _, _ => none

def World.nextGrants : Event → List OwnerGrant
  | .conn i _ => w.ownerGrants ++ ((w.conns[i]?).bind (Conn.grant w.manager)).toList
  | _ => w.ownerGrants

def World.step (event : Event) : World :=
  { config := w.config
    now := if event = .tick then w.now + 1 else w.now
    manager := w.nextManager event
    nextId := match event with | .create _ _ _ => w.nextId + 1 | _ => w.nextId
    conns := w.nextConns event
    tasks := w.nextTasks event
    ownerGrants := w.nextGrants event }

/-! ### Sessions are created with new ids -/

theorem Conn.action_ne_create (c : Conn) (input : Input) (id : Uuid) (s : Session) :
    c.action input ≠ .createSession id s := by
  rw [Conn.action]
  split
  · simp
  · split <;> simp

theorem Job.action_ne_create (now : Time) (job : Job) (id : Uuid) (s : Session) :
    job.action now ≠ .createSession id s := by
  fun_cases Job.action <;> simp

theorem Task.action_ne_create (now : Time) (t : Task) (id : Uuid) (s : Session) :
    t.action now ≠ .createSession id s := by
  rw [Task.action]
  split
  · simp
  · exact Job.action_ne_create now t.job id s

variable {w : World} {event : Event}

theorem action_create {id : Uuid} {s : Session} (h : w.action event = .createSession id s) :
    ∃ createdBy shareToken deferred, event = .create createdBy shareToken deferred ∧ id = w.nextId ∧
      s = newSession w.now createdBy shareToken deferred := by
  cases event with
  | create createdBy shareToken deferred =>
    cases h
    exact ⟨createdBy, shareToken, deferred, rfl, rfl, rfl⟩
  | conn i input =>
    simp only [action] at h
    split at h
    · exact absurd h (Conn.action_ne_create _ input id s)
    · cases h
  | task j =>
    simp only [action] at h
    split at h
    · exact absurd h (Task.action_ne_create w.now _ id s)
    · cases h
  | _ => cases h

def World.Fresh : Prop := ∀ id s, w.manager.session id = some s → id < w.nextId

theorem World.nextId_le_step (w : World) (event : Event) : w.nextId ≤ (w.step event).nextId := by
  cases event <;> simp [step]

theorem World.Fresh.session_nextId (hfresh : w.Fresh) : w.manager.session w.nextId = none := by
  cases hs : w.manager.session w.nextId with
  | none => rfl
  | some s => exact absurd (hfresh w.nextId s hs) (Nat.lt_irrefl w.nextId)

theorem World.Fresh.init (config : Config) (now : Time) : (World.init config now).Fresh := by
  intro id s hs
  simp [World.init, Manager.empty, Manager.session] at hs

theorem World.step_session {id : Uuid} {s' : Session} (h : (w.step event).manager.session id = some s') :
    (∃ createdBy shareToken deferred, event = .create createdBy shareToken deferred ∧ id = w.nextId) ∨
      ∃ s, w.manager.session id = some s ∧ s'.createdBy = s.createdBy := by
  rcases perform_session h with hcreate | hsame | ⟨op, s, e, _, hs, he, rfl⟩
  · obtain ⟨createdBy, shareToken, deferred, hevent, hid, _⟩ := action_create hcreate
    exact .inl ⟨createdBy, shareToken, deferred, hevent, hid⟩
  · exact .inr ⟨s', hsame, rfl⟩
  · exact .inr ⟨s, hs, (edit_spec he).createdBy⟩

theorem World.Fresh.step (hfresh : w.Fresh) (event : Event) : (w.step event).Fresh := by
  intro id s' hs'
  rcases step_session hs' with ⟨createdBy, shareToken, deferred, rfl, rfl⟩ | ⟨s, hs, _⟩
  · exact Nat.lt_succ_self w.nextId
  · exact Nat.lt_of_lt_of_le (hfresh id s hs) (w.nextId_le_step event)

theorem World.mem_nextConns {c' : Conn} (h : c' ∈ w.nextConns event) :
    c' ∈ w.conns ∨ (∃ id identity token, c' = Conn.new id identity token) ∨
      ∃ i input c, event = .conn i input ∧ w.conns[i]? = some c ∧ c' = c.next w.config w.now w.manager input := by
  cases event with
  | request id identity token =>
    rcases List.mem_append.mp h with h | h
    · exact .inl h
    · exact .inr (.inl ⟨id, identity, token, List.mem_singleton.mp h⟩)
  | conn i input =>
    cases hi : w.conns[i]? with
    | none =>
      simp only [nextConns, hi] at h
      exact .inl h
    | some c =>
      simp only [nextConns, hi] at h
      rcases List.mem_or_eq_of_mem_set h with h | h
      · exact .inl h
      · exact .inr (.inr ⟨i, input, c, rfl, hi, h⟩)
  | _ => exact .inl h

def World.spawns : Event → Option Job
  | .create createdBy shareToken deferred =>
    if ((w.nextManager (.create createdBy shareToken deferred)).session w.nextId).isSome then
      some (.pendingTimeout w.nextId (w.now + w.config.sessionPendingTimeoutSecs))
    else none
  | .logout id => some (.logout id)
  | .reap reaper => some (.scan reaper w.now w.manager.sessions.keys [])
  | .cleanup => some (.cleanupScan w.now w.manager.sessions.keys [] [])
  | _ => none

theorem World.nextTasks_of_ne_task (hevent : ∀ j, event ≠ .task j) :
    w.nextTasks event = w.tasks ++ ((w.spawns event).map fun job => ⟨job, []⟩).toList := by
  cases event with
  | task j => exact absurd rfl (hevent j)
  | create createdBy shareToken deferred =>
    simp only [nextTasks, spawns]
    split <;> simp
  | logout id => rfl
  | reap reaper => rfl
  | cleanup => rfl
  | _ => simp [nextTasks, spawns]

theorem World.getElem_nextTasks {j : Nat} {t' : Task} (h : (w.nextTasks event)[j]? = some t') :
    (w.tasks[j]? = some t' ∧ event ≠ .task j) ∨ (∃ job, w.spawns event = some job ∧ t' = ⟨job, []⟩) ∨
      ∃ t, event = .task j ∧ w.tasks[j]? = some t ∧ t' = t.next w.config w.now w.manager := by
  by_cases hevent : ∀ i, event ≠ .task i
  · rw [nextTasks_of_ne_task hevent] at h
    by_cases hlt : j < w.tasks.length
    · rw [List.getElem?_append_left hlt] at h
      exact .inl ⟨h, hevent j⟩
    · rw [List.getElem?_append_right (not_lt.mp hlt)] at h
      obtain ⟨job, hjob, heq⟩ := Option.map_eq_some_iff.mp (Option.mem_toList.mp (List.mem_of_getElem? h))
      exact .inr (.inl ⟨job, hjob, heq.symm⟩)
  · obtain ⟨i, rfl⟩ := not_forall_not.mp hevent
    cases hi : w.tasks[i]? with
    | none =>
      simp only [nextTasks, hi] at h
      refine .inl ⟨h, ?_⟩
      rintro heq
      obtain rfl := Event.task.inj heq
      rw [hi] at h
      cases h
    | some t =>
      simp only [nextTasks, hi] at h
      by_cases hij : i = j
      · subst hij
        rw [List.getElem?_set_self (List.getElem?_eq_some_iff.mp hi).1] at h
        exact .inr (.inr ⟨t, rfl, hi, (Option.some.inj h).symm⟩)
      · rw [List.getElem?_set_ne hij] at h
        exact .inl ⟨h, fun heq => hij (Event.task.inj heq)⟩

def plainConfig : Config :=
  { maxSessions := 0, maxViewers := 0, sessionMaxDurationSecs := 0, sessionIdleTimeoutSecs := 0,
    sessionCleanupDelaySecs := 1, sessionPendingTimeoutSecs := 60 }

def afterScript (events : List Event) : World := Transition.run step (init plainConfig 100) events

def alice : AuthIdentity := .user "alice@example.com" "Alice" "operator" []

def steps (i n : Nat) : List Event := List.replicate n (.conn i .ok)

def ends (i : Nat) (result : ProxyResult) (serverDisconnected : Bool) : List Event :=
  .conn i (.proxyEnds result serverDisconnected) :: steps i 6

def sharedSession : List Event :=
  [Event.create "alice@example.com" "share" false, .request 0 (some alice) none] ++ steps 0 5 ++
    [Event.request 0 none (some "share")] ++ steps 1 8

end Persea.Sessions
