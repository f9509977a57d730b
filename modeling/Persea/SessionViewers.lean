import Persea.SessionWorld

/-! Viewers and the owner's session. The teardown at the end of `handle_ws` is the same for all connections; a step of
a viewer's keeps the session active exactly when it is none of three. -/

namespace Persea.Sessions

open Base Transition World Operation

/-! ### Slots -/

def Pc.holdsSlot : Pc → Bool
  | .readInfo _ => true
  | .join _ => true
  | .joinFailed => true
  | .proxy _ _ => true
  | .leave _ _ => true
  | _ => false

def Conn.holdsSlot (id : Uuid) (c : Conn) : Bool := c.sessionId = id ∧ c.pc.holdsSlot

def Pc.slots (pc : Pc) : Nat := if pc.holdsSlot then 1 else 0

theorem OwnerPath.slots_otherwise (path : OwnerPath) : path.otherwise.slots = 0 := by cases path <;> rfl

theorem slots_lookNext (m : Manager) (id : Uuid) (path : OwnerPath) : (lookNext m id path).slots = 0 := by
  rw [lookNext]
  split
  · exact path.slots_otherwise
  · split_ifs
    · exact path.slots_otherwise
    · rfl
    · rfl

theorem slots_validateNext (m : Manager) (now : Time) (c : Conn) : (validateNext m now c).slots = 0 := by
  rw [validateNext]
  split
  · rfl
  · split <;> rfl

theorem slots_settleNext (m : Manager) (id : Uuid) (kind : ConnectionKind) (outcome : ProxyOutcome) :
    (settleNext m id kind outcome).slots = 0 := by
  rw [settleNext]
  split_ifs
  · rfl
  · rfl
  · split
    · rfl
    · split_ifs <;> rfl

@[simp] theorem next_sessionId (cfg : Config) (now : Time) (m : Manager) (c : Conn) (input : Input) :
    (c.next cfg now m input).sessionId = c.sessionId := by
  rw [Conn.next]
  split <;> rfl

variable {id : Uuid} {w : World}

section Step

variable {cfg : Config} {now : Time} {m : Manager} {c : Conn} {s : Session}

variable {ownerIsConnected : Bool} {path : OwnerPath} {deferred connected : Bool}

theorem installEdit_isSome (h : installGives path connected s) :
    (installEdit path deferred connected s).isSome := by
  have hgives : s.status = path.status ∧ (s.guacdStream || connected) := by simpa [installGives] using h
  rw [installEdit, if_neg (not_not.mpr hgives.1), if_pos hgives.2]
  rfl

theorem install_slots (hs : m.session c.sessionId = some s) (ownerIsConnected : Bool) :
    (result cfg now ownerIsConnected (.install path deferred connected) s).activeConnections =
      s.activeConnections + if m.givesStream c.sessionId path connected then 1 else 0 := by
  have hgives : m.givesStream c.sessionId path connected = installGives path connected s := by
    simp [Manager.givesStream, hs]
  rw [result_connections, hgives, connections, edit]
  cases h : installGives path connected s with
  | true => simp [installEdit_isSome h]
  | false => simp

theorem reserve_slots (hs : m.session c.sessionId = some s) :
    (result cfg now (c.sessionId ∈ m.ownerConnected) .reserveViewerSlot s).activeConnections = s.activeConnections +
        if (m.reserveViewerSlot c.sessionId cfg.maxViewers).toOption.isSome then 1 else 0 := by
  have hedit : edit cfg now (c.sessionId ∈ m.ownerConnected) .reserveViewerSlot s =
      (reserveEdit cfg.maxViewers (c.sessionId ∈ m.ownerConnected) s).toOption := rfl
  simp only [result_connections, hedit, Manager.reserveViewerSlot, hs]
  cases reserveEdit cfg.maxViewers (c.sessionId ∈ m.ownerConnected) s <;> rfl

theorem result_connections_of_eq {op : Operation} (h : op.connections s = s.activeConnections) :
    (op.result cfg now ownerIsConnected s).activeConnections = s.activeConnections := by
  rw [result_connections, h, ite_self]

theorem leave_slots (hheld : 0 < s.activeConnections) :
    (result cfg now ownerIsConnected .disconnectViewer s).activeConnections + 1 = s.activeConnections :=
  Nat.sub_add_cancel hheld

section

variable (hs : m.session c.sessionId = some s)

include hs

theorem operation_slots {input : Input} {op : Operation}
    (hop : c.pc.operation input = some op) (hpos : c.pc.slots ≤ s.activeConnections) :
    (op.result cfg now (c.sessionId ∈ m.ownerConnected) s).activeConnections + c.pc.slots =
      s.activeConnections + (c.nextPc cfg now m input).slots := by
  cases hpc : c.pc with
  | look path =>
    obtain rfl : look path = op := by simpa [hpc, Pc.operation] using hop
    rw [result_connections_of_eq rfl]
    simp only [Conn.nextPc, hpc, slots_lookNext]
    rfl
  | connectFailed path =>
    obtain rfl : connectFailed path = op := by simpa [hpc, Pc.operation] using hop
    rw [result_connections_of_eq rfl]
    simp only [Conn.nextPc, hpc, OwnerPath.slots_otherwise]
    rfl
  | install path deferred connected =>
    obtain rfl : install path deferred connected = op := by simpa [hpc, Pc.operation] using hop
    rw [install_slots hs]
    cases hgives : m.givesStream c.sessionId path connected with
    | true =>
      simp only [Conn.nextPc, hpc, hgives, if_true]
      rfl
    | false =>
      simp only [Conn.nextPc, hpc, hgives, Bool.false_eq_true, if_false, OwnerPath.slots_otherwise]
      rfl
  | reserve readOnly =>
    obtain rfl : reserveViewerSlot = op := by simpa [hpc, Pc.operation] using hop
    rw [reserve_slots hs]
    cases hreserve : m.reserveViewerSlot c.sessionId cfg.maxViewers <;>
      simp [Conn.nextPc, hpc, hreserve, Except.toOption, Pc.slots, Pc.holdsSlot]
  | joinFailed | leave kind outcome =>
    obtain rfl : disconnectViewer = op := by simpa [hpc, Pc.operation] using hop
    rw [hpc] at hpos
    simp only [Conn.nextPc, hpc]
    exact leave_slots hpos
  | proxy kind start =>
    cases input <;> simp only [hpc, Pc.operation, reduceCtorEq] at hop
    cases hop
    rw [result_connections_of_eq rfl]
    simp [Conn.nextPc, hpc]
  | settle kind outcome =>
    have hsame : op.connections s = s.activeConnections := by
      simp only [hpc, Pc.operation] at hop
      split_ifs at hop <;> cases hop <;> rfl
    rw [result_connections_of_eq hsame]
    simp only [Conn.nextPc, hpc, slots_settleNext]
    rfl
  | settleDisconnect kind =>
    obtain rfl : disconnectSession = op := by simpa [hpc, Pc.operation] using hop
    rw [result_connections_of_eq rfl]
    simp [Conn.nextPc, hpc, Pc.slots, Pc.holdsSlot]
  | _ => simp [hpc, Pc.operation] at hop

theorem nextPc_slots_of_skip {input : Input}
    (hop : c.pc.operation input = none) : (c.nextPc cfg now m input).slots = c.pc.slots := by
  cases hpc : c.pc with
  | checkPending | checkDisconnected | authorize => simp only [Conn.nextPc, hpc]; split_ifs <;> rfl
  | connect path | join readOnly
  | proxy kind start => cases input <;> simp [Conn.nextPc, hpc, Pc.slots, Pc.holdsSlot]
  | validate =>
    simp only [Conn.nextPc, hpc, slots_validateNext]
    rfl
  | readInfo readOnly => simp [Conn.nextPc, hpc, hs, Pc.slots, Pc.holdsSlot]
  | settle kind outcome =>
    simp only [Conn.nextPc, hpc, slots_settleNext]
    rfl
  | closed reason => simp [Conn.nextPc, hpc]
  | _ => simp [hpc, Pc.operation] at hop

theorem conn_slots (input : Input)
    (hpos : c.pc.slots ≤ s.activeConnections) :
    ∃ s', (m.perform cfg now (c.action input)).session c.sessionId = some s' ∧
      s'.activeConnections + c.pc.slots = s.activeConnections + (c.next cfg now m input).pc.slots := by
  rw [Conn.action, Conn.next]
  cases hpending : c.pending with
  | cons f rest => exact ⟨s, by simpa [Manager.perform, Manager.session] using hs, rfl⟩
  | nil =>
    cases hop : c.pc.operation input with
    | none => exact ⟨s, hs, by simp only [nextPc_slots_of_skip hs hop]⟩
    | some op => exact ⟨_, perform_onSession hs, operation_slots hs hop hpos⟩

end

theorem conn_session_ne (hne : id ≠ c.sessionId) (input : Input) :
    (m.perform cfg now (c.action input)).session id = m.session id := by
  rw [Conn.action]
  split
  · simp [Manager.perform, Manager.session]
  · split
    · exact edit_session_ne hne
    · rfl

theorem nextPc_slots_of_none (hs : m.session c.sessionId = none) (input : Input) :
    (c.nextPc cfg now m input).slots ≤ c.pc.slots := by
  cases hpc : c.pc with
  | checkPending | checkDisconnected | authorize => simp only [Conn.nextPc, hpc]; split_ifs <;> exact le_rfl
  | look path => simp only [Conn.nextPc, hpc, slots_lookNext, Nat.zero_le]
  | connectFailed path => simp only [Conn.nextPc, hpc, OwnerPath.slots_otherwise, Nat.zero_le]
  | install path deferred connected =>
    have hgives : m.givesStream c.sessionId path connected = false := by simp [Manager.givesStream, hs]
    simp [Conn.nextPc, hpc, hgives, OwnerPath.slots_otherwise]
  | validate => simp only [Conn.nextPc, hpc, slots_validateNext, Nat.zero_le]
  | reserve readOnly => simp [Conn.nextPc, hpc, Manager.reserveViewerSlot, hs, Pc.slots, Pc.holdsSlot]
  | readInfo readOnly => simp [Conn.nextPc, hpc, hs, Pc.slots, Pc.holdsSlot]
  | joinFailed | leave kind outcome | settleDisconnect kind => simp [Conn.nextPc, hpc, Pc.slots, Pc.holdsSlot]
  | settle kind outcome => simp only [Conn.nextPc, hpc, slots_settleNext, Nat.zero_le]
  | closed reason => simp [Conn.nextPc, hpc]
  | _ => cases input <;> simp [Conn.nextPc, hpc, Pc.slots, Pc.holdsSlot]

theorem next_slots_of_none (hs : m.session c.sessionId = none) (input : Input) :
    (c.next cfg now m input).pc.slots ≤ c.pc.slots := by
  rw [Conn.next]
  split
  · exact le_rfl
  · exact nextPc_slots_of_none hs input

end Step

variable {event : Event} {s' : Session}

theorem action_connections (hevent : ∀ i input, event ≠ .conn i input) {op : Operation}
    (h : w.action event = .onSession id op) (s : Session) :
    op.connections s = s.activeConnections := by
  cases event with
  | conn i input => exact absurd rfl (hevent i input)
  | mintShadow k token =>
    cases h
    rfl
  | task j =>
    simp only [action] at h
    split at h
    · rename_i t _
      rw [Task.action] at h
      split at h
      · cases h
      · revert h
        fun_cases Job.action w.now t.job <;> intro h <;> cases h <;> rfl
    · cases h
  | _ => cases h

structure SlotsCounted (w : World) : Prop where
  fresh : w.Fresh
  known : ∀ c ∈ w.conns, c.pc.holdsSlot = true → c.sessionId < w.nextId
  count : ∀ id s, w.manager.session id = some s → s.activeConnections = w.conns.countP (Conn.holdsSlot id)

theorem SlotsCounted.init (config : Config) (now : Time) : SlotsCounted (World.init config now) := by
  refine ⟨World.Fresh.init config now, by simp [World.init], ?_⟩
  intro id s hs
  simp [World.init, Manager.empty, Manager.session] at hs

theorem slots_eq_one {pc : Pc} (h : pc.holdsSlot) : pc.slots = 1 := if_pos h

theorem holdsSlot_of_slots {pc : Pc} (h : 0 < pc.slots) : pc.holdsSlot := by
  by_contra hnot
  simp [Pc.slots, hnot] at h

theorem ite_holdsSlot (id : Uuid) (c : Conn) :
    (if c.holdsSlot id then 1 else 0) = if c.sessionId = id then c.pc.slots else 0 := by
  by_cases hid : c.sessionId = id <;> simp [Conn.holdsSlot, hid, Pc.slots]

section

variable (h : SlotsCounted w)

include h

theorem SlotsCounted.known_step (event : Event) :
    ∀ c ∈ (w.step event).conns, c.pc.holdsSlot → c.sessionId < (w.step event).nextId := by
  intro c' hc' hslot
  refine Nat.lt_of_lt_of_le ?_ (w.nextId_le_step event)
  rcases mem_nextConns hc' with hc' | ⟨id, identity, token, rfl⟩ | ⟨i, input, c, _, hi, rfl⟩
  · exact h.known c' hc' hslot
  · cases hslot
  · rw [next_sessionId]
    cases hs : w.manager.session c.sessionId with
    | some s => exact h.fresh c.sessionId s hs
    | none =>
      have hle : (c.next w.config w.now w.manager input).pc.slots ≤ c.pc.slots := next_slots_of_none hs input
      rw [slots_eq_one hslot] at hle
      exact h.known c (List.mem_of_getElem? hi) (holdsSlot_of_slots hle)

theorem SlotsCounted.slots_le {c : Conn} (hc : c ∈ w.conns) {s : Session}
    (hs : w.manager.session c.sessionId = some s) : c.pc.slots ≤ s.activeConnections := by
  by_cases hslot : c.pc.holdsSlot
  · rw [slots_eq_one hslot, h.count c.sessionId s hs]
    exact List.countP_pos_iff.mpr ⟨c, hc, by simp [Conn.holdsSlot, hslot]⟩
  · simp [Pc.slots, hslot]

theorem SlotsCounted.count_conn {i : Nat} {input : Input} {c : Conn}
    (hi : w.conns[i]? = some c) (hs' : (w.step (.conn i input)).manager.session id = some s') :
    s'.activeConnections = (w.step (.conn i input)).conns.countP (Conn.holdsSlot id) := by
  have haction : w.action (.conn i input) = c.action input := by simp only [action, hi]
  have hconns : (w.step (.conn i input)).conns = w.conns.set i (c.next w.config w.now w.manager input) := by
    simp only [step, nextConns, hi]
  have hset := countP_set (p := Conn.holdsSlot id) hi (c.next w.config w.now w.manager input)
  rw [ite_holdsSlot, ite_holdsSlot, next_sessionId] at hset
  have hs' : (w.nextManager (.conn i input)).session id = some s' := hs'
  rw [nextManager, haction] at hs'
  rw [hconns]
  by_cases hid : c.sessionId = id
  · subst hid
    rw [if_pos rfl, if_pos rfl] at hset
    obtain ⟨s, hs⟩ : ∃ s, w.manager.session c.sessionId = some s := by
      rcases perform_session hs' with hcreate | hsame | ⟨_, s, _, _, hs, _⟩
      · exact absurd hcreate (Conn.action_ne_create c input _ _)
      · exact ⟨s', hsame⟩
      · exact ⟨s, hs⟩
    have hle := h.slots_le (List.mem_of_getElem? hi) hs
    obtain ⟨s'', hs'', hmove⟩ : ∃ s'',
        (w.manager.perform w.config w.now (c.action input)).session c.sessionId = some s'' ∧
        s''.activeConnections + c.pc.slots =
          s.activeConnections + (c.next w.config w.now w.manager input).pc.slots := conn_slots hs input hle
    obtain rfl : s'' = s' := Option.some.inj (hs''.symm.trans hs')
    have hcount := h.count c.sessionId s hs
    omega
  · rw [if_neg hid, if_neg hid] at hset
    rw [conn_session_ne (Ne.symm hid)] at hs'
    have hcount := h.count id s' hs'
    omega

theorem SlotsCounted.count_other (hevent : ∀ i input, event ≠ .conn i input)
    (hs' : (w.step event).manager.session id = some s') :
    s'.activeConnections = w.conns.countP (Conn.holdsSlot id) := by
  rcases perform_session hs' with hcreate | hsame | ⟨op, s, e, hop, hs, he, rfl⟩
  · obtain ⟨createdBy, shareToken, deferred, _, rfl, rfl⟩ := action_create hcreate
    refine (List.countP_eq_zero.mpr fun c hc hslot => ?_).symm
    have hheld : c.sessionId = w.nextId ∧ c.pc.holdsSlot := by simpa [Conn.holdsSlot] using hslot
    exact absurd hheld.1 (Nat.ne_of_lt (h.known c hc hheld.2))
  · exact h.count id s' hsame
  · rw [(edit_spec he).connections, action_connections hevent hop, h.count id s hs]

theorem SlotsCounted.step (event : Event) : SlotsCounted (w.step event) := by
  refine ⟨h.fresh.step event, h.known_step event, fun id s' hs' => ?_⟩
  cases event with
  | conn i input =>
    cases hi : w.conns[i]? with
    | some c => exact h.count_conn hi hs'
    | none =>
      have hsame : w.step (.conn i input) = { w.step (.conn i input) with
          manager := w.manager, conns := w.conns } := by
        simp only [World.step, World.nextManager, World.action, World.nextConns, hi, Manager.perform]
      rw [hsame] at hs' ⊢
      exact h.count id s' hs'
  | request k identity token =>
    have hnew : (w.step (.request k identity token)).conns.countP (Conn.holdsSlot id) =
        w.conns.countP (Conn.holdsSlot id) := by
      simp [World.step, World.nextConns, Conn.holdsSlot, Conn.new, Pc.holdsSlot]
    rw [hnew]
    exact h.count_other (by simp) hs'
  | _ => exact h.count_other (by simp) hs'

end

/-- The next step is not a transition of the whole session: the connection was not closed by guacd within five
seconds, guacd did not announce a disconnect on it, and if it has found the session without connections,
that is still so. -/
def Conn.endsSafely (m : Manager) (c : Conn) : Bool :=
  match c.pending, c.pc with
  | [], .settle _ outcome => !outcome.markError && !outcome.serverDisconnected
  | [], .settleDisconnect _ => (m.session c.sessionId).all fun s => s.activeConnections = 0
  | _, _ => true

section Viewer

variable {m : Manager} {c : Conn} {s : Session} {input : Input} {op : Operation}

theorem endsSafely_of_operation (hpending : c.pending = []) (hs : m.session c.sessionId = some s)
    (hheld : 0 < s.activeConnections) (hop : c.pc.operation input = some op) :
    c.endsSafely m = op.keepsActive := by
  cases hpc : c.pc with
  | settle kind outcome =>
    simp only [hpc, Pc.operation] at hop
    split_ifs at hop with herror hserver
    · cases hop
      simp [Conn.endsSafely, hpending, hpc, herror, keepsActive]
    · cases hop
      simp [Conn.endsSafely, hpending, hpc, hserver, keepsActive]
  | settleDisconnect kind =>
    obtain rfl : disconnectSession = op := by simpa [hpc, Pc.operation] using hop
    simp [Conn.endsSafely, hpending, hpc, hs, keepsActive, Nat.ne_of_gt hheld]
  | proxy kind start =>
    cases input <;> simp only [hpc, Pc.operation, reduceCtorEq] at hop
    cases hop
    simp [Conn.endsSafely, hpc, keepsActive]
  | _ =>
    -- the other critical sections concern one connection only
    simp only [hpc, Pc.operation, Option.some.injEq, reduceCtorEq] at hop <;>
      (subst hop; simp [Conn.endsSafely, hpc, keepsActive])

theorem endsSafely_of_skip (hop : c.pc.operation input = none) (hpending : c.pending = []) :
    c.endsSafely m := by
  cases hpc : c.pc with
  | settle kind outcome =>
    have hquiet : outcome.markError = false ∧ outcome.serverDisconnected = false := by
      simp only [hpc, Pc.operation] at hop
      split_ifs at hop with herror hserver
      exact ⟨by simpa using herror, by simpa using hserver⟩
    simp [Conn.endsSafely, hpending, hpc, hquiet]
  | settleDisconnect kind => simp [hpc, Pc.operation] at hop
  | _ => simp [Conn.endsSafely, hpc]

theorem conn_keeps_active_iff {cfg : Config} {now : Time} (hs : m.session c.sessionId = some s)
    (hactive : s.status = .active) (hheld : 0 < s.activeConnections) :
    (m.perform cfg now (c.action input)).hasStatus c.sessionId .active ↔ c.endsSafely m := by
  cases hpending : c.pending with
  | cons f rest =>
    have haction : c.action input = .followUp f := by simp [Conn.action, hpending]
    have hsame : (m.followUp now f).session c.sessionId = some s := by simpa [Manager.session] using hs
    simp [haction, Manager.perform, Manager.hasStatus, hsame, hactive, Conn.endsSafely, hpending]
  | nil =>
    cases hop : c.pc.operation input with
    | none =>
      have haction : c.action input = .skip := by simp [Conn.action, hpending, hop]
      simp [haction, Manager.perform, Manager.hasStatus, hs, hactive, endsSafely_of_skip hop hpending]
    | some op =>
      have haction : c.action input = .onSession c.sessionId op := by simp [Conn.action, hpending, hop]
      rw [endsSafely_of_operation hpending hs hheld hop, haction, Manager.hasStatus, perform_onSession hs]
      simpa using result_active_iff hactive

end Viewer

/-- **The end of a connection and the owner's session.** While a connection runs the proxy as the owner of an
active session, a step of any connection of the session leaves it active exactly when that connection ends
safely. -/
theorem viewer_keeps_active_iff (config : Config) (now : Time) (events : List Event) (i : Nat) (input : Input)
    (c owner : Conn) (start : Time) (s : Session)
    (hc : (run step (init config now) events).conns[i]? = some c)
    (howner : owner ∈ (run step (init config now) events).conns)
    (hrunning : owner.pc = .proxy .owner start) (hsession : owner.sessionId = c.sessionId)
    (hs : (run step (init config now) events).manager.session c.sessionId = some s)
    (hactive : s.status = .active) :
    (run step (init config now) (events ++ [.conn i input])).manager.hasStatus
        c.sessionId .active = true ↔
      c.endsSafely (run step (init config now) events).manager = true := by
  rw [run_append, run_cons, run_nil]
  have hcounted : SlotsCounted (run step (init config now) events) :=
    invariant_run_of_step step (fun _ event h => h.step event)
      (SlotsCounted.init config now) events
  generalize run step (init config now) events = w at *
  have hheld : owner.pc.slots ≤ s.activeConnections := hcounted.slots_le howner (by rw [hsession]; exact hs)
  rw [hrunning] at hheld
  have haction : w.action (.conn i input) = c.action input := by simp only [action, hc]
  have hmanager : (w.step (.conn i input)).manager = w.manager.perform w.config w.now (c.action input) := by
    rw [← haction]
    rfl
  rw [hmanager]
  exact conn_keeps_active_iff hs hactive hheld

def viewerClosesTab : List Event := sharedSession ++ [Event.conn 1 (.proxyEnds .browserEnded false)] ++ steps 1 1

theorem viewer_closes_tab : (run step (init plainConfig 100) (viewerClosesTab ++ [.conn 1 .ok])).manager.hasStatus
      0 .active = true := by
  have hkeeps := viewer_keeps_active_iff plainConfig 100 viewerClosesTab 1 .ok
    ⟨0, none, some "share", false, .settle .viewer ⟨.browserEnded, false, 0⟩, []⟩
    ⟨0, some alice, none, true, .proxy .owner 100, []⟩ 100
    ⟨.active, "alice@example.com", 100, 100, false, false, 1, "share", []⟩
    (by decide +kernel) (by decide +kernel) rfl rfl (by decide +kernel) rfl
  exact hkeeps.mpr (by decide +kernel)

def leftBy (events : List Event) (i : Nat) : Option Pc × Option SessionStatus :=
  (((afterScript events).conns[i]?).map Conn.pc, ((afterScript events).manager.session 0).map Session.status)

/-- guacd closes the viewer's connection at once. -/
def viewerClosedQuickly : List Event := sharedSession ++ [Event.conn 1 (.proxyEnds .guacdEnded false)] ++ steps 1 2

/-- guacd announces a disconnect on the viewer's connection. -/
def viewerDisconnected : List Event := sharedSession ++ [Event.conn 1 (.proxyEnds .browserEnded true)] ++ steps 1 2

/-- Two viewers outlive the owner. Both find the session without connections; the first disconnects it, Alice
reconnects, and the second disconnects it again. -/
def viewerDisconnectsLate : List Event :=
  [Event.create "alice@example.com" "share" true, .request 0 (some alice) none] ++ steps 0 6 ++
    [Event.request 0 none (some "share")] ++ steps 1 8 ++ [Event.request 0 none (some "share")] ++ steps 2 8 ++
    ends 0 .browserEnded false ++
    [Event.conn 1 (.proxyEnds .browserEnded false), .conn 2 (.proxyEnds .browserEnded false)] ++
    steps 1 1 ++ steps 2 1 ++ steps 1 1 ++ steps 2 4 ++ [Event.request 0 (some alice) none] ++ steps 3 9

/-- **A viewer's end takes the session away from its owner**, whose proxy is still running. -/
theorem viewer_ends_session : leftBy sharedSession 0 = (some (.proxy .owner 100), some .active) ∧
      leftBy viewerClosedQuickly 0 = (some (.proxy .owner 100), some .error) ∧
      leftBy viewerDisconnected 0 = (some (.proxy .owner 100), some .completed) ∧
      leftBy viewerDisconnectsLate 3 = (some (.proxy .owner 100), some .active) ∧
      leftBy (viewerDisconnectsLate ++ steps 1 1) 3 = (some (.proxy .owner 100), some .disconnected) := by
  refine ⟨?_, ?_, ?_, ?_, ?_⟩ <;> decide +kernel

end Persea.Sessions
