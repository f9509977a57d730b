import Persea.SessionViewers

/-! The cap on the viewers of a session. The owner's mark, which takes one connection out of the count, is set after
the slot is taken and cleared after it has been given back. -/

namespace Persea.Sessions

open Base Transition World Conn

def Pc.viewing : Pc → Bool
  | .readInfo _ => true
  | .join _ => true
  | .joinFailed => true
  | .proxy kind _ => kind ≠ .owner
  | .leave kind _ => kind ≠ .owner
  | _ => false

def Pc.owning : Pc → Bool
  | .proxy kind _ => kind = .owner
  | .leave kind _ => kind = .owner
  | _ => false

def Conn.views (id : Uuid) (c : Conn) : Bool := c.sessionId = id ∧ c.pc.viewing

def Conn.owns (id : Uuid) (c : Conn) : Bool := c.sessionId = id ∧ c.pc.owning

def World.viewers (w : World) (id : Uuid) : Nat := w.conns.countP (views id)

theorem holdsSlot_eq (pc : Pc) : pc.holdsSlot = (pc.viewing || pc.owning) := by
  cases pc with
  | proxy kind start | leave kind outcome => cases kind <;> rfl
  | _ => rfl

theorem not_viewing_of_owning {pc : Pc} (h : pc.owning) : pc.viewing = false := by
  cases pc with
  | proxy kind start | leave kind outcome => simpa [Pc.owning, Pc.viewing] using h
  | _ => cases h

theorem countP_holdsSlot (id : Uuid) (conns : List Conn) :
    conns.countP (holdsSlot id) = conns.countP (views id) + conns.countP (owns id) := by
  induction conns with
  | nil => rfl
  | cons c conns ih =>
    have hc : (if c.holdsSlot id then 1 else 0) = (if c.views id then 1 else 0) + if c.owns id then 1 else 0 := by
      by_cases hid : c.sessionId = id
      · cases howning : c.pc.owning with
        | true => simp [holdsSlot, views, owns, hid, holdsSlot_eq, howning, not_viewing_of_owning howning]
        | false => simp [holdsSlot, views, owns, hid, holdsSlot_eq, howning]
      · simp [holdsSlot, views, owns, hid]
    rw [List.countP_cons, List.countP_cons, List.countP_cons, ih, hc]
    omega

variable {w : World} {id : Uuid}

theorem SlotsCounted.connections (h : SlotsCounted w) {s : Session} (hs : w.manager.session id = some s) :
    s.activeConnections = w.viewers id + w.conns.countP (owns id) := by
  rw [h.count id s hs, countP_holdsSlot, viewers]

section Step

variable {cfg : Config} {now : Time} {m : Manager} {c : Conn}

theorem OwnerPath.viewing_otherwise (path : OwnerPath) : path.otherwise.viewing = false := by cases path <;> rfl

theorem viewing_lookNext (m : Manager) (id : Uuid) (path : OwnerPath) : (lookNext m id path).viewing = false := by
  rw [lookNext]
  split
  · exact path.viewing_otherwise
  · split_ifs
    · exact path.viewing_otherwise
    · rfl
    · rfl

theorem viewing_validateNext (m : Manager) (now : Time) (c : Conn) : (validateNext m now c).viewing = false := by
  rw [validateNext]
  split
  · rfl
  · split <;> rfl

theorem viewing_settleNext (m : Manager) (id : Uuid) (kind : ConnectionKind) (outcome : ProxyOutcome) :
    (settleNext m id kind outcome).viewing = false := by
  rw [settleNext]
  split_ifs
  · rfl
  · rfl
  · split
    · rfl
    · split_ifs <;> rfl

theorem nextPc_viewing {input : Input} (h : (c.nextPc cfg now m input).viewing) : c.pc.viewing ∨
      ∃ readOnly e, c.pc = .reserve readOnly ∧ m.reserveViewerSlot c.sessionId cfg.maxViewers = .ok e := by
  cases hpc : c.pc with
  | checkPending | checkDisconnected | authorize =>
    simp only [nextPc, hpc] at h
    split_ifs at h <;> cases h
  | look path => simp [nextPc, hpc, viewing_lookNext] at h
  | connect path => cases input <;> simp [nextPc, hpc, Pc.viewing] at h
  | connectFailed path => simp [nextPc, hpc, OwnerPath.viewing_otherwise] at h
  | install path deferred connected =>
    simp only [nextPc, hpc] at h
    split_ifs at h
    · cases h
    · rw [path.viewing_otherwise] at h
      cases h
  | validate => simp [nextPc, hpc, viewing_validateNext] at h
  | reserve readOnly =>
    cases hreserve : m.reserveViewerSlot c.sessionId cfg.maxViewers with
    | error e => simp [nextPc, hpc, hreserve, Pc.viewing] at h
    | ok e => exact .inr ⟨readOnly, e, rfl, rfl⟩
  | readInfo readOnly | join readOnly | joinFailed => exact .inl rfl
  | proxy kind start =>
    cases input with
    | proxyEnds result serverDisconnected => exact .inl (by simpa [nextPc, hpc, Pc.viewing] using h)
    | _ => exact .inl (by simpa [nextPc, hpc] using h)
  | settle kind outcome => simp [nextPc, hpc, viewing_settleNext] at h
  | _ => simp [nextPc, hpc, Pc.viewing] at h

theorem reserve_ok {e : Edit} (hlimit : 0 < cfg.maxViewers) (h : m.reserveViewerSlot id cfg.maxViewers = .ok e) :
    ∃ s, m.session id = some s ∧ s.activeConnections - (if id ∈ m.ownerConnected then 1 else 0) < cfg.maxViewers := by
  cases hs : m.session id with
  | none => simp [Manager.reserveViewerSlot, hs] at h
  | some s =>
    refine ⟨s, rfl, ?_⟩
    simp only [Manager.reserveViewerSlot, hs, reserveEdit, hlimit, true_and, decide_eq_true_eq] at h
    split_ifs at h with hstatus hflag hfull hfull
    · simpa [hflag] using hfull
    · simpa [hflag] using hfull

end Step

def Conn.reserves (c : Conn) : Bool :=
  match c.pending, c.pc with
  | [], .reserve _ => true
  | _, _ => false

/-- A session whose owner is marked as connected has an owner's slot. -/
def World.markHeld (w : World) (id : Uuid) : Bool := id ∉ w.manager.ownerConnected ∨ w.conns.any (owns id)

/-- If the step is a reservation, the mark of the session's owner is that of a connection with a slot. -/
def reservesSafely (w : World) : Event → Prop
  | .conn i _ => (w.conns[i]?).all (fun c => !c.reserves || w.markHeld c.sessionId) = true
  | _ => True

instance (w : World) : (event : Event) → Decidable (reservesSafely w event)
  | .conn _ _ => inferInstanceAs (Decidable (_ = true))
  | .tick | .create _ _ _ | .mintShadow _ _ | .request _ _ _ | .logout _ | .reap _ | .cleanup | .task _ =>
    inferInstanceAs (Decidable True)

theorem viewers_le_of_markHeld (h : SlotsCounted w) {s : Session}
    (hs : w.manager.session id = some s) (hheld : w.markHeld id) :
    w.viewers id ≤ s.activeConnections - if id ∈ w.manager.ownerConnected then 1 else 0 := by
  have hcount := h.connections hs
  by_cases hmark : id ∈ w.manager.ownerConnected
  · have hany : w.conns.any (owns id) := by simpa [markHeld, hmark] using hheld
    have howner : 0 < w.conns.countP (owns id) := List.countP_pos_iff.mpr (List.any_eq_true.mp hany)
    rw [if_pos hmark]
    omega
  · rw [if_neg hmark]
    omega

structure ViewersCapped (config : Config) (w : World) : Prop where
  config_eq : w.config = config
  counted : SlotsCounted w
  capped : ∀ id, w.viewers id ≤ config.maxViewers

theorem ViewersCapped.init (config : Config) (now : Time) : ViewersCapped config (init config now) :=
  ⟨rfl, SlotsCounted.init config now, fun _ => Nat.zero_le _⟩

theorem ViewersCapped.capped_conn {config : Config} (h : ViewersCapped config w)
    (hlimit : 0 < config.maxViewers) {i : Nat} {input : Input} {c : Conn} (hi : w.conns[i]? = some c)
    (hsafe : reservesSafely w (.conn i input)) (id : Uuid) :
    (w.step (.conn i input)).viewers id ≤ config.maxViewers := by
  have hconns : (w.step (.conn i input)).conns = w.conns.set i (c.next w.config w.now w.manager input) := by
    simp only [step, nextConns, hi]
  have hset := countP_set (p := views id) hi (c.next w.config w.now w.manager input)
  have hbefore := h.capped id
  rw [viewers, hconns]
  rw [viewers] at hbefore
  by_cases hnew : (c.next w.config w.now w.manager input).views id
  swap
  · rw [if_neg hnew] at hset
    omega
  by_cases hold : c.views id
  · rw [if_pos hnew, if_pos hold] at hset
    omega
  -- the connection becomes a viewer: it has made a reservation in this step
  obtain ⟨hid, hviewing⟩ : c.sessionId = id ∧ (c.next w.config w.now w.manager input).pc.viewing := by
    simpa [views] using hnew
  subst hid
  have hnotyet : ¬ c.pc.viewing := by simpa [views] using hold
  cases hpending : c.pending with
  | cons f rest =>
    simp only [next, hpending] at hviewing
    exact absurd hviewing hnotyet
  | nil =>
    simp only [next, hpending] at hviewing
    rcases nextPc_viewing hviewing with hviewing | ⟨readOnly, e, hpc, hreserve⟩
    · exact absurd hviewing hnotyet
    · obtain ⟨s, hs, hlt⟩ := reserve_ok (by rw [h.config_eq]; exact hlimit) hreserve
      have hheld : w.markHeld c.sessionId := by simpa [reservesSafely, hi, reserves, hpending, hpc] using hsafe
      have hle := viewers_le_of_markHeld h.counted hs hheld
      rw [viewers] at hle
      rw [h.config_eq] at hlt
      rw [if_pos hnew, if_neg hold] at hset
      omega

theorem ViewersCapped.step {config : Config} {event : Event} (h : ViewersCapped config w)
    (hlimit : 0 < config.maxViewers) (hsafe : reservesSafely w event) : ViewersCapped config (w.step event) := by
  refine ⟨h.config_eq, h.counted.step event, fun id => ?_⟩
  cases event with
  | conn i input =>
    cases hi : w.conns[i]? with
    | some c => exact h.capped_conn hlimit hi hsafe id
    | none =>
      have hconns : (w.step (.conn i input)).conns = w.conns := by simp only [World.step, World.nextConns, hi]
      rw [World.viewers, hconns]
      exact h.capped id
  | request k identity token =>
    have hnew : (w.step (.request k identity token)).viewers id = w.viewers id := by
      simp [World.viewers, World.step, World.nextConns, views, new, Pc.viewing]
    rw [hnew]
    exact h.capped id
  | _ => exact h.capped id

/-- **The viewer cap.** While every reservation finds the mark of the session's owner cleared or held by a
connection with a slot, no session has more viewers than the cap, nor more than its counter says. -/
theorem viewers_within_cap (config : Config) (now : Time) (events : List Event) (hlimit : 0 < config.maxViewers)
    (hguarded : Guarded step reservesSafely (init config now) events) (id : Uuid) :
    (run step (init config now) events).viewers id ≤ config.maxViewers ∧
      ∀ s, (run step (init config now) events).manager.session id = some s →
        (run step (init config now) events).viewers id ≤ s.activeConnections := by
  have hcapped : ViewersCapped config (run step (init config now) events) :=
    invariant_run step (fun w event hw hsafe => hw.step hlimit hsafe)
      (ViewersCapped.init config now) hguarded
  refine ⟨hcapped.capped id, fun s hs => ?_⟩
  rw [hcapped.counted.connections hs]
  exact Nat.le_add_right _ _

def oneViewerConfig : Config := { plainConfig with maxViewers := 1 }

theorem viewers_within_cap_shared : (run step (init oneViewerConfig 100) sharedSession).viewers 0 ≤ 1 ∧
      (run step (init oneViewerConfig 100) sharedSession).viewers 0 = 1 := by
  have h := viewers_within_cap oneViewerConfig 100 sharedSession (by decide) (by decide +kernel) 0
  exact ⟨h.1, by decide +kernel⟩

/-- The owner's connection has given its slot back and has not cleared the mark yet; a second viewer comes in. -/
def viewerDuringTeardown : List Event :=
  sharedSession ++ [Event.conn 0 (.proxyEnds .browserEnded false), .conn 0 .ok, .request 0 none (some "share")] ++
    steps 2 8

theorem two_viewers_beyond_cap : (run step (init oneViewerConfig 100) viewerDuringTeardown).viewers 0 = 2 ∧
      ((run step (init oneViewerConfig 100) viewerDuringTeardown).conns.map pc) =
        [.settle .owner ⟨.browserEnded, false, 0⟩, .proxy .viewer 100, .proxy .viewer 100] := by
  decide +kernel

end Persea.Sessions
