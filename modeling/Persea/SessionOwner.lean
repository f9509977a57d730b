import Persea.SessionWorld

/-! Who gets the owner's stream. `ws_handler` checks the identity only when it finds the session pending or
disconnected; `handle_ws` takes the stream whenever the session is so by then. -/

namespace Persea.Sessions

open Base Auth

def Pc.onOwnerPath : Pc → Bool
  | .connect _ => true
  | .connectFailed _ => true
  | .install _ _ _ => true
  | _ => false

variable (path : OwnerPath) {input : Input} {event : Event} {cfg : Config}

@[simp] theorem OwnerPath.onOwnerPath_otherwise : path.otherwise.onOwnerPath = false := by cases path <;> rfl

theorem OwnerPath.otherwise_ne_authorize : path.otherwise ≠ .authorize := by cases path <;> simp [OwnerPath.otherwise]

/-! ### One connection -/

structure ConnOk (w : World) (c : Conn) : Prop where
  known : c.pc = .authorize ∨ c.authorized = true → c.sessionId < w.nextId
  checked : c.authorized = true → ∀ s, w.manager.session c.sessionId = some s →
    ownerPathAuthorized c.identity (some s.createdBy) = true
  path : c.pc.onOwnerPath = true → c.authorized = true

/-- An unchecked connection that looks for the owner's stream does not find its session in the status. -/
def Conn.looksSafely (m : Manager) (c : Conn) : Bool :=
  match c.pc with
  | .look path => c.authorized || !m.hasStatus c.sessionId path.status
  | _ => true

theorem ConnOk.new (w : World) (id : Uuid) (identity : Option AuthIdentity) (token : Option String) :
    ConnOk w (Conn.new id identity token) := by
  refine ⟨?_, ?_, ?_⟩ <;> simp [Conn.new, Pc.onOwnerPath]

variable {w : World} {c : Conn} {m : Manager}

theorem ConnOk.frame (h : ConnOk w c) (event : Event) : ConnOk (w.step event) c := by
  refine ⟨fun hc => (h.known hc).trans_le (w.nextId_le_step event), fun hauth s' hs' => ?_, h.path⟩
  rcases World.step_session hs' with ⟨createdBy, shareToken, deferred, _, hid⟩ | ⟨s, hs, hcreator⟩
  · exact absurd hid (Nat.ne_of_lt (h.known (.inr hauth)))
  · rw [hcreator]
    exact h.checked hauth s hs

theorem Conn.checked_of_passes (h : c.passes m) {s : Session}
    (hs : m.session c.sessionId = some s) : ownerPathAuthorized c.identity (some s.createdBy) := by
  have hpass : c.pc = .authorize ∧ ownerPathAuthorized c.identity (m.getSessionCreator c.sessionId) := by
    simpa [Conn.passes] using h
  simpa [Manager.getSessionCreator, hs] using hpass.2

theorem exists_session_of_hasStatus {id : Uuid} {status : SessionStatus}
    (h : m.hasStatus id status) : ∃ s, m.session id = some s ∧ s.status = status := by
  cases hs : m.session id with
  | none => simp [Manager.hasStatus, hs] at h
  | some s => exact ⟨s, rfl, by simpa [Manager.hasStatus, hs] using h⟩

theorem lookNext_ne_authorize (m : Manager) (id : Uuid) (path : OwnerPath) : lookNext m id path ≠ .authorize := by
  have hother := path.otherwise_ne_authorize
  rw [lookNext]
  split
  · exact hother
  · split_ifs <;> simp [hother]

theorem lookNext_onOwnerPath {id : Uuid} {path : OwnerPath}
    (h : (lookNext m id path).onOwnerPath) : m.hasStatus id path.status := by
  rw [lookNext] at h
  split at h
  · simp at h
  · rename_i s hs
    by_cases hstatus : s.status = path.status
    · simp [Manager.hasStatus, hs, hstatus]
    · simp [hstatus] at h

theorem validateNext_cases (m : Manager) (now : Time) (c : Conn) :
    validateNext m now c ≠ .authorize ∧ (validateNext m now c).onOwnerPath = false := by
  rw [validateNext]
  split
  · exact ⟨by simp, rfl⟩
  · split <;> exact ⟨by simp, rfl⟩

theorem settleNext_cases (m : Manager) (id : Uuid) (kind : ConnectionKind) (outcome : ProxyOutcome) :
    settleNext m id kind outcome ≠ .authorize ∧ (settleNext m id kind outcome).onOwnerPath = false := by
  rw [settleNext]
  split_ifs
  · exact ⟨by simp, rfl⟩
  · exact ⟨by simp, rfl⟩
  · split
    · exact ⟨by simp, rfl⟩
    · split_ifs <;> exact ⟨by simp, rfl⟩

theorem nextPc_eq_authorize {now : Time} (h : c.nextPc cfg now m input = .authorize) :
    ∃ s, m.session c.sessionId = some s := by
  revert h
  fun_cases Conn.nextPc cfg now m c input <;> intro h
  case case1 _ hpending =>
      obtain ⟨s, hs, _⟩ := exists_session_of_hasStatus hpending
      exact ⟨s, hs⟩
  case case3 _ hdisconnected =>
      obtain ⟨s, hs, _⟩ := exists_session_of_hasStatus hdisconnected
      exact ⟨s, hs⟩
  case case7 path _ => exact absurd h (lookNext_ne_authorize m c.sessionId path)
  case case11 path _ => exact absurd h path.otherwise_ne_authorize
  case case13 path _ _ _ _ => exact absurd h path.otherwise_ne_authorize
  case case14 => exact absurd h (validateNext_cases m now c).1
  case case26 kind outcome _ => exact absurd h (settleNext_cases m c.sessionId kind outcome).1
  all_goals cases h

theorem nextPc_onOwnerPath {now : Time} (h : (c.nextPc cfg now m input).onOwnerPath) :
    c.pc.onOwnerPath ∨ ∃ path, c.pc = .look path ∧ m.hasStatus c.sessionId path.status := by
  revert h
  fun_cases Conn.nextPc cfg now m c input <;> intro h
  case case7 path hpc => exact .inr ⟨path, hpc, lookNext_onOwnerPath h⟩
  case case8 path hpc => exact .inl (by rw [hpc]; rfl)
  case case9 path hpc => exact .inl (by rw [hpc]; rfl)
  case case10 path hpc _ _ => exact .inl (by rw [hpc]; rfl)
  case case11 path _ => simp at h
  case case13 path _ _ _ _ => simp at h
  case case14 => rw [(validateNext_cases m now c).2] at h; cases h
  case case26 kind outcome _ => rw [(settleNext_cases m c.sessionId kind outcome).2] at h; cases h
  all_goals cases h

theorem ConnOk.next (h : ConnOk w c) (hfresh : w.Fresh) (hsafe : c.looksSafely w.manager) (input : Input) :
    ConnOk w (c.next w.config w.now w.manager input) := by
  rw [Conn.next]
  cases hpending : c.pending with
  | cons f rest => exact ⟨h.known, h.checked, h.path⟩
  | nil =>
    refine ⟨?_, ?_, ?_⟩
    · rintro (hpc | hauth)
      · obtain ⟨s, hs⟩ := nextPc_eq_authorize hpc
        exact hfresh c.sessionId s hs
      · rcases Bool.or_eq_true_iff.mp hauth with hauth | hpass
        · exact h.known (.inr hauth)
        · have hpc : c.pc = .authorize := by
            simp only [Conn.passes, decide_eq_true_eq] at hpass
            exact hpass.1
          exact h.known (.inl hpc)
    · intro hauth s hs
      rcases Bool.or_eq_true_iff.mp hauth with hauth | hpass
      · exact h.checked hauth s hs
      · exact Conn.checked_of_passes hpass hs
    · intro hpath
      refine Bool.or_eq_true_iff.mpr (.inl ?_)
      rcases nextPc_onOwnerPath hpath with hbefore | ⟨path, hlook, hstatus⟩
      · exact h.path hbefore
      · simpa [Conn.looksSafely, hlook, hstatus] using hsafe

def ownerSafe (w : World) : Event → Bool
  | .conn i _ => (w.conns[i]?).all (Conn.looksSafely w.manager)
  | _ => true

structure OwnersChecked (w : World) : Prop where
  fresh : w.Fresh
  conns : ∀ c ∈ w.conns, ConnOk w c
  grants : ∀ g ∈ w.ownerGrants, g.authorized = true ∧ ownerPathAuthorized g.identity (some g.creator) = true

theorem OwnersChecked.init (config : Config) (now : Time) : OwnersChecked (World.init config now) :=
  ⟨World.Fresh.init config now, by simp [World.init], by simp [World.init]⟩

theorem ConnOk.grant (h : ConnOk w c) {g : OwnerGrant} (hg : c.grant w.manager = some g) :
    g.authorized ∧ ownerPathAuthorized g.identity (some g.creator) := by
  rw [Conn.grant] at hg
  split at hg
  · rename_i path deferred connected s _ hpc hs
    obtain ⟨_, hg⟩ := Option.ite_none_right_eq_some.mp hg
    cases hg
    have hauth : c.authorized := h.path (by rw [hpc]; rfl)
    exact ⟨hauth, h.checked hauth s hs⟩
  · cases hg

theorem OwnersChecked.nextConns (h : OwnersChecked w) (hsafe : ownerSafe w event) :
    ∀ c ∈ w.nextConns event, ConnOk w c := by
  intro c' hc'
  rcases World.mem_nextConns hc' with hc' | ⟨id, identity, token, rfl⟩ | ⟨i, input, c, rfl, hi, rfl⟩
  · exact h.conns c' hc'
  · exact ConnOk.new w id identity token
  · have hlook : c.looksSafely w.manager := by simpa [ownerSafe, hi] using hsafe
    exact (h.conns c (List.mem_of_getElem? hi)).next h.fresh hlook input

theorem OwnersChecked.nextGrants (h : OwnersChecked w) (event : Event) : ∀ g ∈ w.nextGrants event,
      g.authorized ∧ ownerPathAuthorized g.identity (some g.creator) := by
  intro g hg
  cases event with
  | conn i input =>
    rcases List.mem_append.mp hg with hg | hg
    · exact h.grants g hg
    · obtain ⟨c, hc, hgrant⟩ := Option.bind_eq_some_iff.mp (Option.mem_toList.mp hg)
      exact (h.conns c (List.mem_of_getElem? hc)).grant hgrant
  | _ => exact h.grants g hg

theorem OwnersChecked.step (h : OwnersChecked w) (hsafe : ownerSafe w event) : OwnersChecked (w.step event) :=
  ⟨h.fresh.step event, fun c hc => (h.nextConns hsafe c hc).frame event, h.nextGrants event⟩

def ownerReconnects : List Event :=
  [Event.create "alice@example.com" "share" true, .request 0 (some alice) none] ++ steps 0 6 ++
    ends 0 .browserEnded false ++ [Event.request 0 (some alice) none] ++ steps 1 9

def mallory : AuthIdentity := .user "mallory@example.com" "Mallory" "viewer" []

/-- Mallory passes `ws_handler` without a check while Alice is connected, Alice's browser goes away, and
Mallory's `handle_ws` then reconnects the session. -/
def strangerReconnects : List Event :=
  [Event.create "alice@example.com" "share" true, .request 0 (some alice) none] ++ steps 0 6 ++
    [Event.request 0 (some mallory) none] ++ steps 1 2 ++ ends 0 .browserEnded false ++ steps 1 6

end Persea.Sessions
