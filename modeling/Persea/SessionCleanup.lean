import Persea.SessionSite

/-! The clean-up of ended sessions. `reap_completed_sessions` looks at the status of a session in the scan and in the
finalization only: one that is reconnected after the scan is removed like the others. -/

namespace Persea.Sessions

open Base List Transition Option Site

def Job.picks : Job → List Uuid
  | .cleanupScan _ _ toRemove toFinalize => toRemove ++ toFinalize
  | .cleanup toRemove toFinalize => toRemove ++ toFinalize
  | _ => []

def Job.isCleanup : Job → Bool
  | .cleanup _ _ => true
  | _ => false

inductive ReaperAct where
  | closeHistory
  | stopContainer
  | remove
deriving DecidableEq, Repr

def Work.reaperAct : Work → Option (ReaperAct × Uuid)
  | .endHistory id _ => some (.closeHistory, id)
  | .stopVdiContainer id => some (.stopContainer, id)
  | .insertHistory _ _ => none

def Site.reaperActs (s : Site) : SiteEvent → List (ReaperAct × Uuid)
  | .world (.task j) =>
    match s.world.tasks[j]? with
    | some t =>
      if t.job.isCleanup then
        match s.due (.world (.task j)) with
        | some k => ((s.duties[k]?).bind fun d => d.work.reaperAct).toList
        | none =>
          match t.action s.world.now with
          | .removeSessions ids => ids.map fun id => (.remove, id)
          | _ => []
      else []
    | none => []
  | _ => []

def World.picked (w : World) (id : Uuid) : Bool := w.tasks.any fun t => id ∈ t.job.picks

def Site.action (s : Site) (event : SiteEvent) : Action :=
  match s.due event, event.worldEvent with
  | none, some e => s.world.action e
  | _, _ => .skip

def reconnectsUnpicked (s : Site) (event : SiteEvent) : Prop :=
  ((s.action event).revives s.world.manager).all (fun id => !s.world.picked id) = true

instance (s : Site) (event : SiteEvent) : Decidable (reconnectsUnpicked s event) :=
  inferInstanceAs (Decidable (_ = true))

variable {job : Job} {t : Task} {act : ReaperAct} {d : Duty}

theorem World.spawns_picks {w : World} {event : Event} (h : w.spawns event = some job) :
    job.picks = [] ∧ job.isCleanup = false := by
  cases event with
  | create createdBy shareToken deferred =>
    obtain ⟨_, hjob⟩ := ite_none_right_eq_some.mp h
    cases hjob
    exact ⟨rfl, rfl⟩
  | logout id | reap reaper | cleanup =>
    cases h
    exact ⟨rfl, rfl⟩
  | _ => cases h

section Job

variable {cfg : Config} {now : Time} {m : Manager} {id : Uuid}

theorem not_live_of_picked {p : Session → Bool} (hp : ∀ x, p x → x.isLive = false)
    (h : m.picked p id) : ∃ x, m.session id = some x ∧ x.isLive = false := by
  cases hx : m.session id with
  | none => simp [Manager.picked, hx] at h
  | some x => exact ⟨x, rfl, hp x (by simpa [Manager.picked, hx] using h)⟩

theorem not_live_of_pastCleanupDelay {x : Session} (h : pastCleanupDelay cfg now x) : x.isLive = false := by
  have hstatus : (x.status = .completed ∨ x.status = .error ∨ x.status = .expired) := by
    rw [pastCleanupDelay, decide_eq_true_eq] at h
    exact h.1
  rcases hstatus with h | h | h <;> simp [Session.isLive, h]

theorem not_live_of_pastReconnectWindow {disconnectedAt : Option Time} {x : Session}
    (h : pastReconnectWindow cfg now disconnectedAt x) : x.isLive = false := by
  have hstatus : x.status = .disconnected := by
    rw [pastReconnectWindow, decide_eq_true_eq] at h
    exact h.1
  simp [Session.isLive, hstatus]

def Job.scanPicks (cfg : Config) (m : Manager) (id : Uuid) : Job → Bool
  | .cleanupScan started (k :: _) _ _ =>
    k = id && (m.picked (pastCleanupDelay cfg started) k ||
      m.picked (pastReconnectWindow cfg started (m.disconnectedAt.lookup k)) k)
  | _ => false

theorem Job.next_picks (h : id ∈ (job.next cfg now m).picks) : id ∈ job.picks ∨ job.scanPicks cfg m id := by
  revert h
  fun_cases Job.next cfg now m job with
  | case8 started k todo toRemove toFinalize hpicked | case9 started k todo toRemove toFinalize _ hpicked =>
    intro h
    have hmem : id ∈ toRemove ++ toFinalize ∨ id = k := by
      simp only [Job.picks, mem_append, mem_singleton] at h ⊢
      tauto
    rcases hmem with hmem | rfl
    · exact .inl hmem
    · exact .inr (by simp [Job.scanPicks, hpicked])
  | case10 started k todo toRemove toFinalize => exact .inl
  | case11 started toRemove toFinalize => exact .inl
  | case12 toRemove k toFinalize =>
    intro h
    refine .inl ?_
    simp only [Job.picks, mem_append, mem_cons] at h ⊢
    tauto
  | _ =>
    intro h
    cases h

theorem not_live_of_scanPicks (h : job.scanPicks cfg m id) :
    ∃ x, m.session id = some x ∧ x.isLive = false := by
  revert h
  fun_cases Job.scanPicks cfg m id job with
  | case1 started k todo toRemove toFinalize =>
    intro h
    obtain ⟨hk, hpicked⟩ := (Bool.and_eq_true _ _).mp h
    obtain rfl := of_decide_eq_true hk
    rcases (Bool.or_eq_true _ _).mp hpicked with hpicked | hpicked
    · exact not_live_of_picked (fun x => not_live_of_pastCleanupDelay) hpicked
    · exact not_live_of_picked (fun x => not_live_of_pastReconnectWindow) hpicked
  | case2 =>
    intro h
    cases h

theorem Task.next_picks (h : id ∈ (t.next cfg now m).job.picks) :
    id ∈ t.job.picks ∨ (t.pending = [] ∧ t.job.scanPicks cfg m id) := by
  rw [Task.next] at h
  split at h
  · exact .inl h
  · rename_i hpending
    exact (Job.next_picks h).imp_right fun hscan => ⟨hpending, hscan⟩

theorem Job.duties_picks {reaper : Option Reaper} (hnext : (job.next cfg now m).isCleanup)
    {work : Work} (hwork : work ∈ job.duties now m reaper)
    (hact : work.reaperAct = some (act, id)) : id ∈ (job.next cfg now m).picks := by
  revert hwork
  fun_cases Job.duties now m reaper job with
  | case7 started toRemove k toFinalize =>
    intro hwork
    rw [mem_singleton.mp hwork] at hact
    cases hact
    simp [Job.next, Job.picks]
  | case8 toRemove k toFinalize =>
    intro hwork
    rcases mem_cons.mp hwork with rfl | hwork
    · cases hact
      simp [Job.next, Job.picks]
    · cases toFinalize with
      | nil => cases hwork
      | cons k' toFinalize =>
        rw [mem_singleton.mp hwork] at hact
        cases hact
        simp [Job.next, Job.picks]
  | case3 k due | case4 k due =>
    simp only [Job.next] at hnext
    split at hnext <;> cases hnext
  | case9 =>
    intro hwork
    cases hwork
  | _ => cases hnext

end Job

theorem Task.action_revives (now : Time) (m : Manager) (t : Task) : (t.action now).revives m = none := by
  rw [Task.action]
  split
  · rfl
  · fun_cases Job.action now t.job <;> rfl

/-! ### Picked sessions stay down -/

structure PicksDown (s : Site) : Prop where
  fresh : s.world.Fresh
  known : ∀ (j : Nat) (t : Task) (id : Uuid), s.world.tasks[j]? = some t → id ∈ t.job.picks → id < s.world.nextId
  /-- What a clean-up has picked is not live. -/
  down : ∀ (j : Nat) (t : Task) (id : Uuid) (x : Session), s.world.tasks[j]? = some t → id ∈ t.job.picks →
    s.world.manager.session id = some x → x.isLive = false
  /-- What a clean-up has to do is about what it has picked. -/
  acts : ∀ d ∈ s.duties, ∀ (j : Nat) (t : Task) (act : ReaperAct) (id : Uuid), d.worker = .task j →
    s.world.tasks[j]? = some t → t.job.isCleanup = true → d.work.reaperAct = some (act, id) → id ∈ t.job.picks

theorem PicksDown.init (config : Config) (now : Time) : PicksDown (Site.init config now) where
  fresh := World.Fresh.init config now
  known j t id ht := by simp [Site.init, World.init] at ht
  down j t id x ht := by simp [Site.init, World.init] at ht
  acts d hd := by simp [Site.init] at hd

namespace PicksDown

variable {s : Site} {event : Event} {j : Nat} {t' : Task} {id : Uuid}

theorem before (h : PicksDown s) (ht : (s.world.step event).tasks[j]? = some t') (hid : id ∈ t'.job.picks) :
    id < s.world.nextId ∧ (∀ x, s.world.manager.session id = some x → x.isLive = false) ∧
      (s.world.picked id ∨ ∃ i, event = .task i) := by
  rcases World.getElem_nextTasks ht with ⟨hold, _⟩ | ⟨job, hjob, rfl⟩ | ⟨t, rfl, hold, rfl⟩
  · refine ⟨h.known j t' id hold hid, fun x hx => h.down j t' id x hold hid hx, .inl ?_⟩
    exact List.any_eq_true.mpr ⟨t', mem_of_getElem? hold, decide_eq_true hid⟩
  · rw [(World.spawns_picks hjob).1] at hid
    cases hid
  · rcases Task.next_picks hid with hpicked | ⟨_, hscan⟩
    · exact ⟨h.known j t id hold hpicked, fun x hx => h.down j t id x hold hpicked hx, .inr ⟨j, rfl⟩⟩
    · obtain ⟨x, hx, hdown⟩ := not_live_of_scanPicks hscan
      refine ⟨h.fresh id x hx, fun y hy => ?_, .inr ⟨j, rfl⟩⟩
      rw [hx] at hy
      rwa [← some.inj hy]

theorem stays_down (h : PicksDown s) (hunpicked : ((s.world.action event).revives s.world.manager).all
      (fun id => !s.world.picked id))
    (ht : (s.world.step event).tasks[j]? = some t') (hid : id ∈ t'.job.picks) {x' : Session}
    (hx' : (s.world.step event).manager.session id = some x') : x'.isLive = false := by
  obtain ⟨hlt, hdown, hwhen⟩ := h.before ht hid
  by_contra hlive
  rcases perform_isLive hx' (by simpa using hlive) with ⟨x, hx, hxlive⟩ | hcreate | hrevives
  · rw [hdown x hx] at hxlive
    cases hxlive
  · obtain ⟨createdBy, shareToken, deferred, _, rfl, _⟩ := action_create hcreate
    exact Nat.lt_irrefl _ hlt
  · rcases hwhen with hpicked | ⟨i, rfl⟩
    · rw [hrevives] at hunpicked
      simp [hpicked] at hunpicked
    · -- tasks do not reconnect
      simp only [World.action] at hrevives
      split at hrevives
      · rw [Task.action_revives] at hrevives
        cases hrevives
      · cases hrevives

end PicksDown

theorem due_task_eq_none {s : Site} {j : Nat} (ht : s.world.tasks[j]? = some t) (hpending : t.pending = [])
    (hdue : s.due (.world (.task j)) = none) : ∀ d ∈ s.duties, d.worker ≠ .task j := by
  have hbusy : s.world.busy (.task j) = false := by simp [World.busy, ht, hpending]
  simp only [due, Event.worker, bind_some, dutyOf, hbusy] at hdue
  intro d hd heq
  have hnot := findIdx?_eq_none_iff.mp hdue d hd
  simp [heq] at hnot

theorem due_task_eq_some {s : Site} {j k : Nat} (hdue : s.due (.world (.task j)) = some k)
    (hd : s.duties[k]? = some d) : d.worker = .task j := by
  simp only [due, Event.worker, bind_some, dutyOf] at hdue
  split at hdue
  · cases hdue
  · obtain ⟨hk, hworker, _⟩ := findIdx?_eq_some_iff_getElem.mp hdue
    rw [getElem?_eq_getElem hk] at hd
    rw [some.inj hd] at hworker
    exact of_decide_eq_true hworker

theorem Task.removes_picks {now : Time} {ids : List Uuid} (h : t.action now = .removeSessions ids) :
    ∀ id ∈ ids, id ∈ t.job.picks := by
  intro id hid
  rw [Task.action] at h
  split at h
  · cases h
  · revert h
    fun_cases Job.action now t.job with
    | case6 toRemove =>
      intro h
      obtain rfl := Action.removeSessions.inj h
      simpa [Job.picks] using hid
    | _ =>
      intro h
      cases h

theorem newDuties_picks {s : Site} {event : Event} (hd : d ∈ s.newDuties event) {j : Nat} {t' : Task}
    (hworker : d.worker = .task j) (ht' : (s.world.step event).tasks[j]? = some t')
    (hcleanup : t'.job.isCleanup) {id : Uuid} (hact : d.work.reaperAct = some (act, id)) :
    id ∈ t'.job.picks := by
  revert hd
  fun_cases newDuties s event with
  | case1 i input c hc =>
    intro hd
    obtain ⟨work, _, rfl⟩ := List.mem_map.mp hd
    cases hworker
  | case3 i t ht =>
    intro hd
    obtain ⟨work, hwork, rfl⟩ := List.mem_map.mp hd
    obtain rfl := Worker.task.inj hworker
    have hnext : (s.world.nextTasks (.task i))[i]? = some t' := ht'
    rcases World.getElem_nextTasks hnext with ⟨_, hne⟩ | ⟨job, hjob, _⟩ | ⟨t₀, _, ht₀, rfl⟩
    · exact absurd rfl hne
    · cases hjob
    · obtain rfl : t₀ = t := some.inj (ht₀.symm.trans ht)
      rw [Task.duties] at hwork
      split at hwork
      · rename_i hpending
        simp only [Task.next, hpending] at hcleanup ⊢
        exact Job.duties_picks hcleanup hwork hact
      · cases hwork
  | _ =>
    intro hd
    cases hd

theorem PicksDown.acts_kept {s : Site} (h : PicksDown s) {siteEvent : SiteEvent} {event : Event}
    (hevent : siteEvent.worldEvent = some event) (hdue : s.due siteEvent = none) (hd : d ∈ s.duties)
    {j : Nat} {t' : Task} (hworker : d.worker = .task j) (ht' : (s.world.step event).tasks[j]? = some t')
    (hcleanup : t'.job.isCleanup) {id : Uuid} (hact : d.work.reaperAct = some (act, id)) :
    id ∈ t'.job.picks := by
  rcases World.getElem_nextTasks ht' with ⟨hold, _⟩ | ⟨job, hjob, rfl⟩ | ⟨t, rfl, ht, rfl⟩
  · exact h.acts d hd j t' act id hworker hold hcleanup hact
  · rw [(World.spawns_picks hjob).2] at hcleanup
    cases hcleanup
  · obtain rfl : siteEvent = .world (.task j) := by
      cases siteEvent with
      | world e =>
        simp only [SiteEvent.worldEvent] at hevent
        split at hevent
        · cases hevent
        · rw [some.inj hevent]
      | _ => cases hevent
    cases hpending : t.pending with
    | nil => exact absurd hworker (due_task_eq_none ht hpending hdue d hd)
    | cons f rest =>
      simp only [Task.next, hpending] at hcleanup ⊢
      exact h.acts d hd j t act id hworker ht hcleanup hact

theorem PicksDown.advance {s : Site} (h : PicksDown s) {siteEvent : SiteEvent} {event : Event}
    (hevent : siteEvent.worldEvent = some event) (hdue : s.due siteEvent = none)
    (hguard : reconnectsUnpicked s siteEvent) : PicksDown (s.advance siteEvent event) where
  fresh := h.fresh.step event
  known j t' id ht' hid := Nat.lt_of_lt_of_le (h.before ht' hid).1 (s.world.nextId_le_step event)
  down j t' id x ht' hid hx := by
    rw [reconnectsUnpicked, action, hdue, hevent] at hguard
    exact h.stays_down hguard ht' hid hx
  acts d hd j t' act id hworker ht' hcleanup hact := by
    rcases mem_append.mp hd with hd | hd
    · rcases mem_append.mp hd with hd | hd
      · exact h.acts_kept hevent hdue hd hworker ht' hcleanup hact
      · -- the insert of a history row is detached
        cases siteEvent with
        | create shareToken kind details =>
          simp only [SiteEvent.creationDuties] at hd
          split at hd
          · rw [mem_singleton.mp hd] at hworker
            cases hworker
          · cases hd
        | _ => cases hd
    · exact newDuties_picks hd hworker ht' hcleanup hact

theorem PicksDown.discharge {s : Site} (h : PicksDown s) (k : Nat) : PicksDown (s.discharge k) := by
  have hworld : (s.discharge k).world = s.world := discharge_world s k
  have hduties : ∀ d ∈ (s.discharge k).duties, d ∈ s.duties := by
    intro d hd
    rw [Site.discharge] at hd
    split at hd
    · exact mem_of_mem_eraseIdx hd
    · exact hd
  constructor
  · rw [hworld]
    exact h.fresh
  · rw [hworld]
    exact h.known
  · rw [hworld]
    exact h.down
  · rw [hworld]
    intro d hd
    exact h.acts d (hduties d hd)

/-- **One step.** -/
theorem PicksDown.step {s : Site} (h : PicksDown s) (event : SiteEvent) (hguard : reconnectsUnpicked s event) :
    PicksDown (s.step event) := by
  rw [Site.step]
  cases hdue : s.due event with
  | some k => exact h.discharge k
  | none =>
    cases hevent : event.worldEvent with
    | some e => exact h.advance hevent hdue hguard
    | none =>
      simp only
      split
      · exact ⟨h.fresh, h.known, h.down, h.acts⟩
      · exact h

theorem PicksDown.of_reaperActs {s : Site} (h : PicksDown s) {event : SiteEvent} {id : Uuid}
    (hact : (act, id) ∈ s.reaperActs event) :
    ∃ (j : Nat) (t : Task), s.world.tasks[j]? = some t ∧ id ∈ t.job.picks := by
  revert hact
  fun_cases reaperActs s event with
  | case1 j t ht hcleanup k hdue =>
    intro hact
    obtain ⟨d, hd, hwork⟩ := Option.bind_eq_some_iff.mp (mem_toList.mp hact)
    exact ⟨j, t, ht, h.acts d (mem_of_getElem? hd) j t act id (due_task_eq_some hdue hd) ht hcleanup hwork⟩
  | case2 j t ht hcleanup hdue ids haction =>
    intro hact
    obtain ⟨k, hk, heq⟩ := List.mem_map.mp hact
    obtain ⟨rfl, rfl⟩ := Prod.mk.inj heq
    exact ⟨j, t, ht, Task.removes_picks haction k hk⟩
  | _ =>
    intro hact
    cases hact

/-- **Clean-up.** While no session is reconnected that a clean-up under way has picked, it acts only on sessions
that are neither pending nor active. -/
theorem cleanup_acts_not_live (config : Config) (now : Time) (events : List SiteEvent) (event : SiteEvent)
    (act : ReaperAct) (id : Uuid)
    (hguarded : Guarded step reconnectsUnpicked (init config now) events)
    (hact : (act, id) ∈ (run step (init config now) events).reaperActs event) :
    ∀ x, (run step (init config now) events).world.manager.session id = some x → x.isLive = false := by
  have hdown : PicksDown (run step (init config now) events) :=
    invariant_run step (fun s event hs hguard => hs.step event hguard) (PicksDown.init config now)
      hguarded
  intro x hx
  obtain ⟨j, t, ht, hid⟩ := hdown.of_reaperActs hact
  exact hdown.down j t id x ht hid hx

def reconnecting : List SiteEvent :=
  [SiteEvent.create "share" .deferred sshDetails, .detached 0, .world (.request 0 (some alice) none)] ++
    (steps 0 7 ++ ends 0 .browserEnded false ++
      [Event.tick, .tick, .request 0 (some alice) none] ++ steps 1 6).map .world

def cleanupPicks : List SiteEvent := [.world .cleanup, .world (.task 1), .world (.task 1)]

theorem cleanup_acts_not_live_picked :
    (run step (init plainConfig 100) (reconnecting ++ cleanupPicks)).world.manager.session 0 ≠ none ∧
      ∀ x, (run step (init plainConfig 100)
          (reconnecting ++ cleanupPicks)).world.manager.session 0 = some x → x.isLive = false := by
  have hnotlive := cleanup_acts_not_live plainConfig 100 (reconnecting ++ cleanupPicks) (.world (.task 1))
    .closeHistory 0 (by decide +kernel) (by decide +kernel)
  exact ⟨by decide +kernel, hnotlive⟩

/-- The reconnect gets its stream between the scan and the history row. -/
def reconnectedAfterScan : List SiteEvent := reconnecting ++ cleanupPicks ++ [SiteEvent.world (.conn 1 .ok)]

theorem cleanup_ends_active_session :
    ((run step (init plainConfig 100) reconnectedAfterScan).world.manager.session 0).map
        Session.status = some .active ∧
      (.closeHistory, 0) ∈ (run step (init plainConfig 100) reconnectedAfterScan).reaperActs (.world (.task 1)) ∧
      (run step (init plainConfig 100)
        (reconnectedAfterScan ++ [.world (.task 1)])).history = [⟨0, sshDetails, 100, some 102, "expired"⟩] ∧
      ((run step (init plainConfig 100)
        (reconnectedAfterScan ++ List.replicate 3 (.world (.task 1)))).world.manager.session 0).map
          Session.status = some .active ∧
      (run step (init plainConfig 100)
        (reconnectedAfterScan ++ List.replicate 3 (.world (.task 1)))).reaperActs (.world (.task 1)) =
          [(.remove, 0)] ∧
      (run step (init plainConfig 100)
        (reconnectedAfterScan ++ List.replicate 4 (.world (.task 1)))).world.manager.session 0 = none := by
  decide +kernel

end Persea.Sessions
