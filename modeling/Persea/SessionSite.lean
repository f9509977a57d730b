import Persea.SessionCaps
import Persea.SessionHistory

/-! One server with its database and its VDI containers. A duty is work on them that a task has still to do, after its
follow-ups and before its next critical section. -/

namespace Persea.Sessions

open Base List Transition

inductive Worker where
  | conn (i : Nat)
  | task (j : Nat)
  /-- A task nobody waits for. -/
  | detached
deriving DecidableEq, Repr

inductive Work where
  | insertHistory (id : Uuid) (details : SessionDetails)
  | endHistory (id : Uuid) (status : String)
  | stopVdiContainer (id : Uuid)
deriving DecidableEq, Repr

structure Duty where
  worker : Worker
  work : Work
deriving DecidableEq, Repr

/-- The end of `handle_ws`: the container of a session that has ended on the server is stopped, and the history
row is closed when the session has ended. -/
def Conn.duties (m : Manager) (c : Conn) : List Work :=
  match c.pending, c.pc with
  | [], .settle kind outcome =>
    (if outcome.serverDisconnected then [.stopVdiContainer c.sessionId] else []) ++
      match settleNext m c.sessionId kind outcome with
      | .closed (.ended status) =>
        if status = "completed" ∨ status = "error" then [.endHistory c.sessionId status] else []
      | _ => []
  | _, _ => []

/-- A reaper closes the row before it deletes the session; the idle reaper skips a session that is gone. -/
def Reaper.duties (m : Manager) (id : Uuid) : Reaper → List Work
  | .expired => [.endHistory id "max-duration"]
  | .idle => if (m.session id).isSome then [.endHistory id "idle-timeout"] else []

/-- The duties a job takes on in a step. The reaper is the one whose sessions a deletion job works through. -/
def Job.duties (now : Time) (m : Manager) (reaper : Option Reaper) : Job → List Work
  | .logout id => if m.edits id logoutEdit then [.endHistory id "logged_out"] else []
  | .pendingTimeout id due =>
    if due ≤ now ∧ m.edits id pendingTimeoutEdit then [.endHistory id "expired"] else []
  | .scan reaper _ [] (id :: _) => reaper.duties m id
  | .delete (_ :: id :: _) => (reaper.map (Reaper.duties m id)).getD []
  | .cleanupScan _ [] _ (id :: _) => [.endHistory id "expired"]
  | .cleanup _ (id :: toFinalize) => .stopVdiContainer id :: (toFinalize.head?.map (.endHistory · "expired")).toList
  | _ => []

def Task.duties (now : Time) (m : Manager) (reaper : Option Reaper) (t : Task) : List Work :=
  match t.pending with
  | [] => t.job.duties now m reaper
  | _ => []

structure Site where
  world : World
  /-- The writes to the history table so far. -/
  writes : List HistoryWrite
  /-- The sessions whose container runs. -/
  containers : List Uuid
  duties : List Duty
  /-- The reaper each reaping task runs for. -/
  reapers : Store Nat Reaper

open Site

def Site.init (config : Config) (now : Time) : Site :=
  { world := World.init config now, writes := [], containers := [], duties := [], reapers := ∅ }

variable (s : Site)

def Site.history : History := s.writes.foldl History.write []

/-- How `create_session` connects. Only sessions with an ephemeral key pair defer the connection. -/
inductive SessionKind where
  | direct
  | deferred
  | vdi
deriving DecidableEq, Repr

inductive SiteEvent where
  | create (shareToken : String) (kind : SessionKind) (details : SessionDetails)
  /-- A step of a task or of the outside world, other than a creation. -/
  | world (event : Event)
  /-- The detached duty at this place is done. -/
  | detached (k : Nat)
  | shutdown
deriving DecidableEq, Repr

def Event.worker : Event → Option Worker
  | .conn i _ => some (.conn i)
  | .task j => some (.task j)
  | _ => none

variable (w : World)

def World.busy : Worker → Bool
  | .conn i => (w.conns[i]?).any fun c => c.pending ≠ []
  | .task j => (w.tasks[j]?).any fun t => t.pending ≠ []
  | .detached => false

def Site.dutyOf (worker : Worker) : Option Nat :=
  if s.world.busy worker then none else s.duties.findIdx? fun d => d.worker = worker

def Site.due : SiteEvent → Option Nat
  | .world event => event.worker.bind s.dutyOf
  | .detached k => if (s.duties[k]?).any (fun d => d.worker = .detached) then some k else none
  | _ => none

def SiteEvent.worldEvent : SiteEvent → Option Event
  | .create shareToken kind details => some (.create details.createdBy shareToken (kind = .deferred))
  | .world event => if event.isCreate then none else some event
  | _ => none

def Site.newDuties : Event → List Duty
  | .conn i _ =>
    match s.world.conns[i]? with
    | some c => (c.duties s.world.manager).map fun work => ⟨.conn i, work⟩
    | none => []
  | .task j =>
    match s.world.tasks[j]? with
    | some t => (t.duties s.world.now s.world.manager (s.reapers.lookup j)).map fun work => ⟨.task j, work⟩
    | none => []
  | _ => []

def World.creates (event : Event) : Bool := event.isCreate && ((w.step event).manager.session w.nextId).isSome

/-- What a new session brings: the insert of its history row is detached. -/
def SiteEvent.creationDuties (event : Event) : SiteEvent → List Duty
  | .create _ _ details => if w.creates event then [⟨.detached, .insertHistory w.nextId details⟩] else []
  | _ => []

def SiteEvent.newContainers (event : Event) : SiteEvent → List Uuid
  | .create _ .vdi _ => if w.creates event then [w.nextId] else []
  | _ => []

def Site.advance (siteEvent : SiteEvent) (event : Event) : Site :=
  { s with
    world := s.world.step event
    duties := s.duties ++ siteEvent.creationDuties s.world event ++ s.newDuties event
    containers := s.containers ++ siteEvent.newContainers s.world event
    reapers :=
      match event with
      | .reap reaper => s.reapers.insert s.world.tasks.length reaper
      | _ => s.reapers }

def Site.performWork : Work → Site
  | .insertHistory id details => { s with writes := s.writes ++ [.insert s.world.now id details] }
  | .endHistory id status => { s with writes := s.writes ++ [.ended s.world.now id status] }
  | .stopVdiContainer id =>
    if (s.world.manager.session id).isSome then { s with containers := s.containers.erase id } else s

def Site.discharge (k : Nat) : Site :=
  match s.duties[k]? with
  | some d => { s.performWork d.work with duties := s.duties.eraseIdx k }
  | none => s

def Site.step (event : SiteEvent) : Site :=
  match s.due event with
  | some k => s.discharge k
  | none =>
    match event.worldEvent with
    | some e => s.advance event e
    | none =>
      if event = .shutdown then { s with writes := s.writes ++ [.closeAll s.world.now "server_shutdown"] }
      else s

/-! ### One insert for each session -/

def Work.inserts (id : Uuid) : Work → Bool
  | .insertHistory k _ => k = id
  | _ => false

def Site.inserts (s : Site) (id : Uuid) : Nat := s.writes.countP (·.inserts id) + s.duties.countP (·.work.inserts id)

/-- Ids are new, so a row is inserted once. -/
structure InsertsOnce (s : Site) : Prop where
  once : ∀ id, s.inserts id ≤ 1
  new : ∀ id, s.world.nextId ≤ id → s.inserts id = 0

theorem InsertsOnce.init (config : Config) (now : Time) : InsertsOnce (init config now) :=
  ⟨fun _ => Nat.zero_le 1, fun _ _ => rfl⟩

variable (s : Site) (work : Work) (m : Manager)

theorem performWork_inserts (id : Uuid) : (s.performWork work).writes.countP (·.inserts id) =
      s.writes.countP (·.inserts id) + if work.inserts id then 1 else 0 := by
  cases work with
  | insertHistory k details => simp [performWork, Work.inserts, HistoryWrite.inserts, countP_cons]
  | endHistory k status => simp [performWork, Work.inserts, HistoryWrite.inserts]
  | stopVdiContainer k =>
    simp only [performWork, Work.inserts]
    split <;> rfl

theorem performWork_world : (s.performWork work).world = s.world := by
  cases work with
  | insertHistory k details => rfl
  | endHistory k status => rfl
  | stopVdiContainer k =>
    rw [performWork]
    split <;> rfl

theorem discharge_inserts (k : Nat) (id : Uuid) : (s.discharge k).inserts id = s.inserts id := by
  rw [discharge]
  cases hk : s.duties[k]? with
  | none => rfl
  | some d =>
    have herase := countP_eraseIdx (p := fun d => d.work.inserts id) hk
    have hwrite := performWork_inserts s d.work id
    simp only [inserts]
    omega

theorem discharge_world (k : Nat) : (s.discharge k).world = s.world := by
  rw [discharge]
  cases hk : s.duties[k]? with
  | none => rfl
  | some d => exact performWork_world s d.work

theorem Reaper.duties_inserts (k id : Uuid) (reaper : Reaper) :
    ∀ work ∈ reaper.duties m k, work.inserts id = false := by
  intro work hwork
  cases reaper with
  | expired =>
    rw [mem_singleton.mp hwork]
    rfl
  | idle =>
    simp only [Reaper.duties] at hwork
    split at hwork
    · rw [mem_singleton.mp hwork]
      rfl
    · cases hwork

theorem Job.duties_inserts (now : Time) (m : Manager) (reaper : Option Reaper) (job : Job) (id : Uuid) :
    ∀ work ∈ job.duties now m reaper, work.inserts id = false := by
  intro work hwork
  revert hwork
  fun_cases Job.duties now m reaper job with
  | case5 reaper' started k found => exact Reaper.duties_inserts m k id reaper' work
  | case6 k k' ids =>
    intro hwork
    cases reaper with
    | none => cases hwork
    | some reaper => exact Reaper.duties_inserts m k' id reaper work hwork
  | case8 toRemove k toFinalize =>
    intro hwork
    rcases mem_cons.mp hwork with rfl | hwork
    · rfl
    · cases toFinalize with
      | nil => cases hwork
      | cons k' rest =>
        rw [mem_singleton.mp hwork]
        rfl
  | case1 k hedit | case3 k due hdue | case7 started toRemove k rest =>
    intro hwork
    rw [mem_singleton.mp hwork]
    rfl
  | _ =>
    intro hwork
    cases hwork

theorem Conn.duties_inserts (c : Conn) (id : Uuid) : ∀ work ∈ c.duties m, work.inserts id = false := by
  intro work hwork
  rw [Conn.duties] at hwork
  split at hwork
  · rcases mem_append.mp hwork with hwork | hwork
    · split at hwork
      · rw [mem_singleton.mp hwork]
        rfl
      · cases hwork
    · split at hwork
      · split at hwork
        · rw [mem_singleton.mp hwork]
          rfl
        · cases hwork
      · cases hwork
  · cases hwork

theorem Task.duties_inserts (now : Time) (m : Manager) (reaper : Option Reaper) (t : Task) (id : Uuid) :
    ∀ work ∈ t.duties now m reaper, work.inserts id = false := by
  intro work hwork
  rw [Task.duties] at hwork
  split at hwork
  · exact Job.duties_inserts now m reaper t.job id work hwork
  · cases hwork

theorem newDuties_inserts (event : Event) (id : Uuid) : (s.newDuties event).countP (·.work.inserts id) = 0 := by
  rw [countP_eq_zero]
  intro d hd
  rw [Bool.not_eq_true]
  revert hd
  fun_cases newDuties s event with
  | case1 i input c hc =>
    intro hd
    obtain ⟨work, hwork, rfl⟩ := List.mem_map.mp hd
    exact c.duties_inserts s.world.manager id work hwork
  | case3 j t ht =>
    intro hd
    obtain ⟨work, hwork, rfl⟩ := List.mem_map.mp hd
    exact t.duties_inserts _ _ _ id work hwork
  | _ =>
    intro hd
    cases hd

theorem InsertsOnce.advance {s : Site} (h : InsertsOnce s) {siteEvent : SiteEvent} {event : Event}
    (hevent : siteEvent.worldEvent = some event) : InsertsOnce (s.advance siteEvent event) := by
  have hsum : ∀ id, (s.advance siteEvent event).inserts id =
      s.inserts id + (siteEvent.creationDuties s.world event).countP (·.work.inserts id) := by
    intro id
    simp only [Site.inserts, Site.advance, countP_append, newDuties_inserts]
    omega
  cases siteEvent with
  | create shareToken kind details =>
    obtain rfl : Event.create details.createdBy shareToken (kind = .deferred) = event := Option.some.inj hevent
    have hnext : (s.advance (.create shareToken kind details)
        (.create details.createdBy shareToken (kind = .deferred))).world.nextId = s.world.nextId + 1 := rfl
    have hduty : ∀ id, ((SiteEvent.create shareToken kind details).creationDuties s.world
        (.create details.createdBy shareToken (kind = .deferred))).countP (·.work.inserts id) ≤
          if s.world.nextId = id then 1 else 0 := by
      intro id
      simp only [SiteEvent.creationDuties]
      split
      · by_cases hid : s.world.nextId = id <;> simp [Work.inserts, hid]
      · exact Nat.zero_le _
    refine ⟨fun id => ?_, fun id hid => ?_⟩
    · rw [hsum id]
      have hle := hduty id
      split at hle
      · rename_i hid
        have hnew := h.new id (le_of_eq hid)
        omega
      · have honce := h.once id
        omega
    · rw [hnext] at hid
      rw [hsum id]
      have hle := hduty id
      rw [if_neg (Nat.ne_of_lt hid)] at hle
      have hnew := h.new id (Nat.le_of_lt hid)
      omega
  | world e =>
    have hnone : ∀ id, (s.advance (.world e) event).inserts id = s.inserts id := fun id => hsum id
    refine ⟨fun id => (hnone id).trans_le (h.once id), fun id hid => (hnone id).trans (h.new id ?_)⟩
    exact le_trans (s.world.nextId_le_step event) hid
  | detached k | shutdown => cases hevent

/-- **One step.** -/
theorem InsertsOnce.step {s : Site} (h : InsertsOnce s) (event : SiteEvent) : InsertsOnce (s.step event) := by
  rw [Site.step]
  cases s.due event with
  | some k =>
    refine ⟨fun id => ?_, fun id hid => ?_⟩
    · rw [discharge_inserts]
      exact h.once id
    · rw [discharge_world] at hid
      rw [discharge_inserts]
      exact h.new id hid
  | none =>
    cases hevent : event.worldEvent with
    | some e => exact h.advance hevent
    | none =>
      simp only
      split
      · refine ⟨fun id => ?_, fun id hid => ?_⟩
        · simpa [Site.inserts, HistoryWrite.inserts] using h.once id
        · simpa [Site.inserts, HistoryWrite.inserts] using h.new id hid
      · exact h

/-- **Closed rows.** When both the insert of a session's row and an end of the session have run, the row has an end
time exactly when a write that closes it has come after the insert. -/
theorem history_closed_iff (config : Config) (now : Time) (events : List SiteEvent) (id : Uuid)
    (hinsert : (run step (init config now) events).writes.any (·.inserts id) = true)
    (_hend : (run step (init config now) events).writes.any (·.ends id) = true) :
    (run step (init config now) events).history.Closed id ↔
      closedAfterInsert id (run step (init config now) events).writes = true := by
  have honce : InsertsOnce (run step (init config now) events) :=
    invariant_run_of_step step (fun s event hs => hs.step event) (InsertsOnce.init config now)
      events
  apply closed_foldl_iff
  have hle := honce.once id
  have hpos : 0 < (run step (init config now) events).writes.countP (·.inserts id) := by
    rw [countP_pos_iff]
    simpa using hinsert
  rw [inserts] at hle
  omega

def sshDetails : SessionDetails :=
  { sessionType := "ssh", createdBy := "alice@example.com", addressBookEntry := none, entryDisplayName := none }

def insertThenLogout : List SiteEvent :=
  [.create "share" .direct sshDetails, .detached 0, .world (.logout 0), .world (.task 1), .world (.task 1),
    .world (.task 1)]

theorem history_closed_after_insert : (run step (init plainConfig 100) insertThenLogout).history.Closed 0 := by
  have h := history_closed_iff plainConfig 100 insertThenLogout 0 (by decide +kernel) (by decide +kernel)
  exact h.mpr (by decide +kernel)

/-- The session is logged out while the insert of its row waits for a thread. -/
def logoutThenInsert : List SiteEvent :=
  [.create "share" .direct sshDetails, .world (.logout 0), .world (.task 1), .world (.task 1), .world (.task 1),
    .detached 0]

theorem history_open_after_logout : (run step (init plainConfig 100) logoutThenInsert).writes =
        [.ended 100 0 "logged_out", .insert 100 0 sshDetails] ∧
      (run step (init plainConfig 100) logoutThenInsert).world.manager.session 0 = none ∧
      (run step (init plainConfig 100) logoutThenInsert).history = [⟨0, sshDetails, 100, none, "active"⟩] := by
  decide +kernel

end Persea.Sessions
