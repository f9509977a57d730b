import Persea.AuditChain
import Persea.BaseTransition

/-! The audit log of the instances that share one database. A call takes the lock of its own process, which keeps its
two statements together against no other process. -/

namespace Persea.Audit

open Base Transition

inductive Task (DateTime : Type) where
  | waiting (i : Nat) (event : Event DateTime)
  | locked (i : Nat) (event : Event DateTime)
  | tailRead (i : Nat) (event : Event DateTime) (prevHash : Text)
  | done (i : Nat)

structure PoolWorld (DateTime : Type) where
  rows : List Row
  tasks : List (Task DateTime)

inductive PoolEvent (DateTime : Type) where
  | log (i : Nat) (event : Event DateTime)
  | lock (t : Nat)
  | readTail (t : Nat) (ok : Bool)
  | insert (t : Nat) (ok : Bool)

variable {DateTime : Type}

def Task.holds : Task DateTime → Option Nat
  | .locked i _ | .tailRead i _ _ => some i
  | _ => none

def Task.between : Task DateTime → Option Nat
  | .tailRead i _ _ => some i
  | _ => none

def PoolWorld.start : PoolWorld DateTime := ⟨[], []⟩

def PoolWorld.move (w : PoolWorld DateTime) (t : Nat) (task : Task DateTime) : PoolWorld DateTime :=
  { w with tasks := w.tasks.set t task }

def PoolWorld.step (lib : Libraries DateTime) (w : PoolWorld DateTime) : PoolEvent DateTime → PoolWorld DateTime
  | .log i event => { w with tasks := w.tasks ++ [.waiting i event] }
  | .lock t =>
    match w.tasks[t]? with
    | some (.waiting i event) =>
      if ∀ task ∈ w.tasks, task.holds ≠ some i then w.move t (.locked i event) else w
    | _ => w
  | .readTail t ok =>
    match w.tasks[t]? with
    | some (.locked i event) => w.move t (if ok then .tailRead i event (tailHash w.rows) else .done i)
    | _ => w
  | .insert t ok =>
    match w.tasks[t]? with
    | some (.tailRead i event prevHash) =>
      if ok then { w with rows := w.rows ++ [eventRow lib (nextId w.rows) event prevHash] }.move t (.done i)
      else w.move t (.done i)
    | _ => w

/-- The condition: a call reads the last hash while no other instance is between its two statements. -/
def OneWriter (w : PoolWorld DateTime) : PoolEvent DateTime → Prop
  | .readTail t _ => ∀ i ∈ w.tasks[t]?.bind Task.holds, ∀ task ∈ w.tasks, ∀ j ∈ task.between, j = i
  | _ => True

instance (w : PoolWorld DateTime) : (event : PoolEvent DateTime) → Decidable (OneWriter w event)
  | .readTail t _ => inferInstanceAs
      (Decidable (∀ i ∈ w.tasks[t]?.bind Task.holds, ∀ task ∈ w.tasks, ∀ j ∈ task.between, j = i))
  | .log _ _ | .lock _ | .insert _ _ => isTrue trivial

/-! ### The invariant -/

def Task.Sound (lib : Libraries DateTime) (rows : List Row) : Task DateTime → Prop
  | .waiting _ event | .locked _ event => lib.ReadsBack event
  | .tailRead _ event prevHash => lib.ReadsBack event ∧ prevHash = tailHash rows
  | .done _ => True

structure PoolWorld.Inv (lib : Libraries DateTime) (w : PoolWorld DateTime) : Prop where
  linear : Linear lib w.rows
  sound : ∀ (t : Nat) (task : Task DateTime), w.tasks[t]? = some task → task.Sound lib w.rows
  locks : ∀ i, Exclusive (fun task : Task DateTime => task.holds = some i) w.tasks
  /-- One call of the fleet is between its two statements. -/
  alone : Exclusive (fun task : Task DateTime => task.between.isSome) w.tasks

variable {lib : Libraries DateTime} {w : PoolWorld DateTime}

theorem Task.holds_of_between {task : Task DateTime} {i : Nat} (h : task.between = some i) : task.holds = some i := by
  cases task with
  | tailRead => exact h
  | waiting | locked | done => cases h

namespace PoolWorld

theorem inv_start : (start : PoolWorld DateTime).Inv lib where
  linear := .nil
  sound _ _ h := by cases h
  locks _ := exclusive_nil _
  alone := exclusive_nil _

section

variable (hinv : w.Inv lib)

include hinv

theorem Inv.move {t : Nat} {task : Task DateTime} (hsound : task.Sound lib w.rows)
    (hlock : ∀ i, task.holds = some i →
      ∀ (s : Nat) (a : Task DateTime), s ≠ t → w.tasks[s]? = some a → a.holds ≠ some i)
    (halone : task.between.isSome →
      ∀ (s : Nat) (a : Task DateTime), s ≠ t → w.tasks[s]? = some a → ¬a.between.isSome) :
    (w.move t task).Inv lib where
  linear := hinv.linear
  sound s a ha := by
    rcases getElem?_set_cases ha with ⟨-, rfl⟩ | ⟨-, ha⟩
    · exact hsound
    · exact hinv.sound s a ha
  locks i := (hinv.locks i).set (hlock i)
  alone := hinv.alone.set halone

theorem Inv.log (i : Nat) {event : Event DateTime} (hread : lib.ReadsBack event) :
    (w.step lib (.log i event)).Inv lib where
  linear := hinv.linear
  sound t task h := by
    rcases getElem?_concat_cases h with rfl | h
    · exact hread
    · exact hinv.sound t task h
  locks j := (hinv.locks j).concat nofun
  alone := hinv.alone.concat nofun

theorem Inv.lock (t : Nat) : (w.step lib (.lock t)).Inv lib := by
  simp only [step]
  split
  · rename_i i event ht
    split_ifs with hfree
    · have hread : lib.ReadsBack event := hinv.sound t _ ht
      refine hinv.move hread (fun j hj s a _ ha => ?_) nofun
      rw [← Option.some.inj hj]
      exact hfree a (List.mem_of_getElem? ha)
    · exact hinv
  · exact hinv

theorem Inv.readTail {t : Nat} {ok : Bool} (hguard : OneWriter w (.readTail t ok)) :
    (w.step lib (.readTail t ok)).Inv lib := by
  simp only [step]
  split
  · rename_i i event ht
    have hread : lib.ReadsBack event := hinv.sound t _ ht
    cases ok with
    | false => exact hinv.move trivial nofun nofun
    | true =>
      have hholds : i ∈ w.tasks[t]?.bind Task.holds := by
        rw [ht]
        rfl
      refine hinv.move ⟨hread, rfl⟩ (fun j hj s a hs ha haj => ?_) (fun _ s a hs ha hbetween => ?_)
      · exact hs (hinv.locks j s t a _ ha ht haj hj)
      · -- The other instances are kept away by the condition, the calls of this one by its lock.
        obtain ⟨j, hj⟩ := Option.isSome_iff_exists.mp hbetween
        obtain rfl := hguard i hholds a (List.mem_of_getElem? ha) j hj
        exact hs (hinv.locks j s t a _ ha ht (Task.holds_of_between hj) rfl)
  · exact hinv

theorem Inv.insert (t : Nat) (ok : Bool) : (w.step lib (.insert t ok)).Inv lib := by
  simp only [step]
  split
  · rename_i i event prevHash ht
    obtain ⟨hread, rfl⟩ : lib.ReadsBack event ∧ prevHash = tailHash w.rows := hinv.sound t _ ht
    have hdone : (w.move t (.done i)).Inv lib := hinv.move trivial nofun nofun
    split_ifs
    · refine ⟨hinv.linear.concat _ hread, fun s a ha => ?_, hdone.locks, hdone.alone⟩
      rcases getElem?_set_cases ha with ⟨-, rfl⟩ | ⟨hs, ha⟩
      · trivial
      · have hsound := hinv.sound s a ha
        cases a with
        | waiting | locked => exact hsound
        | tailRead => exact absurd (hinv.alone s t _ _ ha ht rfl rfl) hs
        | done => trivial
    · exact hdone
  · exact hinv

end

end PoolWorld

def PoolEvent.ReadsBack (lib : Libraries DateTime) : PoolEvent DateTime → Prop
  | .log _ event => lib.ReadsBack event
  | _ => True

theorem PoolWorld.Inv.step (hinv : w.Inv lib) {event : PoolEvent DateTime}
    (hguard : OneWriter w event ∧ event.ReadsBack lib) : (w.step lib event).Inv lib := by
  obtain ⟨hwriter, hread⟩ := hguard
  cases event with
  | log i event => exact hinv.log i hread
  | lock t => exact hinv.lock t
  | readTail t ok => exact hinv.readTail hwriter
  | insert t ok => exact hinv.insert t ok

/-- **The chain stays linear** as long as one instance writes at a time, and the log then verifies. -/
theorem audit_linear (lib : Libraries DateTime) (events : List (PoolEvent DateTime)) (now : DateTime)
    (hguarded : Guarded (PoolWorld.step lib) OneWriter .start events)
    (hread : ∀ event ∈ events, event.ReadsBack lib) :
    let w := run (PoolWorld.step lib) .start events
    (∀ (k : Nat) (a b : Row), w.rows[k]? = some a → w.rows[k + 1]? = some b → b.prevHash = a.eventHash) ∧
      (verifyChain lib now w.rows none none).status = .verified := by
  intro w
  have hinv : w.Inv lib := invariant_run (PoolWorld.step lib) (fun _ _ h => h.step) PoolWorld.inv_start
    (hguarded.and_of_mem (PoolWorld.step lib) hread)
  have hstatus := hinv.linear.verifyChain_status now
  exact ⟨(verified_of_status hstatus).linked, hstatus⟩

def tookTurns : List (PoolEvent Text) :=
  [.log 0 loginEvent, .log 1 startEvent, .lock 0, .readTail 0 true, .lock 1, .insert 0 true, .readTail 1 true,
    .insert 1 true]

theorem audit_linear_turns : let w := run (PoolWorld.step loginLib) .start tookTurns
    w.rows.length = 2 ∧
      (∀ (k : Nat) (a b : Row), w.rows[k]? = some a → w.rows[k + 1]? = some b → b.prevHash = a.eventHash) ∧
      (verifyChain loginLib [] w.rows none none).status = .verified := by
  have hread : ∀ event ∈ tookTurns, event.ReadsBack loginLib := by
    simp only [tookTurns, List.forall_mem_cons]
    exact ⟨⟨rfl, rfl⟩, ⟨rfl, rfl⟩, trivial, trivial, trivial, trivial, trivial, trivial, nofun⟩
  exact ⟨by decide +kernel, audit_linear loginLib tookTurns [] (by decide +kernel) hread⟩

/-- Both instances read the hash of the last row before either inserts. -/
def forked : List (PoolEvent Text) :=
  [.log 0 loginEvent, .log 1 startEvent, .lock 0, .lock 1, .readTail 0 true, .readTail 1 true, .insert 0 true,
    .insert 1 true]

/-- **The chain forks**: both events are chained to the same row, and the log does not verify. -/
theorem audit_forked : let w := run (PoolWorld.step loginLib) .start forked
    w.rows.map (fun row => (row.eventType, row.prevHash)) =
        [("auth.login".toList, genesisHash), ("session.start".toList, genesisHash)] ∧
      (verifyChain loginLib [] w.rows none none).status = .broken := by
  intro w
  have hrows : w.rows =
      [eventRow loginLib 1 loginEvent genesisHash, eventRow loginLib 2 startEvent genesisHash] := rfl
  have hbroken : (verifyChain loginLib [] w.rows none none).status ≠ .verified := by
    intro hverified
    rw [hrows] at hverified
    have hlinked := (verified_of_status hverified).linked 0 _ _ rfl rfl
    dsimp only [eventRow] at hlinked
    exact loginLib_ne_genesisHash loginEvent hlinked.symm
  constructor
  · rw [hrows]
    rfl
  · cases hstatus : (verifyChain loginLib [] w.rows none none).status with
    | verified => exact absurd hstatus hbroken
    | broken => rfl

end Persea.Audit
