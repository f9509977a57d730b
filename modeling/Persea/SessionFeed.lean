import Persea.SessionEvents
import Persea.BaseLog

/-! The session event feed. Publishers append to a bounded log and then notify a watch channel, in two steps; a
subscriber (`produce_events`) reads on from the last event it has seen. -/

namespace Persea.Sessions

open Base List Transition Bool

def sessionEventLogCap : Nat := 500

structure EventLog where
  events : List SessionEvent
  nextId : Nat
deriving DecidableEq, Repr

def EventLog.empty : EventLog := { events := [], nextId := 1 }

variable (log : EventLog)

def EventLog.append (event : SessionEvent) : EventLog :=
  { events := Log.retain sessionEventLogCap (log.events ++ [{ event with id := log.nextId }])
    nextId := log.nextId + 1 }

def EventLog.evicted : List SessionEvent := log.events.take (log.events.length + 1 - sessionEventLogCap)

def EventLog.replayEvents (since : Nat) : Nat × List SessionEvent :=
  (log.nextId - 1, log.events.filter fun e => since < e.id)

structure Watch where
  value : Nat
  version : Nat
deriving DecidableEq, Repr

def Watch.send (w : Watch) (value : Nat) : Watch := { value, version := w.version + 1 }

inductive Stage where
  | subscribe
  | resume
  | deliver
  | wait
  | read
  | closed
deriving DecidableEq, Repr

structure Subscriber where
  owner : String
  showAll : Bool
  resumeFrom : Option Nat
  stage : Stage
  /-- The version of the channel that the receiver has seen. -/
  seen : Nat
  lastSeen : Nat
  /-- The events read from the log and not yet handled. -/
  batch : List SessionEvent
  sent : List SessionEvent
  /-- The receiving end of the client's channel is open. -/
  listening : Bool
deriving DecidableEq, Repr

open Subscriber

def Subscriber.new (owner : String) (showAll : Bool) (resumeFrom : Option Nat) : Subscriber :=
  { owner, showAll, resumeFrom, stage := .subscribe, seen := 0, lastSeen := resumeFrom.getD 0, batch := [],
    sent := [], listening := true }

def Subscriber.passes (s : Subscriber) (e : SessionEvent) : Bool := s.showAll || e.createdBy = s.owner

def Subscriber.deliver (s : Subscriber) : Subscriber :=
  match s.batch with
  | [] => { s with stage := .wait }
  | e :: rest =>
    if s.passes e then
      if s.listening then { s with lastSeen := e.id, batch := rest, sent := s.sent ++ [e] }
      else { s with lastSeen := e.id, batch := rest, stage := .closed }
    else { s with lastSeen := e.id, batch := rest }

def Subscriber.next (watch : Watch) (s : Subscriber) : Subscriber :=
  match s.stage with
  | .subscribe => { s with seen := watch.version, stage := .resume }
  | .resume =>
    match s.resumeFrom with
    | some since => { s with lastSeen := since, batch := (log.replayEvents since).2, stage := .deliver }
    | none => { s with lastSeen := watch.value, stage := .deliver }
  | .deliver => s.deliver
  | .wait =>
    if s.listening then
      if s.seen = watch.version then s else { s with seen := watch.version, stage := .read }
    else { s with stage := .closed }
  | .read => { s with batch := (log.replayEvents s.lastSeen).2, stage := .deliver }
  | .closed => s

structure Feed where
  log : EventLog
  watch : Watch
  /-- Publishers that have appended and not yet notified, by the id of their event. -/
  sending : List Nat
  subscriber : Subscriber
  /-- Every event published so far. -/
  published : List SessionEvent
deriving DecidableEq, Repr

open Feed

inductive FeedEvent where
  | publish (event : SessionEvent)
  | notify (k : Nat)
  | subscriber
  | hangUp
deriving DecidableEq, Repr

def Feed.init (owner : String) (showAll : Bool) (resumeFrom : Option Nat) : Feed :=
  { log := EventLog.empty, watch := { value := 0, version := 0 }, sending := [],
    subscriber := new owner showAll resumeFrom, published := [] }

def Feed.step (f : Feed) : FeedEvent → Feed
  | .publish event =>
    { f with
      log := f.log.append event
      sending := f.sending ++ [f.log.nextId]
      published := f.published ++ [{ event with id := f.log.nextId }] }
  | .notify k =>
    match f.sending[k]? with
    | some id => { f with watch := f.watch.send id, sending := f.sending.eraseIdx k }
    | none => f
  | .subscriber => { f with subscriber := f.subscriber.next f.log f.watch }
  | .hangUp => { f with subscriber := { f.subscriber with listening := false } }

def Subscriber.unread (s : Subscriber) (e : SessionEvent) : Bool := s.lastSeen < e.id && e ∉ s.batch

/-- No event is evicted that the subscriber has not yet read. -/
def keepsUnread (f : Feed) : FeedEvent → Prop
  | .publish _ => ∀ e ∈ f.log.evicted, f.subscriber.unread e = false
  | _ => True

instance (f : Feed) : (event : FeedEvent) → Decidable (keepsUnread f event)
  | .publish _ => inferInstanceAs (Decidable (∀ e ∈ f.log.evicted, f.subscriber.unread e = false))
  | .notify _ | .subscriber | .hangUp => isTrue trivial

def Feed.idle (f : Feed) : Bool := f.sending = [] ∧ f.subscriber.stage = .wait ∧ f.subscriber.seen = f.watch.version

def Feed.due (f : Feed) (c : Nat) : List SessionEvent := f.published.filter fun e => c < e.id && f.subscriber.passes e

/-! ### What the subscriber has read -/

/-- The subscriber follows the feed: it started at the cursor `c` and has read every event up to `r`. -/
structure Follows (c r : Nat) (f : Feed) : Prop where
  numbered : Log.NumberedFrom SessionEvent.id 0 f.published
  nextId : f.log.nextId = f.published.length + 1
  /-- What has been evicted has been read. -/
  retained : ∃ k, k ≤ f.published.length ∧ k ≤ r ∧ f.log.events = f.published.drop k
  resumeFrom : f.subscriber.resumeFrom = some c
  reach : r ≤ f.published.length ∨ r = c
  cursor_le : c ≤ f.subscriber.lastSeen
  lastSeen_le : f.subscriber.lastSeen ≤ r
  batch : f.subscriber.batch = (f.published.take r).drop f.subscriber.lastSeen
  starting : f.subscriber.stage = .subscribe ∨ f.subscriber.stage = .resume → r = c
  caughtUp : f.subscriber.stage = .wait ∨ f.subscriber.stage = .read → f.subscriber.lastSeen = r
  sublist : f.subscriber.sent.Sublist f.published
  sent : f.subscriber.stage ≠ .closed →
    f.subscriber.sent = ((f.published.take f.subscriber.lastSeen).drop c).filter f.subscriber.passes
  seen_le : f.subscriber.seen ≤ f.watch.version
  /-- An event that has not been read will wake the subscriber up, or has done so. -/
  told : f.subscriber.stage = .deliver ∨ f.subscriber.stage = .wait →
    ∀ e ∈ f.published, r < e.id → e.id ∈ f.sending ∨ f.subscriber.seen < f.watch.version
  listening : f.subscriber.stage = .closed → f.subscriber.listening = false

theorem Follows.init (owner : String) (showAll : Bool) (c : Nat) :
    Follows c c (Feed.init owner showAll (some c)) where
  numbered := trivial
  nextId := rfl
  retained := ⟨0, le_rfl, Nat.zero_le c, rfl⟩
  resumeFrom := rfl
  reach := .inr rfl
  cursor_le := le_rfl
  lastSeen_le := le_rfl
  batch := by simp [Feed.init, new]
  starting := fun _ => rfl
  caughtUp := by simp [Feed.init, new]
  sublist := Sublist.refl []
  sent := by simp [Feed.init, new]
  seen_le := le_rfl
  told := by simp [Feed.init, new]
  listening := nofun

variable {c r : Nat} {f : Feed} {e : SessionEvent}

theorem take_drop_concat {α : Type} (l : List α) (x : α) {a b : Nat} (h : b ≤ l.length ∨ b = a) :
    ((l ++ [x]).take b).drop a = (l.take b).drop a := by
  rcases h with h | rfl
  · rw [take_append_of_le_length h]
  · rw [drop_eq_nil_of_le (length_take_le _ _), drop_eq_nil_of_le (length_take_le _ _)]

section

variable (h : Follows c r f)

include h

theorem Follows.numbered_batch : Log.NumberedFrom SessionEvent.id f.subscriber.lastSeen f.subscriber.batch := by
  have htake : Log.NumberedFrom SessionEvent.id 0 (f.published.take r) := by
    have hsplit : Log.NumberedFrom SessionEvent.id 0 (f.published.take r ++ f.published.drop r) := by
      rw [take_append_drop]
      exact h.numbered
    exact (Log.numberedFrom_append.mp hsplit).1
  have hdrop := htake.drop f.subscriber.lastSeen
  rw [Nat.zero_add] at hdrop
  rw [h.batch]
  exact hdrop

theorem Follows.id_le_of_read (hread : f.subscriber.unread e = false) : e.id ≤ r := by
  by_cases hseen : f.subscriber.lastSeen < e.id
  · have hbatch : e ∈ f.subscriber.batch := by simpa [unread, hseen] using hread
    have hle := h.numbered_batch.key_le e hbatch
    have hlength : f.subscriber.batch.length ≤ r - f.subscriber.lastSeen := by
      rw [h.batch, length_drop]
      exact Nat.sub_le_sub_right (length_take_le r f.published) _
    have hlast := h.lastSeen_le
    omega
  · exact le_trans (not_lt.mp hseen) h.lastSeen_le

theorem Follows.retained_append (event : SessionEvent)
    (hkeeps : keepsUnread f (.publish event)) :
    ∃ k, k ≤ (f.step (.publish event)).published.length ∧ k ≤ r ∧
      (f.step (.publish event)).log.events = (f.step (.publish event)).published.drop k := by
  obtain ⟨k, hk, hkr, hevents⟩ := h.retained
  have hlength : f.log.events.length = f.published.length - k := by rw [hevents, length_drop]
  refine ⟨k + (f.published.length - k + 1 - sessionEventLogCap), ?_, ?_, ?_⟩
  · simp only [step, length_append, length_singleton]
    omega
  · rcases Nat.eq_zero_or_pos (f.published.length - k + 1 - sessionEventLogCap) with hzero | hpos
    · omega
    -- the last evicted event has the number `k` plus the number of evicted events
    · have hcap : 0 < sessionEventLogCap := by decide
      have hindex : f.published.length - k + 1 - sessionEventLogCap - 1 < f.log.events.length := by omega
      obtain ⟨e, he⟩ : ∃ e, f.log.events[f.published.length - k + 1 - sessionEventLogCap - 1]? = some e :=
        ⟨_, getElem?_eq_getElem hindex⟩
      have hevicted : e ∈ f.log.evicted := by
        rw [EventLog.evicted, hlength]
        apply mem_of_getElem? (i := f.published.length - k + 1 - sessionEventLogCap - 1)
        rw [getElem?_take, if_pos (by omega)]
        exact he
      have hid : e.id = k + (f.published.length - k + 1 - sessionEventLogCap) := by
        have hnumbered : Log.NumberedFrom SessionEvent.id (0 + k) f.log.events := by
          rw [hevents]
          exact h.numbered.drop k
        rw [hnumbered.key_eq he]
        omega
      rw [← hid]
      exact h.id_le_of_read (hkeeps e hevicted)
  · simp only [step, EventLog.append, hevents]
    exact Log.retain_drop_concat sessionEventLogCap f.published _ hk

theorem Follows.publish (event : SessionEvent) (hkeeps : keepsUnread f (.publish event)) :
    Follows c r (f.step (.publish event)) where
  numbered := by
    refine Log.numberedFrom_append.mpr ⟨h.numbered, ?_⟩
    simp [Log.NumberedFrom, h.nextId]
  nextId := by simp [step, EventLog.append, h.nextId]
  retained := h.retained_append event hkeeps
  resumeFrom := h.resumeFrom
  reach := by
    rcases h.reach with hr | hr
    · left
      simp only [step, length_append]
      omega
    · exact .inr hr
  cursor_le := h.cursor_le
  lastSeen_le := h.lastSeen_le
  batch := by
    have hreach : r ≤ f.published.length ∨ r = f.subscriber.lastSeen := by
      rcases h.reach with hr | hr
      · exact .inl hr
      · exact .inr (le_antisymm (hr ▸ h.cursor_le) h.lastSeen_le)
    calc f.subscriber.batch
        = (f.published.take r).drop f.subscriber.lastSeen := h.batch
      _ = ((f.step (.publish event)).published.take r).drop f.subscriber.lastSeen :=
          (take_drop_concat f.published _ hreach).symm
  starting := h.starting
  caughtUp := h.caughtUp
  sublist := h.sublist.trans (sublist_append_left _ _)
  sent := by
    intro hstage
    have hreach : f.subscriber.lastSeen ≤ f.published.length ∨ f.subscriber.lastSeen = c := by
      rcases h.reach with hr | hr
      · exact .inl (le_trans h.lastSeen_le hr)
      · exact .inr (le_antisymm (hr ▸ h.lastSeen_le) h.cursor_le)
    simp only [step] at hstage ⊢
    rw [take_drop_concat f.published _ hreach]
    exact h.sent hstage
  seen_le := h.seen_le
  told := by
    intro hstage e he hr
    rcases mem_append.mp he with he | he
    · rcases h.told hstage e he hr with hsending | hseen
      · exact .inl (mem_append_left _ hsending)
      · exact .inr hseen
    · rw [mem_singleton.mp he]
      exact .inl (mem_append_right _ (mem_singleton_self _))
  listening := h.listening

theorem Follows.notify (k : Nat) : Follows c r (f.step (.notify k)) := by
  cases hk : f.sending[k]? with
  | none =>
    have hsame : f.step (.notify k) = f := by simp only [step, hk]
    rw [hsame]
    exact h
  | some id =>
    have hstep : f.step (.notify k) =
        { f with watch := f.watch.send id, sending := f.sending.eraseIdx k } := by simp only [step, hk]
    rw [hstep]
    exact { h with
      seen_le := Nat.le_succ_of_le h.seen_le
      told := fun _ _ _ _ => .inr (Nat.lt_succ_of_le h.seen_le) }

theorem Follows.hangUp : Follows c r (f.step .hangUp) := { h with listening := fun _ => rfl }

theorem Follows.replay : (f.log.replayEvents r).2 = f.published.drop r := by
  obtain ⟨k, _, hkr, hevents⟩ := h.retained
  rw [EventLog.replayEvents, hevents]
  exact Log.filter_lt_drop h.numbered hkr

theorem Follows.reads (hlast : f.subscriber.lastSeen = r)
    (hopen : f.subscriber.stage ≠ .closed) :
    Follows c (max r f.published.length)
      { f with subscriber := { f.subscriber with batch := (f.log.replayEvents r).2, stage := .deliver } } where
  numbered := h.numbered
  nextId := h.nextId
  retained := by
    obtain ⟨k, hk, hkr, hevents⟩ := h.retained
    exact ⟨k, hk, le_trans hkr (le_max_left _ _), hevents⟩
  resumeFrom := h.resumeFrom
  reach := by
    rcases le_total r f.published.length with hr | hr
    · exact .inl (max_le hr le_rfl)
    · rcases h.reach with hr' | hr'
      · exact .inl (max_le hr' le_rfl)
      · exact .inr ((max_eq_left hr).trans hr')
  cursor_le := h.cursor_le
  lastSeen_le := le_trans h.lastSeen_le (le_max_left _ _)
  batch := by
    show (f.log.replayEvents r).2 = (f.published.take (max r f.published.length)).drop f.subscriber.lastSeen
    rw [h.replay, take_of_length_le (le_max_right _ _), hlast]
  starting := by simp
  caughtUp := by simp
  sublist := h.sublist
  sent := fun _ => h.sent hopen
  seen_le := h.seen_le
  told := by
    intro _ e he hid
    have hle := h.numbered.key_le e he
    rw [Nat.zero_add] at hle
    exact absurd (lt_of_le_of_lt (le_max_right _ _) hid) (not_lt.mpr hle)
  listening := nofun

theorem Follows.subscribe (hstage : f.subscriber.stage = .subscribe) : Follows c r (f.step .subscriber) := by
  have hstep : f.step .subscriber =
      { f with subscriber := { f.subscriber with seen := f.watch.version, stage := .resume } } := by
    simp only [step, Subscriber.next, hstage]
  rw [hstep]
  exact { h with
    starting := fun _ => h.starting (.inl hstage)
    caughtUp := by simp
    sent := fun _ => h.sent (by rw [hstage]; decide)
    seen_le := le_rfl
    told := by simp
    listening := nofun }

theorem Follows.resume (hstage : f.subscriber.stage = .resume) :
    Follows c (max r f.published.length) (f.step .subscriber) := by
  have hr : r = c := h.starting (.inr hstage)
  have hlast : f.subscriber.lastSeen = r := le_antisymm h.lastSeen_le (hr ▸ h.cursor_le)
  have hstep : f.step .subscriber =
      { f with subscriber := { f.subscriber with batch := (f.log.replayEvents r).2, stage := .deliver } } := by
    simp only [step, Subscriber.next, hstage, h.resumeFrom, ← hr, ← hlast]
  rw [hstep]
  exact h.reads hlast (by rw [hstage]; decide)

theorem Follows.read (hstage : f.subscriber.stage = .read) :
    Follows c (max r f.published.length) (f.step .subscriber) := by
  have hlast : f.subscriber.lastSeen = r := h.caughtUp (.inr hstage)
  have hstep : f.step .subscriber =
      { f with subscriber := { f.subscriber with batch := (f.log.replayEvents r).2, stage := .deliver } } := by
    simp only [step, Subscriber.next, hstage, hlast]
  rw [hstep]
  exact h.reads hlast (by rw [hstage]; decide)

theorem Follows.wait (hstage : f.subscriber.stage = .wait) : Follows c r (f.step .subscriber) := by
  have hopen : f.subscriber.stage ≠ .closed := by rw [hstage]; decide
  cases hlistening : f.subscriber.listening with
  | false =>
    have hstep : f.step .subscriber = { f with subscriber := { f.subscriber with stage := .closed } } := by
      simp only [step, Subscriber.next, hstage, hlistening, false_eq_true, if_false]
    rw [hstep]
    exact { h with
      starting := by simp
      caughtUp := by simp
      sent := fun hnot => absurd rfl hnot
      told := by simp
      listening := fun _ => hlistening }
  | true =>
    by_cases hseen : f.subscriber.seen = f.watch.version
    · have hstep : f.step .subscriber = f := by simp only [step, Subscriber.next, hstage, hlistening, hseen, if_true]
      rw [hstep]
      exact h
    · have hstep : f.step .subscriber =
          { f with subscriber := { f.subscriber with seen := f.watch.version, stage := .read } } := by
        simp only [step, Subscriber.next, hstage, hlistening, hseen, if_true, if_false]
      rw [hstep]
      exact { h with
        starting := by simp
        caughtUp := fun _ => h.caughtUp (.inl hstage)
        sent := fun _ => h.sent hopen
        seen_le := le_rfl
        told := by simp
        listening := nofun }

theorem Follows.head {rest : List SessionEvent} (hbatch : f.subscriber.batch = e :: rest) :
    e.id = f.subscriber.lastSeen + 1 ∧ f.subscriber.lastSeen + 1 ≤ r ∧
      rest = (f.published.take r).drop (f.subscriber.lastSeen + 1) ∧
      (f.published.take (f.subscriber.lastSeen + 1)).drop c =
        (f.published.take f.subscriber.lastSeen).drop c ++ [e] := by
  have hdrop : (f.published.take r).drop f.subscriber.lastSeen = e :: rest := h.batch.symm.trans hbatch
  have hlt : f.subscriber.lastSeen < (f.published.take r).length := by
    by_contra hge
    rw [drop_eq_nil_of_le (not_lt.mp hge)] at hdrop
    cases hdrop
  rw [length_take] at hlt
  have hget : f.published[f.subscriber.lastSeen]? = some e := by
    have hhead : (f.published.take r)[f.subscriber.lastSeen]? = some e := by
      rw [← head?_drop, hdrop]
      rfl
    rwa [getElem?_take_of_lt (lt_of_lt_of_le hlt (min_le_left _ _))] at hhead
  have hid := h.numbered.key_eq hget
  refine ⟨by omega, by omega, ?_, ?_⟩
  · rw [← drop_drop, hdrop]
    rfl
  · have hc : c ≤ (f.published.take f.subscriber.lastSeen).length := by
      rw [length_take]
      have hcursor := h.cursor_le
      omega
    rw [take_add_one, hget, drop_append_of_le_length hc]
    rfl

theorem Follows.deliver_nil (hstage : f.subscriber.stage = .deliver)
    (hbatch : f.subscriber.batch = []) : Follows c r (f.step .subscriber) := by
  have hstep : f.step .subscriber = { f with subscriber := { f.subscriber with stage := .wait } } := by
    simp only [step, Subscriber.next, hstage, Subscriber.deliver, hbatch]
  have hlast : f.subscriber.lastSeen = r := by
    have hnil : (f.published.take r).drop f.subscriber.lastSeen = [] := h.batch.symm.trans hbatch
    have hlength := drop_eq_nil_iff.mp hnil
    rw [length_take] at hlength
    have hcursor := h.cursor_le
    have hle := h.lastSeen_le
    rcases h.reach with hr | hr <;> omega
  rw [hstep]
  exact { h with
    starting := by simp
    caughtUp := fun _ => hlast
    sent := fun _ => h.sent (by rw [hstage]; decide)
    told := fun _ => h.told (.inl hstage)
    listening := nofun }

theorem Follows.deliver_cons (hstage : f.subscriber.stage = .deliver)
    {rest : List SessionEvent} (hbatch : f.subscriber.batch = e :: rest) : Follows c r (f.step .subscriber) := by
  obtain ⟨hid, hle, hrest, htake⟩ := h.head hbatch
  have hopen : f.subscriber.stage ≠ .closed := by rw [hstage]; decide
  have hcursor : c ≤ e.id := by
    have hcursor := h.cursor_le
    omega
  have hstep : f.step .subscriber = { f with subscriber := f.subscriber.deliver } := by
    simp only [step, Subscriber.next, hstage]
  rw [hstep, Subscriber.deliver, hbatch]
  have hsent := h.sent hopen
  have hsublist : (f.published.take e.id).drop c |>.Sublist f.published := (drop_sublist _ _).trans (take_sublist _ _)
  by_cases hpasses : f.subscriber.passes e
  · cases hlistening : f.subscriber.listening with
    | true =>
      have hsent' : f.subscriber.sent ++ [e] = ((f.published.take e.id).drop c).filter f.subscriber.passes := by
        rw [hid, htake, filter_append, hsent, filter_singleton, hpasses]
        rfl
      simp only [hpasses, if_true]
      exact { h with
        cursor_le := hcursor
        lastSeen_le := hid ▸ hle
        batch := hid ▸ hrest
        starting := by simp [hstage]
        caughtUp := by simp [hstage]
        sublist := by
          rw [hsent']
          exact filter_sublist.trans hsublist
        sent := fun _ => hsent'
        listening := fun hclosed => absurd hclosed hopen }
    | false =>
      simp only [hpasses, if_true, false_eq_true, if_false]
      exact { h with
        cursor_le := hcursor
        lastSeen_le := hid ▸ hle
        batch := hid ▸ hrest
        starting := by simp
        caughtUp := by simp
        sent := fun hnot => absurd rfl hnot
        told := by simp
        listening := fun _ => rfl }
  · have hsent' : f.subscriber.sent = ((f.published.take e.id).drop c).filter f.subscriber.passes := by
      rw [hid, htake, filter_append, hsent, filter_singleton, eq_false_iff.mpr hpasses]
      simp
    simp only [hpasses, false_eq_true, if_false]
    exact { h with
      cursor_le := hcursor
      lastSeen_le := hid ▸ hle
      batch := hid ▸ hrest
      starting := by simp [hstage]
      caughtUp := by simp [hstage]
      sent := fun _ => hsent' }

theorem Follows.step {event : FeedEvent} (hkeeps : keepsUnread f event) : ∃ r', Follows c r' (f.step event) := by
  cases event with
  | publish event => exact ⟨r, h.publish event hkeeps⟩
  | notify k => exact ⟨r, h.notify k⟩
  | hangUp => exact ⟨r, h.hangUp⟩
  | subscriber =>
    cases hstage : f.subscriber.stage with
    | subscribe => exact ⟨r, h.subscribe hstage⟩
    | resume => exact ⟨_, h.resume hstage⟩
    | wait => exact ⟨r, h.wait hstage⟩
    | read => exact ⟨_, h.read hstage⟩
    | deliver =>
      cases hbatch : f.subscriber.batch with
      | nil => exact ⟨r, h.deliver_nil hstage hbatch⟩
      | cons e rest => exact ⟨r, h.deliver_cons hstage hbatch⟩
    | closed =>
      have hstep : f.step .subscriber = f := by simp only [Feed.step, Subscriber.next, hstage]
      rw [hstep]
      exact ⟨r, h⟩

end

/-! ### The end of a run -/

theorem Follows.increasing (h : Follows c r f) : (f.subscriber.sent.map SessionEvent.id).Pairwise (· < ·) := by
  rw [pairwise_map]
  exact h.numbered.pairwise.sublist h.sublist

theorem Follows.exact (h : Follows c r f) (hidle : f.idle) : f.subscriber.sent = f.due c := by
  obtain ⟨hsending, hstage, hseen⟩ : f.sending = [] ∧ f.subscriber.stage = .wait ∧
      f.subscriber.seen = f.watch.version := by simpa [idle] using hidle
  have hlast : f.subscriber.lastSeen = r := h.caughtUp (.inl hstage)
  have hall : f.published.length ≤ r := by
    by_contra hlt
    obtain ⟨e, he⟩ : ∃ e, f.published[r]? = some e := ⟨_, getElem?_eq_getElem (not_le.mp hlt)⟩
    have hid : r < e.id := by
      rw [h.numbered.key_eq he]
      omega
    rcases h.told (.inr hstage) e (mem_of_getElem? he) hid with hsent | hnew
    · rw [hsending] at hsent
      cases hsent
    · exact absurd hseen (Nat.ne_of_lt hnew)
  calc f.subscriber.sent
      = ((f.published.take r).drop c).filter f.subscriber.passes := by rw [h.sent (by rw [hstage]; decide), hlast]
    _ = (f.published.drop c).filter f.subscriber.passes := by rw [take_of_length_le hall]
    _ = (f.published.filter fun e => c < e.id).filter f.subscriber.passes := by
        rw [h.numbered.filter_lt c, Nat.sub_zero]
    _ = f.due c := by
        rw [filter_filter, due]
        congr 1
        funext e
        exact Bool.and_comm _ _

/-- The subscriber, left alone, comes to wait with nothing new to see. -/
def Settles (log : EventLog) (watch : Watch) (s : Subscriber) : Prop :=
  ∃ n, ((next log watch)^[n] s).stage = .wait ∧ ((next log watch)^[n] s).seen = watch.version

variable {log : EventLog} {watch : Watch} {s : Subscriber}

theorem Settles.of_next {t : Subscriber} (h : Settles log watch t) (hnext : s.next log watch = t) :
    Settles log watch s := by
  obtain ⟨n, hn⟩ := h
  refine ⟨n + 1, ?_⟩
  rwa [Function.iterate_succ_apply, hnext]

theorem settles_deliver (hlistening : s.listening) (hstage : s.stage = .deliver)
    (hwait : ∀ s' : Subscriber, s'.listening → s'.stage = .wait → s'.seen = s.seen → Settles log watch s') :
    Settles log watch s := by
  induction hbatch : s.batch generalizing s with
  | nil =>
    apply (hwait { s with stage := .wait } hlistening rfl rfl).of_next
    simp only [Subscriber.next, hstage, Subscriber.deliver, hbatch]
  | cons e rest ih =>
    by_cases hpasses : s.passes e = true
    · apply (@ih { s with lastSeen := e.id, batch := rest, sent := s.sent ++ [e] } hlistening hstage hwait rfl).of_next
      simp only [Subscriber.next, hstage, Subscriber.deliver, hbatch, hpasses, hlistening, if_true]
    · apply (@ih { s with lastSeen := e.id, batch := rest } hlistening hstage hwait rfl).of_next
      simp only [Subscriber.next, hstage, Subscriber.deliver, hbatch, hpasses, false_eq_true, if_false]

theorem settles_wait (hlistening : s.listening) (hstage : s.stage = .wait) : Settles log watch s := by
  by_cases hseen : s.seen = watch.version
  · exact ⟨0, hstage, hseen⟩
  · have hread : Settles log watch { s with seen := watch.version, stage := .read } := by
      refine Settles.of_next (settles_deliver (s := { s with
        seen := watch.version, batch := (log.replayEvents s.lastSeen).2, stage := .deliver }) hlistening rfl ?_) rfl
      intro s' _ hstage' hseen'
      exact ⟨0, hstage', hseen'⟩
    apply hread.of_next
    simp only [Subscriber.next, hstage, hlistening, hseen, if_true, if_false]

theorem settles_of_listening (log : EventLog) (watch : Watch) (hlistening : s.listening)
    (hopen : s.stage ≠ .closed) : Settles log watch s := by
  have hdeliver : ∀ s' : Subscriber, s'.listening → s'.stage = .deliver → Settles log watch s' :=
    fun s' hlistening' hstage' =>
      settles_deliver hlistening' hstage' fun _ hlistening'' hstage'' _ => settles_wait hlistening'' hstage''
  have hresume : ∀ s' : Subscriber, s'.listening → s'.stage = .resume → Settles log watch s' := by
    intro s' hlistening' hstage'
    cases hfrom : s'.resumeFrom with
    | some since | none =>
      apply (hdeliver (s'.next log watch) _ _).of_next rfl
      · simpa [Subscriber.next, hstage', hfrom] using hlistening'
      · simp [Subscriber.next, hstage', hfrom]
  cases hstage : s.stage with
  | subscribe =>
    apply (hresume (s.next log watch) _ _).of_next rfl
    · simpa [Subscriber.next, hstage] using hlistening
    · simp [Subscriber.next, hstage]
  | resume => exact hresume s hlistening hstage
  | deliver => exact hdeliver s hlistening hstage
  | wait => exact settles_wait hlistening hstage
  | read =>
    apply (hdeliver (s.next log watch) _ _).of_next rfl
    · simpa [Subscriber.next, hstage] using hlistening
    · simp [Subscriber.next, hstage]
  | closed => exact absurd hstage hopen

theorem run_subscriber (f : Feed) (n : Nat) : run step f (replicate n .subscriber) =
      { f with subscriber := (next f.log f.watch)^[n] f.subscriber } := by
  induction n generalizing f with
  | zero => rfl
  | succ n ih =>
    rw [replicate_succ, run_cons, ih]
    rfl

theorem guarded_subscriber (f : Feed) (n : Nat) : Guarded step keepsUnread f (replicate n .subscriber) := by
  induction n generalizing f with
  | zero => trivial
  | succ n ih => exact ⟨trivial, ih _⟩

theorem follows_run (owner : String) (showAll : Bool) (c : Nat) {events : List FeedEvent}
    (hkeeps : Guarded step keepsUnread (init owner showAll (some c)) events) :
    ∃ r, Follows c r (run step (init owner showAll (some c)) events) := by
  have hstep : ∀ f event, (∃ r, Follows c r f) → keepsUnread f event → ∃ r, Follows c r (f.step event) := by
    rintro f event ⟨r, hr⟩ hsafe
    exact hr.step hsafe
  exact invariant_run step hstep ⟨c, Follows.init owner showAll c⟩ hkeeps

/-- **The feed loses nothing and repeats nothing.** While no event is evicted unread, the ids sent increase, a
subscriber with nothing left to do has sent exactly what passes its filter, and one whose client still listens
gets there once publishing has stopped. -/
theorem feed_exact (owner : String) (showAll : Bool) (c : Nat) (events : List FeedEvent)
    (hkeeps : Guarded step keepsUnread (init owner showAll (some c)) events) :
    ((run step (init owner showAll (some c)) events).subscriber.sent.map
      SessionEvent.id).Pairwise (· < ·) ∧
    ((run step (init owner showAll (some c)) events).idle = true →
      (run step (init owner showAll (some c)) events).subscriber.sent =
        (run step (init owner showAll (some c)) events).due c) ∧
    ((run step (init owner showAll (some c)) events).subscriber.listening = true →
      (run step (init owner showAll (some c)) events).sending = [] →
      ∃ n, (run step (init owner showAll (some c))
          (events ++ replicate n .subscriber)).idle = true ∧
        (run step (init owner showAll (some c))
          (events ++ replicate n .subscriber)).subscriber.sent =
          (run step (init owner showAll (some c))
            (events ++ replicate n .subscriber)).due c) := by
  obtain ⟨r, hr⟩ := follows_run owner showAll c hkeeps
  refine ⟨hr.increasing, hr.exact, ?_⟩
  intro hlistening hsending
  have hopen : (run step (init owner showAll (some c)) events).subscriber.stage ≠ .closed := by
    intro hclosed
    rw [hr.listening hclosed] at hlistening
    cases hlistening
  obtain ⟨n, hstage, hseen⟩ := settles_of_listening
    (run step (init owner showAll (some c)) events).log
    (run step (init owner showAll (some c)) events).watch hlistening hopen
  have hidle : (run step (init owner showAll (some c))
      (events ++ replicate n .subscriber)).idle = true := by
    rw [run_append, run_subscriber]
    simp [idle, hsending, hstage, hseen]
  obtain ⟨r', hr'⟩ := follows_run owner showAll c
    ((guarded_append Feed.step).mpr ⟨hkeeps, guarded_subscriber _ n⟩)
  exact ⟨n, hidle, hr'.exact hidle⟩

/-- Two publishers race with a subscriber that starts between them, and notify in the other order. -/
def racingPublishers : List FeedEvent :=
  let changed (createdBy : String) := FeedEvent.publish ⟨0, .statusChanged, 0, .active, createdBy, 100⟩
  [changed "alice", .subscriber, changed "alice", .subscriber, changed "bob", changed "alice", .notify 3,
    .subscriber, .notify 0, .notify 1, .notify 0] ++ replicate 10 .subscriber

theorem feed_exact_racing : (run step (init "alice" false (some 1)) racingPublishers).subscriber.sent =
        (run step (init "alice" false (some 1)) racingPublishers).due 1 ∧
      (run step (init "alice" false (some 1)) racingPublishers).subscriber.sent.map
        SessionEvent.id = [2, 4] := by
  have h := feed_exact "alice" false 1 racingPublishers (by decide +kernel)
  exact ⟨h.2.1 (by decide +kernel), by decide +kernel⟩

end Persea.Sessions
