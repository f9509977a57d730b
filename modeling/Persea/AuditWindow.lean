import Persea.AuditChain

/-! Verification of a part of the log. The bounds of `verify_chain` select rows by their timestamps; a part of an
untampered log verifies only if nothing before it was left out. -/

namespace Persea.Audit

open Base List

variable {DateTime : Type} {lib : Libraries DateTime}

def withinBounds (fromTs toTs : Option Text) (timestamp : Text) : Bool :=
  (fromTs.all fun f => textLe f timestamp) && toTs.all fun t => textLe timestamp t

def Selected (lib : Libraries DateTime) (fromTs toTs : Option Text) (event : Event DateTime) : Prop :=
  withinBounds fromTs toTs (lib.toRfc3339 event.timestamp) = true

instance (fromTs toTs : Option Text) (event : Event DateTime) : Decidable (Selected lib fromTs toTs event) :=
  inferInstanceAs (Decidable (_ = true))

/-- Nothing that is not selected was logged before something that is. -/
def SelectedFirst (lib : Libraries DateTime) (fromTs toTs : Option Text) (events : List (Event DateTime)) : Prop :=
  events.Pairwise fun earlier later => Selected lib fromTs toTs later → Selected lib fromTs toTs earlier

instance (fromTs toTs : Option Text) (events : List (Event DateTime)) :
    Decidable (SelectedFirst lib fromTs toTs events) :=
  inferInstanceAs (Decidable (events.Pairwise _))

def ReadAsLogged (lib : Libraries DateTime) (now : DateTime) (event : Event DateTime) : Prop :=
  (readRow lib now (eventRow lib 1 event genesisHash)).toEvent = event

variable {event : Event DateTime} {fromTs toTs : Option Text} {events : List (Event DateTime)}

theorem readAsLogged_of_readsBack (h : lib.ReadsBack event) (now : DateTime) : ReadAsLogged lib now event :=
  readRow_eventRow h now 1 genesisHash

def selectedRows (fromTs toTs : Option Text) (rows : List Row) : List Row :=
  rows.filter fun row => withinBounds fromTs toTs row.timestamp

theorem nextId_of_ids {rows : List Row} {n : Nat} (h : rows.map Row.id = (range n).map fun k : Nat => (k : Int) + 1) :
    nextId rows = (n : Int) + 1 := by
  rw [nextId, ← getLast?_map, h, getLast?_map, getLast?_range]
  cases n with
  | zero => rfl
  | succ n => simp

theorem writeLog_ids (events : List (Event DateTime)) :
    (writeLog lib events).map Row.id = (range events.length).map fun k : Nat => (k : Int) + 1 := by
  induction events using reverseRecOn with
  | nil => rfl
  | append_singleton events event ih =>
    rw [writeLog_concat, logEvent, map_append, ih, length_append, length_singleton,
      range_succ, map_append, map_singleton, map_singleton]
    simp only [eventRow, nextId_of_ids ih]

theorem nextId_writeLog (events : List (Event DateTime)) : nextId (writeLog lib events) = (events.length : Int) + 1 :=
  nextId_of_ids (writeLog_ids events)

theorem tailHash_concat (events : List (Event DateTime)) (event : Event DateTime) :
    tailHash (writeLog lib (events ++ [event])) = computeEventHash lib event := by
  simp [writeLog_concat, logEvent, tailHash, eventRow]

theorem min?_writeLog_ids (first : Event DateTime) (events : List (Event DateTime)) :
    ((writeLog lib (first :: events)).map Row.id).min? = some 1 := by
  rw [writeLog_ids, min?_eq_some_iff]
  constructor
  · exact mem_map.mpr ⟨0, by simp, rfl⟩
  · intro id hid
    obtain ⟨k, -, rfl⟩ := mem_map.mp hid
    omega

theorem selectedRows_concat_of_selected (events : List (Event DateTime)) (h : Selected lib fromTs toTs event) :
    selectedRows fromTs toTs (writeLog lib (events ++ [event])) = selectedRows fromTs toTs (writeLog lib events) ++
        [eventRow lib (nextId (writeLog lib events)) event (tailHash (writeLog lib events))] := by
  have hin : withinBounds fromTs toTs (lib.toRfc3339 event.timestamp) := h
  rw [writeLog_concat, logEvent, selectedRows, filter_append, filter_singleton]
  simp only [eventRow, hin]
  rfl

theorem selectedRows_concat_of_not_selected (events : List (Event DateTime)) (h : ¬Selected lib fromTs toTs event) :
    selectedRows fromTs toTs (writeLog lib (events ++ [event])) = selectedRows fromTs toTs (writeLog lib events) := by
  have hout : withinBounds fromTs toTs (lib.toRfc3339 event.timestamp) = false := Bool.not_eq_true _ ▸ h
  rw [writeLog_concat, logEvent, selectedRows, filter_append, filter_singleton]
  simp only [eventRow, hout]
  exact append_nil _

theorem selectedFirst_concat_iff :
    SelectedFirst lib fromTs toTs (events ++ [event]) ↔ SelectedFirst lib fromTs toTs events ∧
      (Selected lib fromTs toTs event → ∀ earlier ∈ events, Selected lib fromTs toTs earlier) := by
  rw [SelectedFirst, SelectedFirst, pairwise_append]
  refine and_congr_right fun _ => ⟨fun h hevent earlier hearlier => ?_, fun h => ⟨pairwise_singleton _ _, ?_⟩⟩
  · exact h.2 earlier hearlier event mem_cons_self hevent
  · intro earlier hearlier later hlater hselected
    rw [mem_singleton.mp hlater] at hselected
    exact h hselected earlier hearlier

theorem exists_of_mem_selectedRows {row : Row} (h : row ∈ selectedRows fromTs toTs (writeLog lib events)) :
    ∃ event ∈ events, Selected lib fromTs toTs event ∧ row.eventHash = computeEventHash lib event := by
  obtain ⟨hmem, hbounds⟩ := mem_filter.mp h
  obtain ⟨k, hk⟩ := mem_iff_getElem?.mp hmem
  obtain ⟨event, hevent, hrow⟩ := writeLog_row hk
  refine ⟨event, mem_of_getElem? hevent, ?_, by rw [hrow]; rfl⟩
  rw [hrow] at hbounds
  exact hbounds

section

variable (hinj : Function.Injective (computeEventHash lib))

include hinj

theorem hashErrors_eventRow_iff (now : DateTime) (id : Int) (event : Event DateTime) (prevHash : Text) :
    hashErrors lib (readRow lib now (eventRow lib id event prevHash)) = [] ↔ ReadAsLogged lib now event := by
  rw [hashErrors_eq_nil]
  exact ⟨fun h => hinj h, fun h => congrArg (computeEventHash lib) h⟩

theorem prevErrors_next_iff (now : DateTime) (hgenesis : ∀ event ∈ events, computeEventHash lib event ≠ genesisHash)
    (hfirst : SelectedFirst lib fromTs toTs events) (event : Event DateTime) :
    prevErrors (some 1)
        (((selectedRows fromTs toTs (writeLog lib events)).map (readRow lib now)).getLast?.map AuditEvent.eventHash)
        (readRow lib now (eventRow lib (nextId (writeLog lib events)) event (tailHash (writeLog lib events)))) = [] ↔
      ∀ earlier ∈ events, Selected lib fromTs toTs earlier := by
  cases events using reverseRecOn with
  | nil => exact iff_of_true (prevErrors_none rfl) nofun
  | append_singleton events last =>
    have hprev : (readRow lib now (eventRow lib (nextId (writeLog lib (events ++ [last]))) event
        (tailHash (writeLog lib (events ++ [last]))))).prevHash = computeEventHash lib last := tailHash_concat _ _
    obtain ⟨-, hlast⟩ := selectedFirst_concat_iff.mp hfirst
    by_cases hselected : Selected lib fromTs toTs last
    · -- the last row is the last one that is selected
      refine iff_of_true ?_ ?_
      · rw [selectedRows_concat_of_selected _ hselected, map_append, map_singleton, getLast?_concat]
        exact prevErrors_some_eq_nil.mpr hprev
      · intro earlier hearlier
        rcases mem_append.mp hearlier with hearlier | hearlier
        · exact hlast hselected earlier hearlier
        · rwa [mem_singleton.mp hearlier]
    · refine iff_of_false ?_ fun h => hselected (h last (mem_append_right _ mem_cons_self))
      rw [selectedRows_concat_of_not_selected _ hselected, getLast?_map]
      cases hrow : (selectedRows fromTs toTs (writeLog lib events)).getLast? with
      | none =>
        -- nothing is selected yet, and the row is neither the first one nor chained to nothing
        have hid : (readRow lib now (eventRow lib (nextId (writeLog lib (events ++ [last]))) event
            (tailHash (writeLog lib (events ++ [last]))))).id ≠ 1 := by
          change nextId (writeLog lib (events ++ [last])) ≠ 1
          rw [nextId_writeLog, length_append, length_singleton]
          omega
        have hne := hgenesis last (mem_append_right _ mem_cons_self)
        rw [← hprev] at hne
        simp [prevErrors, hne, Ne.symm hid]
      | some row =>
        -- the last row that is selected has the hash of another event
        intro hnil
        obtain ⟨earlier, -, hearlier, hhash⟩ := exists_of_mem_selectedRows (mem_of_getLast? hrow)
        have hsame := hprev.symm.trans ((prevErrors_some_eq_nil.mp hnil).trans hhash)
        exact hselected (hinj hsame ▸ hearlier)

end

/-- **A part of an untampered log verifies** exactly when nothing was left out before an event that is in it, and
what is in it is read as it was logged. -/
theorem verifyChain_writeLog_iff (hsha : Function.Injective lib.sha256Hex) (hrfc : Function.Injective lib.toRfc3339)
    {events : List (Event DateTime)} (hgenesis : ∀ event ∈ events, computeEventHash lib event ≠ genesisHash)
    (now : DateTime) (fromTs toTs : Option Text) :
    (verifyChain lib now (writeLog lib events) fromTs toTs).status = .verified ↔
      SelectedFirst lib fromTs toTs events ∧
        ∀ event ∈ events, Selected lib fromTs toTs event → ReadAsLogged lib now event := by
  have hinj := computeEventHash_injective hsha hrfc
  have hvalid : Valid lib (some 1) none ((selectedRows fromTs toTs (writeLog lib events)).map (readRow lib now)) ↔
      SelectedFirst lib fromTs toTs events ∧
        ∀ event ∈ events, Selected lib fromTs toTs event → ReadAsLogged lib now event := by
    induction events using reverseRecOn with
    | nil => simp [selectedRows, writeLog, Valid, SelectedFirst]
    | append_singleton events event ih =>
      have hgenesis' : ∀ e ∈ events, computeEventHash lib e ≠ genesisHash :=
        fun e he => hgenesis e (mem_append_left _ he)
      have ih := ih hgenesis'
      rw [selectedFirst_concat_iff, forall_mem_append, forall_mem_singleton]
      by_cases hselected : Selected lib fromTs toTs event
      · rw [selectedRows_concat_of_selected _ hselected, map_append, map_singleton, valid_concat_iff, ih,
          Option.or_none, hashErrors_eventRow_iff hinj]
        constructor
        · rintro ⟨⟨hfirst, hread⟩, hprev, hreadEvent⟩
          have hall := (prevErrors_next_iff hinj now hgenesis' hfirst event).mp hprev
          exact ⟨⟨hfirst, fun _ => hall⟩, hread, fun _ => hreadEvent⟩
        · rintro ⟨⟨hfirst, hall⟩, hread, hreadEvent⟩
          have hprev := (prevErrors_next_iff hinj now hgenesis' hfirst event).mpr (hall hselected)
          exact ⟨⟨hfirst, hread⟩, hprev, hreadEvent hselected⟩
      · rw [selectedRows_concat_of_not_selected _ hselected, ih]
        constructor
        · rintro ⟨hfirst, hread⟩
          exact ⟨⟨hfirst, fun h => absurd h hselected⟩, hread, fun h => absurd h hselected⟩
        · rintro ⟨⟨hfirst, -⟩, hread, -⟩
          exact ⟨hfirst, hread⟩
  rw [← hvalid]
  cases events with
  | nil => simp [verifyChain, writeLog, verifyEvents, selectedRows, Valid]
  | cons first rest =>
    have hmin : ((writeLog lib (first :: rest)).map Row.id).min? = some 1 := min?_writeLog_ids first rest
    rw [← hmin, ← verifyEvents_status]
    rfl

theorem verifyChain_until_start :
    (verifyChain loginLib [] (writeLog loginLib loginEvents) none (some startEvent.timestamp)).status = .verified := by
  have hsha : Function.Injective loginLib.sha256Hex := by
    dsimp only [loginLib]
    exact knownSha_injective (by decide +kernel) (by decide +kernel)
  refine (verifyChain_writeLog_iff hsha Function.injective_id (fun event _ => loginLib_ne_genesisHash event) [] none
    (some startEvent.timestamp)).mpr ⟨by decide +kernel, fun event hevent _ => ?_⟩
  exact readAsLogged_of_readsBack (loginLib_readsBack event hevent) []

theorem verifyChain_from_start :
    (verifyChain loginLib [] (writeLog loginLib loginEvents) (some startEvent.timestamp) none).status = .broken := by
  decide +kernel

end Persea.Audit
