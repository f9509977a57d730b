import Persea.SessionManager

/-! The `session_history` table. Three statements write to it: the insert of `create_session`, the update of
`end_session_history`, which closes the open row of one session, and the one of the shutdown, which closes
every open row. -/

namespace Persea.Sessions

structure SessionDetails where
  sessionType : String
  createdBy : String
  addressBookEntry : Option String
  entryDisplayName : Option String
deriving DecidableEq, Repr

structure HistoryRow where
  sessionId : Uuid
  details : SessionDetails
  startedAt : Time
  endedAt : Option Time
  status : String
deriving DecidableEq, Repr

abbrev History := List HistoryRow

variable (t : History)

def History.insertSessionHistory (now : Time) (id : Uuid) (details : SessionDetails) : History :=
  t ++ [{ sessionId := id, details, startedAt := now, endedAt := none, status := "active" }]

def History.close (now : Time) (status : String) (p : HistoryRow → Bool) : History :=
  t.map fun row => if p row && row.endedAt.isNone then { row with endedAt := some now, status } else row

def History.endSessionHistory (now : Time) (id : Uuid) (status : String) : History :=
  t.close now status fun row => row.sessionId = id

def History.closeAllOpenSessions (now : Time) (status : String) : History := t.close now status fun _ => true

inductive HistoryWrite where
  | insert (now : Time) (id : Uuid) (details : SessionDetails)
  | ended (now : Time) (id : Uuid) (status : String)
  | closeAll (now : Time) (status : String)
deriving DecidableEq, Repr

def History.write : HistoryWrite → History
  | .insert now id details => t.insertSessionHistory now id details
  | .ended now id status => t.endSessionHistory now id status
  | .closeAll now status => t.closeAllOpenSessions now status

def HistoryWrite.inserts (id : Uuid) : HistoryWrite → Bool
  | .insert _ k _ => k = id
  | _ => false

def HistoryWrite.ends (id : Uuid) : HistoryWrite → Bool
  | .ended _ k _ => k = id
  | _ => false

def HistoryWrite.closes (id : Uuid) (write : HistoryWrite) : Bool :=
  match write with
  | .closeAll _ _ => true
  | write => write.ends id

def closedAfterInsert (id : Uuid) : List HistoryWrite → Bool
  | [] => false
  | write :: writes => if write.inserts id then writes.any (·.closes id) else closedAfterInsert id writes

def History.Closed (id : Uuid) : Prop := ∀ row ∈ t, row.sessionId = id → row.endedAt.isSome = true

instance (t : History) (id : Uuid) : Decidable (t.Closed id) :=
  inferInstanceAs (Decidable (∀ row ∈ t, row.sessionId = id → row.endedAt.isSome = true))

section Closed

variable {id : Uuid} {t : History}

variable {writes : List HistoryWrite} {p : HistoryRow → Bool} {status : String}

theorem closed_close_of_not {now : Time} (hp : ∀ row, row.sessionId = id → p row = false) :
    (t.close now status p).Closed id ↔ t.Closed id := by
  constructor
  · intro h row hrow hid
    apply h row _ hid
    refine List.mem_map.mpr ⟨row, hrow, ?_⟩
    rw [hp row hid]
    rfl
  · intro h row' hrow' hid
    obtain ⟨row, hrow, rfl⟩ := List.mem_map.mp hrow'
    have hsame : (if p row && row.endedAt.isNone then { row with endedAt := some now, status } else row).sessionId =
        row.sessionId := by split <;> rfl
    rw [hsame] at hid
    rw [hp row hid]
    exact h row hrow hid

theorem closed_close {now : Time} (hp : ∀ row, row.sessionId = id → p row) :
    (t.close now status p).Closed id := by
  intro row' hrow' hid
  obtain ⟨row, _, rfl⟩ := List.mem_map.mp hrow'
  cases hend : row.endedAt with
  | some time => simp [hend]
  | none =>
    have hid' : row.sessionId = id := by split at hid <;> exact hid
    simp [hp row hid']

variable {write : HistoryWrite}

theorem closed_write_of_closes (h : write.closes id) : (t.write write).Closed id := by
  cases write with
  | insert now k details => cases h
  | ended now k status =>
    have hk : k = id := by simpa [HistoryWrite.closes, HistoryWrite.ends] using h
    apply closed_close
    intro row hid
    simp [hid, hk]
  | closeAll now status => exact closed_close fun _ _ => rfl

theorem closed_write (hnot : write.inserts id = false) :
    (t.write write).Closed id ↔ t.Closed id ∨ write.closes id := by
  cases hcloses : write.closes id with
  | true => exact iff_of_true (closed_write_of_closes hcloses) (.inr rfl)
  | false =>
    rw [or_iff_left (by decide)]
    cases write with
    | insert now k details =>
      have hk : k ≠ id := by simpa [HistoryWrite.inserts] using hnot
      simp [History.write, History.insertSessionHistory, History.Closed, or_imp, forall_and, hk]
    | ended now k status =>
      have hk : k ≠ id := by simpa [HistoryWrite.closes, HistoryWrite.ends] using hcloses
      apply closed_close_of_not
      intro row hid
      simpa [hid] using hk.symm
    | closeAll now status => cases hcloses

theorem not_closed_insert (h : write.inserts id) : ¬(t.write write).Closed id := by
  cases write with
  | insert now k details =>
    have hk : k = id := by simpa [HistoryWrite.inserts] using h
    intro hclosed
    have hrow := hclosed _ (List.mem_append_right t (List.mem_singleton_self _)) hk
    cases hrow
  | ended now k status => cases h
  | closeAll now status => cases h

theorem closed_foldl_of_not (hnot : writes.countP (·.inserts id) = 0) :
    History.Closed (writes.foldl History.write t) id ↔ t.Closed id ∨ writes.any (·.closes id) := by
  induction writes generalizing t with
  | nil => simp
  | cons write writes ih =>
    obtain ⟨hwrite, hwrites⟩ : write.inserts id = false ∧ writes.countP (·.inserts id) = 0 := by
      rw [List.countP_cons] at hnot
      cases hins : write.inserts id with
      | true => simp [hins] at hnot
      | false => exact ⟨rfl, by simpa [hins] using hnot⟩
    rw [List.foldl_cons, ih hwrites, closed_write hwrite, List.any_cons, Bool.or_eq_true, or_assoc]

theorem closed_foldl_iff (hone : writes.countP (·.inserts id) = 1) :
    History.Closed (writes.foldl History.write t) id ↔ closedAfterInsert id writes := by
  induction writes generalizing t with
  | nil => cases hone
  | cons write writes ih =>
    rw [List.countP_cons] at hone
    rw [List.foldl_cons, closedAfterInsert]
    cases hins : write.inserts id with
    | true =>
      have hrest : writes.countP (·.inserts id) = 0 := by simpa [hins] using hone
      rw [closed_foldl_of_not hrest, if_pos rfl, or_iff_right (not_closed_insert hins)]
    | false =>
      have hrest : writes.countP (·.inserts id) = 1 := by simpa [hins] using hone
      rw [ih hrest, if_neg (by decide)]

end Closed

end Persea.Sessions
