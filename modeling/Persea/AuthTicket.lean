import Persea.BaseTransition
import Persea.AuthIdentity

/-! WebSocket tickets over the instances that share one database. A world follows one ticket and every `consume` call
for it, statement by statement. Times are in milliseconds; a row keeps whole seconds. -/

namespace Persea.Auth

open Base List Transition Option

structure WsTicket where
  identity : AuthIdentity
  created : Nat
deriving DecidableEq, Repr

structure TicketRow where
  identity : AuthIdentity
  expiresAt : Nat
deriving DecidableEq, Repr

def wsTicketTtlSecs : Nat := 30

/-- `%Y-%m-%d %H:%M:%S`: the fraction of the second is lost. -/
def registryTs (time : Nat) : Nat := time / 1000

def WsTicket.expiry (t : WsTicket) : Nat := t.created + wsTicketTtlSecs * 1000

def WsTicket.row (t : WsTicket) : TicketRow := ⟨t.identity, registryTs (t.created + wsTicketTtlSecs * 1000)⟩

/-- `created.elapsed().as_secs() <= WS_TICKET_TTL_SECS`. -/
def WsTicket.fresh (t : WsTicket) (now : Nat) : Bool := (now - t.created) / 1000 ≤ wsTicketTtlSecs

inductive Consume where
  | started (i : Nat)
  /-- The local map had the ticket: the row is to be deleted. -/
  | held (identity : AuthIdentity)
  /-- The local map had nothing to offer: the row is to be read. -/
  | missed
  /-- The row has been read and is to be deleted. -/
  | selected (row : TicketRow)
  /-- The row's expiry is to be looked at. -/
  | deleted (row : TicketRow)
  | returned (result : Option AuthIdentity) (time : Nat)
deriving DecidableEq, Repr

open Consume

structure TicketWorld where
  /-- A shared backend is configured. -/
  pool : Bool
  issuer : Nat
  ticket : WsTicket
  now : Nat
  /-- The issuer's map. -/
  entry : Option WsTicket
  row : Option TicketRow
  /-- `create` has returned the ticket. -/
  issued : Bool
  /-- `create` has inserted the row. -/
  persisted : Bool
  calls : List Consume
deriving DecidableEq, Repr

def TicketWorld.create (pool : Bool) (issuer now : Nat) (identity : AuthIdentity) : TicketWorld where
  pool := pool
  issuer := issuer
  ticket := ⟨identity, now⟩
  now := now
  entry := some ⟨identity, now⟩
  row := none
  issued := !pool
  persisted := false
  calls := []

inductive TicketEvent where
  | tick (ms : Nat)
  | insert (ok : Bool)
  /-- The issuer creates another ticket. -/
  | prune
  | cleanupExpired
  | consume (i : Nat)
  | lookup (c : Nat)
  | select (c : Nat) (ok : Bool)
  | delete (c : Nat) (ok : Bool)
  | check (c : Nat)
deriving DecidableEq, Repr

namespace TicketWorld

variable (w : TicketWorld)

def move (c : Nat) (phase : Consume) : TicketWorld := { w with calls := w.calls.set c phase }

def hit (i : Nat) : Option WsTicket := if i = w.issuer then w.entry.filter (·.fresh w.now) else none

/-- The lookup removes the ticket from the map, valid or not. -/
def entryAfter (i : Nat) : Option WsTicket := if i = w.issuer then none else w.entry

def looked : Option WsTicket → Consume
  | some t => if w.pool then .held t.identity else .returned (some t.identity) w.now
  | none => if w.pool then .missed else .returned none w.now

def checked (row : TicketRow) : Consume :=
  .returned (if row.expiresAt * 1000 > w.now then some row.identity else none) w.now

def step : TicketEvent → TicketWorld
  | .tick ms => { w with now := w.now + ms }
  | .insert ok =>
    if w.issued then w
    else { w with issued := true, persisted := ok, row := if ok then some w.ticket.row else w.row }
  | .prune => { w with entry := w.entry.filter fun t => w.now < t.created + wsTicketTtlSecs * 1000 }
  | .cleanupExpired => { w with row := w.row.filter fun row => registryTs (w.now - 5 * 60 * 1000) ≤ row.expiresAt }
  -- Nobody knows the ticket before `create` returns it.
  | .consume i => if w.issued then { w with calls := w.calls ++ [.started i] } else w
  | .lookup c =>
    match w.calls[c]? with
    | some (.started i) => { w with entry := w.entryAfter i }.move c (w.looked (w.hit i))
    | _ => w
  | .select c ok =>
    match w.calls[c]? with
    | some .missed =>
      match w.row, ok with
      | some row, true => w.move c (.selected row)
      | _, _ => w.move c (.returned none w.now)
    | _ => w
  | .delete c ok =>
    match w.calls[c]? with
    | some (.held identity) => { w with row := if ok then none else w.row }.move c (.returned (some identity) w.now)
    | some (.selected row) => { w with row := if ok then none else w.row }.move c (.deleted row)
    | _ => w
  | .check c =>
    match w.calls[c]? with
    | some (.deleted row) => w.move c (w.checked row)
    | _ => w

end TicketWorld

def Consume.inFlight : Consume → Bool
  | .returned _ _ => false
  | _ => true

def Consume.took : Consume → Bool
  | .held _ | .selected _ | .deleted _ | .returned (some _) _ => true
  | _ => false

def Consume.cleaning : Consume → Bool
  | .held _ | .selected _ => true
  | _ => false

def Consume.succeeded : Consume → Bool
  | .returned (some _) _ => true
  | _ => false

/-- The condition: calls for the ticket do not overlap; the issuer's map does not hand out a ticket whose row is
gone; no DELETE fails; a ticket from the map is returned within its 30 seconds. -/
def Undisturbed (w : TicketWorld) : TicketEvent → Prop
  | .consume _ => ∀ phase ∈ w.calls, phase.inFlight = false
  | .lookup c => w.calls[c]? = some (.started w.issuer) → (w.hit w.issuer).isSome →
      (w.persisted → w.row.isSome) ∧ (w.pool ∨ w.now ≤ w.ticket.expiry)
  | .delete c ok => ok = true ∧ (w.calls[c]? = some (.held w.ticket.identity) → w.now ≤ w.ticket.expiry)
  | _ => True

instance (w : TicketWorld) : (event : TicketEvent) → Decidable (Undisturbed w event)
  | .consume _ => inferInstanceAs (Decidable (∀ phase ∈ w.calls, phase.inFlight = false))
  | .lookup _ => inferInstanceAs (Decidable (_ → _ → _ ∧ _))
  | .delete _ _ => inferInstanceAs (Decidable (_ ∧ (_ → _)))
  | .tick _ | .insert _ | .prune | .cleanupExpired | .select _ _ | .check _ => isTrue trivial

variable (result : Option AuthIdentity) (time : Nat)

theorem registryTs_mul_le : registryTs time * 1000 ≤ time := Nat.div_mul_le_self time 1000

theorem expiry_of_row {t : WsTicket} {now : Nat} (h : t.row.expiresAt * 1000 > now) : now ≤ t.expiry := by
  have hrow : t.row.expiresAt * 1000 ≤ t.expiry := registryTs_mul_le _
  omega

def Consume.Genuine (t : WsTicket) : Consume → Prop
  | .held identity => identity = t.identity
  | .selected row | .deleted row => row = t.row
  | .returned (some identity) time => identity = t.identity ∧ time ≤ t.expiry
  | _ => True

structure TicketWorld.Inv (w : TicketWorld) : Prop where
  alone : w.calls.countP inFlight ≤ 1
  once : w.calls.countP took ≤ 1
  /-- Once the ticket is taken, the row is gone or about to be, and so is the map's entry unless there was a row.
  -/
  taken : 0 < w.calls.countP took → (w.row = none ∨ 0 < w.calls.countP cleaning) ∧ (w.entry = none ∨ w.persisted)
  genuine : ∀ phase ∈ w.calls, phase.Genuine w.ticket
  row_genuine : ∀ row, w.row = some row → row = w.ticket.row
  entry_genuine : ∀ t, w.entry = some t → t = w.ticket
  persisted_of_row : w.row.isSome → w.persisted
  unissued : w.issued = false → w.calls = [] ∧ w.row = none
  unpooled : w.pool = false → w.issued ∧ w.row = none

@[simp] theorem Consume.inFlight_returned : (returned result time).inFlight = false := rfl

@[simp] theorem Consume.cleaning_returned : (returned result time).cleaning = false := rfl

theorem Consume.inFlight_of_cleaning {phase : Consume} (h : phase.cleaning) : phase.inFlight := by
  cases phase <;> first | rfl | contradiction

namespace TicketWorld

variable {w : TicketWorld} {c i : Nat} {p q : Consume}

theorem inv_create (pool : Bool) (issuer now : Nat) (identity : AuthIdentity) :
    (create pool issuer now identity).Inv where
  alone := Nat.zero_le _
  once := Nat.zero_le _
  taken h := absurd h (Nat.lt_irrefl 0)
  genuine _ h := absurd h not_mem_nil
  row_genuine _ h := by cases h
  entry_genuine _ h := (some.inj h).symm
  persisted_of_row h := by cases h
  unissued _ := ⟨rfl, rfl⟩
  unpooled h := ⟨congrArg Bool.not h, rfl⟩

theorem none_of_none {α : Type} {a b : Option α} (h : ∀ x, a = some x → b = some x) (hb : b = none) : a = none :=
  eq_none_iff_forall_ne_some.mpr fun x hx => by
    rw [h x hx] at hb
    contradiction

theorem mem_set (hc : w.calls[c]? = some p) : q ∈ w.calls.set c q :=
  List.mem_set (List.getElem?_eq_some_iff.mp hc).1 q

theorem Inv.cleaning_eq_zero (hinv : w.Inv) (hc : w.calls[c]? = some p) (hp : p.inFlight)
    (hclean : p.cleaning = false) : w.calls.countP cleaning = 0 := by
  have hinFlight := countP_set (p := inFlight) hc (.returned none 0)
  have hcleaning := countP_set (p := cleaning) hc (.returned none 0)
  have hle : (w.calls.set c (.returned none 0)).countP cleaning ≤
      (w.calls.set c (.returned none 0)).countP inFlight :=
    countP_mono_left fun _ _ h => inFlight_of_cleaning h
  have halone := hinv.alone
  simp only [hp, hclean, inFlight_returned, cleaning_returned, if_true, if_false,
    Bool.false_eq_true] at hinFlight hcleaning
  omega

theorem Inv.untaken (hinv : w.Inv) (hc : w.calls[c]? = some p) (hp : p.inFlight) (hclean : p.cleaning = false)
    (hthere : w.row.isSome ∨ w.entry.isSome ∧ ¬w.persisted) : w.calls.countP took = 0 := by
  by_contra hne
  obtain ⟨hrow, hentry⟩ := hinv.taken (Nat.pos_of_ne_zero hne)
  have hcleaning := hinv.cleaning_eq_zero hc hp hclean
  have hnorow : w.row = none := hrow.resolve_right (by omega)
  rcases hthere with hsome | ⟨hsome, hnever⟩
  · rw [hnorow] at hsome
    contradiction
  · rw [hentry.resolve_right hnever] at hsome
    contradiction

variable {entry : Option WsTicket} {row : Option TicketRow}

section

variable (hinv : w.Inv)

include hinv

theorem Inv.proceed (hc : w.calls[c]? = some p) (hp : p.inFlight)
    (hrow : ∀ r, row = some r → w.row = some r) (hentry : ∀ t, entry = some t → w.entry = some t)
    (hgenuine : q.Genuine w.ticket) (hcount : q.took → p.took ∨ w.calls.countP took = 0)
    (htaken : q.took → (row = none ∨ q.cleaning) ∧ (entry = none ∨ w.persisted))
    (hclean : p.cleaning → row = none) :
    ({ w with row, entry }.move c q).Inv := by
  have hinFlight := countP_set (p := inFlight) hc q
  have htook := countP_set (p := took) hc q
  have halone := hinv.alone
  have honce := hinv.once
  constructor
  · show (w.calls.set c q).countP inFlight ≤ 1
    rw [if_pos hp] at hinFlight
    split_ifs at hinFlight <;> omega
  · show (w.calls.set c q).countP took ≤ 1
    by_cases hq : q.took
    · rw [if_pos hq] at htook
      rcases hcount hq with hpt | hzero
      · rw [if_pos hpt] at htook
        omega
      · omega
    · rw [if_neg hq] at htook
      omega
  · intro hpos
    by_cases hq : q.took
    · obtain ⟨hgone, hunlisted⟩ := htaken hq
      exact ⟨hgone.imp_right fun h => countP_pos_iff.mpr ⟨q, mem_set hc, h⟩, hunlisted⟩
    · -- Another call has taken the ticket.
      rw [if_neg hq] at htook
      have hle : (w.calls.set c q).countP took ≤ w.calls.countP took := by omega
      have hold := hinv.taken (lt_of_lt_of_le hpos hle)
      refine ⟨.inl ?_, hold.2.imp_left (none_of_none hentry)⟩
      by_cases hpc : p.cleaning
      · exact hclean hpc
      · have hnone := hinv.cleaning_eq_zero hc hp (Bool.eq_false_of_not_eq_true hpc)
        exact none_of_none hrow (hold.1.resolve_right (by omega))
  · intro phase hphase
    rcases mem_or_eq_of_mem_set hphase with hmem | rfl
    · exact hinv.genuine phase hmem
    · exact hgenuine
  · exact fun r hr => hinv.row_genuine r (hrow r hr)
  · exact fun t ht => hinv.entry_genuine t (hentry t ht)
  · intro hsome
    obtain ⟨r, hr⟩ := isSome_iff_exists.mp hsome
    exact hinv.persisted_of_row (isSome_iff_exists.mpr ⟨r, hrow r hr⟩)
  · intro hunissued
    rw [(hinv.unissued hunissued).1] at hc
    contradiction
  · exact fun h => (hinv.unpooled h).imp_right (none_of_none hrow)

theorem Inv.lose (hrow : ∀ r, row = some r → w.row = some r)
    (hentry : ∀ t, entry = some t → w.entry = some t) :
    Inv { w with row, entry } where
  alone := hinv.alone
  once := hinv.once
  taken h := (hinv.taken h).imp (Or.imp_left (none_of_none hrow)) (Or.imp_left (none_of_none hentry))
  genuine := hinv.genuine
  row_genuine r hr := hinv.row_genuine r (hrow r hr)
  entry_genuine t ht := hinv.entry_genuine t (hentry t ht)
  persisted_of_row hsome := by
    obtain ⟨r, hr⟩ := isSome_iff_exists.mp hsome
    exact hinv.persisted_of_row (isSome_iff_exists.mpr ⟨r, hrow r hr⟩)
  unissued h := (hinv.unissued h).imp_right (none_of_none hrow)
  unpooled h := (hinv.unpooled h).imp_right (none_of_none hrow)

/-! ### One lemma per event -/

theorem Inv.tick (ms : Nat) : (w.step (.tick ms)).Inv :=
  ⟨hinv.alone, hinv.once, hinv.taken, hinv.genuine, hinv.row_genuine, hinv.entry_genuine, hinv.persisted_of_row,
    hinv.unissued, hinv.unpooled⟩

theorem Inv.insert (ok : Bool) : (w.step (.insert ok)).Inv := by
  by_cases hissued : w.issued
  · rw [show w.step (.insert ok) = w from if_pos hissued]
    exact hinv
  · rw [show w.step (.insert ok) = _ from if_neg hissued]
    obtain ⟨hcalls, hrow⟩ := hinv.unissued (Bool.eq_false_of_not_eq_true hissued)
    refine ⟨hinv.alone, hinv.once, fun hpos => ?_, hinv.genuine, fun r hr => ?_, hinv.entry_genuine,
      fun hsome => ?_, fun h => ?_, fun h => absurd (hinv.unpooled h).1 hissued⟩
    · simp [hcalls] at hpos
    · cases ok with
      | true => exact (some.inj hr).symm
      | false => exact hinv.row_genuine r hr
    · cases ok with
      | true => rfl
      | false => simp [hrow] at hsome
    · cases h

theorem Inv.consume (hguard : Undisturbed w (.consume i)) : (w.step (.consume i)).Inv := by
  by_cases hissued : w.issued
  swap
  · rw [show w.step (.consume i) = w from if_neg hissued]
    exact hinv
  · rw [show w.step (.consume i) = _ from if_pos hissued]
    have hidle : w.calls.countP inFlight = 0 := countP_eq_zero.mpr fun phase hphase => by simp [hguard phase hphase]
    have htook : (w.calls ++ [started i]).countP took = w.calls.countP took := by
      rw [countP_append]
      rfl
    have hcleaning : (w.calls ++ [started i]).countP cleaning = w.calls.countP cleaning := by
      rw [countP_append]
      rfl
    refine ⟨?_, htook ▸ hinv.once, fun hpos => ?_, fun phase hphase => ?_, hinv.row_genuine, hinv.entry_genuine,
      hinv.persisted_of_row, fun h => ?_, hinv.unpooled⟩
    · show (w.calls ++ [started i]).countP inFlight ≤ 1
      rw [countP_append, hidle]
      exact Nat.le_refl 1
    · show (_ ∨ 0 < (w.calls ++ [started i]).countP cleaning) ∧ _
      rw [hcleaning]
      exact hinv.taken (htook ▸ hpos)
    · rcases mem_append.mp hphase with hmem | hmem
      · exact hinv.genuine phase hmem
      · obtain rfl := mem_singleton.mp hmem
        trivial
    · exact absurd hissued (by simp [show w.issued = false from h])

theorem Inv.hit_eq {t : WsTicket} (h : w.hit i = some t) : t = w.ticket ∧ i = w.issuer ∧ w.entry.isSome := by
  unfold hit at h
  split_ifs at h with hi
  have hentry : w.entry = some t := (filter_eq_some_iff.mp h).1
  exact ⟨hinv.entry_genuine t hentry, hi, by rw [hentry]; rfl⟩

end

theorem entryAfter_le (w : TicketWorld) (i : Nat) (t : WsTicket) (h : w.entryAfter i = some t) :
    w.entry = some t := by
  unfold entryAfter at h
  split_ifs at h
  exact h

section

variable (hinv : w.Inv)

include hinv

theorem Inv.lookup (hguard : Undisturbed w (.lookup c)) : (w.step (.lookup c)).Inv := by
  simp only [step]
  split
  · rename_i i hc
    cases hhit : w.hit i with
    | none =>
      -- A miss: whatever comes next, the call has not taken the ticket.
      have hmiss : (w.looked none).took = false ∧ (w.looked none).Genuine w.ticket := by
        unfold looked
        cases w.pool <;> exact ⟨rfl, trivial⟩
      refine hinv.proceed hc rfl (fun _ h => h) (entryAfter_le w i) hmiss.2 (fun h => ?_) (fun h => ?_) nofun
      · rw [hmiss.1] at h
        contradiction
      · rw [hmiss.1] at h
        contradiction
    | some t =>
      obtain ⟨rfl, rfl, hentry⟩ := hinv.hit_eq hhit
      obtain ⟨hthere, htime⟩ := hguard hc (by rw [hhit]; rfl)
      have huntaken : w.calls.countP took = 0 := by
        refine hinv.untaken hc rfl rfl ?_
        by_cases hpersisted : w.persisted
        · exact .inl (hthere hpersisted)
        · exact .inr ⟨hentry, hpersisted⟩
      have hgone : w.entryAfter w.issuer = none := if_pos rfl
      refine hinv.proceed hc rfl (fun _ h => h) (entryAfter_le w _) ?_ (fun _ => .inr huntaken)
        (fun _ => ⟨?_, .inl hgone⟩) nofun
      · unfold looked
        cases hpool : w.pool with
        | true => exact rfl
        | false => exact ⟨rfl, htime.resolve_left (by simp [hpool])⟩
      · unfold looked
        cases hpool : w.pool with
        | true => exact .inr rfl
        | false => exact .inl (hinv.unpooled hpool).2
  · exact hinv

theorem Inv.select (ok : Bool) : (w.step (.select c ok)).Inv := by
  simp only [step]
  split
  · rename_i hc
    split
    · rename_i row hrow
      have hsome : w.row.isSome := by
        rw [hrow]
        rfl
      have huntaken := hinv.untaken hc rfl rfl (.inl hsome)
      exact hinv.proceed hc rfl (fun _ h => h) (fun _ h => h) (hinv.row_genuine row hrow)
        (fun _ => .inr huntaken) (fun _ => ⟨.inr rfl, .inr (hinv.persisted_of_row hsome)⟩) nofun
    · exact hinv.proceed hc rfl (fun _ h => h) (fun _ h => h) trivial nofun nofun nofun
  · exact hinv

theorem Inv.taken_by (hc : w.calls[c]? = some p) (hp : p.took) : w.entry = none ∨ w.persisted :=
  (hinv.taken (countP_pos_iff.mpr ⟨p, mem_of_getElem? hc, hp⟩)).2

theorem Inv.delete {ok : Bool} (hguard : Undisturbed w (.delete c ok)) : (w.step (.delete c ok)).Inv := by
  obtain ⟨rfl, htime⟩ := hguard
  simp only [step, if_true]
  split
  · rename_i identity hc
    have hidentity : identity = w.ticket.identity := hinv.genuine _ (mem_of_getElem? hc)
    subst hidentity
    exact hinv.proceed hc rfl nofun (fun _ h => h) ⟨rfl, htime hc⟩ (fun _ => .inl rfl)
      (fun _ => ⟨.inl rfl, hinv.taken_by hc rfl⟩) (fun _ => rfl)
  · rename_i row hc
    have hrow : row = w.ticket.row := hinv.genuine _ (mem_of_getElem? hc)
    exact hinv.proceed hc rfl nofun (fun _ h => h) hrow (fun _ => .inl rfl)
      (fun _ => ⟨.inl rfl, hinv.taken_by hc rfl⟩) (fun _ => rfl)
  · exact hinv

theorem Inv.check : (w.step (.check c)).Inv := by
  simp only [step]
  split
  · rename_i row hc
    have hrow : row = w.ticket.row := hinv.genuine _ (mem_of_getElem? hc)
    subst hrow
    have hgone : w.row = none := by
      have htaken := hinv.taken (countP_pos_iff.mpr ⟨_, mem_of_getElem? hc, rfl⟩)
      have hcleaning := hinv.cleaning_eq_zero hc rfl rfl
      exact htaken.1.resolve_right (by omega)
    refine hinv.proceed hc rfl (fun _ h => h) (fun _ h => h) ?_ (fun _ => .inl rfl)
      (fun _ => ⟨.inl hgone, hinv.taken_by hc rfl⟩) nofun
    unfold checked
    split_ifs with hexpires
    · exact ⟨rfl, expiry_of_row hexpires⟩
    · trivial
  · exact hinv

theorem Inv.step {event : TicketEvent} (hguard : Undisturbed w event) : (w.step event).Inv := by
  cases event with
  | tick ms => exact hinv.tick ms
  | insert ok => exact hinv.insert ok
  | prune => exact hinv.lose (fun _ h => h) fun _ h => (filter_eq_some_iff.mp h).1
  | cleanupExpired => exact hinv.lose (fun _ h => (filter_eq_some_iff.mp h).1) fun _ h => h
  | consume i => exact hinv.consume hguard
  | lookup c => exact hinv.lookup hguard
  | select c ok => exact hinv.select ok
  | delete c ok => exact hinv.delete hguard
  | check c => exact hinv.check

end

end TicketWorld

theorem Consume.took_of_succeeded {phase : Consume} (h : phase.succeeded) : phase.took := by
  unfold succeeded at h
  split at h
  · rfl
  · contradiction

theorem TicketWorld.step_ticket (w : TicketWorld) (event : TicketEvent) : (w.step event).ticket = w.ticket := by
  unfold TicketWorld.step
  split
  case h_1 | h_3 | h_4 => rfl
  case h_2 | h_5 => split_ifs <;> rfl
  case h_7 => split <;> first | rfl | (split <;> rfl)
  all_goals split <;> rfl

theorem run_ticket (w : TicketWorld) (events : List TicketEvent) :
    (run TicketWorld.step w events).ticket = w.ticket := by
  have hstep : ∀ (s : TicketWorld) event, s.ticket = w.ticket → (s.step event).ticket = w.ticket :=
    fun s event h => (s.step_ticket event).trans h
  exact invariant_run_of_step TicketWorld.step hstep rfl events

def operator : AuthIdentity := .user "alice@corp.com" "Alice" "operator" []

def redeemed : List TicketEvent :=
  [.insert true, .tick 1200, .consume 1, .lookup 0, .select 0 true, .delete 0 true, .check 0,
    .consume 2, .lookup 1, .select 1 true]

/-- Instance 1 redeems the ticket from its row; its issuer still has it in the map. -/
def replayed : List TicketEvent :=
  [.insert true, .consume 1, .lookup 0, .select 0 true, .delete 0 true, .check 0, .consume 0, .lookup 1,
    .delete 1 true]

/-- Instances 1 and 2 both read the row before either deletes it. -/
def raced : List TicketEvent :=
  [.insert true, .consume 1, .consume 2, .lookup 0, .lookup 1, .select 0 true, .select 1 true, .delete 0 true,
    .delete 1 true, .check 0, .check 1]

/-- The issuer takes 30.5 seconds for 30. -/
def late : List TicketEvent := [.insert true, .tick 30500, .consume 0, .lookup 0, .delete 0 true]

end Persea.Auth
