import Persea.BaseTransition
import Persea.LdapRevalidation

/-! The scoped tokens of one LDAP account. An observer sees all the time what the directory says about the account,
and notes since when it speaks against each token. -/

namespace Persea.Ldap

open Base Option World List

structure Account where
  userId : Nat
  server : Nat
  dn : Text

def Account.key (a : Account) : Nat × Text := (a.userId, a.dn)

def Report.revoked (report : Report) (nowUnixSecs : Int) : Bool :=
  match report with
  | .failed => false
  | .answered rc entries => rc = 32 || (rc = 0 && entries.head?.all fun entry => entry.barred nowUnixSecs)

def Report.marker : Report → Option Text
  | .failed => none
  | .answered rc entries => if rc = 0 then entries.head?.bind SearchEntry.pwdLastSet else none

/-- What the observer notes of a scoped token of the account: the first marker that the directory has shown since
it was minted, since when the directory speaks against it without a break, and whether it ever did. -/
structure Minted where
  id : Nat
  marker : Option Text
  since : Option Nat
  reported : Bool
deriving DecidableEq

def Minted.opposed (m : Minted) (nowUnixSecs : Int) (report : Report) : Bool :=
  report.revoked nowUnixSecs || pwdRotated m.marker report.marker

/-- The observer looks again. Where the directory has come to speak against the token, it did not do so at `before`,
the time of the last look. -/
def Minted.observe (before now : Nat) (report : Report) (m : Minted) : Minted where
  id := m.id
  marker := m.marker.or report.marker
  since := if m.opposed (unixSecs now) report then m.since.or (some before) else none
  reported := m.reported || m.opposed (unixSecs now) report

def Phase.drops : Phase → Option Found
  | .drop found => some found
  | _ => none

structure Acceptance where
  tokenId : Nat
  checkedAt : Nat
  since : Option Nat
deriving DecidableEq

structure Watch where
  world : World
  minted : List Minted
  accepted : List Acceptance

def Watch.start (now : Nat) : Watch := ⟨World.start now, [], []⟩

namespace Watch

variable (success : Nat → Bool) (a : Account)

variable (s : Watch)

def report : Report := s.world.directory a.server a.dn

def mints : Event → List Minted
  | .mint userId name expiresAt isScoped tokenHash =>
    if isScoped = true ∧ userId = a.userId ∧
        (s.world.mint userId name expiresAt isScoped tokenHash).nextTokenId ≠ s.world.nextTokenId then
      [⟨s.world.nextTokenId, none, none, false⟩]
    else []
  | _ => []

def Concerns (found : Found) : Prop := found.token.userId = a.userId ∧ found.token.tokenType = scopedType

instance (found : Found) : Decidable (Concerns a found) :=
  inferInstanceAs (Decidable (found.token.userId = a.userId ∧ found.token.tokenType = scopedType))

def accepts (ok : Bool) (q : Request) : List Acceptance :=
  match q.phase with
  | .touch found =>
    if Concerns a found ∧ s.world.updates found ok = true then
      (s.minted.filter (·.id = found.token.id)).map fun m => ⟨m.id, q.checkedAt, m.since⟩
    else []
  | _ => []

def acceptances : Event → List Acceptance
  | .advance i ok _ => s.world.requests[i]?.toList.flatMap (s.accepts a ok)
  | _ => []

def step (s : Watch) (event : Event) : Watch where
  world := s.world.step success event
  minted := (s.minted ++ s.mints a event).map (Minted.observe s.world.now (s.world.step success event).now
    ((s.world.step success event).directory a.server a.dn))
  accepted := s.accepted ++ s.acceptances a event

/-- **The promise of the re-check.** No request was accepted whose check was made more than `VALID_TTL` after the
directory began to speak against the token. -/
def Prompt : Prop := ∀ acc ∈ s.accepted, ∀ since ∈ acc.since, acc.checkedAt ≤ since + validTtl

/-- **No token is lost.** A request that is about to delete a token of the account has the directory's word against
this token, now or at some time since it was minted. -/
def Justified : Prop :=
  ∀ q ∈ s.world.requests, ∀ found ∈ q.phase.drops, found.token.userId = a.userId →
    ∀ m ∈ s.minted, m.id = found.token.id → m.reported = true

instance (s : Watch) : Decidable (s.Justified a) :=
  inferInstanceAs (Decidable (∀ q ∈ s.world.requests, ∀ found ∈ q.phase.drops, found.token.userId = a.userId →
    ∀ m ∈ s.minted, m.id = found.token.id → m.reported = true))

variable {success a} {s : Watch} {event : Event}

theorem step_report : (s.step success a event).report a = (s.world.step success event).directory a.server a.dn := rfl

theorem mem_step_minted {m' : Minted} (h : m' ∈ (s.step success a event).minted) :
    ∃ m, (m ∈ s.minted ∨ m ∈ s.mints a event) ∧
      m' = m.observe s.world.now (s.step success a event).world.now ((s.step success a event).report a) := by
  obtain ⟨m, hm, rfl⟩ := mem_map.mp h
  exact ⟨m, mem_append.mp hm, rfl⟩

theorem eq_of_mem_mints {m : Minted} (h : m ∈ s.mints a event) : m = ⟨s.world.nextTokenId, none, none, false⟩ := by
  cases event with
  | mint userId name expiresAt isScoped tokenHash =>
    simp only [mints] at h
    split at h
    · exact mem_singleton.mp h
    · cases h
  | tick | report | register | putUser | deleteUser | revoke | disable | validate | advance | restart => cases h

theorem opposed_observe (m : Minted) (before now : Nat) (report : Report) :
    (m.observe before now report).opposed (unixSecs now) report = m.opposed (unixSecs now) report := by
  unfold Minted.opposed Minted.observe
  cases m.marker with
  | some marker => rfl
  | none =>
    cases report.marker with
    | none => rfl
    | some marker => simp [pwdRotated]

/-- No later, up to a slack, than the time since when the directory speaks against any of the tokens. -/
def NoLater (slack : Nat) (time : Nat) : Prop := ∀ m ∈ s.minted, ∀ since ∈ m.since, time ≤ since + slack

theorem NoLater.step {slack : Nat} {time : Nat} (h : s.NoLater slack time) (htime : time ≤ s.world.now) :
    (s.step success a event).NoLater slack time := by
  intro m' hm' since hsince
  obtain ⟨m, hm, rfl⟩ := mem_step_minted hm'
  simp only [Minted.observe] at hsince
  split at hsince
  · rcases or_eq_some_iff.mp hsince with hold | ⟨-, hnow⟩
    · rcases hm with hm | hm
      · exact h m hm since hold
      · rw [eq_of_mem_mints hm] at hold
        cases hold
    · obtain rfl : s.world.now = since := by simpa using hnow
      exact Nat.le_add_right_of_le htime
  · cases hsince

/-- A token of the account was minted under another marker than this one. -/
def Rotated (marker : Option Text) : Prop := ∃ m ∈ s.minted, pwdRotated m.marker marker = true

instance (s : Watch) (marker : Option Text) : Decidable (s.Rotated marker) :=
  inferInstanceAs (Decidable (∃ m ∈ s.minted, pwdRotated m.marker marker = true))

theorem rotated_of_step (h : (s.step success a event).Rotated ((s.step success a event).report a).marker) :
    s.Rotated ((s.step success a event).report a).marker := by
  obtain ⟨m', hm', hrotated⟩ := h
  obtain ⟨m, hm, rfl⟩ := mem_step_minted hm'
  simp only [Minted.observe] at hrotated
  cases hmarker : m.marker with
  | none =>
    rw [hmarker, none_or] at hrotated
    cases hreport : ((s.step success a event).report a).marker with
    | none | some marker => simp [hreport, pwdRotated] at hrotated
  | some marker =>
    rw [hmarker, some_or] at hrotated
    rcases hm with hm | hm
    · exact ⟨m, hm, by rw [hmarker]; exact hrotated⟩
    · rw [eq_of_mem_mints hm] at hmarker
      cases hmarker

end Watch

section

variable {success : Nat → Bool} {a : Account} {w : World} {event : Event}

theorem World.now_le_step : w.now ≤ (w.step success event).now := by
  cases event with
  | tick nanos => exact Nat.le_add_right w.now nanos
  | mint userId name expiresAt isScoped tokenHash =>
    simp only [step, mint]
    split <;> exact le_rfl
  | advance i ok pick =>
    simp only [step]
    cases w.requests[i]? with
    | none => exact le_rfl
    | some q => exact le_rfl
  | report | register | putUser | deleteUser | revoke | disable | validate | restart => exact le_rfl

theorem World.step_directory (hevent : ∀ server dn report, event ≠ .report server dn report) :
    (w.step success event).directory = w.directory := by
  cases event with
  | report server dn report => exact absurd rfl (hevent server dn report)
  | mint userId name expiresAt isScoped tokenHash =>
    simp only [step, mint]
    split <;> rfl
  | advance i ok pick =>
    simp only [step]
    cases w.requests[i]? <;> rfl
  | tick | register | putUser | deleteUser | revoke | disable | validate | restart => rfl

theorem World.mem_step_requests {q' : Request} (h : q' ∈ (w.step success event).requests) :
    q' ∈ w.requests ∨ (∃ tokenHash, q' = ⟨w.now, .scan tokenHash⟩) ∨
      ∃ i ok pick q, event = .advance i ok pick ∧ w.requests[i]? = some q ∧ q' = w.next success ok q := by
  cases event with
  | mint userId name expiresAt isScoped tokenHash =>
    simp only [step, mint] at h
    split at h <;> exact .inl h
  | validate tokenHash =>
    rcases mem_append.mp h with h | h
    · exact .inl h
    · exact .inr (.inl ⟨tokenHash, mem_singleton.mp h⟩)
  | advance i ok pick =>
    simp only [step] at h
    cases hi : w.requests[i]? with
    | none =>
      rw [hi] at h
      exact .inl h
    | some q =>
      rw [hi] at h
      rcases mem_or_eq_of_mem_set h with h | h
      · exact .inl h
      · exact .inr (.inr ⟨i, ok, pick, q, rfl, hi, h⟩)
  | restart => cases h
  | tick | report | register | putUser | deleteUser | revoke | disable => exact .inl h

variable {entry : CacheEntry} {key : Nat × Text}

theorem lookup_of_evict {pick : Nat} {cache : Cache} (h : entry ∈ (evict pick cache).lookup key) :
    entry ∈ cache.lookup key := by
  unfold evict at h
  split at h
  · exact h
  · split at h
    · exact h
    · rename_i victim _
      by_cases hkey : key = victim
      · rw [hkey, AList.lookup_erase] at h
        cases h
      · rwa [AList.lookup_erase_ne hkey] at h

theorem World.mem_step_lookup (h : entry ∈ (w.step success event).cache.lookup key) :
    entry ∈ w.cache.lookup key ∨ ∃ i ok pick q found, event = .advance i ok pick ∧ w.requests[i]? = some q ∧
      q.phase = .store found entry ∧ found.key = key := by
  cases event with
  | mint userId name expiresAt isScoped tokenHash =>
    simp only [step, mint] at h
    split at h <;> exact .inl h
  | advance i ok pick =>
    simp only [step] at h
    cases hi : w.requests[i]? with
    | none =>
      rw [hi] at h
      exact .inl h
    | some q =>
      rw [hi] at h
      simp only [advance] at h
      cases hphase : q.phase with
      | store found stored =>
        rw [hphase] at h
        have h := lookup_of_evict h
        by_cases hkey : key = found.key
        · rw [hkey, AList.lookup_insert] at h
          obtain rfl : stored = entry := by simpa using h
          exact .inr ⟨i, ok, pick, q, found, rfl, hi, hphase, hkey.symm⟩
        · rw [AList.lookup_insert_ne hkey] at h
          exact .inl h
      | scan | look | ask | drop | log | touch | done =>
        rw [hphase] at h
        exact .inl h
  | restart => cases h
  | tick | report | register | putUser | deleteUser | revoke | disable | validate => exact .inl h

end

def Phase.held (a : Account) : Phase → Option (Option Text)
  | .ask found _ previous _ => if found.key = a.key then some previous else none
  | .store found entry => if found.key = a.key then some entry.pwdLastSet else none
  | _ => none

def World.held (a : Account) (w : World) : List (Option Text) :=
  ((w.cache.lookup a.key).map CacheEntry.pwdLastSet).toList ++ w.requests.filterMap fun q => q.phase.held a

section

variable {success : Nat → Bool} {a : Account} {w : World} {event : Event}

variable {marker : Option Text} {found : Found}

theorem World.mem_held : marker ∈ w.held a ↔ (∃ entry ∈ w.cache.lookup a.key, entry.pwdLastSet = marker) ∨
      ∃ q ∈ w.requests, q.phase.held a = some marker := by
  simp [held, mem_filterMap]

theorem World.mem_step_held (h : marker ∈ (w.step success event).held a) :
    marker ∈ w.held a ∨ ∃ i ok pick q, event = .advance i ok pick ∧ w.requests[i]? = some q ∧
      (w.next success ok q).phase.held a = some marker := by
  rcases mem_held.mp h with ⟨entry, hentry, rfl⟩ | ⟨q', hq', hheld⟩
  · left
    rcases mem_step_lookup hentry with hold | ⟨i, ok, pick, q, found, -, hi, hphase, hkey⟩
    · exact mem_held.mpr (.inl ⟨entry, hold, rfl⟩)
    · refine mem_held.mpr (.inr ⟨q, mem_of_getElem? hi, ?_⟩)
      simp [Phase.held, hphase, hkey]
  · rcases mem_step_requests hq' with hold | ⟨tokenHash, rfl⟩ | ⟨i, ok, pick, q, hevent, hi, rfl⟩
    · exact .inl (mem_held.mpr (.inr ⟨q', hold, hheld⟩))
    · cases hheld
    · exact .inr ⟨i, ok, pick, q, hevent, hi, hheld⟩

theorem World.look_held (h : (w.look found).held a = some marker) :
    marker ∈ w.held a ∨ (marker = none ∧ w.cache.lookup a.key = none) := by
  rcases w.look_cases found with ⟨entry, -, -, hlook⟩ | ⟨previous, hprevious, hlook⟩
  · rw [hlook] at h
    cases h
  · rw [hlook] at h
    cases hregistry : w.registry with
    | nil =>
      simp only [consult, hregistry] at h
      cases h
    | cons provider rest =>
      simp only [consult, hregistry, Phase.held, ite_none_right_eq_some, some.injEq] at h
      obtain ⟨hkey, rfl⟩ := h
      rw [hkey] at hprevious
      rcases hprevious with ⟨hnone, rfl⟩ | ⟨entry, hentry, rfl⟩
      · exact .inr ⟨rfl, hnone⟩
      · exact .inl (mem_held.mpr (.inl ⟨entry, hentry, rfl⟩))

theorem World.ask_held {now : Nat} {previous marker : Option Text} {providers : List Provider}
    (h : (w.ask success found now previous providers).held a = some marker) :
    found.key = a.key ∧ (marker = previous ∨ (providers = [] ∧ marker = none) ∨
      ∃ provider rest, providers = provider :: rest ∧
        revalidateAccount success (unixSecs w.now) w.directory provider found.user.email previous = .valid marker) := by
  cases providers with
  | nil =>
    simp only [ask, Phase.held, ite_none_right_eq_some, some.injEq] at h
    exact ⟨h.1, .inr (.inl ⟨rfl, h.2.symm⟩)⟩
  | cons provider rest =>
    simp only [ask] at h
    cases hverdict : revalidateAccount success (unixSecs w.now) w.directory provider found.user.email previous with
    | invalid =>
      rw [hverdict] at h
      cases h
    | notApplicable | unavailable =>
      simp only [hverdict, Phase.held, ite_none_right_eq_some, some.injEq] at h
      exact ⟨h.1, .inl h.2.symm⟩
    | valid pwdLastSet =>
      simp only [hverdict, Phase.held, ite_none_right_eq_some, some.injEq] at h
      exact ⟨h.1, .inr (.inr ⟨provider, rest, rfl, by rw [hverdict, h.2]⟩)⟩

theorem World.next_held {q : Request} {ok : Bool} (h : (w.next success ok q).phase.held a = some marker) :
    (∃ found, q.phase = .look found ∧ (w.look found).held a = some marker) ∨
      ∃ found now previous providers, q.phase = .ask found now previous providers ∧
        (w.ask success found now previous providers).held a = some marker := by
  unfold next at h
  cases hphase : q.phase with
  | scan tokenHash =>
    rw [hphase] at h
    rcases w.scan_cases tokenHash ok with ⟨e, hscan⟩ | ⟨found, -, ⟨-, hscan⟩ | ⟨-, hscan⟩⟩
    · simp only [hscan] at h
      cases h
    · simp only [hscan] at h
      cases h
    · simp only [hscan] at h
      cases h
  | look found =>
    rw [hphase] at h
    exact .inl ⟨found, rfl, h⟩
  | ask found now previous providers =>
    rw [hphase] at h
    exact .inr ⟨found, now, previous, providers, rfl, h⟩
  | touch found =>
    rw [hphase] at h
    simp only [touch] at h
    cases hupdates : w.updates found ok <;> simp [hupdates, Phase.held] at h
  | store | drop | log =>
    rw [hphase] at h
    cases h
  | done =>
    rw [hphase] at h
    simp only [hphase] at h
    cases h

end

section

variable {success : Nat → Bool} {now : Int} {previous : Option Text} {report : Report}

theorem searchVerdict_zero (entries : List SearchEntry) : searchVerdict success now previous (.answered 0 entries) =
      if success 0 = false then .unavailable
      else if (Report.answered 0 entries).revoked now ∨
          pwdRotated previous (Report.answered 0 entries).marker then .invalid
      else .valid (Report.answered 0 entries).marker := by
  unfold searchVerdict
  cases entries with
  | nil => simp [Report.revoked]
  | cons entry rest =>
    cases hbarred : entry.barred now
    · simp [Report.revoked, Report.marker, hbarred]
    · simp [Report.revoked, hbarred]

theorem searchVerdict_ne_zero {rc : Nat} (hrc : rc ≠ 0) (entries : List SearchEntry) :
    searchVerdict success now previous (.answered rc entries) =
      if success rc = false then .unavailable
      else if (Report.answered rc entries).revoked now then .invalid
      else if rc = 34 then .notApplicable
      else .unavailable := by
  simp [searchVerdict, Report.revoked, hrc]

theorem marker_of_valid {marker : Option Text} (h : searchVerdict success now previous report = .valid marker) :
    report.marker = marker := by
  cases report with
  | failed => cases h
  | answered rc entries =>
    by_cases hrc : rc = 0
    · subst hrc
      rw [searchVerdict_zero] at h
      split_ifs at h
      exact RecheckVerdict.valid.inj h
    · rw [searchVerdict_ne_zero hrc] at h
      split_ifs at h

theorem opposed_of_invalid (h : searchVerdict success now previous report = .invalid) :
    report.revoked now ∨ pwdRotated previous report.marker := by
  cases report with
  | failed => cases h
  | answered rc entries =>
    by_cases hrc : rc = 0
    · subst hrc
      rw [searchVerdict_zero] at h
      split_ifs at h with _ hopposed
      exact hopposed
    · rw [searchVerdict_ne_zero hrc] at h
      split_ifs at h with _ hrevoked
      exact .inl hrevoked

/-- The client passes on what the directory says, and the directory does not call the DN malformed. -/
def Report.Plain (success : Nat → Bool) : Report → Prop
  | .failed => True
  | .answered rc _ => (rc = 0 ∨ rc = 32 → success rc = true) ∧ (rc = 34 → success rc = false)

instance : (report : Report) → Decidable (report.Plain success)
  | .failed => isTrue trivial
  | .answered rc _ =>
    inferInstanceAs (Decidable ((rc = 0 ∨ rc = 32 → success rc = true) ∧ (rc = 34 → success rc = false)))

theorem invalid_of_opposed (hplain : report.Plain success)
    (h : report.revoked now ∨ pwdRotated previous report.marker) :
    searchVerdict success now previous report = .invalid := by
  cases report with
  | failed => simp [Report.revoked, Report.marker, pwdRotated] at h
  | answered rc entries =>
    by_cases hrc : rc = 0
    · subst hrc
      have hsuccess := hplain.1 (.inl rfl)
      rw [searchVerdict_zero, if_neg (by simp [hsuccess]), if_pos h]
    · have hrevoked : (Report.answered rc entries).revoked now := by
        simpa [Report.marker, hrc, pwdRotated] using h
      have hdeleted : rc = 32 := by simpa [Report.revoked, hrc] using hrevoked
      have hsuccess := hplain.1 (.inr hdeleted)
      rw [searchVerdict_ne_zero hrc, if_neg (by simp [hsuccess]), if_pos hrevoked]

theorem applicable_of_plain (hplain : report.Plain success) :
    searchVerdict success now previous report ≠ .notApplicable := by
  intro h
  cases report with
  | failed => cases h
  | answered rc entries =>
    by_cases hrc : rc = 0
    · subst hrc
      rw [searchVerdict_zero] at h
      split_ifs at h
    · rw [searchVerdict_ne_zero hrc] at h
      split_ifs at h with hsuccess _ hmalformed
      exact hsuccess (hplain.2 hmalformed)

end

namespace Watch

def onlySuccess (rc : Nat) : Bool := rc = 0

def annDn : Text := "c=a,o=x"

def annAccount : Account := ⟨1, 0, annDn⟩

def enabledReport (pwdLastSet : Text) : Report := .answered 0 [⟨[("pwdLastSet", [pwdLastSet])]⟩]

def disabledReport : Report := .answered 0 [⟨[("userAccountControl", ["514"])]⟩]

def mintDesktop (tokenHash : Text) : Event := .mint 1 "desktop" none true tokenHash

/-- A user with the given email, who gets a scoped token while the account is enabled. -/
def signedIn (email : Text) : List Event :=
  [.register ⟨"o=x", 0⟩, .report 0 annDn (enabledReport ['7']), .putUser ⟨1, email, false⟩, mintDesktop ['h']]

def requestSteps (n : Nat) (tokenHash : Text) (steps : Nat) : List Event :=
  .validate tokenHash :: replicate steps (.advance n true 0)

end Watch

end Persea.Ldap
