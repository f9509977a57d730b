import Persea.LdapTokens

/-! Tokens minted after a password change. A check that finds another marker than the cached one does not replace it,
so a token minted after the change is judged by a marker from before. -/

namespace Persea.Ldap

open Base Transition Option World

/-! ### The token of a request -/

def Phase.looks : Phase → Option Found
  | .look found => some found
  | _ => none

def Phase.found : Phase → Option Found
  | .look found | .ask found _ _ _ | .store found _ | .drop found | .log found | .touch found => some found
  | .scan _ | .done _ => none

variable {found : Found} {previous : Option Text} {q : Request}

section

variable {success : Nat → Bool} {w : World} {event : Event}

theorem World.look_found {found' : Found} (h : found' ∈ (w.look found).found) : found' = found := by
  rcases w.look_cases found with ⟨entry, -, -, hlook⟩ | ⟨previous, -, hlook⟩
  · rw [hlook] at h
    exact (some.inj h).symm
  · rw [hlook, consult] at h
    cases hregistry : w.registry with
    | nil | cons provider rest =>
      rw [hregistry] at h
      exact (some.inj h).symm

theorem World.ask_found {found' : Found} {now : Nat} {providers : List Provider}
    (h : found' ∈ (w.ask success found now previous providers).found) : found' = found := by
  cases providers with
  | nil => exact (some.inj h).symm
  | cons provider rest =>
    simp only [ask] at h
    split at h <;> exact (some.inj h).symm

theorem World.next_found {ok : Bool}
    (h : found ∈ (w.next success ok q).phase.found) : found ∈ q.phase.found ∨ found.token ∈ w.tokens := by
  unfold next at h
  cases hphase : q.phase with
  | scan tokenHash =>
    rw [hphase] at h
    right
    rcases w.scan_cases tokenHash ok with ⟨e, hscan⟩ | ⟨row, hrow, ⟨-, hscan⟩ | ⟨-, hscan⟩⟩
    · simp only [hscan] at h
      cases h
    · simp only [hscan] at h
      obtain rfl : row = found := some.inj h
      exact hrow
    · simp only [hscan] at h
      obtain rfl : row = found := some.inj h
      exact hrow
  | look row =>
    rw [hphase] at h
    rw [look_found h]
    exact .inl rfl
  | ask row now previous providers =>
    rw [hphase] at h
    rw [ask_found h]
    exact .inl rfl
  | touch row =>
    rw [hphase] at h
    simp only [touch] at h
    split at h <;> cases h
  | store | drop =>
    rw [hphase] at h
    exact .inl h
  | log =>
    rw [hphase] at h
    cases h
  | done =>
    rw [hphase] at h
    simp only [hphase] at h
    cases h

theorem World.nextTokenId_le_step : w.nextTokenId ≤ (w.step success event).nextTokenId := by
  cases event with
  | mint userId name expiresAt isScoped tokenHash =>
    simp only [step, mint]
    split
    · exact le_rfl
    · exact Nat.le_succ _
  | advance i ok pick =>
    simp only [step]
    cases w.requests[i]? with
    | none => exact le_rfl
    | some q => exact le_rfl
  | tick | report | register | putUser | deleteUser | revoke | disable | validate | restart => exact le_rfl

theorem World.tokens_step (h : ∀ token ∈ w.tokens, token.id < w.nextTokenId) :
    ∀ token ∈ (w.step success event).tokens, token.id < (w.step success event).nextTokenId := by
  intro token htoken
  cases event with
  | mint userId name expiresAt isScoped tokenHash =>
    simp only [step, mint] at htoken ⊢
    split at htoken
    · rw [if_pos (by assumption)]
      exact h token htoken
    · rw [if_neg (by assumption)]
      rcases List.mem_append.mp htoken with hold | hnew
      · exact Nat.lt_succ_of_lt (h token hold)
      · rw [List.mem_singleton.mp hnew]
        exact Nat.lt_succ_self _
  | deleteUser userId | revoke tokenId => exact h token (List.mem_of_mem_filter htoken)
  | disable tokenId =>
    obtain ⟨row, hrow, rfl⟩ := List.mem_map.mp htoken
    split <;> exact h row hrow
  | advance i ok pick =>
    simp only [step] at htoken ⊢
    cases hi : w.requests[i]? with
    | none =>
      rw [hi] at htoken
      exact h token htoken
    | some q =>
      rw [hi] at htoken
      simp only [advance] at htoken
      cases hphase : q.phase with
      | drop found =>
        rw [hphase, tokensAfter] at htoken
        split at htoken
        · exact h token (List.mem_of_mem_filter htoken)
        · exact h token htoken
      | scan | look | ask | store | log | touch | done =>
        rw [hphase] at htoken
        exact h token htoken
  | tick | report | register | putUser | validate | restart => exact h token htoken

end

namespace Watch

variable (a : Account)

def AsksFor (found : Found) (providers : List Provider) : Prop :=
  found.token.userId = a.userId → ∀ provider ∈ providers, provider.manages found.user.email = true →
    provider.server = a.server ∧ found.user.email = a.dn

instance (found : Found) (providers : List Provider) : Decidable (AsksFor a found providers) :=
  inferInstanceAs (Decidable (_ → ∀ provider ∈ providers, _))

/-- The condition on a step. A scoped token of the account is minted only when no marker but the directory's present
one is in use. -/
def Fresh (s : Watch) : Event → Prop
  | .mint userId _ _ isScoped _ => isScoped = true → userId = a.userId →
      ∀ held ∈ s.world.held a, ∀ marker ∈ held, (s.report a).marker = some marker
  | .advance i _ _ => ∀ q ∈ s.world.requests[i]?, ∀ found ∈ q.phase.looks, AsksFor a found s.world.registry
  | _ => True

instance (s : Watch) : (event : Event) → Decidable (s.Fresh a event)
  | .mint _ _ _ _ _ => inferInstanceAs (Decidable (_ → _ → ∀ held ∈ s.world.held a, _))
  | .advance i _ _ => inferInstanceAs (Decidable (∀ q ∈ s.world.requests[i]?, _))
  | .tick _ | .report _ _ _ | .register _ | .putUser _ | .deleteUser _ | .revoke _ | .disable _ | .validate _
  | .restart => isTrue trivial

/-! ### The invariant -/

def Fair (s : Watch) : Phase → Prop
  | .ask found _ _ providers => AsksFor a found providers
  | .drop found => found.token.userId = a.userId → ∀ m ∈ s.minted, m.id = found.token.id → m.reported = true
  | _ => True

structure Kept (s : Watch) : Prop where
  shown : ∀ m ∈ s.minted, m.marker = none → (s.report a).marker = none
  reported : ∀ m ∈ s.minted, m.opposed (unixSecs s.world.now) (s.report a) = true → m.reported = true
  held : ∀ m ∈ s.minted, m.reported = false → ∀ held ∈ s.world.held a, ∀ marker ∈ held, m.marker = some marker
  tokens : ∀ token ∈ s.world.tokens, token.id < s.world.nextTokenId
  found : ∀ q ∈ s.world.requests, ∀ found ∈ q.phase.found, found.token.id < s.world.nextTokenId
  requests : ∀ q ∈ s.world.requests, s.Fair a q.phase

variable {a} {success : Nat → Bool} {s : Watch} {event : Event}

theorem kept_start (now : Nat) : Kept a (start now) where
  shown _ hm := by cases hm
  reported _ hm := by cases hm
  held _ hm := by cases hm
  tokens _ htoken := by cases htoken
  found _ hq := by cases hq
  requests _ hq := by cases hq

theorem shown_step (m' : Minted) (hm' : m' ∈ (s.step success a event).minted) (hmarker : m'.marker = none) :
    ((s.step success a event).report a).marker = none := by
  obtain ⟨m, -, rfl⟩ := mem_step_minted hm'
  exact (or_eq_none_iff.mp hmarker).2

theorem reported_step (m' : Minted) (hm' : m' ∈ (s.step success a event).minted)
    (hopposed : m'.opposed (unixSecs (s.step success a event).world.now) ((s.step success a event).report a)) :
    m'.reported := by
  obtain ⟨m, -, rfl⟩ := mem_step_minted hm'
  rw [opposed_observe] at hopposed
  simp only [Minted.observe, Bool.or_eq_true]
  exact .inr hopposed

variable {m : Minted}

theorem Kept.marker_eq (hkept : Kept a s) {marker : Text} (hm : m ∈ s.minted)
    (hreported : m.reported = false) (hmarker : (s.report a).marker = some marker) : m.marker = some marker := by
  cases hold : m.marker with
  | none =>
    rw [hkept.shown m hm hold] at hmarker
    cases hmarker
  | some old =>
    by_contra hne
    have hrotated : pwdRotated m.marker (s.report a).marker := by
      rw [hold, hmarker]
      simpa [pwdRotated] using hne
    have hreported' := hkept.reported m hm (by simp [Minted.opposed, hrotated])
    rw [hreported] at hreported'
    cases hreported'

theorem verdict_of_asksFor {provider : Provider} {rest : List Provider}
    {verdict : RecheckVerdict} (hasks : AsksFor a found (provider :: rest)) (huser : found.token.userId = a.userId)
    (hverdict : revalidateAccount success (unixSecs s.world.now) s.world.directory provider found.user.email previous =
      verdict) (happlies : verdict ≠ .notApplicable) :
    found.key = a.key ∧ searchVerdict success (unixSecs s.world.now) previous (s.report a) = verdict := by
  rw [revalidateAccount] at hverdict
  split at hverdict
  · rename_i hmanages
    obtain ⟨hserver, hemail⟩ := hasks huser provider List.mem_cons_self hmanages
    rw [hserver, hemail] at hverdict
    exact ⟨by rw [Found.key, huser, hemail]; rfl, hverdict⟩
  · exact absurd hverdict.symm happlies

theorem Kept.marker_of_next (hkept : Kept a s) {ok : Bool} {held : Option Text}
    (hq : q ∈ s.world.requests) (hheld : (s.world.next success ok q).phase.held a = some held) (hm : m ∈ s.minted)
    (hreported : m.reported = false) : ∀ marker ∈ held, m.marker = some marker := by
  intro marker hmarker
  rcases next_held hheld with ⟨found, -, hlook⟩ | ⟨found, now, previous, providers, hphase, hask⟩
  · rcases look_held hlook with hold | ⟨rfl, -⟩
    · exact hkept.held m hm hreported held hold marker hmarker
    · cases hmarker
  · obtain ⟨hkey, heq⟩ := ask_held hask
    rcases heq with rfl | ⟨-, rfl⟩ | ⟨provider, rest, rfl, hvalid⟩
    · refine hkept.held m hm hreported held (mem_held.mpr (.inr ⟨q, hq, ?_⟩)) marker hmarker
      simp [hphase, Phase.held, hkey]
    · cases hmarker
    · have hasks : AsksFor a found (provider :: rest) := by simpa [hphase, Fair] using hkept.requests q hq
      obtain ⟨-, hverdict⟩ := verdict_of_asksFor hasks (congrArg Prod.fst hkey) hvalid (by simp)
      exact hkept.marker_eq hm hreported ((marker_of_valid hverdict).trans hmarker)

theorem Kept.held_step (hkept : Kept a s) (hguard : s.Fresh a event) (m' : Minted)
    (hm' : m' ∈ (s.step success a event).minted) (hreported : m'.reported = false) :
    ∀ held ∈ (s.step success a event).world.held a, ∀ marker ∈ held, m'.marker = some marker := by
  intro held hheld marker hmarker
  obtain ⟨m, hm, rfl⟩ := mem_step_minted hm'
  have hbefore : m.reported = false := by
    simp only [Minted.observe, Bool.or_eq_false_iff] at hreported
    exact hreported.1
  rcases hm with hm | hm
  · have heq : m.marker = some marker := by
      rcases mem_step_held hheld with hold | ⟨i, ok, pick, q, -, hi, hnext⟩
      · exact hkept.held m hm hbefore held hold marker hmarker
      · exact hkept.marker_of_next (List.mem_of_getElem? hi) hnext hm hbefore marker hmarker
    simp [Minted.observe, heq]
  · cases event with
    | mint userId name expiresAt isScoped tokenHash =>
      have hnew : isScoped ∧ userId = a.userId := by
        simp only [mints] at hm
        split at hm
        · rename_i hscoped
          exact ⟨hscoped.1, hscoped.2.1⟩
        · cases hm
      have hreport : (s.step success a (.mint userId name expiresAt isScoped tokenHash)).report a = s.report a := by
        rw [step_report, step_directory (by simp)]
        rfl
      rcases mem_step_held hheld with hold | ⟨i, ok, pick, q, hevent, -, -⟩
      · rw [eq_of_mem_mints hm, hreport]
        exact hguard hnew.1 hnew.2 held hold marker hmarker
      · cases hevent
    | tick | report | register | putUser | deleteUser | revoke | disable | validate | advance | restart => cases hm

theorem Kept.found_step (hkept : Kept a s) : ∀ q ∈ (s.step success a event).world.requests, ∀ found ∈ q.phase.found,
      found.token.id < (s.step success a event).world.nextTokenId := by
  intro q' hq' found hfound
  refine lt_of_lt_of_le ?_ nextTokenId_le_step
  rcases mem_step_requests hq' with hold | ⟨tokenHash, rfl⟩ | ⟨i, ok, pick, q, -, hi, rfl⟩
  · exact hkept.found q' hold found hfound
  · cases hfound
  · rcases next_found hfound with hold | hrow
    · exact hkept.found q (List.mem_of_getElem? hi) found hold
    · exact hkept.tokens found.token hrow

theorem Fair.step {phase : Phase} (h : s.Fair a phase)
    (hfound : ∀ found ∈ phase.found, found.token.id < s.world.nextTokenId) :
    (s.step success a event).Fair a phase := by
  cases phase with
  | drop found =>
    intro huser m' hm' hid
    obtain ⟨m, hm, rfl⟩ := mem_step_minted hm'
    rcases hm with hm | hm
    · have hreported := h huser m hm hid
      simp [Minted.observe, hreported]
    · rw [eq_of_mem_mints hm] at hid
      exact absurd (hfound found rfl) (by rw [← hid]; exact lt_irrefl _)
  | scan | look | ask | store | log | touch | done => exact h

/-- **Why a token goes.** Where a check finds the account invalid, the directory has spoken against every token of the
account that there is. -/
theorem Kept.reported_of_invalid (hkept : Kept a s) (hprevious : previous ∈ s.world.held a)
    (hinvalid : searchVerdict success (unixSecs s.world.now) previous (s.report a) = .invalid)
    (hm : m ∈ s.minted) : m.reported := by
  rcases opposed_of_invalid hinvalid with hrevoked | hrotated
  · exact hkept.reported m hm (by simp [Minted.opposed, hrevoked])
  · by_contra hne
    have hunreported : m.reported = false := by simpa using hne
    cases previous with
    | none => cases hrotated
    | some old =>
      have hmarker := hkept.held m hm hunreported (some old) hprevious old rfl
      exact hne (hkept.reported m hm (by simp [Minted.opposed, hmarker, hrotated]))

theorem Kept.fair_ask (hkept : Kept a s) {now : Nat}
    {providers : List Provider} (hq : q ∈ s.world.requests) (hphase : q.phase = .ask found now previous providers) :
    s.Fair a (s.world.ask success found now previous providers) := by
  have hasks : AsksFor a found providers := by simpa [hphase, Fair] using hkept.requests q hq
  cases providers with
  | nil => trivial
  | cons provider rest =>
    simp only [ask]
    cases hverdict : revalidateAccount success (unixSecs s.world.now) s.world.directory provider found.user.email
      previous with
    | invalid =>
      intro huser m hm _
      obtain ⟨hkey, hinvalid⟩ := verdict_of_asksFor hasks huser hverdict (by simp)
      have hprevious : previous ∈ s.world.held a := by
        refine mem_held.mpr (.inr ⟨q, hq, ?_⟩)
        simp [hphase, Phase.held, hkey]
      exact hkept.reported_of_invalid hprevious hinvalid hm
    | notApplicable => exact fun huser provider' hmem => hasks huser provider' (List.mem_cons_of_mem _ hmem)
    | unavailable | valid => trivial

theorem fair_look (hasks : AsksFor a found s.world.registry) : s.Fair a (s.world.look found) := by
  rcases s.world.look_cases found with ⟨entry, -, -, hlook⟩ | ⟨previous, -, hlook⟩
  · rw [hlook]
    trivial
  · rw [hlook, consult]
    cases hregistry : s.world.registry with
    | nil => trivial
    | cons provider rest =>
      rw [hregistry] at hasks
      exact hasks

theorem Kept.fair_next (hkept : Kept a s) (hq : q ∈ s.world.requests)
    (hasks : ∀ found ∈ q.phase.looks, AsksFor a found s.world.registry) (ok : Bool) :
    s.Fair a (s.world.next success ok q).phase := by
  have hfair := hkept.requests q hq
  unfold next
  cases hphase : q.phase with
  | scan tokenHash =>
    rcases s.world.scan_cases tokenHash ok with ⟨e, hscan⟩ | ⟨found, -, ⟨-, hscan⟩ | ⟨-, hscan⟩⟩
    · simp only [hscan]
      trivial
    · simp only [hscan]
      trivial
    · simp only [hscan]
      trivial
  | look found => exact fair_look (hasks found (by rw [hphase]; rfl))
  | ask found now previous providers =>
    have hask : s.Fair a (s.world.ask success found now previous providers) := hkept.fair_ask hq hphase
    exact hask
  | touch found =>
    simp only [touch]
    split <;> trivial
  | store | drop | log => trivial
  | done result =>
    rw [hphase] at hfair
    simpa only [hphase] using hfair

theorem Kept.requests_step (hkept : Kept a s) (hguard : s.Fresh a event) :
    ∀ q ∈ (s.step success a event).world.requests, (s.step success a event).Fair a q.phase := by
  intro q' hq'
  rcases mem_step_requests hq' with hold | ⟨tokenHash, rfl⟩ | ⟨i, ok, pick, q, rfl, hi, rfl⟩
  · exact (hkept.requests q' hold).step (hkept.found q' hold)
  · trivial
  · have hq := List.mem_of_getElem? hi
    apply (hkept.fair_next hq (hguard q hi) ok).step
    intro found hfound
    rcases next_found hfound with hold | hrow
    · exact hkept.found q hq found hold
    · exact hkept.tokens found.token hrow

theorem Kept.step (hkept : Kept a s) (hguard : s.Fresh a event) : Kept a (s.step success a event) where
  shown := shown_step
  reported := reported_step
  held := hkept.held_step hguard
  tokens := tokens_step hkept.tokens
  found := hkept.found_step
  requests := hkept.requests_step hguard

/-- **Fresh tokens.** In every run whose steps all meet the condition, a re-check deletes a scoped token of the account
only if the directory has spoken against it since it was minted. -/
theorem deleted_with_reason (success : Nat → Bool) (a : Account) (now : Nat) (events : List Event)
    (hguarded : Guarded (step success a) (Fresh a) (start now) events) :
    (run (step success a) (start now) events).Justified a := by
  have hkept : Kept a (run (step success a) (start now) events) :=
    invariant_run (step success a) (fun _ _ hkept hguard => hkept.step hguard) (kept_start now) hguarded
  intro q hq found hdrops
  have hfair := hkept.requests q hq
  cases hphase : q.phase with
  | drop row =>
    rw [hphase] at hfair hdrops
    obtain rfl : row = found := some.inj hdrops
    exact hfair
  | scan | look | ask | store | log | touch | done =>
    rw [hphase] at hdrops
    cases hdrops

/-- A token is used, and used again after more than `VALID_TTL`. Then the account is disabled and a request is about
to delete the token. -/
def disabledAfterUse : List Event :=
  signedIn annDn ++ requestSteps 0 ['h'] 5 ++ [.tick (secs 61)] ++ requestSteps 1 ['h'] 5 ++
    [.report 0 annDn disabledReport, .tick (secs 61)] ++ requestSteps 2 ['h'] 3

theorem deleted_with_reason_disabled : (run (step onlySuccess annAccount) (start 0) disabledAfterUse).accepted =
        [⟨1, 0, none⟩, ⟨1, secs 61, none⟩] ∧
      (run (step onlySuccess annAccount) (start 0) disabledAfterUse).minted =
        [⟨1, some ['7'], some (secs 61), true⟩] ∧
      (run (step onlySuccess annAccount) (start 0) disabledAfterUse).Justified annAccount :=
  ⟨by decide +kernel, by decide +kernel,
    deleted_with_reason onlySuccess annAccount 0 disabledAfterUse (by decide +kernel)⟩

/-- The token of before the change is deleted rightly. The user signs in with the new password and gets another. -/
def changedPassword : List Event :=
  signedIn annDn ++ requestSteps 0 ['h'] 5 ++ [.report 0 annDn (enabledReport ['8']), .tick (secs 61)] ++
    requestSteps 1 ['h'] 5 ++ [.tick (secs 3600), mintDesktop ['k']] ++ requestSteps 2 ['k'] 3

/-- The new token is deleted as well, by the marker that the cache has kept. -/
theorem deleted_by_old_marker : (run (step onlySuccess annAccount) (start 0) changedPassword).minted =
        [⟨1, some ['7'], some 0, true⟩, ⟨2, some ['8'], none, false⟩] ∧
      ¬ (run (step onlySuccess annAccount) (start 0) changedPassword).Justified annAccount :=
  ⟨by decide +kernel, by decide +kernel⟩

end Watch

end Persea.Ldap
