import Persea.LdapTokens

/-! Revoked directory accounts and their tokens. No request is accepted on a check made more than `VALID_TTL` after
the directory began to speak against the token, under conditions that the source does not guarantee. -/

namespace Persea.Ldap

open Base Transition World

namespace Watch

variable (success : Nat → Bool) (a : Account)

/-- A check of the account's tokens asks for the account, and the cache does not lose a marker that tells of a
rotation. -/
def MayAdvance (s : Watch) : Phase → Prop
  | .look found => found.token.userId = a.userId → found.user.email = a.dn ∧
      (s.world.registry.find? fun provider => provider.manages a.dn).map Provider.server = some a.server
  | .store _ _ => s.Rotated (s.report a).marker → s.world.cache.entries.length < maxEntries
  | _ => True

/-- The condition on a step. A password is changed only when the cache has a marker from before the change. -/
def Detectable (s : Watch) : Event → Prop
  | .report server dn report => server = a.server → dn = a.dn → report.Plain success ∧
      (s.Rotated report.marker → (s.world.cache.lookup a.key).isSome = true ∧
        ∀ marker ∈ s.world.held a, pwdRotated marker report.marker = true)
  | .advance i _ _ => ∀ q ∈ s.world.requests[i]?, s.MayAdvance a q.phase
  | .restart => ¬ s.Rotated (s.report a).marker
  | _ => True

instance (s : Watch) : (phase : Phase) → Decidable (s.MayAdvance a phase)
  | .look _ => inferInstanceAs (Decidable (_ → _ ∧ _ = some a.server))
  | .store _ _ => inferInstanceAs (Decidable (s.Rotated (s.report a).marker → _ < _))
  | .scan _ | .ask _ _ _ _ | .drop _ | .log _ | .touch _ | .done _ => isTrue trivial

instance (s : Watch) : (event : Event) → Decidable (s.Detectable success a event)
  | .report server dn report =>
    inferInstanceAs (Decidable (server = a.server → dn = a.dn → report.Plain success ∧ (s.Rotated report.marker → _)))
  | .advance i _ _ => inferInstanceAs (Decidable (∀ q ∈ s.world.requests[i]?, s.MayAdvance a q.phase))
  | .restart => inferInstanceAs (Decidable (¬ s.Rotated (s.report a).marker))
  | .tick _ | .register _ | .putUser _ | .deleteUser _ | .mint _ _ _ _ _ | .revoke _ | .disable _ | .validate _ =>
    isTrue trivial

/-! ### The invariant -/

def OnTime (s : Watch) (checkedAt : Nat) : Phase → Prop
  | .ask found now _ providers => found.token.userId = a.userId → found.user.email = a.dn ∧ now = checkedAt ∧
      (providers.find? fun provider => provider.manages a.dn).map Provider.server = some a.server
  | .store found entry => found.token.userId = a.userId → found.user.email = a.dn ∧ entry.checkedAt = checkedAt ∧
      entry.verdict ≠ .notApplicable ∧ s.NoLater 0 checkedAt
  | .touch found => Concerns a found → s.NoLater validTtl checkedAt
  | _ => True

structure Inv (s : Watch) : Prop where
  plain : (s.report a).Plain success
  opposed : ∀ m ∈ s.minted, m.since ≠ none → m.opposed (unixSecs s.world.now) (s.report a) = true
  held : s.Rotated (s.report a).marker → (s.world.cache.lookup a.key).isSome = true ∧
    ∀ marker ∈ s.world.held a, pwdRotated marker (s.report a).marker = true
  cached : ∀ entry ∈ s.world.cache.lookup a.key, entry.checkedAt ≤ s.world.now ∧ entry.verdict ≠ .notApplicable ∧
    s.NoLater 0 entry.checkedAt
  requests : ∀ q ∈ s.world.requests, q.checkedAt ≤ s.world.now ∧ s.OnTime a q.checkedAt q.phase
  prompt : s.Prompt

variable {success a} {s : Watch} {event : Event}

theorem inv_start (now : Nat) : Inv success a (start now) where
  plain := trivial
  opposed _ hm := by cases hm
  held h := by
    obtain ⟨m, hm, -⟩ := h
    cases hm
  cached _ hentry := by cases hentry
  requests _ hq := by cases hq
  prompt _ hacc := by cases hacc

theorem OnTime.step {checkedAt : Nat} {phase : Phase} (h : s.OnTime a checkedAt phase)
    (hnow : checkedAt ≤ s.world.now) : (s.step success a event).OnTime a checkedAt phase := by
  cases phase with
  | store found entry =>
    intro hconcerns
    obtain ⟨hemail, hchecked, hverdict, hlater⟩ := h hconcerns
    exact ⟨hemail, hchecked, hverdict, hlater.step hnow⟩
  | touch found => exact fun hconcerns => (h hconcerns).step hnow
  | scan | look | ask | drop | log | done => exact h

theorem opposed_step (m' : Minted) (hm' : m' ∈ (s.step success a event).minted) (hsince : m'.since ≠ none) :
    m'.opposed (unixSecs (s.step success a event).world.now) ((s.step success a event).report a) := by
  obtain ⟨m, -, rfl⟩ := mem_step_minted hm'
  rw [opposed_observe]
  simp only [Minted.observe, ne_eq, ite_eq_right_iff, not_forall] at hsince
  exact hsince.1

variable {previous : Option Text} {q : Request} {found : Found}

/-- **The check's own instant.** Where a check of the account does not find it invalid, the directory speaks
against none of its tokens at that moment. -/
theorem Inv.silent (hinv : Inv success a s) (hprevious : previous ∈ s.world.held a)
    (hverdict : searchVerdict success (unixSecs s.world.now) previous (s.report a) ≠ .invalid) (slack : Nat)
    (time : Nat) : s.NoLater slack time := by
  intro m hm since hsince
  exfalso
  have hopposed := hinv.opposed m hm (by rw [hsince]; simp)
  rw [Minted.opposed, Bool.or_eq_true] at hopposed
  apply hverdict
  apply invalid_of_opposed hinv.plain
  rcases hopposed with hrevoked | hrotated
  · exact .inl hrevoked
  · exact .inr ((hinv.held ⟨m, hm, hrotated⟩).2 previous hprevious)

theorem report_step_cases (success : Nat → Bool) (a : Account) (s : Watch) (event : Event) :
    (s.step success a event).report a = s.report a ∨
      ∃ report, event = .report a.server a.dn report ∧ (s.step success a event).report a = report := by
  by_cases hevent : ∀ server dn report, event ≠ .report server dn report
  · left
    rw [step_report, step_directory hevent]
    rfl
  · push Not at hevent
    obtain ⟨server, dn, report, rfl⟩ := hevent
    by_cases haccount : a.server = server ∧ a.dn = dn
    · obtain ⟨rfl, rfl⟩ := haccount
      exact .inr ⟨report, rfl, if_pos ⟨rfl, rfl⟩⟩
    · exact .inl (if_neg haccount)

theorem Inv.plain_step (hinv : Inv success a s) (hguard : s.Detectable success a event) :
    ((s.step success a event).report a).Plain success := by
  rcases report_step_cases success a s event with hsame | ⟨report, rfl, hreport⟩
  · rw [hsame]
    exact hinv.plain
  · rw [hreport]
    exact (hguard rfl rfl).1

theorem Inv.cached_step (hinv : Inv success a s) : ∀ entry ∈ (s.step success a event).world.cache.lookup a.key,
      entry.checkedAt ≤ (s.step success a event).world.now ∧ entry.verdict ≠ .notApplicable ∧
        (s.step success a event).NoLater 0 entry.checkedAt := by
  intro entry hentry
  have hpast : entry.checkedAt ≤ s.world.now ∧ entry.verdict ≠ .notApplicable ∧ s.NoLater 0 entry.checkedAt := by
    rcases mem_step_lookup hentry with hold | ⟨i, ok, pick, q, found, -, hi, hphase, hkey⟩
    · exact hinv.cached entry hold
    · obtain ⟨hnow, hontime⟩ := hinv.requests q (List.mem_of_getElem? hi)
      rw [hphase] at hontime
      obtain ⟨-, hchecked, hverdict, hlater⟩ := hontime (congrArg Prod.fst hkey)
      rw [hchecked]
      exact ⟨hnow, hverdict, hlater⟩
  exact ⟨hpast.1.trans now_le_step, hpast.2.1, hpast.2.2.step hpast.1⟩

theorem verdict_of_find {provider : Provider} {rest : List Provider}
    (hfind : ((provider :: rest).find? fun provider => provider.manages a.dn).map Provider.server = some a.server)
    (hmanages : provider.manages a.dn) :
    revalidateAccount success (unixSecs s.world.now) s.world.directory provider a.dn previous =
      searchVerdict success (unixSecs s.world.now) previous (s.report a) := by
  have hserver : provider.server = a.server := by simpa [List.find?_cons, hmanages] using hfind
  rw [revalidateAccount, if_pos hmanages, hserver]
  rfl

section

variable (hinv : Inv success a s)

include hinv

theorem Inv.onTime_ask {now : Nat} {providers : List Provider}
    (hq : q ∈ s.world.requests) (hphase : q.phase = .ask found now previous providers) :
    s.OnTime a q.checkedAt (s.world.ask success found now previous providers) := by
  have hontime := (hinv.requests q hq).2
  rw [hphase] at hontime
  cases providers with
  | nil =>
    intro hconcerns
    obtain ⟨-, -, hfind⟩ := hontime hconcerns
    cases hfind
  | cons provider rest =>
    by_cases hconcerns : found.token.userId = a.userId
    · obtain ⟨hemail, hnow, hfind⟩ := hontime hconcerns
      have hheld : previous ∈ s.world.held a := by
        refine mem_held.mpr (.inr ⟨q, hq, ?_⟩)
        simp [hphase, Phase.held, Found.key, Account.key, hconcerns, hemail]
      simp only [ask, hemail]
      cases hmanages : provider.manages a.dn with
      | false =>
        rw [revalidateAccount, if_neg (by simp [hmanages])]
        intro _
        refine ⟨hemail, hnow, ?_⟩
        rwa [List.find?_cons, hmanages] at hfind
      | true =>
        rw [verdict_of_find hfind hmanages]
        cases hverdict : searchVerdict success (unixSecs s.world.now) previous (s.report a) with
        | invalid => trivial
        | notApplicable => exact absurd hverdict (applicable_of_plain hinv.plain)
        | unavailable | valid pwdLastSet =>
          have hsilent := hinv.silent hheld (by simp [hverdict]) 0 q.checkedAt
          exact fun _ => ⟨hemail, hnow, by simp, hsilent⟩
    · simp only [ask]
      cases revalidateAccount success (unixSecs s.world.now) s.world.directory provider found.user.email previous with
      | invalid => trivial
      | notApplicable | unavailable | valid => exact fun h => absurd h hconcerns

theorem Inv.onTime_look (hmay : s.MayAdvance a (.look found)) : s.OnTime a s.world.now (s.world.look found) := by
  rcases s.world.look_cases found with ⟨entry, hentry, hfresh, hlook⟩ | ⟨previous, -, hlook⟩
  · rw [hlook]
    intro hconcerns m hm since hsince
    obtain ⟨hemail, -⟩ := hmay hconcerns.1
    have hkey : found.key = a.key := by rw [Found.key, hconcerns.1, hemail]; rfl
    rw [hkey] at hentry
    obtain ⟨-, hverdict, hlater⟩ := hinv.cached entry hentry
    have hsince := hlater m hm since hsince
    have httl : entryTtl entry.verdict ≤ validTtl := by
      cases hentry : entry.verdict with
      | valid | invalid => exact le_rfl
      | unavailable => decide
      | notApplicable => exact absurd hentry hverdict
    omega
  · rw [hlook]
    cases hregistry : s.world.registry with
    | nil =>
      simp only [consult, hregistry]
      intro hconcerns
      obtain ⟨-, hfind⟩ := hmay hconcerns.1
      rw [hregistry] at hfind
      cases hfind
    | cons provider rest =>
      simp only [consult, hregistry]
      intro hconcerns
      obtain ⟨hemail, hfind⟩ := hmay hconcerns
      rw [hregistry] at hfind
      exact ⟨hemail, rfl, hfind⟩

theorem Inv.onTime_next (hq : q ∈ s.world.requests) (hmay : s.MayAdvance a q.phase)
    (ok : Bool) :
    (s.world.next success ok q).checkedAt ≤ s.world.now ∧
      s.OnTime a (s.world.next success ok q).checkedAt (s.world.next success ok q).phase := by
  obtain ⟨hpast, hontime⟩ := hinv.requests q hq
  unfold next
  cases hphase : q.phase with
  | scan tokenHash =>
    refine ⟨hpast, ?_⟩
    rcases s.world.scan_cases tokenHash ok with ⟨e, hscan⟩ | ⟨found, -, ⟨-, hscan⟩ | ⟨htype, hscan⟩⟩
    · simp only [hscan]
      trivial
    · simp only [hscan]
      trivial
    · simp only [hscan]
      exact fun hconcerns => absurd hconcerns.2 htype
  | look found =>
    rw [hphase] at hmay
    exact ⟨le_rfl, hinv.onTime_look hmay⟩
  | ask found now previous providers =>
    have hask := hinv.onTime_ask hq hphase
    exact ⟨hpast, hask⟩
  | store found entry =>
    rw [hphase] at hontime
    refine ⟨hpast, fun hconcerns m hm since hsince => ?_⟩
    obtain ⟨-, -, -, hlater⟩ := hontime hconcerns.1
    exact (hlater m hm since hsince).trans (Nat.le_add_right _ _)
  | touch found =>
    refine ⟨hpast, ?_⟩
    simp only [touch]
    split <;> trivial
  | drop | log => exact ⟨hpast, trivial⟩
  | done result =>
    rw [hphase] at hontime
    exact ⟨hpast, by rw [hphase]; exact hontime⟩

theorem Inv.requests_step (hguard : s.Detectable success a event) :
    ∀ q ∈ (s.step success a event).world.requests, q.checkedAt ≤ (s.step success a event).world.now ∧
      (s.step success a event).OnTime a q.checkedAt q.phase := by
  intro q' hq'
  have hpast : q'.checkedAt ≤ s.world.now ∧ s.OnTime a q'.checkedAt q'.phase := by
    rcases mem_step_requests hq' with hold | ⟨tokenHash, rfl⟩ | ⟨i, ok, pick, q, rfl, hi, rfl⟩
    · exact hinv.requests q' hold
    · exact ⟨le_rfl, trivial⟩
    · exact hinv.onTime_next (List.mem_of_getElem? hi) (hguard q hi) ok
  exact ⟨hpast.1.trans now_le_step, hpast.2.step hpast.1⟩

end

theorem isSome_lookup_step (hguard : s.Detectable success a event) (hrotated : s.Rotated (s.report a).marker)
    (hcached : (s.world.cache.lookup a.key).isSome) :
    ((s.world.step success event).cache.lookup a.key).isSome := by
  cases event with
  | mint userId name expiresAt isScoped tokenHash =>
    simp only [World.step, World.mint]
    split <;> exact hcached
  | advance i ok pick =>
    simp only [World.step]
    cases hi : s.world.requests[i]? with
    | none => exact hcached
    | some q =>
      have hmay : s.MayAdvance a q.phase := hguard q hi
      simp only [World.advance]
      cases hphase : q.phase with
      | store found entry =>
        rw [hphase] at hmay
        have hroom : (s.world.cache.insert found.key entry).entries.length ≤ maxEntries := by
          have herase := (List.kerase_sublist found.key s.world.cache.entries).length_le
          have hlength : (s.world.cache.insert found.key entry).entries.length =
              (List.kerase found.key s.world.cache.entries).length + 1 := rfl
          have hfree := hmay hrotated
          omega
        rw [World.cacheAfter, evict, if_pos hroom]
        by_cases hkey : a.key = found.key
        · rw [hkey, AList.lookup_insert]
          rfl
        · rwa [AList.lookup_insert_ne hkey]
      | scan | look | ask | drop | log | touch | done => exact hcached
  | restart => exact absurd hrotated hguard
  | tick | report | register | putUser | deleteUser | revoke | disable | validate => exact hcached

section

variable (hinv : Inv success a s)

include hinv

theorem Inv.rotated_of_next (hrotated : s.Rotated (s.report a).marker) {ok : Bool}
    {marker : Option Text} (hq : q ∈ s.world.requests)
    (hheld : (s.world.next success ok q).phase.held a = some marker) :
    pwdRotated marker (s.report a).marker := by
  obtain ⟨hcached, hrotates⟩ := hinv.held hrotated
  rcases next_held hheld with ⟨found, -, hlook⟩ | ⟨found, now, previous, providers, hphase, hask⟩
  · rcases look_held hlook with hold | ⟨-, hnone⟩
    · exact hrotates marker hold
    · rw [hnone] at hcached
      cases hcached
  · obtain ⟨hkey, hmarker⟩ := ask_held hask
    have hontime := (hinv.requests q hq).2
    rw [hphase] at hontime
    obtain ⟨hemail, -, hfind⟩ := hontime (congrArg Prod.fst hkey)
    have hprevious : previous ∈ s.world.held a := by
      refine mem_held.mpr (.inr ⟨q, hq, ?_⟩)
      simp [hphase, Phase.held, hkey]
    rcases hmarker with rfl | ⟨rfl, -⟩ | ⟨provider, rest, rfl, hvalid⟩
    · exact hrotates marker hprevious
    · cases hfind
    · exfalso
      rw [hemail] at hvalid
      cases hmanages : provider.manages a.dn with
      | false =>
        rw [revalidateAccount, if_neg (by simp [hmanages])] at hvalid
        cases hvalid
      | true =>
        have hinvalid : searchVerdict success (unixSecs s.world.now) previous (s.report a) = .invalid :=
          invalid_of_opposed hinv.plain (.inr (hrotates previous hprevious))
        rw [verdict_of_find hfind hmanages, hinvalid] at hvalid
        cases hvalid

theorem Inv.held_step (hguard : s.Detectable success a event)
    (hrotated : (s.step success a event).Rotated ((s.step success a event).report a).marker) :
    ((s.step success a event).world.cache.lookup a.key).isSome ∧
      ∀ marker ∈ (s.step success a event).world.held a,
        pwdRotated marker ((s.step success a event).report a).marker := by
  have hbefore := rotated_of_step hrotated
  rcases report_step_cases success a s event with hsame | ⟨report, rfl, hreport⟩
  · rw [hsame] at hbefore ⊢
    refine ⟨isSome_lookup_step hguard hbefore (hinv.held hbefore).1, fun marker hmarker => ?_⟩
    rcases mem_step_held hmarker with hold | ⟨i, ok, pick, q, rfl, hi, hnext⟩
    · exact (hinv.held hbefore).2 marker hold
    · exact hinv.rotated_of_next hbefore (List.mem_of_getElem? hi) hnext
  · rw [hreport] at hbefore ⊢
    exact (hguard rfl rfl).2 hbefore

theorem Inv.prompt_step : (s.step success a event).Prompt := by
  intro acc hacc
  rcases List.mem_append.mp hacc with hold | hnew
  · exact hinv.prompt acc hold
  · cases event with
    | advance i ok pick =>
      obtain ⟨q, hi, haccepts⟩ := List.mem_flatMap.mp hnew
      obtain ⟨-, hontime⟩ := hinv.requests q (List.mem_of_getElem? (Option.mem_toList.mp hi))
      unfold accepts at haccepts
      cases hphase : q.phase with
      | touch found =>
        rw [hphase] at haccepts hontime
        simp only at haccepts
        split at haccepts
        · rename_i hconcerns
          obtain ⟨m, hm, rfl⟩ := List.mem_map.mp haccepts
          exact hontime hconcerns.1 m (List.mem_of_mem_filter hm)
        · cases haccepts
      | scan | look | ask | store | drop | log | done =>
        rw [hphase] at haccepts
        cases haccepts
    | tick | report | register | putUser | deleteUser | mint | revoke | disable | validate | restart => cases hnew

theorem Inv.step (hguard : s.Detectable success a event) : Inv success a (s.step success a event) where
  plain := hinv.plain_step hguard
  opposed := opposed_step
  held := hinv.held_step hguard
  cached := hinv.cached_step
  requests := hinv.requests_step hguard
  prompt := hinv.prompt_step

end

/-- **Revoked accounts.** In every run whose steps all meet the condition, no request with a scoped token of the
account is accepted on a check made more than `VALID_TTL` after the directory began to speak against the
token. -/
theorem accepted_within_ttl (success : Nat → Bool) (a : Account) (now : Nat) (events : List Event)
    (hguarded : Guarded (step success a) (Detectable success a) (start now) events) :
    (run (step success a) (start now) events).Prompt := by
  have hinv : Inv success a (run (step success a) (start now) events) :=
    invariant_run (step success a) (fun _ _ hinv hguard => hinv.step hguard) (inv_start now) hguarded
  exact hinv.prompt

/-- The row carries the account's DN. A request comes while the account is enabled, one half a minute after it was
disabled, and one half a minute later. -/
def disabledRun : List Event :=
  signedIn annDn ++ requestSteps 0 ['h'] 6 ++ [.report 0 annDn disabledReport, .tick (secs 30)] ++ requestSteps 1 ['h'] 6 ++
    [.tick (secs 31)] ++ requestSteps 2 ['h'] 6

/-- The first two requests are accepted, the third deletes the token. -/
theorem accepted_within_ttl_disabled : (run (step onlySuccess annAccount) (start 0) disabledRun).accepted =
        [⟨1, 0, none⟩, ⟨1, secs 30, some 0⟩] ∧
      (run (step onlySuccess annAccount) (start 0) disabledRun).world.tokens = [] ∧
      (run (step onlySuccess annAccount) (start 0) disabledRun).Prompt :=
  ⟨by decide +kernel, by decide +kernel, accepted_within_ttl onlySuccess annAccount 0 disabledRun (by decide +kernel)⟩

/-- The row carries the mail address, as it does when the login resolves the DN to the entry's mail. -/
def mailRun : List Event :=
  signedIn "a@x" ++ [.report 0 annDn disabledReport, .tick (secs 86400)] ++ requestSteps 0 ['h'] 6

/-- The account has been disabled for a day and the token is good. -/
theorem accepted_after_a_day :
    (run (step onlySuccess annAccount) (start 0) mailRun).accepted = [⟨1, secs 86400, some 0⟩] ∧
      ¬ (run (step onlySuccess annAccount) (start 0) mailRun).Prompt := by
  have haccepted : (run (step onlySuccess annAccount) (start 0) mailRun).accepted =
      [⟨1, secs 86400, some 0⟩] := by decide +kernel
  refine ⟨haccepted, fun hprompt => ?_⟩
  have hlate := hprompt ⟨1, secs 86400, some 0⟩ (by rw [haccepted]; simp) 0 rfl
  exact absurd hlate (by decide)

end Watch

end Persea.Ldap
