import Persea.BaseTransition

/-! The cached settings flags of the instances that share one database. A PUT commits its entries with a new epoch and
then writes its own cache; a read reloads when the epochs differ. A world keeps the table of every epoch. -/

namespace Persea.Settings

open Base List Transition Function

abbrev Table := String → Option String

inductive Flag where
  | apiKeysEnabled
  | complianceModeEnabled
deriving DecidableEq, Repr

def Flag.key : Flag → String
  | .apiKeysEnabled => "enable_api_keys"
  | .complianceModeEnabled => "compliance_mode"

def Flag.default : Flag → Bool
  | .apiKeysEnabled => true
  | .complianceModeEnabled => false

def toggleEnabled (table : Table) (key : String) (default : Bool) : Bool :=
  match table key with
  | some "true" => true
  | some "false" => false
  | _ => default

def Table.flag (table : Table) (flag : Flag) : Bool := toggleEnabled table flag.key flag.default

def readToggle (table : Table) (flag : Flag) (ok : Bool) : Bool := if ok then table.flag flag else flag.default

structure SettingsFlags where
  apiKeysEnabled : Bool
  complianceModeEnabled : Bool
deriving DecidableEq, Repr

def SettingsFlags.pick (flags : SettingsFlags) : Flag → Bool
  | .apiKeysEnabled => flags.apiKeysEnabled
  | .complianceModeEnabled => flags.complianceModeEnabled

structure CachedSettings where
  epoch : Nat
  flags : SettingsFlags
deriving DecidableEq, Repr

def updateSettingsCache (cache : CachedSettings) (key value : String) : CachedSettings :=
  match key with
  | "enable_api_keys" => { cache with flags.apiKeysEnabled := value = "true" }
  | "compliance_mode" => { cache with flags.complianceModeEnabled := value = "true" }
  | _ => cache

/-- What the validation of a PUT leaves of its body: each key once, the flags as `true` or `false`. -/
structure Entries where
  toList : List (String × String)
  nodup : (toList.map Prod.fst).Nodup
  canonical : ∀ entry ∈ toList, ∀ flag : Flag, entry.1 = flag.key → entry.2 = "true" ∨ entry.2 = "false"

def Table.upsert (table : Table) (entry : String × String) : Table := Function.update table entry.1 (some entry.2)

def Table.put (table : Table) (entries : List (String × String)) : Table := entries.foldl Table.upsert table

/-! ### The instances -/

inductive Boot where
  | started (i : Nat)
  | keysRead (i : Nat) (apiKeysEnabled : Bool)
  | flagsRead (i : Nat) (flags : SettingsFlags)
  | done (i : Nat)

inductive Put where
  | started (i : Nat) (entries : Entries)
  /-- The transaction has committed and returned the epoch; these entries are not in the cache yet. -/
  | committed (i : Nat) (pending : List (String × String)) (epoch : Nat)
  | done (i : Nat)

inductive Read where
  | started (i : Nat) (flag : Flag) (since : Nat)
  | cacheRead (i : Nat) (flag : Flag) (since cachedEpoch : Nat)
  | current (i : Nat) (flag : Flag) (since dbEpoch : Nat)
  | reload (i : Nat) (flag : Flag) (since : Nat)
  | epochRead (i : Nat) (flag : Flag) (since epoch : Nat)
  | keysRead (i : Nat) (flag : Flag) (since epoch : Nat) (apiKeysEnabled : Bool)
  | loaded (i : Nat) (flag : Flag) (since : Nat) (fresh : CachedSettings)
  | returned (flag : Flag) (since : Nat) (value : Bool)
  /-- The epoch could not be read, and the cache was served without it. -/
  | unchecked (flag : Flag) (value : Bool)
deriving DecidableEq, Repr

structure World where
  epoch : Nat
  /-- The table after the commit of each epoch. -/
  tableAt : Nat → Table
  cache : Nat → Option CachedSettings
  boots : List Boot
  puts : List Put
  reads : List Read

def World.start (epoch : Nat) (table : Table) : World where
  epoch := epoch
  tableAt _ := table
  cache _ := none
  boots := []
  puts := []
  reads := []

inductive Event where
  | boot (i : Nat)
  | bootFlag (b : Nat) (ok : Bool)
  | bootEpoch (b : Nat) (ok : Bool)
  | put (i : Nat) (entries : Entries)
  | commit (p : Nat) (ok : Bool)
  | updateCache (p : Nat)
  | setEpoch (p : Nat)
  | read (i : Nat) (flag : Flag)
  | readCache (r : Nat)
  | readEpoch (r : Nat) (ok : Bool)
  | recheck (r : Nat)
  | reloadEpoch (r : Nat) (ok : Bool)
  | reloadFlag (r : Nat) (ok : Bool)
  | install (r : Nat)

namespace World

def table (w : World) : Table := w.tableAt w.epoch

def setCache (w : World) (i : Nat) (cache : CachedSettings) : World :=
  { w with cache := Function.update w.cache i (some cache) }

def setBoot (w : World) (b : Nat) (phase : Boot) : World := { w with boots := w.boots.set b phase }

def setPut (w : World) (p : Nat) (phase : Put) : World := { w with puts := w.puts.set p phase }

def setRead (w : World) (r : Nat) (phase : Read) : World := { w with reads := w.reads.set r phase }

def commit (w : World) (entries : List (String × String)) : World :=
  { w with
    epoch := w.epoch + 1
    tableAt := Function.update w.tableAt (w.epoch + 1) (w.table.put entries) }

def bootFlag (w : World) (ok : Bool) : Boot → Boot
  | .started i => .keysRead i (readToggle w.table .apiKeysEnabled ok)
  | .keysRead i apiKeys => .flagsRead i ⟨apiKeys, readToggle w.table .complianceModeEnabled ok⟩
  | phase => phase

def reloadFlag (w : World) (ok : Bool) : Read → Read
  | .epochRead i flag since epoch => .keysRead i flag since epoch (readToggle w.table .apiKeysEnabled ok)
  | .keysRead i flag since epoch apiKeys =>
    .loaded i flag since ⟨epoch, ⟨apiKeys, readToggle w.table .complianceModeEnabled ok⟩⟩
  | phase => phase

def installed (cache fresh : CachedSettings) : CachedSettings := if fresh.epoch > cache.epoch then fresh else cache

def step (w : World) : Event → World
  | .boot i => { w with boots := w.boots ++ [.started i] }
  | .bootFlag b ok =>
    match w.boots[b]? with
    | some phase => w.setBoot b (w.bootFlag ok phase)
    | none => w
  | .bootEpoch b ok =>
    match w.boots[b]? with
    | some (.flagsRead i flags) =>
      -- A cache that is set is not set again.
      match w.cache i with
      | some _ => w.setBoot b (.done i)
      | none => (w.setCache i ⟨if ok then w.epoch else 0, flags⟩).setBoot b (.done i)
    | _ => w
  -- The router serves requests after the cache has been set.
  | .put i entries => if (w.cache i).isSome then { w with puts := w.puts ++ [.started i entries] } else w
  | .commit p ok =>
    match w.puts[p]? with
    | some (.started i entries) =>
      if ok then (w.commit entries.toList).setPut p (.committed i entries.toList (w.epoch + 1))
      else w.setPut p (.done i)
    | _ => w
  | .updateCache p =>
    match w.puts[p]? with
    | some (.committed i (entry :: pending) epoch) =>
      match w.cache i with
      | some cache => (w.setCache i (updateSettingsCache cache entry.1 entry.2)).setPut p (.committed i pending epoch)
      | none => w.setPut p (.committed i pending epoch)
    | _ => w
  | .setEpoch p =>
    match w.puts[p]? with
    | some (.committed i [] epoch) =>
      match w.cache i with
      | some cache => (w.setCache i { cache with epoch }).setPut p (.done i)
      | none => w.setPut p (.done i)
    | _ => w
  | .read i flag => if (w.cache i).isSome then { w with reads := w.reads ++ [.started i flag w.epoch] } else w
  | .readCache r =>
    match w.reads[r]? with
    | some (.started i flag since) =>
      match w.cache i with
      | some cache => w.setRead r (.cacheRead i flag since cache.epoch)
      | none => w
    | _ => w
  | .readEpoch r ok =>
    match w.reads[r]? with
    | some (.cacheRead i flag since cachedEpoch) =>
      if ok then
        w.setRead r (if w.epoch = cachedEpoch then .current i flag since w.epoch else .reload i flag since)
      else
        match w.cache i with
        | some cache => w.setRead r (.unchecked flag (cache.flags.pick flag))
        | none => w
    | _ => w
  | .recheck r =>
    match w.reads[r]? with
    | some (.current i flag since dbEpoch) =>
      match w.cache i with
      | some cache =>
        w.setRead r (if cache.epoch = dbEpoch then .returned flag since (cache.flags.pick flag)
          else .reload i flag since)
      | none => w
    | _ => w
  | .reloadEpoch r ok =>
    match w.reads[r]? with
    | some (.reload i flag since) => w.setRead r (.epochRead i flag since (if ok then w.epoch else 0))
    | _ => w
  | .reloadFlag r ok =>
    match w.reads[r]? with
    | some phase => w.setRead r (w.reloadFlag ok phase)
    | none => w
  | .install r =>
    match w.reads[r]? with
    | some (.loaded i flag since fresh) =>
      match w.cache i with
      | some cache =>
        (w.setCache i (installed cache fresh)).setRead r
          (.returned flag since ((installed cache fresh).flags.pick flag))
      | none => w
    | _ => w

end World

def Boot.loading : Boot → Bool
  | .keysRead _ _ | .flagsRead _ _ => true
  | _ => false

def Put.startedOn : Put → Option Nat
  | .started i _ => some i
  | _ => none

def Put.writing : Put → Option Nat
  | .committed i _ _ => some i
  | _ => none

def Read.reloaded : Read → Option (Nat × Nat)
  | .loaded i _ _ fresh => some (i, fresh.epoch)
  | _ => none

/-- The condition: a PUT commits when its cache is at the database's epoch, with no other PUT writing it and no
start-up between its flags and the epoch; no reload replaces a cache that a PUT is writing; start-ups and
reloads read without an error. -/
def Settled (w : World) : Event → Prop
  | .bootFlag _ ok | .reloadEpoch _ ok | .reloadFlag _ ok => ok = true
  | .commit p ok => ok = true → (∀ boot ∈ w.boots, boot.loading = false) ∧ ∀ i ∈ w.puts[p]?.bind Put.startedOn,
        (∀ put ∈ w.puts, put.writing ≠ some i) ∧ ∀ cache ∈ w.cache i, cache.epoch = w.epoch
  | .install r => ∀ target ∈ w.reads[r]?.bind Read.reloaded, ∀ cache ∈ w.cache target.1,
      target.2 > cache.epoch → ∀ put ∈ w.puts, put.writing ≠ some target.1
  | _ => True

instance (w : World) : (event : Event) → Decidable (Settled w event)
  | .bootFlag _ ok | .reloadEpoch _ ok | .reloadFlag _ ok => inferInstanceAs (Decidable (ok = true))
  | .commit p _ => inferInstanceAs (Decidable (_ → _ ∧ ∀ i ∈ w.puts[p]?.bind Put.startedOn, _))
  | .install r => inferInstanceAs (Decidable (∀ target ∈ w.reads[r]?.bind Read.reloaded, _))
  | .boot _ | .bootEpoch _ _ | .put _ _ | .updateCache _ | .setEpoch _ | .read _ _ | .readCache _ | .readEpoch _ _
  | .recheck _ => isTrue trivial

theorem updateSettingsCache_epoch (cache : CachedSettings) (key value : String) :
    (updateSettingsCache cache key value).epoch = cache.epoch := by
  unfold updateSettingsCache
  split <;> rfl

theorem pick_update_self (cache : CachedSettings) (flag : Flag) (value : String) :
    (updateSettingsCache cache flag.key value).flags.pick flag = decide (value = "true") := by
  cases flag <;> rfl

variable (table : Table) {key : String} {value : Bool}

theorem pick_update_of_ne (cache : CachedSettings) (flag : Flag) (value : String) (h : flag.key ≠ key) :
    (updateSettingsCache cache key value).flags.pick flag = cache.flags.pick flag := by
  unfold updateSettingsCache
  split
  · cases flag with
    | apiKeysEnabled => exact absurd rfl h
    | complianceModeEnabled => rfl
  · cases flag with
    | apiKeysEnabled => rfl
    | complianceModeEnabled => exact absurd rfl h
  · rfl

variable {flag : Flag} {entries : List (String × String)} {low p i : Nat} {cache : CachedSettings}

theorem flag_of_stored {table : Table} {value : String} (h : table flag.key = some value)
    (hcanonical : value = "true" ∨ value = "false") : table.flag flag = decide (value = "true") := by
  unfold Table.flag toggleEnabled
  rcases hcanonical with rfl | rfl
  · rw [h]
    rfl
  · rw [h]
    rfl

theorem put_of_notMem (h : key ∉ entries.map Prod.fst) : table.put entries key = table key := by
  induction entries generalizing table with
  | nil => rfl
  | cons entry entries ih =>
    rw [map_cons, mem_cons, not_or] at h
    calc table.put (entry :: entries) key = (table.upsert entry).put entries key := rfl
      _ = table.upsert entry key := ih _ h.2
      _ = table key := update_of_ne h.1 _ _

theorem put_of_mem (hnodup : (entries.map Prod.fst).Nodup) {entry : String × String} (h : entry ∈ entries) :
    table.put entries entry.1 = some entry.2 := by
  induction entries generalizing table with
  | nil => exact absurd h not_mem_nil
  | cons head entries ih =>
    rw [map_cons, nodup_cons] at hnodup
    rcases mem_cons.mp h with rfl | hmem
    · calc table.put (entry :: entries) entry.1 = (table.upsert entry).put entries entry.1 := rfl
        _ = table.upsert entry entry.1 := put_of_notMem _ hnodup.1
        _ = some entry.2 := update_self ..
    · exact ih _ hnodup.2 hmem

theorem flag_put_of_notMem (h : flag.key ∉ entries.map Prod.fst) :
    (table.put entries).flag flag = table.flag flag := by
  unfold Table.flag toggleEnabled
  rw [put_of_notMem table h]

variable {w : World}

/-- The flag had this value in some epoch from `low` on. -/
def World.Dated (w : World) (low : Nat) (flag : Flag) (value : Bool) : Prop :=
  ∃ v, low ≤ v ∧ v ≤ w.epoch ∧ (w.tableAt v).flag flag = value

theorem World.Dated.lower {low' : Nat} (h : w.Dated low flag value) (hle : low' ≤ low) : w.Dated low' flag value := by
  obtain ⟨v, hlow, hv, hvalue⟩ := h
  exact ⟨v, hle.trans hlow, hv, hvalue⟩

theorem World.dated_now (w : World) (h : low ≤ w.epoch) (flag : Flag) : w.Dated low flag (w.table.flag flag) :=
  ⟨w.epoch, h, Nat.le_refl _, rfl⟩

theorem World.tableAt_commit (w : World) (entries : List (String × String)) {v : Nat} (hv : v ≤ w.epoch) :
    (w.commit entries).tableAt v = w.tableAt v :=
  update_of_ne (by omega) _ _

theorem World.table_commit (w : World) (entries : List (String × String)) :
    (w.commit entries).tableAt (w.epoch + 1) = w.table.put entries :=
  update_self ..

theorem World.Dated.commit (h : w.Dated low flag value) (entries : List (String × String)) :
    (w.commit entries).Dated low flag value := by
  obtain ⟨v, hlow, hv, hvalue⟩ := h
  refine ⟨v, hlow, Nat.le_succ_of_le hv, ?_⟩
  rw [w.tableAt_commit entries hv]
  exact hvalue

/-- No flag of the cache is older than the cache's epoch. -/
def CachedSettings.Sound (w : World) (cache : CachedSettings) : Prop :=
  cache.epoch ≤ w.epoch ∧ ∀ flag, w.Dated cache.epoch flag (cache.flags.pick flag)

def Boot.Sound (w : World) : Boot → Prop
  | .keysRead _ apiKeys => apiKeys = w.table.flag .apiKeysEnabled
  | .flagsRead _ flags => ∀ flag, flags.pick flag = w.table.flag flag
  | _ => True

/-- What a PUT relies on: its cache is one epoch behind, and the flags it need not write any more are up to date.
-/
def Put.Sound (w : World) : Put → Prop
  | .started i _ => (w.cache i).isSome
  | .committed i pending epoch => epoch ≤ w.epoch ∧ (∀ entry ∈ pending, w.tableAt epoch entry.1 = some entry.2 ∧
        ∀ flag : Flag, entry.1 = flag.key → entry.2 = "true" ∨ entry.2 = "false") ∧
      ∃ cache, w.cache i = some cache ∧ cache.epoch + 1 = epoch ∧
        ∀ flag : Flag, flag.key ∉ pending.map Prod.fst → w.Dated epoch flag (cache.flags.pick flag)
  | .done _ => True

def Read.Sound (w : World) : Read → Prop
  | .started _ _ since | .cacheRead _ _ since _ | .reload _ _ since => since ≤ w.epoch
  | .current _ _ since dbEpoch => since ≤ dbEpoch ∧ dbEpoch ≤ w.epoch
  | .epochRead _ _ since epoch => since ≤ epoch ∧ epoch ≤ w.epoch
  | .keysRead _ _ since epoch apiKeys => since ≤ epoch ∧ epoch ≤ w.epoch ∧ w.Dated epoch .apiKeysEnabled apiKeys
  | .loaded _ _ since fresh => since ≤ fresh.epoch ∧ fresh.Sound w
  | .returned flag since value => w.Dated since flag value
  | .unchecked _ _ => True

structure World.Inv (w : World) : Prop where
  caches : ∀ i cache, w.cache i = some cache → cache.Sound w
  boots : ∀ boot ∈ w.boots, boot.Sound w
  puts : ∀ (p : Nat) (put : Put), w.puts[p]? = some put → put.Sound w
  /-- One PUT at a time writes a cache. -/
  alone : ∀ i, Exclusive (fun put : Put => put.writing = some i) w.puts
  reads : ∀ read ∈ w.reads, read.Sound w

namespace World

theorem inv_start (epoch : Nat) (table : Table) : (start epoch table).Inv where
  caches _ _ h := by cases h
  boots _ h := absurd h not_mem_nil
  puts _ _ h := by cases h
  alone _ := exclusive_nil _
  reads _ h := absurd h not_mem_nil

section

variable (hinv : w.Inv)

include hinv

theorem Inv.setBoot (b : Nat) {phase : Boot} (h : phase.Sound w) : (w.setBoot b phase).Inv where
  caches := hinv.caches
  boots boot hmem := by
    rcases mem_or_eq_of_mem_set hmem with hmem | rfl
    · exact hinv.boots boot hmem
    · exact h
  puts := hinv.puts
  alone := hinv.alone
  reads := hinv.reads

theorem Inv.setRead (r : Nat) {phase : Read} (h : phase.Sound w) : (w.setRead r phase).Inv where
  caches := hinv.caches
  boots := hinv.boots
  puts := hinv.puts
  alone := hinv.alone
  reads read hmem := by
    rcases mem_or_eq_of_mem_set hmem with hmem | rfl
    · exact hinv.reads read hmem
    · exact h

theorem Inv.setPut {phase : Put} (h : phase.Sound w)
    (halone : ∀ i, phase.writing = some i → ∀ (q : Nat) (put : Put), q ≠ p → w.puts[q]? = some put →
      put.writing ≠ some i) :
    (w.setPut p phase).Inv where
  caches := hinv.caches
  boots := hinv.boots
  puts q put hput := by
    rcases getElem?_set_cases hput with ⟨-, rfl⟩ | ⟨-, hput⟩
    · exact h
    · exact hinv.puts q put hput
  alone i := (hinv.alone i).set (halone i)
  reads := hinv.reads

theorem Inv.setCache (h : cache.Sound w)
    (hidle : ∀ (p : Nat) (put : Put), w.puts[p]? = some put → put.writing ≠ some i) : (w.setCache i cache).Inv where
  caches j other hother := by
    by_cases hj : j = i
    · subst hj
      rw [show (w.setCache j cache).cache j = some cache from update_self ..] at hother
      exact Option.some.inj hother ▸ h
    · rw [show (w.setCache i cache).cache j = w.cache j from update_of_ne hj _ _] at hother
      exact hinv.caches j other hother
  boots := hinv.boots
  puts p put hput := by
    have hsound := hinv.puts p put hput
    cases put with
    | started j entries =>
      show (Function.update w.cache i (some cache) j).isSome
      by_cases hj : j = i
      · subst hj
        rw [update_self]
        rfl
      · rw [update_of_ne hj]
        exact hsound
    | committed j pending epoch =>
      have hj : j ≠ i := fun heq => hidle p _ hput (congrArg some heq)
      obtain ⟨hepoch, hpending, other, hother, hrest⟩ := hsound
      refine ⟨hepoch, hpending, other, ?_, hrest⟩
      show Function.update w.cache i (some cache) j = some other
      rw [update_of_ne hj]
      exact hother
    | done => trivial
  alone := hinv.alone
  reads := hinv.reads

theorem Inv.boot (i : Nat) : (w.step (.boot i)).Inv := by
  refine ⟨hinv.caches, fun boot hmem => ?_, hinv.puts, hinv.alone, hinv.reads⟩
  rcases mem_append.mp hmem with hmem | hmem
  · exact hinv.boots boot hmem
  · rw [mem_singleton.mp hmem]
    trivial

theorem Inv.bootFlag (b : Nat) : (w.step (.bootFlag b true)).Inv := by
  simp only [step]
  split
  · rename_i phase hb
    have hsound := hinv.boots phase (mem_of_getElem? hb)
    refine hinv.setBoot b ?_
    cases phase with
    | started i => exact rfl
    | keysRead i apiKeys =>
      intro flag
      cases flag with
      | apiKeysEnabled => exact hsound
      | complianceModeEnabled => rfl
    | flagsRead i flags => exact hsound
    | done i => trivial
  · exact hinv

theorem Inv.bootEpoch (b : Nat) (ok : Bool) : (w.step (.bootEpoch b ok)).Inv := by
  simp only [step]
  split
  · rename_i i flags hb
    have hsound : ∀ flag, flags.pick flag = w.table.flag flag := hinv.boots _ (mem_of_getElem? hb)
    split
    · exact hinv.setBoot b trivial
    · rename_i hcache
      refine (hinv.setCache ⟨?_, fun flag => ?_⟩ fun p put hput hwriting => ?_).setBoot b trivial
      · show (if ok then w.epoch else 0) ≤ w.epoch
        split_ifs
        · exact Nat.le_refl _
        · exact Nat.zero_le _
      · show w.Dated _ flag (flags.pick flag)
        rw [hsound flag]
        refine w.dated_now ?_ flag
        split_ifs
        · exact Nat.le_refl _
        · exact Nat.zero_le _
      · -- A PUT was accepted by an instance whose cache is set.
        have hput := hinv.puts p put hput
        cases put with
        | committed j pending epoch =>
          obtain ⟨-, -, cache, hj, -⟩ := hput
          rw [Option.some.inj hwriting, hcache] at hj
          contradiction
        | started | done => contradiction
  · exact hinv

end

end World

namespace World

/-! ### PUT -/

theorem Inv.put (hinv : w.Inv) (i : Nat) (entries : Entries) : (w.step (.put i entries)).Inv := by
  by_cases hcache : (w.cache i).isSome
  · rw [show w.step (.put i entries) = _ from if_pos hcache]
    refine ⟨hinv.caches, hinv.boots, fun p put hput => ?_, fun j => (hinv.alone j).concat nofun, hinv.reads⟩
    rcases getElem?_concat_cases hput with rfl | hput
    · exact hcache
    · exact hinv.puts p put hput
  · rw [show w.step (.put i entries) = w from if_neg hcache]
    exact hinv

theorem sound_commit_cache (h : cache.Sound w) (entries : List (String × String)) : cache.Sound (w.commit entries) :=
  ⟨Nat.le_succ_of_le h.1, fun flag => (h.2 flag).commit entries⟩

theorem sound_commit_put {put : Put} (h : put.Sound w) (entries : List (String × String)) :
    put.Sound (w.commit entries) := by
  cases put with
  | started i other => exact h
  | committed i pending epoch =>
    obtain ⟨hepoch, hpending, cache, hcache, hbehind, hflags⟩ := h
    refine ⟨Nat.le_succ_of_le hepoch, fun entry hentry => ?_, cache, hcache, hbehind,
      fun flag hflag => (hflags flag hflag).commit entries⟩
    rw [w.tableAt_commit entries hepoch]
    exact hpending entry hentry
  | done i => trivial

theorem sound_commit_read {read : Read} (h : read.Sound w) (entries : List (String × String)) :
    read.Sound (w.commit entries) := by
  cases read with
  | started | cacheRead | reload => exact Nat.le_succ_of_le h
  | current | epochRead => exact ⟨h.1, Nat.le_succ_of_le h.2⟩
  | keysRead => exact ⟨h.1, Nat.le_succ_of_le h.2.1, h.2.2.commit entries⟩
  | loaded => exact ⟨h.1, sound_commit_cache h.2 entries⟩
  | returned => exact World.Dated.commit h entries
  | unchecked => trivial

theorem Inv.afterCommit (hinv : w.Inv) (entries : List (String × String))
    (hboots : ∀ boot ∈ w.boots, boot.loading = false) : (w.commit entries).Inv where
  caches i cache h := sound_commit_cache (hinv.caches i cache h) entries
  boots boot hmem := by
    have hidle := hboots boot hmem
    cases boot with
    | started | done => trivial
    | keysRead | flagsRead => contradiction
  puts p put h := sound_commit_put (hinv.puts p put h) entries
  alone := hinv.alone
  reads read hmem := sound_commit_read (hinv.reads read hmem) entries

theorem sound_committed (hcache : w.cache i = some cache) (hsound : cache.Sound w)
    (hepoch : cache.epoch = w.epoch) (entries : Entries) :
    (Put.committed i entries.toList (w.epoch + 1)).Sound (w.commit entries.toList) := by
  refine ⟨Nat.le_refl _, fun entry hentry => ⟨?_, entries.canonical entry hentry⟩, cache, hcache, by rw [hepoch],
    fun flag hflag => ⟨w.epoch + 1, Nat.le_refl _, Nat.le_refl _, ?_⟩⟩
  · rw [w.table_commit]
    exact put_of_mem w.table entries.nodup hentry
  · obtain ⟨v, hlow, hv, hvalue⟩ := hsound.2 flag
    have hcurrent : v = w.epoch := by omega
    rw [hcurrent] at hvalue
    rw [w.table_commit, flag_put_of_notMem w.table hflag]
    exact hvalue

theorem Inv.commit (hinv : w.Inv) {ok : Bool} (hguard : Settled w (.commit p ok)) : (w.step (.commit p ok)).Inv := by
  simp only [step]
  split
  · rename_i i entries hp
    cases ok with
    | false => exact hinv.setPut trivial nofun
    | true =>
      obtain ⟨hboots, hinstance⟩ := hguard rfl
      have hon : i ∈ w.puts[p]?.bind Put.startedOn := by
        rw [hp]
        rfl
      obtain ⟨hidle, hcurrent⟩ := hinstance i hon
      obtain ⟨cache, hcache⟩ := Option.isSome_iff_exists.mp (hinv.puts p _ hp : (w.cache i).isSome)
      refine (hinv.afterCommit entries.toList hboots).setPut
        (sound_committed hcache (hinv.caches i cache hcache) (hcurrent cache hcache) entries) ?_
      intro j hj q put _ hput
      rw [← Option.some.inj hj]
      exact hidle put (mem_of_getElem? hput)
  · exact hinv

theorem sound_update {epoch : Nat} {entry : String × String}
    (hbehind : cache.epoch + 1 = epoch) (hepoch : epoch ≤ w.epoch) (hsound : cache.Sound w)
    (hstored : w.tableAt epoch entry.1 = some entry.2)
    (hcanonical : ∀ flag : Flag, entry.1 = flag.key → entry.2 = "true" ∨ entry.2 = "false") :
    (updateSettingsCache cache entry.1 entry.2).Sound w ∧ ∀ flag : Flag, flag.key = entry.1 →
        w.Dated epoch flag ((updateSettingsCache cache entry.1 entry.2).flags.pick flag) := by
  have hwritten : ∀ flag : Flag, flag.key = entry.1 →
      w.Dated epoch flag ((updateSettingsCache cache entry.1 entry.2).flags.pick flag) := by
    intro flag hflag
    refine ⟨epoch, Nat.le_refl _, hepoch, ?_⟩
    rw [← hflag, pick_update_self]
    exact flag_of_stored (hflag ▸ hstored) (hcanonical flag hflag.symm)
  refine ⟨⟨?_, fun flag => ?_⟩, hwritten⟩
  · rw [updateSettingsCache_epoch]
    exact hsound.1
  · rw [updateSettingsCache_epoch]
    by_cases hflag : flag.key = entry.1
    · exact (hwritten flag hflag).lower (by omega)
    · rw [pick_update_of_ne cache flag entry.2 hflag]
      exact hsound.2 flag

theorem Inv.idle (hinv : w.Inv) {put : Put} (hp : w.puts[p]? = some put) (hput : put.writing = some i)
    (q : Nat) (other : Put) (hq : (w.setPut p (.done i)).puts[q]? = some other) : other.writing ≠ some i := by
  rcases getElem?_set_cases hq with ⟨-, rfl⟩ | ⟨hne, hq⟩
  · nofun
  · exact fun hother => hne (hinv.alone i q p other put hq hp hother hput)

theorem Inv.updateCache (hinv : w.Inv) (p : Nat) : (w.step (.updateCache p)).Inv := by
  simp only [step]
  split
  · rename_i i entry pending epoch hp
    obtain ⟨hepoch, hpending, cache, hcache, hbehind, hflags⟩ := hinv.puts p _ hp
    obtain ⟨hstored, hcanonical⟩ := hpending entry mem_cons_self
    obtain ⟨hsound, hwritten⟩ := sound_update hbehind hepoch (hinv.caches i cache hcache) hstored hcanonical
    rw [hcache]
    dsimp only
    -- The PUT steps aside, its cache is replaced, and it comes back.
    have hdone : (w.setPut p (.done i)).Inv := hinv.setPut trivial nofun
    have hreplaced := hdone.setCache hsound (hinv.idle hp rfl)
    have hback : ((w.setCache i (updateSettingsCache cache entry.1 entry.2)).setPut p (.committed i pending epoch)) =
        (((w.setPut p (.done i)).setCache i (updateSettingsCache cache entry.1 entry.2)).setPut p
          (.committed i pending epoch)) := by
      simp only [World.setPut, World.setCache, set_set]
    rw [hback]
    refine hreplaced.setPut ⟨hepoch, fun e he => hpending e (mem_cons_of_mem _ he),
      updateSettingsCache cache entry.1 entry.2, update_self .., ?_, fun flag hflag => ?_⟩ ?_
    · rw [updateSettingsCache_epoch]
      exact hbehind
    · by_cases hkey : flag.key = entry.1
      · exact hwritten flag hkey
      · rw [pick_update_of_ne cache flag entry.2 hkey]
        refine hflags flag ?_
        rw [map_cons, mem_cons, not_or]
        exact ⟨hkey, hflag⟩
    · intro j hj q other _ hq
      rw [← Option.some.inj hj]
      exact hinv.idle hp rfl q other hq
  · exact hinv

theorem Inv.setEpoch (hinv : w.Inv) (p : Nat) : (w.step (.setEpoch p)).Inv := by
  simp only [step]
  split
  · rename_i i epoch hp
    obtain ⟨hepoch, -, cache, hcache, -, hflags⟩ := hinv.puts p _ hp
    rw [hcache]
    dsimp only
    have hdone : (w.setPut p (.done i)).Inv := hinv.setPut trivial nofun
    have hsound : CachedSettings.Sound w { cache with epoch } := ⟨hepoch, fun flag => hflags flag not_mem_nil⟩
    exact hdone.setCache hsound (hinv.idle hp rfl)
  · exact hinv

end World

namespace World

/-! ### `cached_flag` -/

section

variable (hinv : w.Inv)

include hinv

theorem Inv.read (i : Nat) (flag : Flag) : (w.step (.read i flag)).Inv := by
  by_cases hcache : (w.cache i).isSome
  · rw [show w.step (.read i flag) = _ from if_pos hcache]
    refine ⟨hinv.caches, hinv.boots, hinv.puts, hinv.alone, fun read hmem => ?_⟩
    rcases mem_append.mp hmem with hmem | hmem
    · exact hinv.reads read hmem
    · rw [mem_singleton.mp hmem]
      exact Nat.le_refl _
  · rw [show w.step (.read i flag) = w from if_neg hcache]
    exact hinv

theorem Inv.readCache (r : Nat) : (w.step (.readCache r)).Inv := by
  simp only [step]
  split
  · rename_i i flag since hr
    have hsince : since ≤ w.epoch := hinv.reads _ (mem_of_getElem? hr)
    split
    · exact hinv.setRead r hsince
    · exact hinv
  · exact hinv

theorem Inv.readEpoch (r : Nat) (ok : Bool) : (w.step (.readEpoch r ok)).Inv := by
  simp only [step]
  split
  · rename_i i flag since cachedEpoch hr
    have hsince : since ≤ w.epoch := hinv.reads _ (mem_of_getElem? hr)
    split_ifs
    · exact hinv.setRead r ⟨hsince, Nat.le_refl _⟩
    · exact hinv.setRead r hsince
    · split
      · exact hinv.setRead r trivial
      · exact hinv
  · exact hinv

theorem Inv.recheck (r : Nat) : (w.step (.recheck r)).Inv := by
  simp only [step]
  split
  · rename_i i flag since dbEpoch hr
    obtain ⟨hsince, hdb⟩ : since ≤ dbEpoch ∧ dbEpoch ≤ w.epoch := hinv.reads _ (mem_of_getElem? hr)
    split
    · rename_i cache hcache
      split_ifs with hepoch
      · -- The cache is at the epoch that the database had after the read began.
        have hdated := (hinv.caches i cache hcache).2 flag
        rw [hepoch] at hdated
        exact hinv.setRead r (hdated.lower hsince)
      · exact hinv.setRead r (hsince.trans hdb)
    · exact hinv
  · exact hinv

theorem Inv.reloadEpoch (r : Nat) : (w.step (.reloadEpoch r true)).Inv := by
  simp only [step]
  split
  · rename_i i flag since hr
    exact hinv.setRead r ⟨hinv.reads _ (mem_of_getElem? hr), Nat.le_refl _⟩
  · exact hinv

theorem Inv.reloadFlag (r : Nat) : (w.step (.reloadFlag r true)).Inv := by
  simp only [step]
  split
  · rename_i phase hr
    have hsound := hinv.reads phase (mem_of_getElem? hr)
    refine hinv.setRead r ?_
    cases phase with
    | epochRead i flag since epoch => exact ⟨hsound.1, hsound.2, w.dated_now hsound.2 _⟩
    | keysRead i flag since epoch apiKeys =>
      obtain ⟨hsince, hepoch, hkeys⟩ := hsound
      refine ⟨hsince, hepoch, fun flag => ?_⟩
      cases flag with
      | apiKeysEnabled => exact hkeys
      | complianceModeEnabled => exact w.dated_now hepoch _
    | started | cacheRead | current | reload | loaded | returned | unchecked => exact hsound
  · exact hinv

end

theorem setCache_self (h : w.cache i = some cache) : w.setCache i cache = w := by
  unfold World.setCache
  rw [← h, update_eq_self]

theorem Inv.install (hinv : w.Inv) {r : Nat} (hguard : Settled w (.install r)) : (w.step (.install r)).Inv := by
  simp only [step]
  split
  · rename_i i flag since fresh hr
    obtain ⟨hsince, hfresh⟩ := hinv.reads _ (mem_of_getElem? hr)
    split
    · rename_i cache hcache
      unfold installed
      split_ifs with hnewer
      · have htarget : (i, fresh.epoch) ∈ w.reads[r]?.bind Read.reloaded := by
          rw [hr]
          rfl
        have hidle := hguard (i, fresh.epoch) htarget cache hcache hnewer
        exact (hinv.setCache hfresh fun p put hput => hidle put (mem_of_getElem? hput)).setRead r
          ((hfresh.2 flag).lower hsince)
      · rw [setCache_self hcache]
        exact hinv.setRead r (((hinv.caches i cache hcache).2 flag).lower (by omega))
    · exact hinv
  · exact hinv

theorem Inv.step (hinv : w.Inv) {event : Event} (hguard : Settled w event) : (w.step event).Inv := by
  cases event with
  | boot i => exact hinv.boot i
  | bootFlag b ok =>
    obtain rfl : ok := hguard
    exact hinv.bootFlag b
  | bootEpoch b ok => exact hinv.bootEpoch b ok
  | put i entries => exact hinv.put i entries
  | commit p ok => exact hinv.commit hguard
  | updateCache p => exact hinv.updateCache p
  | setEpoch p => exact hinv.setEpoch p
  | read i flag => exact hinv.read i flag
  | readCache r => exact hinv.readCache r
  | readEpoch r ok => exact hinv.readEpoch r ok
  | recheck r => exact hinv.recheck r
  | reloadEpoch r ok =>
    obtain rfl : ok := hguard
    exact hinv.reloadEpoch r
  | reloadFlag r ok =>
    obtain rfl : ok := hguard
    exact hinv.reloadFlag r
  | install r => exact hinv.install hguard

end World

/-- **The flags are coherent** in every settled run: a read that compared its cache with the database's epoch
returns the value the flag had in some epoch from the read's beginning on. -/
theorem settings_coherent (epoch : Nat) (table : Table) (events : List Event)
    (hguarded : Guarded World.step Settled (.start epoch table) events) :
    let w := run World.step (.start epoch table) events
    ∀ flag since value, Read.returned flag since value ∈ w.reads →
      ∃ v, since ≤ v ∧ v ≤ w.epoch ∧ (w.tableAt v).flag flag = value := by
  intro w flag since value hmem
  have hinv : w.Inv := invariant_run World.step (fun _ _ h => h.step) (World.inv_start epoch table) hguarded
  exact hinv.reads _ hmem

def Entries.one (flag : Flag) (value : Bool) : Entries where
  toList := [(flag.key, if value then "true" else "false")]
  nodup := List.nodup_singleton _
  canonical entry h _ _ := by
    rw [List.mem_singleton.mp h]
    cases value
    · exact .inr rfl
    · exact .inl rfl

def bootInstance (b i : Nat) : List Event := [.boot i, .bootFlag b true, .bootFlag b true, .bootEpoch b true]

def putFlag (p i : Nat) (flag : Flag) (value : Bool) : List Event :=
  [.put i (.one flag value), .commit p true, .updateCache p, .setEpoch p]

def readCurrent (r i : Nat) (flag : Flag) : List Event := [.read i flag, .readCache r, .readEpoch r true, .recheck r]

def readReload (r i : Nat) (flag : Flag) : List Event :=
  [.read i flag, .readCache r, .readEpoch r true, .reloadEpoch r true, .reloadFlag r true, .reloadFlag r true,
    .install r]

/-- Instance 1 turns compliance mode on; instance 0 reads it, turns API keys off, and reads it again. -/
def noticed : List Event :=
  bootInstance 0 0 ++ bootInstance 1 1 ++ putFlag 0 1 .complianceModeEnabled true ++
    readReload 0 0 .complianceModeEnabled ++ putFlag 1 0 .apiKeysEnabled false ++
    readCurrent 1 0 .complianceModeEnabled

theorem settings_coherent_noticed : let w := run World.step (.start 0 fun _ => none) noticed
    w.reads = [.returned .complianceModeEnabled 1 true, .returned .complianceModeEnabled 2 true] ∧
      ∀ flag since value, Read.returned flag since value ∈ w.reads →
        ∃ v, since ≤ v ∧ v ≤ w.epoch ∧ (w.tableAt v).flag flag = value :=
  ⟨by decide +kernel, settings_coherent 0 (fun _ => none) noticed (by decide +kernel)⟩

/-- The same without the first read: instance 0 records the epoch of its own PUT over the one it has not noticed.
-/
def unnoticed : List Event :=
  bootInstance 0 0 ++ bootInstance 1 1 ++ putFlag 0 1 .complianceModeEnabled true ++
    putFlag 1 0 .apiKeysEnabled false ++ readCurrent 0 0 .complianceModeEnabled

/-- Instance 1 turns compliance mode on while instance 0 starts, between its flags and the epoch. -/
def bootRaced : List Event :=
  bootInstance 0 1 ++ [Event.boot 0, .bootFlag 1 true, .bootFlag 1 true] ++
    putFlag 0 1 .complianceModeEnabled true ++ [Event.bootEpoch 1 true] ++ readCurrent 0 0 .complianceModeEnabled

/-- **A flag is served after it has changed**: a PUT of another key, or a start-up, records an epoch whose flags
the cache does not have. -/
theorem settings_stale : (let w := run World.step (.start 0 fun _ => none) unnoticed
     w.reads = [.returned .complianceModeEnabled 2 false] ∧ w.epoch = 2 ∧
       (w.tableAt 1).flag .complianceModeEnabled = true ∧ (w.tableAt 2).flag .complianceModeEnabled = true) ∧
    (let w := run World.step (.start 0 fun _ => none) bootRaced
     w.reads = [.returned .complianceModeEnabled 1 false] ∧ w.epoch = 1 ∧
       (w.tableAt 1).flag .complianceModeEnabled = true) := by
  decide +kernel

end Persea.Settings
