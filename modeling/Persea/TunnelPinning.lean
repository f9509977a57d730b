import Persea.BaseLines
import Persea.BaseTransition
import Persea.ProtocolInstruction

/-! Host keys of SSH jump hosts. The `known_hosts` file is read and written under the address a hop is dialled at,
which for all but the first hop is a local listener. -/

namespace Persea.Tunnel

open Base Base.Text List Transition Option

abbrev Bytes := List UInt8

structure JumpHost where
  hostname : Text
  port : UInt16
  username : Text
  hostKey : Option Text
deriving DecidableEq, Repr

/-- Public keys and their fingerprints. No two keys have one fingerprint, and it is made of visible characters. -/
structure KeyLib (Key : Type) where
  digest : Key → Text
  digest_injective : Function.Injective digest
  digest_visible : ∀ key, ∀ c ∈ digest key, Visible c
  parsePublicKeyBase64 : Text → Except String Key

variable {Key : Type} (lib : KeyLib Key)

def KeyLib.fingerprint (key : Key) : Text := "SHA256:" ++ lib.digest key

def fingerprintOpensshKey (opensshKey : Text) : Except String Text :=
  let words := (opensshKey.splitOnP isWhitespace).filter (· ≠ [])
  match lib.parsePublicKeyBase64 (words[1]?.getD opensshKey) with
  | .ok key => .ok (lib.fingerprint key)
  | .error e => .error ("invalid host key: " ++ e)

def normalizeHostKey (expected : Text) : Except String Text :=
  let trimmed := trim expected
  if (trimmed.take 7).map Char.toLower = "sha256:" then .ok ("SHA256:" ++ trim (trimmed.drop 7))
  else fingerprintOpensshKey lib trimmed

def parsePort (s : Text) : Option UInt16 :=
  (Protocol.parseUsize s).bind fun n => if n ≤ 65535 then some (UInt16.ofNat n) else none

def splitJumpHost (jumpHost : Text) : Text × UInt16 :=
  match rsplitOnce ':' jumpHost with
  | some (host, port) => (host, (parsePort port).getD 22)
  | none => (jumpHost, (parsePort []).getD 22)

def hostPort (host : Text) (port : UInt16) : Text := host ++ ':' :: decimal port.toNat

def pinOf (host : Text) (port : UInt16) (line : Text) : Option Text :=
  let begins := hostPort host port ++ [':']
  if begins.isPrefixOf line then (some (trim (line.drop begins.length))).filter (· ≠ []) else none

variable (file : Option Bytes)

def readKnownHosts (host : Text) (port : UInt16) : Option Text :=
  file.bind fun bytes => (Lines.readLines bytes).findSome? (pinOf host port)

def knownHostLine (host : Text) (port : UInt16) (fingerprint : Text) : Text :=
  hostPort host port ++ ':' :: fingerprint ++ ['\n']

def appendKnownHost (host : Text) (port : UInt16) (fingerprint : Text) : Option Bytes :=
  some (file.getD [] ++ Utf8.encode (knownHostLine host port fingerprint))

/-- What a hop meets: whether the server is reached and with which key it answers, whether `known_hosts` can be
written, whether the login succeeds, and the local port of its listener. -/
structure Answer (Key : Type) where
  reached : Bool
  key : Key
  writable : Bool
  authenticated : Bool
  localPort : Option UInt16
deriving DecidableEq, Repr

structure Connection (Key : Type) where
  hostname : Text
  port : UInt16
  key : Key
  accepted : Bool
deriving DecidableEq, Repr

structure Instance (Key : Type) where
  /-- The instance has a path for `known_hosts`. -/
  hasPath : Bool
  knownHosts : Option Bytes
  log : List (Connection Key)
deriving DecidableEq, Repr

open Instance

inductive TunnelError where
  | ssh (hop : Nat) (message : Text)
  | auth (hop : Nat) (message : Text)
  | bind (hop : Nat) (message : Text)
deriving DecidableEq, Repr

/-- The key a server is checked against: the one of the address book, or the one on file. -/
def effectiveKey (expectedKey : Option Text) (jumpHost : Text) (inst : Instance Key) : Option Text :=
  match expectedKey with
  | some expected => some expected
  | none =>
    if inst.hasPath then readKnownHosts inst.knownHosts (splitJumpHost jumpHost).1 (splitJumpHost jumpHost).2
    else none

def checkServerKey (expectedKey : Option Text) (jumpHost : Text) (inst : Instance Key) (answer : Answer Key) :
    Option Bytes × Bool :=
  match effectiveKey expectedKey jumpHost inst with
  | none =>
    if inst.hasPath ∧ answer.writable then
      (appendKnownHost inst.knownHosts (splitJumpHost jumpHost).1 (splitJumpHost jumpHost).2
        (lib.fingerprint answer.key), true)
    else (inst.knownHosts, true)
  | some expected =>
    match normalizeHostKey lib expected with
    | .ok fingerprint => (inst.knownHosts, fingerprint = lib.fingerprint answer.key)
    | .error _ => (inst.knownHosts, false)

def Instance.checked (inst : Instance Key) (hop : JumpHost) (jumpAddr : Text) (answer : Answer Key) : Instance Key :=
  { inst with
    knownHosts := (checkServerKey lib hop.hostKey jumpAddr inst answer).1
    log := inst.log ++
      [⟨hop.hostname, hop.port, answer.key, (checkServerKey lib hop.hostKey jumpAddr inst answer).2⟩] }

def start (hop : JumpHost) (jumpAddr : Text) (index : Nat) (answer : Answer Key) (inst : Instance Key) :
    Instance Key × Except TunnelError UInt16 :=
  if ¬answer.reached then (inst, .error (.ssh index ("timeout connecting to jump host " ++ jumpAddr)))
  else
    (inst.checked lib hop jumpAddr answer,
      if ¬(checkServerKey lib hop.hostKey jumpAddr inst answer).2 then
        .error (.ssh index ("failed to connect to jump host " ++ jumpAddr ++ ": Unknown server key"))
      else if ¬answer.authenticated then
        .error (.auth index ("authentication failed for " ++ hop.username ++ '@' :: jumpAddr))
      else
        match answer.localPort with
        | some port => .ok port
        | none => .error (.bind index "failed to bind local listener"))

def dialled (hop : JumpHost) : Option UInt16 → Text
  | none => hostPort hop.hostname hop.port
  | some port => hostPort "127.0.0.1" port

def startChain (inst : Instance Key) (index : Nat) (previous : Option UInt16) :
    List (JumpHost × Answer Key) → Instance Key × Except TunnelError (Option UInt16)
  | [] => (inst, .ok previous)
  | (hop, answer) :: hops =>
    match start lib hop (dialled hop previous) index answer inst with
    | (inst, .ok port) => startChain inst (index + 1) (some port) hops
    | (inst, .error e) => (inst, .error e)

def Instance.step (inst : Instance Key) (hops : List (JumpHost × Answer Key)) : Instance Key :=
  (startChain lib inst 0 none hops).1

theorem splitJumpHost_hostPort (host : Text) (port : UInt16) : splitJumpHost (hostPort host port) = (host, port) := by
  have hsplit : rsplitOnce ':' (hostPort host port) = some (host, decimal port.toNat) :=
    rsplitOnce_eq_some.mpr ⟨rfl, not_mem_decimal (by decide) _⟩
  have hport : port.toNat ≤ 65535 := Nat.le_of_lt_succ port.toNat_lt
  have hparse : parsePort (decimal port.toNat) = some port := by
    rw [parsePort, Protocol.parseUsize_decimal (hport.trans (by decide)), bind_some, if_pos hport, UInt16.ofNat_toNat]
  simp only [splitJumpHost, hsplit, hparse, getD_some]

variable {lib}

theorem fingerprint_visible (key : Key) : ∀ c ∈ lib.fingerprint key, Visible c := by
  intro c hc
  rcases mem_append.mp hc with hc | hc
  · have htag : "SHA256:".toList.all (Visible ·) := by decide
    exact of_decide_eq_true (List.all_eq_true.mp htag c hc)
  · exact lib.digest_visible key c hc

theorem fingerprint_injective {a b : Key} (h : lib.fingerprint a = lib.fingerprint b) : a = b :=
  lib.digest_injective (append_cancel_left h)

theorem normalizeHostKey_fingerprint (key : Key) :
    normalizeHostKey lib (lib.fingerprint key) = .ok (lib.fingerprint key) := by
  have htrim : trim (lib.fingerprint key) = lib.fingerprint key := trim_eq_self (fingerprint_visible key)
  have htake : (lib.fingerprint key).take 7 = "SHA256:" := take_left' rfl
  have hdrop : (lib.fingerprint key).drop 7 = lib.digest key := drop_left' rfl
  have hlower : "SHA256:".toList.map Char.toLower = "sha256:" := by decide
  simp only [normalizeHostKey, htrim, htake, hdrop, hlower, if_true, trim_eq_self (lib.digest_visible key)]
  rfl

theorem pinOf_line (host : Text) (port : UInt16) (key : Key) :
    pinOf host port (hostPort host port ++ ':' :: lib.fingerprint key) = some (lib.fingerprint key) := by
  have hline : hostPort host port ++ ':' :: lib.fingerprint key =
      (hostPort host port ++ [':']) ++ lib.fingerprint key := by simp
  have hbegins : (hostPort host port ++ [':']).isPrefixOf
      ((hostPort host port ++ [':']) ++ lib.fingerprint key) :=
    isPrefixOf_iff_prefix.mpr (prefix_append _ _)
  have hne : lib.fingerprint key ≠ [] := append_ne_nil_of_left_ne_nil (by decide) _
  unfold pinOf
  rw [hline, if_pos hbegins, drop_left, trim_eq_self (fingerprint_visible key)]
  simp [hne]

def Whole : Prop := ∀ bytes ∈ file, ∃ text, bytes = Utf8.encode text ∧ Lines.Ended text

theorem ended_knownHostLine (host : Text) (port : UInt16) (fingerprint : Text) :
    Lines.Ended (knownHostLine host port fingerprint) := .inr getLast?_concat

variable {file : Option Bytes} {inst : Instance Key} {hop : JumpHost} {answer : Answer Key}

theorem whole_append (h : Whole file) (host : Text) (port : UInt16) (fingerprint : Text) :
    Whole (appendKnownHost file host port fingerprint) := by
  rintro bytes ⟨⟩
  cases file with
  | none => exact ⟨_, rfl, ended_knownHostLine host port fingerprint⟩
  | some old =>
    obtain ⟨text, rfl, hended⟩ := h old rfl
    refine ⟨text ++ knownHostLine host port fingerprint, ?_,
      hended.append (ended_knownHostLine host port fingerprint)⟩
    rw [Utf8.encode_append]
    rfl

theorem readKnownHosts_append (h : Whole file) (host : Text) (port : UInt16)
    (fingerprint : Text) (host' : Text) (port' : UInt16) :
    readKnownHosts (appendKnownHost file host port fingerprint) host' port' = (readKnownHosts file host' port').or
        ((Lines.readLines (Utf8.encode (knownHostLine host port fingerprint))).findSome? (pinOf host' port')) := by
  cases file with
  | none => rfl
  | some old =>
    obtain ⟨text, rfl, hended⟩ := h old rfl
    simp only [readKnownHosts, appendKnownHost, bind_some, getD_some]
    rw [Lines.readLines_append hended, findSome?_append]

theorem readKnownHosts_new (h : Whole file) {host : Text} {port : UInt16} (key : Key)
    (hhost : '\n' ∉ host) (hnone : readKnownHosts file host port = none) :
    readKnownHosts (appendKnownHost file host port (lib.fingerprint key)) host port = some (lib.fingerprint key) := by
  have hnotVisible : ¬Visible '\n' ∧ ¬Visible '\r' := by decide
  have hne : lib.fingerprint key ≠ [] := append_ne_nil_of_left_ne_nil (by decide) _
  have hline : '\n' ∉ hostPort host port ++ ':' :: lib.fingerprint key := by
    intro hmem
    simp only [hostPort, mem_append, mem_cons] at hmem
    rcases hmem with (hmem | hmem | hmem) | hmem | hmem
    · exact hhost hmem
    · exact absurd hmem (by decide)
    · exact not_mem_decimal (by decide) _ hmem
    · exact absurd hmem (by decide)
    · exact hnotVisible.1 (fingerprint_visible key _ hmem)
  have hlast : (hostPort host port ++ ':' :: lib.fingerprint key).getLast? ≠ some '\r' := by
    rw [append_cons, getLast?_append_of_ne_nil _ hne]
    intro hlast
    exact hnotVisible.2 (fingerprint_visible key _ (mem_of_getLast? hlast))
  rw [readKnownHosts_append h, hnone, none_or, knownHostLine, Lines.readLines_singleton hline hlast,
    findSome?_singleton, pinOf_line]

/-! ### Pins are kept -/

variable {host : Text} {port : UInt16}

def Connection.reaches (c : Connection Key) (host : Text) (port : UInt16) : Prop := c.hostname = host ∧ c.port = port

/-- The file has a pin for the host that only this key passes. -/
structure Pinned (lib : KeyLib Key) (host : Text) (port : UInt16) (inst : Instance Key) (key : Key) : Prop where
  hasPath : inst.hasPath = true
  whole : Whole inst.knownHosts
  pin : ∃ pin, readKnownHosts inst.knownHosts host port = some pin ∧
    normalizeHostKey lib pin = .ok (lib.fingerprint key)

/-- All accepted connections to the host have had one key, and it is pinned. -/
def OneKey (lib : KeyLib Key) (host : Text) (port : UInt16) (inst : Instance Key) : Prop :=
  (∀ c ∈ inst.log, c.reaches host port → c.accepted = false) ∨
    ∃ key, Pinned lib host port inst key ∧ ∀ c ∈ inst.log, c.reaches host port → c.accepted = true → c.key = key

/-- Every connection to the host is the first of its chain, has no key from the address book, and finds a
`known_hosts` file of whole lines that can be written. -/
def DialledPinned (host : Text) (port : UInt16) (inst : Instance Key) (hops : List (JumpHost × Answer Key)) : Prop :=
  (∀ hop ∈ hops.tail, ¬(hop.1.hostname = host ∧ hop.1.port = port)) ∧
    ∀ hop ∈ hops.head?, hop.1.hostname = host ∧ hop.1.port = port →
      hop.1.hostKey = none ∧ inst.hasPath = true ∧ hop.2.writable = true ∧ Whole inst.knownHosts ∧ '\n' ∉ host

theorem checkServerKey_file (expectedKey : Option Text) (jumpHost : Text) (inst : Instance Key)
    (answer : Answer Key) :
    (checkServerKey lib expectedKey jumpHost inst answer).1 = inst.knownHosts ∨
      ∃ host port, (checkServerKey lib expectedKey jumpHost inst answer).1 =
        appendKnownHost inst.knownHosts host port (lib.fingerprint answer.key) := by
  unfold checkServerKey
  split
  · split_ifs
    · exact .inr ⟨_, _, rfl⟩
    · exact .inl rfl
  · split
    · exact .inl rfl
    · exact .inl rfl

theorem start_cases (hop : JumpHost) (jumpAddr : Text) (index : Nat) (answer : Answer Key) (inst : Instance Key) :
    (start lib hop jumpAddr index answer inst).1 = inst ∨
      (start lib hop jumpAddr index answer inst).1 = inst.checked lib hop jumpAddr answer := by
  unfold start
  by_cases hreached : ¬answer.reached
  · rw [if_pos hreached]
    exact .inl rfl
  · rw [if_neg hreached]
    exact .inr rfl

theorem Pinned.checked {key : Key} (h : Pinned lib host port inst key) (hop : JumpHost)
    (jumpAddr : Text) (answer : Answer Key) : Pinned lib host port (inst.checked lib hop jumpAddr answer) key := by
  obtain ⟨pin, hread, hnormal⟩ := h.pin
  rcases checkServerKey_file hop.hostKey jumpAddr inst answer with hfile | ⟨host', port', hfile⟩
  · refine ⟨h.hasPath, ?_, pin, ?_, hnormal⟩
    · rw [Instance.checked, hfile]
      exact h.whole
    · rw [Instance.checked, hfile]
      exact hread
  · refine ⟨h.hasPath, ?_, pin, ?_, hnormal⟩
    · rw [Instance.checked, hfile]
      exact whole_append h.whole _ _ _
    · rw [Instance.checked, hfile, readKnownHosts_append h.whole, hread, some_or]

variable {hops : List (JumpHost × Answer Key)} {jumpAddr : Text}

section

variable (h : OneKey lib host port inst)

include h

theorem OneKey.checked_aside (jumpAddr : Text) (answer : Answer Key) (haside : hop.hostname = host ∧ hop.port = port →
      (checkServerKey lib hop.hostKey jumpAddr inst answer).2 = false) :
    OneKey lib host port (inst.checked lib hop jumpAddr answer) := by
  rcases h with hnone | ⟨key, hpinned, hkeys⟩
  · refine .inl fun c hc hreaches => ?_
    rcases mem_append.mp hc with hc | hc
    · exact hnone c hc hreaches
    · rw [mem_singleton.mp hc] at hreaches ⊢
      exact haside hreaches
  · refine .inr ⟨key, hpinned.checked hop jumpAddr answer, fun c hc hreaches haccepted => ?_⟩
    rcases mem_append.mp hc with hc | hc
    · exact hkeys c hc hreaches haccepted
    · rw [mem_singleton.mp hc] at hreaches haccepted
      exact absurd ((haside hreaches).symm.trans haccepted) Bool.false_ne_true

theorem OneKey.of_pinned
    (hpinned : Pinned lib host port (inst.checked lib hop jumpAddr answer) answer.key)
    (hbefore : ∀ key, Pinned lib host port inst key → key = answer.key) :
    OneKey lib host port (inst.checked lib hop jumpAddr answer) := by
  refine .inr ⟨answer.key, hpinned, fun c hc hreaches haccepted => ?_⟩
  rcases mem_append.mp hc with hc | hc
  · rcases h with hnone | ⟨key, hold, hkeys⟩
    · rw [hnone c hc hreaches] at haccepted
      contradiction
    · rw [hkeys c hc hreaches haccepted, hbefore key hold]
  · rw [mem_singleton.mp hc]

theorem OneKey.checked_first
    (hhop : hop.hostname = host ∧ hop.port = port) (hhostKey : hop.hostKey = none)
    (hpath : inst.hasPath) (hwritable : answer.writable) (hwhole : Whole inst.knownHosts)
    (hhost : '\n' ∉ host) :
    OneKey lib host port (inst.checked lib hop (hostPort hop.hostname hop.port) answer) := by
  obtain ⟨rfl, rfl⟩ := hhop
  have heffective : effectiveKey hop.hostKey (hostPort hop.hostname hop.port) inst =
      readKnownHosts inst.knownHosts hop.hostname hop.port := by
    simp only [effectiveKey, hhostKey, hpath, if_true, splitJumpHost_hostPort]
  cases hread : readKnownHosts inst.knownHosts hop.hostname hop.port with
  | none =>
    have hcheck : checkServerKey lib hop.hostKey (hostPort hop.hostname hop.port) inst answer =
        (appendKnownHost inst.knownHosts hop.hostname hop.port (lib.fingerprint answer.key), true) := by
      simp only [checkServerKey, heffective, hread, hpath, hwritable, and_self, if_true, splitJumpHost_hostPort]
    refine h.of_pinned ⟨hpath, ?_, lib.fingerprint answer.key, ?_, normalizeHostKey_fingerprint _⟩ ?_
    · rw [checked, hcheck]
      exact whole_append hwhole _ _ _
    · rw [checked, hcheck]
      exact readKnownHosts_new hwhole answer.key hhost hread
    · intro key hpinned
      obtain ⟨pin, hpin, -⟩ := hpinned.pin
      rw [hread] at hpin
      contradiction
  | some pin =>
    cases hnormal : normalizeHostKey lib pin with
    | error e =>
      refine h.checked_aside _ _ fun _ => ?_
      simp only [checkServerKey, heffective, hread, hnormal]
    | ok fingerprint =>
      have hcheck : checkServerKey lib hop.hostKey (hostPort hop.hostname hop.port) inst answer =
          (inst.knownHosts, decide (fingerprint = lib.fingerprint answer.key)) := by
        simp only [checkServerKey, heffective, hread, hnormal]
      by_cases hsame : fingerprint = lib.fingerprint answer.key
      · subst hsame
        refine h.of_pinned (Pinned.checked ⟨hpath, hwhole, pin, hread, hnormal⟩ _ _ _) ?_
        intro key hpinned
        obtain ⟨pin', hpin', hnormal'⟩ := hpinned.pin
        obtain rfl : pin = pin' := some.inj (hread.symm.trans hpin')
        exact fingerprint_injective (Except.ok.inj (hnormal'.symm.trans hnormal))
      · refine h.checked_aside _ _ fun _ => ?_
        rw [hcheck]
        exact decide_eq_false hsame

theorem oneKey_start (index : Nat) (hchecked : OneKey lib host port (inst.checked lib hop jumpAddr answer)) :
    OneKey lib host port (start lib hop jumpAddr index answer inst).1 := by
  rcases start_cases hop jumpAddr index answer inst with hstart | hstart
  · rw [hstart]
    exact h
  · rw [hstart]
    exact hchecked

theorem oneKey_start_other
    (hother : ¬(hop.hostname = host ∧ hop.port = port)) (jumpAddr : Text) (index : Nat) (answer : Answer Key) :
    OneKey lib host port (start lib hop jumpAddr index answer inst).1 :=
  oneKey_start h index (h.checked_aside jumpAddr answer fun hhop => absurd hhop hother)

end

theorem startChain_cons (inst : Instance Key) (index : Nat) (previous : Option UInt16) (hop : JumpHost)
    (answer : Answer Key) (hops : List (JumpHost × Answer Key)) :
    (startChain lib inst index previous ((hop, answer) :: hops)).1 =
        (start lib hop (dialled hop previous) index answer inst).1 ∨
      ∃ port, (startChain lib inst index previous ((hop, answer) :: hops)).1 =
        (startChain lib (start lib hop (dialled hop previous) index answer inst).1 (index + 1) (some port)
          hops).1 := by
  rw [startChain]
  split
  · rename_i port hstart
    exact .inr ⟨port, by rw [hstart]⟩
  · rename_i e hstart
    exact .inl (by rw [hstart])

theorem oneKey_startChain_other (hother : ∀ hop ∈ hops, ¬(hop.1.hostname = host ∧ hop.1.port = port))
    (h : OneKey lib host port inst) (index : Nat) (previous : Option UInt16) :
    OneKey lib host port (startChain lib inst index previous hops).1 := by
  induction hops generalizing inst index previous with
  | nil => exact h
  | cons hop hops ih =>
    obtain ⟨hop, answer⟩ := hop
    have hstart := oneKey_start_other h (hother _ mem_cons_self) (dialled hop previous) index answer
    rcases startChain_cons inst index previous hop answer hops with hchain | ⟨port, hchain⟩
    · rw [hchain]
      exact hstart
    · rw [hchain]
      exact ih (fun hop hhop => hother hop (mem_cons_of_mem _ hhop)) hstart _ _

theorem oneKey_step (h : OneKey lib host port inst) (hdialled : DialledPinned host port inst hops) :
    OneKey lib host port (inst.step lib hops) := by
  cases hops with
  | nil => exact h
  | cons hop hops =>
    obtain ⟨hop, answer⟩ := hop
    obtain ⟨hothers, hfirst⟩ := hdialled
    have hstart : OneKey lib host port (start lib hop (dialled hop none) 0 answer inst).1 := by
      by_cases hhop : hop.hostname = host ∧ hop.port = port
      · obtain ⟨hhostKey, hpath, hwritable, hwhole, hhost⟩ := hfirst (hop, answer) rfl hhop
        exact oneKey_start h 0 (h.checked_first hhop hhostKey hpath hwritable hwhole hhost)
      · exact oneKey_start_other h hhop (dialled hop none) 0 answer
    unfold step
    rcases startChain_cons inst 0 none hop answer hops with hchain | ⟨port, hchain⟩
    · rw [hchain]
      exact hstart
    · rw [hchain]
      exact oneKey_startChain_other hothers hstart _ _

/-- **Jump-host keys are pinned.** Whatever chains are started, if all connections to the host are dialled at its
own address and find its pin, then after one that was accepted with a key every later one with another key is
refused. -/
theorem host_key_pinned (lib : KeyLib Key) (hasPath : Bool) (knownHosts : Option Bytes) (host : Text) (port : UInt16)
    (chains : List (List (JumpHost × Answer Key)))
    (hdialled : Guarded (step lib) (DialledPinned host port) ⟨hasPath, knownHosts, []⟩ chains) :
    (run (step lib) ⟨hasPath, knownHosts, []⟩ chains).log.Pairwise fun first later =>
      first.reaches host port → first.accepted = true → later.reaches host port → later.key ≠ first.key →
        later.accepted = false := by
  have hstart : OneKey lib host port ⟨hasPath, knownHosts, []⟩ := .inl (by simp)
  have hone := invariant_run (step lib) (fun inst hops h hguard => oneKey_step h hguard) hstart
    hdialled
  refine pairwise_of_forall_mem_list fun first hfirst later hlater hreaches haccepted hreaches' hne => ?_
  rcases hone with hnone | ⟨key, -, hkeys⟩
  · exact hnone later hlater hreaches'
  · by_contra hlate
    rw [Bool.not_eq_false] at hlate
    exact hne ((hkeys later hlater hreaches' hlate).trans (hkeys first hfirst hreaches haccepted).symm)

def numbered : KeyLib Nat where
  digest := decimal
  digest_injective := by
    intro a b h
    have hvalue : ∀ n, Nat.ofDigitChars 10 (decimal n) 0 = n := fun n => Nat.ofDigitChars_ten_toDigits
    rw [← hvalue a, ← hvalue b, h]
  digest_visible := by
    intro n c hc
    have hdigit := isDigit_of_mem_decimal hc
    simp only [Char.isDigit, Bool.and_eq_true, decide_eq_true_eq, UInt32.le_iff_toNat_le] at hdigit
    have hbounds : 48 ≤ c.toNat ∧ c.toNat ≤ 57 := hdigit
    unfold Visible
    omega
  parsePublicKeyBase64 := fun _ => .error "invalid base64"

def jumpHost (hostname : String) : JumpHost := ⟨hostname.toList, 22, "ops", none⟩

def answers (key : Nat) (localPort : UInt16) : Answer Nat := ⟨true, key, true, true, some localPort⟩

/-- The bastion is met twice, the second time with another key. -/
def bastionChains : List (List (JumpHost × Answer Nat)) :=
  [[(jumpHost "bastion", answers 1 40001), (jumpHost "inner", answers 5 40002)],
    [(jumpHost "bastion", answers 2 40003)]]

def otherKnown : Bytes := Utf8.encode "other:22:SHA256:9\n"

theorem bastionChains_guarded : Guarded (step numbered) (DialledPinned "bastion" 22)
    ⟨true, some otherKnown, []⟩ bastionChains := by
  have hsecond : (step numbered ⟨true, some otherKnown, []⟩
      [(jumpHost "bastion", answers 1 40001), (jumpHost "inner", answers 5 40002)]).knownHosts =
      some (Utf8.encode "other:22:SHA256:9\nbastion:22:SHA256:1\n127.0.0.1:40001:SHA256:5\n") := by
    decide +kernel
  refine ⟨⟨by decide +kernel, ?_⟩, ⟨by decide +kernel, ?_⟩, trivial⟩
  · rintro hop ⟨⟩ -
    refine ⟨rfl, rfl, rfl, ?_, by decide⟩
    rintro bytes ⟨⟩
    exact ⟨_, rfl, .inr (by decide)⟩
  · rintro hop ⟨⟩ -
    refine ⟨rfl, by decide +kernel, rfl, ?_, by decide⟩
    rw [hsecond]
    rintro bytes ⟨⟩
    exact ⟨_, rfl, .inr (by decide)⟩

theorem host_key_pinned_bastion :
    (run (step numbered) ⟨true, some otherKnown, []⟩ bastionChains).log.map (·.accepted) = [true, true, false] ∧
      (run (step numbered) ⟨true, some otherKnown, []⟩ bastionChains).log.Pairwise
        fun first later => first.reaches "bastion" 22 → first.accepted = true →
          later.reaches "bastion" 22 → later.key ≠ first.key → later.accepted = false :=
  ⟨by decide +kernel, host_key_pinned numbered true (some otherKnown) "bastion" 22 bastionChains
    bastionChains_guarded⟩

/-- The same two hops twice, with other local ports and with another key of the inner host. -/
def innerChains : List (List (JumpHost × Answer Nat)) :=
  [[(jumpHost "bastion", answers 1 40001), (jumpHost "inner", answers 5 40002)],
    [(jumpHost "bastion", answers 1 40003), (jumpHost "inner", answers 6 40004)]]

/-- Both keys of the inner host are accepted. -/
theorem inner_key_unpinned : (run (step numbered) ⟨true, none, []⟩ innerChains).log =
      [⟨"bastion", 22, 1, true⟩, ⟨"inner", 22, 5, true⟩, ⟨"bastion", 22, 1, true⟩, ⟨"inner", 22, 6, true⟩] ∧
    (run (step numbered) ⟨true, none, []⟩ innerChains).knownHosts = some (Utf8.encode
        "bastion:22:SHA256:1\n127.0.0.1:40001:SHA256:5\n127.0.0.1:40003:SHA256:6\n") := by
  decide +kernel

end Persea.Tunnel
