import Persea.BaseIp

/-! The checks of a session's target: the allowlist of networks, and the deny list that is to hold whatever the
allowlist says. Parsing addresses and networks is the standard library's and a crate's; looking up a name is a
question to the outside. -/

namespace Persea.Create

open Base List

inductive CreateError where
  | guacdConnection (message : String) (status : Option Nat)
  | validationError (message : String)
  | browserSpawn (message : String)
  | vdiError (message : String)
deriving DecidableEq, Repr

structure NetLib where
  parseIp : String → Option IpAddr
  parseNetwork : String → Option IpNetwork
  parseNetwork_linkLocal : parseNetwork "169.254.0.0/16" = some Ip.linkLocalNet

inductive Lookup where
  | addresses (l : List IpAddr)
  | timedOut
  | joinFailed (message : String)
  | failed (message : String)
deriving DecidableEq, Repr

def deniedTargetNetworks : List String := ["169.254.0.0/16"]

def rejectDeniedTarget (lib : NetLib) (host : String) : Except CreateError Unit :=
  match lib.parseIp host with
  | none => .ok ()
  | some ip =>
    match deniedTargetNetworks.find? fun cidr => (lib.parseNetwork cidr).any fun net => Ip.contains net ip with
    | some cidr =>
      .error (.validationError ("access to link-local / cloud metadata network " ++ cidr ++ " is blocked"))
    | none => .ok ()

def looksLikeUrl (host : String) : Bool := "://" <:+: host.toList ∨ "http" <+: host.toList

/-- Entries that are no networks are skipped. -/
def allowedNetworks (lib : NetLib) (allowed : List String) : List IpNetwork := allowed.filterMap lib.parseNetwork

def isAllowed (lib : NetLib) (allowed : List String) (ip : IpAddr) : Bool :=
  (allowedNetworks lib allowed).any fun net => Ip.contains net ip

def checkLiteral (lib : NetLib) (host : String) (allowed : List String) : Option (Except CreateError Unit) :=
  if looksLikeUrl host then
    some (.error (.validationError
      "hostname must be a host or IP address, not a URL (use a Web entry for browser sessions)"))
  else if allowedNetworks lib allowed = [] then
    some (.error (.validationError "no valid CIDR networks configured in allowlist"))
  else
    (lib.parseIp host).map fun ip =>
      if isAllowed lib allowed ip then .ok ()
      else .error (.validationError ("host " ++ host ++ " is not in the allowed network list"))

def checkResolved (lib : NetLib) (host : String) (allowed : List String) : Lookup → Except CreateError Unit
  | .timedOut => .error (.validationError ("DNS resolution for host '" ++ host ++ "' timed out"))
  | .joinFailed e => .error (.validationError ("DNS task join error: " ++ e))
  | .failed e => .error (.validationError ("failed to resolve host '" ++ host ++ "': " ++ e))
  | .addresses l =>
    if l = [] then .error (.validationError ("host '" ++ host ++ "' did not resolve to any addresses"))
    else if l.any (isAllowed lib allowed) then .ok ()
    else
      .error (.validationError ("host '" ++ host ++ "' resolves to addresses not in the allowed network list"))

def checkAllowedNetwork (lib : NetLib) (lookup : String → Nat → Lookup) (host : String) (port : Nat)
    (allowed : List String) : Except CreateError Unit :=
  match checkLiteral lib host allowed with
  | some result => result
  | none => checkResolved lib host allowed (lookup host port)

def fails {α : Type} : Except CreateError α → Bool
  | .error _ => true
  | .ok _ => false

def Lookup.addrs : Lookup → List IpAddr
  | .addresses l => l
  | _ => []

variable {lib : NetLib} {host : String} {allowed : List String}

theorem rejectDeniedTarget_fails_iff : fails (rejectDeniedTarget lib host) ↔
      ∃ a, lib.parseIp host = some (.v4 a) ∧ Ip.isLinkLocal (.v4 a) := by
  cases hip : lib.parseIp host with
  | none => simp [rejectDeniedTarget, hip, fails]
  | some ip =>
    have hfind : fails (rejectDeniedTarget lib host) = Ip.contains Ip.linkLocalNet ip := by
      simp only [rejectDeniedTarget, hip, deniedTargetNetworks, find?_singleton, lib.parseNetwork_linkLocal,
        Option.any_some]
      cases Ip.contains Ip.linkLocalNet ip <;> rfl
    rw [hfind]
    cases ip with
    | v4 a => simp [Ip.isLinkLocal_v4]
    | v6 a => simp [Ip.contains_linkLocalNet_v6]

theorem checkResolved_fails_iff (answer : Lookup) : fails (checkResolved lib host allowed answer) ↔
      ∀ ip ∈ answer.addrs, isAllowed lib allowed ip = false := by
  cases answer with
  | addresses l =>
    by_cases hnil : l = []
    · simp [checkResolved, fails, Lookup.addrs, hnil]
    · by_cases hany : l.any (isAllowed lib allowed)
      · have hok : checkResolved lib host allowed (.addresses l) = .ok () := by
          simp only [checkResolved, if_neg hnil, if_pos hany]
        obtain ⟨ip, hip, hallowed⟩ := any_eq_true.mp hany
        rw [hok]
        refine ⟨fun h => (by cases h), fun h => ?_⟩
        rw [h ip hip] at hallowed
        cases hallowed
      · simp only [checkResolved, if_neg hnil, if_neg hany, fails, Lookup.addrs, true_iff]
        intro ip hip
        rw [← Bool.not_eq_true]
        exact fun hallowed => hany (any_eq_true.mpr ⟨ip, hip, hallowed⟩)
  | _ => simp [checkResolved, fails, Lookup.addrs]

def StopsAtOnce (lib : NetLib) (host : String) (allowed : List String) : Prop :=
  looksLikeUrl host = true ∨ allowedNetworks lib allowed = [] ∨
    ∃ ip, lib.parseIp host = some ip ∧ isAllowed lib allowed ip = false

theorem checkLiteral_eq_none_iff :
    checkLiteral lib host allowed = none ↔ ¬StopsAtOnce lib host allowed ∧ lib.parseIp host = none := by
  rw [checkLiteral, StopsAtOnce]
  by_cases hurl : looksLikeUrl host
  · simp [hurl]
  · by_cases hnets : allowedNetworks lib allowed = []
    · simp [hurl, hnets]
    · cases hip : lib.parseIp host <;> simp [hurl, hnets]

theorem checkLiteral_fails_iff :
    (∃ e, checkLiteral lib host allowed = some (.error e)) ↔ StopsAtOnce lib host allowed := by
  rw [checkLiteral, StopsAtOnce]
  by_cases hurl : looksLikeUrl host
  · simp [hurl]
  · by_cases hnets : allowedNetworks lib allowed = []
    · simp [hurl, hnets]
    · cases hip : lib.parseIp host with
      | none => simp [hurl, hnets]
      | some ip => cases hallowed : isAllowed lib allowed ip <;> simp [hurl, hnets, hallowed]

/-- **The allowlist.** A host is refused when it is refused at once, or is a name none of whose addresses is
allowed. -/
theorem checkAllowedNetwork_fails_iff (lookup : String → Nat → Lookup) (port : Nat) :
    fails (checkAllowedNetwork lib lookup host port allowed) ↔ StopsAtOnce lib host allowed ∨
        (lib.parseIp host = none ∧ ∀ ip ∈ (lookup host port).addrs, isAllowed lib allowed ip = false) := by
  rw [checkAllowedNetwork]
  cases hliteral : checkLiteral lib host allowed with
  | none =>
    obtain ⟨hgoes, hip⟩ := checkLiteral_eq_none_iff.mp hliteral
    simp [checkResolved_fails_iff, hgoes, hip]
  | some result =>
    cases result with
    | error e => simp [fails, checkLiteral_fails_iff.mp ⟨e, hliteral⟩]
    | ok u =>
      have hgoes : ¬StopsAtOnce lib host allowed := by
        intro hstops
        obtain ⟨e, he⟩ := checkLiteral_fails_iff.mpr hstops
        rw [hliteral] at he
        cases he
      have hip : lib.parseIp host ≠ none := by
        intro hip
        rw [checkLiteral_eq_none_iff.mpr ⟨hgoes, hip⟩] at hliteral
        cases hliteral
      simp [fails, hgoes, hip]

def hostAddresses (lib : NetLib) (host : String) (answer : List IpAddr) : List IpAddr :=
  match lib.parseIp host with
  | some ip => [ip]
  | none => answer

theorem hostAddresses_ne_nil {answer : List IpAddr} (hanswer : answer ≠ []) : hostAddresses lib host answer ≠ [] := by
  unfold hostAddresses
  split
  · exact cons_ne_nil _ _
  · exact hanswer

theorem checkAllowedNetwork_eq_ok_iff {lookup : String → Nat → Lookup} {port : Nat} {answer : List IpAddr}
    (hurl : ¬"://" <:+: host.toList) (hnets : allowedNetworks lib allowed ≠ [])
    (hanswer : lookup host port = .addresses answer) :
    checkAllowedNetwork lib lookup host port allowed = .ok () ↔
      ¬"http" <+: host.toList ∧ ∃ ip ∈ hostAddresses lib host answer, isAllowed lib allowed ip := by
  have hfails : checkAllowedNetwork lib lookup host port allowed = .ok () ↔
      ¬fails (checkAllowedNetwork lib lookup host port allowed) := by
    cases checkAllowedNetwork lib lookup host port allowed <;> simp [fails]
  rw [hfails, checkAllowedNetwork_fails_iff, StopsAtOnce, hanswer]
  have hlooks : looksLikeUrl host ↔ "http" <+: host.toList := by
    rw [looksLikeUrl, decide_eq_true_iff]
    exact or_iff_right hurl
  rw [hlooks]
  cases hip : lib.parseIp host with
  | some ip => simp [hostAddresses, hip, hnets]
  | none => simp [hostAddresses, hip, hnets, Lookup.addrs]

/-- **The allowlist is exact** for a name when its addresses are all allowed or none of them is, and for a name that
begins with `http` when one is not. -/
theorem checkAllowedNetwork_exact_iff {lookup : String → Nat → Lookup} {port : Nat} {answer : List IpAddr}
    (hurl : ¬"://" <:+: host.toList) (hallowed : allowed ≠ [])
    (hvalid : ∀ cidr ∈ allowed, (lib.parseNetwork cidr).isSome = true)
    (hanswer : lookup host port = .addresses answer) (hsome : answer ≠ []) :
    (checkAllowedNetwork lib lookup host port allowed = .ok () ↔
        ∀ ip ∈ hostAddresses lib host answer, isAllowed lib allowed ip = true) ↔
      if "http" <+: host.toList then ∃ ip ∈ hostAddresses lib host answer, isAllowed lib allowed ip = false
      else (∀ ip ∈ hostAddresses lib host answer, isAllowed lib allowed ip = true) ∨
        ∀ ip ∈ hostAddresses lib host answer, isAllowed lib allowed ip = false := by
  have hnets : allowedNetworks lib allowed ≠ [] := by
    obtain ⟨cidr, others, rfl⟩ := exists_cons_of_ne_nil hallowed
    obtain ⟨net, hnet⟩ := Option.isSome_iff_exists.mp (hvalid cidr mem_cons_self)
    simp [allowedNetworks, hnet]
  rw [checkAllowedNetwork_eq_ok_iff hurl hnets hanswer]
  have hne : hostAddresses lib host answer ≠ [] := hostAddresses_ne_nil hsome
  obtain ⟨first, others, hcons⟩ := exists_cons_of_ne_nil hne
  have hfirst : first ∈ hostAddresses lib host answer := hcons ▸ mem_cons_self
  by_cases hhttp : "http" <+: host.toList
  · have hrefused : ¬(¬"http" <+: host.toList ∧
        ∃ ip ∈ hostAddresses lib host answer, isAllowed lib allowed ip = true) := fun h => h.1 hhttp
    rw [if_pos hhttp, iff_false_left hrefused]
    simp
  · rw [if_neg hhttp]
    constructor
    · intro hexact
      by_cases hall : ∀ ip ∈ hostAddresses lib host answer, isAllowed lib allowed ip = true
      · exact .inl hall
      · right
        intro ip hip
        rw [← Bool.not_eq_true]
        exact fun hone => hall (hexact.mp ⟨hhttp, ip, hip, hone⟩)
    · rintro (hall | hnone)
      · exact iff_of_true ⟨hhttp, first, hfirst, hall first hfirst⟩ hall
      · refine iff_of_false ?_ ?_
        · rintro ⟨-, ip, hip, hone⟩
          rw [hnone ip hip] at hone
          contradiction
        · intro hall
          have hone := hall first hfirst
          rw [hnone first hfirst] at hone
          contradiction

def dottedLib : NetLib :=
  { parseIp := fun s => (Ip.parseV4 s.toList).map .v4
    parseNetwork := fun s => Ip.parseNetV4 s.toList
    parseNetwork_linkLocal := by decide }

theorem checkAllowedNetwork_two_inside :
    checkAllowedNetwork dottedLib (fun _ _ => .addresses [.v4 0x0a000005#32, .v4 0x0a000006#32]) "files.example" 22
        ["10.0.0.0/8"] = .ok () ↔
      ∀ ip ∈ [IpAddr.v4 0x0a000005#32, .v4 0x0a000006#32], isAllowed dottedLib ["10.0.0.0/8"] ip = true :=
  (@checkAllowedNetwork_exact_iff dottedLib "files.example" ["10.0.0.0/8"]
    (fun _ _ => .addresses [.v4 0x0a000005#32, .v4 0x0a000006#32]) 22 [.v4 0x0a000005#32, .v4 0x0a000006#32]
    (by decide) (by decide) (by decide) rfl (by decide)).mpr (by decide)

/-- A name with one address inside and one outside is let through, and a name that begins with `http` is not. -/
theorem checkAllowedNetwork_inexact :
    checkAllowedNetwork dottedLib (fun _ _ => .addresses [.v4 0x0a000005#32, .v4 0xcb007109#32]) "files.example" 22
        ["10.0.0.0/8"] = .ok () ∧
      isAllowed dottedLib ["10.0.0.0/8"] (.v4 0xcb007109#32) = false ∧
      fails (checkAllowedNetwork dottedLib (fun _ _ => .addresses [.v4 0x0a000005#32]) "httpd.example" 22
        ["10.0.0.0/8"]) = true ∧
      isAllowed dottedLib ["10.0.0.0/8"] (.v4 0x0a000005#32) = true := by
  decide +kernel

end Persea.Create
