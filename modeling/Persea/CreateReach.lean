import Persea.BaseExcept
import Persea.CreateSession

/-! Which hosts a creation goes on to. Only the branches for web pages and for Proxmox ask the deny list for
link-local addresses, and it knows a host only in the usual spelling. -/

namespace Persea.Create

open Base Sessions Option CreateSessionRequest Except

/-- What the allowlist is asked about, and the port that is dialled. -/
structure Endpoint where
  host : String
  port : Nat
  dialPort : Nat
  allowed : List String
deriving DecidableEq, Repr

variable (out : Outside)

def CreateSessionRequest.endpoint (cfg : CreateConfig) (req : CreateSessionRequest) : Option Endpoint :=
  match req.sessionType with
  | .ssh => req.hostname.map fun h => ⟨h, req.port.getD 22, req.port.getD 22, cfg.sshAllowedNetworks⟩
  | .rdp => req.hostname.map fun h => ⟨h, req.port.getD 3389, req.port.getD 3389, cfg.rdpAllowedNetworks⟩
  | .vnc => req.hostname.map fun h => ⟨h, req.port.getD 5900, req.port.getD 5900, cfg.vncAllowedNetworks⟩
  | .spice => req.hostname.map fun h => ⟨h, req.port.getD 5900, spicePort req, cfg.vncAllowedNetworks⟩
  | .web => (webUrl out req).toOption.map fun w => ⟨w.host, w.port, w.port, cfg.webAllowedNetworks⟩
  | .proxmox => none
  | .vdi => none

def Outside.denotes (host : String) : List IpAddr :=
  match out.net.parseIp host with
  | some ip => [ip]
  | none => out.resolves host

/-- guacd is told the name before the answer about it is known. -/
def dialsBeside (req : CreateSessionRequest) : Bool :=
  match req.sessionType with
  | .ssh => out.dialsFirst && !req.generateKeypair.getD false
  | .rdp => out.dialsFirst
  | .vnc => out.dialsFirst
  | _ => false

def NetworkStop (req : CreateSessionRequest) (e : Endpoint) : Prop :=
  StopsAtOnce out.net e.host e.allowed ∨ (out.net.parseIp e.host = none ∧
      (∀ ip ∈ (out.lookup e.host e.port).addrs, isAllowed out.net e.allowed ip = false) ∧
      dialsBeside out req = false) ∨
    (req.sessionType = .web ∧ ∃ a, out.net.parseIp e.host = some (.v4 a) ∧ Ip.isLinkLocal (.v4 a) = true)

def LacksMeans (req : CreateSessionRequest) (e : Endpoint) : Prop :=
  (req.sessionType = .ssh ∧ fails (generateKeypair out req) = true) ∨
    ∃ hops message, jumpHops req = .ok hops ∧ hops ≠ [] ∧ out.startChain hops e.host e.dialPort = .error message

section Reach

variable {out : Outside} {cfg : CreateConfig} {shuttingDown : Bool} {m : Manager} {req : CreateSessionRequest}
  {createdBy host : String} {hops : List JumpHost} {t : Target} {tunnel : Option Nat} {e : Endpoint}

theorem fails_eq_false_iff {α : Type} {x : Except CreateError α} : fails x = false ↔ ∃ a, x = .ok a := by
  cases x <;> simp [fails]

theorem jumpHops_of_admission (hadmission : admission out cfg shuttingDown m req createdBy = .ok hops) :
    jumpHops req = .ok hops := by
  rw [admission] at hadmission
  split at hadmission
  · cases hadmission
  · split at hadmission
    · cases hadmission
    · obtain ⟨_, _, hgate⟩ := bind_eq_ok_iff.mp hadmission
      obtain ⟨_, _, hhops⟩ := bind_eq_ok_iff.mp hgate
      exact hhops

theorem mem_reached_prepare : host ∈ reached (prepare out cfg shuttingDown m req createdBy).1 ↔
      ∃ hops t tunnel, admission out cfg shuttingDown m req createdBy = .ok hops ∧
        targetOf out cfg req createdBy hops = .ok t ∧ openTunnel out req hops t = .ok tunnel ∧
        host ∈ reached (connect out t tunnel).1 := by
  rw [prepare]
  cases hadmission : admission out cfg shuttingDown m req createdBy with
  | error e => simp [reached]
  | ok hops =>
    cases htarget : targetOf out cfg req createdBy hops with
    | error e => simp [reached, htarget]
    | ok t =>
      cases htunnel : openTunnel out req hops t with
      | error e => simp [reached, htarget, htunnel]
      | ok tunnel => simp [htarget, htunnel]

/-- guacd or the browser gets to hear of the target. -/
def Goes (out : Outside) (t : Target) : Prop :=
  t.url.isSome = true ∨ fails (pendingCheck out t) = false ∨ (t.deferred = false ∧ out.dialsFirst = true ∧
      ∃ allowed, t.pendingNetCheck = some allowed ∧ checkLiteral out.net t.host allowed = none)

theorem mem_reached_navigate {url : String} : host ∈ reached (navigate out t url tunnel).1 ↔ t.host = host := by
  rw [navigate]
  split <;> simp [reached, Contact.host, eq_comm]

theorem mem_reached_deferConnection :
    host ∈ reached (deferConnection out t).1 ↔ t.host = host ∧ fails (pendingCheck out t) = false := by
  rw [deferConnection]
  cases pendingCheck out t <;> simp [reached, Contact.host, fails, eq_comm]

theorem mem_reached_connectAfter :
    host ∈ reached (connectAfter out t tunnel).1 ↔ t.host = host ∧ fails (pendingCheck out t) = false := by
  rw [connectAfter]
  cases pendingCheck out t <;> simp [reached, Contact.host, fails, eq_comm]

theorem checkLiteral_of_name (allowed : List String) (hname : out.net.parseIp host = none) :
    checkLiteral out.net host allowed = none ∨ ∃ e, checkLiteral out.net host allowed = some (.error e) := by
  by_cases hstops : StopsAtOnce out.net host allowed
  · exact .inr (checkLiteral_fails_iff.mpr hstops)
  · exact .inl (checkLiteral_eq_none_iff.mpr ⟨hstops, hname⟩)

variable {allowed : List String} {deferred : Bool}

theorem mem_reached_connectBeside (hname : out.net.parseIp t.host = none) :
    host ∈ reached (connectBeside out t allowed tunnel).1 ↔
      t.host = host ∧ (fails (checkAllowedNetwork out.net out.lookup t.host t.port allowed) = false ∨
        (out.dialsFirst ∧ checkLiteral out.net t.host allowed = none)) := by
  rw [connectBeside, checkAllowedNetwork]
  rcases checkLiteral_of_name allowed hname with hliteral | ⟨e, hliteral⟩
  · rw [hliteral]
    cases checkResolved out.net t.host allowed (out.lookup t.host t.port) <;> cases dial out t tunnel <;>
      cases out.dialsFirst <;> simp [reached, Contact.host, fails, eq_comm]
  · simp [hliteral, reached, fails]

theorem mem_reached_connect : host ∈ reached (connect out t tunnel).1 ↔ t.host = host ∧ Goes out t := by
  rw [connect, Goes]
  cases hurl : t.url with
  | some url => simp [mem_reached_navigate]
  | none =>
    by_cases hdeferred : t.deferred
    · simp [hdeferred, mem_reached_deferConnection]
    · cases hpending : t.pendingNetCheck with
      | none => simp [hdeferred, mem_reached_connectAfter]
      | some allowed =>
        cases hname : out.net.parseIp t.host with
        | some ip =>
          have hliteral : checkLiteral out.net t.host allowed ≠ none := by simp [checkLiteral_eq_none_iff, hname]
          simp [hdeferred, mem_reached_connectAfter, hliteral]
        | none => simp [hdeferred, mem_reached_connectBeside hname, pendingCheck, hpending]

/-! ### Targets -/

theorem pendingCheck_fails_iff (out : Outside) (hpending : t.pendingNetCheck = some allowed) :
    fails (pendingCheck out t) ↔ StopsAtOnce out.net t.host allowed ∨ (out.net.parseIp t.host = none ∧
          ∀ ip ∈ (out.lookup t.host t.port).addrs, isAllowed out.net allowed ip = false) := by
  rw [pendingCheck, hpending]
  exact checkAllowedNetwork_fails_iff out.lookup t.port

theorem goes_pending_iff {port : Nat} : Goes out ⟨host, port, some allowed, none, deferred⟩ ↔
      ¬(StopsAtOnce out.net host allowed ∨ (out.net.parseIp host = none ∧
          (∀ ip ∈ (out.lookup host port).addrs, isAllowed out.net allowed ip = false) ∧
          (out.dialsFirst && !deferred) = false)) := by
  have hfails := pendingCheck_fails_iff out (t := ⟨host, port, some allowed, none, deferred⟩) rfl
  rw [Goes, ← Bool.not_eq_true, hfails]
  simp only [isSome_none, Bool.false_eq_true, false_or, some.injEq, exists_eq_left', checkLiteral_eq_none_iff]
  cases out.dialsFirst <;> cases deferred <;> simp
  tauto

theorem goes_checked (port : Nat) (url : Option String) (deferred : Bool) :
    Goes out ⟨host, port, none, url, deferred⟩ := .inr (.inl rfl)

theorem deferred_of_generateKeypair (hkeypair : generateKeypair out req = .ok deferred) :
    deferred = req.generateKeypair.getD false := by
  rw [generateKeypair] at hkeypair
  split at hkeypair
  case isTrue hasked =>
      rw [hasked]
      split at hkeypair <;> cases hkeypair
      rfl
  case isFalse hunasked =>
      cases hkeypair
      simpa using hunasked

theorem checkAllowedNetwork_ok_iff {port : Nat} :
    (∃ u, checkAllowedNetwork out.net out.lookup host port allowed = .ok u) ↔ ¬(StopsAtOnce out.net host allowed ∨
        (out.net.parseIp host = none ∧
          ∀ ip ∈ (out.lookup host port).addrs, isAllowed out.net allowed ip = false)) := by
  rw [← fails_eq_false_iff, ← Bool.not_eq_true, checkAllowedNetwork_fails_iff]

theorem rejectDeniedTarget_ok_iff : (∃ u, rejectDeniedTarget out.net host = .ok u) ↔
      ¬∃ a, out.net.parseIp host = some (.v4 a) ∧ Ip.isLinkLocal (.v4 a) := by
  rw [← fails_eq_false_iff, ← Bool.not_eq_true, rejectDeniedTarget_fails_iff]

/-- **The target of a request** is its endpoint, and guacd or the browser hears of it unless a keypair is missing
or a check of addresses stops it. -/
theorem targetOf_spec (createdBy : String) (hops : List JumpHost) (he : req.endpoint out cfg = some e) :
    (∀ t, targetOf out cfg req createdBy hops = .ok t → t.host = e.host ∧ t.port = e.dialPort) ∧
      ((∃ t, targetOf out cfg req createdBy hops = .ok t ∧ Goes out t) ↔
        ¬(req.sessionType = .ssh ∧ fails (generateKeypair out req)) ∧ ¬NetworkStop out req e) := by
  cases hkind : req.sessionType with
  | ssh =>
    simp only [endpoint, hkind, map_eq_some_iff] at he
    obtain ⟨hostname, hhost, rfl⟩ := he
    simp only [targetOf, hkind, sshTarget, hhost, required, bind_eq_ok_iff]
    constructor
    · rintro t ⟨_, ⟨⟩, _, _, ⟨⟩⟩
      exact ⟨rfl, rfl⟩
    · cases hkeypair : generateKeypair out req with
      | error e => simp [fails]
      | ok deferred =>
        obtain rfl := deferred_of_generateKeypair hkeypair
        simp [goes_pending_iff, NetworkStop, dialsBeside, hkind, fails]
  | rdp | vnc =>
    simp only [endpoint, hkind, map_eq_some_iff] at he
    obtain ⟨hostname, hhost, rfl⟩ := he
    simp only [targetOf, hkind, rdpTarget, vncTarget, hhost, required, bind_eq_ok_iff]
    constructor
    · rintro t ⟨_, ⟨⟩, ⟨⟩⟩
      exact ⟨rfl, rfl⟩
    · simp [goes_pending_iff, NetworkStop, dialsBeside, hkind]
  | spice =>
    simp only [endpoint, hkind, map_eq_some_iff] at he
    obtain ⟨hostname, hhost, rfl⟩ := he
    simp only [targetOf, hkind, spiceTarget, hhost, required, bind_eq_ok_iff]
    constructor
    · rintro t ⟨_, ⟨⟩, _, _, ⟨⟩⟩
      exact ⟨rfl, rfl⟩
    · simp [goes_checked, checkAllowedNetwork_ok_iff, NetworkStop, dialsBeside, hkind]
  | web =>
    simp only [endpoint, hkind, map_eq_some_iff] at he
    obtain ⟨w, hw, rfl⟩ := he
    have hurl : webUrl out req = .ok w := by
      cases hurl : webUrl out req <;> rw [hurl] at hw <;> cases hw
      rfl
    simp only [targetOf, hkind, webTarget, hurl, bind_eq_ok_iff]
    constructor
    · rintro t ⟨_, ⟨⟩, _, _, _, _, ⟨⟩⟩
      exact ⟨rfl, rfl⟩
    · simp [goes_checked, checkAllowedNetwork_ok_iff, rejectDeniedTarget_ok_iff, NetworkStop, dialsBeside, hkind,
        and_assoc]
  | proxmox | vdi => simp [endpoint, hkind] at he

theorem openTunnel_ok_iff (hkind : req.sessionType ≠ .proxmox) : (∃ tunnel, openTunnel out req hops t = .ok tunnel) ↔
      ¬(hops ≠ [] ∧ ∃ message, out.startChain hops t.host t.port = .error message) := by
  rw [openTunnel]
  by_cases hnone : hops = []
  · simp [hnone]
  · rw [if_neg (by simp [hnone, hkind]), chain]
    cases out.startChain hops t.host t.port <;> simp [Except.map, refuse, hnone]

section

variable (he : req.endpoint out cfg = some e)

include he

theorem endpoint_ne_proxmox : req.sessionType ≠ .proxmox := by
  intro hkind
  rw [endpoint, hkind] at he
  cases he

theorem mem_reached_of_admission
    (hadmission : admission out cfg shuttingDown m req createdBy = .ok hops) :
    e.host ∈ reached (prepare out cfg shuttingDown m req createdBy).1 ↔
      (∃ t, targetOf out cfg req createdBy hops = .ok t ∧ Goes out t) ∧
        ¬(hops ≠ [] ∧ ∃ message, out.startChain hops e.host e.dialPort = .error message) := by
  rw [mem_reached_prepare]
  constructor
  · rintro ⟨hops', t, tunnel, hadmission', htarget, htunnel, hreached⟩
    obtain rfl : hops = hops' := Except.ok.inj (hadmission.symm.trans hadmission')
    obtain ⟨hhost, hport⟩ := (targetOf_spec createdBy hops he).1 t htarget
    have hopen := (openTunnel_ok_iff (endpoint_ne_proxmox he)).mp ⟨tunnel, htunnel⟩
    rw [hhost, hport] at hopen
    exact ⟨⟨t, htarget, (mem_reached_connect.mp hreached).2⟩, hopen⟩
  · rintro ⟨⟨t, htarget, hgoes⟩, hopen⟩
    obtain ⟨hhost, hport⟩ := (targetOf_spec createdBy hops he).1 t htarget
    rw [← hhost, ← hport] at hopen
    obtain ⟨tunnel, htunnel⟩ := (openTunnel_ok_iff (endpoint_ne_proxmox he)).mpr hopen
    exact ⟨hops, t, tunnel, hadmission, htarget, htunnel, mem_reached_connect.mpr ⟨hhost, hgoes⟩⟩

/-- **What is reached.** guacd or the browser hears of the host of a request unless the request is not admitted,
the means for it are lacking, or a check of addresses stops it. -/
theorem mem_reached_endpoint : e.host ∈ reached (prepare out cfg shuttingDown m req createdBy).1 ↔
      ¬(fails (admission out cfg shuttingDown m req createdBy) ∨ LacksMeans out req e ∨
        NetworkStop out req e) := by
  cases hadmission : admission out cfg shuttingDown m req createdBy with
  | error _ => simp [mem_reached_prepare, hadmission, fails]
  | ok hops =>
    have hmeans : LacksMeans out req e ↔ (req.sessionType = .ssh ∧ fails (generateKeypair out req)) ∨
          (hops ≠ [] ∧ ∃ message, out.startChain hops e.host e.dialPort = .error message) := by
      simp [LacksMeans, jumpHops_of_admission hadmission]
    rw [mem_reached_of_admission he hadmission, (targetOf_spec createdBy hops he).2, hmeans]
    simp only [fails, Bool.false_eq_true, false_or, not_or]
    exact and_right_comm

end

end Reach

/-- **Link-local addresses.** A creation keeps away from `169.254.0.0/16` exactly when the host has no address
there, or the request is stopped for another reason or by the checks of addresses there are. -/
theorem link_local_unreached_iff (out : Outside) (cfg : CreateConfig) (shuttingDown : Bool) (draw : Draw)
    (req : CreateSessionRequest) (createdBy : String) (hub : Hub) (e : Endpoint)
    (he : req.endpoint out cfg = some e) :
    (e.host ∈ reached (createSession out cfg shuttingDown draw req createdBy hub).contacts →
        ∀ ip ∈ out.denotes e.host, Ip.isLinkLocal ip = false) ↔
      ((∀ ip ∈ out.denotes e.host, Ip.isLinkLocal ip = false) ∨
        fails (admission out cfg shuttingDown hub.manager req createdBy) = true ∨ LacksMeans out req e ∨
        NetworkStop out req e) := by
  rw [createSession_contacts, mem_reached_endpoint he]
  exact or_iff_not_imp_right.symm

theorem link_local_unreached_private :
    "10.0.0.5" ∈ reached (createSession reachable oneSession false ⟨100, 0, "s0"⟩ (sshRequest "10.0.0.5") "alice"
        emptyHub).contacts ∧
      ∀ ip ∈ reachable.denotes "10.0.0.5", Ip.isLinkLocal ip = false := by
  have hreached : "10.0.0.5" ∈ reached (createSession reachable oneSession false ⟨100, 0, "s0"⟩
      (sshRequest "10.0.0.5") "alice" emptyHub).contacts := by decide +kernel
  have hclear : ∀ ip ∈ reachable.denotes "10.0.0.5", Ip.isLinkLocal ip = false := by decide +kernel
  exact ⟨hreached, (link_local_unreached_iff reachable oneSession false ⟨100, 0, "s0"⟩ (sshRequest "10.0.0.5")
    "alice" emptyHub ⟨"10.0.0.5", 22, 22, ["0.0.0.0/0"]⟩ rfl).mpr (.inl hclear) hreached⟩

def metadataNamed : Outside :=
  { reachable with
    lookup := fun _ _ => .addresses [.v4 0xa9fea9fe#32]
    resolves := fun _ => [.v4 0xa9fea9fe#32]
    parseUrl := fun _ =>
      .ok { scheme := "http", host := some "metadata.internal", port := none, path := "/", query := none } }

def webRequest (url : String) : CreateSessionRequest :=
  { sshRequest "" with sessionType := .web, hostname := none, url := some url }

/-- The metadata service is reached by its address over SSH, and by its name in the browser. -/
theorem link_local_reached : ("169.254.169.254" ∈ reached (createSession reachable oneSession false ⟨100, 0, "s0"⟩
        (sshRequest "169.254.169.254") "alice" emptyHub).contacts ∧
      ∃ ip ∈ reachable.denotes "169.254.169.254", Ip.isLinkLocal ip = true) ∧
    ("metadata.internal" ∈ reached (createSession metadataNamed oneSession false ⟨100, 0, "s0"⟩
        (webRequest "http://metadata.internal/") "alice" emptyHub).contacts ∧
      ∃ ip ∈ metadataNamed.denotes "metadata.internal", Ip.isLinkLocal ip = true) := by
  refine ⟨by decide +kernel, by decide +kernel⟩

end Persea.Create
