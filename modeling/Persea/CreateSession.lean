import Persea.CreateTarget
import Persea.SessionCaps
import Persea.SessionFeed

/-! `create_session`. A request goes through the limits and switches, the checks of its protocol, the tunnels and the
connection; then the session is published, and put into the map if it has room. What lies outside is a record of
answers. -/

namespace Persea.Create

open Base Sessions

inductive SessionType where
  | ssh
  | rdp
  | vnc
  | spice
  | proxmox
  | web
  | vdi
deriving DecidableEq, Repr

structure JumpHost where
  hostname : String
  port : Nat
  username : String
deriving DecidableEq, Repr

structure SpiceParams where
  tls : Option Bool
  tlsPort : Option Nat
deriving DecidableEq, Repr

structure ProxmoxParams where
  url : Option String
  vmid : Option Nat
  (tokenId tokenSecret node : Option String)
deriving DecidableEq, Repr

structure VdiParams where
  containerImage : Option String
  containerUsername : Option String
deriving DecidableEq, Repr

structure CreateSessionRequest where
  sessionType : SessionType
  hostname : Option String
  port : Option Nat
  username : Option String
  password : Option String
  jumpHosts : Option (List JumpHost)
  /-- The flat fields of a single jump host. -/
  jumpHost : Option String
  jumpPort : Option Nat
  jumpUsername : Option String
  addressBookEntry : Option String
  generateKeypair : Option Bool
  spice : Option SpiceParams
  url : Option String
  proxmox : Option ProxmoxParams
  vdi : Option VdiParams
deriving DecidableEq, Repr

structure VdiConfig where
  enabled : Bool
  allowedImages : List String
deriving DecidableEq, Repr

structure CreateConfig where
  limits : Config
  maxSessionsPerUser : Nat
  (sshAllowedNetworks rdpAllowedNetworks vncAllowedNetworks webAllowedNetworks : List String)
  vdi : Option VdiConfig

structure ParsedUrl where
  scheme : String
  host : Option String
  port : Option Nat
  path : String
  query : Option String
deriving DecidableEq, Repr

inductive KeypairFailure where
  | generation (e : String)
  | privateExport (e : String)
  | publicExport (e : String)
deriving DecidableEq, Repr

inductive GuacdFailure where
  | timeout
  | error (message : String) (status : Option Nat)
deriving DecidableEq, Repr

structure SpiceConfig where
  host : String
  proxy : String
  tlsPort : Nat
deriving DecidableEq, Repr

structure Outside where
  net : NetLib
  /-- The answer that the allowlist check gets. -/
  lookup : String → Nat → Lookup
  /-- The addresses that guacd or the browser gets for a name. -/
  resolves : String → List IpAddr
  /-- guacd has been asked to connect before the lookup beside it has ended. -/
  dialsFirst : Bool
  /-- The handshake has failed before the lookup beside it has ended. -/
  handshakeFailsFirst : Bool
  settings : List (String × String)
  /-- The binary of a PowerShell entry. -/
  powershellBinary : Option String → Option String
  keypair : Except KeypairFailure Unit
  lower : String → String
  encode : String → String
  parseUrl : String → Except String ParsedUrl
  /-- The local port at which a chain of jump hosts ends. -/
  startChain : List JumpHost → String → Nat → Except String Nat
  resolveNode : Nat → Except String String
  fetchSpiceConfig : String → Nat → Except String SpiceConfig
  /-- Image and user name to the address of the container's desktop. -/
  vdiDriver : Option (String → String → Except String (String × Nat))
  spawnBrowser : String → Except String Nat
  handshake : String → Nat → Except GuacdFailure String

def refuse {α : Type} (message : String) : Except CreateError α := .error (.validationError message)

def toggleEnabled (settings : List (String × String)) (key : String) (default : Bool) : Bool :=
  match settings.lookup key with
  | some "true" => true
  | some "false" => false
  | _ => default

variable (out : Outside)

def Outside.toggle (key : String) : Bool := toggleEnabled out.settings key true

def protocolToggle : SessionType → Option String
  | .rdp => some "enable_rdp"
  | .ssh => none
  | .spice => some "enable_spice"
  | .proxmox => some "enable_proxmox"
  | .web => some "enable_web_sessions"
  | .vdi => some "enable_vdi"
  | .vnc => none

def protocolLabel : SessionType → String
  | .rdp => "RDP"
  | .ssh => "SSH"
  | .spice => "SPICE"
  | .proxmox => "Proxmox VE"
  | .web => "Web browser"
  | .vdi => "VDI"
  | .vnc => "VNC"

def checkSessionTypeEnabled (sessionType : SessionType) (addressBookEntry : Option String)
    (toggle : String → Bool) : Except CreateError Unit :=
  if (protocolToggle sessionType).any fun key => !toggle key then
    refuse (protocolLabel sessionType ++ " sessions are disabled by an administrator")
  else if (addressBookEntry.any fun e => "vsphere/" <+: e.toList) && !toggle "enable_vmware" then
    refuse "VMware sessions are disabled by an administrator"
  else .ok ()

def powershellGate (powershellBinary : Option String) (toggle : String → Bool) : Except CreateError Unit :=
  if powershellBinary.isSome && !toggle "enable_powershell_ssh" then
    refuse "PowerShell sessions are disabled by an administrator"
  else .ok ()

def maxJumpHostHops : Nat := 8

def jumpHops (req : CreateSessionRequest) : Except CreateError (List JumpHost) :=
  match req.jumpHosts, req.jumpHost with
  | some hops, _ =>
    if maxJumpHostHops < hops.length then
      refuse ("jump host chain is too long: at most " ++ toString maxJumpHostHops ++
        " hops are supported (got " ++ toString hops.length ++ ")")
    else .ok hops
  | none, some jh => .ok (if jh = "" then [] else [⟨jh, req.jumpPort.getD 22, req.jumpUsername.getD ""⟩])
  | none, none => .ok []

def admission (cfg : CreateConfig) (shuttingDown : Bool) (m : Manager) (req : CreateSessionRequest)
    (createdBy : String) : Except CreateError (List JumpHost) :=
  if 0 < cfg.maxSessionsPerUser ∧ cfg.maxSessionsPerUser ≤ m.liveOf createdBy then
    refuse ("maximum sessions per user reached (" ++ toString cfg.maxSessionsPerUser ++ ")")
  else if shuttingDown then refuse "server is shutting down — new sessions are not accepted"
  else do
    checkSessionTypeEnabled req.sessionType req.addressBookEntry out.toggle
    powershellGate (if req.sessionType = .ssh then out.powershellBinary req.addressBookEntry else none) out.toggle
    jumpHops req

/-! ### Protocols -/

structure Target where
  host : String
  port : Nat
  /-- The allowlist that is checked with the connection and not before. -/
  pendingNetCheck : Option (List String)
  url : Option String
  /-- The connection waits for the owner. -/
  deferred : Bool
deriving DecidableEq, Repr

def required (field : Option String) (message : String) : Except CreateError String :=
  match field with
  | some value => .ok value
  | none => refuse message

def generateKeypair (out : Outside) (req : CreateSessionRequest) : Except CreateError Bool :=
  if req.generateKeypair.getD false then
    match out.keypair with
    | .ok _ => .ok true
    | .error (.generation e) => refuse ("keypair generation failed: " ++ e)
    | .error (.privateExport e) => refuse ("private key export failed: " ++ e)
    | .error (.publicExport e) => refuse ("public key export failed: " ++ e)
  else .ok false

def sshTarget (cfg : CreateConfig) (req : CreateSessionRequest) : Except CreateError Target := do
  let hostname ← required req.hostname "hostname is required for SSH sessions"
  let deferred ← generateKeypair out req
  .ok ⟨hostname, req.port.getD 22, some cfg.sshAllowedNetworks, none, deferred⟩

def rdpTarget (cfg : CreateConfig) (req : CreateSessionRequest) : Except CreateError Target := do
  let hostname ← required req.hostname "hostname is required for RDP sessions"
  .ok ⟨hostname, req.port.getD 3389, some cfg.rdpAllowedNetworks, none, false⟩

def vncTarget (cfg : CreateConfig) (req : CreateSessionRequest) : Except CreateError Target := do
  let hostname ← required req.hostname "hostname is required for VNC sessions"
  .ok ⟨hostname, req.port.getD 5900, some cfg.vncAllowedNetworks, none, false⟩

def spicePort (req : CreateSessionRequest) : Nat :=
  if (req.spice.bind SpiceParams.tls).getD false then
    (req.spice.bind SpiceParams.tlsPort).getD (req.port.getD 5900)
  else req.port.getD 5900

def spiceTarget (cfg : CreateConfig) (req : CreateSessionRequest) : Except CreateError Target := do
  let hostname ← required req.hostname "hostname is required for SPICE sessions"
  checkAllowedNetwork out.net out.lookup hostname (req.port.getD 5900) cfg.vncAllowedNetworks
  .ok ⟨hostname, spicePort req, none, none, false⟩

def parseHostPort (input : String) (defaultPort : Nat) : Except CreateError (String × Nat) :=
  match out.parseUrl (if "://" <:+: input.toList then input else "tcp://" ++ input) with
  | .error e => refuse ("invalid host/URL '" ++ input ++ "': " ++ e)
  | .ok parsed =>
    match parsed.host with
    | none => refuse ("no host in '" ++ input ++ "'")
    | some host => .ok (host, parsed.port.getD defaultPort)

def chain (hops : List JumpHost) (host : String) (port : Nat) (failure : String) : Except CreateError Nat :=
  match out.startChain hops host port with
  | .ok localPort => .ok localPort
  | .error e => refuse (failure ++ e)

def pveNode (node : Option String) (vmid : Nat) : Except CreateError String :=
  match node.filter fun n => !n.toList.all Char.isWhitespace with
  | some node => .ok node
  | none =>
    match out.resolveNode vmid with
    | .ok node => .ok node
    | .error e => refuse ("Proxmox node lookup failed: " ++ e)

def spiceTicket (node : String) (vmid : Nat) : Except CreateError SpiceConfig :=
  match out.fetchSpiceConfig node vmid with
  | .ok config => .ok config
  | .error e => refuse ("Proxmox SPICE broker failed: " ++ e)

def proxmoxTarget (cfg : CreateConfig) (req : CreateSessionRequest) (hops : List JumpHost) :
    Except CreateError Target := do
  let pveUrl ← required (req.proxmox.bind ProxmoxParams.url) "Proxmox sessions require proxmox_url"
  let (pveHost, pvePort) ← parseHostPort out pveUrl 8006
  checkAllowedNetwork out.net out.lookup pveHost pvePort cfg.webAllowedNetworks
  rejectDeniedTarget out.net pveHost
  let vmid := (req.proxmox.bind ProxmoxParams.vmid).getD 0
  if vmid = 0 then refuse "Proxmox sessions require proxmox_vmid"
  else if (req.proxmox.bind ProxmoxParams.tokenId).getD "" = "" then
    refuse "Proxmox API token ID is required (format user@realm!tokenid, e.g. root@pam!persea)"
  else if (req.proxmox.bind ProxmoxParams.tokenSecret).getD "" = "" then
    refuse "Proxmox API token secret is required"
  else do
    if hops ≠ [] then
      let _ ← chain out hops pveHost pvePort "Proxmox API tunnel failed: "
    let node ← pveNode out (req.proxmox.bind ProxmoxParams.node) vmid
    let ticket ← spiceTicket out node vmid
    if hops ≠ [] then
      let (proxyHost, proxyPort) ← parseHostPort out ticket.proxy 3128
      let _ ← chain out hops proxyHost proxyPort "Proxmox SPICE proxy tunnel failed: "
    .ok ⟨ticket.host, ticket.tlsPort, none, none, false⟩

structure WebTarget where
  url : String
  host : String
  port : Nat
deriving DecidableEq, Repr

def webUrl (req : CreateSessionRequest) : Except CreateError WebTarget := do
  let rawUrl ← required req.url "url is required for web sessions"
  match out.parseUrl rawUrl with
  | .error e => refuse ("invalid URL: " ++ e)
  | .ok parsed =>
    if parsed.scheme ≠ "http" ∧ parsed.scheme ≠ "https" then
      refuse ("URL scheme '" ++ parsed.scheme ++ "' not allowed (must be http or https)")
    else
      let url := (rawUrl.replace "$RUSTGUAC_USERNAME" (out.encode (req.username.getD ""))).replace
        "$RUSTGUAC_PASSWORD" (out.encode (req.password.getD ""))
      match out.parseUrl url with
      | .error e => refuse ("URL invalid after credential substitution: " ++ e)
      | .ok parsed =>
        if parsed.scheme ≠ "http" ∧ parsed.scheme ≠ "https" then
          refuse ("URL scheme '" ++ parsed.scheme ++ "' after substitution not allowed")
        else
          match parsed.host with
          | none => refuse "URL has no host"
          | some host => .ok ⟨url, host, parsed.port.getD (if parsed.scheme = "https" then 443 else 80)⟩

def webTarget (cfg : CreateConfig) (req : CreateSessionRequest) : Except CreateError Target := do
  let web ← webUrl out req
  checkAllowedNetwork out.net out.lookup web.host web.port cfg.webAllowedNetworks
  rejectDeniedTarget out.net web.host
  .ok ⟨web.host, web.port, none, some web.url, false⟩

def sanitize (lower : String → String) (raw : String) : String :=
  (lower raw).map fun c => if c.isAlphanum then c else '_'

def vdiContainerUsername (containerUsername : Option String) (createdBy : String) : Except CreateError String :=
  match containerUsername.filter fun s => s ≠ "" with
  | none => .ok (sanitize out.lower (String.ofList (createdBy.toList.takeWhile fun c => c ≠ '@')))
  | some raw =>
    if '/' ∈ raw.toList ∨ '\\' ∈ raw.toList ∨ ".." <:+: raw.toList then
      refuse "container_username must not contain '/', '\\', or '..'"
    else if sanitize out.lower raw = "" then
      refuse "container_username must contain at least one letter or digit"
    else .ok (sanitize out.lower raw)

def vdiTarget (cfg : CreateConfig) (req : CreateSessionRequest) (createdBy : String) : Except CreateError Target :=
  match cfg.vdi.filter VdiConfig.enabled, out.vdiDriver with
  | none, _ => .error (.vdiError "VDI feature is not enabled")
  | some _, none => .error (.vdiError "VDI driver not initialized")
  | some vdiCfg, some driver => do
      let image ← required (req.vdi.bind VdiParams.containerImage) "container_image is required for VDI sessions"
      if vdiCfg.allowedImages ≠ [] ∧ image ∉ vdiCfg.allowedImages then
        .error (.vdiError ("image '" ++ image ++ "' is not in the allowed list"))
      else do
        let username ← vdiContainerUsername out (req.vdi.bind VdiParams.containerUsername) createdBy
        match driver image username with
        | .error e => .error (.vdiError e)
        | .ok (host, port) => .ok ⟨host, port, none, none, false⟩

def targetOf (cfg : CreateConfig) (req : CreateSessionRequest) (createdBy : String)
    (hops : List JumpHost) : Except CreateError Target :=
  match req.sessionType with
  | .ssh => sshTarget out cfg req
  | .rdp => rdpTarget cfg req
  | .vnc => vncTarget cfg req
  | .spice => spiceTarget out cfg req
  | .proxmox => proxmoxTarget out cfg req hops
  | .web => webTarget out cfg req
  | .vdi => vdiTarget out cfg req createdBy

/-- The session's traffic goes through its jump hosts; a Proxmox session has its own tunnels already. -/
def openTunnel (req : CreateSessionRequest) (hops : List JumpHost) (t : Target) : Except CreateError (Option Nat) :=
  if hops = [] ∨ req.sessionType = .proxmox then .ok none
  else (chain out hops t.host t.port "SSH tunnel failed: ").map some

inductive Contact where
  | guacd (host : String)
  | browser (host : String)
  /-- The connection is left to the owner's first WebSocket. -/
  | later (host : String)
  /-- The display of the browser. -/
  | localVnc (port : Nat)
deriving DecidableEq, Repr

def Contact.host : Contact → Option String
  | .guacd host => some host
  | .browser host => some host
  | .later host => some host
  | .localVnc _ => none

def reached (contacts : List Contact) : List String := contacts.filterMap Contact.host

def browserUrl (url : String) (tunnel : Option Nat) : String :=
  match tunnel, out.parseUrl url with
  | some port, .ok parsed =>
    parsed.scheme ++ "://127.0.0.1:" ++ toString port ++ parsed.path ++ (parsed.query.map ("?" ++ ·)).getD ""
  -- the URL has been parsed before, so only the missing tunnel gets here
  | _, _ => url

def handshakeWithTimeout (host : String) (port : Nat) : Except CreateError Unit :=
  match out.handshake host port with
  | .ok _ => .ok ()
  | .error .timeout => .error (.guacdConnection "timeout connecting to guacd during session-creation handshake" none)
  | .error (.error message status) => .error (.guacdConnection message status)

def dial (t : Target) (tunnel : Option Nat) : Except CreateError Unit :=
  match tunnel with
  | some port => handshakeWithTimeout out "127.0.0.1" port
  | none => handshakeWithTimeout out t.host t.port

def pendingCheck (t : Target) : Except CreateError Unit :=
  match t.pendingNetCheck with
  | some allowed => checkAllowedNetwork out.net out.lookup t.host t.port allowed
  | none => .ok ()

/-- What a stage gives: the contacts it makes, and whether the connection is deferred. -/
abbrev Connection := List Contact × Except CreateError Bool

def deferConnection (t : Target) : Connection :=
  match pendingCheck out t with
  | .error e => ([], .error e)
  | .ok _ => ([.later t.host], .ok true)

def connectAfter (t : Target) (tunnel : Option Nat) : Connection :=
  match pendingCheck out t with
  | .error e => ([], .error e)
  | .ok _ => ([.guacd t.host], (dial out t tunnel).map fun _ => false)

/-- guacd is asked while the name is being looked up. The check is polled first, so what it decides without a
lookup comes before guacd. -/
def connectBeside (t : Target) (allowed : List String) (tunnel : Option Nat) : Connection :=
  match checkLiteral out.net t.host allowed with
  | some (.error e) => ([], .error e)
  | _ =>
    let begun := if out.dialsFirst then [.guacd t.host] else []
    match checkResolved out.net t.host allowed (out.lookup t.host t.port), dial out t tunnel with
    | .ok _, .ok _ => ([.guacd t.host], .ok false)
    | .ok _, .error e => ([.guacd t.host], .error e)
    | .error e, .ok _ => (begun, .error e)
    | .error e, .error e' => (begun, .error (if out.handshakeFailsFirst then e' else e))

def navigate (t : Target) (url : String) (tunnel : Option Nat) : Connection :=
  match out.spawnBrowser (browserUrl out url tunnel) with
  | .error e => ([.browser t.host], .error (.browserSpawn e))
  | .ok vncPort =>
    ([.browser t.host, .localVnc vncPort], (handshakeWithTimeout out "127.0.0.1" vncPort).map fun _ => false)

def connect (t : Target) (tunnel : Option Nat) : Connection :=
  match t.url, t.pendingNetCheck with
  | some url, _ => navigate out t url tunnel
  | none, pending =>
    if t.deferred then deferConnection out t
    else
      match pending, out.net.parseIp t.host with
      | some allowed, none => connectBeside out t allowed tunnel
      | _, _ => connectAfter out t tunnel

def prepare (cfg : CreateConfig) (shuttingDown : Bool) (m : Manager) (req : CreateSessionRequest)
    (createdBy : String) : Connection :=
  match admission out cfg shuttingDown m req createdBy with
  | .error e => ([], .error e)
  | .ok hops =>
    match targetOf out cfg req createdBy hops with
    | .error e => ([], .error e)
    | .ok t =>
      match openTunnel out req hops t with
      | .error e => ([], .error e)
      | .ok tunnel => connect out t tunnel

/-! ### Creation -/

structure Hub where
  manager : Manager
  log : EventLog
  /-- `sessions_total`. -/
  sessionsTotal : Nat

structure Outcome where
  contacts : List Contact
  result : Except CreateError Uuid
  hub : Hub

structure Draw where
  now : Time
  id : Uuid
  shareToken : String
deriving DecidableEq, Repr

def createSession (out : Outside) (cfg : CreateConfig) (shuttingDown : Bool) (draw : Draw)
    (req : CreateSessionRequest) (createdBy : String) (hub : Hub) : Outcome :=
  match prepare out cfg shuttingDown hub.manager req createdBy with
  | (contacts, .error e) => ⟨contacts, .error e, hub⟩
  | (contacts, .ok deferred) =>
    let session := newSession draw.now createdBy draw.shareToken deferred
    -- the event is published before the cap is looked at
    let log := hub.log.append (sessionEvent draw.now draw.id .sessionStarted session)
    if 0 < cfg.limits.maxSessions ∧ cfg.limits.maxSessions ≤ hub.manager.live then
      ⟨contacts, refuse ("maximum concurrent sessions reached (" ++ toString cfg.limits.maxSessions ++ ")"),
        { hub with log }⟩
    else
      ⟨contacts, .ok draw.id,
        { manager := hub.manager.createSession cfg.limits draw.id session, log,
          sessionsTotal := hub.sessionsTotal + 1 }⟩

section Frame

variable {out : Outside} {cfg : CreateConfig} {shuttingDown : Bool} {draw : Draw} {req : CreateSessionRequest}
  {createdBy : String} {hub : Hub}

theorem createSession_contacts : (createSession out cfg shuttingDown draw req createdBy hub).contacts =
      (prepare out cfg shuttingDown hub.manager req createdBy).1 := by
  rw [createSession]
  split
  case h_1 contacts e hprepare =>
      rw [hprepare]
  case h_2 contacts deferred hprepare =>
      rw [hprepare]
      split <;> rfl

theorem createSession_of_refused {e : CreateError}
    (hprepare : (prepare out cfg shuttingDown hub.manager req createdBy).2 = .error e) :
    (createSession out cfg shuttingDown draw req createdBy hub).hub = hub := by
  rw [createSession]
  split
  case h_1 => rfl
  case h_2 contacts deferred hok =>
      rw [hok] at hprepare
      cases hprepare

theorem createSession_of_prepared (draw : Draw) {deferred : Bool}
    (hprepare : (prepare out cfg shuttingDown hub.manager req createdBy).2 = .ok deferred) :
    let a : Action := .createSession draw.id (newSession draw.now createdBy draw.shareToken deferred)
    let hub' := (createSession out cfg shuttingDown draw req createdBy hub).hub
    hub'.manager = hub.manager.perform cfg.limits draw.now a ∧
      hub'.log = (a.publishes cfg.limits draw.now hub.manager).foldl EventLog.append hub.log := by
  intro a hub'
  have hfull : ∀ s, 0 < cfg.limits.maxSessions ∧ cfg.limits.maxSessions ≤ hub.manager.live →
      hub.manager.createSession cfg.limits draw.id s = hub.manager := fun _ hfull => if_pos hfull
  simp only [hub', a, createSession, Manager.perform, Action.publishes, List.foldl_cons, List.foldl_nil]
  split
  case h_1 contacts e herror =>
      rw [herror] at hprepare
      cases hprepare
  case h_2 contacts deferred' hok =>
      rw [hok] at hprepare
      cases hprepare
      split
      case isTrue hcap => exact ⟨(hfull _ hcap).symm, rfl⟩
      case isFalse => exact ⟨rfl, rfl⟩

theorem createSession_result_of_prepared {deferred : Bool}
    (hprepare : (prepare out cfg shuttingDown hub.manager req createdBy).2 = .ok deferred) :
    fails (createSession out cfg shuttingDown draw req createdBy hub).result =
      !hub.manager.room cfg.limits.maxSessions := by
  rw [createSession, Manager.room]
  split
  case h_1 contacts e herror =>
      rw [herror] at hprepare
      cases hprepare
  case h_2 contacts deferred' hok =>
      split
      case isTrue hcap =>
          have hroom : ¬(cfg.limits.maxSessions = 0 ∨ hub.manager.live < cfg.limits.maxSessions) := by omega
          simp [fails, refuse, hroom]
      case isFalse hcap =>
          have hroom : cfg.limits.maxSessions = 0 ∨ hub.manager.live < cfg.limits.maxSessions := by omega
          simp [fails, hroom]

theorem eventLog_append_ne (log : EventLog) (event : SessionEvent) : log.append event ≠ log := by
  intro h
  have hid : log.nextId + 1 = log.nextId := congrArg EventLog.nextId h
  omega

end Frame

/-- **A failed creation has no effect** exactly when the request is refused before the session is built, or the map
has room for it. -/
theorem failed_creation_unseen_iff (out : Outside) (cfg : CreateConfig) (shuttingDown : Bool) (draw : Draw)
    (req : CreateSessionRequest) (createdBy : String) (hub : Hub) :
    (fails (createSession out cfg shuttingDown draw req createdBy hub).result = true →
        (createSession out cfg shuttingDown draw req createdBy hub).hub = hub) ↔
      (fails (prepare out cfg shuttingDown hub.manager req createdBy).2 = true ∨
        hub.manager.room cfg.limits.maxSessions = true) := by
  cases hprepare : (prepare out cfg shuttingDown hub.manager req createdBy).2 with
  | error e => simp [createSession_of_refused hprepare, fails]
  | ok deferred =>
    -- the event takes a number, so the log has changed
    have hlog : (createSession out cfg shuttingDown draw req createdBy hub).hub ≠ hub := by
      intro hsame
      have happend := (createSession_of_prepared draw hprepare).2
      rw [hsame] at happend
      exact eventLog_append_ne _ _ happend.symm
    rw [createSession_result_of_prepared hprepare]
    simp [fails, hlog]

def reachable : Outside :=
  { net := dottedLib
    lookup := fun _ _ => .failed "Name or service not known"
    resolves := fun _ => []
    dialsFirst := false
    handshakeFailsFirst := false
    settings := []
    powershellBinary := fun _ => none
    keypair := .ok ()
    lower := id
    encode := id
    parseUrl := fun _ => .error "relative URL without a base"
    startChain := fun _ _ _ => .ok 40000
    resolveNode := fun _ => .ok "pve"
    fetchSpiceConfig := fun _ _ => .error "no such VM"
    vdiDriver := none
    spawnBrowser := fun _ => .ok 5901
    handshake := fun _ _ => .ok "$connection" }

def sshRequest (hostname : String) : CreateSessionRequest :=
  { sessionType := .ssh, hostname := some hostname, port := none, username := none, password := none,
    jumpHosts := none, jumpHost := none, jumpPort := none, jumpUsername := none, addressBookEntry := none,
    generateKeypair := none, spice := none, url := none, proxmox := none, vdi := none }

def oneSession : CreateConfig :=
  { limits := { maxSessions := 1, maxViewers := 0, sessionMaxDurationSecs := 0, sessionIdleTimeoutSecs := 0,
                sessionCleanupDelaySecs := 300, sessionPendingTimeoutSecs := 60 }
    maxSessionsPerUser := 0
    sshAllowedNetworks := ["0.0.0.0/0"]
    rdpAllowedNetworks := ["0.0.0.0/0"]
    vncAllowedNetworks := ["0.0.0.0/0"]
    webAllowedNetworks := ["0.0.0.0/0"]
    vdi := none }

def emptyHub : Hub := { manager := Manager.empty, log := .empty, sessionsTotal := 0 }

def fullHub : Hub :=
  (createSession reachable oneSession false ⟨100, 0, "s0"⟩ (sshRequest "10.0.0.5") "alice" emptyHub).hub

def bobsCreation : Outcome :=
  createSession reachable oneSession false ⟨101, 1, "s1"⟩ (sshRequest "10.0.0.6") "bob" fullHub

/-- Bob is refused, and everybody who follows the feed has seen their session start. -/
theorem refused_creation_published : fails bobsCreation.result = true ∧ bobsCreation.hub ≠ fullHub ∧
      bobsCreation.hub.log.nextId = fullHub.log.nextId + 1 ∧
      bobsCreation.hub.log.events.map (·.event) = [.sessionStarted, .sessionStarted] := by
  have hnext : bobsCreation.hub.log.nextId = fullHub.log.nextId + 1 := by decide +kernel
  refine ⟨by decide +kernel, ?_, hnext, by decide +kernel⟩
  intro hsame
  rw [hsame] at hnext
  omega

end Persea.Create
