import Persea.AddressBook
import Persea.BaseJson

/-! The `protocol_config` column. `build_protocol_config` writes the fields of an entry that are not credentials, which
are kept elsewhere; the list of jump hosts is written as it is, with the passwords and keys of its hops. -/

namespace Persea.AddressBook

open Base Base.Text List

structure JumpHost where
  hostname : Text
  port : Nat
  username : Text
  (password privateKey hostKey : Option Text)
deriving DecidableEq, Repr

open JumpHost

structure AddressBookEntry where
  sessionType : Text
  hostname : Option Text := none
  port : Option Nat := none
  (username password privateKey url domain security : Option Text := none)
  ignoreCert : Option Bool := none
  displayName : Option Text := none
  description : Option Text := none
  customFields : Option (List (Text × Text)) := none
  enableDrive : Option Bool := none
  authPkg : Option Text := none
  kdcUrl : Option Text := none
  promptCredentials : Option Bool := none
  colorDepth : Option Nat := none
  jumpHosts : Option (List JumpHost) := none
  jumpHost : Option Text := none
  jumpPort : Option Nat := none
  (jumpUsername jumpPassword jumpPrivateKey remoteApp remoteAppDir remoteAppArgs : Option Text := none)
  enableRecording : Option Bool := none
  maxRecordings : Option Nat := none
  recordTypescript : Option Bool := none
  loginScript : Option Text := none
  autofill : Option Text := none
  allowedDomains : Option (List Text) := none
  disableCopy : Option Bool := none
  disablePaste : Option Bool := none
  banner : Option Text := none
  enableGfx : Option Bool := none
  enableDesktopComposition : Option Bool := none
  (enableWallpaper enableTheming enableFullWindowDrag forceLossless enableH264 : Option Bool := none)
  containerImage : Option Text := none
  /-- A float, as the JSON value that it is written as. -/
  containerCpuLimit : Option Json := none
  containerMemoryLimit : Option Nat := none
  containerEnv : Option (List (Text × Text)) := none
  containerIdleTimeoutMins : Option Nat := none
  containerUsername : Option Text := none
  containerPassword : Option Text := none
  (allowSharing autoOpenIfSingleton fullscreenOnConnect autohideSideTabs autoSize spiceTls : Option Bool := none)
  spiceTlsPort : Option Nat := none
  (spiceCaCert spiceCertSubject spiceProxy proxmoxUrl proxmoxNode : Option Text := none)
  proxmoxVmid : Option Nat := none
  proxmoxTokenId : Option Text := none
  proxmoxTokenSecret : Option Text := none
  proxmoxVerifyTls : Option Bool := none
  maxMonitors : Option Nat := none

theorem isNumberChar_of_mem_decimal (n : Nat) : ∀ c ∈ decimal n, Json.isNumberChar c := by
  intro c hc
  rw [Json.isNumberChar, isDigit_of_mem_decimal hc, Bool.true_or]

def natJson (n : Nat) : Json := .number ⟨decimal n, decimal_ne_nil n, isNumberChar_of_mem_decimal n⟩

def present (fields : List (String × Option Json)) : List (Text × Json) :=
  fields.filterMap fun field => field.2.map fun v => (field.1.toList, v)

def JumpHost.toJson (hop : JumpHost) : Json :=
  .object (present [("hostname", some (.string hop.hostname)), ("port", some (natJson hop.port)),
    ("username", some (.string hop.username)), ("password", hop.password.map .string),
    ("private_key", hop.privateKey.map .string), ("host_key", hop.hostKey.map .string)])

def textMapJson (fields : List (Text × Text)) : Json := .object (fields.map fun field => (field.1, .string field.2))

def jumpHostsJson (jumpHosts : Option (List JumpHost)) : Option Json :=
  jumpHosts.map fun hops => .array (hops.map toJson)

variable (e : AddressBookEntry)

def configFields : List (String × Option Json) :=
  [("description", e.description.map .string), ("custom_fields", e.customFields.map textMapJson),
    ("jump_hosts", jumpHostsJson e.jumpHosts), ("domain", e.domain.map .string),
    ("security", e.security.map .string), ("ignore_cert", e.ignoreCert.map .bool), ("url", e.url.map .string),
    ("enable_drive", e.enableDrive.map .bool), ("auth_pkg", e.authPkg.map .string),
    ("kdc_url", e.kdcUrl.map .string), ("color_depth", e.colorDepth.map natJson),
    ("enable_recording", e.enableRecording.map .bool), ("record_typescript", e.recordTypescript.map .bool),
    ("remote_app", e.remoteApp.map .string), ("remote_app_dir", e.remoteAppDir.map .string),
    ("remote_app_args", e.remoteAppArgs.map .string), ("enable_gfx", e.enableGfx.map .bool),
    ("enable_desktop_composition", e.enableDesktopComposition.map .bool),
    ("enable_wallpaper", e.enableWallpaper.map .bool), ("enable_theming", e.enableTheming.map .bool),
    ("enable_full_window_drag", e.enableFullWindowDrag.map .bool),
    ("force_lossless", e.forceLossless.map .bool), ("enable_h264", e.enableH264.map .bool),
    ("banner", e.banner.map .string), ("prompt_credentials", e.promptCredentials.map .bool),
    ("allow_sharing", e.allowSharing.map .bool), ("auto_open_if_singleton", e.autoOpenIfSingleton.map .bool),
    ("fullscreen_on_connect", e.fullscreenOnConnect.map .bool),
    ("autohide_side_tabs", e.autohideSideTabs.map .bool), ("auto_size", e.autoSize.map .bool),
    ("spice_tls", e.spiceTls.map .bool), ("spice_tls_port", e.spiceTlsPort.map natJson),
    ("spice_ca_cert", e.spiceCaCert.map .string), ("spice_cert_subject", e.spiceCertSubject.map .string),
    ("spice_proxy", e.spiceProxy.map .string), ("proxmox_url", e.proxmoxUrl.map .string),
    ("proxmox_node", e.proxmoxNode.map .string), ("proxmox_vmid", e.proxmoxVmid.map natJson),
    ("proxmox_token_id", e.proxmoxTokenId.map .string), ("proxmox_verify_tls", e.proxmoxVerifyTls.map .bool),
    ("container_image", e.containerImage.map .string), ("container_cpu_limit", e.containerCpuLimit),
    ("container_memory_limit", e.containerMemoryLimit.map natJson),
    ("container_idle_timeout_mins", e.containerIdleTimeoutMins.map natJson),
    ("container_username", e.containerUsername.map .string), ("max_monitors", e.maxMonitors.map natJson),
    ("max_recordings", e.maxRecordings.map natJson), ("login_script", e.loginScript.map .string),
    ("autofill", e.autofill.map .string),
    ("allowed_domains", e.allowedDomains.map fun domains => .array (domains.map .string)),
    ("disable_copy", e.disableCopy.map .bool), ("disable_paste", e.disablePaste.map .bool)]

/-- The map by its fields, in the order of insertion; the keys are different. -/
def buildProtocolConfig : List (Text × Json) := present (configFields e)

def JumpHost.withoutCredentials (hop : JumpHost) : JumpHost := { hop with password := none, privateKey := none }

def JumpHost.credentials (hop : JumpHost) : Option Text × Option Text := (hop.password, hop.privateKey)

def AddressBookEntry.withoutCredentials (e : AddressBookEntry) : AddressBookEntry :=
  { e with
    password := none
    privateKey := none
    jumpHosts := e.jumpHosts.map (map JumpHost.withoutCredentials)
    jumpPassword := none
    jumpPrivateKey := none
    containerPassword := none
    proxmoxTokenSecret := none }

def AddressBookEntry.jumpCredentials : Option (List (Option Text × Option Text)) := e.jumpHosts.map (map credentials)

theorem JumpHost.ext_credentials {a b : JumpHost} (hplain : a.withoutCredentials = b.withoutCredentials)
    (hcredentials : a.credentials = b.credentials) : a = b := by
  cases a
  cases b
  simp_all [withoutCredentials, credentials]

theorem JumpHost.toJson_eq_iff {a b : JumpHost} (hplain : a.withoutCredentials = b.withoutCredentials) :
    a.toJson = b.toJson ↔ a.credentials = b.credentials := by
  refine ⟨fun h => ?_, fun h => by rw [ext_credentials hplain h]⟩
  obtain ⟨hostname, port, username, password, privateKey, hostKey⟩ := a
  obtain ⟨hostname', port', username', password', privateKey', hostKey'⟩ := b
  simp only [withoutCredentials, mk.injEq] at hplain
  obtain ⟨rfl, rfl, rfl, -, -, rfl⟩ := hplain
  cases password <;> cases password' <;> cases privateKey <;> cases privateKey' <;> cases hostKey <;>
    simp_all [toJson, credentials, present]

theorem hops_toJson_eq_iff {a b : List JumpHost}
    (hplain : a.map withoutCredentials = b.map withoutCredentials) :
    a.map toJson = b.map toJson ↔ a.map credentials = b.map credentials := by
  induction a generalizing b with
  | nil =>
    obtain rfl : b = [] := map_eq_nil_iff.mp hplain.symm
    simp
  | cons hop a ih =>
    cases b with
    | nil => cases hplain
    | cons hop' b =>
      simp only [map_cons, cons.injEq] at hplain ⊢
      rw [toJson_eq_iff hplain.1, ih hplain.2]

theorem jumpHostsJson_eq_iff {a b : AddressBookEntry} (hplain : a.withoutCredentials = b.withoutCredentials) :
    jumpHostsJson a.jumpHosts = jumpHostsJson b.jumpHosts ↔ a.jumpCredentials = b.jumpCredentials := by
  have hhops : a.jumpHosts.map (map JumpHost.withoutCredentials) =
      b.jumpHosts.map (map JumpHost.withoutCredentials) := congrArg AddressBookEntry.jumpHosts hplain
  unfold jumpHostsJson AddressBookEntry.jumpCredentials
  cases ha : a.jumpHosts with
  | none =>
    rw [ha] at hhops
    rw [Option.map_eq_none_iff.mp hhops.symm]
    simp
  | some hops =>
    rw [ha] at hhops
    obtain ⟨hops', hb, hhops'⟩ := Option.map_eq_some_iff.mp hhops.symm
    rw [hb]
    simp only [Option.map_some, Option.some.injEq, Json.array.injEq]
    exact hops_toJson_eq_iff hhops'.symm

theorem configFields_eq (e : AddressBookEntry) : configFields e = (configFields e.withoutCredentials).take 2 ++
      ("jump_hosts", jumpHostsJson e.jumpHosts) :: (configFields e.withoutCredentials).drop 3 := rfl

theorem present_append_cons (left : List (String × Option Json)) (key : String) (v : Option Json)
    (right : List (String × Option Json)) :
    present (left ++ (key, v) :: right) =
      present left ++ ((v.map fun v => (key.toList, v)).toList ++ present right) := by
  cases v <;> simp [present]

theorem buildProtocolConfig_eq_iff {a b : AddressBookEntry} (hplain : a.withoutCredentials = b.withoutCredentials) :
    buildProtocolConfig a = buildProtocolConfig b ↔ jumpHostsJson a.jumpHosts = jumpHostsJson b.jumpHosts := by
  rw [buildProtocolConfig, buildProtocolConfig, configFields_eq a, configFields_eq b, hplain, present_append_cons,
    present_append_cons, append_cancel_left_eq, append_cancel_right_eq]
  cases jumpHostsJson a.jumpHosts <;> cases jumpHostsJson b.jumpHosts <;> simp

/-- **Credentials in the stored configuration.** Two entries that differ in credentials only have the same
configuration exactly if the credentials of their jump hosts do not differ. -/
theorem config_independent_of_credentials_iff (a b : AddressBookEntry)
    (hplain : a.withoutCredentials = b.withoutCredentials) :
    buildProtocolConfig a = buildProtocolConfig b ↔ a.jumpCredentials = b.jumpCredentials := by
  rw [buildProtocolConfig_eq_iff hplain, jumpHostsJson_eq_iff hplain]

def keyedEntry (password hopPassword : Text) : AddressBookEntry :=
  { sessionType := ['s', 's', 'h']
    password := some password
    jumpHosts := some [⟨['j'], 22, ['u'], some hopPassword, none, none⟩] }

theorem config_independent_of_password :
    (keyedEntry ['a'] ['x']).withoutCredentials = (keyedEntry ['b'] ['x']).withoutCredentials ∧
      buildProtocolConfig (keyedEntry ['a'] ['x']) = buildProtocolConfig (keyedEntry ['b'] ['x']) :=
  ⟨rfl, (config_independent_of_credentials_iff (keyedEntry ['a'] ['x']) (keyedEntry ['b'] ['x']) rfl).mpr rfl⟩

/-- **A password in the configuration.** The entries differ in the password of a jump host, and so do the columns. -/
theorem config_shows_jump_password :
    (keyedEntry ['a'] ['x']).withoutCredentials = (keyedEntry ['a'] ['y']).withoutCredentials ∧
      buildProtocolConfig (keyedEntry ['a'] ['x']) ≠ buildProtocolConfig (keyedEntry ['a'] ['y']) := by
  have hplain : (keyedEntry ['a'] ['x']).withoutCredentials = (keyedEntry ['a'] ['y']).withoutCredentials := rfl
  refine ⟨hplain, fun hsame => ?_⟩
  have hjump := (jumpHostsJson_eq_iff hplain).mp ((buildProtocolConfig_eq_iff hplain).mp hsame)
  exact absurd hjump (by decide)

end Persea.AddressBook
