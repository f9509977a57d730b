import Persea.AddressBookUpdate
import Persea.ProtocolInstruction

/-! An entry moved from Vault into the database: `insert_ab_entry` writes columns, a JSON document and credential rows,
and `ab_entry_from_db` reads the entry back. -/

namespace Persea.AddressBook

open Base Base.Text Base.Json Vault List Option AddressBookEntry

def insertCredentials (encrypt : Text → Except String Text) : List (String × Option Text) → Store Text Text →
    Except String (Store Text Text)
  | [], rows => .ok rows
  | (ctype, value) :: fields, rows =>
    match value.filter (· ≠ []) with
    | none => insertCredentials encrypt fields rows
    | some v =>
      match encrypt v with
      | .error e => .error s!"encrypt {ctype}: {e}"
      | .ok encrypted => insertCredentials encrypt fields (rows.insert ctype.toList encrypted)

def insertAbEntry (encrypt : Text → Except String Text) (overwrite : Bool) (existing : Option StoredEntry) (name : Text)
    (e : AddressBookEntry) : Except String StoredEntry :=
  if existing.isSome && !overwrite then .error "insert entry: UNIQUE constraint failed"
  else (insertCredentials encrypt (credentialFields e) (existing.elim ∅ StoredEntry.credentials)).map fun rows =>
    { displayName := e.displayName.getD name
      protocol := e.sessionType
      hostname := e.hostname.getD []
      port := e.port
      username := e.username.getD []
      config := buildProtocolConfig e
      allowedGroups := []
      credentials := rows
      vaultCopy := existing.bind StoredEntry.vaultCopy }

def asBool : Json → Option Bool
  | .bool b => some b
  | _ => none

def asU64 : Json → Option Nat
  | .number n => Protocol.parseUsize n.text
  | _ => none

def asF64 : Json → Option Json
  | .number n => some (.number n)
  | _ => none

def asArray : Json → Option (List Json)
  | .array items => some items
  | _ => none

def textMap (v : Json) : Option (List (Text × Text)) :=
  (asObject v).bind (List.mapM fun field => (asStr field.2).map fun s => (field.1, s))

def JumpHost.fromJson (v : Json) : Option JumpHost := do
  let fields ← asObject v
  let hostname ← (getField fields "hostname").bind asStr
  let port ← ((getField fields "port").elim (some 22) asU64).filter (· < 2 ^ 16)
  let username ← (getField fields "username").bind asStr
  return ⟨hostname, port, username, (getField fields "password").bind asStr, (getField fields "private_key").bind asStr,
    (getField fields "host_key").bind asStr⟩

/-- `as_u64` and a cast. -/
def asUint (width : Nat) (v : Option Json) : Option Nat := (v.bind asU64).map (· % 2 ^ width)

def asTexts (v : Option Json) : Option (List Text) := (v.bind asArray).map (List.filterMap asStr)

def entryOf (row : StoredEntry) (get : String → Option Json) : AddressBookEntry :=
  let str key := (get key).bind asStr
  let bool key := (get key).bind asBool
  let nat width key := asUint width (get key)
  { sessionType := row.protocol
    hostname := some row.hostname
    port := row.port
    username := if row.username = [] then none else some row.username
    displayName := if row.displayName = [] then none else some row.displayName
    description := str "description"
    customFields := (get "custom_fields").bind textMap
    jumpHosts := ((get "jump_hosts").bind asArray).bind (List.mapM JumpHost.fromJson)
    domain := str "domain"
    security := str "security"
    ignoreCert := bool "ignore_cert"
    url := str "url"
    enableDrive := bool "enable_drive"
    authPkg := str "auth_pkg"
    kdcUrl := str "kdc_url"
    colorDepth := nat 8 "color_depth"
    enableRecording := bool "enable_recording"
    recordTypescript := bool "record_typescript"
    remoteApp := str "remote_app"
    remoteAppDir := str "remote_app_dir"
    remoteAppArgs := str "remote_app_args"
    enableGfx := bool "enable_gfx"
    enableDesktopComposition := bool "enable_desktop_composition"
    enableWallpaper := bool "enable_wallpaper"
    enableTheming := bool "enable_theming"
    enableFullWindowDrag := bool "enable_full_window_drag"
    forceLossless := bool "force_lossless"
    enableH264 := bool "enable_h264"
    banner := str "banner"
    promptCredentials := bool "prompt_credentials"
    allowSharing := bool "allow_sharing"
    autoOpenIfSingleton := bool "auto_open_if_singleton"
    fullscreenOnConnect := bool "fullscreen_on_connect"
    autohideSideTabs := bool "autohide_side_tabs"
    autoSize := bool "auto_size"
    spiceTls := bool "spice_tls"
    spiceTlsPort := nat 16 "spice_tls_port"
    spiceCaCert := str "spice_ca_cert"
    spiceCertSubject := str "spice_cert_subject"
    spiceProxy := str "spice_proxy"
    proxmoxUrl := str "proxmox_url"
    proxmoxNode := str "proxmox_node"
    proxmoxVmid := nat 32 "proxmox_vmid"
    proxmoxTokenId := str "proxmox_token_id"
    proxmoxVerifyTls := bool "proxmox_verify_tls"
    containerImage := str "container_image"
    containerCpuLimit := (get "container_cpu_limit").bind asF64
    containerMemoryLimit := (get "container_memory_limit").bind asU64
    containerIdleTimeoutMins := (get "container_idle_timeout_mins").bind asU64
    containerUsername := str "container_username"
    maxMonitors := nat 32 "max_monitors"
    maxRecordings := nat 32 "max_recordings"
    loginScript := str "login_script"
    autofill := str "autofill"
    allowedDomains := asTexts (get "allowed_domains")
    disableCopy := bool "disable_copy"
    disablePaste := bool "disable_paste" }

def abEntryFromDb (row : StoredEntry) : AddressBookEntry := entryOf row (getField row.config)

def applyDbCredentials (decrypt : Text → Text) (rows : Store Text Text) (e : AddressBookEntry) : AddressBookEntry :=
  let value type := (rows.lookup (String.toList type)).map decrypt
  { e with
    password := (value "password").or e.password
    privateKey := (value "private_key").or e.privateKey
    proxmoxTokenSecret := (value "proxmox_token_secret").or e.proxmoxTokenSecret
    containerPassword := (value "container_password").or e.containerPassword }

/-! ### What is read back -/

def readField (fields : List (String × Option Json)) (key : String) : Option Json :=
  (fields.find? fun field => field.1 = key).bind Prod.snd

theorem getField_present {fields : List (String × Option Json)}
    (hkeys : (fields.map fun field => field.1.toList).Nodup) (key : String) :
    getField (present fields) key = readField fields key := by
  rw [readField, getField]
  cases hfind : fields.find? fun field => field.1 = key with
  | none =>
    refine lookupField_eq_none fun hmem => ?_
    obtain ⟨field, hfield, hkey⟩ := List.mem_map.mp ((keys_present_sublist fields).subset hmem)
    exact find?_eq_none.mp hfind field hfield (by simpa using String.toList_inj.mp hkey)
  | some field =>
    obtain rfl : field.1 = key := by simpa using find?_some hfind
    exact lookupField_present hkeys (mem_of_find?_eq_some hfind)

theorem bind_asStr (v : Option Text) : (v.map Json.string).bind asStr = v := by cases v <;> rfl

theorem bind_asBool (v : Option Bool) : (v.map Json.bool).bind asBool = v := by cases v <;> rfl

variable {encrypt : Text → Except String Text} {e : AddressBookEntry} {n : Option Nat} {width : Nat}

theorem bind_asU64 (h : ∀ v ∈ n, v < 2 ^ width) (hwidth : width ≤ 64) : (n.map natJson).bind asU64 = n := by
  cases n with
  | none => rfl
  | some v =>
    have hle : v ≤ Protocol.usizeMax :=
      Nat.le_sub_one_of_lt ((h v rfl).trans_le (Nat.pow_le_pow_right (by decide) hwidth))
    exact Protocol.parseUsize_decimal hle

theorem asUint_natJson (h : ∀ v ∈ n, v < 2 ^ width) (hwidth : width ≤ 64) : asUint width (n.map natJson) = n := by
  rw [asUint, bind_asU64 h hwidth]
  cases n with
  | none => rfl
  | some v => exact congrArg some (Nat.mod_eq_of_lt (h v rfl))

theorem mapM_of_eq_some {α β : Type} {f : β → Option α} {g : α → β} {l : List α} (h : ∀ a ∈ l, f (g a) = some a) :
    (l.map g).mapM f = some l := by
  induction l with
  | nil => rfl
  | cons a l ih =>
    rw [forall_mem_cons] at h
    simp [h.1, ih h.2]

theorem bind_textMap (fields : Option (List (Text × Text))) : (fields.map textMapJson).bind textMap = fields := by
  cases fields with
  | none => rfl
  | some fields => exact mapM_of_eq_some fun _ _ => rfl

theorem fromJson_toJson {hop : JumpHost} (hport : hop.port < 2 ^ 16) : JumpHost.fromJson hop.toJson = some hop := by
  have hfields : ∀ key, getField (present [("hostname", some (.string hop.hostname)), ("port", some (natJson hop.port)),
      ("username", some (.string hop.username)), ("password", hop.password.map .string),
      ("private_key", hop.privateKey.map .string), ("host_key", hop.hostKey.map .string)]) key = _ :=
    getField_present (show (["hostname", "port", "username", "password", "private_key", "host_key"].map
      String.toList).Nodup by decide +kernel)
  have hnat : asU64 (natJson hop.port) = some hop.port := @bind_asU64 (some hop.port) 16 (by simpa using hport) (by decide)
  rw [JumpHost.fromJson, JumpHost.toJson, asObject]
  have hport' : hop.port < 65536 := hport
  simp [hfields, readField, hnat, hport', filter_some, asStr, bind_asStr]

theorem bind_fromJson {hops : Option (List JumpHost)} (h : ∀ l ∈ hops, ∀ hop ∈ l, hop.port < 2 ^ 16) :
    ((jumpHostsJson hops).bind asArray).bind (List.mapM JumpHost.fromJson) = hops := by
  cases hops with
  | none => rfl
  | some l => exact mapM_of_eq_some fun hop hhop => fromJson_toJson (h l rfl hop hhop)

theorem asTexts_eq (texts : Option (List Text)) :
    asTexts (texts.map fun texts => Json.array (texts.map .string)) = texts := by
  cases texts with
  | none => rfl
  | some l =>
    have hstr : asStr ∘ Json.string = some := rfl
    exact congrArg some ((filterMap_map ..).trans (by rw [hstr, filterMap_some]))

/-- The numbers are those of the fields' types. -/
structure InRange (e : AddressBookEntry) : Prop where
  colorDepth : ∀ v ∈ e.colorDepth, v < 2 ^ 8
  spiceTlsPort : ∀ v ∈ e.spiceTlsPort, v < 2 ^ 16
  proxmoxVmid : ∀ v ∈ e.proxmoxVmid, v < 2 ^ 32
  maxMonitors : ∀ v ∈ e.maxMonitors, v < 2 ^ 32
  maxRecordings : ∀ v ∈ e.maxRecordings, v < 2 ^ 32
  containerMemoryLimit : ∀ v ∈ e.containerMemoryLimit, v < 2 ^ 64
  containerIdleTimeoutMins : ∀ v ∈ e.containerIdleTimeoutMins, v < 2 ^ 64
  containerCpuLimit : e.containerCpuLimit.bind asF64 = e.containerCpuLimit
  jumpHosts : ∀ hops ∈ e.jumpHosts, ∀ hop ∈ hops, hop.port < 2 ^ 16

theorem abEntryFromDb_eq (h : InRange e) {row : StoredEntry} (hconfig : row.config = buildProtocolConfig e) :
    abEntryFromDb row = { e with
      sessionType := row.protocol
      hostname := some row.hostname
      port := row.port
      username := if row.username = [] then none else some row.username
      displayName := if row.displayName = [] then none else some row.displayName
      password := none, privateKey := none, proxmoxTokenSecret := none, containerPassword := none, containerEnv := none
      jumpHost := none, jumpPort := none, jumpUsername := none, jumpPassword := none, jumpPrivateKey := none } := by
  have hget : getField row.config = readField (configFields e) := by
    rw [hconfig]
    exact funext (getField_present (nodup_cons.mp (nodup_configFields e)).2)
  rw [abEntryFromDb, hget]
  simp [entryOf, readField, configFields, bind_asStr, bind_asBool, bind_textMap, bind_fromJson h.jumpHosts, asTexts_eq,
    asUint_natJson h.colorDepth, asUint_natJson h.spiceTlsPort, asUint_natJson h.proxmoxVmid, asUint_natJson h.maxMonitors,
    asUint_natJson h.maxRecordings, bind_asU64 h.containerMemoryLimit, bind_asU64 h.containerIdleTimeoutMins,
    h.containerCpuLimit]

theorem insertCredentials_eq {fields : List (String × Option Text)} {rows rows' : Store Text Text}
    (h : insertCredentials encrypt fields rows = .ok rows') :
    storeCredentials encrypt (fields.map fun field => (field.1, field.2.filter (· ≠ []))) rows = .ok rows' := by
  induction fields generalizing rows with
  | nil => exact congrArg Except.ok (Except.ok.inj h)
  | cons field fields ih =>
    obtain ⟨type, value⟩ := field
    rw [insertCredentials] at h
    rw [map_cons]
    cases hvalue : value.filter (· ≠ []) with
    | none =>
      rw [hvalue] at h
      exact ih h
    | some v =>
      rw [hvalue] at h
      have hne : v ≠ [] := by simpa using (filter_eq_some_iff.mp hvalue).2
      dsimp only at h
      split at h
      · cases h
      · rename_i encrypted hencrypted
        refine Except.bind_eq_ok_iff.mpr ⟨rows.insert type.toList encrypted, ?_, ih h⟩
        rw [upsertOrClearCredential, if_neg hne, hencrypted]

/-- What of an entry can be restored from its row: `before` are the credentials that the row had, and `name` its name. -/
structure Restorable (decrypt : Text → Text) (before : Store Text Text) (name : Text) (e : AddressBookEntry) : Prop where
  hostname : e.hostname ≠ none
  username : e.username ≠ some []
  displayName : e.displayName ≠ some [] ∧ (e.displayName = none → name = [])
  containerEnv : e.containerEnv = none
  legacy : e.jumpHost = none ∧ e.jumpPort = none ∧ e.jumpUsername = none ∧ e.jumpPassword = none ∧ e.jumpPrivateKey = none
  credentials : ∀ field ∈ credentialFields e, field.2.getD [] = [] →
    (before.lookup field.1.toList).map decrypt = field.2

theorem or_filter_eq_iff {v old : Option Text} : (v.filter (· ≠ [])).or old = v ↔ (v.getD [] = [] → old = v) := by
  cases v with
  | none => simp
  | some v => by_cases h : v = [] <;> simp [h]

theorem ite_getD_eq_iff {v : Option Text} {default : Text} :
    (if v.getD default = [] then none else some (v.getD default)) = v ↔ v ≠ some [] ∧ (v = none → default = []) := by
  cases v with
  | none => by_cases h : default = [] <;> simp [h]
  | some v => by_cases h : v = [] <;> simp [h]

theorem lookup_insertCredentials {decrypt : Text → Text}
    (hdecrypt : ∀ v encrypted, encrypt v = .ok encrypted → decrypt encrypted = v)
    {before rows : Store Text Text} (h : insertCredentials encrypt (credentialFields e) before = .ok rows) :
    ∀ field ∈ credentialFields e, (rows.lookup field.1.toList).map decrypt =
      (field.2.filter (· ≠ [])).or ((before.lookup field.1.toList).map decrypt) := by
  intro field hfield
  have hkeys : (((credentialFields e).map fun field => (field.1, field.2.filter (· ≠ []))).map
      fun field => field.1.toList).Nodup := by
    change ((credentialFields { sessionType := [] }).map fun field => field.1.toList).Nodup
    decide +kernel
  have hafter := (storeCredentials_spec hkeys (insertCredentials_eq h)).1 _ (List.mem_map_of_mem hfield)
  cases hvalue : field.2.filter (· ≠ []) with
  | none =>
    rw [hvalue] at hafter
    exact congrArg (Option.map decrypt) hafter
  | some v =>
    have hne : v ≠ [] := by simpa using (filter_eq_some_iff.mp hvalue).2
    rw [hvalue, CredentialAfter, if_neg hne] at hafter
    obtain ⟨encrypted, hencrypted, hrow⟩ := hafter
    rw [hrow, map_some, hdecrypt v encrypted hencrypted]
    rfl

/-- **An entry moved into the database** is read back as it was, exactly if it is restorable. -/
theorem insertAbEntry_restores_iff {encrypt : Text → Except String Text} {decrypt : Text → Text}
    (hdecrypt : ∀ v encrypted, encrypt v = .ok encrypted → decrypt encrypted = v) {overwrite : Bool}
    {existing : Option StoredEntry} {name : Text} {e : AddressBookEntry} {row : StoredEntry} (hrange : InRange e)
    (h : insertAbEntry encrypt overwrite existing name e = .ok row) :
    applyDbCredentials decrypt row.credentials (abEntryFromDb row) = e ↔
      Restorable decrypt (existing.elim ∅ StoredEntry.credentials) name e := by
  unfold insertAbEntry at h
  split_ifs at h
  cases hrows : insertCredentials encrypt (credentialFields e) (existing.elim ∅ StoredEntry.credentials) with
  | error message =>
    rw [hrows] at h
    cases h
  | ok rows =>
    rw [hrows] at h
    cases h
    have hvalues := lookup_insertCredentials hdecrypt hrows
    simp only [credentialFields, forall_mem_cons, not_mem_nil, false_imp_iff, implies_true, and_true] at hvalues
    obtain ⟨hpassword, hkey, hsecret, hcontainer⟩ := hvalues
    rw [applyDbCredentials, abEntryFromDb_eq hrange rfl]
    simp only [hpassword, hkey, hsecret, hcontainer, or_none]
    constructor
    · intro hsame
      have husername := ite_getD_eq_iff.mp (congrArg username hsame)
      refine ⟨fun hnone => ?_, husername.1, ite_getD_eq_iff.mp (congrArg displayName hsame),
        (congrArg containerEnv hsame).symm, ⟨(congrArg jumpHost hsame).symm,
          (congrArg jumpPort hsame).symm, (congrArg jumpUsername hsame).symm,
          (congrArg jumpPassword hsame).symm, (congrArg jumpPrivateKey hsame).symm⟩, ?_⟩
      · exact some_ne_none _ ((congrArg hostname hsame).trans hnone)
      · simp only [credentialFields, forall_mem_cons, not_mem_nil, false_imp_iff, implies_true, and_true]
        exact ⟨or_filter_eq_iff.mp (congrArg password hsame), or_filter_eq_iff.mp (congrArg privateKey hsame),
          or_filter_eq_iff.mp (congrArg proxmoxTokenSecret hsame),
          or_filter_eq_iff.mp (congrArg containerPassword hsame)⟩
    · rintro ⟨hhost, husername, hdisplay, henv, ⟨hjump, hport, huser, hpass, hprivate⟩, hcredentials⟩
      simp only [credentialFields, forall_mem_cons, not_mem_nil, false_imp_iff, implies_true, and_true]
        at hcredentials
      obtain ⟨host, hhost⟩ := ne_none_iff_exists'.mp hhost
      rw [or_filter_eq_iff.mpr hcredentials.1, or_filter_eq_iff.mpr hcredentials.2.1,
        or_filter_eq_iff.mpr hcredentials.2.2.1, or_filter_eq_iff.mpr hcredentials.2.2.2,
        ite_getD_eq_iff.mpr hdisplay, ite_getD_eq_iff.mpr ⟨husername, fun _ => rfl⟩]
      cases e
      dsimp only at hhost henv hjump hport huser hpass hprivate
      subst hhost henv hjump hport huser hpass hprivate
      rfl

theorem insertAbEntry_restores_ssh :
    ∃ row, insertAbEntry .ok false none ['n'] { sessionType := ['s'], hostname := some ['h'], displayName := some ['d'] } =
        .ok row ∧ applyDbCredentials id row.credentials (abEntryFromDb row) =
          { sessionType := ['s'], hostname := some ['h'], displayName := some ['d'] } := by
  refine ⟨_, rfl, (@insertAbEntry_restores_iff .ok id (fun v _ h => (Except.ok.inj h).symm) false none ['n'] _ _ ?_ rfl).mpr ?_⟩
  · constructor <;> simp
  · refine ⟨by simp, by simp, by simp, rfl, ⟨rfl, rfl, rfl, rfl, rfl⟩, ?_⟩
    simp [credentialFields]

/-- **A field that is lost**: the environment of a container. -/
theorem insertAbEntry_loses_env :
    ∃ row, insertAbEntry .ok false none ['n'] { sessionType := ['v', 'd', 'i'], containerEnv := some [(['k'], ['v'])] } =
        .ok row ∧ (applyDbCredentials id row.credentials (abEntryFromDb row)).containerEnv = none :=
  ⟨_, rfl, rfl⟩

end Persea.AddressBook
