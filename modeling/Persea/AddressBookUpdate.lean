import Persea.AuthIdentity
import Persea.DbMigrate

/-! Updates and deletions of an entry. An update goes over a database row, the credential rows and the copy in Vault,
with a rule for each of them. -/

namespace Persea.AddressBook

open Base Base.Text Base.Json Vault Auth List Option

structure UpdateEntryRequest where
  allowedGroups : Option (List Text) := none
  name : Option Text := none
  powershellBinary : Option Text := none
  entry : AddressBookEntry

/-- A row with its `protocol_config` parsed (a text that is no object is an empty one), its encrypted credentials by
type, and the copy in Vault. -/
structure StoredEntry where
  (displayName protocol hostname : Text)
  port : Option Nat
  username : Text
  config : List (Text × Json)
  allowedGroups : Text
  credentials : Store Text Text
  vaultCopy : Option AddressBookEntry

inductive EntryError where
  | forbidden (msg : String)
  | vault (e : VaultError)
  | session (msg : String)
  | validation (msg : String)
  | internal (msg : String)
deriving DecidableEq, Repr

/-- What an update depends on: `encrypt` is there if a key is configured, and each request to Vault may fail; the copy is
read twice. -/
structure EntryEnv where
  identity : Option AuthIdentity
  (hasObjectPermission vaultMode powershellSshEnabled : Bool)
  encrypt : Option (Text → Except String Text)
  readFails : Option VaultError
  rereadFails : Bool
  writeFails : Option VaultError
  instanceName : Option Text

variable (env : EntryEnv)

def EntryEnv.authorized : Bool := env.identity.any fun id => id.hasRole "admin" || env.hasObjectPermission

def credentialFields (e : AddressBookEntry) : List (String × Option Text) :=
  [("password", e.password), ("private_key", e.privateKey), ("proxmox_token_secret", e.proxmoxTokenSecret),
    ("container_password", e.containerPassword)]

/-- The hops of the payload with what the old hop at the same position has. -/
def mergeHops (oldHops newHops : List JumpHost) : List JumpHost :=
  newHops.mapIdx fun i hop =>
    { hop with
      password := hop.password.or (oldHops[i]?.bind JumpHost.password)
      privateKey := hop.privateKey.or (oldHops[i]?.bind JumpHost.privateKey)
      hostKey := hop.hostKey.or (oldHops[i]?.bind JumpHost.hostKey) }

def mergeCredentials (payload existing : AddressBookEntry) : AddressBookEntry :=
  { payload with
    password := payload.password.or existing.password
    privateKey := payload.privateKey.or existing.privateKey
    containerPassword := payload.containerPassword.or existing.containerPassword
    proxmoxTokenSecret := payload.proxmoxTokenSecret.or existing.proxmoxTokenSecret
    jumpHosts := payload.jumpHosts.map (mergeHops (existing.jumpHosts.getD []))
    jumpPassword := none
    jumpPrivateKey := none }

def mergeMetadata (full existing : AddressBookEntry) : AddressBookEntry :=
  { full with
    domain := full.domain.or existing.domain
    jumpHosts := full.jumpHosts.or existing.jumpHosts
    displayName := full.displayName.or existing.displayName
    customFields :=
      match full.customFields, existing.customFields with
      | some new, some old => some (mergeFields old new)
      | none, some old => some old
      | fields, none => fields }

/-- A missing copy behaves like an empty one. -/
def vaultMerge (rereadFails : Bool) (payload : AddressBookEntry) : Option AddressBookEntry → AddressBookEntry
  | none => payload
  | some existing =>
    let merged := mergeCredentials payload existing
    if rereadFails then merged else mergeMetadata merged existing

def upsertOrClearCredential (encrypt : Text → Except String Text) (rows : Store Text Text) (type : String) (value : Text) :
    Except EntryError (Store Text Text) :=
  if value = [] then .ok (rows.erase type.toList)
  else
    match encrypt value with
    | .error e => .error (.internal e)
    | .ok encrypted => .ok (rows.insert type.toList encrypted)

def storeCredentials (encrypt : Text → Except String Text) : List (String × Option Text) → Store Text Text →
    Except EntryError (Store Text Text)
  | [], rows => .ok rows
  | (_, none) :: fields, rows => storeCredentials encrypt fields rows
  | (type, some value) :: fields, rows => do
    let rows ← upsertOrClearCredential encrypt rows type value
    storeCredentials encrypt fields rows

def mergedField (key : Text) (stored : Option Json) (v : Json) : Json :=
  if key = "custom_fields" then
    .object (mergeFields ((stored.bind asObject).getD []) ((asObject v).getD []))
  else v

def mergeConfig (stored payload : List (Text × Json)) : List (Text × Json) :=
  payload.foldr (fun (k, v) config => insertField config k (mergedField k (lookupField config k) v)) stored

def UpdateEntryRequest.payload (request : UpdateEntryRequest) : AddressBookEntry :=
  match request.name.filter fun n => trim n ≠ [] with
  | some name => { request.entry with displayName := some (trim name) }
  | none => request.entry

def updateCredentials (payload : AddressBookEntry) (stored : StoredEntry) : Except EntryError StoredEntry :=
  if env.vaultMode then
    match env.readFails, env.writeFails with
    | some e, _ | none, some e => .error (.vault e)
    | none, none => .ok { stored with vaultCopy := some (vaultMerge env.rereadFails payload stored.vaultCopy) }
  else
    match env.encrypt with
    | none => .ok stored
    | some encrypt => (storeCredentials encrypt (credentialFields payload) stored.credentials).map fun rows =>
      { stored with credentials := rows }

def abUpdateEntry (env : EntryEnv) (request : UpdateEntryRequest) (stored : StoredEntry) :
    Except EntryError StoredEntry :=
  let payload := request.payload
  if !env.authorized then .error (.forbidden "admin role required")
  else if payload.sessionType = "powershell" ∧ env.powershellSshEnabled = false then
    .error (.validation "PowerShell (SSH) entries are disabled by an administrator")
  else if env.vaultMode = false ∧ env.encrypt.isNone ∧ (credentialFields payload).any (·.2.isSome) then
    .error (.validation ("no [storage].encryption_key / PERSEA_STORAGE_KEY configured — " ++
      "             credentials cannot be stored; set a key first"))
  else do
    let stored ← updateCredentials env payload stored
    let config := mergeConfig stored.config (buildProtocolConfig payload)
    return { stored with
      displayName := payload.displayName.getD []
      protocol := payload.sessionType
      hostname := payload.hostname.getD []
      port := payload.port
      username := payload.username.getD []
      config := match (request.powershellBinary.map trim).filter (· ≠ []) with
        | some bin => insertField config "powershell_binary" (.string bin)
        | none => config
      allowedGroups := (request.allowedGroups.map [','].intercalate).getD stored.allowedGroups }

def resolveScopePrefix (instanceName : Option Text) (scope : Text) : Except VaultError Text :=
  if scope = "shared" then .ok "shared"
  else if scope = "instance" then
    match instanceName with
    | some name => .ok ("instance/" ++ name)
    | none => .error (.badName "no instance_name configured")
  else .error (.badName s!"invalid scope: {String.ofList scope}")

def deleteVaultCopy (scope entry : Text) (copy : Option AddressBookEntry) : Except VaultError Unit := do
  DbMigrate.validateName entry
  let _ ← resolveScopePrefix env.instanceName scope
  match env.writeFails, copy with
  | some e, _ => .error e
  | none, none => .error .notFound
  | none, some _ => .ok ()

/-- What is left of the entry; `none` if its row and credentials are gone. -/
def abDeleteEntry (scope entry : Text) (stored : StoredEntry) : Option StoredEntry × Except EntryError Unit :=
  if !env.authorized then (some stored, .error (.forbidden "admin role required"))
  else
    match if env.vaultMode then deleteVaultCopy env scope entry stored.vaultCopy else .ok () with
    | .error .notFound => (some stored, .error (.session "entry not found"))
    | .error e => (some stored, .error (.vault e))
    | .ok () => (none, .ok ())

def vaultEnv : EntryEnv where
  identity := some (.apiKey "admin")
  hasObjectPermission := false
  vaultMode := true
  powershellSshEnabled := true
  encrypt := none
  readFails := none
  rereadFails := false
  writeFails := none
  instanceName := none

def storedWith (copy : Option AddressBookEntry) : StoredEntry :=
  ⟨['n'], ['s', 's', 'h'], ['h'], none, ['u'], [], [], ∅, copy⟩

inductive HopSecret where
  | password
  | privateKey
  | hostKey

def JumpHost.secret (hop : JumpHost) : HopSecret → Option Text
  | .password => hop.password
  | .privateKey => hop.privateKey
  | .hostKey => hop.hostKey

def AddressBookEntry.hops (e : AddressBookEntry) : List JumpHost := e.jumpHosts.getD []

/-- What a hop has and the payload did not give it, a stored hop has that has its host name. -/
def SecretsStay (stored payload result : List JumpHost) : Prop :=
  ∀ (i : Nat) (hop : JumpHost), result[i]? = some hop → ∀ kind v, hop.secret kind = some v →
    (∃ new : JumpHost, payload[i]? = some new ∧ new.secret kind = some v) ∨
      ∃ old ∈ stored, old.hostname = hop.hostname ∧ old.secret kind = some v

theorem getElem?_mergeHops {old new : List JumpHost} {i : Nat} {hop : JumpHost} (h : (mergeHops old new)[i]? = some hop) :
    ∃ hop', new[i]? = some hop' ∧ hop.hostname = hop'.hostname ∧
      ∀ kind, hop.secret kind = (hop'.secret kind).or (old[i]?.bind (JumpHost.secret · kind)) := by
  rw [mergeHops, getElem?_mapIdx, map_eq_some_iff] at h
  obtain ⟨hop', hnew, rfl⟩ := h
  refine ⟨hop', hnew, rfl, fun kind => ?_⟩
  cases kind <;> rfl

theorem secretsStay_mergeHops_iff (old new : List JumpHost) :
    SecretsStay old new (mergeHops old new) ↔ ∀ (i : Nat) (hop before : JumpHost), new[i]? = some hop →
      old[i]? = some before → ∀ kind v, hop.secret kind = none → before.secret kind = some v →
        ∃ other ∈ old, other.hostname = hop.hostname ∧ other.secret kind = some v := by
  constructor
  · intro h i hop before hnew hold kind v hnone hv
    obtain ⟨merged, hmerged⟩ : ∃ merged, (mergeHops old new)[i]? = some merged := by
      rw [mergeHops, getElem?_mapIdx, hnew]
      exact ⟨_, rfl⟩
    obtain ⟨hop', hnew', hname, hsecret⟩ := getElem?_mergeHops hmerged
    obtain rfl : hop = hop' := some.inj (hnew.symm.trans hnew')
    rcases h i merged hmerged kind v (by rw [hsecret, hnone, hold]; exact hv) with ⟨new', hin, hv'⟩ | hheld
    · rw [hnew, some.injEq] at hin
      rw [← hin, hnone] at hv'
      cases hv'
    · rwa [hname] at hheld
  · intro h i merged hmerged kind v hv
    obtain ⟨hop, hnew, hname, hsecret⟩ := getElem?_mergeHops hmerged
    rw [hsecret, or_eq_some_iff] at hv
    rcases hv with hv | ⟨hnone, hv⟩
    · exact .inl ⟨hop, hnew, hv⟩
    · obtain ⟨before, hold, hv⟩ := Option.bind_eq_some_iff.mp hv
      rw [hname]
      exact .inr (h i hop before hnew hold kind v hnone hv)

variable {stored after : StoredEntry} {request : UpdateEntryRequest} {env : EntryEnv} {value : Option Json}
  {key : String}

theorem abUpdateEntry_eq_ok (h : abUpdateEntry env request stored = .ok after) :
    ∃ middle, updateCredentials env request.payload stored = .ok middle ∧ after.vaultCopy = middle.vaultCopy ∧
      after.credentials = middle.credentials ∧
      after.allowedGroups = (request.allowedGroups.map [','].intercalate).getD middle.allowedGroups ∧
      after.config = match (request.powershellBinary.map trim).filter (· ≠ []) with
        | some bin => insertField (mergeConfig middle.config (buildProtocolConfig request.payload))
          "powershell_binary" (.string bin)
        | none => mergeConfig middle.config (buildProtocolConfig request.payload) := by
  unfold abUpdateEntry at h
  dsimp only at h
  split_ifs at h
  obtain ⟨middle, hmiddle, h⟩ := Except.bind_eq_ok_iff.mp h
  cases h
  exact ⟨middle, hmiddle, rfl, rfl, rfl, rfl⟩

theorem vaultCopy_of_update (hmode : env.vaultMode)
    (h : abUpdateEntry env request stored = .ok after) :
    after.vaultCopy = some (vaultMerge env.rereadFails request.payload stored.vaultCopy) := by
  obtain ⟨middle, hmiddle, hcopy, -⟩ := abUpdateEntry_eq_ok h
  rw [updateCredentials, if_pos hmode] at hmiddle
  split at hmiddle
  · cases hmiddle
  · cases hmiddle
  · rw [hcopy, ← Except.ok.inj hmiddle]

theorem payload_eq (request : UpdateEntryRequest) :
    ∃ displayName, request.payload = { request.entry with displayName } := by
  unfold UpdateEntryRequest.payload
  split
  · exact ⟨_, rfl⟩
  · exact ⟨request.entry.displayName, rfl⟩

/-- **Secrets of jump hosts.** A hop is given a secret of another host, unless every hop that leaves out a secret which the
old hop at its position has, has the host name of an old hop with that secret. -/
theorem abUpdateEntry_secrets_stay_iff {env : EntryEnv} {request : UpdateEntryRequest} {stored after : StoredEntry}
    (hmode : env.vaultMode = true) (h : abUpdateEntry env request stored = .ok after) :
    (∃ copy, after.vaultCopy = some copy ∧
      SecretsStay (stored.vaultCopy.elim [] AddressBookEntry.hops) request.entry.hops copy.hops) ↔
    ∀ existing, stored.vaultCopy = some existing →
      ∀ (i : Nat) (hop before : JumpHost), request.entry.hops[i]? = some hop → existing.hops[i]? = some before →
        ∀ kind v, hop.secret kind = none → before.secret kind = some v →
          ∃ other ∈ existing.hops, other.hostname = hop.hostname ∧ other.secret kind = some v := by
  obtain ⟨displayName, hpayload⟩ := payload_eq request
  simp only [vaultCopy_of_update hmode h, some.injEq, exists_eq_left']
  cases hcopy : stored.vaultCopy with
  | none =>
    rw [vaultMerge, hpayload]
    exact iff_of_true (fun i hop hhop kind v hv => .inl ⟨hop, hhop, hv⟩) (by simp)
  | some existing =>
    simp only [some.injEq, forall_eq', elim_some]
    cases hhops : request.entry.jumpHosts with
    | none =>
      refine iff_of_true (fun i hop hhop kind v hv => .inr ⟨hop, ?_, rfl, hv⟩) ?_
      · have hin := mem_of_getElem? hhop
        rw [vaultMerge, hpayload] at hin
        split_ifs at hin
        · simp [mergeCredentials, AddressBookEntry.hops, hhops] at hin
        · simpa [mergeMetadata, mergeCredentials, AddressBookEntry.hops, hhops] using hin
      · simp [AddressBookEntry.hops, hhops]
    | some new =>
      have hmerged : (vaultMerge env.rereadFails request.payload (some existing)).hops = mergeHops existing.hops new := by
        rw [vaultMerge, hpayload]
        split_ifs <;> simp [mergeMetadata, mergeCredentials, AddressBookEntry.hops, hhops]
      have hnew : request.entry.hops = new := by rw [AddressBookEntry.hops, hhops]; rfl
      rw [hmerged, hnew]
      exact secretsStay_mergeHops_iff existing.hops new

def tunnelled (first second : Text) (withPasswords : Bool) : AddressBookEntry :=
  { sessionType := ['s', 's', 'h']
    jumpHosts := some [⟨first, 22, [], if withPasswords then some ['p'] else none, none, none⟩,
      ⟨second, 22, [], if withPasswords then some ['q'] else none, none, none⟩] }

theorem abUpdateEntry_keeps_order : ∃ after copy, abUpdateEntry vaultEnv { entry := tunnelled ['a'] ['b'] false }
        (storedWith (some (tunnelled ['a'] ['b'] true))) = .ok after ∧ after.vaultCopy = some copy ∧
      SecretsStay (tunnelled ['a'] ['b'] true).hops (tunnelled ['a'] ['b'] false).hops copy.hops := by
  refine ⟨_, _, rfl, (@abUpdateEntry_secrets_stay_iff vaultEnv { entry := tunnelled ['a'] ['b'] false }
    (storedWith (some (tunnelled ['a'] ['b'] true))) _ rfl rfl).mpr ?_ |>.choose_spec⟩
  rintro _ ⟨⟩ i hop before hhop hbefore kind v - hv
  refine ⟨before, mem_of_getElem? hbefore, ?_, hv⟩
  match i with
  | 0 | 1 => rw [← some.inj hhop, ← some.inj hbefore]
  | i + 2 => cases hhop

/-- **Exchanged hops.** Each host gets the password of the other one. -/
theorem abUpdateEntry_exchanges_passwords :
    ∃ after copy, abUpdateEntry vaultEnv { entry := tunnelled ['b'] ['a'] false }
        (storedWith (some (tunnelled ['a'] ['b'] true))) = .ok after ∧ after.vaultCopy = some copy ∧
      copy.hops.map (fun hop => (hop.hostname, hop.password)) = [(['b'], some ['p']), (['a'], some ['q'])] :=
  ⟨_, _, rfl, rfl, rfl⟩

/-! ### Fields that are left out -/

theorem keys_present_sublist (fields : List (String × Option Json)) :
    ((present fields).map Prod.fst).Sublist (fields.map fun field => field.1.toList) := by
  induction fields with
  | nil => exact List.Sublist.slnil
  | cons field fields ih =>
    obtain ⟨key, - | v⟩ := field
    · exact ih.cons _
    · exact ih.cons_cons _

theorem lookupField_present {fields : List (String × Option Json)}
    (hkeys : (fields.map fun field => field.1.toList).Nodup) (h : (key, value) ∈ fields) :
    lookupField (present fields) key.toList = value := by
  induction fields with
  | nil => cases h
  | cons field fields ih =>
    rw [map_cons, nodup_cons] at hkeys
    rcases mem_cons.mp h with rfl | hin
    · have hnone := lookupField_eq_none fun hmem => hkeys.1 ((keys_present_sublist fields).subset hmem)
      cases value with
      | none => exact hnone
      | some v => exact (lookupField_cons _ _ _).trans (if_pos rfl)
    · have hne : field.1.toList ≠ key.toList := fun heq => hkeys.1 (heq ▸ List.mem_map.mpr ⟨_, hin, rfl⟩)
      obtain ⟨name, - | v⟩ := field
      · exact ih hkeys.2 hin
      · exact ((lookupField_cons _ _ _).trans (if_neg hne)).trans (ih hkeys.2 hin)

theorem nodup_configFields (e : AddressBookEntry) :
    ("powershell_binary".toList :: (configFields e).map fun field => field.1.toList).Nodup := by
  change ("powershell_binary".toList :: (configFields { sessionType := [] }).map fun field => field.1.toList).Nodup
  decide +kernel

theorem lookupField_mergeConfig (stored : List (Text × Json)) {payload : List (Text × Json)}
    (hkeys : (payload.map Prod.fst).Nodup) (key : Text) :
    lookupField (mergeConfig stored payload) key =
      ((lookupField payload key).map (mergedField key (lookupField stored key))).or (lookupField stored key) := by
  induction payload with
  | nil => rfl
  | cons field payload ih =>
    rw [map_cons, nodup_cons] at hkeys
    refine (lookupField_insertField (mergeConfig stored payload) field.1 _ key).trans ?_
    rw [lookupField_cons]
    split_ifs with h
    · subst h
      have hstored := ih hkeys.2
      rw [lookupField_eq_none hkeys.1] at hstored
      exact congrArg (fun old => some (mergedField field.1 old field.2)) hstored
    · exact ih hkeys.2

variable {encrypt : Text → Except String Text}

/-- What a field of a payload makes of a credential row. -/
def CredentialAfter (encrypt : Text → Except String Text) (before : Option Text) : Option Text → Option Text → Prop
  | none, after => after = before
  | some v, after => if v = [] then after = none else ∃ encrypted, encrypt v = .ok encrypted ∧ after = some encrypted

theorem upsertOrClearCredential_spec {rows rows' : Store Text Text} {type : String} {v : Text}
    (h : upsertOrClearCredential encrypt rows type v = .ok rows') :
    CredentialAfter encrypt (rows.lookup type.toList) (some v) (rows'.lookup type.toList) ∧
      ∀ other ≠ type.toList, rows'.lookup other = rows.lookup other := by
  unfold upsertOrClearCredential at h
  simp only [CredentialAfter]
  split_ifs at h ⊢
  · cases h
    exact ⟨AList.lookup_erase _ _, fun other hne => AList.lookup_erase_ne hne⟩
  · split at h
    · cases h
    · rename_i encrypted hencrypted
      cases h
      exact ⟨⟨encrypted, hencrypted, AList.lookup_insert _⟩, fun other hne => AList.lookup_insert_ne hne⟩

theorem storeCredentials_spec {fields : List (String × Option Text)} {rows rows' : Store Text Text}
    (hkeys : (fields.map fun field => field.1.toList).Nodup) (h : storeCredentials encrypt fields rows = .ok rows') :
    (∀ field ∈ fields, CredentialAfter encrypt (rows.lookup field.1.toList) field.2 (rows'.lookup field.1.toList)) ∧
      ∀ key ∉ fields.map fun field => field.1.toList, rows'.lookup key = rows.lookup key := by
  induction fields generalizing rows with
  | nil =>
    cases h
    simp
  | cons field fields ih =>
    rw [map_cons, nodup_cons] at hkeys
    obtain ⟨type, - | v⟩ := field
    · obtain ⟨hfields, hothers⟩ := ih hkeys.2 h
      rw [forall_mem_cons]
      exact ⟨⟨hothers _ hkeys.1, hfields⟩, fun key hkey => hothers key fun hin => hkey (mem_cons_of_mem _ hin)⟩
    · obtain ⟨middle, hmiddle, h⟩ := Except.bind_eq_ok_iff.mp h
      obtain ⟨hself, hframe⟩ := upsertOrClearCredential_spec hmiddle
      obtain ⟨hfields, hothers⟩ := ih hkeys.2 h
      rw [forall_mem_cons]
      refine ⟨⟨?_, fun field hfield => ?_⟩, fun key hkey => ?_⟩
      · rw [hothers _ hkeys.1]
        exact hself
      · rw [← hframe _ fun heq => hkeys.1 (heq ▸ List.mem_map_of_mem hfield)]
        exact hfields field hfield
      · rw [map_cons, mem_cons, not_or] at hkey
        rw [hothers key hkey.2, hframe key hkey.1]

def customValue (config : List (Text × Json)) (name : Text) : Option Json :=
  ((getField config "custom_fields").bind asObject).bind (lookupField · name)

theorem updateCredentials_frame {payload : AddressBookEntry}
    (h : updateCredentials env payload stored = .ok after) :
    after.config = stored.config ∧ after.allowedGroups = stored.allowedGroups ∧
      (env.vaultMode = false → ∀ encrypt, env.encrypt = some encrypt →
        storeCredentials encrypt (credentialFields payload) stored.credentials = .ok after.credentials) := by
  unfold updateCredentials at h
  split_ifs at h with hmode
  · split at h
    · cases h
    · cases h
    · cases h
      exact ⟨rfl, rfl, fun hdb => absurd hmode (by simp [hdb])⟩
  · split at h
    · rename_i hkey
      cases h
      exact ⟨rfl, rfl, fun _ encrypt hsome => absurd hsome (by simp [hkey])⟩
    · rename_i encrypt hkey
      cases hrows : storeCredentials encrypt (credentialFields payload) stored.credentials with
      | error e =>
        rw [hrows] at h
        cases h
      | ok rows =>
        rw [hrows] at h
        cases h
        refine ⟨rfl, rfl, fun _ encrypt' hsome => ?_⟩
        rwa [← some.inj (hkey.symm.trans hsome)]

theorem lookupField_update (h : abUpdateEntry env request stored = .ok after)
    (hkey : (key, value) ∈ configFields request.entry) :
    lookupField after.config key.toList = (value.map (mergedField key.toList (lookupField stored.config key.toList))).or
      (lookupField stored.config key.toList) := by
  obtain ⟨middle, hmiddle, -, -, -, hconfig⟩ := abUpdateEntry_eq_ok h
  obtain ⟨displayName, hpayload⟩ := payload_eq request
  obtain ⟨hpowershell, hkeys⟩ := nodup_cons.mp (nodup_configFields request.entry)
  have hbuild : buildProtocolConfig request.payload = present (configFields request.entry) := by
    rw [hpayload]
    rfl
  have hne : "powershell_binary".toList ≠ key.toList :=
    fun heq => hpowershell (heq ▸ List.mem_map_of_mem (f := fun field => field.1.toList) hkey)
  have hlookup : lookupField after.config key.toList =
      lookupField (mergeConfig stored.config (present (configFields request.entry))) key.toList := by
    rw [hconfig, (updateCredentials_frame hmiddle).1, hbuild]
    split
    · rw [lookupField_insertField, if_neg hne]
    · rfl
  rw [hlookup, lookupField_mergeConfig _ ((keys_present_sublist _).nodup hkeys), lookupField_present hkeys hkey]

theorem lookupField_texts (fields : List (Text × Text)) (name : Text) :
    lookupField (fields.map fun field => (field.1, Json.string field.2)) name = (lookupField fields name).map .string := by
  induction fields with
  | nil => rfl
  | cons field fields ih =>
    rw [map_cons, lookupField_cons, lookupField_cons, ih]
    split_ifs <;> rfl

end Persea.AddressBook
