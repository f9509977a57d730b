import Persea.ProtocolInstruction

/-! The settings of the admin page over those of the configuration file: `apply_db_settings` goes through the rows of the
settings table in the order in which the database returns them. -/

namespace Persea.SettingsMerge

open Base Protocol List

structure TlsConfig where
  (certPath keyPath guacdCertPath : Option String := none)
  secureCookies : Bool := false
deriving DecidableEq, Repr

structure StorageConfig where
  backend : String := "db"
  encryptionKey : Option String := none
deriving DecidableEq, Repr

structure ThemeConfig where
  (logoUrl primaryColor : Option String := none)
deriving DecidableEq, Repr

structure VdiConfig where
  enabled : Bool := false
deriving DecidableEq, Repr

/-- What the settings read or change; the other fields stay as they are. -/
structure Config where
  (listenAddr guacdAddr siteTitle : String)
  (sessionMaxDurationSecs maxSessions sessionHistoryRetentionDays : Nat)
  tls : Option TlsConfig := none
  vdi : Option VdiConfig := none
  storage : Option StorageConfig := none
  theme : Option ThemeConfig := none
  hasVault : Bool := false
deriving DecidableEq, Repr

inductive Key where
  | listenAddr | guacdAddr | tlsCertPath | tlsKeyPath | sessionMaxDurationSecs | maxConcurrentSessions
  | sessionHistoryRetentionDays | enableVdi | vaultEnabled | dbOnlyMode | siteTitle | logoUrl | primaryColor
  | other (name : String)
deriving DecidableEq, Repr

def nonEmpty (value old : String) : String := if value = "" then old else value

/-- One row. A guard that fails leaves the field as it is. -/
def applySetting (c : Config) (row : Key × String) : Config :=
  let value := row.2
  match row.1 with
  | .listenAddr => { c with listenAddr := nonEmpty value c.listenAddr }
  | .guacdAddr => { c with guacdAddr := nonEmpty value c.guacdAddr }
  | .tlsCertPath => { c with tls := if value = "" then c.tls else some { c.tls.getD {} with certPath := value } }
  | .tlsKeyPath => { c with tls := if value = "" then c.tls else some { c.tls.getD {} with keyPath := value } }
  | .sessionMaxDurationSecs => { c with sessionMaxDurationSecs := (parseUsize value).getD c.sessionMaxDurationSecs }
  | .maxConcurrentSessions => { c with maxSessions := (parseUsize value).getD c.maxSessions }
  | .sessionHistoryRetentionDays =>
    { c with sessionHistoryRetentionDays := (parseU32 value).getD c.sessionHistoryRetentionDays }
  | .enableVdi =>
    { c with vdi := if value = "true" then some { c.vdi.getD {} with enabled := true }
      else c.vdi.map ({ · with enabled := false }) }
  | .vaultEnabled =>
    { c with storage := if value = "true" ∧ c.hasVault then some { c.storage.getD {} with backend := "vault" }
      else c.storage }
  | .dbOnlyMode =>
    { c with storage := if value = "true" then some { c.storage.getD {} with backend := "db" } else c.storage }
  | .siteTitle => { c with siteTitle := nonEmpty value c.siteTitle }
  | .logoUrl => { c with theme := some { c.theme.getD {} with logoUrl := value } }
  | .primaryColor =>
    { c with theme := if value = "" then c.theme else some { c.theme.getD {} with primaryColor := value } }
  | .other _ => c

def applyDbSettings (c : Config) (settings : List (Key × String)) : Config := settings.foldl applySetting c

variable {c : Config} {settings : List (Key × String)}

/-- Vault is switched on, and so is its opposite. -/
def Clash (c : Config) (settings : List (Key × String)) : Prop :=
  c.hasVault = true ∧ (Key.vaultEnabled, "true") ∈ settings ∧ (Key.dbOnlyMode, "true") ∈ settings

instance : Decidable (Clash c settings) := inferInstanceAs (Decidable (_ ∧ _ ∧ _))

theorem hasVault_applySetting (c : Config) (row : Key × String) : (applySetting c row).hasVault = c.hasVault := by
  obtain ⟨key, value⟩ := row
  cases key <;> rfl

theorem hasVault_applyDbSettings (c : Config) (settings : List (Key × String)) :
    (applyDbSettings c settings).hasVault = c.hasVault := by
  induction settings generalizing c with
  | nil => rfl
  | cons row settings ih => exact (ih _).trans (hasVault_applySetting c row)

theorem applySetting_comm {p q : Key × String} (hkey : p.1 ≠ q.1) (h : ¬Clash c [p, q]) :
    applySetting (applySetting c p) q = applySetting (applySetting c q) p := by
  obtain ⟨k, v⟩ := p
  obtain ⟨l, w⟩ := q
  cases k <;> cases l
  -- changes to different parts of the configuration commute by computation; three parts have two settings
  all_goals first | rfl | exact absurd rfl hkey | simp only [applySetting]
  case tlsCertPath.tlsKeyPath | tlsKeyPath.tlsCertPath | logoUrl.primaryColor | primaryColor.logoUrl =>
    split_ifs <;> rfl
  case vaultEnabled.dbOnlyMode | dbOnlyMode.vaultEnabled =>
    have hstorage : ¬(c.hasVault ∧ v = "true" ∧ w = "true") := by
      rintro ⟨hvault, rfl, rfl⟩
      exact h ⟨hvault, by simp, by simp⟩
    split_ifs <;> first | rfl | tauto

theorem applyDbSettings_pair (c : Config) (settings : List (Key × String)) (p q : Key × String) :
    applyDbSettings c (settings ++ [p, q]) = applySetting (applySetting (applyDbSettings c settings) p) q :=
  foldl_append ..

theorem backend_last (hvault : c.hasVault) (settings : List (Key × String)) :
    (applyDbSettings c (settings ++ [(.dbOnlyMode, "true"), (.vaultEnabled, "true")])).storage.map StorageConfig.backend =
        some "vault" ∧
      (applyDbSettings c (settings ++ [(.vaultEnabled, "true"), (.dbOnlyMode, "true")])).storage.map
        StorageConfig.backend = some "db" := by
  have hkept := (hasVault_applyDbSettings c settings).trans hvault
  rw [applyDbSettings_pair, applyDbSettings_pair]
  simp [applySetting, hkept]

theorem applyDbSettings_perm {rows : List (Key × String)} (h : rows.Perm settings) (c : Config)
    (hkeys : (rows.map Prod.fst).Nodup) (hclash : ¬Clash c rows) :
    applyDbSettings c rows = applyDbSettings c settings := by
  induction h generalizing c with
  | nil => rfl
  | cons row _ ih =>
    refine ih _ (nodup_cons.mp hkeys).2 fun ⟨hvault, hon, hoff⟩ => hclash ⟨?_, mem_cons_of_mem _ hon, mem_cons_of_mem _ hoff⟩
    rw [← hvault, hasVault_applySetting]
  | swap p q rows =>
    have hpair : ¬Clash c [q, p] := fun ⟨hvault, hon, hoff⟩ =>
      hclash ⟨hvault, mem_append_left rows hon, mem_append_left rows hoff⟩
    have hne : q.1 ≠ p.1 := fun heq => (nodup_cons.mp hkeys).1 (heq ▸ mem_cons_self)
    exact congrArg (applyDbSettings · rows) (applySetting_comm hne hpair)
  | trans hfirst _ ih ih' =>
    rw [ih c hkeys hclash]
    refine ih' c ((hfirst.map Prod.fst).nodup_iff.mp hkeys) fun ⟨hvault, hon, hoff⟩ => hclash ⟨hvault, ?_, ?_⟩
    · exact hfirst.mem_iff.mpr hon
    · exact hfirst.mem_iff.mpr hoff

/-- **The order of the rows** makes no difference exactly when Vault is not both switched on and off. -/
theorem applyDbSettings_order_iff (c : Config) (hkeys : (settings.map Prod.fst).Nodup) :
    (∀ rows, rows.Perm settings → applyDbSettings c rows = applyDbSettings c settings) ↔ ¬Clash c settings := by
  constructor
  · rintro horder ⟨hvault, hon, hoff⟩
    have hoff' : (Key.dbOnlyMode, "true") ∈ settings.erase (.vaultEnabled, "true") :=
      (mem_erase_of_ne (by decide)).mpr hoff
    have hperm := (perm_cons_erase hon).trans ((perm_cons_erase hoff').cons _)
    obtain ⟨hlast, hlast'⟩ := backend_last hvault ((settings.erase (.vaultEnabled, "true")).erase (.dbOnlyMode, "true"))
    rw [horder _ (perm_append_comm.trans (hperm.trans (Perm.swap ..)).symm)] at hlast
    rw [horder _ (perm_append_comm.trans hperm.symm), hlast] at hlast'
    exact absurd hlast' (by decide)
  · intro hclash rows hperm
    exact (applyDbSettings_perm hperm.symm c hkeys hclash).symm

def fileConfig : Config where
  listenAddr := "0.0.0.0:8089"
  guacdAddr := "127.0.0.1:4822"
  siteTitle := "persea"
  sessionMaxDurationSecs := 28800
  maxSessions := 100
  sessionHistoryRetentionDays := 90
  hasVault := true

theorem applyDbSettings_order_tls :
    applyDbSettings fileConfig [(.tlsKeyPath, "key.pem"), (.dbOnlyMode, "true"), (.tlsCertPath, "cert.pem")] =
      applyDbSettings fileConfig [(.tlsCertPath, "cert.pem"), (.tlsKeyPath, "key.pem"), (.dbOnlyMode, "true")] :=
  (applyDbSettings_order_iff fileConfig (by decide)).mpr (by decide) _ (by decide)

theorem applyDbSettings_order_matters : applyDbSettings fileConfig [(.vaultEnabled, "true"), (.dbOnlyMode, "true")] ≠
      applyDbSettings fileConfig [(.dbOnlyMode, "true"), (.vaultEnabled, "true")] := by decide

end Persea.SettingsMerge
