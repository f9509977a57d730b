import Persea.DbMigrate

/-! `vault-migrate`: the folders of a scope, their entries and the credentials of the users are copied from one Vault to
another. Some of the requests that fail are counted, others are only warned about. -/

namespace Persea.VaultMigrate

open Base Base.Text Vault DbMigrate AddressBook List Function

inductive Secret where
  | config (path : Text)
  | entry (path name : Text)
  | user (key : Text)
deriving DecidableEq, Repr

def Secret.isEntry : Secret → Bool
  | .entry _ _ => true
  | _ => false

inductive Value where
  | config (config : FolderConfig)
  | entry (entry : AddressBookEntry)
  | user (creds : Credentials)

/-- The two backends: what the source holds, which of its requests fail (of the users: of their keys, or of one secret),
and which writes and probes of the destination do. -/
structure Backends where
  content : Content
  users : Store Text Credentials
  readFails : Read → Option VaultError
  userFails : Option Text → Option VaultError
  writeFails : Secret → Option VaultError
  probeFails : Secret → Bool

/-- The secrets of the destination. -/
abbrev Destination := Secret → Option Value

namespace Backends

variable (b : Backends)

def read : Secret → Except VaultError Value
  | .config path => (readConfig b.content b.readFails path).map .config
  | .entry path name => (attempt (b.readFails (.entry path name)) (getEntry b.content path name)).map .entry
  | .user key => (attempt (b.userFails (some key)) (.ok ((b.users.lookup key).getD ∅))).map .user

/-- The checks of the client before a write. -/
def accepts : Secret → Except VaultError Unit
  | .config path => validatePath path
  | .entry path name => do
    validatePath path
    validateName name
  | .user _ => .ok ()

variable (overwrite dryRun : Bool)

/-- The destination and the number of failures. That the secret of a folder or of a user cannot be read is no failure. -/
def copy (state : Destination × Nat) (secret : Secret) : Destination × Nat :=
  if secret.isEntry && !overwrite && !dryRun && !b.probeFails secret && (state.1 secret).isSome then state
  else
    match b.read secret with
    | .error _ => (state.1, if secret.isEntry then state.2 + 1 else state.2)
    | .ok value =>
      if dryRun then state
      else
        match do accepts secret; attempt (b.writeFails secret) (.ok ()) with
        | .error _ => (state.1, state.2 + 1)
        | .ok () => (Function.update state.1 secret (some value), state.2)

def folderSecrets (path : Text) : List Secret :=
  .config path ::
    ((attempt (b.readFails (.entries path)) (listEntries b.content path)).toOption.getD []).map (.entry path)

def userSecrets : List Secret := if (b.userFails none).isSome then [] else b.users.keys.map .user

/-- `none` is a command that has not ended. -/
def cmdVaultMigrate (includeUsers : Bool) (fuel : Nat) (dst : Destination) :
    Option (Except VaultError (Destination × Nat)) :=
  match listFoldersInScope b.content b.readFails with
  | .error e => some (.error e)
  | .ok top => (Worklist.run (subfolderPaths b.content b.readFails) fuel top 0).map fun folderPaths =>
    .ok ((folderPaths.flatMap b.folderSecrets ++ if includeUsers then b.userSecrets else []).foldl
      (b.copy overwrite dryRun) (dst, 0))

/-! ### What is copied -/

def source : Secret → Option Value
  | .config path => (b.content.config path).toOption.map .config
  | .entry path name => (b.content.entry path name).toOption.map .entry
  | .user key => (b.users.lookup key).map .user

/-- The folders that exist in the source. -/
inductive Folder (content : Content) : Text → Prop
  | top {keys : List Text} {name : Text} (hkeys : content.list [] = .ok keys) (hname : name ++ ['/'] ∈ keys) :
    Folder content name
  | sub {path : Text} {keys : List Text} {name : Text} (hpath : Folder content path)
    (hkeys : content.list path = .ok keys) (hname : name ++ ['/'] ∈ keys) : Folder content (path ++ '/' :: name)

def Exists : Secret → Prop
  | .config path => Folder b.content path
  | .entry path name => Folder b.content path ∧ name ≠ ".config" ∧ ∃ keys, b.content.list path = .ok keys ∧ name ∈ keys
  | .user _ => True

/-- None of the requests whose failures are not counted fails. -/
def Readable : Prop :=
  b.readFails .top ≠ some .notFound ∧ (∀ path, Folder b.content path → validatePath path = .ok () ∧ b.readFails (.subfolders path) = none ∧
    b.readFails (.config path) = none ∧ b.readFails (.entries path) = none) ∧ ∀ user, b.userFails user = none

variable {b}

theorem source_of_read {secret : Secret} {value value' : Value} (hread : b.read secret = .ok value)
    (hsource : b.source secret = some value') : value = value' := by
  revert hread hsource
  cases secret with
  | config path =>
    simp only [read, source, readConfig, getFolderConfig]
    cases b.readFails (.config path) <;> cases validatePath path <;> cases b.content.config path <;>
      simp +contextual [attempt, bind, Except.bind, Except.map, Except.toOption, eq_comm]
  | entry path name =>
    simp only [read, source, getEntry]
    cases b.readFails (.entry path name) <;> cases validatePath path <;> cases validateName name <;>
      cases b.content.entry path name <;> simp +contextual [attempt, bind, Except.bind, Except.map, Except.toOption, eq_comm]
  | user key =>
    simp only [read, source]
    cases b.userFails (some key) <;> cases b.users.lookup key <;> simp +contextual [attempt, Except.map, eq_comm]

section Copy

variable {secret other : Secret} {value : Value} {state : Destination × Nat}

theorem copy_cases (state : Destination × Nat) (secret : Secret) :
    (b.copy true false state secret = (state.1, state.2 + 1)) ∨
    (b.copy true false state secret = state ∧ secret.isEntry = false ∧ ∃ e, b.read secret = .error e) ∨
    ∃ value, b.read secret = .ok value ∧
      b.copy true false state secret = (Function.update state.1 secret (some value), state.2) := by
  unfold copy
  cases hread : b.read secret with
  | error e => cases hentry : secret.isEntry <;> simp
  | ok value =>
    simp only [Bool.not_true, Bool.and_false, Bool.false_and, Bool.false_eq_true, if_false]
    cases (do accepts secret; attempt (b.writeFails secret) (.ok ())) <;> simp

theorem copy_keeps (state : Destination × Nat) (secret : Secret) :
    state.2 ≤ (b.copy true false state secret).2 ∧ ∀ other value, b.source other = some value →
      state.1 other = some value → (b.copy true false state secret).1 other = some value := by
  rcases b.copy_cases state secret with h | ⟨h, -⟩ | ⟨value, hread, h⟩
  · rw [h]
    exact ⟨Nat.le_succ _, fun _ _ _ hvalue => hvalue⟩
  · rw [h]
    exact ⟨Nat.le_refl _, fun _ _ _ hvalue => hvalue⟩
  · rw [h]
    refine ⟨Nat.le_refl _, fun other value' hsource hvalue => ?_⟩
    by_cases heq : other = secret
    · rw [heq] at hsource ⊢
      exact (update_self ..).trans (congrArg some (source_of_read hread hsource))
    · exact (update_of_ne heq ..).trans hvalue

theorem foldl_copy_keeps (secrets : List Secret) (state : Destination × Nat) :
    state.2 ≤ (secrets.foldl (b.copy true false) state).2 ∧ ∀ other value, b.source other = some value →
      state.1 other = some value → (secrets.foldl (b.copy true false) state).1 other = some value := by
  induction secrets generalizing state with
  | nil => exact ⟨Nat.le_refl _, fun _ _ _ hvalue => hvalue⟩
  | cons secret secrets ih =>
    obtain ⟨hle, hkeeps⟩ := b.copy_keeps state secret
    obtain ⟨hle', hkeeps'⟩ := ih (b.copy true false state secret)
    exact ⟨hle.trans hle', fun other value hsource hvalue => hkeeps' other value hsource (hkeeps other value hsource hvalue)⟩

theorem foldl_copy_complete {secrets : List Secret} (hzero : (secrets.foldl (b.copy true false) state).2 = state.2)
    (hin : secret ∈ secrets) (hsource : b.source secret = some value)
    (hread : secret.isEntry = false → ∃ value, b.read secret = .ok value) :
    (secrets.foldl (b.copy true false) state).1 secret = some value := by
  induction secrets generalizing state with
  | nil => cases hin
  | cons first secrets ih =>
    have hle := (b.copy_keeps state first).1
    obtain ⟨hle', hkeeps⟩ := b.foldl_copy_keeps secrets (b.copy true false state first)
    rw [foldl_cons] at hzero ⊢
    have hsame : (b.copy true false state first).2 = state.2 := Nat.le_antisymm (hzero ▸ hle') hle
    rcases mem_cons.mp hin with rfl | hin
    · refine hkeeps secret value hsource ?_
      rcases b.copy_cases state secret with h | ⟨-, hentry, e, herror⟩ | ⟨value', hvalue, h⟩
      · rw [h] at hsame
        exact absurd hsame (Nat.succ_ne_self _)
      · obtain ⟨value, hvalue⟩ := hread hentry
        rw [hvalue] at herror
        cases herror
      · rw [h, source_of_read hvalue hsource]
        exact update_self ..
    · exact ih (hzero.trans hsame.symm) hin

end Copy

theorem folder_mem_of_run (hreadable : b.Readable) {top folderPaths : List Text} {fuel : Nat}
    (htop : listFoldersInScope b.content b.readFails = .ok top)
    (hrun : Worklist.run (subfolderPaths b.content b.readFails) fuel top 0 = some folderPaths) {path : Text}
    (hpath : Folder b.content path) : path ∈ folderPaths := by
  have hfolderName : ∀ name, folderName (name ++ ['/']) = some name := by
    intro name
    rw [folderName, if_pos (by simp), dropLast_concat]
  obtain ⟨hsub, hclosed⟩ := Worklist.closed_run hrun (by simp)
  induction hpath with
  | @top keys name hkeys hname =>
    refine hsub ?_
    rw [listFoldersInScope, hkeys] at htop
    cases hfails : b.readFails .top with
    | none =>
      rw [hfails] at htop
      rw [← Except.ok.inj htop]
      exact mem_filterMap.mpr ⟨_, hname, hfolderName name⟩
    | some e =>
      rw [hfails] at htop
      cases e <;> first | exact absurd hfails hreadable.1 | cases htop
  | @sub path keys name hpath hkeys hname ih =>
    refine hclosed path ih _ ?_
    obtain ⟨hvalid, hfails, -⟩ := hreadable.2.1 path hpath
    have hlist : attempt (b.readFails (.subfolders path)) (listChildren b.content path) = .ok keys := by
      rw [hfails, attempt, listChildren, hvalid]
      exact hkeys
    rw [subfolderPaths, hlist]
    exact mem_filterMap.mpr ⟨_, hname, by rw [hfolderName]; rfl⟩

theorem mem_secrets (hreadable : b.Readable) {folderPaths : List Text}
    (hfolders : ∀ path, Folder b.content path → path ∈ folderPaths) {secret : Secret} {value : Value}
    (hexists : b.Exists secret) (hsource : b.source secret = some value) :
    secret ∈ folderPaths.flatMap b.folderSecrets ++ b.userSecrets ∧
      (secret.isEntry = false → ∃ value, b.read secret = .ok value) := by
  rw [mem_append, mem_flatMap]
  cases secret with
  | config path =>
    obtain ⟨hvalid, -, hfails, -⟩ := hreadable.2.1 path hexists
    refine ⟨.inl ⟨path, hfolders path hexists, mem_cons_self⟩, fun _ => ?_⟩
    simp only [source] at hsource
    cases hconfig : b.content.config path with
    | error e =>
      rw [hconfig] at hsource
      cases hsource
    | ok config => exact ⟨.config config, by rw [read, readConfig, hfails, attempt, getFolderConfig, hvalid, hconfig]; rfl⟩
  | entry path name =>
    obtain ⟨hpath, hname, keys, hkeys, hin⟩ := hexists
    obtain ⟨hvalid, -, -, hfails⟩ := hreadable.2.1 path hpath
    refine ⟨.inl ⟨path, hfolders path hpath, mem_cons_of_mem _ (List.mem_map_of_mem ?_)⟩, fun h => nomatch h⟩
    have hlist : attempt (b.readFails (.entries path)) (listEntries b.content path) =
        .ok (keys.filter (· ≠ ".config")) := by
      rw [hfails, attempt, listEntries, hvalid, hkeys]
      rfl
    rw [hlist]
    exact mem_filter.mpr ⟨hin, decide_eq_true hname⟩
  | user key =>
    obtain ⟨creds, hcreds, -⟩ := Option.map_eq_some_iff.mp hsource
    refine ⟨.inr ?_, fun _ => ⟨_, by rw [read, hreadable.2.2]; rfl⟩⟩
    rw [userSecrets, hreadable.2.2 none]
    exact List.mem_map_of_mem (AList.mem_keys.mp (AList.lookup_isSome.mp (by rw [hcreds]; rfl)))

def oneFolderBackends (readFails : Read → Option VaultError) : Backends where
  content := oneFolder
  users := ∅
  readFails := readFails
  userFails _ := none
  writeFails _ := none
  probeFails _ := false

end Backends

end Persea.VaultMigrate
