import Persea.AuthIdentity
import Persea.BaseJson
import Persea.VaultKeys

/-! The credential variables of a user in two stores. A request names variables and the store of each;
`partition_credential_writes` makes the new content of both stores, which are then written one after the other. -/

namespace Persea.Vault

open Base Base.Text Base.Json Auth Option

structure UserStores where
  localMap : Credentials
  sharedMap : Credentials

def toShared (scopes : Credentials) (defaultScope : Text) (split : Bool) (name : Text) : Bool :=
  split && (scopes.lookup name).getD defaultScope = "shared"

def UserStores.partitionStep (shared : Text → Bool) (stores : UserStores) (name val : Text) : UserStores :=
  let value := if val ≠ [] then val
    else ((stores.localMap.lookup name).or (stores.sharedMap.lookup name)).getD []
  if value = [] then ⟨stores.localMap.erase name, stores.sharedMap.erase name⟩
  else if shared name then ⟨stores.localMap.erase name, stores.sharedMap.insert name value⟩
  else ⟨stores.localMap.insert name value, stores.sharedMap.erase name⟩

/-- The entries of `incoming` are in the order of the iteration. -/
def partitionCredentialWrites (existing : UserStores) (incoming scopes : Credentials) (defaultScope : Text)
    (split : Bool) : UserStores :=
  incoming.entries.foldl (fun stores e => stores.partitionStep (toShared scopes defaultScope split) e.1 e.2) existing

def UserStores.values (stores : UserStores) (name : Text) : Option Text × Option Text :=
  (stores.localMap.lookup name, stores.sharedMap.lookup name)

def newValue (stored : Option Text × Option Text) (val : Text) : Text :=
  if val ≠ [] then val else (stored.1.or stored.2).getD []

def placed (shared : Bool) (value : Text) : Option Text × Option Text :=
  if value = [] then (none, none) else if shared then (none, some value) else (some value, none)

variable {shared : Text → Bool}

variable (stores : UserStores) (incoming scopes : Credentials) (defaultScope : Text)

theorem values_partitionStep_self (name val : Text) :
    (stores.partitionStep shared name val).values name = placed (shared name) (newValue (stores.values name) val) := by
  unfold UserStores.partitionStep placed
  change UserStores.values (if newValue (stores.values name) val = [] then _ else if shared name then
    ⟨_, stores.sharedMap.insert name (newValue (stores.values name) val)⟩
    else ⟨stores.localMap.insert name (newValue (stores.values name) val), _⟩) name = _
  split_ifs <;> simp [UserStores.values]

theorem values_partitionStep_ne {name other : Text} (hne : other ≠ name) (val : Text) :
    (stores.partitionStep shared name val).values other = stores.values other := by
  unfold UserStores.partitionStep
  dsimp only
  split_ifs <;> simp [UserStores.values, AList.lookup_erase_ne hne, AList.lookup_insert_ne hne]

theorem values_foldl {entries : List (Sigma fun _ : Text => Text)} (hkeys : entries.NodupKeys) (stores : UserStores)
    (name : Text) :
    (entries.foldl (fun stores e => stores.partitionStep shared e.1 e.2) stores).values name =
      match entries.dlookup name with
      | none => stores.values name
      | some val => placed (shared name) (newValue (stores.values name) val) := by
  induction entries generalizing stores with
  | nil => rfl
  | cons e entries ih =>
    obtain ⟨key, val⟩ := e
    rw [List.nodupKeys_cons] at hkeys
    rw [List.foldl_cons, ih hkeys.2]
    by_cases hname : name = key
    · subst hname
      rw [List.dlookup_eq_none.mpr hkeys.1, List.dlookup_cons_eq]
      exact values_partitionStep_self stores name val
    · rw [List.dlookup_cons_ne _ _ hname, values_partitionStep_ne stores hname]

theorem values_partition (existing : UserStores) (incoming scopes : Credentials) (defaultScope : Text) (split : Bool)
    (name : Text) :
    (partitionCredentialWrites existing incoming scopes defaultScope split).values name =
      match incoming.lookup name with
      | none => existing.values name
      | some val => placed (toShared scopes defaultScope split name) (newValue (existing.values name) val) :=
  values_foldl incoming.nodupKeys existing name

/-- **The partition.** An incoming name has its new value, or else its old one, in one store: in the shared one exactly
if the stores are split and its scope is shared. Without a value it is in none, and the other names stay. -/
theorem partitionCredentialWrites_values (existing : UserStores) (incoming scopes : Credentials) (defaultScope : Text)
    (split : Bool) (name : Text) :
    (∀ val value, incoming.lookup name = some val → value = (if val ≠ [] then val
        else ((existing.localMap.lookup name).or (existing.sharedMap.lookup name)).getD []) →
      (partitionCredentialWrites existing incoming scopes defaultScope split).values name =
        if value = [] then (none, none)
        else if split = true ∧ (scopes.lookup name).getD defaultScope = "shared" then (none, some value)
        else (some value, none)) ∧
    (incoming.lookup name = none →
      (partitionCredentialWrites existing incoming scopes defaultScope split).values name = existing.values name) := by
  rw [values_partition]
  constructor
  · rintro val value hval rfl
    rw [hval]
    simp only [placed, toShared, newValue, UserStores.values, Bool.and_eq_true, decide_eq_true_eq]
  · intro hnone
    rw [hnone]

/-! ### The request -/

inductive CredentialError where
  | auth (msg : String)
  | forbidden (msg : String)
  | internal (msg : String)
  | vault (e : VaultError)
deriving DecidableEq, Repr

inductive StoreRequest where
  | get (shared : Bool)
  | put (shared : Bool)

def isVariableChar (c : Char) : Bool := c.isLower || c.isDigit || c = '_' || c = '-'

def readIncoming (fields : List (Text × Json)) : Except CredentialError Credentials :=
  fields.foldlM (fun incoming (k, v) =>
    if k.all isVariableChar then .ok (incoming.insert k ((asStr v).getD []))
    else .error (.internal s!"invalid variable name '{String.ofList k}': use lowercase alphanumeric, underscores and hyphens"))
    ∅

def readScopes (fields : List (Text × Json)) : Credentials :=
  ((getField fields "scopes").bind asObject).elim ∅ fun obj =>
    obj.foldl (fun scopes (k, v) =>
      match asStr v with
      | some s => if s = "shared" ∨ s = "local" then scopes.insert k s else scopes
      | none => scopes) ∅

def readRequest (identity : Option AuthIdentity) (body : Json) : Except CredentialError (Credentials × Credentials) :=
  match identity with
  | some (.user _ _ role _) =>
    if roleLevel role < roleLevel "operator" then .error (.forbidden "operator role required")
    else
      let fields := (asObject body).getD []
      match (getField fields "credentials").bind asObject with
      | none => .error (.internal "missing or invalid 'credentials' object")
      | some obj => (readIncoming obj).map fun incoming => (incoming, readScopes fields)
  | _ => .error (.auth "OIDC authentication required")

/-- The stores afterwards and the number of variables. Each of the requests to the stores may fail. -/
def putMyCredentials (split : Bool) (failing : StoreRequest → Option VaultError) (identity : Option AuthIdentity)
    (defaultScope : Text) (body : Json) (stores : UserStores) : UserStores × Except CredentialError Nat :=
  match readRequest identity body with
  | .error e => (stores, .error e)
  | .ok (incoming, scopes) =>
    match (failing (.get false)).or (if split then failing (.get true) else none) with
    | some e => (stores, .error (.vault e))
    | none =>
      let existing := if split then stores else { stores with sharedMap := ∅ }
      let new := partitionCredentialWrites existing incoming scopes defaultScope split
      let count := new.localMap.entries.length + new.sharedMap.entries.length
      match failing (.put false) with
      | some e => (stores, .error (.vault e))
      | none =>
        let stores := { stores with localMap := new.localMap }
        if split then
          match failing (.put true) with
          | some e => (stores, .error (.vault e))
          | none => ({ stores with sharedMap := new.sharedMap }, .ok count)
        else (stores, .ok count)

def requested (identity : Option AuthIdentity) (body : Json) : Credentials :=
  match readRequest identity body with
  | .ok (incoming, _) => incoming
  | .error _ => ∅

/-- A variable with a value has that value or the requested one afterwards. -/
def Keeps (before : UserStores) (requested : Credentials) (after : UserStores) : Prop :=
  ∀ name old, (before.values name).1.or (before.values name).2 = some old → old ≠ [] →
    ∃ value ≠ [], (value = old ∨ requested.lookup name = some value) ∧
      (after.localMap.lookup name = some value ∨ after.sharedMap.lookup name = some value)

theorem keeps_self (requested : Credentials) : Keeps stores requested stores := by
  intro name old hold hne
  refine ⟨old, hne, .inl rfl, ?_⟩
  rcases or_eq_some_iff.mp hold with hlocal | hshared
  · exact .inl hlocal
  · exact .inr hshared.2

theorem newValue_spec {stored : Option Text × Option Text} {old : Text} (hold : stored.1.or stored.2 = some old)
    (hne : old ≠ []) (val : Text) :
    newValue stored val ≠ [] ∧ (newValue stored val = old ∨ newValue stored val = val) := by
  unfold newValue
  split_ifs with hval
  · exact ⟨hval, .inr rfl⟩
  · rw [hold]
    exact ⟨hne, .inl rfl⟩

theorem keeps_partition (split : Bool) :
    Keeps stores incoming (partitionCredentialWrites stores incoming scopes defaultScope split) := by
  intro name old hold hne
  have hvalues := values_partition stores incoming scopes defaultScope split name
  cases hval : incoming.lookup name with
  | none =>
    rw [hval] at hvalues
    obtain ⟨hlocal, hshared⟩ := Prod.mk.inj hvalues
    obtain ⟨value, hvalue, hwhich, hstored⟩ := keeps_self stores incoming name old hold hne
    rw [← hlocal, ← hshared] at hstored
    exact ⟨value, hvalue, hval ▸ hwhich, hstored⟩
  | some val =>
    rw [hval] at hvalues
    obtain ⟨hvalue, hwhich⟩ := newValue_spec hold hne val
    refine ⟨_, hvalue, hwhich.imp_right fun h => congrArg some h.symm, ?_⟩
    simp only [placed, if_neg hvalue] at hvalues
    split_ifs at hvalues
    · exact .inr (Prod.mk.inj hvalues).2
    · exact .inl (Prod.mk.inj hvalues).1

theorem keeps_first_write_iff :
    Keeps stores incoming ⟨(partitionCredentialWrites stores incoming scopes defaultScope true).localMap, stores.sharedMap⟩ ↔
      ∀ name val old, incoming.lookup name = some val → toShared scopes defaultScope true name →
        stores.localMap.lookup name = some old → old ≠ [] →
          ∃ value ≠ [], (value = old ∨ value = val) ∧ stores.sharedMap.lookup name = some value := by
  have hlocal := fun name => congrArg Prod.fst (values_partition stores incoming scopes defaultScope true name)
  constructor
  · intro h name val old hval hshared hold hne
    obtain ⟨value, hvalue, hwhich, hstored⟩ := h name old (by rw [UserStores.values, hold]; rfl) hne
    have hgone := hlocal name
    rw [hval] at hgone
    dsimp only at hgone
    have hnone : ∀ value, (placed true value).1 = none := by
      intro value
      cases value <;> rfl
    rw [hshared, hnone] at hgone
    rw [hval, Option.some.injEq] at hwhich
    refine ⟨value, hvalue, hwhich.imp_right Eq.symm, hstored.resolve_left fun hin => ?_⟩
    exact some_ne_none value (hin.symm.trans hgone)
  · intro h name old hold hne
    cases hval : incoming.lookup name with
    | none =>
      obtain ⟨value, hvalue, hwhich, hstored⟩ := keeps_self stores incoming name old hold hne
      have hsame := hlocal name
      rw [hval] at hsame
      exact ⟨value, hvalue, hval ▸ hwhich, hstored.imp_left hsame.trans⟩
    | some val =>
      cases hshared : toShared scopes defaultScope true name with
      | false =>
        have hvalue := newValue_spec hold hne val
        have hput := hlocal name
        rw [hval, hshared] at hput
        simp only [placed, if_neg hvalue.1] at hput
        exact ⟨_, hvalue.1, hvalue.2.imp_right fun h => congrArg some h.symm, .inl hput⟩
      | true =>
        rcases or_eq_some_iff.mp hold with hin | ⟨-, hin⟩
        · obtain ⟨value, hvalue, hwhich, hstored⟩ := h name val old hval hshared hin hne
          exact ⟨value, hvalue, hwhich.imp_right fun h => congrArg some h.symm, .inr hstored⟩
        · exact ⟨old, hne, .inl rfl, .inr hin⟩

/-- **A change of scope.** No variable is lost, exactly if the second write does not fail after the first, or every variable
that has a value in the local store and is moved has that value or the requested one in the shared store already. -/
theorem putMyCredentials_keeps_iff (failing : StoreRequest → Option VaultError) (identity : Option AuthIdentity)
    (defaultScope : Text) (body : Json) (stores : UserStores) :
    Keeps stores (requested identity body) (putMyCredentials true failing identity defaultScope body stores).1 ↔
      ∀ incoming scopes, readRequest identity body = .ok (incoming, scopes) →
        failing (.get false) = none → failing (.get true) = none → failing (.put false) = none →
        failing (.put true) ≠ none →
        ∀ name val old, incoming.lookup name = some val → toShared scopes defaultScope true name = true →
          stores.localMap.lookup name = some old → old ≠ [] →
            ∃ value ≠ [], (value = old ∨ value = val) ∧ stores.sharedMap.lookup name = some value := by
  unfold putMyCredentials requested
  cases hread : readRequest identity body with
  | error e => exact iff_of_true (keeps_self _ _) (by simp)
  | ok request =>
    obtain ⟨incoming, scopes⟩ := request
    simp only [if_true, Except.ok.injEq, Prod.mk.injEq]
    cases hget : failing (.get false) with
    | some e => exact iff_of_true (keeps_self _ _) (by simp)
    | none =>
      rw [none_or]
      cases hget' : failing (.get true) with
      | some e => exact iff_of_true (keeps_self _ _) (by simp)
      | none =>
        cases hput : failing (.put false) with
        | some e => exact iff_of_true (keeps_self _ _) (by simp)
        | none =>
          cases hput' : failing (.put true) with
          | none => exact iff_of_true (keeps_partition _ _ _ _ _) (by simp)
          | some e =>
            dsimp only
            rw [keeps_first_write_iff]
            constructor
            · rintro h _ _ ⟨rfl, rfl⟩ - - - -
              exact h
            · exact fun h => h incoming scopes ⟨rfl, rfl⟩ rfl rfl rfl (some_ne_none e)

/-- **A lost password.** The local store no longer has it, and the shared one could not be written. -/
theorem putMyCredentials_loses : ∃ stores : UserStores, stores.localMap.lookup "password".toList = some "x".toList ∧
      (putMyCredentials true (fun request => match request with | .put true => some .unavailable | _ => none)
        (some (.user "a@b" "" "operator" [])) "local".toList
        (.object [("credentials".toList, .object [("password".toList, .string [])]),
          ("scopes".toList, .object [("password".toList, .string "shared".toList)])]) stores).1.values "password".toList =
        (none, none) :=
  ⟨⟨AList.insert "password".toList "x".toList ∅, ∅⟩, by decide +kernel, by decide +kernel⟩

end Persea.Vault
