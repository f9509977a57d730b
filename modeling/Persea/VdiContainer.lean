import Persea.BaseUtf8
import Persea.CreateSession

/-! Names of VDI containers: the reduced identity of the creator, its dashed form and a hash, then the entry. The API
decides by the beginning of a name whether a caller owns the container. -/

namespace Persea.Vdi

open Base Base.Text Create Auth List Option

structure ContainerSpec where
  username : String
  entryKey : Option String
deriving DecidableEq, Repr

variable (lower : String → String)

def sanitizeNameSuffix (value : String) : Text :=
  (((lower value).toList.map fun c => if c.isAlphanum then c else '-').dropWhile (· = '-')).rdropWhile (· = '-')

def entryName (entryKey : Option String) : Option Text :=
  (entryKey.map fun key => sanitizeNameSuffix lower (String.ofList (key.toList.rtakeWhile (· ≠ '/')))).filter (· ≠ [])

def fnv1a (value : String) : UInt64 :=
  (Utf8.encode value.toList).foldl (fun hash b => hash * 0x100000001b3 ^^^ b.toUInt64) 0xcbf29ce484222325

def usernameHash (username : String) : Text := hexDigits 8 (fnv1a username).toUInt32.toNat

def containerName (spec : ContainerSpec) : Text :=
  let username := sanitizeNameSuffix lower spec.username
  let hash := usernameHash spec.username
  match entryName lower spec.entryKey with
  | some entry => "persea-vdi-" ++ username ++ '-' :: hash ++ '-' :: entry
  | none => "persea-vdi-" ++ username ++ '-' :: hash

def vdiContainerUsername (identity : AuthIdentity) : String :=
  sanitize lower (String.ofList ((identityKey identity).toList.takeWhile fun c => c ≠ '@'))

def vdiContainerPrefix (containerUsername : String) : Text :=
  let dashed := sanitizeNameSuffix lower containerUsername
  "persea-vdi-" ++ dashed ++ '-' :: usernameHash containerUsername

/-- Ownership of a container: its name is the caller's beginning, or goes on after it with a `-`. -/
def vdiContainerOwnedBy (name owner : Text) : Bool := name = owner || (owner ++ ['-']).isPrefixOf name

/-- The name `create_session` gives the container of an identity, when the entry has no user name of its own. -/
def createdContainer (out : Outside) (identity : AuthIdentity) (entryKey : Option String) :
    Except CreateError Text := do
  let username ← Create.vdiContainerUsername out none (createdBy .postSessions identity)
  return containerName out.lower ⟨username, entryKey⟩

def userWord (username : String) : Text := sanitizeNameSuffix lower username ++ '-' :: usernameHash username

variable {lower}

variable (username : String) (entryKey : Option String)

theorem dash_notMem_usernameHash : '-' ∉ usernameHash username := by
  intro h
  exact absurd (isAlphanum_of_mem_hexDigits h) (by decide)

variable {u v : String}

theorem userWord_eq_iff (hhash : usernameHash u = usernameHash v → u = v) :
    userWord lower u = userWord lower v ↔ u = v := by
  constructor
  · intro h
    have hlen : ('-' :: usernameHash u).length = ('-' :: usernameHash v).length := by
      simp only [length_cons, usernameHash, length_hexDigits]
    have htail := (append_inj_right' h hlen)
    exact hhash (List.cons.inj htail).2
  · rintro rfl
    rfl

theorem containerName_eq :
    containerName lower ⟨username, entryKey⟩ = "persea-vdi-" ++ (sanitizeNameSuffix lower username ++
      '-' :: (usernameHash username ++ ((entryName lower entryKey).map ('-' :: ·)).getD [])) := by
  unfold containerName
  cases entryName lower entryKey <;> simp only [map_none, map_some, getD_none,
    getD_some, append_assoc, cons_append, append_nil]

theorem vdiContainerPrefix_eq : vdiContainerPrefix lower username = "persea-vdi-" ++ userWord lower username :=
  append_assoc _ _ _

theorem vdiContainerOwnedBy_iff {name owner : Text} :
    vdiContainerOwnedBy name owner ↔ Continues '-' name owner := by
  simp only [vdiContainerOwnedBy, Continues, Bool.or_eq_true, decide_eq_true_eq, isPrefixOf_iff_prefix]

theorem createdContainer_eq (out : Outside) (identity : AuthIdentity) (entryKey : Option String) :
    createdContainer out identity entryKey =
      .ok (containerName out.lower ⟨vdiContainerUsername out.lower identity, entryKey⟩) := rfl

/-- The user of `u` has no claim on a container of `v`: the user names differ, the word of `u` does not begin the
dashed name of `v`, and it is not the word of `v` with a beginning of the entry's name after it. -/
def Apart (lower : String → String) (u v : String) (entryKey : Option String) : Prop :=
  u ≠ v ∧ ¬Continues '-' (sanitizeNameSuffix lower v) (userWord lower u) ∧ ∀ entry ∈ entryName lower entryKey, ∀ more,
      userWord lower u = userWord lower v ++ '-' :: more → ¬Continues '-' entry more

/-- **Who owns a container**, by the test of the API. -/
theorem owned_iff (hhash : usernameHash u = usernameHash v → u = v) :
    vdiContainerOwnedBy (containerName lower ⟨v, entryKey⟩) (vdiContainerPrefix lower u) ↔
      ¬Apart lower u v entryKey := by
  have hword : ∀ more, sanitizeNameSuffix lower v ++ '-' :: (usernameHash v ++ '-' :: more) =
      userWord lower v ++ '-' :: more := by
    intro more
    rw [userWord, append_assoc, cons_append]
  rw [vdiContainerOwnedBy_iff, containerName_eq, vdiContainerPrefix_eq, continues_append_left,
    continues_word_iff (dash_notMem_usernameHash v), ← userWord, userWord_eq_iff hhash]
  simp only [hword]
  constructor
  · rintro (hname | hsame | ⟨entry, hentry, more, hmore, hbegins⟩) ⟨hdiffer, hnames, hentries⟩
    · exact hnames hname
    · exact hdiffer hsame
    · exact hentries entry hentry more hmore hbegins
  · intro h
    by_contra hnone
    exact h ⟨fun hsame => hnone (.inr (.inl hsame)), fun hname => hnone (.inl hname),
      fun entry hentry more hmore hbegins => hnone (.inr (.inr ⟨entry, hentry, more, hmore, hbegins⟩))⟩

theorem containerName_eq_iff (hhash : usernameHash u = usernameHash v → u = v) :
    containerName lower ⟨u, entryKey⟩ = containerName lower ⟨v, entryKey⟩ ↔ u = v := by
  constructor
  · intro h
    simp only [containerName_eq, append_cancel_left_eq] at h
    rw [← cons_append, ← append_assoc, ← cons_append, ← append_assoc, append_cancel_right_eq] at h
    exact (userWord_eq_iff hhash).mp h
  · rintro rfl
    rfl

/-- **VDI isolation.** Of two identities whose user names do not collide in the hash, the one has its own container
and no claim on the other's exactly when their user names are apart. -/
theorem vdi_isolated_iff (out : Outside) (a b : AuthIdentity) (entryKey : Option String)
    (hdistinct : identityKey a ≠ identityKey b)
    (hhash : usernameHash (vdiContainerUsername out.lower a) = usernameHash (vdiContainerUsername out.lower b) →
      vdiContainerUsername out.lower a = vdiContainerUsername out.lower b) :
    ∃ nameA nameB, createdContainer out a entryKey = .ok nameA ∧ createdContainer out b entryKey = .ok nameB ∧
      ((nameA ≠ nameB ∧
          (vdiContainerOwnedBy nameB (vdiContainerPrefix out.lower (vdiContainerUsername out.lower a)) = true →
            identityKey a = identityKey b)) ↔
        Apart out.lower (vdiContainerUsername out.lower a) (vdiContainerUsername out.lower b) entryKey) := by
  refine ⟨_, _, createdContainer_eq out a entryKey, createdContainer_eq out b entryKey, ?_⟩
  have howned : vdiContainerOwnedBy (containerName out.lower ⟨vdiContainerUsername out.lower b, entryKey⟩)
      (vdiContainerPrefix out.lower (vdiContainerUsername out.lower a)) = true ↔ ¬Apart out.lower _ _ entryKey :=
    owned_iff entryKey hhash
  constructor
  · rintro ⟨-, howns⟩
    by_contra hnot
    exact hdistinct (howns (howned.mpr hnot))
  · intro hapart
    refine ⟨fun hname => hapart.1 ((containerName_eq_iff entryKey hhash).mp hname), fun howns => ?_⟩
    exact absurd hapart (howned.mp howns)

def userNamed (email : String) : AuthIdentity := .user email "" "operator" []

theorem apart_alice_bob : Apart id (vdiContainerUsername id (userNamed "alice@corp.com"))
    (vdiContainerUsername id (userNamed "bob@corp.com")) (some "shared/desktops/dev") := by
  refine ⟨by decide +kernel, by decide +kernel, fun entry _ more hword => ?_⟩
  have hbegins : userWord id (vdiContainerUsername id (userNamed "bob@corp.com")) <+:
      userWord id (vdiContainerUsername id (userNamed "alice@corp.com")) := ⟨_, hword.symm⟩
  exact absurd hbegins (by decide +kernel)

theorem vdi_isolated_alice_bob : ∃ nameA nameB,
    createdContainer reachable (userNamed "alice@corp.com") (some "shared/desktops/dev") = .ok nameA ∧
      createdContainer reachable (userNamed "bob@corp.com") (some "shared/desktops/dev") = .ok nameB ∧
      nameA ≠ nameB ∧ vdiContainerOwnedBy nameB
        (vdiContainerPrefix id (vdiContainerUsername id (userNamed "alice@corp.com"))) = false := by
  obtain ⟨nameA, nameB, hA, hB, hiff⟩ := vdi_isolated_iff reachable (userNamed "alice@corp.com")
    (userNamed "bob@corp.com") (some "shared/desktops/dev") (by decide) (by decide +kernel)
  obtain ⟨hname, howned⟩ := hiff.mpr apart_alice_bob
  refine ⟨nameA, nameB, hA, hB, hname, ?_⟩
  rw [Bool.eq_false_iff]
  intro h
  exact absurd (howned h) (by decide)

/-- The Alices of two companies get one container. And Alice owns the container of a user whose name spells out the
hash of theirs. -/
theorem vdi_containers_shared :
    (identityKey (userNamed "alice@corp.com") ≠ identityKey (userNamed "alice@other.org") ∧
      createdContainer reachable (userNamed "alice@corp.com") none =
        createdContainer reachable (userNamed "alice@other.org") none) ∧
    (usernameHash (vdiContainerUsername id (userNamed "alice@corp.com")) ≠
        usernameHash (vdiContainerUsername id (userNamed "alice.575d06d3.x@corp.com")) ∧
      ∃ name, createdContainer reachable (userNamed "alice.575d06d3.x@corp.com") none = .ok name ∧
        vdiContainerOwnedBy name
          (vdiContainerPrefix id (vdiContainerUsername id (userNamed "alice@corp.com"))) = true) := by
  refine ⟨⟨by decide, by decide +kernel⟩, by decide +kernel, ?_⟩
  exact ⟨_, createdContainer_eq reachable (userNamed "alice.575d06d3.x@corp.com") none, by decide +kernel⟩

/-- The memory of a container in bytes. The multiplication wraps around, as it does in a release build. -/
def memoryLimit (containerMemoryLimit : Option UInt64) (defaultMemoryLimit : UInt64) : UInt64 :=
  containerMemoryLimit.getD defaultMemoryLimit * 1024 * 1024

/-- What Docker is told; nothing is no limit, as is 0. -/
def hostMemory (memoryLimit : UInt64) : Option Int64 := if 0 < memoryLimit then some memoryLimit.toInt64 else none

/-- **Memory limits** are passed on exactly when they are below `2 ^ 43` MB. -/
theorem hostMemory_exact_iff (entryLimit : Option UInt64) (defaultLimit : UInt64) :
    ((memoryLimit entryLimit defaultLimit).toNat = (entryLimit.getD defaultLimit).toNat * 2 ^ 20 ∧
      ((hostMemory (memoryLimit entryLimit defaultLimit)).getD 0).toInt = (entryLimit.getD defaultLimit).toNat * 2 ^ 20) ↔
    (entryLimit.getD defaultLimit).toNat < 2 ^ 43 := by
  constructor
  · rintro ⟨-, hpassed⟩
    have hbound := ((hostMemory (memoryLimit entryLimit defaultLimit)).getD 0).toInt_lt
    omega
  · intro hlimit
    have hbytes : (memoryLimit entryLimit defaultLimit).toNat = (entryLimit.getD defaultLimit).toNat * 2 ^ 20 := by
      rw [memoryLimit, UInt64.toNat_mul, UInt64.toNat_mul]
      change (_ * 1024 % _ * 1024) % _ = _
      omega
    refine ⟨hbytes, ?_⟩
    rw [hostMemory]
    split_ifs with hpositive
    · have hint : (memoryLimit entryLimit defaultLimit).toInt64.toInt = (memoryLimit entryLimit defaultLimit).toNat :=
        BitVec.toInt_eq_toNat_of_lt (by change 2 * (memoryLimit entryLimit defaultLimit).toNat < _; omega)
      rw [getD_some, hint, hbytes]
      rfl
    · rw [UInt64.lt_iff_toNat_lt, UInt64.toNat_zero, hbytes] at hpositive
      have hzero : (entryLimit.getD defaultLimit).toNat = 0 := by omega
      rw [hzero]
      rfl

theorem hostMemory_negative : (memoryLimit (some 8796093022208) 0).toNat = 8796093022208 * 2 ^ 20 ∧
    (hostMemory (memoryLimit (some 8796093022208) 0)).map Int64.toInt = some (-9223372036854775808) := by decide +kernel

end Persea.Vdi
