import Mathlib.Tactic

/-! Identities and session ownership. A session stores the name of its creator as text: the stable key on
one creation path, the display name on the others. Two predicates later compare that text with both the
key and the display name of a caller. -/

namespace Persea.Auth

inductive Role where
  | admin
  | powerUser
  | operator
  | viewer
deriving DecidableEq, Repr

def Role.level : Role → Nat
  | .admin => 4
  | .powerUser => 3
  | .operator => 2
  | .viewer => 1

def Role.fromStr : String → Option Role
  | "admin" => some .admin
  | "poweruser" => some .powerUser
  | "operator" => some .operator
  | "viewer" => some .viewer
  | _ => none

def roleLevel (role : String) : Nat := ((Role.fromStr role).map Role.level).getD 0

inductive AuthIdentity where
  | apiKey (name : String)
  | user (email name role : String) (groups : List String)
deriving DecidableEq, Repr

def AuthIdentity.displayName : AuthIdentity → String
  | .apiKey name => name
  | .user email name _ _ => if name = "" then email else name

def AuthIdentity.role : AuthIdentity → String
  | .apiKey _ => "admin"
  | .user _ _ role _ => role

def AuthIdentity.hasRole (id : AuthIdentity) (minRole : String) : Bool := roleLevel minRole ≤ roleLevel id.role

def identityKey : AuthIdentity → String
  | .apiKey name => name
  | .user email _ _ _ => email

def sessionOwnedBy (id : AuthIdentity) (creator : String) : Bool :=
  creator = identityKey id || creator = id.displayName

def ownerPathAuthorized (identity : Option AuthIdentity) (creator : Option String) : Bool :=
  match identity with
  | some id =>
    id.hasRole "admin" ||
      match creator with
      | some c => c = identityKey id || c = id.displayName
      | none => false
  | none => false

inductive CreatePath where
  | postSessions
  | addressBookConnect
  | quickConnect
  | vsphereConnect
deriving DecidableEq, Repr

/-- The creator text each handler hands to `SessionManager::create_session`. -/
def createdBy : CreatePath → AuthIdentity → String
  | .postSessions, id => identityKey id
  | .addressBookConnect, id => id.displayName
  | .quickConnect, id => id.displayName
  | .vsphereConnect, id => id.displayName

theorem ownerPathAuthorized_of_not_admin {v : AuthIdentity} (hv : v.hasRole "admin" = false)
    (creator : String) : ownerPathAuthorized (some v) (some creator) = sessionOwnedBy v creator := by
  simp only [ownerPathAuthorized, hv, Bool.false_or, sessionOwnedBy]

theorem sessionOwnedBy_iff (v : AuthIdentity) (creator : String) :
    sessionOwnedBy v creator ↔ creator = identityKey v ∨ creator = v.displayName := by
  simp only [sessionOwnedBy, Bool.or_eq_true, decide_eq_true_eq]

theorem sessionOwnedBy_creator (path : CreatePath) (c : AuthIdentity) :
    sessionOwnedBy c (createdBy path c) := by
  rw [sessionOwnedBy_iff]
  cases path with
  | postSessions => exact .inl rfl
  | _ => exact .inr rfl

/-- A name of `v` that the creator text of `c` is mistaken for: on the path that stores the key, the
display name of `v`; on the paths that store the display name, any name of `v`. -/
def NamesCollide : CreatePath → AuthIdentity → AuthIdentity → Prop
  | .postSessions, c, v => v.displayName = identityKey c
  | _, c, v => identityKey v = c.displayName ∨ v.displayName = c.displayName

/-- **Ownership is by creator exactly when no name of another identity is mistaken for the creator.** -/
theorem accepted_is_creator_iff (path : CreatePath) (c v : AuthIdentity) (hv : v.hasRole "admin" = false) :
    (sessionOwnedBy v (createdBy path c) = true ∨
        ownerPathAuthorized (some v) (some (createdBy path c)) = true → identityKey v = identityKey c) ↔
      (identityKey v ≠ identityKey c → ¬NamesCollide path c v) := by
  rw [ownerPathAuthorized_of_not_admin hv, or_self, sessionOwnedBy_iff]
  have haccepted : (createdBy path c = identityKey v ∨ createdBy path c = v.displayName) ↔
      (identityKey v = identityKey c ∧ path = .postSessions ∨ NamesCollide path c v) := by
    cases path with
    | postSessions => simp only [createdBy, NamesCollide, and_true, eq_comm]
    | _ => simp only [createdBy, NamesCollide, reduceCtorEq, and_false, false_or, eq_comm]
  rw [haccepted]
  constructor
  · intro h hne hcollide
    exact hne (h (.inr hcollide))
  · intro h haccept
    by_contra hne
    rcases haccept with ⟨hsame, -⟩ | hcollide
    · exact hne hsame
    · exact h hne hcollide

theorem accepted_same_email : sessionOwnedBy (.user "alice@example.com" "Alice" "operator" [])
        (createdBy .quickConnect (.user "alice@example.com" "Alice" "viewer" [])) = true ∧
      identityKey (.user "alice@example.com" "Alice" "operator" []) =
        identityKey (.user "alice@example.com" "Alice" "viewer" []) :=
  ⟨by decide, (accepted_is_creator_iff .quickConnect (.user "alice@example.com" "Alice" "viewer" [])
      (.user "alice@example.com" "Alice" "operator" []) (by decide)).mpr
      (fun hne => absurd rfl hne) (.inl (by decide))⟩

/-- A user whose display name is the email of another owns the sessions of the other. -/
theorem accepted_by_display_name : ¬∀ (path : CreatePath) (c v : AuthIdentity), v.hasRole "admin" = false →
    (sessionOwnedBy v (createdBy path c) = true ∨
        ownerPathAuthorized (some v) (some (createdBy path c)) = true) → identityKey v = identityKey c := by
  intro h
  have hsame := h .postSessions (.user "alice@example.com" "Alice" "poweruser" [])
    (.user "mallory@example.com" "alice@example.com" "operator" []) (by decide) (.inl (by decide))
  exact absurd hsame (by decide)

end Persea.Auth
