import Persea.AuthIdentity
import Persea.RbacDecision

/-! The gate of both connect paths, `rbac_connect_allowed`. The caller's row is looked up by the display name,
which is the email only where the name is empty or repeats it. -/

namespace Persea.Rbac

open Base Base.Text Auth

structure UserRow where
  id : Int
  email : String
deriving DecidableEq, Repr

structure Database where
  /-- The pool branch of the queries is in use. -/
  poolActive : Bool
  users : List UserRow
  tables : Tables

def Database.getUserByEmail (db : Database) (email : String) : Option UserRow :=
  db.users.find? fun u => u.email = email

def Database.checkConnectionPermission (db : Database) (userId : Int) (connectionId : Text)
    (permission : ObjectPermission) : Bool :=
  (Rbac.checkConnectionPermission db.poolActive (rowCount db.tables) db.tables userId connectionId permission).getD
    false

def connectionKey (scope folder entry : Text) : Text := scope ++ '/' :: (folder ++ '/' :: entry)

def Database.connectAllowedFor (db : Database) (email : String) (connectionId : Text) : Bool :=
  match db.getUserByEmail email with
  | some user => db.checkConnectionPermission user.id connectionId .connect
  | none => false

def rbacConnectAllowed (db : Option Database) (id : AuthIdentity) (scope folder entry : Text) : Bool :=
  if id.hasRole "admin" then true
  else
    match db with
    | none => true
    | some db => db.connectAllowedFor id.displayName (connectionKey scope folder entry)

def identityEmail : AuthIdentity → Option String
  | .apiKey _ => none
  | .user email _ _ _ => some email

def Database.callerAllowed (db : Database) (id : AuthIdentity) (connectionId : Text) : Bool :=
  (identityEmail id).any (db.connectAllowedFor · connectionId)

def oneGrant (email : String) : Database where
  poolActive := false
  users := [⟨1, email⟩]
  tables := ⟨[], [], [⟨['1'], .user, .connection, connectionKey ['s'] ['f'] ['e'], "connect"⟩], []⟩

theorem oneGrant_allowed (email : String) :
    (oneGrant email).connectAllowedFor email (connectionKey ['s'] ['f'] ['e']) := by
  have hgrant : (oneGrant email).checkConnectionPermission 1 (connectionKey ['s'] ['f'] ['e']) .connect := by
    change (oneGrant "").checkConnectionPermission 1 (connectionKey ['s'] ['f'] ['e']) .connect
    decide +kernel
  have huser : (oneGrant email).getUserByEmail email = some ⟨1, email⟩ := List.find?_cons_of_pos (by simp)
  rw [Database.connectAllowedFor, huser]
  exact hgrant

theorem oneGrant_denied {email other : String} (hne : other ≠ email) (connectionId : Text) :
    (oneGrant email).connectAllowedFor other connectionId = false := by
  have hnobody : (oneGrant email).getUserByEmail other = none := List.find?_cons_of_neg (by simp [Ne.symm hne])
  rw [Database.connectAllowedFor, hnobody]

/-- **Connect permission of the caller.** The gate answers for the caller's own row, whatever the entry and the
database, exactly if the caller is not an admin and their display name is their email: the name is empty or
repeats it. -/
theorem connect_allowed_for_caller_iff (id : AuthIdentity) : (∀ (db : Database) (scope folder entry : Text),
      rbacConnectAllowed (some db) id scope folder entry = db.callerAllowed id (connectionKey scope folder entry)) ↔
      id.hasRole "admin" = false ∧ ∃ email ∈ identityEmail id, id.displayName = email := by
  constructor
  · intro hcaller
    cases hadmin : id.hasRole "admin" with
    | true =>
      -- An admin is let through where no row exists.
      have hempty := hcaller ⟨false, [], ⟨[], [], [], []⟩⟩ [] [] []
      simp only [rbacConnectAllowed, hadmin, if_true] at hempty
      have hnobody : (⟨false, [], ⟨[], [], [], []⟩⟩ : Database).callerAllowed id (connectionKey [] [] []) = false := by
        cases id <;> rfl
      rw [hnobody] at hempty
      cases hempty
    | false =>
      refine ⟨rfl, ?_⟩
      cases id with
      | apiKey name =>
        have hlevel : roleLevel "admin" ≤ roleLevel "admin" := Nat.le_refl _
        exact absurd hlevel (of_decide_eq_false hadmin)
      | user email name role groups =>
        refine ⟨email, rfl, ?_⟩
        by_contra hname
        have hgrant := hcaller (oneGrant email) ['s'] ['f'] ['e']
        simp only [rbacConnectAllowed, hadmin, Bool.false_eq_true, if_false] at hgrant
        rw [oneGrant_denied hname] at hgrant
        exact Bool.false_ne_true (hgrant.trans (oneGrant_allowed email))
  · rintro ⟨hadmin, email, hemail, hname⟩ db scope folder entry
    simp only [rbacConnectAllowed, hadmin, Bool.false_eq_true, if_false, Database.callerAllowed]
    rw [Option.mem_def.mp hemail, hname]
    rfl

/-- **The grant of another user.** A caller whose display name is the email of somebody else is let in by that
user's grant. -/
theorem connect_allowed_by_display_name :
    rbacConnectAllowed (some (oneGrant "ann@x.io")) (.user "eve@x.io" "ann@x.io" "viewer" []) ['s'] ['f'] ['e'] =
        true ∧
      (oneGrant "ann@x.io").callerAllowed (.user "eve@x.io" "ann@x.io" "viewer" [])
        (connectionKey ['s'] ['f'] ['e']) = false := by
  decide +kernel

end Persea.Rbac
