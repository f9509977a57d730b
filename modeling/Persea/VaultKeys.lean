import Persea.BaseStore
import Persea.BaseText

/-! Per-user credential variables in Vault. Every user has one secret, under a key that `sanitize_email_key` makes
from the email: `@` is written out and characters outside a small alphabet are dropped, so that two emails may
come to one key. -/

namespace Persea.Vault

open Base Base.Text

inductive AppError where
  | validation (msg : String)
deriving DecidableEq, Repr

def validateEmail : Option Text → Except AppError (Option Text)
  | none => .ok none
  | some value =>
    let trimmed := trim value
    if trimmed = [] ∨ '@' ∉ trimmed ∨ trimmed.any isWhitespace = true then
      .error (.validation "invalid email address")
    else .ok (some trimmed)

def isKeyChar (c : Char) : Bool := c.isAlphanum || c = '-' || c = '_' || c = '.'

def sanitizeEmailKey (email : Text) : Text :=
  (email.flatMap fun c => if c = '@' then "_at_" else [c]).filter isKeyChar

inductive VaultError where
  | auth (msg : String)
  | notFound
  | forbidden
  | http (msg : String)
  | parse (msg : String)
  | badName (msg : String)
  | unavailable
deriving DecidableEq, Repr

abbrev Credentials := Store Text Text

structure VaultClient where
  mount : Text
  basePath : Text

/-- What a request meets: the secrets engine, a status that the server answers by itself, or no response. -/
inductive Server where
  | serving
  | refusing (status : Nat) (text : String)
  | failing (e : VaultError)

variable (client : VaultClient)

def VaultClient.userPath (key : Text) : Text :=
  "/v1/" ++ client.mount ++ "/data/" ++ client.basePath ++ "/users/" ++ key

def getRefused : Nat → Except VaultError Credentials
  | 404 => .ok ∅
  | 403 => .error .forbidden
  | s => .error (.parse s!"get user credentials failed ({s})")

def putRefused (text : String) : Nat → Except VaultError Unit
  | 403 => .error .forbidden
  | s => .error (.parse s!"put user credentials failed ({s}): {text}")

def VaultClient.getUserCredentialsByKey (server : Server) (kv : Store Text Credentials)
    (key : Text) : Except VaultError Credentials :=
  match server with
  | .failing e => .error e
  | .refusing status _ => getRefused status
  | .serving =>
    match kv.lookup (client.userPath key) with
    | some creds => .ok creds
    | none => getRefused 404

def VaultClient.putUserCredentialsByKey (server : Server) (kv : Store Text Credentials)
    (key : Text) (creds : Credentials) : Store Text Credentials × Except VaultError Unit :=
  match server with
  | .failing e => (kv, .error e)
  | .refusing status text => (kv, putRefused text status)
  | .serving => (kv.insert (client.userPath key) creds, .ok ())

def VaultClient.getUserCredentials (server : Server) (kv : Store Text Credentials)
    (email : Text) : Except VaultError Credentials :=
  client.getUserCredentialsByKey server kv (sanitizeEmailKey email)

def VaultClient.putUserCredentials (server : Server) (kv : Store Text Credentials)
    (email : Text) (creds : Credentials) : Store Text Credentials × Except VaultError Unit :=
  client.putUserCredentialsByKey server kv (sanitizeEmailKey email) creds

/-- How a character stands in a key. -/
def keySpelling (c : Char) : Text := if c = '@' then "_at_" else if isKeyChar c then [c] else []

theorem sanitizeEmailKey_eq (email : Text) : sanitizeEmailKey email = email.flatMap keySpelling := by
  rw [sanitizeEmailKey, List.filter_flatMap]
  apply congrArg (email.flatMap ·)
  funext c
  by_cases hc : c = '@'
  · subst hc
    rfl
  · by_cases hkey : isKeyChar c
    · simp [keySpelling, hc, hkey]
    · simp [keySpelling, hc, hkey]

theorem keySpelling_spelled (c : Char) : (keySpelling c).flatMap keySpelling = keySpelling c := by
  rw [keySpelling]
  split_ifs with hat hkey
  · rfl
  · simp [keySpelling, hat, hkey]
  · rfl

/-- The emails come to one key: exchanging `@` and `_at_`, and adding or dropping characters outside the alphabet
of keys, turns one into the other. -/
def SameKey (a b : Text) : Prop := Relation.EqvGen (Respells keySpelling) a b

theorem sameKey_iff {a b : Text} : SameKey a b ↔ sanitizeEmailKey a = sanitizeEmailKey b := by
  rw [SameKey, eqvGen_respells_iff keySpelling_spelled, sanitizeEmailKey_eq, sanitizeEmailKey_eq]

theorem VaultClient.userPath_injective (client : VaultClient) : Function.Injective client.userPath := by
  intro a b h
  exact List.append_cancel_left h

/-- What one user stores does not change what the other one reads. -/
def VaultClient.Separate (a b : Text) : Prop :=
  ∀ (kv : Store Text Credentials) (creds : Credentials) (put get : Server),
    client.getUserCredentials get (client.putUserCredentials put kv a creds).1 b = client.getUserCredentials get kv b

variable (client : VaultClient) {a b : Text}

theorem VaultClient.separate_of_ne (h : sanitizeEmailKey a ≠ sanitizeEmailKey b) : client.Separate a b := by
  intro kv creds put get
  have hpath : client.userPath (sanitizeEmailKey b) ≠ client.userPath (sanitizeEmailKey a) :=
    fun hpath => h (client.userPath_injective hpath).symm
  cases put with
  | failing | refusing => rfl
  | serving =>
    cases get with
    | failing | refusing => rfl
    | serving =>
      simp only [getUserCredentials, getUserCredentialsByKey, putUserCredentials, putUserCredentialsByKey]
      rw [AList.lookup_insert_ne hpath]

theorem VaultClient.not_separate_of_eq (h : sanitizeEmailKey a = sanitizeEmailKey b) : ¬client.Separate a b := by
  intro hseparate
  have hread := hseparate ∅ (AList.insert "password".toList "secret".toList ∅) .serving .serving
  simp only [getUserCredentials, getUserCredentialsByKey, putUserCredentials, putUserCredentialsByKey, h,
    AList.lookup_insert, AList.lookup_empty, getRefused, Except.ok.injEq] at hread
  have hlookup := congrArg (AList.lookup "password".toList) hread
  rw [AList.lookup_insert, AList.lookup_empty] at hlookup
  cases hlookup

/-- **Per-user secrets.** Two users have different paths, and neither reads what the other stores, exactly if their
emails cannot be turned into each other by exchanging `@` and `_at_` and by adding or dropping characters that
keys do not have. -/
theorem user_secrets_separate_iff (a b : Text) :
    client.userPath (sanitizeEmailKey a) ≠ client.userPath (sanitizeEmailKey b) ∧ client.Separate a b ↔
      ¬SameKey a b := by
  rw [sameKey_iff]
  constructor
  · rintro ⟨hpath, -⟩ hkey
    exact hpath (congrArg client.userPath hkey)
  · intro hkey
    exact ⟨fun hpath => hkey (client.userPath_injective hpath), client.separate_of_ne hkey⟩

/-- **One secret for two users.** Both emails are accepted as they stand. -/
theorem tagged_email_shares_secret : validateEmail (some "ann+it@x.io".toList) = .ok (some "ann+it@x.io".toList) ∧
      validateEmail (some "annit@x.io".toList) = .ok (some "annit@x.io".toList) ∧
      "ann+it@x.io".toList ≠ "annit@x.io".toList ∧
      ∀ client : VaultClient, client.userPath (sanitizeEmailKey "ann+it@x.io".toList) =
        client.userPath (sanitizeEmailKey "annit@x.io".toList) ∧
      ¬client.Separate "ann+it@x.io".toList "annit@x.io".toList := by
  have hkey : sanitizeEmailKey "ann+it@x.io".toList = sanitizeEmailKey "annit@x.io".toList := by decide +kernel
  refine ⟨by decide +kernel, by decide +kernel, by decide +kernel, fun client => ⟨?_, ?_⟩⟩
  · rw [hkey]
  · exact client.not_separate_of_eq hkey

end Persea.Vault
