import Persea.BaseTomlScan
import Persea.BaseUtf8

/-! The search filters of the LDAP provider: the configured filter, with what a user typed, escaped by `ldap_escape`, in
place of its placeholders. -/

namespace Persea.Ldap.Filter

open Base Base.Text List

def replaceChar (c : Char) (word s : Text) : Text := s.flatMap fun d => if d = c then word else [d]

def ldapEscape (input : Text) : Text :=
  replaceChar '\x00' "\\00" (replaceChar ')' "\\29" (replaceChar '(' "\\28" (replaceChar '*' "\\2a"
    (replaceChar '\\' "\\5c" input))))

/-- What stands between the placeholders. -/
def pieces : Text → List Text
  | [] => [[]]
  | '{' :: '}' :: rest => [] :: pieces rest
  | c :: rest => (pieces rest).modifyHead (c :: ·)

def searchFilter (template value : Text) : Text := (ldapEscape value).intercalate (pieces template)

/-- What the directory sees: the characters with a meaning, and the octets of names and values. -/
inductive Token where
  | opening | closing | star
  | octet (b : UInt8)
deriving DecidableEq, Repr

def tokens (c : Char) : Option (List Token) :=
  if c = '(' then some [.opening] else if c = ')' then some [.closing] else if c = '*' then some [.star]
  else if c = '\\' ∨ c = '\x00' then none else some ((String.utf8EncodeChar c).map .octet)

/-- A backslash and two digits stand for an octet. -/
def lex : Text → Option (List Token)
  | [] => some []
  | '\\' :: a :: b :: rest => do
    let high ← Toml.hexValue a
    let low ← Toml.hexValue b
    return .octet (UInt8.ofNat (16 * high + low)) :: (← lex rest)
  | c :: rest => do return (← tokens c) ++ (← lex rest)

theorem lex_append {s t : Text} {ts us : List Token} (hs : lex s = some ts) (ht : lex t = some us) :
    lex (s ++ t) = some (ts ++ us) := by
  fun_induction lex s generalizing ts with
  | case1 =>
    cases hs
    exact ht
  | case2 a b rest ih =>
    simp only [Option.bind_eq_bind, Option.bind_eq_some_iff, Option.pure_def, Option.some.injEq] at hs
    obtain ⟨high, hhigh, low, hlow, ts, hrest, rfl⟩ := hs
    simp [lex, hhigh, hlow, ih hrest]
  | case3 c rest hplain ih =>
    simp only [Option.bind_eq_bind, Option.bind_eq_some_iff, Option.pure_def, Option.some.injEq] at hs
    obtain ⟨first, hfirst, ts, hrest, rfl⟩ := hs
    have hc : c ≠ '\\' := by
      rintro rfl
      contradiction
    rw [cons_append, lex]
    · simp [hfirst, ih hrest]
    · exact fun _ _ _ h => absurd h hc

def octets (value : Text) : List Token := (Utf8.encode value).map .octet

theorem lex_ldapEscape (value : Text) : lex (ldapEscape value) = some (octets value) := by
  induction value with
  | nil => rfl
  | cons c value ih =>
    have hcons : ldapEscape (c :: value) = ldapEscape [c] ++ ldapEscape value := by
      simp only [ldapEscape, replaceChar, ← flatMap_append]
      rfl
    have hone : lex (ldapEscape [c]) = some (octets [c]) := by
      by_cases hspecial : c = '\\' ∨ c = '*' ∨ c = '(' ∨ c = ')' ∨ c = '\x00'
      · rcases hspecial with rfl | rfl | rfl | rfl | rfl <;> decide +kernel
      · simp only [not_or] at hspecial
        simp [ldapEscape, replaceChar, hspecial, lex, tokens, octets]
    rw [hcons, lex_append hone ih, octets, octets, ← map_append, ← Utf8.encode_append]
    rfl

/-- **No injection.** Whatever a user types, the directory sees the configured filter, and at each placeholder exactly
the octets of what was typed. -/
theorem searchFilter_reads (template value : Text) {parts : List (List Token)}
    (h : Forall₂ (lex · = some ·) (pieces template) parts) :
    lex (searchFilter template value) = some ((octets value).intercalate parts) := by
  unfold searchFilter
  generalize pieces template = texts at h
  induction h with
  | nil => rfl
  | cons hpart hparts ih =>
    cases hparts with
    | nil => simpa [intercalate] using hpart
    | cons =>
      rw [intercalate_cons_cons, intercalate_cons_cons]
      exact lex_append (lex_append hpart (lex_ldapEscape value)) ih

theorem searchFilter_reads_star : lex (searchFilter "(uid=\x7b\x7d)" "*)(uid=") =
    some ((octets "*)(uid=").intercalate [.opening :: octets "uid=", [.closing]]) := by
  apply searchFilter_reads
  have hpieces : pieces "(uid=\x7b\x7d)" = ["(uid=", ")"] := by decide +kernel
  rw [hpieces]
  exact .cons (by decide +kernel) (.cons (by decide +kernel) .nil)

end Persea.Ldap.Filter
