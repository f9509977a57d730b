import Persea.BaseText

/-! Internet addresses, and networks in prefix notation. A network contains an address of its own family when the
two agree on the bits of the prefix. The texts are the dotted forms of version 4. -/

namespace Base

inductive IpAddr where
  | v4 (bits : BitVec 32)
  | v6 (bits : BitVec 128)
deriving DecidableEq, Repr

inductive IpNetwork where
  | v4 (bits : BitVec 32) (len : Fin 33)
  | v6 (bits : BitVec 128) (len : Fin 129)
deriving DecidableEq, Repr

namespace Ip

def samePrefix {w : Nat} (len : Nat) (a b : BitVec w) : Bool := a >>> (w - len) = b >>> (w - len)

def contains : IpNetwork → IpAddr → Bool
  | .v4 net len, .v4 a => samePrefix len net a
  | .v6 net len, .v6 a => samePrefix len net a
  | _, _ => false

def toV4 : IpAddr → Option (BitVec 32)
  | .v4 a => some a
  | .v6 a => if a >>> 32 = 0xffff#128 then some (a.setWidth 32) else none

def linkLocalNet : IpNetwork := .v4 0xa9fe0000#32 16

def isLinkLocal (ip : IpAddr) : Bool := (toV4 ip).any fun a => contains linkLocalNet (.v4 a)

theorem contains_linkLocalNet_v6 (a : BitVec 128) : contains linkLocalNet (.v6 a) = false := rfl

theorem isLinkLocal_v4 (a : BitVec 32) : isLinkLocal (.v4 a) = contains linkLocalNet (.v4 a) := rfl

def parseDecimal (bound : Nat) (t : Text) : Option Nat :=
  if t = [] ∨ !t.all Char.isDigit ∨ (t.head? = some '0' ∧ t ≠ ['0']) then none
  else
    let n := t.foldl (fun n c => 10 * n + (c.toNat - '0'.toNat)) 0
    if n ≤ bound then some n else none

def parseV4 (t : Text) : Option (BitVec 32) :=
  match (t.splitOn '.').map (parseDecimal 255) with
  | [some a, some b, some c, some d] => some (BitVec.ofNat 32 (((a * 256 + b) * 256 + c) * 256 + d))
  | _ => none

theorem isDigit_of_parseDecimal {bound n : Nat} {t : Text} (h : parseDecimal bound t = some n) :
    ∀ c ∈ t, c.isDigit := by
  unfold parseDecimal at h
  split at h
  · contradiction
  · rename_i hshape
    simp only [not_or, Bool.not_eq_true, Bool.not_eq_false'] at hshape
    exact List.all_eq_true.mp hshape.2.1

theorem isDigit_or_dot_of_parseV4 {t : Text} (h : (parseV4 t).isSome) {c : Char} (hc : c ∈ t) :
    c.isDigit ∨ c = '.' := by
  rcases @Text.mem_of_mem_splitOn _ _ '.' c t hc with hdot | ⟨piece, hpiece, hc⟩
  · exact .inr hdot
  · left
    have hsome : ∀ o ∈ (t.splitOn '.').map (parseDecimal 255), o.isSome := by
      unfold parseV4 at h
      split at h
      · rename_i hlist
        rw [hlist]
        simp
      · contradiction
    obtain ⟨n, hn⟩ := Option.isSome_iff_exists.mp (hsome _ (List.mem_map_of_mem hpiece))
    exact isDigit_of_parseDecimal hn c hc

def parseNetV4 (t : Text) : Option IpNetwork :=
  match Text.splitOnce '/' t with
  | some (address, len) =>
    match parseV4 address, parseDecimal 32 len with
    | some bits, some n => some (.v4 bits (Fin.ofNat 33 n))
    | _, _ => none
  | none => (parseV4 t).map fun bits => .v4 bits 32

example : parseV4 "169.254.169.254" = some 0xa9fea9fe#32 := by decide

example : parseNetV4 "169.254.0.0/16" = some linkLocalNet := by decide

end Ip

end Base
