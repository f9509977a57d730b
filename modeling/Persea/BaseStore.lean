import Mathlib.Data.List.AList
import Mathlib.Tactic

/-! Stores: finite maps with one entry for each key. The lemmas say how the number of entries with a
property changes when an entry is replaced, added or removed. -/

namespace Base

abbrev Store (κ ν : Type) := AList fun _ : κ => ν

namespace Store

variable {κ ν : Type} [DecidableEq κ]

def weight (p : ν → Bool) (v : ν) : Nat := if p v then 1 else 0

def count (p : ν → Bool) (s : Store κ ν) : Nat := s.entries.countP fun e => p e.2

def retain (keep : κ → ν → Bool) (s : Store κ ν) : Store κ ν :=
  ⟨s.entries.filter fun e => keep e.1 e.2, s.nodupKeys.sublist List.filter_sublist⟩

theorem lookup_retain (keep : κ → ν → Bool) (s : Store κ ν) (k : κ) :
    (s.retain keep).lookup k = (s.lookup k).filter (keep k) := by
  ext v
  rw [← Option.mem_def, ← Option.mem_def, AList.mem_lookup_iff, Option.mem_filter_iff, AList.mem_lookup_iff, retain]
  exact List.mem_filter

variable {s : Store κ ν} {k : κ} {p : ν → Bool}

theorem lookup_retain_eq_some {keep : κ → ν → Bool} {v : ν} :
    (s.retain keep).lookup k = some v ↔ s.lookup k = some v ∧ keep k v := by
  rw [lookup_retain, Option.filter_eq_some_iff]

theorem lookup_retain_of_none {keep : κ → ν → Bool} (h : s.lookup k = none) : (s.retain keep).lookup k = none := by
  rw [lookup_retain, h]
  rfl

theorem count_erase {v : ν} (h : s.lookup k = some v) : count p (s.erase k) + weight p v = count p s := by
  have hkey : k ∈ s.entries.keys := AList.mem_keys.mpr (AList.lookup_isSome.mp (by rw [h]; rfl))
  obtain ⟨v', left, right, hleft, hentries, herase⟩ := List.exists_of_kerase hkey
  have hv : v' = v := by
    have hmem : (⟨k, v'⟩ : Sigma fun _ : κ => ν) ∈ s.entries := by
      rw [hentries]
      simp
    have hlookup : s.lookup k = some v' := AList.mem_lookup_iff.mpr hmem
    rw [h] at hlookup
    exact (Option.some.inj hlookup).symm
  have hcount : count p (s.erase k) = (left ++ right).countP fun e => p e.2 := by
    rw [← herase]
    rfl
  rw [hcount, count, hentries, hv]
  simp only [List.countP_append, List.countP_cons, weight]
  omega

theorem count_insert (p : ν → Bool) (s : Store κ ν) (k : κ) (v : ν) :
    count p (s.insert k v) = count p (s.erase k) + weight p v := by
  have hentries : (s.insert k v).entries = ⟨k, v⟩ :: (s.erase k).entries := rfl
  rw [count, hentries, List.countP_cons]
  rfl

theorem count_replace {old : ν} (h : s.lookup k = some old) (v : ν) :
    count p (s.insert k v) + weight p old = count p s + weight p v := by
  have herase := count_erase (p := p) h
  rw [count_insert]
  omega

theorem erase_of_lookup_none (h : s.lookup k = none) : s.erase k = s := by
  apply AList.ext
  exact List.kerase_of_notMem_keys (AList.lookup_eq_none.mp h)

theorem count_insert_new (h : s.lookup k = none) (v : ν) : count p (s.insert k v) = count p s + weight p v := by
  rw [count_insert, erase_of_lookup_none h]

end Store

end Base
