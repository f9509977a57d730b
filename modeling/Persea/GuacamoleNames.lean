import Persea.BaseOccurrence
import Persea.GuacamoleGroups
import Persea.ImportFolders

/-! The entries that a Guacamole import makes of connections. `deduplicate_names` gives a number to every repetition of a
name in a folder, but does not look whether the name with its number is another connection's. -/

namespace Persea.Guacamole

open Base Base.Text AddressBook List

structure Connection where
  id : Int
  name : Text
  parentId : Option Int
  protocol : Text
deriving DecidableEq, Repr

def sqlImportProtocolSupported (protocol : Text) : Bool := protocol = "ssh" || protocol = "rdp" || protocol = "vnc"

/-- The key of an entry, which is its folder and its name, and the connection it is made of. No character outside of
ASCII has a letter of a supported protocol for its lower case. -/
def importEntries (paths : Paths) (connections : List Connection) : List ((Text × Text) × Connection) :=
  (connections.filter fun conn => sqlImportProtocolSupported (lowerAscii conn.protocol)).map fun conn =>
    (((conn.parentId.bind paths.lookup).getD [], sanitizeName conn.name), conn)

/-- A name with the number of its occurrence, cut to 64 characters; names are ASCII. -/
def numberedName (name : Text) (count : Nat) : Text :=
  let suffix := '-' :: decimal count
  name.take (64 - suffix.length) ++ suffix

def deduplicateLoop {ε : Type} :
    (seen : Store (Text × Text) Nat) → List ((Text × Text) × ε) → List ((Text × Text) × ε)
  | _, [] => []
  | seen, ((subfolder, name), entry) :: rest =>
    let count := (seen.lookup (subfolder, name)).getD 0 + 1
    ((subfolder, if 1 < count then numberedName name count else name), entry) ::
      deduplicateLoop (seen.insert (subfolder, name) count) rest

def deduplicateNames {ε : Type} (entries : List ((Text × Text) × ε)) : List ((Text × Text) × ε) :=
  deduplicateLoop ∅ entries

def renamed (occurrence : (Text × Text) × Nat) : Text × Text :=
  (occurrence.1.1, if 1 < occurrence.2 then numberedName occurrence.1.2 occurrence.2 else occurrence.1.2)

theorem map_fst_deduplicateLoop {ε : Type} (seen : Store (Text × Text) Nat) (entries : List ((Text × Text) × ε)) :
    (deduplicateLoop seen entries).map Prod.fst =
      (Occurrence.numbered (fun key => (seen.lookup key).getD 0) (entries.map Prod.fst)).map renamed := by
  induction entries generalizing seen with
  | nil => rfl
  | cons first rest ih =>
    obtain ⟨⟨subfolder, name⟩, entry⟩ := first
    rw [deduplicateLoop, map_cons, map_cons, Occurrence.numbered, map_cons, ih]
    have hseen : (fun key => ((seen.insert (subfolder, name) ((seen.lookup (subfolder, name)).getD 0 + 1)).lookup
        key).getD 0) = Function.update (fun key => (seen.lookup key).getD 0) (subfolder, name)
          ((seen.lookup (subfolder, name)).getD 0 + 1) := by
      funext key
      by_cases hkey : key = (subfolder, name)
      · rw [hkey, AList.lookup_insert, Function.update_self]
        rfl
      · rw [AList.lookup_insert_ne hkey, Function.update_of_ne hkey]
    rw [hseen]
    rfl

theorem map_snd_deduplicateLoop {ε : Type} (seen : Store (Text × Text) Nat) (entries : List ((Text × Text) × ε)) :
    (deduplicateLoop seen entries).map Prod.snd = entries.map Prod.snd := by
  induction entries generalizing seen with
  | nil => rfl
  | cons first rest ih =>
    obtain ⟨⟨subfolder, name⟩, entry⟩ := first
    rw [deduplicateLoop, map_cons, map_cons, ih]

theorem numberedName_eq_iff {name name' : Text} {m n : Nat} : numberedName name m = numberedName name' n ↔
      m = n ∧ name.take (63 - (decimal m).length) = name'.take (63 - (decimal m).length) := by
  have hdash : ∀ k, '-' ∉ decimal k := fun k h => absurd (isDigit_of_mem_decimal h) (by decide)
  have hsplit : ∀ (name : Text) (k : Nat), rsplitOnce '-' (numberedName name k) =
      some (name.take (63 - (decimal k).length), decimal k) := by
    intro name k
    have hbase : 64 - ('-' :: decimal k).length = 63 - (decimal k).length := by
      rw [length_cons]
      omega
    exact rsplitOnce_eq_some.mpr ⟨by rw [numberedName, hbase], hdash k⟩
  constructor
  · intro h
    have hparts := (hsplit name m).symm.trans (h ▸ hsplit name' n)
    obtain ⟨hbase, hnumber⟩ := Prod.mk.inj (Option.some.inj hparts)
    have hvalue := congrArg (Nat.ofDigitChars 10 · 0) hnumber
    simp only [decimal, Nat.ofDigitChars_ten_toDigits] at hvalue
    subst hvalue
    exact ⟨rfl, hbase⟩
  · rintro ⟨rfl, hbase⟩
    have hlength : 64 - ('-' :: decimal m).length = 63 - (decimal m).length := by
      rw [length_cons]
      omega
    rw [numberedName, numberedName, hlength, hbase]

/-- No name with a number is a name that a connection has in that folder, and no two names that both repeat in a folder
are cut to the same text for a number. -/
def Unambiguous (keys : List (Text × Text)) : Prop :=
  (∀ subfolder name n, 1 < n → n ≤ keys.count (subfolder, name) → (subfolder, numberedName name n) ∉ keys) ∧
  ∀ subfolder name name' n, name ≠ name' → 1 < n → n ≤ keys.count (subfolder, name) →
    n ≤ keys.count (subfolder, name') → name.take (63 - (decimal n).length) ≠ name'.take (63 - (decimal n).length)

theorem renamed_of_lt {subfolder name : Text} {n : Nat} (h : 1 < n) :
    renamed ((subfolder, name), n) = (subfolder, numberedName name n) := by
  rw [renamed, if_pos h]

theorem renamed_one (key : Text × Text) : renamed (key, 1) = key := rfl

theorem nodup_map_renamed_iff (keys : List (Text × Text)) :
    ((Occurrence.numbered (fun _ => 0) keys).map renamed).Nodup ↔ Unambiguous keys := by
  rw [Occurrence.nodup_map_numbered_iff]
  constructor
  · intro hinj
    constructor
    · intro subfolder name n hn hcount hmem
      obtain ⟨-, hone⟩ := hinj (subfolder, name) n (subfolder, numberedName name n) 1 (by omega) hcount (by omega)
        (count_pos_iff.mpr hmem) (renamed_of_lt hn)
      omega
    · intro subfolder name name' n hne hn hcount hcount' hbase
      have hnumbered : numberedName name n = numberedName name' n := numberedName_eq_iff.mpr ⟨rfl, hbase⟩
      obtain ⟨hkey, -⟩ := hinj (subfolder, name) n (subfolder, name') n (by omega) hcount (by omega) hcount'
        (by rw [renamed_of_lt hn, renamed_of_lt hn, hnumbered])
      exact hne (congrArg Prod.snd hkey)
  · rintro ⟨hfresh, hcut⟩ ⟨subfolder, name⟩ m ⟨subfolder', name'⟩ n hm hmcount hn hncount heq
    obtain rfl : subfolder = subfolder' := congrArg Prod.fst heq
    by_cases hm1 : m = 1 <;> by_cases hn1 : n = 1
    · subst hm1 hn1
      exact ⟨heq, rfl⟩
    · -- The second occurrence has a number, and the first name is the one it makes.
      subst hm1
      rw [renamed_one, renamed_of_lt (by omega)] at heq
      refine absurd (count_pos_iff.mp hmcount) ?_
      rw [heq]
      exact hfresh _ _ _ (by omega) hncount
    · subst hn1
      rw [renamed_one, renamed_of_lt (by omega)] at heq
      refine absurd (count_pos_iff.mp hncount) ?_
      rw [← heq]
      exact hfresh _ _ _ (by omega) hmcount
    · rw [renamed_of_lt (by omega), renamed_of_lt (by omega)] at heq
      obtain ⟨rfl, hbase⟩ := numberedName_eq_iff.mp (congrArg Prod.snd heq)
      by_cases hname : name = name'
      · exact ⟨by rw [hname], rfl⟩
      · exact absurd hbase (hcut subfolder name name' m hname (by omega) hmcount hncount)

/-- The import keeps every entry, and gives them different keys unless a name with a number is taken. -/
theorem deduplicateNames_distinct_iff (paths : Paths) (connections : List Connection) :
    (((deduplicateNames (importEntries paths connections)).map Prod.fst).Nodup ∧
      (deduplicateNames (importEntries paths connections)).map Prod.snd =
        (importEntries paths connections).map Prod.snd) ↔
    Unambiguous ((importEntries paths connections).map Prod.fst) := by
  rw [deduplicateNames, map_fst_deduplicateLoop, map_snd_deduplicateLoop, eq_self, and_true]
  exact nodup_map_renamed_iff _

/-- Of three connections `a`, `a` and `a-2` the last two are both given the name `a-2`. -/
theorem deduplicateNames_same_name :
    ¬ ((deduplicateNames (importEntries ∅ [⟨1, "a", none, "ssh"⟩, ⟨2, "a", none, "ssh"⟩,
      ⟨3, "a-2", none, "ssh"⟩])).map Prod.fst).Nodup := by
  decide

end Persea.Guacamole
