import Mathlib.Logic.Function.Basic
import Persea.BaseText

/-! TOML documents as what their statements build. No key may be given twice. What statements build under headers of
their own does not depend on what else is at the root. -/

namespace Base.Toml

open List Option Function

/-- How a table came to be: by its own header, on the way of a longer header, or by dotted keys. -/
inductive Kind
  | header
  | implicit
  | dotted
  deriving DecidableEq

/-- What a key can stand for. A scalar is a number, a boolean, a date or a time, as it is spelled. -/
inductive Node
  | text (s : Text)
  | scalar (token : Text)
  | array (items : List Node)
  | inline (entries : Text → Option Node)
  | table (kind : Kind) (entries : Text → Option Node)
  | tables (earlier : List (Text → Option Node)) (last : Text → Option Node)

abbrev Table := Text → Option Node

def Table.empty : Table := fun _ => none

def Node.get (key : Text) : Node → Option Node
  | .inline entries => entries key
  | .table _ entries => entries key
  | _ => none

def Node.asText : Node → Option Text
  | .text s => some s
  | _ => none

def Table.textAt (t : Table) (outer inner : Text) : Option Text := ((t outer).bind (Node.get inner)).bind Node.asText

def onKey (key : Text) (g : Option Node → Option Node) (t : Table) : Option Table :=
  (g (t key)).map fun node => Function.update t key (some node)

def enter (f : Table → Option Table) : Option Node → Option Node
  | some (.table kind t) => (f t).map (.table kind)
  | some (.tables earlier last) => (f last).map (.tables earlier)
  | _ => none

def inside (f : Table → Option Table) : List Text → Table → Option Table
  | [], t => f t
  | key :: path, t => onKey key (enter (inside f path)) t

def resolve : List Text → Table → Option Table
  | [], t => some t
  | key :: path, t =>
    match t key with
    | some (.table _ t) => resolve path t
    | some (.tables _ last) => resolve path last
    | _ => none

/-- Entering a table on the way of a header or of a dotted key, made if it is missing. A dotted key does not enter
what has a header. -/
def passThrough (dotted : Bool) (f : Kind → Table → Option Table) : Option Node → Option Node
  | none =>
    let kind := if dotted then .dotted else .implicit
    (f kind Table.empty).map (.table kind)
  | some (.table kind t) => if dotted ∧ kind = .header then none else (f kind t).map (.table kind)
  | some (.tables earlier last) => if dotted then none else (f .header last).map (.tables earlier)
  | some _ => none

def descend (dotted : Bool) (f : Kind → Table → Option Table) : List Text → Kind → Table → Option Table
  | [], kind, t => f kind t
  | key :: path, _, t => onKey key (passThrough dotted (descend dotted f path)) t

inductive Statement
  | assign (path : List Text) (key : Text) (node : Node)
  | header (path : List Text) (key : Text)
  | tables (path : List Text) (key : Text)

def put (node : Node) : Option Node → Option Node
  | none => some node
  | some _ => none

def openTable : Option Node → Option Node
  | none => some (.table .header Table.empty)
  | some (.table .implicit t) => some (.table .header t)
  | some _ => none

def appendTable : Option Node → Option Node
  | none => some (.tables [] Table.empty)
  | some (.tables earlier last) => some (.tables (earlier ++ [last]) Table.empty)
  | some _ => none

/-- An assignment to a dotted key. The tables that dotted keys fill are those that dotted keys made. -/
def insert (path : List Text) (key : Text) (node : Node) : Table → Option Table :=
  descend true (fun kind t => if path = [] ∨ kind = .dotted then onKey key (put node) t else none) path .header

/-- A document being read: what it has so far, and the table that assignments go to. -/
structure Doc where
  root : Table
  current : List Text

def Doc.step (d : Doc) : Statement → Option Doc
  | .assign path key node => (inside (insert path key node) d.current d.root).map fun root => ⟨root, d.current⟩
  | .header path key =>
    (descend false (fun _ => onKey key openTable) path .header d.root).map fun root => ⟨root, path ++ [key]⟩
  | .tables path key =>
    (descend false (fun _ => onKey key appendTable) path .header d.root).map fun root => ⟨root, path ++ [key]⟩

def Doc.run (d : Doc) (statements : List Statement) : Option Doc := statements.foldlM Doc.step d

def Doc.blank : Doc := ⟨Table.empty, []⟩

@[simp] theorem Doc.run_nil (d : Doc) : d.run [] = some d := rfl

@[simp] theorem Doc.run_cons (d : Doc) (s : Statement) (statements : List Statement) :
    d.run (s :: statements) = (d.step s).bind fun d => d.run statements := rfl

theorem Doc.run_append (d : Doc) (first second : List Statement) :
    d.run (first ++ second) = (d.run first).bind fun d => d.run second := by
  rw [run, foldlM_append]
  rfl

def Table.withEntries (t : Table) (entries : List (Text × Node)) : Table :=
  entries.foldl (fun t entry => Function.update t entry.1 (some entry.2)) t

theorem Table.withEntries_cons (t : Table) (entry : Text × Node) (entries : List (Text × Node)) :
    t.withEntries (entry :: entries) = Table.withEntries (Function.update t entry.1 (some entry.2)) entries := rfl

variable {t : Table} {key : Text} {entries : List (Text × Node)} {node : Node} {other : Table} {s : Statement}
  {d e : Doc} {path : List Text} {statements : List Statement} {f : Table → Option Table} {outer first inner : Text}
  {u : Table}

theorem Doc.step_assign_root (hfree : t key = none) (node : Node) :
    Doc.step ⟨t, []⟩ (.assign [] key node) = some ⟨Function.update t key (some node), []⟩ := by
  simp [step, inside, insert, descend, onKey, hfree, put]

theorem Doc.run_assign_root (hfree : ∀ entry ∈ entries, t entry.1 = none) (hkeys : (entries.map Prod.fst).Nodup) :
    Doc.run ⟨t, []⟩ (entries.map fun entry => .assign [] entry.1 entry.2) = some ⟨t.withEntries entries, []⟩ := by
  induction entries generalizing t with
  | nil => rfl
  | cons entry entries ih =>
    rw [forall_mem_cons] at hfree
    rw [map_cons, nodup_cons] at hkeys
    rw [map_cons, run_cons, step_assign_root hfree.1, bind_some, ih _ hkeys.2, Table.withEntries_cons]
    intro other hother
    have hne : other.1 ≠ entry.1 := fun heq => hkeys.1 (heq ▸ List.mem_map_of_mem hother)
    rw [update_of_ne hne, hfree.2 other hother]

theorem Table.withEntries_eq_some
    (h : t.withEntries entries key = some node) : t key = some node ∨ (key, node) ∈ entries := by
  induction entries generalizing t with
  | nil => exact .inl h
  | cons entry entries ih =>
    rw [withEntries_cons] at h
    rcases ih h with hkey | hmem
    · by_cases heq : key = entry.1
      · rw [heq, update_self, some.injEq] at hkey
        exact .inr (mem_cons.mpr (.inl (by rw [heq, ← hkey])))
      · rw [update_of_ne heq] at hkey
        exact .inl hkey
    · exact .inr (mem_cons_of_mem entry hmem)

theorem Table.withEntries_eq_none : t.withEntries entries key = none ↔ t key = none ∧ key ∉ entries.map Prod.fst := by
  induction entries generalizing t with
  | nil => simp [withEntries]
  | cons entry entries ih =>
    rw [withEntries_cons, ih, map_cons, mem_cons, not_or]
    by_cases heq : key = entry.1
    · simp [heq]
    · rw [update_of_ne heq]
      simp [heq]

/-! ### What else the root has -/

def Table.beside (other t : Table) : Table := fun key => (other key).or (t key)

def Doc.beside (other : Table) (d : Doc) : Doc := ⟨other.beside d.root, d.current⟩

def Node.Leaf : Node → Prop
  | .text _ => True
  | .scalar _ => True
  | _ => False

def Statement.opened : Statement → Option (List Text)
  | .assign _ _ _ => none
  | .header path key => some (path ++ [key])
  | .tables path key => some (path ++ [key])

def Statement.Clear (free : Text → Prop) (s : Statement) : Prop := ∀ path ∈ s.opened, ∀ key ∈ path.head?, free key

instance (free : Text → Prop) [DecidablePred free] (s : Statement) : Decidable (s.Clear free) :=
  inferInstanceAs (Decidable (∀ path ∈ s.opened, ∀ key ∈ path.head?, free key))

theorem Table.beside_of_none (h : other key = none) (t : Table) : other.beside t key = t key := by
  rw [beside, h, none_or]

theorem onKey_beside (hfree : other key = none) (g : Option Node → Option Node)
    (t : Table) : onKey key g (other.beside t) = (onKey key g t).map other.beside := by
  have hupdate : ∀ node, Function.update (other.beside t) key (some node) =
      other.beside (Function.update t key (some node)) := by
    intro node
    funext k
    by_cases hk : k = key
    · rw [hk, Table.beside_of_none hfree, update_self, update_self]
    · rw [update_of_ne hk, Table.beside, Table.beside, update_of_ne hk]
  rw [onKey, onKey, Table.beside_of_none hfree, Option.map_map]
  congr 1
  funext node
  exact hupdate node

theorem exists_descend (f : Option Node → Option Node) (hf : ∀ node : Node, node.Leaf → f (some node) = none)
    (path : List Text) (key : Text) :
    ∃ first g, (path ++ [key]).head? = some first ∧ (∀ node : Node, node.Leaf → g (some node) = none) ∧
      ∀ t, descend false (fun _ => onKey key f) path .header t = onKey first g t := by
  cases path with
  | nil => exact ⟨key, f, rfl, hf, fun t => rfl⟩
  | cons first path =>
    refine ⟨first, _, rfl, ?_, fun t => rfl⟩
    intro node hleaf
    cases node <;> first | rfl | exact hleaf.elim

theorem openTable_leaf (node : Node) (h : node.Leaf) : openTable (some node) = none := by
  cases node <;> first | rfl | exact h.elim

theorem appendTable_leaf (node : Node) (h : node.Leaf) : appendTable (some node) = none := by
  cases node <;> first | rfl | exact h.elim

theorem Doc.step_taken (hother : ∀ key node, other key = some node → node.Leaf)
    (hs : ¬s.Clear (other · = none)) (d : Doc) : (d.beside other).step s = none := by
  have hrefused : ∀ (f : Option Node → Option Node), (∀ node : Node, node.Leaf → f (some node) = none) →
      ∀ path key, ¬(∀ first ∈ (path ++ [key]).head?, other first = none) →
        descend false (fun _ => onKey key f) path .header (other.beside d.root) = none := by
    intro f hf path key htaken
    obtain ⟨first, g, hfirst, hg, heq⟩ := exists_descend f hf path key
    rw [hfirst] at htaken
    obtain ⟨node, hnode⟩ : ∃ node, other first = some node := by
      rw [← ne_none_iff_exists']
      intro hnone
      exact htaken (by rintro _ ⟨⟩; exact hnone)
    rw [heq, onKey, Table.beside, hnode, some_or, hg node (hother first node hnode)]
    rfl
  cases s with
  | assign path key node => exact absurd (fun _ h => by cases h) hs
  | header path key =>
    rw [step, beside, hrefused openTable openTable_leaf path key fun h => hs (by rintro _ ⟨⟩; exact h)]
    rfl
  | tables path key =>
    rw [step, beside, hrefused appendTable appendTable_leaf path key fun h => hs (by rintro _ ⟨⟩; exact h)]
    rfl

theorem Doc.step_beside (hcurrent : s.opened = none → ∃ first, d.current.head? = some first ∧ other first = none)
    (hs : s.Clear (other · = none)) : (d.beside other).step s = (d.step s).map (Doc.beside other) := by
  have hheader : ∀ (f : Option Node → Option Node), (∀ node : Node, node.Leaf → f (some node) = none) →
      ∀ path key, (∀ k ∈ (path ++ [key]).head?, other k = none) →
        descend false (fun _ => onKey key f) path .header (other.beside d.root) =
          (descend false (fun _ => onKey key f) path .header d.root).map other.beside := by
    intro f hf path key hclear
    obtain ⟨k, g, hk, -, heq⟩ := exists_descend f hf path key
    rw [heq, heq, onKey_beside (hclear k hk)]
  cases s with
  | assign path key node =>
    obtain ⟨first, hhead, hfirst⟩ := hcurrent rfl
    obtain ⟨rest, hrest⟩ : ∃ rest, d.current = first :: rest := head?_eq_some_iff.mp hhead
    rw [step, beside, step, hrest, inside, inside, onKey_beside hfirst, Option.map_map, Option.map_map]
    rfl
  | header path key =>
    rw [step, beside, hheader openTable openTable_leaf path key (hs _ rfl), step, Option.map_map, Option.map_map]
    rfl
  | tables path key =>
    rw [step, beside, hheader appendTable appendTable_leaf path key (hs _ rfl), step, Option.map_map, Option.map_map]
    rfl

theorem Doc.current_of_step (hstep : d.step s = some e) : e.current = s.opened.getD d.current := by
  cases s with
  | assign path key node | header path key | tables path key =>
    obtain ⟨root, -, rfl⟩ := map_eq_some_iff.mp hstep
    rfl

theorem Statement.opened_ne_nil (h : s.opened = some path) : path ≠ [] := by
  cases s with
  | assign => cases h
  | header path key | tables path key =>
    rw [← some.inj h]
    exact concat_ne_nil key path

theorem Doc.current_step (hs : s.Clear (other · = none))
    (hcurrent : ∃ first, d.current.head? = some first ∧ other first = none) (hstep : d.step s = some e) :
    ∃ first, e.current.head? = some first ∧ other first = none := by
  rw [current_of_step hstep]
  cases hopened : s.opened with
  | none => exact hcurrent
  | some path =>
    obtain ⟨first, rest, rfl⟩ := exists_cons_of_ne_nil (Statement.opened_ne_nil hopened)
    exact ⟨first, rfl, hs _ hopened first rfl⟩

/-- **Statements beside the leaves of a root.** Under a header of their own, statements can be read beside other
entries of the root exactly when they can be read alone and no header of theirs names one of those. -/
theorem Doc.run_beside_iff (hother : ∀ key node, other key = some node → node.Leaf)
    (hcurrent : ∃ first, d.current.head? = some first ∧ other first = none)
    :
    (d.beside other).run statements = some e ↔
      (∀ s ∈ statements, s.Clear (other · = none)) ∧ ∃ alone, d.run statements = some alone ∧ e = alone.beside other := by
  induction statements generalizing d with
  | nil => simp [eq_comm]
  | cons s statements ih =>
    by_cases hs : s.Clear (other · = none)
    · rw [run_cons, run_cons, step_beside (fun _ => hcurrent) hs, forall_mem_cons]
      cases hstep : d.step s with
      | none => simp
      | some next =>
        simp only [map_some, bind_some, hs, true_and]
        exact ih (current_step hs hcurrent hstep)
    · rw [run_cons, step_taken hother hs, forall_mem_cons]
      simp [hs]

theorem Table.beside_empty (other : Table) : other.beside Table.empty = other := by
  funext key
  exact or_none

theorem Doc.step_header_blank (key : Text) : Doc.blank.step (.header [] key) =
      some ⟨Function.update Table.empty key (some (.table .header Table.empty)), [key]⟩ := rfl

theorem Doc.run_section_iff (hother : ∀ key node, other key = some node → node.Leaf)
    (hkey : other key = none) {body : List Statement} :
    Doc.run ⟨other, []⟩ (.header [] key :: body) = some e ↔ (∀ s ∈ body, s.Clear (other · = none)) ∧
        ∃ alone, Doc.blank.run (.header [] key :: body) = some alone ∧ e = alone.beside other := by
  have hclear : Statement.Clear (other · = none) (.header [] key) := by
    rintro path ⟨⟩ first ⟨⟩
    exact hkey
  have hblank : (⟨other, []⟩ : Doc) = Doc.blank.beside other := by rw [beside, blank, Table.beside_empty]
  rw [hblank, run_cons, step_beside (fun h => by cases h) hclear, run_cons, step_header_blank, map_some,
    bind_some, bind_some, run_beside_iff hother ⟨key, rfl, hkey⟩]

/-! ### One more assignment -/

theorem insert_nil (key : Text) (node : Node) : insert [] key node = onKey key (put node) := by
  funext t
  simp [insert, descend]

variable {g : Option Node → Option Node} {entry : Option Node}

theorem enter_isSome : (enter f entry).isSome ↔ ∃ t, (match entry with
        | some (.table _ t) => some t
        | some (.tables _ last) => some last
        | _ => none) = some t ∧ (f t).isSome := by
  unfold enter
  split <;> simp

theorem inside_isSome :
    (inside (insert [] key node) path t).isSome ↔ ∃ u, resolve path t = some u ∧ u key = none := by
  induction path generalizing t with
  | nil =>
    rw [inside, insert_nil, onKey, isSome_map, resolve]
    cases hentry : t key <;> simp [put, hentry]
  | cons first path ih =>
    rw [inside, onKey, isSome_map, enter_isSome, resolve]
    simp only [ih]
    cases hentry : t first with
    | none => simp
    | some node => cases node <;> simp

theorem Table.textAt_update_of_ne (hne : first ≠ outer) (entry : Option Node)
    (inner : Text) : Table.textAt (Function.update t first entry) outer inner = t.textAt outer inner := by
  rw [textAt, update_of_ne hne.symm, textAt]

theorem enter_eq_some (h : enter f entry = some node) :
    (∃ kind t u, entry = some (.table kind t) ∧ f t = some u ∧ node = .table kind u) ∨
      ∃ earlier last u, entry = some (.tables earlier last) ∧ f last = some u ∧ node = .tables earlier u := by
  unfold enter at h
  split at h
  · rename_i kind t
    obtain ⟨u, hu, rfl⟩ := map_eq_some_iff.mp h
    exact .inl ⟨kind, t, u, rfl, hu, rfl⟩
  · rename_i earlier last
    obtain ⟨u, hu, rfl⟩ := map_eq_some_iff.mp h
    exact .inr ⟨earlier, last, u, rfl, hu, rfl⟩
  · contradiction

theorem asText_inside
    (h : inside f (first :: path) t = some u) : (u inner).bind Node.asText = (t inner).bind Node.asText := by
  obtain ⟨node, hnode, rfl⟩ := map_eq_some_iff.mp h
  by_cases hfirst : first = inner
  · subst hfirst
    rw [update_self]
    rcases enter_eq_some hnode with ⟨kind, t', u', htable, -, rfl⟩ | ⟨earlier, last, u', htables, -, rfl⟩
    · rw [htable]
      rfl
    · rw [htables]
      rfl
  · rw [update_of_ne (Ne.symm hfirst)]

theorem textAt_inside_of_ne (hroot : path ≠ []) (hother : path ≠ [outer]) (h : inside f path t = some u) :
    u.textAt outer inner = t.textAt outer inner := by
  obtain ⟨first, rest, rfl⟩ := exists_cons_of_ne_nil hroot
  obtain ⟨node, hnode, rfl⟩ := map_eq_some_iff.mp h
  by_cases hfirst : first = outer
  · subst hfirst
    have hrest : rest ≠ [] := fun hnil => hother (by rw [hnil])
    obtain ⟨second, rest, rfl⟩ := exists_cons_of_ne_nil hrest
    rw [Table.textAt, update_self, Table.textAt]
    rcases enter_eq_some hnode with ⟨kind, t', u', htable, hinside, rfl⟩ | ⟨earlier, last, u', htables, -, rfl⟩
    · rw [htable]
      exact asText_inside hinside
    · rw [htables]
      rfl
  · exact Table.textAt_update_of_ne hfirst _ inner

theorem textAt_inside_self {v : Text} {sub : Table} {kind : Kind}
    (htable : t outer = some (.table kind sub)) (h : inside (insert [] inner (.text v)) [outer] t = some u) :
    u.textAt outer inner = some v := by
  obtain ⟨node, hnode, rfl⟩ := map_eq_some_iff.mp h
  rw [Table.textAt, update_self]
  rw [htable] at hnode
  obtain ⟨sub', hsub, rfl⟩ := map_eq_some_iff.mp hnode
  rw [inside, insert_nil] at hsub
  obtain ⟨leaf, hleaf, rfl⟩ := map_eq_some_iff.mp hsub
  have htext : leaf = .text v := by
    cases hentry : sub inner <;> rw [hentry] at hleaf <;> cases hleaf
    rfl
  rw [htext]
  change (Function.update sub inner (some (Node.text v)) inner).bind Node.asText = some v
  rw [update_self]
  rfl

theorem Doc.current_run (hcurrent : d.current ≠ []) (h : d.run statements = some e) : e.current ≠ [] := by
  induction statements generalizing d with
  | nil =>
    obtain rfl : d = e := some.inj h
    exact hcurrent
  | cons s statements ih =>
    obtain ⟨next, hstep, hrun⟩ := Option.bind_eq_some_iff.mp h
    refine ih ?_ hrun
    rw [current_of_step hstep]
    cases hopened : s.opened with
    | none => exact hcurrent
    | some path => exact Statement.opened_ne_nil hopened

def KeepsHeader (g : Option Node → Option Node) : Prop :=
  ∀ t node, g (some (.table .header t)) = some node → ∃ u, node = .table .header u

theorem header_onKey (hg : KeepsHeader g) (hkey : ∃ sub, t key = some (.table .header sub))
    (h : onKey first g t = some u) :
    ∃ sub, u key = some (.table .header sub) := by
  obtain ⟨node, hnode, rfl⟩ := map_eq_some_iff.mp h
  obtain ⟨sub, hsub⟩ := hkey
  by_cases hfirst : key = first
  · subst hfirst
    rw [hsub] at hnode
    obtain ⟨sub', rfl⟩ := hg sub node hnode
    exact ⟨sub', update_self ..⟩
  · exact ⟨sub, by rw [update_of_ne hfirst, hsub]⟩

theorem keepsHeader_enter (f : Table → Option Table) : KeepsHeader (enter f) := by
  intro t node h
  obtain ⟨u, -, rfl⟩ := map_eq_some_iff.mp h
  exact ⟨u, rfl⟩

theorem keepsHeader_passThrough (dotted : Bool) (f : Kind → Table → Option Table) :
    KeepsHeader (passThrough dotted f) := by
  intro t node h
  rw [passThrough] at h
  split_ifs at h
  obtain ⟨u, -, rfl⟩ := map_eq_some_iff.mp h
  exact ⟨u, rfl⟩

theorem header_descend {dotted : Bool} {f : Kind → Table → Option Table} {last : Text}
    (hf : ∀ t u, f .header t = some u → onKey last g t = some u) (hg : KeepsHeader g)
    (hkey : ∃ sub, t key = some (.table .header sub)) (h : descend dotted f path .header t = some u) :
    ∃ sub, u key = some (.table .header sub) := by
  cases path with
  | nil => exact header_onKey hg hkey (hf t u h)
  | cons first path => exact header_onKey (keepsHeader_passThrough dotted _) hkey h

/-- **A table with a header** stays one. -/
theorem Doc.header_step (hkey : ∃ sub, d.root key = some (.table .header sub))
    (h : d.step s = some e) : ∃ sub, e.root key = some (.table .header sub) := by
  cases s with
  | assign path last node =>
    obtain ⟨root, hroot, rfl⟩ := map_eq_some_iff.mp h
    cases hcurrent : d.current with
    | nil =>
      have hput : ∀ t u, (if path = [] ∨ Kind.header = .dotted then onKey last (put node) t else none) = some u →
          onKey last (put node) t = some u := by
        intro t u hu
        by_cases hpath : path = [] ∨ Kind.header = .dotted
        · rwa [if_pos hpath] at hu
        · rw [if_neg hpath] at hu
          contradiction
      rw [hcurrent, inside, insert] at hroot
      exact header_descend hput (fun t node h => by cases h) hkey hroot
    | cons first rest =>
      rw [hcurrent] at hroot
      exact header_onKey (keepsHeader_enter _) hkey hroot
  | header path last | tables path last =>
    obtain ⟨root, hroot, rfl⟩ := map_eq_some_iff.mp h
    exact header_descend (fun t u hu => hu) (fun t node h => by cases h) hkey hroot

theorem Doc.header_run (hkey : ∃ sub, d.root key = some (.table .header sub)) (h : d.run statements = some e) :
    ∃ sub, e.root key = some (.table .header sub) := by
  induction statements generalizing d with
  | nil =>
    obtain rfl : d = e := some.inj h
    exact hkey
  | cons s statements ih =>
    obtain ⟨next, hstep, hrun⟩ := Option.bind_eq_some_iff.mp h
    exact ih (header_step hkey hstep) hrun

end Base.Toml
