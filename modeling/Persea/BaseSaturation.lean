import Mathlib.Data.List.Dedup
import Mathlib.Logic.Relation
import Mathlib.Tactic

/-! Recursive queries: a row taken from the queue adds the rows it leads to that were never added before. The
evaluation ends and returns the rows reachable from the first ones. -/

namespace Base.Saturation

open Relation List

variable {α : Type} [DecidableEq α]

def fresh (seen rows : List α) : List α := (rows.filter (· ∉ seen)).dedup

/-- `seen` are all rows ever added to the queue. `none` when the fuel is not enough. -/
def saturate (next : α → List α) : Nat → List α → List α → Option (List α)
  | _, [], seen => some seen
  | 0, _ :: _, _ => none
  | fuel + 1, row :: queue, seen =>
    saturate next fuel (queue ++ fresh seen (next row)) (seen ++ fresh seen (next row))

def recursiveUnion (next : α → List α) (fuel : Nat) (first : List α) : Option (List α) :=
  saturate next fuel first.dedup first.dedup

def Reaches (next : α → List α) : α → α → Prop := ReflTransGen fun x y => y ∈ next x

variable {seen rows : List α} {next : α → List α} {fuel : Nat} {first : List α}

theorem mem_fresh {a : α} : a ∈ fresh seen rows ↔ a ∈ rows ∧ a ∉ seen := by simp [fresh]

theorem nodup_append_fresh (hseen : seen.Nodup) (rows : List α) : (seen ++ fresh seen rows).Nodup := by
  refine nodup_append.mpr ⟨hseen, nodup_dedup _, ?_⟩
  intro a ha b hb hab
  exact (mem_fresh.mp hb).2 (hab ▸ ha)

variable {queue all : List α}

theorem saturate_isSome (hnext : ∀ a, next a ⊆ all) (hnodup : seen.Nodup) (hseen : seen ⊆ all)
    (hfuel : all.length + queue.length ≤ fuel + seen.length) :
    ∃ rows, saturate next fuel queue seen = some rows := by
  induction fuel generalizing queue seen with
  | zero =>
    cases queue with
    | nil => exact ⟨seen, rfl⟩
    | cons row queue =>
      have hle : seen.length ≤ all.length := (subperm_of_subset hnodup hseen).length_le
      rw [length_cons] at hfuel
      omega
  | succ fuel ih =>
    cases queue with
    | nil => exact ⟨seen, rfl⟩
    | cons row queue =>
      refine ih (nodup_append_fresh hnodup _) ?_ ?_
      · intro a ha
        rcases mem_append.mp ha with ha | ha
        · exact hseen ha
        · exact hnext row (mem_fresh.mp ha).1
      · simp only [length_append, length_cons] at hfuel ⊢
        omega

theorem recursiveUnion_isSome (hnext : ∀ a, next a ⊆ all) (hfirst : first ⊆ all) (hfuel : all.length ≤ fuel) :
    ∃ rows, recursiveUnion next fuel first = some rows := by
  refine saturate_isSome hnext (nodup_dedup _) ?_ (Nat.add_le_add_right hfuel _)
  intro a ha
  exact hfirst (mem_dedup.mp ha)

theorem mem_of_closed (hfirst : first ⊆ seen)
    (hreach : ∀ a ∈ seen, ∃ s ∈ first, Reaches next s a) (hclosed : ∀ a ∈ seen, a ∈ [] ∨ next a ⊆ seen)
    (h : saturate next fuel [] seen = some rows) (a : α) :
    a ∈ rows ↔ ∃ s ∈ first, Reaches next s a := by
  have hrows : seen = rows := by cases fuel <;> simpa [saturate] using h
  subst hrows
  refine ⟨hreach a, ?_⟩
  rintro ⟨s, hs, hreaches⟩
  induction hreaches with
  | refl => exact hfirst hs
  | tail _ hstep ih => exact ((hclosed _ ih).resolve_left not_mem_nil) hstep

/-- Invariant: rows seen are reachable, and what a row leads to is seen once it has left the queue. -/
theorem mem_saturate (hfirst : first ⊆ seen) (hreach : ∀ a ∈ seen, ∃ s ∈ first, Reaches next s a)
    (hqueue : queue ⊆ seen) (hclosed : ∀ a ∈ seen, a ∈ queue ∨ next a ⊆ seen)
    (h : saturate next fuel queue seen = some rows) (a : α) :
    a ∈ rows ↔ ∃ s ∈ first, Reaches next s a := by
  induction fuel generalizing queue seen with
  | zero =>
    cases queue with
    | nil => exact mem_of_closed hfirst hreach hclosed h a
    | cons row queue => simp [saturate] at h
  | succ fuel ih =>
    cases queue with
    | nil => exact mem_of_closed hfirst hreach hclosed h a
    | cons row queue =>
      refine ih (fun b hb => mem_append_left _ (hfirst hb)) ?_ ?_ ?_ h
      · intro b hb
        rcases mem_append.mp hb with hb | hb
        · exact hreach b hb
        · obtain ⟨s, hs, hrow⟩ := hreach row (hqueue mem_cons_self)
          exact ⟨s, hs, hrow.tail (mem_fresh.mp hb).1⟩
      · intro b hb
        rcases mem_append.mp hb with hb | hb
        · exact mem_append_left _ (hqueue (mem_cons_of_mem _ hb))
        · exact mem_append_right _ hb
      · intro b hb
        rcases mem_append.mp hb with hb | hb
        · rcases hclosed b hb with hb | hb
          · rcases mem_cons.mp hb with rfl | hb
            · right
              intro c hc
              by_cases hcs : c ∈ seen
              · exact mem_append_left _ hcs
              · exact mem_append_right _ (mem_fresh.mpr ⟨hc, hcs⟩)
            · exact .inl (mem_append_left _ hb)
          · exact .inr fun c hc => mem_append_left _ (hb hc)
        · exact .inl (mem_append_right _ hb)
theorem mem_recursiveUnion (h : recursiveUnion next fuel first = some rows) (a : α) :
    a ∈ rows ↔ ∃ s ∈ first, Reaches next s a := by
  refine mem_saturate (fun b hb => mem_dedup.mpr hb) ?_ (fun b hb => hb) (fun b hb => .inl hb) h a
  intro b hb
  exact ⟨b, mem_dedup.mp hb, ReflTransGen.refl⟩

end Base.Saturation
