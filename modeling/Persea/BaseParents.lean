import Mathlib.Data.Set.Finite.Basic
import Mathlib.Logic.Relation
import Mathlib.Order.WellFoundedSet

/-! Tables in which a row may name another one as its parent. Following the parents from a row comes to an end or goes
round in a circle; in a finite table, it always ends if and only if there is no circle. -/

namespace Base.Parents

variable {α : Type} {parent : α → Option α}

/-- Following the parents from here comes to an end. -/
inductive Ends (parent : α → Option α) : α → Prop
  | top {a : α} (h : parent a = none) : Ends parent a
  | under {a b : α} (h : parent a = some b) (hb : Ends parent b) : Ends parent a

/-- One row is reached from the other by following parents, at least one. -/
abbrev Above (parent : α → Option α) : α → α → Prop := Relation.TransGen fun b a => parent a = some b

theorem Above.of_self {a b : α} (h : Above parent a a) (hparent : parent a = some b) : Above parent b b := by
  obtain ⟨c, hac, hc⟩ := (Relation.TransGen.tail'_iff).mp h
  obtain rfl : b = c := Option.some.inj (hparent.symm.trans hc)
  exact Relation.TransGen.head' hparent hac

theorem Ends.not_above {a : α} (h : Ends parent a) : ¬Above parent a a := by
  induction h with
  | top hnone =>
    intro hcircle
    obtain ⟨c, -, hc⟩ := (Relation.TransGen.tail'_iff).mp hcircle
    rw [hnone] at hc
    cases hc
  | under hparent _ ih => exact fun hcircle => ih (hcircle.of_self hparent)

theorem ends_of_not_above {rows : Set α} (hrows : rows.Finite) (hparents : ∀ a b, parent a = some b → b ∈ rows)
    (hcircle : ∀ a, ¬Above parent a a) (a : α) : Ends parent a := by
  have : IsStrictOrder α (Above parent) :=
    { irrefl := hcircle
      trans := fun _ _ _ => Relation.TransGen.trans }
  have hwf : rows.WellFoundedOn (Above parent) := hrows.wellFoundedOn
  have hinside : ∀ b ∈ rows, Ends parent b := by
    intro b hb
    apply hwf.induction hb
    intro c _ ih
    cases hparent : parent c with
    | none => exact .top hparent
    | some d => exact .under hparent (ih d (hparents c d hparent) (Relation.TransGen.single hparent))
  cases hparent : parent a with
  | none => exact .top hparent
  | some b => exact .under hparent (hinside b (hparents a b hparent))

end Base.Parents
