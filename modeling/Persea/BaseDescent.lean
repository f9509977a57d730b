import Mathlib.Algebra.BigOperators.Group.Finset.Basic
import Mathlib.Data.Finset.Max
import Mathlib.Data.List.TakeWhile
import Mathlib.Tactic

/-! A search that goes from an item into all that is below it, and not only into what is right below. An item is then
come to once for every way down to it: where the items form a forest, twice as often for every item in between. -/

namespace Base.Descent

open List
open Finset hiding forall_mem_cons mem_filter

variable {α : Type}

section Search

variable (below : α → List α) (good : α → Bool)

def tryAll (visit : α → Option (Bool × ℕ)) : List α → Option (Bool × ℕ)
  | [] => some (false, 0)
  | a :: items =>
    match visit a with
    | none => none
    | some (true, calls) => some (true, calls)
    | some (false, calls) => (tryAll visit items).map fun result => (result.1, calls + result.2)

/-- The item itself is tested first. `none` is a search that has not ended. -/
def visit : (fuel : ℕ) → α → Option (Bool × ℕ)
  | 0, _ => none
  | fuel + 1, a =>
    if good a then some (true, 1)
    else (tryAll (visit fuel) (below a)).map fun result => (result.1, 1 + result.2)

end Search

/-- The items below an item form a forest: those that have an item in common below them are below one another. -/
structure Nested (below : α → List α) : Prop where
  nodup : ∀ a, (below a).Nodup
  irrefl : ∀ a, a ∉ below a
  trans : ∀ a, ∀ b ∈ below a, ∀ c ∈ below b, c ∈ below a
  linear : ∀ a, ∀ b ∈ below a, ∀ c ∈ below a, ∀ d, d ∈ below b → d ∈ below c → b = c ∨ c ∈ below b ∨ b ∈ below c

variable {below : α → List α} {good : α → Bool}

def leads (below : α → List α) (good : α → Bool) (a : α) : Bool := good a || (below a).any good

theorem leads_eq_false_iff {a : α} : leads below good a = false ↔ good a = false ∧ ∀ b ∈ below a, good b = false := by
  rw [leads, Bool.or_eq_false_iff, any_eq_false]
  simp only [Bool.not_eq_true]

theorem leads_eq_false_of_mem (h : Nested below) {a b : α} (ha : leads below good a = false) (hb : b ∈ below a) :
    leads below good b = false := by
  rw [leads_eq_false_iff] at ha ⊢
  exact ⟨ha.2 b hb, fun c hc => ha.2 c (h.trans a b hb c hc)⟩

theorem leads_of_find? (h : Nested below) {a b : α} (hb : (below a).find? (leads below good) = some b) :
    leads below good a := by
  by_contra hnot
  have hfalse := leads_eq_false_of_mem h (Bool.not_eq_true _ ▸ hnot) (mem_of_find?_eq_some hb)
  rw [find?_some hb] at hfalse
  exact Bool.noConfusion hfalse

theorem tryAll_append {visit : α → Option (Bool × ℕ)} {calls : α → ℕ} {before : List α}
    (hbefore : ∀ b ∈ before, visit b = some (false, calls b)) (rest : List α) :
    tryAll visit (before ++ rest)
      = (tryAll visit rest).map fun result => (result.1, (before.map calls).sum + result.2) := by
  induction before with
  | nil => simp
  | cons b before ih =>
    rw [forall_mem_cons] at hbefore
    rw [cons_append, tryAll, hbefore.1]
    dsimp only
    rw [ih hbefore.2, Option.map_map]
    congr 1
    funext result
    simp [add_assoc]

theorem tryAll_eq_false {visit : α → Option (Bool × ℕ)} {calls : α → ℕ} {items : List α}
    (h : ∀ b ∈ items, visit b = some (false, calls b)) :
    tryAll visit items = some (false, (items.map calls).sum) := by
  have happend := tryAll_append h []
  rw [append_nil] at happend
  simpa [tryAll] using happend

theorem exists_tryAll {visit : α → Option (Bool × ℕ)} {answer : α → Bool} {items : List α}
    (h : ∀ b ∈ items, ∃ calls, visit b = some (answer b, calls)) :
    ∃ calls, tryAll visit items = some (items.any answer, calls) := by
  induction items with
  | nil => exact ⟨0, rfl⟩
  | cons b items ih =>
    rw [forall_mem_cons] at h
    obtain ⟨⟨calls, hb⟩, hrest⟩ := h
    obtain ⟨more, hmore⟩ := ih hrest
    rw [tryAll, hb, hmore, any_cons]
    cases answer b with
    | true => exact ⟨calls, rfl⟩
    | false => exact ⟨calls + more, rfl⟩

theorem exists_visit (htrans : ∀ a, ∀ b ∈ below a, ∀ c ∈ below b, c ∈ below a) {rank : α → ℕ}
    (hrank : ∀ a, ∀ b ∈ below a, rank b < rank a) {fuel : ℕ} {a : α} (hfuel : rank a < fuel) :
    ∃ calls, visit below good fuel a = some (leads below good a, calls) := by
  induction fuel generalizing a with
  | zero => omega
  | succ fuel ih =>
    obtain ⟨calls, hcalls⟩ := exists_tryAll fun b hb => @ih b ((hrank a b hb).trans_le (Nat.le_of_lt_succ hfuel))
    have hany : (below a).any (leads below good) = (below a).any good := by
      rw [Bool.eq_iff_iff, any_eq_true, any_eq_true]
      simp only [leads, Bool.or_eq_true, any_eq_true]
      constructor
      · rintro ⟨b, hb, hgood | ⟨c, hc, hgood⟩⟩
        · exact ⟨b, hb, hgood⟩
        · exact ⟨c, htrans a b hb c hc, hgood⟩
      · rintro ⟨b, hb, hgood⟩
        exact ⟨b, hb, .inl hgood⟩
    rw [visit, hcalls, hany, leads]
    cases good a with
    | true => exact ⟨1, rfl⟩
    | false => exact ⟨1 + calls, rfl⟩

variable [DecidableEq α]

def between (below : α → List α) (a b : α) : ℕ := ((below a).filter fun c => b ∈ below c).length

def cost (below : α → List α) (a : α) : ℕ := 1 + ((below a).map fun b => 2 ^ between below a b).sum

/-! ### The number of ways down -/

section

variable (h : Nested below)

include h

theorem exists_top {chain : Finset α} (hne : chain.Nonempty)
    (hchain : ∀ a ∈ chain, ∀ b ∈ chain, a = b ∨ b ∈ below a ∨ a ∈ below b) :
    ∃ top ∈ chain, ∀ b ∈ chain, b ∈ below top ↔ b ≠ top := by
  -- an item above this one would have it below it as well, and so one item more
  obtain ⟨top, htop, hmax⟩ := chain.exists_max_image (fun a => (chain.filter fun b => b ∈ below a).card) hne
  refine ⟨top, htop, fun b hb => ⟨?_, fun hbtop => ?_⟩⟩
  · rintro hbelow rfl
    exact h.irrefl b hbelow
  · rcases hchain top htop b hb with heq | hbelow | habove
    · exact absurd heq.symm hbtop
    · exact hbelow
    · have hlt : (chain.filter fun c => c ∈ below top).card < (chain.filter fun c => c ∈ below b).card := by
        apply card_lt_card
        rw [ssubset_iff_of_subset]
        · refine ⟨top, Finset.mem_filter.mpr ⟨htop, habove⟩, fun hmem => ?_⟩
          exact h.irrefl top (Finset.mem_filter.mp hmem).2
        · intro c hc
          obtain ⟨hcin, hcbelow⟩ := Finset.mem_filter.mp hc
          exact Finset.mem_filter.mpr ⟨hcin, h.trans b top habove c hcbelow⟩
      exact absurd (hmax b hb) (by omega)

theorem sum_two_pow_chain {chain : Finset α}
    (hchain : ∀ a ∈ chain, ∀ b ∈ chain, a = b ∨ b ∈ below a ∨ a ∈ below b) :
    1 + ∑ a ∈ chain, 2 ^ (chain.filter fun b => b ∈ below a).card = 2 ^ chain.card := by
  induction hn : chain.card generalizing chain with
  | zero =>
    rw [card_eq_zero.mp hn]
    rfl
  | succ n ih =>
    obtain ⟨top, htop, hbelow⟩ := exists_top h (card_pos.mp (by omega)) hchain
    have hcard : (chain.erase top).card = n := by rw [card_erase_of_mem htop, hn]; rfl
    have htopfilter : (chain.filter fun b => b ∈ below top) = chain.erase top := by
      ext b
      rw [Finset.mem_filter, mem_erase, and_comm]
      exact and_congr_left fun hb => hbelow b hb
    -- the first item is below none of the others
    have hrest : ∀ a ∈ chain.erase top,
        (chain.filter fun b => b ∈ below a) = (chain.erase top).filter fun b => b ∈ below a := by
      intro a ha
      obtain ⟨hne, hin⟩ := mem_erase.mp ha
      rw [filter_erase, erase_eq_of_notMem]
      intro hmem
      exact h.irrefl top (h.trans top a ((hbelow a hin).mpr hne) top (Finset.mem_filter.mp hmem).2)
    have hsub := ih (fun a ha b hb => hchain a (mem_of_mem_erase ha) b (mem_of_mem_erase hb)) hcard
    calc 1 + ∑ a ∈ chain, 2 ^ (chain.filter fun b => b ∈ below a).card
        = 1 + (2 ^ n + ∑ a ∈ chain.erase top, 2 ^ (chain.filter fun b => b ∈ below a).card) := by
          rw [← add_sum_erase chain _ htop, htopfilter, hcard]
      _ = 2 ^ n + (1 + ∑ a ∈ chain.erase top, 2 ^ ((chain.erase top).filter fun b => b ∈ below a).card) := by
          rw [sum_congr rfl fun a ha => by rw [hrest a ha]]
          ring
      _ = 2 ^ (n + 1) := by
          rw [hsub]
          ring

theorem between_eq_card (a b : α) : between below a b = ((below a).toFinset.filter fun c => b ∈ below c).card := by
  rw [between, ← toFinset_card_of_nodup ((h.nodup a).filter _), toFinset_filter]
  simp only [decide_eq_true_eq]

theorem cost_eq_sum (a : α) : cost below a = 1 + ∑ b ∈ (below a).toFinset, 2 ^ between below a b := by
  rw [cost, sum_toFinset _ (h.nodup a)]

theorem between_eq_filter {a b c : α} (hb : b ∈ below a) : between below b c
      = (((below a).toFinset.filter fun d => c ∈ below d).filter fun d => d ∈ below b).card := by
  rw [between_eq_card h]
  congr 1
  ext d
  simp only [Finset.mem_filter, mem_toFinset]
  constructor
  · rintro ⟨hd, hc⟩
    exact ⟨⟨h.trans a b hb d hd, hc⟩, hd⟩
  · rintro ⟨⟨-, hc⟩, hd⟩
    exact ⟨hd, hc⟩

theorem cost_eq (a : α) : cost below a = 1 + ((below a).map (cost below)).sum := by
  have hways : ∀ c, 2 ^ between below a c
      = 1 + ∑ b ∈ (below a).toFinset.filter (fun b => c ∈ below b), 2 ^ between below b c := by
    intro c
    rw [between_eq_card h, ← sum_two_pow_chain h]
    · congr 1
      refine sum_congr rfl fun b hb => ?_
      rw [between_eq_filter h (mem_toFinset.mp (Finset.mem_filter.mp hb).1)]
    · intro b hb d hd
      obtain ⟨hb, hcb⟩ := Finset.mem_filter.mp hb
      obtain ⟨hd, hcd⟩ := Finset.mem_filter.mp hd
      exact h.linear a b (mem_toFinset.mp hb) d (mem_toFinset.mp hd) c hcb hcd
  have hswap : ∑ c ∈ (below a).toFinset, ∑ b ∈ (below a).toFinset.filter (fun b => c ∈ below b), 2 ^ between below b c
      = ∑ b ∈ (below a).toFinset, ∑ c ∈ (below b).toFinset, 2 ^ between below b c := by
    apply sum_comm'
    intro c b
    simp only [Finset.mem_filter, mem_toFinset]
    constructor
    · rintro ⟨-, hb, hc⟩
      exact ⟨hc, hb⟩
    · rintro ⟨hc, hb⟩
      exact ⟨h.trans a b hb c hc, hb, hc⟩
  calc cost below a
      = 1 + ∑ c ∈ (below a).toFinset,
          (1 + ∑ b ∈ (below a).toFinset.filter (fun b => c ∈ below b), 2 ^ between below b c) := by
        rw [cost_eq_sum h, sum_congr rfl fun c _ => hways c]
    _ = 1 + ∑ b ∈ (below a).toFinset, cost below b := by
        rw [sum_add_distrib, hswap, ← sum_add_distrib]
        congr 1
        exact sum_congr rfl fun b _ => (cost_eq_sum h b).symm
    _ = 1 + ((below a).map (cost below)).sum := by rw [sum_toFinset _ (h.nodup a)]

theorem length_below_lt {a b : α} (hb : b ∈ below a) : (below b).length < (below a).length := by
  rw [← toFinset_card_of_nodup (h.nodup b), ← toFinset_card_of_nodup (h.nodup a)]
  apply card_lt_card
  rw [ssubset_iff_of_subset]
  · exact ⟨b, mem_toFinset.mpr hb, fun hmem => h.irrefl b (mem_toFinset.mp hmem)⟩
  · intro c hc
    exact mem_toFinset.mpr (h.trans a b hb c (mem_toFinset.mp hc))

theorem visit_of_leads_eq_false {fuel : ℕ} {a : α} (ha : leads below good a = false)
    (hfuel : (below a).length < fuel) : visit below good fuel a = some (false, cost below a) := by
  induction fuel generalizing a with
  | zero => omega
  | succ fuel ih =>
    have hbelow : ∀ b ∈ below a, visit below good fuel b = some (false, cost below b) := by
      intro b hb
      have hlt := length_below_lt h hb
      exact ih (leads_eq_false_of_mem h ha hb) (by omega)
    rw [visit, if_neg (by simp [(leads_eq_false_iff.mp ha).1]), tryAll_eq_false hbelow, cost_eq h]
    rfl

end

/-- The items a search goes into and does not come back from without an answer: from each, the first below it that
leads to a good one. -/
inductive Trail (below : α → List α) (good : α → Bool) : α → List α → Prop
  | last {a : α} (hlast : good a = true ∨ ∀ b ∈ below a, leads below good b = false) : Trail below good a [a]
  | into {a b : α} {trail : List α} (ha : good a = false) (hb : (below a).find? (leads below good) = some b)
      (htrail : Trail below good b trail) : Trail below good a (a :: trail)

theorem exists_trail (h : Nested below) (good : α → Bool) (a : α) : ∃ trail, Trail below good a trail := by
  induction hn : (below a).length using Nat.strong_induction_on generalizing a with
  | h n ih =>
    cases ha : good a with
    | true => exact ⟨[a], .last (.inl ha)⟩
    | false =>
      cases hfind : (below a).find? (leads below good) with
      | none =>
        rw [find?_eq_none] at hfind
        exact ⟨[a], .last (.inr fun b hb => by simpa using hfind b hb)⟩
      | some b =>
        have hlt := length_below_lt h (mem_of_find?_eq_some hfind)
        obtain ⟨trail, htrail⟩ := ih (below b).length (by omega) b rfl
        exact ⟨a :: trail, .into ha hfind htrail⟩

def tests (below : α → List α) (good : α → Bool) (a : α) : ℕ :=
  1 + if good a then 0
    else (((below a).takeWhile fun b => !leads below good b).map (cost below)).sum

theorem visit_of_trail (h : Nested below) {fuel : ℕ} {a : α} {trail : List α} (htrail : Trail below good a trail)
    (hfuel : (below a).length < fuel) :
    visit below good fuel a = some (leads below good a, (trail.map (tests below good)).sum) := by
  induction htrail generalizing fuel with
  | @last a hlast =>
    obtain ⟨fuel, rfl⟩ : ∃ fuel', fuel = fuel' + 1 := ⟨fuel - 1, by omega⟩
    cases ha : good a with
    | true => simp [visit, leads, tests, ha]
    | false =>
      have hbelow := hlast.resolve_left (by simp [ha])
      have hleads : leads below good a = false := by
        rw [leads_eq_false_iff]
        exact ⟨ha, fun b hb => (leads_eq_false_iff.mp (hbelow b hb)).1⟩
      have hall : ((below a).takeWhile fun b => !leads below good b) = below a :=
        takeWhile_eq_self_iff.mpr fun b hb => by simp [hbelow b hb]
      rw [visit_of_leads_eq_false h hleads hfuel, hleads, cost_eq h]
      simp [tests, ha, hall]
  | @into a b trail ha hb htrail ih =>
    obtain ⟨fuel, rfl⟩ : ∃ fuel', fuel = fuel' + 1 := ⟨fuel - 1, by omega⟩
    have hlength : ∀ c ∈ below a, (below c).length < fuel := fun c hc => by
      have hlt := length_below_lt h hc
      omega
    obtain ⟨hleads, before, after, hsplit, hbefore⟩ := find?_eq_some_iff_append.mp hb
    have hvisit : ∀ c ∈ before, visit below good fuel c = some (false, cost below c) := by
      intro c hc
      refine visit_of_leads_eq_false h (by simpa using hbefore c hc) (hlength c ?_)
      rw [hsplit]
      exact mem_append_left _ hc
    have htaken : ((below a).takeWhile fun c => !leads below good c) = before := by
      rw [hsplit, takeWhile_append_of_pos hbefore, takeWhile_cons_of_neg (by simp [hleads]), append_nil]
    rw [visit, if_neg (by simp [ha]), hsplit, tryAll_append hvisit, tryAll,
      ih (hlength b (mem_of_find?_eq_some hb)), hleads]
    simp [tests, ha, htaken, leads_of_find? h hb, add_assoc]

end Base.Descent
