import Mathlib.Tactic

/-! Runs of a state machine. A step is total: an event that is not possible in a state leaves it as it
is. A guarded run is one whose every step meets a condition on the event and the state it is taken in;
what such steps preserve, such runs preserve. -/

namespace Base.Transition

open List

variable {σ ε : Type} (step : σ → ε → σ)

def run (s : σ) (events : List ε) : σ := events.foldl step s

def Guarded (guard : σ → ε → Prop) : σ → List ε → Prop
  | _, [] => True
  | s, event :: events => guard s event ∧ Guarded guard (step s event) events

instance Guarded.decidable (guard : σ → ε → Prop) [∀ s event, Decidable (guard s event)] :
    (s : σ) → (events : List ε) → Decidable (Guarded step guard s events)
  | _, [] => isTrue trivial
  | s, event :: events =>
    have := Guarded.decidable guard (step s event) events
    inferInstanceAs (Decidable (guard s event ∧ Guarded step guard (step s event) events))

@[simp] theorem run_nil (s : σ) : run step s [] = s := rfl

@[simp] theorem run_cons (s : σ) (event : ε) (events : List ε) :
    run step s (event :: events) = run step (step s event) events := rfl

theorem run_append (s : σ) (left right : List ε) :
    run step s (left ++ right) = run step (run step s left) right := foldl_append

variable {guard : σ → ε → Prop} {s : σ} {events : List ε} {α : Type} {l : List α} {i : Nat} {a : α}

theorem guarded_append {left right : List ε} : Guarded step guard s (left ++ right) ↔
      Guarded step guard s left ∧ Guarded step guard (run step s left) right := by
  induction left generalizing s with
  | nil => simp [Guarded]
  | cons event left ih => simp [Guarded, ih, and_assoc]

theorem Guarded.imp {guard' : σ → ε → Prop} (h : Guarded step guard s events)
    (hguard : ∀ s event, guard s event → guard' s event) : Guarded step guard' s events := by
  induction events generalizing s with
  | nil => trivial
  | cons event events ih => exact ⟨hguard s event h.1, ih h.2⟩

variable {Inv : σ → Prop} {P : ε → Prop} {p : α → Bool}

theorem guarded_of_mem (hevents : ∀ event ∈ events, P event) (s : σ) :
    Guarded step (fun _ event => P event) s events := by
  induction events generalizing s with
  | nil => trivial
  | cons event events ih => exact ⟨hevents event mem_cons_self, ih (fun e he => hevents e (mem_cons_of_mem _ he)) _⟩

theorem Guarded.and_of_mem (h : Guarded step guard s events) (hevents : ∀ event ∈ events, P event) :
    Guarded step (fun s event => guard s event ∧ P event) s events := by
  induction events generalizing s with
  | nil => trivial
  | cons event events ih =>
    have htail : ∀ e ∈ events, P e := fun e he => hevents e (mem_cons_of_mem _ he)
    exact ⟨⟨h.1, hevents event mem_cons_self⟩, ih h.2 htail⟩

/-- **Invariant rule.** What holds at the start and is kept by every guarded step holds at the end of
every guarded run. -/
theorem invariant_run (hstep : ∀ s event, Inv s → guard s event → Inv (step s event)) (hs : Inv s)
    (hguarded : Guarded step guard s events) : Inv (run step s events) := by
  induction events generalizing s with
  | nil => exact hs
  | cons event events ih => exact ih (hstep s event hs hguarded.1) hguarded.2

theorem invariant_run_of_step (hstep : ∀ s event, Inv s → Inv (step s event)) (hs : Inv s) (events : List ε) :
    Inv (run step s events) := by
  induction events generalizing s with
  | nil => exact hs
  | cons event events ih => exact ih (hstep s event hs)

/-- **Simulation rule.** A relation between the states of two machines that every guarded step keeps relates the
ends of their runs on the same events. -/
theorem simulation_run {τ : Type} {step' : τ → ε → τ} {R : σ → τ → Prop}
    (hstep : ∀ s t event, R s t → guard s event → R (step s event) (step' t event)) {t : τ}
    (hrelated : R s t) (hguarded : Guarded step guard s events) :
    R (run step s events) (run step' t events) := by
  induction events generalizing s t with
  | nil => exact hrelated
  | cons event events ih => exact ih (hstep s t event hrelated hguarded.1) hguarded.2

theorem countP_set (h : l[i]? = some a) (b : α) :
    (l.set i b).countP p + (if p a then 1 else 0) = l.countP p + (if p b then 1 else 0) := by
  induction l generalizing i with
  | nil => simp at h
  | cons head tail ih =>
    cases i with
    | zero =>
      obtain rfl : head = a := by simpa using h
      simp only [set_cons_zero, countP_cons]
      omega
    | succ i =>
      have htail := ih (i := i) (by simpa using h)
      simp only [set_cons_succ, countP_cons]
      omega

theorem getElem?_set_cases {j : Nat} {b : α} (h : (l.set i a)[j]? = some b) :
    j = i ∧ b = a ∨ j ≠ i ∧ l[j]? = some b := by
  by_cases hj : j = i
  · subst hj
    rw [getElem?_set_self'] at h
    obtain ⟨_, -, rfl⟩ := Option.map_eq_some_iff.mp h
    exact .inl ⟨rfl, rfl⟩
  · rw [getElem?_set_ne (Ne.symm hj)] at h
    exact .inr ⟨hj, h⟩

theorem getElem?_concat_cases {j : Nat} {b : α} (h : (l ++ [a])[j]? = some b) : b = a ∨ l[j]? = some b := by
  rw [getElem?_append] at h
  split_ifs at h
  · exact .inr h
  · exact .inl (mem_singleton.mp (mem_of_getElem? h))

def Exclusive {α : Type} (p : α → Prop) (l : List α) : Prop :=
  ∀ (i j : Nat) (a b : α), l[i]? = some a → l[j]? = some b → p a → p b → i = j

theorem exclusive_nil (p : α → Prop) : Exclusive p [] := by
  intro i j a b ha
  cases ha

theorem Exclusive.set {p : α → Prop} (h : Exclusive p l)
    (hothers : p a → ∀ (j : Nat) (b : α), j ≠ i → l[j]? = some b → ¬p b) : Exclusive p (l.set i a) := by
  intro j k b c hb hc hpb hpc
  rcases getElem?_set_cases hb with ⟨rfl, rfl⟩ | ⟨hj, hold⟩
  · rcases getElem?_set_cases hc with ⟨rfl, rfl⟩ | ⟨hk, hold'⟩
    · rfl
    · exact absurd hpc (hothers hpb k c hk hold')
  · rcases getElem?_set_cases hc with ⟨rfl, rfl⟩ | ⟨hk, hold'⟩
    · exact absurd hpb (hothers hpc j b hj hold)
    · exact h j k b c hold hold' hpb hpc

theorem Exclusive.concat {α : Type} {p : α → Prop} {l : List α} (h : Exclusive p l) {a : α} (ha : ¬p a) :
    Exclusive p (l ++ [a]) := by
  intro i j b c hb hc hpb hpc
  rcases getElem?_concat_cases hb with rfl | hb
  · exact absurd hpb ha
  · rcases getElem?_concat_cases hc with rfl | hc
    · exact absurd hpc ha
    · exact h i j b c hb hc hpb hpc

theorem Exclusive.concat_new {p : α → Prop} (hothers : ∀ b ∈ l, ¬p b) : Exclusive p (l ++ [a]) := by
  have hlast : ∀ (k : Nat) (c : α), (l ++ [a])[k]? = some c → p c → k = l.length := by
    intro k c hc hpc
    rw [List.getElem?_append] at hc
    split_ifs at hc with hk
    · exact absurd hpc (hothers c (List.mem_of_getElem? hc))
    · have hlt := (List.getElem?_eq_some_iff.mp hc).1
      rw [List.length_singleton] at hlt
      omega
  intro i j b c hb hc hpb hpc
  rw [hlast i b hb hpb, hlast j c hc hpc]

theorem countP_eraseIdx (h : l[i]? = some a) : (l.eraseIdx i).countP p + (if p a then 1 else 0) = l.countP p := by
  induction l generalizing i with
  | nil => simp at h
  | cons head tail ih =>
    cases i with
    | zero =>
      obtain rfl : head = a := by simpa using h
      simp only [eraseIdx_cons_zero, countP_cons]
    | succ i =>
      have htail := ih (i := i) (by simpa using h)
      simp only [eraseIdx_cons_succ, countP_cons]
      omega

end Base.Transition
