import Mathlib.Tactic

/-! # Transition systems: reachable states and runs

A system is a set of initial states and a labelled step relation. `under G` keeps the steps that a
guard `G` admits in the state they start from: an assumption on the environment is a guard, and a
theorem about the runs that meet it is a theorem about the guarded system. Two systems that do the same
step by step are in a `Bisimulation`; a `Simulation` of one by another matches each of its steps by a
move or by none.

`Reachable.invariant` and `Run.invariant` are the induction rules: what one step keeps, a run keeps. -/

namespace NebulaToken.Lib.Transition

/-- Initial states and labelled steps. -/
structure System (σ ℓ : Type) where
  init : σ → Prop
  step : σ → ℓ → σ → Prop

namespace System

variable {σ ℓ : Type}

/-- The steps that `G` admits in the state they start from. -/
def under (S : System σ ℓ) (G : σ → ℓ → Prop) : System σ ℓ where
  init := S.init
  step s l s' := G s l ∧ S.step s l s'

/-- The states some run from an initial state ends in. -/
inductive Reachable (S : System σ ℓ) : σ → Prop
  | init {s : σ} : S.init s → Reachable S s
  | step {s s' : σ} {l : ℓ} : Reachable S s → S.step s l s' → Reachable S s'

/-- Some run leads from the first state to the second. -/
inductive Run (S : System σ ℓ) (s : σ) : σ → Prop
  | refl : Run S s s
  | step {t u : σ} {l : ℓ} : Run S s t → S.step t l u → Run S s u

/-- A run with its steps, the latest last. -/
inductive Path (S : System σ ℓ) (s : σ) : List (σ × ℓ × σ) → σ → Prop
  | nil : Path S s [] s
  | snoc {p : List (σ × ℓ × σ)} {t u : σ} {l : ℓ} : Path S s p t → S.step t l u →
    Path S s (p ++ [(t, l, u)]) u

variable {S : System σ ℓ} {G G' : σ → ℓ → Prop}

/-- **The rule for runs with their steps.** -/
theorem Path.invariant {I : List (σ × ℓ × σ) → σ → Prop} {s t : σ} {p : List (σ × ℓ × σ)}
    (h : S.Path s p t) (h0 : I [] s)
    (h1 : ∀ p t l u, I p t → S.step t l u → I (p ++ [(t, l, u)]) u) : I p t := by
  induction h with
  | nil => exact h0
  | snoc _ hs ih => exact h1 _ _ _ _ ih hs

theorem Run.trans {s t u : σ} (h : S.Run s t) (h' : S.Run t u) : S.Run s u := by
  induction h' with
  | refl => exact h
  | step _ hs ih => exact ih.step hs

theorem Reachable.run {s t : σ} (h : S.Reachable s) (hr : S.Run s t) : S.Reachable t := by
  induction hr with
  | refl => exact h
  | step _ hs ih => exact ih.step hs

/-- **Where a run first makes `P` true.** -/
theorem Run.crossing {P : σ → Prop} {s t : σ} (hr : S.Run s t) (hs : ¬ P s) (ht : P t) :
    ∃ u l v, S.Run s u ∧ S.step u l v ∧ ¬ P u ∧ P v ∧ S.Run v t := by
  induction hr with
  | refl => exact absurd ht hs
  | @step t v l hrt hstep ih =>
    by_cases hpt : P t
    · obtain ⟨u, l', w, hsu, huw, hu, hw, hwt⟩ := ih hpt
      exact ⟨u, l', w, hsu, huw, hu, hw, hwt.step hstep⟩
    · exact ⟨t, l, v, hrt, hstep, hpt, ht, .refl⟩

/-- **The invariant rule.** -/
theorem Reachable.invariant {I : σ → Prop} (h0 : ∀ s, S.init s → I s)
    (h1 : ∀ s l s', S.Reachable s → I s → S.step s l s' → I s') {s : σ} (h : S.Reachable s) :
    I s := by
  induction h with
  | init hs => exact h0 _ hs
  | step hr hs ih => exact h1 _ _ _ hr ih hs

/-- **The rule for runs from a reachable state.** -/
theorem Run.invariant {I : σ → Prop} {s t : σ} (hr : S.Run s t) (hs : S.Reachable s) (h0 : I s)
    (h1 : ∀ u l u', S.Reachable u → I u → S.step u l u' → I u') : I t := by
  induction hr with
  | refl => exact h0
  | step hru hstep ih => exact h1 _ _ _ (hs.run hru) ih hstep

/-- A step of the guarded system, for a guard that implies the other one in reachable states. -/
theorem Reachable.under_mono {s : σ} (h : (S.under G).Reachable s)
    (hG : ∀ s l s', (S.under G).Reachable s → G s l → S.step s l s' → G' s l) :
    (S.under G').Reachable s := by
  induction h with
  | init hs => exact .init hs
  | step hr hs ih => exact ih.step ⟨hG _ _ _ hr hs.1 hs.2, hs.2⟩

theorem Run.weaken {s t : σ} (hr : (S.under G).Run s t) (hG : ∀ s l, G s l → G' s l) :
    (S.under G').Run s t := by
  induction hr with
  | refl => exact .refl
  | step _ hs ih => exact ih.step ⟨hG _ _ hs.1, hs.2⟩

theorem Reachable.weaken {s : σ} (h : (S.under G).Reachable s) (hG : ∀ s l, G s l → G' s l) :
    (S.under G').Reachable s := by
  induction h with
  | init hs => exact .init hs
  | step _ hs ih => exact ih.step ⟨hG _ _ hs.1, hs.2⟩

/-- A guard that admits every step admits every run. -/
theorem Reachable.under {s : σ} (h : S.Reachable s) (hG : ∀ s l, G s l) : (S.under G).Reachable s := by
  induction h with
  | init hs => exact .init hs
  | step _ hs ih => exact ih.step ⟨hG _ _, hs⟩

/-- A guarded run is a run. -/
theorem Reachable.free {s : σ} (h : (S.under G).Reachable s) : S.Reachable s := by
  induction h with
  | init hs => exact .init hs
  | step _ hs ih => exact ih.step hs.2

theorem Run.under_mono {s t : σ} (hr : (S.under G).Run s t) (h : (S.under G).Reachable s)
    (hG : ∀ s l s', (S.under G).Reachable s → G s l → S.step s l s' → G' s l) :
    (S.under G').Run s t := by
  induction hr with
  | refl => exact .refl
  | step hru hs ih => exact ih.step ⟨hG _ _ _ (h.run hru) hs.1 hs.2, hs.2⟩

/-! ### Systems that do the same -/

/-- **Whatever one system does, the other does too**, from and to states related by `R`. -/
structure Bisimulation {σ' ℓ' : Type} (S : System σ ℓ) (T : System σ' ℓ') (R : σ → σ' → Prop) : Prop where
  init : ∀ {s}, S.init s → ∃ t, T.init t ∧ R s t
  init_back : ∀ {t}, T.init t → ∃ s, S.init s ∧ R s t
  step : ∀ {s t l s'}, R s t → S.step s l s' → ∃ l' t', T.step t l' t' ∧ R s' t'
  step_back : ∀ {s t l t'}, R s t → T.step t l t' → ∃ l' s', S.step s l' s' ∧ R s' t'

namespace Bisimulation

variable {σ' ℓ' σ'' ℓ'' : Type} {T : System σ' ℓ'} {U : System σ'' ℓ''} {R : σ → σ' → Prop}
  {R' : σ' → σ'' → Prop}

theorem symm (h : Bisimulation S T R) : Bisimulation T S fun t s => R s t :=
  ⟨h.init_back, h.init, fun hr hs => h.step_back hr hs, fun hr hs => h.step hr hs⟩

theorem trans (h : Bisimulation S T R) (h' : Bisimulation T U R') :
    Bisimulation S U fun s u => ∃ t, R s t ∧ R' t u where
  init hs := by
    obtain ⟨t, ht, hr⟩ := h.init hs
    obtain ⟨u, hu, hr'⟩ := h'.init ht
    exact ⟨u, hu, t, hr, hr'⟩
  init_back hu := by
    obtain ⟨t, ht, hr'⟩ := h'.init_back hu
    obtain ⟨s, hs, hr⟩ := h.init_back ht
    exact ⟨s, hs, t, hr, hr'⟩
  step := by
    rintro s u l s' ⟨t, hr, hr'⟩ hs
    obtain ⟨_, t', ht, hr⟩ := h.step hr hs
    obtain ⟨l'', u', hu, hr'⟩ := h'.step hr' ht
    exact ⟨l'', u', hu, t', hr, hr'⟩
  step_back := by
    rintro s u l u' ⟨t, hr, hr'⟩ hu
    obtain ⟨_, t', ht, hr'⟩ := h'.step_back hr' hu
    obtain ⟨l'', s', hs, hr⟩ := h.step_back hr ht
    exact ⟨l'', s', hs, t', hr, hr'⟩

end Bisimulation

/-! ### Systems that do no more -/

/-- **Every step of `S` is a move of `T` that `V` relates to it, or none**, from and to states related
by `R`. -/
structure Simulation {σ' ℓ' : Type} (S : System σ ℓ) (T : System σ' ℓ') (R : σ → σ' → Prop)
    (V : ℓ → ℓ' → Prop) : Prop where
  init : ∀ {s}, S.init s → ∃ t, T.init t ∧ R s t
  step : ∀ {s t l s'}, S.Reachable s → R s t → S.step s l s' →
    R s' t ∨ ∃ m t', V l m ∧ T.step t m t' ∧ R s' t'

namespace Simulation

variable {σ' ℓ' : Type} {T : System σ' ℓ'} {R : σ → σ' → Prop} {V : ℓ → ℓ' → Prop}

theorem reachable (h : Simulation S T R V) {s : σ} (hs : S.Reachable s) :
    ∃ t, T.Reachable t ∧ R s t := by
  induction hs with
  | init hs =>
    obtain ⟨t, ht, hr⟩ := h.init hs
    exact ⟨t, .init ht, hr⟩
  | step hs hstep ih =>
    obtain ⟨t, ht, hr⟩ := ih
    rcases h.step hs hr hstep with hr' | ⟨m, t', -, hm, hr'⟩
    · exact ⟨t, ht, hr'⟩
    · exact ⟨t', ht.step hm, hr'⟩

/-- **A run is matched by a run**, from any state of the other system that is related to its first. -/
theorem run (h : Simulation S T R V) {s s' : σ} {t : σ'} (hs : S.Reachable s) (hr : R s t)
    (hrun : S.Run s s') : ∃ t', T.Run t t' ∧ R s' t' := by
  induction hrun with
  | refl => exact ⟨t, .refl, hr⟩
  | step hrun hstep ih =>
    obtain ⟨t', ht', hr'⟩ := ih
    rcases h.step (hs.run hrun) hr' hstep with hr'' | ⟨m, t'', -, hm, hr''⟩
    · exact ⟨t', ht', hr''⟩
    · exact ⟨t'', ht'.step hm, hr''⟩

end Simulation

end System

end NebulaToken.Lib.Transition
