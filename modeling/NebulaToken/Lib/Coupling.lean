import NebulaToken.Lib.Program

/-! # Two programs side by side

Two programs are run alone, each against its own state. They are coupled if the states they end in are
related by `R`, and if they both return, with related results, both throw the same, or both are left
without an answer. The rules follow the programs request by request. -/

namespace NebulaToken.Lib.Coupling

open NebulaToken.Lib.Program

variable {Req : Type} {Rep : Req → Type} {ε α β σ : Type}

/-- Outcomes of the same kind, with results related by `S`. -/
inductive Alike (S : α → β → Prop) : Option (Except ε α) → Option (Except ε β) → Prop
  | stuck : Alike S none none
  | threw (e : ε) : Alike S (some (.error e)) (some (.error e))
  | returned {a : α} {b : β} (h : S a b) : Alike S (some (.ok a)) (some (.ok b))

theorem Alike.mono {S S' : α → β → Prop} {x : Option (Except ε α)} {y : Option (Except ε β)}
    (h : Alike S x y) (hS : ∀ a b, S a b → S' a b) : Alike S' x y := by
  cases h with
  | stuck => exact .stuck
  | threw e => exact .threw e
  | returned h => exact .returned (hS _ _ h)

theorem Alike.map {α' β' : Type} {S : α → β → Prop} {S' : α' → β' → Prop} {x : Option (Except ε α)}
    {y : Option (Except ε β)} {f : α → α'} {g : β → β'} (h : Alike S x y)
    (hS : ∀ a b, S a b → S' (f a) (g b)) :
    Alike S' (x.map fun out => out.map f) (y.map fun out => out.map g) := by
  cases h with
  | stuck => exact .stuck
  | threw e => exact .threw e
  | returned h => exact .returned (hS _ _ h)

/-- Alike with equal results is equal. -/
theorem Alike.eq {x y : Option (Except ε α)} (h : Alike Eq x y) : x = y := by
  cases h with
  | stuck => rfl
  | threw e => rfl
  | returned h => rw [h]

/-- **The two runs end alike.** -/
structure Coupled (answer : (q : Req) → σ → Option (Rep q × σ)) (R : σ → σ → Prop) (S : α → β → Prop)
    (p₁ : Prog Req Rep ε α) (s₁ : σ) (p₂ : Prog Req Rep ε β) (s₂ : σ) : Prop where
  states : R (p₁.eval answer s₁).2 (p₂.eval answer s₂).2
  outcomes : Alike S (p₁.eval answer s₁).1 (p₂.eval answer s₂).1

variable {answer : (q : Req) → σ → Option (Rep q × σ)} {R R' : σ → σ → Prop} {S S' : α → β → Prop}
  {s₁ s₂ t₁ t₂ : σ}

theorem Coupled.ret {a : α} {b : β} (hR : R s₁ s₂) (h : S a b) :
    Coupled answer R S (.ret a : Prog Req Rep ε α) s₁ (.ret b) s₂ := ⟨hR, .returned h⟩

theorem Coupled.throw {e : ε} (hR : R s₁ s₂) :
    Coupled answer R S (.throw e : Prog Req Rep ε α) s₁ (.throw e : Prog Req Rep ε β) s₂ :=
  ⟨hR, .threw e⟩

/-- Both requests are answered. -/
theorem Coupled.call {q₁ q₂ : Req} {k₁ : Rep q₁ → Prog Req Rep ε α} {k₂ : Rep q₂ → Prog Req Rep ε β}
    {rep₁ : Rep q₁} {rep₂ : Rep q₂} (h₁ : answer q₁ s₁ = some (rep₁, t₁))
    (h₂ : answer q₂ s₂ = some (rep₂, t₂)) (h : Coupled answer R S (k₁ rep₁) t₁ (k₂ rep₂) t₂) :
    Coupled answer R S (.call q₁ k₁) s₁ (.call q₂ k₂) s₂ := by
  refine ⟨?_, ?_⟩
  · rw [Prog.eval_call k₁ h₁, Prog.eval_call k₂ h₂]
    exact h.states
  · rw [Prog.eval_call k₁ h₁, Prog.eval_call k₂ h₂]
    exact h.outcomes

/-- Neither request is answered. -/
theorem Coupled.stuck {q₁ q₂ : Req} {k₁ : Rep q₁ → Prog Req Rep ε α}
    {k₂ : Rep q₂ → Prog Req Rep ε β} (h₁ : answer q₁ s₁ = none) (h₂ : answer q₂ s₂ = none)
    (hR : R s₁ s₂) : Coupled answer R S (.call q₁ k₁) s₁ (.call q₂ k₂) s₂ := by
  refine ⟨?_, ?_⟩
  · rw [Prog.eval_call_none k₁ h₁, Prog.eval_call_none k₂ h₂]
    exact hR
  · rw [Prog.eval_call_none k₁ h₁, Prog.eval_call_none k₂ h₂]
    exact .stuck

/-- Functions of the results. -/
theorem Coupled.map {α' β' : Type} {S' : α' → β' → Prop} {f : α → α'} {g : β → β'}
    {p₁ : Prog Req Rep ε α} {p₂ : Prog Req Rep ε β} (h : Coupled answer R S p₁ s₁ p₂ s₂)
    (hS : ∀ a b, S a b → S' (f a) (g b)) : Coupled answer R S' (f <$> p₁) s₁ (g <$> p₂) s₂ := by
  refine ⟨?_, ?_⟩
  · rw [Prog.eval_map, Prog.eval_map]
    exact h.states
  · rw [Prog.eval_map, Prog.eval_map]
    exact h.outcomes.map hS

end NebulaToken.Lib.Coupling
