import NebulaToken.Lib.Pool

/-! # A program run alone

`Prog.eval` answers the requests of one program one after another. `eval_rule` is its induction rule:
what holds of the start of a program and is kept by every reply holds where the program ends, after the
requests and replies that led there. -/

namespace NebulaToken.Lib.Solo

open NebulaToken.Lib.Program NebulaToken.Lib.Pool

variable {Req : Type} {Rep : Req → Type} {ε α σ : Type}

section Eval

variable (answer : (q : Req) → σ → Option (Rep q × σ))

/-- The answers to the requests, the latest first, lead from `s` to the last state. -/
inductive Replay (s : σ) : List (Event Req Rep) → σ → Prop
  | nil : Replay s [] s
  | cons {tr : List (Event Req Rep)} {q : Req} {rep : Rep q} {u v : σ} (h : Replay s tr u)
      (ha : answer q u = some (rep, v)) : Replay s (⟨q, rep⟩ :: tr) v

/-- The program has nothing more to do in the state, and what came out of it. -/
inductive Ends (s : σ) : Prog Req Rep ε α → Option (Except ε α) → Prop
  | ret (a : α) : Ends s (.ret a) (some (.ok a))
  | throw (e : ε) : Ends s (.throw e) (some (.error e))
  | stuck {q : Req} {k : Rep q → Prog Req Rep ε α} (h : answer q s = none) : Ends s (.call q k) none

end Eval

variable {answer : (q : Req) → σ → Option (Rep q × σ)}

theorem Replay.cons_iff {s v : σ} {tr : List (Event Req Rep)} {q : Req} {rep : Rep q} :
    Replay answer s (⟨q, rep⟩ :: tr) v ↔ ∃ u, Replay answer s tr u ∧ answer q u = some (rep, v) := by
  constructor
  · intro h
    cases h with
    | cons h ha => exact ⟨_, h, ha⟩
  · rintro ⟨u, h, ha⟩
    exact .cons h ha

theorem Ends.eval {s : σ} {p : Prog Req Rep ε α} {out : Option (Except ε α)}
    (h : Ends answer s p out) : p.eval answer s = (out, s) := by
  cases h with
  | ret a => rfl
  | throw e => rfl
  | stuck h => exact Prog.eval_call_none _ h

/-- A program that is given the replies of a trace goes on from where they lead it. -/
theorem Replay.eval {p p' : Prog Req Rep ε α} {s u : σ} {tr : List (Event Req Rep)}
    (h : Leads p tr p') (hr : Replay answer s tr u) : p.eval answer s = p'.eval answer u := by
  induction h generalizing u with
  | start =>
    cases hr
    rfl
  | answer h rep ih =>
    obtain ⟨v, hv, ha⟩ := Replay.cons_iff.mp hr
    rw [ih hv, Prog.eval_call _ ha]

/-- **The rule for a program run alone.** -/
theorem eval_rule (answer : (q : Req) → σ → Option (Rep q × σ))
    {P : List (Event Req Rep) → Prog Req Rep ε α → Prop}
    (hstep : ∀ tr q k rep, P tr (.call q k) → P (⟨q, rep⟩ :: tr) (k rep)) {p : Prog Req Rep ε α}
    (s : σ) (h0 : P [] p) :
    ∃ tr p', Replay answer s tr (p.eval answer s).2 ∧ P tr p' ∧
      Ends answer (p.eval answer s).2 p' (p.eval answer s).1 := by
  have hgen : ∀ (p : Prog Req Rep ε α) (tr : List (Event Req Rep)) (u : σ), Replay answer s tr u →
      P tr p → ∃ tr p', Replay answer s tr (p.eval answer u).2 ∧ P tr p' ∧
        Ends answer (p.eval answer u).2 p' (p.eval answer u).1 := by
    intro p
    induction p with
    | ret a => exact fun tr u hr hp => ⟨tr, .ret a, hr, hp, .ret a⟩
    | throw e => exact fun tr u hr hp => ⟨tr, .throw e, hr, hp, .throw e⟩
    | call q k ih =>
      intro tr u hr hp
      cases ha : answer q u with
      | none =>
        rw [Prog.eval_call_none k ha]
        exact ⟨tr, .call q k, hr, hp, .stuck ha⟩
      | some x =>
        obtain ⟨rep, v⟩ := x
        rw [Prog.eval_call k ha]
        exact ih rep _ v (hr.cons ha) (hstep _ _ _ rep hp)
  exact hgen p [] s .nil h0

end NebulaToken.Lib.Solo
