import Mathlib.Tactic

/-! # Programs that call a service

`Prog Req Rep ε α` is a program that asks a service one request at a time and goes on with the reply;
it ends with a result or with an exception. The type says nothing about the service: `eval` runs a
program alone against one, and `Lib.Pool` runs many of them, their calls in any order. -/

namespace NebulaToken.Lib.Program

/-- A program: a result, an exception, or a request and what to do with its reply. -/
inductive Prog (Req : Type) (Rep : Req → Type) (ε α : Type) : Type
  | ret (a : α) : Prog Req Rep ε α
  | throw (e : ε) : Prog Req Rep ε α
  | call (q : Req) (k : Rep q → Prog Req Rep ε α) : Prog Req Rep ε α

namespace Prog

variable {Req : Type} {Rep : Req → Type} {ε α β σ : Type}

/-- Sequencing: `f` goes on with the result of the program. -/
def bind : Prog Req Rep ε α → (α → Prog Req Rep ε β) → Prog Req Rep ε β
  | .ret a, f => f a
  | .throw e, _ => .throw e
  | .call q k, f => .call q fun r => (k r).bind f

instance : Monad (Prog Req Rep ε) where
  pure := .ret
  bind := bind

/-- One request. -/
def lift (q : Req) : Prog Req Rep ε (Rep q) := .call q .ret

/-- A computation that may throw and asks for nothing. -/
def ofExcept : Except ε α → Prog Req Rep ε α
  | .ok a => .ret a
  | .error e => .throw e

@[simp] theorem pure_eq (a : α) : (pure a : Prog Req Rep ε α) = .ret a := rfl

@[simp] theorem ret_bind (a : α) (f : α → Prog Req Rep ε β) :
    ((.ret a : Prog Req Rep ε α) >>= f) = f a := rfl

@[simp] theorem throw_bind (e : ε) (f : α → Prog Req Rep ε β) :
    ((.throw e : Prog Req Rep ε α) >>= f) = .throw e := rfl

@[simp] theorem call_bind (q : Req) (k : Rep q → Prog Req Rep ε α) (f : α → Prog Req Rep ε β) :
    ((.call q k : Prog Req Rep ε α) >>= f) = .call q fun r => k r >>= f := rfl

@[simp] theorem lift_bind (q : Req) (f : Rep q → Prog Req Rep ε β) :
    ((lift q : Prog Req Rep ε (Rep q)) >>= f) = .call q f := rfl

@[simp] theorem map_ret (f : α → β) (a : α) : f <$> (.ret a : Prog Req Rep ε α) = .ret (f a) := rfl

@[simp] theorem map_throw (f : α → β) (e : ε) :
    f <$> (.throw e : Prog Req Rep ε α) = .throw e := rfl

@[simp] theorem map_call (f : α → β) (q : Req) (k : Rep q → Prog Req Rep ε α) :
    f <$> (.call q k : Prog Req Rep ε α) = .call q fun r => f <$> k r := rfl

theorem map_eq_ret {f : α → β} {p : Prog Req Rep ε α} {b : β} (h : f <$> p = .ret b) :
    ∃ a, p = .ret a ∧ f a = b := by
  cases p with
  | ret a => exact ⟨a, rfl, by simpa using h⟩
  | throw e => cases h
  | call q k => cases h

theorem map_eq_call {f : α → β} {p : Prog Req Rep ε α} {q : Req} {k : Rep q → Prog Req Rep ε β}
    (h : f <$> p = .call q k) : ∃ k', p = .call q k' ∧ k = fun r => f <$> k' r := by
  cases p with
  | ret a => cases h
  | throw e => cases h
  | call q' k' =>
    rw [map_call] at h
    cases h
    exact ⟨k', rfl, rfl⟩

@[simp] theorem ofExcept_ok (a : α) : (ofExcept (.ok a) : Prog Req Rep ε α) = .ret a := rfl

@[simp] theorem ofExcept_error (e : ε) : (ofExcept (.error e) : Prog Req Rep ε α) = .throw e := rfl

/-- The program run alone: every request is answered from the state the one before it left. A request
that the service does not answer ends the run with no result. -/
def eval (answer : (q : Req) → σ → Option (Rep q × σ)) : Prog Req Rep ε α → σ → Option (Except ε α) × σ
  | .ret a, s => (some (.ok a), s)
  | .throw e, s => (some (.error e), s)
  | .call q k, s =>
    match answer q s with
    | some (r, s') => (k r).eval answer s'
    | none => (none, s)

@[simp] theorem eval_ret (answer : (q : Req) → σ → Option (Rep q × σ)) (a : α) (s : σ) :
    (.ret a : Prog Req Rep ε α).eval answer s = (some (.ok a), s) := rfl

@[simp] theorem eval_throw (answer : (q : Req) → σ → Option (Rep q × σ)) (e : ε) (s : σ) :
    (.throw e : Prog Req Rep ε α).eval answer s = (some (.error e), s) := rfl

theorem eval_call {answer : (q : Req) → σ → Option (Rep q × σ)} {q : Req} {s s' : σ} {r : Rep q}
    (k : Rep q → Prog Req Rep ε α) (h : answer q s = some (r, s')) :
    (.call q k : Prog Req Rep ε α).eval answer s = (k r).eval answer s' := by
  rw [eval, h]

theorem eval_call_none {answer : (q : Req) → σ → Option (Rep q × σ)} {q : Req} {s : σ}
    (k : Rep q → Prog Req Rep ε α) (h : answer q s = none) :
    (.call q k : Prog Req Rep ε α).eval answer s = (none, s) := by
  rw [eval, h]

/-! ### What a program may return -/

/-- Every result of the program satisfies `P`, whatever the replies. -/
def Returns (P : α → Prop) : Prog Req Rep ε α → Prop
  | .ret a => P a
  | .throw _ => True
  | .call _ k => ∀ r, (k r).Returns P

theorem Returns.bind {P : α → Prop} {Q : β → Prop} {p : Prog Req Rep ε α} {f : α → Prog Req Rep ε β}
    (h : p.Returns P) (hf : ∀ a, P a → (f a).Returns Q) : (p >>= f).Returns Q := by
  induction p with
  | ret a => exact hf a h
  | throw e => trivial
  | call q k ih => exact fun r => ih r (h r)

/-- A program that is run alone returns one of its results. -/
theorem Returns.eval {P : α → Prop} {p : Prog Req Rep ε α} (h : p.Returns P)
    {answer : (q : Req) → σ → Option (Rep q × σ)} {s : σ} {a : α}
    (he : (p.eval answer s).1 = some (.ok a)) : P a := by
  induction p generalizing s with
  | ret b =>
    obtain rfl := Except.ok.inj (Option.some.inj he)
    exact h
  | throw e => cases he
  | call q k ih =>
    cases ha : answer q s with
    | none =>
      rw [eval_call_none k ha] at he
      cases he
    | some x =>
      rw [eval_call k ha] at he
      exact ih x.1 (h x.1) he

/-- A function of the result changes neither the requests nor the state they lead to. -/
theorem eval_map (answer : (q : Req) → σ → Option (Rep q × σ)) (f : α → β) (p : Prog Req Rep ε α)
    (s : σ) : (f <$> p).eval answer s =
      ((p.eval answer s).1.map fun out => out.map f, (p.eval answer s).2) := by
  induction p generalizing s with
  | ret a => rfl
  | throw e => rfl
  | call q k ih =>
    rw [map_call]
    cases h : answer q s with
    | none => rw [eval_call_none _ h, eval_call_none _ h, Option.map_none]
    | some x =>
      rw [eval_call _ h, eval_call _ h]
      exact ih x.1 x.2

/-! ### Services that answer otherwise -/

/-- The program over a service whose replies are read as those it expects. -/
def adapt {Rep' : Req → Type} (read : (q : Req) → Rep' q → Rep q) :
    Prog Req Rep ε α → Prog Req Rep' ε α
  | .ret a => .ret a
  | .throw e => .throw e
  | .call q k => .call q fun r => (k (read q r)).adapt read

theorem adapt_bind {Rep' : Req → Type} (read : (q : Req) → Rep' q → Rep q) (p : Prog Req Rep ε α)
    (f : α → Prog Req Rep ε β) : (p >>= f).adapt read = p.adapt read >>= fun a => (f a).adapt read := by
  induction p with
  | ret a => rfl
  | throw e => rfl
  | call q k ih => exact congrArg (Prog.call q) (funext fun r => ih (read q r))

theorem adapt_ite {Rep' : Req → Type} (read : (q : Req) → Rep' q → Rep q) (c : Prop) [Decidable c]
    (p p' : Prog Req Rep ε α) :
    (if c then p else p').adapt read = if c then p.adapt read else p'.adapt read := by
  split_ifs
  · rfl
  · rfl

theorem adapt_map {Rep' : Req → Type} (read : (q : Req) → Rep' q → Rep q) (f : α → β)
    (p : Prog Req Rep ε α) : (f <$> p).adapt read = f <$> p.adapt read :=
  adapt_bind read p fun a => .ret (f a)

theorem adapt_adapt {Rep' Rep'' : Req → Type} (read : (q : Req) → Rep' q → Rep q)
    (read' : (q : Req) → Rep'' q → Rep' q) (p : Prog Req Rep ε α) :
    (p.adapt read).adapt read' = p.adapt fun q r => read q (read' q r) := by
  induction p with
  | ret a => rfl
  | throw e => rfl
  | call q k ih => exact congrArg (Prog.call q) (funext fun r => ih (read q (read' q r)))

/-- How a program has ended, if it has. -/
def ended : Prog Req Rep ε α → Option (Except ε α)
  | .ret a => some (.ok a)
  | .throw e => some (.error e)
  | .call _ _ => none

theorem ended_adapt {Rep' : Req → Type} (read : (q : Req) → Rep' q → Rep q) (p : Prog Req Rep ε α) :
    (p.adapt read).ended = p.ended := by
  cases p with
  | ret a => rfl
  | throw e => rfl
  | call q k => rfl

end Prog

end NebulaToken.Lib.Program
