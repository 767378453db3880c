import NebulaToken.Lib.Pool

/-! # A service seen through its reports

The replies of a service reach the programs in another form: `report` says how each is put. Programs over
the reports do what they would do over the service itself, if they read them back.

* `eval_reported`: a program run alone;
* `bisimulation`, `Same.ended`: a pool of programs. -/

namespace NebulaToken.Lib.Reports

open NebulaToken.Lib.Program NebulaToken.Lib.Transition NebulaToken.Lib.Pool

section Reports

variable {Op Req : Type} {Rep Rep' : Req → Type} {ε α σ Env : Type}
  (report : (q : Req) → Rep q → Rep' q)

/-- A reply as it is reported. -/
def reportedEvent (ev : Event Req Rep) : Event Req Rep' := ⟨ev.req, report ev.req ev.rep⟩

/-- The service whose replies are reported so. -/
def reported (svc : Service Req Rep σ Env) : Service Req Rep' σ Env where
  start := svc.start
  answer i q s := (svc.answer i q s).map fun x => (report q x.1, x.2)
  work := svc.work
  env := svc.env

/-- A program run alone over the reports. -/
theorem eval_reported (answer : (q : Req) → σ → Option (Rep q × σ)) (p : Prog Req Rep' ε α) (s : σ) :
    p.eval (fun q s => (answer q s).map fun x => (report q x.1, x.2)) s =
      (p.adapt report).eval answer s := by
  induction p generalizing s with
  | ret a => rfl
  | throw e => rfl
  | call q k ih =>
    rw [Prog.adapt]
    cases h : answer q s with
    | none => rw [Prog.eval_call_none _ h, Prog.eval_call_none k (by rw [h]; rfl)]
    | some x =>
      rw [Prog.eval_call _ h, Prog.eval_call k (by rw [h]; rfl)]
      exact ih (report q x.1) x.2

/-- A call over the service, and the same call over its reports. -/
structure Shows (th : Thread Op Req Rep ε α) (th' : Thread Op Req Rep' ε α) : Prop where
  op : th'.op = th.op
  mode : th'.mode = th.mode
  prog : th.prog = th'.prog.adapt report
  trace : th'.trace = th.trace.map (reportedEvent report)

/-- The same state of the service, and the same calls. -/
structure Same (s : State σ Op Req Rep ε α) (s' : State σ Op Req Rep' ε α) : Prop where
  shared : s'.shared = s.shared
  threads : List.Forall₂ (Shows report) s.threads s'.threads

end Reports

section Lists

variable {α β : Type} {R : α → β → Prop} {l : List α} {l' : List β}

theorem forall₂_getElem? (h : List.Forall₂ R l l') {i : ℕ} {x : α} (hi : l[i]? = some x) :
    ∃ y, l'[i]? = some y ∧ R x y := by
  obtain ⟨hlt, rfl⟩ := List.getElem?_eq_some_iff.mp hi
  have hlt' : i < l'.length := h.length_eq ▸ hlt
  exact ⟨l'[i], List.getElem?_eq_getElem hlt', h.get hlt hlt'⟩

theorem forall₂_set (h : List.Forall₂ R l l') (i : ℕ) {x : α} {y : β} (hxy : R x y) :
    List.Forall₂ R (l.set i x) (l'.set i y) := by
  induction h generalizing i with
  | nil => exact .nil
  | cons hab h ih =>
    cases i with
    | zero => exact .cons hxy h
    | succ i => exact .cons hab (ih i)

end Lists

section Bisimulation

variable {Op Req : Type} {Rep Rep' : Req → Type} {ε α σ Env : Type}
  {report : (q : Req) → Rep q → Rep' q} {code : Op → Prog Req Rep' ε α} {svc : Service Req Rep σ Env}
  {s t : State σ Op Req Rep ε α} {s' t' : State σ Op Req Rep' ε α}

/-- A call after the same reply. -/
theorem Shows.next {th : Thread Op Req Rep ε α} {th' : Thread Op Req Rep' ε α} (h : Shows report th th')
    {q : Req} (r : Rep q) {k : Rep' q → Prog Req Rep' ε α} :
    Shows report (th.next ⟨q, r⟩ ((k (report q r)).adapt report))
      (th'.next ⟨q, report q r⟩ (k (report q r))) where
  op := h.op
  mode := h.mode
  prog := rfl
  trace := congrArg (List.cons _) h.trace

/-- A call over the service asks for what the call over the reports asks for. -/
theorem Shows.call {th : Thread Op Req Rep ε α} {th' : Thread Op Req Rep' ε α} (h : Shows report th th')
    {q : Req} {k : Rep q → Prog Req Rep ε α} (hp : th.prog = .call q k) :
    ∃ k', th'.prog = .call q k' ∧ k = fun r => (k' (report q r)).adapt report := by
  have hprog := h.prog
  rw [hp] at hprog
  cases hp' : th'.prog with
  | ret a =>
    rw [hp'] at hprog
    cases hprog
  | throw e =>
    rw [hp'] at hprog
    cases hprog
  | call q' k' =>
    rw [hp'] at hprog
    cases hprog
    exact ⟨k', rfl, rfl⟩

theorem Shows.ret_iff {th : Thread Op Req Rep ε α} {th' : Thread Op Req Rep' ε α}
    (h : Shows report th th') {a : α} : th.prog = .ret a ↔ th'.prog = .ret a := by
  rw [h.prog]
  cases th'.prog with
  | ret b => exact ⟨fun h => by cases h; rfl, fun h => by cases h; rfl⟩
  | throw e => exact iff_of_false (fun h => by cases h) (fun h => by cases h)
  | call q k => exact iff_of_false (fun h => by cases h) (fun h => by cases h)

theorem Shows.flip_mem (h : List.Forall₂ (Shows report) s.threads s'.threads) {i : ℕ}
    {th' : Thread Op Req Rep' ε α} (hi : s'.threads[i]? = some th') :
    ∃ th, s.threads[i]? = some th ∧ Shows report th th' := by
  exact forall₂_getElem? (List.Forall₂.flip h) hi

/-- A step over the service is a step over its reports. -/
theorem Same.step (h : Same report s s') {l : Label Op Req Rep Env}
    (hs : Step (fun op => (code op).adapt report) svc s l t) :
    ∃ l' t', Step code (reported report svc) s' l' t' ∧ Same report t t' := by
  cases hs with
  | invoke op =>
    refine ⟨_, _, .invoke s' op, h.shared, ?_⟩
    exact List.rel_append h.threads (.cons ⟨rfl, rfl, rfl, rfl⟩ .nil)
  | @answer i th q k r a hi hm hp ha =>
    obtain ⟨th', hi', hth⟩ := forall₂_getElem? h.threads hi
    obtain ⟨k', hp', rfl⟩ := hth.call hp
    refine ⟨_, _, .answer hi' (hth.mode.trans hm) hp' (r := report q r) (a := a) ?_, rfl, ?_⟩
    · rw [h.shared]
      exact congrArg (Option.map _) ha
    · exact forall₂_set h.threads i (hth.next r)
  | @work i th q k a hi hm hp hw =>
    obtain ⟨th', hi', hth⟩ := forall₂_getElem? h.threads hi
    obtain ⟨k', hp', -⟩ := hth.call hp
    exact ⟨_, _, .work hi' (hth.mode.trans hm) hp' (h.shared ▸ hw), rfl, h.threads⟩
  | @stop i th m hi hm hne hret =>
    obtain ⟨th', hi', hth⟩ := forall₂_getElem? h.threads hi
    refine ⟨_, _, .stop hi' (hth.mode.trans hm) hne fun hr => ?_, h.shared, ?_⟩
    · obtain ⟨a, ha⟩ := hret hr
      exact ⟨a, hth.ret_iff.mp ha⟩
    · exact forall₂_set h.threads i ⟨hth.op, rfl, hth.prog, hth.trace⟩
  | env a => exact ⟨_, _, .env s' a, congrArg (svc.env a) h.shared, h.threads⟩

/-- A step over the reports is a step over the service. -/
theorem Same.step_back (h : Same report s s') {l : Label Op Req Rep' Env}
    (hs : Step code (reported report svc) s' l t') :
    ∃ l' t, Step (fun op => (code op).adapt report) svc s l' t ∧ Same report t t' := by
  cases hs with
  | invoke op =>
    refine ⟨_, _, .invoke s op, h.shared, ?_⟩
    exact List.rel_append h.threads (.cons ⟨rfl, rfl, rfl, rfl⟩ .nil)
  | @answer i th' q k' r' a hi hm hp ha =>
    obtain ⟨th, hi', hth⟩ := Shows.flip_mem h.threads hi
    obtain ⟨x, hx, he⟩ := Option.map_eq_some_iff.mp ha
    obtain ⟨rfl, rfl⟩ := Prod.mk.inj he
    have hprog := hth.prog
    rw [hp] at hprog
    refine ⟨_, _, .answer hi' (hth.mode.symm.trans hm) hprog (r := x.1) (a := x.2) ?_, rfl, ?_⟩
    · rw [← h.shared]
      exact hx
    · exact forall₂_set h.threads i (hth.next x.1)
  | @work i th' q k' a hi hm hp hw =>
    obtain ⟨th, hi', hth⟩ := Shows.flip_mem h.threads hi
    have hprog := hth.prog
    rw [hp] at hprog
    exact ⟨_, _, .work hi' (hth.mode.symm.trans hm) hprog (h.shared ▸ hw), rfl, h.threads⟩
  | @stop i th' m hi hm hne hret =>
    obtain ⟨th, hi', hth⟩ := Shows.flip_mem h.threads hi
    refine ⟨_, _, .stop hi' (hth.mode.symm.trans hm) hne fun hr => ?_, h.shared, ?_⟩
    · obtain ⟨a, ha⟩ := hret hr
      exact ⟨a, hth.ret_iff.mpr ha⟩
    · exact forall₂_set h.threads i ⟨hth.op, rfl, hth.prog, hth.trace⟩
  | env a => exact ⟨_, _, .env s a, congrArg (svc.env a) h.shared, h.threads⟩

theorem map_ended {l : List (Thread Op Req Rep ε α)} {l' : List (Thread Op Req Rep' ε α)}
    (h : List.Forall₂ (Shows report) l l') :
    l'.map (fun th => (th.op, th.mode, th.prog.ended)) =
      l.map fun th => (th.op, th.mode, th.prog.ended) := by
  induction h with
  | nil => rfl
  | cons hth _ ih => rw [List.map_cons, List.map_cons, ih, hth.op, hth.mode, hth.prog, Prog.ended_adapt]

/-- The calls are the same, and have come to the same end. -/
theorem Same.ended (h : Same report s s') : s'.threads.map (fun th => (th.op, th.mode, th.prog.ended)) =
    s.threads.map fun th => (th.op, th.mode, th.prog.ended) := map_ended h.threads

/-- **A pool over the reports does what the pool over the service does.** -/
theorem bisimulation (report : (q : Req) → Rep q → Rep' q) (code : Op → Prog Req Rep' ε α)
    (svc : Service Req Rep σ Env) :
    System.Bisimulation (pool (fun op => (code op).adapt report) svc) (pool code (reported report svc))
      (Same report) where
  init := by
    rintro s rfl
    exact ⟨⟨svc.start, []⟩, rfl, rfl, .nil⟩
  init_back := by
    rintro t rfl
    exact ⟨⟨svc.start, []⟩, rfl, rfl, .nil⟩
  step h hs := h.step hs
  step_back h hs := h.step_back hs

end Bisimulation

end NebulaToken.Lib.Reports
