import NebulaToken.Lib.Program
import NebulaToken.Lib.Transition

/-! # Many programs over one service

A pool runs any number of programs (`Program.Prog`) against one shared service. Each step belongs to
one of them: a new call is invoked, a request is answered, or a call stops, because it returns, raises
or is abandoned. Between two requests of one call any steps of the others may fall.

A service answers a request in one step (`answer`), possibly after inner steps on behalf of the call
that waits for it (`work`); a request it has no answer for leaves the call waiting. The environment may
also act on the service by itself (`env`).

* `Step.thread_cases`: where a thread of the next state comes from;
* `Step.grows`: a thread keeps its operation, and its trace only grows;
* `Step.shared_cases`, `Step.did_iff`: what a step does to the service, and to what the calls have done;
* `local_invariant`, `asked`: what one program says about its own trace holds in every reachable state;
* `rename_reachable`: a pool of other operations with the same programs;
* `play`: an executable run, and `play_reachable`, `play_run`: it is a run. -/

namespace NebulaToken.Lib.Pool

open NebulaToken.Lib.Program NebulaToken.Lib.Transition

/-- A request and the reply it was given. -/
structure Event (Req : Type) (Rep : Req → Type) where
  req : Req
  rep : Rep req

/-- How far a call is: still running, or stopped with a result, an exception, or neither. -/
inductive Mode
  | running
  | returned
  | raised
  | abandoned
  deriving DecidableEq, Repr

/-- A call: the operation invoked, its requests and replies so far (the latest first), and the
program that is left. -/
structure Thread (Op Req : Type) (Rep : Req → Type) (ε α : Type) where
  op : Op
  trace : List (Event Req Rep)
  prog : Prog Req Rep ε α
  mode : Mode

/-- The service: its state at the start, its answers, its inner steps, and what the environment does. -/
structure Service (Req : Type) (Rep : Req → Type) (σ Env : Type) where
  start : σ
  answer : ℕ → (q : Req) → σ → Option (Rep q × σ)
  work : ℕ → Req → σ → σ → Prop
  env : Env → σ → σ

/-- The service's state and the calls, in the order of their invocation. -/
structure State (σ Op Req : Type) (Rep : Req → Type) (ε α : Type) where
  shared : σ
  threads : List (Thread Op Req Rep ε α)

/-- What a step does: `i` is the number of the call it belongs to. -/
inductive Label (Op Req : Type) (Rep : Req → Type) (Env : Type)
  | invoke (op : Op)
  | answer (i : ℕ) (ev : Event Req Rep)
  | work (i : ℕ)
  | stop (i : ℕ) (m : Mode)
  | env (a : Env)

section Steps

variable {Op Req : Type} {Rep : Req → Type} {ε α σ Env : Type}

/-- The result a call has returned. -/
def Thread.result (th : Thread Op Req Rep ε α) : Option α :=
  match th.mode, th.prog with
  | .returned, .ret a => some a
  | _, _ => none

/-- A call that has just been invoked. -/
def Thread.fresh (code : Op → Prog Req Rep ε α) (op : Op) : Thread Op Req Rep ε α :=
  ⟨op, [], code op, .running⟩

/-- The call after a reply. -/
def Thread.next (th : Thread Op Req Rep ε α) (ev : Event Req Rep) (p : Prog Req Rep ε α) :
    Thread Op Req Rep ε α :=
  { th with trace := ev :: th.trace, prog := p }

/-- One step of the pool. -/
inductive Step (code : Op → Prog Req Rep ε α) (svc : Service Req Rep σ Env) :
    State σ Op Req Rep ε α → Label Op Req Rep Env → State σ Op Req Rep ε α → Prop
  | invoke (s : State σ Op Req Rep ε α) (op : Op) :
    Step code svc s (.invoke op) { s with threads := s.threads ++ [.fresh code op] }
  | answer {s : State σ Op Req Rep ε α} {i : ℕ} {th : Thread Op Req Rep ε α} {q : Req}
      {k : Rep q → Prog Req Rep ε α} {r : Rep q} {a : σ} (hi : s.threads[i]? = some th)
      (hm : th.mode = .running) (hp : th.prog = .call q k)
      (ha : svc.answer i q s.shared = some (r, a)) :
    Step code svc s (.answer i ⟨q, r⟩)
      { shared := a, threads := s.threads.set i (th.next ⟨q, r⟩ (k r)) }
  | work {s : State σ Op Req Rep ε α} {i : ℕ} {th : Thread Op Req Rep ε α} {q : Req}
      {k : Rep q → Prog Req Rep ε α} {a : σ} (hi : s.threads[i]? = some th)
      (hm : th.mode = .running) (hp : th.prog = .call q k) (hw : svc.work i q s.shared a) :
    Step code svc s (.work i) { s with shared := a }
  | stop {s : State σ Op Req Rep ε α} {i : ℕ} {th : Thread Op Req Rep ε α} {m : Mode}
      (hi : s.threads[i]? = some th) (hm : th.mode = .running) (hne : m ≠ .running)
      (hret : m = .returned → ∃ a, th.prog = .ret a) :
    Step code svc s (.stop i m) { s with threads := s.threads.set i { th with mode := m } }
  | env (s : State σ Op Req Rep ε α) (a : Env) :
    Step code svc s (.env a) { s with shared := svc.env a s.shared }

/-- **The pool as a transition system**: it starts with no calls. -/
def pool (code : Op → Prog Req Rep ε α) (svc : Service Req Rep σ Env) :
    System (State σ Op Req Rep ε α) (Label Op Req Rep Env) where
  init s := s = ⟨svc.start, []⟩
  step := Step code svc

variable {code : Op → Prog Req Rep ε α} {svc : Service Req Rep σ Env}
  {s s' t : State σ Op Req Rep ε α} {l : Label Op Req Rep Env}

theorem mem_of_getElem? {i : ℕ} {th : Thread Op Req Rep ε α} (h : s.threads[i]? = some th) :
    th ∈ s.threads := List.mem_of_getElem? h

theorem getElem?_set_cases {β : Type} {L : List β} {i j : ℕ} {x y : β}
    (h : (L.set i x)[j]? = some y) : (i = j ∧ y = x) ∨ (i ≠ j ∧ L[j]? = some y) := by
  rw [List.getElem?_set] at h
  split_ifs at h with h1 h2
  · exact Or.inl ⟨h1, by simpa using h.symm⟩
  · exact Or.inr ⟨h1, h⟩

/-- **Where a thread of the next state comes from**: it is new, it was there with the same trace and
the same program left, or it has just been answered. -/
theorem Step.thread_cases (h : Step code svc s l s') {j : ℕ} {th' : Thread Op Req Rep ε α}
    (hj : s'.threads[j]? = some th') :
    (∃ op, l = .invoke op ∧ j = s.threads.length ∧ th' = .fresh code op) ∨
    (∃ th, s.threads[j]? = some th ∧ th'.op = th.op ∧ th'.trace = th.trace ∧ th'.prog = th.prog) ∨
    ∃ th q k r a, s.threads[j]? = some th ∧ th.mode = .running ∧ th.prog = .call q k ∧
      svc.answer j q s.shared = some (r, a) ∧ l = .answer j ⟨q, r⟩ ∧ s'.shared = a ∧
      th' = th.next ⟨q, r⟩ (k r) := by
  cases h with
  | invoke op =>
    rcases Nat.lt_trichotomy j s.threads.length with hlt | rfl | hgt
    · rw [List.getElem?_append_left hlt] at hj
      exact Or.inr (Or.inl ⟨th', hj, rfl, rfl, rfl⟩)
    · simp at hj
      exact Or.inl ⟨op, rfl, rfl, hj.symm⟩
    · rw [List.getElem?_eq_none (by simp; omega)] at hj
      cases hj
  | @answer i th q k r a hi hm hp ha =>
    rcases getElem?_set_cases hj with ⟨rfl, rfl⟩ | ⟨-, hj⟩
    · exact Or.inr (Or.inr ⟨th, q, k, r, a, hi, hm, hp, ha, rfl, rfl, rfl⟩)
    · exact Or.inr (Or.inl ⟨th', hj, rfl, rfl, rfl⟩)
  | work hi hm hp hw => exact Or.inr (Or.inl ⟨th', hj, rfl, rfl, rfl⟩)
  | @stop i th m hi hm hne hret =>
    rcases getElem?_set_cases hj with ⟨rfl, rfl⟩ | ⟨-, hj⟩
    · exact Or.inr (Or.inl ⟨th, hi, rfl, rfl, rfl⟩)
    · exact Or.inr (Or.inl ⟨th', hj, rfl, rfl, rfl⟩)
  | env a => exact Or.inr (Or.inl ⟨th', hj, rfl, rfl, rfl⟩)

/-- The later thread goes on from the earlier one: same operation, longer trace; once stopped, it
does not move. -/
structure Thread.Grows (th th' : Thread Op Req Rep ε α) : Prop where
  op : th'.op = th.op
  trace : th.trace <:+ th'.trace
  stopped : th.mode ≠ .running → th' = th

theorem Thread.Grows.refl (th : Thread Op Req Rep ε α) : th.Grows th :=
  ⟨rfl, List.suffix_rfl, fun _ => rfl⟩

theorem Thread.Grows.trans {a b c : Thread Op Req Rep ε α} (h : a.Grows b) (h' : b.Grows c) :
    a.Grows c where
  op := h'.op.trans h.op
  trace := h.trace.trans h'.trace
  stopped hm := by
    have hb := h.stopped hm
    rw [← hb] at hm
    rw [h'.stopped hm, hb]

theorem Thread.Grows.mem {a b : Thread Op Req Rep ε α} (h : a.Grows b) {ev : Event Req Rep}
    (hev : ev ∈ a.trace) : ev ∈ b.trace := h.trace.mem hev

/-- **Every thread lives on under its number.** -/
theorem Step.grows (h : Step code svc s l s') {i : ℕ} {th : Thread Op Req Rep ε α}
    (hi : s.threads[i]? = some th) : ∃ th', s'.threads[i]? = some th' ∧ th.Grows th' := by
  have hlt : i < s.threads.length := (List.getElem?_eq_some_iff.mp hi).1
  cases h with
  | invoke op =>
    exact ⟨th, by rw [List.getElem?_append_left hlt]; exact hi, .refl th⟩
  | @answer j tj q k r a hj hm hp ha =>
    by_cases hij : j = i
    · subst hij
      rw [hi] at hj
      cases hj
      exact ⟨th.next ⟨q, r⟩ (k r), List.getElem?_set_self hlt, rfl, List.suffix_cons _ _,
        fun h => absurd hm h⟩
    · exact ⟨th, by rw [List.getElem?_set_ne hij]; exact hi, .refl th⟩
  | work => exact ⟨th, hi, .refl th⟩
  | @stop j tj m hj hm hne hret =>
    by_cases hij : j = i
    · subst hij
      rw [hi] at hj
      cases hj
      exact ⟨{ th with mode := m }, List.getElem?_set_self hlt, rfl, List.suffix_rfl,
        fun h => absurd hm h⟩
    · exact ⟨th, by rw [List.getElem?_set_ne hij]; exact hi, .refl th⟩
  | env => exact ⟨th, hi, .refl th⟩

/-- Call `i` made this request and got this reply. -/
def State.Did (s : State σ Op Req Rep ε α) (i : ℕ) (ev : Event Req Rep) : Prop :=
  ∃ th, s.threads[i]? = some th ∧ ev ∈ th.trace

/-- **What the calls have done after a step**: what they had done before, and the answer it gave. -/
theorem Step.did_iff (h : Step code svc s l s') {i : ℕ} {ev : Event Req Rep} :
    s'.Did i ev ↔ s.Did i ev ∨ l = .answer i ev := by
  constructor
  · rintro ⟨th', hi, hev⟩
    rcases h.thread_cases hi with ⟨op, -, -, rfl⟩ | ⟨th, hth, -, htr, -⟩ |
      ⟨th, q, k, r, a, hth, -, -, -, hl, -, rfl⟩
    · cases hev
    · exact Or.inl ⟨th, hth, htr ▸ hev⟩
    · rcases List.mem_cons.mp hev with rfl | hev
      · exact Or.inr hl
      · exact Or.inl ⟨th, hth, hev⟩
  · rintro (⟨th, hi, hev⟩ | rfl)
    · obtain ⟨th', hi', hg⟩ := h.grows hi
      exact ⟨th', hi', hg.mem hev⟩
    · cases h with
      | @answer _ th q k r a hi hm hp ha =>
        have hlt : i < s.threads.length := (List.getElem?_eq_some_iff.mp hi).1
        exact ⟨_, List.getElem?_set_self hlt, List.mem_cons_self⟩

/-- **What a step does to the service**: it answers a request, works for one that waits, acts by
itself, or does nothing. -/
theorem Step.shared_cases (h : Step code svc s l s') :
    (∃ i th q k r, l = .answer i ⟨q, r⟩ ∧ s.threads[i]? = some th ∧ th.mode = .running ∧
      th.prog = .call q k ∧ svc.answer i q s.shared = some (r, s'.shared)) ∨
    (∃ i th q k, l = .work i ∧ s.threads[i]? = some th ∧ th.mode = .running ∧
      th.prog = .call q k ∧ svc.work i q s.shared s'.shared) ∨
    (∃ a, l = .env a ∧ s'.shared = svc.env a s.shared) ∨
    ((∀ i ev, l ≠ .answer i ev) ∧ s'.shared = s.shared) := by
  cases h with
  | invoke op => exact Or.inr (Or.inr (Or.inr ⟨fun _ _ h => (nomatch h), rfl⟩))
  | answer hi hm hp ha => exact Or.inl ⟨_, _, _, _, _, rfl, hi, hm, hp, ha⟩
  | work hi hm hp hw => exact Or.inr (Or.inl ⟨_, _, _, _, rfl, hi, hm, hp, hw⟩)
  | stop => exact Or.inr (Or.inr (Or.inr ⟨fun _ _ h => (nomatch h), rfl⟩))
  | env a => exact Or.inr (Or.inr (Or.inl ⟨a, rfl, rfl⟩))

theorem Run.grows {G : State σ Op Req Rep ε α → Label Op Req Rep Env → Prop}
    (h : ((pool code svc).under G).Run s t) {i : ℕ} {th : Thread Op Req Rep ε α}
    (hi : s.threads[i]? = some th) : ∃ th', t.threads[i]? = some th' ∧ th.Grows th' := by
  induction h with
  | refl => exact ⟨th, hi, .refl th⟩
  | step _ hs ih =>
    obtain ⟨th', hi', hg⟩ := ih
    obtain ⟨th'', hi'', hg'⟩ := hs.2.grows hi'
    exact ⟨th'', hi'', hg.trans hg'⟩

/-- What the calls have done they have done for good. -/
theorem Run.did {G : State σ Op Req Rep ε α → Label Op Req Rep Env → Prop}
    (h : ((pool code svc).under G).Run s t) {i : ℕ} {ev : Event Req Rep} (hd : s.Did i ev) :
    t.Did i ev := by
  obtain ⟨th, hi, hev⟩ := hd
  obtain ⟨th', hi', hg⟩ := Run.grows h hi
  exact ⟨th', hi', hg.mem hev⟩

/-- **What a program says about its own trace.** A relation between an operation, its trace and the
program left that holds at the start and survives every reply holds of every call. -/
theorem local_invariant {G : State σ Op Req Rep ε α → Label Op Req Rep Env → Prop}
    {A : Op → List (Event Req Rep) → Prog Req Rep ε α → Prop} (h0 : ∀ op, A op [] (code op))
    (h1 : ∀ op tr q k r, A op tr (.call q k) → A op (⟨q, r⟩ :: tr) (k r))
    (h : ((pool code svc).under G).Reachable s) :
    ∀ th ∈ s.threads, A th.op th.trace th.prog := by
  induction h with
  | init hs =>
    have hs : _ = _ := hs
    subst hs
    simp
  | step _ hs ih =>
    intro th' hth'
    obtain ⟨j, hj⟩ := List.mem_iff_getElem?.mp hth'
    rcases hs.2.thread_cases hj with ⟨op, -, -, rfl⟩ | ⟨th, hth, h1, h2, h3⟩ |
      ⟨th, q, k, r, a, hth, -, hp, -, -, -, rfl⟩
    · exact h0 op
    · rw [h1, h2, h3]; exact ih th (mem_of_getElem? hth)
    · have := ih th (mem_of_getElem? hth)
      rw [hp] at this
      exact h1 _ _ _ _ _ this

/-- The points at which the requests of a trace were made. -/
theorem asked {G : State σ Op Req Rep ε α → Label Op Req Rep Env → Prop}
    {A : Op → List (Event Req Rep) → Prog Req Rep ε α → Prop} (h0 : ∀ op, A op [] (code op))
    (h1 : ∀ op tr q k r, A op tr (.call q k) → A op (⟨q, r⟩ :: tr) (k r))
    (h : ((pool code svc).under G).Reachable s) :
    ∀ th ∈ s.threads, ∀ ev tr, ev :: tr <:+ th.trace → ∃ k, A th.op tr (.call ev.req k) := by
  have hA : ∀ th ∈ s.threads, A th.op th.trace th.prog ∧
      ∀ ev tr, ev :: tr <:+ th.trace → ∃ k, A th.op tr (.call ev.req k) := by
    refine local_invariant (A := fun op trace prog => A op trace prog ∧
      ∀ ev tr, ev :: tr <:+ trace → ∃ k, A op tr (.call ev.req k)) ?_ ?_ h
    · intro op
      exact ⟨h0 op, fun ev tr hs => absurd (List.suffix_nil.mp hs) (List.cons_ne_nil _ _)⟩
    · rintro op trace q k r ⟨hp, hall⟩
      refine ⟨h1 op trace q k r hp, fun ev tr hs => ?_⟩
      rcases List.suffix_cons_iff.mp hs with heq | hs
      · obtain ⟨rfl, rfl⟩ := List.cons.inj heq
        exact ⟨k, hp⟩
      · exact hall ev tr hs
  exact fun th hth => (hA th hth).2

/-- `p` comes to `p'` by these requests and replies, the latest first. -/
inductive Leads (p : Prog Req Rep ε α) : List (Event Req Rep) → Prog Req Rep ε α → Prop
  | start : Leads p [] p
  | answer {tr : List (Event Req Rep)} {q : Req} {k : Rep q → Prog Req Rep ε α}
      (h : Leads p tr (.call q k)) (r : Rep q) : Leads p (⟨q, r⟩ :: tr) (k r)

/-- Where a program comes to is determined by the replies. -/
theorem Leads.unique {p a b : Prog Req Rep ε α} {tr : List (Event Req Rep)} (ha : Leads p tr a)
    (hb : Leads p tr b) : a = b := by
  induction ha generalizing b with
  | start =>
    cases hb
    rfl
  | @answer tr q k h r ih =>
    cases hb with
    | answer h' =>
      cases ih h'
      rfl

/-- What a program comes to, it comes to by way of every earlier point. -/
theorem Leads.split {p b : Prog Req Rep ε α} {tr₁ tr₀ : List (Event Req Rep)}
    (h : Leads p (tr₁ ++ tr₀) b) : ∃ a, Leads p tr₀ a ∧ Leads a tr₁ b := by
  induction tr₁ generalizing b with
  | nil => exact ⟨b, h, .start⟩
  | cons ev tr₁ ih =>
    cases h with
    | answer h r =>
      obtain ⟨a, ha, hb⟩ := ih h
      exact ⟨a, ha, .answer hb r⟩

/-- A program that has ended asks for nothing. -/
theorem Leads.of_ret {a : α} {p : Prog Req Rep ε α} {tr : List (Event Req Rep)}
    (h : Leads (.ret a) tr p) : tr = [] ∧ p = .ret a := by
  induction h with
  | start => exact ⟨rfl, rfl⟩
  | answer h r ih => cases ih.2

/-- So does one that has thrown. -/
theorem Leads.of_throw {e : ε} {p : Prog Req Rep ε α} {tr : List (Event Req Rep)}
    (h : Leads (.throw e) tr p) : tr = [] ∧ p = .throw e := by
  induction h with
  | start => exact ⟨rfl, rfl⟩
  | answer h r ih => cases ih.2

/-- A program that asks waits for its reply, or goes on from it. -/
theorem Leads.of_call {q : Req} {k : Rep q → Prog Req Rep ε α} {p : Prog Req Rep ε α}
    {tr : List (Event Req Rep)} (h : Leads (.call q k) tr p) :
    (tr = [] ∧ p = .call q k) ∨ ∃ r tr', tr = tr' ++ [⟨q, r⟩] ∧ Leads (k r) tr' p := by
  induction h with
  | start => exact Or.inl ⟨rfl, rfl⟩
  | @answer tr q' k' h r ih =>
    rcases ih with ⟨rfl, hp⟩ | ⟨r', tr', rfl, hl⟩
    · cases hp
      exact Or.inr ⟨r, [], rfl, .start⟩
    · exact Or.inr ⟨r', ⟨q', r⟩ :: tr', rfl, .answer hl r⟩

/-- A function of the result is applied where the program ends. -/
theorem Leads.of_map {β : Type} {f : α → β} {p : Prog Req Rep ε α} {b : Prog Req Rep ε β}
    {tr : List (Event Req Rep)} (h : Leads (f <$> p) tr b) : ∃ p', Leads p tr p' ∧ b = f <$> p' := by
  induction h with
  | start => exact ⟨p, .start, rfl⟩
  | @answer tr q k h r ih =>
    obtain ⟨p', hl, he⟩ := ih
    obtain ⟨k', rfl, rfl⟩ := Prog.map_eq_call he.symm
    exact ⟨k' r, .answer hl r, rfl⟩

/-- **A call is where its trace leads its program.** -/
theorem leads {G : State σ Op Req Rep ε α → Label Op Req Rep Env → Prop}
    (h : ((pool code svc).under G).Reachable s) :
    ∀ th ∈ s.threads, Leads (code th.op) th.trace th.prog :=
  local_invariant (A := fun op trace prog => Leads (code op) trace prog) (fun _ => .start)
    (fun _ _ _ _ r h => .answer h r) h

/-- A call that has returned has a result as its program. -/
theorem returned_ret {G : State σ Op Req Rep ε α → Label Op Req Rep Env → Prop}
    (h : ((pool code svc).under G).Reachable s) :
    ∀ th ∈ s.threads, th.mode = .returned → ∃ a, th.prog = .ret a := by
  induction h with
  | init hs =>
    have hs : _ = _ := hs
    subst hs
    simp
  | step _ hs ih =>
    intro th' hth' hm'
    cases hs.2 with
    | invoke op =>
      rcases List.mem_append.mp hth' with hth' | hth'
      · exact ih th' hth' hm'
      · rw [List.mem_singleton.mp hth'] at hm'
        cases hm'
    | answer hi hm hp ha =>
      rcases List.mem_or_eq_of_mem_set hth' with hth' | rfl
      · exact ih th' hth' hm'
      · rw [show (Thread.next _ _ _).mode = _ from hm] at hm'
        cases hm'
    | work => exact ih th' hth' hm'
    | stop hi hm hne hret =>
      rcases List.mem_or_eq_of_mem_set hth' with hth' | rfl
      · exact ih th' hth' hm'
      · exact hret hm'
    | env => exact ih th' hth' hm'

theorem result_of_returned {th : Thread Op Req Rep ε α} {a : α} (hm : th.mode = .returned)
    (hp : th.prog = .ret a) : th.result = some a := by
  unfold Thread.result; rw [hm, hp]

theorem of_result {th : Thread Op Req Rep ε α} {a : α} (h : th.result = some a) :
    th.mode = .returned ∧ th.prog = .ret a := by
  unfold Thread.result at h
  split at h
  · next hm hp => exact ⟨hm, by rw [hp]; cases h; rfl⟩
  · cases h

end Steps

/-! ### Operations under other names -/

section Rename

variable {Op Op' Req : Type} {Rep : Req → Type} {ε α σ Env : Type} (f : Op' → Op)

def Thread.rename (th : Thread Op' Req Rep ε α) : Thread Op Req Rep ε α :=
  ⟨f th.op, th.trace, th.prog, th.mode⟩

def State.rename (s : State σ Op' Req Rep ε α) : State σ Op Req Rep ε α :=
  ⟨s.shared, s.threads.map (Thread.rename f)⟩

def Label.rename : Label Op' Req Rep Env → Label Op Req Rep Env
  | .invoke op => .invoke (f op)
  | .answer i ev => .answer i ev
  | .work i => .work i
  | .stop i m => .stop i m
  | .env a => .env a

variable {f} {code : Op → Prog Req Rep ε α} {code' : Op' → Prog Req Rep ε α}
  {svc : Service Req Rep σ Env} {s s' : State σ Op' Req Rep ε α} {l : Label Op' Req Rep Env}

theorem State.rename_getElem? {i : ℕ} {th : Thread Op' Req Rep ε α} (h : s.threads[i]? = some th) :
    (s.rename f).threads[i]? = some (th.rename f) := by
  show (s.threads.map _)[i]? = _
  rw [List.getElem?_map, h]
  rfl

theorem State.rename_set (a : σ) (i : ℕ) (th : Thread Op' Req Rep ε α) :
    State.rename f ⟨a, s.threads.set i th⟩ = ⟨a, (s.rename f).threads.set i (th.rename f)⟩ :=
  congrArg (State.mk a) List.map_set

/-- Operations with the programs that their names have do the steps of the names. -/
theorem Step.rename (hf : ∀ op, code' op = code (f op)) (h : Step code' svc s l s') :
    Step code svc (s.rename f) (l.rename f) (s'.rename f) := by
  cases h with
  | invoke op =>
    have hth : (Thread.fresh code' op).rename f = Thread.fresh code (f op) := by
      rw [Thread.fresh, hf]
      rfl
    have hs' : State.rename f { s with threads := s.threads ++ [.fresh code' op] } =
        { s.rename f with threads := (s.rename f).threads ++ [.fresh code (f op)] } := by
      rw [← hth]
      exact congrArg (State.mk s.shared) List.map_append
    rw [hs']
    exact .invoke _ _
  | answer hi hm hp ha =>
    rw [State.rename_set]
    exact .answer (State.rename_getElem? hi) hm hp ha
  | work hi hm hp hw => exact .work (State.rename_getElem? hi) hm hp hw
  | stop hi hm hne hret =>
    rw [State.rename_set]
    exact .stop (State.rename_getElem? hi) hm hne hret
  | env a => exact .env _ _

/-- **A pool is one of the calls that its operations are names of.** -/
theorem rename_reachable {G : State σ Op Req Rep ε α → Label Op Req Rep Env → Prop}
    (hf : ∀ op, code' op = code (f op))
    (h : ((pool code' svc).under fun s l => G (s.rename f) (l.rename f)).Reachable s) :
    ((pool code svc).under G).Reachable (s.rename f) := by
  induction h with
  | @init s hs =>
    rw [show s = ⟨svc.start, []⟩ from hs]
    exact .init rfl
  | step _ hs ih => exact ih.step ⟨hs.1, hs.2.rename hf⟩

end Rename

/-! ### Executable runs -/

section Play

variable {Op Req : Type} {Rep : Req → Type} {ε α σ Env : Type}

/-- A step to try: the answers are the service's. -/
inductive Act (Op Env : Type)
  | invoke (op : Op)
  | go (i : ℕ)
  | work (i : ℕ)
  | stop (i : ℕ) (m : Mode)
  | env (a : Env)

/-- Whether the program has come to a result. -/
def done : Prog Req Rep ε α → Bool
  | .ret _ => true
  | _ => false

theorem ret_of_done {p : Prog Req Rep ε α} (h : done p = true) : ∃ a, p = .ret a := by
  cases p with
  | ret a => exact ⟨a, rfl⟩
  | throw | call => cases h

/-- The step of `act`, if there is one. `work` picks one inner step of the service. -/
def act (code : Op → Prog Req Rep ε α) (svc : Service Req Rep σ Env)
    (work : ℕ → Req → σ → Option σ) (s : State σ Op Req Rep ε α) :
    Act Op Env → Option (Label Op Req Rep Env × State σ Op Req Rep ε α)
  | .invoke op => some (.invoke op, { s with threads := s.threads ++ [.fresh code op] })
  | .go i =>
    match s.threads[i]? with
    | none => none
    | some th =>
      if th.mode = .running then
        match th.prog with
        | .call q k =>
          match svc.answer i q s.shared with
          | some (r, a) => some (.answer i ⟨q, r⟩,
              { shared := a, threads := s.threads.set i (th.next ⟨q, r⟩ (k r)) })
          | none => none
        | _ => none
      else none
  | .work i =>
    match s.threads[i]? with
    | none => none
    | some th =>
      if th.mode = .running then
        match th.prog with
        | .call q _ => (work i q s.shared).map fun a => (.work i, { s with shared := a })
        | _ => none
      else none
  | .stop i m =>
    match s.threads[i]? with
    | none => none
    | some th =>
      if th.mode = .running ∧ m ≠ .running ∧ (m = .returned → done th.prog = true) then
        some (.stop i m, { s with threads := s.threads.set i { th with mode := m } })
      else none
  | .env a => some (.env a, { s with shared := svc.env a s.shared })

/-- The run that tries the steps in order, each under the guard. -/
def play (code : Op → Prog Req Rep ε α) (svc : Service Req Rep σ Env)
    (work : ℕ → Req → σ → Option σ)
    (guard : State σ Op Req Rep ε α → Label Op Req Rep Env → Bool) :
    State σ Op Req Rep ε α → List (Act Op Env) → Option (State σ Op Req Rep ε α)
  | s, [] => some s
  | s, x :: xs =>
    match act code svc work s x with
    | some (l, s') => if guard s l then play code svc work guard s' xs else none
    | none => none

variable {code : Op → Prog Req Rep ε α} {svc : Service Req Rep σ Env}
  {work : ℕ → Req → σ → Option σ}
  {guard : State σ Op Req Rep ε α → Label Op Req Rep Env → Bool}
  {G : State σ Op Req Rep ε α → Label Op Req Rep Env → Prop}

theorem act_step (hw : ∀ i q a a', work i q a = some a' → svc.work i q a a')
    {s s' : State σ Op Req Rep ε α} {x : Act Op Env} {l : Label Op Req Rep Env}
    (h : act code svc work s x = some (l, s')) : Step code svc s l s' := by
  cases x with
  | invoke op => simp only [act, Option.some.injEq, Prod.mk.injEq] at h
                 obtain ⟨rfl, rfl⟩ := h
                 exact .invoke s op
  | go i =>
    simp only [act] at h
    split at h
    · cases h
    · next th hi =>
      split_ifs at h with hm
      split at h
      · next q k hp =>
        split at h
        · next r a ha =>
          simp only [Option.some.injEq, Prod.mk.injEq] at h
          obtain ⟨rfl, rfl⟩ := h
          exact .answer hi hm hp ha
        · cases h
      · cases h
  | work i =>
    simp only [act] at h
    split at h
    · cases h
    · next th hi =>
      split_ifs at h with hm
      split at h
      · next q k hp =>
        simp only [Option.map_eq_some_iff, Prod.mk.injEq] at h
        obtain ⟨a, ha, rfl, rfl⟩ := h
        exact .work hi hm hp (hw _ _ _ _ ha)
      · cases h
  | stop i m =>
    simp only [act] at h
    split at h
    · cases h
    · next th hi =>
      split_ifs at h with hm
      simp only [Option.some.injEq, Prod.mk.injEq] at h
      obtain ⟨rfl, rfl⟩ := h
      exact .stop hi hm.1 hm.2.1 fun hr => ret_of_done (hm.2.2 hr)
  | env a => simp only [act, Option.some.injEq, Prod.mk.injEq] at h
             obtain ⟨rfl, rfl⟩ := h
             exact .env s a

/-- An executable run is a run of the guarded pool. -/
theorem play_run (hw : ∀ i q a a', work i q a = some a' → svc.work i q a a')
    (hG : ∀ s l, guard s l = true → G s l) :
    ∀ {xs : List (Act Op Env)} {s t : State σ Op Req Rep ε α},
      play code svc work guard s xs = some t → ((pool code svc).under G).Run s t := by
  intro xs
  induction xs with
  | nil =>
    intro s t h
    simp only [play, Option.some.injEq] at h
    subst h
    exact .refl
  | cons x xs ih =>
    intro s t h
    simp only [play] at h
    split at h
    · next l s' ha =>
      split_ifs at h with hg
      have hstep : ((pool code svc).under G).step s l s' := ⟨hG _ _ hg, act_step hw ha⟩
      exact (System.Run.step .refl hstep).trans (ih h)
    · cases h

/-- The state an executable run from the start ends in is reachable. -/
theorem play_reachable (hw : ∀ i q a a', work i q a = some a' → svc.work i q a a')
    (hG : ∀ s l, guard s l = true → G s l) {xs : List (Act Op Env)} {t : State σ Op Req Rep ε α}
    (h : play code svc work guard ⟨svc.start, []⟩ xs = some t) :
    ((pool code svc).under G).Reachable t :=
  (System.Reachable.init rfl).run (play_run hw hG h)

end Play

end NebulaToken.Lib.Pool
