import NebulaToken.Lib.Transition

/-! # Optimistic updates of immutable objects

Objects are never changed. Under a key is a reference to one of them, and an update puts a new object in
its place: it reads the reference, looks at the object, makes a changed copy, and puts the copy there if
the reference is still the one it read. If not, it starts again. Any number of updates may do so at a
time, step by step.

* `Step.cases`: a step of an update is its compare-and-set, or changes nothing;
* `refines`: the updates refine compare-and-sets that take one step;
* `decided`: an update that has returned has done so by one step, which was a compare-and-set;
* `logged`: what is under the keys is what the successful updates, each once, have made of it. -/

namespace NebulaToken.Lib.Optimistic

open NebulaToken.Lib.Transition

/-- A conditional update of what is under a key. -/
structure Attempt (κ ρ : Type) where
  key : κ
  guard : ρ → Bool
  update : ρ → ρ

section Atomic

variable {κ ρ : Type} [DecidableEq κ]

/-! ### Compare-and-sets -/

/-- **A compare-and-set**: whether it applies, and what is under the keys after it. -/
def Attempt.cas (a : Attempt κ ρ) (look : κ → Option ρ) : Bool × (κ → Option ρ) :=
  match look a.key with
  | some r => if a.guard r then (true, Function.update look a.key (some (a.update r))) else (false, look)
  | none => (false, look)

/-- One that applies. -/
theorem Attempt.cas_true {a : Attempt κ ρ} {look look' : κ → Option ρ} (h : a.cas look = (true, look')) :
    ∃ r, look a.key = some r ∧ a.guard r = true ∧
      look' = Function.update look a.key (some (a.update r)) := by
  unfold cas at h
  split at h
  · next r hr =>
    split_ifs at h with hg
    · exact ⟨r, hr, hg, (Prod.mk.inj h).2.symm⟩
    · cases (Prod.mk.inj h).1
  · cases (Prod.mk.inj h).1

/-- One that does not. -/
theorem Attempt.cas_false {a : Attempt κ ρ} {look look' : κ → Option ρ} (h : a.cas look = (false, look')) :
    look' = look ∧ ∀ r, look a.key = some r → a.guard r = false := by
  unfold cas at h
  split at h
  · next r hr =>
    split_ifs at h with hg
    · cases (Prod.mk.inj h).1
    · refine ⟨(Prod.mk.inj h).2.symm, fun r' hr' => ?_⟩
      rw [hr] at hr'
      obtain rfl := Option.some.inj hr'
      exact Bool.eq_false_iff.mpr hg
  · next hnone =>
    refine ⟨(Prod.mk.inj h).2.symm, fun r hr => ?_⟩
    rw [hnone] at hr
    cases hr

/-- What is under the keys, and the updates with their results. -/
structure Atomic (Op κ ρ : Type) where
  look : κ → Option ρ
  calls : List (Op × Option Bool)

/-- A step of updates that take one step. -/
inductive AtomicStep {Op : Type} (attempt : Op → Attempt κ ρ) : Atomic Op κ ρ → Atomic Op κ ρ → Prop
  | invoke (s : Atomic Op κ ρ) (op : Op) : AtomicStep attempt s { s with calls := s.calls ++ [(op, none)] }
  | act {s : Atomic Op κ ρ} {i : ℕ} {op : Op} (hi : s.calls[i]? = some (op, none)) :
    AtomicStep attempt s {
      look := ((attempt op).cas s.look).2
      calls := s.calls.set i (op, some ((attempt op).cas s.look).1) }

/-- Updates that apply, one after another. -/
inductive Applied {Op : Type} (attempt : Op → Attempt κ ρ) (look₀ : κ → Option ρ) :
    List (ℕ × Op) → (κ → Option ρ) → Prop
  | nil : Applied attempt look₀ [] look₀
  | snoc {log : List (ℕ × Op)} {look look' : κ → Option ρ} {i : ℕ} {op : Op}
      (h : Applied attempt look₀ log look) (hcas : (attempt op).cas look = (true, look')) :
    Applied attempt look₀ (log ++ [(i, op)]) look'

end Atomic

/-! ### Objects and references -/

section Objects

variable {Op κ ρ : Type} [DecidableEq κ]

/-- The objects that were made, and what the keys refer to. -/
structure Cells (κ ρ : Type) where
  objects : List ρ
  ref : κ → Option ℕ
  live : ∀ {k n}, ref k = some n → n < objects.length

/-- The object under a key. -/
def Cells.look (s : Cells κ ρ) (k : κ) : Option ρ := (s.ref k).bind fun n => s.objects[n]?

/-- A new object is put under the key if the reference there is still `n`. -/
def Cells.swap (s : Cells κ ρ) (k : κ) (n : ℕ) (r : ρ) : Bool × Cells κ ρ :=
  if s.ref k = some n then
    (true, {
      objects := s.objects ++ [r]
      ref := Function.update s.ref k (some s.objects.length)
      live := by
        intro k' n' h
        rw [List.length_append, List.length_singleton]
        by_cases hk : k' = k
        · rw [hk, Function.update_self] at h
          have := Option.some.inj h
          omega
        · rw [Function.update_of_ne hk] at h
          have := s.live h
          omega })
  else
    (false, {
      objects := s.objects ++ [r]
      ref := s.ref
      live := by
        intro k' n' h
        have := s.live h
        rw [List.length_append]
        omega })

/-- Where an update is. -/
inductive Point
  | reading
  | holding (n : ℕ)
  | returned (b : Bool)
  deriving DecidableEq, Repr

/-- The result of an update, if it has returned. -/
def Point.result : Point → Option Bool
  | .returned b => some b
  | _ => none

/-- An update, and where it is. -/
structure Call (Op : Type) where
  op : Op
  point : Point

/-- The objects, and the updates in the order of their invocation. -/
structure State (Op κ ρ : Type) where
  cells : Cells κ ρ
  calls : List (Call Op)

/-- Where an update is once it has read its key: it holds an object that its guard admits, or it has
nothing to do. -/
def Attempt.read (a : Attempt κ ρ) (s : Cells κ ρ) : Point :=
  match s.ref a.key, s.look a.key with
  | some n, some r => if a.guard r then .holding n else .returned false
  | _, _ => .returned false

inductive Label (Op : Type)
  | invoke (op : Op)
  | read (i : ℕ)
  | swap (i : ℕ)
  deriving DecidableEq, Repr

/-- The update a step belongs to, once it is invoked. -/
def Label.call : Label Op → Option ℕ
  | .invoke _ => none
  | .read i => some i
  | .swap i => some i

variable (attempt : Op → Attempt κ ρ)

/-- One step. -/
inductive Step : State Op κ ρ → Label Op → State Op κ ρ → Prop
  | invoke (s : State Op κ ρ) (op : Op) :
    Step s (.invoke op) { s with calls := s.calls ++ [⟨op, .reading⟩] }
  | read {s : State Op κ ρ} {i : ℕ} {op : Op} (hi : s.calls[i]? = some ⟨op, .reading⟩) :
    Step s (.read i) { s with calls := s.calls.set i ⟨op, (attempt op).read s.cells⟩ }
  | swap {s : State Op κ ρ} {i : ℕ} {op : Op} {n : ℕ} {r : ρ} (hi : s.calls[i]? = some ⟨op, .holding n⟩)
      (hr : s.cells.objects[n]? = some r) :
    Step s (.swap i) {
      cells := (s.cells.swap (attempt op).key n ((attempt op).update r)).2
      -- an update that lost the race starts again
      calls := s.calls.set i ⟨op, if (s.cells.swap (attempt op).key n ((attempt op).update r)).1 then
        .returned true else .reading⟩ }

/-- **The updates as a transition system**: it starts with none. -/
def optimistic : System (State Op κ ρ) (Label Op) where
  init s := s.calls = []
  step := Step attempt

/-- What an update holds, its guard admits. -/
def Sound (s : State Op κ ρ) : Prop :=
  ∀ c ∈ s.calls, ∀ n, c.point = .holding n → ∃ r, s.cells.objects[n]? = some r ∧ (attempt c.op).guard r = true

variable {attempt} {s s' : State Op κ ρ} {l : Label Op}

theorem objects_swap (s : Cells κ ρ) (k : κ) (n : ℕ) (r : ρ) : (s.swap k n r).2.objects = s.objects ++ [r] := by
  unfold Cells.swap
  split_ifs
  · rfl
  · rfl

/-- An object that was made stays as it is. -/
theorem getElem?_swap {s : Cells κ ρ} {m : ℕ} {r : ρ} (h : s.objects[m]? = some r) (k : κ) (n : ℕ)
    (r' : ρ) : (s.swap k n r').2.objects[m]? = some r := by
  rw [objects_swap, List.getElem?_append_left (List.getElem?_eq_some_iff.mp h).1, h]

/-- The reference was the one read: the new object is under the key. -/
theorem look_swap_true {s : Cells κ ρ} {k : κ} {n : ℕ} (h : s.ref k = some n) (r : ρ) :
    (s.swap k n r).1 = true ∧ (s.swap k n r).2.look = Function.update s.look k (some r) := by
  unfold Cells.swap
  rw [if_pos h]
  refine ⟨rfl, funext fun k' => ?_⟩
  unfold Cells.look
  dsimp only
  by_cases hk : k' = k
  · rw [hk, Function.update_self, Function.update_self, Option.bind_some, List.getElem?_concat_length]
  · rw [Function.update_of_ne hk, Function.update_of_ne hk]
    cases hr : s.ref k' with
    | none => rfl
    | some m => exact List.getElem?_append_left (s.live hr)

/-- It was not: nothing has changed under the keys. -/
theorem look_swap_false {s : Cells κ ρ} {k : κ} {n : ℕ} (h : s.ref k ≠ some n) (r : ρ) :
    (s.swap k n r).1 = false ∧ (s.swap k n r).2.look = s.look := by
  unfold Cells.swap
  rw [if_neg h]
  refine ⟨rfl, funext fun k' => ?_⟩
  unfold Cells.look
  cases hr : s.ref k' with
  | none => rfl
  | some m => exact List.getElem?_append_left (s.live hr)

theorem sound_step (hS : Sound attempt s) (h : Step attempt s l s') : Sound attempt s' := by
  cases h with
  | invoke op =>
    intro c hc n hn
    rcases List.mem_append.mp hc with hc | hc
    · exact hS c hc n hn
    · rw [List.mem_singleton.mp hc] at hn
      cases hn
  | @read i op hi =>
    intro c hc n hn
    rcases List.mem_or_eq_of_mem_set hc with hc | rfl
    · exact hS c hc n hn
    · dsimp only at hn
      unfold Attempt.read at hn
      split at hn
      · next m r hm hr =>
        split_ifs at hn with hg
        · obtain rfl := Point.holding.inj hn
          refine ⟨r, ?_, hg⟩
          rw [Cells.look, hm] at hr
          exact hr
      · cases hn
  | @swap i op n r hi hr =>
    intro c hc m hm
    rcases List.mem_or_eq_of_mem_set hc with hc | rfl
    · obtain ⟨r', hr', hg⟩ := hS c hc m hm
      exact ⟨r', getElem?_swap hr' _ _ _, hg⟩
    · dsimp only at hm
      split_ifs at hm

/-- **What a step does.** It invokes an update; or an update goes on and changes nothing; or it returns,
and the step was its compare-and-set. -/
theorem Step.cases (hS : Sound attempt s) (h : Step attempt s l s') :
    (∃ op, l = .invoke op ∧ s'.cells.look = s.cells.look ∧ s'.calls = s.calls ++ [⟨op, .reading⟩]) ∨
    ∃ i op p p', l.call = some i ∧ s.calls[i]? = some ⟨op, p⟩ ∧ p.result = none ∧
      s'.calls = s.calls.set i ⟨op, p'⟩ ∧
      ((p'.result = none ∧ s'.cells.look = s.cells.look) ∨
        ∃ b, p'.result = some b ∧ (attempt op).cas s.cells.look = (b, s'.cells.look)) := by
  cases h with
  | invoke op => exact Or.inl ⟨op, rfl, rfl, rfl⟩
  | @read i op hi =>
    refine Or.inr ⟨i, op, .reading, _, rfl, hi, rfl, rfl, ?_⟩
    unfold Attempt.read Attempt.cas
    split
    · next n r hn hr =>
      rw [hr]
      dsimp only
      split_ifs with hg
      · exact Or.inl ⟨rfl, rfl⟩
      · exact Or.inr ⟨false, rfl, rfl⟩
    · next hno =>
      refine Or.inr ⟨false, rfl, ?_⟩
      -- a reference is always to an object
      cases hr : s.cells.look (attempt op).key with
      | none => rfl
      | some r =>
        have hlook := hr
        rw [Cells.look] at hlook
        obtain ⟨n, hn, -⟩ := Option.bind_eq_some_iff.mp hlook
        exact (hno n r hn hr).elim
  | @swap i op n r hi hr =>
    refine Or.inr ⟨i, op, .holding n, _, rfl, hi, rfl, rfl, ?_⟩
    by_cases href : s.cells.ref (attempt op).key = some n
    · obtain ⟨htrue, hlook⟩ := look_swap_true href ((attempt op).update r)
      obtain ⟨r', hr', hg⟩ := hS _ (List.mem_of_getElem? hi) n rfl
      obtain rfl := Option.some.inj (hr.symm.trans hr')
      refine Or.inr ⟨true, ?_, ?_⟩
      · rw [htrue]
        rfl
      · rw [Attempt.cas, Cells.look, href, Option.bind_some, hr]
        dsimp only
        rw [if_pos hg, hlook]
    · obtain ⟨hfalse, hlook⟩ := look_swap_false href ((attempt op).update r)
      refine Or.inl ⟨?_, hlook⟩
      rw [hfalse]
      rfl

/-! ### Runs -/

/-- The state as updates that take one step have it. -/
def State.abs (s : State Op κ ρ) : Atomic Op κ ρ :=
  ⟨s.cells.look, s.calls.map fun c => (c.op, c.point.result)⟩

/-- **The updates refine compare-and-sets**: each of their steps is one of an atomic update, or none. -/
theorem refines (hS : Sound attempt s) (h : Step attempt s l s') :
    s'.abs = s.abs ∨ AtomicStep attempt s.abs s'.abs := by
  rcases h.cases hS with ⟨op, -, hlook, hcalls⟩ | ⟨i, op, p, p', -, hi, hp, hcalls, hstep⟩
  · have habs : s'.abs = { s.abs with calls := s.abs.calls ++ [(op, none)] } := by
      rw [State.abs, hlook, hcalls, List.map_append]
      rfl
    rw [habs]
    exact Or.inr (.invoke s.abs op)
  · have hi' : s.abs.calls[i]? = some (op, none) := by
      rw [State.abs, List.getElem?_map, hi, Option.map_some, hp]
    rcases hstep with ⟨hp', hlook⟩ | ⟨b, hp', hcas⟩
    · refine Or.inl ?_
      rw [State.abs, State.abs, hlook, hcalls, List.map_set, hp']
      obtain ⟨hlt, he⟩ := List.getElem?_eq_some_iff.mp hi'
      refine congrArg (Atomic.mk s.cells.look) ?_
      show s.abs.calls.set i (op, none) = s.abs.calls
      rw [← he, List.set_getElem_self]
    · refine Or.inr ?_
      have habs : s'.abs = {
          look := ((attempt op).cas s.abs.look).2
          calls := s.abs.calls.set i (op, some ((attempt op).cas s.abs.look).1) } := by
        rw [show (attempt op).cas s.abs.look = (b, s'.cells.look) from hcas, State.abs, hcalls, List.map_set,
          hp']
        rfl
      rw [habs]
      exact .act hi'

/-- Steps of a run. -/
abbrev Steps (Op κ ρ : Type) := List (State Op κ ρ × Label Op × State Op κ ρ)

/-- The update changes nothing in these steps. -/
def Idle (i : ℕ) (p : Steps Op κ ρ) : Prop :=
  ∀ e ∈ p, e.2.1.call = some i → e.2.2.cells.look = e.1.cells.look

/-- **The update was decided in one step**: a compare-and-set with this result. In its other steps it
changed nothing. -/
def Decided (attempt : Op → Attempt κ ρ) (i : ℕ) (op : Op) (b : Bool) (p : Steps Op κ ρ) : Prop :=
  ∃ p₁ u l v p₂, p = p₁ ++ (u, l, v) :: p₂ ∧ l.call = some i ∧
    (attempt op).cas u.cells.look = (b, v.cells.look) ∧ Idle i p₁ ∧ Idle i p₂

omit [DecidableEq κ] in
theorem Idle.snoc {i : ℕ} {p : Steps Op κ ρ} (h : Idle i p) {u v : State Op κ ρ} {l : Label Op}
    (hne : l.call = some i → v.cells.look = u.cells.look) : Idle i (p ++ [(u, l, v)]) := by
  intro e he hl
  rcases List.mem_append.mp he with he | he
  · exact h e he hl
  · obtain rfl := List.mem_singleton.mp he
    exact hne hl

theorem Decided.snoc {i : ℕ} {op : Op} {b : Bool} {p : Steps Op κ ρ} (h : Decided attempt i op b p)
    {u v : State Op κ ρ} {l : Label Op} (hne : l.call = some i → v.cells.look = u.cells.look) :
    Decided attempt i op b (p ++ [(u, l, v)]) := by
  obtain ⟨p₁, u', l', v', p₂, rfl, hl, hcas, h₁, h₂⟩ := h
  exact ⟨p₁, u', l', v', p₂ ++ [(u, l, v)], by rw [List.append_assoc]; rfl, hl, hcas, h₁, h₂.snoc hne⟩

/-- What a run says of its updates. -/
structure Told (attempt : Op → Attempt κ ρ) (p : Steps Op κ ρ) (s : State Op κ ρ) : Prop where
  sound : Sound attempt s
  fresh : ∀ i, s.calls.length ≤ i → Idle i p
  running : ∀ i op q, s.calls[i]? = some ⟨op, q⟩ → q.result = none → Idle i p
  decided : ∀ i op q b, s.calls[i]? = some ⟨op, q⟩ → q.result = some b → Decided attempt i op b p

theorem told_step {p : Steps Op κ ρ} (hT : Told attempt p s) (h : Step attempt s l s') :
    Told attempt (p ++ [(s, l, s')]) s' := by
  rcases h.cases hT.sound with ⟨op₀, rfl, -, hcalls⟩ | ⟨i₀, op₀, q₀, q', hl, hi₀, hq₀, hcalls, hstep⟩
  · -- the step belongs to no update
    have hno : ∀ i, (Label.invoke op₀).call = some i → s'.cells.look = s.cells.look := fun i h => by cases h
    have hold : ∀ {i c}, s'.calls[i]? = some c →
        s.calls[i]? = some c ∨ (s.calls.length ≤ i ∧ c.point.result = none) := by
      intro i c hi
      rw [hcalls] at hi
      by_cases hlt : i < s.calls.length
      · rw [List.getElem?_append_left hlt] at hi
        exact Or.inl hi
      · rw [List.getElem?_append_right (Nat.le_of_not_lt hlt)] at hi
        obtain rfl := List.mem_singleton.mp (List.mem_of_getElem? hi)
        exact Or.inr ⟨Nat.le_of_not_lt hlt, rfl⟩
    refine ⟨sound_step hT.sound h, fun i hi => ?_, fun i op q hi hq => ?_, fun i op q b hi hq => ?_⟩
    · rw [hcalls, List.length_append] at hi
      exact (hT.fresh i (by omega)).snoc (hno i)
    · rcases hold hi with hi | ⟨hle, -⟩
      · exact (hT.running i op q hi hq).snoc (hno i)
      · exact (hT.fresh i hle).snoc (hno i)
    · rcases hold hi with hi | ⟨-, hnone⟩
      · exact (hT.decided i op q b hi hq).snoc (hno i)
      · rw [hq] at hnone
        cases hnone
  · have hlt₀ : i₀ < s.calls.length := (List.getElem?_eq_some_iff.mp hi₀).1
    have hother : ∀ {i}, i ≠ i₀ → l.call = some i → s'.cells.look = s.cells.look := by
      intro i hne h
      exact absurd (Option.some.inj (h.symm.trans hl)) hne
    have hself : s'.calls[i₀]? = some ⟨op₀, q'⟩ := by rw [hcalls, List.getElem?_set_self hlt₀]
    have hrest : ∀ {i}, i ≠ i₀ → s'.calls[i]? = s.calls[i]? := fun hne => by
      rw [hcalls, List.getElem?_set_ne (Ne.symm hne)]
    refine ⟨sound_step hT.sound h, fun i hi => ?_, fun i op q hi hq => ?_, fun i op q b hi hq => ?_⟩
    · rw [hcalls, List.length_set] at hi
      exact (hT.fresh i hi).snoc (hother (by omega))
    · by_cases hne : i = i₀
      · subst hne
        rw [hself] at hi
        cases hi
        refine (hT.running i op₀ q₀ hi₀ hq₀).snoc fun _ => ?_
        rcases hstep with ⟨-, hlook⟩ | ⟨b, hb, -⟩
        · exact hlook
        · rw [hq] at hb
          cases hb
      · rw [hrest hne] at hi
        exact (hT.running i op q hi hq).snoc (hother hne)
    · by_cases hne : i = i₀
      · subst hne
        rw [hself] at hi
        cases hi
        rcases hstep with ⟨hnone, -⟩ | ⟨b', hb, hcas⟩
        · rw [hq] at hnone
          cases hnone
        · obtain rfl := Option.some.inj (hq.symm.trans hb)
          exact ⟨p, s, l, s', [], rfl, hl, hcas, hT.running i op₀ q₀ hi₀ hq₀, fun e he => by cases he⟩
      · rw [hrest hne] at hi
        exact (hT.decided i op q b hi hq).snoc (hother hne)

/-- **What every run says of its updates.** -/
theorem told {s₀ : State Op κ ρ} {p : Steps Op κ ρ} (h₀ : s₀.calls = [])
    (h : (optimistic attempt).Path s₀ p s) : Told attempt p s := by
  refine System.Path.invariant h ⟨?_, ?_, ?_, ?_⟩ fun p t l u hT hs => told_step hT hs
  · intro c hc
    rw [h₀] at hc
    cases hc
  · exact fun i _ e he => by cases he
  · intro i op q hi
    rw [h₀] at hi
    cases hi
  · intro i op q b hi
    rw [h₀] at hi
    cases hi

/-! ### No update is lost -/

/-- The successful updates, each once, have made what is under the keys. -/
structure Logged (attempt : Op → Attempt κ ρ) (s₀ s : State Op κ ρ) (log : List (ℕ × Op)) : Prop where
  nodup : (log.map Prod.fst).Nodup
  mem : ∀ i op, (i, op) ∈ log ↔ ∃ q, s.calls[i]? = some ⟨op, q⟩ ∧ q.result = some true
  applied : Applied attempt s₀.cells.look log s.cells.look

theorem logged_step {s₀ : State Op κ ρ} {log : List (ℕ × Op)} (hS : Sound attempt s)
    (hL : Logged attempt s₀ s log) (h : Step attempt s l s') : ∃ log', Logged attempt s₀ s' log' := by
  rcases h.cases hS with ⟨op₀, -, hlook, hcalls⟩ | ⟨i₀, op₀, q₀, q', -, hi₀, hq₀, hcalls, hstep⟩
  · refine ⟨log, hL.nodup, fun i op => (hL.mem i op).trans (exists_congr fun q => ?_), hlook ▸ hL.applied⟩
    refine and_congr_left fun hq => ?_
    rw [hcalls]
    by_cases hlt : i < s.calls.length
    · rw [List.getElem?_append_left hlt]
    · rw [List.getElem?_append_right (Nat.le_of_not_lt hlt), List.getElem?_eq_none (Nat.le_of_not_lt hlt)]
      refine iff_of_false (fun h => by cases h) fun h => ?_
      cases List.mem_singleton.mp (List.mem_of_getElem? h)
      cases hq
  · have hlt₀ : i₀ < s.calls.length := (List.getElem?_eq_some_iff.mp hi₀).1
    have hself : s'.calls[i₀]? = some ⟨op₀, q'⟩ := by rw [hcalls, List.getElem?_set_self hlt₀]
    have hrest : ∀ {i}, i ≠ i₀ → s'.calls[i]? = s.calls[i]? := fun hne => by
      rw [hcalls, List.getElem?_set_ne (Ne.symm hne)]
    -- the update was not in the log
    have hnot : ∀ op, (i₀, op) ∉ log := by
      intro op hmem
      obtain ⟨q, hq, htrue⟩ := (hL.mem i₀ op).mp hmem
      rw [hi₀] at hq
      cases hq
      rw [hq₀] at htrue
      cases htrue
    by_cases htrue : q'.result = some true
    · rcases hstep with ⟨hnone, -⟩ | ⟨b, hb, hcas⟩
      · rw [htrue] at hnone
        cases hnone
      obtain rfl := Option.some.inj (htrue.symm.trans hb)
      refine ⟨log ++ [(i₀, op₀)], ?_, fun i op => ?_, .snoc hL.applied hcas⟩
      · rw [List.map_append, List.nodup_append]
        refine ⟨hL.nodup, List.nodup_singleton _, fun a ha b hb => ?_⟩
        obtain rfl := List.mem_singleton.mp hb
        rintro rfl
        obtain ⟨⟨j, op⟩, hmem, rfl⟩ := List.mem_map.mp ha
        exact hnot op hmem
      · rw [List.mem_append, List.mem_singleton]
        by_cases hne : i = i₀
        · subst hne
          rw [hself]
          constructor
          · rintro (hmem | he)
            · exact absurd hmem (hnot op)
            · cases he
              exact ⟨q', rfl, htrue⟩
          · rintro ⟨q, hq, -⟩
            cases hq
            exact Or.inr rfl
        · rw [hrest hne, ← hL.mem i op]
          exact or_iff_left fun he => hne (Prod.mk.inj he).1
    · have hlook : s'.cells.look = s.cells.look := by
        rcases hstep with ⟨-, hlook⟩ | ⟨b, hb, hcas⟩
        · exact hlook
        · cases b with
          | true => exact absurd hb htrue
          | false => exact (Attempt.cas_false hcas).1
      refine ⟨log, hL.nodup, fun i op => ?_, hlook ▸ hL.applied⟩
      by_cases hne : i = i₀
      · subst hne
        rw [hself]
        refine iff_of_false (hnot op) ?_
        rintro ⟨q, hq, hqt⟩
        cases hq
        exact htrue hqt
      · rw [hrest hne]
        exact hL.mem i op

/-- **No update is lost, and none is applied twice.** -/
theorem logged {s₀ : State Op κ ρ} {p : Steps Op κ ρ} (h₀ : s₀.calls = [])
    (h : (optimistic attempt).Path s₀ p s) : ∃ log, Logged attempt s₀ s log := by
  have hboth : Told attempt p s ∧ ∃ log, Logged attempt s₀ s log := by
    refine System.Path.invariant (I := fun p s => Told attempt p s ∧ ∃ log, Logged attempt s₀ s log) h
      ⟨told h₀ .nil, [], List.nodup_nil, fun i op => ?_, .nil⟩ fun p t l u hI hs => ?_
    · rw [h₀]
      exact iff_of_false List.not_mem_nil fun ⟨q, hq, _⟩ => by cases hq
    · obtain ⟨hT, log, hL⟩ := hI
      exact ⟨told_step hT hs, logged_step hT.sound hL hs⟩
  exact hboth.2

end Objects

end NebulaToken.Lib.Optimistic
