import NebulaToken.Lib.Reports

/-! # Services that raise

The calls of a service may raise, before they take effect or after. A program over such a service stops at
the first call that raises, and ends with what was raised. Whatever raises, and however the calls of a
pool interleave, the service is left as by calls of which some were abandoned.

* `fallible`, `faulty`: the program, and the service;
* `Stands`: a call that raised stands for one that was abandoned there;
* `simulated`, `simulated_run`: the pool over the service that raises does what the plain pool does. -/

namespace NebulaToken.Lib.Faults

open NebulaToken.Lib.Program NebulaToken.Lib.Transition NebulaToken.Lib.Pool NebulaToken.Lib.Reports

/-- A reply, or what was raised. -/
abbrev Fallible {Req : Type} (φ : Type) (Rep : Req → Type) (q : Req) : Type := Except φ (Rep q)

section Programs

variable {Req : Type} {Rep : Req → Type} {ε φ α β : Type}

/-- Go on with a reply, or end with what was raised. -/
def onReply {γ : Type} (f : γ → Prog Req (Fallible φ Rep) Empty (Except (ε ⊕ φ) α)) :
    Except φ γ → Prog Req (Fallible φ Rep) Empty (Except (ε ⊕ φ) α)
  | .ok r => f r
  | .error e => .ret (.error (.inr e))

/-- **The program over a service that may raise**: it ends with its result, with its own exception, or with
the first that a call raises. -/
def fallible (φ : Type) : Prog Req Rep ε α → Prog Req (Fallible φ Rep) Empty (Except (ε ⊕ φ) α)
  | .ret a => .ret (.ok a)
  | .throw e => .ret (.error (.inl e))
  | .call q k => .call q (onReply fun r => fallible φ (k r))

theorem fallible_map (f : α → β) (p : Prog Req Rep ε α) :
    fallible φ (f <$> p) = (Except.map f) <$> fallible φ p := by
  induction p with
  | ret a => rfl
  | throw e => rfl
  | call q k ih =>
    refine congrArg (Prog.call q) (funext fun r => ?_)
    cases r with
    | ok r => exact ih r
    | error e => rfl

theorem fallible_eq_call {p : Prog Req Rep ε α} {q : Req}
    {k : Fallible φ Rep q → Prog Req (Fallible φ Rep) Empty (Except (ε ⊕ φ) α)}
    (h : fallible φ p = .call q k) : ∃ k₀, p = .call q k₀ ∧ (∀ r, k (.ok r) = fallible φ (k₀ r)) ∧
      ∀ e, k (.error e) = .ret (.error (.inr e)) := by
  cases p with
  | ret a => cases h
  | throw e => cases h
  | call q' k₀ =>
    rw [fallible] at h
    cases h
    exact ⟨k₀, rfl, fun r => rfl, fun e => rfl⟩

theorem fallible_eq_ok {p : Prog Req Rep ε α} {a : α} (h : fallible φ p = .ret (.ok a)) : p = .ret a := by
  cases p with
  | ret b =>
    cases h
    rfl
  | throw e => cases h
  | call q k =>
    rw [fallible] at h
    cases h

end Programs

/-! ### The service -/

/-- What happens to a call: it raises before it takes effect, or after. -/
inductive Fault (φ : Type)
  | before (e : φ)
  | after (e : φ)

/-- The state of the service, and what will happen to the next request of each call. -/
structure Armed (σ φ : Type) where
  store : σ
  faults : ℕ → Option (Fault φ)

def Armed.disarm {σ φ : Type} (s : Armed σ φ) (i : ℕ) : Armed σ φ :=
  { s with faults := Function.update s.faults i none }

section Service

variable {Req : Type} {Rep : Req → Type} {σ Env : Type}

/-- **The service whose calls raise** when the environment has armed them. A call that writes nothing has
no effect to be before or after. -/
def faulty (φ : Type) (writes : Req → Bool) (svc : Service Req Rep σ Env) :
    Service Req (Fallible φ Rep) (Armed σ φ) (Env ⊕ ℕ × Fault φ) where
  start := ⟨svc.start, fun _ => none⟩
  answer i q s :=
    match s.faults i with
    | none => (svc.answer i q s.store).map fun x => (.ok x.1, { s with store := x.2 })
    | some (.before e) => some (.error e, s.disarm i)
    | some (.after e) =>
      if writes q then
        (svc.answer i q s.store).map fun x => (.error e, { s.disarm i with store := x.2 })
      else some (.error e, s.disarm i)
  work i q s s' := svc.work i q s.store s'.store ∧ s'.faults = s.faults
  env a s := match a with
    | .inl a => { s with store := svc.env a s.store }
    | .inr (i, f) => { s with faults := Function.update s.faults i (some f) }

variable {φ : Type} {writes : Req → Bool} {svc : Service Req Rep σ Env} {s s' : Armed σ φ} {i : ℕ} {q : Req}

/-- **The answers of a service that raises**: the plain one, or what was raised, after the plain one has
taken effect or without any. -/
theorem faulty_answer {rep : Fallible φ Rep q}
    (h : (faulty φ writes svc).answer i q s = some (rep, s')) :
    (∃ r, rep = .ok r ∧ svc.answer i q s.store = some (r, s'.store)) ∨
    ∃ e, rep = .error e ∧ (s'.store = s.store ∨
      (writes q = true ∧ ∃ r, svc.answer i q s.store = some (r, s'.store))) := by
  unfold faulty at h
  dsimp only at h
  split at h
  · obtain ⟨x, hx, he⟩ := Option.map_eq_some_iff.mp h
    obtain ⟨rfl, rfl⟩ := Prod.mk.inj he
    exact Or.inl ⟨x.1, rfl, hx⟩
  · next e _ =>
    obtain ⟨rfl, rfl⟩ := Prod.mk.inj (Option.some.inj h)
    exact Or.inr ⟨e, rfl, Or.inl rfl⟩
  · next e _ =>
    split_ifs at h with hw
    · obtain ⟨x, hx, he⟩ := Option.map_eq_some_iff.mp h
      obtain ⟨rfl, rfl⟩ := Prod.mk.inj he
      exact Or.inr ⟨e, rfl, Or.inr ⟨hw, x.1, hx⟩⟩
    · obtain ⟨rfl, rfl⟩ := Prod.mk.inj (Option.some.inj h)
      exact Or.inr ⟨e, rfl, Or.inl rfl⟩

end Service

/-! ### The simulation -/

section Simulation

variable {Op Req : Type} {Rep : Req → Type} {ε φ α σ Env : Type}

/-- A request with a reply that was not raised. -/
def answered (φ : Type) (ev : Event Req Rep) : Event Req (Fallible φ Rep) := ⟨ev.req, .ok ev.rep⟩

theorem answered_injective : Function.Injective (answered φ : Event Req Rep → _) := by
  rintro ⟨q, r⟩ ⟨q', r'⟩ h
  cases h
  rfl

/-- **The plain call that a call over the service that raises stands for**: the same, or one that was
abandoned where the other raised. -/
inductive Stands (writes : Req → Bool)
    (th' : Thread Op Req (Fallible φ Rep) Empty (Except (ε ⊕ φ) α)) (th : Thread Op Req Rep ε α) : Prop
  | alive (hop : th'.op = th.op) (htr : th'.trace = th.trace.map (answered φ))
      (hp : th'.prog = fallible φ th.prog) (hm : th'.mode = .running ↔ th.mode = .running)
      (hret : ∀ a, th'.mode = .returned → th.prog = .ret a → th.mode = .returned)
  | raised {q : Req} {e : φ} {tr : List (Event Req Rep)} (hop : th'.op = th.op)
      (htr : th'.trace = ⟨q, .error e⟩ :: tr.map (answered φ))
      (hp : th'.prog = .ret (.error (.inr e))) (hm : th.mode = .abandoned)
      (hth : th.trace = tr ∨ (writes q = true ∧ ∃ r, th.trace = ⟨q, r⟩ :: tr))

/-- The plain pool that a pool stands for. -/
structure Stood (writes : Req → Bool) (s' : State (Armed σ φ) Op Req (Fallible φ Rep) Empty (Except (ε ⊕ φ) α))
    (s : State σ Op Req Rep ε α) : Prop where
  shared : s'.shared.store = s.shared
  threads : List.Forall₂ (Stands writes) s'.threads s.threads

/-- The plain step that a step stands for; a call that raised is abandoned besides. -/
inductive Shadow (writes : Req → Bool) :
    Label Op Req (Fallible φ Rep) (Env ⊕ ℕ × Fault φ) → Label Op Req Rep Env → Prop
  | invoke (op : Op) : Shadow writes (.invoke op) (.invoke op)
  | answer (i : ℕ) (ev : Event Req Rep) : Shadow writes (.answer i (answered φ ev)) (.answer i ev)
  | effect (i : ℕ) {q : Req} (hw : writes q = true) (e : φ) (r : Rep q) :
    Shadow writes (.answer i ⟨q, .error e⟩) (.answer i ⟨q, r⟩)
  | work (i : ℕ) : Shadow writes (.work i) (.work i)
  | stop (i : ℕ) (m m' : Mode) : Shadow writes (.stop i m) (.stop i m')
  | env (a : Env) : Shadow writes (.env (.inl a)) (.env a)

variable {writes : Req → Bool}

theorem Stands.op {th' : Thread Op Req (Fallible φ Rep) Empty (Except (ε ⊕ φ) α)}
    {th : Thread Op Req Rep ε α} (h : Stands writes th' th) : th'.op = th.op := by
  cases h with
  | alive hop | raised hop => exact hop

/-- A call that waits has not raised. -/
theorem Stands.call {th' : Thread Op Req (Fallible φ Rep) Empty (Except (ε ⊕ φ) α)}
    {th : Thread Op Req Rep ε α} (h : Stands writes th' th) {q : Req}
    {k : Fallible φ Rep q → Prog Req (Fallible φ Rep) Empty (Except (ε ⊕ φ) α)}
    (hm : th'.mode = .running) (hp : th'.prog = .call q k) :
    ∃ k₀, th.prog = .call q k₀ ∧ th.mode = .running ∧ th'.op = th.op ∧
      th'.trace = th.trace.map (answered φ) ∧ (∀ r, k (.ok r) = fallible φ (k₀ r)) ∧
      ∀ e, k (.error e) = .ret (.error (.inr e)) := by
  cases h with
  | alive hop htr hp' hm' hret =>
    obtain ⟨k₀, h0, hok, herr⟩ := fallible_eq_call (hp'.symm.trans hp)
    exact ⟨k₀, h0, hm'.mp hm, hop, htr, hok, herr⟩
  | raised hop htr hp' =>
    rw [hp] at hp'
    cases hp'

/-- **A call that has returned a result** has returned it in the plain pool. -/
theorem Stands.result {th' : Thread Op Req (Fallible φ Rep) Empty (Except (ε ⊕ φ) α)}
    {th : Thread Op Req Rep ε α} (h : Stands writes th' th) {a : α} (hres : th'.result = some (.ok a)) :
    th.result = some a ∧ th'.trace = th.trace.map (answered φ) := by
  obtain ⟨hm, hp⟩ := of_result hres
  cases h with
  | alive hop htr hp' hm' hret =>
    have hp₀ := fallible_eq_ok (hp'.symm.trans hp)
    exact ⟨result_of_returned (hret a hm hp₀) hp₀, htr⟩
  | raised hop htr hp' =>
    rw [hp] at hp'
    cases hp'

/-- What was answered without raising was answered in the plain pool. -/
theorem Stands.mem {th' : Thread Op Req (Fallible φ Rep) Empty (Except (ε ⊕ φ) α)}
    {th : Thread Op Req Rep ε α} (h : Stands writes th' th) {ev : Event Req Rep}
    (hev : answered φ ev ∈ th'.trace) : ev ∈ th.trace := by
  have hmap : ∀ tr : List (Event Req Rep), answered φ ev ∈ tr.map (answered φ) → ev ∈ tr := by
    intro tr hmem
    obtain ⟨ev', hmem', he⟩ := List.mem_map.mp hmem
    rwa [← answered_injective he]
  cases h with
  | alive hop htr => exact hmap _ (htr ▸ hev)
  | @raised q e tr hop htr hp hm hth =>
    rw [htr] at hev
    have htail : ev ∈ tr := by
      rcases List.mem_cons.mp hev with he | hev
      · obtain ⟨hreq, hrep⟩ := Event.mk.inj he
        obtain ⟨q', r'⟩ := ev
        subst hreq
        cases eq_of_heq hrep
      · exact hmap tr hev
    rcases hth with hth | ⟨-, r, hth⟩
    · rw [hth]
      exact htail
    · rw [hth]
      exact List.mem_cons_of_mem _ htail

/-- **A call of which a request has raised returns no result.** -/
theorem Stands.not_result {th' : Thread Op Req (Fallible φ Rep) Empty (Except (ε ⊕ φ) α)}
    {th : Thread Op Req Rep ε α} (h : Stands writes th' th) {q : Req} {e : φ}
    (hev : ⟨q, .error e⟩ ∈ th'.trace) : th'.prog = .ret (.error (.inr e)) := by
  have hno : ∀ tr : List (Event Req Rep),
      (⟨q, .error e⟩ : Event Req (Fallible φ Rep)) ∉ tr.map (answered φ) := by
    intro tr hmem
    obtain ⟨ev', -, he⟩ := List.mem_map.mp hmem
    obtain ⟨hreq, hrep⟩ := Event.mk.inj he
    obtain ⟨q', r'⟩ := ev'
    subst hreq
    cases eq_of_heq hrep
  cases h with
  | alive hop htr =>
    rw [htr] at hev
    exact absurd hev (hno _)
  | @raised q' e' tr hop htr hp =>
    rw [htr] at hev
    rcases List.mem_cons.mp hev with he | hev
    · obtain ⟨hreq, hrep⟩ := Event.mk.inj he
      subst hreq
      rw [hp, Except.error.inj (eq_of_heq hrep)]
    · exact absurd hev (hno tr)

variable {code : Op → Prog Req Rep ε α} {svc : Service Req Rep σ Env}
  {s' t' : State (Armed σ φ) Op Req (Fallible φ Rep) Empty (Except (ε ⊕ φ) α)} {s : State σ Op Req Rep ε α}
  {l' : Label Op Req (Fallible φ Rep) (Env ⊕ ℕ × Fault φ)}
  {G : State σ Op Req Rep ε α → Label Op Req Rep Env → Prop}
  {G' : State (Armed σ φ) Op Req (Fallible φ Rep) Empty (Except (ε ⊕ φ) α) →
    Label Op Req (Fallible φ Rep) (Env ⊕ ℕ × Fault φ) → Prop}

/-- **A step stands for at most two plain ones**, if these meet the guard. -/
theorem Stood.step (h : Stood writes s' s)
    (hG : ∀ l, Shadow writes l' l → G s l) (hstop : ∀ u i, G u (.stop i .abandoned))
    (hs : Step (fun op => fallible φ (code op)) (faulty φ writes svc) s' l' t') :
    ∃ t, ((pool code svc).under G).Run s t ∧ Stood writes t' t := by
  cases hs with
  | invoke op =>
    refine ⟨_, .step .refl ⟨hG _ (.invoke op), .invoke s op⟩, h.shared, ?_⟩
    refine List.rel_append h.threads (.cons (.alive rfl rfl rfl Iff.rfl ?_) .nil)
    intro a hm
    cases hm
  | @answer i th' q k rep a hi hm hp ha =>
    obtain ⟨th, hi₀, hth⟩ := forall₂_getElem? h.threads hi
    obtain ⟨k₀, hp₀, hm₀, hop, htr, hok, herr⟩ := hth.call hm hp
    rcases faulty_answer ha with ⟨r, rfl, hans⟩ | ⟨e, rfl, hstore | ⟨hw, r, hans⟩⟩
    · rw [h.shared] at hans
      refine ⟨_, .step .refl ⟨hG _ (.answer i ⟨q, r⟩), .answer hi₀ hm₀ hp₀ hans⟩, rfl, ?_⟩
      refine forall₂_set h.threads i (.alive hop ?_ (hok r) (iff_of_true hm hm₀) ?_)
      · exact congrArg (List.cons _) htr
      · intro b hm'
        cases hm.symm.trans hm'
    · -- it raised without effect
      refine ⟨_, .step .refl ⟨hstop s i, .stop hi₀ hm₀ ?_ ?_⟩, hstore.trans h.shared, ?_⟩
      · exact fun h => nomatch h
      · exact fun h => nomatch h
      · exact forall₂_set h.threads i (.raised hop (congrArg (List.cons _) htr) (herr e) rfl (Or.inl rfl))
    · -- it took effect, and then it raised
      rw [h.shared] at hans
      have hlt : i < s.threads.length := (List.getElem?_eq_some_iff.mp hi₀).1
      refine ⟨_, .step (.step .refl ⟨hG _ (.effect i hw e r), .answer hi₀ hm₀ hp₀ hans⟩)
        ⟨hstop _ i, .stop (List.getElem?_set_self hlt) hm₀ ?_ ?_⟩, rfl, ?_⟩
      · exact fun h => nomatch h
      · exact fun h => nomatch h
      · rw [List.set_set]
        exact forall₂_set h.threads i (.raised hop (congrArg (List.cons _) htr) (herr e) rfl
          (Or.inr ⟨hw, r, rfl⟩))
  | @work i th' q k a hi hm hp hw =>
    obtain ⟨th, hi₀, hth⟩ := forall₂_getElem? h.threads hi
    obtain ⟨k₀, hp₀, hm₀, -⟩ := hth.call hm hp
    exact ⟨_, .step .refl ⟨hG _ (.work i), .work hi₀ hm₀ hp₀ (h.shared ▸ hw.1)⟩, rfl, h.threads⟩
  | @stop i th' m hi hm hne hret =>
    obtain ⟨th, hi₀, hth⟩ := forall₂_getElem? h.threads hi
    cases hth with
    | alive hop htr hp hm' hret' =>
      -- an exception of its own, handed back as a value
      obtain ⟨m', hne', hret₀, hsame⟩ : ∃ m' : Mode, m' ≠ .running ∧
          (m' = .returned → ∃ a, th.prog = .ret a) ∧
          ∀ a, m = .returned → th.prog = .ret a → m' = .returned := by
        by_cases hp₀ : ∃ a, th.prog = .ret a
        · exact ⟨m, hne, fun _ => hp₀, fun a hr _ => hr⟩
        · refine ⟨.raised, fun h => (nomatch h), fun h => (nomatch h), fun a _ ha => absurd ⟨a, ha⟩ hp₀⟩
      refine ⟨_, .step .refl ⟨hG _ (.stop i m m'), .stop hi₀ (hm'.mp hm) hne' hret₀⟩, h.shared, ?_⟩
      exact forall₂_set h.threads i (.alive hop htr hp (iff_of_false hne hne') hsame)
    | raised hop htr hp hm' hth =>
      refine ⟨s, .refl, h.shared, ?_⟩
      have hself : s.threads.set i th = s.threads := by
        obtain ⟨hlt, rfl⟩ := List.getElem?_eq_some_iff.mp hi₀
        exact List.set_getElem_self hlt
      rw [← hself]
      exact forall₂_set h.threads i (.raised hop htr hp hm' hth)
  | env a =>
    cases a with
    | inl a =>
      exact ⟨_, .step .refl ⟨hG _ (.env a), .env s a⟩, congrArg (svc.env a) h.shared, h.threads⟩
    | inr a => exact ⟨s, .refl, h.shared, h.threads⟩

/-- **A pool over a service that raises does what a plain pool does.** -/
theorem simulated
    (hG : ∀ s' s l' t' l, Stood writes s' s → G' s' l' →
      Step (fun op => fallible φ (code op)) (faulty φ writes svc) s' l' t' → Shadow writes l' l → G s l)
    (hstop : ∀ u i, G u (.stop i .abandoned))
    (h : ((pool (fun op => fallible φ (code op)) (faulty φ writes svc)).under G').Reachable s') :
    ∃ s, ((pool code svc).under G).Reachable s ∧ Stood writes s' s := by
  induction h with
  | init hs =>
    have hs : _ = _ := hs
    subst hs
    exact ⟨⟨svc.start, []⟩, .init rfl, rfl, .nil⟩
  | step _ hs ih =>
    obtain ⟨s, hr, hst⟩ := ih
    obtain ⟨t, hrun, ht⟩ := hst.step (fun l hl => hG _ _ _ _ l hst hs.1 hs.2 hl) hstop hs.2
    exact ⟨t, hr.run hrun, ht⟩

theorem simulated_run
    (hG : ∀ s' s l' t' l, Stood writes s' s → G' s' l' →
      Step (fun op => fallible φ (code op)) (faulty φ writes svc) s' l' t' → Shadow writes l' l → G s l)
    (hstop : ∀ u i, G u (.stop i .abandoned)) (h : Stood writes s' s)
    (hrun : ((pool (fun op => fallible φ (code op)) (faulty φ writes svc)).under G').Run s' t') :
    ∃ t, ((pool code svc).under G).Run s t ∧ Stood writes t' t := by
  induction hrun with
  | refl => exact ⟨s, .refl, h⟩
  | step _ hs ih =>
    obtain ⟨u, hsu, hu⟩ := ih
    obtain ⟨t, hut, ht⟩ := hu.step (fun l hl => hG _ _ _ _ l hu hs.1 hs.2 hl) hstop hs.2
    exact ⟨t, hsu.trans hut, ht⟩

end Simulation

end NebulaToken.Lib.Faults
