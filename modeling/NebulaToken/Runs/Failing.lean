import NebulaToken.Lib.Faults
import NebulaToken.Runs.Unforked

/-! # Calls over a store that raises

Any store call of any engine may raise, a write before or after it has taken effect. A run of such calls
stands for one in which the calls that a store failed were abandoned, so that what is true of those runs is
true of these.

* `failing`: the pool;
* `Careful`: the assumptions on its runs, those on runs without failures;
* `stood`, `stood_honest`: the run it stands for. -/

namespace NebulaToken.Runs.Failing

open NebulaToken.Lib.Program NebulaToken.Lib.Pool NebulaToken.Lib.Transition NebulaToken.Lib.Faults
open NebulaToken.Lib.Reports NebulaToken.Token.Unicode NebulaToken.Token.Wire
open NebulaToken.Engine.Records NebulaToken.Runs.Calls NebulaToken.Runs.History
open NebulaToken.Runs.Provenance NebulaToken.Runs.Assumptions NebulaToken.Store.Contract

variable {σ Env φ : Type}

/-- The calls that write. -/
def writes : StoreCall → Bool
  | .findBySelector _ => false
  | _ => true

abbrev FailingState (σ φ : Type) :=
  State (Armed σ φ) Operation StoreCall (Fallible φ StoreCall.Reply) Empty
    (Except (NebulaConfigError ⊕ φ) Outcome)

abbrev FailingLabel (Env φ : Type) :=
  Label Operation StoreCall (Fallible φ StoreCall.Reply) (Env ⊕ ℕ × Fault φ)

/-- **Calls of any engines over a store whose calls may raise.** -/
abbrev failing (H : HmacSha256) (φ : Type) (svc : StoreService σ Env) :
    System (FailingState σ φ) (FailingLabel Env φ) :=
  pool (fun op => fallible φ (code H op)) (faulty φ writes svc)

/-- Call `i` has returned the outcome. -/
def Returns (s : FailingState σ φ) (i : ℕ) (x : Outcome) : Prop :=
  ∃ th, s.threads[i]? = some th ∧ th.result = some (.ok x)

/-- The operation of call `i`. -/
def Invoked (s : FailingState σ φ) (i : ℕ) (op : Operation) : Prop :=
  ∃ th, s.threads[i]? = some th ∧ th.op = op

/-- The token of the selector was returned to a caller. -/
def TokenReturned (s : FailingState σ φ) (sel : Str) : Prop :=
  ∃ i op x, Invoked s i op ∧ drawn op = some sel ∧ Returns s i x ∧ (Outcome.token? x).isSome

/-- Freshly drawn selectors and family identifiers are distinct. -/
def DrawsFresh (s : FailingState σ φ) (l : FailingLabel Env φ) : Prop :=
  ∀ op, l = .invoke op → ∀ th ∈ s.threads,
    (∀ d, drawn op = some d → drawn th.op ≠ some d) ∧
    ∀ f, drawnFamily op = some f → drawnFamily th.op ≠ some f

/-- No refresh proves a token that was not returned. -/
def TokensSecret (H : HmacSha256) (s : FailingState σ φ) (l : FailingLabel Env φ) : Prop :=
  ∀ i c sel r pepper, l = .answer i ⟨.findBySelector sel, .ok (some r)⟩ → Invoked s i (.refresh c) →
    (∀ ev, ¬ s.Did i ev) → Proves H c sel r pepper → TokenReturned s r.selector

/-- Fresh draws, and secret tokens. -/
structure Careful (H : HmacSha256) (s : FailingState σ φ) (l : FailingLabel Env φ) : Prop where
  fresh : DrawsFresh s l
  secret : TokensSecret H s l

section Facts

variable {H : HmacSha256} {svc : StoreService σ Env} {s' t' : FailingState σ φ} {s : PoolState σ}
  {G : FailingState σ φ → FailingLabel Env φ → Prop}

/-- The call that call `i` stands for. -/
theorem standsAt (h : Stood writes s' s) {i : ℕ}
    {th' : Thread Operation StoreCall (Fallible φ StoreCall.Reply) Empty
      (Except (NebulaConfigError ⊕ φ) Outcome)} (hi : s'.threads[i]? = some th') :
    ∃ th, s.threads[i]? = some th ∧ Stands writes th' th := forall₂_getElem? h.threads hi

/-- The call that stands for call `i`. -/
theorem standsAt_back (h : Stood writes s' s) {i : ℕ} {th : Call} (hi : s.threads[i]? = some th) :
    ∃ th', s'.threads[i]? = some th' ∧ Stands writes th' th := by
  obtain ⟨th', hi', hth⟩ := forall₂_getElem? (List.Forall₂.flip h.threads) hi
  exact ⟨th', hi', hth⟩

theorem invoked_iff (h : Stood writes s' s) {i : ℕ} {op : Operation} :
    Invoked s' i op ↔ OpAt s i op := by
  constructor
  · rintro ⟨th', hi', rfl⟩
    obtain ⟨th, hi, hth⟩ := standsAt h hi'
    exact ⟨th, hi, hth.op.symm⟩
  · rintro ⟨th, hi, rfl⟩
    obtain ⟨th', hi', hth⟩ := standsAt_back h hi
    exact ⟨th', hi', hth.op⟩

/-- What was answered without raising was answered in the run it stands for. -/
theorem did_of_did (h : Stood writes s' s) {i : ℕ} {q : StoreCall} {r : q.Reply}
    (hd : s'.Did i ⟨q, .ok r⟩) : s.Did i ⟨q, r⟩ := by
  obtain ⟨th', hi', hev⟩ := hd
  obtain ⟨th, hi, hth⟩ := standsAt h hi'
  have hev : answered φ (⟨q, r⟩ : StoreEvent) ∈ th'.trace := hev
  exact ⟨th, hi, hth.mem hev⟩

/-- **A call that has returned an outcome** has returned it in the run it stands for, and has done what it
did there. -/
theorem result_of_returns (h : Stood writes s' s) {i : ℕ} {x : Outcome} (hx : Returns s' i x) :
    (∃ th, s.threads[i]? = some th ∧ th.result = some x) ∧
      ∀ ev : StoreEvent, s.Did i ev → s'.Did i (answered φ ev) := by
  obtain ⟨th', hi', hres⟩ := hx
  obtain ⟨th, hi, hth⟩ := standsAt h hi'
  obtain ⟨hres, htr⟩ := hth.result hres
  refine ⟨⟨th, hi, hres⟩, ?_⟩
  rintro ev ⟨th₀, hi₀, hev⟩
  obtain rfl := Option.some.inj (hi.symm.trans hi₀)
  exact ⟨th', hi', htr ▸ List.mem_map_of_mem hev⟩

theorem returned_of_tokenReturned (h : Stood writes s' s) {sel : Str} (hs : TokenReturned s' sel) :
    Returned s sel := by
  obtain ⟨i, op, x, hop, hd, hx, htok⟩ := hs
  obtain ⟨⟨th, hi, hres⟩, -⟩ := result_of_returns h hx
  obtain ⟨th', hi', rfl⟩ := (invoked_iff h).mp hop
  obtain rfl := Option.some.inj (hi.symm.trans hi')
  exact ⟨th, mem_of_getElem? hi, hd, x, hres, htok⟩

/-- A step that meets the assumptions stands for one that meets them. -/
theorem honest_of_careful {l' : FailingLabel Env φ} {l : PoolLabel Env} (h : Stood writes s' s)
    (hG : Careful H s' l')
    (hs : Step (fun op => fallible φ (code H op)) (faulty φ writes svc) s' l' t')
    (hl : Shadow writes l' l) : Honest H s l where
  fresh := by
    rintro op rfl th hth
    obtain ⟨i, hi⟩ := List.mem_iff_getElem?.mp hth
    obtain ⟨th', hi', hst⟩ := standsAt_back h hi
    cases hl with
    | invoke =>
      rw [← hst.op]
      exact hG.fresh op rfl th' (mem_of_getElem? hi')
  secret := by
    rintro i th c sel r pepper rfl hi hop htr hp
    obtain ⟨th', hi', hst⟩ := standsAt_back h hi
    generalize hev : (⟨.findBySelector sel, some r⟩ : StoreEvent) = ev at hl
    cases hl with
    | answer i =>
      subst hev
      -- the call is answered, so that it has not raised
      have htr' : th'.trace = [] := by
        cases hs with
        | @answer _ th₀ q k rep a hi₀ hm hp₀ ha =>
          obtain rfl := Option.some.inj (hi'.symm.trans hi₀)
          obtain ⟨-, -, -, -, htr', -⟩ := hst.call hm hp₀
          rw [htr', htr]
          rfl
      refine returned_of_tokenReturned h (hG.secret i c sel r pepper rfl
        ((invoked_iff h).mpr ⟨th, hi, hop⟩) ?_ hp)
      rintro ev ⟨th₀, hi₀, hmem⟩
      obtain rfl := Option.some.inj (hi'.symm.trans hi₀)
      rw [htr'] at hmem
      cases hmem
    | effect i hw e rep =>
      cases hev
      cases hw

/-- Nothing is assumed of a call that is abandoned. -/
theorem honest_stop (u : PoolState σ) (i : ℕ) : Honest H u (Label.stop i .abandoned : PoolLabel Env) where
  fresh _ hl := nomatch hl
  secret _ _ _ _ _ _ hl := nomatch hl

/-- **The run that a run stands for.** -/
theorem stood (h : ((failing H φ svc).under G).Reachable s') :
    ∃ s, ((engines H svc).under fun _ _ => True).Reachable s ∧ Stood writes s' s :=
  simulated (fun _ _ _ _ _ _ _ _ _ => trivial) (fun _ _ => trivial) h

/-- **The honest run that a careful run stands for.** -/
theorem stood_honest (h : ((failing H φ svc).under (Careful H)).Reachable s') :
    ∃ s, ((engines H svc).under (Honest H)).Reachable s ∧ Stood writes s' s :=
  simulated (fun _ _ _ _ _ hst hG hs hl => honest_of_careful hst hG hs hl) honest_stop h

theorem stood_honest_run (h : Stood writes s' s)
    (hrun : ((failing H φ svc).under (Careful H)).Run s' t') :
    ∃ t, ((engines H svc).under (Honest H)).Run s t ∧ Stood writes t' t :=
  simulated_run (fun _ _ _ _ _ hst hG hs hl => honest_of_careful hst hG hs hl) honest_stop h hrun

end Facts

end NebulaToken.Runs.Failing
