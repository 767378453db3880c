import NebulaToken.Runs.Provenance

/-! # Assumptions on runs

Guards on the steps of the pool: the bytes drawn by different calls differ; a refresh proves no verifier
whose token was not returned to a caller. Under the first no selector is stored twice.

* `noReinsert_of_freshDraws`: the reduction;
* `inserted_unique`: with fresh draws, a selector is stored by one call. -/

namespace NebulaToken.Runs.Assumptions

open NebulaToken.Lib.Pool NebulaToken.Lib.Transition NebulaToken.Token.Unicode
open NebulaToken.Token.Wire NebulaToken.Engine.Records NebulaToken.Engine.Operations
open NebulaToken.Runs.Calls NebulaToken.Runs.History NebulaToken.Runs.Provenance
open NebulaToken.Store.Contract

variable {σ Env : Type}

/-- The selector an operation may store. -/
def drawn : Operation → Option Str
  | .issue c => some c.draw.selectorText
  | .refresh c => some c.draw.selectorText
  | _ => none

/-- The family an operation may start. -/
def drawnFamily : Operation → Option Str
  | .issue c => some c.draw.familyId
  | _ => none

/-- The token a call gives its caller. -/
def Outcome.token? : Outcome → Option Str
  | .issued x => some x.token
  | .refreshed (.ok x) => some x.token
  | _ => none

/-- The token of the selector was returned to a caller. -/
def Returned (s : PoolState σ) (sel : Str) : Prop :=
  ∃ th ∈ s.threads, drawn th.op = some sel ∧ ∃ x, th.result = some x ∧ (Outcome.token? x).isSome

/-- **Freshly drawn selectors and family identifiers are distinct.** -/
def FreshDraws (s : PoolState σ) (l : PoolLabel Env) : Prop :=
  ∀ op, l = .invoke op → ∀ th ∈ s.threads,
    (∀ d, drawn op = some d → drawn th.op ≠ some d) ∧
    ∀ f, drawnFamily op = some f → drawnFamily th.op ≠ some f

/-- **No refresh proves a token that was not returned.** -/
def SecretTokens (H : HmacSha256) (s : PoolState σ) (l : PoolLabel Env) : Prop :=
  ∀ i th c sel r pepper, l = .answer i ⟨.findBySelector sel, some r⟩ → s.threads[i]? = some th →
    th.op = .refresh c → th.trace = [] → Proves H c sel r pepper → Returned s r.selector

/-- Fresh draws, and secret tokens. -/
structure Honest (H : HmacSha256) (s : PoolState σ) (l : PoolLabel Env) : Prop where
  fresh : FreshDraws s l
  secret : SecretTokens H s l

section Reductions

variable {H : HmacSha256} {svc : StoreService σ Env} {s s' : PoolState σ} {l : PoolLabel Env}
  {G : PoolState σ → PoolLabel Env → Prop}

/-- What a call stores is what it has drawn. -/
theorem mayInsert_drawn {n : TokenRecord} {op : Operation} {tr : List StoreEvent}
    (h : MayInsert H n op tr) : drawn op = some n.selector := by
  cases h with
  | issue hn =>
    obtain ⟨hash, -, rfl⟩ := hn
    rfl
  | refresh ht hn => rw [hn.selector]; rfl

theorem inserted_drawn (hr : ((engines H svc).under G).Reachable s) {i : ℕ} {n : TokenRecord}
    (h : Inserted s i n) : ∃ op, OpAt s i op ∧ drawn op = some n.selector := by
  obtain ⟨th, tr, k, hi, -, hc⟩ := callAt_did hr h
  exact ⟨th.op, ⟨th, hi, rfl⟩, mayInsert_drawn (insert_request hc)⟩

/-- With fresh draws, a selector is drawn by one call, and a family is started by one. -/
theorem drawn_unique (hr : ((engines H svc).under FreshDraws).Reachable s) :
    ∀ i j op op', OpAt s i op → OpAt s j op' →
      (∀ d, drawn op = some d → drawn op' = some d → i = j) ∧
      ∀ f, drawnFamily op = some f → drawnFamily op' = some f → i = j := by
  refine hr.invariant (I := fun s => ∀ i j op op', OpAt s i op → OpAt s j op' →
      (∀ d, drawn op = some d → drawn op' = some d → i = j) ∧
      ∀ f, drawnFamily op = some f → drawnFamily op' = some f → i = j) ?_ ?_
  · rintro s hs i j op op' ⟨th, hi, -⟩
    rw [show s = ⟨svc.start, []⟩ from hs] at hi
    cases hi
  · rintro s l s' - ih ⟨hG, hs⟩ i j op op' ⟨th, hi, rfl⟩ ⟨th', hj, rfl⟩
    -- a call of the later state was there before, or has just been invoked
    have hcase : ∀ m (tm : Call), s'.threads[m]? = some tm → OpAt s m tm.op ∨
        (l = .invoke tm.op ∧ m = s.threads.length) := by
      intro m tm hm
      rcases hs.thread_cases hm with ⟨op, hl, hlen, rfl⟩ | ⟨t₀, ht₀, hop, -, -⟩ |
        ⟨t₀, q, k, r, a, ht₀, -, -, -, -, -, rfl⟩
      · exact Or.inr ⟨hl, hlen⟩
      · exact Or.inl ⟨t₀, ht₀, hop.symm⟩
      · exact Or.inl ⟨t₀, ht₀, rfl⟩
    have hnew : ∀ m op₁ op₂, OpAt s m op₁ → l = .invoke op₂ →
        (∀ d, drawn op₂ = some d → drawn op₁ ≠ some d) ∧
        ∀ f, drawnFamily op₂ = some f → drawnFamily op₁ ≠ some f := by
      rintro m op₁ op₂ ⟨t₀, ht₀, rfl⟩ hl
      exact hG op₂ hl t₀ (mem_of_getElem? ht₀)
    rcases hcase i th hi with h | ⟨hl, rfl⟩ <;> rcases hcase j th' hj with h' | ⟨hl', rfl⟩
    · exact ih i j _ _ h h'
    · have hne := hnew i _ _ h hl'
      exact ⟨fun d h1 h2 => absurd h1 (hne.1 d h2), fun f h1 h2 => absurd h1 (hne.2 f h2)⟩
    · have hne := hnew j _ _ h' hl
      exact ⟨fun d h1 h2 => absurd h2 (hne.1 d h1), fun f h1 h2 => absurd h2 (hne.2 f h1)⟩
    · exact ⟨fun _ _ _ => rfl, fun _ _ _ => rfl⟩

/-- **With fresh draws, a selector is stored by one call, once.** -/
theorem inserted_unique (hr : ((engines H svc).under FreshDraws).Reachable s) {i j : ℕ}
    {n n' : TokenRecord} (h : Inserted s i n) (h' : Inserted s j n')
    (hsel : n.selector = n'.selector) : i = j ∧ n = n' := by
  obtain ⟨op, hop, hd⟩ := inserted_drawn hr h
  obtain ⟨op', hop', hd'⟩ := inserted_drawn hr h'
  obtain rfl := (drawn_unique hr i j op op' hop hop').1 n.selector hd (hsel ▸ hd')
  exact ⟨rfl, inserted_once hr h h'⟩

theorem noReinsert_guard (hr : ((engines H svc).under FreshDraws).Reachable s)
    (hs : ((engines H svc).under FreshDraws).step s l s') : NoReinsert s l := by
  rintro i n rfl ⟨j, n', hj, hn'⟩
  obtain ⟨th, k, hi, hc, -⟩ := callAt_answer hr hs.2
  have hm := insert_request hc
  obtain ⟨op', hop', hd'⟩ := inserted_drawn hr hj
  obtain rfl := (drawn_unique hr i j _ _ ⟨th, hi, rfl⟩ hop').1 n.selector (mayInsert_drawn hm)
    (hn' ▸ hd')
  obtain ⟨th', hi', hev⟩ := hj
  obtain rfl := Option.some.inj (hi.symm.trans hi')
  exact no_insert hm hev

/-- **With fresh draws, no selector is stored twice**, whatever is collected. -/
theorem noReinsert_of_freshDraws (h : ((engines H svc).under FreshDraws).Reachable s) :
    ((engines H svc).under NoReinsert).Reachable s :=
  h.under_mono fun _ _ _ hr hG hs => noReinsert_guard hr ⟨hG, hs⟩

end Reductions

end NebulaToken.Runs.Assumptions
