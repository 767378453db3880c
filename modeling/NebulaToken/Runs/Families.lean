import NebulaToken.Runs.Assumptions

/-! # Families

A login starts a family and fixes its user and its deadline. Every record stored since, by whichever
engine, descends from the first record of a family and has its user and its deadline.

* `founded`: the login behind every record;
* `founded_unique`: with fresh draws, a family has one login;
* `delivered`: what stands behind a token that was returned. -/

namespace NebulaToken.Runs.Families

open NebulaToken.Lib.Program NebulaToken.Lib.Pool NebulaToken.Lib.Transition
open NebulaToken.Token.Unicode NebulaToken.Token.Wire NebulaToken.Engine.Records NebulaToken.Engine.Config
open NebulaToken.Engine.Operations NebulaToken.Runs.Calls NebulaToken.Runs.History
open NebulaToken.Runs.Provenance NebulaToken.Runs.Assumptions NebulaToken.Store.Contract

variable {σ Env : Type}

/-- `r` has the user and the deadline of the family that the login starts. -/
structure OfFamily (c : IssueCall) (r : TokenRecord) : Prop where
  family : r.familyId = c.draw.familyId
  user : r.userId = c.userId
  deadline : r.familyExpiresAt = c.now + c.engine.absoluteTtl

/-- The login `c` of call `i` has stored the first record `n` of its family. -/
structure Founded (H : HmacSha256) (s : PoolState σ) (i : ℕ) (c : IssueCall) (n : TokenRecord) :
    Prop where
  opAt : OpAt s i (.issue c)
  mints : IssueMints H c n
  inserted : Inserted s i n

/-- The engine and the clock of a call that may mint. -/
def minter : Operation → Option (NebulaEngine × ℤ)
  | .issue c => some (c.engine, c.now)
  | .refresh c => some (c.engine, c.now)
  | _ => none

/-- Call `i` has reported the login `x`. -/
def Issued (s : PoolState σ) (i : ℕ) (x : IssueResult) : Prop :=
  ∃ th, s.threads[i]? = some th ∧ th.result = some (.issued x)

/-- Call `i` has returned the token `tok`. -/
def Delivers (s : PoolState σ) (i : ℕ) (tok : Str) : Prop :=
  ∃ th x, s.threads[i]? = some th ∧ th.result = some x ∧ Outcome.token? x = some tok

section Facts

variable {H : HmacSha256} {svc : StoreService σ Env} {s s' : PoolState σ} {l : PoolLabel Env}
  {G : PoolState σ → PoolLabel Env → Prop}

theorem OfFamily.of_mints {c : IssueCall} {n : TokenRecord} (h : IssueMints H c n) : OfFamily c n := by
  obtain ⟨hash, -, rfl⟩ := h
  exact ⟨rfl, rfl, rfl⟩

theorem OfFamily.evolves {c : IssueCall} {a b : TokenRecord} (h : OfFamily c a) (he : Evolves a b) :
    OfFamily c b :=
  ⟨he.familyId.trans h.family, he.userId.trans h.user, he.familyExpiresAt.trans h.deadline⟩

/-- A successor stays in the family. -/
theorem OfFamily.successor {c : IssueCall} {c' : RefreshCall} {r n : TokenRecord} (h : OfFamily c r)
    (hn : Mints H c' r n) : OfFamily c n := by
  obtain ⟨hash, -, rfl⟩ := hn
  exact ⟨h.family, h.user, h.deadline⟩

theorem Founded.mono {i : ℕ} {c : IssueCall} {n : TokenRecord} (h : Founded H s i c n)
    (hs : Step (code H) svc s l s') : Founded H s' i c n :=
  ⟨h.opAt.mono hs, h.mints, did_mono h.inserted hs⟩

/-- The row a call with a ticket presents was stored by some call. -/
theorem ticket_stored {C : StoreContract svc} (hK : Knowledge C s) {i : ℕ} {c : RefreshCall}
    {r : TokenRecord} {fromStatus : TokenStatus} {t : ℤ} {tr : List StoreEvent}
    (h : Ticket H c r fromStatus t tr) (hd : ∀ ev ∈ tr, s.Did i ev) :
    ∃ j n, Inserted s j n ∧ n.selector = r.selector ∧ Evolves n r := by
  obtain ⟨sel, pepper, -, hmem⟩ := h.found
  have hf := hd _ hmem
  obtain ⟨-, ⟨j, n, hj, -, he⟩, -⟩ := hK.found i sel r hf
  exact ⟨j, n, hj, he.selector.symm, he⟩

/-- **Behind every record is the login that started its family.** -/
theorem founded (C : StoreContract svc) (h : ((engines H svc).under NoReinsert).Reachable s) :
    ∀ i n, Inserted s i n → ∃ j c n₀, Founded H s j c n₀ ∧ OfFamily c n := by
  refine h.invariant (I := fun s => ∀ i n, Inserted s i n →
    ∃ j c n₀, Founded H s j c n₀ ∧ OfFamily c n) ?_ ?_
  · rintro s hs i n ⟨th, hi, -⟩
    rw [show s = ⟨svc.start, []⟩ from hs] at hi
    cases hi
  · intro s l s' hr ih hs i n hins
    rcases hs.2.did_iff.mp hins with hold | rfl
    · obtain ⟨j, c, n₀, hf, ho⟩ := ih i n hold
      exact ⟨j, c, n₀, hf.mono hs.2, ho⟩
    · obtain ⟨th, k, hi, hc, -⟩ := callAt_answer hr hs.2
      generalize hop : th.op = op at hc
      generalize htr : th.trace = tr at hc
      cases insert_request hc with
      | issue hn =>
        exact ⟨i, _, n, ⟨OpAt.mono ⟨th, hi, hop⟩ hs.2, hn, hins⟩, .of_mints hn⟩
      | refresh ht hn =>
        -- the successor is of the family of the row the call has read
        obtain ⟨j, n', hj, -, he⟩ := ticket_stored (knowledge C hr) ht
          fun ev hev => did_of_mem hi (htr ▸ hev)
        obtain ⟨j₀, c₀, n₀, hf, ho⟩ := ih j n' hj
        exact ⟨j₀, c₀, n₀, hf.mono hs.2, (ho.evolves he).successor hn⟩

/-- **With fresh draws, a family has one login.** -/
theorem founded_unique (hr : ((engines H svc).under FreshDraws).Reachable s) {i j : ℕ}
    {c c' : IssueCall} (h : OpAt s i (.issue c)) (h' : OpAt s j (.issue c'))
    (hf : c.draw.familyId = c'.draw.familyId) : i = j ∧ c = c' := by
  obtain rfl := (drawn_unique hr i j _ _ h h').2 c.draw.familyId rfl (congrArg some hf.symm)
  exact ⟨rfl, Operation.issue.inj (h.unique h')⟩

/-- A record is minted by the engine and the clock of the call that stores it. -/
theorem minted_by (hr : ((engines H svc).under G).Reachable s) {i : ℕ} {n : TokenRecord}
    (h : Inserted s i n) : ∃ op e now, OpAt s i op ∧ minter op = some (e, now) ∧ n.createdAt = now ∧
      n.idleExpiresAt = min (n.createdAt + e.idleTtl) n.familyExpiresAt := by
  rcases inserted_cases hr h with ⟨c, hop, hash, -, rfl⟩ | ⟨c, r, f, t, tr, hop, -, ⟨hash, -, rfl⟩, -⟩
  · exact ⟨_, c.engine, c.now, hop, rfl, rfl, rfl⟩
  · exact ⟨_, c.engine, c.now, hop, rfl, rfl, rfl⟩

/-- **A record is minted before its deadlines.** -/
theorem minted_usable (hr : ((engines H svc).under G).Reachable s) {i : ℕ} {n : TokenRecord}
    (h : Inserted s i n) : n.createdAt < n.idleExpiresAt ∧ n.idleExpiresAt ≤ n.familyExpiresAt := by
  rcases inserted_cases hr h with ⟨c, -, hash, -, rfl⟩ | ⟨c, r, f, t, tr, -, ht, ⟨hash, -, rfl⟩, -⟩
  · refine ⟨lt_min ?_ ?_, min_le_right _ _⟩
    · exact lt_add_of_pos_right _ c.engine.idleTtl_gt
    · exact lt_add_of_pos_right _ c.engine.absoluteTtl_gt
  · refine ⟨lt_min ?_ ht.before_deadline, min_le_right _ _⟩
    exact lt_add_of_pos_right _ c.engine.idleTtl_gt

/-- **A refresh succeeds before the deadline of its family**, which the login has fixed and which the
success reports, as it reports the login's user. -/
theorem success_before_deadline (C : StoreContract svc)
    (hr : ((engines H svc).under NoReinsert).Reachable s) {i : ℕ} {x : RefreshSuccess}
    (hx : Succeeded s i x) : ∃ c j c₀, OpAt s i (.refresh c) ∧ OpAt s j (.issue c₀) ∧
      x.familyId = c₀.draw.familyId ∧ x.userId = c₀.userId ∧
      x.expiresAt = c₀.now + c₀.engine.absoluteTtl ∧ c.now < x.expiresAt := by
  obtain ⟨c, r, n, f, t, tr, hw, rfl⟩ := won_of_success hr hx
  obtain ⟨j, c₀, n₀, hf, ho⟩ := founded C hr i n hw.inserted
  have hlt := hw.ticket.before_deadline
  obtain ⟨hash, -, rfl⟩ := hw.mints
  exact ⟨c, j, c₀, hw.opAt, hf.opAt, ho.family, ho.user, ho.deadline, hlt⟩

/-! ### What was returned -/

/-- A login reported is one that has founded its family. -/
theorem founded_of_issued (hr : ((engines H svc).under G).Reachable s) {i : ℕ} {x : IssueResult}
    (h : Issued s i x) : ∃ c n, Founded H s i c n ∧ x = issued c n := by
  obtain ⟨th, hi, hres⟩ := h
  obtain ⟨-, hp⟩ := of_result hres
  have hat := callAt hr th (mem_of_getElem? hi)
  obtain ⟨op, trace, prog, mode⟩ := th
  dsimp only at hp hat
  subst hp
  cases op with
  | issue c =>
    obtain ⟨p, he, h⟩ := hat
    obtain ⟨a, rfl, ha⟩ := Prog.map_eq_ret he.symm
    cases ha
    cases h with
    | @done n hn => exact ⟨c, n, ⟨⟨_, hi, rfl⟩, hn, _, hi, List.mem_singleton_self _⟩, rfl⟩
  | refresh c =>
    obtain ⟨p, he, -⟩ := hat
    obtain ⟨a, -, ha⟩ := Prog.map_eq_ret he.symm
    cases ha
  | revokeToken e token =>
    obtain ⟨p, he, -⟩ := hat
    obtain ⟨a, -, ha⟩ := Prog.map_eq_ret he.symm
    cases ha
  | revokeFamily familyId => cases hat
  | revokeAllForUser userId => cases hat

/-- **Behind a token that was returned is a record of its selector**, stored by the same call: the first
of a family, or one that has taken the place of another. -/
theorem delivered (hr : ((engines H svc).under G).Reachable s) {i : ℕ} {tok : Str}
    (h : Delivers s i tok) : ∃ n, Inserted s i n ∧
      (∃ parsed, parseToken tok = some parsed ∧ parsed.selector = n.selector) ∧
      ((∃ c, Founded H s i c n) ∨ ∃ c r f t tr, Won H s i c r n f t tr) := by
  obtain ⟨th, x, hi, hres, htok⟩ := h
  cases x with
  | issued x =>
    obtain ⟨c, n, hf, rfl⟩ := founded_of_issued hr ⟨th, hi, hres⟩
    obtain rfl := Option.some.inj htok
    have hsel : c.draw.toDraw.selectorText = n.selector := by
      obtain ⟨hash, -, rfl⟩ := hf.mints
      rfl
    exact ⟨n, hf.inserted, ⟨_, parseToken_mintToken c.engine c.draw.toDraw, hsel⟩, Or.inl ⟨c, hf⟩⟩
  | refreshed x =>
    cases x with
    | ok x =>
      obtain ⟨c, r, n, f, t, tr, hw, rfl⟩ := won_of_success hr ⟨th, hi, hres⟩
      obtain rfl := Option.some.inj htok
      exact ⟨n, hw.inserted, ⟨_, parseToken_mintToken c.engine c.draw, hw.mints.selector.symm⟩,
        Or.inr ⟨c, r, f, t, tr, hw⟩⟩
    | refused f => cases htok
  | revoked x => cases htok
  | count n => cases htok

end Facts

end NebulaToken.Runs.Families
