import NebulaToken.Safety.FailClosed
import NebulaToken.Safety.SingleUse

/-! # What failures do not break

The guarantees of runs without failures, over any store that keeps the contract, atomic or not, and
whichever of its calls raise.

* `used_once`: a token is exchanged once, before its deadline;
* `dead_for_good`: a family whose rows are all revoked never comes back. -/

namespace NebulaToken.Safety.Failures

open NebulaToken.Lib.Program NebulaToken.Lib.Pool NebulaToken.Lib.Transition NebulaToken.Lib.Faults
open NebulaToken.Lib.KeyedTable
open NebulaToken.Token.Unicode NebulaToken.Token.Wire NebulaToken.Engine.Records
open NebulaToken.Runs.Calls NebulaToken.Runs.History NebulaToken.Runs.Provenance
open NebulaToken.Runs.Assumptions NebulaToken.Runs.Families NebulaToken.Runs.Exclusion
open NebulaToken.Runs.Lineage NebulaToken.Runs.Unforked NebulaToken.Runs.Execution
open NebulaToken.Runs.Failing NebulaToken.Safety.FailClosed NebulaToken.Safety.SingleUse
open NebulaToken.Store.Contract NebulaToken.Store.Memory

variable {σ Env φ : Type}

section Facts

variable {H : HmacSha256} {svc : StoreService σ Env} {C : StoreContract svc} {s' t' : FailingState σ φ}
  {s t : PoolState σ}

/-- A run with fresh draws stands for one with fresh draws. -/
theorem stood_fresh (h : ((failing H φ svc).under DrawsFresh).Reachable s') :
    ∃ s, ((engines H svc).under FreshDraws).Reachable s ∧ Stood writes s' s := by
  refine simulated ?_ (fun _ _ _ hl => nomatch hl) h
  rintro s' s l' t' l hst hG hs hl op rfl th hth
  obtain ⟨i, hi⟩ := List.mem_iff_getElem?.mp hth
  obtain ⟨th', hi', hat⟩ := standsAt_back hst hi
  cases hl with
  | invoke =>
    rw [← hat.op]
    exact hG op rfl th' (mem_of_getElem? hi')

/-- A success is one of the run it stands for. -/
theorem succeeded_of_returns (h : Stood writes s' s) {i : ℕ} {x : RefreshSuccess}
    (hx : Returns s' i (.refreshed (.ok x))) : Succeeded s i x := (result_of_returns h hx).1

/-- **Two calls that exchange one token without a window are one call**, over any store. -/
theorem winner_unique (C : StoreContract svc) (hr : ((engines H svc).under NoReinsert).Reachable s)
    {i j : ℕ} {c c' : RefreshCall} {x y : RefreshSuccess} (hi : OpAt s i (.refresh c))
    (hj : OpAt s j (.refresh c')) (hc : c.engine.reuseGrace = 0) (hc' : c'.engine.reuseGrace = 0)
    (htok : c.token = c'.token) (hx : Succeeded s i x) (hy : Succeeded s j y) : i = j := by
  have hK := knowledge C hr
  obtain ⟨c₁, r₁, n₁, f₁, t₁, tr₁, hw₁, -⟩ := won_of_success hr hx
  obtain ⟨c₂, r₂, n₂, f₂, t₂, tr₂, hw₂, -⟩ := won_of_success hr hy
  obtain rfl := Operation.refresh.inj (hw₁.opAt.unique hi)
  obtain rfl := Operation.refresh.inj (hw₂.opAt.unique hj)
  obtain rfl := ticket_fresh hc hw₁.ticket
  obtain rfl := ticket_fresh hc' hw₂.ticket
  obtain ⟨sel₁, pepper₁, ⟨parsed₁, hp₁, rfl, -⟩, hm₁⟩ := hw₁.ticket.found
  obtain ⟨sel₂, pepper₂, ⟨parsed₂, hp₂, rfl, -⟩, hm₂⟩ := hw₂.ticket.found
  -- one token names one selector
  have hparse := parseToken_of_configured hp₁
  rw [htok, parseToken_of_configured hp₂] at hparse
  have hmark := hw₂.marked
  rw [hK.found_selector (hw₂.did _ hm₂), Option.some.inj hparse,
    ← hK.found_selector (hw₁.did _ hm₁)] at hmark
  exact (exclusive C hr).first i j _ _ _ _ _ hw₁.marked hmark

/-- **Used once.** Over every store that keeps the contract, whichever of its calls raise and whenever, in
every run with fresh draws: of the calls that present one token to engines without a grace window at
most one returns a success, and a success is at a time before the deadline that the login of its family
has fixed, which it reports. -/
theorem used_once (C : StoreContract svc) (hs : ((failing H φ svc).under DrawsFresh).Reachable s') :
    (∀ i j c c' x y, Invoked s' i (.refresh c) → Invoked s' j (.refresh c') →
      c.engine.reuseGrace = 0 → c'.engine.reuseGrace = 0 → c.token = c'.token →
      Returns s' i (.refreshed (.ok x)) → Returns s' j (.refreshed (.ok y)) → i = j) ∧
    ∀ i c x, Invoked s' i (.refresh c) → Returns s' i (.refreshed (.ok x)) →
      ∃ j c₀, Invoked s' j (.issue c₀) ∧ x.familyId = c₀.draw.familyId ∧ x.userId = c₀.userId ∧
        x.expiresAt = c₀.now + c₀.engine.absoluteTtl ∧ c.now < x.expiresAt := by
  obtain ⟨s, hr, hst⟩ := stood_fresh hs
  have hr := noReinsert_of_freshDraws hr
  refine ⟨?_, ?_⟩
  · intro i j c c' x y hi hj hc hc' htok hx hy
    exact winner_unique C hr ((invoked_iff hst).mp hi) ((invoked_iff hst).mp hj) hc hc' htok
      (succeeded_of_returns hst hx) (succeeded_of_returns hst hy)
  · intro i c x hi hx
    obtain ⟨c', j, c₀, hop', hop₀, h⟩ := success_before_deadline C hr (succeeded_of_returns hst hx)
    obtain rfl := Operation.refresh.inj (hop'.unique ((invoked_iff hst).mp hi))
    exact ⟨j, c₀, (invoked_iff hst).mpr hop₀, h⟩

/-! ### Families whose rows are revoked -/

/-- The family has rows, and all of them are revoked. -/
def AllRevoked (C : StoreContract svc) (a : σ) (familyId : Str) : Prop :=
  (∃ sel r, C.look a sel = some r ∧ r.familyId = familyId) ∧
    ∀ sel r, C.look a sel = some r → r.familyId = familyId → r.status = .revoked

theorem dead_of_allRevoked (hr : ((engines H svc).under (Honest H)).Reachable s) {familyId : Str}
    (h : AllRevoked C s.shared familyId) : Dead H C s familyId where
  founded := by
    obtain ⟨⟨sel, r, hrow, hf⟩, -⟩ := h
    obtain ⟨j, c, n, hfd, ho⟩ := (Stored.of_row (knowledge_of_honest C hr) hrow).founded
      (noReinsert_of_freshDraws (fresh hr)) C
    exact ⟨j, c, n, hfd, ho.family.symm.trans hf⟩
  revoked sel r _ hrow hf := h.2 sel r hrow hf

/-- What a call that returns an outcome has done in the run it stands for, it has done. -/
theorem did_back {G : FailingState σ φ → FailingLabel Env φ → Prop} (hst : Stood writes s' s)
    (ht : Stood writes t' t) (hrun : ((failing H φ svc).under G).Run s' t') {i : ℕ} {x : Outcome}
    (hx : Returns t' i x) {ev : StoreEvent} (hd : s.Did i ev) : s'.Did i (answered φ ev) := by
  obtain ⟨th, hi, hev⟩ := hd
  obtain ⟨th', hi', hth⟩ := standsAt_back hst hi
  cases hth with
  | alive hop htr =>
    refine ⟨th', hi', ?_⟩
    rw [htr]
    exact List.mem_map_of_mem hev
  | @raised q e tr hop htr hp hm hth =>
    -- a call that has raised returns no outcome
    have herr : s'.Did i ⟨q, .error e⟩ := ⟨th', hi', by rw [htr]; exact List.mem_cons_self⟩
    exact absurd hx ((ends_of_raised ht (Run.did hrun herr)).1 x)

/-- **Dead for good.** Over every store that keeps the contract, whichever of its calls raise and whenever,
in every run with fresh draws in which no refresh proves a token that was not returned: once the rows of
a family are all revoked, by whatever calls and whether or not these calls came to know of it, a refresh
that returns a success in the family has rotated before; and a row of the family that is not revoked is
active, and belongs to a refresh whose token is never returned. -/
theorem dead_for_good (C : StoreContract svc)
    (hs : ((failing H φ svc).under (Careful H)).Reachable s')
    (hrun : ((failing H φ svc).under (Careful H)).Run s' t') {familyId : Str}
    (hall : AllRevoked C s'.shared.store familyId) :
    (∀ k y, Returns t' k (.refreshed (.ok y)) → y.familyId = familyId →
      ∃ p f x q, s'.Did k ⟨.markRotated p f x q, .ok true⟩) ∧
    ∀ sel r, C.look t'.shared.store sel = some r → r.familyId = familyId → r.status ≠ .revoked →
      r.status = .active ∧ ∃ k c, Invoked t' k (.refresh c) ∧ drawn (.refresh c) = some sel ∧
        ∀ u', ((failing H φ svc).under (Careful H)).Run t' u' → ¬ TokenReturned u' sel := by
  obtain ⟨s, hr, hst⟩ := stood_honest hs
  obtain ⟨t, hrun₀, htt⟩ := stood_honest_run hst hrun
  have ht := hr.run hrun₀
  have hD : Dead H C s familyId := dead_of_allRevoked hr (hst.shared ▸ hall)
  refine ⟨fun k y hy hf => ?_, fun sel r hrow hf hne => ?_⟩
  · obtain ⟨p, f, x, q, hm⟩ := success_before_death hD hr hrun₀ (succeeded_of_returns htt hy) hf
    exact ⟨p, f, x, q, did_back hst htt hrun hy hm⟩
  · rw [htt.shared] at hrow
    have hK := knowledge_of_honest C ht
    have hact : r.status = .active := by
      cases hstat : r.status with
      | active => rfl
      | revoked => exact absurd hstat hne
      | rotated =>
        -- a row that was rotated is granted
        obtain ⟨q, hq⟩ := Option.ne_none_iff_exists'.mp ((hK.row sel r hrow).1.rotated hstat)
        obtain ⟨j, f, x, hm⟩ := pointer_row C ht sel r q hrow hq
        have hrev := (dead_run hD hr hrun₀).revoked sel r (granted_of_marked ht hm) hrow hf
        exact absurd hrev hne
    obtain ⟨k, c, hop, hins, hnever⟩ := undelivered_of_dead hD hr hrun₀ hrow hf hact
    obtain ⟨op, hop', hd⟩ := inserted_drawn ht hins
    obtain rfl := hop.unique hop'
    have hsel := hK.row_selector hrow
    refine ⟨hact, k, c, (invoked_iff htt).mpr hop, hsel ▸ hd, fun u' hu' hret => ?_⟩
    obtain ⟨u, hu, huu⟩ := stood_honest_run htt hu'
    -- a token of the selector is returned by the call that has drawn it
    obtain ⟨th, hth, hdr, x, hres, htok⟩ := returned_of_tokenReturned huu hret
    obtain ⟨i, hi⟩ := List.mem_iff_getElem?.mp hth
    obtain ⟨tok, htok⟩ := Option.isSome_iff_exists.mp htok
    obtain ⟨thk, hk, hopk⟩ := hop
    obtain ⟨thk', hk', hg⟩ := Run.grows hu hk
    obtain rfl := (drawn_unique (fresh (ht.run hu)) i k _ _ ⟨th, hi, rfl⟩
      ⟨thk', hk', hg.op.trans hopk⟩).1 sel hdr (hsel ▸ hd)
    exact hnever u hu tok ⟨th, x, hi, hres, htok⟩

end Facts

/-! ### Sample runs -/

theorem allRevoked_of_check {rows : Rows} {familyId : Str}
    (h : rows.entries.any (fun e => e.2.familyId == familyId && rows.get e.1 == some e.2) = true)
    (hall : rows.entries.all (fun e => e.2.familyId != familyId || e.2.status == .revoked) = true) :
    AllRevoked memoryStore rows familyId := by
  refine ⟨?_, fun sel r hrow hf => ?_⟩
  · obtain ⟨⟨sel, r⟩, -, he⟩ := List.any_eq_true.mp h
    rw [Bool.and_eq_true, beq_iff_eq, beq_iff_eq] at he
    exact ⟨sel, r, he.2, he.1⟩
  · have he := List.all_eq_true.mp hall _ (Table.mem_of_get hrow)
    simpa [hf] using he

/-- A login, a refresh whose lookup raises, and a second refresh of the same token. -/
def secondTry : FailingState Rows Unit :=
  (playedFailing carefulCheck
    (.invoke (sampleIssue 0 0) :: failingSteps 0 1 ++
      [.invoke (sampleRefresh 0 0 1 1010), raise 1 (.before ())] ++ failingSteps 1 1 ++
      .invoke (sampleRefresh 0 0 2 1020) :: failingSteps 2 3)).get (by decide)

theorem used_once_sample : ∃ x, Returns secondTry 2 (.refreshed (.ok x)) ∧ (1020 : ℤ) < x.expiresAt ∧
    ∀ y, ¬ Returns secondTry 1 (.refreshed (.ok y)) := by
  have hs : ((failing sampleHmac Unit memory).under (Careful sampleHmac)).Reachable secondTry :=
    play_reachable (fun _ _ _ _ hw => by cases hw) (fun _ _ h => careful_of_check h)
      (Option.some_get _).symm
  obtain ⟨honce, hbefore⟩ := used_once memoryStore (hs.weaken fun _ _ h => h.fresh)
  have h₁ : Invoked secondTry 1 (sampleRefresh 0 0 1 1010) := ⟨_, rfl, rfl⟩
  have h₂ : Invoked secondTry 2 (sampleRefresh 0 0 2 1020) := ⟨_, rfl, rfl⟩
  have hx : ∃ x, Returns secondTry 2 (.refreshed (.ok x)) := ⟨_, _, rfl, rfl⟩
  obtain ⟨x, hx⟩ := hx
  obtain ⟨j, c₀, -, -, -, -, hlt⟩ := hbefore 2 _ x h₂ hx
  refine ⟨x, hx, hlt, fun y hy => ?_⟩
  exact absurd (honce 1 2 _ _ y x h₁ h₂ rfl rfl rfl hy hx) (by decide)

/-- A login, a refresh that has read its row, and a revocation that raises after it has taken effect. -/
def revokedUnseen : FailingState Rows Unit :=
  (playedFailing carefulCheck
    (.invoke (sampleIssue 0 0) :: failingSteps 0 1 ++
      [.invoke (sampleRefresh 0 0 1 1010), .go 1] ++
      [.invoke (.revokeFamily (sampleRow 0 0).familyId), raise 2 (.after ())] ++
      failingSteps 2 1)).get (by decide)

/-- The refresh inserts its successor. -/
def strayInserted : FailingState Rows Unit :=
  (play (fun op => fallible Unit (code sampleHmac op)) (faulty Unit writes memory) (fun _ _ _ => none)
    carefulCheck revokedUnseen [.go 1]).get (by decide)

theorem dead_for_good_sample : ∃ r, strayInserted.shared.store.get (sampleDraw 1).selectorText = some r ∧
    r.status = .active ∧ ∀ u, ((failing sampleHmac Unit memory).under (Careful sampleHmac)).Run
      strayInserted u → ¬ TokenReturned u (sampleDraw 1).selectorText := by
  have hs : ((failing sampleHmac Unit memory).under (Careful sampleHmac)).Reachable revokedUnseen :=
    play_reachable (fun _ _ _ _ hw => by cases hw) (fun _ _ h => careful_of_check h)
      (Option.some_get _).symm
  have hrun : ((failing sampleHmac Unit memory).under (Careful sampleHmac)).Run revokedUnseen
      strayInserted :=
    play_run (fun _ _ _ _ hw => by cases hw) (fun _ _ h => careful_of_check h) (Option.some_get _).symm
  have hall : AllRevoked memoryStore revokedUnseen.shared.store (sampleRow 0 0).familyId :=
    allRevoked_of_check (by decide) (by decide)
  obtain ⟨-, hstray⟩ := dead_for_good memoryStore hs hrun hall
  have hrow : ∃ r, strayInserted.shared.store.get (sampleDraw 1).selectorText = some r ∧
      r.familyId = (sampleRow 0 0).familyId ∧ r.status = .active := ⟨_, rfl, rfl, rfl⟩
  obtain ⟨r, hr, hf, ha⟩ := hrow
  obtain ⟨-, k, c, -, -, hnever⟩ := hstray (sampleDraw 1).selectorText r hr hf (by rw [ha]; decide)
  exact ⟨r, hr, ha, hnever⟩

end NebulaToken.Safety.Failures
