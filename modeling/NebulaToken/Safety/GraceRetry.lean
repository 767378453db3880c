import NebulaToken.Runs.Execution
import NebulaToken.Runs.Exclusion

/-! # Grace retries

A client that lost the reply to its refresh may present the rotated token again: if the successor is
still unused, it is revoked and the record is rotated a second time. The second compare-and-set is from
rotated to rotated and excludes nobody; what makes a retry exclusive is the revocation of the successor.

* `displaced_status`: the displaced successor was active until the retry revoked it;
* `grace_retry_safe`: a retry that succeeds is inside the window of the first rotation, and nobody else
  uses or displaces its successor. -/

namespace NebulaToken.Safety.GraceRetry

open NebulaToken.Lib.Pool NebulaToken.Lib.Transition NebulaToken.Token.Unicode
open NebulaToken.Token.Wire NebulaToken.Engine.Records NebulaToken.Engine.Operations
open NebulaToken.Runs.Calls NebulaToken.Runs.History NebulaToken.Runs.Provenance
open NebulaToken.Runs.Assumptions NebulaToken.Runs.Exclusion NebulaToken.Runs.Execution
open NebulaToken.Store.Contract NebulaToken.Store.Memory

variable {σ Env : Type} {H : HmacSha256} {svc : StoreService σ Env} {s t : PoolState σ}

/-- **The displaced row was active until it was cleared**, and is revoked from then on. -/
theorem displaced_status (C : StoreContract svc) (hs : ((engines H svc).under NoReinsert).Reachable s)
    (hrun : ((engines H svc).under NoReinsert).Run s t) {i : ℕ} {sel : Str} (h : Cleared t i sel)
    {row : TokenRecord} (hrow : C.look s.shared sel = some row) :
    (Cleared s i sel → row.status = .revoked) ∧ (¬ Cleared s i sel → row.status = .active) := by
  refine ⟨fun hc => ((knowledge C hs).cleared i sel true hc).2 row hrow |>.2 rfl, fun hc => ?_⟩
  -- the step at which the call clears the row
  obtain ⟨u, l, v, hsu, ⟨-, hstep⟩, hu, hv, -⟩ := hrun.crossing (P := fun u => Cleared u i sel) hc h
  have hru := hs.run hsu
  rcases hstep.did_iff.mp hv with hu' | rfl
  · exact absurd hu' hu
  · obtain ⟨th, k, -, -, ha⟩ := callAt_answer hru hstep
    obtain ⟨r, h0, hst, -⟩ := C.clear ha
    obtain ⟨-, j, n, hj, hn, -⟩ := (knowledge C hs).row sel row hrow
    obtain ⟨row', hrow', he⟩ := evolves_run (C := C) hs hsu ⟨j, n, hj, hn⟩ h0
    obtain rfl := Option.some.inj (hrow.symm.trans hrow')
    rw [← he.active hst, hst]

/-- A successful refresh that read its row as rotated has displaced a successor. -/
theorem grace_of_success (C : StoreContract svc) (hr : ((engines H svc).under NoReinsert).Reachable t)
    {i : ℕ} {c : RefreshCall} {x : RefreshSuccess} {sel : Str} {r : TokenRecord}
    (hop : OpAt t i (.refresh c)) (hx : Succeeded t i x)
    (hf : t.Did i ⟨.findBySelector sel, some r⟩) (hst : r.status = .rotated) :
    ∃ first d n, withinGrace c.engine r c.now = some (first, d) ∧ Cleared t i d ∧
      Marked t i sel .rotated first n := by
  obtain ⟨c', r', n, fromStatus, first, tr, hw, -⟩ := won_of_success hr hx
  obtain rfl : c' = c := Operation.refresh.inj (hw.opAt.unique hop)
  have hK := knowledge C hr
  have hmem : (⟨.findBySelector sel, some r⟩ : StoreEvent) ∈ tr := by
    obtain ⟨mode, hth⟩ := hw.thread
    obtain ⟨th, hi, hf⟩ := hf
    obtain rfl := Option.some.inj (hth.symm.trans hi)
    rcases List.mem_cons.mp hf with he | hf
    · cases he
    · exact (List.mem_cons.mp hf).resolve_left fun he => nomatch he
  cases hw.ticket with
  | fresh hp hs =>
    rw [List.mem_singleton] at hmem
    cases hmem
    rw [hs] at hst
    cases hst
  | @grace sel' pepper q _ d hp hs hg ha hd =>
    simp only [List.mem_cons, List.not_mem_nil, or_false] at hmem
    rcases hmem with hmem | hmem | hmem
    · cases hmem
    · cases hmem
      rw [ha] at hst
      cases hst
    · cases hmem
      have hsel := hK.found_selector (hw.did ⟨.findBySelector q, some d⟩ (by simp))
      have hsel' := hK.found_selector (hw.did ⟨.findBySelector sel, some r⟩ (by simp))
      refine ⟨first, q, n.selector, hg, ?_, ?_⟩
      · have hcl := hw.did ⟨.revokeIfActive d.selector, true⟩ (by simp)
        rw [hsel] at hcl
        exact hcl
      · have hm := hw.marked
        rw [hsel'] at hm
        exact hm

/-- A refresh that presents a displaced successor does not succeed. -/
theorem not_success_of_cleared (C : StoreContract svc)
    (hr : ((engines H svc).under NoReinsert).Reachable t) {i j : ℕ} {d : Str} (hd : Cleared t i d)
    {c : RefreshCall} (hop : OpAt t j (.refresh c)) (hp : Presents c d) (y : RefreshSuccess) :
    ¬ Succeeded t j y := by
  intro hy
  obtain ⟨c', r, n, fromStatus, t', tr, hw, -⟩ := won_of_success hr hy
  obtain rfl : c' = c := Operation.refresh.inj (hw.opAt.unique hop)
  obtain ⟨sel, pepper, hproves, hmem⟩ := hw.ticket.found
  have hsel := (knowledge C hr).found_selector (hw.did _ hmem)
  have hm := hw.marked
  rw [hsel, hp.unique hproves] at hm
  exact (exclusive C hr).apart i j d _ _ _ hd hm

/-- The time of the rotation of a row is the time of its first rotation, before and after. -/
theorem first_rotation (C : StoreContract svc) (hs : ((engines H svc).under NoReinsert).Reachable s)
    (hrun : ((engines H svc).under NoReinsert).Run s t) {i : ℕ} {sel q : Str}
    {fromStatus : TokenStatus} {first : ℤ} (h : Marked t i sel fromStatus first q)
    {row : TokenRecord} (hrow : C.look s.shared sel = some row) :
    row.rotatedAt = none ∨ row.rotatedAt = some first := by
  by_cases hm : Marked s i sel fromStatus first q
  · exact Or.inr (((knowledge C hs).marked i sel _ _ _ hm).2 row hrow).2
  · cases hrot : row.rotatedAt with
    | none => exact Or.inl rfl
    | some x =>
      refine Or.inr ?_
      -- the step at which the call rotates the row, which has evolved from `row`
      obtain ⟨u, l, v, hsu, hstep, hu, hv, -⟩ :=
        hrun.crossing (P := fun u => Marked u i sel fromStatus first q) hm h
      rcases hstep.2.did_iff.mp hv with hu' | rfl
      · exact absurd hu' hu
      · obtain ⟨th, k, -, -, ha⟩ := callAt_answer (hs.run hsu) hstep.2
        obtain ⟨r, -, -, hupd⟩ := C.mark ha
        have hrow' : C.look v.shared sel = some (rotatedTo r first q) := by
          rw [hupd, Function.update_self]
        obtain ⟨-, j, n, hj, hn, -⟩ := (knowledge C hs).row sel row hrow
        obtain ⟨row₀, h₀, he⟩ := evolves_run (C := C) hs (hsu.step hstep) ⟨j, n, hj, hn⟩ hrow'
        obtain rfl := Option.some.inj (hrow.symm.trans h₀)
        exact (he.rotatedAt x hrot).symm

/-- **Grace retries are safe.** In every run that stores no selector twice, rows collected or not: a
rotation time once set does not change; and a refresh that succeeds on a record read as rotated is
within the window of the record's first rotation and before the absolute deadline, its displaced
successor was active until it revoked it, no presentation of that successor succeeds, and no other call
displaces it. -/
theorem grace_retry_safe {s t : PoolState Rows}
    (hs : ((engines H memory).under NoReinsert).Reachable s)
    (hrun : ((engines H memory).under NoReinsert).Run s t) :
    (∀ sel row row' x, s.shared.get sel = some row → t.shared.get sel = some row' →
      row.rotatedAt = some x → row'.rotatedAt = some x) ∧
    ∀ i c x sel r, OpAt t i (.refresh c) → Succeeded t i x →
      t.Did i ⟨.findBySelector sel, some r⟩ → r.status = .rotated →
      ∃ first d,
        (∀ row, t.shared.get sel = some row → row.rotatedAt = some first) ∧
        (∀ row, s.shared.get sel = some row →
          row.rotatedAt = none ∨ row.rotatedAt = some first) ∧
        c.now ≤ first + c.engine.reuseGrace ∧ c.now < r.familyExpiresAt ∧
        r.replacedBySelector = some d ∧ Cleared t i d ∧
        (∀ row, s.shared.get d = some row →
          (Cleared s i d → row.status = .revoked) ∧ (¬ Cleared s i d → row.status = .active)) ∧
        (∀ j c' y, OpAt t j (.refresh c') → Presents c' d → ¬ Succeeded t j y) ∧
        ∀ j, Cleared t j d → j = i := by
  have ht := hs.run hrun
  have hKt := knowledge memoryStore ht
  refine ⟨fun sel row row' x hrow hrow' hx => ?_, ?_⟩
  · obtain ⟨-, j, n, hj, hn, -⟩ := (knowledge memoryStore hs).row sel row hrow
    obtain ⟨row₀, h₀, he⟩ := evolves_run (C := memoryStore) hs hrun ⟨j, n, hj, hn⟩ hrow'
    obtain rfl := Option.some.inj (hrow.symm.trans h₀)
    exact he.rotatedAt x hx
  · intro i c x sel r hop hx hf hst
    obtain ⟨first, d, n, hg, hcl, hm⟩ := grace_of_success memoryStore ht hop hx hf hst
    obtain ⟨-, hrep, -, hwin, hdead⟩ := withinGrace_some hg
    refine ⟨first, d, fun row hrow => ((hKt.marked i sel _ _ _ hm).2 row hrow).2,
      fun row hrow => first_rotation memoryStore hs hrun hm hrow, by omega, hdead, hrep, hcl,
      fun row hrow => displaced_status memoryStore hs hrun hcl hrow,
      fun j c' y hop' hp => not_success_of_cleared memoryStore ht hcl hop' hp y,
      fun j hj => (exclusive memoryStore ht).cleared j i d hj hcl⟩

/-- A login and a refresh, with a window of 60. -/
def refreshed : PoolState Rows :=
  (played sampleHmac (fun s l => noReinsertCheck s l)
    (.invoke (sampleIssue 60 0) :: sampleSteps 0 1 ++
      .invoke (sampleRefresh 60 0 1 1010) :: sampleSteps 1 3)).get (by decide)

/-- The first token presented again, 30 later. -/
def retried : PoolState Rows :=
  (playedFrom sampleHmac (fun s l => noReinsertCheck s l) refreshed
    (.invoke (sampleRefresh 60 0 2 1040) :: sampleSteps 2 5)).get (by decide)

theorem grace_retry_safe_sample :
    ∃ r x first d, Succeeded retried 2 x ∧
      retried.Did 2 ⟨.findBySelector (sampleDraw 0).selectorText, some r⟩ ∧ r.status = .rotated ∧
      (1040 : ℤ) ≤ first + 60 ∧ r.replacedBySelector = some d ∧ Cleared retried 2 d ∧
      ∀ j, Cleared retried j d → j = 2 := by
  have hs : ((engines sampleHmac memory).under NoReinsert).Reachable refreshed :=
    played_reachable (fun _ _ h => noReinsert_of_check h) _
  have hrun : ((engines sampleHmac memory).under NoReinsert).Run refreshed retried :=
    playedFrom_run (fun _ _ h => noReinsert_of_check h) _
  have hop : OpAt retried 2 (sampleRefresh 60 0 2 1040) := opAt_of_read rfl
  have hf : ∃ r, retried.Did 2 ⟨.findBySelector (sampleDraw 0).selectorText, some r⟩ ∧
      r.status = .rotated := ⟨_, did_of_read (k := 4) rfl, rfl⟩
  obtain ⟨r, hr, hst⟩ := hf
  have hx : ∃ x, Succeeded retried 2 x := ⟨_, succeeded_of_read rfl⟩
  obtain ⟨x, hx⟩ := hx
  obtain ⟨first, d, -, -, hwin, -, hrep, hcl, -, -, huniq⟩ :=
    (grace_retry_safe hs hrun).2 2 _ x _ r hop hx hr hst
  exact ⟨r, x, first, d, hx, hr, hst, hwin, hrep, hcl, huniq⟩

end NebulaToken.Safety.GraceRetry
