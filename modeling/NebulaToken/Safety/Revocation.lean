import NebulaToken.Runs.Execution
import NebulaToken.Runs.Unforked

/-! # Revocation is final

Over a store whose bulk revocations are one step, a refresh that read its record before the revocation
may still insert a successor after it, but its rotation fails and it revokes the successor itself.

* `survivor_of_unreturned`: a call that proves the token of such a successor escapes the revocation;
* `revocation_final`: nothing else does. -/

namespace NebulaToken.Safety.Revocation

open NebulaToken.Lib.Pool NebulaToken.Lib.Transition NebulaToken.Token.Unicode
open NebulaToken.Token.Wire NebulaToken.Engine.Records NebulaToken.Engine.Operations
open NebulaToken.Runs.Calls NebulaToken.Runs.History NebulaToken.Runs.Provenance
open NebulaToken.Runs.Assumptions NebulaToken.Runs.Families NebulaToken.Runs.Lineage
open NebulaToken.Runs.Unforked NebulaToken.Runs.Execution
open NebulaToken.Store.Contract NebulaToken.Store.Memory

variable {H : HmacSha256} {s t : PoolState Rows} {familyId : Str}

/-- A family whose token is being refreshed while it is about to be revoked. -/
def pending : PoolState Rows :=
  (played sampleHmac (fun s l => honestCheck sampleHmac s l)
    (.invoke (sampleIssue 0 0) :: sampleSteps 0 1 ++
      [.invoke (sampleRefresh 0 0 1 1010), .go 1,
        .invoke (.revokeFamily (sampleRow 0 0).familyId)])).get (by decide)

/-- The family revoked. -/
def revoked : PoolState Rows :=
  (playedFrom sampleHmac (fun s l => honestCheck sampleHmac s l) pending [.go 2]).get (by decide)

/-- The refresh has inserted its successor and stopped; the token of the successor was presented. -/
def survived : PoolState Rows :=
  (playedFrom sampleHmac (fun s l => freshDrawsCheck s l) revoked
    ([.go 1, .stop 1 .abandoned] ++ .invoke (sampleRefresh 0 1 2 1020) :: sampleSteps 3 3)).get
    (by decide)

/-- **Fresh draws alone do not make a revocation final**: after the revocation of a family that has a
record, a call that proves the token of a late successor, which nobody was given, rotates and succeeds. -/
theorem survivor_of_unreturned : ¬ ∀ (s v t : PoolState Rows) (i : ℕ) (familyId : Str) (n : ℕ),
    ((engines sampleHmac memory).under FreshDraws).Reachable s →
    ((engines sampleHmac memory).under FreshDraws).step s (.answer i ⟨.revokeFamily familyId, n⟩) v →
    ((engines sampleHmac memory).under FreshDraws).Run v t →
    (∃ sel r, s.shared.get sel = some r ∧ r.familyId = familyId) →
    ∀ k y, Succeeded t k y → y.familyId = familyId → ∃ p f x q, Marked v k p f x q := by
  intro h
  have hs : ((engines sampleHmac memory).under FreshDraws).Reachable pending :=
    played_reachable (fun _ _ h => (honest_of_check h).fresh) _
  have hstep : ((engines sampleHmac memory).under FreshDraws).step pending
      (.answer 2 ⟨.revokeFamily (sampleRow 0 0).familyId, (1 : ℕ)⟩) revoked :=
    ⟨freshDraws_of_check rfl, step_of_act (x := .go 2) rfl⟩
  have hrun : ((engines sampleHmac memory).under FreshDraws).Run revoked survived :=
    playedFrom_run (fun _ _ h => freshDraws_of_check h) _
  have hrow : ∃ r, pending.shared.get (sampleRow 0 0).selector = some r ∧
      r.familyId = (sampleRow 0 0).familyId := ⟨_, rfl, rfl⟩
  obtain ⟨r, hr, hf⟩ := hrow
  obtain ⟨y, hy, hyf⟩ : ∃ y, Succeeded survived 3 y ∧ y.familyId = (sampleRow 0 0).familyId :=
    ⟨_, succeeded_of_read rfl, rfl⟩
  obtain ⟨p, f, x, q, th, hth, -⟩ := h _ _ _ 2 _ _ hs hstep hrun ⟨_, r, hr, hf⟩ 3 y hy hyf
  rw [show revoked.threads[3]? = none from rfl] at hth
  cases hth

/-- A record stored in a dead family is of a refresh that, if it returns, reports a conflict and leaves
the record revoked. -/
theorem late_insert {v : PoolState Rows}
    (hv : ((engines H memory).under (Honest H)).Reachable v) (hD : Dead H memoryStore v familyId)
    (hrun : ((engines H memory).under (Honest H)).Run v t) {k : ℕ} {m : TokenRecord}
    (h : Inserted t k m) (hf : m.familyId = familyId) (hnew : ¬ Inserted v k m) :
    ∃ c, OpAt t k (.refresh c) ∧ ∀ th, t.threads[k]? = some th → th.mode = .returned →
      (∃ r, th.result = some (.refreshed (.refused (fail .conflict r)))) ∧
      ∀ row, t.shared.get m.selector = some row → row.status = .revoked := by
  have ht := hv.run hrun
  have hK := knowledge_of_honest memoryStore ht
  -- the record is not granted, so nobody presents it
  have hno : ∀ p f x, ¬ Marked t k p f x m.selector := by
    intro p f x hm
    obtain ⟨c, r, n, tr, hw, rfl, hsel⟩ := won_of_marked ht hm
    obtain ⟨j, m', hj, hm', he⟩ := ticket_stored hK hw.ticket hw.did
    have hfam := (Follows.of_mints hw.mints).familyId
    obtain rfl := inserted_once ht h hw.inserted
    have hold := marked_of_dead hD hv hrun hm ⟨j, m', hj, hm', he⟩ (hfam.symm.trans hf)
    obtain ⟨c', r', n', tr', hw', -, hsel'⟩ := won_of_marked hv hold
    obtain ⟨-, rfl⟩ := inserted_unique (fresh ht) h (Run.did hrun hw'.inserted) hsel'
    exact hnew hw'.inserted
  rcases inserted_cases ht h with ⟨c, hop, hn⟩ | ⟨c, r, f, x, tr, hop, -⟩
  · -- the login of the family had stored its record before
    obtain ⟨j, c₀, n₀, hf₀, hc₀⟩ := hD.founded
    have hfam := (OfFamily.of_mints hn).family
    obtain ⟨th, hth, hop'⟩ := hf₀.opAt
    obtain ⟨th', hth', hg⟩ := Run.grows hrun hth
    obtain ⟨rfl, -⟩ := founded_unique (fresh ht) hop ⟨th', hth', hg.op.trans hop'⟩
      (by rw [hc₀, ← hf, hfam])
    obtain rfl := inserted_once ht h (Run.did hrun hf₀.inserted)
    exact absurd hf₀.inserted hnew
  · refine ⟨c, hop, fun th hth hm => ?_⟩
    obtain ⟨th', hth', hop'⟩ := hop
    obtain rfl := Option.some.inj (hth.symm.trans hth')
    obtain ⟨res, hat, hres⟩ := refreshAt_returned ht hth hop' hm
    obtain ⟨th', hth', hev⟩ := h
    obtain rfl := Option.some.inj (hth.symm.trans hth')
    rcases refreshAt_inserted hat hev with ⟨r', f', x', hmk, -⟩ | ⟨b, r', hcl, rfl⟩
    · exact absurd (did_of_mem hth hmk) (hno _ _ _)
    · refine ⟨⟨r', hres⟩, fun row hrow => ?_⟩
      have hna := ((hK.cleared k _ b (did_of_mem hth hcl)).2 row hrow).1
      cases hst : row.status with
      | active => exact absurd hst hna
      | revoked => rfl
      | rotated =>
        -- a rotation of the record would be later than its insertion
        obtain ⟨q, hq⟩ := Option.ne_none_iff_exists'.mp ((hK.row _ row hrow).1.rotated hst)
        obtain ⟨j, f', x', hmk⟩ := pointer_row memoryStore ht _ row q hrow hq
        have hst := Stored.of_row hK hrow
        have hfr : row.familyId = m.familyId := (congrArg TokenRecord.familyId
          (hst.unique (fresh ht) (.of_inserted (did_of_mem hth hev))) :)
        have hold := marked_of_dead hD hv hrun hmk hst (hfr.trans hf)
        obtain ⟨i, n, hi, hn⟩ := ((knowledge_of_honest memoryStore hv).marked j _ _ _ _ hold).1
        obtain ⟨rfl, rfl⟩ := inserted_unique (fresh ht) (did_of_mem hth hev) (Run.did hrun hi) hn.symm
        exact absurd hi hnew

/-- **Revocation is final.** In every run with fresh draws a row that is revoked never changes again. And
if no refresh proves a token that was not returned, then from the step of a `revokeFamily` or a
`revokeUser` on, for every family it covers that has been founded: no record of the family is rotated
any more; a refresh that succeeds in the family has rotated before; and a record that is inserted is of a
refresh that, if it returns, reports `CONFLICT` and leaves the record revoked. -/
theorem revocation_final (H : HmacSha256) :
    (∀ s t : PoolState Rows, ((engines H memory).under FreshDraws).Reachable s →
      ((engines H memory).under FreshDraws).Run s t → ∀ sel r r', s.shared.get sel = some r →
        r.status = .revoked → t.shared.get sel = some r' → r' = r) ∧
    ∀ (s v t : PoolState Rows) (i : ℕ) (q : StoreCall) (rep : q.Reply) (j : ℕ) (c : IssueCall)
      (n : TokenRecord), ((engines H memory).under (Honest H)).Reachable s →
      ((engines H memory).under (Honest H)).step s (.answer i ⟨q, rep⟩) v →
      ((engines H memory).under (Honest H)).Run v t → Founded H s j c n → CoversFamily q c →
      (∀ k p f x q' r, Marked t k p f x q' → Stored t p r → r.familyId = c.draw.familyId →
        Marked v k p f x q') ∧
      (∀ k y, Succeeded t k y → y.familyId = c.draw.familyId → ∃ p f x q', Marked v k p f x q') ∧
      ∀ k m, Inserted t k m → m.familyId = c.draw.familyId → ¬ Inserted v k m →
        ∃ c', OpAt t k (.refresh c') ∧ ∀ th, t.threads[k]? = some th → th.mode = .returned →
          (∃ r, th.result = some (.refreshed (.refused (fail .conflict r)))) ∧
          ∀ row, t.shared.get m.selector = some row → row.status = .revoked := by
  refine ⟨?_, ?_⟩
  · intro s t hs hrun sel r r' hr hrev hr'
    have hs' := noReinsert_of_freshDraws hs
    obtain ⟨-, i, n, hi, hn, -⟩ := (knowledge memoryStore hs').row sel r hr
    have hrun' := hrun.under_mono hs fun _ _ _ hu hG hstep => noReinsert_guard hu ⟨hG, hstep⟩
    obtain ⟨r₀, h₀, he⟩ := evolves_run (C := memoryStore) hs' hrun' ⟨i, n, hi, hn⟩ hr'
    obtain rfl := Option.some.inj (hr.symm.trans h₀)
    exact he.revoked hrev
  · intro s v t i q rep j c n hs hstep hrun hf hc
    have hv := hs.step hstep
    have hD := dead_of_bulk memoryContract hs hstep hf hc
    exact ⟨fun k p f x q' r hm hp hfam => marked_of_dead hD hv hrun hm hp hfam,
      fun k y hy hfam => success_before_death hD hv hrun hy hfam,
      fun k m hk hfam hnew => late_insert hv hD hrun hk hfam hnew⟩

/-- The refresh runs on after the revocation. -/
def finished : PoolState Rows :=
  (playedFrom sampleHmac (fun s l => honestCheck sampleHmac s l) revoked (sampleSteps 1 3)).get
    (by decide)

theorem revocation_final_sample : ∃ m, Inserted finished 1 m ∧ ¬ Inserted revoked 1 m ∧
    (∃ r th, finished.threads[1]? = some th ∧
      th.result = some (.refreshed (.refused (fail .conflict r)))) ∧
    ∀ row, finished.shared.get m.selector = some row → row.status = .revoked := by
  have hs : ((engines sampleHmac memory).under (Honest sampleHmac)).Reachable pending :=
    played_reachable (fun _ _ h => honest_of_check h) _
  have hstep : ((engines sampleHmac memory).under (Honest sampleHmac)).step pending
      (.answer 2 ⟨.revokeFamily (sampleRow 0 0).familyId, (1 : ℕ)⟩) revoked :=
    ⟨honest_of_check rfl, step_of_act (x := .go 2) rfl⟩
  have hrun : ((engines sampleHmac memory).under (Honest sampleHmac)).Run revoked finished :=
    playedFrom_run (fun _ _ h => honest_of_check h) _
  have hf : Founded sampleHmac pending 0 (sampleLogin 0 0) (sampleRow 0 0) :=
    ⟨opAt_of_read rfl, ⟨none, rfl, rfl⟩, did_of_read (k := 0) rfl⟩
  have hm : ∃ m, Inserted finished 1 m ∧ m.familyId = (sampleRow 0 0).familyId :=
    ⟨_, did_of_read (k := 2) rfl, rfl⟩
  obtain ⟨m, hm, hfam⟩ := hm
  have hnew : ¬ Inserted revoked 1 m := by
    rintro ⟨th, hth, hev⟩
    have hread : ∃ th' sel found, revoked.threads[1]? = some th' ∧
        th'.trace = [⟨.findBySelector sel, found⟩] := ⟨_, _, _, rfl, rfl⟩
    obtain ⟨th', sel, found, hth', htr⟩ := hread
    obtain rfl := Option.some.inj (hth.symm.trans hth')
    rw [htr, List.mem_singleton] at hev
    cases hev
  obtain ⟨-, -, hlate⟩ := (revocation_final sampleHmac).2 _ _ _ 2 _ _ 0 _ _ hs hstep hrun hf rfl
  obtain ⟨c, -, hend⟩ := hlate 1 m hm hfam hnew
  obtain ⟨th, hth, hmode⟩ : ∃ th, finished.threads[1]? = some th ∧ th.mode = .returned := ⟨_, rfl, rfl⟩
  obtain ⟨⟨r, hr⟩, hrow⟩ := hend th hth hmode
  exact ⟨m, hm, hnew, ⟨r, th, hth, hr⟩, hrow⟩

end NebulaToken.Safety.Revocation
