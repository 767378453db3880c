import NebulaToken.Safety.Failures
import NebulaToken.Safety.Publication

/-! # Refreshes in the SQL deployment

What the engine promises, of calls that run in transactions under `READ COMMITTED`: a read may be stale,
an `UPDATE` waits for the transaction that holds its row, and a crash or a rollback undoes all a call has
written.

* `exchanged_once`: of the calls that present one token at most one returns a success, and what it says
  is committed;
* `one_active`: at most one row of a family is committed and active. -/

namespace NebulaToken.Safety.Deployment

open NebulaToken.Lib.KeyedTable NebulaToken.Lib.Program NebulaToken.Lib.Pool NebulaToken.Lib.Transition
open NebulaToken.Lib.ReadCommitted NebulaToken.Token.Unicode NebulaToken.Token.Wire
open NebulaToken.Engine.Records NebulaToken.Engine.Operations
open NebulaToken.Runs.Calls NebulaToken.Runs.History NebulaToken.Runs.Provenance
open NebulaToken.Runs.Assumptions NebulaToken.Runs.Families NebulaToken.Runs.Lineage
open NebulaToken.Runs.Execution NebulaToken.Runs.Transactions NebulaToken.Runs.RowLocks
open NebulaToken.Safety.SingleUse NebulaToken.Safety.TransactionalRevocation
open NebulaToken.Safety.Publication NebulaToken.Store.Contract NebulaToken.Store.Postgres

variable {H : HmacSha256} {s s' : PoolState RefreshTokens} {l : PoolLabel End}

/-! ### Single use -/

/-- A success without a grace window has rotated the active row of the token it presents, and is
committed. -/
theorem exchange_committed (hr : ((engines H postgres).under Wrapped).Reachable s) {i : ℕ}
    {c : RefreshCall} {x : RefreshSuccess} (hop : OpAt s i (.refresh c)) (hg : c.engine.reuseGrace = 0)
    (hx : Succeeded s i x) : ∃ parsed n t, parseToken c.token = some parsed ∧
      Marked s i parsed.selector .active t n.selector ∧ Inserted s i n ∧
      n.selector = c.draw.selectorText ∧ s.shared.ended i = some .committed := by
  obtain ⟨c', r, n, f, t, tr, hw, rfl⟩ := won_of_success hr hx
  obtain rfl := Operation.refresh.inj (hw.opAt.unique hop)
  obtain ⟨th, hi, hres⟩ := hx
  have he := committed_of_returned (fun _ _ h => h) hr i th hi (of_result hres).1
  obtain ⟨sel, pepper, ⟨parsed, hp, rfl, -⟩, hmem⟩ := hw.ticket.found
  have hm := hw.marked
  rw [((versions hr).found i _ r (hw.did _ hmem)).selector] at hm
  obtain rfl := ticket_fresh hg hw.ticket
  exact ⟨parsed, n, t, parseToken_of_configured hp, hm, hw.inserted, hw.mints.selector, he⟩

/-- **Exchanged once, and durably.** In every run of wrapped calls over the SQL deployment, whatever else
its transactions do: of the refreshes that present one token to engines without a grace window at most
one returns a success; once it has, the row of the token is committed and not active, and the row of the
token it returned is committed. -/
theorem exchanged_once (hs : ((engines H postgres).under Wrapped).Reachable s) :
    (∀ i j c c' x y, OpAt s i (.refresh c) → OpAt s j (.refresh c') → c.engine.reuseGrace = 0 →
      c'.engine.reuseGrace = 0 → c.token = c'.token → Succeeded s i x → Succeeded s j y → i = j) ∧
    ∀ i c x, OpAt s i (.refresh c) → c.engine.reuseGrace = 0 → Succeeded s i x →
      ∃ parsed r n, parseToken c.token = some parsed ∧
        s.shared.committed.get parsed.selector = some r ∧ r.status ≠ .active ∧
        s.shared.committed.get c.draw.selectorText = some n := by
  have hT := taken hs
  refine ⟨?_, ?_⟩
  · intro i j c c' x y hi hj hg hg' htok hx hy
    obtain ⟨parsed, n, t, hp, hm, -, -, he⟩ := exchange_committed hs hi hg hx
    obtain ⟨parsed', n', t', hp', hm', -, -, he'⟩ := exchange_committed hs hj hg' hy
    rw [htok, hp'] at hp
    obtain rfl := Option.some.inj hp
    refine hT.unique i j _ (.marked hm) (.marked hm') ?_ ?_
    · rw [he]
      exact fun h => nomatch h
    · rw [he']
      exact fun h => nomatch h
  · intro i c x hi hg hx
    obtain ⟨parsed, n, t, hp, hm, hins, hsel, he⟩ := exchange_committed hs hi hg hx
    obtain ⟨r, hrow, hna⟩ := hT.closed i _ (.marked hm) he
    obtain ⟨n', hn'⟩ := ((versions hs).inserted i n hins).2 he
    exact ⟨parsed, r, n', hp, hrow, hna, hsel ▸ hn'⟩

/-- Two refreshes read the row of one token. The first rotates it, and the `UPDATE` of the second waits;
when the first has committed, the second finds the row rotated, and revokes its successor. -/
def contested : PoolState RefreshTokens :=
  (transacted deployedCheck opened
    [.invoke (sampleRefresh 0 0 1 1010), .invoke (sampleRefresh 0 0 2 1010), .go 1, .go 2, .go 1, .go 2,
      .work 1, .work 2, .work 1, .go 1, .env (.commit 1), .stop 1 .returned,
      .work 2, .go 2, .work 2, .work 2, .go 2, .env (.commit 2), .stop 2 .returned]).get rfl

theorem contested_reachable : ((engines sampleHmac postgres).under (Deployed sampleHmac)).Reachable
    contested :=
  System.Reachable.run (System.Reachable.run (.init rfl)
    (transacted_run (fun _ _ hg => deployed_of_check hg) rfl))
    (transacted_run (fun _ _ hg => deployed_of_check hg) rfl)

theorem exchanged_once_sample : (∃ x, Succeeded contested 1 x) ∧ ∀ y, ¬ Succeeded contested 2 y := by
  have hs : ((engines sampleHmac postgres).under Wrapped).Reachable contested :=
    contested_reachable.weaken fun _ _ h => h.wrapped
  have hx : ∃ x, Succeeded contested 1 x := ⟨_, succeeded_of_read rfl⟩
  refine ⟨hx, fun y hy => ?_⟩
  obtain ⟨x, hx⟩ := hx
  have h := (exchanged_once hs).1 1 2 (samplePresent 0 0 1 1010) (samplePresent 0 0 2 1010) x y
    (opAt_of_read rfl) (opAt_of_read rfl) rfl rfl rfl hx hy
  omega

/-! ### One active row -/

/-- **A rotation takes the place of an active row that is committed**: the one it has rotated, or the unused
successor that it has revoked before; its transaction holds that row until it ends. -/
theorem replaced_active (hr : ((engines H postgres).under (Deployed H)).Reachable s) {k : ℕ} {p q : Str}
    {f : TokenStatus} {x : ℤ} (hm : Marked s k p f x q) (ho : s.shared.ended k = none) :
    ∃ a ra rd, s.shared.committed.get a = some ra ∧ ra.status = .active ∧
      s.shared.dirty.get a = some (k, rd) ∧ rd.status ≠ .active ∧
      ∀ n, Minted s q n → n.familyId = ra.familyId := by
  have hfr := fresh_of_deployed hr
  have hV := versions hr
  have hwr : ((engines H postgres).under Wrapped).Reachable s := hr.weaken fun _ _ h => h.wrapped
  obtain ⟨ra, hra⟩ := (published_of_marked hr hm).row hr
  have hfam : ∀ n, Minted s q n → n.familyId = ra.familyId :=
    fun n hn => family_of_marked hfr hm (hV.committed p ra hra) hn
  obtain ⟨c, r, n, tr, hw, rfl, rfl⟩ := won_of_marked hr hm
  cases f with
  | active =>
    obtain ⟨⟨rd, hd, hna⟩, hact⟩ := (taken hr).opened k _ (.marked hm) ho
    exact ⟨_, ra, rd, hra, hact ra hra, hd, hna, hfam⟩
  | revoked => exact absurd rfl hw.ticket.not_revoked
  | rotated =>
    generalize hst : TokenStatus.rotated = g at hw
    obtain ⟨ht, hn, hth⟩ := hw
    cases ht with
    | fresh => cases hst
    | @grace sel pepper q t d hp hs hg ha hdev =>
      have hdid : ∀ ev ∈ [⟨.revokeIfActive d.selector, true⟩, ⟨.findBySelector q, some d⟩,
          ⟨.findBySelector sel, some r⟩], s.Did k ev := by
        obtain ⟨mode, hi⟩ := hth
        exact fun ev hev => did_of_mem hi (List.mem_cons_of_mem _ (List.mem_cons_of_mem _ hev))
      have hclr := hdid _ (List.mem_cons_self)
      have hfd := hdid ⟨.findBySelector q, some d⟩ (by simp)
      have hfr₀ := hdid ⟨.findBySelector sel, some r⟩ (by simp)
      obtain rfl := (hV.found k q d hfd).selector
      obtain rfl := (hV.found k sel r hfr₀).selector
      -- the unused successor is committed, and held revoked
      obtain ⟨m, ⟨n', hm', hn', -⟩, he⟩ := (visible hr).found k _ d hfd
      obtain ⟨rq, hrq⟩ := (hV.inserted m n' hm').2 he
      rw [hn'] at hrq
      obtain ⟨⟨rd, hd, hna⟩, hact⟩ := (taken hr).opened k _ (.cleared hclr) ho
      -- it is of the family
      obtain ⟨j, f', x', hj⟩ := (pointed hwr).found k _ r _ hfr₀ (withinGrace_some hg).2.1
      have hfam' := family_of_marked hfr hj (hV.committed _ ra hra) (hV.committed _ rq hrq)
      exact ⟨_, rq, rd, hrq, hact rq hrq, hd, hna, fun b hb => (hfam b hb).trans hfam'.symm⟩

/-- **A transaction that commits an active row has granted it**: it is that of a login or of a rotation. -/
theorem granted_of_commit (hr : ((engines H postgres).under (Deployed H)).Reachable s) {k : ℕ}
    (hw : Wrapped s (.env (.commit k))) {sel : Str} {r : TokenRecord}
    (hd : s.shared.dirty.get sel = some (k, r)) (ha : r.status = .active) :
    (∃ c, Founded H s k c r) ∨ ∃ p f x, Marked s k p f x sel := by
  have hins := (active_dirty hr sel k r hd ha).2
  have hsel := ((versions hr).dirty sel k r hd).1.selector
  rcases inserted_cases hr hins with ⟨c, hop, hn⟩ | ⟨c, r₀, f, x, tr, hop, -⟩
  · exact Or.inl ⟨c, hop, hn, hins⟩
  · obtain ⟨th, y, hi, -, hret⟩ := hw.commit k rfl
    have hat := callAt hr th (mem_of_getElem? hi)
    obtain ⟨th', hi', hop'⟩ := hop
    obtain rfl := Option.some.inj (hi.symm.trans hi')
    rw [hop', hret] at hat
    obtain ⟨prog, hprog, hat⟩ := hat
    obtain ⟨res, rfl, -⟩ := Prog.map_eq_ret hprog.symm
    have hmem : ⟨.insert r, ()⟩ ∈ th.trace := by
      obtain ⟨th₁, hi₁, hev⟩ := hins
      obtain rfl := Option.some.inj (hi.symm.trans hi₁)
      exact hev
    rcases refreshAt_inserted hat hmem with ⟨r₁, f₁, x₁, hm, -⟩ | ⟨b, r₁, hclr, -⟩
    · exact Or.inr ⟨_, f₁, x₁, hsel ▸ did_of_mem hi hm⟩
    · have hwd : Withdrawn s k r.selector := ⟨r, b, hins, rfl, did_of_mem hi hclr⟩
      exact absurd ha ((cleaned (fresh_of_deployed hr)).opened k _ r hwd (hsel ▸ hd))

/-- **One active row.** -/
structure OneActive (H : HmacSha256) (s : PoolState RefreshTokens) : Prop where
  published : ∀ sel r, s.shared.committed.get sel = some r → r.status = .active → Published H s sel
  unique : ∀ sel sel' r r', s.shared.committed.get sel = some r → s.shared.committed.get sel' = some r' →
    r.status = .active → r'.status = .active → r.familyId = r'.familyId → sel = sel'

/-- An active row that is committed by a step leaves no other one of its family. -/
theorem OneActive.supersedes (h1 : OneActive H s)
    (hr : ((engines H postgres).under (Deployed H)).Reachable s) {k : ℕ}
    (hs : ((engines H postgres).under (Deployed H)).step s (.env (.commit k)) s')
    (ho : s.shared.ended k = none) {sel sel' : Str} {r r' : TokenRecord}
    (hd : s.shared.dirty.get sel = some (k, r)) (ha : r.status = .active)
    (hc : s.shared.committed.get sel' = some r') (hc' : s'.shared.committed.get sel' = some r')
    (ha' : r'.status = .active) : r.familyId ≠ r'.familyId := by
  intro hf
  have hmin := ((versions hr).dirty sel k r hd).1
  rcases granted_of_commit hr hs.1.wrapped hd ha with ⟨c, hfd⟩ | ⟨p, f, x, hm⟩
  · -- no row of a family is committed before its login
    have hend := login_committed (fresh_of_deployed hr) hfd hc
      (hf.symm.trans (OfFamily.of_mints hfd.mints).family)
    rw [ho] at hend
    cases hend
  · obtain ⟨a, ra, rd, hca, haa, hda, hna, hfam⟩ := replaced_active hr hm ho
    obtain rfl := h1.unique a sel' ra r' hca hc haa ha' ((hfam r hmin).symm.trans hf)
    rw [commit_step (change hs.2) ho, Db.get_commit ho, Db.seen_own hda] at hc'
    rw [Option.some.inj hc'] at hna
    exact hna ha'

theorem OneActive.step (h1 : OneActive H s)
    (hr : ((engines H postgres).under (Deployed H)).Reachable s)
    (hs : ((engines H postgres).under (Deployed H)).step s l s') : OneActive H s' := by
  have hch := change hs.2
  -- where an active row that is committed comes from
  have hback : ∀ sel r, s'.shared.committed.get sel = some r → s.shared.committed.get sel = some r ∨
      ∃ k, l = .env (.commit k) ∧ s.shared.ended k = none ∧ s.shared.dirty.get sel = some (k, r) := by
    intro sel r hc
    rcases committed_step hch sel with hsame | ⟨k, r', hl, ho, hd, hc'⟩
    · exact Or.inl (hsame.symm.trans hc)
    · obtain rfl := Option.some.inj (hc'.symm.trans hc)
      exact Or.inr ⟨k, hl, ho, hd⟩
  refine ⟨fun sel r hc ha => ?_, fun sel sel' r r' hc hc' ha ha' hf => ?_⟩
  · rcases hback sel r hc with hold | ⟨k, rfl, ho, hd⟩
    · exact (h1.published sel r hold ha).mono hs.2
    · have hend : s'.shared.ended k = some .committed := by
        rw [commit_step hch ho, Db.commit, if_pos ho, Db.ended_close, if_pos rfl]
      rcases granted_of_commit hr hs.1.wrapped hd ha with ⟨c, hfd⟩ | ⟨p, f, x, hm⟩
      · have hsel := ((versions hr).dirty sel k r hd).1.selector
        exact Or.inl ⟨k, c, r, hfd.mono hs.2, hsel, hend⟩
      · exact Or.inr ⟨k, p, f, x, did_mono hm hs.2, hend⟩
  · rcases hback sel r hc with hold | ⟨k, rfl, ho, hd⟩
    · rcases hback sel' r' hc' with hold' | ⟨k, rfl, ho, hd'⟩
      · exact h1.unique sel sel' r r' hold hold' ha ha' hf
      · exact absurd hf.symm (h1.supersedes hr hs ho hd' ha' hold hc ha)
    · rcases hback sel' r' hc' with hold' | ⟨k', hl, -, hd'⟩
      · exact absurd hf (h1.supersedes hr hs ho hd ha hold' hc' ha')
      · cases hl
        -- one transaction inserts one record
        have hins := (active_dirty hr sel k r hd ha).2
        obtain rfl := inserted_once hr hins (active_dirty hr sel' k r' hd' ha').2
        exact ((versions hr).dirty sel k r hd).1.selector.symm.trans
          ((versions hr).dirty sel' k r hd').1.selector

/-- **One active row.** In every run of wrapped calls over the SQL deployment with fresh draws in which no
refresh proves a token that was not returned: a row that is committed and active is that of a login or of
a rotation that is committed, and a family has at most one; so of the tokens of a family that were
returned at most one is active, whatever transactions were rolled back or are still open. -/
theorem one_active (hs : ((engines H postgres).under (Deployed H)).Reachable s) :
    (∀ sel r, s.shared.committed.get sel = some r → r.status = .active → Published H s sel) ∧
    (∀ sel, Returned s sel → Published H s sel ∧ ∃ r, s.shared.committed.get sel = some r) ∧
    ∀ sel sel' r r', s.shared.committed.get sel = some r → s.shared.committed.get sel' = some r' →
      r.status = .active → r'.status = .active → r.familyId = r'.familyId → sel = sel' := by
  have h1 : OneActive H s := by
    refine hs.invariant (I := OneActive H) ?_ fun _ _ _ hr h1 hs => h1.step hr hs
    intro s hs
    rw [show s = ⟨postgres.start, []⟩ from hs]
    exact ⟨fun sel r h => (nomatch h), fun sel sel' r r' h => (nomatch h)⟩
  refine ⟨h1.published, fun sel h => ?_, h1.unique⟩
  have hp := published_of_returned hs h
  exact ⟨hp, hp.row hs⟩

theorem one_active_sample : ∃ r r', contested.shared.committed.get (sampleDraw 1).selectorText = some r ∧
    contested.shared.committed.get (sampleDraw 2).selectorText = some r' ∧ r.familyId = r'.familyId ∧
    r.status = .active ∧ r'.status ≠ .active := by
  obtain ⟨-, -, hone⟩ := one_active contested_reachable
  obtain ⟨r, r', hr, hr', ha, hf⟩ :
      ∃ r r', contested.shared.committed.get (sampleDraw 1).selectorText = some r ∧
        contested.shared.committed.get (sampleDraw 2).selectorText = some r' ∧ r.status = .active ∧
        r.familyId = r'.familyId := ⟨_, _, rfl, rfl, rfl, rfl⟩
  refine ⟨r, r', hr, hr', hf, ha, fun ha' => ?_⟩
  exact absurd (hone _ _ r r' hr hr' ha ha' hf) (by decide)

end NebulaToken.Safety.Deployment
