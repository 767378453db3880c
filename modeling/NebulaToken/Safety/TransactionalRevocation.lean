import NebulaToken.Runs.Execution
import NebulaToken.Runs.Transactions
import NebulaToken.Runs.Unforked

/-! # Revocation in the SQL deployment

A revocation takes the rows of a family that are committed when its statement starts. A refresh that has
inserted its successor, and holds the row it has rotated, makes the statement wait; when it commits, the
statement goes on, and does not see the successor.

* `Published`, `read_published`: the records of which a token may be in use are committed;
* `sweeping_run`: what a statement has still to come to, if no rotation of the family commits meanwhile;
* `final_unless_overtaken`: nothing else escapes a revocation. -/

namespace NebulaToken.Safety.TransactionalRevocation

open NebulaToken.Lib.KeyedTable NebulaToken.Lib.Pool NebulaToken.Lib.Transition
open NebulaToken.Lib.Program NebulaToken.Lib.ReadCommitted NebulaToken.Token.Unicode
open NebulaToken.Token.Wire NebulaToken.Engine.Records NebulaToken.Engine.Config
open NebulaToken.Engine.Operations
open NebulaToken.Runs.Calls NebulaToken.Runs.History NebulaToken.Runs.Provenance
open NebulaToken.Runs.Assumptions NebulaToken.Runs.Families NebulaToken.Runs.Lineage
open NebulaToken.Runs.Unforked NebulaToken.Runs.Execution NebulaToken.Runs.Transactions
open NebulaToken.Store.Contract NebulaToken.Store.Postgres

/-- **A call is wrapped in its transaction**: it is committed once the engine has come to a result, and
the result is returned once it is committed. -/
structure Wrapped (s : PoolState RefreshTokens) (l : PoolLabel End) : Prop where
  commit : ∀ i, l = .env (.commit i) →
    ∃ th x, s.threads[i]? = some th ∧ th.mode = .running ∧ th.prog = .ret x
  returned : ∀ i, l = .stop i .returned → s.shared.ended i = some .committed

/-- **No rotation of the family commits while the statement of call `i` is running.** -/
def NotOvertaken (i : ℕ) (familyId : Str) (s : PoolState RefreshTokens) (l : PoolLabel End) : Prop :=
  ∀ k p f x q st r, l = .env (.commit k) → Marked s k p f x q → s.shared.running i = some st →
    st.call = .revokeFamily familyId → s.shared.committed.get p = some r → r.familyId ≠ familyId

/-- An honest step of wrapped calls. -/
structure Deployed (H : HmacSha256) (s : PoolState RefreshTokens) (l : PoolLabel End) : Prop where
  honest : Honest H s l
  wrapped : Wrapped s l

/-- A step that does not overtake the statement of call `i`, either. -/
structure Orderly (H : HmacSha256) (i : ℕ) (familyId : Str) (s : PoolState RefreshTokens)
    (l : PoolLabel End) : Prop where
  deployed : Deployed H s l
  behind : NotOvertaken i familyId s l

variable {H : HmacSha256} {s s' t : PoolState RefreshTokens} {l : PoolLabel End} {i : ℕ}

theorem fresh_of_deployed (h : ((engines H postgres).under (Deployed H)).Reachable s) :
    ((engines H postgres).under FreshDraws).Reachable s := h.weaken fun _ _ h => h.honest.fresh

theorem deployed_of_orderly {familyId : Str}
    (h : ((engines H postgres).under (Orderly H i familyId)).Reachable s) :
    ((engines H postgres).under (Deployed H)).Reachable s := h.weaken fun _ _ h => h.deployed

/-! ### Published records -/

/-- **A login or a rotation that is committed has granted the record.** -/
def Published (H : HmacSha256) (s : PoolState RefreshTokens) (sel : Str) : Prop :=
  (∃ i c n, Founded H s i c n ∧ n.selector = sel ∧ s.shared.ended i = some .committed) ∨
  ∃ i p f x, Marked s i p f x sel ∧ s.shared.ended i = some .committed

theorem Published.mono {sel : Str} (h : Published H s sel) (hs : Step (code H) postgres s l s') :
    Published H s' sel := by
  rcases h with ⟨i, c, n, hf, hn, he⟩ | ⟨i, p, f, x, hm, he⟩
  · exact Or.inl ⟨i, c, n, hf.mono hs, hn, ended_mono (change hs) he⟩
  · exact Or.inr ⟨i, p, f, x, did_mono hm hs, ended_mono (change hs) he⟩

/-- A published record has a row that is committed. -/
theorem Published.row {G : PoolState RefreshTokens → PoolLabel End → Prop} {sel : Str}
    (h : Published H s sel) (hr : ((engines H postgres).under G).Reachable s) :
    ∃ r, s.shared.committed.get sel = some r := by
  have hV := versions hr
  rcases h with ⟨i, c, n, hf, rfl, he⟩ | ⟨i, p, f, x, hm, he⟩
  · exact (hV.inserted i n hf.inserted).2 he
  · obtain ⟨c, r, n, tr, hw, -, rfl⟩ := won_of_marked hr hm
    exact (hV.inserted i n hw.inserted).2 he

/-- A call that has returned is committed. -/
theorem committed_of_returned {G : PoolState RefreshTokens → PoolLabel End → Prop}
    (hG : ∀ s l, G s l → Wrapped s l) (h : ((engines H postgres).under G).Reachable s) :
    ∀ i th, s.threads[i]? = some th → th.mode = .returned → s.shared.ended i = some .committed := by
  refine h.invariant (I := fun s => ∀ i th, s.threads[i]? = some th → th.mode = .returned →
    s.shared.ended i = some .committed) ?_ ?_
  · intro s hs i th hi
    rw [show s = ⟨postgres.start, []⟩ from hs] at hi
    cases hi
  · intro s l s' _ ih hs i th hi hm
    by_cases hold : ∃ th₀, s.threads[i]? = some th₀ ∧ th₀.mode = .returned
    · obtain ⟨th₀, hi₀, hm₀⟩ := hold
      exact ended_mono (change hs.2) (ih i th₀ hi₀ hm₀)
    · obtain rfl : l = .stop i .returned := by
        have hno : ∀ th₀, s.threads[i]? = some th₀ → th₀.mode ≠ .returned :=
          fun th₀ hi₀ hm₀ => hold ⟨th₀, hi₀, hm₀⟩
        cases hs.2 with
        | invoke op =>
          rcases hs.2.thread_cases hi with ⟨op', -, -, rfl⟩ | ⟨th₀, hi₀, -⟩ |
            ⟨th₀, q, k, r, a, hi₀, -, -, -, hl, -⟩
          · cases hm
          · have hlt := (List.getElem?_eq_some_iff.mp hi₀).1
            rw [List.getElem?_append_left hlt] at hi
            exact absurd hm (hno th hi)
          · cases hl
        | answer hi₀ hm₀ hp ha =>
          rcases getElem?_set_cases hi with ⟨rfl, rfl⟩ | ⟨-, hi⟩
          · cases hm₀.symm.trans hm
          · exact absurd hm (hno th hi)
        | work | env => exact absurd hm (hno th hi)
        | stop hi₀ hm₀ hne hret =>
          rcases getElem?_set_cases hi with ⟨rfl, rfl⟩ | ⟨-, hi⟩
          · exact congrArg (Label.stop _) hm
          · exact absurd hm (hno th hi)
      exact ended_mono (change hs.2) ((hG _ _ hs.1).returned i rfl)

/-- **A token that was returned is that of a published record.** -/
theorem published_of_returned (hr : ((engines H postgres).under (Deployed H)).Reachable s) {sel : Str}
    (h : Returned s sel) : Published H s sel := by
  obtain ⟨th, hth, hd, x, hres, htok⟩ := h
  obtain ⟨i, hi⟩ := List.mem_iff_getElem?.mp hth
  have he := committed_of_returned (fun _ _ hG => hG.wrapped) hr i th hi (of_result hres).1
  obtain ⟨tok, htok⟩ := Option.isSome_iff_exists.mp htok
  obtain ⟨n, hn, -, hcase⟩ := delivered hr ⟨th, x, hi, hres, htok⟩
  obtain ⟨op, hop, hdn⟩ := inserted_drawn hr hn
  obtain rfl := hop.unique ⟨th, hi, rfl⟩
  obtain rfl := Option.some.inj (hd.symm.trans hdn)
  rcases hcase with ⟨c, hf⟩ | ⟨c, r, f, t, tr, hw⟩
  · exact Or.inl ⟨i, c, n, hf, rfl, he⟩
  · exact Or.inr ⟨i, _, f, t, hw.marked, he⟩

/-- **A record that was rotated is published.** -/
theorem published_of_marked (hr : ((engines H postgres).under (Deployed H)).Reachable s) {p q : Str}
    {f : TokenStatus} {x : ℤ} (hm : Marked s i p f x q) : Published H s p := by
  obtain ⟨c, r, n, tr, hw, rfl, -⟩ := won_of_marked hr hm
  obtain ⟨mode, hi⟩ := hw.thread
  obtain ⟨sel, pepper, hp, hfirst⟩ := hw.ticket.first
  exact read_of_returned (fun _ _ hG => hG.honest.secret) (fun _ _ hr h => published_of_returned hr h)
    (fun _ _ _ _ _ hs h => h.mono hs) hr i _ c sel r pepper hi rfl
    ((hfirst.trans (List.suffix_cons _ _)).trans (List.suffix_cons _ _)) hp

/-- **How a step publishes a record**: it commits a login or a rotation. -/
theorem published_back (hs : Step (code H) postgres s l s') {sel : Str} (h : Published H s' sel) :
    Published H s sel ∨ ∃ k, l = .env (.commit k) ∧ s.shared.ended k = none ∧
      ((∃ c n, Founded H s k c n ∧ n.selector = sel) ∨ ∃ p f x, Marked s k p f x sel) := by
  have hch := change hs
  -- a call makes its store calls before its transaction ends
  have hdid : ∀ i ev, s'.shared.ended i = some .committed → s'.Did i ev → s.Did i ev := by
    intro i ev he hd
    rcases hs.did_iff.mp hd with h | rfl
    · exact h
    · rw [open_of_answer hch] at he
      cases he
  have hended : ∀ i, s'.shared.ended i = some .committed →
      s.shared.ended i = some .committed ∨ (l = .env (.commit i) ∧ s.shared.ended i = none) := by
    intro i he
    rcases ended_step hch i with h | ⟨ho, ⟨h, -⟩ | ⟨-, h⟩⟩
    · exact Or.inl (h.symm.trans he)
    · exact Or.inr ⟨h, ho⟩
    · rw [he] at h
      cases h
  rcases h with ⟨i, c, n, hf, hn, he⟩ | ⟨i, p, f, x, hm, he⟩
  · have hf₀ : Founded H s i c n := by
      obtain ⟨th, hi, hev⟩ := hdid i _ he hf.inserted
      obtain ⟨th', hi', hg⟩ := hs.grows hi
      have hop : th.op = .issue c := hg.op.symm.trans (OpAt.unique ⟨th', hi', rfl⟩ hf.opAt)
      exact ⟨⟨th, hi, hop⟩, hf.mints, th, hi, hev⟩
    rcases hended i he with he₀ | ⟨hl, ho⟩
    · exact Or.inl (Or.inl ⟨i, c, n, hf₀, hn, he₀⟩)
    · exact Or.inr ⟨i, hl, ho, Or.inl ⟨c, n, hf₀, hn⟩⟩
  · have hm₀ := hdid i _ he hm
    rcases hended i he with he₀ | ⟨hl, ho⟩
    · exact Or.inl (Or.inr ⟨i, p, f, x, hm₀, he₀⟩)
    · exact Or.inr ⟨i, hl, ho, Or.inr ⟨p, f, x, hm₀⟩⟩

/-! ### The family of a version -/

/-- **With fresh draws, the versions under a selector are of one record.** -/
theorem minted_unique (hr : ((engines H postgres).under FreshDraws).Reachable s) {sel : Str}
    {r r' : TokenRecord} (h : Minted s sel r) (h' : Minted s sel r') : minted r = minted r' := by
  obtain ⟨i, n, hi, rfl, he⟩ := h
  obtain ⟨j, n', hj, hn, he'⟩ := h'
  obtain ⟨-, rfl⟩ := inserted_unique hr hi hj hn.symm
  rw [he, he']

theorem family_unique (hr : ((engines H postgres).under FreshDraws).Reachable s) {sel : Str}
    {r r' : TokenRecord} (h : Minted s sel r) (h' : Minted s sel r') : r.familyId = r'.familyId :=
  (congrArg TokenRecord.familyId (minted_unique hr h h') :)

/-- **A rotation stays in the family.** -/
theorem family_of_marked (hr : ((engines H postgres).under FreshDraws).Reachable s) {k : ℕ} {p q : Str}
    {f : TokenStatus} {x : ℤ} (hm : Marked s k p f x q) {a b : TokenRecord} (ha : Minted s p a)
    (hb : Minted s q b) : b.familyId = a.familyId := by
  obtain ⟨c, r, n, tr, hw, rfl, rfl⟩ := won_of_marked hr hm
  obtain ⟨sel, pepper, -, hfirst⟩ := hw.ticket.first
  have hread := (versions hr).found k sel r (hw.did _ (hfirst.subset List.mem_cons_self))
  obtain rfl := hread.selector
  rw [family_unique hr hb ⟨k, n, hw.inserted, rfl, rfl⟩, family_unique hr ha hread]
  exact (Follows.of_mints hw.mints).familyId

/-! ### What a statement has still to come to -/

/-- **The statement of call `i` has still to come to every published record of the family that is not
revoked, or holds it revoked**; once it is answered, it holds them all. -/
structure Sweeping (H : HmacSha256) (i : ℕ) (c : IssueCall) (s : PoolState RefreshTokens) : Prop where
  founded : ∃ j n, Founded H s j c n ∧ s.shared.ended j = some .committed
  running : ∀ st, s.shared.running i = some st → st.call = .revokeFamily c.draw.familyId →
    ∀ sel r, Published H s sel → s.shared.committed.get sel = some r → r.familyId = c.draw.familyId →
      r.status ≠ .revoked →
      sel ∈ st.todo ∨ ∃ r', s.shared.dirty.get sel = some (i, r') ∧ r'.status = .revoked
  done : ∀ rep, s.Did i ⟨.revokeFamily c.draw.familyId, rep⟩ → s.shared.ended i ≠ some .rolledBack →
    ∀ sel r, Published H s sel → s.shared.committed.get sel = some r → r.familyId = c.draw.familyId →
      r.status ≠ .revoked → ∃ r', s.shared.dirty.get sel = some (i, r') ∧ r'.status = .revoked

/-- **Where a published record of the family that is not revoked comes from**: it was there before, or
the rotation of another has been committed. -/
theorem unrevoked_back (hr : ((engines H postgres).under (Deployed H)).Reachable s)
    (hs : ((engines H postgres).under (Deployed H)).step s l s') {j : ℕ} {c : IssueCall}
    {n : TokenRecord} (hfd : Founded H s j c n) (hj : s.shared.ended j = some .committed) {sel : Str}
    {r' : TokenRecord} (hp : Published H s' sel) (hc' : s'.shared.committed.get sel = some r')
    (hf : r'.familyId = c.draw.familyId) (hne : r'.status ≠ .revoked) :
    (∃ r, Published H s sel ∧ s.shared.committed.get sel = some r ∧ r.familyId = c.draw.familyId ∧
      r.status ≠ .revoked) ∨
    ∃ k p f x r, l = .env (.commit k) ∧ Marked s k p f x sel ∧ s.shared.ended k = none ∧
      Published H s p ∧ s.shared.committed.get p = some r ∧ r.familyId = c.draw.familyId ∧
      r.status ≠ .revoked := by
  have hr' := hr.step hs
  have hfr' := fresh_of_deployed hr'
  have hV := versions hr
  have hV' := versions hr'
  have hm' := hV'.committed sel r' hc'
  -- the row of a record that was published before
  have hold : Published H s sel → ∃ r, Published H s sel ∧ s.shared.committed.get sel = some r ∧
      r.familyId = c.draw.familyId ∧ r.status ≠ .revoked := by
    intro hp₀
    obtain ⟨r, hrow⟩ := hp₀.row hr
    have hfam := family_unique hfr' ((hV.committed sel r hrow).mono hs.2) hm'
    refine ⟨r, hp₀, hrow, hfam.trans hf, fun hrev => hne ?_⟩
    rcases committed_step (change hs.2) sel with h | ⟨k, rd, -, -, hd, h⟩
    · rw [h, hrow] at hc'
      rw [← Option.some.inj hc', hrev]
    · obtain rfl := Option.some.inj (h.symm.trans hc')
      exact (hV.dirty sel k rd hd).2.2 r hrow hrev
  rcases published_back hs.2 hp with hp₀ | ⟨k, rfl, hk, ⟨c', n', hfd', hsel⟩ | ⟨p, f, x, hm⟩⟩
  · exact Or.inl (hold hp₀)
  · -- another login does not start the family
    have hfam := family_unique hfr' hm' ⟨k, n', (hfd'.mono hs.2).inserted, hsel, rfl⟩
    obtain ⟨rfl, -⟩ := founded_unique (fresh_of_deployed hr) hfd.opAt hfd'.opAt
      (hf.symm.trans (hfam.trans (OfFamily.of_mints hfd'.mints).family))
    rw [hk] at hj
    cases hj
  · have hp₀ := published_of_marked hr hm
    obtain ⟨r, hrow⟩ := hp₀.row hr
    have hfam := family_of_marked hfr' (did_mono hm hs.2) ((hV.committed p r hrow).mono hs.2) hm'
    refine Or.inr ⟨k, p, f, x, r, rfl, hm, hk, hp₀, hrow, hfam.symm.trans hf, fun hrev => ?_⟩
    obtain ⟨rd, hd, hrot⟩ := (locks hr).marked k p f x sel hm hk
    cases hrot.symm.trans ((hV.dirty p k rd hd).2.2 r hrow hrev)

/-- **A transaction that holds a row revoked holds it so until it ends.** -/
theorem revoked_held {G : PoolState RefreshTokens → PoolLabel End → Prop}
    (hr : ((engines H postgres).under G).Reachable s) (hs : Step (code H) postgres s l s') {sel : Str}
    {r : TokenRecord} (hd : s.shared.dirty.get sel = some (i, r)) (hrev : r.status = .revoked) :
    s'.shared.dirty.get sel = some (i, r) ∨ l = .env (.commit i) ∨ l = .env (.rollback i) := by
  rcases held_step (change hs) hd with h | ⟨r', -, hw⟩ | h
  · exact Or.inl h
  · exact absurd hrev ((hw.spec hr (versions hr) hs).2.2 r (Db.seen_own hd))
  · exact Or.inr h

/-- A row that a transaction sees revoked, and that is not committed so, is its own. -/
theorem held_of_seen {sel : Str} {r r' : TokenRecord} (h : s.shared.seen i sel = some r')
    (hrev : r'.status = .revoked) (hc : s.shared.committed.get sel = some r)
    (hne : r.status ≠ .revoked) : s.shared.dirty.get sel = some (i, r') := by
  rcases Db.seen_cases h with hd | ⟨hc', -⟩
  · exact hd
  · rw [Option.some.inj (hc.symm.trans hc')] at hne
    exact absurd hrev hne

/-- **A step inside the statement, or one that no rotation overtakes, keeps it so.** -/
theorem Sweeping.running_step {c : IssueCall} (hS : Sweeping H i c s)
    (hr : ((engines H postgres).under (Deployed H)).Reachable s)
    (hs : ((engines H postgres).under (Orderly H i c.draw.familyId)).step s l s') :
    ∀ st, s'.shared.running i = some st → st.call = .revokeFamily c.draw.familyId →
      ∀ sel r, Published H s' sel → s'.shared.committed.get sel = some r →
        r.familyId = c.draw.familyId → r.status ≠ .revoked →
        sel ∈ st.todo ∨ ∃ r', s'.shared.dirty.get sel = some (i, r') ∧ r'.status = .revoked := by
  obtain ⟨j, n, hfd, hj⟩ := hS.founded
  have hfr := fresh_of_deployed hr
  have hV := versions hr
  have hch := change hs.2
  intro st' hst' hcall sel r' hp' hc' hf' hne'
  have hback := unrevoked_back hr ⟨hs.1.deployed, hs.2⟩ hfd hj hp' hc' hf' hne'
  have hwork : l = .work i → ∃ r, Published H s sel ∧ s.shared.committed.get sel = some r ∧
      r.familyId = c.draw.familyId ∧ r.status ≠ .revoked := by
    rintro rfl
    rcases hback with h | ⟨k, p, f, x, r, hl, -⟩
    · exact h
    · cases hl
  -- what the transaction holds revoked, it goes on to hold
  have hheld : ∀ r, s.shared.dirty.get sel = some (i, r) → r.status = .revoked →
      s.shared.ended i = none → s'.shared.ended i = none →
      ∃ r', s'.shared.dirty.get sel = some (i, r') ∧ r'.status = .revoked := by
    intro r hd hrev he he'
    rcases revoked_held hr hs.2 hd hrev with h | h
    · exact ⟨r, h, hrev⟩
    · exact absurd he' (ended_of_end hch he h)
  have hcovers : ∀ r, s.shared.committed.get sel = some r → r.familyId = c.draw.familyId →
      ∀ r₁, s.shared.seen i sel = some r₁ → Covers (.revokeFamily c.draw.familyId) r₁ := by
    intro r hrow hf r₁ hr₁
    exact (family_unique hfr (hV.seen hr₁) (hV.committed sel r hrow)).trans hf
  have hopen' := (locks (hr.step ⟨hs.1.deployed, hs.2⟩)).opened i st' hst'
  cases ran hch hst' with
  | kept hl h he =>
    rcases hback with ⟨r, hp, hrow, hf, hne⟩ | ⟨k, p, f, x, r, rfl, hm, -, -, hrow, hf, -⟩
    · rcases hS.running st' h hcall sel r hp hrow hf hne with hin | ⟨r₁, hd, hrev⟩
      · exact Or.inl hin
      · exact Or.inr (hheld r₁ hd hrev ((locks hr).opened i st' h) hopen')
    · exact absurd hf (hs.1.behind k p f x sel st' r rfl hm h hcall hrow)
  | @started q u hq hi hd h =>
    obtain ⟨r, hp, hrow, hf, hne⟩ := hwork rfl
    subst h
    have hcall : q = .revokeFamily c.draw.familyId := hcall
    subst hcall
    obtain ⟨r₁, hr₁, -⟩ := hV.sees hrow i
    have hcond := (update_bulk hq (hcovers r hrow hf r₁ hr₁)).1
    by_cases hrev : r₁.status = .revoked
    · exact Or.inr ⟨r₁, by rw [hd]; exact held_of_seen hr₁ hrev hrow hne, hrev⟩
    · exact Or.inl (Db.mem_candidates hrow hr₁ (hcond.mpr hrev))
  | @skipped st u k hq he hst hc hd h =>
    obtain ⟨r, hp, hrow, hf, hne⟩ := hwork rfl
    subst h
    have hcall₀ : st.call = .revokeFamily c.draw.familyId := hcall
    rcases hS.running st hst hcall₀ sel r hp hrow hf hne with hin | ⟨r₁, hd₁, hrev⟩
    · rcases eq_or_ne sel k with rfl | hk
      · -- the row it comes to and does not change is revoked
        obtain ⟨r₁, hr₁, -⟩ := hV.sees hrow i
        rw [hcall₀] at hq
        have hcond := (update_bulk hq (hcovers r hrow hf r₁ hr₁)).1
        have hrev : r₁.status = .revoked := by
          by_contra hrev
          rw [hc r₁ hr₁] at hcond
          cases hcond.mpr hrev
        exact Or.inr ⟨r₁, by rw [hd]; exact held_of_seen hr₁ hrev hrow hne, hrev⟩
      · exact Or.inl (Statement.mem_past hin hk)
    · exact Or.inr ⟨r₁, by rw [hd]; exact hd₁, hrev⟩
  | @changed st u k r₀ hq he hst hr₀ hc hd h =>
    obtain ⟨r, hp, hrow, hf, hne⟩ := hwork rfl
    subst h
    have hcall₀ : st.call = .revokeFamily c.draw.familyId := hcall
    rcases hS.running st hst hcall₀ sel r hp hrow hf hne with hin | ⟨r₁, hd₁, hrev⟩
    · rcases eq_or_ne sel k with rfl | hk
      · rw [hcall₀] at hq
        exact Or.inr ⟨_, hd, (update_bulk hq (hcovers r hrow hf r₀ hr₀)).2⟩
      · exact Or.inl (Statement.mem_past hin hk)
    · exact Or.inr (hheld r₁ hd₁ hrev he hopen')

/-- What the statement has taken stays so once it is answered. -/
theorem Sweeping.done_step {c : IssueCall} (hS : Sweeping H i c s)
    (hr : ((engines H postgres).under (Deployed H)).Reachable s)
    (hs : ((engines H postgres).under (Deployed H)).step s l s') :
    ∀ rep, s'.Did i ⟨.revokeFamily c.draw.familyId, rep⟩ → s'.shared.ended i ≠ some .rolledBack →
      ∀ sel r, Published H s' sel → s'.shared.committed.get sel = some r →
        r.familyId = c.draw.familyId → r.status ≠ .revoked →
        ∃ r', s'.shared.dirty.get sel = some (i, r') ∧ r'.status = .revoked := by
  obtain ⟨j, n, hfd, hj⟩ := hS.founded
  have hch := change hs.2
  intro rep hd' he' sel r' hp' hc' hf' hne'
  have hback := unrevoked_back hr hs hfd hj hp' hc' hf' hne'
  rcases hs.2.did_iff.mp hd' with hold | rfl
  · have he : s.shared.ended i ≠ some .rolledBack := fun h => he' (ended_mono hch h)
    rcases hback with ⟨r, hp, hrow, hf, hne⟩ | ⟨k, p, f, x, r, -, hm, hk, hp, hrow, hf, hne⟩
    · obtain ⟨r₁, hd, hrev⟩ := hS.done rep hold he sel r hp hrow hf hne
      have hopen := ((versions hr).dirty sel i r₁ hd).2.1
      rcases revoked_held hr hs.2 hd hrev with h | rfl | rfl
      · exact ⟨r₁, h, hrev⟩
      · -- what it has revoked is committed
        rw [commit_step hch hopen, Db.get_commit hopen, Db.seen_own hd] at hc'
        rw [← Option.some.inj hc'] at hne'
        exact absurd hrev hne'
      · rw [rollback_step hch hopen, Db.rollback, if_pos hopen, Db.ended_close, if_pos rfl] at he'
        exact absurd rfl he'
    · -- the rotation that is committed holds the row it is of
      obtain ⟨r₁, hd, hrev⟩ := hS.done rep hold he p r hp hrow hf hne
      obtain ⟨r₂, hd₂, hrot⟩ := (locks hr).marked k p f x sel hm hk
      obtain ⟨rfl, rfl⟩ := Prod.mk.inj (Option.some.inj (hd.symm.trans hd₂))
      cases hrev.symm.trans hrot
  · rcases hback with ⟨r, hp, hrow, hf, hne⟩ | ⟨k, p, f, x, r, hl, -⟩
    · generalize hl : (Label.answer i ⟨.revokeFamily c.draw.familyId, rep⟩ : PoolLabel End) = l at hch
      cases hch with
      | @finished k st rep' he hst htodo hrep h =>
        obtain ⟨rfl, hev⟩ := Label.answer.inj hl
        have hcall := (Event.mk.inj hev).1.symm
        rcases hS.running st hst hcall sel r hp hrow hf hne with hin | ⟨r₁, hd, hrev⟩
        · rw [htodo] at hin
          cases hin
        · exact ⟨r₁, by rw [h]; exact hd, hrev⟩
      | selected | inserted =>
        obtain ⟨-, hev⟩ := Label.answer.inj hl
        cases hev
      | invoked | stopped | started | skipped | changed | committed | rolledBack | late => cases hl
    · cases hl

theorem Sweeping.step {c : IssueCall} (hS : Sweeping H i c s)
    (hr : ((engines H postgres).under (Orderly H i c.draw.familyId)).Reachable s)
    (hs : ((engines H postgres).under (Orderly H i c.draw.familyId)).step s l s') :
    Sweeping H i c s' where
  founded := by
    obtain ⟨j, n, hfd, hj⟩ := hS.founded
    exact ⟨j, n, hfd.mono hs.2, ended_mono (change hs.2) hj⟩
  running := hS.running_step (deployed_of_orderly hr) hs
  done := hS.done_step (deployed_of_orderly hr) ⟨hs.1.deployed, hs.2⟩

/-- A statement is that of a call. -/
theorem running_thread {G : PoolState RefreshTokens → PoolLabel End → Prop}
    (h : ((engines H postgres).under G).Reachable s) :
    ∀ i, s.threads[i]? = none → s.shared.running i = none := by
  refine h.invariant (I := fun s => ∀ i, s.threads[i]? = none → s.shared.running i = none) ?_ ?_
  · intro s hs i _
    rw [show s = ⟨postgres.start, []⟩ from hs]
    rfl
  · intro s l s' _ ih hs i hi
    have hi₀ : s.threads[i]? = none := by
      by_contra hne
      obtain ⟨th, hth⟩ := Option.ne_none_iff_exists'.mp hne
      obtain ⟨th', hth', -⟩ := hs.2.grows hth
      rw [hi] at hth'
      cases hth'
    by_contra hne
    obtain ⟨st, hst⟩ := Option.ne_none_iff_exists'.mp hne
    have hl : l ≠ .work i := by
      rintro rfl
      cases hs.2 with
      | work hth hm hp hw =>
        rw [hi₀] at hth
        cases hth
    cases ran (change hs.2) hst with
    | kept _ h he =>
      rw [ih i hi₀] at h
      cases h
    | started | skipped | changed => exact hl rfl

theorem sweeping_run {c : IssueCall} {j : ℕ} {n : TokenRecord}
    (hr : ((engines H postgres).under (Orderly H i c.draw.familyId)).Reachable s)
    (hi : s.threads[i]? = none) (hfd : Founded H s j c n) (hj : s.shared.ended j = some .committed)
    (hrun : ((engines H postgres).under (Orderly H i c.draw.familyId)).Run s t) : Sweeping H i c t := by
  refine hrun.invariant (I := fun u => Sweeping H i c u) hr ⟨⟨j, n, hfd, hj⟩, ?_, ?_⟩
    fun u l u' hu hS hs => hS.step hu hs
  · intro st hst
    rw [running_thread hr i hi] at hst
    cases hst
  · rintro rep ⟨th, hth, -⟩
    rw [hi] at hth
    cases hth

/-! ### Revocation is final unless it is overtaken -/

/-- **Revocation is final**, in the runs whose steps meet `G`: once a revocation of the family that call
`i` makes is committed, a record of the family whose token was returned is not active. The login is
committed before the call. -/
def RevocationFinal (H : HmacSha256) (G : ℕ → Str → PoolState RefreshTokens → PoolLabel End → Prop) :
    Prop :=
  ∀ (i : ℕ) (s t : PoolState RefreshTokens) (j : ℕ) (c : IssueCall) (n : TokenRecord) (count : ℕ),
    ((engines H postgres).under (G i c.draw.familyId)).Reachable s → s.threads[i]? = none →
    Founded H s j c n → s.shared.ended j = some .committed →
    ((engines H postgres).under (G i c.draw.familyId)).Run s t →
    t.Did i ⟨.revokeFamily c.draw.familyId, count⟩ → t.shared.ended i = some .committed →
    ∀ sel r, t.shared.committed.get sel = some r → r.familyId = c.draw.familyId →
      Returned t sel → r.status ≠ .active

/-- Whether the step is one of a wrapped call. -/
def wrappedCheck (s : PoolState RefreshTokens) (l : PoolLabel End) : Bool :=
  match l with
  | .env (.commit i) => s.threads[i]?.any fun th => decide (th.mode = .running) && done th.prog
  | .stop i .returned => s.shared.ended i == some .committed
  | _ => true

theorem wrapped_of_check {s : PoolState RefreshTokens} {l : PoolLabel End}
    (h : wrappedCheck s l = true) : Wrapped s l where
  commit := by
    rintro i rfl
    have h : (s.threads[i]?.any fun th => decide (th.mode = .running) && done th.prog) = true := h
    obtain ⟨th, hi, hth⟩ := (Option.any_eq_true _ _).mp h
    rw [Bool.and_eq_true, decide_eq_true_eq] at hth
    obtain ⟨x, hx⟩ := ret_of_done hth.2
    exact ⟨th, x, hi, hth.1, hx⟩
  returned := by
    rintro i rfl
    exact eq_of_beq h

def deployedCheck (s : PoolState RefreshTokens) (l : PoolLabel End) : Bool :=
  honestCheck sampleHmac s l && wrappedCheck s l

theorem deployed_of_check {s : PoolState RefreshTokens} {l : PoolLabel End}
    (h : deployedCheck s l = true) : Deployed sampleHmac s l := by
  rw [deployedCheck, Bool.and_eq_true] at h
  exact ⟨honest_of_check h.1, wrapped_of_check h.2⟩

/-- A schedule played against the database. -/
def transacted (guard : PoolState RefreshTokens → PoolLabel End → Bool) (s : PoolState RefreshTokens)
    (xs : List (Act Operation End)) : Option (PoolState RefreshTokens) :=
  play (code sampleHmac) postgres nextWork guard s xs

theorem transacted_run {guard : PoolState RefreshTokens → PoolLabel End → Bool}
    {G : PoolState RefreshTokens → PoolLabel End → Prop} (hG : ∀ s l, guard s l = true → G s l)
    {s : PoolState RefreshTokens} {xs : List (Act Operation End)} (h : (transacted guard s xs).isSome) :
    ((engines sampleHmac postgres).under G).Run s ((transacted guard s xs).get h) :=
  play_run (fun _ _ _ _ hw => works_of_nextWork hw) hG (Option.some_get h).symm

/-- A login that is committed. -/
def opened : PoolState RefreshTokens :=
  (transacted deployedCheck ⟨postgres.start, []⟩
    [.invoke (sampleIssue 0 0), .go 0, .env (.commit 0), .stop 0 .returned]).get rfl

/-- A refresh has inserted its successor and rotates. The revocation of the family takes the rows that are
committed, and waits. The refresh commits and returns; the revocation goes on, and commits. -/
def overtaken : PoolState RefreshTokens :=
  (transacted deployedCheck opened
    [.invoke (sampleRefresh 0 0 1 1010), .go 1, .go 1, .work 1, .work 1, .go 1,
      .invoke (.revokeFamily (sampleRow 0 0).familyId), .work 2,
      .env (.commit 1), .stop 1 .returned,
      .work 2, .go 2, .env (.commit 2), .stop 2 .returned]).get rfl

/-- **A revocation may be overtaken**: the token of the successor was returned, and its row is active. -/
theorem commit_overtakes : ¬ RevocationFinal sampleHmac fun _ _ => Deployed sampleHmac := by
  intro h
  have hs : ((engines sampleHmac postgres).under (Deployed sampleHmac)).Reachable opened :=
    System.Reachable.run (.init rfl) (transacted_run (fun _ _ hg => deployed_of_check hg) rfl)
  have hrun : ((engines sampleHmac postgres).under (Deployed sampleHmac)).Run opened overtaken :=
    transacted_run (fun _ _ hg => deployed_of_check hg) rfl
  obtain ⟨r, hrow, hf, ha⟩ : ∃ r, overtaken.shared.committed.get (sampleDraw 1).selectorText = some r ∧
      r.familyId = (sampleLogin 0 0).draw.familyId ∧ r.status = .active := ⟨_, rfl, rfl, rfl⟩
  exact h 2 _ _ 0 _ _ 1 hs rfl (founded_sample rfl rfl) rfl hrun (did_of_read (k := 0) rfl) rfl _ r hrow hf
    (returned_of_check rfl) ha

/-- **Revocation is final unless it is overtaken**: in every run of wrapped calls with fresh draws in
which no refresh proves a token that was not returned, and no rotation of the family commits while the
statement is running. -/
theorem final_unless_overtaken (H : HmacSha256) : RevocationFinal H (Orderly H) := by
  intro i s t j c n count hs hi hfd hj hrun hd he sel r hrow hf hret ha
  have hS := sweeping_run hs hi hfd hj hrun
  have ht := deployed_of_orderly (hs.run hrun)
  have hne : r.status ≠ .revoked := by
    rw [ha]
    exact fun h => nomatch h
  obtain ⟨r', hd', -⟩ := hS.done count hd (by rw [he]; exact fun h => nomatch h) sel r
    (published_of_returned ht hret) hrow hf hne
  -- a transaction that is committed holds no version any more
  rw [((versions ht).dirty sel i r' hd').2.1] at he
  cases he

/-- Whether the step does not overtake the statement of call `i`. -/
def notOvertakenCheck (i : ℕ) (s : PoolState RefreshTokens) (l : PoolLabel End) : Bool :=
  match l with
  | .env (.commit _) => (s.shared.running i).isNone
  | _ => true

theorem notOvertaken_of_check {i : ℕ} {familyId : Str} {s : PoolState RefreshTokens}
    {l : PoolLabel End} (h : notOvertakenCheck i s l = true) : NotOvertaken i familyId s l := by
  rintro k p f x q st r rfl - hst
  have h : (s.shared.running i).isNone = true := h
  rw [hst] at h
  cases h

/-- The refresh has committed before the statement starts, which takes both rows. -/
def behind : PoolState RefreshTokens :=
  (transacted (fun s l => deployedCheck s l && notOvertakenCheck 2 s l) opened
    [.invoke (sampleRefresh 0 0 1 1010), .go 1, .go 1, .work 1, .work 1, .go 1,
      .invoke (.revokeFamily (sampleRow 0 0).familyId),
      .env (.commit 1), .stop 1 .returned,
      .work 2, .work 2, .work 2, .go 2, .env (.commit 2), .stop 2 .returned]).get rfl

theorem final_unless_overtaken_sample : Returned behind (sampleDraw 1).selectorText ∧
    ∃ r, behind.shared.committed.get (sampleDraw 1).selectorText = some r ∧ r.status ≠ .active := by
  have hG : ∀ s l, (deployedCheck s l && notOvertakenCheck 2 s l) = true →
      Orderly sampleHmac 2 (sampleLogin 0 0).draw.familyId s l := by
    intro s l h
    rw [Bool.and_eq_true] at h
    exact ⟨deployed_of_check h.1, notOvertaken_of_check h.2⟩
  have hopened : (transacted (fun s l => deployedCheck s l && notOvertakenCheck 2 s l)
      ⟨postgres.start, []⟩ [.invoke (sampleIssue 0 0), .go 0, .env (.commit 0),
        .stop 0 .returned]).isSome = true := rfl
  have hs : ((engines sampleHmac postgres).under
      (Orderly sampleHmac 2 (sampleLogin 0 0).draw.familyId)).Reachable opened :=
    System.Reachable.run (.init rfl) (transacted_run hG hopened)
  have hrun : ((engines sampleHmac postgres).under
      (Orderly sampleHmac 2 (sampleLogin 0 0).draw.familyId)).Run opened behind := transacted_run hG rfl
  obtain ⟨r, hrow, hf⟩ : ∃ r, behind.shared.committed.get (sampleDraw 1).selectorText = some r ∧
      r.familyId = (sampleLogin 0 0).draw.familyId := ⟨_, rfl, rfl⟩
  have hret : Returned behind (sampleDraw 1).selectorText := returned_of_check rfl
  exact ⟨hret, r, hrow, final_unless_overtaken sampleHmac 2 _ _ 0 _ _ 2 hs rfl (founded_sample rfl rfl) rfl hrun
    (did_of_read (k := 0) rfl) rfl _ r hrow hf hret⟩

end NebulaToken.Safety.TransactionalRevocation
