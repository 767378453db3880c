import NebulaToken.Runs.Execution
import NebulaToken.Runs.Links
import NebulaToken.Runs.Sessions

/-! # The engines give out lines of tokens

Any engines over a store with atomic bulk revocations do what sessions do that give out one token after
another: a login starts a session, a rotation exchanges its token, a grace retry withdraws the successor
and replaces it, a bulk revocation or a collection closes sessions, and no other step matters.

* `represents_step`, `refines_sessions`: the simulation;
* `lines`: what it says of the records. -/

namespace NebulaToken.Safety.Sessions

open NebulaToken.Lib.Pool NebulaToken.Lib.Transition NebulaToken.Lib.Succession
open NebulaToken.Token.Unicode NebulaToken.Token.Wire NebulaToken.Engine.Records
open NebulaToken.Engine.Operations NebulaToken.Runs.Calls NebulaToken.Runs.History
open NebulaToken.Runs.Provenance NebulaToken.Runs.Assumptions NebulaToken.Runs.Families
open NebulaToken.Runs.Lineage NebulaToken.Runs.Unforked NebulaToken.Runs.Sessions
open NebulaToken.Runs.Links NebulaToken.Runs.Execution NebulaToken.Store.Contract
open NebulaToken.Store.Memory

variable {σ Env : Type}

/-- **The book of the families**: how they stand, and the records they were granted. -/
structure Represents {svc : StoreService σ Env} (H : HmacSha256) (C : StoreContract svc)
    (s : PoolState σ) (b : Book Str Str ℕ) : Prop where
  unborn : ∀ f, b.standing f = .unborn ↔ ¬ Begun H s f
  held : ∀ f sel, b.standing f = .held sel ↔ Held H C s f sel
  between : ∀ f i, b.standing f = .between i ↔ Between H C s f i
  line : ∀ f sel, sel ∈ b.line f ↔ GivenOut H s f sel

/-- The steps behind each move. -/
inductive Via : PoolLabel Env → Move Str Str ℕ → Prop
  | login {i : ℕ} {n : TokenRecord} : Via (.answer i ⟨.insert n, ()⟩) (.start n.familyId n.selector)
  | rotation {i : ℕ} {f p q : Str} {t : ℤ} :
    Via (.answer i ⟨.markRotated p .active t q, true⟩) (.exchange f p q)
  | retry {i : ℕ} {f p q : Str} {t : ℤ} :
    Via (.answer i ⟨.markRotated p .rotated t q, true⟩) (.replace f i q)
  | displacement {i : ℕ} {f d : Str} :
    Via (.answer i ⟨.revokeIfActive d, true⟩) (.withdraw f d i)
  | ending {l : PoolLabel Env} {P : Str → Prop} (h : Ends l) : Via l (.close P)

section Facts

variable {H : HmacSha256} {svc : StoreService σ Env} {C : StoreContract svc} {s s' : PoolState σ}
  {l : PoolLabel Env} {b : Book Str Str ℕ}

theorem Represents.same (hb : Represents H C s b) (h : ∀ f, Same H C s s' f) :
    Represents H C s' b where
  unborn f := (hb.unborn f).trans (not_congr (h f).begun).symm
  held f sel := (hb.held f sel).trans ((h f).held sel).symm
  between f i := (hb.between f i).trans ((h f).between i).symm
  line f sel := (hb.line f sel).trans ((h f).given sel).symm

/-- The book after a token was given out. -/
theorem Represents.grant (hr' : ((engines H svc).under (Honest H)).Reachable s')
    (hb : Represents H C s b) {f sel : Str} (h : ∀ g, g ≠ f → Same H C s s' g)
    (hheld : Held H C s' f sel) (hgiven : ∀ x, GivenOut H s' f x ↔ x = sel ∨ GivenOut H s f x) :
    Represents H C s' (b.grant f sel) where
  unborn g := by
    rcases eq_or_ne g f with rfl | hg
    · simp [begun_of_live hr' hheld]
    · rw [b.grant_standing_ne hg]
      exact (hb.unborn g).trans (not_congr (h g hg).begun).symm
  held g x := by
    rcases eq_or_ne g f with rfl | hg
    · rw [b.grant_standing_self, Standing.held.injEq]
      exact ⟨fun he => he ▸ hheld, fun hx => held_unique C hr' hheld hx⟩
    · rw [b.grant_standing_ne hg]
      exact (hb.held g x).trans ((h g hg).held x).symm
  between g i := by
    rcases eq_or_ne g f with rfl | hg
    · simp [not_between_of_held C hr' hheld]
    · rw [b.grant_standing_ne hg]
      exact (hb.between g i).trans ((h g hg).between i).symm
  line g x := by
    rcases eq_or_ne g f with rfl | hg
    · rw [b.grant_line_self, List.mem_cons, hb.line, hgiven]
    · rw [b.grant_line_ne hg]
      exact (hb.line g x).trans ((h g hg).given x).symm

/-- The book after the token in use was withdrawn. -/
theorem Represents.suspend (hr' : ((engines H svc).under (Honest H)).Reachable s')
    (hb : Represents H C s b) {f : Str} {i : ℕ} (h : ∀ g, g ≠ f → Same H C s s' g)
    (hbet : Between H C s' f i) (hgiven : ∀ x, GivenOut H s' f x ↔ GivenOut H s f x) :
    Represents H C s' (b.suspend f i) where
  unborn g := by
    rcases eq_or_ne g f with rfl | hg
    · simp [begun_of_live hr' hbet.live]
    · rw [b.suspend_standing_ne hg]
      exact (hb.unborn g).trans (not_congr (h g hg).begun).symm
  held g x := by
    rcases eq_or_ne g f with rfl | hg
    · rw [b.suspend_standing_self]
      refine ⟨fun he => ?_, fun hx => absurd hbet (not_between_of_held C hr' hx)⟩
      cases he
    · rw [b.suspend_standing_ne hg]
      exact (hb.held g x).trans ((h g hg).held x).symm
  between g j := by
    rcases eq_or_ne g f with rfl | hg
    · rw [b.suspend_standing_self, Standing.between.injEq]
      exact ⟨fun he => he ▸ hbet, fun hj => between_unique C hr' hbet hj⟩
    · rw [b.suspend_standing_ne hg]
      exact (hb.between g j).trans ((h g hg).between j).symm
  line g x := by
    rw [b.suspend_line]
    rcases eq_or_ne g f with rfl | hg
    · exact (hb.line g x).trans (hgiven x).symm
    · exact (hb.line g x).trans ((h g hg).given x).symm

/-- The families that nothing keeps alive. -/
def Lapsed (H : HmacSha256) (C : StoreContract svc) (s : PoolState σ) (f : Str) : Prop :=
  (∀ sel, ¬ Held H C s f sel) ∧ ∀ i, ¬ Between H C s f i

/-- The book after a step that gives out nothing and ends sessions. -/
theorem Represents.close (hr : ((engines H svc).under (Honest H)).Reachable s)
    (hs : ((engines H svc).under (Honest H)).step s l s') (hb : Represents H C s b) (hl : Ends l) :
    Represents H C s' (b.closed (Lapsed H C s')) := by
  have hno : ∀ i n, l ≠ .answer i ⟨.insert n, ()⟩ := by
    rintro i n rfl
    cases hl
  have hbegun : ∀ f, Begun H s' f ↔ Begun H s f := by
    refine fun f => ⟨fun h => ?_, fun h => h.mono hs.2⟩
    rcases begun_back hs.2 h with hold | ⟨i, c, n, hlab, -⟩
    · exact hold
    · exact absurd hlab (hno i n)
  have hheld : ∀ f sel, Held H C s' f sel → Held H C s f sel := by
    intro f sel h
    refine (live_back hr hs h).resolve_right fun hg => ?_
    cases hg <;> cases hl
  have hbet : ∀ f i, Between H C s' f i → Between H C s f i := by
    intro f i h
    refine (h.back hr hs).resolve_right ?_
    rintro ⟨d, r, rfl, -⟩
    cases hl
  refine ⟨fun f => ?_, fun f sel => ?_, fun f i => ?_, fun f sel => ?_⟩
  · rw [b.closed_standing_unborn, hb.unborn, hbegun]
  · rw [b.closed_standing_held, hb.held]
    refine ⟨fun h => ?_, fun h => ⟨fun hp => hp.1 sel h, hheld f sel h⟩⟩
    by_contra hne
    refine h.1 ⟨fun x hx => hne ?_, fun i hi => not_between_of_held C hr h.2 (hbet f i hi)⟩
    rw [held_unique C hr h.2 (hheld f x hx)]
    exact hx
  · rw [b.closed_standing_between, hb.between]
    refine ⟨fun h => ?_, fun h => ⟨fun hp => hp.2 i h, hbet f i h⟩⟩
    by_contra hne
    refine h.1 ⟨fun x hx => not_between_of_held C hr (hheld f x hx) h.2, fun j hj => hne ?_⟩
    rw [between_unique C hr h.2 (hbet f j hj)]
    exact hj
  · rw [b.closed_line, hb.line]
    refine ⟨fun h => h.mono hs.2, fun h => ?_⟩
    rcases givenOut_back hr hs h with hold | ⟨i, c, n, hlab, -⟩ | ⟨i, p, f, t, rfl⟩
    · exact hold
    · exact absurd hlab (hno i n)
    · cases hl

variable {A : AtomicContract svc}

/-- **A step behind no move changes nothing.** -/
theorem Represents.quiet (hr : ((engines H svc).under (Honest H)).Reachable s)
    (hs : ((engines H svc).under (Honest H)).step s l s') (hb : Represents H A.toStoreContract s b)
    (hno : ∀ m, ¬ Via l m) : Represents H A.toStoreContract s' b := by
  refine hb.same fun f => same_of hr hs (fun h => hno (.close fun _ => False) (.ending h)) ?_ ?_ ?_
  · rintro i c n rfl
    exact absurd .login (hno _)
  · rintro i p f t q row rfl
    obtain ⟨th, c, r, n, tr, row₀, -, -, ht, -⟩ := mark_step (C := A.toStoreContract) hr hs.2
    cases f with
    | active => exact absurd .rotation (hno (.exchange p p q))
    | rotated => exact absurd .retry (hno (.replace p i q))
    | revoked => exact absurd rfl ht.not_revoked
  · rintro i d row rfl
    exact absurd .displacement (hno (.withdraw d d i))

/-- A login starts a session. -/
theorem start_step (hr : ((engines H svc).under (Honest H)).Reachable s)
    (hb : Represents H A.toStoreContract s b) {i : ℕ} {c : IssueCall} {n : TokenRecord}
    (hs : ((engines H svc).under (Honest H)).step s (.answer i ⟨.insert n, ()⟩) s')
    (hf : Founded H s' i c n) : Lib.Succession.Step b (.start n.familyId n.selector)
      (b.grant n.familyId n.selector) ∧
      Represents H A.toStoreContract s' (b.grant n.familyId n.selector) := by
  have hr' := hr.step hs
  have hfam := (OfFamily.of_mints hf.mints).family
  have hnk := noReinsert_of_honest hr hs i n rfl
  obtain ⟨th, k, -, hc, ha⟩ := callAt_answer hr hs.2
  have hheld : Held H A.toStoreContract s' n.familyId n.selector := by
    refine .row (Or.inl ⟨i, c, n, hf, rfl⟩) ?_ (insert_request hc).mint.1 rfl
    rw [(A.insert ha).2, Function.update_self]
  refine ⟨.start ?_ fun f hmem => ?_, hb.grant hr' ?_ hheld fun x => ⟨fun h => ?_, ?_⟩⟩
  · rw [hb.unborn]
    rintro ⟨j, c', n', hf', hfam'⟩
    exact login_first (fresh hr) ⟨hs.1.fresh, hs.2⟩ hf hf' (hfam'.trans hfam)
  · exact hnk (((hb.line f _).mp hmem).1.known hr)
  · intro g hg
    refine same_of hr hs (fun h => nomatch h) ?_ (fun _ _ _ _ _ _ h => nomatch h)
      fun _ _ _ h => nomatch h
    rintro j c' n' hlab hf' rfl
    cases hlab
    exact hg (OfFamily.of_mints hf'.mints).family.symm
  · rcases givenOut_back hr hs h with hold | ⟨j, c', n', hlab, -, rfl⟩ | ⟨j, p, f, t, hlab⟩
    · exact Or.inr hold
    · cases hlab
      exact Or.inl rfl
    · cases hlab
  · rintro (rfl | h)
    · exact ⟨Or.inl ⟨i, c, n, hf, rfl⟩, n, .of_inserted hf.inserted, rfl⟩
    · exact h.mono hs.2

/-- A successor that is inserted is not given out yet. -/
theorem insert_step (hr : ((engines H svc).under (Honest H)).Reachable s)
    (hb : Represents H A.toStoreContract s b) {i : ℕ} {n : TokenRecord}
    (hs : ((engines H svc).under (Honest H)).step s (.answer i ⟨.insert n, ()⟩) s') :
    Represents H A.toStoreContract s' b ∨ ∃ m b', Via (.answer i ⟨.insert n, ()⟩ : PoolLabel Env) m ∧
      Lib.Succession.Step b m b' ∧ Represents H A.toStoreContract s' b' := by
  by_cases hf : ∃ c, Founded H s' i c n
  · obtain ⟨c, hf⟩ := hf
    obtain ⟨hstep, hrep⟩ := start_step hr hb hs hf
    exact Or.inr ⟨_, _, .login, hstep, hrep⟩
  · refine Or.inl (hb.same fun f => same_of hr hs (fun h => nomatch h) ?_
      (fun _ _ _ _ _ _ h => nomatch h) fun _ _ _ h => nomatch h)
    rintro j c n' hlab hf'
    cases hlab
    exact absurd ⟨c, hf'⟩ hf

/-- A rotation exchanges the token of a session, or replaces the one that its call has withdrawn. -/
theorem rotation_step (hr : ((engines H svc).under (Honest H)).Reachable s)
    (hb : Represents H A.toStoreContract s b) {i : ℕ} {p q : Str} {f : TokenStatus} {t : ℤ}
    (hs : ((engines H svc).under (Honest H)).step s (.answer i ⟨.markRotated p f t q, true⟩) s') :
    ∃ m b', Via (.answer i ⟨.markRotated p f t q, true⟩ : PoolLabel Env) m ∧
      Lib.Succession.Step b m b' ∧ Represents H A.toStoreContract s' b' := by
  have hr' := hr.step hs
  have hK' := knowledge_of_honest A.toStoreContract hr'
  obtain ⟨row, hrow, hst, hg, hng, hheld⟩ := held_of_marked A hr hs
  have hfresh : b.Fresh q := fun g hmem => hng ((hb.line g q).mp hmem).1
  have hrep : Represents H A.toStoreContract s' (b.grant row.familyId q) := by
    refine hb.grant hr' (fun g hgne => ?_) hheld fun x => ⟨fun h => ?_, ?_⟩
    · refine same_of hr hs (fun h => nomatch h) (fun _ _ _ h => nomatch h) ?_ fun _ _ _ h => nomatch h
      rintro j p' f' t' q' row' hlab hrow' rfl
      cases hlab
      obtain rfl := Option.some.inj (hrow.symm.trans hrow')
      exact hgne rfl
    · rcases givenOut_back hr hs h with hold | ⟨j, c', n', hlab, -⟩ | ⟨j, p', f', t', hlab⟩
      · exact Or.inr hold
      · cases hlab
      · cases hlab
        exact Or.inl rfl
    · rintro (rfl | h)
      · cases hheld with
        | @row _ rq hgq hrq hsq hfq => exact ⟨hgq, rq, .of_row hK' hrq, hfq⟩
      · exact h.mono hs.2
  obtain ⟨th, c, r, n, tr, row₀, hi, hop, ht, hn, htr, rfl, rfl, -, hrow₀, -⟩ :=
    mark_step (C := A.toStoreContract) hr hs.2
  obtain rfl := Option.some.inj (hrow.symm.trans hrow₀)
  cases f with
  | active =>
    exact ⟨_, _, .rotation, .exchange ((hb.held _ _).mpr (.row hg hrow hst rfl)) hfresh, hrep⟩
  | rotated =>
    have hd : Displacing H s i r := ⟨th, c, t, tr, hi, hop, ht, Or.inr ⟨n, htr⟩⟩
    have hfam : row.familyId = r.familyId :=
      ((hd.read (knowledge_of_honest A.toStoreContract hr)).2.2 row hrow).familyId
    refine ⟨_, _, .retry, .replace ((hb.between _ i).mpr ?_) hfresh, hrep⟩
    exact ⟨r, row, hd, hfam.symm, hrow, hst⟩
  | revoked => exact absurd rfl ht.not_revoked

/-- **A call that revokes a granted row has displaced it**, and may rotate the row that points to it. -/
theorem between_of_clear (A : AtomicContract svc)
    (hr : ((engines H svc).under (Honest H)).Reachable s) {i : ℕ} {d : Str}
    (hs : ((engines H svc).under (Honest H)).step s (.answer i ⟨.revokeIfActive d, true⟩) s')
    {row : TokenRecord} (hrow : A.look s.shared d = some row) (hgr : Granted H s d) :
    Between H A.toStoreContract s' row.familyId i := by
  have hK := knowledge_of_honest A.toStoreContract hr
  obtain ⟨th, k, hi, hc, ha⟩ := callAt_answer hr hs.2
  obtain ⟨row', hrow', hst, hupd⟩ := A.clear ha
  obtain rfl := Option.some.inj (hrow.symm.trans hrow')
  obtain ⟨th', hi', hop', htr'⟩ := answered hs.2 hi
  generalize hop : th.op = op at hc
  generalize htr : th.trace = tr at hc
  have hd : ∀ ev ∈ tr, s.Did i ev := fun ev hev => did_of_mem hi (htr ▸ hev)
  cases clear_request hc with
  | @displace c r d' sel₀ pepper q t hp hrs hg hact hdev hsel =>
    obtain rfl := hK.found_selector (hd ⟨.findBySelector q, some d'⟩ (by simp))
    obtain rfl := hK.found_selector (hd ⟨.findBySelector sel₀, some r⟩ (by simp))
    have hfound : s.Did i ⟨.findBySelector r.selector, some r⟩ := hd _ (by simp)
    have hdis : Displacing H s' i r := by
      refine ⟨th', c, t, _, hi', hop'.trans hop, .grace hp hrs hg hact hdev, Or.inl ?_⟩
      rw [htr', htr, hsel]
    obtain ⟨j, f, x, hmk⟩ := pointer_found A.toStoreContract hr i _ r _ hfound (withinGrace_some hg).2.1
    rw [← hsel] at hmk
    have hfol := follows_of_marked A.toStoreContract (fresh hr) hmk (.of_found hK hfound)
      (.of_row hK hrow)
    -- the row that was presented still points to the one displaced
    have hnd : ¬ Discarded row := fun h => by
      have hrev := h.1
      simp [hst] at hrev
    obtain ⟨rp, hrp, hq⟩ := (linked A.toStoreContract hr).installed j _ f x d row hmk hrow hnd
    have hev := (hK.found i _ r hfound).2.2 rp hrp
    have hrot : rp.status = .rotated := by
      cases hstat : rp.status with
      | rotated => rfl
      | active => exact absurd hstat (hev.not_active (by simp [hrs]))
      | revoked =>
        obtain ⟨hD, -⟩ := dead_of_revoked A hr _ rp hrp hstat (by simp [hq])
        have hrev := hD.revoked d row hgr hrow (hfol.familyId.trans hev.familyId.symm)
        simp [hst] at hrev
    have hne : r.selector ≠ d := by
      rintro rfl
      obtain rfl := Option.some.inj (hrow.symm.trans hrp)
      simp [hst] at hrot
    exact ⟨r, rp, hdis, hfol.familyId.symm, by rw [hupd, Function.update_of_ne hne, hrp], hrot⟩
  | @cleanup c r n f t tr' ht hn hsel =>
    have hno : ∀ p f t q, ¬ Marked s i p f t q := by
      rintro p f' t' q ⟨th₁, hi₁, hev⟩
      obtain rfl := Option.some.inj (hi.symm.trans hi₁)
      rw [htr] at hev
      cases ht <;> simp at hev
    exact absurd (hsel ▸ hgr) (not_granted (fresh hr) (hd ⟨.insert n, ()⟩ (by simp)) ⟨th, hi, hop⟩ hno)

/-- **A single revocation withdraws a token in use**, unless it is of a successor nobody was given. -/
theorem clear_step (hr : ((engines H svc).under (Honest H)).Reachable s)
    (hb : Represents H A.toStoreContract s b) {i : ℕ} {d : Str}
    (hs : ((engines H svc).under (Honest H)).step s (.answer i ⟨.revokeIfActive d, true⟩) s') :
    Represents H A.toStoreContract s' b ∨
      ∃ m b', Via (.answer i ⟨.revokeIfActive d, true⟩ : PoolLabel Env) m ∧
        Lib.Succession.Step b m b' ∧ Represents H A.toStoreContract s' b' := by
  have hr' := hr.step hs
  have hK := knowledge_of_honest A.toStoreContract hr
  obtain ⟨th, k, hi, hc, ha⟩ := callAt_answer hr hs.2
  obtain ⟨row, hrow, hst, hupd⟩ := A.clear ha
  have hsame : ∀ g, (Granted H s d → row.familyId ≠ g) → Same H A.toStoreContract s s' g := by
    intro g hg
    refine same_of hr hs (fun h => nomatch h) (fun _ _ _ h => nomatch h) (fun _ _ _ _ _ _ h => nomatch h)
      ?_
    rintro j d' row' hlab hrow' hgr rfl
    cases hlab
    obtain rfl := Option.some.inj (hrow.symm.trans hrow')
    exact hg hgr rfl
  by_cases hgr : Granted H s d
  · refine Or.inr ⟨_, _, .displacement (f := row.familyId), .withdraw ?_,
      hb.suspend (f := row.familyId) hr' (fun g hg => hsame g fun _ => hg.symm) ?_ fun x =>
        ⟨fun h => ?_, fun h => h.mono hs.2⟩⟩
    · exact (hb.held _ _).mpr (.row hgr hrow hst rfl)
    · exact between_of_clear A hr hs hrow hgr
    · rcases givenOut_back hr hs h with hold | ⟨j, c', n', hlab, -⟩ | ⟨j, p', f', t', hlab⟩
      · exact hold
      · cases hlab
      · cases hlab
  · exact Or.inl (hb.same fun g => hsame g fun h => absurd h hgr)

/-- No session is there before the first call. -/
theorem represents_init (hs : ((engines H svc).under (Honest H)).init s) :
    ∃ b, (sessions Str Str ℕ).init b ∧ Represents H A.toStoreContract s b := by
  refine ⟨.blank, rfl, ?_⟩
  have hno : ∀ i ev, ¬ s.Did i ev := by
    rintro i ev ⟨th, hi, -⟩
    rw [show s = ⟨svc.start, []⟩ from hs] at hi
    cases hi
  have hbegun : ∀ f, ¬ Begun H s f := by
    rintro f ⟨i, c, n, hf, -⟩
    exact hno i _ hf.inserted
  have hlive : ∀ f x, ¬ Live H A.toStoreContract s f x := fun f x h =>
    hbegun f (begun_of_live (.init hs) h)
  refine ⟨fun f => ?_, fun f sel => ?_, fun f i => ?_, fun f sel => ?_⟩
  · exact iff_of_true rfl (hbegun f)
  · exact iff_of_false (fun h => nomatch h) (hlive f _)
  · exact iff_of_false (fun h => nomatch h) fun h => hlive f _ h.live
  · refine iff_of_false (fun h => nomatch h) ?_
    rintro ⟨-, r, ⟨i, n, hi, -⟩, -⟩
    exact hno i _ hi

/-- **A step is a move of the sessions, or none.** -/
theorem represents_step (hr : ((engines H svc).under (Honest H)).Reachable s)
    (hb : Represents H A.toStoreContract s b) (hs : ((engines H svc).under (Honest H)).step s l s') :
    Represents H A.toStoreContract s' b ∨ ∃ m b', Via l m ∧ (sessions Str Str ℕ).step b m b' ∧
      Represents H A.toStoreContract s' b' := by
  cases l with
  | invoke op => exact Or.inl (hb.quiet hr hs fun m h => nomatch h)
  | work i =>
    refine Or.inl (hb.quiet hr hs fun m h => ?_)
    cases h with
    | ending h => cases h
  | stop i m =>
    refine Or.inl (hb.quiet hr hs fun m h => ?_)
    cases h with
    | ending h => cases h
  | env a => exact Or.inr ⟨_, _, .ending .collection, .close b _, hb.close hr hs .collection⟩
  | answer i ev =>
    obtain ⟨q, rep⟩ := ev
    cases q with
    | findBySelector sel =>
      refine Or.inl (hb.quiet hr hs fun m h => ?_)
      cases h with
      | ending h => cases h
    | insert n => exact insert_step hr hb hs
    | markRotated p f t q =>
      cases rep with
      | true => exact Or.inr (rotation_step hr hb hs)
      | false =>
        refine Or.inl (hb.quiet hr hs fun m h => ?_)
        cases h with
        | ending h => cases h
    | revokeIfActive d =>
      cases rep with
      | true => exact clear_step hr hb hs
      | false =>
        refine Or.inl (hb.quiet hr hs fun m h => ?_)
        cases h with
        | ending h => cases h
    | revokeFamily familyId =>
      exact Or.inr ⟨_, _, .ending .family, .close b _, hb.close hr hs .family⟩
    | revokeUser userId => exact Or.inr ⟨_, _, .ending .user, .close b _, hb.close hr hs .user⟩

/-- **The engines do what sessions do**, over every store whose bulk revocations are atomic: in every run
with fresh draws in which no refresh proves a token that was not returned, each step is the move of
sessions that `Via` gives for it, or none. -/
theorem refines_sessions (H : HmacSha256) (A : AtomicContract svc) :
    System.Simulation ((engines H svc).under (Honest H)) (sessions Str Str ℕ)
      (Represents H A.toStoreContract) Via where
  init := represents_init
  step := represents_step

/-- A family that an atomic bulk revocation covers has lapsed. -/
theorem lapsed_of_bulk (A : AtomicContract svc) (hr : ((engines H svc).under (Honest H)).Reachable s)
    {i : ℕ} {q : StoreCall} {rep : q.Reply}
    (hs : ((engines H svc).under (Honest H)).step s (.answer i ⟨q, rep⟩) s') {j : ℕ} {c : IssueCall}
    {n : TokenRecord} (hf : Founded H s j c n) (hc : CoversFamily q c) :
    Lapsed H A.toStoreContract s' c.draw.familyId := by
  refine ⟨fun sel h => ?_, fun k h => ?_⟩
  · cases h with
    | row hg hrow hst hfam =>
      have hrev := revoked_of_bulk A hr hs hf hc hrow hfam
      simp [hst] at hrev
  · obtain ⟨r, row, hd, hfam, hrow, hst⟩ := h
    have hev := (hd.read (knowledge_of_honest A.toStoreContract (hr.step hs))).2.2 row hrow
    have hrev := revoked_of_bulk A hr hs hf hc hrow (hev.familyId.trans hfam)
    simp [hst] at hrev

/-- A family that has begun and has lapsed is one of a session that is over. -/
theorem Represents.ended {f : Str} (hb : Represents H C s b) (hbegun : Begun H s f)
    (hlap : Lapsed H C s f) : b.standing f = .ended := by
  cases hst : b.standing f with
  | unborn => exact absurd hbegun ((hb.unborn f).mp hst)
  | held sel => exact absurd ((hb.held f sel).mp hst) (hlap.1 sel)
  | between i => exact absurd ((hb.between f i).mp hst) (hlap.2 i)
  | ended => rfl

/-- **Lines of tokens.** Between two states of such a run, the records granted to a family form a line
that only grows at its head. No record is in it twice or in two lines; the record that holds the family
is the latest; one that holds it no more never does again; and a family that has lapsed, by a revocation,
a reuse, its deadline or otherwise, is granted no further record. -/
theorem lines (A : AtomicContract svc) (hs : ((engines H svc).under (Honest H)).Reachable s)
    (hrun : ((engines H svc).under (Honest H)).Run s s') : ∃ line line' : Str → List Str,
    (∀ f sel, sel ∈ line f ↔ GivenOut H s f sel) ∧ (∀ f sel, sel ∈ line' f ↔ GivenOut H s' f sel) ∧
    (∀ f, (line f).Nodup ∧ (line' f).Nodup ∧ line f <:+ line' f) ∧
    (∀ f g sel, sel ∈ line' f → sel ∈ line' g → f = g) ∧
    (∀ f sel, Held H A.toStoreContract s f sel → (line f).head? = some sel) ∧
    (∀ f sel, Held H A.toStoreContract s' f sel → (line' f).head? = some sel) ∧
    (∀ f sel, GivenOut H s f sel → ¬ Held H A.toStoreContract s f sel →
      ¬ Held H A.toStoreContract s' f sel) ∧
    ∀ f, Begun H s f → Lapsed H A.toStoreContract s f →
      Lapsed H A.toStoreContract s' f ∧ line' f = line f := by
  have hsim : System.Simulation ((engines H svc).under (Honest H)) (sessions Str Str ℕ)
      (Represents H A.toStoreContract) Via := ⟨represents_init, represents_step⟩
  obtain ⟨b, hreach, hb⟩ := hsim.reachable hs
  obtain ⟨b', hbrun, hb'⟩ := hsim.run hs hb hrun
  have hlater := later_of_run hbrun
  have hc := consistent hreach
  have hc' := consistent (hreach.run hbrun)
  refine ⟨b.line, b'.line, hb.line, hb'.line, fun f => ⟨hc.nodup f, hc'.nodup f, hlater.line f⟩,
    hc'.apart, fun f sel h => hc.held f sel ((hb.held f sel).mpr h),
    fun f sel h => hc'.held f sel ((hb'.held f sel).mpr h), fun f sel hg hn h => ?_,
    fun f hbegun hlap => ?_⟩
  · exact hlater.spent f sel ((hb.line f sel).mpr hg) (fun he => hn ((hb.held f sel).mp he))
      ((hb'.held f sel).mpr h)
  · obtain ⟨he, hl⟩ := hlater.ended f (hb.ended hbegun hlap)
    refine ⟨⟨fun sel h => ?_, fun i h => ?_⟩, hl⟩
    · have := (hb'.held f sel).mpr h
      simp [he] at this
    · have := (hb'.between f i).mpr h
      simp [he] at this

end Facts

/-- A login, and a refresh of its token. -/
def loggedIn : PoolState Rows :=
  (played sampleHmac (fun s l => honestCheck sampleHmac s l)
    (.invoke (sampleIssue 0 0) :: sampleSteps 0 1)).get (by decide)

def refreshed : PoolState Rows :=
  (playedFrom sampleHmac (fun s l => honestCheck sampleHmac s l) loggedIn
    (.invoke (sampleRefresh 0 0 1 1010) :: sampleSteps 1 3)).get (by decide)

theorem lines_sample : ∃ line line' : Str → List Str,
    line (sampleLogin 0 0).draw.familyId <:+ line' (sampleLogin 0 0).draw.familyId ∧
    (line (sampleLogin 0 0).draw.familyId).head? = some (sampleDraw 0).selectorText ∧
    (line' (sampleLogin 0 0).draw.familyId).head? = some (sampleDraw 1).selectorText := by
  have hs : ((engines sampleHmac memory).under (Honest sampleHmac)).Reachable loggedIn :=
    played_reachable (fun _ _ h => honest_of_check h) _
  have hrun : ((engines sampleHmac memory).under (Honest sampleHmac)).Run loggedIn refreshed :=
    playedFrom_run (fun _ _ h => honest_of_check h) _
  obtain ⟨line, line', -, -, hline, -, hheld, hheld', -⟩ := lines memoryContract hs hrun
  have hg : Granted sampleHmac loggedIn (sampleDraw 0).selectorText :=
    granted_of_returned hs (returned_of_check (by decide))
  have hg' : Granted sampleHmac refreshed (sampleDraw 1).selectorText :=
    granted_of_returned (hs.run hrun) (returned_of_check (by decide))
  exact ⟨line, line', (hline _).2.2, hheld _ _ (.row hg rfl rfl rfl), hheld' _ _ (.row hg' rfl rfl rfl)⟩

/-- A retry of the first token, within a grace window, has read the token's row and its successor. -/
def retrying : PoolState Rows :=
  (playedFrom sampleHmac (fun s l => honestCheck sampleHmac s l) refreshed
    [.invoke (sampleRefresh 50 0 2 1020), .go 2, .go 2]).get (by decide)

/-- It has revoked the successor. -/
def withdrawn : PoolState Rows :=
  (playedFrom sampleHmac (fun s l => honestCheck sampleHmac s l) retrying [.go 2]).get (by decide)

/-- It has inserted another and rotated to it, and a revocation of the family is called. -/
def replaced : PoolState Rows :=
  (playedFrom sampleHmac (fun s l => honestCheck sampleHmac s l) withdrawn
    [.go 2, .go 2, .stop 2 .returned,
      .invoke (.revokeFamily (sampleLogin 0 0).draw.familyId)]).get (by decide)

def revoked : PoolState Rows :=
  (playedFrom sampleHmac (fun s l => honestCheck sampleHmac s l) replaced [.go 3]).get (by decide)

/-- A login, a rotation, a retry in its two moves, and a revocation. -/
theorem refines_sessions_sample : ∃ b₀ b₁ b₂ b₃ b₄ : Book Str Str ℕ,
    (sessions Str Str ℕ).Reachable b₀ ∧ (sessions Str Str ℕ).Run b₀ b₁ ∧
    (sessions Str Str ℕ).Run b₁ b₂ ∧ (sessions Str Str ℕ).Run b₂ b₃ ∧
    (sessions Str Str ℕ).Run b₃ b₄ ∧
    b₀.standing (sampleLogin 0 0).draw.familyId = .held (sampleDraw 0).selectorText ∧
    b₁.standing (sampleLogin 0 0).draw.familyId = .held (sampleDraw 1).selectorText ∧
    b₂.standing (sampleLogin 0 0).draw.familyId = .between 2 ∧
    b₃.standing (sampleLogin 0 0).draw.familyId = .held (sampleDraw 2).selectorText ∧
    b₄.standing (sampleLogin 0 0).draw.familyId = .ended := by
  have hsim := refines_sessions sampleHmac memoryContract
  have hr₀ : ((engines sampleHmac memory).under (Honest sampleHmac)).Reachable loggedIn :=
    played_reachable (fun _ _ h => honest_of_check h) _
  have hrun₁ : ((engines sampleHmac memory).under (Honest sampleHmac)).Run loggedIn refreshed :=
    playedFrom_run (fun _ _ h => honest_of_check h) _
  have hlook : ((engines sampleHmac memory).under (Honest sampleHmac)).Run refreshed retrying :=
    playedFrom_run (fun _ _ h => honest_of_check h) _
  have hclear : ((engines sampleHmac memory).under (Honest sampleHmac)).step retrying
      (.answer 2 ⟨.revokeIfActive (sampleDraw 1).selectorText, true⟩) withdrawn :=
    ⟨honest_of_check rfl, step_of_act (x := .go 2) rfl⟩
  have hrun₃ : ((engines sampleHmac memory).under (Honest sampleHmac)).Run withdrawn replaced :=
    playedFrom_run (fun _ _ h => honest_of_check h) _
  have hbulk : ((engines sampleHmac memory).under (Honest sampleHmac)).step replaced
      (.answer 3 ⟨.revokeFamily (sampleLogin 0 0).draw.familyId, (2 : ℕ)⟩) revoked :=
    ⟨honest_of_check rfl, step_of_act (x := .go 3) rfl⟩
  have hr₁ := hr₀.run hrun₁
  have hr₂ := hr₁.run hlook
  have hr₃ := (hr₂.step hclear).run hrun₃
  obtain ⟨b₀, hb₀, hrep₀⟩ := hsim.reachable hr₀
  obtain ⟨b₁, hb₁, hrep₁⟩ := hsim.run hr₀ hrep₀ hrun₁
  obtain ⟨b₂, hb₂, hrep₂⟩ := hsim.run hr₁ hrep₁ (hlook.step hclear)
  obtain ⟨b₃, hb₃, hrep₃⟩ := hsim.run (hr₂.step hclear) hrep₂ hrun₃
  obtain ⟨b₄, hb₄, hrep₄⟩ := hsim.run hr₃ hrep₃ (.step .refl hbulk)
  have hf : Founded sampleHmac replaced 0 (sampleLogin 0 0) (sampleRow 0 0) := founded_sample rfl rfl
  refine ⟨b₀, b₁, b₂, b₃, b₄, hb₀, hb₁, hb₂, hb₃, hb₄, ?_, ?_, ?_, ?_, ?_⟩
  · exact (hrep₀.held _ _).mpr (.row (granted_of_returned hr₀ (returned_of_check (by decide))) rfl rfl rfl)
  · exact (hrep₁.held _ _).mpr (.row (granted_of_returned hr₁ (returned_of_check (by decide))) rfl rfl rfl)
  · exact (hrep₂.between _ _).mpr (between_of_clear memoryContract hr₂ hclear rfl
      (granted_of_returned hr₂ (returned_of_check (by decide))))
  · exact (hrep₃.held _ _).mpr (.row (granted_of_returned hr₃ (returned_of_check (by decide))) rfl rfl rfl)
  · exact hrep₄.ended ⟨0, _, _, hf.mono hbulk.2, rfl⟩ (lapsed_of_bulk memoryContract hr₃ hbulk hf rfl)

end NebulaToken.Safety.Sessions
