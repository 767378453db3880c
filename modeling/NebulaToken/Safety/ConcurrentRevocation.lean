import NebulaToken.Runs.Execution
import NebulaToken.Runs.Unforked
import NebulaToken.Store.Concurrent

/-! # Revocation in the concurrent stores

The loop of a bulk revocation reaches the rows of a family one after the other. A refresh that inserts
its successor once the keys are read, and rotates before the loop comes to the row it presents, overtakes
the revocation: its successor stays active, and its token is returned.

* `overtaken`: such a run, in both stores;
* `sweeping_run`: what a loop has still to look at, if no rotation overtakes it;
* `revocation_final_unless_overtaken`: nothing else escapes a revocation. -/

namespace NebulaToken.Safety.ConcurrentRevocation

open NebulaToken.Lib.KeyedTable NebulaToken.Lib.Pool NebulaToken.Lib.Transition
open NebulaToken.Lib.Program NebulaToken.Token.Unicode
open NebulaToken.Token.Wire NebulaToken.Engine.Records NebulaToken.Engine.Config
open NebulaToken.Engine.Operations
open NebulaToken.Runs.Calls NebulaToken.Runs.History NebulaToken.Runs.Provenance
open NebulaToken.Runs.Assumptions NebulaToken.Runs.Families NebulaToken.Runs.Lineage
open NebulaToken.Runs.Unforked NebulaToken.Runs.Execution
open NebulaToken.Store.Contract NebulaToken.Store.Concurrent

/-- **Call `i` is a revocation that has returned**, and has made the bulk revocation `q`. -/
inductive Revoked (s : PoolState Maps) (i : ℕ) : StoreCall → Prop
  | family {th : Call} {familyId : Str} {n : ℕ} (hi : s.threads[i]? = some th)
      (hop : th.op = .revokeFamily familyId) (hres : th.result = some (.count n)) :
    Revoked s i (.revokeFamily familyId)
  | user {th : Call} {userId : Str} {n : ℕ} (hi : s.threads[i]? = some th)
      (hop : th.op = .revokeAllForUser userId) (hres : th.result = some (.count n)) :
    Revoked s i (.revokeUser userId)
  | token {th : Call} {e : NebulaEngine} {tok userId familyId : Str} {n : ℕ}
      (hi : s.threads[i]? = some th) (hop : th.op = .revokeToken e tok)
      (hres : th.result = some (.revoked (.ok userId familyId n))) :
    Revoked s i (.revokeFamily familyId)

/-- **No rotation overtakes the loop of call `i`**: what takes the place of a record that the loop
matches is revoked already, or the loop has still to look at it. -/
def NotOvertaken (i : ℕ) (s : PoolState Maps) (l : PoolLabel Empty) : Prop :=
  ∀ k p f x q it r, l = .answer k ⟨.markRotated p f x q, true⟩ → s.shared.loops i = some it →
    s.shared.rows.get p = some r → Covers it.call r →
      q ∈ it.todo ∨ ∀ row, s.shared.rows.get q = some row → row.status = .revoked

/-- An honest step that does not overtake the loop of call `i`. -/
structure Orderly (H : HmacSha256) (i : ℕ) (s : PoolState Maps) (l : PoolLabel Empty) : Prop where
  honest : Honest H s l
  behind : NotOvertaken i s l

variable {H : HmacSha256} {weak : Bool} {s s' t : PoolState Maps} {l : PoolLabel Empty} {i : ℕ}

/-- A revocation that has returned has made its bulk revocation. -/
theorem Revoked.did {G : PoolState Maps → PoolLabel Empty → Prop}
    (hr : ((engines H (concurrent weak)).under G).Reachable s) {q : StoreCall} (h : Revoked s i q) :
    isBulk q = true ∧ ∃ rep, s.Did i ⟨q, rep⟩ := by
  have hat : ∀ th, s.threads[i]? = some th → ∀ {x}, th.result = some x →
      CallAt H th.op th.trace (.ret x) := by
    intro th hi x hres
    have hth := callAt hr th (mem_of_getElem? hi)
    rw [(of_result hres).2] at hth
    exact hth
  cases h with
  | @family th familyId n hi hop hres =>
    have h := hat th hi hres
    rw [hop] at h
    generalize htr : th.trace = tr at h
    cases h with
    | familyDone => exact ⟨rfl, n, th, hi, by rw [htr]; exact List.mem_cons_self⟩
  | @user th userId n hi hop hres =>
    have h := hat th hi hres
    rw [hop] at h
    generalize htr : th.trace = tr at h
    cases h with
    | userDone => exact ⟨rfl, n, th, hi, by rw [htr]; exact List.mem_cons_self⟩
  | @token th e tok userId familyId n hi hop hres =>
    have h := hat th hi hres
    rw [hop] at h
    obtain ⟨p, hp, h⟩ := h
    obtain ⟨a, rfl, ha⟩ := Prog.map_eq_ret hp.symm
    obtain rfl := Outcome.revoked.inj ha
    generalize htr : th.trace = tr at h
    cases h with
    | revoked => exact ⟨rfl, n, th, hi, by rw [htr]; exact List.mem_cons_self⟩

/-! ### What a loop has still to look at -/

/-- **The loop of call `i`, if it covers the family of the login, has still to look at every granted
record of the family that is not revoked.** -/
structure Sweeping (H : HmacSha256) (i : ℕ) (c : IssueCall) (s : PoolState Maps) : Prop where
  founded : ∃ j n, Founded H s j c n
  todo : ∀ it, s.shared.loops i = some it → CoversFamily it.call c → ∀ sel r, Granted H s sel →
    s.shared.rows.get sel = some r → r.familyId = c.draw.familyId → r.status ≠ .revoked → sel ∈ it.todo

/-- How a step changes the loop of a call. -/
inductive LoopStep (i : ℕ) (s s' : PoolState Maps) : PoolLabel Empty → Prop
  | same {l : PoolLabel Empty} (h : s'.shared.loops i = s.shared.loops i) : LoopStep i s s' l
  | enter {q : StoreCall} (h : s'.shared = s.shared.setLoop i (some (openLoop q s.shared.rows))) :
    LoopStep i s s' (.work i)
  | visit {it : Iteration} {sel : Str} (h0 : s.shared.loops i = some it) (hsel : sel ∈ it.todo)
      (h : s'.shared = visit s.shared i it sel) : LoopStep i s s' (.work i)
  | handOut {it : Iteration} {sel : Str} (h0 : s.shared.loops i = some it)
      (h : s'.shared = handOut s.shared i it sel) : LoopStep i s s' (.work i)
  | leave {it : Iteration} {rep : it.call.Reply} (h0 : s.shared.loops i = some it) (htodo : it.todo = [])
      (h : s'.shared = s.shared.setLoop i none) : LoopStep i s s' (.answer i ⟨it.call, rep⟩)

theorem loopStep (hs : Step (code H) (concurrent weak) s l s') (i : ℕ) : LoopStep i s s' l := by
  rcases hs.shared_cases with ⟨j, th, q, k, rep, rfl, -, -, -, ha⟩ | ⟨j, th, q, k, rfl, -, -, -, hw⟩ |
    ⟨a, -, -⟩ | ⟨-, he⟩
  · cases hq : isBulk q with
    | true =>
      obtain ⟨it, h0, rfl, htodo, h⟩ := answer_bulk hq ha
      by_cases hij : i = j
      · subst hij
        exact .leave h0 htodo h
      · exact .same (by rw [h]; exact Maps.loops_setLoop_ne _ hij _)
    | false => exact .same (by rw [answer_loops hq ha])
  · generalize ha : s'.shared = a at hw
    by_cases hij : i = j
    · subst hij
      cases hw with
      | enter hq h0 => exact .enter ha
      | visit h0 hq hsel => exact .visit h0 hsel ha
      | handOut hw h0 hq hsel hmet => exact .handOut h0 ha
    · refine .same ?_
      rw [ha]
      cases hw with
      | enter hq h0 => exact Maps.loops_setLoop_ne _ hij _
      | visit h0 hq hsel => exact Maps.loops_setLoop_ne _ hij _
      | handOut hw h0 hq hsel hmet => exact Maps.loops_setLoop_ne _ hij _
  · exact a.elim
  · exact .same (by rw [he])

theorem honest_of_orderly (h : ((engines H (concurrent weak)).under (Orderly H i)).Reachable s) :
    ((engines H (concurrent weak)).under (Honest H)).Reachable s := h.weaken fun _ _ h => h.honest

/-- A record of the family of a login is covered by the bulk revocations that cover the family. -/
theorem covers_of_family (hr : ((engines H (concurrent weak)).under (Honest H)).Reachable s) {j : ℕ}
    {c : IssueCall} {n : TokenRecord} (hfd : Founded H s j c n) {q : StoreCall}
    (hq : CoversFamily q c) {sel : Str} {r : TokenRecord} (hrow : s.shared.rows.get sel = some r)
    (hf : r.familyId = c.draw.familyId) : Covers q r := by
  have hK := knowledge_of_honest (concurrentStore weak) hr
  obtain ⟨j', c', n', hfd', ho⟩ := (Stored.of_row hK hrow).founded
    (noReinsert_of_freshDraws (fresh hr)) (concurrentStore weak)
  obtain ⟨-, rfl⟩ := founded_unique (fresh hr) hfd.opAt hfd'.opAt (hf.symm.trans ho.family)
  exact (coversFamily_iff ho).mp hq

/-- **A step that does not overtake the loop keeps it so.** -/
theorem Sweeping.step {c : IssueCall} (hS : Sweeping H i c s)
    (hr : ((engines H (concurrent weak)).under (Orderly H i)).Reachable s)
    (hs : ((engines H (concurrent weak)).under (Orderly H i)).step s l s') : Sweeping H i c s' where
  founded := by
    obtain ⟨j, n, hfd⟩ := hS.founded
    exact ⟨j, n, hfd.mono hs.2⟩
  todo it' hit' hcov sel r' hg' hrow' hf hne := by
    obtain ⟨j, n, hfd⟩ := hS.founded
    have hr₀ := honest_of_orderly hr
    have hback := granted_back (concurrentStore weak) hr₀ ⟨hs.1.honest, hs.2⟩ hfd hg' hrow' hf hne
    have hwork : l = .work i → ∃ r, Granted H s sel ∧ s.shared.rows.get sel = some r ∧
        r.familyId = c.draw.familyId ∧ r.status ≠ .revoked := by
      rintro rfl
      rcases hback with h | ⟨k, p, f, x, row, hl, -⟩
      · exact h
      · cases hl
    cases loopStep hs.2 i with
    | same h =>
      rw [h] at hit'
      rcases hback with ⟨r, hg, hrow, hf₀, hne₀⟩ | ⟨k, p, f, x, row, rfl, hgp, hrow, hf₀, hne₀, hsel⟩
      · exact hS.todo it' hit' hcov sel r hg hrow hf₀ hne₀
      · have hcrow := covers_of_family hr₀ hfd hcov hrow hf₀
        rcases hs.1.behind k p f x sel it' row rfl hit' hrow hcrow with h | h
        · exact h
        · exact absurd (h r' hsel) hne
    | @enter q h =>
      obtain ⟨r, -, hrow, -⟩ := hwork rfl
      rw [h, Maps.loops_setLoop_self] at hit'
      obtain rfl := Option.some.inj hit'
      exact (Table.mem_keys_iff _ _).mpr ⟨r, hrow⟩
    | @visit it sel₀ h0 hsel₀ h =>
      obtain ⟨r, hg, hrow, hf₀, hne₀⟩ := hwork rfl
      have hcall : it'.call = it.call ∧ it'.todo = it.todo.erase sel₀ := by
        rw [h, Store.Concurrent.visit, Maps.loops_setLoop_self] at hit'
        obtain rfl := Option.some.inj hit'
        exact ⟨rfl, rfl⟩
      rw [hcall.1] at hcov
      have hmem := hS.todo it h0 hcov sel r hg hrow hf₀ hne₀
      rw [hcall.2, List.mem_erase_of_ne ?_]
      · exact hmem
      · rintro rfl
        -- the loop has revoked the row it has looked at
        have hr' := honest_of_orderly (hr.step hs)
        have hm := isMatch_iff.mpr (covers_of_family hr' (hfd.mono hs.2) hcov hrow' hf)
        rw [h] at hrow'
        exact hne (revokeRow_self hrow' hm)
    | @handOut it sel₀ h0 h =>
      obtain ⟨r, hg, hrow, hf₀, hne₀⟩ := hwork rfl
      rw [h, Store.Concurrent.handOut, Maps.loops_setLoop_self] at hit'
      obtain rfl := Option.some.inj hit'
      exact List.mem_cons_of_mem _ (hS.todo it h0 hcov sel r hg hrow hf₀ hne₀)
    | leave h0 htodo h =>
      rw [h, Maps.loops_setLoop_self] at hit'
      cases hit'

theorem sweeping_run {c : IssueCall} {j : ℕ} {n : TokenRecord}
    (hr : ((engines H (concurrent weak)).under (Orderly H i)).Reachable s)
    (h0 : s.shared.loops i = none) (hfd : Founded H s j c n)
    (hrun : ((engines H (concurrent weak)).under (Orderly H i)).Run s t) : Sweeping H i c t := by
  refine hrun.invariant (I := fun u => Sweeping H i c u) hr ⟨⟨j, n, hfd⟩, ?_⟩
    fun u l u' hu hS hs => hS.step hu hs
  intro it hit
  rw [h0] at hit
  cases hit

/-- A loop is that of a call. -/
theorem loop_thread {G : PoolState Maps → PoolLabel Empty → Prop}
    (h : ((engines H (concurrent weak)).under G).Reachable s) :
    ∀ i, s.threads[i]? = none → s.shared.loops i = none := by
  refine h.invariant (I := fun s => ∀ i, s.threads[i]? = none → s.shared.loops i = none) ?_ ?_
  · intro s hs i _
    rw [show s = ⟨_, []⟩ from hs]
    rfl
  · intro s l s' _ ih hs i hi
    have hi₀ : s.threads[i]? = none := by
      by_contra hne
      obtain ⟨th, hth⟩ := Option.ne_none_iff_exists'.mp hne
      obtain ⟨th', hth', -⟩ := hs.2.grows hth
      rw [hi] at hth'
      cases hth'
    have hl : l ≠ .work i := by
      rintro rfl
      cases hs.2 with
      | work hth hm hp hw =>
        rw [hi₀] at hth
        cases hth
    cases loopStep hs.2 i with
    | same h => rw [h, ih i hi₀]
    | enter | visit | handOut => exact absurd rfl hl
    | leave h0 htodo h => rw [h, Maps.loops_setLoop_self]

/-- **A bulk revocation that is not overtaken kills the families it covers.** -/
theorem dead_of_sweep {c : IssueCall} (hS : Sweeping H i c s)
    (hr : ((engines H (concurrent weak)).under (Orderly H i)).Reachable s) {q : StoreCall} {rep : q.Reply}
    (hq : isBulk q = true) (hc : CoversFamily q c)
    (hs : ((engines H (concurrent weak)).under (Orderly H i)).step s (.answer i ⟨q, rep⟩) s') :
    Dead H (concurrentStore weak) s' c.draw.familyId := by
  obtain ⟨j, n, hfd⟩ := hS.founded
  obtain ⟨th, k, -, -, -, ha⟩ := answer_inv hs.2
  obtain ⟨it, hit, rfl, htodo, -⟩ := answer_bulk hq ha
  refine ⟨⟨j, c, n, hfd.mono hs.2, rfl⟩, fun sel r' hg hrow' hf => ?_⟩
  by_contra hne
  rcases granted_back (concurrentStore weak) (honest_of_orderly hr) ⟨hs.1.honest, hs.2⟩ hfd hg hrow' hf
    hne with ⟨r, hg₀, hrow, hf₀, hne₀⟩ | ⟨k, p, f, x, row, hl, -⟩
  · have hmem := hS.todo it hit hc sel r hg₀ hrow hf₀ hne₀
    rw [htodo] at hmem
    cases hmem
  · have hreq : it.call = .markRotated p f x sel := congrArg Event.req (Label.answer.inj hl).2
    rw [hreq] at hq
    cases hq

/-! ### Revocation is final unless it is overtaken -/

/-- **Revocation is final**, in the runs whose steps meet `G`: once a revocation that call `i` makes has
returned, every active record of a family it covers, and which was founded before the call, is a
successor of a refresh that never returns its token; and no refresh that has succeeded leaves an active
record in the family. -/
def RevocationFinal (H : HmacSha256) (weak : Bool)
    (G : ℕ → PoolState Maps → PoolLabel Empty → Prop) : Prop :=
  ∀ (i : ℕ) (s t : PoolState Maps) (q : StoreCall) (j : ℕ) (c : IssueCall) (n : TokenRecord),
    ((engines H (concurrent weak)).under (G i)).Reachable s → s.threads[i]? = none →
    Founded H s j c n → CoversFamily q c → ((engines H (concurrent weak)).under (G i)).Run s t →
    Revoked t i q →
    (∀ sel r, t.shared.rows.get sel = some r → r.familyId = c.draw.familyId → r.status = .active →
      ∃ k c', OpAt t k (.refresh c') ∧ Inserted t k r ∧
        ∀ u, ((engines H (concurrent weak)).under (Honest H)).Run t u → ∀ tok, ¬ Delivers u k tok) ∧
    ∀ k y m row, Succeeded t k y → Inserted t k m → m.familyId = c.draw.familyId →
      t.shared.rows.get m.selector = some row → row.status ≠ .active

/-- A weak iterator need not hand out new keys: it may do what a strict one does. -/
theorem weaken_run {G : PoolState Maps → PoolLabel Empty → Prop}
    (h : ((engines H (concurrent false)).under G).Run s t) (weak : Bool) :
    ((engines H (concurrent weak)).under G).Run s t := by
  induction h with
  | refl => exact .refl
  | step _ hs ih =>
    refine ih.step ⟨hs.1, ?_⟩
    cases hs.2 with
    | invoke op => exact .invoke _ op
    | answer hi hm hp ha => exact .answer hi hm hp ha
    | stop hi hm hne hret => exact .stop hi hm hne hret
    | env a => exact a.elim
    | work hi hm hp hw =>
      refine .work hi hm hp ?_
      cases hw with
      | enter hq h0 => exact .enter hq h0
      | visit h0 hq hsel => exact .visit h0 hq hsel
      | handOut hw => cases hw

/-- A schedule played against the stores. -/
def raced (guard : PoolState Maps → PoolLabel Empty → Bool) (s : PoolState Maps)
    (xs : List (Act Operation Empty)) : Option (PoolState Maps) :=
  play (code sampleHmac) (concurrent false) nextWork guard s xs

theorem raced_run {guard : PoolState Maps → PoolLabel Empty → Bool}
    {G : PoolState Maps → PoolLabel Empty → Prop} (hG : ∀ s l, guard s l = true → G s l)
    {s : PoolState Maps} {xs : List (Act Operation Empty)} (h : (raced guard s xs).isSome) (weak : Bool) :
    ((engines sampleHmac (concurrent weak)).under G).Run s ((raced guard s xs).get h) :=
  weaken_run (play_run (fun _ _ _ _ hw => works_of_nextWork hw) hG (Option.some_get h).symm) weak

/-- A login. -/
def opened : PoolState Maps :=
  (raced (fun s l => honestCheck sampleHmac s l) ⟨(concurrent false).start, []⟩
    [.invoke (sampleIssue 0 0), .go 0, .stop 0 .returned]).get rfl

/-- The loop of a revocation of the family has read the keys. A refresh inserts its successor and
rotates, and the loop goes on to its end. Both calls return. -/
def overtaken : PoolState Maps :=
  (raced (fun s l => honestCheck sampleHmac s l) opened
    [.invoke (.revokeFamily (sampleRow 0 0).familyId), .work 1,
      .invoke (sampleRefresh 0 0 1 1010), .go 2, .go 2, .go 2, .stop 2 .returned,
      .work 1, .go 1, .stop 1 .returned]).get rfl

theorem not_final (weak : Bool) : ¬ RevocationFinal sampleHmac weak fun _ => Honest sampleHmac := by
  intro h
  have hs : ((engines sampleHmac (concurrent weak)).under (Honest sampleHmac)).Reachable opened :=
    System.Reachable.run (.init rfl) (raced_run (fun _ _ hg => honest_of_check hg) rfl weak)
  have hrun : ((engines sampleHmac (concurrent weak)).under (Honest sampleHmac)).Run opened overtaken :=
    raced_run (fun _ _ hg => honest_of_check hg) rfl weak
  obtain ⟨th, hth, hop, hres⟩ : ∃ th, overtaken.threads[1]? = some th ∧
      th.op = .revokeFamily (sampleRow 0 0).familyId ∧ th.result = some (.count 1) := ⟨_, rfl, rfl, rfl⟩
  obtain ⟨y, hy⟩ : ∃ y, Succeeded overtaken 2 y := ⟨_, succeeded_of_read rfl⟩
  obtain ⟨m, row, hm, hf, hrow, ha⟩ : ∃ m row, Inserted overtaken 2 m ∧
      m.familyId = (sampleLogin 0 0).draw.familyId ∧ overtaken.shared.rows.get m.selector = some row ∧
      row.status = .active := ⟨_, _, did_of_read (k := 1) rfl, rfl, rfl, rfl⟩
  exact (h 1 _ _ (.revokeFamily (sampleRow 0 0).familyId) 0 _ _ hs rfl (founded_sample rfl rfl) rfl hrun
    (.family hth hop hres)).2 2 y m row hy hm hf hrow ha

/-- **A revocation may be overtaken**, in either store. -/
theorem revocation_overtaken : (¬ RevocationFinal sampleHmac false fun _ => Honest sampleHmac) ∧
    ¬ RevocationFinal sampleHmac true fun _ => Honest sampleHmac :=
  ⟨not_final false, not_final true⟩

/-- **Revocation is final unless it is overtaken**: in either store, in every run with fresh draws in
which no refresh proves a token that was not returned and no rotation overtakes the loop. -/
theorem revocation_final_unless_overtaken (H : HmacSha256) (weak : Bool) :
    RevocationFinal H weak (Orderly H) := by
  intro i s t q j c n hs hi hfd hc hrun hrev
  have ht := hs.run hrun
  obtain ⟨hq, rep, hd⟩ := hrev.did ht
  have hnot : ¬ s.Did i ⟨q, rep⟩ := by
    rintro ⟨th, hth, -⟩
    rw [hi] at hth
    cases hth
  obtain ⟨u, l, v, hsu, hstep, hu, hv, hvt⟩ := hrun.crossing (P := fun u => u.Did i ⟨q, rep⟩) hnot hd
  obtain rfl := (hstep.2.did_iff.mp hv).resolve_left hu
  have hur := hs.run hsu
  have hS := sweeping_run hs (loop_thread hs i hi) hfd hsu
  have hD := dead_of_sweep hS hur hq hc hstep
  have hvr := honest_of_orderly (hur.step hstep)
  have hvt' : ((engines H (concurrent weak)).under (Honest H)).Run v t :=
    hvt.weaken fun _ _ h => h.honest
  refine ⟨fun sel r hrow hf ha => undelivered_of_dead hD hvr hvt' hrow hf ha, ?_⟩
  intro k y m row hy hm hf hrow ha
  have htr := honest_of_orderly ht
  have hmin := (Stored.of_row (knowledge_of_honest (concurrentStore weak) htr) hrow).unique (fresh htr)
    (.of_inserted hm)
  have hfr : row.familyId = m.familyId := (congrArg TokenRecord.familyId hmin :)
  have hselr : row.selector = m.selector := (congrArg TokenRecord.selector hmin :)
  obtain ⟨k', c', -, hk', hno⟩ := undelivered_of_dead hD hvr hvt' hrow (hfr.trans hf) ha
  obtain ⟨rfl, -⟩ := inserted_unique (fresh htr) hk' hm hselr
  obtain ⟨th, hth, hres⟩ := hy
  exact hno t .refl y.token ⟨th, _, hth, hres, rfl⟩

/-- Whether the step does not overtake the loop of call `i`. -/
def notOvertakenCheck (i : ℕ) (s : PoolState Maps) (l : PoolLabel Empty) : Bool :=
  match l with
  | .answer _ ⟨.markRotated p _ _ q, true⟩ =>
    match s.shared.loops i, s.shared.rows.get p with
    | some it, some r => !isMatch it.call r || it.todo.contains q ||
        (s.shared.rows.get q).all fun row => row.status == .revoked
    | _, _ => true
  | _ => true

theorem notOvertaken_of_check {i : ℕ} {s : PoolState Maps} {l : PoolLabel Empty}
    (h : notOvertakenCheck i s l = true) : NotOvertaken i s l := by
  rintro k p f x q it r rfl hit hr hc
  unfold notOvertakenCheck at h
  dsimp only at h
  rw [hit, hr] at h
  dsimp only at h
  rw [isMatch_iff.mpr hc, Bool.not_true, Bool.false_or, Bool.or_eq_true, List.contains_iff_mem] at h
  rcases h with h | h
  · exact Or.inl h
  · refine Or.inr fun row hrow => ?_
    rw [hrow] at h
    exact eq_of_beq h

/-- The refresh has inserted its successor before the loop reads the keys. It rotates and returns, and
the loop goes on to both rows. -/
def behind : PoolState Maps :=
  (raced (fun s l => honestCheck sampleHmac s l && notOvertakenCheck 1 s l) opened
    [.invoke (.revokeFamily (sampleRow 0 0).familyId),
      .invoke (sampleRefresh 0 0 1 1010), .go 2, .go 2, .work 1, .go 2, .stop 2 .returned,
      .work 1, .work 1, .go 1, .stop 1 .returned]).get rfl

theorem revocation_final_unless_overtaken_sample : ∃ y m row, Succeeded behind 2 y ∧
    Inserted behind 2 m ∧ behind.shared.rows.get m.selector = some row ∧ row.status ≠ .active := by
  have hG : ∀ s l, (honestCheck sampleHmac s l && notOvertakenCheck 1 s l) = true →
      Orderly sampleHmac 1 s l := by
    intro s l h
    rw [Bool.and_eq_true] at h
    exact ⟨honest_of_check h.1, notOvertaken_of_check h.2⟩
  have hopened : (raced (fun s l => honestCheck sampleHmac s l && notOvertakenCheck 1 s l)
      ⟨(concurrent false).start, []⟩ [.invoke (sampleIssue 0 0), .go 0, .stop 0 .returned]).isSome = true :=
    rfl
  have hs : ((engines sampleHmac (concurrent true)).under (Orderly sampleHmac 1)).Reachable opened :=
    System.Reachable.run (.init rfl) (raced_run hG hopened true)
  have hrun : ((engines sampleHmac (concurrent true)).under (Orderly sampleHmac 1)).Run opened behind :=
    raced_run hG rfl true
  obtain ⟨th, hth, hop, hres⟩ : ∃ th, behind.threads[1]? = some th ∧
      th.op = .revokeFamily (sampleRow 0 0).familyId ∧ th.result = some (.count 2) := ⟨_, rfl, rfl, rfl⟩
  obtain ⟨y, hy⟩ : ∃ y, Succeeded behind 2 y := ⟨_, succeeded_of_read rfl⟩
  obtain ⟨m, row, hm, hf, hrow⟩ : ∃ m row, Inserted behind 2 m ∧
      m.familyId = (sampleLogin 0 0).draw.familyId ∧ behind.shared.rows.get m.selector = some row :=
    ⟨_, _, did_of_read (k := 1) rfl, rfl, rfl⟩
  exact ⟨y, m, row, hy, hm, hrow, (revocation_final_unless_overtaken sampleHmac true 1 _ _
    (.revokeFamily (sampleRow 0 0).familyId) 0 _ _ hs rfl (founded_sample rfl rfl) rfl hrun
    (.family hth hop hres)).2 2 y m row hy hm hf hrow⟩

end NebulaToken.Safety.ConcurrentRevocation
