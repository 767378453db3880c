import NebulaToken.Runs.RowLocks
import NebulaToken.Safety.TransactionalRevocation

/-! # What the SQL deployment has committed

What stands behind the rows that transactions see: the transaction that has inserted the record is
committed, and so is the login of its family; a pointer is that of a rotation; and a refresh that has
lost its rotation has revoked its successor before it commits.

* `visible`, `descends`: the transactions behind a row;
* `pointed`: the pointers;
* `cleaned`: the successors of lost rotations. -/

namespace NebulaToken.Safety.Publication

open NebulaToken.Lib.KeyedTable NebulaToken.Lib.Pool NebulaToken.Lib.Transition
open NebulaToken.Lib.ReadCommitted NebulaToken.Token.Unicode NebulaToken.Token.Wire
open NebulaToken.Engine.Records NebulaToken.Engine.Operations
open NebulaToken.Runs.Calls NebulaToken.Runs.History NebulaToken.Runs.Provenance
open NebulaToken.Runs.Assumptions NebulaToken.Runs.Families NebulaToken.Runs.Lineage
open NebulaToken.Runs.Transactions NebulaToken.Runs.RowLocks
open NebulaToken.Safety.TransactionalRevocation
open NebulaToken.Store.Contract NebulaToken.Store.Postgres

variable {H : HmacSha256} {s s' : PoolState RefreshTokens} {l : PoolLabel End}
  {G : PoolState RefreshTokens → PoolLabel End → Prop}

/-! ### Running statements -/

/-- A call waits until it is answered. -/
theorem waits_step (hs : Step (code H) postgres s l s') {i : ℕ} {q : StoreCall} (h : Waits s i q) :
    Waits s' i q ∨ ∃ rep, l = .answer i ⟨q, rep⟩ := by
  obtain ⟨th, k, hi, hp⟩ := h
  obtain ⟨th', hi', -⟩ := hs.grows hi
  rcases hs.thread_cases hi' with ⟨op, -, hlen, -⟩ | ⟨th₀, hi₀, -, -, hprog⟩ |
    ⟨th₀, q₀, k₀, rep, a, hi₀, -, hp₀, -, hl, -⟩
  · have := (List.getElem?_eq_some_iff.mp hi).1
    omega
  · obtain rfl := Option.some.inj (hi.symm.trans hi₀)
    exact Or.inl ⟨th', k, hi', hprog.trans hp⟩
  · obtain rfl := Option.some.inj (hi.symm.trans hi₀)
    cases hp.symm.trans hp₀
    exact Or.inr ⟨rep, hl⟩

/-- No statement of a call runs once it is answered. -/
theorem answered_idle {i : ℕ} {ev : StoreEvent} (h : Change s s' (.answer i ev)) :
    s'.shared.running i = none := by
  generalize hl : (Label.answer i ev : PoolLabel End) = l at h
  cases h with
  | selected hi hr h =>
    obtain ⟨rfl, -⟩ := Label.answer.inj hl
    rw [h]
    exact (idle_iff.mp hi).2
  | inserted hi hf hn h =>
    obtain ⟨rfl, -⟩ := Label.answer.inj hl
    rw [h]
    exact (idle_iff.mp hi).2
  | finished he hst htodo hrep h =>
    obtain ⟨rfl, -⟩ := Label.answer.inj hl
    rw [h]
    exact Db.running_setRunning_self
  | invoked | stopped | started | skipped | changed | committed | rolledBack | late => cases hl

/-- **A running statement is that of the store call its call waits for.** -/
theorem waiting (h : ((engines H postgres).under G).Reachable s) :
    ∀ i st, s.shared.running i = some st → Waits s i st.call := by
  refine h.invariant (I := fun s => ∀ i st, s.shared.running i = some st → Waits s i st.call) ?_ ?_
  · intro s hs i st hst
    rw [show s = ⟨postgres.start, []⟩ from hs] at hst
    cases hst
  · intro s l s' _ ih hs i st' hst'
    have hw : Waits s i st'.call := by
      cases ran (change hs.2) hst' with
      | kept hl hst he => exact ih i st' hst
      | @skipped st u k hq he hst hc hd hpast =>
        subst hpast
        exact ih i st hst
      | @changed st u k r hq he hst hr hc hd hpast =>
        subst hpast
        exact ih i st hst
      | @started q u hq hi hd he =>
        cases hs.2 with
        | @work _ th q' k a hth hm hp hwork =>
          cases hwork with
          | start hq' hidle =>
            have hst' : (s.shared.start i q' _).running i = some st' := hst'
            rw [Db.start, Db.running_setRunning_self] at hst'
            rw [← Option.some.inj hst']
            exact ⟨th, k, hth, hp⟩
          | come hq' hend hst hc hsel hf =>
            rw [(idle_iff.mp hi).2] at hst
            cases hst
    rcases waits_step hs.2 hw with hw' | ⟨rep, rfl⟩
    · exact hw'
    · rw [answered_idle (change hs.2)] at hst'
      cases hst'

/-- No statement of a call runs when it commits. -/
theorem still_of_commit (hr : ((engines H postgres).under G).Reachable s) {i : ℕ}
    (hw : Wrapped s (.env (.commit i))) : s.shared.running i = none := by
  obtain ⟨th, x, hi, -, hret⟩ := hw.commit i rfl
  by_contra hne
  obtain ⟨st, hst⟩ := Option.ne_none_iff_exists'.mp hne
  obtain ⟨th', k, hi', hp⟩ := waiting hr i st hst
  obtain rfl := Option.some.inj (hi.symm.trans hi')
  rw [hret] at hp
  cases hp

/-- **How a running statement goes on.** -/
theorem running_step (h : Change s s' l) {i : ℕ} {st : Statement Str StoreCall}
    (hst : s.shared.running i = some st) :
    (∃ st', s'.shared.running i = some st' ∧ st'.call = st.call ∧ st.rowCount ≤ st'.rowCount) ∨
    (∃ rep, l = .answer i ⟨st.call, rep⟩) ∨ l = .env (.commit i) ∨ l = .env (.rollback i) := by
  have hkeep : s'.shared.running i = s.shared.running i →
      ∃ st', s'.shared.running i = some st' ∧ st'.call = st.call ∧ st.rowCount ≤ st'.rowCount :=
    fun he => ⟨st, he.trans hst, rfl, le_rfl⟩
  cases h with
  | invoked h | stopped h | selected hi hr h | late ha he h => exact Or.inl (hkeep (by rw [h]))
  | inserted hi hf hn h => exact Or.inl (hkeep (by rw [h]; rfl))
  | @started j q u hw hq hi h =>
    refine Or.inl (hkeep ?_)
    have hij : i ≠ j := by
      rintro rfl
      rw [(idle_iff.mp hi).2] at hst
      cases hst
    rw [h, Db.start, Db.running_setRunning_ne hij]
  | @skipped j st₀ u k hw hq he hst₀ hc h =>
    rcases eq_or_ne i j with rfl | hij
    · obtain rfl := Option.some.inj (hst.symm.trans hst₀)
      exact Or.inl ⟨st.past k 0, by rw [h, Db.running_setRunning_self], rfl, Nat.le_add_right _ _⟩
    · exact Or.inl (hkeep (by rw [h, Db.running_setRunning_ne hij]))
  | @changed j st₀ u k r hw hq he hst₀ hf hr hc h =>
    rcases eq_or_ne i j with rfl | hij
    · obtain rfl := Option.some.inj (hst.symm.trans hst₀)
      exact Or.inl ⟨st.past k 1, by rw [h, Db.running_setRunning_self], rfl, Nat.le_add_right _ _⟩
    · exact Or.inl (hkeep (by rw [h, Db.running_setRunning_ne hij]; rfl))
  | @finished j st₀ rep he hst₀ htodo hrep h =>
    rcases eq_or_ne i j with rfl | hij
    · obtain rfl := Option.some.inj (hst.symm.trans hst₀)
      exact Or.inr (Or.inl ⟨rep, rfl⟩)
    · exact Or.inl (hkeep (by rw [h, Db.running_setRunning_ne hij]))
  | @committed j he h =>
    rcases eq_or_ne i j with rfl | hij
    · exact Or.inr (Or.inr (Or.inl rfl))
    · exact Or.inl (hkeep (by rw [h, Db.commit, if_pos he, Db.running_close, if_neg hij]))
  | @rolledBack j he h =>
    rcases eq_or_ne i j with rfl | hij
    · exact Or.inr (Or.inr (Or.inr rfl))
    · exact Or.inl (hkeep (by rw [h, Db.rollback, if_pos he, Db.running_close, if_neg hij]))

/-- The statement by which a transaction has written a version. -/
theorem statement_of_write {i : ℕ} (h : Change s s' (.work i)) {k : Str} {r' : TokenRecord}
    (hd' : s'.shared.dirty.get k = some (i, r')) (hd : s.shared.dirty.get k ≠ some (i, r')) :
    ∃ c u r st', update c = some u ∧ s.shared.seen i k = some r ∧ u.cond r = true ∧ r' = u.set r ∧
      s'.shared.running i = some st' ∧ st'.call = c ∧ 0 < st'.rowCount := by
  generalize hl : (Label.work i : PoolLabel End) = l at h
  cases h with
  | started hw hq hi h | skipped hw hq he hst hc h =>
    rw [h] at hd'
    exact absurd hd' hd
  | @changed j st u k₀ r hw hq he hst hf hr hc h =>
    obtain rfl := Label.work.inj hl
    rcases eq_or_ne k k₀ with rfl | hk
    · have hd₁ : (s.shared.write i k (u.set r)).dirty.get k = some (i, r') := by
        rw [h] at hd'
        exact hd'
      rw [Db.get_write_self] at hd₁
      obtain ⟨-, rfl⟩ := Prod.mk.inj (Option.some.inj hd₁)
      exact ⟨st.call, u, r, st.past k 1, hq, hr, hc, rfl, by rw [h, Db.running_setRunning_self], rfl,
        Nat.succ_pos _⟩
    · rw [h] at hd'
      exact absurd ((Db.get_write_ne hk).symm.trans hd') hd
  | invoked | stopped | selected | inserted | finished | committed | rolledBack | late => cases hl

theorem idle_of_find {a a' : RefreshTokens} {i : ℕ} {sel : Str} {r : Option TokenRecord}
    (h : answer a i (.findBySelector sel) = some (r, a')) : idle a i = true := by
  unfold answer at h
  split_ifs at h with hi
  exact hi

/-! ### The transactions behind a row -/

/-- The record of the version was inserted by call `i`. -/
def InsertedBy (s : PoolState RefreshTokens) (i : ℕ) (sel : Str) (r : TokenRecord) : Prop :=
  ∃ n, Inserted s i n ∧ n.selector = sel ∧ minted r = minted n

theorem InsertedBy.mono {i : ℕ} {sel : Str} {r : TokenRecord} (h : InsertedBy s i sel r)
    (hs : Step (code H) postgres s l s') : InsertedBy s' i sel r := by
  obtain ⟨n, hi, hn, he⟩ := h
  exact ⟨n, did_mono hi hs, hn, he⟩

theorem InsertedBy.congr {i : ℕ} {sel : Str} {r r' : TokenRecord} (h : InsertedBy s i sel r)
    (he : minted r' = minted r) : InsertedBy s i sel r' := by
  obtain ⟨n, hi, hn, hm⟩ := h
  exact ⟨n, hi, hn, he.trans hm⟩

/-- **Who has inserted the rows that transactions see**: themselves, or a transaction that is
committed. -/
structure Visible (s : PoolState RefreshTokens) : Prop where
  committed : ∀ sel r, s.shared.committed.get sel = some r →
    ∃ i, InsertedBy s i sel r ∧ s.shared.ended i = some .committed
  dirty : ∀ sel j r, s.shared.dirty.get sel = some (j, r) →
    ∃ i, InsertedBy s i sel r ∧ (i = j ∨ s.shared.ended i = some .committed)
  found : ∀ j sel r, s.Did j ⟨.findBySelector sel, some r⟩ →
    ∃ i, InsertedBy s i sel r ∧ s.shared.ended i = some .committed

/-- A call has inserted nothing when it looks a selector up. -/
theorem find_request {op : Operation} {tr : List StoreEvent} {sel : Str}
    {k : Option TokenRecord → StoreM Outcome} (h : CallAt H op tr (.call (.findBySelector sel) k))
    (n : TokenRecord) : (⟨.insert n, ()⟩ : StoreEvent) ∉ tr := by
  rcases callAt_call h with ⟨c, k', -, h'⟩ | ⟨c, k', rfl, h'⟩ | ⟨e, token, k', -, h'⟩ | h'
  · cases h'
  · cases h' with
    | lookup hp => simp
    | successorLookup hp hs hg => simp
  · cases h' with
    | lookup hp => simp
  · cases h'

theorem Visible.seen (hv : Visible s) {j : ℕ} {sel : Str} {r : TokenRecord}
    (h : s.shared.seen j sel = some r) :
    ∃ i, InsertedBy s i sel r ∧ (i = j ∨ s.shared.ended i = some .committed) := by
  rcases Db.seen_cases h with hd | ⟨hc, -⟩
  · exact hv.dirty sel j r hd
  · obtain ⟨i, hi, he⟩ := hv.committed sel r hc
    exact ⟨i, hi, Or.inr he⟩

theorem Visible.init : Visible ⟨postgres.start, []⟩ where
  committed sel r h := by cases h
  dirty sel j r h := by cases h
  found j sel r h := by
    obtain ⟨th, hi, -⟩ := h
    cases hi

theorem Visible.step (hv : Visible s) (hr : ((engines H postgres).under G).Reachable s)
    (hs : Step (code H) postgres s l s') : Visible s' := by
  have hch := change hs
  refine ⟨?_, ?_, ?_⟩
  · intro sel r hc
    rcases committed_step hch sel with hsame | ⟨j, r', rfl, ho, hd, hc'⟩
    · obtain ⟨i, hi, he⟩ := hv.committed sel r (hsame.symm.trans hc)
      exact ⟨i, hi.mono hs, ended_mono hch he⟩
    · obtain rfl := Option.some.inj (hc'.symm.trans hc)
      obtain ⟨i, hi, he⟩ := hv.dirty sel j r' hd
      refine ⟨i, hi.mono hs, ?_⟩
      rcases he with rfl | he
      · rw [commit_step hch ho, Db.commit, if_pos ho, Db.ended_close, if_pos rfl]
      · exact ended_mono hch he
  · intro sel j r hd'
    rcases dirty_back hch hd' with hd | hw
    · obtain ⟨i, hi, he⟩ := hv.dirty sel j r hd
      exact ⟨i, hi.mono hs, he.imp_right fun he => ended_mono hch he⟩
    · cases hw with
      | insert hi hk hn => exact ⟨j, ⟨r, hs.did_iff.mpr (Or.inr rfl), hk, rfl⟩, Or.inl rfl⟩
      | @update q u r₀ hwait hq hseen hc heq hend =>
        obtain ⟨i, hi, he⟩ := hv.seen hseen
        subst heq
        refine ⟨i, (hi.congr ?_).mono hs, he.imp_right fun he => ended_mono hch he⟩
        exact (update_later hq hc (not_revoked_of_waits hr hwait)).2
  · intro j sel r hd
    rcases hs.did_iff.mp hd with hold | rfl
    · obtain ⟨i, hi, he⟩ := hv.found j sel r hold
      exact ⟨i, hi.mono hs, ended_mono hch he⟩
    · obtain ⟨th, k, hth, hat, ha⟩ := callAt_answer hr hs
      obtain ⟨i, hi, he⟩ := hv.seen (answer_find ha).1.symm
      refine ⟨i, hi.mono hs, ?_⟩
      rcases he with rfl | he
      · obtain ⟨n, ⟨th', hth', hev⟩, -⟩ := hi
        obtain rfl := Option.some.inj (hth.symm.trans hth')
        exact absurd hev (find_request hat n)
      · exact ended_mono hch he

theorem visible (h : ((engines H postgres).under G).Reachable s) : Visible s :=
  h.invariant (I := Visible) (fun s hs => by rw [show s = ⟨postgres.start, []⟩ from hs]; exact .init)
    fun _ _ _ hr hv hs => hv.step hr hs.2

/-- **Behind a record is the login of its family**, of the same transaction or committed. -/
theorem descends (h : ((engines H postgres).under FreshDraws).Reachable s) :
    ∀ j n, Inserted s j n → ∃ i c n₀, Founded H s i c n₀ ∧ n.familyId = c.draw.familyId ∧
      (i = j ∨ s.shared.ended i = some .committed) := by
  refine h.invariant (I := fun s => ∀ j n, Inserted s j n → ∃ i c n₀, Founded H s i c n₀ ∧
    n.familyId = c.draw.familyId ∧ (i = j ∨ s.shared.ended i = some .committed)) ?_ ?_
  · rintro s hs j n ⟨th, hi, -⟩
    rw [show s = ⟨postgres.start, []⟩ from hs] at hi
    cases hi
  · intro s l s' hr ih hs j n hins
    have hch := change hs.2
    rcases hs.2.did_iff.mp hins with hold | rfl
    · obtain ⟨i, c, n₀, hf, hfam, he⟩ := ih j n hold
      exact ⟨i, c, n₀, hf.mono hs.2, hfam, he.imp_right fun he => ended_mono hch he⟩
    · obtain ⟨th, k, hth, hc, -⟩ := callAt_answer hr hs.2
      generalize hop : th.op = op at hc
      generalize htr : th.trace = tr at hc
      cases insert_request hc with
      | issue hn =>
        exact ⟨j, _, n, ⟨OpAt.mono ⟨th, hth, hop⟩ hs.2, hn, hins⟩, (OfFamily.of_mints hn).family,
          Or.inl rfl⟩
      | refresh ht hn =>
        -- the row the call has read was committed, and so was the login of its family
        obtain ⟨sel, pepper, -, hmem⟩ := ht.found
        obtain ⟨m, ⟨n', hm, -, hmin⟩, hend⟩ :=
          (visible hr).found j sel _ (did_of_mem hth (htr ▸ hmem))
        obtain ⟨i, c, n₀, hf, hfam, he⟩ := ih m n' hm
        refine ⟨i, c, n₀, hf.mono hs.2, ?_, Or.inr (ended_mono hch ?_)⟩
        · rw [(Follows.of_mints hn).familyId, ← hfam]
          exact (congrArg TokenRecord.familyId hmin :)
        · rcases he with rfl | he
          · exact hend
          · exact he

/-- **No row of a family is committed before its login.** -/
theorem login_committed (hr : ((engines H postgres).under FreshDraws).Reachable s) {k : ℕ} {c : IssueCall}
    {n : TokenRecord} (hf : Founded H s k c n) {sel : Str} {r : TokenRecord}
    (hrow : s.shared.committed.get sel = some r) (hfam : r.familyId = c.draw.familyId) :
    s.shared.ended k = some .committed := by
  obtain ⟨m, ⟨n', hm, -, hmin⟩, hend⟩ := (visible hr).committed sel r hrow
  obtain ⟨i, c', n₀, hf', hfam', he⟩ := descends hr m n' hm
  have hn : n'.familyId = r.familyId := (congrArg TokenRecord.familyId hmin :).symm
  obtain ⟨rfl, -⟩ := founded_unique hr hf.opAt hf'.opAt (hfam.symm.trans (hn.symm.trans hfam'))
  rcases he with rfl | he
  · exact hend
  · exact he

/-! ### Pointers -/

/-- The row of `p` has been rotated to `q`. -/
def Rotated (s : PoolState RefreshTokens) (p q : Str) : Prop := ∃ i f x, Marked s i p f x q

theorem Rotated.mono {p q : Str} (h : Rotated s p q) (hs : Step (code H) postgres s l s') :
    Rotated s' p q := by
  obtain ⟨i, f, x, hm⟩ := h
  exact ⟨i, f, x, did_mono hm hs⟩

/-- Call `j` is rotating the row of `p` to `q`, and has come to the row. -/
def Rotating (s : PoolState RefreshTokens) (j : ℕ) (p q : Str) : Prop :=
  ∃ st f x, s.shared.running j = some st ∧ st.call = .markRotated p f x q ∧ 0 < st.rowCount

/-- A rotation comes to one row. -/
theorem single_row (h : ((engines H postgres).under G).Reachable s) :
    ∀ j st p f x q, s.shared.running j = some st → st.call = .markRotated p f x q →
      (∀ k ∈ st.todo, k = p) ∧ (st.rowCount = 0 ∨ (st.rowCount = 1 ∧ st.todo = [])) := by
  refine h.invariant (I := fun s => ∀ j st p f x q, s.shared.running j = some st →
    st.call = .markRotated p f x q →
      (∀ k ∈ st.todo, k = p) ∧ (st.rowCount = 0 ∨ (st.rowCount = 1 ∧ st.todo = []))) ?_ ?_
  · intro s hs j st p f x q hst
    rw [show s = ⟨postgres.start, []⟩ from hs] at hst
    cases hst
  · intro s l s' hr ih hs j st' p f x q hst' hcall
    have hV := versions hr
    cases ran (change hs.2) hst' with
    | kept hl hst he => exact ih j st' p f x q hst hcall
    | @started q' u hq hi hd he =>
      subst he
      have hcall : q' = .markRotated p f x q := hcall
      subst hcall
      refine ⟨fun k hk => ?_, Or.inl rfl⟩
      obtain ⟨r, hseen, hc⟩ := Db.of_mem_candidates hk
      exact (hV.seen hseen).selector.symm.trans (update_mark hq hc).1
    | @skipped st u k hq he hst hc hd hpast =>
      subst hpast
      obtain ⟨hall, hcount⟩ := ih j st p f x q hst hcall
      refine ⟨fun k' hk' => hall k' (List.mem_of_mem_filter hk'), ?_⟩
      rcases hcount with h0 | ⟨h1, htodo⟩
      · exact Or.inl h0
      · exact Or.inr ⟨h1, by simp [Statement.past, htodo]⟩
    | @changed st u k r hq he hst hseen hc hd hpast =>
      subst hpast
      have hcall : st.call = .markRotated p f x q := hcall
      obtain ⟨hall, hcount⟩ := ih j st p f x q hst hcall
      rw [hcall] at hq
      obtain rfl : k = p := (hV.seen hseen).selector.symm.trans (update_mark hq hc).1
      have hnil : (st.past k 1).todo = [] := by
        rw [Statement.past, List.filter_eq_nil_iff]
        exact fun k' hk' => by simp [hall k' hk']
      have hzero : st.rowCount = 0 := by
        rcases hcount with h0 | ⟨-, htodo⟩
        · exact h0
        · cases hs.2 with
          | work hth hm hp hwork =>
            cases hwork with
            | start hq' hidle =>
              rw [(idle_iff.mp hidle).2] at hst
              cases hst
            | come hq' he' hst₀ hcall' hsel hf =>
              obtain rfl := Option.some.inj (hst.symm.trans hst₀)
              rw [htodo] at hsel
              cases hsel
      refine ⟨fun k' hk' => ?_, Or.inr ⟨?_, hnil⟩⟩
      · rw [hnil] at hk'
        cases hk'
      · simp [Statement.past, hzero]

/-- **The pointers are those of rotations.** -/
structure Pointed (s : PoolState RefreshTokens) : Prop where
  committed : ∀ p r q, s.shared.committed.get p = some r → r.replacedBySelector = some q → Rotated s p q
  dirty : ∀ p j r q, s.shared.dirty.get p = some (j, r) → r.replacedBySelector = some q →
    Rotated s p q ∨ Rotating s j p q
  found : ∀ k p r q, s.Did k ⟨.findBySelector p, some r⟩ → r.replacedBySelector = some q → Rotated s p q

theorem Pointed.init : Pointed ⟨postgres.start, []⟩ where
  committed p r q h := by cases h
  dirty p j r q h := by cases h
  found k p r q h := by
    obtain ⟨th, hi, -⟩ := h
    cases hi

theorem Pointed.seen (hP : Pointed s) {j : ℕ} {p q : Str} {r : TokenRecord}
    (h : s.shared.seen j p = some r) (hq : r.replacedBySelector = some q) :
    Rotated s p q ∨ Rotating s j p q := by
  rcases Db.seen_cases h with hd | ⟨hc, -⟩
  · exact hP.dirty p j r q hd hq
  · exact Or.inl (hP.committed p r q hc hq)

/-- A rotation that has come to its row goes on, or has rotated it. -/
theorem rotating_step (hr : ((engines H postgres).under G).Reachable s)
    (hs : Step (code H) postgres s l s') {j : ℕ} {p q : Str} (h : Rotating s j p q) :
    Rotated s' p q ∨ Rotating s' j p q ∨ l = .env (.commit j) ∨ l = .env (.rollback j) := by
  obtain ⟨st, f, x, hst, hcall, hpos⟩ := h
  rcases running_step (change hs) hst with ⟨st', hst', hcall', hle⟩ | ⟨rep, rfl⟩ | hl
  · exact Or.inr (Or.inl ⟨st', f, x, hst', hcall'.trans hcall, by omega⟩)
  · obtain ⟨-, hcount⟩ := single_row hr j st p f x q hst hcall
    obtain ⟨c, todo, m⟩ := st
    obtain rfl : c = .markRotated p f x q := hcall
    obtain ⟨th, k, -, -, -, ha⟩ := answer_inv hs
    obtain ⟨⟨n, a⟩, hn, he⟩ := Option.map_eq_some_iff.mp ha
    obtain ⟨st₁, hst₁, -, -, -, rfl, -⟩ := rowCount_some hn
    obtain rfl := Option.some.inj (hst.symm.trans hst₁)
    -- it has changed its one row, and is answered so
    obtain rfl : rep = true := by
      have hone : m = 1 := by
        dsimp only at hpos hcount
        omega
      exact (Prod.mk.inj he).1.symm.trans (by simp [hone])
    exact Or.inl ⟨j, f, x, hs.did_iff.mpr (Or.inr rfl)⟩
  · exact Or.inr (Or.inr hl)

theorem Pointed.step (hP : Pointed s) (hr : ((engines H postgres).under Wrapped).Reachable s)
    (hs : ((engines H postgres).under Wrapped).step s l s') : Pointed s' := by
  have hch := change hs.2
  have hV := versions hr
  refine ⟨?_, ?_, ?_⟩
  · intro p r q hc hq
    rcases committed_step hch p with hsame | ⟨j, r', rfl, ho, hd, hc'⟩
    · exact (hP.committed p r q (hsame.symm.trans hc) hq).mono hs.2
    · obtain rfl := Option.some.inj (hc'.symm.trans hc)
      rcases hP.dirty p j r' q hd hq with hrot | ⟨st, f, x, hst, -⟩
      · exact hrot.mono hs.2
      · rw [still_of_commit hr hs.1] at hst
        cases hst
  · intro p j r' q hd' hq
    have hgo : Rotated s p q ∨ Rotating s j p q → Rotated s' p q ∨ Rotating s' j p q := by
      rintro (hrot | hrot)
      · exact Or.inl (hrot.mono hs.2)
      · have ho : s.shared.ended j = none := by
          obtain ⟨st, -, -, hst, -⟩ := hrot
          exact (locks hr).opened j st hst
        rcases rotating_step hr hs.2 hrot with h | h | hl
        · exact Or.inl h
        · exact Or.inr h
        · exact absurd hd' (not_held_of_end hch ho hl p r')
    rcases dirty_back hch hd' with hd | hw
    · exact hgo (hP.dirty p j r' q hd hq)
    · cases hw with
      | insert hi hk hn =>
        obtain ⟨th, k, -, hc, -⟩ := callAt_answer hr hs.2
        rw [(insert_request hc).mint.2.2] at hq
        cases hq
      | update =>
        by_cases hd : s.shared.dirty.get p = some (j, r')
        · exact hgo (hP.dirty p j r' q hd hq)
        · obtain ⟨c, u, r, st', hu, hseen, hcond, rfl, hst', hcall', hpos⟩ := statement_of_write hch hd' hd
          cases c with
          | findBySelector | insert => cases hu
          | markRotated p' f x q' =>
            obtain rfl : p = p' := (hV.seen hseen).selector.symm.trans (update_mark hu hcond).1
            obtain rfl := Option.some.inj hu
            obtain rfl : q' = q := Option.some.inj hq
            exact Or.inr ⟨st', f, x, hst', hcall', hpos⟩
          | revokeIfActive | revokeFamily | revokeUser =>
            obtain rfl := Option.some.inj hu
            exact hgo (hP.seen hseen hq)
  · intro k p r q hd hq
    rcases hs.2.did_iff.mp hd with hold | rfl
    · exact (hP.found k p r q hold hq).mono hs.2
    · obtain ⟨th, c, -, -, -, ha⟩ := answer_inv hs.2
      rcases hP.seen (answer_find ha).1.symm hq with hrot | ⟨st, f, x, hst, -⟩
      · exact hrot.mono hs.2
      · rw [(idle_iff.mp (idle_of_find ha)).2] at hst
        cases hst

theorem pointed (h : ((engines H postgres).under Wrapped).Reachable s) : Pointed s :=
  h.invariant (I := Pointed) (fun s hs => by rw [show s = ⟨postgres.start, []⟩ from hs]; exact .init)
    fun _ _ _ hr hP hs => hP.step hr hs

/-! ### Successors of lost rotations -/

/-- The successor that call `k` has inserted and then revoked. -/
def Withdrawn (s : PoolState RefreshTokens) (k : ℕ) (sel : Str) : Prop :=
  ∃ n b, Inserted s k n ∧ n.selector = sel ∧ s.Did k ⟨.revokeIfActive sel, b⟩

/-- A single revocation is of a selector that some call has stored. -/
theorem known_of_cleared (hr : ((engines H postgres).under G).Reachable s) {k : ℕ} {sel : Str} {b : Bool}
    (h : s.Did k ⟨.revokeIfActive sel, b⟩) : Known s sel := by
  obtain ⟨th, tr, c, hth, hsuf, hat⟩ := callAt_did hr h
  generalize hop : th.op = op at hat
  have hd : ∀ ev ∈ tr, s.Did k ev := fun ev hev =>
    did_of_mem hth (hsuf.mem (List.mem_cons_of_mem _ hev))
  cases clear_request hat with
  | @displace c r d sel₀ pepper q t hp hst hg ha hdev hsel =>
    obtain ⟨i, n, hi, hn, hm⟩ := (versions hr).found k q d (hd _ (by simp))
    refine ⟨i, n, hi, ?_⟩
    rw [hsel]
    exact (congrArg TokenRecord.selector hm :).symm
  | @cleanup c r n f t tr ht hn hsel => exact ⟨k, n, hd _ (by simp), hsel.symm⟩

/-- **What is known of the successors that calls withdraw**: a running statement has still to come to its
own version while it is active, and has left none active once it is answered. -/
structure Cleaned (s : PoolState RefreshTokens) : Prop where
  running : ∀ k st sel r, s.shared.running k = some st → st.call = .revokeIfActive sel →
    s.shared.dirty.get sel = some (k, r) → r.status = .active → sel ∈ st.todo
  opened : ∀ k sel r, Withdrawn s k sel → s.shared.dirty.get sel = some (k, r) → r.status ≠ .active
  closed : ∀ k sel r, Withdrawn s k sel → s.shared.ended k = some .committed →
    s.shared.committed.get sel = some r → r.status ≠ .active

theorem Cleaned.init : Cleaned ⟨postgres.start, []⟩ where
  running k st sel r h := by cases h
  opened k sel r h := by
    obtain ⟨n, b, ⟨th, hi, -⟩, -⟩ := h
    cases hi
  closed k sel r h := by
    obtain ⟨n, b, ⟨th, hi, -⟩, -⟩ := h
    cases hi

/-- An active version of a transaction was there before, or it has just inserted it. -/
theorem active_back (hs : Step (code H) postgres s l s') {k : ℕ} {sel : Str} {r : TokenRecord}
    (hd' : s'.shared.dirty.get sel = some (k, r)) (ha : r.status = .active) :
    s.shared.dirty.get sel = some (k, r) ∨
    (l = .answer k ⟨.insert r, ()⟩ ∧ r.selector = sel ∧ s.shared.running k = none) := by
  rcases dirty_back (change hs) hd' with hd | hw
  · exact Or.inl hd
  · cases hw with
    | insert hi hk hn => exact Or.inr ⟨rfl, hk, (idle_iff.mp hi).2⟩
    | update hwait hq hseen hc he hend => exact absurd ha (he ▸ update_leaves hq _)

theorem Cleaned.running_step (hC : Cleaned s) (hr : ((engines H postgres).under G).Reachable s)
    (hs : Step (code H) postgres s l s') : ∀ k st sel r, s'.shared.running k = some st →
      st.call = .revokeIfActive sel → s'.shared.dirty.get sel = some (k, r) → r.status = .active →
      sel ∈ st.todo := by
  intro k st' sel r hst' hcall hd' ha
  have hch := change hs
  have hback : s.shared.dirty.get sel = some (k, r) := by
    rcases active_back hs hd' ha with hd | ⟨rfl, -⟩
    · exact hd
    · rw [answered_idle hch] at hst'
      cases hst'
  have hcond : ∀ {c : StoreCall} {u : Update TokenRecord}, c = .revokeIfActive sel →
      update c = some u → u.cond r = true := by
    rintro c u rfl hu
    obtain rfl := Option.some.inj hu
    have hsel := ((versions hr).dirty sel k r hback).1.selector
    simp [hsel, ha]
  cases ran hch hst' with
  | kept hl hst he => exact hC.running k st' sel r hst hcall hback ha
  | @started q u hq hi hd he =>
    subst he
    exact Db.mem_candidates_own hback (active_dirty hr sel k r hback ha).1 (hcond hcall hq)
  | @skipped st u k₀ hq he hst hc hd hpast =>
    subst hpast
    refine Statement.mem_past (hC.running k st sel r hst hcall hback ha) ?_
    rintro rfl
    have := hc r (Db.seen_own hback)
    rw [hcond (c := st.call) hcall hq] at this
    cases this
  | @changed st u k₀ r₀ hq he hst hseen hc hd hpast =>
    subst hpast
    refine Statement.mem_past (hC.running k st sel r hst hcall hback ha) ?_
    rintro rfl
    obtain ⟨-, rfl⟩ := Prod.mk.inj (Option.some.inj (hd.symm.trans hd'))
    exact update_leaves hq r₀ ha

/-- A step that withdraws a successor answers its revocation. -/
theorem withdrawn_back (hr : ((engines H postgres).under FreshDraws).Reachable s)
    (hs : ((engines H postgres).under FreshDraws).step s l s') {k : ℕ} {sel : Str}
    (h : Withdrawn s' k sel) : Withdrawn s k sel ∨ ∃ b, l = .answer k ⟨.revokeIfActive sel, b⟩ := by
  obtain ⟨n, b, hi, hn, hd⟩ := h
  rcases hs.2.did_iff.mp hd with hold | rfl
  · rcases hs.2.did_iff.mp hi with hiold | rfl
    · exact Or.inl ⟨n, b, hiold, hn, hold⟩
    · exact absurd (hn ▸ known_of_cleared hr hold) (noReinsert_guard hr hs k n rfl)
  · exact Or.inr ⟨b, rfl⟩

theorem Cleaned.step (hC : Cleaned s) (hr : ((engines H postgres).under FreshDraws).Reachable s)
    (hs : ((engines H postgres).under FreshDraws).step s l s') : Cleaned s' := by
  have hch := change hs.2
  refine ⟨hC.running_step hr hs.2, ?_, ?_⟩
  · intro k sel r hw hd' ha
    rcases active_back hs.2 hd' ha with hd | ⟨rfl, rfl, -⟩
    · rcases withdrawn_back hr hs hw with hold | ⟨b, rfl⟩
      · exact hC.opened k sel r hold hd ha
      · -- its statement has come to all rows
        generalize hl : (Label.answer k ⟨.revokeIfActive sel, b⟩ : PoolLabel End) = l at hch
        cases hch with
        | @finished j st rep he hst htodo hrep h =>
          obtain ⟨rfl, hev⟩ := Label.answer.inj hl
          have hin := hC.running k st sel r hst (Event.mk.inj hev).1.symm hd ha
          rw [htodo] at hin
          cases hin
        | selected | inserted =>
          obtain ⟨-, hev⟩ := Label.answer.inj hl
          cases hev
        | invoked | stopped | started | skipped | changed | committed | rolledBack | late => cases hl
    · rcases withdrawn_back hr hs hw with ⟨n, b, -, -, hold⟩ | ⟨b, hl⟩
      · exact noReinsert_guard hr hs k r rfl (known_of_cleared hr hold)
      · cases hl
  · intro k sel r hw he' hc' ha
    have hold : Withdrawn s k sel := by
      rcases withdrawn_back hr hs hw with hold | ⟨b, rfl⟩
      · exact hold
      · rw [open_of_answer hch] at he'
        cases he'
    rcases committed_step hch sel with hsame | ⟨j, r', rfl, ho, hd, hcj⟩
    · rcases ended_step hch k with hend | ⟨ho, ⟨rfl, -⟩ | ⟨-, hrb⟩⟩
      · exact hC.closed k sel r hold (hend.symm.trans he') (hsame.symm.trans hc') ha
      · rw [commit_step hch ho, Db.get_commit ho] at hc'
        rcases Db.seen_cases hc' with hd | ⟨-, hno⟩
        · exact hC.opened k sel r hold hd ha
        · obtain ⟨n, b, hi, rfl, -⟩ := hold
          obtain ⟨r₁, hd₁⟩ := ((versions hr).inserted k n hi).1 ho
          exact hno r₁ hd₁
      · rw [he'] at hrb
        cases hrb
    · obtain rfl := Option.some.inj (hcj.symm.trans hc')
      -- the version that is committed is of the call that has withdrawn it
      obtain ⟨n, b, hi, hn, -⟩ := id hold
      have hsel := ((versions hr).dirty sel j r' hd).1.selector
      obtain ⟨rfl, -⟩ :=
        inserted_unique hr hi (active_dirty hr sel j r' hd ha).2 (hn.trans hsel.symm)
      exact hC.opened k sel r' hold hd ha

theorem cleaned (h : ((engines H postgres).under FreshDraws).Reachable s) : Cleaned s :=
  h.invariant (I := Cleaned) (fun s hs => by rw [show s = ⟨postgres.start, []⟩ from hs]; exact .init)
    fun _ _ _ hr hC hs => hC.step hr hs

end NebulaToken.Safety.Publication
