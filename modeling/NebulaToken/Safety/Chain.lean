import NebulaToken.Lib.Pointers
import NebulaToken.Runs.Execution
import NebulaToken.Runs.Links
import NebulaToken.Store.Concurrent

/-! # The chain of a family

From the first record of a family the pointers lead through its generations, one after another, to a
record that was not rotated. What is off the chain was revoked, or was never delivered.

* `stray_of_unreturned`: a call that proves a token nobody was given leaves rows off the chain;
* `chain_wellFormed`: the walk along the pointers, and what is off it. -/

namespace NebulaToken.Safety.Chain

open NebulaToken.Lib.Pool NebulaToken.Lib.Transition NebulaToken.Lib.Pointers
open NebulaToken.Token.Unicode NebulaToken.Token.Wire NebulaToken.Engine.Records
open NebulaToken.Engine.Operations NebulaToken.Runs.Calls NebulaToken.Runs.History
open NebulaToken.Runs.Provenance NebulaToken.Runs.Assumptions NebulaToken.Runs.Families
open NebulaToken.Runs.Lineage NebulaToken.Runs.Unforked NebulaToken.Runs.Links
open NebulaToken.Runs.Execution NebulaToken.Store.Contract NebulaToken.Store.Memory
open NebulaToken.Store.Concurrent (isBulk)

/-- The row that a row points to. -/
def next (rows : Rows) (r : TokenRecord) : Option TokenRecord := r.replacedBySelector.bind rows.get

/-- A bulk revocation that covers the family has been answered. -/
def BulkRevoked (s : PoolState Rows) (c : IssueCall) : Prop :=
  ∃ i q rep, s.Did i ⟨q, rep⟩ ∧ CoversFamily q c

/-- The record of the selector is a successor of a refresh that has not returned, or will not, and has
delivered no token. -/
def Unfinished (s : PoolState Rows) (sel : Str) : Prop :=
  ∃ (i : ℕ) (th : Call) (c : RefreshCall) (n : TokenRecord), s.threads[i]? = some th ∧
    th.op = .refresh c ∧ th.mode ≠ .returned ∧ Inserted s i n ∧ n.selector = sel ∧
    ∀ tok, ¬ Delivers s i tok

/-- A row of the family that `c` founds, under its own selector. -/
structure Member (s : PoolState Rows) (c : IssueCall) (r : TokenRecord) : Prop where
  row : s.shared.get r.selector = some r
  family : OfFamily c r

variable {H : HmacSha256} {s : PoolState Rows} {c : IssueCall}

/-! ### The walk -/

/-- A pointer leads to the next generation. -/
theorem follows_next (hs : ((engines H memory).under FreshDraws).Reachable s) {a b : TokenRecord}
    (ha : Member s c a) (hn : next s.shared a = some b) : Member s c b ∧ Follows a b := by
  have hK := knowledge memoryStore (noReinsert_of_freshDraws hs)
  obtain ⟨q, hq, hb⟩ := Option.bind_eq_some_iff.mp hn
  obtain ⟨i, f, t, hm⟩ := pointer_row memoryStore hs a.selector a q ha.row hq
  have hsel : b.selector = q := hK.row_selector hb
  have hf := follows_of_marked memoryStore hs hm (.of_row hK ha.row) (.of_row hK hb)
  exact ⟨⟨hsel ▸ hb, hf.ofFamily ha.family⟩, hf⟩

/-- A row that points somewhere points to a row. -/
theorem next_isSome (hs : ((engines H memory).under FreshDraws).Reachable s) {a : TokenRecord}
    (ha : Member s c a) (hq : a.replacedBySelector ≠ none) : next s.shared a ≠ none := by
  obtain ⟨q, hq⟩ := Option.ne_none_iff_exists'.mp hq
  obtain ⟨i, f, t, hm⟩ := pointer_row memoryStore hs a.selector a q ha.row hq
  obtain ⟨n, hch, hn⟩ := child_of_marked hs hm
  have hpres := child_present memoryStore hs _ n hch
    (by rw [show memoryStore.look s.shared a.selector = _ from ha.row]; exact Option.some_ne_none a)
  rw [hn] at hpres
  rw [next, hq]
  exact hpres

/-- Generations are bounded. -/
theorem generation_bound {G : PoolState Rows → PoolLabel ℤ → Prop}
    (h : ((engines H memory).under G).Reachable s) :
    ∃ N, ∀ i n, Inserted s i n → n.generation < N := by
  refine h.invariant (I := fun s => ∃ N, ∀ i n, Inserted s i n → n.generation < N) ?_ ?_
  · rintro s hs
    refine ⟨0, ?_⟩
    rintro i n ⟨th, hi, -⟩
    rw [show s = ⟨memory.start, []⟩ from hs] at hi
    cases hi
  · rintro s l s' - ⟨N, hN⟩ hs
    by_cases hl : ∃ i n, l = .answer i ⟨.insert n, ()⟩
    · obtain ⟨i, n, rfl⟩ := hl
      refine ⟨max N (n.generation + 1), fun j m hm => ?_⟩
      rcases hs.2.did_iff.mp hm with hold | hl
      · exact lt_max_of_lt_left (hN j m hold)
      · cases hl
        exact lt_max_of_lt_right (Nat.lt_succ_self _)
    · refine ⟨N, fun j m hm => ?_⟩
      rcases hs.2.did_iff.mp hm with hold | hl'
      · exact hN j m hold
      · exact absurd ⟨j, m, hl'⟩ hl

theorem exists_walk (hs : ((engines H memory).under FreshDraws).Reachable s) {r : TokenRecord}
    (hr : Member s c r) : ∃ l, Walk (next s.shared) r l := by
  obtain ⟨N, hN⟩ := generation_bound hs
  refine Walk.exists_of_bound (P := Member s c) (f := TokenRecord.generation) (N := N)
    (fun x y hx hn => (follows_next hs hx hn).1) (fun x y hx hn => (follows_next hs hx hn).2.generation)
    (fun x hx => ?_) r hr
  obtain ⟨-, i, n, hi, -, he⟩ := (knowledge memoryStore (noReinsert_of_freshDraws hs)).row _ x hx.row
  rw [he.generation]
  exact hN i n hi

/-- The rows of a walk are distinct, and in the order of their generations. -/
theorem walk_rows (hs : ((engines H memory).under FreshDraws).Reachable s) {r : TokenRecord}
    {l : List TokenRecord} (hr : Member s c r) (w : Walk (next s.shared) r l) :
    (l.map TokenRecord.selector).Nodup ∧ (∀ x ∈ l, Member s c x) ∧
      ∀ k x, l[k]? = some x → x.generation = r.generation + k := by
  have hmem := w.invariant (P := Member s c) hr fun x y hx hn => (follows_next hs hx hn).1
  have hrank := w.rank_eq (P := Member s c) (f := TokenRecord.generation) hr
    (fun x y hx hn => (follows_next hs hx hn).1)
    fun x y hx hn => (follows_next hs hx hn).2.generation
  refine ⟨?_, hmem, hrank⟩
  rw [List.nodup_iff_injective_getElem]
  rintro ⟨i, hi⟩ ⟨j, hj⟩ he
  simp only [List.length_map] at hi hj
  simp only [List.getElem_map] at he
  -- rows of one selector are one row, and of one generation
  have hrow := (hmem _ (List.getElem_mem hi)).row
  rw [he, (hmem _ (List.getElem_mem hj)).row] at hrow
  have hgi := hrank i _ (List.getElem?_eq_getElem hi)
  have hgj := hrank j _ (List.getElem?_eq_getElem hj)
  rw [Option.some.inj hrow, hgi] at hgj
  exact Fin.ext (by simp only; omega)

/-- A row that points on was rotated, or its family was revoked. -/
theorem status_of_next (hs : ((engines H memory).under (Honest H)).Reachable s) {r : TokenRecord}
    (hr : Member s c r) (hq : r.replacedBySelector ≠ none) :
    r.status = .rotated ∨ BulkRevoked s c := by
  have hok := ((knowledge_of_honest memoryStore hs).row _ r hr.row).1
  cases hst : r.status with
  | active => exact absurd (hok.active hst) hq
  | rotated => exact Or.inl rfl
  | revoked =>
    obtain ⟨-, i, q, rep, hd, hc⟩ := dead_of_revoked memoryContract hs _ r hr.row hst hq
    exact Or.inr ⟨i, q, rep, hd, (coversFamily_iff hr.family).mpr hc⟩

/-- **What is granted and was not discarded is on the walk.** -/
theorem on_walk (hs : ((engines H memory).under (Honest H)).Reachable s) {i : ℕ} {n r₀ : TokenRecord}
    (hf : Founded H s i c n) (hr₀ : s.shared.get n.selector = some r₀) {l : List TokenRecord}
    (w : Walk (next s.shared) r₀ l) {r : TokenRecord} (hr : Member s c r)
    (hgr : Granted H s r.selector) (hd : ¬ Discarded r) : r ∈ l := by
  have hfr := fresh hs
  have hK := knowledge_of_honest memoryStore hs
  induction hg : r.generation using Nat.strong_induction_on generalizing r with
  | _ g ih =>
    rcases hgr with ⟨j, c', n', hf', hn'⟩ | ⟨j, p, f, t, hm⟩
    · -- the first record of the family
      have hins : Stored s r.selector n' := hn' ▸ Stored.of_inserted hf'.inserted
      have hmin := (Stored.of_row hK hr.row).unique hfr hins
      have hfam : r.familyId = n'.familyId := (congrArg TokenRecord.familyId hmin :)
      obtain ⟨rfl, rfl⟩ := founded_unique hfr hf'.opAt hf.opAt
        (by rw [← (OfFamily.of_mints hf'.mints).family, ← hfam, hr.family.family])
      obtain rfl := inserted_once hfr hf'.inserted hf.inserted
      rw [hn', hr.row] at hr₀
      obtain rfl := Option.some.inj hr₀
      exact w.head_mem
    · -- its predecessor is on the walk, and points to it
      obtain ⟨rp, hrp, hq⟩ := (linked memoryStore hs).installed j p f t _ r hm hr.row hd
      have hfol := follows_of_marked memoryStore hfr hm (.of_row hK hrp) (.of_row hK hr.row)
      obtain rfl : rp.selector = p := hK.row_selector hrp
      have hmem : Member s c rp := ⟨hrp, hfol.familyId.symm.trans hr.family.family,
        hfol.userId.symm.trans hr.family.user, hfol.familyExpiresAt.symm.trans hr.family.deadline⟩
      have hnd : ¬ Discarded rp := fun hdp => by
        rw [hdp.2] at hq
        cases hq
      have hgen := hfol.generation
      refine w.mem_next (ih rp.generation (by omega) hmem (granted_of_marked hs hm) hnd rfl) ?_
      rw [next, hq]
      exact hr.row

/-- **What is off the walk** was revoked, or is a successor that was not delivered. -/
theorem off_walk (hs : ((engines H memory).under (Honest H)).Reachable s) {i : ℕ} {n r₀ : TokenRecord}
    (hf : Founded H s i c n) (hr₀ : s.shared.get n.selector = some r₀) {l : List TokenRecord}
    (w : Walk (next s.shared) r₀ l) {r : TokenRecord} (hr : Member s c r) :
    r ∈ l ∨ r.status = .revoked ∨ Unfinished s r.selector := by
  have hK := knowledge_of_honest memoryStore hs
  by_cases hrev : r.status = .revoked
  · exact Or.inr (Or.inl hrev)
  · obtain ⟨hok, j, m, hj, hm, -⟩ := hK.row _ r hr.row
    rcases granted_or_undelivered hs hj with hg | ⟨c', ⟨th, hth, hop⟩, hno, hdel⟩
    · exact Or.inl (on_walk hs hf hr₀ w hr (hm ▸ hg) fun hd => hrev hd.1)
    · refine Or.inr (Or.inr ⟨j, th, c', m, hth, hop, fun hret => ?_, hj, hm, hdel⟩)
      -- a refresh that has returned without rotating has revoked its successor
      obtain ⟨res, hat, -⟩ := refreshAt_returned hs hth hop hret
      obtain ⟨th', hth', hev⟩ := hj
      obtain rfl := Option.some.inj (hth.symm.trans hth')
      rcases refreshAt_inserted hat hev with ⟨r', f, x, hmk, -⟩ | ⟨b, r', hcl, -⟩
      · exact hno _ _ _ _ (did_of_mem hth hmk)
      · have hna := ((hK.cleared j _ b (did_of_mem hth hcl)).2 r (hm ▸ hr.row)).1
        have hrot : r.status = .rotated := by
          cases hst : r.status with
          | active => exact absurd hst hna
          | rotated => rfl
          | revoked => exact absurd hst hrev
        obtain ⟨q, hq⟩ := Option.ne_none_iff_exists'.mp (hok.rotated hrot)
        obtain ⟨k, f, x, hmk⟩ := pointer_row memoryStore hs _ r q hr.row hq
        -- a row that was rotated is granted
        exact absurd (hm ▸ granted_of_marked hs hmk)
          (not_granted (fresh hs) (did_of_mem hth hev) ⟨th, hth, hop⟩ hno)

/-- **Fresh draws alone do not keep a family on its chain**: the successor of a successor that nobody was
given is active, delivered, and off the chain. -/
theorem stray_of_unreturned : ¬ ∀ (s : PoolState Rows) (i : ℕ) (c : IssueCall) (n r₀ : TokenRecord)
    (l : List TokenRecord), ((engines sampleHmac memory).under FreshDraws).Reachable s →
    Founded sampleHmac s i c n → s.shared.get n.selector = some r₀ → Walk (next s.shared) r₀ l →
    ∀ sel r, s.shared.get sel = some r → r.familyId = c.draw.familyId →
      r ∈ l ∨ r.status = .revoked ∨ Unfinished s sel := by
  intro h
  have hf : Founded sampleHmac forked 0 (sampleLogin 0 0) (sampleRow 0 0) :=
    ⟨opAt_of_read rfl, ⟨none, rfl, rfl⟩, did_of_read (k := 0) rfl⟩
  have hr₀ : forked.shared.get (sampleRow 0 0).selector = some (sampleRow 0 0) := by decide
  obtain ⟨r, hr, hfam, hst, hsel⟩ : ∃ r, forked.shared.get (sampleDraw 2).selectorText = some r ∧
      r.familyId = (sampleRow 0 0).familyId ∧ r.status = .active ∧
      r.selector = (sampleDraw 2).selectorText := ⟨_, rfl, rfl, rfl, rfl⟩
  rcases h forked 0 _ _ _ _ forked_reachable hf hr₀ (.last rfl) _ r hr hfam with hmem | hrev | hun
  · rw [List.mem_singleton.mp hmem] at hsel
    exact absurd hsel (by decide)
  · rw [hst] at hrev
    cases hrev
  · -- the refresh that stored the stray successor has returned
    obtain ⟨i, th, -, n, hi, -, hm, hn, hsel', -⟩ := hun
    obtain ⟨th', n', hi', hm', hn', hsel''⟩ : ∃ th n, forked.threads[2]? = some th ∧
        th.mode = .returned ∧ (th.trace[1]?) = some ⟨.insert n, ()⟩ ∧
        n.selector = (sampleDraw 2).selectorText := ⟨_, _, rfl, rfl, rfl, rfl⟩
    obtain ⟨rfl, -⟩ := inserted_unique forked_reachable hn
      ⟨th', hi', List.mem_of_getElem? hn'⟩ (hsel'.trans hsel''.symm)
    obtain rfl := Option.some.inj (hi.symm.trans hi')
    exact hm hm'

/-- **The chain of a family is well formed.** In every run with fresh draws in which no refresh proves a
token that was not returned, and for every family whose first record has not been collected: the walk
along the pointers from that record visits distinct rows of the family and its user, of the generations
0, 1, 2 and so on, and ends in a row that points nowhere; every row on it but the last is rotated, unless
the family was bulk revoked; every row of the family off it is revoked, or is a successor of a refresh
that has not returned; and every success reports the generation after that of the record presented. -/
theorem chain_wellFormed (hs : ((engines H memory).under (Honest H)).Reachable s) :
    (∀ i c n r₀, Founded H s i c n → s.shared.get n.selector = some r₀ →
      ∃ l : List TokenRecord, Walk (next s.shared) r₀ l ∧ (l.map TokenRecord.selector).Nodup ∧
        (∀ (k : ℕ) (r : TokenRecord), l[k]? = some r → r.generation = k ∧
          r.familyId = c.draw.familyId ∧ r.userId = c.userId) ∧
        (∀ r, l.getLast? = some r → r.replacedBySelector = none) ∧
        ((∀ r ∈ l.dropLast, r.status = .rotated) ∨ BulkRevoked s c) ∧
        ∀ sel r, s.shared.get sel = some r → r.familyId = c.draw.familyId →
          r ∈ l ∨ r.status = .revoked ∨ Unfinished s sel) ∧
    ∀ i c x, OpAt s i (.refresh c) → Succeeded s i x → ∃ sel r pepper,
      s.Did i ⟨.findBySelector sel, some r⟩ ∧ Proves H c sel r pepper ∧
      x.generation = r.generation + 1 := by
  have hfr := fresh hs
  have hr' := noReinsert_of_freshDraws hfr
  have hK := knowledge_of_honest memoryStore hs
  refine ⟨?_, ?_⟩
  · intro i c n r₀ hf hr₀
    have he := hK.inserted i n hf.inserted r₀ hr₀
    have hr : Member s c r₀ := ⟨he.selector.symm ▸ hr₀, (OfFamily.of_mints hf.mints).evolves he⟩
    have hgen : r₀.generation = 0 := by
      rw [he.generation]
      obtain ⟨hash, -, rfl⟩ := hf.mints
      rfl
    obtain ⟨l, w⟩ := exists_walk hfr hr
    obtain ⟨hnd, hmem, hrank⟩ := walk_rows hfr hr w
    refine ⟨l, w, hnd, fun k r hk => ?_, fun r hlast => ?_, ?_, fun sel r hrow hfam => ?_⟩
    · have hm := hmem r (List.mem_of_getElem? hk)
      refine ⟨?_, hm.family.family, hm.family.user⟩
      rw [hrank k r hk, hgen, Nat.zero_add]
    · by_contra hq
      exact next_isSome hfr (hmem r (List.mem_of_getLast? hlast)) hq (w.last_none hlast)
    · by_cases hb : BulkRevoked s c
      · exact Or.inr hb
      · refine Or.inl fun r hr => (status_of_next hs (hmem r (List.mem_of_mem_dropLast hr)) ?_)
          |>.resolve_right hb
        intro hq
        have hsome := w.isSome_of_mem_dropLast hr
        rw [next, hq] at hsome
        cases hsome
    · obtain rfl : r.selector = sel := hK.row_selector hrow
      obtain ⟨j, c', n', hf', ho⟩ := (Stored.of_row hK hrow).founded hr' memoryStore
      obtain ⟨-, rfl⟩ := founded_unique hfr hf'.opAt hf.opAt (ho.family.symm.trans hfam)
      exact off_walk hs hf hr₀ w ⟨hrow, ho⟩
  · intro i c x hop hx
    obtain ⟨c', r, n, f, t, tr, hw, rfl⟩ := won_of_success hs hx
    obtain rfl := Operation.refresh.inj (hop.unique hw.opAt)
    obtain ⟨sel, pepper, hp, hmem⟩ := hw.ticket.found
    exact ⟨sel, r, pepper, hw.did _ hmem, hp, (Follows.of_mints hw.mints).generation⟩

/-- A login, two refreshes of its token of which the second displaces the successor of the first, and a
third that was abandoned after it inserted. -/
def retried : PoolState Rows :=
  (played sampleHmac (fun s l => honestCheck sampleHmac s l)
    (.invoke (sampleIssue 50 0) :: sampleSteps 0 1 ++
      .invoke (sampleRefresh 50 0 1 1010) :: sampleSteps 1 3 ++
      .invoke (sampleRefresh 50 0 2 1020) :: sampleSteps 2 5 ++
      [.invoke (sampleRefresh 50 2 3 1030), .go 3, .go 3, .stop 3 .abandoned])).get (by decide)

theorem chain_wellFormed_sample : ∃ r₀ r₂ : TokenRecord,
    retried.shared.get (sampleDraw 0).selectorText = some r₀ ∧ next retried.shared r₀ = some r₂ ∧
    r₂.selector = (sampleDraw 2).selectorText ∧ r₀.status = .rotated ∧ r₂.generation = 1 ∧
    Unfinished retried (sampleDraw 3).selectorText := by
  have hs : ((engines sampleHmac memory).under (Honest sampleHmac)).Reachable retried :=
    played_reachable (fun _ _ h => honest_of_check h) _
  have hf : Founded sampleHmac retried 0 (sampleLogin 50 0) (sampleRow 50 0) :=
    ⟨opAt_of_read rfl, ⟨none, rfl, rfl⟩, did_of_read (k := 0) rfl⟩
  obtain ⟨r₀, r₂, r₃, hr₀, hn, hn', hr₃, hfam, hst, hsel₂, hsel₃⟩ : ∃ r₀ r₂ r₃ : TokenRecord,
      retried.shared.get (sampleDraw 0).selectorText = some r₀ ∧ next retried.shared r₀ = some r₂ ∧
      next retried.shared r₂ = none ∧ retried.shared.get (sampleDraw 3).selectorText = some r₃ ∧
      r₃.familyId = (sampleLogin 50 0).draw.familyId ∧ r₃.status = .active ∧
      r₂.selector = (sampleDraw 2).selectorText ∧ r₃.selector = (sampleDraw 3).selectorText :=
    ⟨_, _, _, rfl, rfl, rfl, rfl, rfl, rfl, rfl, rfl⟩
  obtain ⟨l, w, -, hgen, -, hrot, hoff⟩ := (chain_wellFormed hs).1 0 _ _ r₀ hf hr₀
  obtain rfl := w.unique (.step hn (.last hn'))
  have hsel₀ : r₀.selector = (sampleDraw 0).selectorText :=
    (knowledge_of_honest memoryStore hs).row_selector hr₀
  refine ⟨r₀, r₂, hr₀, hn, hsel₂, ?_, (hgen 1 r₂ rfl).1, ?_⟩
  · refine hrot.elim (fun h => h r₀ (List.mem_singleton_self _)) fun hb => ?_
    obtain ⟨i, q, rep, ⟨th, hi, hev⟩, hc⟩ := hb
    have hall : (retried.threads.all fun th => th.trace.all fun ev => !isBulk ev.req) = true := by
      decide
    have hq := List.all_eq_true.mp (List.all_eq_true.mp hall th (mem_of_getElem? hi)) _ hev
    cases q with
    | revokeFamily | revokeUser => cases hq
    | findBySelector | insert | markRotated | revokeIfActive => cases hc
  · rcases hoff _ r₃ hr₃ hfam with hmem | hrev | hun
    · rcases List.mem_cons.mp hmem with rfl | hmem
      · exact absurd (hsel₀.symm.trans hsel₃) (by decide)
      · rw [List.mem_singleton.mp hmem, hsel₂] at hsel₃
        exact absurd hsel₃ (by decide)
    · rw [hst] at hrev
      cases hrev
    · exact hun

end NebulaToken.Safety.Chain
