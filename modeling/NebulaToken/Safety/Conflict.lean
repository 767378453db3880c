import NebulaToken.Runs.Exclusion
import NebulaToken.Runs.Execution
import NebulaToken.Runs.Unforked

/-! # Conflicts

A refresh reports a conflict when it has lost a compare-and-set. It loses the second one, after it has
displaced the successor of the row it retries, only if that row has been revoked or collected since; and
a rotated row is revoked, or goes, only with its family.

* `orphan_left`: a conflict may leave the successor of a call unrevoked, if somebody proves its token;
* `conflict_harmless`: otherwise a conflict revokes nothing else that is in use. -/

namespace NebulaToken.Safety.Conflict

open NebulaToken.Lib.Pool NebulaToken.Lib.Transition NebulaToken.Token.Unicode
open NebulaToken.Token.Wire NebulaToken.Engine.Records NebulaToken.Engine.Operations
open NebulaToken.Runs.Calls NebulaToken.Runs.History NebulaToken.Runs.Provenance
open NebulaToken.Runs.Assumptions NebulaToken.Runs.Exclusion NebulaToken.Runs.Families
open NebulaToken.Runs.Lineage NebulaToken.Runs.Unforked NebulaToken.Runs.Execution
open NebulaToken.Store.Contract NebulaToken.Store.Memory

/-- Call `i` is a refresh that has reported a conflict. -/
def Conflicted {σ : Type} (s : PoolState σ) (i : ℕ) : Prop :=
  ∃ (th : Call) (c : RefreshCall) (f : RefreshFailure), s.threads[i]? = some th ∧ th.op = .refresh c ∧
    th.result = some (.refreshed (.refused f)) ∧ f.error = .conflict

/-- Another call has revoked every row of the record's family, or every row of its user. -/
def RevokedAsWhole {σ : Type} (s : PoolState σ) (i : ℕ) (r : TokenRecord) : Prop :=
  ∃ j q rep, j ≠ i ∧ s.Did j ⟨q, rep⟩ ∧ Covers q r

/-- **What the conflict of call `i` has done**: the record it inserted is revoked, it has rotated none,
it has revoked no family and no user, and the family of any other record it has revoked was revoked by
another call or is collected, and has no active record that is in use. -/
structure Harmless (H : HmacSha256) (s : PoolState Rows) (i : ℕ) : Prop where
  inserted : ∀ n, Inserted s i n → ∀ row, s.shared.get n.selector = some row → row.status = .revoked
  rotated : ∀ p f t q, ¬ Marked s i p f t q
  bulk : ∀ q rep r, s.Did i ⟨q, rep⟩ → ¬ Covers q r
  others : ∀ sel, Cleared s i sel → (∃ n, Inserted s i n ∧ n.selector = sel) ∨
    ∃ d, Stored s sel d ∧ (RevokedAsWhole s i d ∨ s.shared.get sel = none) ∧
      ∀ sel' row, s.shared.get sel' = some row → row.familyId = d.familyId → Granted H s sel' →
        row.status ≠ .active

/-! ### Collected families -/

section Collected

variable {σ Env : Type} {svc : StoreService σ Env} {C : StoreContract svc} {H : HmacSha256}
  {s s' : PoolState σ} {l : PoolLabel Env}

/-- A successor that was installed is in the store only as long as its predecessor is. -/
theorem predecessor_present (C : StoreContract svc)
    (h : ((engines H svc).under FreshDraws).Reachable s) :
    ∀ i p f t q, Marked s i p f t q → C.look s.shared q ≠ none → C.look s.shared p ≠ none := by
  refine h.invariant (I := fun s => ∀ i p f t q, Marked s i p f t q → C.look s.shared q ≠ none →
    C.look s.shared p ≠ none) ?_ ?_
  · rintro s hs i p f t q ⟨th, hi, -⟩
    rw [show s = ⟨svc.start, []⟩ from hs] at hi
    cases hi
  · intro s l s' hr ih hs i p f t q hm hq
    rcases hs.2.did_iff.mp hm with hold | rfl
    · have hK := knowledge C (noReinsert_of_freshDraws hr)
      obtain ⟨rq', hrq'⟩ := Option.ne_none_iff_exists'.mp hq
      obtain ⟨rq, hrq, -⟩ := evolves_known hr hK hs.2 (noReinsert_guard hr hs)
        (Installed.known hr ⟨i, p, f, t, hold⟩) hrq'
      obtain ⟨rp, hrp⟩ := Option.ne_none_iff_exists'.mp
        (ih i p f t q hold (by rw [hrq]; exact Option.some_ne_none rq))
      have hfol := follows_of_marked C hr hold (.of_row hK hrp) (.of_row hK hrq)
      exact present_together C hs.2 hrq hrp hfol.familyExpiresAt.symm hq
    · obtain ⟨th, k, -, -, ha⟩ := callAt_answer hr hs.2
      obtain ⟨row, -, -, hupd⟩ := C.mark ha
      rw [hupd, Function.update_self]
      exact Option.some_ne_none _

/-- A row that is gone does not come back. -/
theorem gone_step (hr : ((engines H svc).under (Honest H)).Reachable s)
    (hs : ((engines H svc).under (Honest H)).step s l s') {sel : Str} (hk : Known s sel)
    (h : C.look s.shared sel = none) : C.look s'.shared sel = none := by
  by_contra hne
  obtain ⟨row', hrow'⟩ := Option.ne_none_iff_exists'.mp hne
  obtain ⟨row, hrow, -⟩ := evolves_known hr (knowledge_of_honest C hr) hs.2
    (noReinsert_of_honest hr hs) hk hrow'
  rw [h] at hrow
  cases hrow

/-- **A family whose record is gone is dead**: its rows were collected together. -/
theorem dead_of_gone (C : StoreContract svc)
    (h : ((engines H svc).under (Honest H)).Reachable s) :
    ∀ sel r, Stored s sel r → C.look s.shared sel = none → Dead H C s r.familyId := by
  refine h.invariant (I := fun s => ∀ sel r, Stored s sel r → C.look s.shared sel = none →
    Dead H C s r.familyId) ?_ ?_
  · rintro s hs sel r ⟨i, n, ⟨th, hi, -⟩, -⟩
    rw [show s = ⟨svc.start, []⟩ from hs] at hi
    cases hi
  · intro s l s' hr ih hs sel r hst hnone
    have hK := knowledge_of_honest C hr
    have hr' := hr.step hs
    by_cases hk : Known s sel
    · have hst₀ := hst.back (fresh hr') hs.2 hk
      by_cases h0 : C.look s.shared sel = none
      · exact (ih sel r hst₀ h0).step hr hs
      · -- the step is a collection, which takes every row of the deadline
        obtain ⟨row, hrow⟩ := Option.ne_none_iff_exists'.mp h0
        have henv : ∃ a, l = .env a := by
          by_contra hno
          exact present_step C hs.2 (fun a ha => hno ⟨a, ha⟩) h0 hnone
        obtain ⟨a, rfl⟩ := henv
        obtain ⟨j, c, n, hf, ho⟩ := hst.founded (noReinsert_of_freshDraws (fresh hr')) C
        refine ⟨⟨j, c, n, hf, ho.family.symm⟩, fun sel' r' hg hrow' hfam => ?_⟩
        have hrow₀ : C.look s.shared sel' = some r' := by
          cases rowAfter C hs.2 hrow' with
          | kept h => exact h
          | bulk hl => rcases hl with hl | ⟨m, hl⟩ <;> cases hl
        obtain ⟨j', c', n', hf', ho'⟩ := (Stored.of_row (knowledge_of_honest C hr')
          hrow').founded (noReinsert_of_freshDraws (fresh hr')) C
        obtain ⟨-, rfl⟩ := founded_unique (fresh hr') hf'.opAt hf.opAt
          (by rw [← ho'.family, ← ho.family, hfam])
        have hmin := (Stored.of_row hK hrow).unique (fresh hr) hst₀
        have hexp : row.familyExpiresAt = r.familyExpiresAt :=
          (congrArg TokenRecord.familyExpiresAt hmin :)
        have hsame : row.familyExpiresAt = r'.familyExpiresAt := by
          rw [hexp, ho.deadline, ho'.deadline]
        refine absurd hnone (present_together C hs.2 hrow₀ hrow hsame ?_)
        rw [hrow']
        exact Option.some_ne_none r'
    · -- the step stores the record
      obtain ⟨i, n, hi, rfl, -⟩ := hst
      rcases hs.2.did_iff.mp hi with hold | rfl
      · exact absurd ⟨i, n, hold, rfl⟩ hk
      · obtain ⟨th, k, -, -, ha⟩ := callAt_answer hr hs.2
        rw [(C.insert ha).2, Function.update_self] at hnone
        cases hnone

end Collected

/-! ### The second loss -/

section Lost

variable {σ Env : Type} {svc : StoreService σ Env} {H : HmacSha256} {s s' : PoolState σ}
  {l : PoolLabel Env}

/-- **Why a retry loses its rotation**: the family of the row has been revoked as a whole, or
collected. -/
theorem lost_rotation (A : AtomicContract svc)
    (h : ((engines H svc).under (Honest H)).Reachable s) :
    ∀ i p t q, s.Did i ⟨.markRotated p .rotated t q, false⟩ → ∃ r, Stored s p r ∧
      Dead H A.toStoreContract s r.familyId ∧
      ((∃ j b rep, s.Did j ⟨b, rep⟩ ∧ Covers b r) ∨ A.look s.shared p = none) := by
  refine h.invariant (I := fun s => ∀ i p t q, s.Did i ⟨.markRotated p .rotated t q, false⟩ →
    ∃ r, Stored s p r ∧ Dead H A.toStoreContract s r.familyId ∧
      ((∃ j b rep, s.Did j ⟨b, rep⟩ ∧ Covers b r) ∨ A.look s.shared p = none)) ?_ ?_
  · rintro s hs i p t q ⟨th, hi, -⟩
    rw [show s = ⟨svc.start, []⟩ from hs] at hi
    cases hi
  · intro s l s' hr ih hs i p t q hd
    have hr' := hr.step hs
    rcases hs.2.did_iff.mp hd with hold | rfl
    · obtain ⟨r, hst, hD, hwhy⟩ := ih i p t q hold
      refine ⟨r, hst.mono hs.2, hD.step hr hs, ?_⟩
      rcases hwhy with ⟨j, b, rep, hj, hc⟩ | hgone
      · exact Or.inl ⟨j, b, rep, did_mono hj hs.2, hc⟩
      · exact Or.inr (gone_step (C := A.toStoreContract) hr hs hst.known hgone)
    · have hK := knowledge_of_honest A.toStoreContract hr
      obtain ⟨th, k, hi, hc, ha⟩ := callAt_answer hr hs.2
      obtain ⟨hstill, hother⟩ := A.mark_lost ha
      generalize hop : th.op = op at hc
      generalize htr : th.trace = tr' at hc
      cases mark_request hc with
      | @refresh c r n tr ht hn hsel hq =>
        subst hsel
        have hmem : ∀ ev ∈ tr, s.Did i ev := fun ev hev =>
          did_of_mem hi (htr ▸ List.mem_cons_of_mem _ hev)
        obtain ⟨hfound, hok, hk, hev⟩ := hK.ticket ht hmem
        have hst : Stored s r.selector r := .of_found hK hfound
        refine ⟨r, hst.mono hs.2, ?_⟩
        by_cases hgone : A.look s.shared r.selector = none
        · exact ⟨(dead_of_gone A.toStoreContract hr _ r hst hgone).step hr hs,
            Or.inr (by rw [hstill, hgone])⟩
        · obtain ⟨row, hrow⟩ := Option.ne_none_iff_exists'.mp hgone
          have he := hev row hrow
          have hrev : row.status = .revoked := by
            cases hst : row.status with
            | active => exact absurd hst (he.not_active (by rw [ht.status]; decide))
            | rotated => exact absurd hst (hother row hrow)
            | revoked => rfl
          obtain ⟨hD, j, b, rep, hj, hc⟩ := dead_of_revoked A hr _ row hrow hrev
            (he.replaced (hok.rotated ht.status))
          rw [he.familyId] at hD
          refine ⟨hD.step hr hs, Or.inl ⟨j, b, rep, did_mono hj hs.2, ?_⟩⟩
          exact hc.congr he.familyId.symm he.userId.symm

end Lost

/-! ### The reports -/

section Report

variable {H : HmacSha256} {c : RefreshCall} {s : PoolState Rows} {i : ℕ}

/-- **A refresh that reports a conflict** has lost the successor it was to displace, or its rotation. -/
inductive Lost (H : HmacSha256) (c : RefreshCall) : List StoreEvent → Prop
  | displacement {sel q : Str} {r d : TokenRecord} :
    Lost H c [⟨.revokeIfActive d.selector, false⟩, ⟨.findBySelector q, some d⟩,
      ⟨.findBySelector sel, some r⟩]
  | rotation {r n : TokenRecord} {f : TokenStatus} {t : ℤ} {tr : List StoreEvent} {b : Bool}
      (ht : Ticket H c r f t tr) (hn : Mints H c r n) :
    Lost H c (⟨.revokeIfActive n.selector, b⟩ ::
      ⟨.markRotated r.selector f t n.selector, false⟩ :: ⟨.insert n, ()⟩ :: tr)

theorem lost_of_conflicted {G : PoolState Rows → PoolLabel ℤ → Prop}
    (hs : ((engines H memory).under G).Reachable s) (h : Conflicted s i) :
    ∃ (th : Call) (c : RefreshCall), s.threads[i]? = some th ∧ th.op = .refresh c ∧ Lost H c th.trace := by
  obtain ⟨th, c, f, hi, hop, hres, herr⟩ := h
  obtain ⟨hm, -⟩ := of_result hres
  obtain ⟨res, hat, hres'⟩ := refreshAt_returned hs hi hop hm
  obtain rfl : RefreshResult.refused f = res := by
    rw [hres] at hres'
    exact Outcome.refreshed.inj (Option.some.inj hres')
  refine ⟨th, c, hi, hop, ?_⟩
  generalize th.trace = tr at hat
  cases hat with
  | burned hb =>
    cases hb <;> cases herr
  | cleaned ht hn => exact .rotation ht hn
  | refused hf =>
    cases hf with
    | lost => exact .displacement
    | unparsed hp => rcases parseConfigured_error hp with rfl | rfl <;> cases herr
    | unproved hp hv => rcases proveVerifier_error hv with rfl | rfl <;> cases herr
    | notFound | revoked => cases herr

/-- The requests of a refresh that has read, inserted, lost its rotation, or revoked one row. -/
def Quiet (ev : StoreEvent) : Prop :=
  (∀ r, ¬ Covers ev.req r) ∧ ∀ p f t q, ev ≠ ⟨.markRotated p f t q, true⟩

/-- **A refresh that reports a conflict** has asked for no bulk revocation, and has rotated nothing. -/
theorem Lost.quiet {tr : List StoreEvent} (h : Lost H c tr) : ∀ ev ∈ tr, Quiet ev := by
  have hfind : ∀ sel found, Quiet ⟨.findBySelector sel, found⟩ := fun sel found =>
    ⟨fun r hc => hc, fun p f t q he => by cases he⟩
  have hclear : ∀ sel b, Quiet ⟨.revokeIfActive sel, b⟩ := fun sel b =>
    ⟨fun r hc => hc, fun p f t q he => by cases he⟩
  have hticket : ∀ {r : TokenRecord} {f : TokenStatus} {t : ℤ} {tr : List StoreEvent},
      Ticket H c r f t tr → ∀ ev ∈ tr, Quiet ev := by
    intro r f t tr ht
    cases ht with
    | fresh => simp [hfind]
    | grace => simp [hfind, hclear]
  cases h with
  | displacement => simp [hfind, hclear]
  | rotation ht hn =>
    intro ev hev
    rcases List.mem_cons.mp hev with rfl | hev
    · exact hclear _ _
    rcases List.mem_cons.mp hev with rfl | hev
    · exact ⟨fun r hc => hc, fun p f t q he => by cases he⟩
    rcases List.mem_cons.mp hev with rfl | hev
    · exact ⟨fun r hc => hc, fun p f t q he => by cases he⟩
    · exact hticket ht ev hev

/-- Another call is the one that has revoked the family, if one has. -/
theorem Lost.revokedAsWhole {th : Call} (hi : s.threads[i]? = some th) (h : Lost H c th.trace)
    {r : TokenRecord} {j : ℕ} {q : StoreCall} {rep : q.Reply} (hd : s.Did j ⟨q, rep⟩)
    (hc : Covers q r) : RevokedAsWhole s i r := by
  refine ⟨j, q, rep, ?_, hd, hc⟩
  rintro rfl
  obtain ⟨th', hi', hev⟩ := hd
  obtain rfl := Option.some.inj (hi.symm.trans hi')
  exact (h.quiet _ hev).1 r hc

/-- A refresh that has inserted has revoked its successor before it reports a conflict. -/
theorem Lost.cleared {tr : List StoreEvent} (h : Lost H c tr) {n : TokenRecord}
    (hn : ⟨.insert n, ()⟩ ∈ tr) : ∃ b, ⟨.revokeIfActive n.selector, b⟩ ∈ tr := by
  cases h with
  | displacement => simp at hn
  | @rotation r m f t tr b ht hm =>
    simp only [List.mem_cons] at hn
    rcases hn with hn | hn | hn | hn
    · cases hn
    · cases hn
    · cases hn
      exact ⟨b, List.mem_cons_self⟩
    · exact absurd hn ht.no_insert

/-- **What a refresh that reports a conflict has revoked**: its own successor, and the successor it was
to displace, if it has then lost its rotation. -/
theorem Lost.others {tr : List StoreEvent} (h : Lost H c tr) {sel : Str}
    (hcl : ⟨.revokeIfActive sel, true⟩ ∈ tr) : (∃ n, ⟨.insert n, ()⟩ ∈ tr ∧ n.selector = sel) ∨
      ∃ (r d : TokenRecord) (p q : Str) (t : ℤ) (q' : Str), r.replacedBySelector = some q ∧
        ⟨.findBySelector q, some d⟩ ∈ tr ∧ ⟨.markRotated r.selector .rotated t q', false⟩ ∈ tr ∧
        ⟨.findBySelector p, some r⟩ ∈ tr ∧ d.selector = sel := by
  cases h with
  | displacement => simp at hcl
  | @rotation r n f t tr b ht hn =>
    rcases List.mem_cons.mp hcl with he | hcl
    · cases he
      exact Or.inl ⟨n, by simp, rfl⟩
    · cases ht with
      | fresh => simp at hcl
      | @grace p pepper q t d hp hs hg ha hd =>
        have hsel : sel = d.selector := by simpa using hcl
        exact Or.inr ⟨r, d, p, q, t, n.selector, (withinGrace_some hg).2.1, by simp, by simp, by simp,
          hsel.symm⟩

end Report

/-! ### What a conflict leaves -/

/-- A login; a refresh of its token that stops before its rotation; a second refresh of the token that
wins; a refresh that proves the token of the successor of the first, which nobody was given; and the end
of the first, which reports a conflict. -/
def orphaned : PoolState Rows :=
  (played sampleHmac (fun s l => freshDrawsCheck s l)
    (.invoke (sampleIssue 0 0) :: sampleSteps 0 1 ++
      [.invoke (sampleRefresh 0 0 1 1010), .go 1, .go 1] ++
      .invoke (sampleRefresh 0 0 2 1010) :: sampleSteps 2 3 ++
      .invoke (sampleRefresh 0 1 3 1020) :: sampleSteps 3 3 ++
      sampleSteps 1 2)).get (by decide)

/-- **Fresh draws alone do not make a conflict harmless**: the successor a call has inserted may have
been rotated, by a call that proves a token nobody was given, when it comes to be revoked. -/
theorem orphan_left : ¬ ∀ (s : PoolState Rows) (i : ℕ),
    ((engines sampleHmac memory).under FreshDraws).Reachable s → Conflicted s i →
      Harmless sampleHmac s i := by
  intro h
  have hs : ((engines sampleHmac memory).under FreshDraws).Reachable orphaned :=
    played_reachable (fun _ _ h => freshDraws_of_check h) _
  have hc : Conflicted orphaned 1 := ⟨_, _, _, rfl, rfl, rfl, rfl⟩
  obtain ⟨n, row, hn, hrow, hst⟩ : ∃ (n row : TokenRecord),
      (orphaned.threads[1]?.bind fun th => th.trace[2]?) = some ⟨.insert n, ()⟩ ∧
      orphaned.shared.get n.selector = some row ∧ row.status = .rotated := ⟨_, _, rfl, rfl, rfl⟩
  have hrev := (h orphaned 1 hs hc).inserted n (did_of_read hn) row hrow
  rw [hst] at hrev
  cases hrev

/-- **A conflict is harmless.** In every run over the reference store in which draws are fresh and no
refresh proves a token that was not returned: when a refresh has reported a conflict, the record it
inserted, if any, is revoked, it has rotated none and asked for no bulk revocation, and every other record
it has revoked is of a family that another call has revoked as a whole or that was collected, and that has
no active record in use. -/
theorem conflict_harmless {H : HmacSha256} {s : PoolState Rows} {i : ℕ}
    (hs : ((engines H memory).under (Honest H)).Reachable s) (h : Conflicted s i) : Harmless H s i := by
  have hK := knowledge_of_honest memoryStore hs
  obtain ⟨th, c, hi, hop, hlost⟩ := lost_of_conflicted hs h
  have hrot : ∀ p f t q, ¬ Marked s i p f t q := by
    rintro p f t q ⟨th', hi', hev⟩
    obtain rfl := Option.some.inj (hi.symm.trans hi')
    exact (hlost.quiet _ hev).2 p f t q rfl
  have hbulk : ∀ q rep r, s.Did i ⟨q, rep⟩ → ¬ Covers q r := by
    rintro q rep r ⟨th', hi', hev⟩
    obtain rfl := Option.some.inj (hi.symm.trans hi')
    exact (hlost.quiet _ hev).1 r
  refine ⟨fun n hn row hrow => ?_, hrot, hbulk, fun sel hcl => ?_⟩
  · have hdid := hn
    obtain ⟨th', hi', hev⟩ := hn
    obtain rfl := Option.some.inj (hi.symm.trans hi')
    obtain ⟨b, hcl⟩ := hlost.cleared hev
    have hna := ((hK.cleared i _ b (did_of_mem hi hcl)).2 row hrow).1
    cases hst : row.status with
    | active => exact absurd hst hna
    | revoked => rfl
    | rotated =>
      obtain ⟨q, hq⟩ := Option.ne_none_iff_exists'.mp ((hK.row _ row hrow).1.rotated hst)
      obtain ⟨k, f, x, hm⟩ := pointer_row memoryStore hs _ row q hrow hq
      exact absurd (granted_of_marked hs hm) (not_granted (fresh hs) hdid ⟨th, hi, hop⟩ hrot)
  · obtain ⟨th', hi', hev⟩ := hcl
    obtain rfl := Option.some.inj (hi.symm.trans hi')
    rcases hlost.others hev with ⟨n, hn, hsel⟩ | ⟨r, d, p, q, t, q', hq, hf, hmark, hfound, rfl⟩
    · exact Or.inl ⟨n, did_of_mem hi hn, hsel⟩
    · refine Or.inr ?_
      obtain ⟨r₀, hst, hD, hwhy⟩ := lost_rotation memoryContract hs i _ t q' (did_of_mem hi hmark)
      have hdq : d.selector = q := hK.found_selector (did_of_mem hi hf)
      obtain rfl : r.selector = p := hK.found_selector (did_of_mem hi hfound)
      obtain ⟨j, f, x, hm⟩ := pointer_found memoryStore hs i _ r q (did_of_mem hi hfound) hq
      have hsd : Stored s d.selector d := hdq ▸ .of_found hK (did_of_mem hi hf)
      have hfol := follows_of_marked memoryStore (fresh hs) hm hst (hdq ▸ hsd)
      refine ⟨d, hsd, ?_, fun sel' row hrow hfam hg hact => ?_⟩
      · rcases hwhy with ⟨j', b, rep, hd, hc⟩ | hgone
        · exact Or.inl (hlost.revokedAsWhole hi hd (hc.congr hfol.familyId hfol.userId))
        · refine Or.inr ?_
          by_contra hne
          exact predecessor_present memoryStore (fresh hs) j _ f x q hm (hdq ▸ hne) hgone
      · have hrev := hD.revoked sel' row hg hrow (hfam.trans hfol.familyId)
        rw [hact] at hrev
        cases hrev

/-- A login; a refresh of its token; a retry of it within the grace window that displaces the successor;
the revocation of the family; and the end of the retry, which loses its rotation. -/
def lostRetry : PoolState Rows :=
  (played sampleHmac (fun s l => honestCheck sampleHmac s l)
    (.invoke (sampleIssue 50 0) :: sampleSteps 0 1 ++
      .invoke (sampleRefresh 50 0 1 1010) :: sampleSteps 1 3 ++
      [.invoke (sampleRefresh 50 0 2 1020), .go 2, .go 2, .go 2] ++
      .invoke (.revokeFamily (sampleRow 50 0).familyId) :: sampleSteps 3 1 ++
      sampleSteps 2 3)).get (by decide)

theorem conflict_harmless_sample : Conflicted lostRetry 2 ∧
    ∃ d, Stored lostRetry (sampleDraw 1).selectorText d ∧ RevokedAsWhole lostRetry 2 d := by
  have hs : ((engines sampleHmac memory).under (Honest sampleHmac)).Reachable lostRetry :=
    played_reachable (fun _ _ h => honest_of_check h) _
  have hc : Conflicted lostRetry 2 := ⟨_, _, _, rfl, rfl, rfl, rfl⟩
  have hcl : Cleared lostRetry 2 (sampleDraw 1).selectorText := did_of_read (k := 3) rfl
  have hpres : lostRetry.shared.get (sampleDraw 1).selectorText ≠ none := by decide
  refine ⟨hc, ?_⟩
  rcases (conflict_harmless hs hc).others _ hcl with ⟨n, hn, hsel⟩ | ⟨d, hd, hwhy, -⟩
  · obtain ⟨m, hm, hne⟩ : ∃ m : TokenRecord,
        (lostRetry.threads[2]?.bind fun th => th.trace[2]?) = some ⟨.insert m, ()⟩ ∧
        m.selector ≠ (sampleDraw 1).selectorText := ⟨_, rfl, by decide⟩
    exact absurd (inserted_once hs hn (did_of_read hm) ▸ hsel) hne
  · exact ⟨d, hd, hwhy.resolve_right hpres⟩

end NebulaToken.Safety.Conflict
