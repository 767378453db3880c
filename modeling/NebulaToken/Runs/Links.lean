import NebulaToken.Runs.Exclusion
import NebulaToken.Runs.Unforked

/-! # Links

A grace retry overwrites the pointer of the row it rotates. The successor it pointed to is not lost: the
retry has revoked it before it was rotated. So every record a rotation has installed is still pointed
to by its predecessor, or was discarded so.

* `linked`: the invariant, with what a displacing call knows of the pointer it is to overwrite. -/

namespace NebulaToken.Runs.Links

open NebulaToken.Lib.Pool NebulaToken.Lib.Transition NebulaToken.Token.Unicode
open NebulaToken.Token.Wire NebulaToken.Engine.Records NebulaToken.Engine.Operations
open NebulaToken.Runs.Calls NebulaToken.Runs.History NebulaToken.Runs.Provenance
open NebulaToken.Runs.Assumptions NebulaToken.Runs.Exclusion NebulaToken.Runs.Families
open NebulaToken.Runs.Lineage NebulaToken.Runs.Unforked NebulaToken.Store.Contract

variable {σ Env : Type}

/-- The row was revoked before it was rotated. -/
def Discarded (r : TokenRecord) : Prop := r.status = .revoked ∧ r.replacedBySelector = none

/-- **Predecessors point to their successors.** -/
structure Linked {svc : StoreService σ Env} (H : HmacSha256) (C : StoreContract svc)
    (s : PoolState σ) : Prop where
  installed : ∀ i p f t q r, Marked s i p f t q → C.look s.shared q = some r → ¬ Discarded r →
    ∃ rp, C.look s.shared p = some rp ∧ rp.replacedBySelector = some q
  displacing : ∀ i r rp, Displacing H s i r → C.look s.shared r.selector = some rp →
    rp.replacedBySelector = r.replacedBySelector

section Facts

variable {H : HmacSha256} {svc : StoreService σ Env} {C : StoreContract svc} {s s' : PoolState σ}
  {l : PoolLabel Env}

/-- A row that a call has revoked by itself is discarded. -/
theorem cleared_discarded (C : StoreContract svc)
    (h : ((engines H svc).under NoReinsert).Reachable s) :
    ∀ i sel row, Cleared s i sel → C.look s.shared sel = some row → Discarded row := by
  refine h.invariant (I := fun s => ∀ i sel row, Cleared s i sel → C.look s.shared sel = some row →
    Discarded row) ?_ ?_
  · rintro s hs i sel row ⟨th, hi, -⟩
    rw [show s = ⟨svc.start, []⟩ from hs] at hi
    cases hi
  · intro s l s' hr ih hs i sel row' hc hrow'
    have hK := knowledge C hr
    rcases hs.2.did_iff.mp hc with hold | rfl
    · obtain ⟨row, hrow, he⟩ := evolves_known hr hK hs.2 hs.1 (hK.cleared i sel true hold).1 hrow'
      have hd := ih i sel row hold hrow
      rw [he.revoked hd.1]
      exact hd
    · obtain ⟨th, k, -, -, ha⟩ := callAt_answer hr hs.2
      obtain ⟨row, hrow, hst, hupd⟩ := C.clear ha
      rw [hupd, Function.update_self] at hrow'
      obtain rfl := Option.some.inj hrow'
      exact ⟨rfl, (hK.row sel row hrow).1.active hst⟩

/-- A row that is not discarded after a step was not discarded before it. -/
theorem not_discarded_back (hr : ((engines H svc).under (Honest H)).Reachable s)
    (hs : ((engines H svc).under (Honest H)).step s l s') {sel : Str} (hk : Known s sel)
    {r' : TokenRecord} (hrow : C.look s'.shared sel = some r') (hd : ¬ Discarded r') :
    ∃ r, C.look s.shared sel = some r ∧ ¬ Discarded r := by
  have hK := knowledge_of_honest C hr
  cases rowAfter C hs.2 hrow with
  | kept h0 => exact ⟨r', h0, hd⟩
  | @inserted i h0 hsel => exact absurd (hsel ▸ hk) (noReinsert_of_honest hr hs i r' rfl)
  | @rotated i q f t r h0 hst he =>
    refine ⟨r, h0, fun hdr => ?_⟩
    obtain ⟨th, c, r₀, n, tr, row, -, -, ht, -, -, -, -, -, hrow₀, hst₀, -⟩ :=
      mark_step (C := C) hr hs.2
    obtain rfl := Option.some.inj (h0.symm.trans hrow₀)
    exact ht.not_revoked (hst.symm.trans hdr.1)
  | @cleared i r h0 hst he =>
    subst he
    exact absurd ⟨rfl, (hK.row sel r h0).1.active hst⟩ hd
  | @bulk i q _ r hl h0 hc he =>
    subst he
    exact ⟨r, h0, fun hdr => hd ⟨rfl, hdr.2⟩⟩

/-- **A pointer is overwritten by a call that has displaced the successor it points to.** -/
theorem overwrite (hL : Linked H C s) (hr : ((engines H svc).under (Honest H)).Reachable s) {i : ℕ}
    {p q q' : Str} {f : TokenStatus} {t : ℤ} {rp : TokenRecord}
    (hs : Step (code H) svc s (.answer i ⟨.markRotated p f t q', true⟩) s')
    (hrow : C.look s.shared p = some rp) (hq : rp.replacedBySelector = some q) : Cleared s i q := by
  obtain ⟨th, c, r, n, tr, row, hi, hop, ht, hn, htr, rfl, rfl, -, hrow₀, hst, -⟩ :=
    mark_step (C := C) hr hs
  obtain rfl := Option.some.inj (hrow.symm.trans hrow₀)
  have hK := knowledge_of_honest C hr
  have hdis : f = .rotated → Displacing H s i r := by
    rintro rfl
    exact ⟨th, c, t, tr, hi, hop, ht, Or.inr ⟨n, htr⟩⟩
  have hd : ∀ ev ∈ tr, s.Did i ev := fun ev hev =>
    did_of_mem hi (htr ▸ List.mem_cons_of_mem _ hev)
  cases ht with
  | fresh =>
    rw [(hK.row _ rp hrow).1.active hst] at hq
    cases hq
  | @grace sel pepper q₀ _ d hp hrs hg hda hdev =>
    have hrep := hL.displacing i r rp (hdis rfl) hrow
    rw [hq, (withinGrace_some hg).2.1] at hrep
    obtain rfl := Option.some.inj hrep
    have hsel := hK.found_selector (hd ⟨.findBySelector q, some d⟩ (by simp))
    rw [← hsel]
    exact hd _ (by simp)

theorem Linked.installed_step (hL : Linked H C s)
    (hr : ((engines H svc).under (Honest H)).Reachable s)
    (hs : ((engines H svc).under (Honest H)).step s l s') {i : ℕ} {p q : Str} {f : TokenStatus} {t : ℤ}
    {r' : TokenRecord} (hm : Marked s' i p f t q) (hrow' : C.look s'.shared q = some r')
    (hd : ¬ Discarded r') :
    ∃ rp, C.look s'.shared p = some rp ∧ rp.replacedBySelector = some q := by
  have hK := knowledge_of_honest C hr
  rcases hs.2.did_iff.mp hm with hold | rfl
  · obtain ⟨r, hrow, hdr⟩ :=
      not_discarded_back hr hs (Installed.known hr ⟨i, p, f, t, hold⟩) hrow' hd
    obtain ⟨rp, hrp, hq⟩ := hL.installed i p f t q r hold hrow hdr
    -- the predecessor is still there, since its successor is
    have hfol := follows_of_marked C (fresh hr) hold (.of_row hK hrp) (.of_row hK hrow)
    have hpres := present_together C hs.2 hrow hrp hfol.familyExpiresAt.symm
      (by rw [hrow']; exact Option.some_ne_none r')
    obtain ⟨rp', hrp'⟩ := Option.ne_none_iff_exists'.mp hpres
    refine ⟨rp', hrp', ?_⟩
    cases rowAfter C hs.2 hrp' with
    | kept h0 =>
      obtain rfl := Option.some.inj (hrp.symm.trans h0)
      exact hq
    | inserted h0 hsel =>
      rw [hrp] at h0
      cases h0
    | @rotated j q' f' t' row h0 hst he =>
      obtain rfl := Option.some.inj (hrp.symm.trans h0)
      exact absurd (cleared_discarded C (noReinsert_of_freshDraws (fresh hr)) j q r
        (overwrite hL hr hs.2 hrp hq) hrow) hdr
    | cleared h0 hst he =>
      obtain rfl := Option.some.inj (hrp.symm.trans h0)
      rw [he]
      exact hq
    | bulk hl h0 hc he =>
      obtain rfl := Option.some.inj (hrp.symm.trans h0)
      rw [he]
      exact hq
  · obtain ⟨th, c, r, n, tr, row, -, -, -, -, -, -, -, -, -, -, hupd⟩ := mark_step (C := C) hr hs.2
    refine ⟨rotatedTo row t q, ?_, rfl⟩
    rw [hupd, Function.update_self]

theorem Linked.displacing_step (hL : Linked H C s)
    (hr : ((engines H svc).under (Honest H)).Reachable s)
    (hs : ((engines H svc).under (Honest H)).step s l s') {i : ℕ} {r rp' : TokenRecord}
    (hdis : Displacing H s' i r) (hrow' : C.look s'.shared r.selector = some rp') :
    rp'.replacedBySelector = r.replacedBySelector := by
  have hK := knowledge_of_honest C hr
  rcases Unforked.displacing_step hs.2 hdis with hold | ⟨d, rfl⟩
  · obtain ⟨hsr, hrs, hev⟩ := hold.read hK
    cases rowAfter C hs.2 hrow' with
    | kept h0 => exact hL.displacing i r rp' hold h0
    | @inserted j h0 hsel => exact absurd (hsel ▸ hsr.known) (noReinsert_of_honest hr hs j rp' rfl)
    | @rotated j q f t row h0 hst he =>
      obtain ⟨th, c, r₀, n, tr, row₀, hj, hop, ht, -, htr, hsel, -⟩ := mark_step (C := C) hr hs.2
      cases f with
      | active => exact absurd hst ((hev row h0).not_active (by rw [hrs]; decide))
      | revoked => exact absurd rfl ht.not_revoked
      | rotated =>
        -- the call that rotates is the one that displaces, and it displaces no more
        have hdis₀ : Displacing H s j r₀ := ⟨th, c, t, tr, hj, hop, ht, Or.inr ⟨n, htr⟩⟩
        have hfam : r₀.familyId = r.familyId := (congrArg TokenRecord.familyId
          ((hsel ▸ (hdis₀.read hK).1).unique (fresh hr) hsr) :)
        obtain rfl := Sum.inr.inj (live_unique C hr r.familyId _ _ (.call hold rfl)
          (.call hdis₀ hfam))
        obtain ⟨th', hj', -, htr'⟩ := answered hs.2 hj
        exact absurd hdis (not_displacing_of_marked hj' htr' r)
    | @cleared j row h0 hst he =>
      rw [he]
      exact hL.displacing i r row hold h0
    | @bulk j q _ row hl h0 hc he =>
      rw [he]
      exact hL.displacing i r row hold h0
  · obtain ⟨row, hrow, hst, hupd, hq, hsr, j, f, t, hm⟩ := displacement_step (C := C) hr hs.2 hdis
    have hnd : ¬ Discarded row := fun hd => absurd hd.1 (by rw [hst]; decide)
    obtain ⟨rp, hrp, hqp⟩ := hL.installed j _ f t d row hm hrow hnd
    rw [hq, ← hqp]
    rw [hupd] at hrow'
    rcases eq_or_ne r.selector d with he | hne
    · rw [he, Function.update_self] at hrow'
      rw [he, hrow] at hrp
      rw [← Option.some.inj hrow', ← Option.some.inj hrp]
      rfl
    · rw [Function.update_of_ne hne, hrp] at hrow'
      rw [Option.some.inj hrow']

theorem linked (C : StoreContract svc) (h : ((engines H svc).under (Honest H)).Reachable s) :
    Linked H C s := by
  refine h.invariant (I := Linked H C) ?_ ?_
  · intro s hs
    rw [show s = ⟨svc.start, []⟩ from hs]
    refine ⟨?_, ?_⟩
    · rintro i p f t q r ⟨th, hi, -⟩
      cases hi
    · rintro i r rp ⟨th, c, t, tr, hi, -⟩
      cases hi
  · intro s l s' hr hL hs
    exact ⟨fun i p f t q r' hm hrow' hd => hL.installed_step hr hs hm hrow' hd,
      fun i r rp' hdis hrow' => hL.displacing_step hr hs hdis hrow'⟩

end Facts

end NebulaToken.Runs.Links
