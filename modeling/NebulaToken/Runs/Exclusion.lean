import NebulaToken.Runs.Assumptions

/-! # What the compare-and-sets exclude

A row leaves the active status once: by the first rotation, or by a single revocation, of one call.
This holds in every run that stores no selector twice, over every store that keeps the contract. -/

namespace NebulaToken.Runs.Exclusion

open NebulaToken.Lib.Pool NebulaToken.Lib.Transition NebulaToken.Token.Unicode
open NebulaToken.Token.Wire NebulaToken.Engine.Records
open NebulaToken.Runs.Calls NebulaToken.Runs.History NebulaToken.Runs.Provenance
open NebulaToken.Runs.Assumptions NebulaToken.Store.Contract

variable {σ Env : Type}

/-- Call `i` has revoked the row of `sel`, which was active. -/
def Cleared (s : PoolState σ) (i : ℕ) (sel : Str) : Prop := s.Did i ⟨.revokeIfActive sel, true⟩

/-- **A row leaves the active status once.** -/
structure Exclusive (s : PoolState σ) : Prop where
  cleared : ∀ i j sel, Cleared s i sel → Cleared s j sel → i = j
  apart : ∀ i j sel fromStatus t q, Cleared s i sel → ¬ Marked s j sel fromStatus t q
  first : ∀ i j sel t q t' q', Marked s i sel .active t q → Marked s j sel .active t' q' → i = j

section Invariant

variable {H : HmacSha256} {svc : StoreService σ Env} {C : StoreContract svc} {s s' : PoolState σ}
  {l : PoolLabel Env} {G : PoolState σ → PoolLabel Env → Prop}

/-- A row that is cleared was active, so no call had cleared or rotated it. -/
theorem clear_fresh (hr : ((engines H svc).under G).Reachable s) (hK : Knowledge C s) {i : ℕ} {sel : Str}
    (hs : Step (code H) svc s (.answer i ⟨.revokeIfActive sel, true⟩) s') :
    (∀ j, ¬ Cleared s j sel) ∧ ∀ j fromStatus t q, ¬ Marked s j sel fromStatus t q := by
  obtain ⟨th, k, -, -, ha⟩ := callAt_answer hr hs
  obtain ⟨r, h0, hst, -⟩ := C.clear ha
  refine ⟨fun j hj => ?_, fun j fromStatus t q hj => ?_⟩
  · exact ((hK.cleared j sel true hj).2 r h0).1 hst
  · exact ((hK.marked j sel fromStatus t q hj).2 r h0).1 hst

/-- A row that is rotated had not been revoked, and had not been rotated if it was active. -/
theorem mark_fresh (hr : ((engines H svc).under G).Reachable s) (hK : Knowledge C s) {i : ℕ} {sel q : Str}
    {fromStatus : TokenStatus} {t : ℤ}
    (hs : Step (code H) svc s (.answer i ⟨.markRotated sel fromStatus t q, true⟩) s') :
    (∀ j, ¬ Cleared s j sel) ∧
      (fromStatus = .active → ∀ j fromStatus' t' q', ¬ Marked s j sel fromStatus' t' q') := by
  obtain ⟨th, k, -, hc, ha⟩ := callAt_answer hr hs
  obtain ⟨r, h0, hst, -⟩ := C.mark ha
  have hne : fromStatus ≠ .revoked := by
    generalize th.op = op at hc
    generalize th.trace = tr at hc
    cases mark_request hc with
    | refresh ht => exact ht.not_revoked
  refine ⟨fun j hj => hne ?_, fun hact j fromStatus' t' q' hj => ?_⟩
  · rw [← hst, ((hK.cleared j sel true hj).2 r h0).2 rfl]
  · exact ((hK.marked j sel fromStatus' t' q' hj).2 r h0).1 (hst.trans hact)

theorem Exclusive.step (hE : Exclusive s) (hr : ((engines H svc).under G).Reachable s)
    (hK : Knowledge C s) (hs : Step (code H) svc s l s') : Exclusive s' where
  cleared i j sel hi hj := by
    rcases hs.did_iff.mp hi with hi | rfl <;> rcases hs.did_iff.mp hj with hj | hl
    · exact hE.cleared i j sel hi hj
    · subst hl
      exact absurd hi ((clear_fresh hr hK hs).1 i)
    · exact absurd hj ((clear_fresh hr hK hs).1 j)
    · cases hl
      rfl
  apart i j sel fromStatus t q hi hj := by
    rcases hs.did_iff.mp hi with hi | rfl <;> rcases hs.did_iff.mp hj with hj | hl
    · exact hE.apart i j sel fromStatus t q hi hj
    · subst hl
      exact (mark_fresh hr hK hs).1 i hi
    · exact (clear_fresh hr hK hs).2 j _ _ _ hj
    · cases hl
  first i j sel t q t' q' hi hj := by
    rcases hs.did_iff.mp hi with hi | rfl <;> rcases hs.did_iff.mp hj with hj | hl
    · exact hE.first i j sel t q t' q' hi hj
    · subst hl
      exact absurd hi ((mark_fresh hr hK hs).2 rfl i _ _ _)
    · exact absurd hj ((mark_fresh hr hK hs).2 rfl j _ _ _)
    · cases hl
      rfl

theorem exclusive (C : StoreContract svc) (h : ((engines H svc).under NoReinsert).Reachable s) :
    Exclusive s := by
  refine h.invariant ?_ fun s l s' hr hE hs => hE.step hr (knowledge C hr) hs.2
  intro s hs
  rw [show s = ⟨svc.start, []⟩ from hs]
  have hno : ∀ i ev, ¬ (⟨svc.start, []⟩ : PoolState σ).Did i ev := by
    rintro i ev ⟨th, hi, -⟩
    cases hi
  exact ⟨fun i j sel hi => absurd hi (hno i _), fun i j sel _ _ _ hi => absurd hi (hno i _),
    fun i j sel _ _ _ _ hi => absurd hi (hno i _)⟩

end Invariant

end NebulaToken.Runs.Exclusion
