import NebulaToken.Runs.Execution
import NebulaToken.Runs.Families

/-! # The absolute deadline

The login fixes the deadline of its family. Rotations, retries and engines with other lifetimes hand it
on unchanged, and no refresh succeeds at or after it. -/

namespace NebulaToken.Safety.Deadline

open NebulaToken.Lib.Pool NebulaToken.Lib.Transition NebulaToken.Token.Unicode
open NebulaToken.Token.Wire NebulaToken.Engine.Records NebulaToken.Engine.Operations
open NebulaToken.Runs.Calls NebulaToken.Runs.History NebulaToken.Runs.Provenance
open NebulaToken.Runs.Assumptions NebulaToken.Runs.Families NebulaToken.Runs.Execution
open NebulaToken.Store.Contract NebulaToken.Store.Memory

/-- `r` is a record that was stored, as it was stored or as it is now. -/
def Recorded (s : PoolState Rows) (r : TokenRecord) : Prop :=
  (∃ i, Inserted s i r) ∨ ∃ sel, s.shared.get sel = some r

variable {H : HmacSha256} {s : PoolState Rows}

/-- Behind a record is the record that was stored. -/
theorem Recorded.stored (hr : ((engines H memory).under NoReinsert).Reachable s) {r : TokenRecord}
    (h : Recorded s r) : ∃ i n, Inserted s i n ∧ Evolves n r := by
  rcases h with ⟨i, hi⟩ | ⟨sel, hsel⟩
  · exact ⟨i, r, hi, .refl r⟩
  · obtain ⟨-, i, n, hi, -, he⟩ := (knowledge memoryStore hr).row sel r hsel
    exact ⟨i, n, hi, he⟩

/-- The family of a record, by its login. -/
theorem Recorded.origin (hr : ((engines H memory).under NoReinsert).Reachable s) {r : TokenRecord}
    (h : Recorded s r) : ∃ j c, OpAt s j (.issue c) ∧ OfFamily c r := by
  obtain ⟨i, n, hi, he⟩ := h.stored hr
  obtain ⟨j, c, n₀, hf, ho⟩ := founded memoryStore hr i n hi
  exact ⟨j, c, hf.opAt, ho.evolves he⟩

/-- **The absolute deadline.** In every run with fresh draws, rows collected or not: the records of a
family have the user of its login and the deadline `now + absoluteTtl` of its login; a record's idle
deadline is `createdAt + idleTtl` of the engine that minted it, or the family's deadline if that is
earlier; no refresh succeeds at or after the deadline; the record of a returned token was usable when it
was minted; and every success reports the deadline that the login has reported. -/
theorem absolute_deadline (hs : ((engines H memory).under FreshDraws).Reachable s) :
    (∀ r, Recorded s r →
      (∃ i c, OpAt s i (.issue c) ∧ r.familyId = c.draw.familyId ∧ r.userId = c.userId ∧
        r.familyExpiresAt = c.now + c.engine.absoluteTtl) ∧
      (∀ r', Recorded s r' → r'.familyId = r.familyId →
        r'.userId = r.userId ∧ r'.familyExpiresAt = r.familyExpiresAt) ∧
      ∃ i op e, OpAt s i op ∧ drawn op = some r.selector ∧ minter op = some (e, r.createdAt) ∧
        r.idleExpiresAt = min (r.createdAt + e.idleTtl) r.familyExpiresAt) ∧
    (∀ i c x, OpAt s i (.refresh c) → Succeeded s i x →
      ∃ j c₀, OpAt s j (.issue c₀) ∧ x.familyId = c₀.draw.familyId ∧
        c.now < c₀.now + c₀.engine.absoluteTtl ∧ x.expiresAt = c₀.now + c₀.engine.absoluteTtl) ∧
    (∀ i tok, Delivers s i tok → ∃ n, Inserted s i n ∧
      (∃ parsed, parseToken tok = some parsed ∧ parsed.selector = n.selector) ∧
      n.createdAt < n.idleExpiresAt ∧ n.idleExpiresAt ≤ n.familyExpiresAt) ∧
    ∀ i x j y, Succeeded s i x → Issued s j y → x.familyId = y.familyId →
      x.expiresAt = y.expiresAt := by
  have hr := noReinsert_of_freshDraws hs
  refine ⟨fun r hrec => ⟨?_, ?_, ?_⟩, ?_, ?_, ?_⟩
  · obtain ⟨i, c, hop, ho⟩ := hrec.origin hr
    exact ⟨i, c, hop, ho.family, ho.user, ho.deadline⟩
  · intro r' hrec' hfam
    obtain ⟨i, c, hop, ho⟩ := hrec.origin hr
    obtain ⟨j, c', hop', ho'⟩ := hrec'.origin hr
    obtain ⟨-, rfl⟩ := founded_unique hs hop hop' (by rw [← ho.family, ← ho'.family, hfam])
    exact ⟨ho'.user.trans ho.user.symm, ho'.deadline.trans ho.deadline.symm⟩
  · obtain ⟨i, n, hi, he⟩ := hrec.stored hr
    obtain ⟨op, hop, hd⟩ := inserted_drawn hs hi
    obtain ⟨op', e, now, hop', hm, rfl, hidle⟩ := minted_by hs hi
    obtain rfl := hop.unique hop'
    refine ⟨i, op, e, hop, ?_, ?_, ?_⟩
    · rw [hd, he.selector]
    · rw [hm, he.createdAt]
    · rw [he.idleExpiresAt, he.createdAt, he.familyExpiresAt, hidle]
  · intro i c x hop hx
    obtain ⟨c', j, c₀, hop', hop₀, hfam, -, hexp, hlt⟩ := success_before_deadline memoryStore hr hx
    obtain rfl := Operation.refresh.inj (hop.unique hop')
    exact ⟨j, c₀, hop₀, hfam, lt_of_lt_of_eq hlt hexp, hexp⟩
  · intro i tok htok
    obtain ⟨n, hn, hp, -⟩ := delivered hs htok
    exact ⟨n, hn, hp, minted_usable hs hn⟩
  · intro i x j y hx hy hfam
    obtain ⟨c', k, c₀, -, hop₀, hfam', -, hexp, -⟩ := success_before_deadline memoryStore hr hx
    obtain ⟨c, n₀, hf, rfl⟩ := founded_of_issued hr hy
    obtain ⟨-, rfl⟩ := founded_unique hs hop₀ hf.opAt (hfam'.symm.trans hfam)
    exact hexp

/-- A login and a refresh of its token, after a collection. -/
def exchanged : PoolState Rows :=
  (played sampleHmac (fun s l => freshDrawsCheck s l)
    (.invoke (sampleIssue 0 0) :: sampleSteps 0 1 ++ [.env 1005] ++
      .invoke (sampleRefresh 0 0 1 1010) :: sampleSteps 1 3)).get (by decide)

theorem absolute_deadline_sample : ∃ x, Succeeded exchanged 1 x ∧ x.expiresAt = 2000 ∧
    (∀ r, Recorded exchanged r → r.familyId = (sampleRow 0 0).familyId → r.familyExpiresAt = 2000) ∧
    ∃ j c₀, OpAt exchanged j (.issue c₀) ∧ x.familyId = c₀.draw.familyId ∧
      (1010 : ℤ) < c₀.now + c₀.engine.absoluteTtl := by
  have hs : ((engines sampleHmac memory).under FreshDraws).Reachable exchanged :=
    played_reachable (fun _ _ h => freshDraws_of_check h) _
  have hx : ∃ x, Succeeded exchanged 1 x ∧ x.familyId = (sampleRow 0 0).familyId :=
    ⟨_, succeeded_of_read rfl, rfl⟩
  have hy : ∃ y, Issued exchanged 0 y ∧ y.familyId = (sampleRow 0 0).familyId ∧ y.expiresAt = 2000 :=
    ⟨_, ⟨_, rfl, rfl⟩, rfl, rfl⟩
  have hop : OpAt exchanged 1 (sampleRefresh 0 0 1 1010) := opAt_of_read rfl
  have hrow : Recorded exchanged (sampleRow 0 0) := Or.inl ⟨0, did_of_read (k := 0) rfl⟩
  obtain ⟨x, hx, hxf⟩ := hx
  obtain ⟨y, hy, hyf, hexp⟩ := hy
  obtain ⟨hrec, hsucc, -, hrep⟩ := absolute_deadline hs
  obtain ⟨j, c₀, hop₀, hfam₀, hlt, -⟩ := hsucc 1 _ x hop hx
  exact ⟨x, hx, (hrep 1 x 0 y hx hy (hxf.trans hyf.symm)).trans hexp,
    fun r hr hf => ((hrec _ hrow).2.1 r hr hf).2, j, c₀, hop₀, hfam₀, hlt⟩

end NebulaToken.Safety.Deadline
