import NebulaToken.Runs.Execution
import NebulaToken.Runs.Unforked

/-! # No fork

However logins, refreshes and revocations interleave, a family has one record in use: the others that
are active are successors whose refresh has not rotated, and no token was returned for them.

* `fork_of_unreturned`: a refresh that proves a token nobody was given forks a family;
* `no_fork`: nothing else does. -/

namespace NebulaToken.Safety.NoFork

open NebulaToken.Lib.Pool NebulaToken.Lib.Transition NebulaToken.Token.Unicode
open NebulaToken.Token.Wire NebulaToken.Engine.Records NebulaToken.Engine.Operations
open NebulaToken.Runs.Calls NebulaToken.Runs.History NebulaToken.Runs.Provenance
open NebulaToken.Runs.Assumptions NebulaToken.Runs.Families NebulaToken.Runs.Lineage
open NebulaToken.Runs.Unforked NebulaToken.Runs.Execution
open NebulaToken.Store.Contract NebulaToken.Store.Memory

/-- The record of the selector was stored by a refresh that has not rotated, and has returned no
token. -/
def Undelivered (s : PoolState Rows) (sel : Str) : Prop :=
  ∃ i c n, OpAt s i (.refresh c) ∧ Inserted s i n ∧ n.selector = sel ∧
    (∀ p f x q, ¬ Marked s i p f x q) ∧ ∀ tok, ¬ Delivers s i tok

variable {H : HmacSha256} {s : PoolState Rows}

/-- **Fresh draws alone do not rule out a fork**: a refresh abandoned before its rotation leaves an
active successor, and a call that proves the token of that successor, which nobody was given, starts a
second line. -/
theorem fork_of_unreturned : ¬ ∀ s, ((engines sampleHmac memory).under FreshDraws).Reachable s →
    ∀ sel sel' r r', s.shared.get sel = some r → s.shared.get sel' = some r' → r.status = .active →
      r'.status = .active → r.familyId = r'.familyId → Returned s sel → Returned s sel' →
      sel = sel' := by
  intro h
  have hrows : ∃ r r', forked.shared.get (sampleDraw 0).selectorText = some r ∧
      forked.shared.get (sampleDraw 2).selectorText = some r' ∧ r.status = .active ∧
      r'.status = .active ∧ r.familyId = r'.familyId := ⟨_, _, rfl, rfl, rfl, rfl, rfl⟩
  obtain ⟨r, r', hr, hr', ha, ha', hf⟩ := hrows
  have he := h forked forked_reachable _ _ r r' hr hr' ha ha' hf (returned_of_check (by decide))
    (returned_of_check (by decide))
  exact absurd he (by decide)

/-- **No fork.** In every run with fresh draws in which no refresh proves a token that was not returned:
of the records of a family whose token was returned, or whose call has inserted it at a login or rotated
to it and has only to return it, at most one is active; every other active record is a successor of a
refresh that has not rotated and has returned no token; and when all calls have returned, a family has
at most one active record. -/
theorem no_fork (hs : ((engines H memory).under (Honest H)).Reachable s) :
    (∀ sel, Returned s sel → Granted H s sel) ∧
    (∀ sel sel' r r', s.shared.get sel = some r → s.shared.get sel' = some r' → r.status = .active →
      r'.status = .active → r.familyId = r'.familyId → Granted H s sel → Granted H s sel' →
      sel = sel') ∧
    (∀ sel r, s.shared.get sel = some r → r.status = .active →
      Granted H s sel ∨ Undelivered s sel) ∧
    ((∀ th ∈ s.threads, th.mode = .returned) → ∀ sel sel' r r', s.shared.get sel = some r →
      s.shared.get sel' = some r' → r.status = .active → r'.status = .active →
      r.familyId = r'.familyId → sel = sel') := by
  have hK := knowledge_of_honest memoryStore hs
  have hone : ∀ sel sel' r r', s.shared.get sel = some r → s.shared.get sel' = some r' →
      r.status = .active → r'.status = .active → r.familyId = r'.familyId → Granted H s sel →
      Granted H s sel' → sel = sel' := by
    intro sel sel' r r' hr hr' ha ha' hf hg hg'
    exact Sum.inl.inj (live_unique memoryStore hs r.familyId _ _ (.row hg hr ha rfl)
      (.row hg' hr' ha' hf.symm))
  refine ⟨fun sel h => granted_of_returned hs h, hone, ?_, ?_⟩
  · intro sel r hr ha
    obtain ⟨-, i, n, hi, rfl, -⟩ := hK.row sel r hr
    rcases granted_or_undelivered hs hi with hg | ⟨c, hop, hno, hdel⟩
    · exact Or.inl hg
    · exact Or.inr ⟨i, c, n, hop, hi, rfl, hno, hdel⟩
  · intro hall
    -- a refresh that has returned without rotating has revoked its successor
    have hgr : ∀ sel r, s.shared.get sel = some r → r.status = .active → Granted H s sel := by
      intro sel r hr ha
      obtain ⟨-, i, n, hi, rfl, -⟩ := hK.row sel r hr
      refine (granted_or_undelivered hs hi).resolve_right ?_
      rintro ⟨c, ⟨th, hth, hop⟩, hno, -⟩
      obtain ⟨res, hat, -⟩ := refreshAt_returned hs hth hop (hall th (mem_of_getElem? hth))
      obtain ⟨th', hth', hev⟩ := hi
      obtain rfl := Option.some.inj (hth.symm.trans hth')
      rcases refreshAt_inserted hat hev with ⟨r', f, x, hm, -⟩ | ⟨b, r', hcl, -⟩
      · exact hno _ _ _ _ (did_of_mem hth hm)
      · exact ((hK.cleared i _ b (did_of_mem hth hcl)).2 r hr).1 ha
    intro sel sel' r r' hr hr' ha ha' hf
    exact hone sel sel' r r' hr hr' ha ha' hf (hgr sel r hr ha) (hgr sel' r' hr' ha')

/-- A login, and two refreshes of its token of which one has won and the other has still to rotate. -/
def contended : PoolState Rows :=
  (played sampleHmac (fun s l => honestCheck sampleHmac s l)
    (.invoke (sampleIssue 0 0) :: sampleSteps 0 1 ++
      [.invoke (sampleRefresh 0 0 1 1010), .go 1, .go 1] ++
      .invoke (sampleRefresh 0 0 2 1010) :: sampleSteps 2 3)).get (by decide)

theorem no_fork_sample : ∃ sel sel' r r', sel ≠ sel' ∧ contended.shared.get sel = some r ∧
    contended.shared.get sel' = some r' ∧ r.status = .active ∧ r'.status = .active ∧
    r.familyId = r'.familyId ∧ Granted sampleHmac contended sel ∧ Undelivered contended sel' := by
  have hs : ((engines sampleHmac memory).under (Honest sampleHmac)).Reachable contended :=
    played_reachable (fun _ _ h => honest_of_check h) _
  have hrows : ∃ r r', contended.shared.get (sampleDraw 2).selectorText = some r ∧
      contended.shared.get (sampleDraw 1).selectorText = some r' ∧ r.status = .active ∧
      r'.status = .active ∧ r.familyId = r'.familyId := ⟨_, _, rfl, rfl, rfl, rfl, rfl⟩
  obtain ⟨r, r', hr, hr', ha, ha', hf⟩ := hrows
  obtain ⟨hret, hone, hactive, -⟩ := no_fork hs
  have hne : (sampleDraw 2).selectorText ≠ (sampleDraw 1).selectorText := by decide
  have hg : Granted sampleHmac contended (sampleDraw 2).selectorText :=
    hret _ (returned_of_check (by decide))
  refine ⟨_, _, r, r', hne, hr, hr', ha, ha', hf, hg, ?_⟩
  exact (hactive _ r' hr' ha').resolve_left fun hg' =>
    hne (hone _ _ r r' hr hr' ha ha' hf hg hg')

end NebulaToken.Safety.NoFork
