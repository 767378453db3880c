import NebulaToken.Runs.Execution
import NebulaToken.Runs.Unforked

/-! # Reuse detection

A rotated token presented with proof, when no grace retry applies, is a sign of theft: the call refuses
it and revokes the family. From then on the family is dead for both holders of the token.

* `burn_of_reuse`: such a call does nothing but revoke the family;
* `accepted_after_reuse`: a call that proves a token nobody was given escapes the revocation;
* `reuse_detected`: nothing else does. -/

namespace NebulaToken.Safety.ReuseDetection

open NebulaToken.Lib.Program NebulaToken.Lib.Pool NebulaToken.Lib.Transition NebulaToken.Token.Unicode
open NebulaToken.Token.Wire NebulaToken.Engine.Records NebulaToken.Engine.Config
open NebulaToken.Engine.Operations NebulaToken.Runs.Calls NebulaToken.Runs.History
open NebulaToken.Runs.Provenance NebulaToken.Runs.Assumptions NebulaToken.Runs.Families
open NebulaToken.Runs.Lineage NebulaToken.Runs.Unforked NebulaToken.Runs.Execution
open NebulaToken.Store.Contract NebulaToken.Store.Memory

/-- The conditions of a grace retry on the record: all but that its successor is active. -/
structure InWindow (e : NebulaEngine) (r : TokenRecord) (now : ℤ) : Prop where
  grace : 0 < e.reuseGrace
  window : ∃ rotatedAt, r.rotatedAt = some rotatedAt ∧ now - rotatedAt ≤ e.reuseGrace
  replaced : r.replacedBySelector ≠ none
  alive : now < r.familyExpiresAt

/-- **Reuse**: call `i` has read `r` as rotated and has proved its verifier, and no grace retry applies,
because of the record or because its successor was read and is not active. -/
def ReuseSeen (H : HmacSha256) (s : PoolState Rows) (i : ℕ) (c : RefreshCall) (r : TokenRecord) : Prop :=
  ∃ (th : Call) (sel pepper : Str), s.threads[i]? = some th ∧ th.op = .refresh c ∧
    Proves H c sel r pepper ∧ r.status = .rotated ∧
    ((¬ InWindow c.engine r c.now ∧ [⟨.findBySelector sel, some r⟩] <:+ th.trace) ∨
      ∃ q found, r.replacedBySelector = some q ∧ (∀ d, found = some d → d.status ≠ .active) ∧
        [⟨.findBySelector q, found⟩, ⟨.findBySelector sel, some r⟩] <:+ th.trace)

variable {H : HmacSha256} {s t u v : PoolState Rows} {G : PoolState Rows → PoolLabel ℤ → Prop}

/-! ### What the call does -/

theorem withinGrace_eq_none {e : NebulaEngine} {r : TokenRecord} {now : ℤ}
    (h : ¬ InWindow e r now) : withinGrace e r now = none := by
  cases hg : withinGrace e r now with
  | none => rfl
  | some w =>
    obtain ⟨ht, hq, hpos, hle, hlt⟩ := withinGrace_some (t := w.1) (q := w.2) hg
    refine absurd ⟨hpos, ⟨_, ht, hle⟩, ?_, hlt⟩ h
    rw [hq]
    exact Option.some_ne_none _

theorem withinGrace_eq_some {e : NebulaEngine} {r : TokenRecord} {now : ℤ} {q : Str}
    (h : InWindow e r now) (hq : r.replacedBySelector = some q) :
    ∃ t, withinGrace e r now = some (t, q) := by
  obtain ⟨t, ht, hle⟩ := h.window
  refine ⟨t, ?_⟩
  simp only [withinGrace, ht, hq]
  exact if_pos ⟨h.grace, hle, h.alive⟩

/-- **A call that has seen reuse has only to revoke the family.** -/
theorem burn_of_reuse {c : RefreshCall} {r : TokenRecord} {i : ℕ} (h : ReuseSeen H s i c r) :
    ∃ th tr, s.threads[i]? = some th ∧ th.op = .refresh c ∧ tr <:+ th.trace ∧
      Leads (code H (.refresh c)) tr (Outcome.refreshed <$> burn .reuseDetected r) := by
  obtain ⟨th, sel, pepper, hi, hop, hp, hst, hseen⟩ := h
  have hproved := leads_proved hp
  rw [refreshProved, hst] at hproved
  dsimp only at hproved
  rw [handleReuse] at hproved
  by_cases hw : InWindow c.engine r c.now
  · rcases hseen with ⟨hno, -⟩ | ⟨q, found, hq, hfound, htr⟩
    · exact absurd hw hno
    · obtain ⟨t, hg⟩ := withinGrace_eq_some hw hq
      rw [hg] at hproved
      have hu : unused found = none := by
        cases found with
        | none => rfl
        | some d => exact if_neg (hfound d rfl)
      have hsecond : Leads (code H (.refresh c))
          [⟨.findBySelector q, found⟩, ⟨.findBySelector sel, some r⟩] (Outcome.refreshed <$>
            displace H c.engine r pepper c.deviceId c.now t c.draw found) := .answer hproved found
      rw [displace, hu] at hsecond
      exact ⟨th, _, hi, hop, htr, hsecond⟩
  · rw [withinGrace_eq_none hw] at hproved
    have htr : [⟨.findBySelector sel, some r⟩] <:+ th.trace := by
      rcases hseen with ⟨-, htr⟩ | ⟨q, found, -, -, htr⟩
      · exact htr
      · exact (List.suffix_cons _ _).trans htr
    exact ⟨th, _, hi, hop, htr, hproved⟩

/-- What comes after a revocation and a refusal are the only two points left. -/
theorem leads_burn {error : NebulaErrorCode} {r : TokenRecord} {tr : List StoreEvent}
    {p : StoreM Outcome} (h : Leads (Outcome.refreshed <$> burn error r) tr p) :
    (tr = [] ∧ p = Outcome.refreshed <$> burn error r) ∨
    ∃ n, tr = [⟨.revokeFamily r.familyId, n⟩] ∧ p = .ret (.refreshed (.refused (fail error r))) := by
  induction h with
  | start => exact Or.inl ⟨rfl, rfl⟩
  | @answer tr q k h rep ih =>
    rcases ih with ⟨rfl, he⟩ | ⟨n, rfl, he⟩
    · cases he
      exact Or.inr ⟨rep, rfl, rfl⟩
    · cases he

/-- A call that has seen reuse is about to revoke the family, or has revoked it and refuses. -/
theorem reuse_point (hr : ((engines H memory).under G).Reachable s) {i : ℕ} {c : RefreshCall}
    {r : TokenRecord} (h : ReuseSeen H s i c r) : ∃ th, s.threads[i]? = some th ∧
      (th.prog = Outcome.refreshed <$> burn .reuseDetected r ∨
        (∃ n, s.Did i ⟨.revokeFamily r.familyId, n⟩) ∧
          th.prog = .ret (.refreshed (.refused (fail .reuseDetected r)))) := by
  obtain ⟨th, tr, hi, hop, ⟨tr₁, htr⟩, hburn⟩ := burn_of_reuse h
  have hl := leads hr th (mem_of_getElem? hi)
  rw [hop, ← htr] at hl
  obtain ⟨a, ha, hb⟩ := hl.split
  rw [ha.unique hburn] at hb
  rcases leads_burn hb with ⟨-, he⟩ | ⟨n, hn, he⟩
  · exact ⟨th, hi, Or.inl he⟩
  · refine ⟨th, hi, Or.inr ⟨⟨n, th, hi, ?_⟩, he⟩⟩
    rw [← htr, hn]
    exact List.mem_append_left _ (List.mem_singleton_self _)

/-- The result of a call that has seen reuse. -/
theorem reuse_result (hr : ((engines H memory).under G).Reachable s) {i : ℕ} {c : RefreshCall}
    {r : TokenRecord} (h : ReuseSeen H s i c r) {th : Call} (hi : s.threads[i]? = some th)
    {x : Outcome} (hx : th.result = some x) :
    x = .refreshed (.refused (fail .reuseDetected r)) ∧ ∃ n, s.Did i ⟨.revokeFamily r.familyId, n⟩ := by
  obtain ⟨th', hi', hp⟩ := reuse_point hr h
  obtain rfl := Option.some.inj (hi.symm.trans hi')
  obtain ⟨-, hret⟩ := of_result hx
  rw [hret] at hp
  rcases hp with hp | ⟨hd, hp⟩
  · cases hp
  · cases hp
    exact ⟨rfl, hd⟩

/-- What a call has seen it has seen for good. -/
theorem ReuseSeen.run {c : RefreshCall} {r : TokenRecord} {i : ℕ} (h : ReuseSeen H s i c r)
    (hrun : ((engines H memory).under G).Run s t) : ReuseSeen H t i c r := by
  obtain ⟨th, sel, pepper, hi, hop, hp, hst, hseen⟩ := h
  obtain ⟨th', hi', hg⟩ := Run.grows hrun hi
  refine ⟨th', sel, pepper, hi', hg.op.trans hop, hp, hst, ?_⟩
  rcases hseen with ⟨hno, htr⟩ | ⟨q, found, hq, hfound, htr⟩
  · exact Or.inl ⟨hno, htr.trans hg.trace⟩
  · exact Or.inr ⟨q, found, hq, hfound, htr.trans hg.trace⟩

/-! ### The family afterwards -/

/-- The revocation of a family by a call that has read one of its records kills it. -/
theorem dead_of_burn (hs : ((engines H memory).under (Honest H)).Reachable s) {i : ℕ} {n : ℕ}
    {sel : Str} {r : TokenRecord} (hst : Stored s sel r)
    (hstep : ((engines H memory).under (Honest H)).step s
      (.answer i ⟨.revokeFamily r.familyId, n⟩) v) : Dead H memoryStore v r.familyId := by
  obtain ⟨j, c, m, hf, ho⟩ := hst.founded (noReinsert_of_freshDraws (fresh hs)) memoryStore
  rw [ho.family]
  exact dead_of_bulk memoryContract hs hstep hf ho.family.symm

theorem ReuseSeen.stored (hs : ((engines H memory).under (Honest H)).Reachable s) {i : ℕ}
    {c : RefreshCall} {r : TokenRecord} (h : ReuseSeen H s i c r) : ∃ sel, Stored s sel r := by
  obtain ⟨th, sel, pepper, hi, -, -, -, hseen⟩ := h
  have hmem : (⟨.findBySelector sel, some r⟩ : StoreEvent) ∈ th.trace := by
    rcases hseen with ⟨-, htr⟩ | ⟨q, found, -, -, htr⟩
    · exact htr.mem (by simp)
    · exact htr.mem (by simp)
  exact ⟨sel, .of_found (knowledge_of_honest memoryStore hs) (did_of_mem hi hmem)⟩

/-- Without a window, a call that has looked up a record some call had rotated leaves the family dead. -/
theorem dead_of_second (hs : ((engines H memory).under (Honest H)).Reachable s) {i j : ℕ} {sel q : Str}
    {f : TokenStatus} {x : ℤ} (hm : Marked s i sel f x q) {c : RefreshCall} {r : TokenRecord}
    {pepper : Str} (hop : OpAt s j (.refresh c)) (hnew : ∀ ev, ¬ s.Did j ev)
    (hstep : ((engines H memory).under (Honest H)).step s (.answer j ⟨.findBySelector sel, some r⟩) v)
    (hp : Proves H c sel r pepper) (hg : c.engine.reuseGrace = 0)
    (hrun : ((engines H memory).under (Honest H)).Run v t) {th : Call} (hj : t.threads[j]? = some th)
    (hret : th.mode = .returned) : Dead H memoryStore t r.familyId := by
  have hv := hs.step hstep
  have hK := knowledge_of_honest memoryStore hs
  obtain ⟨th₀, k, hj₀, -, ha⟩ := callAt_answer hs hstep.2
  have hrow : memoryStore.look s.shared sel = some r := (memoryStore.find ha).1.symm
  obtain ⟨hna, hrot⟩ := (hK.marked i sel f x q hm).2 r hrow
  have hok := (hK.row sel r hrow).1
  have hrep : r.replacedBySelector ≠ none := by
    intro h0
    rw [hok.together.mpr h0] at hrot
    cases hrot
  cases hst : r.status with
  | active => exact absurd hst hna
  | revoked =>
    exact dead_run ((dead_of_revoked memoryContract hs sel r hrow hst hrep).1.step hs hstep) hv hrun
  | rotated =>
    obtain ⟨th₁, hj₁, hop₁, htr₁⟩ := answered hstep.2 hj₀
    have hnil : th₀.trace = [] := by
      refine List.eq_nil_iff_forall_not_mem.mpr fun ev hev => hnew ev (did_of_mem hj₀ hev)
    have hseen : ReuseSeen H v j c r := by
      refine ⟨th₁, sel, pepper, hj₁, ?_, hp, hst, Or.inl ⟨fun hw => ?_, ?_⟩⟩
      · rw [hop₁]
        exact OpAt.unique ⟨th₀, hj₀, rfl⟩ hop
      · have hpos := hw.grace
        omega
      · rw [htr₁, hnil]
    obtain ⟨p, hpret⟩ := returned_ret (hv.run hrun) th (mem_of_getElem? hj) hret
    obtain ⟨-, n, hd⟩ := reuse_result (hv.run hrun) (hseen.run hrun) hj (result_of_returned hret hpret)
    -- the step of its revocation
    have hno : ¬ v.Did j ⟨.revokeFamily r.familyId, n⟩ := by
      rintro ⟨th', hj', hev⟩
      obtain rfl := Option.some.inj (hj₁.symm.trans hj')
      rw [htr₁, hnil, List.mem_singleton] at hev
      cases hev
    obtain ⟨u, l, w, hvu, huw, hu, hw, hwt⟩ :=
      hrun.crossing (P := fun u => u.Did j ⟨.revokeFamily r.familyId, n⟩) hno hd
    rcases huw.2.did_iff.mp hw with hu' | rfl
    · exact absurd hu' hu
    · have hru := hv.run hvu
      have hst' : Stored u sel r := ((Stored.of_row hK hrow).mono hstep.2).run hvu
      exact dead_run (dead_of_burn hru hst' huw) (hru.step huw) hwt

/-- A login, a refresh, a second refresh that has read its record, and two calls more: one presents the
first token again, and the other will present the successor of the second refresh. -/
def reused : PoolState Rows :=
  (played sampleHmac (fun s l => honestCheck sampleHmac s l)
    (.invoke (sampleIssue 0 0) :: sampleSteps 0 1 ++
      .invoke (sampleRefresh 0 0 1 1010) :: sampleSteps 1 3 ++
      [.invoke (sampleRefresh 0 1 2 1020), .go 2, .invoke (sampleRefresh 0 2 3 1030),
        .invoke (sampleRefresh 0 0 4 1030)])).get (by decide)

/-- The first token was read as rotated. -/
def seen : PoolState Rows :=
  (playedFrom sampleHmac (fun s l => honestCheck sampleHmac s l) reused [.go 4]).get (by decide)

/-- The family was revoked. -/
def burned : PoolState Rows :=
  (playedFrom sampleHmac (fun s l => honestCheck sampleHmac s l) seen [.go 4]).get (by decide)

/-- The second refresh has inserted its successor and stopped; the token of the successor was presented,
and then the token that this presentation has returned. -/
def accepted : PoolState Rows :=
  (playedFrom sampleHmac (fun s l => freshDrawsCheck s l) burned
    ([.go 2, .stop 2 .abandoned] ++ sampleSteps 3 3 ++
      .invoke (sampleRefresh 0 3 5 1040) :: sampleSteps 5 3)).get (by decide)

theorem reuseSeen_seen : ∃ r, ReuseSeen sampleHmac seen 4 (samplePresent 0 0 4 1030) r ∧
    r.familyId = (sampleRow 0 0).familyId := by
  have hth : ∃ th r, seen.threads[4]? = some th ∧ th.op = sampleRefresh 0 0 4 1030 ∧
      th.trace = [⟨.findBySelector (sampleDraw 0).selectorText, some r⟩] ∧ r.status = .rotated ∧
      r.familyId = (sampleRow 0 0).familyId ∧ r.kid = sampleKid ∧
      r.verifierHash = (sampleRow 0 0).verifierHash := ⟨_, _, rfl, rfl, rfl, rfl, rfl, rfl, rfl⟩
  obtain ⟨th, r, hth, hop, htr, hst, hfam, hkid, hhash⟩ := hth
  refine ⟨r, ⟨th, (sampleDraw 0).selectorText, samplePepper, hth, hop, ?_, hst, Or.inl ⟨?_, ?_⟩⟩, hfam⟩
  · have hp : Proves sampleHmac (samplePresent 0 0 4 1030) (sampleDraw 0).selectorText
        (sampleRow 0 0) samplePepper :=
      ⟨⟨sampleKid, (sampleDraw 0).selectorText, List.replicate 32 0⟩, rfl, rfl, rfl⟩
    exact hp.congr hkid hhash
  · intro hw
    exact absurd hw.grace (by decide)
  · rw [htr]

/-- **Fresh draws alone do not keep a revoked family out**: a token of the family that a call in flight
has returned after the revocation is accepted. -/
theorem accepted_after_reuse : ¬ ∀ (s v t : PoolState Rows) (i : ℕ) (c : RefreshCall) (r : TokenRecord)
    (n : ℕ), ((engines sampleHmac memory).under FreshDraws).Reachable s →
    ReuseSeen sampleHmac s i c r →
    ((engines sampleHmac memory).under FreshDraws).step s
      (.answer i ⟨.revokeFamily r.familyId, n⟩) v →
    ((engines sampleHmac memory).under FreshDraws).Run v t →
    ∀ k c' y m, OpAt t k (.refresh c') → m < v.threads.length → Delivers t m c'.token →
      Succeeded t k y → y.familyId = r.familyId → ∃ p f x q, Marked v k p f x q := by
  intro h
  obtain ⟨r, hseen, hfam⟩ := reuseSeen_seen
  have hs : ((engines sampleHmac memory).under FreshDraws).Reachable seen :=
    (played_reachable (fun _ _ h => (honest_of_check h).fresh) _).run
      (playedFrom_run (fun _ _ h => (honest_of_check h).fresh) _)
  have hstep : ((engines sampleHmac memory).under FreshDraws).step seen
      (.answer 4 ⟨.revokeFamily r.familyId, (2 : ℕ)⟩) burned := by
    rw [hfam]
    exact ⟨freshDraws_of_check rfl, step_of_act (x := .go 4) rfl⟩
  have hrun : ((engines sampleHmac memory).under FreshDraws).Run burned accepted :=
    playedFrom_run (fun _ _ h => freshDraws_of_check h) _
  obtain ⟨y, hy, hyf⟩ : ∃ y, Succeeded accepted 5 y ∧ y.familyId = (sampleRow 0 0).familyId :=
    ⟨_, succeeded_of_read rfl, rfl⟩
  have hop : OpAt accepted 5 (sampleRefresh 0 3 5 1040) := opAt_of_read rfl
  obtain ⟨p, f, x, q, th, hth, -⟩ := h _ _ _ 4 _ r _ hs hseen hstep hrun 5 _ y 3 hop (by decide)
    ⟨_, _, rfl, rfl, rfl⟩ hy (hyf.trans hfam.symm)
  rw [show burned.threads[5]? = none from rfl] at hth
  cases hth

/-- **Reuse is detected.** A call that has read a record as rotated and proved its verifier, when no grace
retry applies, never succeeds, and if it returns it reports `REUSE_DETECTED` with the record's user and
family. In runs with fresh draws in which no refresh proves a token that was not returned, no record of
the family is rotated from the step of its revocation on, and every success of the family has rotated
before. So, without a window, once a token that some call has rotated is looked up again by a refresh
that proves it, and that refresh has returned, nobody rotates a record of the family any more. -/
theorem reuse_detected (H : HmacSha256) :
    (∀ (G : PoolState Rows → PoolLabel ℤ → Prop) (s : PoolState Rows) (i : ℕ) (c : RefreshCall)
      (r : TokenRecord), ((engines H memory).under G).Reachable s → ReuseSeen H s i c r →
      (∀ x, ¬ Succeeded s i x) ∧ ∀ th x, s.threads[i]? = some th → th.result = some x →
        x = .refreshed (.refused ⟨.reuseDetected, some r.userId, some r.familyId⟩)) ∧
    (∀ (s v t : PoolState Rows) (i : ℕ) (c : RefreshCall) (r : TokenRecord) (n : ℕ),
      ((engines H memory).under (Honest H)).Reachable s → ReuseSeen H s i c r →
      ((engines H memory).under (Honest H)).step s (.answer i ⟨.revokeFamily r.familyId, n⟩) v →
      ((engines H memory).under (Honest H)).Run v t →
      (∀ k p f x q r', Marked t k p f x q → Stored t p r' → r'.familyId = r.familyId →
        Marked v k p f x q) ∧
      ∀ k y, Succeeded t k y → y.familyId = r.familyId → ∃ p f x q, Marked v k p f x q) ∧
    ∀ (s v t u : PoolState Rows) (i j : ℕ) (sel q : Str) (f : TokenStatus) (x : ℤ) (c : RefreshCall)
      (r : TokenRecord) (pepper : Str) (th : Call),
      ((engines H memory).under (Honest H)).Reachable s → Marked s i sel f x q →
      OpAt s j (.refresh c) → (∀ ev, ¬ s.Did j ev) →
      ((engines H memory).under (Honest H)).step s (.answer j ⟨.findBySelector sel, some r⟩) v →
      Proves H c sel r pepper → c.engine.reuseGrace = 0 →
      ((engines H memory).under (Honest H)).Run v t → t.threads[j]? = some th → th.mode = .returned →
      ((engines H memory).under (Honest H)).Run t u →
      (∀ k p f' x' q' r', Marked u k p f' x' q' → Stored u p r' → r'.familyId = r.familyId →
        Marked t k p f' x' q') ∧
      ∀ k y, Succeeded u k y → y.familyId = r.familyId → ∃ p f' x' q', Marked t k p f' x' q' := by
  refine ⟨?_, ?_, ?_⟩
  · intro G s i c r hr hseen
    refine ⟨fun x hx => ?_, fun th x hi hx => (reuse_result hr hseen hi hx).1⟩
    obtain ⟨th, hi, hres⟩ := hx
    cases (reuse_result hr hseen hi hres).1
  · intro s v t i c r n hs hseen hstep hrun
    obtain ⟨sel, hst⟩ := hseen.stored hs
    have hD := dead_of_burn hs hst hstep
    exact ⟨fun k p f x q r' hm hp hfam => marked_of_dead hD (hs.step hstep) hrun hm hp hfam,
      fun k y hy hfam => success_before_death hD (hs.step hstep) hrun hy hfam⟩
  · intro s v t u i j sel q f x c r pepper th hs hm hop hnew hstep hp hg hrun hj hret hrun'
    have hD := dead_of_second hs hm hop hnew hstep hp hg hrun hj hret
    have ht := (hs.step hstep).run hrun
    exact ⟨fun k p f' x' q' r' hm' hp' hfam => marked_of_dead hD ht hrun' hm' hp' hfam,
      fun k y hy hfam => success_before_death hD ht hrun' hy hfam⟩

/-- The call that has seen the reuse has returned. -/
def detected : PoolState Rows :=
  (playedFrom sampleHmac (fun s l => honestCheck sampleHmac s l) burned [.stop 4 .returned]).get
    (by decide)

/-- The second refresh has run on and lost. -/
def settled : PoolState Rows :=
  (playedFrom sampleHmac (fun s l => honestCheck sampleHmac s l) detected (sampleSteps 2 3)).get
    (by decide)

theorem reuse_detected_sample : (∀ x, ¬ Succeeded seen 4 x) ∧
    (∀ k y, Succeeded settled k y → y.familyId = (sampleRow 0 0).familyId →
      ∃ p f x q, Marked burned k p f x q) ∧
    ∀ k y, Succeeded settled k y → y.familyId = (sampleRow 0 0).familyId →
      ∃ p f x q, Marked detected k p f x q := by
  have hs : ((engines sampleHmac memory).under (Honest sampleHmac)).Reachable reused :=
    played_reachable (fun _ _ h => honest_of_check h) _
  have hrs : ((engines sampleHmac memory).under (Honest sampleHmac)).Run reused seen :=
    playedFrom_run (fun _ _ h => honest_of_check h) _
  have hstep : ((engines sampleHmac memory).under (Honest sampleHmac)).step seen
      (.answer 4 ⟨.revokeFamily (sampleRow 0 0).familyId, (2 : ℕ)⟩) burned :=
    ⟨honest_of_check rfl, step_of_act (x := .go 4) rfl⟩
  have hbd : ((engines sampleHmac memory).under (Honest sampleHmac)).Run burned detected :=
    playedFrom_run (fun _ _ h => honest_of_check h) _
  have hds : ((engines sampleHmac memory).under (Honest sampleHmac)).Run detected settled :=
    playedFrom_run (fun _ _ h => honest_of_check h) _
  have hsb : ((engines sampleHmac memory).under (Honest sampleHmac)).Run seen burned :=
    .step .refl hstep
  obtain ⟨hnever, hfam, hgrace⟩ := reuse_detected sampleHmac
  obtain ⟨r, hseen, hrf⟩ := reuseSeen_seen
  refine ⟨(hnever _ _ _ _ _ (hs.run hrs) hseen).1, fun k y hy hyf => ?_, ?_⟩
  · exact (hfam _ _ _ 4 _ r _ (hs.run hrs) hseen (hrf ▸ hstep) (hbd.trans hds)).2 k y hy
      (hyf.trans hrf.symm)
  · -- the lookup of the second presentation
    have hread : ∃ r, act (code sampleHmac) memory (fun _ _ _ => none) reused (.go 4) =
        some (.answer 4 ⟨.findBySelector (sampleDraw 0).selectorText, some r⟩, seen) ∧
        honestCheck sampleHmac reused
          (.answer 4 ⟨.findBySelector (sampleDraw 0).selectorText, some r⟩ : PoolLabel ℤ) = true ∧
        r.familyId = (sampleRow 0 0).familyId ∧ r.kid = sampleKid ∧
        r.verifierHash = (sampleRow 0 0).verifierHash := ⟨_, rfl, rfl, rfl, rfl, rfl⟩
    obtain ⟨r, hact, hcheck, hrf, hkid, hhash⟩ := hread
    have hp : Proves sampleHmac (samplePresent 0 0 4 1030) (sampleDraw 0).selectorText r samplePepper := by
      have hp₀ : Proves sampleHmac (samplePresent 0 0 4 1030) (sampleDraw 0).selectorText
          (sampleRow 0 0) samplePepper :=
        ⟨⟨sampleKid, (sampleDraw 0).selectorText, List.replicate 32 0⟩, rfl, rfl, rfl⟩
      exact hp₀.congr hkid hhash
    have hlook : ((engines sampleHmac memory).under (Honest sampleHmac)).step reused
        (.answer 4 ⟨.findBySelector (sampleDraw 0).selectorText, some r⟩) seen :=
      ⟨honest_of_check hcheck, step_of_act hact⟩
    obtain ⟨th, hth, hmode⟩ : ∃ th, detected.threads[4]? = some th ∧ th.mode = .returned := ⟨_, rfl, rfl⟩
    intro k y hy hyf
    refine (hgrace reused seen detected settled 1 4 (sampleDraw 0).selectorText
      (sampleDraw 1).selectorText .active 1010 (samplePresent 0 0 4 1030) r samplePepper th hs
      (did_of_read (k := 0) rfl) (opAt_of_read rfl) ?_ hlook hp rfl (hsb.trans hbd) hth hmode hds).2 k y
      hy (hyf.trans hrf.symm)
    rintro ev ⟨th', hth', hev⟩
    obtain ⟨th₀, h₀, htr⟩ : ∃ th₀, reused.threads[4]? = some th₀ ∧ th₀.trace = [] := ⟨_, rfl, rfl⟩
    obtain rfl := Option.some.inj (h₀.symm.trans hth')
    rw [htr] at hev
    cases hev

end NebulaToken.Safety.ReuseDetection
