import NebulaToken.Ports.ElixirStores
import NebulaToken.Ports.Go
import NebulaToken.Runs.Execution
import NebulaToken.Runs.Failing

/-! # Failing closed

Whichever store calls raise, before or after they take effect, a call whose store failed returns no outcome,
a token is returned only for what the store has confirmed, and what is refused with a revocation was
revoked. A rotation cut short leaves at most a successor that nobody was given.

* `fork_of_raised`: a call that proves the token of such a successor forks the family;
* `fail_closed`: nothing else goes wrong. -/

namespace NebulaToken.Safety.FailClosed

open NebulaToken.Lib.Program NebulaToken.Lib.Pool NebulaToken.Lib.Transition NebulaToken.Lib.Faults
open NebulaToken.Token.Unicode NebulaToken.Token.Wire NebulaToken.Engine.Records
open NebulaToken.Engine.Operations NebulaToken.Runs.Calls NebulaToken.Runs.History
open NebulaToken.Runs.Provenance NebulaToken.Runs.Assumptions NebulaToken.Runs.Families
open NebulaToken.Runs.Lineage NebulaToken.Runs.Unforked NebulaToken.Runs.Failing
open NebulaToken.Runs.Execution NebulaToken.Ports NebulaToken.Ports.Agreement
open NebulaToken.Store.Contract NebulaToken.Store.Memory

variable {σ Env φ : Type}

/-- The refusals that revoke the family. -/
def revokingCodes : List NebulaErrorCode := [.reuseDetected, .expiredAbsolute, .expiredIdle, .deviceMismatch]

/-- **What stands behind a token**: call `i` is a login, or a refresh that has read a record and proved its
verifier, and of which the store has confirmed that it rotated the record to `n`. -/
inductive Backed (H : HmacSha256) (s : FailingState σ φ) (i : ℕ) (n : TokenRecord) : Prop
  | login {c : IssueCall} (hop : Invoked s i (.issue c)) (hn : IssueMints H c n)
  | rotation {c : RefreshCall} {sel pepper : Str} {r : TokenRecord} {fromStatus : TokenStatus} {t : ℤ}
      (hop : Invoked s i (.refresh c)) (hp : Proves H c sel r pepper)
      (hf : s.Did i ⟨.findBySelector sel, .ok (some r)⟩)
      (hm : s.Did i ⟨.markRotated r.selector fromStatus t n.selector, .ok true⟩)

/-- **The store has confirmed** that the record of the selector is the first of a family, or that it has
taken the place of another: its token was returned, or its call has only to return it. -/
def Confirmed (H : HmacSha256) (s : FailingState σ φ) (sel : Str) : Prop :=
  (∃ i c n, Invoked s i (.issue c) ∧ IssueMints H c n ∧ s.Did i ⟨.insert n, .ok ()⟩ ∧ n.selector = sel) ∨
    ∃ i p fromStatus t, s.Did i ⟨.markRotated p fromStatus t sel, .ok true⟩

section Facts

variable {H : HmacSha256} {svc : StoreService σ Env} {s' : FailingState σ φ} {s : PoolState σ}
  {G : PoolState σ → PoolLabel Env → Prop}

/-- What is confirmed is granted in the run it stands for. -/
theorem granted_of_confirmed (h : Stood writes s' s) {sel : Str} (hc : Confirmed H s' sel) :
    Granted H s sel := by
  rcases hc with ⟨i, c, n, hop, hn, hd, hsel⟩ | ⟨i, p, f, t, hm⟩
  · exact Or.inl ⟨i, c, n, ⟨(invoked_iff h).mp hop, hn, did_of_did h hd⟩, hsel⟩
  · exact Or.inr ⟨i, p, f, t, did_of_did h hm⟩

/-- **A token that was returned** has its record behind it. -/
theorem backed_of_returns (hr : ((engines H svc).under G).Reachable s) (h : Stood writes s' s) {i : ℕ}
    {x : Outcome} {tok : Str} (hx : Returns s' i x) (htok : Outcome.token? x = some tok) :
    ∃ n, s'.Did i ⟨.insert n, .ok ()⟩ ∧
      (∃ parsed, parseToken tok = some parsed ∧ parsed.selector = n.selector) ∧ Backed H s' i n := by
  obtain ⟨⟨th, hi, hres⟩, hdid⟩ := result_of_returns h hx
  obtain ⟨n, hn, hparsed, hcase⟩ := delivered hr ⟨th, x, hi, hres, htok⟩
  refine ⟨n, hdid _ hn, hparsed, ?_⟩
  rcases hcase with ⟨c, hf⟩ | ⟨c, r, f, t, tr, hw⟩
  · exact .login ((invoked_iff h).mpr hf.opAt) hf.mints
  · obtain ⟨sel, pepper, hp, hmem⟩ := hw.ticket.found
    exact .rotation ((invoked_iff h).mpr hw.opAt) hp (hdid _ (hw.did _ hmem)) (hdid _ hw.marked)

/-- The token of a selector that was returned is that of a confirmed record. -/
theorem confirmed_of_tokenReturned (hr : ((engines H svc).under G).Reachable s) (h : Stood writes s' s)
    {sel : Str} (hs : TokenReturned s' sel) : Confirmed H s' sel := by
  obtain ⟨i, op, x, hop, hd, hx, htok⟩ := hs
  obtain ⟨tok, htok⟩ := Option.isSome_iff_exists.mp htok
  obtain ⟨n, hn, -, hb⟩ := backed_of_returns hr h hx htok
  have hsel : n.selector = sel := by
    obtain ⟨op', hop', hdn⟩ := inserted_drawn hr (did_of_did h hn)
    obtain rfl := ((invoked_iff h).mp hop).unique hop'
    exact (Option.some.inj (hd.symm.trans hdn)).symm
  cases hb with
  | login hop hn' => exact Or.inl ⟨i, _, n, hop, hn', hn, hsel⟩
  | rotation hop hp hf hm =>
    rw [hsel] at hm
    exact Or.inr ⟨i, _, _, _, hm⟩

/-- A refresh that refuses with a revocation has revoked. -/
theorem revoked_of_refused {c : RefreshCall} {tr : List StoreEvent} {f : RefreshFailure}
    (h : RefreshAt H c tr (.ret (.refused f))) (hf : f.error ∈ revokingCodes) :
    ∃ r n, f = fail f.error r ∧ ⟨.revokeFamily r.familyId, n⟩ ∈ tr := by
  cases h with
  | refused h =>
    refine absurd hf ?_
    cases h with
    | unparsed hp =>
      rcases parseConfigured_error hp with rfl | rfl <;> simp [revokingCodes, RefreshFailure.unresolved]
    | notFound => simp [revokingCodes, RefreshFailure.unresolved]
    | unproved hp hv =>
      rcases proveVerifier_error hv with rfl | rfl <;>
        simp [revokingCodes, RefreshFailure.unresolved, fail]
    | revoked => simp [revokingCodes, fail]
    | lost => simp [revokingCodes, fail]
  | @burned r error tr n hb => exact ⟨r, n, rfl, List.mem_cons_self⟩
  | cleaned => simp [revokingCodes, fail] at hf

/-- The result of a refresh, at one of its points. -/
theorem refreshAt_of_result (hr : ((engines H svc).under G).Reachable s) {i : ℕ} {th : Call}
    (hi : s.threads[i]? = some th) {res : RefreshResult} (hres : th.result = some (.refreshed res)) :
    ∃ c, RefreshAt H c th.trace (.ret res) := by
  have hat := callAt hr th (mem_of_getElem? hi)
  rw [(of_result hres).2] at hat
  generalize th.op = op at hat
  generalize th.trace = tr at hat ⊢
  cases op with
  | refresh c =>
    obtain ⟨p, he, hat⟩ := hat
    obtain ⟨res', rfl, ha⟩ := Prog.map_eq_ret he.symm
    cases ha
    exact ⟨c, hat⟩
  | issue c =>
    obtain ⟨p, he, -⟩ := hat
    obtain ⟨a, -, ha⟩ := Prog.map_eq_ret he.symm
    cases ha
  | revokeToken e token =>
    obtain ⟨p, he, -⟩ := hat
    obtain ⟨a, -, ha⟩ := Prog.map_eq_ret he.symm
    cases ha
  | revokeFamily familyId => cases hat
  | revokeAllForUser userId => cases hat

/-- The result of a revocation by token, at one of its points. -/
theorem revokeTokenAt_of_result (hr : ((engines H svc).under G).Reachable s) {i : ℕ} {th : Call}
    (hi : s.threads[i]? = some th) {res : RevokeResult} (hres : th.result = some (.revoked res)) :
    ∃ e token, RevokeTokenAt H e token th.trace (.ret res) := by
  have hat := callAt hr th (mem_of_getElem? hi)
  rw [(of_result hres).2] at hat
  generalize th.op = op at hat
  generalize th.trace = tr at hat ⊢
  cases op with
  | revokeToken e token =>
    obtain ⟨p, he, hat⟩ := hat
    obtain ⟨res', rfl, ha⟩ := Prog.map_eq_ret he.symm
    cases ha
    exact ⟨e, token, hat⟩
  | issue c =>
    obtain ⟨p, he, -⟩ := hat
    obtain ⟨a, -, ha⟩ := Prog.map_eq_ret he.symm
    cases ha
  | refresh c =>
    obtain ⟨p, he, -⟩ := hat
    obtain ⟨a, -, ha⟩ := Prog.map_eq_ret he.symm
    cases ha
  | revokeFamily familyId => cases hat
  | revokeAllForUser userId => cases hat

/-- **A refusal with a revocation was confirmed by the store.** -/
theorem revoked_of_returns (hr : ((engines H svc).under G).Reachable s) (h : Stood writes s' s) {i : ℕ}
    {f : RefreshFailure} (hx : Returns s' i (.refreshed (.refused f))) (hf : f.error ∈ revokingCodes) :
    ∃ r n, f = fail f.error r ∧ s'.Did i ⟨.revokeFamily r.familyId, .ok n⟩ := by
  obtain ⟨⟨th, hi, hres⟩, hdid⟩ := result_of_returns h hx
  obtain ⟨c, hat⟩ := refreshAt_of_result hr hi hres
  obtain ⟨r, n, hfr, hmem⟩ := revoked_of_refused hat hf
  exact ⟨r, n, hfr, hdid _ (did_of_mem hi hmem)⟩

/-- **A revocation by token that was reported was confirmed by the store.** -/
theorem revoked_of_reported (hr : ((engines H svc).under G).Reachable s) (h : Stood writes s' s) {i : ℕ}
    {userId familyId : Str} {n : ℕ} (hx : Returns s' i (.revoked (.ok userId familyId n))) :
    s'.Did i ⟨.revokeFamily familyId, .ok n⟩ := by
  obtain ⟨⟨th, hi, hres⟩, hdid⟩ := result_of_returns h hx
  obtain ⟨e, token, hat⟩ := revokeTokenAt_of_result hr hi hres
  refine hdid ⟨.revokeFamily familyId, n⟩ (did_of_mem hi ?_)
  generalize th.trace = tr at hat ⊢
  cases hat with
  | revoked => exact List.mem_cons_self

/-- **A call whose store failed** ends with the error, and returns no outcome. -/
theorem ends_of_raised (h : Stood writes s' s) {i : ℕ} {q : StoreCall} {err : φ}
    (hd : s'.Did i ⟨q, .error err⟩) : (∀ x, ¬ Returns s' i x) ∧
      ∃ th, s'.threads[i]? = some th ∧ th.prog = .ret (.error (.inr err)) := by
  obtain ⟨th', hi', hev⟩ := hd
  obtain ⟨th, hi, hth⟩ := standsAt h hi'
  have hp := hth.not_result hev
  refine ⟨?_, th', hi', hp⟩
  rintro x ⟨th₀, hi₀, hres⟩
  obtain rfl := Option.some.inj (hi'.symm.trans hi₀)
  have hret := (of_result hres).2
  rw [hp] at hret
  cases hret

end Facts

/-! ### Sample runs -/

/-- A schedule played against the reference store, whose calls raise where the schedule says so. -/
def playedFailing (guard : FailingState Rows Unit → FailingLabel ℤ Unit → Bool)
    (xs : List (Act Operation (ℤ ⊕ ℕ × Fault Unit))) : Option (FailingState Rows Unit) :=
  play (fun op => fallible Unit (code sampleHmac op)) (faulty Unit writes memory) (fun _ _ _ => none) guard
    ⟨(faulty Unit writes memory).start, []⟩ xs

/-- The steps of call `i` up to its return: `n` answers. -/
def failingSteps (i n : ℕ) : List (Act Operation (ℤ ⊕ ℕ × Fault Unit)) :=
  List.replicate n (.go i) ++ [.stop i .returned]

/-- The next request of call `i` raises. -/
def raise (i : ℕ) (f : Fault Unit) : Act Operation (ℤ ⊕ ℕ × Fault Unit) := .env (.inr (i, f))

def drawsFreshCheck (s : FailingState σ φ) (l : FailingLabel Env φ) : Bool :=
  match l with
  | .invoke op => s.threads.all fun th =>
      (drawn op).all (fun d => drawn th.op != some d) &&
        (drawnFamily op).all fun f => drawnFamily th.op != some f
  | _ => true

theorem drawsFresh_of_check {s : FailingState σ φ} {l : FailingLabel Env φ}
    (h : drawsFreshCheck s l = true) : DrawsFresh s l := by
  rintro op rfl th hth
  have hall := List.all_eq_true.mp h th hth
  rw [Bool.and_eq_true] at hall
  refine ⟨fun d hd => ?_, fun f hf => ?_⟩
  · rw [hd] at hall
    simpa using hall.1
  · rw [hf] at hall
    simpa using hall.2

/-- Whether a call has returned the token of the selector. -/
def tokenReturnedCheck (s : FailingState σ φ) (sel : Str) : Bool :=
  s.threads.any fun th => drawn th.op == some sel &&
    th.result.any fun x => match x with
      | .ok x => (Outcome.token? x).isSome
      | .error _ => false

theorem tokenReturned_of_check {s : FailingState σ φ} {sel : Str}
    (h : tokenReturnedCheck s sel = true) : TokenReturned s sel := by
  obtain ⟨th, hth, hx⟩ := List.any_eq_true.mp h
  rw [Bool.and_eq_true, beq_iff_eq] at hx
  obtain ⟨i, hi⟩ := List.mem_iff_getElem?.mp hth
  cases hres : th.result with
  | none =>
    rw [hres] at hx
    cases hx.2
  | some y =>
    rw [hres] at hx
    cases y with
    | ok x => exact ⟨i, th.op, x, ⟨th, hi, rfl⟩, hx.1, ⟨th, hi, hres⟩, hx.2⟩
    | error e => cases hx.2

def tokensSecretCheck (H : HmacSha256) (s : FailingState σ φ) (l : FailingLabel Env φ) : Bool :=
  match l with
  | .answer i ⟨.findBySelector _, .ok (some r)⟩ =>
    match s.threads[i]? with
    | some ⟨.refresh c, [], _, _⟩ => !provesCheck H c r || tokenReturnedCheck s r.selector
    | _ => true
  | _ => true

theorem tokensSecret_of_check {H : HmacSha256} {s : FailingState σ φ} {l : FailingLabel Env φ}
    (h : tokensSecretCheck H s l = true) : TokensSecret H s l := by
  rintro i c sel r pepper rfl ⟨th, hi, hop⟩ hno ⟨parsed, hp, -, hv⟩
  obtain ⟨op, trace, prog, mode⟩ := th
  dsimp only at hop
  subst hop
  have htr : trace = [] := List.eq_nil_iff_forall_not_mem.mpr fun ev hev => hno ev ⟨_, hi, hev⟩
  subst htr
  have hproves : provesCheck H c r = true := by
    unfold provesCheck
    rw [hp]
    dsimp only
    rw [hv]
  unfold tokensSecretCheck at h
  dsimp only at h
  rw [hi] at h
  dsimp only at h
  rw [hproves] at h
  exact tokenReturned_of_check h

def carefulCheck (s : FailingState Rows Unit) (l : FailingLabel ℤ Unit) : Bool :=
  drawsFreshCheck s l && tokensSecretCheck sampleHmac s l

theorem careful_of_check {s : FailingState Rows Unit} {l : FailingLabel ℤ Unit}
    (h : carefulCheck s l = true) : Careful sampleHmac s l := by
  rw [carefulCheck, Bool.and_eq_true] at h
  exact ⟨drawsFresh_of_check h.1, tokensSecret_of_check h.2⟩

/-- A login, a refresh whose rotation raises before it takes effect, and a refresh that proves the token
of the successor, which nobody was given. -/
def cutShort : FailingState Rows Unit :=
  (playedFailing drawsFreshCheck
    (.invoke (sampleIssue 0 0) :: failingSteps 0 1 ++
      [.invoke (sampleRefresh 0 0 1 1010), .go 1, .go 1, raise 1 (.before ())] ++ failingSteps 1 1 ++
      .invoke (sampleRefresh 0 1 2 1020) :: failingSteps 2 3)).get (by decide)

/-- **Fresh draws alone do not rule out a fork.** -/
theorem fork_of_raised : ¬ ∀ s : FailingState Rows Unit,
    ((failing sampleHmac Unit memory).under DrawsFresh).Reachable s →
    ∀ sel sel' r r', s.shared.store.get sel = some r → s.shared.store.get sel' = some r' →
      r.status = .active → r'.status = .active → r.familyId = r'.familyId → TokenReturned s sel →
      TokenReturned s sel' → sel = sel' := by
  intro h
  have hs : ((failing sampleHmac Unit memory).under DrawsFresh).Reachable cutShort :=
    play_reachable (fun _ _ _ _ hw => by cases hw) (fun _ _ h => drawsFresh_of_check h)
      (Option.some_get _).symm
  have hrows : ∃ r r', cutShort.shared.store.get (sampleDraw 0).selectorText = some r ∧
      cutShort.shared.store.get (sampleDraw 2).selectorText = some r' ∧ r.status = .active ∧
      r'.status = .active ∧ r.familyId = r'.familyId := ⟨_, _, rfl, rfl, rfl, rfl, rfl⟩
  obtain ⟨r, r', hr, hr', ha, ha', hf⟩ := hrows
  have he := h cutShort hs _ _ r r' hr hr' ha ha' hf (tokenReturned_of_check (by decide))
    (tokenReturned_of_check (by decide))
  exact absurd he (by decide)

/-- **Failing closed.** Over any store that keeps the contract, whichever of its calls raise and whenever:
a token is returned only for a record the store has confirmed, a refusal that revokes and a revocation by
token are returned only once the store has confirmed the revocation, and a call of which a request has
raised ends with that error and no outcome. With fresh draws, and no refresh that proves a token that was
not returned, at most one confirmed record of a family is active. The engines in Go and Elixir, over stores
that report their failures, are the same programs. -/
theorem fail_closed (H : HmacSha256) (φ : Type) {svc : StoreService σ Env} (C : StoreContract svc) :
    (∀ s, (failing H φ svc).Reachable s →
      (∀ i x tok, Returns s i x → Outcome.token? x = some tok → ∃ n, s.Did i ⟨.insert n, .ok ()⟩ ∧
        (∃ parsed, parseToken tok = some parsed ∧ parsed.selector = n.selector) ∧ Backed H s i n) ∧
      (∀ i f, Returns s i (.refreshed (.refused f)) → f.error ∈ revokingCodes →
        ∃ r n, f = fail f.error r ∧ s.Did i ⟨.revokeFamily r.familyId, .ok n⟩) ∧
      (∀ i userId familyId n, Returns s i (.revoked (.ok userId familyId n)) →
        s.Did i ⟨.revokeFamily familyId, .ok n⟩) ∧
      ∀ i q err, s.Did i ⟨q, .error err⟩ → (∀ x, ¬ Returns s i x) ∧
        ∃ th, s.threads[i]? = some th ∧ th.prog = .ret (.error (.inr err))) ∧
    (∀ s, ((failing H φ svc).under (Careful H)).Reachable s →
      (∀ sel, TokenReturned s sel → Confirmed H s sel) ∧
      ∀ sel sel' r r', C.look s.shared.store sel = some r → C.look s.shared.store sel' = some r' →
        r.status = .active → r'.status = .active → r.familyId = r'.familyId → Confirmed H s sel →
        Confirmed H s sel' → sel = sel') ∧
    ∀ op, Portable op → Go.code H op = Go.returning φ (code H op) ∧
      ElixirStores.code H op = ElixirStores.raising (code H op) := by
  refine ⟨fun s hs => ?_, fun s hs => ?_, fun op hop => ⟨Go.code_eq hop, ElixirStores.code_eq H hop⟩⟩
  · obtain ⟨u, hu, hst⟩ := stood (hs.under fun _ _ => trivial)
    exact ⟨fun i x tok hx htok => backed_of_returns hu hst hx htok,
      fun i f hx hf => revoked_of_returns hu hst hx hf,
      fun i userId familyId n hx => revoked_of_reported hu hst hx,
      fun i q err hd => ends_of_raised hst hd⟩
  · obtain ⟨u, hu, hst⟩ := stood_honest hs
    refine ⟨fun sel hsel => confirmed_of_tokenReturned hu hst hsel, ?_⟩
    intro sel sel' r r' hr hr' ha ha' hf hc hc'
    rw [hst.shared] at hr hr'
    exact Sum.inl.inj (live_unique C hu r.familyId _ _ (.row (granted_of_confirmed hst hc) hr ha rfl)
      (.row (granted_of_confirmed hst hc') hr' ha' hf.symm))

/-- A login, a refresh whose rotation raises after it has taken effect, and the retry within the grace
window. -/
def retried : FailingState Rows Unit :=
  (playedFailing carefulCheck
    (.invoke (sampleIssue 60 0) :: failingSteps 0 1 ++
      [.invoke (sampleRefresh 60 0 1 1010), .go 1, .go 1, raise 1 (.after ())] ++ failingSteps 1 1 ++
      .invoke (sampleRefresh 60 0 2 1020) :: failingSteps 2 5)).get (by decide)

theorem fail_closed_sample : (∀ x, ¬ Returns retried 1 x) ∧
    (∃ n, retried.Did 2 ⟨.insert n, .ok ()⟩ ∧ Backed sampleHmac retried 2 n) ∧
    Confirmed sampleHmac retried (sampleDraw 2).selectorText ∧
    ∀ sel r, retried.shared.store.get sel = some r → r.status = .active →
      r.familyId = (sampleRow 60 0).familyId → Confirmed sampleHmac retried sel →
        sel = (sampleDraw 2).selectorText := by
  have hs : ((failing sampleHmac Unit memory).under (Careful sampleHmac)).Reachable retried :=
    play_reachable (fun _ _ _ _ hw => by cases hw) (fun _ _ h => careful_of_check h)
      (Option.some_get _).symm
  obtain ⟨hclosed, hone, -⟩ := fail_closed sampleHmac Unit memoryStore
  obtain ⟨hret, -, -, hraised⟩ := hclosed retried hs.free
  obtain ⟨hconf, hone⟩ := hone retried hs
  have hrow : ∃ r, retried.shared.store.get (sampleDraw 2).selectorText = some r ∧
      r.status = .active ∧ r.familyId = (sampleRow 60 0).familyId := ⟨_, rfl, rfl, rfl⟩
  obtain ⟨r, hr, ha, hf⟩ := hrow
  have htr : TokenReturned retried (sampleDraw 2).selectorText := tokenReturned_of_check (by decide)
  have hc := hconf _ htr
  have herr : ∃ th q, retried.threads[1]? = some th ∧ ⟨q, .error ()⟩ ∈ th.trace :=
    ⟨_, _, rfl, List.mem_cons_self⟩
  obtain ⟨th, q, hi, hev⟩ := herr
  refine ⟨(hraised 1 q () ⟨th, hi, hev⟩).1, ?_, hc, fun sel r' hr' ha' hf' hc' => ?_⟩
  · have htok : ∃ th x tok, retried.threads[2]? = some th ∧ th.result = some (.ok x) ∧
        Outcome.token? x = some tok := ⟨_, _, _, rfl, rfl, rfl⟩
    obtain ⟨th, x, tok, hi, hres, htok⟩ := htok
    obtain ⟨n, hn, -, hb⟩ := hret 2 x tok ⟨th, hi, hres⟩ htok
    exact ⟨n, hn, hb⟩
  · exact hone _ _ _ _ hr' hr ha' ha (hf'.trans hf.symm) hc' hc

end NebulaToken.Safety.FailClosed
