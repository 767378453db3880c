import NebulaToken.Engine.Binding
import NebulaToken.Runs.Unforked
import NebulaToken.Safety.PepperRotation
import NebulaToken.Token.Utf8

/-! # Sender binding is inherited

A login binds its family to a device, or to none. A rotation digests the presented device anew under the
active pepper; as it only comes to that with the device the record accepts, every record of the family is
bound to the device of the login.

* `bound_inherited`: the invariant of all runs of engines that agree on the peppers they share;
* `mismatched_at`: what is left of a call that presents a proved token from another device;
* `sender_binding`: what every row of a family holds, and what a call from another device can do. -/

namespace NebulaToken.Safety.SenderBinding

open NebulaToken.Lib.Program NebulaToken.Lib.Pool NebulaToken.Lib.Transition
open NebulaToken.Lib.Codec NebulaToken.Lib.KeyedTable NebulaToken.Token.Unicode
open NebulaToken.Token.Utf8 NebulaToken.Token.Wire
open NebulaToken.Engine.Records NebulaToken.Engine.Config NebulaToken.Engine.Operations
open NebulaToken.Engine.Binding NebulaToken.Runs.Calls NebulaToken.Runs.History
open NebulaToken.Runs.Provenance NebulaToken.Runs.Assumptions NebulaToken.Runs.Families
open NebulaToken.Runs.Lineage NebulaToken.Runs.Unforked NebulaToken.Runs.Execution
open NebulaToken.Safety.WireForm NebulaToken.Safety.PepperRotation
open NebulaToken.Store.Contract NebulaToken.Store.Memory

variable {σ Env : Type}

/-- The device an operation is given. -/
def deviceOf : Operation → Option Str
  | .issue c => c.deviceId
  | .refresh c => c.deviceId
  | _ => none

/-- The pepper is that of the kid in some engine of the run. -/
def Configured (s : PoolState σ) (kid pepper : Str) : Prop :=
  ∃ i op e, OpAt s i op ∧ engineOf op = some e ∧ e.peppers.get kid = some pepper

/-- **Engines agree on the secret of every kid they share.** -/
def SharedPeppers (s : PoolState σ) (l : PoolLabel Env) : Prop :=
  ∀ op e kid pepper pepper', l = .invoke op → engineOf op = some e →
    e.peppers.get kid = some pepper → Configured s kid pepper' → pepper' = pepper

/-- Fresh draws, and shared peppers. -/
structure Deployed (s : PoolState σ) (l : PoolLabel Env) : Prop where
  fresh : FreshDraws s l
  shared : SharedPeppers s l

/-- The devices of the run, as they are digested. -/
def deviceMessages (s : PoolState σ) : Set (List UInt8) :=
  {m | ∃ i op dev, OpAt s i op ∧ deviceOf op = some dev ∧ m = deviceMessage dev}

/-- The digests of the devices of the run do not collide under its peppers. -/
def Collisionless (H : HmacSha256) (s : PoolState σ) : Prop :=
  ∀ kid pepper, Configured s kid pepper → Distinct H (deviceMessages s) pepper


section Facts

variable {H : HmacSha256} {svc : StoreService σ Env} {C : StoreContract svc} {s s' : PoolState σ}
  {l : PoolLabel Env} {G : PoolState σ → PoolLabel Env → Prop}

theorem drawsFreshly (h : ((engines H svc).under Deployed).Reachable s) :
    ((engines H svc).under FreshDraws).Reachable s := h.weaken fun _ _ h => h.fresh

/-! ### Peppers and devices of a run -/

theorem Configured.mono {kid pepper : Str} (h : Configured s kid pepper)
    (hs : Step (code H) svc s l s') : Configured s' kid pepper := by
  obtain ⟨i, op, e, hop, he, hk⟩ := h
  exact ⟨i, op, e, hop.mono hs, he, hk⟩

theorem Collisionless.back (h : Collisionless H s') (hs : Step (code H) svc s l s') :
    Collisionless H s := by
  refine fun kid pepper hk => (h kid pepper (hk.mono hs)).mono ?_
  rintro m ⟨i, op, dev, hop, hd, rfl⟩
  exact ⟨i, op, dev, hop.mono hs, hd, rfl⟩

/-- The operation of a call after a step was that of the call before it, or has just been invoked. -/
theorem opAt_step (hs : Step (code H) svc s l s') {i : ℕ} {op : Operation} (h : OpAt s' i op) :
    OpAt s i op ∨ l = .invoke op := by
  obtain ⟨th', hi, rfl⟩ := h
  rcases hs.thread_cases hi with ⟨op, hl, -, rfl⟩ | ⟨th, hth, hop, -⟩ | ⟨th, q, k, r, a, hth, -, -, -, -, -, rfl⟩
  · exact Or.inr hl
  · exact Or.inl ⟨th, hth, hop.symm⟩
  · exact Or.inl ⟨th, hth, rfl⟩

/-- **A kid has one secret.** -/
theorem configured_unique (h : ((engines H svc).under Deployed).Reachable s) :
    ∀ kid pepper pepper', Configured s kid pepper → Configured s kid pepper' → pepper = pepper' := by
  refine h.invariant (I := fun s => ∀ kid pepper pepper', Configured s kid pepper →
    Configured s kid pepper' → pepper = pepper') ?_ ?_
  · rintro s hs kid pepper pepper' ⟨i, op, e, ⟨th, hi, -⟩, -⟩
    rw [show s = ⟨svc.start, []⟩ from hs] at hi
    cases hi
  · rintro s l s' hr ih hs kid pepper pepper' ⟨i, op, e, hop, he, hk⟩ ⟨j, op', e', hop', he', hk'⟩
    rcases opAt_step hs.2 hop with hop | hl <;> rcases opAt_step hs.2 hop' with hop' | hl'
    · exact ih kid pepper pepper' ⟨i, op, e, hop, he, hk⟩ ⟨j, op', e', hop', he', hk'⟩
    · exact hs.1.shared op' e' kid pepper' pepper hl' he' hk' ⟨i, op, e, hop, he, hk⟩
    · exact (hs.1.shared op e kid pepper pepper' hl he hk ⟨j, op', e', hop', he', hk'⟩).symm
    · cases hl.symm.trans hl'
      obtain rfl := Option.some.inj (he.symm.trans he')
      exact Option.some.inj (hk.symm.trans hk')

/-- The device of a refresh is one of the run. -/
theorem message_mem {i : ℕ} {op : Operation} (hop : OpAt s i op) {dev : Str}
    (hd : deviceOf op = some dev) : deviceMessage dev ∈ deviceMessages s := ⟨i, op, dev, hop, hd, rfl⟩

/-! ### The invariant -/

/-- The record is bound to the device of the login, under a pepper of its own kid. -/
def BoundTo (H : HmacSha256) (s : PoolState σ) (c : IssueCall) (r : TokenRecord) : Prop :=
  ∃ pepper, Configured s r.kid pepper ∧ Bound H pepper c.deviceId r.deviceIdHash

theorem BoundTo.mono {c : IssueCall} {r : TokenRecord} (h : BoundTo H s c r)
    (hs : Step (code H) svc s l s') : BoundTo H s' c r := by
  obtain ⟨pepper, hk, hb⟩ := h
  exact ⟨pepper, hk.mono hs, hb⟩

theorem BoundTo.evolves {c : IssueCall} {a b : TokenRecord} (h : BoundTo H s c a) (he : Evolves a b) :
    BoundTo H s c b := by
  obtain ⟨pepper, hk, hb⟩ := h
  refine ⟨pepper, ?_, ?_⟩
  · rw [he.kid]
    exact hk
  · rw [he.deviceIdHash]
    exact hb

/-- The pepper that proves a record is the one it is bound under. -/
theorem BoundTo.proved (h : ((engines H svc).under Deployed).Reachable s) {c : IssueCall}
    {r : TokenRecord} (hb : BoundTo H s c r) {i : ℕ} {c' : RefreshCall} (hop : OpAt s i (.refresh c'))
    {sel pepper : Str} (hp : Proves H c' sel r pepper) :
    Configured s r.kid pepper ∧ Bound H pepper c.deviceId r.deviceIdHash := by
  obtain ⟨pepper', hk', hb⟩ := hb
  obtain ⟨parsed, -, -, hv⟩ := hp
  have hk : Configured s r.kid pepper :=
    ⟨i, .refresh c', c'.engine, hop, rfl, (proveVerifier_ok.mp hv).1⟩
  obtain rfl := configured_unique h r.kid pepper pepper' hk hk'
  exact ⟨hk, hb⟩

/-- **What a record bound to a device accepts from a call of the run**: that device. -/
theorem BoundTo.accepts (h : ((engines H svc).under Deployed).Reachable s) (hd : Collisionless H s)
    {c : IssueCall} {r : TokenRecord} (hb : BoundTo H s c r) {j : ℕ} (hj : OpAt s j (.issue c)) {i : ℕ}
    {c' : RefreshCall} (hop : OpAt s i (.refresh c')) {sel pepper : Str}
    (hp : Proves H c' sel r pepper) {dev : Str} (hdev : c.deviceId = some dev) :
    deviceRefused H r pepper c'.deviceId = false ↔ c'.deviceId = some dev := by
  obtain ⟨hk, hb⟩ := hb.proved h hop hp
  rw [hdev] at hb
  exact hb.accepts_exactly (hd r.kid pepper hk) (message_mem hj hdev) fun dev' hd' =>
    message_mem hop hd'

/-- **Sender binding is inherited**: every record is bound to the device of the login behind it. -/
theorem bound_inherited (C : StoreContract svc) (h : ((engines H svc).under Deployed).Reachable s) :
    Collisionless H s → ∀ i n, Inserted s i n →
      ∃ j c n₀, Founded H s j c n₀ ∧ OfFamily c n ∧ BoundTo H s c n := by
  refine h.invariant (I := fun s => Collisionless H s → ∀ i n, Inserted s i n →
    ∃ j c n₀, Founded H s j c n₀ ∧ OfFamily c n ∧ BoundTo H s c n) ?_ ?_
  · rintro s hs - i n ⟨th, hi, -⟩
    rw [show s = ⟨svc.start, []⟩ from hs] at hi
    cases hi
  · intro s l s' hr ih hs hcol i n hins
    have ih := ih (hcol.back hs.2)
    rcases hs.2.did_iff.mp hins with hold | rfl
    · obtain ⟨j, c, n₀, hf, ho, hb⟩ := ih i n hold
      exact ⟨j, c, n₀, hf.mono hs.2, ho, hb.mono hs.2⟩
    · obtain ⟨th, k, hi, hc, -⟩ := callAt_answer hr hs.2
      generalize hop : th.op = op at hc
      generalize htr : th.trace = tr at hc
      have hopAt : OpAt s i op := ⟨th, hi, hop⟩
      cases insert_request hc with
      | @issue c hn =>
        refine ⟨i, c, n, ⟨hopAt.mono hs.2, hn, hins⟩, .of_mints hn, c.engine.activePepper, ?_⟩
        obtain ⟨hash, hb, rfl⟩ := hn
        exact ⟨⟨i, _, c.engine, hopAt.mono hs.2, rfl, c.engine.get_activeKid⟩, bindDevice_iff.mp hb⟩
      | @refresh c r f t tr ht hn =>
        have hK := knowledge C (noReinsert_of_freshDraws (drawsFreshly hr))
        obtain ⟨j, n', hj, -, he⟩ := ticket_stored hK ht fun ev hev => did_of_mem hi (htr ▸ hev)
        obtain ⟨j₀, c₀, n₀, hf, ho, hb⟩ := ih j n' hj
        have hb := hb.evolves he
        obtain ⟨sel, pepper, hp, hdev⟩ := ht.accepted
        refine ⟨j₀, c₀, n₀, hf.mono hs.2, (ho.evolves he).successor hn, c.engine.activePepper, ?_⟩
        obtain ⟨hash, hm, rfl⟩ := hn
        refine ⟨⟨i, _, c.engine, hopAt.mono hs.2, rfl, c.engine.get_activeKid⟩, ?_⟩
        refine (hb.proved hr hopAt hp).2.inherited (fun dev hd => ?_) hm
        exact (hb.accepts hr (hcol.back hs.2) hf.opAt hopAt hp hd).mp hdev

/-! ### Another device -/

/-- **The lookups of a presentation that only the device can refuse**: a token is proved, of an active
record before its deadlines or of a rotated one within its grace window and with an unused successor. -/
inductive Eligible (H : HmacSha256) (c : RefreshCall) (r : TokenRecord) : List StoreEvent → Prop
  | active {sel pepper : Str} (hp : Proves H c sel r pepper) (hs : r.status = .active)
      (habs : c.now < r.familyExpiresAt) (hidle : c.now < r.idleExpiresAt) :
    Eligible H c r [⟨.findBySelector sel, some r⟩]
  | rotated {sel pepper q : Str} {t : ℤ} {d : TokenRecord} (hp : Proves H c sel r pepper)
      (hs : r.status = .rotated) (hg : withinGrace c.engine r c.now = some (t, q))
      (ha : d.status = .active) :
    Eligible H c r [⟨.findBySelector q, some d⟩, ⟨.findBySelector sel, some r⟩]

/-- What the call returns to a presenter with another device. -/
def deviceMismatch (r : TokenRecord) : Outcome := .refreshed (.refused (fail .deviceMismatch r))

/-- **A call that has read another device's record** has only to revoke the family of the record and to
return `DEVICE_MISMATCH`, or has revoked it and has only to return. -/
def Mismatched (th : Call) (r : TokenRecord) (tr : List StoreEvent) : Prop :=
  (th.trace = tr ∧ th.prog = .call (.revokeFamily r.familyId) fun _ => .ret (deviceMismatch r)) ∨
    ∃ n : ℕ, th.trace = ⟨.revokeFamily r.familyId, n⟩ :: tr ∧ th.prog = .ret (deviceMismatch r)

theorem Eligible.proves {c : RefreshCall} {r : TokenRecord} {tr : List StoreEvent}
    (h : Eligible H c r tr) : ∃ sel pepper, Proves H c sel r pepper ∧
      ⟨.findBySelector sel, some r⟩ ∈ tr := by
  cases h with
  | active hp => exact ⟨_, _, hp, by simp⟩
  | rotated hp => exact ⟨_, _, hp, by simp⟩

/-- **From another device, an eligible presentation leads to the revocation.** -/
theorem Eligible.leads {c : RefreshCall} {r : TokenRecord} {tr : List StoreEvent}
    (h : Eligible H c r tr)
    (hd : ∀ sel pepper, Proves H c sel r pepper → deviceRefused H r pepper c.deviceId = true) :
    Leads (code H (.refresh c)) tr
      (.call (.revokeFamily r.familyId) fun _ => .ret (deviceMismatch r)) := by
  cases h with
  | @active sel pepper hp hs habs hidle =>
    have hburn : refreshProved H c.engine r pepper c.deviceId c.now c.draw =
        burn .deviceMismatch r := by
      unfold refreshProved
      rw [hs]
      dsimp only
      rw [if_neg (not_le.mpr habs), if_neg (not_le.mpr hidle), if_pos (hd sel pepper hp)]
    have hl := leads_proved hp
    rw [hburn] at hl
    exact hl
  | @rotated sel pepper q t d hp hs hg ha =>
    have hreuse : refreshProved H c.engine r pepper c.deviceId c.now c.draw =
        .call (.findBySelector q) (displace H c.engine r pepper c.deviceId c.now t c.draw) := by
      unfold refreshProved handleReuse
      rw [hs]
      dsimp only
      rw [hg]
      rfl
    have hburn : displace H c.engine r pepper c.deviceId c.now t c.draw (some d) =
        burn .deviceMismatch r := by
      unfold displace unused
      dsimp only
      rw [if_pos ha]
      dsimp only
      rw [if_pos (hd sel pepper hp)]
    have hl := leads_proved hp
    rw [hreuse, Prog.map_call] at hl
    have hl := hl.answer (some d)
    rw [hburn] at hl
    exact hl

/-- **What is left of a call that presents a proved token from another device.** -/
theorem mismatched_at (h : ((engines H svc).under G).Reachable s) {i : ℕ} {th : Call}
    (hi : s.threads[i]? = some th) {c : RefreshCall} (hop : th.op = .refresh c) {r : TokenRecord}
    {tr : List StoreEvent} (htr : tr <:+ th.trace) (he : Eligible H c r tr)
    (hd : ∀ sel pepper, Proves H c sel r pepper → deviceRefused H r pepper c.deviceId = true) :
    Mismatched th r tr := by
  obtain ⟨tr₁, htr⟩ := htr
  have hl := leads h th (mem_of_getElem? hi)
  rw [← htr, hop] at hl
  obtain ⟨a, ha, hl⟩ := hl.split
  obtain rfl := ha.unique (he.leads hd)
  unfold Mismatched
  rw [← htr]
  -- the revocation is the only request that is left
  rcases hl.of_call with ⟨rfl, hp⟩ | ⟨n, tr₂, rfl, hret⟩
  · exact Or.inl ⟨rfl, hp⟩
  · obtain ⟨rfl, hp⟩ := hret.of_ret
    exact Or.inr ⟨n, rfl, hp⟩

/-! ### The family of a login -/

section Family

variable {j : ℕ} {c : IssueCall} {n₀ : TokenRecord}

/-- A record of a family is bound to the device of its login. -/
theorem bound_of_stored (C : StoreContract svc)
    (h : ((engines H svc).under Deployed).Reachable s) (hcol : Collisionless H s)
    (hf : Founded H s j c n₀) {sel : Str} {r : TokenRecord} (hr : Stored s sel r)
    (hfam : r.familyId = c.draw.familyId) : BoundTo H s c r := by
  obtain ⟨i, n, hi, -, he⟩ := hr
  obtain ⟨j', c', n', hf', ho, hb⟩ := bound_inherited C h hcol i n hi
  have hsame : c.draw.familyId = c'.draw.familyId := by
    rw [← hfam, he.familyId, ho.family]
  obtain ⟨-, rfl⟩ := founded_unique (drawsFreshly h) hf.opAt hf'.opAt hsame
  exact hb.evolves he

/-- **A refresh that succeeds in a bound family has presented its device.** -/
theorem presented_of_success (C : StoreContract svc)
    (h : ((engines H svc).under Deployed).Reachable s) (hcol : Collisionless H s)
    (hf : Founded H s j c n₀) {dev : Str} (hdev : c.deviceId = some dev) {i : ℕ} {y : RefreshSuccess}
    (hy : Succeeded s i y) (hfam : y.familyId = c.draw.familyId) :
    ∃ c', OpAt s i (.refresh c') ∧ c'.deviceId = some dev := by
  obtain ⟨c', r, n, f, t, tr, hw, rfl⟩ := won_of_success h hy
  have hK := knowledge C (noReinsert_of_freshDraws (drawsFreshly h))
  obtain ⟨k, m, hk, hm, he⟩ := ticket_stored hK hw.ticket hw.did
  have hb := bound_of_stored C h hcol hf ⟨k, m, hk, hm, he⟩ hfam
  obtain ⟨sel, pepper, hp, hacc⟩ := hw.ticket.accepted
  exact ⟨c', hw.opAt, (hb.accepts h hcol hf.opAt hw.opAt hp hdev).mp hacc⟩

/-- **A presentation from another device ends with `DEVICE_MISMATCH`.** -/
theorem mismatched_of_family (C : StoreContract svc)
    (h : ((engines H svc).under Deployed).Reachable s) (hcol : Collisionless H s)
    (hf : Founded H s j c n₀) {dev : Str} (hdev : c.deviceId = some dev) {i : ℕ} {th : Call}
    (hi : s.threads[i]? = some th) {c' : RefreshCall} (hop : th.op = .refresh c') {r : TokenRecord}
    {tr : List StoreEvent} (htr : tr <:+ th.trace) (he : Eligible H c' r tr)
    (hfam : r.familyId = c.draw.familyId) (hother : c'.deviceId ≠ some dev) : Mismatched th r tr := by
  refine mismatched_at h hi hop htr he fun sel pepper hp => ?_
  have hK := knowledge C (noReinsert_of_freshDraws (drawsFreshly h))
  obtain ⟨sel', -, -, hmem⟩ := he.proves
  have hb := bound_of_stored C h hcol hf (.of_found hK (did_of_mem hi (htr.mem hmem))) hfam
  by_contra hacc
  rw [Bool.not_eq_true] at hacc
  exact hother ((hb.accepts h hcol hf.opAt ⟨th, hi, hop⟩ hp hdev).mp hacc)

end Family

end Facts

/-! ### A family bound to a device -/

/-- Whether the engines of the run agree with that of a call on the peppers they share. -/
def sharedPeppersCheck (s : PoolState σ) (l : PoolLabel Env) : Bool :=
  match l with
  | .invoke op => (engineOf op).all fun e => e.peppers.entries.all fun x =>
      s.threads.all fun th => (engineOf th.op).all fun e' => (e'.peppers.get x.1).all (· == x.2)
  | _ => true

theorem sharedPeppers_of_check {s : PoolState σ} {l : PoolLabel Env}
    (h : sharedPeppersCheck s l = true) : SharedPeppers s l := by
  rintro op e kid pepper pepper' rfl he hk ⟨i, op', e', ⟨th, hth, rfl⟩, he', hk'⟩
  unfold sharedPeppersCheck at h
  dsimp only at h
  rw [he, Option.all_some] at h
  have hall := List.all_eq_true.mp (List.all_eq_true.mp h _ (Table.mem_of_get hk)) th
    (mem_of_getElem? hth)
  rw [he', Option.all_some, hk', Option.all_some] at hall
  exact eq_of_beq hall

def deployedCheck (s : PoolState σ) (l : PoolLabel Env) : Bool :=
  freshDrawsCheck s l && sharedPeppersCheck s l

theorem deployed_of_check {s : PoolState σ} {l : PoolLabel Env} (h : deployedCheck s l = true) :
    Deployed s l := by
  rw [deployedCheck, Bool.and_eq_true] at h
  exact ⟨freshDraws_of_check h.1, sharedPeppers_of_check h.2⟩

/-- `phone`. -/
def phone : Str := ascii ['p', 'h', 'o', 'n', 'e']

/-- The digests of the device under the two peppers. -/
def phoneDigests : List (Str × List UInt8) := [
  (samplePepper, [222, 53, 63, 8, 123, 250, 33, 73, 135, 238, 4, 200, 28, 1, 33, 221,
    12, 194, 230, 170, 217, 203, 34, 227, 5, 88, 60, 177, 194, 76, 235, 37]),
  (secondPepper, [218, 74, 149, 39, 205, 190, 236, 164, 232, 141, 188, 120, 21, 170, 215, 66,
    254, 232, 13, 121, 163, 133, 141, 255, 155, 137, 211, 132, 25, 182, 200, 93])]

/-- The sample platform, with the digests of the device as well. -/
def phoneHmac : HmacSha256 where
  run key msg :=
    match phoneDigests.find? fun x => key = utf8 x.1 ∧ msg = deviceMessage phone with
    | some x => if x.2.length = 32 then x.2 else List.replicate 32 0
    | none => twoPeppersHmac.run key msg
  run_length key msg := by
    split
    · split_ifs with h
      · exact h
      · rfl
    · exact twoPeppersHmac.run_length key msg

/-- A login from the device. -/
def phoneLogin : IssueCall := { sampleLogin 0 0 with deviceId := some phone }

/-- The token of the draw `a`, minted by the engine, presented to it from a device. -/
def phonePresent (e e' : NebulaEngine) (deviceId : Option Str) (a b : UInt8) (now : ℤ) : RefreshCall where
  engine := e'
  token := mintToken e (sampleDraw a)
  deviceId
  now
  draw := sampleDraw b

/-- The record of the login. -/
def phoneRow : TokenRecord :=
  { sampleRow 0 0 with deviceIdHash := some (deviceDigest phoneHmac samplePepper phone) }

/-- The token of the login is being refreshed from the device and from none. -/
def presented : PoolState Rows :=
  (played phoneHmac (fun s l => deployedCheck s l)
    (.invoke (.issue phoneLogin) :: sampleSteps 0 1 ++
      [.invoke (.refresh (phonePresent (sampleEngine 0) (sampleEngine 0) (some phone) 0 1 1010)), .go 1,
        .invoke (.refresh (phonePresent (sampleEngine 0) (sampleEngine 0) none 0 3 1010)), .go 2])).get
    (by decide)

/-- The refresh from no device has revoked the family. -/
def refused : PoolState Rows :=
  (playedFrom phoneHmac (fun s l => deployedCheck s l) presented [.go 2]).get (by decide)

/-- The other refresh has inserted its successor and stopped; the token of the successor was
presented from the device. -/
def escaped : PoolState Rows :=
  (playedFrom phoneHmac (fun s l => deployedCheck s l) refused
    ([.go 1, .stop 1 .abandoned] ++
      .invoke (.refresh (phonePresent (sampleEngine 0) (sampleEngine 0) (some phone) 1 2 1020)) ::
        sampleSteps 3 3)).get (by decide)

/-- The devices of a run, if they are this one or none. -/
theorem collisionless_of_phone {s : PoolState σ}
    (h : ∀ th ∈ s.threads, deviceOf th.op = none ∨ deviceOf th.op = some phone) (H : HmacSha256) :
    Collisionless H s := by
  have hmsg : ∀ m ∈ deviceMessages s, m = deviceMessage phone := by
    rintro m ⟨i, op, dev, ⟨th, hi, rfl⟩, hd, rfl⟩
    rcases h th (mem_of_getElem? hi) with hn | hs
    · cases hn.symm.trans hd
    · rw [Option.some.inj (hd.symm.trans hs)]
  rintro kid pepper - m hm m' hm' -
  rw [hmsg m hm, hmsg m' hm']

/-- **After a mismatch, the token of a late successor is accepted**, if the device that presents it is the
right one: nobody was given the token. -/
theorem accepted_after_mismatch : ¬ ∀ (s v t : PoolState Rows) (i j n : ℕ) (c : IssueCall)
    (n₀ r : TokenRecord) (dev : Str) (th : Call) (c' : RefreshCall),
    ((engines phoneHmac memory).under Deployed).Reachable s → Founded phoneHmac s j c n₀ →
    c.deviceId = some dev → s.threads[i]? = some th → th.op = .refresh c' →
    Eligible phoneHmac c' r th.trace → c'.deviceId ≠ some dev →
    ((engines phoneHmac memory).under Deployed).step s (.answer i ⟨.revokeFamily r.familyId, n⟩) v →
    ((engines phoneHmac memory).under Deployed).Run v t → Collisionless phoneHmac t →
    ∀ k y, Succeeded t k y → y.familyId = r.familyId → ∃ p f x q, Marked v k p f x q := by
  intro h
  have hs : ((engines phoneHmac memory).under Deployed).Reachable presented :=
    played_reachable (fun _ _ h => deployed_of_check h) _
  have hf : Founded phoneHmac presented 0 phoneLogin phoneRow :=
    ⟨opAt_of_read rfl, ⟨_, rfl, rfl⟩, did_of_read (k := 0) rfl⟩
  obtain ⟨th, hth, hop, htr⟩ : ∃ th, presented.threads[2]? = some th ∧
      th.op = .refresh (phonePresent (sampleEngine 0) (sampleEngine 0) none 0 3 1010) ∧
      th.trace = [⟨.findBySelector phoneRow.selector, some phoneRow⟩] := ⟨_, rfl, rfl, rfl⟩
  have he : Eligible phoneHmac (phonePresent (sampleEngine 0) (sampleEngine 0) none 0 3 1010) phoneRow
      th.trace := by
    rw [htr]
    exact .active ⟨_, rfl, rfl, rfl⟩ rfl (by decide) (by decide)
  have hstep : ((engines phoneHmac memory).under Deployed).step presented
      (.answer 2 ⟨.revokeFamily phoneRow.familyId, (1 : ℕ)⟩) refused :=
    ⟨deployed_of_check rfl, step_of_act (x := .go 2) rfl⟩
  have hrun : ((engines phoneHmac memory).under Deployed).Run refused escaped :=
    playedFrom_run (fun _ _ h => deployed_of_check h) _
  have hcol : Collisionless phoneHmac escaped := collisionless_of_phone (by decide) phoneHmac
  obtain ⟨y, hy, hyf⟩ : ∃ y, Succeeded escaped 3 y ∧ y.familyId = phoneRow.familyId :=
    ⟨_, succeeded_of_read rfl, rfl⟩
  obtain ⟨p, f, x, q, th', hth', -⟩ :=
    h _ _ _ 2 0 1 _ _ _ _ _ _ hs hf rfl hth hop he (by decide) hstep hrun hcol 3 y hy hyf
  rw [show refused.threads[3]? = none from rfl] at hth'
  cases hth'

/-- **Sender binding is inherited unchanged.** In every run of engines that agree on the peppers they
share, with fresh draws and without collisions of the devices' digests: every row of a family holds the
digest of the device of its login under the pepper of its own kid, or none if the login had no device; a
refresh that succeeds in a bound family has presented exactly that device; and a call that has read an
eligible record of the family, and presents anything else, can only revoke the family and return
`DEVICE_MISMATCH`. From the step of a revocation of the family on, if no refresh proves a token that was
not returned, no record of the family is rotated, and a refresh that succeeds has rotated before. -/
theorem sender_binding (H : HmacSha256) {σ Env : Type} {svc : StoreService σ Env}
    (A : AtomicContract svc) :
    (∀ s : PoolState σ, ((engines H svc).under Deployed).Reachable s → Collisionless H s →
      ∀ (j : ℕ) (c : IssueCall) (n₀ : TokenRecord), Founded H s j c n₀ →
      (∀ sel r, A.look s.shared sel = some r → r.familyId = c.draw.familyId →
        ∃ pepper, Configured s r.kid pepper ∧
          (∀ pepper', Configured s r.kid pepper' → pepper' = pepper) ∧
          r.deviceIdHash = c.deviceId.map (deviceDigest H pepper)) ∧
      (∀ dev i y, c.deviceId = some dev → Succeeded s i y → y.familyId = c.draw.familyId →
        ∃ c', OpAt s i (.refresh c') ∧ c'.deviceId = some dev) ∧
      ∀ (dev : Str) (i : ℕ) (th : Call) (c' : RefreshCall) (r : TokenRecord) (tr : List StoreEvent),
        c.deviceId = some dev → s.threads[i]? = some th → th.op = .refresh c' → tr <:+ th.trace →
        Eligible H c' r tr → r.familyId = c.draw.familyId → c'.deviceId ≠ some dev →
        Mismatched th r tr ∧ ∀ res, th.result = some res → res = deviceMismatch r) ∧
    ∀ (s v t : PoolState σ) (i j n : ℕ) (c : IssueCall) (n₀ : TokenRecord),
      ((engines H svc).under (Honest H)).Reachable s → Founded H s j c n₀ →
      ((engines H svc).under (Honest H)).step s (.answer i ⟨.revokeFamily c.draw.familyId, n⟩) v →
      ((engines H svc).under (Honest H)).Run v t →
      (∀ k p f x q r, Marked t k p f x q → Stored t p r → r.familyId = c.draw.familyId →
        Marked v k p f x q) ∧
      ∀ k y, Succeeded t k y → y.familyId = c.draw.familyId → ∃ p f x q, Marked v k p f x q := by
  refine ⟨fun s h hcol j c n₀ hf => ⟨fun sel r hr hfam => ?_, ?_, ?_⟩, ?_⟩
  · have hK := knowledge A.toStoreContract (noReinsert_of_freshDraws (drawsFreshly h))
    obtain ⟨pepper, hk, hb⟩ := bound_of_stored A.toStoreContract h hcol hf (.of_row hK hr) hfam
    exact ⟨pepper, hk, fun pepper' hk' => configured_unique h _ _ _ hk' hk, hb.eq⟩
  · intro dev i y hdev hy hfam
    exact presented_of_success A.toStoreContract h hcol hf hdev hy hfam
  · intro dev i th c' r tr hdev hi hop htr he hfam hother
    have hm := mismatched_of_family A.toStoreContract h hcol hf hdev hi hop htr he hfam hother
    refine ⟨hm, fun res hres => ?_⟩
    obtain ⟨-, hp⟩ := of_result hres
    rcases hm with ⟨-, hp'⟩ | ⟨n, -, hp'⟩
    · cases hp.symm.trans hp'
    · exact Prog.ret.inj (hp.symm.trans hp')
  · intro s v t i j n c n₀ hs hf hstep hrun
    have hv := hs.step hstep
    have hD := dead_of_bulk A hs hstep hf rfl
    exact ⟨fun k p f x q r hm hp hfam => marked_of_dead hD hv hrun hm hp hfam,
      fun k y hy hfam => success_before_death hD hv hrun hy hfam⟩

/-- The token of the login refreshed from the device under the second pepper, and its successor presented
from no device. -/
def migrated : PoolState Rows :=
  (played phoneHmac (fun s l => deployedCheck s l && honestCheck phoneHmac s l)
    (.invoke (.issue phoneLogin) :: sampleSteps 0 1 ++
      .invoke (.refresh (phonePresent (sampleEngine 0) rotatedEngine (some phone) 0 1 1010)) ::
        sampleSteps 1 3 ++
      [.invoke (.refresh (phonePresent rotatedEngine rotatedEngine none 1 2 1020)), .go 2])).get
    (by decide)

/-- The record of the refresh. -/
def migratedRow : TokenRecord :=
  successor phoneHmac rotatedEngine phoneRow (some (deviceDigest phoneHmac secondPepper phone)) 1010
    (sampleDraw 1)

/-- The family revoked. -/
def burned : PoolState Rows :=
  (playedFrom phoneHmac (fun s l => deployedCheck s l && honestCheck phoneHmac s l) migrated
    [.go 2]).get (by decide)

/-- The mismatch returned. -/
def mismatched : PoolState Rows :=
  (playedFrom phoneHmac (fun s l => deployedCheck s l && honestCheck phoneHmac s l) burned
    [.stop 2 .returned]).get (by decide)

theorem sender_binding_sample :
    (∃ r, mismatched.shared.get (sampleDraw 1).selectorText = some r ∧ r.kid = secondKid ∧
      ∃ pepper, Configured mismatched secondKid pepper ∧
        r.deviceIdHash = some (deviceDigest phoneHmac pepper phone)) ∧
    (∃ c, OpAt mismatched 1 (.refresh c) ∧ c.deviceId = some phone) ∧
    (∃ th r, mismatched.threads[2]? = some th ∧ th.result = some (deviceMismatch r)) ∧
    ∃ p f x q, Marked burned 1 p f x q := by
  have hguard : ∀ (s : PoolState Rows) (l : PoolLabel ℤ),
      (deployedCheck s l && honestCheck phoneHmac s l) = true →
      Deployed s l ∧ Honest phoneHmac s l := by
    intro s l h
    rw [Bool.and_eq_true] at h
    exact ⟨deployed_of_check h.1, honest_of_check h.2⟩
  have hm : ((engines phoneHmac memory).under (Honest phoneHmac)).Reachable migrated :=
    played_reachable (fun s l h => (hguard s l h).2) _
  have hstep : ((engines phoneHmac memory).under (Honest phoneHmac)).step migrated
      (.answer 2 ⟨.revokeFamily phoneLogin.draw.familyId, (2 : ℕ)⟩) burned :=
    ⟨honest_of_check rfl, step_of_act (x := .go 2) rfl⟩
  have hrun : ((engines phoneHmac memory).under (Honest phoneHmac)).Run burned mismatched :=
    playedFrom_run (fun s l h => (hguard s l h).2) _
  have hs : ((engines phoneHmac memory).under Deployed).Reachable mismatched := by
    have h₁ : ((engines phoneHmac memory).under Deployed).Reachable migrated :=
      played_reachable (fun s l h => (hguard s l h).1) _
    have h₂ : ((engines phoneHmac memory).under Deployed).Run migrated burned :=
      playedFrom_run (fun s l h => (hguard s l h).1) _
    have h₃ : ((engines phoneHmac memory).under Deployed).Run burned mismatched :=
      playedFrom_run (fun s l h => (hguard s l h).1) _
    exact (h₁.run h₂).run h₃
  have hcol : Collisionless phoneHmac mismatched := collisionless_of_phone (by decide) phoneHmac
  have hf : ∀ s : PoolState Rows, OpAt s 0 (.issue phoneLogin) → Inserted s 0 phoneRow →
      Founded phoneHmac s 0 phoneLogin phoneRow := fun s hop hi => ⟨hop, ⟨_, rfl, rfl⟩, hi⟩
  have hf₁ := hf migrated (opAt_of_read rfl) (did_of_read (k := 0) rfl)
  have hf₂ := hf mismatched (opAt_of_read rfl) (did_of_read (k := 0) rfl)
  obtain ⟨r, hr, hkid, hfam⟩ : ∃ r, mismatched.shared.get (sampleDraw 1).selectorText = some r ∧
      r.kid = secondKid ∧ r.familyId = phoneLogin.draw.familyId := ⟨_, rfl, rfl, rfl⟩
  obtain ⟨y, hy, hyf⟩ : ∃ y, Succeeded mismatched 1 y ∧ y.familyId = phoneLogin.draw.familyId :=
    ⟨_, succeeded_of_read rfl, rfl⟩
  obtain ⟨th, ev, hth, htr, hop, res, hres⟩ : ∃ (th : Call) (ev : StoreEvent),
      mismatched.threads[2]? = some th ∧
      th.trace = [ev, ⟨.findBySelector migratedRow.selector, some migratedRow⟩] ∧
      th.op = .refresh (phonePresent rotatedEngine rotatedEngine none 1 2 1020) ∧
      ∃ res, th.result = some res := ⟨_, _, rfl, rfl, rfl, _, rfl⟩
  have he : Eligible phoneHmac (phonePresent rotatedEngine rotatedEngine none 1 2 1020) migratedRow
      [⟨.findBySelector migratedRow.selector, some migratedRow⟩] :=
    .active ⟨_, rfl, rfl, rfl⟩ rfl (by decide) (by decide)
  obtain ⟨hrows, hpres, hmis⟩ := (sender_binding phoneHmac memoryContract).1 _ hs hcol 0 _ _ hf₂
  obtain ⟨pepper, hk, -, hhash⟩ := hrows (sampleDraw 1).selectorText r hr hfam
  have hsuf : [⟨.findBySelector migratedRow.selector, some migratedRow⟩] <:+ th.trace :=
    htr ▸ List.suffix_cons ev _
  have hend := (hmis phone 2 th _ migratedRow _ rfl hth hop hsuf he rfl (by decide)).2 res hres
  refine ⟨⟨r, hr, hkid, pepper, hkid ▸ hk, hhash⟩, hpres phone 1 y rfl hy hyf,
    ⟨th, migratedRow, hth, hend ▸ hres⟩, ?_⟩
  exact ((sender_binding phoneHmac memoryContract).2 _ _ _ 2 0 2 _ _ hm hf₁ hstep hrun).2 1 y hy hyf

end NebulaToken.Safety.SenderBinding
