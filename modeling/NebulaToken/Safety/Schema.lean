import NebulaToken.Runs.Execution

/-! # The published schema

The table that `schema/postgres.sql` declares puts CHECK constraints on its rows. Whatever calls are in
flight, every row the engines have written satisfies them after every store call, so a database never
refuses a write for one.

* `CheckConstraints`: the constraints, under their names in the schema;
* `schema_kept`: every row of every reachable state satisfies them. -/

namespace NebulaToken.Safety.Schema

open NebulaToken.Lib.Codec NebulaToken.Lib.Pool NebulaToken.Lib.Transition
open NebulaToken.Token.Unicode NebulaToken.Token.Wire NebulaToken.Engine.Records
open NebulaToken.Engine.Config NebulaToken.Engine.Operations NebulaToken.Runs.Calls
open NebulaToken.Runs.History NebulaToken.Runs.Provenance NebulaToken.Runs.Execution
open NebulaToken.Store.Contract NebulaToken.Store.Memory

/-! ### The constraints -/

/-- `^[A-Za-z0-9_-]{22}$`. -/
def selectorTest (s : Str) : Bool := s.length == 22 && s.all isB64urlChar

/-- `^[0-9a-f]{32}$`. -/
def familyIdTest (s : Str) : Bool := s.length == 32 && s.all isLowerHex

/-- The status column. -/
def statusText : TokenStatus → Str
  | .active => text "active"
  | .rotated => text "rotated"
  | .revoked => text "revoked"

/-- The CHECK constraints of `refresh_tokens`. -/
structure CheckConstraints (r : TokenRecord) : Prop where
  status_ck : statusText r.status ∈ [text "active", text "rotated", text "revoked"]
  selector_ck : selectorTest r.selector = true
  replaced_by_ck : ∀ q, r.replacedBySelector = some q → selectorTest q = true
  verifier_hash_ck : lowerHex64Test r.verifierHash = true
  device_id_hash_ck : ∀ h, r.deviceIdHash = some h → lowerHex64Test h = true
  family_id_ck : familyIdTest r.familyId = true
  kid_ck : (1 ≤ byteLength r.kid ∧ byteLength r.kid ≤ 64) ∧ b64urlTest r.kid = true
  generation_ck : 0 ≤ (r.generation : ℤ)
  idle_le_family_ck : r.idleExpiresAt ≤ r.familyExpiresAt
  active_shape_ck : r.status ≠ .active ∨ (r.rotatedAt = none ∧ r.replacedBySelector = none)
  rotated_shape_ck : r.status ≠ .rotated ∨ (r.rotatedAt ≠ none ∧ r.replacedBySelector ≠ none)

theorem statusText_mem (st : TokenStatus) :
    statusText st ∈ [text "active", text "rotated", text "revoked"] := by
  cases st <;> simp [statusText]

theorem selectorTest_draw (d : Draw) : selectorTest d.selectorText = true := by
  have hlen : d.selectorText.length = 22 := by
    rw [Draw.selectorText, length_base64urlEncode, d.selector_length]
    rfl
  rw [selectorTest, Bool.and_eq_true, beq_iff_eq, List.all_eq_true]
  exact ⟨hlen, fun c hc => base64urlValue_isSome (base64urlEncode_alphabet hc)⟩

theorem familyIdTest_draw (d : IssueDraw) : familyIdTest d.familyId = true := by
  rw [familyIdTest, Bool.and_eq_true, beq_iff_eq, List.all_eq_true, IssueDraw.familyId,
    length_hexEncode, d.family_length]
  exact ⟨rfl, fun c hc => (isLowerHex_iff c).mpr (hexEncode_digits hc)⟩

section Mint

variable {H : HmacSha256}

theorem hashDeviceId_test {pepper device hash : Str} (h : hashDeviceId H pepper device = .ok hash) :
    lowerHex64Test hash = true := by
  unfold hashDeviceId at h
  split_ifs at h
  rw [← Except.ok.inj h]
  exact lowerHex64Test_digest _ (H.run_length _ _)

theorem bindDevice_test {e : NebulaEngine} {deviceId hash : Option Str}
    (h : bindDevice H e deviceId = .ok hash) : ∀ x, hash = some x → lowerHex64Test x = true := by
  rintro x rfl
  unfold bindDevice at h
  split at h
  · next device =>
    cases hd : hashDeviceId H e.activePepper device with
    | error err =>
      rw [hd] at h
      cases h
    | ok y =>
      rw [hd] at h
      cases h
      exact hashDeviceId_test hd
  · cases h

theorem migrateDevice_test {e : NebulaEngine} {r : TokenRecord} {deviceId hash : Option Str}
    (h : migrateDevice H e r deviceId = .ok hash)
    (hr : ∀ x, r.deviceIdHash = some x → lowerHex64Test x = true) :
    ∀ x, hash = some x → lowerHex64Test x = true := by
  rintro x rfl
  unfold migrateDevice at h
  split at h
  · next stored device hst =>
    cases hd : hashDeviceId H e.activePepper device with
    | error err =>
      rw [hd] at h
      cases h
    | ok y =>
      rw [hd] at h
      cases h
      exact hashDeviceId_test hd
  · exact hr x (Except.ok.inj h)

/-- **A minted record satisfies the constraints**, if its family and its binding do. -/
theorem checks_mint (e : NebulaEngine) (args : MintArgs) (d : Draw)
    (hf : familyIdTest args.familyId = true)
    (hd : ∀ x, args.deviceIdHash = some x → lowerHex64Test x = true) :
    CheckConstraints (mintRecord H e args d) := by
  obtain ⟨hkid, hlen⟩ := e.kid_wellFormed e.get_activeKid
  have hbytes : byteLength e.activeKid = e.activeKid.length :=
    byteLength_ascii fun c hc => (isB64urlChar_ascii (b64urlTest_mem hkid hc)).1
  have hpos := b64urlTest_length hkid
  refine ⟨statusText_mem _, selectorTest_draw d, ?_, ?_, hd, hf, ⟨⟨?_, ?_⟩, hkid⟩, ?_,
    min_le_right _ _, Or.inr ⟨rfl, rfl⟩, Or.inl ?_⟩
  · rintro q ⟨⟩
  · exact lowerHex64Test_digest _ (H.run_length _ _)
  · show 1 ≤ byteLength e.activeKid
    omega
  · show byteLength e.activeKid ≤ 64
    rw [hbytes]
    exact hlen
  · exact Int.natCast_nonneg _
  · rintro ⟨⟩

end Mint

/-! ### The writes -/

theorem CheckConstraints.asRevoked {r : TokenRecord} (h : CheckConstraints r) :
    CheckConstraints (asRevoked r) :=
  { h with
    status_ck := statusText_mem _
    active_shape_ck := Or.inl fun hs => by cases hs
    rotated_shape_ck := Or.inl fun hs => by cases hs }

theorem CheckConstraints.rotatedTo {r : TokenRecord} (h : CheckConstraints r) (t : ℤ) {q : Str}
    (hq : selectorTest q = true) : CheckConstraints (rotatedTo r t q) :=
  { h with
    status_ck := statusText_mem _
    replaced_by_ck := fun q' hq' => by
      rw [← Option.some.inj (hq' : some q = some q')]
      exact hq
    active_shape_ck := Or.inl fun hs => by cases hs
    rotated_shape_ck := Or.inr ⟨Option.some_ne_none t, Option.some_ne_none q⟩ }

section Runs

variable {σ Env : Type} {svc : StoreService σ Env} {H : HmacSha256} {s s' : PoolState σ}
  {l : PoolLabel Env} {G : PoolState σ → PoolLabel Env → Prop}

/-- The rows of the store, and those that calls have read. -/
structure SchemaKept (C : StoreContract svc) (s : PoolState σ) : Prop where
  row : ∀ sel r, C.look s.shared sel = some r → CheckConstraints r
  found : ∀ i sel r, s.Did i ⟨.findBySelector sel, some r⟩ → CheckConstraints r

/-- What a call inserts satisfies the constraints, since what it has read does. -/
theorem SchemaKept.insert {C : StoreContract svc} (hI : SchemaKept C s) {i : ℕ} {th : Call}
    {n : TokenRecord} (hi : s.threads[i]? = some th) (h : MayInsert H n th.op th.trace) :
    CheckConstraints n := by
  obtain ⟨op, tr, p, m⟩ := th
  cases h with
  | issue hn =>
    obtain ⟨hash, hb, rfl⟩ := hn
    exact checks_mint _ _ _ (familyIdTest_draw _) (bindDevice_test hb)
  | refresh ht hn =>
    obtain ⟨hash, hm, rfl⟩ := hn
    obtain ⟨sel, pepper, -, hmem⟩ := ht.found
    have hr := hI.found i sel _ (did_of_mem hi hmem)
    exact checks_mint _ _ _ hr.family_id_ck (migrateDevice_test hm hr.device_id_hash_ck)

theorem SchemaKept.step {C : StoreContract svc} (hr : ((engines H svc).under G).Reachable s)
    (hI : SchemaKept C s) (hs : Step (code H) svc s l s') : SchemaKept C s' := by
  refine ⟨fun sel r' hrow' => ?_, fun i sel r hd => ?_⟩
  · cases rowAfter C hs hrow' with
    | kept h0 => exact hI.row sel r' h0
    | inserted h0 hsel =>
      obtain ⟨th, k, hi, hc, -⟩ := callAt_answer hr hs
      exact hI.insert hi (insert_request hc)
    | @rotated i q f t row h0 hst he =>
      obtain ⟨th, k, hi, hc, -⟩ := callAt_answer hr hs
      generalize hop : th.op = op at hc
      generalize htr : th.trace = tr at hc
      cases mark_request hc with
      | refresh ht hn hsel hq =>
        obtain ⟨hash, -, rfl⟩ := hn
        rw [he]
        refine (hI.row sel row h0).rotatedTo t ?_
        rw [hq]
        exact selectorTest_draw _
    | cleared h0 hst he =>
      rw [he]
      exact (hI.row sel _ h0).asRevoked
    | bulk hl h0 hc he =>
      rw [he]
      exact (hI.row sel _ h0).asRevoked
  · rcases hs.did_iff.mp hd with hold | rfl
    · exact hI.found i sel r hold
    · obtain ⟨th, k, -, -, ha⟩ := callAt_answer hr hs
      exact hI.row sel r (C.find ha).1.symm

/-- **The schema is kept.** Over any store that keeps the contract, however the calls of any engines
interleave and whatever the environment collects, every row satisfies the CHECK constraints of the
published schema in every reachable state, and so after every store call. -/
theorem schema_kept (C : StoreContract svc) (h : ((engines H svc).under G).Reachable s) :
    ∀ sel r, C.look s.shared sel = some r → CheckConstraints r := by
  refine (h.invariant (I := SchemaKept C) ?_ fun s l s' hr hI hs => hI.step hr hs.2).row
  intro s hs
  rw [show s = ⟨svc.start, []⟩ from hs]
  refine ⟨fun sel r hrow => ?_, fun i sel r hd => ?_⟩
  · rw [C.start] at hrow
    cases hrow
  · obtain ⟨th, hi, -⟩ := hd
    cases hi

end Runs

theorem schema_kept_sample : ∃ r, forked.shared.get (sampleDraw 1).selectorText = some r ∧
    r.status = .rotated ∧ CheckConstraints r := by
  obtain ⟨r, hr, hst⟩ : ∃ r, forked.shared.get (sampleDraw 1).selectorText = some r ∧
      r.status = .rotated := ⟨_, rfl, rfl⟩
  exact ⟨r, hr, hst, schema_kept memoryStore forked_reachable
    (sampleDraw 1).selectorText r hr⟩

end NebulaToken.Safety.Schema
