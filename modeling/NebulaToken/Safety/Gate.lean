import NebulaToken.Runs.Sequential
import NebulaToken.Safety.WireForm

/-! # The authentication gate

A token whose verifier does not prove the record it names gets the same refusal from `refresh` and from
`revokeToken`, and neither of them writes. A token that does is past the gate of both: `revokeToken`
revokes, and `refresh` refuses only with the user and the family of the record.

* `gate`: both sides of the gate, in every state of the store. -/

namespace NebulaToken.Safety.Gate

open NebulaToken.Lib.Program NebulaToken.Lib.Solo NebulaToken.Token.Unicode NebulaToken.Token.Wire
open NebulaToken.Engine.Records NebulaToken.Engine.Config NebulaToken.Engine.Operations
open NebulaToken.Runs.Calls NebulaToken.Runs.Sequential NebulaToken.Safety.WireForm
open NebulaToken.Store.Memory NebulaToken.Store.Memory.MemoryRefreshTokenStore

/-- The digest of the token's verifier under the pepper of the record it names is that of the record. -/
def Authentic (H : HmacSha256) (e : NebulaEngine) (rows : Rows) (token : Str) (r : TokenRecord) : Prop :=
  ∃ parsed pepper, parseToken token = some parsed ∧ (e.peppers.get parsed.kid).isSome ∧
    rows.get parsed.selector = some r ∧ e.peppers.get r.kid = some pepper ∧
    hashVerifier H pepper parsed.verifier = r.verifierHash

/-- The codes of steps 1 to 4. -/
def gateCodes : List NebulaErrorCode := [.malformed, .unknownKid, .notFound, .verifierMismatch]

/-- Of the refusals of the gate, that of a verifier names the record's user and family, and the others
name none. -/
def Attributed (rows : Rows) (token : Str) (f : RefreshFailure) : Prop :=
  if f.error = .verifierMismatch then
    ∃ parsed r, parseToken token = some parsed ∧ rows.get parsed.selector = some r ∧
      f.userId = some r.userId ∧ f.familyId = some r.familyId
  else f.userId = none ∧ f.familyId = none

variable {H : HmacSha256} {e : NebulaEngine} {rows : Rows} {token : Str} {r : TokenRecord}

/-- The comparison with a stored digest, corrupted or not, is equality. -/
theorem constantTimeEqualHex_iff {pepper b : Str} {v : List UInt8} :
    constantTimeEqualHex (hashVerifier H pepper v) b = true ↔ hashVerifier H pepper v = b := by
  constructor
  · exact eq_of_constantTimeEqualHex
  · rintro rfl
    exact constantTimeEqualHex_hashVerifier H pepper v

theorem authentic_iff : Authentic H e rows token r ↔ Passes H e rows token r := by
  constructor
  · rintro ⟨parsed, pepper, hp, hk, hr, hpep, hv⟩
    exact ⟨parsed, pepper, parseConfigured_ok.mpr ⟨hp, hk⟩, hr,
      proveVerifier_ok.mpr ⟨hpep, constantTimeEqualHex_iff.mpr hv⟩⟩
  · rintro ⟨parsed, pepper, hp, hr, hv⟩
    obtain ⟨hparse, hk⟩ := parseConfigured_ok.mp hp
    obtain ⟨hpep, hv⟩ := proveVerifier_ok.mp hv
    exact ⟨parsed, pepper, hparse, hk, hr, hpep, constantTimeEqualHex_iff.mp hv⟩

/-! ### Before the gate -/

/-- **A token that does not pass gets one refusal**, and nothing is written. -/
theorem refusal_of_not_passes (h : ∀ r, ¬ Passes H e rows token r) :
    ∃ f, f.error ∈ gateCodes ∧ Attributed rows token f ∧
      run (revokeToken H e token) rows = (some (.ok (.refused f)), rows) ∧
      ∀ deviceId now d, run (refresh H e token deviceId now d) rows =
        (some (.ok (.refused f)), rows) := by
  cases hp : parseConfigured e token with
  | error err =>
    have herr := parseConfigured_error hp
    refine ⟨.unresolved err, ?_, ?_, ?_, fun deviceId now d => ?_⟩
    · rcases herr with rfl | rfl <;> simp [gateCodes, RefreshFailure.unresolved]
    · rcases herr with rfl | rfl <;> exact ⟨rfl, rfl⟩
    · unfold revokeToken
      rw [hp]
      rfl
    · unfold refresh
      rw [hp]
      rfl
  | ok parsed =>
    have hparse := (parseConfigured_ok.mp hp).1
    cases hr : rows.get parsed.selector with
    | none =>
      refine ⟨.unresolved .notFound, by simp [gateCodes, RefreshFailure.unresolved], ⟨rfl, rfl⟩, ?_,
        fun deviceId now d => ?_⟩
      · rw [revokeToken_parsed hp, hr]
        rfl
      · rw [refresh_parsed hp, hr]
        rfl
    | some r =>
      cases hv : proveVerifier H e r parsed with
      | ok pepper => exact absurd ⟨parsed, pepper, hp, hr, hv⟩ (h r)
      | error f =>
        have hf := proveVerifier_error hv
        refine ⟨f, ?_, ?_, ?_, fun deviceId now d => ?_⟩
        · rcases hf with rfl | rfl <;> simp [gateCodes, RefreshFailure.unresolved, fail]
        · rcases hf with rfl | rfl
          · exact ⟨rfl, rfl⟩
          · exact ⟨parsed, r, hparse, hr, rfl, rfl⟩
        · rw [revokeToken_parsed hp, hr, revokeFound, hv]
          rfl
        · rw [refresh_parsed hp, hr, refreshFound, hv]
          rfl

/-! ### Past the gate -/

/-- A refusal with another code, that names the record's user and family. -/
def RefusedPast (r : TokenRecord) (res : RefreshResult) : Prop :=
  ∀ f, res = .refused f →
    f.error ∉ gateCodes ∧ f.userId = some r.userId ∧ f.familyId = some r.familyId

theorem refusedPast_fail {code : NebulaErrorCode} (h : code ∉ gateCodes) :
    RefusedPast r (.refused (fail code r)) := by
  rintro f hf
  obtain rfl := RefreshResult.refused.inj hf
  exact ⟨h, rfl, rfl⟩

theorem refusedPast_ok (x : RefreshSuccess) : RefusedPast r (.ok x) := fun f hf => by cases hf

theorem burn_past {code : NebulaErrorCode} (h : code ∉ gateCodes) :
    (burn code r).Returns (RefusedPast r) := fun _ => refusedPast_fail h

theorem rotate_past (deviceId : Option Str) (now : ℤ) (f : TokenStatus) (t : ℤ) (d : Draw) :
    (rotate H e r deviceId now f t d).Returns (RefusedPast r) := by
  unfold rotate
  cases migrateDevice H e r deviceId with
  | error err => trivial
  | ok hash =>
    intro _ applied
    cases applied with
    | true => exact refusedPast_ok _
    | false => exact fun _ => refusedPast_fail (by decide)

theorem displace_past (pepper : Str) (deviceId : Option Str) (now t : ℤ) (d : Draw)
    (found : Option TokenRecord) :
    (displace H e r pepper deviceId now t d found).Returns (RefusedPast r) := by
  unfold displace
  split
  · exact burn_past (by decide)
  · split_ifs
    · exact burn_past (by decide)
    · intro consumed
      cases consumed with
      | true => exact rotate_past deviceId now _ t d
      | false => exact refusedPast_fail (by decide)

/-- **A refusal past the gate** has another code, and names the record's user and family. -/
theorem refreshProved_past (pepper : Str) (deviceId : Option Str) (now : ℤ) (d : Draw) :
    (refreshProved H e r pepper deviceId now d).Returns (RefusedPast r) := by
  unfold refreshProved
  split
  · unfold handleReuse
    split
    · exact burn_past (by decide)
    · exact fun found => displace_past pepper deviceId now _ d found
  · exact refusedPast_fail (by decide)
  · split_ifs
    · exact burn_past (by decide)
    · exact burn_past (by decide)
    · exact burn_past (by decide)
    · exact rotate_past deviceId now _ now d

/-- **The authentication gate.** In every state of the store, for every configuration, token and
device: a token whose verifier proves its record makes `revokeToken` succeed, whatever the status of the
record, with the rows that `revokeFamily` leaves, and goes on with step 5 in `refresh`, whose refusals
then have other codes and name the user and the family of the record. Any other token gets one and the
same refusal of the gate from both, with those of the record if its verifier was wrong and with none
else, and the store is as it was. -/
theorem gate (H : HmacSha256) (e : NebulaEngine) (rows : Rows) (token : Str) :
    (∀ r, Authentic H e rows token r →
      (∃ n, run (revokeToken H e token) rows =
        (some (.ok (.ok r.userId r.familyId n)), (revokeFamily rows r.familyId).2)) ∧
      ∃ pepper, ∀ deviceId now d,
        run (refresh H e token deviceId now d) rows =
          run (refreshProved H e r pepper deviceId now d) rows ∧
        ∀ f, (run (refresh H e token deviceId now d) rows).1 = some (.ok (.refused f)) →
          f.error ∉ gateCodes ∧ f.userId = some r.userId ∧ f.familyId = some r.familyId) ∧
    ((∀ r, ¬ Authentic H e rows token r) →
      ∃ f, f.error ∈ gateCodes ∧ Attributed rows token f ∧
        run (revokeToken H e token) rows = (some (.ok (.refused f)), rows) ∧
        ∀ deviceId now d,
          run (refresh H e token deviceId now d) rows = (some (.ok (.refused f)), rows)) := by
  refine ⟨fun r h => ?_, fun h => ?_⟩
  · have hp := authentic_iff.mp h
    obtain ⟨pepper, hrun⟩ := refresh_of_passes hp
    refine ⟨⟨_, revokeToken_of_passes hp⟩, pepper, fun deviceId now d => ⟨hrun deviceId now d, fun f hf => ?_⟩⟩
    rw [hrun] at hf
    exact (refreshProved_past pepper deviceId now d).eval hf f rfl
  · exact refusal_of_not_passes fun r hp => h r (authentic_iff.mpr hp)

end NebulaToken.Safety.Gate
