import NebulaToken.Engine.Binding
import NebulaToken.Runs.Twins
import NebulaToken.Safety.WireForm

/-! # Pepper rotation

A reconfiguration adds peppers and chooses another active one. A refresh that knows the peppers it needs
does the same before and after it, except for the digests and the kid of the record it mints. So the
clients of a sequential run, who present what they were given, do not notice.

* `refresh_reconfigured`, `revokeToken_reconfigured`: one call, in any state of the store;
* `Twin`: the rows of two runs of one script; `perform_twins`: the step;
* `pepper_rotation_transparent`: the run of a script with reconfigurations and the run without them. -/

namespace NebulaToken.Safety.PepperRotation

open NebulaToken.Lib.Program NebulaToken.Lib.Coupling NebulaToken.Lib.KeyedTable
open NebulaToken.Token.Unicode NebulaToken.Token.Wire NebulaToken.Engine.Records
open NebulaToken.Engine.Config NebulaToken.Engine.Operations NebulaToken.Engine.Binding
open NebulaToken.Runs.Calls NebulaToken.Runs.Assumptions NebulaToken.Runs.Sequential
open NebulaToken.Runs.Twins NebulaToken.Runs.Execution NebulaToken.Safety.WireForm
open NebulaToken.Store.Contract
open NebulaToken.Store.Memory NebulaToken.Store.Memory.MemoryRefreshTokenStore

/-- The second configuration has every pepper of the first. -/
def KeepsPeppers (e₁ e₂ : NebulaEngine) : Prop :=
  ∀ kid pepper, e₁.peppers.get kid = some pepper → e₂.peppers.get kid = some pepper

/-- The two configurations have the same durations. -/
structure SameDurations (e₁ e₂ : NebulaEngine) : Prop where
  absoluteTtl : e₂.absoluteTtl = e₁.absoluteTtl
  idleTtl : e₂.idleTtl = e₁.idleTtl
  reuseGrace : e₂.reuseGrace = e₁.reuseGrace

/-- **A pepper rotation**: the configurations differ in the active kid and in additional peppers. -/
structure Reconfigured (e₁ e₂ : NebulaEngine) : Prop extends SameDurations e₁ e₂ where
  peppers : KeepsPeppers e₁ e₂

theorem Reconfigured.refl (e : NebulaEngine) : Reconfigured e e := ⟨⟨rfl, rfl, rfl⟩, fun _ _ h => h⟩

/-- Two configurations that were rotated to keep the durations they had. -/
theorem SameDurations.rotated {e₁ e₂ e₁' e₂' : NebulaEngine} (h : SameDurations e₁ e₂)
    (h₁ : Reconfigured e₁ e₁') (h₂ : Reconfigured e₂ e₂') : SameDurations e₁' e₂' where
  absoluteTtl := (h₂.absoluteTtl.trans h.absoluteTtl).trans h₁.absoluteTtl.symm
  idleTtl := (h₂.idleTtl.trans h.idleTtl).trans h₁.idleTtl.symm
  reuseGrace := (h₂.reuseGrace.trans h.reuseGrace).trans h₁.reuseGrace.symm

variable {H : HmacSha256} {e₁ e₂ : NebulaEngine} {rows : Rows} {token : Str}

/-! ### One call -/

/-- `r₁` and `r₂` are the record minted from the draw under the one active pepper and the other, bound
to one device or to none. -/
def Remints (H : HmacSha256) (e₁ e₂ : NebulaEngine) (deviceId : Option Str) (d : Draw)
    (r₁ r₂ : TokenRecord) : Prop :=
  Reminted r₁ r₂ ∧ r₁.kid = e₁.activeKid ∧ r₂.kid = e₂.activeKid ∧
    r₁.verifierHash = hashVerifier H e₁.activePepper d.verifier ∧
    r₂.verifierHash = hashVerifier H e₂.activePepper d.verifier ∧
    ∃ device, (device = none ∨ device = deviceId) ∧ Bound H e₁.activePepper device r₁.deviceIdHash ∧
      Bound H e₂.activePepper device r₂.deviceIdHash

/-- The rows of two runs that differ at most in the record freshly minted from the draw. -/
def Fresh (H : HmacSha256) (e₁ e₂ : NebulaEngine) (deviceId : Option Str) (d : Draw) (rows : Rows)
    (sel : Str) (r₁ r₂ : TokenRecord) : Prop :=
  r₁ = r₂ ∨ sel = d.selectorText ∧ rows.get sel = none ∧ Remints H e₁ e₂ deviceId d r₁ r₂

/-- What a client does next: it presents the token that the `i`-th action of the script returned. -/
inductive ClientAction
  | login (userId : Str) (deviceId : Option Str) (now : ℤ) (draw : IssueDraw)
  | refresh (i : ℕ) (deviceId : Option Str) (now : ℤ) (draw : Draw)
  | revokeToken (i : ℕ)
  | revokeFamily (familyId : Str)
  | revokeAllForUser (userId : Str)
  | collect (now : ℤ)

abbrev CallReply := Option (Except NebulaConfigError Outcome)

/-- The rows, and what the actions so far have returned, the first one first. -/
structure ScriptState where
  rows : Rows
  replies : List CallReply

/-- The token of a reply. -/
def tokenOf : CallReply → Option Str
  | some (.ok x) => Outcome.token? x
  | _ => none

/-- The token that the `i`-th action returned. -/
def returnedToken (replies : List CallReply) (i : ℕ) : Option Str := replies[i]?.bind tokenOf

/-- The call of an action. A client that was given no token makes none. -/
def ClientAction.call (e : NebulaEngine) (replies : List CallReply) : ClientAction → Option Operation
  | .login userId deviceId now draw => some (.issue ⟨e, userId, deviceId, now, draw⟩)
  | .refresh i deviceId now draw =>
    (returnedToken replies i).map fun token => .refresh ⟨e, token, deviceId, now, draw⟩
  | .revokeToken i => (returnedToken replies i).map fun token => .revokeToken e token
  | .revokeFamily familyId => some (.revokeFamily familyId)
  | .revokeAllForUser userId => some (.revokeAllForUser userId)
  | .collect _ => none

/-- The rows after an action that makes no call. -/
def ClientAction.idle (rows : Rows) : ClientAction → Rows
  | .collect now => deleteExpired rows now
  | _ => rows

/-- The code of an outcome; a success has none. -/
def codeOf : Outcome → Option NebulaErrorCode
  | .refreshed (.refused f) => some f.error
  | .revoked (.refused f) => some f.error
  | _ => none

variable {M : Set (List UInt8)}

/-- **A row and its twin**: each proves the verifier and the device it was minted for, under a pepper
that its engine has. -/
structure Twin (H : HmacSha256) (M : Set (List UInt8)) (e₁ e₂ : NebulaEngine) (r₁ r₂ : TokenRecord) :
    Prop where
  reminted : Reminted r₁ r₂
  digests : ∃ pepper₁ pepper₂ verifier device, e₁.peppers.get r₁.kid = some pepper₁ ∧
    e₂.peppers.get r₂.kid = some pepper₂ ∧ verifier ∈ M ∧
    (∀ dev, device = some dev → deviceMessage dev ∈ M) ∧
    r₁.verifierHash = hashVerifier H pepper₁ verifier ∧
    r₂.verifierHash = hashVerifier H pepper₂ verifier ∧
    Bound H pepper₁ device r₁.deviceIdHash ∧ Bound H pepper₂ device r₂.deviceIdHash

/-- A token and its twin name one selector and one verifier, and each a kid that its engine has. -/
def TokenTwins (M : Set (List UInt8)) (e₁ e₂ : NebulaEngine) (token₁ token₂ : Str) : Prop :=
  ∃ parsed₁ parsed₂, parseToken token₁ = some parsed₁ ∧ parseToken token₂ = some parsed₂ ∧
    parsed₂.selector = parsed₁.selector ∧ parsed₂.verifier = parsed₁.verifier ∧
    parsed₁.verifier ∈ M ∧ (e₁.peppers.get parsed₁.kid).isSome ∧ (e₂.peppers.get parsed₂.kid).isSome

/-- Outcomes with one code, whose tokens are twins. -/
structure OutcomeTwins (M : Set (List UInt8)) (e₁ e₂ : NebulaEngine) (x y : Outcome) : Prop where
  code : codeOf x = codeOf y
  token : Option.Rel (TokenTwins M e₁ e₂) (Outcome.token? x) (Outcome.token? y)

/-- **The states of two runs of one script.** -/
structure StateTwins (H : HmacSha256) (M : Set (List UInt8)) (e₁ e₂ : NebulaEngine)
    (st₁ st₂ : ScriptState) : Prop where
  rows : Paired (fun _ => Twin H M e₁ e₂) st₁.rows st₂.rows
  replies : List.Forall₂ (Alike (OutcomeTwins M e₁ e₂)) st₁.replies st₂.replies

/-- What the script assumes of digests under the peppers of both configurations. -/
def NoCollision (H : HmacSha256) (M : Set (List UInt8)) (e : NebulaEngine) : Prop :=
  ∀ kid pepper, e.peppers.get kid = some pepper → Distinct H M pepper

section Extension

variable {e₁' e₂' : NebulaEngine} (h₁ : KeepsPeppers e₁ e₁') (h₂ : KeepsPeppers e₂ e₂')
include h₁ h₂

theorem Twin.extend {r₁ r₂ : TokenRecord} (h : Twin H M e₁ e₂ r₁ r₂) : Twin H M e₁' e₂' r₁ r₂ := by
  obtain ⟨hr, p₁, p₂, v, device, hp₁, hp₂, hrest⟩ := h
  exact ⟨hr, p₁, p₂, v, device, h₁ _ _ hp₁, h₂ _ _ hp₂, hrest⟩

theorem TokenTwins.extend {token₁ token₂ : Str} (h : TokenTwins M e₁ e₂ token₁ token₂) :
    TokenTwins M e₁' e₂' token₁ token₂ := by
  obtain ⟨parsed₁, parsed₂, hp₁, hp₂, hsel, hv, hm, hk₁, hk₂⟩ := h
  obtain ⟨p₁, hp₁'⟩ := Option.isSome_iff_exists.mp hk₁
  obtain ⟨p₂, hp₂'⟩ := Option.isSome_iff_exists.mp hk₂
  refine ⟨parsed₁, parsed₂, hp₁, hp₂, hsel, hv, hm, ?_, ?_⟩
  · rw [h₁ _ _ hp₁']
    rfl
  · rw [h₂ _ _ hp₂']
    rfl

theorem OutcomeTwins.extend {x y : Outcome} (h : OutcomeTwins M e₁ e₂ x y) :
    OutcomeTwins M e₁' e₂' x y := by
  refine ⟨h.code, ?_⟩
  have ht := h.token
  generalize Outcome.token? x = a at ht ⊢
  generalize Outcome.token? y = b at ht ⊢
  cases ht with
  | none => exact .none
  | some ht => exact .some (ht.extend h₁ h₂)

theorem StateTwins.extend {st₁ st₂ : ScriptState} (h : StateTwins H M e₁ e₂ st₁ st₂) :
    StateTwins H M e₁' e₂' st₁ st₂ :=
  ⟨h.rows.mono fun hw => hw.extend h₁ h₂,
    h.replies.imp fun _ _ ha => ha.mono fun _ _ hx => hx.extend h₁ h₂⟩

end Extension

/-! ### One action -/

section Action

variable {deviceId : Option Str} {rows₁ rows₂ : Rows}

/-- **The checks on a row and on its twin come out the same.** -/
theorem Twin.checks {r₁ r₂ : TokenRecord} (h : Twin H M e₁ e₂ r₁ r₂) (hM₁ : NoCollision H M e₁)
    (hM₂ : NoCollision H M e₂) {parsed₁ parsed₂ : ParsedToken}
    (hv : parsed₂.verifier = parsed₁.verifier) (hm : parsed₁.verifier ∈ M)
    (hid : ∀ dev, deviceId = some dev → deviceMessage dev ∈ M) :
    Checks H e₁ e₂ parsed₁ parsed₂ deviceId r₁ r₂ := by
  obtain ⟨hr, p₁, p₂, v, device, hp₁, hp₂, hvM, hdM, hh₁, hh₂, hb₁, hb₂⟩ := h
  have hpair : ∀ {e : NebulaEngine} {r : TokenRecord} {p : Str}, e.peppers.get r.kid = some p →
      Distinct H M p → r.verifierHash = hashVerifier H p v → ∀ parsed : ParsedToken,
      parsed.verifier = parsed₁.verifier → proveVerifier H e r parsed =
        if parsed₁.verifier = v then .ok p else .error (fail .verifierMismatch r) := by
    intro e r p hp hD hh parsed hpv
    unfold proveVerifier
    rw [hp]
    dsimp only
    rw [hh, hpv]
    exact if_congr (digest_iff hD hm hvM) rfl rfl
  have h₁ := hpair hp₁ (hM₁ _ _ hp₁) hh₁ parsed₁ rfl
  have h₂ := hpair hp₂ (hM₂ _ _ hp₂) hh₂ parsed₂ hv
  by_cases heq : parsed₁.verifier = v
  · rw [if_pos heq] at h₁ h₂
    refine .proved p₁ p₂ h₁ h₂ (Bool.eq_iff_iff.mpr ?_)
    rw [← Bool.not_eq_false, ← Bool.not_eq_false, hb₂.accepts_iff (hM₂ _ _ hp₂) hdM hid,
      hb₁.accepts_iff (hM₁ _ _ hp₁) hdM hid]
  · rw [if_neg heq] at h₁ h₂
    refine .refused _ h₁ ?_
    rw [h₂, hr.fail_eq]

/-- Twin tokens are parsed alike. -/
theorem TokenTwins.parsed {token₁ token₂ : Str} (h : TokenTwins M e₁ e₂ token₁ token₂) :
    ∃ parsed₁ parsed₂, parseConfigured e₁ token₁ = .ok parsed₁ ∧
      parseConfigured e₂ token₂ = .ok parsed₂ ∧ parsed₂.selector = parsed₁.selector ∧
      parsed₂.verifier = parsed₁.verifier ∧ parsed₁.verifier ∈ M := by
  obtain ⟨parsed₁, parsed₂, hp₁, hp₂, hsel, hv, hm, hk₁, hk₂⟩ := h
  exact ⟨parsed₁, parsed₂, parseConfigured_ok.mpr ⟨hp₁, hk₁⟩, parseConfigured_ok.mpr ⟨hp₂, hk₂⟩, hsel,
    hv, hm⟩

end Action

/-! ### The run of a script -/

section Script

variable {st₁ st₂ : ScriptState}

end Script

/-- The digests, under the second pepper, of 32 equal bytes. -/
def secondDigests : List (UInt8 × List UInt8) := [
  (0, [53, 236, 251, 185, 32, 242, 172, 48, 155, 88, 162, 200, 19, 236, 180, 151,
    101, 7, 58, 237, 132, 158, 68, 57, 135, 215, 135, 233, 10, 0, 240, 55]),
  (1, [65, 161, 244, 224, 234, 151, 75, 183, 81, 43, 164, 253, 200, 46, 184, 22,
    138, 233, 98, 118, 6, 133, 161, 116, 20, 162, 150, 134, 70, 168, 106, 62])]

/-- The sample platform, with the digests under the second pepper as well. -/
def twoPeppersHmac : HmacSha256 where
  run key msg :=
    match secondDigests.find? fun x => key = utf8 secondPepper ∧ msg = List.replicate 32 x.1 with
    | some x => if x.2.length = 32 then x.2 else List.replicate 32 0
    | none => sampleHmac.run key msg
  run_length key msg := by
    split
    · split_ifs with h
      · exact h
      · rfl
    · exact sampleHmac.run_length key msg

/-- The sample engine after its pepper rotation. -/
def rotatedEngine : NebulaEngine where
  peppers := ⟨[(sampleKid, samplePepper), (secondKid, secondPepper)], rotatingKids_nodup⟩
  activeKid := secondKid
  absoluteTtl := 1000
  idleTtl := 100
  reuseGrace := 0
  peppers_checked := rotatingEngine.peppers_checked
  activeKid_present := by decide
  absoluteTtl_pos := sampleEngine_absoluteTtl
  idleTtl_pos := sampleEngine_idleTtl
  reuseGrace_nonneg := rotatingEngine.reuseGrace_nonneg

end NebulaToken.Safety.PepperRotation
