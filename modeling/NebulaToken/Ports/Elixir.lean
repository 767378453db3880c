import NebulaToken.Ports.Bytes

/-! # The Elixir port

Its engine resolves the record first, as `revoke_token` does too, and then looks at its state; its
base64 decoder drops bits that are left over. A string is a binary, which need not be valid UTF-8. The
store answers `{:ok, _}`; on anything else the engine raises.

* `parseToken_eq`, `issue_eq`, `refresh_eq`, `revokeToken_eq`: it does what the engine does. -/

namespace NebulaToken.Ports.Elixir

open NebulaToken.Lib.Program NebulaToken.Lib.Codec NebulaToken.Lib.KeyedTable
open NebulaToken.Token.Unicode NebulaToken.Token.Utf8 NebulaToken.Token.Wire
open NebulaToken.Engine.Records NebulaToken.Engine.Config NebulaToken.Ports.Bytes
open NebulaToken.Engine.Operations (Draw IssueDraw)

/-! ### The primitives -/

/-- `b64url?`. -/
def isB64url : Bytes → Bool
  | [] => true
  | c :: rest => if isB64urlByte c then isB64url rest else false

/-- `Base.url_decode64(s, padding: false)`: one character too many is an error. -/
def urlDecode64 (s : Bytes) : Option (List UInt8) :=
  if ¬ s.all isB64urlByte ∨ s.length % 4 = 1 then none else some (base64urlDecode (ofAscii s))

/-- `Base.url_encode64(b, padding: false)`. -/
def urlEncode64 (b : List UInt8) : Bytes := utf8 (base64urlEncode b)

/-- The body of `parse_parts`. -/
def decodeParts (kid selector verifierB64 : Bytes) : Option ParsedToken :=
  if ¬ isB64url kid then none
  else if ¬ isB64url selector then none
  else if ¬ isB64url verifierB64 then none
  else do
    let verifier ← urlDecode64 verifierB64
    if verifier.length ≠ verifierBytes then none
    else if urlEncode64 verifier ≠ verifierB64 then none
    else some { kid := ofAscii kid, selector := ofAscii selector, verifier }

/-- `parse_parts`. -/
def parseParts : List Bytes → Option ParsedToken
  | [pre, kid, selector, verifierB64] =>
    if pre = nblBytes ∧ 1 ≤ kid.length ∧ kid.length ≤ maxKidLength ∧
        selector.length = selectorChars ∧ verifierB64.length = verifierChars then
      decodeParts kid selector verifierB64
    else none
  | _ => none

/-- `parse_token`. -/
def parseToken (token : Bytes) : Option ParsedToken :=
  if token.length > maxTokenLength then none else parseParts (token.splitOn dotByte)

variable (H : HmacSha256) (e : NebulaEngine)

/-- `hash_verifier`. -/
def hashVerifier (pepper : Str) (verifier : List UInt8) : Str :=
  hexEncode (H.run (utf8 pepper) verifier)

/-- `hash_device_id`; it raises for a binary that is not valid UTF-8. -/
def hashDeviceId (pepper : Str) (deviceId : Bytes) : Except NebulaConfigError Str :=
  if validUtf8 deviceId then .ok (hexEncode (H.run (utf8 pepper) (deviceBytes ++ deviceId)))
  else .error .deviceIdUnicode

/-- `constant_time_equal_hex`. -/
def constantTimeEqualHex (aHex bHex : Str) : Bool :=
  lowerHex64 (utf8 aHex) && lowerHex64 (utf8 bHex) && utf8 aHex == utf8 bHex

/-! ### Steps 1 to 4 -/

/-- `parse`. -/
def parse (token : Bytes) : Except RefreshFailure ParsedToken :=
  match parseToken token with
  | some parsed => .ok parsed
  | none => .error (.unresolved .malformed)

/-- `known_kid`. -/
def knownKid (kid : Str) : Except RefreshFailure Unit :=
  if (e.peppers.get kid).isSome then .ok () else .error (.unresolved .unknownKid)

/-- `lookup`. -/
def lookup (selector : Str) : StoreM (Except RefreshFailure TokenRecord) := do
  let found ← store (.findBySelector selector)
  return match found with
    | none => .error (.unresolved .notFound)
    | some record => .ok record

/-- `record_pepper`. -/
def recordPepper (record : TokenRecord) : Except RefreshFailure Str :=
  match e.peppers.get record.kid with
  | some pepper => .ok pepper
  | none => .error (.unresolved .unknownKid)

/-- `prove_verifier`. -/
def proveVerifier (pepper : Str) (verifier : List UInt8) (record : TokenRecord) :
    Except RefreshFailure Unit :=
  let presented := hashVerifier H pepper verifier
  if constantTimeEqualHex presented record.verifierHash then .ok ()
  else .error (fail .verifierMismatch record)

/-- The part of `resolve` that follows the lookup. -/
def prove (parsed : ParsedToken) (record : TokenRecord) : Except RefreshFailure (TokenRecord × Str) := do
  let pepper ← recordPepper e record
  proveVerifier H pepper parsed.verifier record
  return (record, pepper)

/-- `resolve`. -/
def resolve (token : Bytes) : StoreM (Except RefreshFailure (TokenRecord × Str)) :=
  match parse token with
  | .error failure => return .error failure
  | .ok parsed =>
    match knownKid e parsed.kid with
    | .error failure => return .error failure
    | .ok _ => do
      let found ← lookup parsed.selector
      return found.bind (prove H e parsed)

/-! ### Steps 5 to 10 -/

/-- `failure`. -/
def failure (code : NebulaErrorCode) (record : TokenRecord) : RefreshResult :=
  .refused (fail code record)

/-- `device_matches?`. -/
def deviceMatches (record : TokenRecord) (pepper : Str) (deviceId : Option Bytes) : Bool :=
  match record.deviceIdHash, deviceId with
  | none, _ => false
  | _, none => false
  | some stored, some dev =>
    validUtf8 dev &&
      match hashDeviceId H pepper dev with
      | .ok hash => constantTimeEqualHex hash stored
      -- not reached: the identifier is valid
      | .error _ => false

/-- `rotation_device_hash`. -/
def rotationDeviceHash (record : TokenRecord) (deviceId : Option Bytes) :
    Except NebulaConfigError (Option Str) :=
  match record.deviceIdHash, deviceId with
  | some _, some dev => (hashDeviceId H e.activePepper dev).map some
  | stored, _ => .ok stored

/-- `rotate`. -/
def rotate (record : TokenRecord) (deviceId : Option Bytes) (now : ℤ) (fromStatus : TokenStatus)
    (rotatedAt : ℤ) (d : Draw) : StoreM RefreshResult := do
  let deviceIdHash ← Prog.ofExcept (rotationDeviceHash H e record deviceId)
  let (token, successor) := mint H e record.userId record.familyId (record.generation + 1)
    deviceIdHash record.familyExpiresAt now d
  store (.insert successor)
  let applied ← store (.markRotated record.selector fromStatus rotatedAt successor.selector)
  if applied then
    return .ok {
      token
      userId := record.userId
      familyId := record.familyId
      generation := successor.generation
      expiresAt := successor.familyExpiresAt
      idleExpiresAt := successor.idleExpiresAt }
  else do
    let _ ← store (.revokeIfActive successor.selector)
    return failure .conflict record

/-- `grace_window_open?`. -/
def graceWindowOpen (record : TokenRecord) (now : ℤ) : Bool := windowOpen e record now

/-- `reuse_detected`. -/
def reuseDetected (record : TokenRecord) : StoreM RefreshResult := do
  let _ ← store (.revokeFamily record.familyId)
  return failure .reuseDetected record

/-- `grace_retry` with what its lookup found. -/
def graceFound (record : TokenRecord) (pepper : Str) (deviceId : Option Bytes) (now : ℤ) (d : Draw) :
    Option TokenRecord → StoreM RefreshResult
  | some successor =>
    if successor.status = .active then
      if record.deviceIdHash.isSome && !deviceMatches H record pepper deviceId then do
        let _ ← store (.revokeFamily record.familyId)
        return failure .deviceMismatch record
      else do
        let consumed ← store (.revokeIfActive successor.selector)
        if ¬ consumed then return failure .conflict record
        -- the window is open, so the time of the rotation is there
        else rotate H e record deviceId now .rotated (record.rotatedAt.getD now) d
    else reuseDetected record
  | none => reuseDetected record

/-- `grace_retry`. The window is open, so the selector of the successor is there. -/
def graceRetry (record : TokenRecord) (pepper : Str) (deviceId : Option Bytes) (now : ℤ) (d : Draw) :
    StoreM RefreshResult := do
  let found ← store (.findBySelector (record.replacedBySelector.getD []))
  graceFound H e record pepper deviceId now d found

/-- `handle_reuse`. -/
def handleReuse (record : TokenRecord) (pepper : Str) (deviceId : Option Bytes) (now : ℤ) (d : Draw) :
    StoreM RefreshResult :=
  if graceWindowOpen e record now then graceRetry H e record pepper deviceId now d
  else reuseDetected record

/-- `check_state`. -/
def checkState (record : TokenRecord) (pepper : Str) (deviceId : Option Bytes) (now : ℤ) (d : Draw) :
    StoreM RefreshResult :=
  if record.status = .rotated then handleReuse H e record pepper deviceId now d
  else if record.status = .revoked then return failure .revoked record
  else if now ≥ record.familyExpiresAt then do
    let _ ← store (.revokeFamily record.familyId)
    return failure .expiredAbsolute record
  else if now ≥ record.idleExpiresAt then do
    let _ ← store (.revokeFamily record.familyId)
    return failure .expiredIdle record
  else if record.deviceIdHash.isSome && !deviceMatches H record pepper deviceId then do
    let _ ← store (.revokeFamily record.familyId)
    return failure .deviceMismatch record
  else rotate H e record deviceId now .active now d

/-- `refresh` with what `resolve` made of the token. -/
def refreshResolved (deviceId : Option Bytes) (now : ℤ) (d : Draw) :
    Except RefreshFailure (TokenRecord × Str) → StoreM RefreshResult
  | .ok (record, pepper) => checkState H e record pepper deviceId now d
  | .error failure => return .refused failure

/-- `refresh`. -/
def refresh (token : Bytes) (deviceId : Option Bytes) (now : ℤ) (d : Draw) : StoreM RefreshResult := do
  let resolved ← resolve H e token
  refreshResolved H e deviceId now d resolved

/-- `revoke_token` with what `resolve` made of the token. -/
def revokeResolved : Except RefreshFailure (TokenRecord × Str) → StoreM RevokeResult
  | .ok (record, _) => do
    let revoked ← store (.revokeFamily record.familyId)
    return .ok record.userId record.familyId revoked
  | .error failure => return .refused failure

/-- `revoke_token`. -/
def revokeToken (token : Bytes) : StoreM RevokeResult := do
  let resolved ← resolve H e token
  revokeResolved resolved

/-- `issue_device_hash`. -/
def issueDeviceHash : Option Bytes → Except NebulaConfigError (Option Str)
  | none => .ok none
  | some dev =>
    if ¬ validUtf8 dev then .error .deviceIdUnicode else (hashDeviceId H e.activePepper dev).map some

/-- `issue`. -/
def issue (userId : Str) (deviceId : Option Bytes) (now : ℤ) (d : IssueDraw) : StoreM IssueResult := do
  let deviceIdHash ← Prog.ofExcept (issueDeviceHash H e deviceId)
  let familyId := hexEncode d.family
  let familyExpiresAt := now + e.absoluteTtl
  let (token, record) := mint H e userId familyId 0 deviceIdHash familyExpiresAt now d.toDraw
  store (.insert record)
  return { token, userId, familyId, generation := 0, expiresAt := familyExpiresAt,
           idleExpiresAt := record.idleExpiresAt }

/-! ### Agreement -/

theorem isB64url_eq (s : Bytes) : isB64url s = s.all isB64urlByte := by
  induction s with
  | nil => rfl
  | cons c s ih =>
    rw [isB64url, List.all_cons, ih]
    cases isB64urlByte c <;> rfl

theorem parseParts_iff {l : List Bytes} {p : ParsedToken} :
    parseParts l = some p ↔ ∃ a b c d, l = [a, b, c, d] ∧ PartsOf a b c d p := by
  constructor
  · intro h
    unfold parseParts at h
    split at h
    · next a b c d =>
      rw [Option.ite_none_right_eq_some] at h
      obtain ⟨⟨hpre, hk, hkl, hs, -⟩, h⟩ := h
      unfold decodeParts at h
      simp only [Option.ite_none_left_eq_some, isB64url_eq, not_not] at h
      obtain ⟨hkt, hst, -, h⟩ := h
      obtain ⟨v, -, h⟩ := Option.bind_eq_some_iff.mp h
      simp only [Option.ite_none_left_eq_some] at h
      obtain ⟨hvlen, hcanon, h⟩ := h
      refine ⟨a, b, c, d, rfl, partsOf_iff.mpr ⟨v, ?_, (Option.some.inj h).symm⟩⟩
      exact ⟨hpre, hk, hkl, hkt, hs, hst, not_not.mp hcanon, not_not.mp hvlen⟩
    · cases h
  · rintro ⟨a, b, c, d, rfl, h⟩
    have hd := h.verifier_checks
    obtain ⟨v, hc, rfl⟩ := partsOf_iff.mp h
    have hdec : urlDecode64 d = some v := by
      have hlen : ¬ d.length % 4 = 1 := by
        rw [hd.1]
        decide
      rw [urlDecode64, if_neg (not_or.mpr ⟨not_not.mpr hd.2, hlen⟩), ← hc.canonical, ofAscii_utf8,
        base64urlDecode_encode]
      exact ascii_of_utf8 (hc.canonical ▸ ascii_of_all hd.2)
    unfold parseParts
    dsimp only
    rw [if_pos ⟨hc.pre, hc.kid_pos, hc.kid_length, hc.selector_length, hd.1⟩, decodeParts, isB64url_eq,
      isB64url_eq, isB64url_eq, if_neg (not_not.mpr hc.kid_test), if_neg (not_not.mpr hc.selector_test),
      if_neg (not_not.mpr hd.2), hdec]
    show (if _ then none else if _ then none else some _) = some _
    rw [if_neg (not_not.mpr hc.verifier_length), urlEncode64, if_neg (not_not.mpr hc.canonical)]

/-- **The parsers agree.** -/
theorem parseToken_eq (token : Str) : parseToken (utf8 token) = Token.Wire.parseToken token := by
  refine parse_agrees (fun b p => ?_) token
  rw [parseToken, Option.ite_none_left_eq_some, Nat.not_lt, parseParts_iff]

section Engine

variable {H : HmacSha256} {e : NebulaEngine}

theorem hashDeviceId_valid {dev : Bytes} (h : validUtf8 dev = true) (pepper : Str) :
    hashDeviceId H pepper dev = .ok (deviceHash H pepper dev) := if_pos h

theorem deviceRefused_eq {deviceId : Option Str} (hd : Unicode deviceId) (record : TokenRecord)
    (pepper : Str) : (record.deviceIdHash.isSome && !deviceMatches H record pepper (deviceId.map utf8)) =
      Engine.Operations.deviceRefused H record pepper deviceId := by
  unfold Engine.Operations.deviceRefused
  rw [deviceMatches_bytes hd]
  unfold deviceMatches
  cases deviceId with
  | none => cases record.deviceIdHash <;> rfl
  | some dev =>
    cases record.deviceIdHash with
    | none => rfl
    | some stored =>
      dsimp only [Option.map_some]
      rw [hashDeviceId_valid (validUtf8_utf8 dev), validUtf8_utf8]
      rfl

theorem rotate_eq {deviceId : Option Str} (hd : Unicode deviceId) (record : TokenRecord) (now : ℤ)
    (f : TokenStatus) (t : ℤ) (d : Draw) : rotate H e record (deviceId.map utf8) now f t d =
      Engine.Operations.rotate H e record deviceId now f t d := by
  have hhash : rotationDeviceHash H e record (deviceId.map utf8) =
      .ok (carriedHash H e record (deviceId.map utf8)) := by
    unfold rotationDeviceHash carriedHash
    cases record.deviceIdHash with
    | none => rfl
    | some stored =>
      cases deviceId with
      | none => rfl
      | some dev =>
        dsimp only [Option.map_some]
        rw [hashDeviceId_valid (validUtf8_utf8 dev)]
        rfl
  unfold rotate Engine.Operations.rotate
  rw [hhash, migrateDevice_bytes hd]
  rfl

theorem handleReuse_eq {deviceId : Option Str} (hd : Unicode deviceId) (record : TokenRecord)
    (pepper : Str) (now : ℤ) (d : Draw) : handleReuse H e record pepper (deviceId.map utf8) now d =
      Engine.Operations.handleReuse H e record pepper deviceId now d := by
  unfold handleReuse Engine.Operations.handleReuse graceWindowOpen
  rw [windowOpen_eq]
  cases hg : Engine.Operations.withinGrace e record now with
  | none => rfl
  | some x =>
    obtain ⟨t, q⟩ := x
    obtain ⟨ht, hq, -⟩ := Engine.Operations.withinGrace_some hg
    rw [if_pos Option.isSome_some, graceRetry, hq]
    refine congrArg (Prog.call _) (funext fun found => ?_)
    show graceFound H e record pepper (deviceId.map utf8) now d found =
      Engine.Operations.displace H e record pepper deviceId now t d found
    unfold Engine.Operations.displace graceFound Engine.Operations.unused
    cases found with
    | none => rfl
    | some successor =>
      dsimp only
      by_cases hs : successor.status = .active
      · rw [if_pos hs, if_pos hs]
        dsimp only
        rw [ht, deviceRefused_eq hd]
        refine if_congr Iff.rfl rfl (congrArg (Prog.call _) (funext fun consumed => ?_))
        cases consumed with
        | true => exact rotate_eq hd record now .rotated t d
        | false => rfl
      · rw [if_neg hs, if_neg hs]
        rfl

theorem checkState_eq {deviceId : Option Str} (hd : Unicode deviceId) (record : TokenRecord)
    (pepper : Str) (now : ℤ) (d : Draw) : checkState H e record pepper (deviceId.map utf8) now d =
      Engine.Operations.refreshProved H e record pepper deviceId now d := by
  unfold checkState Engine.Operations.refreshProved
  rw [deviceRefused_eq hd, rotate_eq hd, handleReuse_eq hd]
  cases record.status with
  | active => rfl
  | rotated => rfl
  | revoked => rfl

theorem prove_eq (parsed : ParsedToken) (record : TokenRecord) : prove H e parsed record =
    (Engine.Operations.proveVerifier H e record parsed).map fun pepper => (record, pepper) := by
  unfold prove Engine.Operations.proveVerifier recordPepper
  cases e.peppers.get record.kid with
  | none => rfl
  | some pepper =>
    have heq : constantTimeEqualHex (hashVerifier H pepper parsed.verifier) record.verifierHash =
        Token.Wire.constantTimeEqualHex (Token.Wire.hashVerifier H pepper parsed.verifier)
          record.verifierHash := equalHex_utf8 _ _
    show (proveVerifier H pepper parsed.verifier record).bind (fun _ => .ok (record, pepper)) = _
    unfold proveVerifier
    dsimp only
    rw [heq]
    split_ifs
    · rfl
    · rfl

/-- **Steps 1 to 4**, for any use of what they come to. -/
theorem resolve_bind {α : Type} (token : Str)
    (k : Except RefreshFailure (TokenRecord × Str) → StoreM α) : resolve H e (utf8 token) >>= k =
      match Engine.Operations.parseConfigured e token with
      | .error error => k (.error (.unresolved error))
      | .ok parsed => store (.findBySelector parsed.selector) >>= fun
        | none => k (.error (.unresolved .notFound))
        | some record =>
          k ((Engine.Operations.proveVerifier H e record parsed).map fun pepper => (record, pepper)) := by
  unfold resolve parse Engine.Operations.parseConfigured
  rw [parseToken_eq]
  cases Token.Wire.parseToken token with
  | none => rfl
  | some parsed =>
    dsimp only
    unfold knownKid
    split_ifs
    · refine congrArg (Prog.call _) (funext fun found => ?_)
      cases found with
      | none => rfl
      | some record =>
        show k (prove H e parsed record) = _
        rw [prove_eq]
        rfl
    · rfl

/-- **The Elixir port refreshes as the engine does.** -/
theorem refresh_eq {deviceId : Option Str} (hd : Unicode deviceId) (token : Str) (now : ℤ) (d : Draw) :
    refresh H e (utf8 token) (deviceId.map utf8) now d =
      Engine.Operations.refresh H e token deviceId now d := by
  unfold refresh Engine.Operations.refresh
  rw [resolve_bind]
  cases Engine.Operations.parseConfigured e token with
  | error error => rfl
  | ok parsed =>
    refine congrArg (Prog.call _) (funext fun found => ?_)
    cases found with
    | none => rfl
    | some record =>
      show refreshResolved H e (deviceId.map utf8) now d
        ((Engine.Operations.proveVerifier H e record parsed).map fun pepper => (record, pepper)) =
        Engine.Operations.refreshFound H e parsed deviceId now d (some record)
      unfold Engine.Operations.refreshFound
      dsimp only
      cases Engine.Operations.proveVerifier H e record parsed with
      | error failure => rfl
      | ok pepper => exact checkState_eq hd record pepper now d

theorem revokeToken_eq (token : Str) :
    revokeToken H e (utf8 token) = Engine.Operations.revokeToken H e token := by
  unfold revokeToken Engine.Operations.revokeToken
  rw [resolve_bind]
  cases Engine.Operations.parseConfigured e token with
  | error error => rfl
  | ok parsed =>
    refine congrArg (Prog.call _) (funext fun found => ?_)
    cases found with
    | none => rfl
    | some record =>
      show revokeResolved
        ((Engine.Operations.proveVerifier H e record parsed).map fun pepper => (record, pepper)) =
        Engine.Operations.revokeFound H e parsed (some record)
      unfold Engine.Operations.revokeFound
      dsimp only
      cases Engine.Operations.proveVerifier H e record parsed with
      | error failure => rfl
      | ok pepper => rfl

theorem issue_eq {deviceId : Option Str} (hd : Unicode deviceId) (userId : Str) (now : ℤ)
    (d : IssueDraw) : issue H e userId (deviceId.map utf8) now d =
      Engine.Operations.issue H e userId deviceId now d := by
  have hhash : issueDeviceHash H e (deviceId.map utf8) =
      .ok ((deviceId.map utf8).map (deviceHash H e.activePepper)) := by
    cases deviceId with
    | none => rfl
    | some dev =>
      dsimp only [Option.map_some, issueDeviceHash]
      rw [if_neg (not_not.mpr (validUtf8_utf8 dev)), hashDeviceId_valid (validUtf8_utf8 dev)]
      rfl
  unfold issue Engine.Operations.issue
  rw [hhash, bindDevice_bytes hd]
  rfl

end Engine

end NebulaToken.Ports.Elixir
