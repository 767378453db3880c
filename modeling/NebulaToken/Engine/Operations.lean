import NebulaToken.Engine.Config

/-! # The engine's operations

`issue`, `refresh` with its two ways to rotate, and the three revocations, as programs that call the
store. What the host gives a call besides its arguments is a parameter: the reading of the clock, and
the bytes drawn for the record it may mint. The digest is the platform's. -/

namespace NebulaToken.Engine.Operations

open NebulaToken.Lib.Program NebulaToken.Lib.Codec NebulaToken.Lib.KeyedTable
open NebulaToken.Token.Unicode NebulaToken.Token.Wire
open NebulaToken.Engine.Records NebulaToken.Engine.Config

/-- The random bytes of one minted record. -/
structure Draw where
  selector : List UInt8
  verifier : List UInt8
  selector_length : selector.length = selectorBytes
  verifier_length : verifier.length = verifierBytes

/-- The random bytes of a login: those of its record, and those of its family identifier. -/
structure IssueDraw extends Draw where
  family : List UInt8
  family_length : family.length = 16

/-- The selector as it is stored and sent. -/
def Draw.selectorText (d : Draw) : Str := base64urlEncode d.selector

/-- The family identifier as it is stored. -/
def IssueDraw.familyId (d : IssueDraw) : Str := hexEncode d.family

/-- The arguments of `#mint`. -/
structure MintArgs where
  userId : Str
  familyId : Str
  generation : ℕ
  deviceIdHash : Option Str
  familyExpiresAt : ℤ
  now : ℤ

variable (H : HmacSha256) (e : NebulaEngine)

/-- `#mint`: the record of a new token. -/
def mintRecord (args : MintArgs) (d : Draw) : TokenRecord where
  selector := d.selectorText
  verifierHash := hashVerifier H e.activePepper d.verifier
  kid := e.activeKid
  familyId := args.familyId
  generation := args.generation
  userId := args.userId
  deviceIdHash := args.deviceIdHash
  createdAt := args.now
  familyExpiresAt := args.familyExpiresAt
  idleExpiresAt := min (args.now + e.idleTtl) args.familyExpiresAt
  status := .active
  rotatedAt := none
  replacedBySelector := none

/-- `#mint`: its wire form. -/
def mintToken (d : Draw) : Str := tokenString e.activeKid d.selectorText d.verifier

/-- **A minted token parses** to the kid, the selector and the verifier it was minted from. -/
theorem parseToken_mintToken (d : Draw) :
    parseToken (mintToken e d) = some ⟨e.activeKid, d.selectorText, d.verifier⟩ := by
  obtain ⟨hkid, hlen⟩ := e.kid_wellFormed e.get_activeKid
  have hsel : d.selectorText.length = selectorChars := by
    rw [Draw.selectorText, length_base64urlEncode, d.selector_length]
    rfl
  refine parseToken_tokenString (p := ⟨e.activeKid, d.selectorText, d.verifier⟩) ⟨hlen, hkid, hsel, ?_,
    d.verifier_length⟩
  refine b64urlTest_encode fun h0 => ?_
  have hd := d.selector_length
  rw [h0] at hd
  cases hd

/-- `#deviceMatches`. -/
def deviceMatches (record : TokenRecord) (recordPepper : Str) (deviceId : Option Str) : Bool :=
  match deviceId, record.deviceIdHash with
  | some device, some stored =>
    -- an identifier that has no digest is a failed binding, not an exception
    match hashDeviceId H recordPepper device with
    | .ok hash => constantTimeEqualHex hash stored
    | .error _ => false
  | _, _ => false

/-- Whether the sender binding of the record refuses the device. -/
def deviceRefused (record : TokenRecord) (recordPepper : Str) (deviceId : Option Str) : Bool :=
  record.deviceIdHash.isSome && !deviceMatches H record recordPepper deviceId

/-- The digest of the device a login is bound to. -/
def bindDevice (deviceId : Option Str) : Except NebulaConfigError (Option Str) :=
  match deviceId with
  | some device => (hashDeviceId H e.activePepper device).map some
  | none => .ok none

/-- Issue the first token of a new family. -/
def issue (userId : Str) (deviceId : Option Str) (now : ℤ) (d : IssueDraw) : StoreM IssueResult := do
  let deviceIdHash ← Prog.ofExcept (bindDevice H e deviceId)
  let familyExpiresAt := now + e.absoluteTtl
  let record := mintRecord H e
    { userId, familyId := d.familyId, generation := 0, deviceIdHash, familyExpiresAt, now } d.toDraw
  store (.insert record)
  return {
    token := mintToken e d.toDraw
    userId
    familyId := d.familyId
    generation := 0
    expiresAt := familyExpiresAt
    idleExpiresAt := record.idleExpiresAt }

/-- The digest of the presenter's device under the active pepper, which carries a binding over to it. -/
def migrateDevice (record : TokenRecord) (deviceId : Option Str) :
    Except NebulaConfigError (Option Str) :=
  match record.deviceIdHash, deviceId with
  | some _, some device => (hashDeviceId H e.activePepper device).map some
  | stored, _ => .ok stored

/-- An identifier has a digest under every pepper or under none. -/
theorem hashDeviceId_ok {pepper device hash : Str} (h : hashDeviceId H pepper device = .ok hash)
    (pepper' : Str) : ∃ hash', hashDeviceId H pepper' device = .ok hash' := by
  unfold hashDeviceId at h ⊢
  split_ifs at h ⊢ with hw
  exact ⟨_, rfl⟩

/-- A device the record accepts can be carried over: a rotation does not throw. -/
theorem migrateDevice_ok {record : TokenRecord} {recordPepper : Str} {deviceId : Option Str}
    (h : deviceRefused H record recordPepper deviceId = false) :
    ∃ hash, migrateDevice H e record deviceId = .ok hash := by
  unfold migrateDevice
  split
  · next stored device hst =>
    have hm : deviceMatches H record recordPepper (some device) = true := by
      simpa [deviceRefused, hst] using h
    unfold deviceMatches at hm
    rw [hst] at hm
    dsimp only at hm
    split at hm
    · next hash hh =>
      obtain ⟨hash', hh'⟩ := hashDeviceId_ok H hh e.activePepper
      rw [hh']
      exact ⟨some hash', rfl⟩
    · cases hm
  · exact ⟨_, rfl⟩

/-- The record that takes the place of `record`. -/
def successor (record : TokenRecord) (deviceIdHash : Option Str) (now : ℤ) (d : Draw) : TokenRecord :=
  mintRecord H e {
    userId := record.userId
    familyId := record.familyId
    generation := record.generation + 1
    deviceIdHash
    familyExpiresAt := record.familyExpiresAt
    now } d

/-- The end of `#rotate`: put `next` in the place of the record, if nobody else has. -/
def replace (record next : TokenRecord) (fromStatus : TokenStatus) (rotatedAt : ℤ) (d : Draw) :
    StoreM RefreshResult := do
  let applied ← store (.markRotated record.selector fromStatus rotatedAt next.selector)
  if applied then
    return .ok {
      token := mintToken e d
      userId := record.userId
      familyId := record.familyId
      generation := next.generation
      expiresAt := next.familyExpiresAt
      idleExpiresAt := next.idleExpiresAt }
  else do
    -- a concurrent refresh won
    let _ ← store (.revokeIfActive next.selector)
    return .refused (fail .conflict record)

/-- `#rotate`: insert the successor, then put it in the place of the record. -/
def rotate (record : TokenRecord) (deviceId : Option Str) (now : ℤ) (fromStatus : TokenStatus)
    (rotatedAt : ℤ) (d : Draw) : StoreM RefreshResult := do
  let deviceIdHash ← Prog.ofExcept (migrateDevice H e record deviceId)
  let next := successor H e record deviceIdHash now d
  store (.insert next)
  replace e record next fromStatus rotatedAt d

/-- Revoke the record's family and refuse. -/
def burn (error : NebulaErrorCode) (record : TokenRecord) : StoreM RefreshResult := do
  let _ ← store (.revokeFamily record.familyId)
  return .refused (fail error record)

/-- The preconditions of a grace retry that the record itself decides: the time of the rotation and
the successor it is to displace. -/
def withinGrace (record : TokenRecord) (now : ℤ) : Option (ℤ × Str) :=
  match record.rotatedAt, record.replacedBySelector with
  | some rotatedAt, some replacedBy =>
    if 0 < e.reuseGrace ∧ now - rotatedAt ≤ e.reuseGrace ∧ now < record.familyExpiresAt then
      some (rotatedAt, replacedBy)
    else none
  | _, _ => none

/-- The preconditions, read back. -/
theorem withinGrace_some {e : NebulaEngine} {r : TokenRecord} {now t : ℤ} {q : Str}
    (h : withinGrace e r now = some (t, q)) :
    r.rotatedAt = some t ∧ r.replacedBySelector = some q ∧ 0 < e.reuseGrace ∧
      now - t ≤ e.reuseGrace ∧ now < r.familyExpiresAt := by
  unfold withinGrace at h
  split at h
  · next t' q' ht hq =>
    split_ifs at h with hg
    obtain ⟨rfl, rfl⟩ := Prod.mk.inj (Option.some.inj h)
    exact ⟨ht, hq, hg⟩
  · cases h

/-- The successor, if it is still unused. -/
def unused : Option TokenRecord → Option TokenRecord
  | some r => if r.status = .active then some r else none
  | none => none

/-- `#handleReuse` after its lookup of the successor. -/
def displace (record : TokenRecord) (recordPepper : Str) (deviceId : Option Str) (now rotatedAt : ℤ)
    (d : Draw) (found : Option TokenRecord) : StoreM RefreshResult :=
  match unused found with
  | none => burn .reuseDetected record
  | some displaced =>
    if deviceRefused H record recordPepper deviceId then burn .deviceMismatch record
    else do
      let consumed ← store (.revokeIfActive displaced.selector)
      if consumed then
        -- the first rotation's time is kept, so that a retry does not extend the window
        rotate H e record deviceId now .rotated rotatedAt d
      else return .refused (fail .conflict record)

/-- `#handleReuse`: a rotated token was presented with proof. -/
def handleReuse (record : TokenRecord) (recordPepper : Str) (deviceId : Option Str) (now : ℤ)
    (d : Draw) : StoreM RefreshResult :=
  match withinGrace e record now with
  | none => burn .reuseDetected record
  | some (rotatedAt, replacedBy) => do
    let found ← store (.findBySelector replacedBy)
    displace H e record recordPepper deviceId now rotatedAt d found

/-- Steps 1 and 2: the parts of a token that parses and names a configured pepper. -/
def parseConfigured (token : Str) : Except NebulaErrorCode ParsedToken :=
  match parseToken token with
  | none => .error .malformed
  | some parsed => if (e.peppers.get parsed.kid).isSome then .ok parsed else .error .unknownKid

/-- The refusals of steps 1 and 2. -/
theorem parseConfigured_error {e : NebulaEngine} {token : Str} {error : NebulaErrorCode}
    (h : parseConfigured e token = .error error) : error = .malformed ∨ error = .unknownKid := by
  unfold parseConfigured at h
  split at h
  · cases h
    exact Or.inl rfl
  · split_ifs at h
    cases h
    exact Or.inr rfl

/-- Step 4: the pepper of the record, if it is configured and proves the verifier. -/
def proveVerifier (record : TokenRecord) (parsed : ParsedToken) : Except RefreshFailure Str :=
  match e.peppers.get record.kid with
  | none => .error (.unresolved .unknownKid)
  | some recordPepper =>
    if constantTimeEqualHex (hashVerifier H recordPepper parsed.verifier) record.verifierHash then
      .ok recordPepper
    -- no family is revoked here: a selector alone must not end a session
    else .error (fail .verifierMismatch record)

/-- The refusals of step 4. -/
theorem proveVerifier_error {H : HmacSha256} {e : NebulaEngine} {record : TokenRecord}
    {parsed : ParsedToken} {failure : RefreshFailure}
    (h : proveVerifier H e record parsed = .error failure) :
    failure = .unresolved .unknownKid ∨ failure = fail .verifierMismatch record := by
  unfold proveVerifier at h
  split at h
  · cases h
    exact Or.inl rfl
  · split_ifs at h
    cases h
    exact Or.inr rfl

/-- Steps 5 to 10, for a record whose verifier was proved. -/
def refreshProved (record : TokenRecord) (recordPepper : Str) (deviceId : Option Str) (now : ℤ)
    (d : Draw) : StoreM RefreshResult :=
  match record.status with
  | .rotated => handleReuse H e record recordPepper deviceId now d
  | .revoked => return .refused (fail .revoked record)
  | .active =>
    if now ≥ record.familyExpiresAt then burn .expiredAbsolute record
    else if now ≥ record.idleExpiresAt then burn .expiredIdle record
    else if deviceRefused H record recordPepper deviceId then burn .deviceMismatch record
    else rotate H e record deviceId now .active now d

/-- Steps 3 to 10, after the lookup. -/
def refreshFound (parsed : ParsedToken) (deviceId : Option Str) (now : ℤ) (d : Draw) :
    Option TokenRecord → StoreM RefreshResult
  | none => return .refused (.unresolved .notFound)
  | some record =>
    match proveVerifier H e record parsed with
    | .error failure => return .refused failure
    | .ok recordPepper => refreshProved H e record recordPepper deviceId now d

/-- Exchange a refresh token for its successor. -/
def refresh (token : Str) (deviceId : Option Str) (now : ℤ) (d : Draw) : StoreM RefreshResult :=
  match parseConfigured e token with
  | .error error => return .refused (.unresolved error)
  | .ok parsed => do
    let found ← store (.findBySelector parsed.selector)
    refreshFound H e parsed deviceId now d found

/-- `revokeToken` after its lookup. -/
def revokeFound (parsed : ParsedToken) : Option TokenRecord → StoreM RevokeResult
  | none => return .refused (.unresolved .notFound)
  | some record =>
    match proveVerifier H e record parsed with
    | .error failure => return .refused failure
    | .ok _ => do
      let revoked ← store (.revokeFamily record.familyId)
      return .ok record.userId record.familyId revoked

/-- Revoke the family a token belongs to. The verifier is proved as in `refresh`; the status of the
record and the device do not matter. -/
def revokeToken (token : Str) : StoreM RevokeResult :=
  match parseConfigured e token with
  | .error error => return .refused (.unresolved error)
  | .ok parsed => do
    let found ← store (.findBySelector parsed.selector)
    revokeFound H e parsed found

/-- Revoke a family by its identifier. -/
def revokeFamily (familyId : Str) : StoreM ℕ := store (.revokeFamily familyId)

/-- Revoke every session of a user. -/
def revokeAllForUser (userId : Str) : StoreM ℕ := store (.revokeUser userId)

end NebulaToken.Engine.Operations
