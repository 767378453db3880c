import NebulaToken.Ports.Bytes

/-! # One engine over many platforms

The engines for Java, C#, Dart, Python and PHP are one text: the same checks in the same order, over what
each platform calls a string, with its parser, its scan for lone surrogates and its comparison of digests.
`Platform` is what they take from it, and the engine is written here once.

A string of such a platform stands for a string of code units (`reading`). A platform that is `Faithful`
does on each of its strings what the reference does on the string it stands for.

* `Platform.refresh_eq`, `Platform.issue_eq`, `Platform.revokeToken_eq`: then so does the engine. -/

namespace NebulaToken.Ports.Platforms

open NebulaToken.Lib.Program NebulaToken.Lib.Codec NebulaToken.Lib.KeyedTable
open NebulaToken.Token.Unicode NebulaToken.Token.Utf8 NebulaToken.Token.Wire
open NebulaToken.Engine.Records NebulaToken.Engine.Config NebulaToken.Ports.Bytes
open NebulaToken.Engine.Operations (Draw IssueDraw burn)

/-- The result of a computation that does not throw. -/
def returned {ε α : Type} (x : Except ε α) (h : ∃ a, x = .ok a) : α :=
  match x, h with
  | .ok a, _ => a
  | .error _, h => absurd h fun ⟨_, ha⟩ => nomatch ha

theorem returned_eq {ε α : Type} {x : Except ε α} {a : α} (hx : x = .ok a) (h : ∃ a, x = .ok a) :
    returned x h = a := by
  subst hx
  rfl

/-- What an engine takes from its platform. Tokens and devices come in as strings of the platform. -/
structure Platform (Text : Type) where
  parseToken : Text → Option ParsedToken
  isWellFormedUnicode : Text → Bool
  /-- What `issue` checks of a device before it goes on. -/
  checkDevice : Text → Except NebulaConfigError Unit
  hashVerifier : Str → List UInt8 → Str
  hashDeviceId : Str → Text → Except NebulaConfigError Str
  constantTimeEqualHex : Str → Str → Bool
  b64urlEncode : List UInt8 → Str
  /-- The record, of the rotated one and its successor, that a success names the user and the family of. -/
  granted : TokenRecord → TokenRecord → TokenRecord

namespace Platform

/-! ### The engine -/

section Engine

variable {Text : Type} (P : Platform Text) (e : NebulaEngine)

/-- `mint`: the token and its record. -/
def mint (userId familyId : Str) (generation : ℕ) (deviceIdHash : Option Str) (familyExpiresAt now : ℤ)
    (d : Draw) : Str × TokenRecord :=
  let selector := P.b64urlEncode d.selector
  let record : TokenRecord := {
    selector
    verifierHash := P.hashVerifier e.activePepper d.verifier
    kid := e.activeKid
    familyId
    generation
    userId
    deviceIdHash
    createdAt := now
    familyExpiresAt
    idleExpiresAt := min (now + e.idleTtl) familyExpiresAt
    status := .active
    rotatedAt := none
    replacedBySelector := none }
  ([dot].intercalate [nblPrefix, e.activeKid, selector, P.b64urlEncode d.verifier], record)

/-- `deviceMatches`. -/
def deviceMatches (record : TokenRecord) (recordPepper : Str) (deviceId : Option Text) :
    Except NebulaConfigError Bool :=
  match deviceId, record.deviceIdHash with
  | some device, some stored =>
    -- `hashDeviceId` would throw for it
    if ¬ P.isWellFormedUnicode device then return false
    else do
      let hash ← P.hashDeviceId recordPepper device
      return P.constantTimeEqualHex hash stored
  | _, _ => return false

/-- Whether the sender binding of the record refuses the device. -/
def deviceRefused (record : TokenRecord) (recordPepper : Str) (deviceId : Option Text) :
    Except NebulaConfigError Bool :=
  if record.deviceIdHash.isSome then do
    let matched ← P.deviceMatches record recordPepper deviceId
    return !matched
  else return false

/-- The digest of the device a login is bound to. -/
def bindDevice (deviceId : Option Text) : Except NebulaConfigError (Option Str) :=
  match deviceId with
  | some device => do
    P.checkDevice device
    let hash ← P.hashDeviceId e.activePepper device
    return some hash
  | none => return none

/-- `issue`. -/
def issue (userId : Str) (deviceId : Option Text) (now : ℤ) (d : IssueDraw) : StoreM IssueResult := do
  let deviceIdHash ← Prog.ofExcept (P.bindDevice e deviceId)
  let familyId := hexEncode d.family
  let familyExpiresAt := now + e.absoluteTtl
  let (token, record) := P.mint e userId familyId 0 deviceIdHash familyExpiresAt now d.toDraw
  store (.insert record)
  return { token, userId, familyId, generation := 0, expiresAt := familyExpiresAt,
           idleExpiresAt := record.idleExpiresAt }

/-- The digest of the presenter's device under the active pepper, for a record that is bound. -/
def migrateDevice (record : TokenRecord) (deviceId : Option Text) :
    Except NebulaConfigError (Option Str) :=
  match record.deviceIdHash, deviceId with
  | some _, some device => do
    let hash ← P.hashDeviceId e.activePepper device
    return some hash
  | stored, _ => return stored

/-- `rotate`. -/
def rotate (record : TokenRecord) (deviceId : Option Text) (now : ℤ) (fromStatus : TokenStatus)
    (rotatedAt : ℤ) (d : Draw) : StoreM RefreshResult := do
  let deviceIdHash ← Prog.ofExcept (P.migrateDevice e record deviceId)
  let (token, next) := P.mint e record.userId record.familyId (record.generation + 1) deviceIdHash
    record.familyExpiresAt now d
  store (.insert next)
  let applied ← store (.markRotated record.selector fromStatus rotatedAt next.selector)
  if ¬ applied then do
    let _ ← store (.revokeIfActive next.selector)
    return .refused (fail .conflict record)
  else
    return .ok {
      token
      userId := (P.granted record next).userId
      familyId := (P.granted record next).familyId
      generation := next.generation
      expiresAt := next.familyExpiresAt
      idleExpiresAt := next.idleExpiresAt }

/-- The preconditions of a grace retry that need no lookup, in the order they are asked for. -/
def withinGrace (record : TokenRecord) (now : ℤ) : Option (ℤ × Str) :=
  if e.reuseGrace ≤ 0 then none
  else
    match record.rotatedAt with
    | none => none
    | some rotatedAt =>
      if ¬ now - rotatedAt ≤ e.reuseGrace then none
      else
        match record.replacedBySelector with
        | none => none
        | some replacedBy => if now < record.familyExpiresAt then some (rotatedAt, replacedBy) else none

/-- A grace retry, once its successor is found unused. -/
def retry (record successor : TokenRecord) (recordPepper : Str) (deviceId : Option Text)
    (now rotatedAt : ℤ) (d : Draw) : StoreM RefreshResult := do
  let refused ← Prog.ofExcept (P.deviceRefused record recordPepper deviceId)
  if refused then burn .deviceMismatch record
  else do
    let consumed ← store (.revokeIfActive successor.selector)
    if ¬ consumed then return .refused (fail .conflict record)
    else P.rotate e record deviceId now .rotated rotatedAt d

/-- `handleReuse` after its lookup of the successor. -/
def successorFound (record : TokenRecord) (recordPepper : Str) (deviceId : Option Text)
    (now rotatedAt : ℤ) (d : Draw) : Option TokenRecord → StoreM RefreshResult
  | some successor =>
    if successor.status = .active then P.retry e record successor recordPepper deviceId now rotatedAt d
    else burn .reuseDetected record
  | none => burn .reuseDetected record

/-- `handleReuse`. -/
def handleReuse (record : TokenRecord) (recordPepper : Str) (deviceId : Option Text) (now : ℤ)
    (d : Draw) : StoreM RefreshResult :=
  match withinGrace e record now with
  | some (rotatedAt, replacedBy) => do
    let found ← store (.findBySelector replacedBy)
    P.successorFound e record recordPepper deviceId now rotatedAt d found
  | none => burn .reuseDetected record

/-- Steps 5 to 10 of `refresh`. -/
def refreshProved (record : TokenRecord) (recordPepper : Str) (deviceId : Option Text) (now : ℤ)
    (d : Draw) : StoreM RefreshResult :=
  if record.status = .rotated then P.handleReuse e record recordPepper deviceId now d
  else if record.status = .revoked then return .refused (fail .revoked record)
  else if now ≥ record.familyExpiresAt then burn .expiredAbsolute record
  else if now ≥ record.idleExpiresAt then burn .expiredIdle record
  else do
    let refused ← Prog.ofExcept (P.deviceRefused record recordPepper deviceId)
    if refused then burn .deviceMismatch record
    else P.rotate e record deviceId now .active now d

/-- `refresh` after its lookup. -/
def refreshFound (parsed : ParsedToken) (deviceId : Option Text) (now : ℤ) (d : Draw) :
    Option TokenRecord → StoreM RefreshResult
  | none => return .refused (.unresolved .notFound)
  | some record =>
    match e.peppers.get record.kid with
    | none => return .refused (.unresolved .unknownKid)
    | some recordPepper =>
      if ¬ P.constantTimeEqualHex (P.hashVerifier recordPepper parsed.verifier) record.verifierHash then
        return .refused (fail .verifierMismatch record)
      else P.refreshProved e record recordPepper deviceId now d

/-- `refresh`. -/
def refresh (token : Text) (deviceId : Option Text) (now : ℤ) (d : Draw) : StoreM RefreshResult :=
  match P.parseToken token with
  | none => return .refused (.unresolved .malformed)
  | some parsed =>
    if ¬ (e.peppers.get parsed.kid).isSome then return .refused (.unresolved .unknownKid)
    else do
      let found ← store (.findBySelector parsed.selector)
      P.refreshFound e parsed deviceId now d found

/-- `revokeToken` after its lookup. -/
def revokeFound (parsed : ParsedToken) : Option TokenRecord → StoreM RevokeResult
  | none => return .refused (.unresolved .notFound)
  | some record =>
    match e.peppers.get record.kid with
    | none => return .refused (.unresolved .unknownKid)
    | some recordPepper =>
      if ¬ P.constantTimeEqualHex (P.hashVerifier recordPepper parsed.verifier) record.verifierHash then
        return .refused (fail .verifierMismatch record)
      else do
        let revoked ← store (.revokeFamily record.familyId)
        return .ok record.userId record.familyId revoked

/-- `revokeToken`. -/
def revokeToken (token : Text) : StoreM RevokeResult :=
  match P.parseToken token with
  | none => return .refused (.unresolved .malformed)
  | some parsed =>
    if ¬ (e.peppers.get parsed.kid).isSome then return .refused (.unresolved .unknownKid)
    else do
      let found ← store (.findBySelector parsed.selector)
      P.revokeFound e parsed found

end Engine

/-! ### Faithful platforms -/

/-- A platform that does on its strings what the reference's does on the strings they stand for. Peppers
have passed the constructor's check. -/
structure Faithful {Text : Type} (H : HmacSha256) (P : Platform Text) (reading : Text → Str) : Prop where
  parseToken : ∀ t, P.parseToken t = Token.Wire.parseToken (reading t)
  isWellFormedUnicode : ∀ t, P.isWellFormedUnicode t = Token.Unicode.isWellFormedUnicode (reading t)
  checkDevice : ∀ t, P.checkDevice t = .ok () ∨
    P.checkDevice t = .error .deviceIdUnicode ∧ Token.Unicode.isWellFormedUnicode (reading t) = false
  hashVerifier : ∀ pepper v, Token.Unicode.isWellFormedUnicode pepper = true →
    P.hashVerifier pepper v = Token.Wire.hashVerifier H pepper v
  hashDeviceId : ∀ pepper t, Token.Unicode.isWellFormedUnicode pepper = true →
    P.hashDeviceId pepper t = Token.Wire.hashDeviceId H pepper (reading t)
  constantTimeEqualHex : ∀ a b, P.constantTimeEqualHex a b = Token.Wire.constantTimeEqualHex a b
  b64urlEncode : ∀ b, P.b64urlEncode b = base64urlEncode b
  granted : ∀ record next : TokenRecord, next.userId = record.userId → next.familyId = record.familyId →
    (P.granted record next).userId = record.userId ∧ (P.granted record next).familyId = record.familyId

/-- A pepper of an engine has a UTF-8 encoding. -/
theorem pepper_wellFormed {e : NebulaEngine} {kid pepper : Str} (h : e.peppers.get kid = some pepper) :
    Token.Unicode.isWellFormedUnicode pepper = true := by
  have hc : checkPepper kid pepper = .ok () :=
    checkPepper_of_mem e.peppers_checked (Table.mem_of_get h)
  unfold checkPepper at hc
  split_ifs at hc with hkid hw hlen
  exact hw

section Agreement

variable {Text : Type} {H : HmacSha256} {P : Platform Text} {reading : Text → Str} {e : NebulaEngine}

/-- The scan comes before the digest, which does not throw then. -/
theorem deviceMatches_eq (h : Faithful H P reading) (record : TokenRecord) {pepper : Str}
    (hw : Token.Unicode.isWellFormedUnicode pepper = true) (deviceId : Option Text) :
    P.deviceMatches record pepper deviceId =
      .ok (Engine.Operations.deviceMatches H record pepper (deviceId.map reading)) := by
  unfold deviceMatches Engine.Operations.deviceMatches
  cases deviceId with
  | none => rfl
  | some t =>
    cases record.deviceIdHash with
    | none => rfl
    | some stored =>
      dsimp only [Option.map_some]
      rw [h.isWellFormedUnicode, h.hashDeviceId pepper t hw, Token.Wire.hashDeviceId]
      by_cases ht : Token.Unicode.isWellFormedUnicode (reading t) = true
      · rw [if_neg (not_not.mpr ht), if_neg (not_not.mpr ht)]
        exact congrArg Except.ok (h.constantTimeEqualHex _ _)
      · rw [if_pos ht, if_pos ht]
        rfl

theorem deviceRefused_eq (h : Faithful H P reading) (record : TokenRecord) {pepper : Str}
    (hw : Token.Unicode.isWellFormedUnicode pepper = true) (deviceId : Option Text) :
    P.deviceRefused record pepper deviceId =
      .ok (Engine.Operations.deviceRefused H record pepper (deviceId.map reading)) := by
  unfold deviceRefused Engine.Operations.deviceRefused
  rw [deviceMatches_eq h record hw]
  cases record.deviceIdHash with
  | none => rfl
  | some stored => rfl

theorem bindDevice_eq (h : Faithful H P reading) (deviceId : Option Text) :
    P.bindDevice e deviceId = Engine.Operations.bindDevice H e (deviceId.map reading) := by
  unfold bindDevice Engine.Operations.bindDevice
  cases deviceId with
  | none => rfl
  | some t =>
    dsimp only [Option.map_some]
    rw [h.hashDeviceId _ t (pepper_wellFormed e.get_activeKid)]
    rcases h.checkDevice t with hc | ⟨hc, ht⟩
    · rw [hc]
      cases Token.Wire.hashDeviceId H e.activePepper (reading t) with
      | error err => rfl
      | ok hash => rfl
    · rw [hc, Token.Wire.hashDeviceId, ht, if_pos Bool.false_ne_true]
      rfl

theorem migrateDevice_eq (h : Faithful H P reading) (record : TokenRecord) (deviceId : Option Text) :
    P.migrateDevice e record deviceId =
      Engine.Operations.migrateDevice H e record (deviceId.map reading) := by
  unfold migrateDevice Engine.Operations.migrateDevice
  cases record.deviceIdHash with
  | none => rfl
  | some stored =>
    cases deviceId with
    | none => rfl
    | some t =>
      dsimp only [Option.map_some]
      rw [h.hashDeviceId _ t (pepper_wellFormed e.get_activeKid)]
      cases Token.Wire.hashDeviceId H e.activePepper (reading t) with
      | error err => rfl
      | ok hash => rfl

theorem mint_eq (h : Faithful H P reading) (userId familyId : Str) (generation : ℕ)
    (deviceIdHash : Option Str) (familyExpiresAt now : ℤ) (d : Draw) :
    P.mint e userId familyId generation deviceIdHash familyExpiresAt now d =
      (Engine.Operations.mintToken e d, Engine.Operations.mintRecord H e
        { userId, familyId, generation, deviceIdHash, familyExpiresAt, now } d) := by
  unfold mint
  rw [h.b64urlEncode, h.b64urlEncode, h.hashVerifier _ _ (pepper_wellFormed e.get_activeKid)]
  rfl

theorem issue_eq (h : Faithful H P reading) (userId : Str) (deviceId : Option Text) (now : ℤ)
    (d : IssueDraw) : P.issue e userId deviceId now d =
      Engine.Operations.issue H e userId (deviceId.map reading) now d := by
  unfold issue Engine.Operations.issue
  rw [bindDevice_eq h]
  cases Engine.Operations.bindDevice H e (deviceId.map reading) with
  | error err => rfl
  | ok hash =>
    rw [Prog.ofExcept_ok, Prog.ret_bind]
    dsimp only
    rw [mint_eq h]
    rfl

theorem rotate_eq (h : Faithful H P reading) (record : TokenRecord) (deviceId : Option Text) (now : ℤ)
    (f : TokenStatus) (t : ℤ) (d : Draw) : P.rotate e record deviceId now f t d =
      Engine.Operations.rotate H e record (deviceId.map reading) now f t d := by
  unfold rotate Engine.Operations.rotate
  rw [migrateDevice_eq h]
  cases Engine.Operations.migrateDevice H e record (deviceId.map reading) with
  | error err => rfl
  | ok hash =>
    rw [Prog.ofExcept_ok, Prog.ret_bind, mint_eq h]
    refine congrArg (Prog.call _) (funext fun _ => congrArg (Prog.call _) (funext fun applied => ?_))
    cases applied with
    | false => rfl
    | true =>
      -- the user and the family are those of the record in either
      obtain ⟨huser, hfamily⟩ := h.granted record
        (Engine.Operations.successor H e record hash now d) rfl rfl
      show Prog.ret _ = Prog.ret _
      unfold Engine.Operations.successor at huser hfamily
      rw [huser, hfamily]
      rfl

/-- The preconditions come one by one, and come to the same. -/
theorem withinGrace_eq (record : TokenRecord) (now : ℤ) :
    withinGrace e record now = Engine.Operations.withinGrace e record now := by
  unfold withinGrace Engine.Operations.withinGrace
  cases record.rotatedAt with
  | none => exact ite_self none
  | some rotatedAt =>
    cases record.replacedBySelector with
    | none =>
      dsimp only
      split_ifs
      · rfl
      · rfl
      · rfl
    | some replacedBy =>
      dsimp only
      split_ifs
      all_goals first | rfl | omega

theorem retry_eq (h : Faithful H P reading) (record s : TokenRecord) {pepper : Str}
    (hw : Token.Unicode.isWellFormedUnicode pepper = true) (deviceId : Option Text) (now t : ℤ) (d : Draw)
    (hs : s.status = .active) : P.retry e record s pepper deviceId now t d =
      Engine.Operations.displace H e record pepper (deviceId.map reading) now t d (some s) := by
  unfold retry Engine.Operations.displace Engine.Operations.unused
  rw [deviceRefused_eq h record hw, Prog.ofExcept_ok, Prog.ret_bind]
  dsimp only
  rw [if_pos hs]
  refine if_congr Iff.rfl rfl (congrArg (Prog.call _) (funext fun consumed => ?_))
  cases consumed with
  | false => rfl
  | true => exact rotate_eq h record deviceId now .rotated t d

theorem successorFound_eq (h : Faithful H P reading) (record : TokenRecord) {pepper : Str}
    (hw : Token.Unicode.isWellFormedUnicode pepper = true) (deviceId : Option Text) (now t : ℤ) (d : Draw)
    (found : Option TokenRecord) : P.successorFound e record pepper deviceId now t d found =
      Engine.Operations.displace H e record pepper (deviceId.map reading) now t d found := by
  cases found with
  | none => rfl
  | some s =>
    show (if s.status = .active then _ else _) = _
    by_cases hs : s.status = .active
    · rw [if_pos hs, retry_eq h record s hw deviceId now t d hs]
    · unfold Engine.Operations.displace Engine.Operations.unused
      dsimp only
      rw [if_neg hs, if_neg hs]

theorem handleReuse_eq (h : Faithful H P reading) (record : TokenRecord) {pepper : Str}
    (hw : Token.Unicode.isWellFormedUnicode pepper = true) (deviceId : Option Text) (now : ℤ) (d : Draw) :
    P.handleReuse e record pepper deviceId now d =
      Engine.Operations.handleReuse H e record pepper (deviceId.map reading) now d := by
  unfold handleReuse Engine.Operations.handleReuse
  rw [withinGrace_eq]
  cases Engine.Operations.withinGrace e record now with
  | none => rfl
  | some w =>
    exact congrArg (Prog.call _) (funext fun found =>
      successorFound_eq h record hw deviceId now w.1 d found)

theorem refreshProved_eq (h : Faithful H P reading) (record : TokenRecord) {pepper : Str}
    (hw : Token.Unicode.isWellFormedUnicode pepper = true) (deviceId : Option Text) (now : ℤ) (d : Draw) :
    P.refreshProved e record pepper deviceId now d =
      Engine.Operations.refreshProved H e record pepper (deviceId.map reading) now d := by
  unfold refreshProved Engine.Operations.refreshProved
  rw [handleReuse_eq h record hw, rotate_eq h, deviceRefused_eq h record hw]
  cases record.status with
  | rotated => rfl
  | revoked => rfl
  | active => rfl

/-- Step 4. -/
theorem refreshFound_eq (h : Faithful H P reading) (parsed : ParsedToken) (deviceId : Option Text)
    (now : ℤ) (d : Draw) (found : Option TokenRecord) : P.refreshFound e parsed deviceId now d found =
      Engine.Operations.refreshFound H e parsed (deviceId.map reading) now d found := by
  cases found with
  | none => rfl
  | some record =>
    unfold refreshFound Engine.Operations.refreshFound Engine.Operations.proveVerifier
    dsimp only
    cases hp : e.peppers.get record.kid with
    | none => rfl
    | some pepper =>
      have hw := pepper_wellFormed hp
      dsimp only
      rw [h.hashVerifier pepper _ hw, h.constantTimeEqualHex, ite_not, refreshProved_eq h record hw]
      split_ifs
      · rfl
      · rfl

/-- **The engine of a faithful platform refreshes as the reference does.** -/
theorem refresh_eq (h : Faithful H P reading) (token : Text) (deviceId : Option Text) (now : ℤ)
    (d : Draw) : P.refresh e token deviceId now d =
      Engine.Operations.refresh H e (reading token) (deviceId.map reading) now d := by
  unfold refresh Engine.Operations.refresh Engine.Operations.parseConfigured
  rw [h.parseToken]
  cases Token.Wire.parseToken (reading token) with
  | none => rfl
  | some parsed =>
    dsimp only
    rw [ite_not]
    split_ifs
    · exact congrArg (Prog.call _) (funext fun found => refreshFound_eq h parsed deviceId now d found)
    · rfl

theorem revokeFound_eq (h : Faithful H P reading) (parsed : ParsedToken) (found : Option TokenRecord) :
    P.revokeFound e parsed found = Engine.Operations.revokeFound H e parsed found := by
  cases found with
  | none => rfl
  | some record =>
    unfold revokeFound Engine.Operations.revokeFound Engine.Operations.proveVerifier
    dsimp only
    cases hp : e.peppers.get record.kid with
    | none => rfl
    | some pepper =>
      dsimp only
      rw [h.hashVerifier pepper _ (pepper_wellFormed hp), h.constantTimeEqualHex, ite_not]
      split_ifs
      · rfl
      · rfl

theorem revokeToken_eq (h : Faithful H P reading) (token : Text) :
    P.revokeToken e token = Engine.Operations.revokeToken H e (reading token) := by
  unfold revokeToken Engine.Operations.revokeToken Engine.Operations.parseConfigured
  rw [h.parseToken]
  cases Token.Wire.parseToken (reading token) with
  | none => rfl
  | some parsed =>
    dsimp only
    rw [ite_not]
    split_ifs
    · exact congrArg (Prog.call _) (funext fun found => revokeFound_eq h parsed found)
    · rfl

end Agreement

end Platform

end NebulaToken.Ports.Platforms
