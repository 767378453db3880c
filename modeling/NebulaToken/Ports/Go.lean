import NebulaToken.Lib.Faults
import NebulaToken.Ports.Agreement
import NebulaToken.Ports.Parsers

/-! # The Go port

A store method returns a value and an error. The engine looks at the error of every method before it looks
at the value, and returns the first one in place of a result.

* `method_eq`: to check each error is to end with the first one;
* `issue_eq`, `refresh_eq`, `revokeToken_eq`: but for the errors, it does what the engine does. -/

namespace NebulaToken.Ports.Go

open NebulaToken.Lib.Program NebulaToken.Lib.Codec NebulaToken.Lib.KeyedTable NebulaToken.Lib.Faults
open NebulaToken.Token.Unicode NebulaToken.Token.Utf8 NebulaToken.Token.Wire
open NebulaToken.Engine.Records NebulaToken.Engine.Config NebulaToken.Runs.Calls
open NebulaToken.Ports.Agreement NebulaToken.Ports.Bytes NebulaToken.Ports.Parsers.Go
open NebulaToken.Engine.Operations (Draw IssueDraw)

/-- What a store method returns; `none` is `nil`. A method that fails may return any value. -/
structure Returned (φ : Type) (q : StoreCall) where
  value : q.Reply
  err : Option φ

/-- The value, or the error if there is one. -/
def returned (φ : Type) (q : StoreCall) (r : Returned φ q) : Fallible φ StoreCall.Reply q :=
  match r.err with
  | some err => .error err
  | none => .ok r.value

/-- A method of the engine: it returns a result, or an error of its own or of the store. -/
abbrev GoM (φ α : Type) := Prog StoreCall (Returned φ) Empty (Except (NebulaConfigError ⊕ φ) α)

section Engine

variable {φ : Type}

/-- `if err != nil { return nil, err }`, and on with the value. -/
def checked {α : Type} {q : StoreCall} (k : q.Reply → GoM φ α) (r : Returned φ q) : GoM φ α :=
  match r.err with
  | some err => .ret (.error (.inr err))
  | none => k r.value

/-- A method of the store, and its error checked. -/
def method {α : Type} (q : StoreCall) (k : q.Reply → GoM φ α) : GoM φ α := .call q (checked k)

variable (H : HmacSha256) (e : NebulaEngine)

/-! ### The primitives -/

/-- `HashVerifier`. -/
def hashVerifier (pepper : Str) (verifier : List UInt8) : Str :=
  hexEncode (H.run (utf8 pepper) verifier)

/-- `HashDeviceID`; the error is `ErrInvalidDeviceID`. -/
def hashDeviceID (pepper : Str) (deviceID : Bytes) : Except NebulaConfigError Str :=
  if ¬ validUtf8 deviceID then .error .deviceIdUnicode
  else .ok (hexEncode (H.run (utf8 pepper) (deviceBytes ++ deviceID)))

/-- `isLowerHex64`. -/
def isLowerHex64 (s : Bytes) : Bool :=
  if s.length ≠ hashHexChars then false
  else s.all fun c => !((c.toNat < 48 || 57 < c.toNat) && (c.toNat < 97 || 102 < c.toNat))

/-- `ConstantTimeEqualHex`. -/
def constantTimeEqualHex (aHex bHex : Str) : Bool :=
  if !isLowerHex64 (utf8 aHex) || !isLowerHex64 (utf8 bHex) then false else utf8 aHex == utf8 bHex

/-- `deviceMatches`. -/
def deviceMatches (record : TokenRecord) (recordPepper : Str) (deviceID : Option Bytes) : Bool :=
  match record.deviceIdHash, deviceID with
  | some stored, some device =>
    match hashDeviceID H recordPepper device with
    | .error _ => false
    | .ok presented => constantTimeEqualHex presented stored
  | _, _ => false

/-- `fail`. -/
def fail (code : NebulaErrorCode) : RefreshFailure := .unresolved code

/-- `failWith`. -/
def failWith (code : NebulaErrorCode) (record : TokenRecord) : RefreshFailure :=
  ⟨code, some record.userId, some record.familyId⟩

/-- `mint`. -/
def mint (userID familyID : Str) (generation : ℕ) (deviceIDHash : Option Str)
    (familyExpiresAt now : ℤ) (d : Draw) : Str × TokenRecord :=
  let selector := base64urlEncode d.selector
  let idle := now + e.idleTtl
  let record : TokenRecord := {
    selector
    verifierHash := hashVerifier H e.activePepper d.verifier
    kid := e.activeKid
    familyId := familyID
    generation
    userId := userID
    deviceIdHash := deviceIDHash
    createdAt := now
    familyExpiresAt
    idleExpiresAt := if idle > familyExpiresAt then familyExpiresAt else idle
    status := .active
    rotatedAt := none
    replacedBySelector := none }
  (nblPrefix ++ [dot] ++ e.activeKid ++ [dot] ++ selector ++ [dot] ++ base64urlEncode d.verifier, record)

/-! ### The operations -/

/-- The digest `Issue` binds its record to. -/
def issueHash (deviceID : Option Bytes) : Except NebulaConfigError (Option Str) :=
  match deviceID with
  | some device => (hashDeviceID H e.activePepper device).map some
  | none => .ok none

/-- `Issue`. -/
def issue (userID : Str) (deviceID : Option Bytes) (now : ℤ) (d : IssueDraw) : GoM φ IssueResult :=
  match issueHash H e deviceID with
  | .error err => .ret (.error (.inl err))
  | .ok deviceHash =>
    let familyID := hexEncode d.family
    let familyExpiresAt := now + e.absoluteTtl
    let (token, record) := mint H e userID familyID 0 deviceHash familyExpiresAt now d.toDraw
    method (.insert record) fun _ =>
      .ret (.ok { token, userId := userID, familyId := familyID, generation := 0,
                   expiresAt := familyExpiresAt, idleExpiresAt := record.idleExpiresAt })

/-- The digest `rotate` carries over. -/
def rotationHash (record : TokenRecord) (deviceID : Option Bytes) :
    Except NebulaConfigError (Option Str) :=
  match record.deviceIdHash, deviceID with
  | some _, some device => (hashDeviceID H e.activePepper device).map some
  | stored, _ => .ok stored

/-- `rotate`. -/
def rotate (record : TokenRecord) (deviceID : Option Bytes) (now : ℤ) (fromStatus : TokenStatus)
    (rotatedAt : ℤ) (d : Draw) : GoM φ RefreshResult :=
  match rotationHash H e record deviceID with
  | .error err => .ret (.error (.inl err))
  | .ok deviceHash =>
    let (token, next) := mint H e record.userId record.familyId (record.generation + 1) deviceHash
      record.familyExpiresAt now d
    method (.insert next) fun _ =>
      method (.markRotated record.selector fromStatus rotatedAt next.selector) fun applied =>
        if !applied then
          method (.revokeIfActive next.selector) fun _ =>
            .ret (.ok (.refused (failWith .conflict record)))
        else
          .ret (.ok (.ok {
            token
            userId := record.userId
            familyId := record.familyId
            generation := next.generation
            expiresAt := next.familyExpiresAt
            idleExpiresAt := next.idleExpiresAt }))

/-- `RevokeFamily` of the store, and a refusal. -/
def revokeAndFail (code : NebulaErrorCode) (record : TokenRecord) : GoM φ RefreshResult :=
  method (.revokeFamily record.familyId) fun _ => .ret (.ok (.refused (failWith code record)))

/-- `withinGrace` in `handleReuse`. -/
def withinGrace (record : TokenRecord) (now : ℤ) : Bool := windowOpen e record now

/-- `handleReuse` with the successor it has found. -/
def handleSuccessor (record : TokenRecord) (recordPepper : Str) (deviceID : Option Bytes) (now : ℤ)
    (d : Draw) : Option TokenRecord → GoM φ RefreshResult
  | some successor =>
    if successor.status = .active then
      if record.deviceIdHash.isSome && !deviceMatches H record recordPepper deviceID then
        revokeAndFail .deviceMismatch record
      else
        method (.revokeIfActive successor.selector) fun applied =>
          if !applied then .ret (.ok (.refused (failWith .conflict record)))
          -- the window is open, so the time of the rotation is there
          else rotate H e record deviceID now .rotated (record.rotatedAt.getD now) d
    else revokeAndFail .reuseDetected record
  | none => revokeAndFail .reuseDetected record

/-- `handleReuse`. The window is open, so the selector of the successor is there. -/
def handleReuse (record : TokenRecord) (recordPepper : Str) (deviceID : Option Bytes) (now : ℤ)
    (d : Draw) : GoM φ RefreshResult :=
  if withinGrace e record now then
    method (.findBySelector (record.replacedBySelector.getD []))
      (handleSuccessor H e record recordPepper deviceID now d)
  else revokeAndFail .reuseDetected record

/-- `Refresh` after its lookup. -/
def refreshFound (parsed : ParsedToken) (deviceID : Option Bytes) (now : ℤ) (d : Draw) :
    Option TokenRecord → GoM φ RefreshResult
  | none => .ret (.ok (.refused (fail .notFound)))
  | some record =>
    match e.peppers.get record.kid with
    | none => .ret (.ok (.refused (fail .unknownKid)))
    | some recordPepper =>
      if !constantTimeEqualHex (hashVerifier H recordPepper parsed.verifier) record.verifierHash then
        .ret (.ok (.refused (failWith .verifierMismatch record)))
      else if record.status = .rotated then handleReuse H e record recordPepper deviceID now d
      else if record.status = .revoked then .ret (.ok (.refused (failWith .revoked record)))
      else if now ≥ record.familyExpiresAt then revokeAndFail .expiredAbsolute record
      else if now ≥ record.idleExpiresAt then revokeAndFail .expiredIdle record
      else if record.deviceIdHash.isSome && !deviceMatches H record recordPepper deviceID then
        revokeAndFail .deviceMismatch record
      else rotate H e record deviceID now .active now d

/-- `Refresh`. -/
def refresh (token : Bytes) (deviceID : Option Bytes) (now : ℤ) (d : Draw) : GoM φ RefreshResult :=
  match parseToken false token with
  | none => .ret (.ok (.refused (fail .malformed)))
  | some parsed =>
    if ¬ (e.peppers.get parsed.kid).isSome then .ret (.ok (.refused (fail .unknownKid)))
    else method (.findBySelector parsed.selector) (refreshFound H e parsed deviceID now d)

/-- `RevokeToken` after its lookup. -/
def revokeFound (parsed : ParsedToken) : Option TokenRecord → GoM φ RevokeResult
  | none => .ret (.ok (.refused (fail .notFound)))
  | some record =>
    match e.peppers.get record.kid with
    | none => .ret (.ok (.refused (fail .unknownKid)))
    | some recordPepper =>
      if !constantTimeEqualHex (hashVerifier H recordPepper parsed.verifier) record.verifierHash then
        .ret (.ok (.refused (failWith .verifierMismatch record)))
      else
        method (.revokeFamily record.familyId) fun revoked =>
          .ret (.ok (.ok record.userId record.familyId revoked))

/-- `RevokeToken`. -/
def revokeToken (token : Bytes) : GoM φ RevokeResult :=
  match parseToken false token with
  | none => .ret (.ok (.refused (fail .malformed)))
  | some parsed =>
    if ¬ (e.peppers.get parsed.kid).isSome then .ret (.ok (.refused (fail .unknownKid)))
    else method (.findBySelector parsed.selector) (revokeFound H e parsed)

/-- `RevokeFamily`: what the store returns. -/
def revokeFamily (familyID : Str) : GoM φ ℕ :=
  method (.revokeFamily familyID) fun n => .ret (.ok n)

/-- `RevokeAllForUser`: what the store returns. -/
def revokeAllForUser (userID : Str) : GoM φ ℕ :=
  method (.revokeUser userID) fun n => .ret (.ok n)

/-- A method of the engine whose result is one of the outcomes. -/
def report {α : Type} (f : α → Outcome) (p : GoM φ α) : GoM φ Outcome := p.bind fun x => .ret (x.map f)

/-- The program of an operation, on the bytes of its texts. -/
def code : Operation → GoM φ Outcome
  | .issue c => report .issued (issue H c.engine c.userId (c.deviceId.map utf8) c.now c.draw)
  | .refresh c => report .refreshed (refresh H c.engine (utf8 c.token) (c.deviceId.map utf8) c.now c.draw)
  | .revokeToken engine token => report .revoked (revokeToken H engine (utf8 token))
  | .revokeFamily familyId => report .count (revokeFamily familyId)
  | .revokeAllForUser userId => report .count (revokeAllForUser userId)

end Engine

/-! ### Agreement -/

/-- A program of the engine, over a store whose methods return errors. -/
abbrev returning (φ : Type) {α : Type} (p : StoreM α) : GoM φ α := (fallible φ p).adapt (returned φ)

section Agreement

variable {φ α : Type} {H : HmacSha256} {e : NebulaEngine}

/-- **To check each error is to end with the first one.** -/
theorem method_eq {q : StoreCall} {k : q.Reply → GoM φ α} {k₀ : q.Reply → StoreM α}
    (h : ∀ r, k r = returning φ (k₀ r)) : method q k = returning φ (store q >>= k₀) := by
  refine congrArg (Prog.call q) (funext fun r => ?_)
  obtain ⟨value, err⟩ := r
  cases err with
  | none => exact h value
  | some err => rfl

theorem isLowerHex64_eq (s : Bytes) : isLowerHex64 s = lowerHex64 s := by
  have hchar : ∀ c : UInt8, (!((c.toNat < 48 || 57 < c.toNat) && (c.toNat < 97 || 102 < c.toNat)) : Bool) =
      isLowerHexByte c := by
    intro c
    rw [Bool.eq_iff_iff]
    unfold isLowerHexByte
    simp only [Bool.not_eq_true', Bool.and_eq_false_iff, Bool.or_eq_false_iff, decide_eq_false_iff_not,
      Bool.or_eq_true, Bool.and_eq_true, decide_eq_true_eq]
    omega
  unfold isLowerHex64 lowerHex64
  by_cases hlen : s.length = hashHexChars
  · rw [if_neg (not_not.mpr hlen), hlen, beq_self_eq_true, Bool.true_and]
    exact congrArg s.all (funext hchar)
  · rw [if_pos hlen, beq_false_of_ne hlen, Bool.false_and]

theorem constantTimeEqualHex_eq (a b : Str) :
    constantTimeEqualHex a b = Token.Wire.constantTimeEqualHex a b := by
  rw [← equalHex_utf8]
  unfold constantTimeEqualHex equalHex
  rw [isLowerHex64_eq, isLowerHex64_eq]
  cases lowerHex64 (utf8 a) with
  | false => rfl
  | true =>
    cases lowerHex64 (utf8 b) with
    | false => rfl
    | true => rfl

theorem hashDeviceID_valid {device : Bytes} (h : validUtf8 device = true) (pepper : Str) :
    hashDeviceID H pepper device = .ok (deviceHash H pepper device) := if_neg (not_not.mpr h)

theorem mint_eq (userID familyID : Str) (generation : ℕ) (hash : Option Str) (familyExpiresAt now : ℤ)
    (d : Draw) : mint H e userID familyID generation hash familyExpiresAt now d =
      Bytes.mint H e userID familyID generation hash familyExpiresAt now d := by
  have hidle : (if now + e.idleTtl > familyExpiresAt then familyExpiresAt else now + e.idleTtl) =
      min (now + e.idleTtl) familyExpiresAt := by
    split_ifs with h
    · exact (min_eq_right h.le).symm
    · exact (min_eq_left (not_lt.mp h)).symm
  have htoken : nblPrefix ++ [dot] ++ e.activeKid ++ [dot] ++ base64urlEncode d.selector ++ [dot] ++
      base64urlEncode d.verifier = tokenString e.activeKid (base64urlEncode d.selector) d.verifier := by
    rw [tokenString_eq]
    simp only [List.append_assoc, List.cons_append, List.nil_append]
  unfold mint Bytes.mint
  dsimp only
  rw [hidle, htoken]
  rfl

theorem deviceRefused_eq {deviceId : Option Str} (hd : Unicode deviceId) (record : TokenRecord)
    (pepper : Str) : (record.deviceIdHash.isSome && !deviceMatches H record pepper (deviceId.map utf8)) =
      Engine.Operations.deviceRefused H record pepper deviceId := by
  unfold Engine.Operations.deviceRefused Engine.Operations.deviceMatches deviceMatches
  cases deviceId with
  | none => cases record.deviceIdHash <;> rfl
  | some dev =>
    cases record.deviceIdHash with
    | none => rfl
    | some stored =>
      dsimp only [Option.map_some]
      rw [hashDeviceID_valid (validUtf8_utf8 dev), hashDeviceId_bytes (hd dev rfl)]
      dsimp only
      rw [constantTimeEqualHex_eq]

theorem revokeAndFail_eq (code : NebulaErrorCode) (record : TokenRecord) :
    (revokeAndFail code record : GoM φ RefreshResult) =
      returning φ (Engine.Operations.burn code record) := method_eq fun _ => rfl

theorem rotate_eq {deviceId : Option Str} (hd : Unicode deviceId) (record : TokenRecord) (now : ℤ)
    (f : TokenStatus) (t : ℤ) (d : Draw) : rotate H e record (deviceId.map utf8) now f t d =
      returning φ (Engine.Operations.rotate H e record deviceId now f t d) := by
  have hhash : rotationHash H e record (deviceId.map utf8) =
      .ok (carriedHash H e record (deviceId.map utf8)) := by
    unfold rotationHash carriedHash
    cases record.deviceIdHash with
    | none => rfl
    | some stored =>
      cases deviceId with
      | none => rfl
      | some dev =>
        dsimp only [Option.map_some]
        rw [hashDeviceID_valid (validUtf8_utf8 dev)]
        rfl
  unfold rotate Engine.Operations.rotate
  rw [hhash, migrateDevice_bytes hd]
  dsimp only
  rw [mint_eq]
  refine method_eq fun _ => method_eq fun applied => ?_
  cases applied with
  | true => rfl
  | false => exact method_eq fun _ => rfl

theorem handleReuse_eq {deviceId : Option Str} (hd : Unicode deviceId) (record : TokenRecord)
    (pepper : Str) (now : ℤ) (d : Draw) : handleReuse H e record pepper (deviceId.map utf8) now d =
      returning φ (Engine.Operations.handleReuse H e record pepper deviceId now d) := by
  unfold handleReuse Engine.Operations.handleReuse withinGrace
  rw [windowOpen_eq]
  cases hg : Engine.Operations.withinGrace e record now with
  | none => exact revokeAndFail_eq .reuseDetected record
  | some x =>
    obtain ⟨t, q⟩ := x
    obtain ⟨ht, hq, -⟩ := Engine.Operations.withinGrace_some hg
    rw [if_pos Option.isSome_some, hq]
    refine method_eq fun found => ?_
    unfold Engine.Operations.displace Engine.Operations.unused
    cases found with
    | none => exact revokeAndFail_eq .reuseDetected record
    | some successor =>
      dsimp only [handleSuccessor]
      by_cases hs : successor.status = .active
      · rw [if_pos hs, if_pos hs, ht, deviceRefused_eq hd]
        dsimp only
        split_ifs
        · exact revokeAndFail_eq .deviceMismatch record
        · refine method_eq fun consumed => ?_
          cases consumed with
          | true => exact rotate_eq hd record now .rotated t d
          | false => rfl
      · rw [if_neg hs, if_neg hs]
        exact revokeAndFail_eq .reuseDetected record

/-- Step 4, for any use of what it comes to. -/
theorem proveVerifier_match {β : Type} (parsed : ParsedToken) (record : TokenRecord)
    (refused : RefreshFailure → β) (proved : Str → β) :
    (match e.peppers.get record.kid with
      | none => refused (fail .unknownKid)
      | some recordPepper =>
        if !constantTimeEqualHex (hashVerifier H recordPepper parsed.verifier) record.verifierHash then
          refused (failWith .verifierMismatch record)
        else proved recordPepper) =
      match Engine.Operations.proveVerifier H e record parsed with
      | .error failure => refused failure
      | .ok recordPepper => proved recordPepper := by
  unfold Engine.Operations.proveVerifier
  cases e.peppers.get record.kid with
  | none => rfl
  | some recordPepper =>
    dsimp only
    rw [constantTimeEqualHex_eq]
    have hv : hashVerifier H recordPepper parsed.verifier =
        Token.Wire.hashVerifier H recordPepper parsed.verifier := rfl
    rw [hv]
    cases Token.Wire.constantTimeEqualHex (Token.Wire.hashVerifier H recordPepper parsed.verifier)
      record.verifierHash with
    | true => rfl
    | false => rfl

/-- **The Go port refreshes as the engine does**, and returns the first error of the store. -/
theorem refresh_eq {deviceId : Option Str} (hd : Unicode deviceId) (token : Str) (now : ℤ) (d : Draw) :
    refresh H e (utf8 token) (deviceId.map utf8) now d =
      returning φ (Engine.Operations.refresh H e token deviceId now d) := by
  unfold refresh Engine.Operations.refresh Engine.Operations.parseConfigured
  rw [parseToken_utf8]
  cases Token.Wire.parseToken token with
  | none => rfl
  | some parsed =>
    dsimp only
    by_cases hk : (e.peppers.get parsed.kid).isSome = true
    · rw [if_neg (not_not.mpr hk), if_pos hk]
      refine method_eq fun found => ?_
      cases found with
      | none => rfl
      | some record =>
        unfold refreshFound Engine.Operations.refreshFound
        dsimp only
        refine (proveVerifier_match parsed record
          (fun failure => (.ret (.ok (.refused failure)) : GoM φ RefreshResult)) _).trans ?_
        cases Engine.Operations.proveVerifier H e record parsed with
        | error failure => rfl
        | ok pepper =>
          dsimp only
          unfold Engine.Operations.refreshProved
          rw [deviceRefused_eq hd, rotate_eq hd, handleReuse_eq hd, revokeAndFail_eq, revokeAndFail_eq,
            revokeAndFail_eq]
          cases record.status with
          | active =>
            dsimp only
            rw [if_neg (by decide), if_neg (by decide)]
            split_ifs
            · rfl
            · rfl
            · rfl
            · rfl
          | rotated => rfl
          | revoked => rfl
    · rw [if_pos hk, if_neg hk]
      rfl

theorem revokeToken_eq (token : Str) :
    revokeToken H e (utf8 token) = returning φ (Engine.Operations.revokeToken H e token) := by
  unfold revokeToken Engine.Operations.revokeToken Engine.Operations.parseConfigured
  rw [parseToken_utf8]
  cases Token.Wire.parseToken token with
  | none => rfl
  | some parsed =>
    dsimp only
    by_cases hk : (e.peppers.get parsed.kid).isSome = true
    · rw [if_neg (not_not.mpr hk), if_pos hk]
      refine method_eq fun found => ?_
      cases found with
      | none => rfl
      | some record =>
        unfold revokeFound Engine.Operations.revokeFound
        dsimp only
        refine (proveVerifier_match parsed record
          (fun failure => (.ret (.ok (.refused failure)) : GoM φ RevokeResult)) _).trans ?_
        cases Engine.Operations.proveVerifier H e record parsed with
        | error failure => rfl
        | ok pepper => exact method_eq fun n => rfl
    · rw [if_pos hk, if_neg hk]
      rfl

theorem issue_eq {deviceId : Option Str} (hd : Unicode deviceId) (userId : Str) (now : ℤ)
    (d : IssueDraw) : issue H e userId (deviceId.map utf8) now d =
      returning φ (Engine.Operations.issue H e userId deviceId now d) := by
  have hhash : issueHash H e (deviceId.map utf8) =
      .ok ((deviceId.map utf8).map (deviceHash H e.activePepper)) := by
    cases deviceId with
    | none => rfl
    | some dev =>
      dsimp only [Option.map_some, issueHash]
      rw [hashDeviceID_valid (validUtf8_utf8 dev)]
      rfl
  unfold issue Engine.Operations.issue
  rw [hhash, bindDevice_bytes hd]
  dsimp only
  rw [mint_eq]
  exact method_eq fun _ => rfl

/-- An outcome of the engine, over a store whose methods return errors. -/
theorem report_eq (f : α → Outcome) (p : StoreM α) :
    report f (returning φ p) = returning φ (f <$> p) := by
  unfold returning
  rw [fallible_map, Prog.adapt_map]
  rfl

/-- **Each operation is the program of the engine**, which ends with the first error of the store. -/
theorem code_eq {op : Operation} (h : Portable op) : code H op = returning φ (Runs.Calls.code H op) := by
  cases op with
  | issue c => exact (congrArg (report _) (issue_eq h c.userId c.now c.draw)).trans (report_eq _ _)
  | refresh c => exact (congrArg (report _) (refresh_eq h c.token c.now c.draw)).trans (report_eq _ _)
  | revokeToken e token => exact (congrArg (report _) (revokeToken_eq token)).trans (report_eq _ _)
  | revokeFamily familyId =>
    exact (congrArg (report _) (method_eq fun _ => rfl)).trans (report_eq _ (store (.revokeFamily familyId)))
  | revokeAllForUser userId =>
    exact (congrArg (report _) (method_eq fun _ => rfl)).trans (report_eq _ (store (.revokeUser userId)))

end Agreement

end NebulaToken.Ports.Go
