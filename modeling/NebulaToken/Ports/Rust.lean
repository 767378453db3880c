import NebulaToken.Engine.Operations
import NebulaToken.Ports.Bytes

/-! # The Rust port

Its engine looks for the successor of a grace retry in a function of its own, which asks for the
preconditions in another order. A `&str` is the bytes of its UTF-8 form. The crates it decodes, prints and
compares with are parameters, and what they document is assumed of them.

* `Crates`, `Crates.Documented`: the crates;
* `parseToken_eq`, `issue_eq`, `refresh_eq`, `revokeToken_eq`: it does what the engine does. -/

namespace NebulaToken.Ports.Rust

open NebulaToken.Lib.Program NebulaToken.Lib.Codec NebulaToken.Lib.KeyedTable
open NebulaToken.Token.Unicode NebulaToken.Token.Utf8 NebulaToken.Token.Wire
open NebulaToken.Engine.Records NebulaToken.Engine.Config NebulaToken.Ports.Bytes
open NebulaToken.Engine.Operations (Draw IssueDraw)

/-! ### The crates -/

/-- What the port calls in the crates `base64` (its engine `URL_SAFE_NO_PAD`), `hex` and `subtle`. -/
structure Crates where
  encode : List UInt8 → Str
  decode : Bytes → Option (List UInt8)
  hexEncode : List UInt8 → Str
  ctEq : Bytes → Bytes → Bool

/-- **What the crates document**: base64url without padding and its inverse, lower-case hexadecimal
digits, and the equality of slices. -/
structure Crates.Documented (C : Crates) : Prop where
  encode : ∀ b, C.encode b = base64urlEncode b
  decode_encode : ∀ b, C.decode (utf8 (C.encode b)) = some b
  hexEncode : ∀ b, C.hexEncode b = Lib.Codec.hexEncode b
  ctEq : ∀ a b, C.ctEq a b = true ↔ a = b

variable (C : Crates)

/-! ### The primitives -/

/-- `is_b64url`. -/
def isB64url (s : Bytes) : Bool := !s.isEmpty && s.all isB64urlByte

/-- The checks of `parse_token` on the four parts. -/
def parseParts (pre kid selector verifierB64 : Bytes) : Option ParsedToken :=
  if pre ≠ nblBytes then none
  else if kid.isEmpty ∨ kid.length > maxKidLength then none
  else if selector.length ≠ selectorChars ∨ verifierB64.length ≠ verifierChars then none
  else if ¬ isB64url kid ∨ ¬ isB64url selector ∨ ¬ isB64url verifierB64 then none
  else do
    let verifier ← C.decode verifierB64
    if verifier.length ≠ verifierBytes then none
    else if utf8 (C.encode verifier) ≠ verifierB64 then none
    else some { kid := ofAscii kid, selector := ofAscii selector, verifier }

/-- `parse_token`. -/
def parseToken (token : Bytes) : Option ParsedToken :=
  if token.length > maxTokenLength then none
  else
    match token.splitOn dotByte with
    | [pre, kid, selector, verifierB64] => parseParts C pre kid selector verifierB64
    | _ => none

variable (H : HmacSha256) (e : NebulaEngine)

/-- `hash_verifier`. -/
def hashVerifier (pepper : Str) (verifier : List UInt8) : Str :=
  C.hexEncode (H.run (utf8 pepper) verifier)

/-- `hash_device_id`. -/
def hashDeviceId (pepper : Str) (deviceId : Bytes) : Str :=
  C.hexEncode (H.run (utf8 pepper) (deviceBytes ++ deviceId))

/-- `constant_time_equal_hex`. -/
def constantTimeEqualHex (aHex bHex : Str) : Bool :=
  if ¬ lowerHex64 (utf8 aHex) ∨ ¬ lowerHex64 (utf8 bHex) then false else C.ctEq (utf8 aHex) (utf8 bHex)

/-! ### The engine -/

/-- `refuse`. -/
def refuse (code : NebulaErrorCode) : StoreM RefreshResult := return .refused (.unresolved code)

/-- `refuse_with`. -/
def refuseWith (code : NebulaErrorCode) (record : TokenRecord) : StoreM RefreshResult :=
  return .refused (fail code record)

/-- `mint`. -/
def mint (userId familyId : Str) (generation : ℕ) (deviceIdHash : Option Str) (familyExpiresAt now : ℤ)
    (d : Draw) : Str × TokenRecord :=
  let selector := C.encode d.selector
  let record : TokenRecord := {
    selector
    verifierHash := hashVerifier C H e.activePepper d.verifier
    kid := e.activeKid
    familyId
    generation
    userId
    deviceIdHash
    createdAt := now
    familyExpiresAt
    idleExpiresAt := min (now + e.idleTtl) familyExpiresAt
    status := .active
    rotatedAt := none
    replacedBySelector := none }
  let token := nblPrefix ++ [dot] ++ e.activeKid ++ [dot] ++ selector ++ [dot] ++ C.encode d.verifier
  (token, record)

/-- `device_matches`. -/
def deviceMatches (record : TokenRecord) (recordPepper : Str) (deviceId : Option Bytes) : Bool :=
  match deviceId, record.deviceIdHash with
  | some d, some h => constantTimeEqualHex C (hashDeviceId C H recordPepper d) h
  | _, _ => false

/-- The binding that `rotate` gives the successor. -/
def rotationHash (record : TokenRecord) (deviceId : Option Bytes) : Option Str :=
  match record.deviceIdHash, deviceId with
  | some _, some dev => some (hashDeviceId C H e.activePepper dev)
  | stored, _ => stored

/-- `rotate`. -/
def rotate (record : TokenRecord) (deviceId : Option Bytes) (now : ℤ) (fromStatus : TokenStatus)
    (rotatedAt : ℤ) (d : Draw) : StoreM RefreshResult := do
  let deviceIdHash := rotationHash C H e record deviceId
  let (token, next) := mint C H e record.userId record.familyId (record.generation + 1) deviceIdHash
    record.familyExpiresAt now d
  store (.insert next)
  let applied ← store (.markRotated record.selector fromStatus rotatedAt next.selector)
  if ¬ applied then do
    let _ ← store (.revokeIfActive next.selector)
    refuseWith .conflict record
  else
    return .ok {
      token
      userId := record.userId
      familyId := record.familyId
      generation := next.generation
      expiresAt := next.familyExpiresAt
      idleExpiresAt := next.idleExpiresAt }

/-- `grace_successor`. With unbounded integers `saturating_sub` subtracts. -/
def graceSuccessor (record : TokenRecord) (now : ℤ) : StoreM (Option TokenRecord) :=
  if e.reuseGrace ≤ 0 then return none
  else
    match record.rotatedAt with
    | none => return none
    | some rotatedAt =>
      if now - rotatedAt > e.reuseGrace then return none
      else
        match record.replacedBySelector with
        | none => return none
        | some replacedBy =>
          if now ≥ record.familyExpiresAt then return none
          else do
            let found ← store (.findBySelector replacedBy)
            return found.filter fun s => s.status == .active

/-- `handle_reuse` with what `grace_successor` found. -/
def retryOrBurn (record : TokenRecord) (recordPepper : Str) (deviceId : Option Bytes) (now : ℤ)
    (d : Draw) : Option TokenRecord → StoreM RefreshResult
  | some successor =>
    if record.deviceIdHash.isSome && !deviceMatches C H record recordPepper deviceId then do
      let _ ← store (.revokeFamily record.familyId)
      refuseWith .deviceMismatch record
    else do
      let consumed ← store (.revokeIfActive successor.selector)
      if ¬ consumed then refuseWith .conflict record
      else
        let rotatedAt := record.rotatedAt.getD now
        rotate C H e record deviceId now .rotated rotatedAt d
  | none => do
    let _ ← store (.revokeFamily record.familyId)
    refuseWith .reuseDetected record

/-- `handle_reuse`. -/
def handleReuse (record : TokenRecord) (recordPepper : Str) (deviceId : Option Bytes) (now : ℤ)
    (d : Draw) : StoreM RefreshResult := do
  let successor ← graceSuccessor e record now
  retryOrBurn C H e record recordPepper deviceId now d successor

/-- `refresh` after its lookup. -/
def refreshFound (parsed : ParsedToken) (deviceId : Option Bytes) (now : ℤ) (d : Draw) :
    Option TokenRecord → StoreM RefreshResult
  | none => refuse .notFound
  | some record =>
    match e.peppers.get record.kid with
    | none => refuse .unknownKid
    | some recordPepper =>
      if ¬ constantTimeEqualHex C (hashVerifier C H recordPepper parsed.verifier) record.verifierHash then
        refuseWith .verifierMismatch record
      else
        match record.status with
        | .rotated => handleReuse C H e record recordPepper deviceId now d
        | .revoked => refuseWith .revoked record
        | .active =>
          if now ≥ record.familyExpiresAt then do
            let _ ← store (.revokeFamily record.familyId)
            refuseWith .expiredAbsolute record
          else if now ≥ record.idleExpiresAt then do
            let _ ← store (.revokeFamily record.familyId)
            refuseWith .expiredIdle record
          else if record.deviceIdHash.isSome && !deviceMatches C H record recordPepper deviceId then do
            let _ ← store (.revokeFamily record.familyId)
            refuseWith .deviceMismatch record
          else rotate C H e record deviceId now .active now d

/-- `refresh`. -/
def refresh (token : Bytes) (deviceId : Option Bytes) (now : ℤ) (d : Draw) : StoreM RefreshResult :=
  match parseToken C token with
  | none => refuse .malformed
  | some parsed =>
    if ¬ (e.peppers.get parsed.kid).isSome then refuse .unknownKid
    else do
      let found ← store (.findBySelector parsed.selector)
      refreshFound C H e parsed deviceId now d found

/-- `revoke_token` after its lookup. -/
def revokeFound (parsed : ParsedToken) : Option TokenRecord → StoreM RevokeResult
  | none => return .refused (.unresolved .notFound)
  | some record =>
    match e.peppers.get record.kid with
    | none => return .refused (.unresolved .unknownKid)
    | some recordPepper =>
      if ¬ constantTimeEqualHex C (hashVerifier C H recordPepper parsed.verifier) record.verifierHash then
        return .refused (fail .verifierMismatch record)
      else do
        let revoked ← store (.revokeFamily record.familyId)
        return .ok record.userId record.familyId revoked

/-- `revoke_token`. -/
def revokeToken (token : Bytes) : StoreM RevokeResult :=
  match parseToken C token with
  | none => return .refused (.unresolved .malformed)
  | some parsed =>
    if ¬ (e.peppers.get parsed.kid).isSome then return .refused (.unresolved .unknownKid)
    else do
      let found ← store (.findBySelector parsed.selector)
      revokeFound C H e parsed found

/-- `issue`. -/
def issue (userId : Str) (deviceId : Option Bytes) (now : ℤ) (d : IssueDraw) : StoreM IssueResult := do
  let familyId := C.hexEncode d.family
  let familyExpiresAt := now + e.absoluteTtl
  let deviceIdHash := deviceId.map (hashDeviceId C H e.activePepper)
  let (token, record) := mint C H e userId familyId 0 deviceIdHash familyExpiresAt now d.toDraw
  let idleExpiresAt := record.idleExpiresAt
  store (.insert record)
  return { token, userId, familyId, generation := 0, expiresAt := familyExpiresAt, idleExpiresAt }

/-! ### Agreement -/

variable {C} {H} {e}

theorem isB64url_iff {s : Bytes} : isB64url s = true ↔ 0 < s.length ∧ s.all isB64urlByte = true := by
  rw [isB64url, Bool.and_eq_true, Bool.not_eq_true', List.isEmpty_eq_false_iff, List.length_pos_iff]

theorem parseParts_iff (hC : C.Documented) {a b c d : Bytes} {p : ParsedToken} :
    parseParts C a b c d = some p ↔ PartsOf a b c d p := by
  constructor
  · intro h
    unfold parseParts at h
    simp only [Option.ite_none_left_eq_some] at h
    obtain ⟨hpre, hkid, hlen, htest, h⟩ := h
    obtain ⟨v, hv, h⟩ := Option.bind_eq_some_iff.mp h
    simp only [Option.ite_none_left_eq_some, hC.encode] at h
    obtain ⟨hvlen, hcanon, h⟩ := h
    rw [not_or, not_or, not_not, not_not, not_not, isB64url_iff, isB64url_iff] at htest
    rw [not_or, not_not, not_not] at hlen
    rw [not_or] at hkid
    exact partsOf_iff.mpr ⟨v, ⟨not_not.mp hpre, htest.1.1, Nat.le_of_not_lt hkid.2, htest.1.2, hlen.1,
      htest.2.1.2, not_not.mp hcanon, not_not.mp hvlen⟩, (Option.some.inj h).symm⟩
  · intro h
    have hd := h.verifier_checks
    obtain ⟨v, hc, rfl⟩ := partsOf_iff.mp h
    have hsel : 0 < c.length := by
      rw [hc.selector_length]
      decide
    have hver : 0 < d.length := by
      rw [hd.1]
      decide
    have hne : ¬ (b.isEmpty = true ∨ b.length > maxKidLength) := by
      rw [not_or, List.isEmpty_iff]
      exact ⟨List.ne_nil_of_length_pos hc.kid_pos, Nat.not_lt.mpr hc.kid_length⟩
    have hdec : C.decode d = some v := by
      rw [← hc.canonical, ← hC.encode]
      exact hC.decode_encode v
    unfold parseParts
    rw [if_neg (not_not.mpr hc.pre), if_neg hne,
      if_neg (not_or.mpr ⟨not_not.mpr hc.selector_length, not_not.mpr hd.1⟩),
      if_neg (by
        rw [not_or, not_or, not_not, not_not, not_not, isB64url_iff, isB64url_iff, isB64url_iff]
        exact ⟨⟨hc.kid_pos, hc.kid_test⟩, ⟨hsel, hc.selector_test⟩, hver, hd.2⟩), hdec]
    show (if _ then none else if _ then none else some _) = some _
    rw [if_neg (not_not.mpr hc.verifier_length), hC.encode, if_neg (not_not.mpr hc.canonical)]

/-- **The parsers agree.** -/
theorem parseToken_eq (hC : C.Documented) (token : Str) :
    parseToken C (utf8 token) = Token.Wire.parseToken token := by
  refine parse_agrees (fun b p => ?_) token
  unfold parseToken
  rw [Option.ite_none_left_eq_some, Nat.not_lt]
  refine and_congr_right fun _ => ?_
  split
  · next pre kid selector verifierB64 hsplit =>
    rw [parseParts_iff hC]
    constructor
    · intro h
      exact ⟨_, _, _, _, hsplit, h⟩
    · rintro ⟨a', b', c', d', hsplit', h⟩
      rw [hsplit] at hsplit'
      cases hsplit'
      exact h
  · next hno =>
    refine ⟨fun h => (by cases h), ?_⟩
    rintro ⟨a', b', c', d', hsplit', -⟩
    exact absurd hsplit' (hno a' b' c' d')

/-! ### The engine agrees -/

variable {deviceId : Option Str}

theorem constantTimeEqualHex_eq (hC : C.Documented) (a b : Str) :
    constantTimeEqualHex C a b = Token.Wire.constantTimeEqualHex a b := by
  have hct : C.ctEq (utf8 a) (utf8 b) = (utf8 a == utf8 b) := by
    rw [Bool.eq_iff_iff, hC.ctEq, beq_iff_eq]
  rw [← equalHex_utf8, constantTimeEqualHex, equalHex, hct]
  cases lowerHex64 (utf8 a) <;> cases lowerHex64 (utf8 b) <;> rfl

theorem hashVerifier_eq (hC : C.Documented) (pepper : Str) (verifier : List UInt8) :
    hashVerifier C H pepper verifier = Token.Wire.hashVerifier H pepper verifier := hC.hexEncode _

theorem hashDeviceId_eq (hC : C.Documented) (pepper : Str) (deviceId : Bytes) :
    hashDeviceId C H pepper deviceId = deviceHash H pepper deviceId := hC.hexEncode _

theorem mint_eq (hC : C.Documented) (userId familyId : Str) (generation : ℕ) (hash : Option Str)
    (familyExpiresAt now : ℤ) (d : Draw) :
    mint C H e userId familyId generation hash familyExpiresAt now d =
      Bytes.mint H e userId familyId generation hash familyExpiresAt now d := by
  simp only [mint, Bytes.mint, hC.encode, hashVerifier_eq hC, tokenString_eq, List.append_assoc,
    List.singleton_append]
  rfl

theorem deviceMatches_eq (hC : C.Documented) (hd : Unicode deviceId) (record : TokenRecord)
    (pepper : Str) : deviceMatches C H record pepper (deviceId.map utf8) =
      Engine.Operations.deviceMatches H record pepper deviceId := by
  rw [deviceMatches_bytes hd]
  unfold deviceMatches
  cases deviceId.map utf8 with
  | none => rfl
  | some dev =>
    cases record.deviceIdHash with
    | none => rfl
    | some stored =>
      dsimp only
      rw [constantTimeEqualHex_eq hC, ← equalHex_utf8, hashDeviceId_eq hC]

theorem rotationHash_eq (hC : C.Documented) (record : TokenRecord) (deviceId : Option Bytes) :
    rotationHash C H e record deviceId = carriedHash H e record deviceId := by
  unfold rotationHash carriedHash
  cases record.deviceIdHash with
  | none => rfl
  | some stored =>
    cases deviceId with
    | none => rfl
    | some dev => exact congrArg some (hashDeviceId_eq hC e.activePepper dev)

theorem rotate_eq (hC : C.Documented) (hd : Unicode deviceId)
    (record : TokenRecord) (now : ℤ) (f : TokenStatus) (t : ℤ) (d : Draw) :
    rotate C H e record (deviceId.map utf8) now f t d =
      Engine.Operations.rotate H e record deviceId now f t d := by
  unfold Engine.Operations.rotate rotate
  rw [migrateDevice_bytes hd, rotationHash_eq hC]
  dsimp only
  rw [mint_eq hC]
  refine congrArg (Prog.call _) (funext fun _ => congrArg (Prog.call _) (funext fun applied => ?_))
  cases applied with
  | true => rfl
  | false => rfl

/-- The preconditions come in another order, and come to the same. -/
theorem graceSuccessor_eq (record : TokenRecord) (now : ℤ) : graceSuccessor e record now =
    match Engine.Operations.withinGrace e record now with
    | none => return none
    | some (_, replacedBy) => do
      let found ← store (.findBySelector replacedBy)
      return Engine.Operations.unused found := by
  have hfilter : ∀ found : Option TokenRecord,
      (found.filter fun s => s.status == .active) = Engine.Operations.unused found := by
    rintro (_ | r)
    · rfl
    · unfold Engine.Operations.unused
      rw [Option.filter_some]
      exact if_congr beq_iff_eq rfl rfl
  unfold graceSuccessor Engine.Operations.withinGrace
  cases record.rotatedAt with
  | none =>
    dsimp only
    split_ifs
    · rfl
    · rfl
  | some rotatedAt =>
    cases record.replacedBySelector with
    | none =>
      dsimp only
      split_ifs
      · rfl
      · rfl
      · rfl
    | some replacedBy =>
      dsimp only
      split_ifs with h₁ h₂ h₃ h₄ h₅ h₆ h₇
      all_goals first | omega | rfl | skip
      exact congrArg (Prog.call _) (funext fun found => congrArg Prog.ret (hfilter found))

theorem deviceRefused_eq (hC : C.Documented) (hd : Unicode deviceId) (record : TokenRecord)
    (pepper : Str) : (record.deviceIdHash.isSome && !deviceMatches C H record pepper (deviceId.map utf8)) =
      Engine.Operations.deviceRefused H record pepper deviceId := by
  rw [deviceMatches_eq hC hd]
  rfl

theorem handleReuse_eq (hC : C.Documented) (hd : Unicode deviceId) (record : TokenRecord)
    (pepper : Str) (now : ℤ) (d : Draw) : handleReuse C H e record pepper (deviceId.map utf8) now d =
      Engine.Operations.handleReuse H e record pepper deviceId now d := by
  unfold handleReuse Engine.Operations.handleReuse
  rw [graceSuccessor_eq]
  cases hg : Engine.Operations.withinGrace e record now with
  | none => rfl
  | some x =>
    obtain ⟨t, q⟩ := x
    refine congrArg (Prog.call _) (funext fun found => ?_)
    show retryOrBurn C H e record pepper (deviceId.map utf8) now d (Engine.Operations.unused found) =
      Engine.Operations.displace H e record pepper deviceId now t d found
    unfold Engine.Operations.displace
    cases Engine.Operations.unused found with
    | none => rfl
    | some successor =>
      unfold retryOrBurn
      rw [(Engine.Operations.withinGrace_some hg).1, deviceRefused_eq hC hd]
      refine if_congr Iff.rfl rfl (congrArg (Prog.call _) (funext fun consumed => ?_))
      cases consumed with
      | true => exact rotate_eq hC hd record now .rotated t d
      | false => rfl

/-- Steps 4 to 10. -/
theorem refreshFound_eq (hC : C.Documented) (hd : Unicode deviceId) (parsed : ParsedToken) (now : ℤ)
    (d : Draw) (found : Option TokenRecord) :
    refreshFound C H e parsed (deviceId.map utf8) now d found =
      Engine.Operations.refreshFound H e parsed deviceId now d found := by
  cases found with
  | none => rfl
  | some record =>
    unfold refreshFound Engine.Operations.refreshFound Engine.Operations.proveVerifier
    dsimp only
    cases e.peppers.get record.kid with
    | none => rfl
    | some pepper =>
      dsimp only
      rw [constantTimeEqualHex_eq hC, hashVerifier_eq hC, ite_not]
      by_cases hv : Token.Wire.constantTimeEqualHex (Token.Wire.hashVerifier H pepper parsed.verifier)
        record.verifierHash = true
      · rw [if_pos hv, if_pos hv]
        dsimp only
        unfold Engine.Operations.refreshProved
        cases record.status with
        | rotated => exact handleReuse_eq hC hd record pepper now d
        | revoked => rfl
        | active =>
          dsimp only
          rw [deviceRefused_eq hC hd, rotate_eq hC hd]
          rfl
      · rw [if_neg hv, if_neg hv]
        rfl

/-- **The Rust port refreshes as the engine does.** -/
theorem refresh_eq (hC : C.Documented) (hd : Unicode deviceId) (token : Str) (now : ℤ) (d : Draw) :
    refresh C H e (utf8 token) (deviceId.map utf8) now d =
      Engine.Operations.refresh H e token deviceId now d := by
  unfold refresh Engine.Operations.refresh Engine.Operations.parseConfigured
  rw [parseToken_eq hC]
  cases Token.Wire.parseToken token with
  | none => rfl
  | some parsed =>
    dsimp only
    rw [ite_not]
    split_ifs
    · exact congrArg (Prog.call _) (funext fun found => refreshFound_eq hC hd parsed now d found)
    · rfl

theorem revokeFound_eq (hC : C.Documented) (parsed : ParsedToken) (found : Option TokenRecord) :
    revokeFound C H e parsed found = Engine.Operations.revokeFound H e parsed found := by
  cases found with
  | none => rfl
  | some record =>
    unfold revokeFound Engine.Operations.revokeFound Engine.Operations.proveVerifier
    dsimp only
    cases e.peppers.get record.kid with
    | none => rfl
    | some pepper =>
      dsimp only
      rw [constantTimeEqualHex_eq hC, hashVerifier_eq hC, ite_not]
      split_ifs with hv
      · rfl
      · rfl

theorem revokeToken_eq (hC : C.Documented) (token : Str) :
    revokeToken C H e (utf8 token) = Engine.Operations.revokeToken H e token := by
  unfold revokeToken Engine.Operations.revokeToken Engine.Operations.parseConfigured
  rw [parseToken_eq hC]
  cases Token.Wire.parseToken token with
  | none => rfl
  | some parsed =>
    dsimp only
    rw [ite_not]
    split_ifs
    · exact congrArg (Prog.call _) (funext fun found => revokeFound_eq hC parsed found)
    · rfl

theorem issue_eq (hC : C.Documented) (hd : Unicode deviceId) (userId : Str) (now : ℤ)
    (d : IssueDraw) : issue C H e userId (deviceId.map utf8) now d =
      Engine.Operations.issue H e userId deviceId now d := by
  unfold Engine.Operations.issue
  have hhash : hashDeviceId C H e.activePepper = deviceHash H e.activePepper :=
    funext fun dev => hashDeviceId_eq hC e.activePepper dev
  rw [bindDevice_bytes hd, issue, hhash, hC.hexEncode, mint_eq hC]
  rfl

end NebulaToken.Ports.Rust
