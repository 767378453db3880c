import NebulaToken.Ports.Bytes

/-! # The Ruby port

Its engine does not trust what a store returns: a status is normalised, and a compare-and-set may be
answered with a count of rows. A string is bytes with an encoding declared beside them, and need not be
valid; its base64 decoder refuses bits that are left over.

* `RubyString`, `utf8BytesOf`: a string, and the bytes its UTF-8 form has;
* `Row`, `Returned`: what a store returns, and `Engine`: the engine over any such replies;
* `Adapter`: how a store that keeps the contract reports a status and a compare-and-set;
* `parseToken_eq`, `issue_eq`, `refresh_eq`, `revokeToken_eq`: over such a store, for a token and a
  device tagged UTF-8, the port does what the engine does. -/

namespace NebulaToken.Ports.Ruby

open NebulaToken.Lib.Program NebulaToken.Lib.Codec NebulaToken.Lib.KeyedTable
open NebulaToken.Token.Unicode NebulaToken.Token.Utf8 NebulaToken.Token.Wire
open NebulaToken.Engine.Records NebulaToken.Engine.Config NebulaToken.Ports.Bytes
open NebulaToken.Engine.Operations (Draw IssueDraw)

/-! ### Strings -/

/-- A text encoding: the characters it reads in bytes, if it can and they are in Unicode. -/
structure TextEncoding where
  decode : Bytes → Option (List ℕ)
  scalars : ∀ {b l}, decode b = some l → ∀ c ∈ l, IsScalar c

/-- An encoding with at most one character for each byte; the first 128 are those of ASCII. -/
structure CharTable where
  char : UInt8 → Option ℕ
  ascii : ∀ {x : UInt8}, x.toNat < 0x80 → char x = some x.toNat
  scalar : ∀ {x c}, char x = some c → IsScalar c

/-- The characters of the bytes, if each has one. -/
def CharTable.read (t : CharTable) : Bytes → Option (List ℕ)
  | [] => some []
  | x :: b => do
    let c ← t.char x
    let l ← t.read b
    return c :: l

theorem CharTable.read_iff {t : CharTable} {b : Bytes} {l : List ℕ} :
    t.read b = some l ↔ List.Forall₂ (fun x c => t.char x = some c) b l := by
  induction b generalizing l with
  | nil =>
    rw [read, Option.some.injEq, List.forall₂_nil_left_iff]
    exact eq_comm
  | cons x b ih =>
    rw [read, List.forall₂_cons_left_iff]
    constructor
    · intro h
      obtain ⟨c, hc, h⟩ := Option.bind_eq_some_iff.mp h
      obtain ⟨l', hl, h⟩ := Option.bind_eq_some_iff.mp h
      obtain rfl := Option.some.inj h
      exact ⟨c, l', hc, ih.mp hl, rfl⟩
    · rintro ⟨c, l', hc, hl, rfl⟩
      rw [hc, ih.mpr hl]
      rfl

theorem CharTable.read_scalars (t : CharTable) {b : Bytes} {l : List ℕ} (h : t.read b = some l) :
    ∀ c ∈ l, IsScalar c := by
  rw [read_iff] at h
  induction h with
  | nil => simp
  | cons hc _ ih => exact List.forall_mem_cons.mpr ⟨t.scalar hc, ih⟩

/-- The encoding of a table. -/
def CharTable.encoding (t : CharTable) : TextEncoding where
  decode := t.read
  scalars := t.read_scalars

/-- A byte is the number of a character. -/
theorem scalar_of_byte (x : UInt8) : IsScalar x.toNat := by
  have hlt := x.toNat_lt
  refine ⟨by omega, ?_⟩
  rw [isSurrogate, Bool.and_eq_false_iff, decide_eq_false_iff_not]
  exact Or.inl (by omega)

/-- US-ASCII: a byte above it has no character. -/
def usAscii : CharTable where
  char x := if x.toNat < 0x80 then some x.toNat else none
  ascii h := if_pos h
  scalar {x c} h := by
    rw [Option.ite_none_right_eq_some] at h
    obtain rfl := Option.some.inj h.2
    exact scalar_of_byte x

/-- ISO-8859-1: every byte is the character of its number. -/
def iso88591 : CharTable where
  char x := some x.toNat
  ascii _ := rfl
  scalar {x c} h := by
    obtain rfl := Option.some.inj h
    exact scalar_of_byte x

/-- The tags: the two that are taken as they are, those of a table, and any other. -/
inductive Encoding
  | utf8
  | binary
  | usAscii
  | singleByte (t : CharTable)
  | text (t : TextEncoding)

/-- A string: bytes, and the encoding declared for them. -/
structure RubyString where
  bytes : Bytes
  encoding : Encoding

/-- `value.encode(Encoding::UTF_8)`. What it raises is rescued. -/
def encode (t : TextEncoding) (b : Bytes) : Option Bytes := (t.decode b).map fun l => l.flatMap utf8Bytes

/-- `utf8_bytes`. -/
def utf8BytesOf (value : RubyString) : Option Bytes := do
  let bytes ← match value.encoding with
    | .utf8 | .binary => some value.bytes
    | .usAscii => encode usAscii.encoding value.bytes
    | .singleByte t => encode t.encoding value.bytes
    | .text t => encode t value.bytes
  if validUtf8 bytes then some bytes else none

/-! ### What a store returns -/

/-- What a row has for a status; of a value that is neither, what `to_s` makes of it. -/
inductive StatusValue
  | symbol (status : TokenStatus)
  | string (name : Str)
  | other (name : Str)

/-- What a compare-and-set returns. -/
inductive CasValue
  | boolean (b : Bool)
  | integer (n : ℤ)
  | other

def statusName : TokenStatus → Str
  | .active => ascii ['a', 'c', 't', 'i', 'v', 'e']
  | .rotated => ascii ['r', 'o', 't', 'a', 't', 'e', 'd']
  | .revoked => ascii ['r', 'e', 'v', 'o', 'k', 'e', 'd']

/-- `STATUS_BY_NAME.fetch(name, STATUS_REVOKED)`. -/
def statusByName (name : Str) : TokenStatus :=
  if name = statusName .active then .active
  else if name = statusName .rotated then .rotated
  else .revoked

/-- `normalize_status`: what is not known is revoked. -/
def normalizeStatus : StatusValue → TokenStatus
  | .symbol status => status
  | .string name => statusByName name
  | .other name => statusByName name

/-- `cas_applied?`: what is neither is not applied. -/
def casApplied : CasValue → Bool
  | .boolean b => b
  | .integer n => decide (0 < n)
  | .other => false

/-- A row that a lookup returns. -/
structure Row where
  selector : Str
  verifierHash : Str
  kid : Str
  familyId : Str
  generation : ℕ
  userId : Str
  deviceIdHash : Option Str
  createdAt : ℤ
  familyExpiresAt : ℤ
  idleExpiresAt : ℤ
  status : StatusValue
  rotatedAt : Option ℤ
  replacedBySelector : Option Str

/-- The record it stands for. -/
def Row.record (r : Row) : TokenRecord := { r with status := normalizeStatus r.status }

/-- What each store call returns. -/
@[reducible] def Returned : StoreCall → Type
  | .findBySelector _ => Option Row
  | .insert _ => Unit
  | .markRotated _ _ _ _ => CasValue
  | .revokeIfActive _ => CasValue
  | .revokeFamily _ => ℕ
  | .revokeUser _ => ℕ

/-- A computation of the engine over such a store. -/
abbrev EngineM (α : Type) := Prog StoreCall Returned NebulaConfigError α

/-- One store call. -/
abbrev ask (q : StoreCall) : EngineM (Returned q) := Prog.lift q

/-- **How a store reports**: a status as its symbol or its name, a compare-and-set as a boolean or as the
number of rows it changed. -/
structure Adapter where
  status : TokenStatus → StatusValue
  applied : Bool → CasValue
  status_eq : ∀ s, status s = .symbol s ∨ status s = .string (statusName s)
  applied_eq : ∀ b, applied b = .boolean b ∨ applied b = .integer (if b then 1 else 0)

/-- A row as the store reports it. -/
def Adapter.row (a : Adapter) (r : TokenRecord) : Row := { r with status := a.status r.status }

/-- A reply as the store reports it. -/
def Adapter.reply (a : Adapter) : (q : StoreCall) → q.Reply → Returned q
  | .findBySelector _, found => found.map a.row
  | .insert _, u => u
  | .markRotated _ _ _ _, applied => a.applied applied
  | .revokeIfActive _, applied => a.applied applied
  | .revokeFamily _, n => n
  | .revokeUser _, n => n

theorem Adapter.normalizeStatus_status (a : Adapter) (s : TokenStatus) :
    normalizeStatus (a.status s) = s := by
  rcases a.status_eq s with h | h
  · rw [h]
    rfl
  · rw [h]
    cases s <;> decide

theorem Adapter.casApplied_applied (a : Adapter) (b : Bool) : casApplied (a.applied b) = b := by
  rcases a.applied_eq b with h | h
  · rw [h]
    rfl
  · rw [h]
    cases b <;> rfl

/-- **A row that is reported is the record it was.** -/
theorem Adapter.record_row (a : Adapter) (r : TokenRecord) : (a.row r).record = r := by
  rw [Row.record, row, a.normalizeStatus_status]

/-- A store that reports names and counts, as a database driver does. -/
def rowAdapter : Adapter where
  status s := .string (statusName s)
  applied b := .integer (if b then 1 else 0)
  status_eq _ := Or.inr rfl
  applied_eq _ := Or.inr rfl

/-! ### The primitives -/

/-- `/\A[A-Za-z0-9_-]{low,high}\z/`. -/
def b64urlRe (low high : ℕ) (s : Bytes) : Bool :=
  decide (low ≤ s.length) && decide (s.length ≤ high) && s.all isB64urlByte

/-- `b64url_decode`. -/
def b64urlDecode (s : Bytes) : Option (List UInt8) :=
  if ¬ s.all isB64urlByte ∨ s.isEmpty then none else base64urlDecodeStrict (ofAscii s)

/-- `b64url_encode`. -/
def b64urlEncode (b : List UInt8) : Bytes := utf8 (base64urlEncode b)

/-- `token.split('.', -1)`. -/
def split (token : Bytes) : List Bytes := if token.isEmpty then [] else token.splitOn dotByte

/-- The checks of `parse_token` on the four parts. -/
def parseParts (pre kid selector verifierB64 : Bytes) : Option ParsedToken :=
  if pre ≠ nblBytes then none
  else if ¬ b64urlRe 1 maxKidLength kid then none
  else if ¬ b64urlRe selectorChars selectorChars selector then none
  else if ¬ b64urlRe verifierChars verifierChars verifierB64 then none
  else do
    let verifier ← b64urlDecode verifierB64
    if verifier.length ≠ verifierBytes then none
    else if b64urlEncode verifier ≠ verifierB64 then none
    else some { kid := ofAscii kid, selector := ofAscii selector, verifier }

/-- `parse_token`. -/
def parseToken (token : Bytes) : Option ParsedToken :=
  if token.length > maxTokenLength then none
  else if ¬ validUtf8 token then none
  else
    match split token with
    | [pre, kid, selector, verifierB64] => parseParts pre kid selector verifierB64
    | _ => none

/-- `hmac_key`. The constructor refused a pepper that has no UTF-8 form. -/
def hmacKey (pepper : Str) : Bytes := utf8 pepper

variable (H : HmacSha256) (e : NebulaEngine)

/-- `hash_verifier`. -/
def hashVerifier (pepper : Str) (verifier : List UInt8) : Str :=
  hexEncode (H.run (hmacKey pepper) verifier)

/-- `hash_device_id`; it raises for a string that is not valid UTF-8. -/
def hashDeviceId (pepper : Str) (deviceId : RubyString) : Except NebulaConfigError Str :=
  match utf8BytesOf deviceId with
  | none => .error .deviceIdUnicode
  | some message => .ok (hexEncode (H.run (hmacKey pepper) (deviceBytes ++ message)))

/-- `constant_time_equal_hex`. -/
def constantTimeEqualHex (aHex bHex : Str) : Bool :=
  if ¬ (lowerHex64 (utf8 aHex) ∧ lowerHex64 (utf8 bHex)) then false else utf8 aHex == utf8 bHex

/-! ### The engine -/

namespace Engine

/-- `RefreshResult.failure` without a record. -/
def failure (code : NebulaErrorCode) : RefreshResult := .refused (.unresolved code)

/-- `RefreshResult.failure` with a record. -/
def failureOf (code : NebulaErrorCode) (record : Row) : RefreshResult := .refused (fail code record.record)

/-- `device_matches?`. -/
def deviceMatches (record : Row) (recordPepper : Str) (deviceId : Option RubyString) : Bool :=
  match deviceId, record.deviceIdHash with
  | some dev, some stored =>
    if (utf8BytesOf dev).isNone then false
    else
      match hashDeviceId H recordPepper dev with
      | .ok hash => constantTimeEqualHex hash stored
      -- not reached: the identifier is valid
      | .error _ => false
  | _, _ => false

/-- The binding that `rotate` gives the successor. -/
def rotationHash (record : Row) (deviceId : Option RubyString) :
    Except NebulaConfigError (Option Str) :=
  match record.deviceIdHash, deviceId with
  | some _, some dev => (hashDeviceId H e.activePepper dev).map some
  | stored, _ => .ok stored

/-- `rotate`. -/
def rotate (record : Row) (deviceId : Option RubyString) (now : ℤ) (fromStatus : TokenStatus)
    (rotatedAt : ℤ) (d : Draw) : EngineM RefreshResult := do
  let deviceHash ← Prog.ofExcept (rotationHash H e record deviceId)
  let (token, successor) := mint H e record.userId record.familyId (record.generation + 1) deviceHash
    record.familyExpiresAt now d
  ask (.insert successor)
  let applied ← ask (.markRotated record.selector fromStatus rotatedAt successor.selector)
  if ¬ casApplied applied then do
    let _ ← ask (.revokeIfActive successor.selector)
    return failureOf .conflict record
  else
    return .ok {
      token
      userId := record.userId
      familyId := record.familyId
      generation := successor.generation
      expiresAt := successor.familyExpiresAt
      idleExpiresAt := successor.idleExpiresAt }

/-- Revoke the family of the record and refuse. -/
def burn (code : NebulaErrorCode) (record : Row) : EngineM RefreshResult := do
  let _ ← ask (.revokeFamily record.familyId)
  return failureOf code record

/-- `handle_reuse` with the successor it found. -/
def reuseFound (record : Row) (recordPepper : Str) (deviceId : Option RubyString) (now : ℤ)
    (d : Draw) : Option Row → EngineM RefreshResult
  | some successor =>
    if normalizeStatus successor.status = .active then
      if record.deviceIdHash.isSome && !deviceMatches H record recordPepper deviceId then
        burn .deviceMismatch record
      else do
        let consumed ← ask (.revokeIfActive successor.selector)
        if ¬ casApplied consumed then return failureOf .conflict record
        -- the window is open, so the time of the rotation is there
        else rotate H e record deviceId now .rotated (record.rotatedAt.getD now) d
    else burn .reuseDetected record
  | none => burn .reuseDetected record

/-- `handle_reuse`. In an open window the selector of the successor is there. -/
def handleReuse (record : Row) (recordPepper : Str) (deviceId : Option RubyString) (now : ℤ)
    (d : Draw) : EngineM RefreshResult :=
  let withinGrace := windowOpen e record.record now
  if withinGrace then do
    let successor ← ask (.findBySelector (record.replacedBySelector.getD []))
    reuseFound H e record recordPepper deviceId now d successor
  else burn .reuseDetected record

/-- `refresh` for a record whose verifier was proved. -/
def refreshProved (record : Row) (recordPepper : Str) (deviceId : Option RubyString) (now : ℤ)
    (d : Draw) : EngineM RefreshResult :=
  let status := normalizeStatus record.status
  if status = .rotated then handleReuse H e record recordPepper deviceId now d
  -- whatever is not active refuses
  else if status ≠ .active then return failureOf .revoked record
  else if now ≥ record.familyExpiresAt then burn .expiredAbsolute record
  else if now ≥ record.idleExpiresAt then burn .expiredIdle record
  else if record.deviceIdHash.isSome && !deviceMatches H record recordPepper deviceId then
    burn .deviceMismatch record
  else rotate H e record deviceId now .active now d

/-- `refresh` after its lookup. -/
def refreshFound (parsed : ParsedToken) (deviceId : Option RubyString) (now : ℤ) (d : Draw) :
    Option Row → EngineM RefreshResult
  | none => return failure .notFound
  | some record =>
    match e.peppers.get record.kid with
    | none => return failure .unknownKid
    | some recordPepper =>
      let presented := hashVerifier H recordPepper parsed.verifier
      if ¬ constantTimeEqualHex presented record.verifierHash then
        return failureOf .verifierMismatch record
      else refreshProved H e record recordPepper deviceId now d

/-- `refresh`. -/
def refresh (token : Bytes) (deviceId : Option RubyString) (now : ℤ) (d : Draw) :
    EngineM RefreshResult :=
  match parseToken token with
  | none => return failure .malformed
  | some parsed =>
    if ¬ (e.peppers.get parsed.kid).isSome then return failure .unknownKid
    else do
      let found ← ask (.findBySelector parsed.selector)
      refreshFound H e parsed deviceId now d found

/-- `revoke_token` after its lookup. -/
def revokeFound (parsed : ParsedToken) : Option Row → EngineM RevokeResult
  | none => return .refused (.unresolved .notFound)
  | some record =>
    match e.peppers.get record.kid with
    | none => return .refused (.unresolved .unknownKid)
    | some recordPepper =>
      let presented := hashVerifier H recordPepper parsed.verifier
      if ¬ constantTimeEqualHex presented record.verifierHash then
        return .refused (fail .verifierMismatch record.record)
      else do
        let revoked ← ask (.revokeFamily record.familyId)
        return .ok record.userId record.familyId revoked

/-- `revoke_token`. -/
def revokeToken (token : Bytes) : EngineM RevokeResult :=
  match parseToken token with
  | none => return .refused (.unresolved .malformed)
  | some parsed =>
    if ¬ (e.peppers.get parsed.kid).isSome then return .refused (.unresolved .unknownKid)
    else do
      let found ← ask (.findBySelector parsed.selector)
      revokeFound H e parsed found

/-- The binding of a login. -/
def issueHash : Option RubyString → Except NebulaConfigError (Option Str)
  | none => .ok none
  | some dev =>
    if (utf8BytesOf dev).isNone then .error .deviceIdUnicode
    else (hashDeviceId H e.activePepper dev).map some

/-- `issue`. -/
def issue (userId : Str) (deviceId : Option RubyString) (now : ℤ) (d : IssueDraw) :
    EngineM IssueResult := do
  let deviceHash ← Prog.ofExcept (issueHash H e deviceId)
  let familyId := hexEncode d.family
  let familyExpiresAt := now + e.absoluteTtl
  let (token, record) := mint H e userId familyId 0 deviceHash familyExpiresAt now d.toDraw
  ask (.insert record)
  return { token, userId, familyId, generation := 0, expiresAt := familyExpiresAt,
           idleExpiresAt := record.idleExpiresAt }

/-- `revoke_family`. -/
def revokeFamily (familyId : Str) : EngineM ℕ := ask (.revokeFamily familyId)

/-- `revoke_all_for_user`. -/
def revokeAllForUser (userId : Str) : EngineM ℕ := ask (.revokeUser userId)

end Engine

/-! ### Over a store that keeps the contract -/

variable (a : Adapter)

/-- The device of a call, tagged UTF-8. -/
def tagged (deviceId : Option Bytes) : Option RubyString := deviceId.map fun dev => ⟨dev, .utf8⟩

def refresh (token : Bytes) (deviceId : Option Bytes) (now : ℤ) (d : Draw) : StoreM RefreshResult :=
  (Engine.refresh H e token (tagged deviceId) now d).adapt a.reply

def revokeToken (token : Bytes) : StoreM RevokeResult := (Engine.revokeToken H e token).adapt a.reply

def issue (userId : Str) (deviceId : Option Bytes) (now : ℤ) (d : IssueDraw) : StoreM IssueResult :=
  (Engine.issue H e userId (tagged deviceId) now d).adapt a.reply

/-! ### Agreement -/

theorem b64urlRe_iff {low high : ℕ} {s : Bytes} : b64urlRe low high s = true ↔
    low ≤ s.length ∧ s.length ≤ high ∧ s.all isB64urlByte = true := by
  rw [b64urlRe, Bool.and_eq_true, Bool.and_eq_true, decide_eq_true_eq, decide_eq_true_eq, and_assoc]

theorem parseParts_iff {a b c d : Bytes} {p : ParsedToken} :
    parseParts a b c d = some p ↔ PartsOf a b c d p := by
  constructor
  · intro h
    unfold parseParts at h
    simp only [Option.ite_none_left_eq_some, not_not, b64urlRe_iff] at h
    obtain ⟨hpre, ⟨hk, hkl, hkt⟩, ⟨hs, hsl, hst⟩, -, h⟩ := h
    obtain ⟨v, -, h⟩ := Option.bind_eq_some_iff.mp h
    simp only [Option.ite_none_left_eq_some] at h
    obtain ⟨hvlen, hcanon, h⟩ := h
    exact partsOf_iff.mpr ⟨v, ⟨hpre, hk, hkl, hkt, hsl.antisymm hs, hst,
      not_not.mp hcanon, not_not.mp hvlen⟩, (Option.some.inj h).symm⟩
  · intro h
    have hd := h.verifier_checks
    obtain ⟨v, hc, rfl⟩ := partsOf_iff.mp h
    have hdec : b64urlDecode d = some v := by
      have hne : ¬ d.isEmpty = true := by
        rw [List.isEmpty_iff]
        rintro rfl
        exact absurd hd.1 (by decide)
      rw [b64urlDecode, if_neg (not_or.mpr ⟨not_not.mpr hd.2, hne⟩), base64urlDecodeStrict_iff,
        ← hc.canonical, ofAscii_utf8]
      exact ascii_of_utf8 (hc.canonical ▸ ascii_of_all hd.2)
    unfold parseParts
    rw [if_neg (not_not.mpr hc.pre),
      if_neg (not_not.mpr (b64urlRe_iff.mpr ⟨hc.kid_pos, hc.kid_length, hc.kid_test⟩)),
      if_neg (not_not.mpr (b64urlRe_iff.mpr ⟨hc.selector_length.ge, hc.selector_length.le,
        hc.selector_test⟩)),
      if_neg (not_not.mpr (b64urlRe_iff.mpr ⟨hd.1.ge, hd.1.le, hd.2⟩)), hdec]
    show (if _ then none else if _ then none else some _) = some _
    rw [if_neg (not_not.mpr hc.verifier_length), b64urlEncode, if_neg (not_not.mpr hc.canonical)]

/-- **The parsers agree.** -/
theorem parseToken_eq (token : Str) : parseToken (utf8 token) = Token.Wire.parseToken token := by
  refine parse_agrees (fun b p => ?_) token
  unfold parseToken
  rw [Option.ite_none_left_eq_some, Nat.not_lt]
  refine and_congr_right fun _ => ?_
  constructor
  · intro h
    rw [Option.ite_none_left_eq_some] at h
    obtain ⟨-, h⟩ := h
    split at h
    · next pre kid selector verifierB64 hsplit =>
      unfold split at hsplit
      split_ifs at hsplit
      exact ⟨_, _, _, _, hsplit, parseParts_iff.mp h⟩
    · cases h
  · rintro ⟨pre, kid, selector, verifierB64, hsplit, h⟩
    have hne : ¬ b.isEmpty = true := by
      rw [List.isEmpty_iff]
      rintro rfl
      cases hsplit
    rw [if_neg (not_not.mpr (h.valid hsplit)), split, if_neg hne, hsplit]
    exact parseParts_iff.mpr h

section Engine

variable {H : HmacSha256} {e : NebulaEngine} {a : Adapter}

theorem utf8BytesOf_tagged {b : Bytes} {t : Encoding} (ht : t = .utf8 ∨ t = .binary) :
    utf8BytesOf ⟨b, t⟩ = if validUtf8 b then some b else none := by
  rcases ht with rfl | rfl
  · rfl
  · rfl

theorem utf8BytesOf_utf8 (dev : Str) : utf8BytesOf ⟨utf8 dev, .utf8⟩ = some (utf8 dev) := by
  rw [utf8BytesOf_tagged (Or.inl rfl), if_pos (validUtf8_utf8 dev)]

/-- A digest depends on nothing but the bytes. -/
theorem hashDeviceId_ok {dev : RubyString} {b : Bytes} (h : utf8BytesOf dev = some b) (pepper : Str) :
    hashDeviceId H pepper dev = .ok (deviceHash H pepper b) := by
  rw [hashDeviceId, h]
  rfl

theorem constantTimeEqualHex_eq (x y : Str) :
    constantTimeEqualHex x y = Token.Wire.constantTimeEqualHex x y := by
  rw [← equalHex_utf8, constantTimeEqualHex, equalHex]
  cases lowerHex64 (utf8 x) <;> cases lowerHex64 (utf8 y) <;> rfl

theorem deviceRefused_eq {deviceId : Option Str} (hd : Unicode deviceId) (record : TokenRecord)
    (pepper : Str) :
    ((a.row record).deviceIdHash.isSome &&
      !Engine.deviceMatches H (a.row record) pepper (tagged (deviceId.map utf8))) =
      Engine.Operations.deviceRefused H record pepper deviceId := by
  unfold Engine.Operations.deviceRefused
  rw [deviceMatches_bytes hd]
  unfold Engine.deviceMatches
  show (record.deviceIdHash.isSome && _) = _
  cases deviceId with
  | none => rfl
  | some dev =>
    dsimp only [Adapter.row, tagged, Option.map_some]
    cases record.deviceIdHash with
    | none => rfl
    | some stored =>
      dsimp only
      rw [hashDeviceId_ok (utf8BytesOf_utf8 dev), utf8BytesOf_utf8, equalHex_utf8,
        ← constantTimeEqualHex_eq]
      rfl

theorem failureOf_row (code : NebulaErrorCode) (record : TokenRecord) :
    Engine.failureOf code (a.row record) = .refused (fail code record) := by
  rw [Engine.failureOf, a.record_row]

theorem rotate_eq {deviceId : Option Str} (hd : Unicode deviceId) (record : TokenRecord) (now : ℤ)
    (f : TokenStatus) (t : ℤ) (d : Draw) :
    (Engine.rotate H e (a.row record) (tagged (deviceId.map utf8)) now f t d).adapt a.reply =
      Engine.Operations.rotate H e record deviceId now f t d := by
  have hhash : Engine.rotationHash H e (a.row record) (tagged (deviceId.map utf8)) =
      .ok (carriedHash H e record (deviceId.map utf8)) := by
    unfold Engine.rotationHash carriedHash
    dsimp only [Adapter.row]
    cases record.deviceIdHash with
    | none => rfl
    | some stored =>
      cases deviceId with
      | none => rfl
      | some dev =>
        dsimp only [tagged, Option.map_some]
        rw [hashDeviceId_ok (utf8BytesOf_utf8 dev)]
        rfl
  unfold Engine.rotate Engine.Operations.rotate
  rw [hhash, migrateDevice_bytes hd]
  refine congrArg (Prog.call _) (funext fun _ => congrArg (Prog.call _) (funext fun applied => ?_))
  show (if ¬ casApplied (a.applied applied) = true then _ else _ : EngineM _).adapt a.reply = _
  rw [a.casApplied_applied]
  cases applied with
  | true => rfl
  | false =>
    refine congrArg (Prog.call _) (funext fun _ => ?_)
    exact congrArg Prog.ret (failureOf_row .conflict record)

/-- A family that is revoked. -/
theorem burn_eq (code : NebulaErrorCode) (record : TokenRecord) :
    (Engine.burn code (a.row record)).adapt a.reply = Engine.Operations.burn code record := by
  refine congrArg (Prog.call _) (funext fun _ => ?_)
  exact congrArg Prog.ret (failureOf_row code record)

theorem handleReuse_eq {deviceId : Option Str} (hd : Unicode deviceId) (record : TokenRecord)
    (pepper : Str) (now : ℤ) (d : Draw) :
    (Engine.handleReuse H e (a.row record) pepper (tagged (deviceId.map utf8)) now d).adapt a.reply =
      Engine.Operations.handleReuse H e record pepper deviceId now d := by
  unfold Engine.handleReuse Engine.Operations.handleReuse
  rw [a.record_row, windowOpen_eq]
  cases hg : Engine.Operations.withinGrace e record now with
  | none => exact burn_eq .reuseDetected record
  | some x =>
    obtain ⟨t, q⟩ := x
    obtain ⟨ht, hq, -⟩ := Engine.Operations.withinGrace_some hg
    have hq' : (a.row record).replacedBySelector = some q := hq
    dsimp only
    rw [if_pos Option.isSome_some, hq']
    refine congrArg (Prog.call _) (funext fun found => ?_)
    show (Engine.reuseFound H e (a.row record) pepper (tagged (deviceId.map utf8)) now d
      (found.map a.row)).adapt a.reply =
      Engine.Operations.displace H e record pepper deviceId now t d found
    unfold Engine.Operations.displace Engine.reuseFound Engine.Operations.unused
    cases found with
    | none => exact burn_eq .reuseDetected record
    | some successor =>
      have hstatus : normalizeStatus (a.row successor).status = successor.status :=
        a.normalizeStatus_status successor.status
      dsimp only [Option.map_some]
      rw [hstatus]
      by_cases hs : successor.status = .active
      · rw [if_pos hs, if_pos hs]
        dsimp only
        rw [deviceRefused_eq hd]
        by_cases hr : Engine.Operations.deviceRefused H record pepper deviceId = true
        · rw [if_pos hr, if_pos hr]
          exact burn_eq .deviceMismatch record
        · rw [if_neg hr, if_neg hr]
          refine congrArg (Prog.call _) (funext fun consumed => ?_)
          show (if ¬ casApplied (a.applied consumed) = true then _ else _ : EngineM _).adapt a.reply = _
          have ht' : (a.row record).rotatedAt = some t := ht
          rw [a.casApplied_applied, ht']
          cases consumed with
          | true => exact rotate_eq hd record now .rotated t d
          | false =>
            exact congrArg Prog.ret (failureOf_row .conflict record)
      · rw [if_neg hs, if_neg hs]
        exact burn_eq .reuseDetected record

/-- Steps 5 to 10. -/
theorem refreshProved_eq {deviceId : Option Str} (hd : Unicode deviceId) (record : TokenRecord)
    (pepper : Str) (now : ℤ) (d : Draw) :
    (Engine.refreshProved H e (a.row record) pepper (tagged (deviceId.map utf8)) now d).adapt a.reply =
      Engine.Operations.refreshProved H e record pepper deviceId now d := by
  have hstatus : normalizeStatus (a.row record).status = record.status :=
    a.normalizeStatus_status record.status
  unfold Engine.refreshProved Engine.Operations.refreshProved
  dsimp only
  rw [hstatus, deviceRefused_eq hd]
  cases record.status with
  | rotated => exact handleReuse_eq hd record pepper now d
  | revoked =>
    exact congrArg Prog.ret (failureOf_row .revoked record)
  | active =>
    rw [if_neg (by decide), if_neg (by decide)]
    show (if now ≥ record.familyExpiresAt then _ else if now ≥ record.idleExpiresAt then _ else _ :
      EngineM _).adapt a.reply = _
    dsimp only
    split_ifs
    · exact burn_eq .expiredAbsolute record
    · exact burn_eq .expiredIdle record
    · exact burn_eq .deviceMismatch record
    · exact rotate_eq hd record now .active now d

/-- Steps 4 to 10. -/
theorem refreshFound_eq {deviceId : Option Str} (hd : Unicode deviceId) (parsed : ParsedToken) (now : ℤ)
    (d : Draw) (found : Option TokenRecord) :
    (Engine.refreshFound H e parsed (tagged (deviceId.map utf8)) now d (found.map a.row)).adapt a.reply =
      Engine.Operations.refreshFound H e parsed deviceId now d found := by
  cases found with
  | none => rfl
  | some record =>
    unfold Engine.refreshFound Engine.Operations.refreshFound Engine.Operations.proveVerifier
    dsimp only [Option.map_some]
    show Prog.adapt a.reply (match e.peppers.get record.kid with | none => _ | some recordPepper => _) = _
    cases e.peppers.get record.kid with
    | none => rfl
    | some pepper =>
      dsimp only
      rw [constantTimeEqualHex_eq, ite_not]
      change Prog.adapt a.reply (if Token.Wire.constantTimeEqualHex (Token.Wire.hashVerifier H pepper
        parsed.verifier) record.verifierHash = true then _ else _) = _
      by_cases hv : Token.Wire.constantTimeEqualHex (Token.Wire.hashVerifier H pepper parsed.verifier)
        record.verifierHash = true
      · rw [if_pos hv, if_pos hv]
        exact refreshProved_eq hd record pepper now d
      · rw [if_neg hv, if_neg hv]
        exact congrArg Prog.ret (failureOf_row .verifierMismatch record)

/-- **The Ruby port refreshes as the engine does.** -/
theorem refresh_eq {deviceId : Option Str} (hd : Unicode deviceId) (token : Str) (now : ℤ) (d : Draw) :
    refresh H e a (utf8 token) (deviceId.map utf8) now d =
      Engine.Operations.refresh H e token deviceId now d := by
  unfold refresh Engine.refresh Engine.Operations.refresh Engine.Operations.parseConfigured
  rw [parseToken_eq]
  cases Token.Wire.parseToken token with
  | none => rfl
  | some parsed =>
    dsimp only
    rw [ite_not]
    split_ifs
    · exact congrArg (Prog.call _) (funext fun found => refreshFound_eq hd parsed now d found)
    · rfl

theorem revokeFound_eq (parsed : ParsedToken) (found : Option TokenRecord) :
    (Engine.revokeFound H e parsed (found.map a.row)).adapt a.reply =
      Engine.Operations.revokeFound H e parsed found := by
  cases found with
  | none => rfl
  | some record =>
    unfold Engine.revokeFound Engine.Operations.revokeFound Engine.Operations.proveVerifier
    dsimp only [Option.map_some]
    show Prog.adapt a.reply (match e.peppers.get record.kid with | none => _ | some recordPepper => _) = _
    cases e.peppers.get record.kid with
    | none => rfl
    | some pepper =>
      dsimp only
      rw [constantTimeEqualHex_eq, ite_not, a.record_row]
      change Prog.adapt a.reply (if Token.Wire.constantTimeEqualHex (Token.Wire.hashVerifier H pepper
        parsed.verifier) record.verifierHash = true then _ else _) = _
      split_ifs
      · rfl
      · rfl

theorem revokeToken_eq (token : Str) :
    revokeToken H e a (utf8 token) = Engine.Operations.revokeToken H e token := by
  unfold revokeToken Engine.revokeToken Engine.Operations.revokeToken Engine.Operations.parseConfigured
  rw [parseToken_eq]
  cases Token.Wire.parseToken token with
  | none => rfl
  | some parsed =>
    dsimp only
    rw [ite_not]
    split_ifs
    · exact congrArg (Prog.call _) (funext fun found => revokeFound_eq parsed found)
    · rfl

theorem issue_eq {deviceId : Option Str} (hd : Unicode deviceId) (userId : Str) (now : ℤ)
    (d : IssueDraw) : issue H e a userId (deviceId.map utf8) now d =
      Engine.Operations.issue H e userId deviceId now d := by
  have hhash : Engine.issueHash H e (tagged (deviceId.map utf8)) =
      .ok ((deviceId.map utf8).map (deviceHash H e.activePepper)) := by
    cases deviceId with
    | none => rfl
    | some dev =>
      dsimp only [tagged, Option.map_some, Engine.issueHash]
      rw [hashDeviceId_ok (utf8BytesOf_utf8 dev), utf8BytesOf_utf8, Option.isNone_some,
        if_neg Bool.false_ne_true]
      rfl
  unfold issue Engine.issue Engine.Operations.issue
  rw [hhash, bindDevice_bytes hd]
  rfl
end Engine

end NebulaToken.Ports.Ruby
