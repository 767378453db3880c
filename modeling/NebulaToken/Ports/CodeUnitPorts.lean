import NebulaToken.Ports.HexCompare
import NebulaToken.Ports.Parsers
import NebulaToken.Ports.Platforms

/-! # The ports for Java, C# and Dart

Their strings are code units, as the reference's are, so each stands for itself. They differ in what they
write for a lone surrogate, which none of them comes to hash.

* `Java.faithful`, `CSharp.faithful`, `Dart.faithful`. -/

namespace NebulaToken.Ports.CodeUnitPorts

open NebulaToken.Lib.Codec NebulaToken.Token.Unicode NebulaToken.Token.Utf8 NebulaToken.Token.Wire
open NebulaToken.Engine.Records NebulaToken.Engine.Config NebulaToken.Ports.Platforms
open NebulaToken.Engine.Operations (Draw IssueDraw)

/-- What the three check of a device in `issue`, and before they hash one. -/
def checkDevice (isWellFormedUnicode : Str → Bool) (deviceId : Str) : Except NebulaConfigError Unit :=
  if ¬ isWellFormedUnicode deviceId then .error .deviceIdUnicode else .ok ()

variable (H : HmacSha256)

/-! ### Java -/

namespace Java

/-- `hmacSha256`. -/
def hmacSha256 (pepper : Str) (data : List UInt8) : List UInt8 := H.run (Utf16.Java.getBytes pepper) data

/-- `hashVerifier`. -/
def hashVerifier (pepper : Str) (verifier : List UInt8) : Str := hexEncode (hmacSha256 H pepper verifier)

/-- `hashDeviceId`. -/
def hashDeviceId (pepper deviceId : Str) : Except NebulaConfigError Str := do
  checkDevice Utf16.Java.isWellFormedUnicode deviceId
  return hexEncode (hmacSha256 H pepper (Utf16.Java.getBytes (devicePrefix ++ deviceId)))

/-- `constantTimeEqualHex`, which does not throw. -/
def constantTimeEqualHex (aHex bHex : Str) : Bool :=
  returned (HexCompare.Java.constantTimeEqualHex aHex bHex)
    ⟨_, HexCompare.Java.constantTimeEqualHex_eq aHex bHex⟩

def platform (strict : Bool) : Platform Str where
  parseToken := Parsers.Java.parseToken strict
  isWellFormedUnicode := Utf16.Java.isWellFormedUnicode
  checkDevice := checkDevice Utf16.Java.isWellFormedUnicode
  hashVerifier := hashVerifier H
  hashDeviceId := hashDeviceId H
  constantTimeEqualHex := constantTimeEqualHex
  b64urlEncode := Parsers.Java.b64eEncodeToString
  granted stored _ := stored

/-- `issue`. -/
def issue (strict : Bool) (e : NebulaEngine) (userId : Str) (deviceId : Option Str) (now : ℤ)
    (d : IssueDraw) : StoreM IssueResult := (platform H strict).issue e userId deviceId now d

/-- `refresh`. -/
def refresh (strict : Bool) (e : NebulaEngine) (token : Str) (deviceId : Option Str) (now : ℤ)
    (d : Draw) : StoreM RefreshResult := (platform H strict).refresh e token deviceId now d

/-- `revokeToken`. -/
def revokeToken (strict : Bool) (e : NebulaEngine) (token : Str) : StoreM RevokeResult :=
  (platform H strict).revokeToken e token

end Java

/-! ### C# -/

namespace CSharp

/-- `IsWellFormedUnicode`. -/
def isWellFormedUnicode : Str → Bool
  | c :: d :: value =>
    if isHighSurrogate c then
      if ¬ isLowSurrogate d then false else isWellFormedUnicode value
    else if isLowSurrogate c then false
    else isWellFormedUnicode (d :: value)
  -- `i + 1 >= value.Length`
  | [c] => if isHighSurrogate c then false else !isLowSurrogate c
  | [] => true

/-- `HashVerifier`. -/
def hashVerifier (pepper : Str) (verifier : List UInt8) : Str :=
  hexEncode (H.run (utf8 pepper) verifier)

/-- `HashDeviceId`. -/
def hashDeviceId (pepper deviceId : Str) : Except NebulaConfigError Str := do
  checkDevice isWellFormedUnicode deviceId
  return hexEncode (H.run (utf8 pepper) (utf8 (devicePrefix ++ deviceId)))

def platform (strict : Bool) : Platform Str where
  parseToken := Parsers.CSharp.parseToken strict
  isWellFormedUnicode := isWellFormedUnicode
  checkDevice := checkDevice isWellFormedUnicode
  hashVerifier := hashVerifier H
  hashDeviceId := hashDeviceId H
  constantTimeEqualHex := HexCompare.CSharp.constantTimeEqualHex
  b64urlEncode := Base64url.CSharp.base64UrlEncode
  -- `RefreshResult.Success(token, successor)`
  granted _ successor := successor

/-- `IssueAsync`. -/
def issue (strict : Bool) (e : NebulaEngine) (userId : Str) (deviceId : Option Str) (now : ℤ)
    (d : IssueDraw) : StoreM IssueResult := (platform H strict).issue e userId deviceId now d

/-- `RefreshAsync`. -/
def refresh (strict : Bool) (e : NebulaEngine) (token : Str) (deviceId : Option Str) (now : ℤ)
    (d : Draw) : StoreM RefreshResult := (platform H strict).refresh e token deviceId now d

/-- `RevokeTokenAsync`. -/
def revokeToken (strict : Bool) (e : NebulaEngine) (token : Str) : StoreM RevokeResult :=
  (platform H strict).revokeToken e token

end CSharp

/-! ### Dart -/

namespace Dart

/-- The package `crypto`. -/
structure Crypto where
  /-- `Digest.toString`. -/
  digestToString : List UInt8 → Str

/-- **What it documents**: a digest is written in lowercase hex. -/
def Crypto.Documented (C : Crypto) : Prop := ∀ b, C.digestToString b = hexEncode b

variable (C : Crypto)

/-- `hashVerifier`. -/
def hashVerifier (pepper : Str) (verifier : List UInt8) : Str :=
  C.digestToString (H.run (utf8 pepper) verifier)

/-- `hashDeviceId`. -/
def hashDeviceId (pepper deviceId : Str) : Except NebulaConfigError Str := do
  checkDevice Utf16.Dart.isWellFormedUnicode deviceId
  return C.digestToString (H.run (utf8 pepper) (utf8 (devicePrefix ++ deviceId)))

def platform (strict : Bool) : Platform Str where
  parseToken := Parsers.Dart.parseToken strict
  isWellFormedUnicode := Utf16.Dart.isWellFormedUnicode
  checkDevice := checkDevice Utf16.Dart.isWellFormedUnicode
  hashVerifier := hashVerifier H C
  hashDeviceId := hashDeviceId H C
  constantTimeEqualHex := HexCompare.Dart.constantTimeEqualHex
  b64urlEncode := Base64url.Dart.b64urlEncode
  granted record _ := record

/-- `issue`. -/
def issue (strict : Bool) (e : NebulaEngine) (userId : Str) (deviceId : Option Str) (now : ℤ)
    (d : IssueDraw) : StoreM IssueResult := (platform H C strict).issue e userId deviceId now d

/-- `refresh`. -/
def refresh (strict : Bool) (e : NebulaEngine) (token : Str) (deviceId : Option Str) (now : ℤ)
    (d : Draw) : StoreM RefreshResult := (platform H C strict).refresh e token deviceId now d

/-- `revokeToken`. -/
def revokeToken (strict : Bool) (e : NebulaEngine) (token : Str) : StoreM RevokeResult :=
  (platform H C strict).revokeToken e token

end Dart

/-! ### They are faithful -/

/-- A parser that accepts the grammar is the reference's. -/
theorem parseToken_eq {parse : Str → Option ParsedToken}
    (h : ∀ s p, parse s = some p ↔ Parsers.IsToken s p) (s : Str) :
    parse s = Token.Wire.parseToken s :=
  Option.ext fun p => (h s p).trans Parsers.typescript_iff.symm

/-- A comparison that finds equal the same digests is the reference's. -/
theorem constantTimeEqualHex_eq {compare : Str → Str → Bool}
    (h : ∀ a b, compare a b = true ↔ HexCompare.SameDigest a b) (a b : Str) :
    compare a b = Token.Wire.constantTimeEqualHex a b := by
  rw [Bool.eq_iff_iff, h, ← HexCompare.typescript_constantTimeEqualHex,
    HexCompare.TypeScript.constantTimeEqualHex_iff]

theorem checkDevice_cases {scan : Str → Bool} (h : ∀ s, scan s = isWellFormedUnicode s) (t : Str) :
    checkDevice scan t = .ok () ∨
      checkDevice scan t = .error .deviceIdUnicode ∧ isWellFormedUnicode t = false := by
  unfold checkDevice
  rw [h]
  cases isWellFormedUnicode t with
  | true => exact Or.inl rfl
  | false => exact Or.inr ⟨rfl, rfl⟩

/-- A text without lone surrogates is written alike everywhere. -/
theorem getBytes_eq {s : Str} (h : isWellFormedUnicode s = true) : Utf16.Java.getBytes s = utf8 s := by
  rw [isWellFormedUnicode, Bool.not_eq_true', List.any_eq_false] at h
  refine List.flatMap_congr fun c hc => ?_
  rw [if_neg (h c hc)]

theorem wellFormed_devicePrefix {s : Str} (h : isWellFormedUnicode s = true) :
    isWellFormedUnicode (devicePrefix ++ s) = true := by
  have hascii : ∀ (p : Str), (∀ u ∈ p, u.toNat < 0x80) → isWellFormedUnicode (p ++ s) = true := by
    intro p hp
    induction p with
    | nil => exact h
    | cons u p ih =>
      have hu := hp u List.mem_cons_self
      have ih := ih fun v hv => hp v (List.mem_cons_of_mem u hv)
      have hhigh : ¬ isHighSurrogate u = true := by
        rw [Utf16.isHighSurrogate_iff]
        omega
      have hlow : isSurrogate u.toNat = false := by
        rw [← Bool.not_eq_true, Utf16.isSurrogate_iff]
        omega
      rw [isWellFormedUnicode, List.cons_append, Utf16.codePoints_cons hhigh, List.any_cons, hlow,
        Bool.false_or]
      exact ih
  exact hascii devicePrefix (ascii_of_check (by decide))

/-- A digest that is made after an exact scan is the reference's. -/
theorem hashDeviceId_eq {scan : Str → Bool} (hscan : ∀ s, scan s = isWellFormedUnicode s)
    {encode : Str → List UInt8} (hencode : ∀ s, isWellFormedUnicode s = true → encode s = utf8 s)
    {pepper : Str} (hw : isWellFormedUnicode pepper = true) (t : Str) :
    (do
      checkDevice scan t
      return hexEncode (H.run (encode pepper) (encode (devicePrefix ++ t)))) =
      Token.Wire.hashDeviceId H pepper t := by
  unfold checkDevice Token.Wire.hashDeviceId
  rw [hscan]
  by_cases ht : isWellFormedUnicode t = true
  · rw [if_neg (not_not.mpr ht), if_neg (not_not.mpr ht), hencode _ hw,
      hencode _ (wellFormed_devicePrefix ht)]
    rfl
  · rw [if_pos ht, if_pos ht]
    rfl

/-- C#'s scan is Java's. -/
theorem csharp_isWellFormedUnicode (s : Str) :
    CSharp.isWellFormedUnicode s = isWellFormedUnicode s := by
  rw [← Utf16.java_isWellFormedUnicode]
  induction s using CSharp.isWellFormedUnicode.induct with
  | case1 c d s hc hd =>
    have hno : ¬ Utf16.Java.isSurrogatePairAt c (d :: s) = true := fun h =>
      hd (Bool.and_eq_true _ _ ▸ h).2
    rw [CSharp.isWellFormedUnicode, Utf16.Java.isWellFormedUnicode, if_pos hc, if_pos hd, if_pos hc,
      if_pos hno]
  | case2 c d s hc hd ih =>
    have hyes : Utf16.Java.isSurrogatePairAt c (d :: s) = true := by
      rw [Utf16.Java.isSurrogatePairAt, hc, not_not.mp hd]
      rfl
    rw [CSharp.isWellFormedUnicode, Utf16.Java.isWellFormedUnicode, if_pos hc, if_neg hd, if_pos hc,
      if_neg (not_not.mpr hyes), ih]
  | case3 c d s hc hl =>
    rw [CSharp.isWellFormedUnicode, Utf16.Java.isWellFormedUnicode, if_neg hc, if_pos hl, if_neg hc,
      if_pos hl]
  | case4 c d s hc hl ih =>
    rw [CSharp.isWellFormedUnicode, Utf16.Java.isWellFormedUnicode, if_neg hc, if_neg hl, if_neg hc,
      if_neg hl, ih]
  | case5 c hc =>
    rw [CSharp.isWellFormedUnicode, Utf16.Java.isWellFormedUnicode, if_pos hc, if_pos hc]
    rfl
  | case6 c hc =>
    rw [CSharp.isWellFormedUnicode, Utf16.Java.isWellFormedUnicode, if_neg hc, if_neg hc]
  | case7 => rfl

/-- **Java.** -/
theorem Java.faithful (strict : Bool) : (platform H strict).Faithful H id where
  parseToken := parseToken_eq fun _ _ => Parsers.Java.parseToken_iff strict
  isWellFormedUnicode := Utf16.java_isWellFormedUnicode
  checkDevice := checkDevice_cases Utf16.java_isWellFormedUnicode
  hashVerifier pepper v hw := by
    show hexEncode (H.run (Utf16.Java.getBytes pepper) v) = _
    rw [getBytes_eq hw]
    rfl
  hashDeviceId _ t hw :=
    hashDeviceId_eq H Utf16.java_isWellFormedUnicode (fun _ => getBytes_eq) hw t
  constantTimeEqualHex := by
    refine constantTimeEqualHex_eq fun a b => ?_
    show returned _ _ = true ↔ _
    rw [returned_eq (HexCompare.Java.constantTimeEqualHex_eq a b), HexCompare.sameDigest_iff,
      Bool.and_eq_true, Bool.and_eq_true, decide_eq_true_eq, and_assoc]
  b64urlEncode := Parsers.encode_url16
  granted _ _ _ _ := ⟨rfl, rfl⟩

/-- **C#.** -/
theorem CSharp.faithful (strict : Bool) : (platform H strict).Faithful H id where
  parseToken := parseToken_eq fun _ _ => Parsers.CSharp.parseToken_iff strict
  isWellFormedUnicode := csharp_isWellFormedUnicode
  checkDevice := checkDevice_cases csharp_isWellFormedUnicode
  hashVerifier _ _ _ := rfl
  hashDeviceId _ t hw := hashDeviceId_eq H csharp_isWellFormedUnicode (fun _ _ => rfl) hw t
  constantTimeEqualHex := constantTimeEqualHex_eq fun _ _ => HexCompare.CSharp.constantTimeEqualHex_iff
  b64urlEncode b := (Base64url.CSharp.base64UrlEncode_eq b).trans (Parsers.encode_url16 b)
  granted _ _ huser hfamily := ⟨huser, hfamily⟩

/-- **Dart**, with a package that does what it documents. -/
theorem Dart.faithful {C : Crypto} (hC : C.Documented) (strict : Bool) :
    (platform H C strict).Faithful H id where
  parseToken := parseToken_eq fun _ _ => Parsers.Dart.parseToken_iff strict
  isWellFormedUnicode := Utf16.dart_isWellFormedUnicode
  checkDevice := checkDevice_cases Utf16.dart_isWellFormedUnicode
  hashVerifier _ _ _ := hC _
  hashDeviceId pepper t hw := by
    show hashDeviceId H C pepper t = _
    unfold hashDeviceId
    rw [hC]
    exact hashDeviceId_eq H Utf16.dart_isWellFormedUnicode (fun _ _ => rfl) hw t
  constantTimeEqualHex := constantTimeEqualHex_eq fun _ _ => HexCompare.Dart.constantTimeEqualHex_iff
  b64urlEncode b := (Base64url.Dart.b64urlEncode_eq b).trans (Parsers.encode_url16 b)
  granted _ _ _ _ := ⟨rfl, rfl⟩

end NebulaToken.Ports.CodeUnitPorts
