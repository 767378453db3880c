import NebulaToken.Ports.Base64url
import NebulaToken.Ports.Utf16

/-! # One grammar, five parsers

The parsers of TypeScript, Go, Java, Dart and C# check length, alphabet and spelling in their own order,
each with its own decoder, and part of what they check is redundant.

* `IsToken`: the grammar of tokens, and what a token says;
* `isToken_iff`: a token is four parts at its dots, with the canonical spelling of 32 bytes last;
* `typescript_iff`, `go_iff`, `java_iff`, `dart_iff`, `csharp_iff`: each accepts the grammar. -/

namespace NebulaToken.Ports.Parsers

open NebulaToken.Lib.Codec NebulaToken.Lib.Base64 NebulaToken.Lib.Base64.Alphabet
open NebulaToken.Token.Unicode NebulaToken.Token.Utf8 NebulaToken.Token.Wire
open NebulaToken.Ports.Bytes NebulaToken.Ports.Base64url

/-! ### The grammar -/

/-- Characters of the alphabet, between these many. -/
def Spelled (low high : ℕ) (s : Str) : Prop :=
  low ≤ s.length ∧ s.length ≤ high ∧ ∀ c ∈ s, isB64urlChar c = true

/-- **The grammar of tokens**, and what a token says: at most 512 bytes, `nbl.{kid}.{selector}.{verifier}`,
and the verifier is the canonical base64url of its 32 bytes. -/
structure IsToken (s : Str) (p : ParsedToken) : Prop where
  bytes : byteLength s ≤ 512
  text : s = nblPrefix ++ dot :: (p.kid ++ dot :: (p.selector ++ dot :: base64urlEncode p.verifier))
  kid : Spelled 1 64 p.kid
  selector : Spelled 22 22 p.selector
  verifier : Spelled 43 43 (base64urlEncode p.verifier)
  decoded : p.verifier.length = 32

theorem spelled_iff {low high : ℕ} (hlow : 0 < low) {s : Str} :
    Spelled low high s ↔ low ≤ s.length ∧ s.length ≤ high ∧ b64urlTest s = true := by
  unfold Spelled
  refine and_congr_right fun hs => and_congr_right fun _ => ?_
  have hne : s ≠ [] := List.length_pos_iff.mp (by omega)
  rw [b64urlTest, Bool.and_eq_true, List.all_eq_true, bne_iff_ne]
  exact ⟨fun h => ⟨hne, h⟩, fun h => h.2⟩

/-- The parts of a token of the grammar are well formed, and it is their wire form. -/
theorem isToken_iff_tokenString {s : Str} {p : ParsedToken} :
    IsToken s p ↔ s = tokenString p.kid p.selector p.verifier ∧ p.WellFormed := by
  constructor
  · intro h
    obtain ⟨-, hkl, hkt⟩ := (spelled_iff (by decide)).mp h.kid
    obtain ⟨hsl, hsl', hst⟩ := (spelled_iff (by decide)).mp h.selector
    exact ⟨h.text.trans (tokenString_eq _ _ _).symm, hkl, hkt, Nat.le_antisymm hsl' hsl, hst, h.decoded⟩
  · rintro ⟨rfl, hwf⟩
    have hkpos := b64urlTest_length hwf.kid_test
    have hsel : p.selector.length = 22 := hwf.selector_length
    have hver : (base64urlEncode p.verifier).length = 43 := hwf.length_verifier_text
    refine ⟨Nat.le_of_not_lt hwf.byteLength_tokenString, tokenString_eq _ _ _, ?_, ?_, ?_,
      hwf.verifier_length⟩
    · exact (spelled_iff (by decide)).mpr ⟨by omega, hwf.kid_length, hwf.kid_test⟩
    · exact (spelled_iff (by decide)).mpr ⟨by omega, by omega, hwf.selector_test⟩
    · exact (spelled_iff (by decide)).mpr ⟨by omega, by omega, hwf.verifier_test⟩

/-- **TypeScript.** -/
theorem typescript_iff {s : Str} {p : ParsedToken} : parseToken s = some p ↔ IsToken s p := by
  rw [isToken_iff_tokenString]
  refine ⟨eq_tokenString_of_parseToken, ?_⟩
  rintro ⟨rfl, hwf⟩
  exact parseToken_tokenString hwf

/-! ### The parts -/

/-- What the parsers of texts ask of the four parts. -/
structure PartsAre (pre kid selector verifierB64 : Str) (p : ParsedToken) : Prop where
  pre_eq : pre = nblPrefix
  kid_eq : kid = p.kid
  selector_eq : selector = p.selector
  kid_length : kid ≠ [] ∧ kid.length ≤ maxKidLength
  kid_all : kid.all isB64url = true
  selector_length : selector.length = selectorChars
  selector_all : selector.all isB64url = true
  verifier_length : verifierB64.length = verifierChars
  verifier_all : verifierB64.all isB64url = true
  decoded : p.verifier.length = verifierBytes
  canonical : base64urlEncode p.verifier = verifierB64

theorem PartsAre.wellFormed {a b c d : Str} {p : ParsedToken} (h : PartsAre a b c d p) :
    p.WellFormed := by
  have htest : ∀ s : Str, s ≠ [] → s.all isB64url = true → b64urlTest s = true := fun s hne hs => by
    rw [b64urlTest, Bool.and_eq_true, bne_iff_ne]
    exact ⟨hne, hs⟩
  have hsel : c ≠ [] := by
    rintro rfl
    cases h.selector_length
  exact ⟨h.kid_eq ▸ h.kid_length.2, h.kid_eq ▸ htest b h.kid_length.1 h.kid_all,
    h.selector_eq ▸ h.selector_length, h.selector_eq ▸ htest c hsel h.selector_all, h.decoded⟩

/-- **A token is four parts at its dots**: a parser of texts that finds them accepts the grammar. -/
theorem isToken_iff {s : Str} {p : ParsedToken} :
    IsToken s p ↔ ∃ a b c d, s.splitOn dot = [a, b, c, d] ∧ PartsAre a b c d p := by
  rw [isToken_iff_tokenString]
  constructor
  · rintro ⟨rfl, hwf⟩
    have hall : ∀ t : Str, b64urlTest t = true → t ≠ [] ∧ t.all isB64url = true := fun t ht => by
      rw [b64urlTest, Bool.and_eq_true, bne_iff_ne] at ht
      exact ht
    exact ⟨_, _, _, _, hwf.splitOn_tokenString, rfl, rfl, rfl,
      ⟨(hall _ hwf.kid_test).1, hwf.kid_length⟩, (hall _ hwf.kid_test).2, hwf.selector_length,
      (hall _ hwf.selector_test).2, hwf.length_verifier_text, (hall _ hwf.verifier_test).2,
      hwf.verifier_length, rfl⟩
  · rintro ⟨a, b, c, d, hsplit, h⟩
    refine ⟨?_, h.wellFormed⟩
    rw [tokenString, ← h.pre_eq, ← h.kid_eq, ← h.selector_eq, h.canonical, ← hsplit, List.intercalate_splitOn]

/-! ### The encoders and the decoders -/

theorem encode_url16 (b : List UInt8) : (url UInt16).encode b = base64urlEncode b := by
  refine List.map_congr_left fun n _ => ?_
  show UInt16.ofNat (code 45 95 n) = base64urlChar n
  unfold code base64urlChar
  split_ifs <;> rfl

theorem encode_url8 (b : List UInt8) : (url UInt8).encode b = utf8 (base64urlEncode b) := by
  have hascii : ∀ c ∈ base64urlEncode b, c.toNat < 0x80 := fun c hc =>
    (isB64urlChar_ascii (base64urlValue_isSome (base64urlEncode_alphabet hc))).1
  rw [utf8_ascii hascii, base64urlEncode, List.map_map]
  refine List.map_congr_left fun n hn => ?_
  have hlt : code 45 95 n < 128 := code_lt ⟨by decide, by decide, by decide⟩ (sextets_lt b n hn)
  have hchar : base64urlChar n = UInt16.ofNat (code 45 95 n) := by
    unfold code base64urlChar
    split_ifs <;> rfl
  show UInt8.ofNat (code 45 95 n) = UInt8.ofNat (base64urlChar n).toNat
  rw [hchar, UInt16.toNat_ofNat_of_lt' (by show _ < 65536; omega)]

/-- **Decoding a text and comparing it with the encoding** is asking for the encoding. -/
theorem canonical_iff (strict : Bool) {s : Str} {v : List UInt8} :
    ((url UInt16).decode strict s = some v ∧ (url UInt16).encode v = s) ↔ base64urlEncode v = s := by
  rw [decode_canonical, encode_url16]

/-- The checks of a parser whose decoder is the codec of the alphabet. -/
theorem partsAre_iff (strict : Bool) {a b c d : Str} {p : ParsedToken} :
    PartsAre a b c d p ↔ a = nblPrefix ∧ b ≠ [] ∧ b.length ≤ maxKidLength ∧
      c.length = selectorChars ∧ d.length = verifierChars ∧ b.all isB64url = true ∧
      c.all isB64url = true ∧ d.all isB64url = true ∧
      ∃ v, (url UInt16).decode strict d = some v ∧ v.length = verifierBytes ∧
        (url UInt16).encode v = d ∧ p = ⟨b, c, v⟩ := by
  constructor
  · rintro ⟨hpre, rfl, rfl, ⟨hne, hkl⟩, hka, hsl, hsa, hvl, hva, hdec, hcan⟩
    obtain ⟨hd, he⟩ := (canonical_iff strict).mpr hcan
    exact ⟨hpre, hne, hkl, hsl, hvl, hka, hsa, hva, p.verifier, hd, hdec, he, rfl⟩
  · rintro ⟨hpre, hne, hkl, hsl, hvl, hka, hsa, hva, v, hd, hdec, he, rfl⟩
    exact ⟨hpre, rfl, rfl, ⟨hne, hkl⟩, hka, hsl, hsa, hvl, hva, hdec, (canonical_iff strict).mp ⟨hd, he⟩⟩

/-- What is checked of the bytes of the verifier. -/
theorem verifier_iff {v : List UInt8} {encode : List UInt8 → Str} {b c d : Str} {p : ParsedToken} :
    (if v.length ≠ verifierBytes then none else if encode v ≠ d then none
      else some (⟨b, c, v⟩ : ParsedToken)) = some p ↔
      v.length = verifierBytes ∧ encode v = d ∧ p = ⟨b, c, v⟩ := by
  rw [Option.ite_none_left_eq_some, Option.ite_none_left_eq_some, not_not, not_not, Option.some.injEq,
    eq_comm (a := p)]

/-- **A parser of texts** that splits at the dots and finds the parts accepts the grammar. A bound on the
length may be tested before, if it holds for tokens. -/
theorem parser_iff {parts : Str → Str → Str → Str → Option ParsedToken} {tooLong : Str → Bool}
    (hparts : ∀ a b c d p, parts a b c d = some p ↔ PartsAre a b c d p)
    (hshort : ∀ s, byteLength s ≤ maxTokenLength → tooLong s = false) {s : Str} {p : ParsedToken} :
    (if s = [] then none
      else if tooLong s then none
      else
        match s.splitOn dot with
        | [a, b, c, d] => parts a b c d
        | _ => none) = some p ↔ IsToken s p := by
  constructor
  · intro h
    rw [Option.ite_none_left_eq_some, Option.ite_none_left_eq_some] at h
    obtain ⟨-, -, h⟩ := h
    split at h
    · next a b c d hsplit => exact isToken_iff.mpr ⟨a, b, c, d, hsplit, (hparts a b c d p).mp h⟩
    · cases h
  · intro h
    obtain ⟨a, b, c, d, hsplit, hp⟩ := isToken_iff.mp h
    have hne : s ≠ [] := by
      rw [h.text]
      exact List.append_ne_nil_of_right_ne_nil _ (List.cons_ne_nil _ _)
    rw [if_neg hne, hshort s h.bytes, if_neg Bool.false_ne_true, hsplit]
    exact (hparts a b c d p).mpr hp

/-! ### Java -/

namespace Java

/-- What `Base64.Decoder.decode` throws. -/
inductive IllegalArgumentException
  | invalid

/-- `B64D.decode`: padding may be left out, or is complete. -/
def b64dDecode (strict : Bool) (s : Str) : Except IllegalArgumentException (List UInt8) :=
  match if pad ∈ s then (url UInt16).decodePadded pad strict s else (url UInt16).decode strict s with
  | some bytes => .ok bytes
  | none => .error .invalid

/-- `B64E.encodeToString`: the encoder without padding. -/
def b64eEncodeToString (bytes : List UInt8) : Str := (url UInt16).encode bytes

/-- `isB64Url`. -/
def isB64Url (s : Str) : Bool := s.all isB64url

/-- The checks of `parseToken` on the four parts. -/
def parseParts (strict : Bool) (pre kid selector verifierB64 : Str) : Option ParsedToken :=
  if nblPrefix ≠ pre then none
  else if kid = [] ∨ selector = [] ∨ verifierB64 = [] then none
  else if kid.length > maxKidLength then none
  else if selector.length ≠ selectorChars then none
  else if verifierB64.length ≠ verifierChars then none
  else if ¬ isB64Url kid ∨ ¬ isB64Url selector ∨ ¬ isB64Url verifierB64 then none
  else
    match b64dDecode strict verifierB64 with
    -- `catch (IllegalArgumentException e)`
    | .error _ => none
    | .ok verifier =>
      if verifier.length ≠ verifierBytes then none
      else if b64eEncodeToString verifier ≠ verifierB64 then none
      else some { kid, selector, verifier }

/-- `parseToken`. -/
def parseToken (strict : Bool) (token : Str) : Option ParsedToken :=
  if token = [] then none
  else if Utf16.Java.tokenTooLong token then none
  else
    match token.splitOn dot with
    | [pre, kid, selector, verifierB64] => parseParts strict pre kid selector verifierB64
    | _ => none

theorem b64dDecode_eq {strict : Bool} {s : Str} (h : s.all isB64url = true) {v : List UInt8} :
    b64dDecode strict s = .ok v ↔ (url UInt16).decode strict s = some v := by
  rw [b64dDecode, if_neg (pad_not_mem h)]
  cases (url UInt16).decode strict s with
  | none => exact ⟨fun h => (by cases h), fun h => (by cases h)⟩
  | some b => exact ⟨fun h => congrArg some (Except.ok.inj h), fun h => congrArg _ (Option.some.inj h)⟩

theorem parseParts_iff {strict : Bool} {a b c d : Str} {p : ParsedToken} :
    parseParts strict a b c d = some p ↔ PartsAre a b c d p := by
  rw [partsAre_iff strict, parseParts]
  simp only [Option.ite_none_left_eq_some, not_or, not_not]
  constructor
  · rintro ⟨hpre, ⟨hne, -, -⟩, hkl, hsl, hvl, ⟨hka, hsa, hva⟩, h⟩
    refine ⟨hpre.symm, hne, Nat.le_of_not_lt hkl, hsl, hvl, hka, hsa, hva, ?_⟩
    cases hd : b64dDecode strict d with
    | error e =>
      rw [hd] at h
      cases h
    | ok v =>
      rw [hd] at h
      exact ⟨v, (b64dDecode_eq hva).mp hd, verifier_iff.mp h⟩
  · rintro ⟨hpre, hne, hkl, hsl, hvl, hka, hsa, hva, v, hd, hv⟩
    have hlen : ∀ s : Str, 0 < s.length → s ≠ [] := fun s hs => List.length_pos_iff.mp hs
    refine ⟨hpre.symm, ⟨hne, hlen c (by rw [hsl]; decide), hlen d (by rw [hvl]; decide)⟩,
      Nat.not_lt.mpr hkl, hsl, hvl, ⟨hka, hsa, hva⟩, ?_⟩
    rw [(b64dDecode_eq hva).mpr hd]
    exact verifier_iff.mpr hv

/-- Java's counter is exact for what is short enough. -/
theorem tokenTooLong_short (s : Str) (h : byteLength s ≤ maxTokenLength) :
    Utf16.Java.tokenTooLong s = false := by
  have hb : byteLength s < 2 ^ 31 := Nat.lt_of_le_of_lt h (by decide)
  have hexact : (Utf16.Java.utf8Length s).toInt = byteLength s :=
    (Utf16.java_utf8Length s).trans ((Utf16.bmod_eq_iff _).mpr hb)
  rw [Utf16.Java.tokenTooLong, Utf16.lt_utf8Length hexact (by decide), decide_eq_false_iff_not]
  exact Nat.not_lt.mpr h

/-- **Java.** What its counter lets pass wrongly is refused for its parts. -/
theorem parseToken_iff (strict : Bool) {s : Str} {p : ParsedToken} :
    parseToken strict s = some p ↔ IsToken s p :=
  parser_iff (fun _ _ _ _ _ => parseParts_iff) tokenTooLong_short

end Java

/-! ### Dart -/

namespace Dart

open NebulaToken.Ports.Base64url.Dart

/-- The checks of `parseToken` on the four parts. -/
def parseParts (strict : Bool) (pre kid selector verifierB64 : Str) : Option ParsedToken :=
  if pre ≠ nblPrefix then none
  else if kid = [] ∨ selector = [] ∨ verifierB64 = [] then none
  else if kid.length > maxKidLength then none
  else if selector.length ≠ selectorChars then none
  else if verifierB64.length ≠ verifierChars then none
  else if ¬ isB64Url kid then none
  else if ¬ isB64Url selector then none
  else if ¬ isB64Url verifierB64 then none
  else
    match b64urlDecode strict verifierB64 with
    | none => none
    | some verifier =>
      if verifier.length ≠ verifierBytes then none
      else if b64urlEncode verifier ≠ verifierB64 then none
      else some { kid, selector, verifier }

/-- `parseToken`. -/
def parseToken (strict : Bool) (token : Str) : Option ParsedToken :=
  if token = [] then none
  else if Utf16.Dart.tokenTooLong token then none
  else
    match token.splitOn dot with
    | [pre, kid, selector, verifierB64] => parseParts strict pre kid selector verifierB64
    | _ => none

theorem parseParts_iff {strict : Bool} {a b c d : Str} {p : ParsedToken} :
    parseParts strict a b c d = some p ↔ PartsAre a b c d p := by
  rw [partsAre_iff strict, parseParts]
  simp only [Option.ite_none_left_eq_some, not_or, not_not, isB64Url_iff]
  constructor
  · rintro ⟨hpre, ⟨hne, -, -⟩, hkl, hsl, hvl, ⟨-, hka⟩, ⟨-, hsa⟩, ⟨hvne, hva⟩, h⟩
    refine ⟨hpre, hne, Nat.le_of_not_lt hkl, hsl, hvl, hka, hsa, hva, ?_⟩
    rw [b64urlDecode_eq, if_pos (isB64Url_iff.mpr ⟨hvne, hva⟩)] at h
    cases hd : (url UInt16).decode strict d with
    | none =>
      rw [hd] at h
      cases h
    | some v =>
      rw [hd] at h
      simp only [b64urlEncode_eq] at h
      exact ⟨v, rfl, verifier_iff.mp h⟩
  · rintro ⟨hpre, hne, hkl, hsl, hvl, hka, hsa, hva, v, hd, hv⟩
    have hlen : ∀ s : Str, 0 < s.length → s ≠ [] := fun s hs => List.length_pos_iff.mp hs
    have hcne : c ≠ [] := hlen c (by rw [hsl]; decide)
    have hdne : d ≠ [] := hlen d (by rw [hvl]; decide)
    refine ⟨hpre, ⟨hne, hcne, hdne⟩, Nat.not_lt.mpr hkl, hsl, hvl, ⟨hne, hka⟩, ⟨hcne, hsa⟩,
      ⟨hdne, hva⟩, ?_⟩
    rw [b64urlDecode_eq, if_pos (isB64Url_iff.mpr ⟨hdne, hva⟩), hd]
    simp only [b64urlEncode_eq]
    exact verifier_iff.mpr hv

/-- **Dart.** -/
theorem parseToken_iff (strict : Bool) {s : Str} {p : ParsedToken} :
    parseToken strict s = some p ↔ IsToken s p := by
  refine parser_iff (fun _ _ _ _ _ => parseParts_iff) fun s h => ?_
  rw [Utf16.Dart.tokenTooLong, Utf16.dart_utf8ByteLength, decide_eq_false_iff_not]
  exact Nat.not_lt.mpr h

end Dart

/-! ### C# -/

namespace CSharp

open NebulaToken.Ports.Base64url.CSharp

/-- `IsBase64Url`. -/
def isBase64Url (value : Str) : Bool := value.all isB64url

/-- The checks of `ParseToken` on the four parts. -/
def parseParts (strict : Bool) (pre kid selector verifierB64 : Str) : Option ParsedToken :=
  if pre ≠ nblPrefix then none
  else if kid.length = 0 ∨ kid.length > maxKidLength then none
  else if selector.length ≠ selectorChars then none
  else if verifierB64.length ≠ verifierChars then none
  else if ¬ isBase64Url kid ∨ ¬ isBase64Url selector ∨ ¬ isBase64Url verifierB64 then none
  else
    match tryBase64UrlDecode strict verifierB64 with
    | none => none
    | some verifier =>
      if verifier.length ≠ verifierBytes then none
      else if base64UrlEncode verifier ≠ verifierB64 then none
      else some { kid, selector, verifier }

/-- `Encoding.UTF8.GetByteCount(token) > MaxTokenLength`. -/
def tokenTooLong (token : Str) : Bool := decide (maxTokenLength < byteLength token)

/-- `ParseToken`. -/
def parseToken (strict : Bool) (token : Str) : Option ParsedToken :=
  if token = [] then none
  else if tokenTooLong token then none
  else
    match token.splitOn dot with
    | [pre, kid, selector, verifierB64] => parseParts strict pre kid selector verifierB64
    | _ => none

theorem parseParts_iff {strict : Bool} {a b c d : Str} {p : ParsedToken} :
    parseParts strict a b c d = some p ↔ PartsAre a b c d p := by
  rw [partsAre_iff strict, parseParts]
  simp only [Option.ite_none_left_eq_some, not_or, not_not]
  constructor
  · rintro ⟨hpre, ⟨hne, hkl⟩, hsl, hvl, ⟨hka, hsa, hva⟩, h⟩
    refine ⟨hpre, fun h0 => hne (congrArg List.length h0), Nat.le_of_not_lt hkl, hsl, hvl, hka, hsa,
      hva, ?_⟩
    rw [tryBase64UrlDecode_eq strict hva] at h
    cases hd : (url UInt16).decode strict d with
    | none =>
      rw [hd] at h
      cases h
    | some v =>
      rw [hd] at h
      simp only [base64UrlEncode_eq] at h
      exact ⟨v, rfl, verifier_iff.mp h⟩
  · rintro ⟨hpre, hne, hkl, hsl, hvl, hka, hsa, hva, v, hd, hv⟩
    refine ⟨hpre, ⟨mt List.length_eq_zero_iff.mp hne, Nat.not_lt.mpr hkl⟩, hsl, hvl, ⟨hka, hsa, hva⟩, ?_⟩
    rw [tryBase64UrlDecode_eq strict hva, hd]
    simp only [base64UrlEncode_eq]
    exact verifier_iff.mpr hv

/-- **C#.** -/
theorem parseToken_iff (strict : Bool) {s : Str} {p : ParsedToken} :
    parseToken strict s = some p ↔ IsToken s p :=
  parser_iff (fun _ _ _ _ _ => parseParts_iff) fun _ h => decide_eq_false (Nat.not_lt.mpr h)

end CSharp

/-! ### Go -/

namespace Go

/-- What `DecodeString` returns for bytes that are no base64. -/
inductive CorruptInputError
  | corrupt

/-- `b64.DecodeString`: the decoder without padding; it skips the ends of lines. -/
def b64DecodeString (strict : Bool) (s : Bytes) : Except CorruptInputError (List UInt8) :=
  match (url UInt8).decode strict (s.filter fun c => !(c == 10 || c == 13)) with
  | some bytes => .ok bytes
  | none => .error .corrupt

/-- `b64.EncodeToString`. -/
def b64EncodeToString (b : List UInt8) : Bytes := (url UInt8).encode b

/-- `isB64URL`. -/
def isB64URL (s : Bytes) : Bool := if s.length = 0 then false else s.all isB64url

/-- The checks of `ParseToken` on the four parts. -/
def parseParts (strict : Bool) (pre kid selector verifierB64 : Bytes) : Option ParsedToken :=
  if pre ≠ nblBytes then none
  else if kid.length = 0 ∨ kid.length > maxKidLength then none
  else if selector.length ≠ selectorChars ∨ verifierB64.length ≠ verifierChars then none
  else if ¬ isB64URL kid ∨ ¬ isB64URL selector ∨ ¬ isB64URL verifierB64 then none
  else
    match b64DecodeString strict verifierB64 with
    | .error _ => none
    | .ok verifier =>
      if verifier.length ≠ verifierBytes then none
      else if b64EncodeToString verifier ≠ verifierB64 then none
      else some { kid := ofAscii kid, selector := ofAscii selector, verifier }

/-- `ParseToken`. -/
def parseToken (strict : Bool) (token : Bytes) : Option ParsedToken :=
  if token.length > maxTokenLength then none
  else
    match token.splitOn dotByte with
    | [pre, kid, selector, verifierB64] => parseParts strict pre kid selector verifierB64
    | _ => none

theorem isB64URL_iff {s : Bytes} : isB64URL s = true ↔ s.length ≠ 0 ∧ s.all isB64urlByte = true := by
  unfold isB64URL
  split_ifs with h
  · exact ⟨fun h' => (by cases h'), fun h' => absurd h h'.1⟩
  · exact ⟨fun h' => ⟨h, h'⟩, fun h' => h'.2⟩

theorem b64DecodeString_eq {strict : Bool} {s : Bytes} (h : s.all isB64url = true) {v : List UInt8} :
    b64DecodeString strict s = .ok v ↔ (url UInt8).decode strict s = some v := by
  have hfilter : (s.filter fun c => !(c == 10 || c == 13)) = s := by
    refine List.filter_eq_self.mpr fun c hc => ?_
    obtain ⟨-, -, -, hspace⟩ := isB64url_range (List.all_eq_true.mp h c hc)
    rw [Bool.not_eq_true', Bool.or_eq_false_iff, beq_eq_false_iff_ne, beq_eq_false_iff_ne]
    constructor
    · rintro rfl
      cases hspace
    · rintro rfl
      cases hspace
  rw [b64DecodeString, hfilter]
  cases (url UInt8).decode strict s with
  | none => exact ⟨fun h => (by cases h), fun h => (by cases h)⟩
  | some b => exact ⟨fun h => congrArg some (Except.ok.inj h), fun h => congrArg _ (Option.some.inj h)⟩

theorem parseParts_iff {strict : Bool} {a b c d : Bytes} {p : ParsedToken} :
    parseParts strict a b c d = some p ↔ PartsOf a b c d p := by
  rw [partsOf_iff, parseParts]
  simp only [Option.ite_none_left_eq_some, not_or, not_not, isB64URL_iff]
  constructor
  · rintro ⟨hpre, ⟨hne, hkl⟩, ⟨hsl, hvl⟩, ⟨⟨-, hka⟩, ⟨-, hsa⟩, ⟨-, hva⟩⟩, h⟩
    cases hd : b64DecodeString strict d with
    | error e =>
      rw [hd] at h
      cases h
    | ok v =>
      rw [hd] at h
      obtain ⟨hlen, henc, h⟩ := Option.ite_none_left_eq_some.mp h |>.imp_right Option.ite_none_left_eq_some.mp
      refine ⟨v, ⟨hpre, Nat.pos_of_ne_zero hne, Nat.le_of_not_lt hkl, hka, hsl, hsa, ?_, not_not.mp hlen⟩,
        (Option.some.inj h).symm⟩
      rw [← encode_url8]
      exact not_not.mp henc
  · rintro ⟨v, hv, rfl⟩
    have hvl : d.length = verifierChars := by
      rw [← hv.canonical, ← encode_url8, length_encode, hv.verifier_length]
      rfl
    have hva : d.all isB64url = true := by
      rw [← hv.canonical, ← encode_url8]
      exact all_encode v
    have hd : b64DecodeString strict d = .ok v := by
      rw [b64DecodeString_eq hva, ← hv.canonical, ← encode_url8]
      exact Alphabet.decode_encode strict v
    have hsel : c.length ≠ 0 := by
      rw [hv.selector_length]
      decide
    have hver : d.length ≠ 0 := by
      rw [hvl]
      decide
    have hkid : b.length ≠ 0 := Nat.pos_iff_ne_zero.mp hv.kid_pos
    refine ⟨hv.pre, ⟨hkid, Nat.not_lt.mpr hv.kid_length⟩, ⟨hv.selector_length, hvl⟩,
      ⟨⟨hkid, hv.kid_test⟩, ⟨hsel, hv.selector_test⟩, ⟨hver, hva⟩⟩, ?_⟩
    rw [hd]
    dsimp only
    rw [if_neg (not_not.mpr hv.verifier_length), if_neg]
    rw [not_not, b64EncodeToString, encode_url8]
    exact hv.canonical

theorem parseToken_parts (strict : Bool) (token : Bytes) (p : ParsedToken) :
    parseToken strict token = some p ↔ token.length ≤ maxTokenLength ∧
      ∃ a b c d, token.splitOn dotByte = [a, b, c, d] ∧ PartsOf a b c d p := by
  rw [parseToken, Option.ite_none_left_eq_some, Nat.not_lt]
  refine and_congr_right fun _ => ?_
  constructor
  · intro h
    split at h
    · next a b c d hsplit => exact ⟨a, b, c, d, hsplit, parseParts_iff.mp h⟩
    · cases h
  · rintro ⟨a, b, c, d, hsplit, hp⟩
    rw [hsplit]
    exact parseParts_iff.mpr hp

/-- **Go.** It accepts the bytes of the grammar. -/
theorem parseToken_iff {strict : Bool} {token : Bytes} {p : ParsedToken} :
    parseToken strict token = some p ↔ ∃ s, utf8 s = token ∧ IsToken s p := by
  rw [parse_iff (parseToken_parts strict)]
  exact exists_congr fun s => and_congr_right fun _ => typescript_iff

/-- On the bytes of a text, it does what TypeScript does. -/
theorem parseToken_utf8 (strict : Bool) (s : Str) :
    parseToken strict (utf8 s) = Token.Wire.parseToken s :=
  parse_agrees (parseToken_parts strict) s

end Go

/-! ### All of them -/

/-- A parser of texts that accepts the grammar, and whose results are rendered as what was parsed. -/
def AcceptsGrammar (parse : Str → Option ParsedToken) : Prop :=
  ∀ s p, parse s = some p ↔ IsToken s p ∧ tokenString p.kid p.selector p.verifier = s

theorem acceptsGrammar_of {parse : Str → Option ParsedToken}
    (h : ∀ s p, parse s = some p ↔ IsToken s p) : AcceptsGrammar parse := fun s p =>
  (h s p).trans ⟨fun hp => ⟨hp, (isToken_iff_tokenString.mp hp).1.symm⟩, fun hp => hp.1⟩

theorem acceptsGrammar_unique {parse parse' : Str → Option ParsedToken} (h : AcceptsGrammar parse)
    (h' : AcceptsGrammar parse') (s : Str) : parse s = parse' s :=
  Option.ext fun p => (h s p).trans (h' s p).symm

/-- **The parsers accept the grammar, with the same results**, whether the base64 decoders they rest on
are strict about left-over bits or lenient. Go's does so on bytes: it accepts the bytes of the tokens, and
no others. -/
theorem parsers_accept_the_grammar (go java dart : Bool) :
    AcceptsGrammar parseToken ∧ AcceptsGrammar (Java.parseToken java) ∧
      AcceptsGrammar (Dart.parseToken dart) ∧
      (∀ token p, Go.parseToken go token = some p ↔
        ∃ s, utf8 s = token ∧ IsToken s p ∧ tokenString p.kid p.selector p.verifier = s) ∧
      ∀ s, Java.parseToken java s = parseToken s ∧ Dart.parseToken dart s = parseToken s ∧
        Go.parseToken go (utf8 s) = parseToken s := by
  have hts := acceptsGrammar_of fun s p => typescript_iff (s := s) (p := p)
  have hjava := acceptsGrammar_of fun s p => Java.parseToken_iff java (s := s) (p := p)
  have hdart := acceptsGrammar_of fun s p => Dart.parseToken_iff dart (s := s) (p := p)
  refine ⟨hts, hjava, hdart, fun token p => ?_, fun s => ⟨acceptsGrammar_unique hjava hts s,
    acceptsGrammar_unique hdart hts s, Go.parseToken_utf8 go s⟩⟩
  rw [Go.parseToken_iff]
  refine exists_congr fun s => and_congr_right fun _ => ?_
  exact ⟨fun h => ⟨h, (isToken_iff_tokenString.mp h).1.symm⟩, fun h => h.1⟩

end NebulaToken.Ports.Parsers
