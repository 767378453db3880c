import NebulaToken.Lib.Codec
import NebulaToken.Token.Unicode

/-! # Wire tokens and their digests

The wire form of a token is `nbl.{kid}.{selector}.{verifier}`. `parseToken` is total and strict: exact
lengths, one alphabet, and only the canonical spelling of the verifier's 32 bytes.

* `eq_tokenString_of_parseToken`: a text that parses is the wire form of its parts;
* `parseToken_tokenString`: the wire form of well-formed parts parses to them;
* `eq_of_constantTimeEqualHex`: digests that compare equal are equal. -/

namespace NebulaToken.Token.Wire

open NebulaToken.Lib.Codec NebulaToken.Token.Unicode

/-! ### The constants of the format -/

def nblPrefix : Str := ascii ['n', 'b', 'l']
def selectorBytes : ℕ := 16
def verifierBytes : ℕ := 32
def selectorChars : ℕ := 22
def verifierChars : ℕ := 43
def maxKidLength : ℕ := 64
def maxTokenLength : ℕ := 512
def minPepperLength : ℕ := 32
def hashHexChars : ℕ := 64

/-- The separator of the parts. -/
def dot : UInt16 := 46

/-- What a token says: the pepper it claims, its lookup key, and its secret. -/
structure ParsedToken where
  kid : Str
  selector : Str
  verifier : List UInt8
  deriving DecidableEq, Repr

/-- `[A-Za-z0-9_-]`. -/
def isB64urlChar (c : UInt16) : Bool :=
  let n := c.toNat
  (65 ≤ n && n ≤ 90) || (97 ≤ n && n ≤ 122) || (48 ≤ n && n ≤ 57) || n == 95 || n == 45

/-- `B64URL_CHAR.test(s)`. -/
def b64urlTest (s : Str) : Bool := s != [] && s.all isB64urlChar

/-- The checks on the four parts. -/
def parseParts (pre kid selector verifierB64 : Str) : Option ParsedToken :=
  if pre ≠ nblPrefix then none
  else if kid.length = 0 ∨ selector.length = 0 ∨ verifierB64.length = 0 then none
  else if kid.length > maxKidLength then none
  else if selector.length ≠ selectorChars then none
  else if verifierB64.length ≠ verifierChars then none
  else if ¬ b64urlTest kid then none
  else if ¬ b64urlTest selector then none
  else if ¬ b64urlTest verifierB64 then none
  else
    let verifier := base64urlDecode verifierB64
    if verifier.length ≠ verifierBytes then none
    -- one spelling in four is the canonical one
    else if base64urlEncode verifier ≠ verifierB64 then none
    else some { kid, selector, verifier }

/-- Parse a wire token. -/
def parseToken (token : Str) : Option ParsedToken :=
  if token.length = 0 then none
  -- the bound is on bytes, and comes before any other work
  else if byteLength token > maxTokenLength then none
  else
    match token.splitOn dot with
    | [pre, kid, selector, verifierB64] => parseParts pre kid selector verifierB64
    | _ => none

/-- The wire form of the parts, as `#mint` writes it. -/
def tokenString (kid selector : Str) (verifier : List UInt8) : Str :=
  [dot].intercalate [nblPrefix, kid, selector, base64urlEncode verifier]

/-- Well-formed parts. -/
structure ParsedToken.WellFormed (p : ParsedToken) : Prop where
  kid_length : p.kid.length ≤ maxKidLength
  kid_test : b64urlTest p.kid = true
  selector_length : p.selector.length = selectorChars
  selector_test : b64urlTest p.selector = true
  verifier_length : p.verifier.length = verifierBytes

/-! ### The parser -/

theorem base64urlValue_isSome {c : UInt16} (h : (base64urlValue c).isSome) : isB64urlChar c = true := by
  unfold base64urlValue at h
  unfold isB64urlChar
  dsimp only at h ⊢
  split_ifs at h <;> simp_all

theorem b64urlTest_encode {l : List UInt8} (h : l ≠ []) : b64urlTest (base64urlEncode l) = true := by
  have hne : base64urlEncode l ≠ [] := by
    intro h0
    have hl := length_base64urlEncode l
    have hpos := List.length_pos_iff.mpr h
    rw [h0, List.length_nil] at hl
    omega
  rw [b64urlTest, Bool.and_eq_true, List.all_eq_true]
  exact ⟨by simpa using hne, fun c hc => base64urlValue_isSome (base64urlEncode_alphabet hc)⟩

theorem isB64urlChar_ascii {c : UInt16} (h : isB64urlChar c = true) : c.toNat < 0x80 ∧ c ≠ dot := by
  refine ⟨?_, ?_⟩
  · unfold isB64urlChar at h
    simp only [Bool.or_eq_true, Bool.and_eq_true, decide_eq_true_eq, beq_iff_eq] at h
    omega
  · rintro rfl
    exact absurd h (by decide)

theorem b64urlTest_mem {s : Str} (h : b64urlTest s = true) {c : UInt16} (hc : c ∈ s) :
    isB64urlChar c = true := by
  rw [b64urlTest, Bool.and_eq_true, List.all_eq_true] at h
  exact h.2 c hc

theorem b64urlTest_length {s : Str} (h : b64urlTest s = true) : s.length ≠ 0 := by
  rw [b64urlTest, Bool.and_eq_true] at h
  have hne : s ≠ [] := by simpa using h.1
  simpa using hne

theorem eq_of_parseParts {pre kid selector verifierB64 : Str} {p : ParsedToken}
    (h : parseParts pre kid selector verifierB64 = some p) :
    pre = nblPrefix ∧ kid = p.kid ∧ selector = p.selector ∧
      verifierB64 = base64urlEncode p.verifier ∧ p.WellFormed := by
  unfold parseParts at h
  simp only [Option.ite_none_left_eq_some] at h
  obtain ⟨g1, -, g3, g4, -, g6, g7, -, g9, g10, h⟩ := h
  obtain rfl := Option.some.inj h
  exact ⟨not_not.mp g1, rfl, rfl, (not_not.mp g10).symm, Nat.le_of_not_lt g3, not_not.mp g6,
    not_not.mp g4, not_not.mp g7, not_not.mp g9⟩

/-- **A text that parses is the wire form of its parts.** -/
theorem eq_tokenString_of_parseToken {s : Str} {p : ParsedToken} (h : parseToken s = some p) :
    s = tokenString p.kid p.selector p.verifier ∧ p.WellFormed := by
  unfold parseToken at h
  rw [Option.ite_none_left_eq_some, Option.ite_none_left_eq_some] at h
  obtain ⟨-, -, h⟩ := h
  split at h
  · next pre kid selector verifierB64 hsplit =>
    obtain ⟨hpre, hkid, hsel, hver, hwf⟩ := eq_of_parseParts h
    refine ⟨?_, hwf⟩
    rw [tokenString, ← hpre, ← hkid, ← hsel, ← hver, ← hsplit, List.intercalate_splitOn]
  · cases h

theorem tokenString_eq (kid selector : Str) (verifier : List UInt8) :
    tokenString kid selector verifier =
      nblPrefix ++ dot :: (kid ++ dot :: (selector ++ dot :: base64urlEncode verifier)) := by
  simp only [tokenString, List.intercalate, List.intersperse, List.flatten_cons, List.flatten_nil,
    List.append_nil, List.cons_append, List.nil_append]

namespace ParsedToken.WellFormed

variable {p : ParsedToken}

theorem verifier_test (h : p.WellFormed) : b64urlTest (base64urlEncode p.verifier) = true := by
  refine b64urlTest_encode fun h0 => ?_
  have hl := h.verifier_length
  rw [h0] at hl
  cases hl

theorem length_verifier_text (h : p.WellFormed) :
    (base64urlEncode p.verifier).length = verifierChars := by
  rw [length_base64urlEncode, h.verifier_length]
  rfl

theorem splitOn_tokenString (h : p.WellFormed) :
    (tokenString p.kid p.selector p.verifier).splitOn dot =
      [nblPrefix, p.kid, p.selector, base64urlEncode p.verifier] := by
  refine List.splitOn_intercalate dot ?_ (by simp)
  have hpre : dot ∉ nblPrefix := by decide
  have hpart : ∀ s : Str, b64urlTest s = true → dot ∉ s := fun s hs hd =>
    (isB64urlChar_ascii (b64urlTest_mem hs hd)).2 rfl
  simp only [List.mem_cons, List.not_mem_nil, or_false]
  rintro l (rfl | rfl | rfl | rfl)
  · exact hpre
  · exact hpart _ h.kid_test
  · exact hpart _ h.selector_test
  · exact hpart _ h.verifier_test

theorem tokenString_ascii (h : p.WellFormed) :
    ∀ c ∈ tokenString p.kid p.selector p.verifier, c.toNat < 0x80 := by
  have hpre : ∀ c ∈ nblPrefix, c.toNat < 0x80 := ascii_of_check (by decide)
  have hdot : dot.toNat < 0x80 := by decide
  have hpart : ∀ s : Str, b64urlTest s = true → ∀ c ∈ s, c.toNat < 0x80 := fun s hs c hc =>
    (isB64urlChar_ascii (b64urlTest_mem hs hc)).1
  rw [tokenString_eq]
  intro c hc
  simp only [List.mem_append, List.mem_cons] at hc
  rcases hc with hc | rfl | hc | rfl | hc | rfl | hc
  · exact hpre c hc
  · exact hdot
  · exact hpart _ h.kid_test c hc
  · exact hdot
  · exact hpart _ h.selector_test c hc
  · exact hdot
  · exact hpart _ h.verifier_test c hc

theorem length_tokenString (h : p.WellFormed) :
    (tokenString p.kid p.selector p.verifier).length = p.kid.length + 71 := by
  have hpre : nblPrefix.length = 3 := rfl
  rw [tokenString_eq]
  simp only [List.length_append, List.length_cons, h.selector_length, h.length_verifier_text, hpre,
    selectorChars, verifierChars]
  omega

theorem byteLength_tokenString (h : p.WellFormed) :
    ¬ byteLength (tokenString p.kid p.selector p.verifier) > maxTokenLength := by
  have hk : p.kid.length ≤ 64 := h.kid_length
  rw [byteLength_ascii h.tokenString_ascii, h.length_tokenString, maxTokenLength]
  omega

end ParsedToken.WellFormed

/-- **The wire form of well-formed parts parses to them.** -/
theorem parseToken_tokenString {p : ParsedToken} (h : p.WellFormed) :
    parseToken (tokenString p.kid p.selector p.verifier) = some p := by
  have hlen := h.length_tokenString
  have hk := b64urlTest_length h.kid_test
  have hs := b64urlTest_length h.selector_test
  have hv := b64urlTest_length h.verifier_test
  have hkl := h.kid_length
  unfold parseToken
  rw [if_neg (by omega), if_neg h.byteLength_tokenString, h.splitOn_tokenString]
  dsimp only [parseParts]
  rw [if_neg (not_not.mpr rfl), if_neg (by omega), if_neg (by omega),
    if_neg (not_not.mpr h.selector_length), if_neg (not_not.mpr h.length_verifier_text),
    if_neg (not_not.mpr h.kid_test), if_neg (not_not.mpr h.selector_test),
    if_neg (not_not.mpr h.verifier_test), base64urlDecode_encode,
    if_neg (not_not.mpr h.verifier_length), if_neg (not_not.mpr rfl)]

/-! ### Digests -/

/-- HMAC-SHA-256, as the platform computes it: a 32-byte digest of a message under a key. -/
structure HmacSha256 where
  run : List UInt8 → List UInt8 → List UInt8
  run_length : ∀ key msg, (run key msg).length = 32

/-- The caller's mistakes the engine throws for. -/
inductive NebulaConfigError
  | kidShape (kid : Str)
  | pepperUnicode (kid : Str)
  | pepperLength (kid : Str)
  | activeKidMissing (kid : Str)
  | absoluteTtlSeconds
  | idleTtlSeconds
  | reuseGraceSeconds
  | deviceIdUnicode
  deriving DecidableEq, Repr

variable (H : HmacSha256)

/-- The digest of a verifier. -/
def hashVerifier (pepper : Str) (verifier : List UInt8) : Str :=
  hexEncode (H.run (utf8 pepper) verifier)

/-- `device:`, the text before a device identifier. -/
def devicePrefix : Str := ascii ['d', 'e', 'v', 'i', 'c', 'e', ':']

/-- The digest of a device identifier; it throws for one that is not valid Unicode. -/
def hashDeviceId (pepper deviceId : Str) : Except NebulaConfigError Str :=
  if ¬ isWellFormedUnicode deviceId then .error .deviceIdUnicode
  else .ok (hexEncode (H.run (utf8 pepper) (utf8 (devicePrefix ++ deviceId))))

/-- `[0-9a-f]`. -/
def isLowerHex (c : UInt16) : Bool :=
  let n := c.toNat
  (48 ≤ n && n ≤ 57) || (97 ≤ n && n ≤ 102)

/-- `LOWER_HEX_64.test(s)`. -/
def lowerHex64Test (s : Str) : Bool := s.length == 64 && s.all isLowerHex

/-- Comparison of two hex digests; an operand that is not 64 lower-case digits is unequal to all. -/
def constantTimeEqualHex (aHex bHex : Str) : Bool :=
  if aHex.length ≠ hashHexChars ∨ bHex.length ≠ hashHexChars then false
  else if ¬ lowerHex64Test aHex ∨ ¬ lowerHex64Test bHex then false
  else decide (hexDecode aHex = hexDecode bHex)

theorem isLowerHex_iff (c : UInt16) : isLowerHex c = true ↔ (hexValue c).isSome := by
  unfold isLowerHex hexValue
  dsimp only
  split_ifs with h1 h2 <;> simp_all

theorem hexEncode_decode_of_test {s : Str} (h : lowerHex64Test s = true) :
    hexEncode (hexDecode s) = s := by
  rw [lowerHex64Test, Bool.and_eq_true, beq_iff_eq, List.all_eq_true] at h
  exact hexEncode_decode (fun c hc => (isLowerHex_iff c).mp (h.2 c hc)) (by omega)

/-- **Digests that compare equal are equal.** -/
theorem eq_of_constantTimeEqualHex {a b : Str} (h : constantTimeEqualHex a b = true) : a = b := by
  unfold constantTimeEqualHex at h
  split_ifs at h with h1 h2
  rw [not_or, not_not, not_not] at h2
  rw [← hexEncode_decode_of_test h2.1, ← hexEncode_decode_of_test h2.2, of_decide_eq_true h]

theorem lowerHex64Test_digest (l : List UInt8) (h : l.length = 32) :
    lowerHex64Test (hexEncode l) = true := by
  rw [lowerHex64Test, Bool.and_eq_true, beq_iff_eq, List.all_eq_true, length_hexEncode, h]
  exact ⟨rfl, fun c hc => (isLowerHex_iff c).mpr (hexEncode_digits hc)⟩

/-- A digest compares equal to itself. -/
theorem constantTimeEqualHex_hashVerifier (pepper : Str) (verifier : List UInt8) :
    constantTimeEqualHex (hashVerifier H pepper verifier) (hashVerifier H pepper verifier) = true := by
  have hlen := H.run_length (utf8 pepper) verifier
  have ht := lowerHex64Test_digest _ hlen
  have hl : (hashVerifier H pepper verifier).length = hashHexChars := by
    rw [hashVerifier, length_hexEncode, hlen]
    rfl
  unfold constantTimeEqualHex
  rw [if_neg (by omega), if_neg (by simp only [hashVerifier, ht]; decide)]
  exact decide_eq_true rfl

end NebulaToken.Token.Wire
