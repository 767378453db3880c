import NebulaToken.Engine.Operations
import NebulaToken.Token.Utf8

/-! # What the ports make of a token's bytes

The ports for Rust, Elixir and Ruby parse a token as bytes. Each splits it at the dots and checks the
four parts in its own order, with its own base64 decoder.

* `PartsOf`: what all of them ask of the parts;
* `parse_agrees`: a parser that asks just this agrees with `parseToken`;
* `equalHex_utf8`: the comparison of digests on bytes is the one on texts. -/

namespace NebulaToken.Ports.Bytes

open NebulaToken.Lib.Codec NebulaToken.Token.Unicode NebulaToken.Token.Utf8 NebulaToken.Token.Wire
open NebulaToken.Engine.Records NebulaToken.Engine.Config NebulaToken.Engine.Operations

/-- `nbl`. -/
def nblBytes : Bytes := [110, 98, 108]

/-- `.`. -/
def dotByte : UInt8 := 46

/-- `[A-Za-z0-9_-]`. -/
def isB64urlByte (b : UInt8) : Bool :=
  let n := b.toNat
  (65 ≤ n && n ≤ 90) || (97 ≤ n && n ≤ 122) || (48 ≤ n && n ≤ 57) || n == 95 || n == 45

/-- `[0-9a-f]`. -/
def isLowerHexByte (b : UInt8) : Bool :=
  let n := b.toNat
  (48 ≤ n && n ≤ 57) || (97 ≤ n && n ≤ 102)

/-! ### The parts of a token -/

/-- The bytes of the four parts of a well-formed token. -/
structure PartsOf (pre kid selector verifierB64 : Bytes) (p : ParsedToken) : Prop where
  pre : pre = nblBytes
  kid : kid = utf8 p.kid
  selector : selector = utf8 p.selector
  verifier : verifierB64 = utf8 (base64urlEncode p.verifier)
  wellFormed : p.WellFormed

/-- What the ports check. -/
structure PartsChecked (pre kid selector verifierB64 : Bytes) (verifier : List UInt8) : Prop where
  pre : pre = nblBytes
  kid_pos : 0 < kid.length
  kid_length : kid.length ≤ maxKidLength
  kid_test : kid.all isB64urlByte = true
  selector_length : selector.length = selectorChars
  selector_test : selector.all isB64urlByte = true
  canonical : utf8 (base64urlEncode verifier) = verifierB64
  verifier_length : verifier.length = verifierBytes

theorem isB64urlByte_ascii {b : UInt8} (h : isB64urlByte b = true) :
    b.toNat < 0x80 ∧ isB64urlChar (UInt16.ofNat b.toNat) = true := by
  have hb := b.toNat_lt
  have hu : (UInt16.ofNat b.toNat).toNat = b.toNat :=
    UInt16.toNat_ofNat_of_lt' (by show b.toNat < 65536; omega)
  refine ⟨?_, ?_⟩
  · unfold isB64urlByte at h
    simp only [Bool.or_eq_true, Bool.and_eq_true, decide_eq_true_eq, beq_iff_eq] at h
    omega
  · unfold isB64urlByte at h
    unfold isB64urlChar
    rw [hu]
    exact h

theorem ascii_of_all {b : Bytes} (h : b.all isB64urlByte = true) : ∀ x ∈ b, x.toNat < 0x80 :=
  fun x hx => (isB64urlByte_ascii (List.all_eq_true.mp h x hx)).1

/-- Bytes of the alphabet are a text of the alphabet. -/
theorem b64urlTest_ofAscii {b : Bytes} (h : b.all isB64urlByte = true) (hne : 0 < b.length) :
    b64urlTest (ofAscii b) = true := by
  rw [b64urlTest, Bool.and_eq_true, List.all_eq_true]
  refine ⟨?_, fun c hc => ?_⟩
  · rw [bne_iff_ne, ne_eq, ofAscii, List.map_eq_nil_iff]
    exact List.ne_nil_of_length_pos hne
  · obtain ⟨x, hx, rfl⟩ := List.mem_map.mp hc
    exact (isB64urlByte_ascii (List.all_eq_true.mp h x hx)).2

/-- A text of the alphabet in bytes. -/
theorem all_utf8_of_test {s : Str} (h : b64urlTest s = true) :
    (utf8 s).all isB64urlByte = true ∧ (utf8 s).length = s.length := by
  have hascii : ∀ c ∈ s, c.toNat < 0x80 := fun c hc => (isB64urlChar_ascii (b64urlTest_mem h hc)).1
  rw [utf8_ascii hascii]
  refine ⟨List.all_eq_true.mpr fun x hx => ?_, List.length_map _⟩
  obtain ⟨c, hc, rfl⟩ := List.mem_map.mp hx
  have hlt := hascii c hc
  have hu : (UInt8.ofNat c.toNat).toNat = c.toNat :=
    UInt8.toNat_ofNat_of_lt' (by show c.toNat < 256; omega)
  unfold isB64urlByte
  rw [hu]
  exact b64urlTest_mem h hc

theorem PartsOf.verifier_checks {a b c d : Bytes} {p : ParsedToken} (h : PartsOf a b c d p) :
    d.length = verifierChars ∧ d.all isB64urlByte = true := by
  obtain ⟨hall, hlen⟩ := all_utf8_of_test h.wellFormed.verifier_test
  rw [h.verifier]
  exact ⟨hlen.trans h.wellFormed.length_verifier_text, hall⟩

/-- **The checks on the parts** find the parts of a well-formed token. -/
theorem partsOf_iff {a b c d : Bytes} {p : ParsedToken} :
    PartsOf a b c d p ↔
      ∃ v, PartsChecked a b c d v ∧ p = ⟨ofAscii b, ofAscii c, v⟩ := by
  constructor
  · intro h
    have hwf := h.wellFormed
    obtain ⟨hkid, hklen⟩ := all_utf8_of_test hwf.kid_test
    obtain ⟨hsel, hslen⟩ := all_utf8_of_test hwf.selector_test
    refine ⟨p.verifier, ⟨h.pre, ?_, ?_, ?_, ?_, ?_, h.verifier.symm, hwf.verifier_length⟩, ?_⟩
    · rw [h.kid, hklen]
      exact Nat.pos_iff_ne_zero.mpr (b64urlTest_length hwf.kid_test)
    · rw [h.kid, hklen]
      exact hwf.kid_length
    · rw [h.kid]
      exact hkid
    · rw [h.selector, hslen]
      exact hwf.selector_length
    · rw [h.selector]
      exact hsel
    · rw [h.kid, h.selector,
        ofAscii_utf8 fun c hc => (isB64urlChar_ascii (b64urlTest_mem hwf.kid_test hc)).1,
        ofAscii_utf8 fun c hc => (isB64urlChar_ascii (b64urlTest_mem hwf.selector_test hc)).1]
  · rintro ⟨v, h, rfl⟩
    have hsel : 0 < c.length := by
      rw [h.selector_length]
      decide
    refine ⟨h.pre, (utf8_ofAscii (ascii_of_all h.kid_test)).symm,
      (utf8_ofAscii (ascii_of_all h.selector_test)).symm, h.canonical.symm, ?_⟩
    refine ⟨?_, b64urlTest_ofAscii h.kid_test h.kid_pos, ?_, b64urlTest_ofAscii h.selector_test hsel,
      h.verifier_length⟩
    · exact (List.length_map _).le.trans h.kid_length
    · exact (List.length_map _).trans h.selector_length

/-- The bytes of a well-formed token. -/
theorem utf8_tokenString {p : ParsedToken} (h : p.WellFormed) :
    utf8 (tokenString p.kid p.selector p.verifier) =
      [dotByte].intercalate [nblBytes, utf8 p.kid, utf8 p.selector, utf8 (base64urlEncode p.verifier)] := by
  have hpart : ∀ s : Str, b64urlTest s = true → ∀ c ∈ s, c.toNat < 0x80 := fun s hs c hc =>
    (isB64urlChar_ascii (b64urlTest_mem hs hc)).1
  have hdot : dot.toNat < 0x80 := by decide
  have hpre : utf8 nblPrefix = nblBytes := by decide
  rw [tokenString_eq, utf8_append (ascii_of_check (by decide)), utf8_cons hdot, utf8_append (hpart _ h.kid_test),
    utf8_cons hdot, utf8_append (hpart _ h.selector_test), utf8_cons hdot, hpre]
  simp only [List.intercalate, List.intersperse, List.flatten_cons, List.flatten_nil,
    List.append_nil, List.cons_append, List.nil_append]
  rfl

/-- The bytes with these parts are those of the token. -/
theorem PartsOf.token_eq {token a b c d : Bytes} {p : ParsedToken} (h : PartsOf a b c d p)
    (hsplit : token.splitOn dotByte = [a, b, c, d]) :
    token = utf8 (tokenString p.kid p.selector p.verifier) := by
  rw [utf8_tokenString h.wellFormed, ← h.pre, ← h.kid, ← h.selector, ← h.verifier, ← hsplit,
    List.intercalate_splitOn]

/-- The bytes of a token of well-formed parts are valid UTF-8. -/
theorem PartsOf.valid {token a b c d : Bytes} {p : ParsedToken} (h : PartsOf a b c d p)
    (hsplit : token.splitOn dotByte = [a, b, c, d]) : validUtf8 token = true := by
  rw [h.token_eq hsplit]
  exact validUtf8_utf8 _

/-- **A parser of bytes** that splits at the dots and finds the parts of well-formed tokens agrees with
`parseToken`. -/
theorem parse_agrees {parse : Bytes → Option ParsedToken}
    (hparse : ∀ token p, parse token = some p ↔ token.length ≤ maxTokenLength ∧
      ∃ a b c d, token.splitOn dotByte = [a, b, c, d] ∧ PartsOf a b c d p) (s : Str) :
    parse (utf8 s) = parseToken s := by
  refine Option.ext fun p => (hparse _ p).trans ⟨?_, fun h => ?_⟩
  · rintro ⟨-, a, b, c, d, hsplit, hp⟩
    have hwf := hp.wellFormed
    have hbytes := hp.token_eq hsplit
    have hascii := hwf.tokenString_ascii
    have hs : s = tokenString p.kid p.selector p.verifier := by
      have hbound : ∀ x ∈ utf8 (tokenString p.kid p.selector p.verifier), x.toNat < 0x80 := by
        intro x hx
        rw [utf8_ascii hascii] at hx
        obtain ⟨c, hc, rfl⟩ := List.mem_map.mp hx
        have hlt := hascii c hc
        rw [UInt8.toNat_ofNat_of_lt' (by show c.toNat < 256; omega)]
        exact hlt
      rw [(utf8_eq_iff hbound).mp hbytes, ofAscii_utf8 hascii]
    rw [hs]
    exact parseToken_tokenString hwf
  · obtain ⟨rfl, hwf⟩ := eq_tokenString_of_parseToken h
    refine ⟨Nat.le_of_not_lt hwf.byteLength_tokenString, nblBytes, utf8 p.kid, utf8 p.selector,
      utf8 (base64urlEncode p.verifier), ?_, rfl, rfl, rfl, rfl, hwf⟩
    rw [utf8_tokenString hwf]
    have hnodot : ∀ t : Str, b64urlTest t = true → dotByte ∉ utf8 t := fun t ht hd =>
      absurd (List.all_eq_true.mp (all_utf8_of_test ht).1 _ hd) (by decide)
    refine List.splitOn_intercalate dotByte ?_ (by simp)
    simp only [List.mem_cons, List.not_mem_nil, or_false]
    rintro l (rfl | rfl | rfl | rfl)
    · decide
    · exact hnodot _ hwf.kid_test
    · exact hnodot _ hwf.selector_test
    · exact hnodot _ hwf.verifier_test

/-- **It accepts the bytes of the tokens**, and no others. -/
theorem parse_iff {parse : Bytes → Option ParsedToken}
    (hparse : ∀ token p, parse token = some p ↔ token.length ≤ maxTokenLength ∧
      ∃ a b c d, token.splitOn dotByte = [a, b, c, d] ∧ PartsOf a b c d p) {token : Bytes}
    {p : ParsedToken} : parse token = some p ↔ ∃ s, utf8 s = token ∧ parseToken s = some p := by
  constructor
  · intro h
    obtain ⟨-, a, b, c, d, hsplit, hp⟩ := (hparse token p).mp h
    exact ⟨_, (hp.token_eq hsplit).symm, parseToken_tokenString hp.wellFormed⟩
  · rintro ⟨s, rfl, h⟩
    rw [parse_agrees hparse, h]

/-! ### Devices -/

/-- `device:`. -/
def deviceBytes : Bytes := [100, 101, 118, 105, 99, 101, 58]

theorem utf8_devicePrefix (dev : Str) : utf8 (devicePrefix ++ dev) = deviceBytes ++ utf8 dev := by
  have hpre : utf8 devicePrefix = deviceBytes := by decide
  rw [utf8_append (ascii_of_check (by decide)), hpre]

/-- A device that every port can be given: none, or valid Unicode. -/
def Unicode (deviceId : Option Str) : Prop := ∀ dev, deviceId = some dev → isWellFormedUnicode dev = true

variable {H : HmacSha256} {e : NebulaEngine}

/-- The digest of the bytes of a device. -/
def deviceHash (H : HmacSha256) (pepper : Str) (deviceId : Bytes) : Str :=
  hexEncode (H.run (utf8 pepper) (deviceBytes ++ deviceId))

theorem hashDeviceId_bytes {pepper dev : Str} (h : isWellFormedUnicode dev = true) :
    hashDeviceId H pepper dev = .ok (deviceHash H pepper (utf8 dev)) := by
  rw [hashDeviceId, if_neg (not_not.mpr h), utf8_devicePrefix]
  rfl

/-- The binding that a rotation carries over. -/
def carriedHash (H : HmacSha256) (e : NebulaEngine) (record : TokenRecord) (deviceId : Option Bytes) :
    Option Str :=
  match record.deviceIdHash, deviceId with
  | some _, some dev => some (deviceHash H e.activePepper dev)
  | stored, _ => stored

theorem migrateDevice_bytes {deviceId : Option Str} (hd : Unicode deviceId) (record : TokenRecord) :
    migrateDevice H e record deviceId = .ok (carriedHash H e record (deviceId.map utf8)) := by
  unfold migrateDevice carriedHash
  cases record.deviceIdHash with
  | none => rfl
  | some stored =>
    cases deviceId with
    | none => rfl
    | some dev =>
      dsimp only [Option.map_some]
      rw [hashDeviceId_bytes (hd dev rfl)]
      rfl

theorem bindDevice_bytes {deviceId : Option Str} (hd : Unicode deviceId) :
    bindDevice H e deviceId = .ok ((deviceId.map utf8).map (deviceHash H e.activePepper)) := by
  unfold bindDevice
  cases deviceId with
  | none => rfl
  | some dev =>
    dsimp only [Option.map_some]
    rw [hashDeviceId_bytes (hd dev rfl)]
    rfl

/-! ### Minting, and the grace window -/

/-- `mint`, alike in the three ports: the token and its record. -/
def mint (H : HmacSha256) (e : NebulaEngine) (userId familyId : Str) (generation : ℕ)
    (deviceIdHash : Option Str) (familyExpiresAt now : ℤ) (d : Draw) : Str × TokenRecord :=
  let selector := base64urlEncode d.selector
  let record : TokenRecord := {
    selector
    verifierHash := hexEncode (H.run (utf8 e.activePepper) d.verifier)
    kid := e.activeKid
    familyId
    generation
    userId
    deviceIdHash
    createdAt := now
    familyExpiresAt
    idleExpiresAt := min (now + e.idleTtl) familyExpiresAt
    status := .active
    rotatedAt := none
    replacedBySelector := none }
  (tokenString e.activeKid selector d.verifier, record)

/-- The preconditions of a grace retry that need no lookup, in the order of Elixir and Ruby. -/
def windowOpen (e : NebulaEngine) (record : TokenRecord) (now : ℤ) : Bool :=
  decide (0 < e.reuseGrace) && record.rotatedAt.any (fun t => decide (now - t ≤ e.reuseGrace)) &&
    record.replacedBySelector.isSome && decide (now < record.familyExpiresAt)

theorem windowOpen_eq (record : TokenRecord) (now : ℤ) :
    windowOpen e record now = (withinGrace e record now).isSome := by
  unfold windowOpen withinGrace
  cases record.rotatedAt with
  | none =>
    rw [Option.any_none, Bool.and_false, Bool.false_and, Bool.false_and]
    rfl
  | some t =>
    cases record.replacedBySelector with
    | none =>
      rw [Option.isSome_none, Bool.and_false, Bool.false_and]
      rfl
    | some q =>
      dsimp only
      rw [Bool.eq_iff_iff, Option.any_some, Option.isSome_some, Bool.and_true, Bool.and_eq_true,
        Bool.and_eq_true, decide_eq_true_eq, decide_eq_true_eq, decide_eq_true_eq]
      split_ifs with h
      · exact ⟨fun _ => rfl, fun _ => ⟨⟨h.1, h.2.1⟩, h.2.2⟩⟩
      · exact ⟨fun h' => absurd ⟨h'.1.1, h'.1.2, h'.2⟩ h, fun h' => (by cases h')⟩

/-! ### The comparison of digests -/

/-- 64 lower-case digits. -/
def lowerHex64 (s : Bytes) : Bool := s.length == hashHexChars && s.all isLowerHexByte

theorem lowerHex64_utf8 (s : Str) : lowerHex64 (utf8 s) = lowerHex64Test s := by
  have hbyte : ∀ c : UInt16, c.toNat < 0x80 →
      isLowerHexByte (UInt8.ofNat c.toNat) = isLowerHex c := by
    intro c hc
    unfold isLowerHexByte isLowerHex
    rw [UInt8.toNat_ofNat_of_lt' (by show c.toNat < 256; omega)]
  rw [Bool.eq_iff_iff, lowerHex64, lowerHex64Test, Bool.and_eq_true, Bool.and_eq_true, beq_iff_eq,
    beq_iff_eq, List.all_eq_true, List.all_eq_true]
  constructor
  · rintro ⟨hlen, hall⟩
    have hascii : ∀ c ∈ s, c.toNat < 0x80 := by
      refine ascii_of_utf8 fun x hx => ?_
      have hd := hall x hx
      unfold isLowerHexByte at hd
      simp only [Bool.or_eq_true, Bool.and_eq_true, decide_eq_true_eq] at hd
      omega
    rw [utf8_ascii hascii] at hlen hall
    refine ⟨(List.length_map _).symm.trans hlen, fun c hc => ?_⟩
    rw [← hbyte c (hascii c hc)]
    exact hall _ (List.mem_map_of_mem hc)
  · rintro ⟨hlen, hall⟩
    have hascii : ∀ c ∈ s, c.toNat < 0x80 := by
      intro c hc
      have hd := hall c hc
      unfold isLowerHex at hd
      simp only [Bool.or_eq_true, Bool.and_eq_true, decide_eq_true_eq] at hd
      omega
    rw [utf8_ascii hascii]
    refine ⟨(List.length_map _).trans hlen, fun x hx => ?_⟩
    obtain ⟨c, hc, rfl⟩ := List.mem_map.mp hx
    rw [hbyte c (hascii c hc)]
    exact hall c hc

theorem lowerHex64_ascii {s : Str} (h : lowerHex64Test s = true) : ∀ c ∈ s, c.toNat < 0x80 := by
  rw [← lowerHex64_utf8, lowerHex64, Bool.and_eq_true, List.all_eq_true] at h
  refine ascii_of_utf8 fun x hx => ?_
  have hd := h.2 x hx
  unfold isLowerHexByte at hd
  simp only [Bool.or_eq_true, Bool.and_eq_true, decide_eq_true_eq] at hd
  omega

/-- Digests compared byte by byte, once both are known to be 64 digits. -/
def equalHex (a b : Bytes) : Bool := lowerHex64 a && lowerHex64 b && a == b

/-- **The comparison of digests on bytes is the one on texts.** -/
theorem equalHex_utf8 (a b : Str) : equalHex (utf8 a) (utf8 b) = constantTimeEqualHex a b := by
  rw [Bool.eq_iff_iff, equalHex, lowerHex64_utf8, lowerHex64_utf8, Bool.and_eq_true, Bool.and_eq_true,
    beq_iff_eq]
  constructor
  · rintro ⟨⟨ha, hb⟩, heq⟩
    have hab : a = b := by
      rw [← ofAscii_utf8 (lowerHex64_ascii ha), heq, ofAscii_utf8 (lowerHex64_ascii hb)]
    subst hab
    have hlen : a.length = hashHexChars := by
      rw [lowerHex64Test, Bool.and_eq_true, beq_iff_eq] at ha
      exact ha.1
    rw [constantTimeEqualHex, if_neg (by simp [hlen]), if_neg (by simp [ha])]
    exact decide_eq_true rfl
  · intro h
    obtain rfl := eq_of_constantTimeEqualHex h
    unfold constantTimeEqualHex at h
    split_ifs at h with h₁ h₂
    rw [not_or, not_not] at h₂
    exact ⟨h₂, rfl⟩

/-- **The sender binding** on the bytes of the device. -/
theorem deviceMatches_bytes {deviceId : Option Str} (hd : Unicode deviceId) (record : TokenRecord)
    (pepper : Str) : deviceMatches H record pepper deviceId =
      match deviceId.map utf8, record.deviceIdHash with
      | some dev, some stored => equalHex (utf8 (deviceHash H pepper dev)) (utf8 stored)
      | _, _ => false := by
  unfold deviceMatches
  cases deviceId with
  | none => rfl
  | some dev =>
    cases record.deviceIdHash with
    | none => rfl
    | some stored =>
      dsimp only [Option.map_some]
      rw [hashDeviceId_bytes (hd dev rfl), equalHex_utf8]

end NebulaToken.Ports.Bytes
