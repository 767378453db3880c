import NebulaToken.Lib.Base64
import NebulaToken.Ports.Ruby

/-! # The base64url helpers

No port relies on an encoder without padding: each writes or reads the padded text of its standard
library, and translates the alphabet and the padding itself. The libraries differ: some refuse bits that
are left over (`strict`), some skip whitespace.

* `RoundTrips`: what the helpers of a port satisfy;
* `Ruby.roundTrips`, `Dart.roundTrips`, `CSharp.roundTrips`, `Php.roundTrips`: they all do, but three
  read no bytes from the empty text. -/

namespace NebulaToken.Ports.Base64url

open NebulaToken.Lib.Base64 NebulaToken.Lib.Base64.Alphabet
open NebulaToken.Token.Unicode NebulaToken.Token.Utf8 NebulaToken.Token.Wire NebulaToken.Ports.Bytes

section
variable {α : Type} [CodeUnit α]

/-! ### Characters -/

/-- `=`. -/
def pad : α := CodeUnit.ofNat 61

/-- One character for another. -/
def replaceChar (old new : ℕ) (c : α) : α :=
  if CodeUnit.toNat c = old then CodeUnit.ofNat new else c

/-- Two characters for two others, at once. -/
def translate (old₁ old₂ new₁ new₂ : ℕ) (c : α) : α :=
  if CodeUnit.toNat c = old₁ then CodeUnit.ofNat new₁
  else if CodeUnit.toNat c = old₂ then CodeUnit.ofNat new₂
  else c

/-- A space, a tab, or the end of a line. -/
def isSpace (c : α) : Bool :=
  let n := CodeUnit.toNat c
  n == 32 || n == 9 || n == 10 || n == 13

/-- `[A-Za-z0-9_-]`. -/
def isB64url (c : α) : Bool :=
  let n := CodeUnit.toNat c
  (65 ≤ n && n ≤ 90) || (97 ≤ n && n ≤ 122) || (48 ≤ n && n ≤ 57) || n == 95 || n == 45

theorem isB64url_iff {c : α} : isB64url c = true ↔ ((url α).value c).isSome = true := by
  show _ ↔ (ofCode 45 95 (CodeUnit.toNat c)).isSome = true
  rw [ofCode_isSome]
  unfold isB64url
  simp only [Bool.or_eq_true, Bool.and_eq_true, decide_eq_true_eq, beq_iff_eq]
  omega

theorem all_isB64url_iff {s : List α} : s.all isB64url = true ↔ (url α).Over s := by
  rw [List.all_eq_true]
  exact forall₂_congr fun c _ => isB64url_iff

theorem isB64url_range {c : α} (h : isB64url c = true) :
    CodeUnit.toNat c ≠ 61 ∧ CodeUnit.toNat c ≠ 43 ∧ CodeUnit.toNat c ≠ 47 ∧ isSpace c = false := by
  unfold isB64url at h
  unfold isSpace
  simp only [Bool.or_eq_true, Bool.and_eq_true, decide_eq_true_eq, beq_iff_eq] at h
  simp only [Bool.or_eq_false_iff, beq_eq_false_iff_ne]
  omega

theorem toNat_pad : CodeUnit.toNat (pad : α) = 61 := CodeUnit.toNat_ofNat 61 (by decide)

theorem pad_not_mem {s : List α} (h : s.all isB64url = true) : pad ∉ s := fun hp =>
  (isB64url_range (List.all_eq_true.mp h _ hp)).1 toNat_pad

theorem all_encode (b : List UInt8) : ((url α).encode b).all isB64url = true :=
  all_isB64url_iff.mpr (over_encode b)

/-! ### From one alphabet to the other -/

theorem translate_char {n : ℕ} (hn : n < 64) :
    translate 43 47 45 95 ((standard α).char n) = (url α).char n := by
  have hlt : code 43 47 n < 128 := code_lt ⟨by decide, by decide, by decide⟩ hn
  show translate 43 47 45 95 (CodeUnit.ofNat (code 43 47 n)) = CodeUnit.ofNat (code 45 95 n)
  rw [translate, CodeUnit.toNat_ofNat _ hlt]
  unfold code
  split_ifs <;> first | rfl | omega

theorem value_translate {c : α} (h : isB64url c = true) :
    (standard α).value (translate 45 95 43 47 c) = (url α).value c := by
  show ofCode 43 47 (CodeUnit.toNat (translate 45 95 43 47 c)) = ofCode 45 95 (CodeUnit.toNat c)
  obtain ⟨-, hplus, hslash, -⟩ := isB64url_range h
  unfold translate
  split_ifs with h₁ h₂
  · rw [CodeUnit.toNat_ofNat _ (by decide), h₁]
    rfl
  · rw [CodeUnit.toNat_ofNat _ (by decide), h₂]
    rfl
  · unfold ofCode
    rw [if_neg hplus, if_neg hslash, if_neg h₁, if_neg h₂]

theorem translate_pad {a b a' b' : ℕ} (ha : a ≠ 61) (hb : b ≠ 61) :
    translate a b a' b' (pad : α) = pad := by
  rw [translate, toNat_pad, if_neg ha.symm, if_neg hb.symm]

theorem replaceChar_replaceChar {a b a' b' : ℕ} (ha' : a' < 128) (hb : a' ≠ b) (c : α) :
    replaceChar b b' (replaceChar a a' c) = translate a b a' b' c := by
  unfold replaceChar translate
  split_ifs with h₁ h₂
  · rw [CodeUnit.toNat_ofNat _ ha'] at h₂
    exact absurd h₂ hb
  · rfl
  · rfl
  · rfl

/-- The padded text, with the alphabet translated. -/
theorem map_encodePadded (b : List UInt8) :
    ((standard α).encodePadded pad b).map (translate 43 47 45 95) =
      (url α).encode b ++ padding pad ((url α).encode b).length := by
  rw [encodePadded, List.map_append, encode_map (B := url α) fun n hn => translate_char hn, padding,
    padding, List.map_replicate, translate_pad (by decide) (by decide), length_encode, length_encode]

theorem decode_translate {strict : Bool} {s : List α} (h : s.all isB64url = true) :
    (standard α).decode strict (s.map (translate 45 95 43 47)) = (url α).decode strict s :=
  decode_map fun c hc => value_translate (List.all_eq_true.mp h c hc)

theorem isB64url_translate {c : α} (h : isB64url c = true) :
    translate 45 95 43 47 c ≠ pad ∧ isSpace (translate 45 95 43 47 c) = false := by
  have hvalue := value_translate h
  obtain ⟨n, hn⟩ := Option.isSome_iff_exists.mp (isB64url_iff.mp h)
  rw [hn] at hvalue
  have hcode : (ofCode 43 47 (CodeUnit.toNat (translate 45 95 43 47 c))).isSome = true := by
    show ((standard α).value (translate 45 95 43 47 c)).isSome = true
    rw [hvalue]
    rfl
  rw [ofCode_isSome] at hcode
  refine ⟨fun hp => ?_, ?_⟩
  · rw [hp, toNat_pad] at hcode
    omega
  · unfold isSpace
    simp only [Bool.or_eq_false_iff, beq_eq_false_iff_ne]
    omega

theorem pad_not_mem_translate {s : List α} (h : s.all isB64url = true) :
    pad ∉ s.map (translate 45 95 43 47) := fun hp => by
  obtain ⟨c, hc, hcp⟩ := List.mem_map.mp hp
  exact (isB64url_translate (List.all_eq_true.mp h c hc)).1 hcp

theorem translate_b64url {c : α} (h : isB64url c = true) : translate 43 47 45 95 c = c := by
  obtain ⟨-, hplus, hslash, -⟩ := isB64url_range h
  rw [translate, if_neg hplus, if_neg hslash]

/-- The text padded, translated and decoded. -/
theorem decodePadded_translate [DecidableEq α] (strict : Bool) {s : List α} (h : s.all isB64url = true) :
    (standard α).decodePadded pad strict
        (s.map (translate 45 95 43 47) ++ padding pad (s.map (translate 45 95 43 47)).length) =
      (url α).decode strict s := by
  rw [decodePadded_padded (pad_not_mem_translate h), decode_translate h]

/-- Whitespace skipped from a text without any. -/
theorem filter_isSpace {s : List α} (h : s.all isB64url = true) (n : ℕ) :
    (s.map (translate 45 95 43 47) ++ List.replicate n pad).filter (fun c => !isSpace c) =
      s.map (translate 45 95 43 47) ++ List.replicate n pad := by
  refine List.filter_eq_self.mpr fun c hc => ?_
  rw [Bool.not_eq_true']
  rcases List.mem_append.mp hc with hc | hc
  · obtain ⟨d, hd, rfl⟩ := List.mem_map.mp hc
    exact (isB64url_translate (List.all_eq_true.mp h d hd)).2
  · rw [List.eq_of_mem_replicate hc]
    unfold isSpace
    rw [toNat_pad]
    rfl

/-! ### What the helpers satisfy -/

variable (α) in
/-- **The helpers of a port**: they undo each other, write no padding, and refuse what no bytes are
written as. `empty` is what they read from the empty text. -/
structure RoundTrips (encode : List UInt8 → List α) (decode : List α → Option (List UInt8))
    (empty : Option (List UInt8)) : Prop where
  decode_encode : ∀ b, b ≠ [] → decode (encode b) = some b
  decode_encode_nil : decode (encode []) = empty
  alphabet : ∀ b, ∀ c ∈ encode b, isB64url c = true
  encode_decode : ∀ s b, (∀ c ∈ s, isB64url c = true) → decode s = some b →
    (encode b = s ↔ (url α).UnusedZero s)
  decode_long : ∀ s, (∀ c ∈ s, isB64url c = true) → s.length % 4 = 1 → decode s = none

/-- **Helpers that are the codec of the alphabet** on the texts over it. -/
theorem RoundTrips.of_codec {encode : List UInt8 → List α} {decode : List α → Option (List UInt8)}
    {empty : Option (List UInt8)} (strict : Bool) (hencode : ∀ b, encode b = (url α).encode b)
    (hdecode : ∀ s, s ≠ [] → s.all isB64url = true → decode s = (url α).decode strict s)
    (hempty : decode [] = empty) (hnil : ∀ b, empty = some b → b = []) :
    RoundTrips α encode decode empty where
  decode_encode b hb := by
    have hne : (url α).encode b ≠ [] := by
      rw [← List.length_pos_iff, length_encode]
      have := List.length_pos_iff.mpr hb
      omega
    rw [hencode, hdecode _ hne (all_encode b), Alphabet.decode_encode]
  decode_encode_nil := by
    rw [hencode]
    exact hempty
  alphabet b := by
    rw [hencode]
    exact List.all_eq_true.mp (all_encode b)
  encode_decode s b hs h := by
    rw [hencode]
    by_cases hne : s = []
    · subst hne
      obtain rfl := hnil b (hempty.symm.trans h)
      exact ⟨fun _ => rfl, fun _ => rfl⟩
    · rw [hdecode s hne (List.all_eq_true.mpr hs)] at h
      exact encode_decode_iff h
  decode_long s hs hlen := by
    have hne : s ≠ [] := by
      rintro rfl
      cases hlen
    rw [hdecode s hne (List.all_eq_true.mpr hs), Alphabet.decode_long hlen]

end

/-! ### Ruby -/

namespace Ruby

/-- The exception of `String#unpack1`. -/
inductive ArgumentError
  | invalidBase64

/-- `[bytes].pack('m0')`. -/
def packM0 (bytes : List UInt8) : Bytes := (standard UInt8).encodePadded pad bytes

/-- `unpack1('m0')`. -/
def unpackM0 (strict : Bool) (s : Bytes) : Except ArgumentError (List UInt8) :=
  match (standard UInt8).decodePadded pad strict s with
  | some bytes => .ok bytes
  | none => .error .invalidBase64

/-- `B64URL_RE.match?`. -/
def b64urlRe (s : Bytes) : Bool := !s.isEmpty && s.all isB64url

/-- `b64url_encode`. -/
def b64urlEncode (bytes : List UInt8) : Bytes :=
  ((packM0 bytes).map (translate 43 47 45 95)).filter fun c => c != pad

/-- `b64url_decode`, of a string in an encoding that extends ASCII. -/
def b64urlDecode (strict : Bool) (str : Bytes) : Option (List UInt8) :=
  if ¬ b64urlRe str then none
  else
    let text := str.map (translate 45 95 43 47)
    match unpackM0 strict (text ++ List.replicate ((4 - text.length % 4) % 4) pad) with
    | .ok bytes => some bytes
    -- `rescue ArgumentError`
    | .error _ => none

theorem b64urlEncode_eq (b : List UInt8) : b64urlEncode b = (url UInt8).encode b := by
  rw [b64urlEncode, packM0, map_encodePadded]
  exact filter_padded (pad_not_mem (all_encode b)) _

theorem b64urlDecode_eq (strict : Bool) (s : Bytes) :
    b64urlDecode strict s = if b64urlRe s = true then (url UInt8).decode strict s else none := by
  unfold b64urlDecode
  by_cases h : b64urlRe s = true
  · rw [if_neg (not_not.mpr h), if_pos h]
    rw [b64urlRe, Bool.and_eq_true] at h
    have hdec := decodePadded_translate strict h.2
    dsimp only
    rw [unpackM0]
    cases hd : (url UInt8).decode strict s with
    | none =>
      rw [hd] at hdec
      rw [padding] at hdec
      rw [hdec]
    | some b =>
      rw [hd] at hdec
      rw [padding] at hdec
      rw [hdec]
  · rw [if_pos h, if_neg h]

/-- **Ruby.** -/
theorem roundTrips (strict : Bool) : RoundTrips UInt8 b64urlEncode (b64urlDecode strict) none := by
  refine RoundTrips.of_codec strict b64urlEncode_eq (fun s hne hs => ?_) rfl
    fun b h => (by cases h)
  rw [b64urlDecode_eq, if_pos]
  rw [b64urlRe, hs, Bool.and_true, Bool.not_eq_true', List.isEmpty_eq_false_iff]
  exact hne

end Ruby

/-! ### Dart -/

namespace Dart

/-- What `base64Url.decode` throws. -/
inductive FormatException
  | invalid

/-- `base64Url.encode`. -/
def base64UrlEncode (data : List UInt8) : Str := (url UInt16).encodePadded pad data

/-- `base64Url.decode`: it reads both alphabets. -/
def base64UrlDecode (strict : Bool) (s : Str) : Except FormatException (List UInt8) :=
  match (url UInt16).decodePadded pad strict (s.map (translate 43 47 45 95)) with
  | some bytes => .ok bytes
  | none => .error .invalid

/-- `_isB64Url`. -/
def isB64Url (s : Str) : Bool := if s.isEmpty then false else s.all isB64url

/-- `b64urlEncode`. -/
def b64urlEncode (data : List UInt8) : Str := (base64UrlEncode data).filter fun c => c != pad

/-- `b64urlDecode`. -/
def b64urlDecode (strict : Bool) (data : Str) : Option (List UInt8) :=
  if ¬ isB64Url data then none
  else
    match base64UrlDecode strict (data ++ List.replicate ((4 - data.length % 4) % 4) pad) with
    | .ok bytes => some bytes
    -- `on FormatException`
    | .error _ => none

theorem b64urlEncode_eq (b : List UInt8) : b64urlEncode b = (url UInt16).encode b :=
  filter_padded (pad_not_mem (all_encode b)) _

theorem isB64Url_iff {s : Str} : isB64Url s = true ↔ s ≠ [] ∧ s.all isB64url = true := by
  unfold isB64Url
  cases s with
  | nil => simp
  | cons c s => simp

theorem base64UrlDecode_eq (strict : Bool) {s : Str} (h : s.all isB64url = true) :
    (base64UrlDecode strict (s ++ padding pad s.length)).toOption = (url UInt16).decode strict s := by
  have hself : s.map (translate 43 47 45 95) = s := by
    conv_rhs => rw [← List.map_id s]
    exact List.map_congr_left fun c hc => translate_b64url (List.all_eq_true.mp h c hc)
  have hmap : (s ++ padding pad s.length).map (translate 43 47 45 95) = s ++ padding pad s.length := by
    rw [List.map_append, hself, padding, List.map_replicate, translate_pad (by decide) (by decide)]
  rw [base64UrlDecode, hmap, decodePadded_padded (pad_not_mem h)]
  cases (url UInt16).decode strict s with
  | none => rfl
  | some b => rfl

theorem b64urlDecode_eq (strict : Bool) (s : Str) :
    b64urlDecode strict s = if isB64Url s = true then (url UInt16).decode strict s else none := by
  unfold b64urlDecode
  by_cases h : isB64Url s = true
  · rw [if_neg (not_not.mpr h), if_pos h, ← base64UrlDecode_eq strict (isB64Url_iff.mp h).2, padding]
    cases base64UrlDecode strict (s ++ List.replicate ((4 - s.length % 4) % 4) pad) with
    | error e => rfl
    | ok b => rfl
  · rw [if_pos h, if_neg h]

/-- **Dart.** -/
theorem roundTrips (strict : Bool) : RoundTrips UInt16 b64urlEncode (b64urlDecode strict) none := by
  refine RoundTrips.of_codec strict b64urlEncode_eq (fun s hne hs => ?_) rfl
    fun b h => (by cases h)
  rw [b64urlDecode_eq, if_pos (isB64Url_iff.mpr ⟨hne, hs⟩)]

end Dart

/-! ### C# -/

namespace CSharp

/-- `Convert.ToBase64String`. -/
def toBase64String (data : List UInt8) : Str := (standard UInt16).encodePadded pad data

/-- `Convert.TryFromBase64String` into a buffer of this size: it skips whitespace. -/
def tryFromBase64String (strict : Bool) (s : Str) (size : ℕ) : Option (List UInt8) :=
  match (standard UInt16).decodePadded pad strict (s.filter fun c => !isSpace c) with
  | some bytes => if bytes.length ≤ size then some bytes else none
  | none => none

/-- `String.PadRight`. -/
def padRight (s : Str) (totalWidth : ℕ) : Str := s ++ List.replicate (totalWidth - s.length) pad

/-- `Base64UrlEncode`. -/
def base64UrlEncode (data : List UInt8) : Str :=
  (((toBase64String data).rdropWhile fun c => c == pad).map (replaceChar 43 45)).map
    (replaceChar 47 95)

/-- `TryBase64UrlDecode`. -/
def tryBase64UrlDecode (strict : Bool) (data : Str) : Option (List UInt8) :=
  let padded := (data.map (replaceChar 45 43)).map (replaceChar 95 47)
  let padded := padRight padded (padded.length + (4 - padded.length % 4) % 4)
  tryFromBase64String strict padded (padded.length / 4 * 3)

theorem base64UrlEncode_eq (b : List UInt8) : base64UrlEncode b = (url UInt16).encode b := by
  have hpad : pad ∉ (standard UInt16).encode b := by
    intro hp
    have ho : (ofCode 43 47 (CodeUnit.toNat (pad : UInt16))).isSome = true :=
      over_encode (A := standard UInt16) b _ hp
    rw [ofCode_isSome, toNat_pad] at ho
    omega
  rw [base64UrlEncode, toBase64String, encodePadded, padding, rdropWhile_padded hpad, List.map_map,
    ← encode_map (A := standard UInt16) (B := url UInt16) fun n hn => translate_char hn]
  exact List.map_congr_left fun c _ => replaceChar_replaceChar (by decide) (by decide) c

theorem tryBase64UrlDecode_eq (strict : Bool) {s : Str} (h : s.all isB64url = true) :
    tryBase64UrlDecode strict s = (url UInt16).decode strict s := by
  have hmap : (s.map (replaceChar 45 43)).map (replaceChar 95 47) = s.map (translate 45 95 43 47) := by
    rw [List.map_map]
    exact List.map_congr_left fun c _ => replaceChar_replaceChar (by decide) (by decide) c
  unfold tryBase64UrlDecode
  dsimp only
  rw [hmap, padRight, Nat.add_sub_cancel_left, tryFromBase64String, filter_isSpace h]
  have hdec := decodePadded_translate strict h
  rw [padding] at hdec
  rw [hdec]
  cases hd : (url UInt16).decode strict s with
  | none => rfl
  | some b =>
    have hlen := length_decode hd
    refine if_pos ?_
    rw [List.length_append, List.length_replicate, List.length_map]
    omega

/-- **C#.** It reads no bytes from the empty text. -/
theorem roundTrips (strict : Bool) :
    RoundTrips UInt16 base64UrlEncode (tryBase64UrlDecode strict) (some []) := by
  refine RoundTrips.of_codec strict base64UrlEncode_eq
    (fun s _ hs => tryBase64UrlDecode_eq strict hs) ?_ fun b h => (Option.some.inj h).symm
  rw [tryBase64UrlDecode_eq strict rfl]
  cases strict <;> rfl

end CSharp

/-! ### PHP -/

namespace Php

/-- `base64_encode`. -/
def base64Encode (data : List UInt8) : Bytes := (standard UInt8).encodePadded pad data

/-- `base64_decode($s, true)`: it skips whitespace, and padding may be left out. -/
def base64Decode (strict : Bool) (s : Bytes) : Option (List UInt8) :=
  let s := s.filter fun c => !isSpace c
  let body := s.takeWhile fun c => c != pad
  let rest := s.dropWhile fun c => c != pad
  if rest.any fun c => c != pad then none
  else if rest ≠ [] ∧ (2 < rest.length ∨ (body.length + rest.length) % 4 ≠ 0) then none
  -- a lone last character fails too
  else (standard UInt8).decode strict body

/-- `preg_match(self::B64URL, $data)`. -/
def b64urlMatch (data : Bytes) : Bool := !data.isEmpty && data.all isB64url

/-- `b64urlEncode`. -/
def b64urlEncode (data : List UInt8) : Bytes :=
  ((base64Encode data).map (translate 43 47 45 95)).rdropWhile fun c => c == pad

/-- `b64urlDecode`. -/
def b64urlDecode (strict : Bool) (data : Bytes) : Option (List UInt8) :=
  if ¬ b64urlMatch data then none else base64Decode strict (data.map (translate 45 95 43 47))

theorem b64urlEncode_eq (b : List UInt8) : b64urlEncode b = (url UInt8).encode b := by
  rw [b64urlEncode, base64Encode, map_encodePadded]
  exact rdropWhile_padded (pad_not_mem (all_encode b)) _

theorem base64Decode_eq (strict : Bool) {s : Bytes} (h : s.all isB64url = true) :
    base64Decode strict (s.map (translate 45 95 43 47)) = (url UInt8).decode strict s := by
  have hspace : (s.map (translate 45 95 43 47)).filter (fun c => !isSpace c) =
      s.map (translate 45 95 43 47) := by
    have := filter_isSpace h 0
    rwa [List.replicate_zero, List.append_nil] at this
  have hall : ∀ c ∈ s.map (translate 45 95 43 47), (c != pad) = true := fun c hc =>
    bne_iff_ne.mpr fun hp => pad_not_mem_translate h (hp ▸ hc)
  unfold base64Decode
  dsimp only
  rw [hspace, List.takeWhile_eq_self_iff.mpr hall, List.dropWhile_eq_nil_iff.mpr hall,
    if_neg (by simp), if_neg (by simp), decode_translate h]

/-- **PHP.** -/
theorem roundTrips (strict : Bool) : RoundTrips UInt8 b64urlEncode (b64urlDecode strict) none := by
  refine RoundTrips.of_codec strict b64urlEncode_eq (fun s hne hs => ?_) rfl
    fun b h => (by cases h)
  have hm : b64urlMatch s = true := by
    rw [b64urlMatch, hs, Bool.and_true, Bool.not_eq_true', List.isEmpty_eq_false_iff]
    exact hne
  rw [b64urlDecode, if_neg (not_not.mpr hm), base64Decode_eq strict hs]

end Php

/-! ### All four -/

/-- **The helpers of the four ports**, over libraries strict about left-over bits or lenient. Three of
them refuse the empty text; C# reads no bytes from it. -/
theorem base64url_round_trips (strict : Bool) :
    RoundTrips UInt8 Ruby.b64urlEncode (Ruby.b64urlDecode strict) none ∧
      RoundTrips UInt16 Dart.b64urlEncode (Dart.b64urlDecode strict) none ∧
      RoundTrips UInt16 CSharp.base64UrlEncode (CSharp.tryBase64UrlDecode strict) (some []) ∧
      RoundTrips UInt8 Php.b64urlEncode (Php.b64urlDecode strict) none :=
  ⟨Ruby.roundTrips strict, Dart.roundTrips strict, CSharp.roundTrips strict, Php.roundTrips strict⟩

/-- No bytes are written as the empty text, which Ruby, Dart and PHP refuse. -/
theorem empty_text_refused :
    ¬ ∀ strict b, Ruby.b64urlDecode strict (Ruby.b64urlEncode b) = some b ∧
      Dart.b64urlDecode strict (Dart.b64urlEncode b) = some b ∧
      CSharp.tryBase64UrlDecode strict (CSharp.base64UrlEncode b) = some b ∧
      Php.b64urlDecode strict (Php.b64urlEncode b) = some b := by
  intro h
  have hruby := (h true []).1
  rw [show Ruby.b64urlDecode true (Ruby.b64urlEncode []) = none from rfl] at hruby
  cases hruby

/-! ### Bytes and texts -/

theorem value_ofNat (x : UInt8) :
    Lib.Codec.base64urlValue (UInt16.ofNat x.toNat) = (url UInt8).value x := by
  have hx := x.toNat_lt
  show ofCode 45 95 (UInt16.ofNat x.toNat).toNat = ofCode 45 95 x.toNat
  rw [UInt16.toNat_ofNat_of_lt' (by show x.toNat < 65536; omega)]

theorem mapM_ofAscii (s : Bytes) :
    (ofAscii s).mapM Lib.Codec.base64urlValue = s.mapM (url UInt8).value := by
  induction s with
  | nil => rfl
  | cons x s ih =>
    show (UInt16.ofNat x.toNat :: ofAscii s).mapM Lib.Codec.base64urlValue = _
    rw [List.mapM_cons, List.mapM_cons, value_ofNat, ih]

/-- **The decoder by which the Ruby port parses** is its helper, strict about left-over bits. -/
theorem ruby_b64urlDecode (s : Bytes) : Ports.Ruby.b64urlDecode s = Ruby.b64urlDecode true s := by
  have hre : Ruby.b64urlRe s = true ↔ ¬ (¬ s.all isB64urlByte = true ∨ s.isEmpty = true) := by
    show (!s.isEmpty && s.all isB64urlByte) = true ↔ _
    rw [Bool.and_eq_true, Bool.not_eq_true', not_or, not_not, Bool.not_eq_true]
    exact and_comm
  rw [Ruby.b64urlDecode_eq, Ports.Ruby.b64urlDecode]
  by_cases h : Ruby.b64urlRe s = true
  · rw [if_pos h, if_neg (hre.mp h), Lib.Codec.base64urlDecodeStrict, mapM_ofAscii]
    rfl
  · rw [if_neg h, if_pos (not_not.mp (mt hre.mpr h))]

end NebulaToken.Ports.Base64url
