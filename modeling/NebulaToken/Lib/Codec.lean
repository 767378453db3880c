import Mathlib.Tactic

/-! # Base64url and hexadecimal over UTF-16 code units

Three bytes are four groups of six bits, and each group is a character of the base64url alphabet;
there is no padding. Decoding drops the bits of the last group that do not fill a byte, so several
texts decode to one value, and only one of them is an encoding.

* `base64urlDecode_encode`: decoding an encoding gives the bytes back;
* `hexEncode_decode`: a text of lower-case pairs is the encoding of what it decodes to. -/

namespace NebulaToken.Lib.Codec

/-! ### Groups of six bits -/

/-- Bytes as groups of six bits; the last group is filled up with zeros. -/
def sextets : List UInt8 → List ℕ
  | a :: b :: c :: l =>
    a.toNat / 4 :: (a.toNat % 4 * 16 + b.toNat / 16) :: (b.toNat % 16 * 4 + c.toNat / 64) ::
      c.toNat % 64 :: sextets l
  | [a, b] => [a.toNat / 4, a.toNat % 4 * 16 + b.toNat / 16, b.toNat % 16 * 4]
  | [a] => [a.toNat / 4, a.toNat % 4 * 16]
  | [] => []

/-- Groups of six bits as bytes; bits that do not fill a byte are dropped. -/
def ofSextets : List ℕ → List UInt8
  | w :: x :: y :: z :: l =>
    UInt8.ofNat (w * 4 + x / 16) :: UInt8.ofNat (x % 16 * 16 + y / 4) ::
      UInt8.ofNat (y % 4 * 64 + z) :: ofSextets l
  | [w, x, y] => [UInt8.ofNat (w * 4 + x / 16), UInt8.ofNat (x % 16 * 16 + y / 4)]
  | [w, x] => [UInt8.ofNat (w * 4 + x / 16)]
  | _ => []

theorem ofNat_eq {n : ℕ} {a : UInt8} (h : n = a.toNat) : UInt8.ofNat n = a := by
  rw [h, UInt8.ofNat_toNat]

theorem ofSextets_sextets (l : List UInt8) : ofSextets (sextets l) = l := by
  induction l using sextets.induct with
  | case1 a b c l ih =>
    have ha := a.toNat_lt
    have hb := b.toNat_lt
    have hc := c.toNat_lt
    rw [sextets, ofSextets, ih, ofNat_eq (a := a) (by omega), ofNat_eq (a := b) (by omega),
      ofNat_eq (a := c) (by omega)]
  | case2 a b =>
    have ha := a.toNat_lt
    have hb := b.toNat_lt
    rw [sextets, ofSextets, ofNat_eq (a := a) (by omega), ofNat_eq (a := b) (by omega)]
  | case3 a =>
    have ha := a.toNat_lt
    rw [sextets, ofSextets, ofNat_eq (a := a) (by omega)]
  | case4 => rfl

theorem sextets_lt (l : List UInt8) : ∀ x ∈ sextets l, x < 64 := by
  induction l using sextets.induct with
  | case1 a b c l ih =>
    have ha := a.toNat_lt
    have hb := b.toNat_lt
    simp only [sextets, List.mem_cons]
    rintro x (rfl | rfl | rfl | rfl | hx)
    · omega
    · omega
    · have := c.toNat_lt
      omega
    · omega
    · exact ih x hx
  | case2 a b =>
    have ha := a.toNat_lt
    have hb := b.toNat_lt
    simp only [sextets, List.mem_cons, List.not_mem_nil, or_false]
    rintro x (rfl | rfl | rfl) <;> omega
  | case3 a =>
    have ha := a.toNat_lt
    simp only [sextets, List.mem_cons, List.not_mem_nil, or_false]
    rintro x (rfl | rfl) <;> omega
  | case4 => simp [sextets]

theorem length_sextets (l : List UInt8) : (sextets l).length = (l.length * 8 + 5) / 6 := by
  induction l using sextets.induct with
  | case1 a b c l ih => simp only [sextets, List.length_cons, ih]; omega
  | case2 a b => simp [sextets]
  | case3 a => simp [sextets]
  | case4 => rfl

/-! ### The base64url alphabet -/

/-- The character of a group. -/
def base64urlChar (n : ℕ) : UInt16 :=
  if n < 26 then UInt16.ofNat (n + 65)
  else if n < 52 then UInt16.ofNat (n + 71)
  else if n < 62 then UInt16.ofNat (n - 4)
  else if n = 62 then 45
  else 95

/-- The group of a character of the alphabet. -/
def base64urlValue (c : UInt16) : Option ℕ :=
  let n := c.toNat
  if 65 ≤ n ∧ n ≤ 90 then some (n - 65)
  else if 97 ≤ n ∧ n ≤ 122 then some (n - 71)
  else if 48 ≤ n ∧ n ≤ 57 then some (n + 4)
  else if n = 45 then some 62
  else if n = 95 then some 63
  else none

theorem base64urlValue_char {n : ℕ} (h : n < 64) : base64urlValue (base64urlChar n) = some n := by
  have hall : ∀ m : Fin 64, base64urlValue (base64urlChar m) = some (m : ℕ) := by decide
  exact hall ⟨n, h⟩

/-- The text of the bytes. -/
def base64urlEncode (l : List UInt8) : List UInt16 := (sextets l).map base64urlChar

/-- The bytes of a text; characters outside the alphabet are skipped. -/
def base64urlDecode (s : List UInt16) : List UInt8 := ofSextets (s.filterMap base64urlValue)

theorem filterMap_map_char {l : List ℕ} (h : ∀ x ∈ l, x < 64) :
    (l.map base64urlChar).filterMap base64urlValue = l := by
  induction l with
  | nil => rfl
  | cons x l ih =>
    rw [List.map_cons, List.filterMap_cons_some (base64urlValue_char (h x List.mem_cons_self)),
      ih fun y hy => h y (List.mem_cons_of_mem _ hy)]

/-- **Decoding an encoding gives the bytes back.** -/
theorem base64urlDecode_encode (l : List UInt8) : base64urlDecode (base64urlEncode l) = l := by
  rw [base64urlDecode, base64urlEncode, filterMap_map_char (sextets_lt l), ofSextets_sextets]

theorem length_base64urlEncode (l : List UInt8) :
    (base64urlEncode l).length = (l.length * 8 + 5) / 6 := by
  rw [base64urlEncode, List.length_map, length_sextets]

theorem base64urlEncode_alphabet {l : List UInt8} {c : UInt16} (h : c ∈ base64urlEncode l) :
    (base64urlValue c).isSome := by
  obtain ⟨n, hn, rfl⟩ := List.mem_map.mp h
  rw [base64urlValue_char (sextets_lt l n hn)]
  rfl

/-! ### Strict decoding -/

/-- Groups of six bits as bytes, if no bit is left over: a lone group and bits other than zero that do
not fill a byte are refused. -/
def ofSextetsStrict : List ℕ → Option (List UInt8)
  | w :: x :: y :: z :: l =>
    (ofSextetsStrict l).map fun bytes =>
      UInt8.ofNat (w * 4 + x / 16) :: UInt8.ofNat (x % 16 * 16 + y / 4) ::
        UInt8.ofNat (y % 4 * 64 + z) :: bytes
  | [w, x, y] =>
    if y % 4 = 0 then some [UInt8.ofNat (w * 4 + x / 16), UInt8.ofNat (x % 16 * 16 + y / 4)] else none
  | [w, x] => if x % 16 = 0 then some [UInt8.ofNat (w * 4 + x / 16)] else none
  | [_] => none
  | [] => some []

/-- The bytes of a text, if it is an encoding. -/
def base64urlDecodeStrict (s : List UInt16) : Option (List UInt8) :=
  (s.mapM base64urlValue).bind ofSextetsStrict

theorem ofSextetsStrict_sextets (l : List UInt8) : ofSextetsStrict (sextets l) = some l := by
  induction l using sextets.induct with
  | case1 a b c l ih =>
    have ha := a.toNat_lt
    have hb := b.toNat_lt
    have hc := c.toNat_lt
    rw [sextets, ofSextetsStrict, ih, Option.map_some, ofNat_eq (a := a) (by omega),
      ofNat_eq (a := b) (by omega), ofNat_eq (a := c) (by omega)]
  | case2 a b =>
    have ha := a.toNat_lt
    have hb := b.toNat_lt
    rw [sextets, ofSextetsStrict, if_pos (by omega), ofNat_eq (a := a) (by omega),
      ofNat_eq (a := b) (by omega)]
  | case3 a =>
    have ha := a.toNat_lt
    rw [sextets, ofSextetsStrict, if_pos (by omega), ofNat_eq (a := a) (by omega)]
  | case4 => rfl

theorem sextets_ofSextetsStrict {l : List ℕ} (hl : ∀ x ∈ l, x < 64) {bytes : List UInt8}
    (h : ofSextetsStrict l = some bytes) : sextets bytes = l := by
  have hbyte : ∀ n : ℕ, n < 256 → (UInt8.ofNat n).toNat = n := fun n hn => UInt8.toNat_ofNat_of_lt' hn
  induction l using ofSextetsStrict.induct generalizing bytes with
  | case1 w x y z l ih =>
    have hw := hl w (by simp)
    have hx := hl x (by simp)
    have hy := hl y (by simp)
    have hz := hl z (by simp)
    rw [ofSextetsStrict, Option.map_eq_some_iff] at h
    obtain ⟨rest, hrest, rfl⟩ := h
    rw [sextets, ih (fun u hu => hl u (by simp [hu])) hrest, hbyte _ (by omega), hbyte _ (by omega),
      hbyte _ (by omega)]
    congr 1
    · omega
    · congr 1
      · omega
      · congr 1
        · omega
        · congr 1
          omega
  | case2 w x y hy0 =>
    have hw := hl w (by simp)
    have hx := hl x (by simp)
    have hy := hl y (by simp)
    rw [ofSextetsStrict, if_pos hy0] at h
    obtain rfl := Option.some.inj h
    rw [sextets, hbyte _ (by omega), hbyte _ (by omega)]
    congr 1
    · omega
    · congr 1
      · omega
      · congr 1
        omega
  | case3 w x y hy0 =>
    rw [ofSextetsStrict, if_neg hy0] at h
    cases h
  | case4 w x hx0 =>
    have hw := hl w (by simp)
    have hx := hl x (by simp)
    rw [ofSextetsStrict, if_pos hx0] at h
    obtain rfl := Option.some.inj h
    rw [sextets, hbyte _ (by omega)]
    congr 1
    · omega
    · congr 1
      omega
  | case5 w x hx0 =>
    rw [ofSextetsStrict, if_neg hx0] at h
    cases h
  | case6 w => cases h
  | case7 =>
    obtain rfl := Option.some.inj h
    rfl

theorem base64urlChar_value {c : UInt16} {n : ℕ} (h : base64urlValue c = some n) :
    n < 64 ∧ base64urlChar n = c := by
  have hc := c.toNat_lt
  have hof : ∀ m : ℕ, m = c.toNat → UInt16.ofNat m = c := by
    rintro m rfl
    exact UInt16.ofNat_toNat
  unfold base64urlValue at h
  dsimp only at h
  split_ifs at h with h₁ h₂ h₃ h₄ h₅
  · cases h
    exact ⟨by omega, by rw [base64urlChar, if_pos (by omega), hof _ (by omega)]⟩
  · cases h
    refine ⟨by omega, ?_⟩
    rw [base64urlChar, if_neg (by omega), if_pos (by omega), hof _ (by omega)]
  · cases h
    refine ⟨by omega, ?_⟩
    rw [base64urlChar, if_neg (by omega), if_neg (by omega), if_pos (by omega), hof _ (by omega)]
  · cases h
    exact ⟨by omega, (hof 45 h₄.symm)⟩
  · cases h
    exact ⟨by omega, (hof 95 h₅.symm)⟩

theorem map_char_of_mapM {s : List UInt16} {l : List ℕ} (h : s.mapM base64urlValue = some l) :
    (∀ x ∈ l, x < 64) ∧ l.map base64urlChar = s := by
  induction s generalizing l with
  | nil =>
    obtain rfl := Option.some.inj h
    exact ⟨fun x hx => (by cases hx), rfl⟩
  | cons c s ih =>
    rw [List.mapM_cons] at h
    obtain ⟨n, hn, h⟩ := Option.bind_eq_some_iff.mp h
    obtain ⟨l', hl', h⟩ := Option.bind_eq_some_iff.mp h
    obtain rfl := Option.some.inj h
    obtain ⟨hlt, hmap⟩ := ih hl'
    obtain ⟨hn64, hchar⟩ := base64urlChar_value hn
    refine ⟨fun x hx => ?_, by rw [List.map_cons, hchar, hmap]⟩
    rcases List.mem_cons.mp hx with rfl | hx
    · exact hn64
    · exact hlt x hx

theorem mapM_map_char {l : List ℕ} (h : ∀ x ∈ l, x < 64) :
    (l.map base64urlChar).mapM base64urlValue = some l := by
  induction l with
  | nil => rfl
  | cons x l ih =>
    rw [List.map_cons, List.mapM_cons, base64urlValue_char (h x List.mem_cons_self),
      ih fun y hy => h y (List.mem_cons_of_mem x hy)]
    rfl

/-- **A strict decoder accepts the encodings.** -/
theorem base64urlDecodeStrict_iff {s : List UInt16} {bytes : List UInt8} :
    base64urlDecodeStrict s = some bytes ↔ base64urlEncode bytes = s := by
  unfold base64urlDecodeStrict base64urlEncode
  constructor
  · intro h
    obtain ⟨l, hl, hbytes⟩ := Option.bind_eq_some_iff.mp h
    obtain ⟨hlt, hmap⟩ := map_char_of_mapM hl
    rw [sextets_ofSextetsStrict hlt hbytes, hmap]
  · rintro rfl
    rw [mapM_map_char (sextets_lt bytes), Option.bind_some, ofSextetsStrict_sextets]

/-! ### Hexadecimal -/

/-- The lower-case digit of a value below 16. -/
def hexChar (n : ℕ) : UInt16 := if n < 10 then UInt16.ofNat (n + 48) else UInt16.ofNat (n + 87)

/-- The value of a lower-case digit. -/
def hexValue (c : UInt16) : Option ℕ :=
  let n := c.toNat
  if 48 ≤ n ∧ n ≤ 57 then some (n - 48) else if 97 ≤ n ∧ n ≤ 102 then some (n - 87) else none

/-- Two lower-case digits a byte. -/
def hexEncode (l : List UInt8) : List UInt16 :=
  l.flatMap fun b => [hexChar (b.toNat / 16), hexChar (b.toNat % 16)]

/-- The bytes of the pairs of digits, up to the first that is no pair of digits. -/
def hexDecode : List UInt16 → List UInt8
  | c :: d :: s =>
    match hexValue c, hexValue d with
    | some x, some y => UInt8.ofNat (x * 16 + y) :: hexDecode s
    | _, _ => []
  | _ => []

theorem hexValue_char {n : ℕ} (h : n < 16) : hexValue (hexChar n) = some n := by
  have hall : ∀ m : Fin 16, hexValue (hexChar m) = some (m : ℕ) := by decide
  exact hall ⟨n, h⟩

theorem hexChar_value {c : UInt16} {n : ℕ} (h : hexValue c = some n) : n < 16 ∧ hexChar n = c := by
  have hc := c.toNat_lt
  unfold hexValue at h
  dsimp only at h
  split_ifs at h with h1 h2
  · cases h
    refine ⟨by omega, ?_⟩
    rw [hexChar, if_pos (by omega), show c.toNat - 48 + 48 = c.toNat by omega, UInt16.ofNat_toNat]
  · cases h
    refine ⟨by omega, ?_⟩
    rw [hexChar, if_neg (by omega), show c.toNat - 87 + 87 = c.toNat by omega, UInt16.ofNat_toNat]

theorem length_hexEncode (l : List UInt8) : (hexEncode l).length = 2 * l.length := by
  induction l with
  | nil => rfl
  | cons b l ih =>
    simp only [hexEncode, List.flatMap_cons, List.length_append, List.length_cons, List.length_nil]
      at ih ⊢
    omega

theorem hexEncode_digits {l : List UInt8} {c : UInt16} (h : c ∈ hexEncode l) : (hexValue c).isSome := by
  obtain ⟨b, -, hc⟩ := List.mem_flatMap.mp h
  have hb := b.toNat_lt
  simp only [List.mem_cons, List.not_mem_nil, or_false] at hc
  rcases hc with rfl | rfl
  · rw [hexValue_char (by omega)]
    rfl
  · rw [hexValue_char (by omega)]
    rfl

/-- **A text of digits, even in number, is the encoding of what it decodes to.** -/
theorem hexEncode_decode {s : List UInt16} (h : ∀ c ∈ s, (hexValue c).isSome)
    (heven : s.length % 2 = 0) : hexEncode (hexDecode s) = s := by
  induction s using hexDecode.induct with
  | case1 c d s x y hx hy ih =>
    have hc := hexChar_value hx
    have hd := hexChar_value hy
    have htail : hexEncode (hexDecode s) = s :=
      ih (fun e he => h e (by simp [he])) (by simp only [List.length_cons] at heven; omega)
    have hb : (UInt8.ofNat (x * 16 + y)).toNat = x * 16 + y := UInt8.toNat_ofNat_of_lt' (by
      show x * 16 + y < 256
      omega)
    rw [hexDecode, hx, hy]
    show [hexChar ((UInt8.ofNat (x * 16 + y)).toNat / 16),
      hexChar ((UInt8.ofNat (x * 16 + y)).toNat % 16)] ++ hexEncode (hexDecode s) = _
    rw [htail, hb, show (x * 16 + y) / 16 = x by omega, show (x * 16 + y) % 16 = y by omega, hc.2,
      hd.2]
    rfl
  | case2 c d s hno =>
    obtain ⟨x, hx⟩ := Option.isSome_iff_exists.mp (h c (by simp))
    obtain ⟨y, hy⟩ := Option.isSome_iff_exists.mp (h d (by simp))
    exact absurd hy (hno x y hx)
  | case3 s hno =>
    match s, heven, hno with
    | [], _, _ => rfl
    | [c], heven, _ => cases heven
    | c :: d :: s, _, hno => exact absurd rfl (hno c d s)

/-- Decoding undoes encoding. -/
theorem hexDecode_encode (l : List UInt8) : hexDecode (hexEncode l) = l := by
  induction l with
  | nil => rfl
  | cons b l ih =>
    have hb := b.toNat_lt
    have hsplit : b.toNat / 16 * 16 + b.toNat % 16 = b.toNat := by omega
    show hexDecode (hexChar (b.toNat / 16) :: hexChar (b.toNat % 16) :: hexEncode l) = b :: l
    rw [hexDecode, hexValue_char (by omega), hexValue_char (by omega)]
    show UInt8.ofNat (b.toNat / 16 * 16 + b.toNat % 16) :: hexDecode (hexEncode l) = b :: l
    rw [hsplit, UInt8.ofNat_toNat, ih]

theorem hexEncode_injective : Function.Injective hexEncode :=
  Function.LeftInverse.injective hexDecode_encode

end NebulaToken.Lib.Codec
