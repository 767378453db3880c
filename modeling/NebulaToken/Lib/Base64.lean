import Mathlib.Data.List.DropRight
import NebulaToken.Lib.Codec

/-! # Base64 over any alphabet

Groups of six bits written in an alphabet of 64 characters, with or without padding. Decoders agree on
the groups and differ on the bits of the last group that do not fill a byte: a strict one refuses bits
other than zero, a lenient one drops them.

* `Alphabet.decode_encode`: decoding an encoding gives the bytes back;
* `Alphabet.encode_decode_iff`: what is decoded is encoded back if its unused bits are zero;
* `Alphabet.decode_long`: a lone last group does not decode;
* `Alphabet.decodePadded_padded`: padding changes nothing else. -/

namespace NebulaToken.Lib.Base64

open NebulaToken.Lib.Codec

/-! ### Groups -/

/-- Groups of six bits as bytes. A lone last group is refused, and so are bits other than zero that do
not fill a byte, if the decoder is strict about them. -/
def ofGroups (strict : Bool) (l : List ℕ) : Option (List UInt8) :=
  if strict then ofSextetsStrict l
  else if l.length % 4 = 1 then none
  else some (ofSextets l)

/-- The bits of the last group that do not fill a byte are zero. -/
def unusedZero : List ℕ → Bool
  | _ :: _ :: _ :: _ :: l => unusedZero l
  | [_, _, y] => y % 4 == 0
  | [_, x] => x % 16 == 0
  | _ => true

theorem ofSextetsStrict_eq (l : List ℕ) : ofSextetsStrict l =
    if l.length % 4 = 1 ∨ unusedZero l = false then none else some (ofSextets l) := by
  induction l using ofSextetsStrict.induct with
  | case1 w x y z l ih =>
    have hlen : (w :: x :: y :: z :: l).length % 4 = l.length % 4 := by
      simp only [List.length_cons]
      omega
    rw [ofSextetsStrict, ih, hlen, unusedZero, ofSextets]
    split_ifs with h
    · rfl
    · rfl
  | case2 w x y hy =>
    rw [ofSextetsStrict, if_pos hy, if_neg (by simp [unusedZero, hy])]
    rfl
  | case3 w x y hy =>
    rw [ofSextetsStrict, if_neg hy, if_pos (by simp [unusedZero, hy])]
  | case4 w x hx =>
    rw [ofSextetsStrict, if_pos hx, if_neg (by simp [unusedZero, hx])]
    rfl
  | case5 w x hx =>
    rw [ofSextetsStrict, if_neg hx, if_pos (by simp [unusedZero, hx])]
  | case6 w => rw [ofSextetsStrict, if_pos (by simp)]
  | case7 => rfl

/-- What either kind of decoder makes of the groups. -/
theorem ofGroups_eq_some {strict : Bool} {l : List ℕ} {b : List UInt8} :
    ofGroups strict l = some b ↔
      l.length % 4 ≠ 1 ∧ (strict = true → unusedZero l = true) ∧ ofSextets l = b := by
  unfold ofGroups
  cases strict with
  | true =>
    rw [if_pos rfl, ofSextetsStrict_eq]
    split_ifs with h
    · refine ⟨fun h' => (by cases h'), fun h' => ?_⟩
      rcases h with h | h
      · exact absurd h h'.1
      · exact absurd (h'.2.1 rfl) (by simp [h])
    · rw [not_or, Bool.not_eq_false] at h
      rw [Option.some.injEq]
      exact ⟨fun h' => ⟨h.1, fun _ => h.2, h'⟩, fun h' => h'.2.2⟩
  | false =>
    rw [if_neg (by decide)]
    split_ifs with h
    · exact ⟨fun h' => (by cases h'), fun h' => absurd h h'.1⟩
    · rw [Option.some.injEq]
      exact ⟨fun h' => ⟨h, fun h' => (by cases h'), h'⟩, fun h' => h'.2.2⟩

theorem ofGroups_sextets (strict : Bool) (b : List UInt8) : ofGroups strict (sextets b) = some b := by
  have h := ofSextetsStrict_sextets b
  cases strict with
  | true => exact h
  | false =>
    rw [ofSextetsStrict_eq] at h
    split_ifs at h with h'
    rw [not_or] at h'
    exact ofGroups_eq_some.mpr ⟨h'.1, fun h'' => (by cases h''), Option.some.inj h⟩

/-- The bytes of groups have these groups if no bit was dropped. -/
theorem sextets_ofSextets_iff {l : List ℕ} (hl : ∀ x ∈ l, x < 64) (hlen : l.length % 4 ≠ 1) :
    sextets (ofSextets l) = l ↔ unusedZero l = true := by
  constructor
  · intro h
    have hs := ofSextetsStrict_sextets (ofSextets l)
    rw [h, ofSextetsStrict_eq] at hs
    split_ifs at hs with h'
    rw [not_or, Bool.not_eq_false] at h'
    exact h'.2
  · intro h
    refine sextets_ofSextetsStrict hl ?_
    rw [ofSextetsStrict_eq, if_neg]
    rw [not_or, Bool.not_eq_false]
    exact ⟨hlen, h⟩

theorem length_ofSextets (l : List ℕ) : (ofSextets l).length = l.length * 6 / 8 := by
  induction l using ofSextets.induct with
  | case1 w x y z l ih =>
    simp only [ofSextets, List.length_cons, ih]
    omega
  | case2 w x y => simp [ofSextets]
  | case3 w x => simp [ofSextets]
  | case4 l h₁ h₂ h₃ =>
    rcases l with _ | ⟨w, _ | ⟨x, _ | ⟨y, _ | ⟨z, l⟩⟩⟩⟩
    · rfl
    · simp [ofSextets]
    · exact absurd rfl (h₃ w x)
    · exact absurd rfl (h₂ w x y)
    · exact absurd rfl (h₁ w x y z l)

/-! ### Alphabets -/

/-- 64 characters. -/
structure Alphabet (α : Type) where
  char : ℕ → α
  value : α → Option ℕ
  value_char : ∀ n, n < 64 → value (char n) = some n
  char_value : ∀ c n, value c = some n → n < 64 ∧ char n = c

namespace Alphabet

variable {α : Type} (A : Alphabet α)

/-- The text of the bytes, without padding. -/
def encode (b : List UInt8) : List α := (sextets b).map A.char

/-- The bytes of a text without padding. -/
def decode (strict : Bool) (s : List α) : Option (List UInt8) :=
  (s.mapM A.value).bind (ofGroups strict)

/-- Every character is of the alphabet. -/
def Over (s : List α) : Prop := ∀ c ∈ s, (A.value c).isSome = true

/-- The bits of the last character that do not fill a byte are zero. -/
def UnusedZero (s : List α) : Prop := unusedZero (s.filterMap A.value) = true

variable {A}

theorem mapM_map_char {l : List ℕ} (h : ∀ x ∈ l, x < 64) : (l.map A.char).mapM A.value = some l := by
  induction l with
  | nil => rfl
  | cons x l ih =>
    rw [List.map_cons, List.mapM_cons, A.value_char x (h x List.mem_cons_self),
      ih fun y hy => h y (List.mem_cons_of_mem x hy)]
    rfl

/-- The groups of a text over the alphabet. -/
theorem Over.groups {s : List α} (h : A.Over s) : s.mapM A.value = some (s.filterMap A.value) ∧
    (∀ x ∈ s.filterMap A.value, x < 64) ∧ (s.filterMap A.value).map A.char = s ∧
    (s.filterMap A.value).length = s.length := by
  induction s with
  | nil => exact ⟨rfl, fun x hx => (by cases hx), rfl, rfl⟩
  | cons c s ih =>
    obtain ⟨n, hn⟩ := Option.isSome_iff_exists.mp (h c List.mem_cons_self)
    obtain ⟨hm, hlt, hmap, hlen⟩ := ih fun d hd => h d (List.mem_cons_of_mem c hd)
    obtain ⟨hn64, hchar⟩ := A.char_value c n hn
    rw [List.mapM_cons, hn, hm, List.filterMap_cons_some hn]
    refine ⟨rfl, ?_, ?_, ?_⟩
    · intro x hx
      rcases List.mem_cons.mp hx with rfl | hx
      · exact hn64
      · exact hlt x hx
    · rw [List.map_cons, hchar, hmap]
    · rw [List.length_cons, hlen, List.length_cons]

/-- Only texts over the alphabet decode. -/
theorem over_of_decode {strict : Bool} {s : List α} {b : List UInt8}
    (h : A.decode strict s = some b) : A.Over s := by
  obtain ⟨l, hl, -⟩ := Option.bind_eq_some_iff.mp h
  clear h
  induction s generalizing l with
  | nil => exact fun c hc => (by cases hc)
  | cons c s ih =>
    rw [List.mapM_cons] at hl
    obtain ⟨n, hn, hl⟩ := Option.bind_eq_some_iff.mp hl
    obtain ⟨l', hl', -⟩ := Option.bind_eq_some_iff.mp hl
    intro d hd
    rcases List.mem_cons.mp hd with rfl | hd
    · rw [hn]
      rfl
    · exact ih l' hl' d hd

theorem decode_eq_some {strict : Bool} {s : List α} {b : List UInt8} (h : A.Over s) :
    A.decode strict s = some b ↔ s.length % 4 ≠ 1 ∧ (strict = true → A.UnusedZero s) ∧
      ofSextets (s.filterMap A.value) = b := by
  obtain ⟨hm, -, -, hlen⟩ := h.groups
  rw [decode, hm, Option.bind_some, ofGroups_eq_some, hlen]
  rfl

/-- What is encoded is over the alphabet. -/
theorem over_encode (b : List UInt8) : A.Over (A.encode b) := by
  intro c hc
  obtain ⟨n, hn, rfl⟩ := List.mem_map.mp hc
  rw [A.value_char n (sextets_lt b n hn)]
  rfl

theorem length_encode (b : List UInt8) : (A.encode b).length = (b.length * 8 + 5) / 6 := by
  rw [encode, List.length_map, length_sextets]

/-- **Decoding an encoding gives the bytes back.** -/
theorem decode_encode (strict : Bool) (b : List UInt8) : A.decode strict (A.encode b) = some b := by
  rw [decode, encode, mapM_map_char (sextets_lt b), Option.bind_some, ofGroups_sextets]

/-- **What is decoded is encoded back** if its unused bits are zero. -/
theorem encode_decode_iff {strict : Bool} {s : List α} {b : List UInt8}
    (h : A.decode strict s = some b) : A.encode b = s ↔ A.UnusedZero s := by
  have ho := over_of_decode h
  obtain ⟨hlen, -, rfl⟩ := (decode_eq_some ho).mp h
  obtain ⟨-, hlt, hmap, hlen'⟩ := ho.groups
  have hiff := sextets_ofSextets_iff hlt (hlen'.symm ▸ hlen)
  rw [UnusedZero, ← hiff, encode]
  constructor
  · intro he
    have hm := mapM_map_char (A := A) (sextets_lt (ofSextets (s.filterMap A.value)))
    rw [he, ho.groups.1] at hm
    exact (Option.some.inj hm).symm
  · intro he
    rw [he, hmap]

/-- **A lone last group does not decode.** -/
theorem decode_long {strict : Bool} {s : List α} (h : s.length % 4 = 1) : A.decode strict s = none := by
  by_contra hne
  obtain ⟨b, hb⟩ := Option.ne_none_iff_exists'.mp hne
  exact ((decode_eq_some (over_of_decode hb)).mp hb).1 h

/-- A text that decodes to the bytes and is their encoding. -/
theorem decode_canonical {strict : Bool} {s : List α} {b : List UInt8} :
    (A.decode strict s = some b ∧ A.encode b = s) ↔ A.encode b = s := by
  refine ⟨fun h => h.2, fun h => ⟨?_, h⟩⟩
  rw [← h, decode_encode]

/-! ### Padding -/

variable (A)

/-- The padding of a text of this length. -/
def padding (pad : α) (n : ℕ) : List α := List.replicate ((4 - n % 4) % 4) pad

/-- What is decoded has six bits for each character. -/
theorem length_decode {A : Alphabet α} {strict : Bool} {s : List α} {b : List UInt8}
    (h : A.decode strict s = some b) : b.length = s.length * 6 / 8 := by
  have ho := over_of_decode h
  obtain ⟨-, -, rfl⟩ := (decode_eq_some ho).mp h
  rw [length_ofSextets, ho.groups.2.2.2]

/-- The text of the bytes, padded to a multiple of four. -/
def encodePadded (pad : α) (b : List UInt8) : List α :=
  A.encode b ++ padding pad (A.encode b).length

theorem length_padded (pad : α) (s : List α) : (s ++ padding pad s.length).length % 4 = 0 := by
  rw [List.length_append, padding, List.length_replicate]
  omega

variable [DecidableEq α]

/-- The bytes of a padded text: at most two characters of padding, as many as are missing. -/
def decodePadded (pad : α) (strict : Bool) (s : List α) : Option (List UInt8) :=
  let body := s.takeWhile fun c => c != pad
  if s.length % 4 = 0 ∧ s = body ++ padding pad body.length ∧ body.length % 4 ≠ 1 then
    A.decode strict body
  else none

variable {A}

theorem takeWhile_padded {pad : α} {s : List α} (h : pad ∉ s) (n : ℕ) :
    (s ++ List.replicate n pad).takeWhile (fun c => c != pad) = s := by
  rw [List.takeWhile_append_of_pos fun c hc => ?_]
  · cases n with
    | zero => simp
    | succ n => simp [List.replicate_succ]
  · rw [bne_iff_ne]
    rintro rfl
    exact h hc

/-- Padding trimmed from the end. -/
theorem rdropWhile_padded {pad : α} {s : List α} (h : pad ∉ s) (n : ℕ) :
    (s ++ List.replicate n pad).rdropWhile (fun c => c == pad) = s := by
  rw [List.rdropWhile, List.reverse_append, List.reverse_replicate, List.dropWhile_append_of_pos]
  · rw [List.dropWhile_eq_self_iff.mpr, List.reverse_reverse]
    intro hlen hpad
    have hmem : s.reverse.get ⟨0, hlen⟩ ∈ s := List.mem_reverse.mp (List.get_mem _ _)
    exact h (beq_iff_eq.mp hpad ▸ hmem)
  · intro c hc
    rw [List.eq_of_mem_replicate hc, beq_self_eq_true]

/-- Padding deleted anywhere. -/
theorem filter_padded {pad : α} {s : List α} (h : pad ∉ s) (n : ℕ) :
    (s ++ List.replicate n pad).filter (fun c => c != pad) = s := by
  rw [List.filter_append, List.filter_eq_self.mpr, List.filter_eq_nil_iff.mpr, List.append_nil]
  · intro c hc
    rw [List.eq_of_mem_replicate hc]
    simp
  · intro c hc
    rw [bne_iff_ne]
    rintro rfl
    exact h hc

/-- **Padding a text and decoding it as padded** is decoding it. -/
theorem decodePadded_padded {pad : α} {strict : Bool} {s : List α} (h : pad ∉ s) :
    A.decodePadded pad strict (s ++ padding pad s.length) = A.decode strict s := by
  unfold decodePadded
  have hbody : (s ++ padding pad s.length).takeWhile (fun c => c != pad) = s := takeWhile_padded h _
  dsimp only
  rw [hbody]
  by_cases hlen : s.length % 4 = 1
  · rw [if_neg fun h => h.2.2 hlen, decode_long hlen]
  · rw [if_pos ⟨length_padded pad s, rfl, hlen⟩]

end Alphabet

/-! ### The alphabets of RFC 4648 -/

/-- What a text is made of: units with an ASCII part. -/
class CodeUnit (α : Type) where
  toNat : α → ℕ
  ofNat : ℕ → α
  toNat_ofNat : ∀ n, n < 128 → toNat (ofNat n) = n
  ofNat_toNat : ∀ c, ofNat (toNat c) = c

instance : CodeUnit UInt8 where
  toNat := UInt8.toNat
  ofNat := UInt8.ofNat
  toNat_ofNat _ h := UInt8.toNat_ofNat_of_lt' (Nat.lt_trans h (by decide))
  ofNat_toNat _ := UInt8.ofNat_toNat

instance : CodeUnit UInt16 where
  toNat := UInt16.toNat
  ofNat := UInt16.ofNat
  toNat_ofNat _ h := UInt16.toNat_ofNat_of_lt' (Nat.lt_trans h (by decide))
  ofNat_toNat _ := UInt16.ofNat_toNat

/-- The code of a group: a letter, a digit, or one of two more characters. -/
def code (c62 c63 n : ℕ) : ℕ :=
  if n < 26 then n + 65
  else if n < 52 then n + 71
  else if n < 62 then n - 4
  else if n = 62 then c62
  else c63

/-- The group of a code. -/
def ofCode (c62 c63 n : ℕ) : Option ℕ :=
  if 65 ≤ n ∧ n ≤ 90 then some (n - 65)
  else if 97 ≤ n ∧ n ≤ 122 then some (n - 71)
  else if 48 ≤ n ∧ n ≤ 57 then some (n + 4)
  else if n = c62 then some 62
  else if n = c63 then some 63
  else none

/-- The two characters that are no letters and no digits. -/
structure Specials (c62 c63 : ℕ) : Prop where
  first : c62 < 48
  second : c63 < 48 ∨ c63 = 95
  ne : c62 ≠ c63

variable {c62 c63 : ℕ}

theorem code_lt (h : Specials c62 c63) {n : ℕ} (hn : n < 64) : code c62 c63 n < 128 := by
  have h₁ := h.first
  have h₂ := h.second
  unfold code
  split_ifs <;> omega

theorem ofCode_code (h : Specials c62 c63) {n : ℕ} (hn : n < 64) :
    ofCode c62 c63 (code c62 c63 n) = some n := by
  have h₁ := h.first
  have h₂ := h.second
  have h₃ := h.ne
  have hcode : code c62 c63 n < 128 := code_lt h hn
  unfold ofCode code
  split_ifs <;> first | omega | (refine congrArg some ?_; omega)

theorem code_ofCode {n v : ℕ} (h : ofCode c62 c63 n = some v) : v < 64 ∧ code c62 c63 v = n := by
  unfold ofCode at h
  split_ifs at h with h₁ h₂ h₃ h₄ h₅
  all_goals
    obtain rfl := Option.some.inj h
    unfold code
    split_ifs <;> omega

theorem ofCode_isSome {n : ℕ} : (ofCode c62 c63 n).isSome = true ↔
    (65 ≤ n ∧ n ≤ 90) ∨ (97 ≤ n ∧ n ≤ 122) ∨ (48 ≤ n ∧ n ≤ 57) ∨ n = c62 ∨ n = c63 := by
  unfold ofCode
  split_ifs <;> simp <;> omega

namespace Alphabet

/-- The alphabet with these two characters. -/
def rfc4648 (α : Type) [CodeUnit α] (c62 c63 : ℕ) (h : Specials c62 c63) : Alphabet α where
  char n := CodeUnit.ofNat (code c62 c63 n)
  value c := ofCode c62 c63 (CodeUnit.toNat c)
  value_char n hn := by rw [CodeUnit.toNat_ofNat _ (code_lt h hn), ofCode_code h hn]
  char_value c n hc := by
    obtain ⟨hn, hcode⟩ := code_ofCode hc
    exact ⟨hn, by rw [hcode, CodeUnit.ofNat_toNat]⟩

/-- `A-Za-z0-9+/`. -/
def standard (α : Type) [CodeUnit α] : Alphabet α := rfc4648 α 43 47 ⟨by decide, by decide, by decide⟩

/-- `A-Za-z0-9-_`. -/
def url (α : Type) [CodeUnit α] : Alphabet α := rfc4648 α 45 95 ⟨by decide, by decide, by decide⟩

variable {α : Type} {A B : Alphabet α} {f : α → α}

/-- Text written in one alphabet, written over into another. -/
theorem encode_map (h : ∀ n, n < 64 → f (A.char n) = B.char n) (b : List UInt8) :
    (A.encode b).map f = B.encode b := by
  rw [encode, encode, List.map_map]
  exact List.map_congr_left fun n hn => h n (sextets_lt b n hn)

theorem decode_map {strict : Bool} {s : List α} (h : ∀ c ∈ s, B.value (f c) = A.value c) :
    B.decode strict (s.map f) = A.decode strict s := by
  have hm : (s.map f).mapM B.value = s.mapM A.value := by
    induction s with
    | nil => rfl
    | cons c s ih =>
      rw [List.map_cons, List.mapM_cons, List.mapM_cons, h c List.mem_cons_self,
        ih fun d hd => h d (List.mem_cons_of_mem c hd)]
  rw [decode, decode, hm]

end Alphabet

end NebulaToken.Lib.Base64
