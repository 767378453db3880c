import Mathlib.Tactic

/-! # Strings as UTF-16 code units

A string is a list of 16-bit code units, and need not be valid Unicode: a surrogate may stand alone.
A lone surrogate has no UTF-8 encoding; it is written as the three bytes of U+FFFD. -/

namespace NebulaToken.Token.Unicode

/-- A string, as the program sees it: UTF-16 code units. -/
abbrev Str := List UInt16

/-- The string of the given ASCII characters. -/
def ascii (cs : List Char) : Str := cs.map fun c => UInt16.ofNat c.toNat

/-- The string of the given text. -/
def text (s : String) : Str := ascii s.toList

/-- The first half of a surrogate pair. -/
def isHighSurrogate (u : UInt16) : Bool := 0xD800 ≤ u.toNat && u.toNat ≤ 0xDBFF

/-- The second half of a surrogate pair. -/
def isLowSurrogate (u : UInt16) : Bool := 0xDC00 ≤ u.toNat && u.toNat ≤ 0xDFFF

/-- The code points of a string; a pair is the astral code point it encodes, and a lone surrogate is
itself. -/
def codePoints : Str → List ℕ
  | h :: l :: s =>
    if isHighSurrogate h && isLowSurrogate l then
      (0x10000 + (h.toNat - 0xD800) * 0x400 + (l.toNat - 0xDC00)) :: codePoints s
    else h.toNat :: codePoints (l :: s)
  | [u] => [u.toNat]
  | [] => []

/-- `\p{Surrogate}`. -/
def isSurrogate (c : ℕ) : Bool := 0xD800 ≤ c && c ≤ 0xDFFF

/-- Whether the string has no unpaired surrogate. -/
def isWellFormedUnicode (s : Str) : Bool := !(codePoints s).any isSurrogate

/-- The UTF-8 bytes of a code point. -/
def utf8Bytes (c : ℕ) : List UInt8 :=
  if c < 0x80 then [UInt8.ofNat c]
  else if c < 0x800 then [UInt8.ofNat (0xC0 + c / 0x40), UInt8.ofNat (0x80 + c % 0x40)]
  else if isSurrogate c then [0xEF, 0xBF, 0xBD]
  else if c < 0x10000 then
    [UInt8.ofNat (0xE0 + c / 0x1000), UInt8.ofNat (0x80 + c / 0x40 % 0x40),
      UInt8.ofNat (0x80 + c % 0x40)]
  else
    [UInt8.ofNat (0xF0 + c / 0x40000), UInt8.ofNat (0x80 + c / 0x1000 % 0x40),
      UInt8.ofNat (0x80 + c / 0x40 % 0x40), UInt8.ofNat (0x80 + c % 0x40)]

/-- `Buffer.from(s, 'utf8')`. -/
def utf8 (s : Str) : List UInt8 := (codePoints s).flatMap utf8Bytes

/-- `Buffer.byteLength(s, 'utf8')`. -/
def byteLength (s : Str) : ℕ := (utf8 s).length

/-- A string checked to be ASCII. -/
theorem ascii_of_check {s : Str} (h : s.all (fun u => decide (u.toNat < 0x80)) = true) :
    ∀ u ∈ s, u.toNat < 0x80 := fun u hu => of_decide_eq_true (List.all_eq_true.mp h u hu)

theorem codePoints_ascii {s : Str} (h : ∀ u ∈ s, u.toNat < 0x80) :
    codePoints s = s.map UInt16.toNat := by
  induction s using codePoints.induct with
  | case1 u l s hp ih =>
    have hu := h u (by simp)
    simp only [isHighSurrogate, Bool.and_eq_true, decide_eq_true_eq] at hp
    omega
  | case2 u l s hp ih =>
    rw [codePoints, if_neg hp, ih fun v hv => h v (List.mem_cons_of_mem _ hv)]
    rfl
  | case3 u => rfl
  | case4 => rfl

/-- An ASCII string has as many bytes as characters. -/
theorem byteLength_ascii {s : Str} (h : ∀ u ∈ s, u.toNat < 0x80) : byteLength s = s.length := by
  rw [byteLength, utf8, codePoints_ascii h]
  induction s with
  | nil => rfl
  | cons u s ih =>
    have hu := h u List.mem_cons_self
    have hb : (utf8Bytes u.toNat).length = 1 := by simp [utf8Bytes, hu]
    rw [List.map_cons, List.flatMap_cons, List.length_append, hb,
      ih fun v hv => h v (List.mem_cons_of_mem _ hv), List.length_cons]
    omega

end NebulaToken.Token.Unicode
