import NebulaToken.Token.Unicode

/-! # Strings as UTF-8 bytes

Some runtimes see a string as bytes, and a string of theirs need not be valid UTF-8. What is written
from code units is.

* `ofAscii_utf8`, `utf8_ofAscii`: ASCII texts and ASCII bytes are the same thing;
* `utf8_append`: bytes of a text that begins with ASCII;
* `validUtf8_utf8`, `validUtf8_iff`: the bytes of a text are valid, and valid bytes are those of
  scalar values;
* `utf8_inj`: a text without lone surrogates can be read back from them. -/

namespace NebulaToken.Token.Utf8

open NebulaToken.Token.Unicode

abbrev Bytes := List UInt8

/-- The text of ASCII bytes. -/
def ofAscii (b : Bytes) : Str := b.map fun x => UInt16.ofNat x.toNat

/-! ### ASCII -/

theorem utf8_cons {u : UInt16} (h : u.toNat < 0x80) (s : Str) :
    utf8 (u :: s) = UInt8.ofNat u.toNat :: utf8 s := by
  have hb : utf8Bytes u.toNat = [UInt8.ofNat u.toNat] := if_pos h
  cases s with
  | nil =>
    show utf8Bytes u.toNat ++ [] = _
    rw [hb]
    rfl
  | cons v s =>
    have hhigh : (isHighSurrogate u && isLowSurrogate v) ≠ true := by
      simp only [isHighSurrogate, ne_eq, Bool.and_eq_true, decide_eq_true_eq]
      omega
    rw [utf8, codePoints, if_neg hhigh, List.flatMap_cons, hb]
    rfl

/-- **The bytes of a text that begins with ASCII.** -/
theorem utf8_append {s : Str} (h : ∀ u ∈ s, u.toNat < 0x80) (t : Str) :
    utf8 (s ++ t) = utf8 s ++ utf8 t := by
  induction s with
  | nil => rfl
  | cons u s ih =>
    have hu := h u List.mem_cons_self
    rw [List.cons_append, utf8_cons hu, utf8_cons hu, ih fun v hv => h v (List.mem_cons_of_mem _ hv)]
    rfl

theorem utf8_ascii {s : Str} (h : ∀ u ∈ s, u.toNat < 0x80) :
    utf8 s = s.map fun u => UInt8.ofNat u.toNat := by
  induction s with
  | nil => rfl
  | cons u s ih =>
    rw [utf8_cons (h u List.mem_cons_self), ih fun v hv => h v (List.mem_cons_of_mem _ hv)]
    rfl

theorem ofAscii_ascii {b : Bytes} (h : ∀ x ∈ b, x.toNat < 0x80) : ∀ u ∈ ofAscii b, u.toNat < 0x80 := by
  intro u hu
  obtain ⟨x, hx, rfl⟩ := List.mem_map.mp hu
  have := h x hx
  rw [UInt16.toNat_ofNat_of_lt' (by show x.toNat < 65536; omega)]
  exact this

/-- ASCII bytes are the bytes of their text. -/
theorem utf8_ofAscii {b : Bytes} (h : ∀ x ∈ b, x.toNat < 0x80) : utf8 (ofAscii b) = b := by
  rw [utf8_ascii (ofAscii_ascii h), ofAscii, List.map_map]
  conv_rhs => rw [← List.map_id b]
  refine List.map_congr_left fun x _ => ?_
  have hx := x.toNat_lt
  show UInt8.ofNat (UInt16.ofNat x.toNat).toNat = x
  rw [UInt16.toNat_ofNat_of_lt' (by show x.toNat < 65536; omega), UInt8.ofNat_toNat]

/-- An ASCII text is the text of its bytes. -/
theorem ofAscii_utf8 {s : Str} (h : ∀ u ∈ s, u.toNat < 0x80) : ofAscii (utf8 s) = s := by
  rw [utf8_ascii h, ofAscii, List.map_map]
  conv_rhs => rw [← List.map_id s]
  refine List.map_congr_left fun u hu => ?_
  have hlt := h u hu
  show UInt16.ofNat (UInt8.ofNat u.toNat).toNat = u
  rw [UInt8.toNat_ofNat_of_lt' (by show u.toNat < 256; omega), UInt16.ofNat_toNat]

theorem utf8Bytes_high {c : ℕ} (h : 0x80 ≤ c) : ∃ x ∈ utf8Bytes c, 0x80 ≤ x.toNat := by
  unfold utf8Bytes
  rw [if_neg (by omega)]
  split_ifs
  · refine ⟨_, List.mem_cons_of_mem _ List.mem_cons_self, ?_⟩
    rw [UInt8.toNat_ofNat_of_lt' (by show _ < 256; omega)]
    omega
  · exact ⟨0xEF, by decide, by decide⟩
  · refine ⟨_, List.mem_cons_of_mem _ List.mem_cons_self, ?_⟩
    rw [UInt8.toNat_ofNat_of_lt' (by show _ < 256; omega)]
    omega
  · refine ⟨_, List.mem_cons_of_mem _ List.mem_cons_self, ?_⟩
    rw [UInt8.toNat_ofNat_of_lt' (by show _ < 256; omega)]
    omega

/-- A text with ASCII bytes is ASCII. -/
theorem ascii_of_utf8 {s : Str} (h : ∀ x ∈ utf8 s, x.toNat < 0x80) : ∀ u ∈ s, u.toNat < 0x80 := by
  have hpoint : ∀ c ∈ codePoints s, c < 0x80 := by
    intro c hc
    by_contra hlt
    obtain ⟨x, hx, hhigh⟩ := utf8Bytes_high (Nat.le_of_not_lt hlt)
    have := h x (List.mem_flatMap.mpr ⟨c, hc, hx⟩)
    omega
  clear h
  induction s using codePoints.induct with
  | case1 u l s hp ih =>
    rw [codePoints, if_pos hp] at hpoint
    have := hpoint _ List.mem_cons_self
    omega
  | case2 u l s hp ih =>
    rw [codePoints, if_neg hp] at hpoint
    intro v hv
    rcases List.mem_cons.mp hv with rfl | hv
    · exact hpoint _ List.mem_cons_self
    · exact ih (fun c hc => hpoint c (List.mem_cons_of_mem _ hc)) v hv
  | case3 u =>
    intro v hv
    obtain rfl := List.mem_singleton.mp hv
    exact hpoint _ List.mem_cons_self
  | case4 =>
    intro v hv
    cases hv

/-- **A text is ASCII bytes if its bytes are.** -/
theorem utf8_eq_iff {s : Str} {b : Bytes} (h : ∀ x ∈ b, x.toNat < 0x80) :
    utf8 s = b ↔ s = ofAscii b := by
  constructor
  · rintro rfl
    exact (ofAscii_utf8 (ascii_of_utf8 h)).symm
  · rintro rfl
    exact utf8_ofAscii h

/-! ### Valid bytes -/

/-- Where a reader of UTF-8 stands: how many bytes of a character it still expects, and the bounds of
the next one. -/
structure Reader where
  owed : ℕ
  low : ℕ
  high : ℕ
  deriving DecidableEq, Repr

/-- Between characters. -/
def Reader.start : Reader := ⟨0, 0x80, 0xBF⟩

/-- After the first byte of a character. -/
def Reader.first (b : ℕ) : Option Reader :=
  if b < 0x80 then some .start
  else if 0xC2 ≤ b ∧ b ≤ 0xDF then some ⟨1, 0x80, 0xBF⟩
  -- no overlong form of three bytes, no surrogate
  else if b = 0xE0 then some ⟨2, 0xA0, 0xBF⟩
  else if b = 0xED then some ⟨2, 0x80, 0x9F⟩
  else if 0xE1 ≤ b ∧ b ≤ 0xEF then some ⟨2, 0x80, 0xBF⟩
  -- no overlong form of four bytes, nothing beyond U+10FFFF
  else if b = 0xF0 then some ⟨3, 0x90, 0xBF⟩
  else if b = 0xF4 then some ⟨3, 0x80, 0x8F⟩
  else if 0xF1 ≤ b ∧ b ≤ 0xF3 then some ⟨3, 0x80, 0xBF⟩
  else none

def Reader.step (r : Reader) (b : UInt8) : Option Reader :=
  if r.owed = 0 then Reader.first b.toNat
  else if r.low ≤ b.toNat ∧ b.toNat ≤ r.high then some ⟨r.owed - 1, 0x80, 0xBF⟩
  else none

/-- Whether the bytes are valid UTF-8. -/
def validUtf8 (b : Bytes) : Bool := b.foldlM Reader.step .start == some .start

theorem codePoints_lt (s : Str) : ∀ c ∈ codePoints s, c < 0x110000 := by
  induction s using codePoints.induct with
  | case1 u l s hp ih =>
    intro c hc
    rw [codePoints, if_pos hp] at hc
    simp only [isHighSurrogate, isLowSurrogate, Bool.and_eq_true, decide_eq_true_eq] at hp
    rcases List.mem_cons.mp hc with hc | hc
    · omega
    · exact ih c hc
  | case2 u l s hp ih =>
    intro c hc
    rw [codePoints, if_neg hp] at hc
    rcases List.mem_cons.mp hc with rfl | hc
    · have := u.toNat_lt
      omega
    · exact ih c hc
  | case3 u =>
    intro c hc
    obtain rfl := List.mem_singleton.mp hc
    have := u.toNat_lt
    omega
  | case4 =>
    intro c hc
    cases hc

/-- A byte between the bounds is read. -/
theorem step_owed {owed low high n : ℕ} (h₀ : 0 < owed) (hlow : low ≤ n) (hhigh : n ≤ high)
    (h : n < 256) : Reader.step ⟨owed, low, high⟩ (UInt8.ofNat n) = some ⟨owed - 1, 0x80, 0xBF⟩ := by
  unfold Reader.step
  rw [UInt8.toNat_ofNat_of_lt' (by show n < 256; exact h), if_neg (Nat.pos_iff_ne_zero.mp h₀),
    if_pos ⟨hlow, hhigh⟩]

theorem step_start {n : ℕ} (h : n < 256) : Reader.step .start (UInt8.ofNat n) = Reader.first n := by
  unfold Reader.step
  rw [UInt8.toNat_ofNat_of_lt' (by show n < 256; exact h)]
  rfl

theorem first_three {c : ℕ} (h : 0x800 ≤ c) (hs : isSurrogate c = false) (hc : c < 0x10000) :
    ∃ low high, Reader.first (0xE0 + c / 0x1000) = some ⟨2, low, high⟩ ∧
      low ≤ 0x80 + c / 0x40 % 0x40 ∧ 0x80 + c / 0x40 % 0x40 ≤ high := by
  simp only [isSurrogate, Bool.and_eq_false_iff, decide_eq_false_iff_not] at hs
  unfold Reader.first
  rw [if_neg (by omega), if_neg (by omega)]
  split_ifs with h₁ h₂ h₃
  · exact ⟨_, _, rfl, by omega, by omega⟩
  · exact ⟨_, _, rfl, by omega, by omega⟩
  · exact ⟨_, _, rfl, by omega, by omega⟩
  all_goals omega

theorem first_four {c : ℕ} (h : 0x10000 ≤ c) (hc : c < 0x110000) :
    ∃ low high, Reader.first (0xF0 + c / 0x40000) = some ⟨3, low, high⟩ ∧
      low ≤ 0x80 + c / 0x1000 % 0x40 ∧ 0x80 + c / 0x1000 % 0x40 ≤ high := by
  unfold Reader.first
  rw [if_neg (by omega), if_neg (by omega), if_neg (by omega), if_neg (by omega), if_neg (by omega)]
  split_ifs with h₁ h₂ h₃
  · exact ⟨_, _, rfl, by omega, by omega⟩
  · exact ⟨_, _, rfl, by omega, by omega⟩
  · exact ⟨_, _, rfl, by omega, by omega⟩
  · omega

/-- A character is read from one boundary to the next. -/
theorem read_utf8Bytes {c : ℕ} (hc : c < 0x110000) :
    (utf8Bytes c).foldlM Reader.step .start = some .start := by
  unfold utf8Bytes
  split_ifs with h₁ h₂ h₃ h₄
  · rw [List.foldlM_cons, step_start (by omega), Reader.first, if_pos h₁]
    rfl
  · rw [List.foldlM_cons, step_start (by omega), Reader.first, if_neg (by omega), if_pos (by omega),
      Option.bind_eq_bind, Option.bind_some, List.foldlM_cons,
      step_owed (by omega) (by omega) (by omega) (by omega)]
    rfl
  · decide
  · obtain ⟨low, high, hfirst, hlow, hhigh⟩ := first_three (by omega) (Bool.not_eq_true _ ▸ h₃) h₄
    rw [List.foldlM_cons, step_start (by omega), hfirst, Option.bind_eq_bind, Option.bind_some,
      List.foldlM_cons, step_owed (by omega) hlow hhigh (by omega), Option.bind_eq_bind,
      Option.bind_some, List.foldlM_cons, step_owed (by omega) (by omega) (by omega) (by omega)]
    rfl
  · obtain ⟨low, high, hfirst, hlow, hhigh⟩ := first_four (by omega) hc
    rw [List.foldlM_cons, step_start (by omega), hfirst, Option.bind_eq_bind, Option.bind_some,
      List.foldlM_cons, step_owed (by omega) hlow hhigh (by omega), Option.bind_eq_bind,
      Option.bind_some, List.foldlM_cons, step_owed (by omega) (by omega) (by omega) (by omega),
      Option.bind_eq_bind, Option.bind_some, List.foldlM_cons,
      step_owed (by omega) (by omega) (by omega) (by omega)]
    rfl

/-- **What is written of characters is valid.** -/
theorem validUtf8_flatMap {l : List ℕ} (hl : ∀ c ∈ l, c < 0x110000) :
    validUtf8 (l.flatMap utf8Bytes) = true := by
  rw [validUtf8, beq_iff_eq]
  induction l with
  | nil => rfl
  | cons c l ih =>
    rw [List.flatMap_cons, List.foldlM_append, read_utf8Bytes (hl c List.mem_cons_self)]
    exact ih fun c hc => hl c (List.mem_cons_of_mem _ hc)

/-- **The bytes of a text are valid UTF-8.** -/
theorem validUtf8_utf8 (s : Str) : validUtf8 (utf8 s) = true := validUtf8_flatMap (codePoints_lt s)

/-! ### What valid bytes are -/

/-- The Unicode scalar values. -/
def IsScalar (c : ℕ) : Prop := c < 0x110000 ∧ isSurrogate c = false

theorem step_owed_iff {owed low high : ℕ} (h₀ : 0 < owed) {b : UInt8} {r : Reader} :
    Reader.step ⟨owed, low, high⟩ b = some r ↔
      (low ≤ b.toNat ∧ b.toNat ≤ high) ∧ r = ⟨owed - 1, 0x80, 0xBF⟩ := by
  unfold Reader.step
  rw [if_neg (Nat.pos_iff_ne_zero.mp h₀), Option.ite_none_right_eq_some, Option.some.injEq]
  exact and_congr_right fun _ => eq_comm

/-- The first byte of a character, by what is still owed after it. -/
theorem first_eq_some {b : ℕ} {r : Reader} (h : Reader.first b = some r) :
    (b < 0x80 ∧ r = .start) ∨
    (0xC2 ≤ b ∧ b ≤ 0xDF ∧ r = ⟨1, 0x80, 0xBF⟩) ∨
    (0xE0 ≤ b ∧ b ≤ 0xEF ∧ ∃ low high, r = ⟨2, low, high⟩ ∧ 0x80 ≤ low ∧ high ≤ 0xBF ∧
      (b = 0xE0 → 0xA0 ≤ low) ∧ (b = 0xED → high ≤ 0x9F)) ∨
    (0xF0 ≤ b ∧ b ≤ 0xF4 ∧ ∃ low high, r = ⟨3, low, high⟩ ∧ 0x80 ≤ low ∧ high ≤ 0xBF ∧
      (b = 0xF0 → 0x90 ≤ low) ∧ (b = 0xF4 → high ≤ 0x8F)) := by
  unfold Reader.first at h
  split_ifs at h with h₁ h₂ h₃ h₄ h₅ h₆ h₇ h₈
  · exact Or.inl ⟨h₁, (Option.some.inj h).symm⟩
  · exact Or.inr (Or.inl ⟨h₂.1, h₂.2, (Option.some.inj h).symm⟩)
  · exact Or.inr (Or.inr (Or.inl ⟨by omega, by omega, _, _, (Option.some.inj h).symm, by omega,
      by omega, by omega, by omega⟩))
  · exact Or.inr (Or.inr (Or.inl ⟨by omega, by omega, _, _, (Option.some.inj h).symm, by omega,
      by omega, by omega, by omega⟩))
  · exact Or.inr (Or.inr (Or.inl ⟨by omega, by omega, _, _, (Option.some.inj h).symm, by omega,
      by omega, by omega, by omega⟩))
  · exact Or.inr (Or.inr (Or.inr ⟨by omega, by omega, _, _, (Option.some.inj h).symm, by omega,
      by omega, by omega, by omega⟩))
  · exact Or.inr (Or.inr (Or.inr ⟨by omega, by omega, _, _, (Option.some.inj h).symm, by omega,
      by omega, by omega, by omega⟩))
  · exact Or.inr (Or.inr (Or.inr ⟨by omega, by omega, _, _, (Option.some.inj h).symm, by omega,
      by omega, by omega, by omega⟩))

theorem ofNat_of_eq {n : ℕ} {b : UInt8} (h : n = b.toNat) : UInt8.ofNat n = b := by
  rw [h, UInt8.ofNat_toNat]

/-- **A reader at a boundary** is at the next one after a character. -/
theorem read_char {a : UInt8} {x : Bytes} (h : (a :: x).foldlM Reader.step .start = some .start) :
    ∃ c y, IsScalar c ∧ a :: x = utf8Bytes c ++ y ∧ y.foldlM Reader.step .start = some .start := by
  have ha := a.toNat_lt
  rw [List.foldlM_cons] at h
  obtain ⟨r, hr, h⟩ := Option.bind_eq_some_iff.mp h
  have hfirst : Reader.first a.toNat = some r := hr
  -- a byte that is owed is there, and between the bounds
  have hnext : ∀ {owed low high : ℕ} {z : Bytes}, 0 < owed →
      z.foldlM Reader.step ⟨owed, low, high⟩ = some .start →
      ∃ b z', z = b :: z' ∧ (low ≤ b.toNat ∧ b.toNat ≤ high) ∧
        z'.foldlM Reader.step ⟨owed - 1, 0x80, 0xBF⟩ = some .start := by
    intro owed low high z ho hz
    cases z with
    | nil =>
      have hs := Option.some.inj hz
      rw [Reader.start, Reader.mk.injEq] at hs
      omega
    | cons b z' =>
      rw [List.foldlM_cons] at hz
      obtain ⟨r', hr', hz⟩ := Option.bind_eq_some_iff.mp hz
      obtain ⟨hb, rfl⟩ := (step_owed_iff ho).mp hr'
      exact ⟨b, z', rfl, hb, hz⟩
  have hnot : ∀ {c : ℕ}, c < 0xD800 ∨ 0xDFFF < c → isSurrogate c = false := by
    intro c hc
    rw [isSurrogate, Bool.and_eq_false_iff, decide_eq_false_iff_not, decide_eq_false_iff_not]
    omega
  rcases first_eq_some hfirst with ⟨hlt, rfl⟩ | ⟨h₁, h₂, rfl⟩ |
    ⟨h₁, h₂, low, high, rfl, hl, hh, he, hd⟩ | ⟨h₁, h₂, low, high, rfl, hl, hh, he, hd⟩
  · refine ⟨a.toNat, x, ⟨by omega, hnot (by omega)⟩, ?_, h⟩
    rw [utf8Bytes, if_pos hlt, UInt8.ofNat_toNat]
    rfl
  · obtain ⟨b, x, rfl, hb, h⟩ := hnext (by decide) h
    refine ⟨(a.toNat - 0xC0) * 0x40 + (b.toNat - 0x80), x, ⟨by omega, hnot (by omega)⟩, ?_, h⟩
    rw [utf8Bytes, if_neg (by omega), if_pos (by omega), ofNat_of_eq (b := a) (by omega),
      ofNat_of_eq (b := b) (by omega)]
    rfl
  · obtain ⟨b, x, rfl, hb, h⟩ := hnext (by decide) h
    obtain ⟨c, x, rfl, hc, h⟩ := hnext (by decide) h
    have hs : isSurrogate ((a.toNat - 0xE0) * 0x1000 + (b.toNat - 0x80) * 0x40 + (c.toNat - 0x80)) =
        false := hnot (by omega)
    refine ⟨(a.toNat - 0xE0) * 0x1000 + (b.toNat - 0x80) * 0x40 + (c.toNat - 0x80), x,
      ⟨by omega, hs⟩, ?_, h⟩
    rw [utf8Bytes, if_neg (by omega), if_neg (by omega), if_neg (by rw [hs]; decide),
      if_pos (by omega), ofNat_of_eq (b := a) (by omega), ofNat_of_eq (b := b) (by omega),
      ofNat_of_eq (b := c) (by omega)]
    rfl
  · obtain ⟨b, x, rfl, hb, h⟩ := hnext (by decide) h
    obtain ⟨c, x, rfl, hc, h⟩ := hnext (by decide) h
    obtain ⟨d, x, rfl, hd', h⟩ := hnext (by decide) h
    have hs : isSurrogate ((a.toNat - 0xF0) * 0x40000 + (b.toNat - 0x80) * 0x1000 +
        (c.toNat - 0x80) * 0x40 + (d.toNat - 0x80)) = false := hnot (by omega)
    refine ⟨_, x, ⟨by omega, hs⟩, ?_, h⟩
    rw [utf8Bytes, if_neg (by omega), if_neg (by omega), if_neg (by rw [hs]; decide),
      if_neg (by omega), ofNat_of_eq (b := a) (by omega), ofNat_of_eq (b := b) (by omega),
      ofNat_of_eq (b := c) (by omega), ofNat_of_eq (b := d) (by omega)]
    rfl

theorem utf8Bytes_ne_nil (c : ℕ) : utf8Bytes c ≠ [] := by
  unfold utf8Bytes
  split_ifs
  all_goals exact List.cons_ne_nil _ _

/-- **Bytes are valid UTF-8 if they are those of some scalar values.** -/
theorem validUtf8_iff {b : Bytes} :
    validUtf8 b = true ↔ ∃ l : List ℕ, (∀ c ∈ l, IsScalar c) ∧ l.flatMap utf8Bytes = b := by
  constructor
  · intro h
    rw [validUtf8, beq_iff_eq] at h
    -- the bytes left get fewer with each character
    induction hn : b.length using Nat.strong_induction_on generalizing b with
    | _ n ih =>
      cases b with
      | nil => exact ⟨[], fun c hc => absurd hc List.not_mem_nil, rfl⟩
      | cons a x =>
        obtain ⟨c, y, hc, he, hy⟩ := read_char h
        have hlen := congrArg List.length he
        have hpos := List.length_pos_iff.mpr (utf8Bytes_ne_nil c)
        rw [List.length_append] at hlen
        obtain ⟨l, hl, rfl⟩ := ih y.length (by omega) hy rfl
        refine ⟨c :: l, fun c' hc' => ?_, he.symm⟩
        rcases List.mem_cons.mp hc' with rfl | hc'
        · exact hc
        · exact hl c' hc'
  · rintro ⟨l, hl, rfl⟩
    exact validUtf8_flatMap fun c hc => (hl c hc).1

/-! ### Reading a text back -/

/-- The code units of a code point. -/
def codeUnits (c : ℕ) : Str :=
  if c < 0x10000 then [UInt16.ofNat c]
  else [UInt16.ofNat (0xD800 + (c - 0x10000) / 0x400), UInt16.ofNat (0xDC00 + (c - 0x10000) % 0x400)]

theorem codeUnits_toNat (u : UInt16) : codeUnits u.toNat = [u] := by
  rw [codeUnits, if_pos u.toNat_lt, UInt16.ofNat_toNat]

/-- A string is what its code points are written with. -/
theorem codeUnits_codePoints (s : Str) : (codePoints s).flatMap codeUnits = s := by
  induction s using codePoints.induct with
  | case1 u l s hp ih =>
    rw [codePoints, if_pos hp, List.flatMap_cons, ih]
    simp only [isHighSurrogate, isLowSurrogate, Bool.and_eq_true, decide_eq_true_eq] at hp
    have hu : 0xD800 + (0x10000 + (u.toNat - 0xD800) * 0x400 + (l.toNat - 0xDC00) - 0x10000) / 0x400 =
        u.toNat := by omega
    have hl : 0xDC00 + (0x10000 + (u.toNat - 0xD800) * 0x400 + (l.toNat - 0xDC00) - 0x10000) % 0x400 =
        l.toNat := by omega
    rw [codeUnits, if_neg (by omega), hu, hl, UInt16.ofNat_toNat, UInt16.ofNat_toNat]
    rfl
  | case2 u l s hp ih =>
    rw [codePoints, if_neg hp, List.flatMap_cons, ih, codeUnits_toNat]
    rfl
  | case3 u =>
    rw [codePoints, List.flatMap_singleton, codeUnits_toNat]
  | case4 => rfl

/-- The first character of the bytes, and the bytes after it. -/
def readChar : Bytes → Option (ℕ × Bytes)
  | a :: x =>
    if a.toNat < 0x80 then some (a.toNat, x)
    else if a.toNat < 0xE0 then
      match x with
      | b :: x => some ((a.toNat - 0xC0) * 0x40 + (b.toNat - 0x80), x)
      | _ => none
    else if a.toNat < 0xF0 then
      match x with
      | b :: c :: x =>
        some ((a.toNat - 0xE0) * 0x1000 + (b.toNat - 0x80) * 0x40 + (c.toNat - 0x80), x)
      | _ => none
    else
      match x with
      | b :: c :: d :: x =>
        some ((a.toNat - 0xF0) * 0x40000 + (b.toNat - 0x80) * 0x1000 + (c.toNat - 0x80) * 0x40 +
          (d.toNat - 0x80), x)
      | _ => none
  | [] => none

theorem toNat_ofNat {n : ℕ} (h : n < 256) : (UInt8.ofNat n).toNat = n := UInt8.toNat_ofNat_of_lt' h

/-- A character that is written is read. -/
theorem readChar_utf8Bytes {c : ℕ} (hc : c < 0x110000) (hs : isSurrogate c = false) (x : Bytes) :
    readChar (utf8Bytes c ++ x) = some (c, x) := by
  unfold utf8Bytes
  rw [hs]
  split_ifs with h₁ h₂ h₃ h₄
  · simp only [List.singleton_append, readChar, toNat_ofNat (n := c) (by omega)]
    rw [if_pos h₁]
  · simp only [List.cons_append, List.nil_append, readChar]
    rw [toNat_ofNat (by omega), toNat_ofNat (by omega), if_neg (by omega), if_pos (by omega)]
    refine congrArg (fun n => some (n, x)) ?_
    omega
  · cases h₃
  · simp only [List.cons_append, List.nil_append, readChar]
    rw [toNat_ofNat (by omega), toNat_ofNat (by omega), toNat_ofNat (by omega), if_neg (by omega),
      if_neg (by omega), if_pos (by omega)]
    refine congrArg (fun n => some (n, x)) ?_
    omega
  · simp only [List.cons_append, List.nil_append, readChar]
    rw [toNat_ofNat (by omega), toNat_ofNat (by omega), toNat_ofNat (by omega),
      toNat_ofNat (by omega), if_neg (by omega), if_neg (by omega), if_neg (by omega)]
    refine congrArg (fun n => some (n, x)) ?_
    omega

/-- **The characters are determined by their bytes.** -/
theorem flatMap_inj {l l' : List ℕ} (hl : ∀ c ∈ l, IsScalar c) (hl' : ∀ c ∈ l', IsScalar c)
    (he : l.flatMap utf8Bytes = l'.flatMap utf8Bytes) : l = l' := by
  induction l generalizing l' with
  | nil =>
    cases l' with
    | nil => rfl
    | cons c l' =>
      have hc := hl' c List.mem_cons_self
      have hr := readChar_utf8Bytes hc.1 hc.2 (l'.flatMap utf8Bytes)
      rw [← List.flatMap_cons, ← he] at hr
      cases hr
  | cons c l ih =>
    have hc := hl c List.mem_cons_self
    have hr := readChar_utf8Bytes hc.1 hc.2 (l.flatMap utf8Bytes)
    rw [← List.flatMap_cons, he] at hr
    cases l' with
    | nil => cases hr
    | cons c' l' =>
      have hc' := hl' c' List.mem_cons_self
      rw [List.flatMap_cons, readChar_utf8Bytes hc'.1 hc'.2] at hr
      obtain ⟨rfl, hx⟩ := Prod.mk.inj (Option.some.inj hr)
      rw [ih (fun c hc => hl c (List.mem_cons_of_mem _ hc))
        (fun c hc => hl' c (List.mem_cons_of_mem _ hc)) hx.symm]

/-- **A text without lone surrogates can be read back from its bytes.** -/
theorem utf8_inj {s t : Str} (hs : isWellFormedUnicode s = true) (ht : isWellFormedUnicode t = true)
    (h : utf8 s = utf8 t) : s = t := by
  have hpoints : ∀ u : Str, isWellFormedUnicode u = true →
      ∀ c ∈ codePoints u, IsScalar c := by
    intro u hu c hc
    rw [isWellFormedUnicode, Bool.not_eq_true', List.any_eq_false] at hu
    exact ⟨codePoints_lt u c hc, Bool.not_eq_true _ ▸ hu c hc⟩
  rw [← codeUnits_codePoints s, ← codeUnits_codePoints t,
    flatMap_inj (hpoints s hs) (hpoints t ht) h]

end NebulaToken.Token.Utf8
