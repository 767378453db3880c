import NebulaToken.Token.Wire

/-! # Comparing digests

Every port asks first that both operands are 64 lower-case digits, and compares them then: TypeScript
and Java as the bytes that a lenient decoder makes of them, C# as the bytes of a decoder of its own,
Dart by gathering the differences of the code units.

* `hexDecode_inj`: on checked operands, decoding loses nothing;
* `comparison_exact`: each port finds two texts equal if they are the same 64 digits. -/

namespace NebulaToken.Ports.HexCompare

open NebulaToken.Lib.Codec NebulaToken.Token.Unicode NebulaToken.Token.Wire

/-! ### What the ports check -/

/-- 64 lower-case digits, looked at one after the other. -/
def isLowerHex64 (s : Str) : Bool :=
  if s.length ≠ hashHexChars then false else s.all isLowerHex

theorem isLowerHex64_eq (s : Str) : isLowerHex64 s = lowerHex64Test s := by
  unfold isLowerHex64 lowerHex64Test
  split_ifs with h
  · rw [Bool.eq_iff_iff, Bool.and_eq_true, beq_iff_eq]
    exact ⟨fun h' => (by cases h'), fun h' => absurd h'.1 h⟩
  · rw [not_not.mp h]
    rfl

/-- **What a comparison is for**: the operands are equal, and digests. -/
def SameDigest (a b : Str) : Prop := a = b ∧ a.length = 64 ∧ ∀ c ∈ a, isLowerHex c = true

theorem sameDigest_iff {a b : Str} :
    SameDigest a b ↔ lowerHex64Test a = true ∧ lowerHex64Test b = true ∧ a = b := by
  have htest : lowerHex64Test a = true ↔ a.length = 64 ∧ ∀ c ∈ a, isLowerHex c = true := by
    rw [lowerHex64Test, Bool.and_eq_true, beq_iff_eq, List.all_eq_true]
  constructor
  · rintro ⟨rfl, h⟩
    exact ⟨htest.mpr h, htest.mpr h, rfl⟩
  · rintro ⟨ha, -, rfl⟩
    exact ⟨rfl, htest.mp ha⟩

/-- **On checked operands, decoding loses nothing.** -/
theorem hexDecode_inj {a b : Str} (ha : lowerHex64Test a = true) (hb : lowerHex64Test b = true) :
    hexDecode a = hexDecode b ↔ a = b := by
  constructor
  · intro h
    rw [← hexEncode_decode_of_test ha, ← hexEncode_decode_of_test hb, h]
  · rintro rfl
    rfl

theorem digits_of_test {s : Str} (h : lowerHex64Test s = true) :
    s.length = 64 ∧ ∀ c ∈ s, (hexValue c).isSome = true := by
  rw [lowerHex64Test, Bool.and_eq_true, beq_iff_eq, List.all_eq_true] at h
  exact ⟨h.1, fun c hc => (isLowerHex_iff c).mp (h.2 c hc)⟩

/-- The value of a digit in either case, as the lenient decoders read it. -/
def digitValue (c : UInt16) : Option ℕ :=
  let n := c.toNat
  if 48 ≤ n ∧ n ≤ 57 then some (n - 48)
  else if 97 ≤ n ∧ n ≤ 102 then some (n - 87)
  else if 65 ≤ n ∧ n ≤ 70 then some (n - 55)
  else none

theorem digitValue_eq {c : UInt16} (h : (hexValue c).isSome = true) : digitValue c = hexValue c := by
  unfold hexValue at h ⊢
  unfold digitValue
  dsimp only at h ⊢
  split_ifs at h ⊢ <;> first | rfl | cases h

/-! ### TypeScript -/

namespace TypeScript

/-- `Buffer.from(s, 'hex')`: up to the first pair that is not of digits. -/
def bufferFromHex : Str → List UInt8
  | c :: d :: s =>
    match digitValue c, digitValue d with
    | some x, some y => UInt8.ofNat (x * 16 + y) :: bufferFromHex s
    | _, _ => []
  | _ => []

/-- `constantTimeEqualHex`. -/
def constantTimeEqualHex (aHex bHex : Str) : Bool :=
  if aHex.length ≠ hashHexChars ∨ bHex.length ≠ hashHexChars then false
  else if ¬ lowerHex64Test aHex ∨ ¬ lowerHex64Test bHex then false
  else decide (bufferFromHex aHex = bufferFromHex bHex)

theorem bufferFromHex_eq {s : Str} (h : ∀ c ∈ s, (hexValue c).isSome = true) :
    bufferFromHex s = hexDecode s := by
  induction s using hexDecode.induct with
  | case1 c d s x y hy hx ih =>
    have hc := digitValue_eq (h c (by simp))
    have hd := digitValue_eq (h d (by simp))
    rw [bufferFromHex, hexDecode, hc, hd, hx, hy]
    dsimp only
    rw [ih fun e he => h e (by simp [he])]
  | case2 c d s hno =>
    obtain ⟨x, hx⟩ := Option.isSome_iff_exists.mp (h c (by simp))
    obtain ⟨y, hy⟩ := Option.isSome_iff_exists.mp (h d (by simp))
    exact absurd hy (hno x y hx)
  | case3 s hno =>
    rcases s with _ | ⟨c, _ | ⟨d, s⟩⟩
    · rfl
    · rfl
    · exact absurd rfl (hno c d s)

theorem constantTimeEqualHex_iff {a b : Str} :
    constantTimeEqualHex a b = true ↔ SameDigest a b := by
  rw [sameDigest_iff, constantTimeEqualHex]
  constructor
  · intro h
    split_ifs at h with h₁ h₂
    rw [not_or, not_not, not_not] at h₂
    rw [decide_eq_true_eq, bufferFromHex_eq (digits_of_test h₂.1).2,
      bufferFromHex_eq (digits_of_test h₂.2).2, hexDecode_inj h₂.1 h₂.2] at h
    exact ⟨h₂.1, h₂.2, h⟩
  · rintro ⟨ha, hb, rfl⟩
    have hlen : a.length = hashHexChars := (digits_of_test ha).1
    rw [if_neg (by simp [hlen]), if_neg (by simp [ha])]
    exact decide_eq_true rfl

end TypeScript

/-- The engine's comparison is TypeScript's. -/
theorem typescript_constantTimeEqualHex (a b : Str) :
    TypeScript.constantTimeEqualHex a b = constantTimeEqualHex a b := by
  unfold TypeScript.constantTimeEqualHex constantTimeEqualHex
  split_ifs with h₁ h₂
  · rfl
  · rfl
  · rw [not_or, not_not, not_not] at h₂
    rw [TypeScript.bufferFromHex_eq (digits_of_test h₂.1).2,
      TypeScript.bufferFromHex_eq (digits_of_test h₂.2).2]

/-! ### Java -/

namespace Java

/-- What `HexFormat.parseHex` throws. -/
inductive IllegalArgumentException
  | oddLength
  | notHex

/-- `HEX.parseHex`: it reads digits of either case, and throws for anything else. -/
def parseHex : Str → Except IllegalArgumentException (List UInt8)
  | c :: d :: s =>
    match digitValue c, digitValue d with
    | some x, some y => (parseHex s).map fun bytes => UInt8.ofNat (x * 16 + y) :: bytes
    | _, _ => .error .notHex
  | [_] => .error .oddLength
  | [] => .ok []

/-- `constantTimeEqualHex`. -/
def constantTimeEqualHex (aHex bHex : Str) : Except IllegalArgumentException Bool :=
  if ¬ isLowerHex64 aHex ∨ ¬ isLowerHex64 bHex then .ok false
  else do
    let a ← parseHex aHex
    let b ← parseHex bHex
    -- `MessageDigest.isEqual`
    return decide (a = b)

theorem parseHex_eq {s : Str} (h : ∀ c ∈ s, (hexValue c).isSome = true) (heven : s.length % 2 = 0) :
    parseHex s = .ok (hexDecode s) := by
  induction s using hexDecode.induct with
  | case1 c d s x y hy hx ih =>
    have hc := digitValue_eq (h c (by simp))
    have hd := digitValue_eq (h d (by simp))
    have htail := ih (fun e he => h e (by simp [he])) (by simp only [List.length_cons] at heven; omega)
    rw [parseHex, hexDecode, hc, hd, hx, hy]
    dsimp only
    rw [htail]
    rfl
  | case2 c d s hno =>
    obtain ⟨x, hx⟩ := Option.isSome_iff_exists.mp (h c (by simp))
    obtain ⟨y, hy⟩ := Option.isSome_iff_exists.mp (h d (by simp))
    exact absurd hy (hno x y hx)
  | case3 s hno =>
    rcases s with _ | ⟨c, _ | ⟨d, s⟩⟩
    · rfl
    · cases heven
    · exact absurd rfl (hno c d s)

/-- Java's comparison never throws: what `parseHex` is given was checked. -/
theorem constantTimeEqualHex_eq (a b : Str) : constantTimeEqualHex a b =
    .ok (lowerHex64Test a && lowerHex64Test b && decide (a = b)) := by
  rw [constantTimeEqualHex, isLowerHex64_eq, isLowerHex64_eq]
  by_cases h : lowerHex64Test a = true ∧ lowerHex64Test b = true
  · obtain ⟨ha, hb⟩ := h
    have hda := digits_of_test ha
    have hdb := digits_of_test hb
    rw [if_neg (by simp [ha, hb]), parseHex_eq hda.2 (by omega), parseHex_eq hdb.2 (by omega), ha, hb,
      Bool.true_and, Bool.true_and, ← decide_eq_decide.mpr (hexDecode_inj ha hb)]
    rfl
  · have hand : (lowerHex64Test a && lowerHex64Test b) = false := by
      rw [← Bool.not_eq_true, Bool.and_eq_true]
      exact h
    rw [if_pos (not_and_or.mp h), hand, Bool.false_and]

end Java

/-! ### C# -/

namespace CSharp

/-- `Nibble`, of a checked digit. -/
def nibble (c : UInt16) : ℕ := if c.toNat ≤ 57 then c.toNat - 48 else c.toNat - 97 + 10

/-- `DecodeLowerHex`, into as many bytes as there are pairs of digits. -/
def decodeLowerHex (hex : Str) (size : ℕ) : List UInt8 :=
  (List.range size).map fun i =>
    UInt8.ofNat (nibble (hex.getD (i * 2) 0) <<< 4 ||| nibble (hex.getD (i * 2 + 1) 0))

/-- `ConstantTimeEqualHex`. -/
def constantTimeEqualHex (aHex bHex : Str) : Bool :=
  if aHex.length ≠ hashHexChars ∨ bHex.length ≠ hashHexChars then false
  else if ¬ aHex.all isLowerHex ∨ ¬ bHex.all isLowerHex then false
  -- `CryptographicOperations.FixedTimeEquals`
  else decide (decodeLowerHex aHex (hashHexChars / 2) = decodeLowerHex bHex (hashHexChars / 2))

theorem nibble_eq {c : UInt16} {x : ℕ} (h : hexValue c = some x) : nibble c = x := by
  unfold hexValue at h
  unfold nibble
  dsimp only at h
  split_ifs at h with h₁ h₂
  · rw [if_pos h₁.2, Option.some.inj h]
  · have hx := Option.some.inj h
    rw [if_neg (by omega)]
    omega

theorem decodeLowerHex_eq {s : Str} (h : ∀ c ∈ s, (hexValue c).isSome = true) {n : ℕ}
    (hlen : s.length = 2 * n) : decodeLowerHex s n = hexDecode s := by
  induction s using hexDecode.induct generalizing n with
  | case1 c d s x y hy hx ih =>
    obtain ⟨m, rfl⟩ : ∃ m, n = m + 1 := ⟨n - 1, by simp only [List.length_cons] at hlen; omega⟩
    have htail := ih (fun e he => h e (by simp [he])) (n := m)
      (by simp only [List.length_cons] at hlen; omega)
    have hy16 : y < 2 ^ 4 := (hexChar_value hy).1
    rw [hexDecode, hx, hy, decodeLowerHex, List.range_succ_eq_map, List.map_cons, List.map_map]
    dsimp only
    rw [← htail]
    refine congrArg₂ List.cons ?_ (List.map_congr_left fun i _ => ?_)
    · show UInt8.ofNat (nibble c <<< 4 ||| nibble d) = UInt8.ofNat (x * 16 + y)
      rw [nibble_eq hx, nibble_eq hy, ← Nat.shiftLeft_add_eq_or_of_lt hy16, Nat.shiftLeft_eq]
    · show UInt8.ofNat (nibble ((c :: d :: s).getD ((i + 1) * 2) 0) <<< 4 |||
        nibble ((c :: d :: s).getD ((i + 1) * 2 + 1) 0)) = _
      rw [show (i + 1) * 2 = i * 2 + 1 + 1 by omega, List.getD_cons_succ, List.getD_cons_succ,
        List.getD_cons_succ, List.getD_cons_succ]
  | case2 c d s hno =>
    obtain ⟨x, hx⟩ := Option.isSome_iff_exists.mp (h c (by simp))
    obtain ⟨y, hy⟩ := Option.isSome_iff_exists.mp (h d (by simp))
    exact absurd hy (hno x y hx)
  | case3 s hno =>
    rcases s with _ | ⟨c, _ | ⟨d, s⟩⟩
    · obtain rfl : n = 0 := by simp only [List.length_nil] at hlen; omega
      rfl
    · simp only [List.length_singleton] at hlen
      omega
    · exact absurd rfl (hno c d s)

theorem constantTimeEqualHex_iff {a b : Str} :
    constantTimeEqualHex a b = true ↔ SameDigest a b := by
  rw [sameDigest_iff, constantTimeEqualHex]
  have hsize : hashHexChars / 2 = 32 := rfl
  constructor
  · intro h
    split_ifs at h with h₁ h₂
    rw [not_or, not_not, not_not] at h₁ h₂
    have ha : lowerHex64Test a = true := by
      rw [← isLowerHex64_eq, isLowerHex64, if_neg (not_not.mpr h₁.1), h₂.1]
    have hb : lowerHex64Test b = true := by
      rw [← isLowerHex64_eq, isLowerHex64, if_neg (not_not.mpr h₁.2), h₂.2]
    have hda := digits_of_test ha
    have hdb := digits_of_test hb
    rw [decide_eq_true_eq, hsize, decodeLowerHex_eq hda.2 (by omega),
      decodeLowerHex_eq hdb.2 (by omega), hexDecode_inj ha hb] at h
    exact ⟨ha, hb, h⟩
  · rintro ⟨ha, -, rfl⟩
    rw [lowerHex64Test, Bool.and_eq_true, beq_iff_eq] at ha
    rw [if_neg (by simp [ha.1, hashHexChars]), if_neg (by simp [ha.2])]
    exact decide_eq_true rfl

end CSharp

/-! ### Dart -/

namespace Dart

/-- The loop that gathers the differences. -/
def diff (aHex bHex : Str) (n : ℕ) : ℕ :=
  (List.range n).foldl
    (fun diff i => diff ||| ((aHex.getD i 0).toNat ^^^ (bHex.getD i 0).toNat)) 0

/-- `constantTimeEqualHex`. -/
def constantTimeEqualHex (aHex bHex : Str) : Bool :=
  if ¬ isLowerHex64 aHex ∨ ¬ isLowerHex64 bHex then false
  else decide (diff aHex bHex hashHexChars = 0)

theorem xor_eq_zero {x y : ℕ} : x ^^^ y = 0 ↔ x = y := by
  constructor
  · intro h
    rw [← Nat.xor_zero x, ← Nat.xor_self y, ← Nat.xor_assoc, h, Nat.zero_xor]
  · rintro rfl
    exact Nat.xor_self x

/-- **Nothing was gathered** if there is no difference. -/
theorem diff_eq_zero {a b : Str} {n : ℕ} :
    diff a b n = 0 ↔ ∀ i, i < n → a.getD i 0 = b.getD i 0 := by
  induction n with
  | zero => exact ⟨fun _ i hi => absurd hi (Nat.not_lt_zero i), fun _ => rfl⟩
  | succ n ih =>
    rw [diff, List.range_succ, List.foldl_concat, Nat.or_eq_zero_iff, xor_eq_zero]
    constructor
    · rintro ⟨hrest, hlast⟩ i hi
      rcases Nat.lt_succ_iff_lt_or_eq.mp hi with hi | rfl
      · exact ih.mp hrest i hi
      · exact UInt16.toNat_inj.mp hlast
    · intro h
      exact ⟨ih.mpr fun i hi => h i (Nat.lt_succ_of_lt hi), congrArg _ (h n (Nat.lt_succ_self n))⟩

theorem constantTimeEqualHex_iff {a b : Str} :
    constantTimeEqualHex a b = true ↔ SameDigest a b := by
  rw [sameDigest_iff, constantTimeEqualHex, isLowerHex64_eq, isLowerHex64_eq]
  constructor
  · intro h
    split_ifs at h with h₁
    rw [not_or, not_not, not_not] at h₁
    rw [decide_eq_true_eq, diff_eq_zero] at h
    have hla : a.length = 64 := (digits_of_test h₁.1).1
    have hlb : b.length = 64 := (digits_of_test h₁.2).1
    refine ⟨h₁.1, h₁.2, List.ext_getElem (by omega) fun i hi hi' => ?_⟩
    have hget := h i (by show i < 64; omega)
    rwa [List.getD_eq_getElem?_getD, List.getD_eq_getElem?_getD, List.getElem?_eq_getElem hi,
      List.getElem?_eq_getElem hi', Option.getD_some, Option.getD_some] at hget
  · rintro ⟨ha, -, rfl⟩
    rw [if_neg (by simp [ha])]
    exact decide_eq_true (diff_eq_zero.mpr fun _ _ => rfl)

end Dart

/-! ### All four -/

/-- **The comparison of digests is exact in the four ports**: two texts are found equal if they are the
same 64 lower-case digits, and Java's decoder never throws. -/
theorem comparison_exact (a b : Str) :
    (TypeScript.constantTimeEqualHex a b = true ↔ SameDigest a b) ∧
      (Dart.constantTimeEqualHex a b = true ↔ SameDigest a b) ∧
      (CSharp.constantTimeEqualHex a b = true ↔ SameDigest a b) ∧
      (Java.constantTimeEqualHex a b = .ok true ↔ SameDigest a b) ∧
      ∃ equal, Java.constantTimeEqualHex a b = .ok equal := by
  refine ⟨TypeScript.constantTimeEqualHex_iff, Dart.constantTimeEqualHex_iff,
    CSharp.constantTimeEqualHex_iff, ?_, _, Java.constantTimeEqualHex_eq a b⟩
  rw [Java.constantTimeEqualHex_eq, sameDigest_iff, Except.ok.injEq, Bool.and_eq_true, Bool.and_eq_true,
    decide_eq_true_eq, and_assoc]

end NebulaToken.Ports.HexCompare
