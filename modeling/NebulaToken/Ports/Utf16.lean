import NebulaToken.Token.Utf8
import NebulaToken.Token.Wire

/-! # Scanning UTF-16 by hand

Java and Dart walk the code units of a string themselves, one step for a surrogate pair: to see whether
it is valid Unicode, and to count the bytes of its UTF-8 encoding. Java counts with 32 bits.

* `isWellFormedUnicode_iff`: a string is well formed if scalar values are written as it;
* `java_utf8Length`, `dart_utf8ByteLength`: the two counters;
* `scan_exact_iff`: both ports are right about every string of less than 2³¹ bytes, and no other. -/

namespace NebulaToken.Ports.Utf16

open NebulaToken.Token.Unicode NebulaToken.Token.Utf8 NebulaToken.Token.Wire

/-! ### Java -/

namespace Java

/-- `isSurrogatePairAt`, of the code units from `i` on. -/
def isSurrogatePairAt (c : UInt16) : Str → Bool
  | d :: _ => isHighSurrogate c && isLowSurrogate d
  | [] => false

/-- `isWellFormedUnicode`. -/
def isWellFormedUnicode : Str → Bool
  | c :: d :: s =>
    if isHighSurrogate c then
      if ¬ isSurrogatePairAt c (d :: s) then false else isWellFormedUnicode s
    else if isLowSurrogate c then false
    else isWellFormedUnicode (d :: s)
  | [c] =>
    if isHighSurrogate c then isSurrogatePairAt c []
    else !isLowSurrogate c
  | [] => true

/-- The loop of `utf8Length`, with its counter. -/
def utf8LengthFrom (n : Int32) : Str → Int32
  | c :: d :: s =>
    if c.toNat < 0x80 then utf8LengthFrom (n + 1) (d :: s)
    else if c.toNat < 0x800 then utf8LengthFrom (n + 2) (d :: s)
    else if isSurrogatePairAt c (d :: s) then utf8LengthFrom (n + 4) s
    else utf8LengthFrom (n + 3) (d :: s)
  | [c] => if c.toNat < 0x80 then n + 1 else if c.toNat < 0x800 then n + 2 else n + 3
  | [] => n

/-- `utf8Length`. -/
def utf8Length (s : Str) : Int32 := utf8LengthFrom 0 s

end Java

/-! ### Dart -/

namespace Dart

/-- `_isWellFormedUnicode`. Past the end, the next code unit is taken to be zero. -/
def isWellFormedUnicode : Str → Bool
  | c :: d :: s =>
    if 0xD800 ≤ c.toNat ∧ c.toNat ≤ 0xDBFF then
      if d.toNat < 0xDC00 ∨ 0xDFFF < d.toNat then false else isWellFormedUnicode s
    else if 0xDC00 ≤ c.toNat ∧ c.toNat ≤ 0xDFFF then false
    else isWellFormedUnicode (d :: s)
  | [c] =>
    if 0xD800 ≤ c.toNat ∧ c.toNat ≤ 0xDBFF then
      if 0 < 0xDC00 ∨ 0xDFFF < 0 then false else true
    else if 0xDC00 ≤ c.toNat ∧ c.toNat ≤ 0xDFFF then false
    else true
  | [] => true

/-- The loop of `_utf8ByteLength`, with its counter. -/
def utf8ByteLengthFrom (n : ℕ) : Str → ℕ
  | c :: d :: s =>
    if c.toNat < 0x80 then utf8ByteLengthFrom (n + 1) (d :: s)
    else if c.toNat < 0x800 then utf8ByteLengthFrom (n + 2) (d :: s)
    else if 0xD800 ≤ c.toNat ∧ c.toNat ≤ 0xDBFF ∧ 0xDC00 ≤ d.toNat ∧ d.toNat ≤ 0xDFFF then
      utf8ByteLengthFrom (n + 4) s
    else utf8ByteLengthFrom (n + 3) (d :: s)
  | [c] => if c.toNat < 0x80 then n + 1 else if c.toNat < 0x800 then n + 2 else n + 3
  | [] => n

/-- `_utf8ByteLength`. -/
def utf8ByteLength (s : Str) : ℕ := utf8ByteLengthFrom 0 s

end Dart

/-! ### Well-formed strings -/

theorem isHighSurrogate_iff {c : UInt16} :
    isHighSurrogate c = true ↔ 0xD800 ≤ c.toNat ∧ c.toNat ≤ 0xDBFF := by
  rw [isHighSurrogate, Bool.and_eq_true, decide_eq_true_eq, decide_eq_true_eq]

theorem isLowSurrogate_iff {c : UInt16} :
    isLowSurrogate c = true ↔ 0xDC00 ≤ c.toNat ∧ c.toNat ≤ 0xDFFF := by
  rw [isLowSurrogate, Bool.and_eq_true, decide_eq_true_eq, decide_eq_true_eq]

theorem isSurrogate_iff {c : ℕ} : isSurrogate c = true ↔ 0xD800 ≤ c ∧ c ≤ 0xDFFF := by
  rw [isSurrogate, Bool.and_eq_true, decide_eq_true_eq, decide_eq_true_eq]

theorem codePoints_cons {u : UInt16} (h : ¬ isHighSurrogate u = true) (s : Str) :
    codePoints (u :: s) = u.toNat :: codePoints s := by
  cases s with
  | nil => rfl
  | cons v s => rw [codePoints, if_neg fun hp => h (Bool.and_eq_true _ _ ▸ hp).1]

/-- Scalar values are the code points of what they are written as. -/
theorem codePoints_codeUnits {l : List ℕ} (h : ∀ c ∈ l, IsScalar c) :
    codePoints (l.flatMap codeUnits) = l := by
  induction l with
  | nil => rfl
  | cons c l ih =>
    obtain ⟨hc, hs⟩ := h c List.mem_cons_self
    have ih := ih fun d hd => h d (List.mem_cons_of_mem c hd)
    rw [List.flatMap_cons, codeUnits]
    by_cases hlow : c < 0x10000
    · have hu : (UInt16.ofNat c).toNat = c := UInt16.toNat_ofNat_of_lt' hlow
      have hhigh : ¬ isHighSurrogate (UInt16.ofNat c) = true := by
        rw [isHighSurrogate_iff, hu]
        intro hc'
        rw [isSurrogate_iff.mpr ⟨hc'.1, by omega⟩] at hs
        cases hs
      rw [if_pos hlow, List.singleton_append, codePoints_cons hhigh, hu, ih]
    · have hu : (UInt16.ofNat (0xD800 + (c - 0x10000) / 0x400)).toNat = 0xD800 + (c - 0x10000) / 0x400 :=
        UInt16.toNat_ofNat_of_lt' (by show _ < 65536; omega)
      have hl : (UInt16.ofNat (0xDC00 + (c - 0x10000) % 0x400)).toNat = 0xDC00 + (c - 0x10000) % 0x400 :=
        UInt16.toNat_ofNat_of_lt' (by show _ < 65536; omega)
      have hpair : (isHighSurrogate (UInt16.ofNat (0xD800 + (c - 0x10000) / 0x400)) &&
          isLowSurrogate (UInt16.ofNat (0xDC00 + (c - 0x10000) % 0x400))) = true := by
        rw [Bool.and_eq_true, isHighSurrogate_iff, isLowSurrogate_iff, hu, hl]
        omega
      rw [if_neg hlow, List.cons_append, List.singleton_append, codePoints, if_pos hpair, hu, hl, ih]
      refine congrArg (fun n => n :: l) ?_
      omega

/-- **A string is well formed** if it is the UTF-16 encoding of scalar values. -/
theorem isWellFormedUnicode_iff {s : Str} : isWellFormedUnicode s = true ↔
    ∃ l : List ℕ, (∀ c ∈ l, IsScalar c) ∧ l.flatMap codeUnits = s := by
  rw [isWellFormedUnicode, Bool.not_eq_true', List.any_eq_false]
  constructor
  · intro h
    exact ⟨codePoints s, fun c hc => ⟨codePoints_lt s c hc, Bool.not_eq_true _ ▸ h c hc⟩,
      codeUnits_codePoints s⟩
  · rintro ⟨l, hl, rfl⟩ c hc
    rw [codePoints_codeUnits hl] at hc
    rw [(hl c hc).2]
    exact Bool.false_ne_true

/-! ### One step of a scan -/

theorem isSurrogate_toNat (c : UInt16) :
    isSurrogate c.toNat = (isHighSurrogate c || isLowSurrogate c) := by
  rw [Bool.eq_iff_iff, Bool.or_eq_true, isSurrogate_iff, isHighSurrogate_iff, isLowSurrogate_iff]
  omega

/-- A code unit that begins no pair. -/
theorem codePoints_single {c : UInt16} {s : Str} (h : Java.isSurrogatePairAt c s = false) :
    codePoints (c :: s) = c.toNat :: codePoints s := by
  cases s with
  | nil => rfl
  | cons d t => rw [codePoints, if_neg (Bool.not_eq_true _ ▸ h)]

theorem wellFormed_pair {c d : UInt16} (h : (isHighSurrogate c && isLowSurrogate d) = true) (s : Str) :
    isWellFormedUnicode (c :: d :: s) = isWellFormedUnicode s := by
  have hastral : isSurrogate (0x10000 + (c.toNat - 0xD800) * 0x400 + (d.toNat - 0xDC00)) = false := by
    rw [← Bool.not_eq_true, isSurrogate_iff]
    omega
  rw [isWellFormedUnicode, codePoints, if_pos h, List.any_cons, hastral, Bool.false_or]
  rfl

theorem wellFormed_single {c : UInt16} {s : Str} (h : Java.isSurrogatePairAt c s = false) :
    isWellFormedUnicode (c :: s) =
      (!isHighSurrogate c && !isLowSurrogate c && isWellFormedUnicode s) := by
  rw [isWellFormedUnicode, codePoints_single h, List.any_cons, isSurrogate_toNat, Bool.not_or,
    Bool.not_or]
  rfl

/-- The bytes of a code point. -/
theorem length_utf8Bytes (c : ℕ) : (utf8Bytes c).length =
    if c < 0x80 then 1 else if c < 0x800 then 2 else if c < 0x10000 then 3 else 4 := by
  unfold utf8Bytes
  by_cases hs : isSurrogate c = true
  · have hrange := isSurrogate_iff.mp hs
    rw [if_pos hs, if_neg (by omega), if_neg (by omega), if_neg (by omega), if_neg (by omega),
      if_pos (by omega)]
    rfl
  · rw [if_neg hs]
    split_ifs <;> rfl

theorem byteLength_pair {c d : UInt16} (h : (isHighSurrogate c && isLowSurrogate d) = true) (s : Str) :
    byteLength (c :: d :: s) = 4 + byteLength s := by
  rw [byteLength, utf8, codePoints, if_pos h, List.flatMap_cons, List.length_append, length_utf8Bytes,
    if_neg (by omega), if_neg (by omega), if_neg (by omega)]
  rfl

theorem byteLength_single {c : UInt16} {s : Str} (h : Java.isSurrogatePairAt c s = false) :
    byteLength (c :: s) =
      (if c.toNat < 0x80 then 1 else if c.toNat < 0x800 then 2 else 3) + byteLength s := by
  rw [byteLength, utf8, codePoints_single h, List.flatMap_cons, List.length_append, length_utf8Bytes,
    if_pos (show c.toNat < 0x10000 from c.toNat_lt)]
  rfl

/-! ### The scans for lone surrogates -/

theorem java_isWellFormedUnicode (s : Str) : Java.isWellFormedUnicode s = isWellFormedUnicode s := by
  induction s using codePoints.induct with
  | case1 c d s hp ih =>
    have hc : isHighSurrogate c = true := (Bool.and_eq_true _ _ ▸ hp).1
    have hyes : Java.isSurrogatePairAt c (d :: s) = true := hp
    rw [Java.isWellFormedUnicode, if_pos hc, if_neg (not_not.mpr hyes), ih, wellFormed_pair hp]
  | case2 c d s hp ih =>
    have hno : Java.isSurrogatePairAt c (d :: s) = false := Bool.not_eq_true _ ▸ hp
    rw [Java.isWellFormedUnicode, hno, ih, wellFormed_single hno]
    cases isHighSurrogate c <;> cases isLowSurrogate c <;> rfl
  | case3 c =>
    rw [Java.isWellFormedUnicode, wellFormed_single rfl]
    cases isHighSurrogate c <;> cases isLowSurrogate c <;> rfl
  | case4 => rfl

/-- Dart's ranges are Java's. -/
theorem dart_isWellFormedUnicode (s : Str) : Dart.isWellFormedUnicode s = isWellFormedUnicode s := by
  rw [← java_isWellFormedUnicode]
  induction s using codePoints.induct with
  | case1 c d s hp ih =>
    have hc := isHighSurrogate_iff.mp (Bool.and_eq_true _ _ ▸ hp).1
    have hd := isLowSurrogate_iff.mp (Bool.and_eq_true _ _ ▸ hp).2
    have hyes : Java.isSurrogatePairAt c (d :: s) = true := hp
    rw [Dart.isWellFormedUnicode, Java.isWellFormedUnicode, if_pos hc, if_neg (by omega),
      if_pos (isHighSurrogate_iff.mpr hc), if_neg (not_not.mpr hyes), ih]
  | case2 c d s hp ih =>
    have hno : ¬ Java.isSurrogatePairAt c (d :: s) = true := hp
    rw [Dart.isWellFormedUnicode, Java.isWellFormedUnicode, ih]
    by_cases hc : isHighSurrogate c = true
    · have hd : ¬ isLowSurrogate d = true := fun hd => hp (Bool.and_eq_true _ _ ▸ ⟨hc, hd⟩)
      rw [isLowSurrogate_iff] at hd
      rw [if_pos (isHighSurrogate_iff.mp hc), if_pos (by omega), if_pos hc, if_pos hno]
    · rw [if_neg hc, if_neg (mt isHighSurrogate_iff.mpr hc)]
      simp only [isLowSurrogate_iff]
  | case3 c =>
    rw [Dart.isWellFormedUnicode, Java.isWellFormedUnicode]
    by_cases hc : isHighSurrogate c = true
    · rw [if_pos (isHighSurrogate_iff.mp hc), if_pos hc]
      rfl
    · rw [if_neg hc, if_neg (mt isHighSurrogate_iff.mpr hc), Bool.eq_iff_iff, Bool.not_eq_true',
        ← Bool.not_eq_true, isLowSurrogate_iff]
      split_ifs with h
      · simp [h]
      · simp [h]
  | case4 => rfl

/-! ### The counters -/

theorem utf8LengthFrom_eq (m : ℕ) (s : Str) :
    Java.utf8LengthFrom (Int32.ofNat m) s = Int32.ofNat (m + byteLength s) := by
  have hadd : ∀ m k : ℕ, Int32.ofNat m + Int32.ofNat k = Int32.ofNat (m + k) := fun m k =>
    (Int32.ofNat_add m k).symm
  induction s using codePoints.induct generalizing m with
  | case1 c d s hp ih =>
    have hc := isHighSurrogate_iff.mp (Bool.and_eq_true _ _ ▸ hp).1
    have hyes : Java.isSurrogatePairAt c (d :: s) = true := hp
    rw [Java.utf8LengthFrom, if_neg (by omega), if_neg (by omega), if_pos hyes, byteLength_pair hp]
    exact (congrArg (fun n => Java.utf8LengthFrom n s) (hadd m 4)).trans
      ((ih (m + 4)).trans (by rw [Nat.add_assoc]))
  | case2 c d s hp ih =>
    have hno : Java.isSurrogatePairAt c (d :: s) = false := Bool.not_eq_true _ ▸ hp
    rw [Java.utf8LengthFrom, hno, if_neg Bool.false_ne_true, byteLength_single hno, ← Nat.add_assoc]
    split_ifs
    · exact (congrArg (fun n => Java.utf8LengthFrom n (d :: s)) (hadd m 1)).trans (ih (m + 1))
    · exact (congrArg (fun n => Java.utf8LengthFrom n (d :: s)) (hadd m 2)).trans (ih (m + 2))
    · exact (congrArg (fun n => Java.utf8LengthFrom n (d :: s)) (hadd m 3)).trans (ih (m + 3))
  | case3 c =>
    rw [Java.utf8LengthFrom, byteLength_single rfl, ← Nat.add_assoc]
    split_ifs
    · exact hadd m 1
    · exact hadd m 2
    · exact hadd m 3
  | case4 => rfl

/-- **Java's counter** has the number of bytes modulo 2³². -/
theorem java_utf8Length (s : Str) :
    (Java.utf8Length s).toInt = (byteLength s : ℤ).bmod (2 ^ 32) := by
  have h := utf8LengthFrom_eq 0 s
  rw [Nat.zero_add] at h
  rw [Java.utf8Length, show (0 : Int32) = Int32.ofNat 0 from rfl, h]
  exact Int32.toInt_ofNat'

/-- **Dart's counter** has the number of bytes. -/
theorem dart_utf8ByteLength (s : Str) : Dart.utf8ByteLength s = byteLength s := by
  have h : ∀ n, Dart.utf8ByteLengthFrom n s = n + byteLength s := by
    induction s using codePoints.induct with
    | case1 c d s hp ih =>
      intro n
      have hc := isHighSurrogate_iff.mp (Bool.and_eq_true _ _ ▸ hp).1
      have hd := isLowSurrogate_iff.mp (Bool.and_eq_true _ _ ▸ hp).2
      rw [Dart.utf8ByteLengthFrom, if_neg (by omega), if_neg (by omega), if_pos (by omega), ih,
        byteLength_pair hp, Nat.add_assoc]
    | case2 c d s hp ih =>
      intro n
      have hno : Java.isSurrogatePairAt c (d :: s) = false := Bool.not_eq_true _ ▸ hp
      have hpair : ¬ (0xD800 ≤ c.toNat ∧ c.toNat ≤ 0xDBFF ∧ 0xDC00 ≤ d.toNat ∧ d.toNat ≤ 0xDFFF) := by
        rintro ⟨h₁, h₂, h₃⟩
        exact hp (Bool.and_eq_true _ _ ▸ ⟨isHighSurrogate_iff.mpr ⟨h₁, h₂⟩, isLowSurrogate_iff.mpr h₃⟩)
      rw [Dart.utf8ByteLengthFrom, if_neg hpair, ih, ih, ih, byteLength_single hno, ← Nat.add_assoc]
      split_ifs <;> rfl
    | case3 c =>
      intro n
      rw [Dart.utf8ByteLengthFrom, byteLength_single rfl, ← Nat.add_assoc]
      split_ifs <;> rfl
    | case4 => exact fun n => rfl
  rw [Dart.utf8ByteLength, h, Nat.zero_add]

/-! ### The tests on lengths -/

namespace Java

/-- `utf8Length(token) > MAX_TOKEN_LENGTH`. -/
def tokenTooLong (token : Str) : Bool := decide (Int32.ofNat maxTokenLength < utf8Length token)

/-- `utf8Length(kid) > MAX_KID_LENGTH`. -/
def kidTooLong (kid : Str) : Bool := decide (Int32.ofNat maxKidLength < utf8Length kid)

/-- `getBytes(UTF_8)`: a lone surrogate is written as a question mark. -/
def getBytes (s : Str) : List UInt8 :=
  (codePoints s).flatMap fun c => if isSurrogate c then [0x3F] else utf8Bytes c

/-- `getBytes(UTF_8).length < MIN_PEPPER_LENGTH`. -/
def pepperTooShort (secret : Str) : Bool := decide ((getBytes secret).length < minPepperLength)

end Java

namespace Dart

/-- `_utf8ByteLength(token) > maxTokenLength`. -/
def tokenTooLong (token : Str) : Bool := decide (maxTokenLength < utf8ByteLength token)

/-- `_utf8ByteLength(kid) > maxKidLength`. -/
def kidTooLong (kid : Str) : Bool := decide (maxKidLength < utf8ByteLength kid)

/-- `_utf8ByteLength(secret) < minPepperLength`. -/
def pepperTooShort (secret : Str) : Bool := decide (utf8ByteLength secret < minPepperLength)

end Dart

/-- **The scans are right about a string**: whether it is the encoding of scalar values, how many bytes
it has in UTF-8, and what the tests on these decide. A pepper is measured once it is well formed. -/
structure Exact (s : Str) : Prop where
  java_wellFormed : Java.isWellFormedUnicode s = true ↔
    ∃ l : List ℕ, (∀ c ∈ l, IsScalar c) ∧ l.flatMap codeUnits = s
  dart_wellFormed : Dart.isWellFormedUnicode s = true ↔
    ∃ l : List ℕ, (∀ c ∈ l, IsScalar c) ∧ l.flatMap codeUnits = s
  java_length : (Java.utf8Length s).toInt = byteLength s
  dart_length : Dart.utf8ByteLength s = byteLength s
  token : Java.tokenTooLong s = decide (maxTokenLength < byteLength s) ∧
    Dart.tokenTooLong s = decide (maxTokenLength < byteLength s)
  kid : Java.kidTooLong s = decide (maxKidLength < byteLength s) ∧
    Dart.kidTooLong s = decide (maxKidLength < byteLength s)
  pepper : isWellFormedUnicode s = true →
    Java.pepperTooShort s = decide (byteLength s < minPepperLength) ∧
      Dart.pepperTooShort s = decide (byteLength s < minPepperLength)

/-- A well-formed string has no surrogate to write as a question mark. -/
theorem getBytes_eq {s : Str} (h : isWellFormedUnicode s = true) : Java.getBytes s = utf8 s := by
  rw [isWellFormedUnicode, Bool.not_eq_true', List.any_eq_false] at h
  exact List.flatMap_congr fun c hc => if_neg (h c hc)

theorem bmod_eq_iff (n : ℕ) : (n : ℤ).bmod (2 ^ 32) = n ↔ n < 2 ^ 31 := by
  constructor
  · intro h
    have hlt : (n : ℤ).bmod (2 ^ 32) < ((2 ^ 32 : ℕ) + 1) / 2 := Int.bmod_lt (by decide)
    rw [h] at hlt
    omega
  · intro h
    exact Int.bmod_eq_of_le (by omega) (by omega)

/-- A bound of 32 bits, tested on Java's counter. -/
theorem lt_utf8Length {s : Str} (h : (Java.utf8Length s).toInt = byteLength s) {bound : ℕ}
    (hbound : bound < 2 ^ 31) :
    decide (Int32.ofNat bound < Java.utf8Length s) = decide (bound < byteLength s) := by
  have hof : (Int32.ofNat bound).toInt = bound := Int32.toInt_ofNat'.trans ((bmod_eq_iff bound).mpr hbound)
  rw [decide_eq_decide, Int32.lt_iff_toInt_lt, h, hof, Nat.cast_lt]

/-- **The scans are right about the strings of less than 2³¹ bytes**, and about no other: there, Java's
counter has wrapped. -/
theorem scan_exact_iff (s : Str) : Exact s ↔ byteLength s < 2 ^ 31 := by
  rw [← bmod_eq_iff, ← java_utf8Length]
  refine ⟨fun h => h.java_length, fun h => ?_⟩
  refine ⟨by rw [java_isWellFormedUnicode, isWellFormedUnicode_iff],
    by rw [dart_isWellFormedUnicode, isWellFormedUnicode_iff], h, dart_utf8ByteLength s,
    ⟨lt_utf8Length h (by decide), ?_⟩, ⟨lt_utf8Length h (by decide), ?_⟩, fun hwf => ⟨?_, ?_⟩⟩
  · rw [Dart.tokenTooLong, dart_utf8ByteLength]
  · rw [Dart.kidTooLong, dart_utf8ByteLength]
  · rw [Java.pepperTooShort, getBytes_eq hwf]
    rfl
  · rw [Dart.pepperTooShort, dart_utf8ByteLength]

theorem byteLength_replicate (n : ℕ) : byteLength (List.replicate n 0x4E2D) = 3 * n := by
  induction n with
  | zero => rfl
  | succ n ih =>
    have hno : Java.isSurrogatePairAt 0x4E2D (List.replicate n 0x4E2D) = false := by
      cases n <;> rfl
    rw [List.replicate_succ, byteLength_single hno, ih, if_neg (by decide), if_neg (by decide)]
    omega

/-- A string that Java can hold, of 715 827 883 characters of three bytes: its length is counted as
negative, and is not above the bound. -/
theorem counter_wraps :
    (Java.utf8Length (List.replicate 715827883 0x4E2D)).toInt = -2147483647 ∧
      Java.tokenTooLong (List.replicate 715827883 0x4E2D) = false ∧
      ¬ Exact (List.replicate 715827883 0x4E2D) := by
  have hlen := java_utf8Length (List.replicate 715827883 0x4E2D)
  rw [byteLength_replicate] at hlen
  have hneg : (Java.utf8Length (List.replicate 715827883 0x4E2D)).toInt = -2147483647 :=
    hlen.trans (by decide)
  refine ⟨hneg, ?_, fun h => ?_⟩
  · rw [Java.tokenTooLong, decide_eq_false_iff_not, Int32.lt_iff_toInt_lt, hneg]
    decide
  · have hexact := h.java_length
    rw [hneg, byteLength_replicate] at hexact
    omega

end NebulaToken.Ports.Utf16
