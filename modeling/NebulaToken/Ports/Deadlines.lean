import NebulaToken.Engine.Records

/-! # Deadlines in 64 bits

Rust, Go, Java and C# reckon with signed 64-bit seconds. Their constructors bound the lifetimes from
below only, and a deadline is clamped after it was added up. Go, Java and C# wrap; Rust panics, or
wraps where it is built without checks.

* `reckons_exactly_iff`: the deadlines are exact if neither sum leaves the range, and only then;
* `endless_overflows`: the constructors accept lifetimes with which they do. -/

namespace NebulaToken.Ports.Deadlines

open NebulaToken.Token.Unicode NebulaToken.Engine.Records

/-- The durations of a configuration, and of the engine made of it. -/
structure Durations where
  absoluteTtl : Int64
  idleTtl : Int64
  reuseGrace : Int64

/-- The deadlines a login stores and returns. -/
structure Times where
  familyExpiresAt : Int64
  idleExpiresAt : Int64
  deriving DecidableEq

/-- Steps 7 and 8 of a refresh, alike in the four ports. -/
def expiry (now : Int64) (d : Times) : Option NebulaErrorCode :=
  if d.familyExpiresAt ≤ now then some .expiredAbsolute
  else if d.idleExpiresAt ≤ now then some .expiredIdle
  else none

/-- Lifetimes that must be positive and a grace window that must not be negative; the texts are those of
the exceptions. -/
def checkDurations (absolute idle grace : Str) (c : Durations) : Except Str Durations :=
  if c.absoluteTtl ≤ 0 then .error absolute
  else if c.idleTtl ≤ 0 then .error idle
  else if c.reuseGrace < 0 then .error grace
  else .ok c

/-! ### Rust -/

namespace Rust

/-- `new`, after its checks of the peppers. -/
def new : Durations → Except Str Durations :=
  checkDurations (text "absolute_ttl_seconds must be positive") (text "idle_ttl_seconds must be positive")
    (text "reuse_grace_seconds must not be negative")

/-- `+`: a build with overflow checks panics where the sum leaves the range. -/
def add (overflowChecks : Bool) (a b : Int64) : Option Int64 :=
  if overflowChecks ∧ ¬ (-2 ^ 63 ≤ a.toInt + b.toInt ∧ a.toInt + b.toInt < 2 ^ 63) then none
  else some (a + b)

/-- `mint`: the idle deadline. -/
def mint (overflowChecks : Bool) (e : Durations) (familyExpiresAt now : Int64) : Option Int64 := do
  let idle ← add overflowChecks now e.idleTtl
  return min idle familyExpiresAt

/-- `issue`. -/
def issue (overflowChecks : Bool) (e : Durations) (now : Int64) : Option Times := do
  let familyExpiresAt ← add overflowChecks now e.absoluteTtl
  let idleExpiresAt ← mint overflowChecks e familyExpiresAt now
  return { familyExpiresAt, idleExpiresAt }

end Rust

/-! ### Go -/

namespace Go

def defaultAbsoluteTTL : Int64 := 60 * 60 * 24 * 30
def defaultIdleTTL : Int64 := 60 * 60 * 24 * 7

theorem defaultAbsoluteTTL_pos : 0 < defaultAbsoluteTTL := by decide

theorem defaultIdleTTL_pos : 0 < defaultIdleTTL := by decide

/-- `ErrInvalidConfig`. -/
def errInvalidConfig : Str := text "nebulatoken: invalid configuration"

/-- `NewEngine`, after its checks of the peppers: zero stands for the default. -/
def newEngine (cfg : Durations) : Except Str Durations :=
  if cfg.absoluteTtl < 0 ∨ cfg.idleTtl < 0 ∨ cfg.reuseGrace < 0 then
    .error (errInvalidConfig ++ text ": TTLs must be positive and reuseGraceSeconds must be non-negative")
  else
    .ok {
      absoluteTtl := if cfg.absoluteTtl = 0 then defaultAbsoluteTTL else cfg.absoluteTtl
      idleTtl := if cfg.idleTtl = 0 then defaultIdleTTL else cfg.idleTtl
      reuseGrace := cfg.reuseGrace }

/-- `mint`: the idle deadline. -/
def mint (e : Durations) (familyExpiresAt now : Int64) : Int64 :=
  let idle := now + e.idleTtl
  if familyExpiresAt < idle then familyExpiresAt else idle

/-- `Issue`. -/
def issue (e : Durations) (now : Int64) : Times :=
  let familyExpiresAt := now + e.absoluteTtl
  { familyExpiresAt, idleExpiresAt := mint e familyExpiresAt now }

end Go

/-! ### Java -/

namespace Java

/-- The constructor, after its checks of the peppers. -/
def new : Durations → Except Str Durations :=
  checkDurations (text "absoluteTtlSeconds must be positive") (text "idleTtlSeconds must be positive")
    (text "reuseGraceSeconds must be non-negative")

/-- `mint`: the idle deadline. -/
def mint (e : Durations) (familyExpiresAt now : Int64) : Int64 := min (now + e.idleTtl) familyExpiresAt

/-- `issue`. -/
def issue (e : Durations) (now : Int64) : Times :=
  let familyExpiresAt := now + e.absoluteTtl
  { familyExpiresAt, idleExpiresAt := mint e familyExpiresAt now }

end Java

/-! ### C# -/

namespace CSharp

/-- The constructor, after its checks of the peppers. -/
def new : Durations → Except Str Durations :=
  checkDurations (text "AbsoluteTtlSeconds must be positive") (text "IdleTtlSeconds must be positive")
    (text "ReuseGraceSeconds must be non-negative")

/-- `Mint`: the idle deadline. -/
def mint (e : Durations) (familyExpiresAt now : Int64) : Int64 := min (now + e.idleTtl) familyExpiresAt

/-- `IssueAsync`. -/
def issue (e : Durations) (now : Int64) : Times :=
  let familyExpiresAt := now + e.absoluteTtl
  { familyExpiresAt, idleExpiresAt := mint e familyExpiresAt now }

end CSharp

/-! ### What a constructor accepts -/

/-- The lifetimes of an engine are positive. -/
def Positive (e : Durations) : Prop := 0 < e.absoluteTtl.toInt ∧ 0 < e.idleTtl.toInt

theorem positive_of_check {absolute idle grace : Str} {c e : Durations}
    (h : checkDurations absolute idle grace c = .ok e) : Positive e := by
  unfold checkDurations at h
  split_ifs at h with h₁ h₂ h₃
  cases h
  rw [Int64.not_le, Int64.lt_iff_toInt_lt] at h₁ h₂
  exact ⟨h₁, h₂⟩

theorem toInt_pos {t : Int64} (h : 0 < t) : 0 < t.toInt := by
  rw [Int64.lt_iff_toInt_lt, Int64.toInt_zero] at h
  exact h

/-- A duration that is not negative, with a default for zero. -/
theorem pos_of_default {t d : Int64} (hd : 0 < d) (ht : ¬ t < 0) : 0 < (if t = 0 then d else t) := by
  by_cases h0 : t = 0
  · rw [if_pos h0]
    exact hd
  · rw [if_neg h0]
    exact Int64.lt_of_le_of_ne (Int64.not_lt.mp ht) (Ne.symm h0)

theorem positive_of_newEngine {cfg e : Durations} (h : Go.newEngine cfg = .ok e) : Positive e := by
  unfold Go.newEngine at h
  by_cases hneg : cfg.absoluteTtl < 0 ∨ cfg.idleTtl < 0 ∨ cfg.reuseGrace < 0
  · rw [if_pos hneg] at h
    cases h
  · rw [if_neg hneg] at h
    rw [not_or, not_or] at hneg
    obtain rfl := Except.ok.inj h
    exact ⟨toInt_pos (pos_of_default Go.defaultAbsoluteTTL_pos hneg.1),
      toInt_pos (pos_of_default Go.defaultIdleTTL_pos hneg.2.1)⟩

/-! ### Sums in range -/

/-- Neither sum leaves the range. -/
def Fits (e : Durations) (now : Int64) : Prop :=
  now.toInt + e.absoluteTtl.toInt < 2 ^ 63 ∧ now.toInt + e.idleTtl.toInt < 2 ^ 63

/-- **The deadlines are exact**, the idle one is later than now and no later than the family's, and the
token can be refreshed at once. -/
structure Exact (e : Durations) (now : Int64) (d : Times) : Prop where
  family : d.familyExpiresAt.toInt = now.toInt + e.absoluteTtl.toInt
  idle : d.idleExpiresAt.toInt =
    min (now.toInt + e.idleTtl.toInt) (now.toInt + e.absoluteTtl.toInt)
  later : now < d.idleExpiresAt
  bounded : d.idleExpiresAt ≤ d.familyExpiresAt
  refreshable : expiry now d = none

/-- **A port reckons exactly** at this time: its `issue`, and its `mint` for a family that has not
expired. Neither panics. -/
structure Reckons (e : Durations) (now : Int64) (issue : Option Times) (mint : Int64 → Option Int64) :
    Prop where
  issued : ∃ d, issue = some d ∧ Exact e now d
  minted : ∀ family, now < family → ∃ t, mint family = some t ∧
    t.toInt = min (now.toInt + e.idleTtl.toInt) family.toInt ∧ now < t ∧ t ≤ family

variable {now : Int64} {e : Durations}

/-- A sum of what is not negative is exact if it stays in the range. -/
theorem toInt_add_iff {a b : Int64} (ha : 0 ≤ a.toInt) (hb : 0 ≤ b.toInt) :
    (a + b).toInt = a.toInt + b.toInt ↔ a.toInt + b.toInt < 2 ^ 63 := by
  have hlt := (a + b).toInt_lt
  constructor
  · intro h
    omega
  · intro h
    rw [Int64.toInt_add]
    exact Int.bmod_eq_of_le (by omega) (by omega)

/-- Outside the range it is negative. -/
theorem toInt_add_neg {a b : Int64} (h : 2 ^ 63 ≤ a.toInt + b.toInt) : (a + b).toInt < 0 := by
  have ha := a.toInt_lt
  have hb := b.toInt_lt
  rw [Int64.toInt_add, Int.bmod_def]
  split_ifs <;> omega

theorem toInt_min (a b : Int64) : (min a b).toInt = min a.toInt b.toInt := by
  show (if a ≤ b then a else b).toInt = _
  by_cases h : a ≤ b
  · rw [if_pos h, min_eq_left (Int64.le_iff_toInt_le.mp h)]
  · rw [if_neg h, min_eq_right (Int64.le_iff_toInt_le.mp (Int64.le_of_lt (Int64.not_le.mp h)))]

/-- **The deadlines of Java and C#** are exact if the sums fit, and only then. -/
theorem exact_iff (hnow : 0 ≤ now) (he : Positive e) :
    Exact e now (Java.issue e now) ↔ Fits e now := by
  have hn : 0 ≤ now.toInt := Int64.le_iff_toInt_le.mp hnow
  obtain ⟨habs, hidle⟩ := he
  constructor
  · intro h
    have hfam : now.toInt + e.absoluteTtl.toInt < 2 ^ 63 :=
      (toInt_add_iff hn habs.le).mp h.family
    refine ⟨hfam, ?_⟩
    by_contra hover
    -- the sum has wrapped below now, and is what the clamp leaves
    have hneg := toInt_add_neg (Int.not_lt.mp hover)
    have hlater := Int64.lt_iff_toInt_lt.mp h.later
    have hmin : (Java.issue e now).idleExpiresAt.toInt ≤ (now + e.idleTtl).toInt := by
      show (min (now + e.idleTtl) (now + e.absoluteTtl)).toInt ≤ _
      rw [toInt_min]
      exact min_le_left _ _
    omega
  · rintro ⟨hfam, hidl⟩
    have hf : (now + e.absoluteTtl).toInt = now.toInt + e.absoluteTtl.toInt :=
      (toInt_add_iff hn habs.le).mpr hfam
    have hi : (now + e.idleTtl).toInt = now.toInt + e.idleTtl.toInt :=
      (toInt_add_iff hn hidle.le).mpr hidl
    have hm : (Java.issue e now).idleExpiresAt.toInt =
        min (now.toInt + e.idleTtl.toInt) (now.toInt + e.absoluteTtl.toInt) := by
      show (min (now + e.idleTtl) (now + e.absoluteTtl)).toInt = _
      rw [toInt_min, hf, hi]
    have hlater : now < (Java.issue e now).idleExpiresAt := by
      rw [Int64.lt_iff_toInt_lt, hm]
      exact lt_min (by omega) (by omega)
    have hbound : (Java.issue e now).idleExpiresAt ≤ (Java.issue e now).familyExpiresAt := by
      rw [Int64.le_iff_toInt_le, hm]
      exact (min_le_right _ _).trans hf.ge
    refine ⟨hf, hm, hlater, hbound, ?_⟩
    have hfnow : ¬ (Java.issue e now).familyExpiresAt ≤ now := by
      rw [Int64.not_le]
      exact Int64.lt_of_lt_of_le hlater hbound
    rw [expiry, if_neg hfnow, if_neg (Int64.not_le.mpr hlater)]

/-! ### The four ports -/

/-- Rust's sum is the wrapped one where it is computed at all. -/
theorem add_eq_some {oc : Bool} {a b c : Int64} (h : Rust.add oc a b = some c) : c = a + b := by
  unfold Rust.add at h
  split_ifs at h
  exact (Option.some.inj h).symm

theorem add_of_fits {oc : Bool} {a b : Int64} (ha : 0 ≤ a.toInt) (hb : 0 ≤ b.toInt)
    (h : a.toInt + b.toInt < 2 ^ 63) : Rust.add oc a b = some (a + b) := by
  unfold Rust.add
  exact if_neg fun hover => hover.2 ⟨by omega, h⟩

/-- What Rust's `issue` computes, if it does not panic. -/
theorem rust_issue_eq {oc : Bool} {d : Times} (h : Rust.issue oc e now = some d) :
    d = Java.issue e now := by
  obtain ⟨family, hfamily, h⟩ := Option.bind_eq_some_iff.mp h
  obtain ⟨idle, hidle, h⟩ := Option.bind_eq_some_iff.mp h
  obtain ⟨sum, hsum, hidle⟩ := Option.bind_eq_some_iff.mp hidle
  obtain rfl := add_eq_some hfamily
  obtain rfl := add_eq_some hsum
  obtain rfl := Option.some.inj hidle
  exact (Option.some.inj h).symm

theorem rust_mint_of_fits {oc : Bool} (hnow : 0 ≤ now) (he : Positive e) (h : Fits e now)
    (family : Int64) : Rust.mint oc e family now = some (Java.mint e family now) := by
  rw [Rust.mint, add_of_fits (Int64.le_iff_toInt_le.mp hnow) he.2.le h.2]
  rfl

theorem rust_issue_of_fits {oc : Bool} (hnow : 0 ≤ now) (he : Positive e) (h : Fits e now) :
    Rust.issue oc e now = some (Java.issue e now) := by
  rw [Rust.issue, add_of_fits (Int64.le_iff_toInt_le.mp hnow) he.1.le h.1, Option.bind_eq_bind,
    Option.bind_some, rust_mint_of_fits hnow he h]
  rfl

/-- The idle deadline of a successor, if the sum fits. -/
theorem mint_of_fits (hnow : 0 ≤ now) (he : Positive e) (h : Fits e now) {family : Int64}
    (hf : now < family) : (Java.mint e family now).toInt =
      min (now.toInt + e.idleTtl.toInt) family.toInt ∧
      now < Java.mint e family now ∧ Java.mint e family now ≤ family := by
  have hi : (now + e.idleTtl).toInt = now.toInt + e.idleTtl.toInt :=
    (toInt_add_iff (Int64.le_iff_toInt_le.mp hnow) he.2.le).mpr h.2
  have hpos := he.2
  have hlater := Int64.lt_iff_toInt_lt.mp hf
  have hm : (Java.mint e family now).toInt = min (now.toInt + e.idleTtl.toInt) family.toInt := by
    rw [Java.mint, toInt_min, hi]
  refine ⟨hm, ?_, ?_⟩
  · rw [Int64.lt_iff_toInt_lt, hm]
    exact lt_min (by omega) hlater
  · rw [Int64.le_iff_toInt_le, hm]
    exact min_le_right _ _

theorem go_mint_eq (e : Durations) (family now : Int64) :
    Go.mint e family now = Java.mint e family now := by
  unfold Go.mint Java.mint
  show _ = if now + e.idleTtl ≤ family then _ else _
  by_cases h : now + e.idleTtl ≤ family
  · rw [if_pos h, if_neg (Int64.not_lt.mpr h)]
  · rw [if_neg h, if_pos (Int64.not_le.mp h)]

/-- Go's clamp is the minimum. -/
theorem go_issue_eq (e : Durations) (now : Int64) : Go.issue e now = Java.issue e now := by
  rw [Go.issue, Java.issue, go_mint_eq]

/-- A port that wraps. -/
theorem reckons_iff (hnow : 0 ≤ now) (he : Positive e) :
    Reckons e now (some (Java.issue e now)) (fun family => some (Java.mint e family now)) ↔
      Fits e now := by
  constructor
  · intro h
    obtain ⟨d, hd, hexact⟩ := h.issued
    rw [← Option.some.inj hd] at hexact
    exact (exact_iff hnow he).mp hexact
  · intro h
    exact ⟨⟨_, rfl, (exact_iff hnow he).mpr h⟩, fun family hf => ⟨_, rfl, mint_of_fits hnow he h hf⟩⟩

/-- **The deadlines are exact in the four ports** if neither sum leaves the range, for every configuration
their constructors accept, and only then: Rust with overflow checks panics, and the others store deadlines
that have wrapped. -/
theorem reckons_exactly_iff (now : Int64) (hnow : 0 ≤ now) (c : Durations) :
    (∀ e, Rust.new c = .ok e → ∀ overflowChecks,
        Reckons e now (Rust.issue overflowChecks e now) (fun f => Rust.mint overflowChecks e f now) ↔
          Fits e now) ∧
      (∀ e, Go.newEngine c = .ok e →
        (Reckons e now (some (Go.issue e now)) (fun f => some (Go.mint e f now)) ↔ Fits e now)) ∧
      (∀ e, Java.new c = .ok e →
        (Reckons e now (some (Java.issue e now)) (fun f => some (Java.mint e f now)) ↔ Fits e now)) ∧
      ∀ e, CSharp.new c = .ok e →
        (Reckons e now (some (CSharp.issue e now)) (fun f => some (CSharp.mint e f now)) ↔
          Fits e now) := by
  refine ⟨fun e h oc => ?_, fun e h => ?_, fun e h => reckons_iff hnow (positive_of_check h),
    fun e h => reckons_iff hnow (positive_of_check h)⟩
  · have he := positive_of_check h
    constructor
    · intro hr
      obtain ⟨d, hd, hexact⟩ := hr.issued
      rw [rust_issue_eq hd] at hexact
      exact (exact_iff hnow he).mp hexact
    · intro hfits
      refine ⟨⟨_, rust_issue_of_fits hnow he hfits, (exact_iff hnow he).mpr hfits⟩, fun family hf => ?_⟩
      exact ⟨_, rust_mint_of_fits hnow he hfits family, mint_of_fits hnow he hfits hf⟩
  · simp only [go_issue_eq, go_mint_eq]
    exact reckons_iff hnow (positive_of_newEngine h)

/-- The defaults, at a time of this century. -/
def sampleDurations : Durations := ⟨60 * 60 * 24 * 30, 60 * 60 * 24 * 7, 0⟩

/-- With the defaults, the sums fit. -/
theorem reckons_exactly_sample : Reckons sampleDurations 1700000000
    (Rust.issue true sampleDurations 1700000000)
    (fun f => Rust.mint true sampleDurations f 1700000000) :=
  ((reckons_exactly_iff 1700000000 (by decide) sampleDurations).1 sampleDurations rfl true).mpr
    ⟨by decide, by decide⟩

/-- A lifetime of a session that never expires. -/
def endlessDurations : Durations := ⟨9223372036854775807, 9223372036854775807, 0⟩

/-- **Every constructor accepts lifetimes at the end of the range**, and no port reckons with them: Rust
panics, and the others store deadlines of the distant past. -/
theorem endless_overflows :
    Rust.new endlessDurations = .ok endlessDurations ∧
      Go.newEngine endlessDurations = .ok endlessDurations ∧
      Java.new endlessDurations = .ok endlessDurations ∧
      CSharp.new endlessDurations = .ok endlessDurations ∧
      Rust.issue true endlessDurations 1700000000 = none ∧
      (∀ d, Rust.issue false endlessDurations 1700000000 = some d →
        ¬ Exact endlessDurations 1700000000 d) ∧
      ¬ Exact endlessDurations 1700000000 (Go.issue endlessDurations 1700000000) ∧
      ¬ Exact endlessDurations 1700000000 (Java.issue endlessDurations 1700000000) ∧
      ¬ Exact endlessDurations 1700000000 (CSharp.issue endlessDurations 1700000000) := by
  have hpast : ¬ (1700000000 : Int64) < (Java.issue endlessDurations 1700000000).idleExpiresAt := by
    decide
  refine ⟨rfl, rfl, rfl, rfl, by decide, fun d hd h => ?_, fun h => ?_, fun h => hpast h.later,
    fun h => hpast h.later⟩
  · rw [rust_issue_eq hd] at h
    exact hpast h.later
  · rw [go_issue_eq] at h
    exact hpast h.later

end NebulaToken.Ports.Deadlines
