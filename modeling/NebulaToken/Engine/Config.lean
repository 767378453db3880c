import NebulaToken.Engine.Records
import NebulaToken.Lib.KeyedTable

/-! # Configuration

The constructor checks the peppers, the active pepper and the three durations, in this order, and
throws for the first check that fails. An engine is what passes: its fields carry the checks, so the
operations never meet an engine without an active pepper or with a lifetime of zero. -/

namespace NebulaToken.Engine.Config

open NebulaToken.Lib.Codec NebulaToken.Lib.KeyedTable NebulaToken.Token.Unicode
open NebulaToken.Token.Wire NebulaToken.Engine.Records

def defaultAbsoluteTtl : ℤ := 60 * 60 * 24 * 30
def defaultIdleTtl : ℤ := 60 * 60 * 24 * 7
def defaultReuseGrace : ℤ := 0

/-- A number of the host language: an integer, or one that is not (a fraction, an infinity, NaN). -/
inductive Number
  | integer (n : ℤ)
  | notInteger
  deriving DecidableEq, Repr

structure NebulaConfig where
  peppers : Table Str Str
  activeKid : Str
  absoluteTtlSeconds : Option Number
  idleTtlSeconds : Option Number
  reuseGraceSeconds : Option Number

/-! ### The messages -/

/-- One code unit in a quoted string. -/
def quoteUnit (u : UInt16) : Str :=
  if u = 0x22 then text "\\\""
  else if u = 0x5C then text "\\\\"
  else if u = 0x08 then text "\\b"
  else if u = 0x0C then text "\\f"
  else if u = 0x0A then text "\\n"
  else if u = 0x0D then text "\\r"
  else if u = 0x09 then text "\\t"
  else if u.toNat < 0x20 ∨ isSurrogate u.toNat then
    text "\\u" ++ hexEncode [UInt8.ofNat (u.toNat / 256), UInt8.ofNat (u.toNat % 256)]
  else [u]

/-- The code units between the quotes; a surrogate pair is kept, a lone surrogate is escaped. -/
def quoteUnits : Str → Str
  | h :: l :: s =>
    if isHighSurrogate h && isLowSurrogate l then h :: l :: quoteUnits s
    else quoteUnit h ++ quoteUnits (l :: s)
  | [u] => quoteUnit u
  | [] => []

/-- `JSON.stringify(s)`. -/
def jsonStringify (s : Str) : Str := text "\"" ++ quoteUnits s ++ text "\""

/-- The text of the exception. -/
def NebulaConfigError.message : NebulaConfigError → Str
  | .kidShape kid =>
    text "[NEBULA] kid " ++ jsonStringify kid ++ text " must be 1-64 characters from [A-Za-z0-9_-]"
  | .pepperUnicode kid =>
    text "[NEBULA] pepper " ++ jsonStringify kid ++
      text " must be a string with a UTF-8 encoding (no unpaired surrogate)"
  | .pepperLength kid =>
    text "[NEBULA] pepper " ++ jsonStringify kid ++ text " must be at least 32 bytes"
  | .activeKidMissing kid =>
    text "[NEBULA] activeKid " ++ jsonStringify kid ++ text " not present in peppers"
  | .absoluteTtlSeconds => text "[NEBULA] absoluteTtlSeconds must be a positive integer"
  | .idleTtlSeconds => text "[NEBULA] idleTtlSeconds must be a positive integer"
  | .reuseGraceSeconds => text "[NEBULA] reuseGraceSeconds must be a non-negative integer"
  | .deviceIdUnicode => text "[NEBULA] deviceId is not valid Unicode (unpaired surrogate)"

/-! ### The constructor -/

/-- The checks on one pepper. -/
def checkPepper (kid secret : Str) : Except NebulaConfigError Unit :=
  if kid = [] ∨ ¬ b64urlTest kid ∨ byteLength kid > maxKidLength then .error (.kidShape kid)
  else if ¬ isWellFormedUnicode secret then .error (.pepperUnicode kid)
  else if byteLength secret < minPepperLength then .error (.pepperLength kid)
  else .ok ()

/-- The checks on every pepper, in order. -/
def checkPeppers : List (Str × Str) → Except NebulaConfigError Unit
  | [] => .ok ()
  | (kid, secret) :: l =>
    match checkPepper kid secret with
    | .error err => .error err
    | .ok _ => checkPeppers l

/-- An integer that satisfies `p`, or the given exception. -/
def checkInteger (p : ℤ → Bool) (err : NebulaConfigError) : Number → Except NebulaConfigError {n // p n = true}
  | .integer n => if h : p n = true then .ok ⟨n, h⟩ else .error err
  | .notInteger => .error err

theorem checkInteger_ok (p : ℤ → Bool) (err : NebulaConfigError) {n : ℤ} (h : p n = true) :
    checkInteger p err (.integer n) = .ok ⟨n, h⟩ := dif_pos h

/-- An engine: a configuration that passed every check. -/
structure NebulaEngine where
  peppers : Table Str Str
  activeKid : Str
  absoluteTtl : ℤ
  idleTtl : ℤ
  reuseGrace : ℤ
  peppers_checked : checkPeppers peppers.entries = .ok ()
  activeKid_present : (peppers.get activeKid).isSome
  absoluteTtl_pos : decide (0 < absoluteTtl) = true
  idleTtl_pos : decide (0 < idleTtl) = true
  reuseGrace_nonneg : decide (0 ≤ reuseGrace) = true

/-- `new NebulaEngine(config)`. -/
def NebulaEngine.new (config : NebulaConfig) : Except NebulaConfigError NebulaEngine :=
  match hp : checkPeppers config.peppers.entries with
  | .error err => .error err
  | .ok _ =>
    if hk : (config.peppers.get config.activeKid).isSome then do
      let absoluteTtl ← checkInteger (fun n => decide (0 < n)) .absoluteTtlSeconds
        (config.absoluteTtlSeconds.getD (.integer defaultAbsoluteTtl))
      let idleTtl ← checkInteger (fun n => decide (0 < n)) .idleTtlSeconds
        (config.idleTtlSeconds.getD (.integer defaultIdleTtl))
      let reuseGrace ← checkInteger (fun n => decide (0 ≤ n)) .reuseGraceSeconds
        (config.reuseGraceSeconds.getD (.integer defaultReuseGrace))
      return {
        peppers := config.peppers
        activeKid := config.activeKid
        absoluteTtl := absoluteTtl.1
        idleTtl := idleTtl.1
        reuseGrace := reuseGrace.1
        peppers_checked := hp
        activeKid_present := hk
        absoluteTtl_pos := absoluteTtl.2
        idleTtl_pos := idleTtl.2
        reuseGrace_nonneg := reuseGrace.2 }
    else .error (.activeKidMissing config.activeKid)

namespace NebulaEngine

variable (e : NebulaEngine)

/-- The pepper new digests are made with. -/
def activePepper : Str := (e.peppers.get e.activeKid).get e.activeKid_present

theorem get_activeKid : e.peppers.get e.activeKid = some e.activePepper :=
  (Option.some_get e.activeKid_present).symm

theorem idleTtl_gt : 0 < e.idleTtl := of_decide_eq_true e.idleTtl_pos

theorem absoluteTtl_gt : 0 < e.absoluteTtl := of_decide_eq_true e.absoluteTtl_pos

/-- The configuration an engine passes as. -/
def config : NebulaConfig where
  peppers := e.peppers
  activeKid := e.activeKid
  absoluteTtlSeconds := some (.integer e.absoluteTtl)
  idleTtlSeconds := some (.integer e.idleTtl)
  reuseGraceSeconds := some (.integer e.reuseGrace)

/-- **The constructor accepts the configuration of an engine**, and makes that engine of it. -/
theorem new_config : NebulaEngine.new e.config = .ok e := by
  unfold NebulaEngine.new
  split
  · next err herr =>
    have hok := e.peppers_checked
    rw [show e.peppers.entries = e.config.peppers.entries from rfl, herr] at hok
    cases hok
  · next u hp =>
    rw [dif_pos (show (e.config.peppers.get e.config.activeKid).isSome from e.activeKid_present)]
    simp only [config, Option.getD_some]
    rw [checkInteger_ok (fun n => decide (0 < n)) _ e.absoluteTtl_pos,
      checkInteger_ok (fun n => decide (0 < n)) _ e.idleTtl_pos,
      checkInteger_ok (fun n => decide (0 ≤ n)) _ e.reuseGrace_nonneg]
    rfl

/-- An engine keeps the peppers and the active kid it was constructed with. -/
theorem of_new {config : NebulaConfig} {e : NebulaEngine}
    (h : NebulaEngine.new config = .ok e) :
    e.peppers = config.peppers ∧ e.activeKid = config.activeKid := by
  unfold NebulaEngine.new at h
  split at h
  · cases h
  · split_ifs at h with hk
    simp only [bind, Except.bind] at h
    split at h
    · cases h
    · split at h
      · cases h
      · split at h
        · cases h
        · cases h
          exact ⟨rfl, rfl⟩

end NebulaEngine

theorem checkPepper_of_mem {l : List (Str × Str)} (h : checkPeppers l = .ok ()) {p : Str × Str}
    (hp : p ∈ l) : checkPepper p.1 p.2 = .ok () := by
  induction l with
  | nil => cases hp
  | cons e l ih =>
    rw [checkPeppers] at h
    split at h
    · cases h
    · next hc =>
      rcases List.mem_cons.mp hp with rfl | hp
      · exact hc
      · exact ih h hp

/-- A configured kid is one a token may carry. -/
theorem NebulaEngine.kid_wellFormed (e : NebulaEngine) {kid secret : Str}
    (h : e.peppers.get kid = some secret) : b64urlTest kid = true ∧ kid.length ≤ maxKidLength := by
  have hc : checkPepper kid secret = .ok () :=
    checkPepper_of_mem e.peppers_checked (Table.mem_of_get h)
  unfold checkPepper at hc
  split at hc
  · cases hc
  · next hk =>
    rw [not_or, not_or, not_not] at hk
    refine ⟨hk.2.1, ?_⟩
    have hb := byteLength_ascii fun c hm => (isB64urlChar_ascii (b64urlTest_mem hk.2.1 hm)).1
    rw [hb] at hk
    exact Nat.le_of_not_lt hk.2.2

end NebulaToken.Engine.Config
