import NebulaToken.Ports.Bytes
import NebulaToken.Runs.Sequential

/-! # The table of checks

A refresh is to perform ten checks in order and to return the first failure. This is the table as it is
specified, on the rows of a store: its checks, what a failure does, and the two ways to rotate.

* `outcome`: the result of the first failing row, or of the rotation;
* `run_refresh_eq_outcome`: the engine, run alone, implements the table. -/

namespace NebulaToken.Ports.Table

open NebulaToken.Lib.Program NebulaToken.Lib.Codec NebulaToken.Lib.KeyedTable
open NebulaToken.Token.Unicode NebulaToken.Token.Utf8 NebulaToken.Token.Wire
open NebulaToken.Engine.Records NebulaToken.Engine.Config NebulaToken.Engine.Operations
open NebulaToken.Ports.Bytes NebulaToken.Store.Memory
open NebulaToken.Store.Memory.MemoryRefreshTokenStore

/-- What a row does to the store, and what it returns; no result where the store raises. -/
abbrev Effect := Rows → Option (Except NebulaConfigError RefreshResult) × Rows

/-- A row of the table. -/
structure Check where
  fails : Bool
  effect : Effect

/-- **The first failing row decides.** -/
def firstFailing : List Check → Effect → Effect
  | [], rotation => rotation
  | check :: checks, rotation => if check.fails then check.effect else firstFailing checks rotation

/-! ### The effects -/

/-- A refusal that changes nothing. -/
def refuse (failure : RefreshFailure) : Effect := fun rows => (some (.ok (.refused failure)), rows)

/-- A refusal that revokes the family. -/
def revoke (code : NebulaErrorCode) (r : TokenRecord) : Effect := fun rows =>
  (some (.ok (.refused (fail code r))), (revokeFamily rows r.familyId).2)

section Rotation

variable (H : HmacSha256) (e : NebulaEngine) (deviceId : Option Str) (now : ℤ) (d : Draw)

/-- The successor of a record. -/
def next (r : TokenRecord) : TokenRecord where
  selector := base64urlEncode d.selector
  verifierHash := hexEncode (H.run (utf8 e.activePepper) d.verifier)
  kid := e.activeKid
  familyId := r.familyId
  generation := r.generation + 1
  userId := r.userId
  deviceIdHash := carriedHash H e r (deviceId.map utf8)
  createdAt := now
  familyExpiresAt := r.familyExpiresAt
  idleExpiresAt := min (now + e.idleTtl) r.familyExpiresAt
  status := .active
  rotatedAt := none
  replacedBySelector := none

/-- What a rotation returns. -/
def success (r : TokenRecord) : RefreshResult :=
  let n := next H e deviceId now d r
  .ok {
    token := tokenString e.activeKid n.selector d.verifier
    userId := r.userId
    familyId := r.familyId
    generation := n.generation
    expiresAt := n.familyExpiresAt
    idleExpiresAt := n.idleExpiresAt }

/-- The rotation of a record from a status. -/
def rotation (r : TokenRecord) (fromStatus : TokenStatus) (rotatedAt : ℤ) : Effect := fun rows =>
  let n := next H e deviceId now d r
  match insert rows n with
  | none => (none, rows)
  | some rows' =>
    match markRotated rows' r.selector fromStatus rotatedAt n.selector with
    | (true, rows'') => (some (.ok (success H e deviceId now d r)), rows'')
    | (false, rows'') =>
      (some (.ok (.refused (fail .conflict r))), (revokeIfActive rows'' n.selector).2)

/-- Whether the sender binding fails, under the pepper of the record. -/
def bindingFails (pepper : Str) (r : TokenRecord) : Bool :=
  match r.deviceIdHash, deviceId with
  | none, _ => false
  | some _, none => true
  | some stored, some dev => !constantTimeEqualHex (deviceHash H pepper (utf8 dev)) stored

/-- The successor that a grace retry displaces, if its six preconditions hold: the window is set, the
record was rotated, not too long ago, its successor is named, exists unused, and the family lives. -/
def displaced (rows : Rows) (r : TokenRecord) : Option (ℤ × TokenRecord) := do
  let rotatedAt ← r.rotatedAt
  let replacedBy ← r.replacedBySelector
  let s ← rows.get replacedBy
  if 0 < e.reuseGrace ∧ now - rotatedAt ≤ e.reuseGrace ∧ s.status = .active ∧ now < r.familyExpiresAt then
    some (rotatedAt, s)
  else none

/-- Reuse handling. -/
def reuse (pepper : Str) (r : TokenRecord) : Effect := fun rows =>
  match displaced e now rows r with
  | none => revoke .reuseDetected r rows
  | some (rotatedAt, s) =>
    if bindingFails H deviceId pepper r then revoke .deviceMismatch r rows
    else
      match revokeIfActive rows s.selector with
      | (true, rows') => rotation H e deviceId now d r .rotated rotatedAt rows'
      | (false, rows') => (some (.ok (.refused (fail .conflict r))), rows')

end Rotation

/-! ### The table -/

section Table

variable (H : HmacSha256) (e : NebulaEngine) (rows : Rows) (token : Str) (deviceId : Option Str) (now : ℤ)
  (d : Draw)

/-- The record that the token names. -/
def record : Option TokenRecord := (parseToken token).bind fun parsed => rows.get parsed.selector

/-- The pepper of the record. -/
def pepper : Option Str := (record rows token).bind fun r => e.peppers.get r.kid

/-- A check on the record and its pepper, for the rows past the lookups. -/
def onRecord (fails : Str → TokenRecord → Bool) (effect : Str → TokenRecord → Effect) : Check :=
  match record rows token, pepper e rows token with
  | some r, some p => ⟨fails p r, effect p r⟩
  | _, _ => ⟨false, refuse (.unresolved .notFound)⟩

/-- Whether the token proves the verifier of the record. -/
def proved (p : Str) (r : TokenRecord) : Bool :=
  (parseToken token).any fun parsed =>
    constantTimeEqualHex (hexEncode (H.run (utf8 p) parsed.verifier)) r.verifierHash

/-- **The ten checks**, the fourth in its two parts. -/
def checks : List Check := [
  ⟨(parseToken token).isNone, refuse (.unresolved .malformed)⟩,
  ⟨!(parseToken token).any fun parsed => (e.peppers.get parsed.kid).isSome,
    refuse (.unresolved .unknownKid)⟩,
  ⟨(record rows token).isNone, refuse (.unresolved .notFound)⟩,
  ⟨(pepper e rows token).isNone, refuse (.unresolved .unknownKid)⟩,
  onRecord e rows token (fun p r => !proved H token p r) fun _ r => refuse (fail .verifierMismatch r),
  onRecord e rows token (fun _ r => r.status == .rotated) fun p r => reuse H e deviceId now d p r,
  onRecord e rows token (fun _ r => r.status == .revoked) fun _ r => refuse (fail .revoked r),
  onRecord e rows token (fun _ r => !decide (now < r.familyExpiresAt)) fun _ r => revoke .expiredAbsolute r,
  onRecord e rows token (fun _ r => !decide (now < r.idleExpiresAt)) fun _ r => revoke .expiredIdle r,
  onRecord e rows token (fun p r => bindingFails H deviceId p r) fun _ r => revoke .deviceMismatch r]

/-- **What a refresh is to return and to leave behind.** -/
def outcome : Option (Except NebulaConfigError RefreshResult) × Rows :=
  firstFailing (checks H e rows token deviceId now d)
    (match record rows token with
      | some r => rotation H e deviceId now d r .active now
      | none => refuse (.unresolved .notFound)) rows

end Table

/-! ### The engine implements the table -/

section Engine

variable {H : HmacSha256} {e : NebulaEngine} {deviceId : Option Str} {now : ℤ} {d : Draw}

theorem deviceRefused_eq (hd : Unicode deviceId) (r : TokenRecord) (pepper : Str) :
    deviceRefused H r pepper deviceId = bindingFails H deviceId pepper r := by
  unfold deviceRefused bindingFails
  rw [deviceMatches_bytes hd]
  cases r.deviceIdHash with
  | none => rfl
  | some stored =>
    cases deviceId with
    | none => rfl
    | some dev =>
      dsimp only [Option.map_some]
      rw [equalHex_utf8]
      rfl

theorem run_rotate_eq (hd : Unicode deviceId) (r : TokenRecord) (f : TokenStatus) (t : ℤ) (rows : Rows) :
    run (rotate H e r deviceId now f t d) rows = rotation H e deviceId now d r f t rows := by
  have hnext : successor H e r (carriedHash H e r (deviceId.map utf8)) now d =
    next H e deviceId now d r := rfl
  unfold rotate
  rw [migrateDevice_bytes hd]
  dsimp only [Prog.ofExcept_ok, Prog.ret_bind, Prog.lift_bind]
  rw [hnext]
  unfold rotation
  dsimp only
  cases hins : insert rows (next H e deviceId now d r) with
  | none => exact Prog.eval_call_none _ (answer_insert_none hins)
  | some rows' =>
    rw [run_call () rows' (answer_insert hins)]
    unfold replace
    dsimp only
    cases hmark : markRotated rows' r.selector f t (next H e deviceId now d r).selector with
    | mk applied rows'' =>
      have hcall : answer rows' (.markRotated r.selector f t (next H e deviceId now d r).selector) =
          some (applied, rows'') := congrArg some hmark
      dsimp only [Prog.lift_bind]
      rw [run_call applied rows'' hcall]
      cases applied with
      | true => rfl
      | false => rfl

/-- The six preconditions, with the lookup where the engine makes it. -/
theorem displaced_eq (r : TokenRecord) (rows : Rows) : displaced e now rows r =
    match withinGrace e r now with
    | none => none
    | some (t, q) => (unused (rows.get q)).map fun s => (t, s) := by
  unfold displaced withinGrace
  cases r.rotatedAt with
  | none => rfl
  | some t =>
    cases r.replacedBySelector with
    | none => rfl
    | some q =>
      dsimp only [Option.bind_eq_bind, Option.bind_some]
      by_cases hg : 0 < e.reuseGrace ∧ now - t ≤ e.reuseGrace ∧ now < r.familyExpiresAt
      · rw [if_pos hg]
        dsimp only
        cases rows.get q with
        | none => rfl
        | some s =>
          rw [Option.bind_some, unused]
          by_cases hs : s.status = .active
          · rw [if_pos hs, if_pos ⟨hg.1, hg.2.1, hs, hg.2.2⟩]
            rfl
          · rw [if_neg hs, if_neg fun h => hs h.2.2.1]
            rfl
      · rw [if_neg hg]
        cases rows.get q with
        | none => rfl
        | some s => exact if_neg fun h => hg ⟨h.1, h.2.1, h.2.2.2⟩

theorem run_handleReuse_eq (hd : Unicode deviceId) (r : TokenRecord) (pepper : Str) (rows : Rows) :
    run (handleReuse H e r pepper deviceId now d) rows = reuse H e deviceId now d pepper r rows := by
  unfold handleReuse reuse
  rw [displaced_eq]
  cases withinGrace e r now with
  | none => rfl
  | some x =>
    obtain ⟨t, q⟩ := x
    dsimp only
    rw [run_find]
    unfold displace
    cases unused (rows.get q) with
    | none => rfl
    | some s =>
      dsimp only [Option.map_some]
      rw [deviceRefused_eq hd]
      split_ifs with hb
      · rfl
      · cases hrevoke : revokeIfActive rows s.selector with
        | mk consumed rows' =>
          have hcall : answer rows (.revokeIfActive s.selector) = some (consumed, rows') :=
            congrArg some hrevoke
          dsimp only [Prog.lift_bind]
          rw [run_call consumed rows' hcall]
          cases consumed with
          | true => exact run_rotate_eq hd r .rotated t rows'
          | false => rfl

section Rows

variable {rows : Rows} {token : Str} {parsed : ParsedToken} {r : TokenRecord} {p : Str}

theorem firstFailing_pos {c : Check} (h : c.fails = true) (l : List Check) (x : Effect) :
    firstFailing (c :: l) x = c.effect := if_pos h

theorem firstFailing_neg {c : Check} (h : c.fails = false) (l : List Check) (x : Effect) :
    firstFailing (c :: l) x = firstFailing l x := if_neg (by rw [h]; decide)

theorem onRecord_eq (hr : record rows token = some r) (hp : pepper e rows token = some p)
    (fails : Str → TokenRecord → Bool) (effect : Str → TokenRecord → Effect) :
    onRecord e rows token fails effect = ⟨fails p r, effect p r⟩ := by
  rw [onRecord, hr, hp]

/-- Steps 5 to 10. -/
theorem run_refreshProved_eq (hd : Unicode deviceId) (r : TokenRecord) (p : Str) (rows : Rows) :
    run (refreshProved H e r p deviceId now d) rows = firstFailing [
      ⟨r.status == .rotated, reuse H e deviceId now d p r⟩,
      ⟨r.status == .revoked, refuse (fail .revoked r)⟩,
      ⟨!decide (now < r.familyExpiresAt), revoke .expiredAbsolute r⟩,
      ⟨!decide (now < r.idleExpiresAt), revoke .expiredIdle r⟩,
      ⟨bindingFails H deviceId p r, revoke .deviceMismatch r⟩]
      (rotation H e deviceId now d r .active now) rows := by
  unfold refreshProved
  cases r.status with
  | rotated => exact run_handleReuse_eq hd r p rows
  | revoked => rfl
  | active =>
    rw [firstFailing_neg rfl, firstFailing_neg rfl]
    dsimp only
    by_cases habs : now < r.familyExpiresAt
    · rw [if_neg (not_le.mpr habs), firstFailing_neg (by simp [habs])]
      by_cases hidle : now < r.idleExpiresAt
      · rw [if_neg (not_le.mpr hidle), firstFailing_neg (by simp [hidle]), deviceRefused_eq hd]
        cases hb : bindingFails H deviceId p r with
        | true => rfl
        | false => exact run_rotate_eq hd r .active now rows
      · rw [if_pos (not_lt.mp hidle), firstFailing_pos (by simp [hidle])]
        rfl
    · rw [if_pos (not_lt.mp habs), firstFailing_pos (by simp [habs])]
      rfl

/-- **The engine implements the table.** -/
theorem run_refresh_eq_outcome (hd : Unicode deviceId) (token : Str) (rows : Rows) :
    run (refresh H e token deviceId now d) rows = outcome H e rows token deviceId now d := by
  unfold refresh parseConfigured outcome checks
  cases hparse : parseToken token with
  | none => rfl
  | some parsed =>
    dsimp only
    rw [firstFailing_neg rfl, Option.any_some]
    have hrec : record rows token = rows.get parsed.selector := by
      rw [record, hparse, Option.bind_some]
    by_cases hkid : (e.peppers.get parsed.kid).isSome
    · rw [if_pos hkid, firstFailing_neg (by simp [hkid])]
      dsimp only
      rw [run_find, hrec]
      cases hr : rows.get parsed.selector with
      | none => rfl
      | some r =>
        rw [hr] at hrec
        have hpep : pepper e rows token = e.peppers.get r.kid := by
          rw [pepper, hrec, Option.bind_some]
        rw [firstFailing_neg rfl, hpep]
        unfold refreshFound proveVerifier
        dsimp only
        cases hp : e.peppers.get r.kid with
        | none => rfl
        | some p =>
          rw [hp] at hpep
          rw [firstFailing_neg rfl, onRecord_eq hrec hpep]
          have hproved : proved H token p r = constantTimeEqualHex
              (hashVerifier H p parsed.verifier) r.verifierHash := by
            rw [proved, hparse]
            rfl
          rw [hproved]
          dsimp only
          by_cases hv : constantTimeEqualHex (hashVerifier H p parsed.verifier) r.verifierHash = true
          · rw [if_pos hv, firstFailing_neg (by simp [hv]), onRecord_eq hrec hpep,
              onRecord_eq hrec hpep, onRecord_eq hrec hpep, onRecord_eq hrec hpep, onRecord_eq hrec hpep]
            exact run_refreshProved_eq hd r p rows
          · rw [if_neg hv, firstFailing_pos (by simp [hv])]
            rfl
    · rw [if_neg hkid, firstFailing_pos (by simp [hkid])]
      rfl

end Rows

end Engine

end NebulaToken.Ports.Table
