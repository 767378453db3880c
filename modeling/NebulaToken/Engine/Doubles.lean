import NebulaToken.Engine.Operations
import NebulaToken.Lib.Doubles

/-! # The operations in double precision

The numbers of the host language are doubles. `issue` and `#mint` add a lifetime to the time of the call,
and `#handleReuse` takes the time of a rotation from it; these sums are rounded where they are past
`2 ^ 53`. The rest of the two operations is comparisons, which are exact.

* `issue_eq`, `refreshFound_eq`: where no sum is rounded, they are the operations over the integers. -/

namespace NebulaToken.Engine.Doubles

open NebulaToken.Lib.Program NebulaToken.Lib.Codec NebulaToken.Lib.KeyedTable NebulaToken.Lib.Doubles
open NebulaToken.Token.Unicode NebulaToken.Token.Wire
open NebulaToken.Engine.Records NebulaToken.Engine.Config
open NebulaToken.Engine.Operations (Draw IssueDraw MintArgs mintToken bindDevice migrateDevice replace burn
  unused deviceRefused parseConfigured proveVerifier)

variable (H : HmacSha256) (e : NebulaEngine)

/-- `#mint`: the record of a new token. -/
def mintRecord (args : MintArgs) (d : Draw) : TokenRecord :=
  { Operations.mintRecord H e args d with
    idleExpiresAt := min (add args.now e.idleTtl) args.familyExpiresAt }

/-- Issue the first token of a new family. -/
def issue (userId : Str) (deviceId : Option Str) (now : ℤ) (d : IssueDraw) : StoreM IssueResult := do
  let deviceIdHash ← Prog.ofExcept (bindDevice H e deviceId)
  let familyExpiresAt := add now e.absoluteTtl
  let record := mintRecord H e
    { userId, familyId := d.familyId, generation := 0, deviceIdHash, familyExpiresAt, now } d.toDraw
  store (.insert record)
  return {
    token := mintToken e d.toDraw
    userId
    familyId := d.familyId
    generation := 0
    expiresAt := familyExpiresAt
    idleExpiresAt := record.idleExpiresAt }

/-- The record that takes the place of `record`. -/
def successor (record : TokenRecord) (deviceIdHash : Option Str) (now : ℤ) (d : Draw) : TokenRecord :=
  mintRecord H e {
    userId := record.userId
    familyId := record.familyId
    generation := record.generation + 1
    deviceIdHash
    familyExpiresAt := record.familyExpiresAt
    now } d

/-- `#rotate`. -/
def rotate (record : TokenRecord) (deviceId : Option Str) (now : ℤ) (fromStatus : TokenStatus)
    (rotatedAt : ℤ) (d : Draw) : StoreM RefreshResult := do
  let deviceIdHash ← Prog.ofExcept (migrateDevice H e record deviceId)
  let next := successor H e record deviceIdHash now d
  store (.insert next)
  replace e record next fromStatus rotatedAt d

/-- The preconditions of a grace retry that the record itself decides. -/
def withinGrace (record : TokenRecord) (now : ℤ) : Option (ℤ × Str) :=
  match record.rotatedAt, record.replacedBySelector with
  | some rotatedAt, some replacedBy =>
    if 0 < e.reuseGrace ∧ sub now rotatedAt ≤ e.reuseGrace ∧ now < record.familyExpiresAt then
      some (rotatedAt, replacedBy)
    else none
  | _, _ => none

/-- `#handleReuse` after its lookup of the successor. -/
def displace (record : TokenRecord) (recordPepper : Str) (deviceId : Option Str) (now rotatedAt : ℤ)
    (d : Draw) (found : Option TokenRecord) : StoreM RefreshResult :=
  match unused found with
  | none => burn .reuseDetected record
  | some displaced =>
    if deviceRefused H record recordPepper deviceId then burn .deviceMismatch record
    else do
      let consumed ← store (.revokeIfActive displaced.selector)
      if consumed then rotate H e record deviceId now .rotated rotatedAt d
      else return .refused (fail .conflict record)

/-- `#handleReuse`. -/
def handleReuse (record : TokenRecord) (recordPepper : Str) (deviceId : Option Str) (now : ℤ)
    (d : Draw) : StoreM RefreshResult :=
  match withinGrace e record now with
  | none => burn .reuseDetected record
  | some (rotatedAt, replacedBy) => do
    let found ← store (.findBySelector replacedBy)
    displace H e record recordPepper deviceId now rotatedAt d found

/-- Steps 5 to 10, for a record whose verifier was proved. -/
def refreshProved (record : TokenRecord) (recordPepper : Str) (deviceId : Option Str) (now : ℤ)
    (d : Draw) : StoreM RefreshResult :=
  match record.status with
  | .rotated => handleReuse H e record recordPepper deviceId now d
  | .revoked => return .refused (fail .revoked record)
  | .active =>
    if now ≥ record.familyExpiresAt then burn .expiredAbsolute record
    else if now ≥ record.idleExpiresAt then burn .expiredIdle record
    else if deviceRefused H record recordPepper deviceId then burn .deviceMismatch record
    else rotate H e record deviceId now .active now d

/-- Steps 3 to 10, after the lookup. -/
def refreshFound (parsed : ParsedToken) (deviceId : Option Str) (now : ℤ) (d : Draw) :
    Option TokenRecord → StoreM RefreshResult
  | none => return .refused (.unresolved .notFound)
  | some record =>
    match proveVerifier H e record parsed with
    | .error failure => return .refused failure
    | .ok recordPepper => refreshProved H e record recordPepper deviceId now d

/-- Exchange a refresh token for its successor. -/
def refresh (token : Str) (deviceId : Option Str) (now : ℤ) (d : Draw) : StoreM RefreshResult :=
  match parseConfigured e token with
  | .error error => return .refused (.unresolved error)
  | .ok parsed => do
    let found ← store (.findBySelector parsed.selector)
    refreshFound H e parsed deviceId now d found

/-! ### Where no sum is rounded -/

section Exact

variable {H e} {now : ℤ}

theorem mintRecord_eq {args : MintArgs} (h : |args.now + e.idleTtl| ≤ 2 ^ 53) (d : Draw) :
    mintRecord H e args d = Operations.mintRecord H e args d := by
  rw [mintRecord, add_eq h]
  rfl

/-- **A login whose deadlines are exact.** -/
theorem issue_eq (habs : |now + e.absoluteTtl| ≤ 2 ^ 53) (hidle : |now + e.idleTtl| ≤ 2 ^ 53)
    (userId : Str) (deviceId : Option Str) (d : IssueDraw) :
    issue H e userId deviceId now d = Operations.issue H e userId deviceId now d := by
  unfold issue Operations.issue
  cases bindDevice H e deviceId with
  | error err => rfl
  | ok hash =>
    dsimp only [Prog.ofExcept_ok, Prog.ret_bind]
    rw [add_eq habs, mintRecord_eq hidle]

theorem rotate_eq (hidle : |now + e.idleTtl| ≤ 2 ^ 53) (record : TokenRecord) (deviceId : Option Str)
    (f : TokenStatus) (t : ℤ) (d : Draw) :
    rotate H e record deviceId now f t d = Operations.rotate H e record deviceId now f t d := by
  unfold rotate Operations.rotate
  cases migrateDevice H e record deviceId with
  | error err => rfl
  | ok hash =>
    have hsucc : successor H e record hash now d = Operations.successor H e record hash now d :=
      mintRecord_eq hidle d
    dsimp only [Prog.ofExcept_ok, Prog.ret_bind]
    rw [hsucc]

theorem withinGrace_eq {record : TokenRecord}
    (h : ∀ t, record.rotatedAt = some t → |now - t| ≤ 2 ^ 53) :
    withinGrace e record now = Operations.withinGrace e record now := by
  unfold withinGrace Operations.withinGrace
  cases ht : record.rotatedAt with
  | none => rfl
  | some t =>
    cases record.replacedBySelector with
    | none => rfl
    | some q =>
      dsimp only
      rw [sub_eq (h t ht)]

theorem handleReuse_eq (hidle : |now + e.idleTtl| ≤ 2 ^ 53) {record : TokenRecord}
    (h : ∀ t, record.rotatedAt = some t → |now - t| ≤ 2 ^ 53) (recordPepper : Str)
    (deviceId : Option Str) (d : Draw) : handleReuse H e record recordPepper deviceId now d =
      Operations.handleReuse H e record recordPepper deviceId now d := by
  have hdisplace : ∀ t found, displace H e record recordPepper deviceId now t d found =
      Operations.displace H e record recordPepper deviceId now t d found := by
    intro t found
    cases hu : unused found with
    | none => simp only [displace, Operations.displace, hu]
    | some s => simp only [displace, Operations.displace, hu, rotate_eq hidle]
  have hgrace := withinGrace_eq (e := e) h
  cases hg : Operations.withinGrace e record now with
  | none => simp only [handleReuse, Operations.handleReuse, hgrace, hg]
  | some w => simp only [handleReuse, Operations.handleReuse, hgrace, hg, hdisplace]

/-- **A refresh whose deadline is exact**, and of a record whose rotation is at an exact distance. -/
theorem refreshFound_eq (hidle : |now + e.idleTtl| ≤ 2 ^ 53) {found : Option TokenRecord}
    (h : ∀ record t, found = some record → record.rotatedAt = some t → |now - t| ≤ 2 ^ 53)
    (parsed : ParsedToken) (deviceId : Option Str) (d : Draw) :
    refreshFound H e parsed deviceId now d found =
      Operations.refreshFound H e parsed deviceId now d found := by
  cases found with
  | none => rfl
  | some record =>
    have hproved : ∀ recordPepper, refreshProved H e record recordPepper deviceId now d =
        Operations.refreshProved H e record recordPepper deviceId now d := by
      intro recordPepper
      have hreuse := handleReuse_eq (H := H) (e := e) hidle fun t => h record t rfl
      cases hs : record.status with
      | rotated => simp only [refreshProved, Operations.refreshProved, hs, hreuse]
      | revoked => simp only [refreshProved, Operations.refreshProved, hs]
      | active => simp only [refreshProved, Operations.refreshProved, hs, rotate_eq hidle]
    cases hv : proveVerifier H e record parsed with
    | error failure => simp only [refreshFound, Operations.refreshFound, hv]
    | ok recordPepper => simp only [refreshFound, Operations.refreshFound, hv, hproved]

end Exact

end NebulaToken.Engine.Doubles
