import NebulaToken.Lib.Program
import NebulaToken.Token.Wire

/-! # Records, results and the storage contract

The server keeps one record for each token it has minted. An engine reads and writes records through
six store calls, and answers its caller with the results below. -/

namespace NebulaToken.Engine.Records

open NebulaToken.Lib.Program NebulaToken.Token.Unicode NebulaToken.Token.Wire

inductive TokenStatus
  | active
  | rotated
  | revoked
  deriving DecidableEq, Repr

/-- One row for each minted token. -/
structure TokenRecord where
  selector : Str
  verifierHash : Str
  kid : Str
  familyId : Str
  generation : ℕ
  userId : Str
  deviceIdHash : Option Str
  createdAt : ℤ
  familyExpiresAt : ℤ
  idleExpiresAt : ℤ
  status : TokenStatus
  rotatedAt : Option ℤ
  replacedBySelector : Option Str
  deriving DecidableEq, Repr

/-- Protocol outcomes. -/
inductive NebulaErrorCode
  | malformed
  | unknownKid
  | notFound
  | verifierMismatch
  | reuseDetected
  | revoked
  | expiredAbsolute
  | expiredIdle
  | deviceMismatch
  | conflict
  deriving DecidableEq, Repr

structure IssueResult where
  token : Str
  userId : Str
  familyId : Str
  generation : ℕ
  expiresAt : ℤ
  idleExpiresAt : ℤ
  deriving DecidableEq, Repr

structure RefreshSuccess where
  token : Str
  userId : Str
  familyId : Str
  generation : ℕ
  expiresAt : ℤ
  idleExpiresAt : ℤ
  deriving DecidableEq, Repr

/-- The user and the family are told once a record is resolved. -/
structure RefreshFailure where
  error : NebulaErrorCode
  userId : Option Str
  familyId : Option Str
  deriving DecidableEq, Repr

inductive RefreshResult
  | ok (success : RefreshSuccess)
  | refused (failure : RefreshFailure)
  deriving DecidableEq, Repr

inductive RevokeResult
  | ok (userId familyId : Str) (revoked : ℕ)
  | refused (failure : RefreshFailure)
  deriving DecidableEq, Repr

/-- The six calls of the storage contract. -/
inductive StoreCall
  | findBySelector (selector : Str)
  | insert (record : TokenRecord)
  | markRotated (selector : Str) (fromStatus : TokenStatus) (rotatedAt : ℤ)
      (replacedBySelector : Str)
  | revokeIfActive (selector : Str)
  | revokeFamily (familyId : Str)
  | revokeUser (userId : Str)
  deriving DecidableEq, Repr

/-- What each call returns. -/
@[reducible] def StoreCall.Reply : StoreCall → Type
  | .findBySelector _ => Option TokenRecord
  | .insert _ => Unit
  | .markRotated _ _ _ _ => Bool
  | .revokeIfActive _ => Bool
  | .revokeFamily _ => ℕ
  | .revokeUser _ => ℕ

/-- A computation of the engine: it calls the store, and may throw. -/
abbrev StoreM (α : Type) := Prog StoreCall StoreCall.Reply NebulaConfigError α

/-- One store call. -/
abbrev store (q : StoreCall) : StoreM q.Reply := Prog.lift q

/-- A refusal before any record is resolved. -/
def RefreshFailure.unresolved (error : NebulaErrorCode) : RefreshFailure := ⟨error, none, none⟩

/-- A refusal that names the record's user and family. -/
def fail (error : NebulaErrorCode) (record : TokenRecord) : RefreshFailure :=
  ⟨error, some record.userId, some record.familyId⟩

end NebulaToken.Engine.Records
