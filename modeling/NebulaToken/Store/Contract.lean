import NebulaToken.Engine.Records
import NebulaToken.Lib.Pool

/-! # What a store does to its rows

The storage contract over any service: which row each call reads, which it writes and when. A bulk
revocation is only said to revoke rows it covers, perhaps some at a time and before it returns, so that
stores that are not atomic satisfy the contract too.

`Evolves r r'` is what every write keeps of a row: its identity and deadlines, a status that moves from
active to rotated to revoked, and the time of its first rotation. -/

namespace NebulaToken.Store.Contract

open NebulaToken.Lib.Pool NebulaToken.Token.Unicode NebulaToken.Engine.Records

/-- The row after a rotation. -/
def rotatedTo (r : TokenRecord) (rotatedAt : ℤ) (replacedBySelector : Str) : TokenRecord :=
  { r with
    status := .rotated
    rotatedAt := some rotatedAt
    replacedBySelector := some replacedBySelector }

/-- The row after a revocation. -/
def asRevoked (r : TokenRecord) : TokenRecord := { r with status := .revoked }

/-- The rows a bulk revocation covers. -/
def Covers : StoreCall → TokenRecord → Prop
  | .revokeFamily familyId, r => r.familyId = familyId
  | .revokeUser userId, r => r.userId = userId
  | _, _ => False

/-- A bulk revocation covers rows by their family or their user. -/
theorem Covers.congr {q : StoreCall} {a b : TokenRecord} (hf : b.familyId = a.familyId)
    (hu : b.userId = a.userId) (h : Covers q a) : Covers q b := by
  cases q with
  | revokeFamily familyId => exact hf.trans h
  | revokeUser userId => exact hu.trans h
  | findBySelector | insert | markRotated | revokeIfActive => exact h

/-- The rows of one lookup, and of another after some rows that satisfy `p` were revoked. -/
def RevokesSome (p : TokenRecord → Prop) (look look' : Str → Option TokenRecord) : Prop :=
  ∀ sel, look' sel = look sel ∨ ∃ r, look sel = some r ∧ p r ∧ look' sel = some (asRevoked r)

theorem RevokesSome.refl {p : TokenRecord → Prop} (look : Str → Option TokenRecord) :
    RevokesSome p look look := fun _ => Or.inl rfl

/-- **The storage contract.** -/
structure StoreContract {σ Env : Type} (svc : Service StoreCall StoreCall.Reply σ Env) where
  look : σ → Str → Option TokenRecord
  start : ∀ sel, look svc.start sel = none
  find : ∀ {i sel s r s'}, svc.answer i (.findBySelector sel) s = some (r, s') →
    r = look s sel ∧ look s' = look s
  insert : ∀ {i n s u s'}, svc.answer i (.insert n) s = some (u, s') →
    look s n.selector = none ∧ look s' = Function.update (look s) n.selector (some n)
  mark : ∀ {i sel fromStatus at_ by_ s s'},
    svc.answer i (.markRotated sel fromStatus at_ by_) s = some (true, s') →
      ∃ r, look s sel = some r ∧ r.status = fromStatus ∧
        look s' = Function.update (look s) sel (some (rotatedTo r at_ by_))
  mark_lost : ∀ {i sel fromStatus at_ by_ s s'},
    svc.answer i (.markRotated sel fromStatus at_ by_) s = some (false, s') →
      look s' = look s ∧ ∀ r, look s sel = some r → r.status ≠ fromStatus
  clear : ∀ {i sel s s'}, svc.answer i (.revokeIfActive sel) s = some (true, s') →
    ∃ r, look s sel = some r ∧ r.status = .active ∧
      look s' = Function.update (look s) sel (some (asRevoked r))
  clear_lost : ∀ {i sel s s'}, svc.answer i (.revokeIfActive sel) s = some (false, s') →
    look s' = look s ∧ ∀ r, look s sel = some r → r.status ≠ .active
  revokeFamily : ∀ {i familyId s n s'}, svc.answer i (.revokeFamily familyId) s = some (n, s') →
    RevokesSome (Covers (.revokeFamily familyId)) (look s) (look s')
  revokeUser : ∀ {i userId s n s'}, svc.answer i (.revokeUser userId) s = some (n, s') →
    RevokesSome (Covers (.revokeUser userId)) (look s) (look s')
  work : ∀ {i q s s'}, svc.work i q s s' → RevokesSome (Covers q) (look s) (look s')
  env : ∀ a s, ∃ now : ℤ, ∀ sel, look (svc.env a s) sel =
    (look s sel).filter fun r => decide (now < r.familyExpiresAt)

/-- A store whose bulk revocations happen in one step, to every row they cover. -/
structure AtomicContract {σ Env : Type} (svc : Service StoreCall StoreCall.Reply σ Env) extends
    StoreContract svc where
  revokeFamily_all : ∀ {i familyId s n s'}, svc.answer i (.revokeFamily familyId) s = some (n, s') →
    ∀ sel r, look s' sel = some r → r.familyId = familyId → r.status = .revoked
  revokeUser_all : ∀ {i userId s n s'}, svc.answer i (.revokeUser userId) s = some (n, s') →
    ∀ sel r, look s' sel = some r → r.userId = userId → r.status = .revoked
  work_still : ∀ {i q s s'}, svc.work i q s s' → look s' = look s

/-- An atomic bulk revocation leaves no row it covers that is not revoked. -/
theorem AtomicContract.bulk {σ Env : Type} {svc : Service StoreCall StoreCall.Reply σ Env}
    (A : AtomicContract svc) {i : ℕ} {q : StoreCall} {s s' : σ} {rep : q.Reply}
    (h : svc.answer i q s = some (rep, s')) {sel : Str} {r : TokenRecord}
    (hr : A.look s' sel = some r) (hc : Covers q r) : r.status = .revoked := by
  cases q with
  | revokeFamily familyId => exact A.revokeFamily_all h sel r hr hc
  | revokeUser userId => exact A.revokeUser_all h sel r hr hc
  | findBySelector | insert | markRotated | revokeIfActive => exact hc.elim

/-! ### How a row evolves -/

/-- A row whose rotation fields agree with its status. -/
structure RowOk (r : TokenRecord) : Prop where
  active : r.status = .active → r.replacedBySelector = none
  rotated : r.status = .rotated → r.replacedBySelector ≠ none
  together : r.rotatedAt = none ↔ r.replacedBySelector = none

theorem RowOk.of_mint {r : TokenRecord} (hs : r.status = .active) (ht : r.rotatedAt = none)
    (hq : r.replacedBySelector = none) : RowOk r where
  active _ := hq
  rotated h := by
    rw [hs] at h
    cases h
  together := by
    rw [ht, hq]
    simp

theorem RowOk.rotatedTo (r : TokenRecord) (t : ℤ) (sel : Str) : RowOk (rotatedTo r t sel) where
  active h := by cases h
  rotated _ h := by cases h
  together := by
    constructor
    · intro h
      cases h
    · intro h
      cases h

theorem RowOk.asRevoked {r : TokenRecord} (h : RowOk r) : RowOk (asRevoked r) where
  active h := by cases h
  rotated h := by cases h
  together := h.together

/-- The row as it was minted. -/
def minted (r : TokenRecord) : TokenRecord :=
  { r with status := .active, rotatedAt := none, replacedBySelector := none }

/-- `r'` is a later state of the row `r`. -/
structure Evolves (r r' : TokenRecord) : Prop where
  minted : minted r' = minted r
  revoked : r.status = .revoked → r' = r
  active : r'.status = .active → r' = r
  rotatedAt : ∀ t, r.rotatedAt = some t → r'.rotatedAt = some t
  replaced : r.replacedBySelector ≠ none → r'.replacedBySelector ≠ none
  ok : RowOk r → RowOk r'

namespace Evolves

variable {a b c : TokenRecord}

theorem refl (a : TokenRecord) : Evolves a a :=
  ⟨rfl, fun _ => rfl, fun _ => rfl, fun _ h => h, fun h => h, fun h => h⟩

theorem trans (h : Evolves a b) (h' : Evolves b c) : Evolves a c where
  minted := h'.minted.trans h.minted
  revoked hr := by
    have hb := h.revoked hr
    rw [h'.revoked (hb ▸ hr), hb]
  active hr := by
    have hc := h'.active hr
    rw [hc, h.active (hc ▸ hr)]
  rotatedAt t ht := h'.rotatedAt t (h.rotatedAt t ht)
  replaced hr := h'.replaced (h.replaced hr)
  ok hr := h'.ok (h.ok hr)

theorem selector (h : Evolves a b) : b.selector = a.selector := (congrArg TokenRecord.selector h.minted :)
theorem familyId (h : Evolves a b) : b.familyId = a.familyId := (congrArg TokenRecord.familyId h.minted :)
theorem userId (h : Evolves a b) : b.userId = a.userId := (congrArg TokenRecord.userId h.minted :)
theorem generation (h : Evolves a b) : b.generation = a.generation :=
  (congrArg TokenRecord.generation h.minted :)
theorem createdAt (h : Evolves a b) : b.createdAt = a.createdAt := (congrArg TokenRecord.createdAt h.minted :)
theorem familyExpiresAt (h : Evolves a b) : b.familyExpiresAt = a.familyExpiresAt :=
  (congrArg TokenRecord.familyExpiresAt h.minted :)
theorem idleExpiresAt (h : Evolves a b) : b.idleExpiresAt = a.idleExpiresAt :=
  (congrArg TokenRecord.idleExpiresAt h.minted :)
theorem kid (h : Evolves a b) : b.kid = a.kid := (congrArg TokenRecord.kid h.minted :)
theorem verifierHash (h : Evolves a b) : b.verifierHash = a.verifierHash :=
  (congrArg TokenRecord.verifierHash h.minted :)
theorem deviceIdHash (h : Evolves a b) : b.deviceIdHash = a.deviceIdHash :=
  (congrArg TokenRecord.deviceIdHash h.minted :)

/-- A row that has left the active status does not come back to it. -/
theorem not_active (h : Evolves a b) (ha : a.status ≠ .active) : b.status ≠ .active := fun hb =>
  ha (h.active hb ▸ hb)

/-- A row revoked is revoked for good. -/
theorem status_revoked (h : Evolves a b) (ha : a.status = .revoked) : b.status = .revoked := by
  rw [h.revoked ha, ha]

theorem rotatedTo {t : ℤ} (hs : a.status ≠ .revoked) (ht : ∀ t', a.rotatedAt = some t' → t' = t)
    (sel : Str) : Evolves a (rotatedTo a t sel) where
  minted := rfl
  revoked h := absurd h hs
  active h := by cases h
  rotatedAt t' h := by
    rw [ht t' h]
    rfl
  replaced _ h := by cases h
  ok _ := .rotatedTo a t sel

theorem asRevoked (a : TokenRecord) : Evolves a (asRevoked a) where
  minted := rfl
  revoked h := by
    rw [Contract.asRevoked, ← h]
  active h := by cases h
  rotatedAt _ h := h
  replaced h := h
  ok h := h.asRevoked

end Evolves

end NebulaToken.Store.Contract
