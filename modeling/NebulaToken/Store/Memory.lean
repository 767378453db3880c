import NebulaToken.Lib.KeyedTable
import NebulaToken.Store.Contract

/-! # The in-memory reference store

Rows under their selectors; every call is one step. `memoryContract` says that it is an atomic store
in the sense of the contract. Its environment may collect expired rows. -/

namespace NebulaToken.Store.Memory

open NebulaToken.Lib.Program NebulaToken.Lib.KeyedTable NebulaToken.Lib.Pool NebulaToken.Token.Unicode
open NebulaToken.Token.Wire NebulaToken.Engine.Records NebulaToken.Store.Contract

abbrev Rows := Table Str TokenRecord

namespace MemoryRefreshTokenStore

/-- A selector that is there already is an exception: the call is not answered. -/
def insert (rows : Rows) (record : TokenRecord) : Option Rows :=
  if (rows.get record.selector).isSome then none else some (rows.set record.selector record)

def markRotated (rows : Rows) (selector : Str) (fromStatus : TokenStatus) (rotatedAt : ℤ)
    (replacedBySelector : Str) : Bool × Rows :=
  match rows.get selector with
  | some r =>
    if r.status ≠ fromStatus then (false, rows)
    else (true, rows.modify selector fun r => rotatedTo r rotatedAt replacedBySelector)
  | none => (false, rows)

def revokeIfActive (rows : Rows) (selector : Str) : Bool × Rows :=
  match rows.get selector with
  | some r => if r.status ≠ .active then (false, rows) else (true, rows.modify selector asRevoked)
  | none => (false, rows)

/-- The loop of the bulk revocations: the rows that satisfy `p` and are not revoked yet. -/
def revokeWhere (rows : Rows) (p : TokenRecord → Bool) : ℕ × Rows :=
  (rows.count fun _ r => p r && r.status != .revoked,
    rows.mapRows fun _ r => if p r && r.status != .revoked then asRevoked r else r)

def revokeFamily (rows : Rows) (familyId : Str) : ℕ × Rows :=
  revokeWhere rows fun r => r.familyId == familyId

def revokeUser (rows : Rows) (userId : Str) : ℕ × Rows := revokeWhere rows fun r => r.userId == userId

/-- Drop the rows whose family deadline has passed. -/
def deleteExpired (rows : Rows) (now : ℤ) : Rows :=
  rows.filter fun _ r => !decide (now ≥ r.familyExpiresAt)

/-- The answer to a store call, and the rows after it. -/
def answer (rows : Rows) : (q : StoreCall) → Option (q.Reply × Rows)
  | .findBySelector selector => some (rows.get selector, rows)
  | .insert record => (insert rows record).map fun rows' => ((), rows')
  | .markRotated selector fromStatus rotatedAt replacedBySelector =>
    some (markRotated rows selector fromStatus rotatedAt replacedBySelector)
  | .revokeIfActive selector => some (revokeIfActive rows selector)
  | .revokeFamily familyId => some (revokeFamily rows familyId)
  | .revokeUser userId => some (revokeUser rows userId)

theorem answer_insert {rows rows' : Rows} {record : TokenRecord} (h : insert rows record = some rows') :
    answer rows (.insert record) = some ((), rows') := by
  rw [answer, h]
  rfl

theorem answer_insert_none {rows : Rows} {record : TokenRecord} (h : insert rows record = none) :
    answer rows (.insert record) = none := by
  rw [answer, h]
  rfl

/-- A program run alone against the store. -/
def run {α : Type} (p : StoreM α) (rows : Rows) : Option (Except NebulaConfigError α) × Rows :=
  p.eval (fun q rows => answer rows q) rows

/-- A request answered in a run. -/
theorem run_call {α : Type} {q : StoreCall} {k : q.Reply → StoreM α} {rows : Rows} (rep : q.Reply)
    (rows' : Rows) (h : answer rows q = some (rep, rows')) : run (.call q k) rows = run (k rep) rows' :=
  Prog.eval_call k h

/-- A lookup in a run. -/
theorem run_find {α : Type} (k : Option TokenRecord → StoreM α) (sel : Str) (rows : Rows) :
    run (store (.findBySelector sel) >>= k) rows = run (k (rows.get sel)) rows :=
  Prog.eval_call _ rfl

end MemoryRefreshTokenStore

open MemoryRefreshTokenStore

/-- The store as a service; the environment collects expired rows at a time of its choice. -/
def memory : Service StoreCall StoreCall.Reply Rows ℤ where
  start := Table.empty
  answer _ q rows := answer rows q
  work _ _ _ _ := False
  env now rows := deleteExpired rows now

theorem get_modify_update {rows : Rows} {sel : Str} {r : TokenRecord} {f : TokenRecord → TokenRecord}
    (h : rows.get sel = some r) : (rows.modify sel f).get = Function.update rows.get sel (some (f r)) := by
  funext k
  rcases eq_or_ne k sel with rfl | hk
  · rw [Table.get_modify_self, h, Function.update_self]
    rfl
  · rw [Table.get_modify_ne _ hk, Function.update_of_ne hk]

theorem revokeWhere_some (rows : Rows) (p : TokenRecord → Bool) :
    RevokesSome (fun r => p r = true) rows.get (revokeWhere rows p).2.get := by
  intro sel
  rw [revokeWhere, Table.get_mapRows]
  cases h : rows.get sel with
  | none => exact Or.inl rfl
  | some r =>
    by_cases hp : (p r && r.status != .revoked) = true
    · refine Or.inr ⟨r, rfl, (Bool.and_eq_true _ _ ▸ hp).1, ?_⟩
      rw [Option.map_some, if_pos hp]
    · refine Or.inl ?_
      rw [Option.map_some, if_neg hp]

theorem revokeWhere_all (rows : Rows) (p : TokenRecord → Bool) {sel : Str} {r : TokenRecord}
    (h : (revokeWhere rows p).2.get sel = some r) (hp : p r = true) :
    r.status = .revoked := by
  rw [revokeWhere, Table.get_mapRows, Option.map_eq_some_iff] at h
  obtain ⟨r₀, -, rfl⟩ := h
  split_ifs with h₀
  · rfl
  · rw [if_neg h₀] at hp
    simpa [hp] using h₀

/-- **The reference store keeps the contract, and is atomic.** -/
def memoryContract : AtomicContract memory where
  look rows := rows.get
  start _ := rfl
  find h := by
    obtain ⟨rfl, rfl⟩ := Prod.mk.inj (Option.some.inj h)
    exact ⟨rfl, rfl⟩
  insert {i n s u s'} h := by
    have h : (insert s n).map (fun rows' => ((), rows')) = some (u, s') := h
    rw [MemoryRefreshTokenStore.insert] at h
    split_ifs at h with hn
    · cases h
    · obtain ⟨-, rfl⟩ := Prod.mk.inj (Option.some.inj h)
      refine ⟨by simpa using hn, ?_⟩
      funext k
      rcases eq_or_ne k n.selector with rfl | hk
      · rw [Table.get_set_self, Function.update_self]
      · rw [Table.get_set_ne _ hk, Function.update_of_ne hk]
  mark {i sel fromStatus at_ by_ s s'} h := by
    have h : markRotated s sel fromStatus at_ by_ = (true, s') := Option.some.inj h
    unfold markRotated at h
    split at h
    · next r hr =>
      split_ifs at h with hs
      · cases h
      · obtain ⟨-, rfl⟩ := Prod.mk.inj h
        exact ⟨r, hr, not_not.mp hs, get_modify_update hr⟩
    · cases h
  mark_lost {i sel fromStatus at_ by_ s s'} h := by
    have h : markRotated s sel fromStatus at_ by_ = (false, s') := Option.some.inj h
    unfold markRotated at h
    split at h
    · next r hr =>
      split_ifs at h with hs
      · obtain ⟨-, rfl⟩ := Prod.mk.inj h
        refine ⟨rfl, fun r' hr' => ?_⟩
        obtain rfl := Option.some.inj (hr.symm.trans hr')
        exact hs
      · cases h
    · next hr =>
      obtain ⟨-, rfl⟩ := Prod.mk.inj h
      exact ⟨rfl, fun r' hr' => by rw [hr] at hr'; cases hr'⟩
  clear {i sel s s'} h := by
    have h : revokeIfActive s sel = (true, s') := Option.some.inj h
    unfold revokeIfActive at h
    split at h
    · next r hr =>
      split_ifs at h with hs
      · cases h
      · obtain ⟨-, rfl⟩ := Prod.mk.inj h
        exact ⟨r, hr, not_not.mp hs, get_modify_update hr⟩
    · cases h
  clear_lost {i sel s s'} h := by
    have h : revokeIfActive s sel = (false, s') := Option.some.inj h
    unfold revokeIfActive at h
    split at h
    · next r hr =>
      split_ifs at h with hs
      · obtain ⟨-, rfl⟩ := Prod.mk.inj h
        refine ⟨rfl, fun r' hr' => ?_⟩
        obtain rfl := Option.some.inj (hr.symm.trans hr')
        exact hs
      · cases h
    · next hr =>
      obtain ⟨-, rfl⟩ := Prod.mk.inj h
      exact ⟨rfl, fun r' hr' => by rw [hr] at hr'; cases hr'⟩
  revokeFamily {i familyId s n s'} h := by
    obtain ⟨-, rfl⟩ := Prod.mk.inj (Option.some.inj h)
    intro sel
    rcases revokeWhere_some s (fun r => r.familyId == familyId) sel with h | ⟨r, hr, hp, h⟩
    · exact Or.inl h
    · exact Or.inr ⟨r, hr, eq_of_beq hp, h⟩
  revokeUser {i userId s n s'} h := by
    obtain ⟨-, rfl⟩ := Prod.mk.inj (Option.some.inj h)
    intro sel
    rcases revokeWhere_some s (fun r => r.userId == userId) sel with h | ⟨r, hr, hp, h⟩
    · exact Or.inl h
    · exact Or.inr ⟨r, hr, eq_of_beq hp, h⟩
  work h := h.elim
  env now rows := by
    refine ⟨now, fun sel => ?_⟩
    rw [show (memory.env now rows) = deleteExpired rows now from rfl, deleteExpired, Table.get_filter]
    congr 1
    funext r
    rw [← decide_not, decide_eq_decide, ge_iff_le, not_le]
  revokeFamily_all {i familyId s n s'} h sel r hr hf := by
    obtain ⟨-, rfl⟩ := Prod.mk.inj (Option.some.inj h)
    exact revokeWhere_all s _ hr (beq_iff_eq.mpr hf)
  revokeUser_all {i userId s n s'} h sel r hr hu := by
    obtain ⟨-, rfl⟩ := Prod.mk.inj (Option.some.inj h)
    exact revokeWhere_all s _ hr (beq_iff_eq.mpr hu)
  work_still h := h.elim

/-- The contract the reference store keeps. -/
abbrev memoryStore : StoreContract memory := memoryContract.toStoreContract

end NebulaToken.Store.Memory
