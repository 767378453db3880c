import NebulaToken.Lib.Sweep
import NebulaToken.Store.Memory

/-! # Bulk revocations, store by store

The reference stores revoke the rows of a family or of a user in a loop that counts while it writes: over
the rows themselves in TypeScript and Ruby, over a copy of them in PHP and Elixir.

* `Reference.revoke_eq`: all of them do one sweep;
* `bulk_algebra`: in a sequence of bulk revocations the counts add up to the rows that change, and their
  order does not matter. -/

namespace NebulaToken.Store.BulkRevocation

open NebulaToken.Lib.KeyedTable NebulaToken.Lib.Sweep NebulaToken.Token.Unicode
open NebulaToken.Engine.Records NebulaToken.Store.Contract NebulaToken.Store.Memory

/-- A bulk revocation, by its argument. -/
inductive BulkCall
  | family (familyId : Str)
  | user (userId : Str)
  deriving DecidableEq, Repr

/-- The rows an argument matches. -/
def BulkCall.covers : BulkCall → TokenRecord → Bool
  | .family familyId, r => r.familyId == familyId
  | .user userId, r => r.userId == userId

/-! ### The loops -/

namespace TypeScript

/-- The body of the loops of `revokeFamily` and `revokeUser`. The rows are not copied: `r` is the row in
the map. -/
def revokeStep (p : TokenRecord → Bool) (s : ℕ × Rows) (selector : Str) : ℕ × Rows :=
  match s.2.get selector with
  | some r => if p r && r.status != .revoked then (s.1 + 1, s.2.modify selector asRevoked) else s
  | none => s

/-- `for (const r of this.rows.values())`. -/
def revokeLoop (p : TokenRecord → Bool) (rows : Rows) : ℕ × Rows := rows.keys.foldl (revokeStep p) (0, rows)

def revokeFamily (rows : Rows) (familyId : Str) : ℕ × Rows :=
  revokeLoop (fun r => r.familyId == familyId) rows

def revokeUser (rows : Rows) (userId : Str) : ℕ × Rows := revokeLoop (fun r => r.userId == userId) rows

end TypeScript

namespace Ruby

/-- The block that `revoke_where` counts with. -/
def revokeBlock (p : TokenRecord → Bool) (s : ℕ × Rows) (selector : Str) : ℕ × Rows :=
  match s.2.get selector with
  | some row => if row.status == .revoked || !p row then s else (s.1 + 1, s.2.modify selector asRevoked)
  | none => s

/-- `@rows.each_value.count`. -/
def revokeWhere (p : TokenRecord → Bool) (rows : Rows) : ℕ × Rows :=
  rows.keys.foldl (revokeBlock p) (0, rows)

def revokeFamily (rows : Rows) (familyId : Str) : ℕ × Rows :=
  revokeWhere (fun row => row.familyId == familyId) rows

def revokeUser (rows : Rows) (userId : Str) : ℕ × Rows := revokeWhere (fun row => row.userId == userId) rows

end Ruby

namespace Php

/-- The body of the loop of `revokeWhere`. -/
def revokeStep (isMatch : TokenRecord → Bool) (s : ℕ × Rows) (e : Str × TokenRecord) : ℕ × Rows :=
  if isMatch e.2 && e.2.status != .revoked then (s.1 + 1, s.2.set e.1 (asRevoked e.2)) else s

/-- `foreach ($this->rows as $selector => $row)`, which goes through a copy. -/
def revokeWhere (isMatch : TokenRecord → Bool) (rows : Rows) : ℕ × Rows :=
  rows.entries.foldl (revokeStep isMatch) (0, rows)

def revokeFamily (rows : Rows) (familyId : Str) : ℕ × Rows :=
  revokeWhere (fun r => r.familyId == familyId) rows

def revokeUser (rows : Rows) (userId : Str) : ℕ × Rows := revokeWhere (fun r => r.userId == userId) rows

end Php

namespace Elixir

/-- The order in which a map is gone through. -/
structure Enumeration where
  list : Rows → List (Str × TokenRecord)
  perm : ∀ rows, (list rows).Perm rows.entries

/-- The function that `revoke_where` reduces with. -/
def revokeStep (pred : TokenRecord → Bool) (s : Rows × ℕ) (e : Str × TokenRecord) : Rows × ℕ :=
  if pred e.2 && e.2.status != .revoked then (s.1.set e.1 (asRevoked e.2), s.2 + 1) else s

/-- `Enum.reduce(rows, {rows, 0}, …)`. -/
def revokeWhere (order : Enumeration) (pred : TokenRecord → Bool) (rows : Rows) : ℕ × Rows :=
  let (updated, changed) := (order.list rows).foldl (revokeStep pred) (rows, 0)
  (changed, updated)

def revokeFamily (order : Enumeration) (rows : Rows) (familyId : Str) : ℕ × Rows :=
  revokeWhere order (fun r => r.familyId == familyId) rows

def revokeUser (order : Enumeration) (rows : Rows) (userId : Str) : ℕ × Rows :=
  revokeWhere order (fun r => r.userId == userId) rows

end Elixir

/-! ### One sweep -/

/-- Revocation as a marking of rows. -/
def revocation : Marking TokenRecord where
  mark := asRevoked
  marked r := r.status == .revoked
  marked_mark _ := rfl

theorem TypeScript.revokeLoop_eq (p : TokenRecord → Bool) (rows : Rows) :
    TypeScript.revokeLoop p rows = revocation.sweep p rows := by
  have hstep : TypeScript.revokeStep p = revocation.visit p := by
    funext s selector
    unfold TypeScript.revokeStep Marking.visit
    cases s.2.get selector with
    | none => rfl
    | some r => rfl
  rw [TypeScript.revokeLoop, hstep]
  exact foldl_visit fun _ hk => hk

theorem Ruby.revokeWhere_eq (p : TokenRecord → Bool) (rows : Rows) :
    Ruby.revokeWhere p rows = revocation.sweep p rows := by
  have hblock : Ruby.revokeBlock p = revocation.visit p := by
    funext s selector
    unfold Ruby.revokeBlock Marking.visit
    cases s.2.get selector with
    | none => rfl
    | some row =>
      dsimp only
      rw [show revocation.due p row = !(row.status == .revoked || !p row) by
        rw [Marking.due, Bool.not_or, Bool.not_not, Bool.and_comm]
        rfl]
      cases row.status == .revoked || !p row with
      | true => rfl
      | false => rfl
  rw [Ruby.revokeWhere, hblock]
  exact foldl_visit fun _ hk => hk

theorem Php.revokeWhere_eq (p : TokenRecord → Bool) (rows : Rows) :
    Php.revokeWhere p rows = revocation.sweep p rows :=
  foldl_visitRow (M := revocation) (p := p) (List.Perm.refl _)

theorem Elixir.revokeWhere_eq (order : Elixir.Enumeration) (p : TokenRecord → Bool) (rows : Rows) :
    Elixir.revokeWhere order p rows = revocation.sweep p rows := by
  -- the accumulator has its parts the other way round
  have hloop : ∀ (l : List (Str × TokenRecord)) (s : Rows × ℕ),
      (l.foldl (Elixir.revokeStep p) s).swap = l.foldl (revocation.visitRow p) s.swap := by
    intro l
    induction l with
    | nil => exact fun _ => rfl
    | cons e l ih =>
      intro s
      rw [List.foldl_cons, List.foldl_cons, ih]
      refine congrArg (fun s => l.foldl (revocation.visitRow p) s) ?_
      unfold Elixir.revokeStep Marking.visitRow
      exact apply_ite Prod.swap _ _ _
  exact (hloop (order.list rows) (rows, 0)).trans (foldl_visitRow (order.perm rows))

/-- The reference stores. -/
inductive Reference
  | typescript
  | ruby
  | php
  | elixir (order : Elixir.Enumeration)

/-- A bulk revocation of a store. -/
def Reference.revoke : Reference → BulkCall → Rows → ℕ × Rows
  | .typescript, .family familyId, rows => TypeScript.revokeFamily rows familyId
  | .typescript, .user userId, rows => TypeScript.revokeUser rows userId
  | .ruby, .family familyId, rows => Ruby.revokeFamily rows familyId
  | .ruby, .user userId, rows => Ruby.revokeUser rows userId
  | .php, .family familyId, rows => Php.revokeFamily rows familyId
  | .php, .user userId, rows => Php.revokeUser rows userId
  | .elixir order, .family familyId, rows => Elixir.revokeFamily order rows familyId
  | .elixir order, .user userId, rows => Elixir.revokeUser order rows userId

/-- **Every store revokes in one sweep.** -/
theorem Reference.revoke_eq (s : Reference) (c : BulkCall) (rows : Rows) :
    s.revoke c rows = revocation.sweep c.covers rows := by
  cases s with
  | typescript =>
    cases c with
    | family familyId => exact TypeScript.revokeLoop_eq _ rows
    | user userId => exact TypeScript.revokeLoop_eq _ rows
  | ruby =>
    cases c with
    | family familyId => exact Ruby.revokeWhere_eq _ rows
    | user userId => exact Ruby.revokeWhere_eq _ rows
  | php =>
    cases c with
    | family familyId => exact Php.revokeWhere_eq _ rows
    | user userId => exact Php.revokeWhere_eq _ rows
  | elixir order =>
    cases c with
    | family familyId => exact Elixir.revokeWhere_eq order _ rows
    | user userId => exact Elixir.revokeWhere_eq order _ rows

/-! ### Sequences of calls -/

/-- What the calls return one after another, and the rows they leave. -/
def Reference.run (s : Reference) : List BulkCall → Rows → List ℕ × Rows
  | [], rows => ([], rows)
  | c :: calls, rows =>
    let (n, rows') := s.revoke c rows
    let (counts, rows'') := s.run calls rows'
    (n :: counts, rows'')

theorem Reference.run_eq (s : Reference) (calls : List BulkCall) (rows : Rows) :
    s.run calls rows = revocation.sweeps (calls.map BulkCall.covers) rows := by
  induction calls generalizing rows with
  | nil => rfl
  | cons c calls ih =>
    show ((s.revoke c rows).1 :: (s.run calls (s.revoke c rows).2).1,
      (s.run calls (s.revoke c rows).2).2) = _
    rw [s.revoke_eq, ih]
    rfl

/-- One of the arguments matches the row. -/
def covered (calls : List BulkCall) (r : TokenRecord) : Bool := calls.any fun c => c.covers r

theorem anyOf_covers (calls : List BulkCall) : anyOf (calls.map BulkCall.covers) = covered calls := by
  funext r
  rw [anyOf, covered, List.any_map]
  rfl

theorem step_covered (calls : List BulkCall) (r : TokenRecord) :
    revocation.step (covered calls) r = if covered calls r then asRevoked r else r := by
  unfold Marking.step
  by_cases hm : revocation.marked r = true
  · have hs : asRevoked r = r := by
      have hr : r.status = .revoked := eq_of_beq hm
      rw [asRevoked, ← hr]
    rw [due_of_marked hm, if_neg Bool.false_ne_true, hs, ite_self]
  · refine if_congr ?_ rfl rfl
    rw [Marking.due, Bool.eq_false_iff.mpr hm, Bool.not_false, Bool.and_true]

/-- **The algebra of bulk revocations.** However often and in whatever order the arguments are given, the
rows left are the same: those that an argument matches are revoked and keep all their other fields, the
others are as they were. The counts add up to the matching rows that were not revoked at the start, and
a call made before returns 0. -/
theorem bulk_algebra (s : Reference) (rows : Rows) (calls : List BulkCall) :
    (∀ calls', (∀ c, c ∈ calls' ↔ c ∈ calls) → (s.run calls' rows).2 = (s.run calls rows).2) ∧
    (s.run calls rows).2.keys = rows.keys ∧
    (∀ sel, (s.run calls rows).2.get sel =
      (rows.get sel).map fun r => if covered calls r then asRevoked r else r) ∧
    (s.run calls rows).1.sum = rows.count (fun _ r => covered calls r && r.status != .revoked) ∧
    ∀ (i j : ℕ) (c : BulkCall), i < j → calls[i]? = some c → calls[j]? = some c → (s.run calls rows).1[j]? = some 0 := by
  have htable : ∀ calls, (s.run calls rows).2 = (revocation.sweep (covered calls) rows).2 :=
    fun calls => by rw [s.run_eq, sweeps_table, anyOf_covers]
  refine ⟨fun calls' h => ?_, ?_, fun sel => ?_, ?_, fun i j c hij hi hj => ?_⟩
  · have hcovered : covered calls' = covered calls := by
      funext r
      rw [covered, covered, Bool.eq_iff_iff, List.any_eq_true, List.any_eq_true]
      exact exists_congr fun c => and_congr_left fun _ => h c
    rw [htable, htable, hcovered]
  · rw [htable]
    exact Table.keys_mapRows rows _
  · rw [htable, Marking.sweep, Table.get_mapRows]
    exact congrArg (fun f => Option.map f (rows.get sel)) (funext fun r => step_covered calls r)
  · rw [s.run_eq, sweeps_sum, anyOf_covers]
    rfl
  · obtain ⟨hlt, rfl⟩ := List.getElem?_eq_some_iff.mp hj
    have hsplit : calls = calls.take j ++ calls[j] :: calls.drop (j + 1) := by
      rw [← List.drop_eq_getElem_cons hlt, List.take_append_drop]
    have hmem : (calls[j]).covers ∈ (calls.take j).map BulkCall.covers := by
      refine List.mem_map_of_mem (List.mem_of_getElem? (i := i) ?_)
      rw [List.getElem?_take, if_pos hij, hi]
    have hrep := sweeps_repeated (M := revocation) hmem ((calls.drop (j + 1)).map BulkCall.covers) rows
    rw [List.length_map, List.length_take, Nat.min_eq_left hlt.le, ← List.map_cons, ← List.map_append,
      ← hsplit] at hrep
    rw [s.run_eq, hrep]

end NebulaToken.Store.BulkRevocation
