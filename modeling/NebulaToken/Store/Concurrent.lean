import NebulaToken.Store.Memory

/-! # The concurrent reference stores

The Java and the C# store keep their rows in a concurrent map. Every call but the bulk revocations is one
operation of the map. A bulk revocation goes through the keys of the map and revokes the rows it matches
one at a time, and any operations of other calls may fall between two of its rows.

The keys it goes through are those of the map when it starts. The iterator of the Java map is weakly
consistent: it may hand out a key that was added since, and need not. -/

namespace NebulaToken.Store.Concurrent

open NebulaToken.Lib.Program NebulaToken.Lib.KeyedTable NebulaToken.Lib.Pool NebulaToken.Token.Unicode
open NebulaToken.Engine.Records NebulaToken.Store.Contract NebulaToken.Store.Memory
open NebulaToken.Store.Memory.MemoryRefreshTokenStore

/-- A loop of `revokeWhere`: its call, the keys it has been handed, those it has still to look at, and
the rows it has changed. -/
structure Iteration where
  call : StoreCall
  met : List Str
  todo : List Str
  n : ℕ

/-- The map, and the loops of the calls that are in one. -/
structure Maps where
  rows : Rows
  loops : ℕ → Option Iteration

namespace Maps

/-- Call `i` enters, goes on with or leaves its loop. -/
def setLoop (s : Maps) (i : ℕ) (l : Option Iteration) : Maps :=
  { s with loops := Function.update s.loops i l }

@[simp] theorem rows_setLoop (s : Maps) (i : ℕ) (l : Option Iteration) : (s.setLoop i l).rows = s.rows :=
  rfl

@[simp] theorem loops_setLoop_self (s : Maps) (i : ℕ) (l : Option Iteration) :
    (s.setLoop i l).loops i = l := by
  simp [setLoop]

theorem loops_setLoop_ne (s : Maps) {i j : ℕ} (h : i ≠ j) (l : Option Iteration) :
    (s.setLoop j l).loops i = s.loops i := by
  simp [setLoop, h]

end Maps

/-- What the loop of a bulk revocation matches. -/
def isMatch : StoreCall → TokenRecord → Bool
  | .revokeFamily familyId, row => row.familyId == familyId
  | .revokeUser userId, row => row.userId == userId
  | _, _ => false

theorem isMatch_iff {q : StoreCall} {row : TokenRecord} : isMatch q row = true ↔ Covers q row := by
  cases q with
  | revokeFamily | revokeUser => exact beq_iff_eq
  | findBySelector | insert | markRotated | revokeIfActive =>
    constructor
    · intro h
      cases h
    · intro h
      exact h.elim

/-- Whether the call is a bulk revocation. -/
def isBulk : StoreCall → Bool
  | .revokeFamily _ | .revokeUser _ => true
  | _ => false

/-! ### The calls -/

/-- The body of the loop of `revokeWhere`, at one key: `computeIfPresent`, or the reads of the row up to a
`TryUpdate` that succeeds. -/
def revokeRow (isMatch : TokenRecord → Bool) (rows : Rows) (selector : Str) : Bool × Rows :=
  match rows.get selector with
  | some current =>
    if current.status = .revoked ∨ isMatch current = false then (false, rows)
    else (true, rows.modify selector asRevoked)
  | none => (false, rows)

/-- `revokeWhere` opens its loop. -/
def openLoop (q : StoreCall) (rows : Rows) : Iteration := ⟨q, rows.keys, rows.keys, 0⟩

/-- `revokeWhere` at the key `selector`. -/
def visit (s : Maps) (i : ℕ) (it : Iteration) (selector : Str) : Maps :=
  let (changed, rows) := revokeRow (isMatch it.call) s.rows selector
  { s with rows }.setLoop i
    (some { it with todo := it.todo.erase selector, n := if changed then it.n + 1 else it.n })

/-- The iterator hands out a key that was not in the map when it was opened. -/
def handOut (s : Maps) (i : ℕ) (it : Iteration) (selector : Str) : Maps :=
  s.setLoop i (some { it with met := selector :: it.met, todo := selector :: it.todo })

/-- `revokeWhere` returns, once its loop has come to its end. -/
def finish (s : Maps) (i : ℕ) (q : StoreCall) : Option (ℕ × Maps) :=
  match s.loops i with
  | some it => if it.call = q ∧ it.todo = [] then some (it.n, s.setLoop i none) else none
  | none => none

/-- The answer to a store call. -/
def answer (s : Maps) (i : ℕ) : (q : StoreCall) → Option (q.Reply × Maps)
  | .findBySelector selector => some (s.rows.get selector, s)
  | .insert record => (insert s.rows record).map fun rows => ((), { s with rows })
  | .markRotated selector fromStatus rotatedAt replacedBySelector =>
    let (applied, rows) := markRotated s.rows selector fromStatus rotatedAt replacedBySelector
    some (applied, { s with rows })
  | .revokeIfActive selector =>
    let (applied, rows) := revokeIfActive s.rows selector
    some (applied, { s with rows })
  | .revokeFamily familyId => finish s i (.revokeFamily familyId)
  | .revokeUser userId => finish s i (.revokeUser userId)

/-- **A step inside `revokeWhere`.** Only a `weak` iterator hands out new keys. -/
inductive Works (weak : Bool) (i : ℕ) (q : StoreCall) (s : Maps) : Maps → Prop
  | enter (hq : isBulk q = true) (h : s.loops i = none) :
    Works weak i q s (s.setLoop i (some (openLoop q s.rows)))
  | visit {it : Iteration} {selector : Str} (h : s.loops i = some it) (hq : it.call = q)
      (hsel : selector ∈ it.todo) : Works weak i q s (visit s i it selector)
  | handOut {it : Iteration} {selector : Str} (hw : weak = true) (h : s.loops i = some it)
      (hq : it.call = q) (hsel : selector ∈ s.rows.keys) (hmet : selector ∉ it.met) :
    Works weak i q s (handOut s i it selector)

/-- **The stores as services**: C# opens its loop on a copy of the keys, Java with a weak iterator. -/
def concurrent (weak : Bool) : Service StoreCall StoreCall.Reply Maps Empty where
  start := ⟨Table.empty, fun _ => none⟩
  answer i q s := answer s i q
  work i q s s' := Works weak i q s s'
  env a _ := a.elim

/-! ### The contract -/

variable {weak : Bool} {s s' : Maps} {i : ℕ} {q : StoreCall}

theorem revokeRow_some (p : TokenRecord → Bool) (rows : Rows) (sel : Str) :
    RevokesSome (fun r => p r = true) rows.get (revokeRow p rows sel).2.get := by
  intro sel'
  unfold revokeRow
  split
  · next r hr =>
    split_ifs with h
    · exact Or.inl rfl
    · rw [get_modify_update hr]
      rcases eq_or_ne sel' sel with rfl | hne
      · rw [Function.update_self]
        exact Or.inr ⟨r, hr, by simpa using (not_or.mp h).2, rfl⟩
      · exact Or.inl (Function.update_of_ne hne _ _)
  · exact Or.inl rfl

/-- The loop leaves no row it matches unrevoked at a key it has looked at. -/
theorem revokeRow_self {p : TokenRecord → Bool} {rows : Rows} {sel : Str} {r : TokenRecord}
    (h : (revokeRow p rows sel).2.get sel = some r) (hp : p r = true) : r.status = .revoked := by
  unfold revokeRow at h
  split at h
  · next r₀ hr₀ =>
    split_ifs at h with h₀
    · obtain rfl := Option.some.inj (hr₀.symm.trans h)
      exact h₀.resolve_right (by rw [hp]; decide)
    · rw [get_modify_update hr₀, Function.update_self] at h
      obtain rfl := Option.some.inj h
      rfl
  · next hr₀ =>
    rw [hr₀] at h
    cases h

theorem finish_some {n : ℕ} (h : finish s i q = some (n, s')) :
    ∃ it, s.loops i = some it ∧ it.call = q ∧ it.todo = [] ∧ s' = s.setLoop i none := by
  unfold finish at h
  split at h
  · next it hit =>
    split_ifs at h with hc
    · obtain ⟨-, rfl⟩ := Prod.mk.inj (Option.some.inj h)
      exact ⟨it, hit, hc.1, hc.2, rfl⟩
  · cases h

/-- The answer of a bulk revocation is the end of its loop. -/
theorem answer_bulk {rep : q.Reply} (hq : isBulk q = true) (h : answer s i q = some (rep, s')) :
    ∃ it, s.loops i = some it ∧ it.call = q ∧ it.todo = [] ∧ s' = s.setLoop i none := by
  cases q with
  | revokeFamily | revokeUser => exact finish_some h
  | findBySelector | insert | markRotated | revokeIfActive => cases hq

/-- The other calls are not in a loop. -/
theorem answer_loops {rep : q.Reply} (hq : isBulk q = false) (h : answer s i q = some (rep, s')) :
    s'.loops = s.loops := by
  cases q with
  | findBySelector selector =>
    obtain ⟨-, rfl⟩ := Prod.mk.inj (Option.some.inj h)
    rfl
  | insert record =>
    obtain ⟨rows, -, he⟩ := Option.map_eq_some_iff.mp h
    obtain ⟨-, rfl⟩ := Prod.mk.inj he
    rfl
  | markRotated selector fromStatus rotatedAt replacedBySelector =>
    obtain ⟨-, rfl⟩ := Prod.mk.inj (Option.some.inj h)
    rfl
  | revokeIfActive selector =>
    obtain ⟨-, rfl⟩ := Prod.mk.inj (Option.some.inj h)
    rfl
  | revokeFamily | revokeUser => cases hq

/-- An operation of the map on one row is that of the reference store. -/
theorem answer_rows {rep : q.Reply} (hq : isBulk q = false) (h : answer s i q = some (rep, s')) :
    MemoryRefreshTokenStore.answer s.rows q = some (rep, s'.rows) := by
  cases q with
  | findBySelector selector =>
    obtain ⟨rfl, rfl⟩ := Prod.mk.inj (Option.some.inj h)
    rfl
  | insert record =>
    obtain ⟨rows, hrows, he⟩ := Option.map_eq_some_iff.mp h
    obtain ⟨rfl, rfl⟩ := Prod.mk.inj he
    exact answer_insert hrows
  | markRotated selector fromStatus rotatedAt replacedBySelector =>
    obtain ⟨rfl, rfl⟩ := Prod.mk.inj (Option.some.inj h)
    rfl
  | revokeIfActive selector =>
    obtain ⟨rfl, rfl⟩ := Prod.mk.inj (Option.some.inj h)
    rfl
  | revokeFamily | revokeUser => cases hq

/-- **The concurrent stores keep the contract**: they revoke some rows at a time. -/
def concurrentStore (weak : Bool) : StoreContract (concurrent weak) where
  look s := s.rows.get
  start _ := rfl
  find {i _ _ _ _} h := memoryStore.find (i := 0) (answer_rows (i := i) (q := .findBySelector _) rfl h)
  insert {i _ _ _ _} h := memoryStore.insert (i := 0) (answer_rows (i := i) (q := .insert _) rfl h)
  mark {i _ _ _ _ _ _} h :=
    memoryStore.mark (i := 0) (answer_rows (i := i) (q := .markRotated _ _ _ _) rfl h)
  mark_lost {i _ _ _ _ _ _} h :=
    memoryStore.mark_lost (i := 0) (answer_rows (i := i) (q := .markRotated _ _ _ _) rfl h)
  clear {i _ _ _} h := memoryStore.clear (i := 0) (answer_rows (i := i) (q := .revokeIfActive _) rfl h)
  clear_lost {i _ _ _} h :=
    memoryStore.clear_lost (i := 0) (answer_rows (i := i) (q := .revokeIfActive _) rfl h)
  revokeFamily {i _ _ _ _} h := by
    obtain ⟨it, -, -, -, rfl⟩ := answer_bulk (i := i) (q := .revokeFamily _) rfl h
    exact .refl _
  revokeUser {i _ _ _ _} h := by
    obtain ⟨it, -, -, -, rfl⟩ := answer_bulk (i := i) (q := .revokeUser _) rfl h
    exact .refl _
  work {i q s s'} h := by
    cases h with
    | enter hq hl => exact .refl _
    | @visit it sel hl hq hsel =>
      subst hq
      intro sel'
      rcases revokeRow_some (isMatch it.call) s.rows sel sel' with h | ⟨r, hr, hp, h⟩
      · exact Or.inl h
      · exact Or.inr ⟨r, hr, isMatch_iff.mp hp, h⟩
    | handOut => exact .refl _
  env a := a.elim

/-- One step inside a loop: it is entered, or it looks at its next key. -/
def nextWork (i : ℕ) (q : StoreCall) (s : Maps) : Option Maps :=
  match s.loops i with
  | none => if isBulk q = true then some (s.setLoop i (some (openLoop q s.rows))) else none
  | some it =>
    if it.call = q then it.todo.head?.map fun selector => visit s i it selector else none

theorem works_of_nextWork (h : nextWork i q s = some s') : Works weak i q s s' := by
  unfold nextWork at h
  split at h
  · next hl =>
    split_ifs at h with hq
    obtain rfl := Option.some.inj h
    exact .enter hq hl
  · next it hl =>
    split_ifs at h with hq
    obtain ⟨sel, hsel, rfl⟩ := Option.map_eq_some_iff.mp h
    exact .visit hl hq (List.mem_of_mem_head? hsel)

end NebulaToken.Store.Concurrent
