import NebulaToken.Lib.KeyedTable

/-! # Transactions under `READ COMMITTED`

Transactions over one table of rows under their primary keys. A transaction sees the last committed
version of a row, or its own; a row it has written is locked until it ends, so that a row has one version
at most that is not committed.

An `UPDATE` takes the rows that satisfy its condition, as its transaction sees them when it starts. It
comes to them one after the other, waits while a row is locked, and then looks at the row again: it is
changed if it still satisfies the condition. Rows that are committed after the start are not among them.

* `seen`, `free`: what a transaction sees, and whether it may write;
* `come`, `commit`, `rollback`: the steps, with what they leave in the table. -/

namespace NebulaToken.Lib.ReadCommitted

open NebulaToken.Lib.KeyedTable

/-- An `UPDATE`: its `WHERE` and its `SET`. -/
structure Update (ρ : Type) where
  cond : ρ → Bool
  set : ρ → ρ

/-- A running statement: the rows it has still to come to, and the number it has changed. -/
structure Statement (κ τ : Type) where
  call : τ
  todo : List κ
  rowCount : ℕ

/-- The statement past a row, of which it has changed `n`. -/
def Statement.past {κ τ : Type} [DecidableEq κ] (st : Statement κ τ) (k : κ) (n : ℕ) : Statement κ τ :=
  { st with todo := st.todo.filter fun k' => decide (k' ≠ k), rowCount := st.rowCount + n }

theorem Statement.mem_past {κ τ : Type} [DecidableEq κ] {st : Statement κ τ} {k k' : κ} {n : ℕ}
    (h : k' ∈ st.todo) (hk : k' ≠ k) : k' ∈ (st.past k n).todo := by
  rw [past, List.mem_filter, decide_eq_true_eq]
  exact ⟨h, hk⟩

inductive Ending
  | committed
  | rolledBack
  deriving DecidableEq, Repr

/-- The committed rows; the versions that are not committed, with the transactions that hold them; the
statements that are running; the transactions that have ended. -/
structure Db (κ ρ τ : Type) where
  committed : Table κ ρ
  dirty : Table κ (ℕ × ρ)
  running : ℕ → Option (Statement κ τ)
  ended : ℕ → Option Ending

namespace Db

variable {κ ρ τ : Type} [DecidableEq κ]

/-- The version of the row that transaction `i` sees. -/
def seen (s : Db κ ρ τ) (i : ℕ) (k : κ) : Option ρ :=
  match s.dirty.get k with
  | some (j, r) => if j = i then some r else s.committed.get k
  | none => s.committed.get k

/-- No other transaction has locked the row. -/
def free (s : Db κ ρ τ) (i : ℕ) (k : κ) : Bool :=
  match s.dirty.get k with
  | some (j, _) => decide (j = i)
  | none => true

/-- Transaction `i` writes a version of the row, and locks it. -/
def write (s : Db κ ρ τ) (i : ℕ) (k : κ) (r : ρ) : Db κ ρ τ := { s with dirty := s.dirty.set k (i, r) }

/-- Transaction `i` starts, goes on with or ends a statement. -/
def setRunning (s : Db κ ρ τ) (i : ℕ) (st : Option (Statement κ τ)) : Db κ ρ τ :=
  { s with running := Function.update s.running i st }

/-- `INSERT`. A key that is there violates the primary key; one that is not committed yet is waited
for. -/
def insert (s : Db κ ρ τ) (i : ℕ) (k : κ) (r : ρ) : Option (Db κ ρ τ) :=
  if s.free i k = true ∧ s.seen i k = none then some (s.write i k r) else none

/-- The keys of the rows transaction `i` sees that satisfy the condition. -/
def candidates (s : Db κ ρ τ) (i : ℕ) (cond : ρ → Bool) : List κ :=
  (s.committed.keys ++ s.dirty.keys.filter fun k => (s.committed.get k).isNone).filter fun k =>
    (s.seen i k).any cond

/-- An `UPDATE` starts. -/
def start (s : Db κ ρ τ) (i : ℕ) (c : τ) (u : Update ρ) : Db κ ρ τ :=
  s.setRunning i (some ⟨c, s.candidates i u.cond, 0⟩)

/-- An `UPDATE` comes to a row that is free. -/
def come (s : Db κ ρ τ) (i : ℕ) (st : Statement κ τ) (u : Update ρ) (k : κ) : Db κ ρ τ :=
  match s.seen i k with
  | some r =>
    if u.cond r then (s.write i k (u.set r)).setRunning i (some (st.past k 1))
    else s.setRunning i (some (st.past k 0))
  | none => s.setRunning i (some (st.past k 0))

/-- Transaction `i` has ended: its locks are gone. -/
def close (s : Db κ ρ τ) (i : ℕ) (t : Table κ ρ) (e : Ending) : Db κ ρ τ where
  committed := t
  dirty := s.dirty.filter fun _ v => decide (v.1 ≠ i)
  running := Function.update s.running i none
  ended := Function.update s.ended i (some e)

/-- The versions of transaction `i` over the table. -/
def publish (t : Table κ ρ) (i : ℕ) (dirty : Table κ (ℕ × ρ)) : Table κ ρ :=
  dirty.entries.foldl (fun t e => if e.2.1 = i then t.set e.1 e.2.2 else t) t

/-- `COMMIT`. -/
def commit (s : Db κ ρ τ) (i : ℕ) : Db κ ρ τ :=
  if s.ended i = none then s.close i (publish s.committed i s.dirty) .committed else s

/-- `ROLLBACK`, or the end of the connection. -/
def rollback (s : Db κ ρ τ) (i : ℕ) : Db κ ρ τ :=
  if s.ended i = none then s.close i s.committed .rolledBack else s

variable {s : Db κ ρ τ} {i j : ℕ} {k k' : κ} {r r' : ρ}

/-! ### What is seen -/

theorem seen_own (h : s.dirty.get k = some (i, r)) : s.seen i k = some r := by
  rw [seen, h]
  simp

/-- A transaction that holds no version sees the committed one. -/
theorem seen_committed (h : ∀ r, s.dirty.get k ≠ some (i, r)) : s.seen i k = s.committed.get k := by
  unfold seen
  split
  · next j r hd =>
    rw [if_neg]
    rintro rfl
    exact h r hd
  · rfl

theorem seen_cases (h : s.seen i k = some r) :
    s.dirty.get k = some (i, r) ∨ (s.committed.get k = some r ∧ ∀ r', s.dirty.get k ≠ some (i, r')) := by
  by_cases hd : ∃ r', s.dirty.get k = some (i, r')
  · obtain ⟨r', hr'⟩ := hd
    rw [seen_own hr'] at h
    exact Or.inl (hr'.trans (by rw [Option.some.inj h]))
  · have hno : ∀ r', s.dirty.get k ≠ some (i, r') := fun r' hr' => hd ⟨r', hr'⟩
    rw [seen_committed hno] at h
    exact Or.inr ⟨h, hno⟩

/-- A row that is free is held by nobody else. -/
theorem eq_of_free (h : s.free i k = true) (hd : s.dirty.get k = some (j, r)) : j = i := by
  rw [free, hd] at h
  exact of_decide_eq_true h

theorem mem_candidates {cond : ρ → Bool} (h : s.committed.get k = some r) (hs : s.seen i k = some r')
    (hc : cond r' = true) : k ∈ s.candidates i cond := by
  rw [candidates, List.mem_filter, List.mem_append]
  refine ⟨Or.inl ((Table.mem_keys_iff _ _).mpr ⟨r, h⟩), ?_⟩
  rw [hs]
  exact hc

/-- A row that no other transaction sees yet is taken, too. -/
theorem mem_candidates_own {cond : ρ → Bool} (h : s.dirty.get k = some (i, r))
    (hno : s.committed.get k = none) (hc : cond r = true) : k ∈ s.candidates i cond := by
  rw [candidates, List.mem_filter, List.mem_append, List.mem_filter]
  refine ⟨Or.inr ⟨(Table.mem_keys_iff _ _).mpr ⟨_, h⟩, by rw [hno]; rfl⟩, ?_⟩
  rw [seen_own h]
  exact hc

theorem of_mem_candidates {cond : ρ → Bool} (h : k ∈ s.candidates i cond) :
    ∃ r, s.seen i k = some r ∧ cond r = true := by
  rw [candidates, List.mem_filter] at h
  obtain ⟨r, hr⟩ := Option.isSome_iff_exists.mp (Option.isSome_of_any h.2)
  rw [hr] at h
  exact ⟨r, hr, h.2⟩

/-! ### The steps -/

theorem get_write_self : (s.write i k r).dirty.get k = some (i, r) := Table.get_set_self _ _ _

omit [DecidableEq κ] in
theorem running_setRunning_self {st : Option (Statement κ τ)} : (s.setRunning i st).running i = st :=
  Function.update_self _ _ _

omit [DecidableEq κ] in
theorem running_setRunning_ne (h : j ≠ i) {st : Option (Statement κ τ)} :
    (s.setRunning i st).running j = s.running j := Function.update_of_ne h _ _

theorem get_write_ne (h : k' ≠ k) : (s.write i k r).dirty.get k' = s.dirty.get k' :=
  Table.get_set_ne _ h _

/-- What an `UPDATE` does at a row: nothing, or it writes the row it sees there changed. -/
theorem come_cases (s : Db κ ρ τ) (i : ℕ) (st : Statement κ τ) (u : Update ρ) (k : κ) :
    ((∀ r, s.seen i k = some r → u.cond r = false) ∧
      s.come i st u k = s.setRunning i (some (st.past k 0))) ∨
    ∃ r, s.seen i k = some r ∧ u.cond r = true ∧
      s.come i st u k = (s.write i k (u.set r)).setRunning i (some (st.past k 1)) := by
  unfold come
  cases hr : s.seen i k with
  | none => exact Or.inl ⟨fun r hr => (nomatch hr), rfl⟩
  | some r =>
    dsimp only
    cases hc : u.cond r with
    | true => exact Or.inr ⟨r, rfl, hc, if_pos rfl⟩
    | false =>
      refine Or.inl ⟨fun r' hr' => ?_, if_neg Bool.false_ne_true⟩
      rw [← Option.some.inj hr']
      exact hc

theorem get_foldl_set (t : Table κ ρ) (i : ℕ) {l : List (κ × ℕ × ρ)} (hnd : (l.map Prod.fst).Nodup)
    (k : κ) : (l.foldl (fun t e => if e.2.1 = i then t.set e.1 e.2.2 else t) t).get k =
      match l.lookup k with
      | some (j, r) => if j = i then some r else t.get k
      | none => t.get k := by
  induction l generalizing t with
  | nil => rfl
  | cons e l ih =>
    obtain ⟨k₀, j₀, r₀⟩ := e
    rw [List.map_cons, List.nodup_cons] at hnd
    rw [List.foldl_cons, ih _ hnd.2, List.lookup_cons]
    by_cases hk : k = k₀
    · subst hk
      rw [lookup_of_notMem hnd.1, beq_self_eq_true]
      dsimp only
      split_ifs
      · exact Table.get_set_self _ _ _
      · rfl
    · rw [beq_eq_false_iff_ne.mpr hk]
      have hset : (if j₀ = i then t.set k₀ r₀ else t).get k = t.get k := by
        split_ifs
        · exact Table.get_set_ne t hk r₀
        · rfl
      dsimp only
      rw [hset]

/-- **A commit makes what its transaction saw the committed rows.** -/
theorem get_commit (h : s.ended i = none) (k : κ) : (s.commit i).committed.get k = s.seen i k := by
  rw [commit, if_pos h]
  exact get_foldl_set _ _ s.dirty.nodup k

omit [DecidableEq κ] in
theorem get_rollback (s : Db κ ρ τ) (i : ℕ) : (s.rollback i).committed = s.committed := by
  unfold rollback
  split_ifs
  · rfl
  · rfl

omit [DecidableEq κ] in
theorem ended_close {t : Table κ ρ} {e : Ending} (j : ℕ) :
    (s.close i t e).ended j = if j = i then some e else s.ended j := Function.update_apply _ _ _ _

omit [DecidableEq κ] in
theorem running_close {t : Table κ ρ} {e : Ending} (j : ℕ) :
    (s.close i t e).running j = if j = i then none else s.running j := Function.update_apply _ _ _ _

/-- The versions that are left when a transaction ends are those of the others. -/
theorem get_close {t : Table κ ρ} {e : Ending} {v : ℕ × ρ} :
    (s.close i t e).dirty.get k = some v ↔ s.dirty.get k = some v ∧ v.1 ≠ i := by
  rw [close, Table.get_filter, Option.filter_eq_some_iff, decide_eq_true_eq]

end Db

end NebulaToken.Lib.ReadCommitted
