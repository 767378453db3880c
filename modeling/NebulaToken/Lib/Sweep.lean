import NebulaToken.Lib.KeyedTable

/-! # Marking the rows that satisfy a predicate

A sweep marks every row of a table that satisfies a predicate and is not marked yet, and counts them. It
is done by a loop that counts while it writes, over the table itself or over a copy of it.

* `foldl_visit`, `foldl_visitRow`: both loops do the sweep, in any order of the rows;
* `sweeps_table`, `sweeps_sum`, `sweeps_repeated`: sweeps one after another mark what one sweep by all
  their predicates marks, count it together, and find nothing a second time. -/

namespace NebulaToken.Lib.Sweep

open NebulaToken.Lib.KeyedTable

/-- A way to mark rows, and to tell that they are. -/
structure Marking (ρ : Type) where
  mark : ρ → ρ
  marked : ρ → Bool
  marked_mark : ∀ r, marked (mark r) = true

variable {κ ρ : Type} [DecidableEq κ] (M : Marking ρ) (p : ρ → Bool)

/-- The row is to be marked. -/
def Marking.due (r : ρ) : Bool := p r && !M.marked r

/-- The row after a sweep. -/
def Marking.step (r : ρ) : ρ := if M.due p r then M.mark r else r

/-- **A sweep**: how many rows it marks, and the table after it. -/
def Marking.sweep (t : Table κ ρ) : ℕ × Table κ ρ :=
  (t.count fun _ r => M.due p r, t.mapRows fun _ r => M.step p r)

/-- A step of the loop over the table itself. -/
def Marking.visit (s : ℕ × Table κ ρ) (k : κ) : ℕ × Table κ ρ :=
  match s.2.get k with
  | some r => if M.due p r then (s.1 + 1, s.2.modify k M.mark) else s
  | none => s

/-- A step of the loop over a copy of the rows: it writes to the table. -/
def Marking.visitRow (s : ℕ × Table κ ρ) (e : κ × ρ) : ℕ × Table κ ρ :=
  if M.due p e.2 then (s.1 + 1, s.2.set e.1 (M.mark e.2)) else s

variable {M p}

theorem due_mark (r : ρ) : M.due p (M.mark r) = false := by
  rw [Marking.due, M.marked_mark, Bool.not_true, Bool.and_false]

theorem due_of_marked {r : ρ} (h : M.marked r = true) : M.due p r = false := by
  rw [Marking.due, h, Bool.not_true, Bool.and_false]

/-- A row that was swept is not due again. -/
theorem due_step (r : ρ) : M.due p (M.step p r) = false := by
  unfold Marking.step
  split_ifs with h
  · exact due_mark r
  · exact Bool.not_eq_true _ ▸ h

theorem step_step (r : ρ) : M.step p (M.step p r) = M.step p r := by
  rw [Marking.step, due_step, if_neg Bool.false_ne_true]

/-! ### The loops -/

section Loops

variable {s : ℕ × Table κ ρ}

theorem keys_visit (k : κ) : (M.visit p s k).2.keys = s.2.keys := by
  unfold Marking.visit
  cases s.2.get k with
  | none => rfl
  | some r =>
    dsimp only
    split_ifs
    · exact Table.keys_modify s.2 k M.mark
    · rfl

theorem get_visit (k k' : κ) :
    (M.visit p s k).2.get k' = if k' = k then (s.2.get k').map (M.step p) else s.2.get k' := by
  unfold Marking.visit
  cases h : s.2.get k with
  | none =>
    by_cases hk : k' = k
    · rw [if_pos hk, hk, h]
      rfl
    · rw [if_neg hk]
  | some r =>
    dsimp only
    by_cases hk : k' = k
    · rw [if_pos hk, hk, h, Option.map_some, Marking.step]
      split_ifs
      · rw [Table.get_modify_self, h]
        rfl
      · exact h
    · rw [if_neg hk]
      split_ifs
      · exact Table.get_modify_ne s.2 hk M.mark
      · rfl

/-- What is counted is no longer due. -/
theorem count_visit (k : κ) : (M.visit p s k).1 + (M.visit p s k).2.count (fun _ r => M.due p r) =
    s.1 + s.2.count fun _ r => M.due p r := by
  unfold Marking.visit
  cases h : s.2.get k with
  | none => rfl
  | some r =>
    dsimp only
    split_ifs with hr
    · have hcount := Table.count_modify (p := fun _ r => M.due p r) h hr (due_mark r)
      dsimp only
      omega
    · rfl

/-- **The invariant of the loop**: the rows visited are swept, the others are not, and the count is that
of the rows that are no longer due. -/
structure Swept (M : Marking ρ) (p : ρ → Bool) (l : List κ) (s s' : ℕ × Table κ ρ) : Prop where
  keys : s'.2.keys = s.2.keys
  get : ∀ k, s'.2.get k = if k ∈ l then (s.2.get k).map (M.step p) else s.2.get k
  count : s'.1 + s'.2.count (fun _ r => M.due p r) = s.1 + s.2.count fun _ r => M.due p r

theorem swept_foldl (l : List κ) (s : ℕ × Table κ ρ) : Swept M p l s (l.foldl (M.visit p) s) := by
  induction l generalizing s with
  | nil => exact ⟨rfl, fun k => (if_neg List.not_mem_nil).symm, rfl⟩
  | cons k₀ l ih =>
    obtain ⟨hkeys, hget, hcount⟩ := ih (M.visit p s k₀)
    refine ⟨hkeys.trans (keys_visit k₀), fun k => ?_, hcount.trans (count_visit k₀)⟩
    rw [List.foldl_cons, hget, get_visit]
    by_cases hk : k = k₀
    · rw [if_pos hk, if_pos (List.mem_cons.mpr (Or.inl hk)), Option.map_map]
      split_ifs
      · exact congrArg (fun f => Option.map f (s.2.get k)) (funext fun r => step_step r)
      · rfl
    · rw [if_neg hk]
      refine if_congr ?_ rfl rfl
      rw [List.mem_cons, or_iff_right hk]

/-- **The loop over the table is the sweep**, if it comes to every row. -/
theorem foldl_visit {t : Table κ ρ} {l : List κ} (hl : ∀ k ∈ t.keys, k ∈ l) :
    l.foldl (M.visit p) (0, t) = M.sweep p t := by
  obtain ⟨hkeys, hget, hcount⟩ := swept_foldl (M := M) (p := p) l (0, t)
  have htable : (l.foldl (M.visit p) (0, t)).2 = (M.sweep p t).2 := by
    refine Table.ext_get (hkeys.trans (Table.keys_mapRows t _).symm) fun k => ?_
    rw [hget, Marking.sweep, Table.get_mapRows]
    split_ifs with hk
    · rfl
    · cases h : t.get k with
      | none => rfl
      | some r => exact absurd (hl k ((t.mem_keys_iff k).mpr ⟨r, h⟩)) hk
  have hnone : (M.sweep p t).2.count (fun _ r => M.due p r) = 0 := by
    rw [Table.count, List.countP_eq_zero]
    intro e he
    obtain ⟨e', -, rfl⟩ := List.mem_map.mp he
    rw [due_step]
    exact Bool.false_ne_true
  rw [htable, hnone] at hcount
  refine Prod.ext ?_ htable
  rw [Marking.sweep]
  dsimp only at hcount ⊢
  omega

/-- **So is the loop over a copy of the rows**, in any order. -/
theorem foldl_visitRow {t : Table κ ρ} {l : List (κ × ρ)} (hl : l.Perm t.entries) :
    l.foldl (M.visitRow p) (0, t) = M.sweep p t := by
  have hloop : ∀ (l : List (κ × ρ)) (s : ℕ × Table κ ρ), (l.map Prod.fst).Nodup →
      (∀ e ∈ l, s.2.get e.1 = some e.2) →
      l.foldl (M.visitRow p) s = (l.map Prod.fst).foldl (M.visit p) s := by
    intro l
    induction l with
    | nil => exact fun _ _ _ => rfl
    | cons e l ih =>
      intro s hnd hget
      have he := hget e List.mem_cons_self
      have hstep : M.visitRow p s e = M.visit p s e.1 := by
        unfold Marking.visitRow Marking.visit
        rw [he]
        dsimp only
        rw [Table.set_eq_modify he rfl]
      rw [List.map_cons, List.nodup_cons] at hnd
      rw [List.map_cons, List.foldl_cons, List.foldl_cons, hstep]
      refine ih _ hnd.2 fun e' he' => ?_
      -- the rows still to come are as they were
      have hne : e'.1 ≠ e.1 := fun h => hnd.1 (h ▸ List.mem_map_of_mem he')
      rw [get_visit, if_neg hne]
      exact hget e' (List.mem_cons_of_mem e he')
  have hkeys : (l.map Prod.fst).Perm t.keys := hl.map Prod.fst
  rw [hloop l (0, t) (hkeys.nodup_iff.mpr t.nodup) fun e he => Table.get_of_mem (hl.mem_iff.mp he)]
  exact foldl_visit fun k hk => hkeys.mem_iff.mpr hk

end Loops

/-! ### One sweep after another -/

/-- The counts of the sweeps, and the table after them. -/
def Marking.sweeps (M : Marking ρ) : List (ρ → Bool) → Table κ ρ → List ℕ × Table κ ρ
  | [], t => ([], t)
  | p :: ps, t =>
    let (n, t') := M.sweep p t
    let (ns, t'') := M.sweeps ps t'
    (n :: ns, t'')

/-- A row satisfies one of the predicates. -/
def anyOf (ps : List (ρ → Bool)) (r : ρ) : Bool := ps.any fun p => p r

/-- A row that the first sweep marks, the others leave alone. -/
theorem step_anyOf (ps : List (ρ → Bool)) (r : ρ) :
    M.step (anyOf ps) (M.step p r) = M.step (anyOf (p :: ps)) r := by
  unfold Marking.step
  by_cases hm : M.marked r = true
  · have hdue : ∀ q : ρ → Bool, M.due q r = false := fun q => due_of_marked hm
    rw [hdue p, if_neg Bool.false_ne_true, hdue, hdue]
  · by_cases hp : p r = true
    · have hdue : M.due p r = true := by simp [Marking.due, hp, hm]
      have hany : M.due (anyOf (p :: ps)) r = true := by simp [Marking.due, anyOf, hp, hm]
      rw [if_pos hdue, if_pos hany, due_mark]
      rfl
    · have hdue : M.due p r = false := by simp [Marking.due, hp]
      have hany : M.due (anyOf (p :: ps)) r = M.due (anyOf ps) r := by simp [Marking.due, anyOf, hp]
      rw [hdue, hany]
      rfl

/-- **Sweeps leave the table of one sweep by all their predicates.** -/
theorem sweeps_table (ps : List (ρ → Bool)) (t : Table κ ρ) :
    (M.sweeps ps t).2 = (M.sweep (anyOf ps) t).2 := by
  induction ps generalizing t with
  | nil =>
    refine Table.ext_get (Table.keys_mapRows t _).symm fun k => ?_
    have hid : (fun r : ρ => M.step (anyOf []) r) = id := by
      funext r
      rw [Marking.step, if_neg (by simp [Marking.due, anyOf])]
      rfl
    rw [Marking.sweep, Table.get_mapRows]
    show _ = Option.map (fun r => M.step (anyOf []) r) _
    rw [hid, Option.map_id]
    rfl
  | cons p ps ih =>
    show (M.sweeps ps (M.sweep p t).2).2 = _
    rw [ih]
    refine Table.ext_get ?_ fun k => ?_
    · exact (Table.keys_mapRows _ _).trans ((Table.keys_mapRows t _).trans (Table.keys_mapRows t _).symm)
    · rw [Marking.sweep, Marking.sweep, Marking.sweep, Table.get_mapRows, Table.get_mapRows,
        Table.get_mapRows, Option.map_map]
      exact congrArg (fun f => Option.map f (t.get k)) (funext fun r => step_anyOf ps r)

/-- A row is counted by one of the sweeps if it is counted by one sweep by all. -/
theorem due_anyOf (ps : List (ρ → Bool)) (r : ρ) :
    (M.due p r).toNat + (M.due (anyOf ps) (M.step p r)).toNat = (M.due (anyOf (p :: ps)) r).toNat := by
  by_cases hp : M.due p r = true
  · have hany : M.due (anyOf (p :: ps)) r = true := by
      rw [Marking.due, Bool.and_eq_true] at hp
      simp [Marking.due, anyOf, hp.1, hp.2]
    rw [Marking.step, if_pos hp, due_mark, hp, hany]
    rfl
  · have hany : M.due (anyOf ps) r = M.due (anyOf (p :: ps)) r := by
      by_cases hm : M.marked r = true
      · rw [due_of_marked hm, due_of_marked hm]
      · have hpr : p r = false := by simpa [Marking.due, hm] using hp
        simp [Marking.due, anyOf, hpr]
    rw [Marking.step, if_neg hp, hany, Bool.eq_false_iff.mpr hp]
    exact Nat.zero_add _

/-- Counts add up where the conditions do. -/
theorem countP_add {α : Type} {a b c : α → Bool} (h : ∀ x, (a x).toNat + (b x).toNat = (c x).toNat)
    (l : List α) : l.countP a + l.countP b = l.countP c := by
  induction l with
  | nil => rfl
  | cons x l ih =>
    have hone : ∀ y : Bool, (if y = true then 1 else 0) = y.toNat := by decide
    have hx := h x
    rw [List.countP_cons, List.countP_cons, List.countP_cons, hone, hone, hone]
    omega

omit [DecidableEq κ] in
/-- **Together the sweeps count the rows that one sweep by all their predicates counts.** -/
theorem sweeps_sum (ps : List (ρ → Bool)) (t : Table κ ρ) :
    (M.sweeps ps t).1.sum = (M.sweep (anyOf ps) t).1 := by
  induction ps generalizing t with
  | nil =>
    show 0 = t.entries.countP fun e => M.due (anyOf []) e.2
    rw [eq_comm, List.countP_eq_zero]
    intro e _
    simp [Marking.due, anyOf]
  | cons p ps ih =>
    show (M.sweep p t).1 + (M.sweeps ps (M.sweep p t).2).1.sum = _
    rw [ih]
    show t.entries.countP _ + (t.entries.map _).countP _ = t.entries.countP _
    rw [List.countP_map]
    exact countP_add (fun e => due_anyOf ps e.2) t.entries

omit [DecidableEq κ] in
theorem sweeps_append (ps qs : List (ρ → Bool)) (t : Table κ ρ) :
    M.sweeps (ps ++ qs) t =
      ((M.sweeps ps t).1 ++ (M.sweeps qs (M.sweeps ps t).2).1, (M.sweeps qs (M.sweeps ps t).2).2) := by
  induction ps generalizing t with
  | nil => rfl
  | cons p ps ih =>
    show ((M.sweep p t).1 :: (M.sweeps (ps ++ qs) (M.sweep p t).2).1,
      (M.sweeps (ps ++ qs) (M.sweep p t).2).2) = _
    rw [ih]
    rfl

omit [DecidableEq κ] in
theorem length_sweeps (ps : List (ρ → Bool)) (t : Table κ ρ) : (M.sweeps ps t).1.length = ps.length := by
  induction ps generalizing t with
  | nil => rfl
  | cons p ps ih => exact congrArg (· + 1) (ih _)

/-- **A sweep that was done before finds nothing.** -/
theorem sweeps_repeated {ps : List (ρ → Bool)} (hp : p ∈ ps) (qs : List (ρ → Bool)) (t : Table κ ρ) :
    (M.sweeps (ps ++ p :: qs) t).1[ps.length]? = some 0 := by
  rw [sweeps_append, List.getElem?_append_right (length_sweeps ps t).le, length_sweeps, Nat.sub_self]
  show some (M.sweep p (M.sweeps ps t).2).1 = some 0
  rw [sweeps_table, Option.some.injEq]
  show ((t.entries.map fun e => (e.1, M.step (anyOf ps) e.2)).countP fun e => M.due p e.2) = 0
  rw [List.countP_eq_zero]
  intro e he
  obtain ⟨e', -, rfl⟩ := List.mem_map.mp he
  dsimp only
  unfold Marking.step
  split_ifs with hd
  · rw [due_mark]
    exact Bool.false_ne_true
  · intro hp'
    rw [Marking.due, Bool.and_eq_true] at hp'
    refine hd ?_
    rw [Marking.due, Bool.and_eq_true]
    exact ⟨List.any_eq_true.mpr ⟨p, hp, hp'.1⟩, hp'.2⟩

end NebulaToken.Lib.Sweep
