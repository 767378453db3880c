import NebulaToken.Runs.Transactions

/-! # Active rows in the SQL deployment

An active row is changed by one transaction. A version that is active and not committed is the record as
its transaction has inserted it; the transaction that rotates or revokes an active row holds it until it
ends, and no other one finds it active once that is committed.

* `active_dirty`: the active versions that are not committed;
* `Took`: a transaction that is not rolled back has changed an active row;
* `taken`: at most one has, and what stays true of its row. -/

namespace NebulaToken.Runs.RowLocks

open NebulaToken.Lib.KeyedTable NebulaToken.Lib.Pool NebulaToken.Lib.Transition
open NebulaToken.Lib.ReadCommitted NebulaToken.Token.Unicode NebulaToken.Token.Wire
open NebulaToken.Engine.Records NebulaToken.Engine.Operations
open NebulaToken.Runs.Calls NebulaToken.Runs.History NebulaToken.Runs.Provenance
open NebulaToken.Runs.Transactions NebulaToken.Store.Contract NebulaToken.Store.Postgres

variable {H : HmacSha256} {s s' : PoolState RefreshTokens} {l : PoolLabel End}
  {G : PoolState RefreshTokens → PoolLabel End → Prop}

/-! ### Statements -/

/-- No `UPDATE` leaves a row active. -/
theorem update_leaves {q : StoreCall} {u : Update TokenRecord} (hq : update q = some u)
    (r : TokenRecord) : (u.set r).status ≠ .active := by
  cases q with
  | findBySelector | insert => cases hq
  | markRotated | revokeIfActive | revokeFamily | revokeUser =>
    obtain rfl := Option.some.inj hq
    exact fun h => nomatch h

/-- The statements that change the row of a selector if it is active. -/
inductive Taking (p : Str) : StoreCall → Prop
  | mark {x : ℤ} {q : Str} : Taking p (.markRotated p .active x q)
  | clear : Taking p (.revokeIfActive p)

theorem Taking.cond {p : Str} {q : StoreCall} {u : Update TokenRecord} {r : TokenRecord}
    (h : Taking p q) (hq : update q = some u) (hc : u.cond r = true) :
    r.selector = p ∧ r.status = .active := by
  cases h with
  | mark | clear =>
    obtain rfl := Option.some.inj hq
    simpa using hc

/-- A single revocation that is applied has changed one row. -/
theorem clear_answer {i : ℕ} {sel : Str} {a a' : RefreshTokens}
    (h : answer a i (.revokeIfActive sel) = some (true, a')) :
    ∃ st, a.running i = some st ∧ st.call = .revokeIfActive sel ∧ st.rowCount = 1 := by
  obtain ⟨⟨n, a₁⟩, hn, he⟩ := Option.map_eq_some_iff.mp h
  obtain ⟨st, hst, -, hcall, -, rfl, -⟩ := rowCount_some hn
  exact ⟨st, hst, hcall, eq_of_beq (Prod.mk.inj he).1⟩

theorem mark_answer {i : ℕ} {p q : Str} {f : TokenStatus} {x : ℤ} {a a' : RefreshTokens}
    (h : answer a i (.markRotated p f x q) = some (true, a')) :
    ∃ st, a.running i = some st ∧ st.call = .markRotated p f x q ∧ st.rowCount = 1 := by
  obtain ⟨⟨n, a₁⟩, hn, he⟩ := Option.map_eq_some_iff.mp h
  obtain ⟨st, hst, -, hcall, -, rfl, -⟩ := rowCount_some hn
  exact ⟨st, hst, hcall, eq_of_beq (Prod.mk.inj he).1⟩

/-! ### Active versions that are not committed -/

/-- **An active version that is not committed is the record as its transaction has inserted it**, and no
other version of the row is committed. -/
theorem active_dirty (h : ((engines H postgres).under G).Reachable s) :
    ∀ p i r, s.shared.dirty.get p = some (i, r) → r.status = .active →
      s.shared.committed.get p = none ∧ Inserted s i r := by
  refine h.invariant (I := fun s => ∀ p i r, s.shared.dirty.get p = some (i, r) → r.status = .active →
    s.shared.committed.get p = none ∧ Inserted s i r) ?_ ?_
  · intro s hs p i r hd
    rw [show s = ⟨postgres.start, []⟩ from hs] at hd
    cases hd
  · intro s l s' hr ih hs p i r hd' ha
    have hch := change hs.2
    rcases dirty_back hch hd' with hd | hw
    · obtain ⟨hnone, hins⟩ := ih p i r hd ha
      refine ⟨?_, did_mono hins hs.2⟩
      rcases committed_step hch p with hsame | ⟨j, r', rfl, ho, hdj, -⟩
      · rw [hsame, hnone]
      · obtain ⟨rfl, -⟩ := Prod.mk.inj (Option.some.inj (hd.symm.trans hdj))
        exact absurd hd' (not_held_of_end hch ho (Or.inl rfl) p r)
    · cases hw with
      | insert hi hk hn =>
        have hsame : s'.shared.committed.get p = s.shared.committed.get p := by
          rcases committed_step hch p with hsame | ⟨j, r', hl, -⟩
          · exact hsame
          · cases hl
        rw [hsame]
        refine ⟨?_, hs.2.did_iff.mpr (Or.inr rfl)⟩
        rw [← Db.seen_committed (i := i), hn]
        intro r₀ hd₀
        rw [Db.seen_own hd₀] at hn
        cases hn
      | update hwait hq hseen hc he hend => exact absurd ha (he ▸ update_leaves hq _)

/-- A transaction that sees an active row under a selector that is committed sees the committed row. -/
theorem seen_active (h : ((engines H postgres).under G).Reachable s) {i : ℕ} {p : Str} {r r₀ : TokenRecord}
    (hseen : s.shared.seen i p = some r) (ha : r.status = .active)
    (hc : s.shared.committed.get p = some r₀) : r₀ = r := by
  rcases Db.seen_cases hseen with hd | ⟨hc', -⟩
  · rw [(active_dirty h p i r hd ha).1] at hc
    cases hc
  · exact Option.some.inj (hc.symm.trans hc')

/-- A row that is committed and not active stays so. -/
theorem inactive_step (hr : ((engines H postgres).under G).Reachable s)
    (hs : Step (code H) postgres s l s') {p : Str} {r : TokenRecord}
    (hc : s.shared.committed.get p = some r) (hna : r.status ≠ .active) :
    ∃ r', s'.shared.committed.get p = some r' ∧ r'.status ≠ .active := by
  rcases committed_step (change hs) p with hsame | ⟨j, r', -, -, hd, hc'⟩
  · exact ⟨r, hsame.trans hc, hna⟩
  · refine ⟨r', hc', fun ha => ?_⟩
    rw [(active_dirty hr p j r' hd ha).1] at hc
    cases hc

/-! ### Who has changed an active row -/

/-- **Call `i` has changed the row of `p` while it was active**: its statement has, or was answered so. -/
inductive Took (s : PoolState RefreshTokens) (i : ℕ) (p : Str) : Prop
  | running {st : Statement Str StoreCall} (h : s.shared.running i = some st) (hc : Taking p st.call)
      (hn : 0 < st.rowCount)
  | marked {x : ℤ} {q : Str} (h : Marked s i p .active x q)
  | cleared (h : s.Did i ⟨.revokeIfActive p, true⟩)

/-- Call `i` comes to the active row of `p`, and changes it. -/
structure Takes (s s' : PoolState RefreshTokens) (i : ℕ) (p : Str) (l : PoolLabel End) : Prop where
  label : l = .work i
  opened : s.shared.ended i = none
  seen : ∃ r, s.shared.seen i p = some r ∧ r.status = .active
  held : ∃ r, s'.shared.dirty.get p = some (i, r) ∧ r.status ≠ .active

/-- **A call has changed an active row before a step, or changes it by the step.** -/
theorem took_back (hr : ((engines H postgres).under G).Reachable s)
    (hs : Step (code H) postgres s l s') {i : ℕ} {p : Str} (h : Took s' i p) :
    Took s i p ∨ Takes s s' i p l := by
  have hV := versions hr
  cases h with
  | @running st' hst' hc' hn' =>
    cases ran (change hs) hst' with
    | kept hl hst he => exact Or.inl (.running hst hc' hn')
    | started hq hi hd he =>
      subst he
      exact absurd hn' (lt_irrefl 0)
    | skipped hq he hst hc hd hpast =>
      subst hpast
      exact Or.inl (.running hst hc' hn')
    | @changed st u k r hq he hst hseen hc hd hpast =>
      subst hpast
      obtain ⟨hsel, ha⟩ := Taking.cond (q := st.call) hc' hq hc
      -- the row it has changed is the one it is for
      obtain rfl : k = p := (hV.seen hseen).selector.symm.trans hsel
      exact Or.inr ⟨rfl, he, ⟨r, hseen, ha⟩, _, hd, update_leaves hq r⟩
  | @marked x q hm =>
    rcases hs.did_iff.mp hm with hold | rfl
    · exact Or.inl (.marked hold)
    · obtain ⟨th, k, -, -, -, ha⟩ := answer_inv hs
      obtain ⟨st, hst, hcall, hone⟩ := mark_answer ha
      exact Or.inl (.running hst (hcall ▸ .mark) (by omega))
  | cleared hd =>
    rcases hs.did_iff.mp hd with hold | rfl
    · exact Or.inl (.cleared hold)
    · obtain ⟨th, k, -, -, -, ha⟩ := answer_inv hs
      obtain ⟨st, hst, hcall, hone⟩ := clear_answer ha
      exact Or.inl (.running hst (hcall ▸ .clear) (by omega))

/-- **What stays true of the active rows that calls have changed.** -/
structure Taken (s : PoolState RefreshTokens) : Prop where
  opened : ∀ i p, Took s i p → s.shared.ended i = none →
    (∃ r, s.shared.dirty.get p = some (i, r) ∧ r.status ≠ .active) ∧
    ∀ r₀, s.shared.committed.get p = some r₀ → r₀.status = .active
  closed : ∀ i p, Took s i p → s.shared.ended i = some .committed →
    ∃ r, s.shared.committed.get p = some r ∧ r.status ≠ .active
  unique : ∀ i j p, Took s i p → Took s j p → s.shared.ended i ≠ some .rolledBack →
    s.shared.ended j ≠ some .rolledBack → i = j

theorem Taken.init : Taken ⟨postgres.start, []⟩ := by
  have hno : ∀ i p, ¬ Took ⟨postgres.start, []⟩ i p := by
    intro i p h
    cases h with
    | running h => cases h
    | marked h | cleared h =>
      obtain ⟨th, hi, -⟩ := h
      cases hi
  exact ⟨fun i p h => absurd h (hno i p), fun i p h => absurd h (hno i p),
    fun i j p h => absurd h (hno i p)⟩

/-- Nobody else has changed a row that a transaction sees active and may write. -/
theorem Taken.not_takes (hT : Taken s) (hr : ((engines H postgres).under G).Reachable s)
    (hs : Step (code H) postgres s l s') {i j : ℕ} {p : Str} (h : Took s i p)
    (hi : s.shared.ended i ≠ some .rolledBack) (ht : Takes s s' j p l) : i = j := by
  obtain ⟨r, hseen, ha⟩ := ht.seen
  cases he : s.shared.ended i with
  | none =>
    obtain ⟨⟨r₁, hd, -⟩, -⟩ := hT.opened i p h he
    obtain ⟨r₂, hd', -⟩ := ht.held
    -- the row is locked
    rcases held_step (change hs) hd with hd₁ | ⟨r₃, hd₁, -⟩ | hl
    · exact (Prod.mk.inj (Option.some.inj (hd₁.symm.trans hd'))).1
    · exact (Prod.mk.inj (Option.some.inj (hd₁.symm.trans hd'))).1
    · rw [ht.label] at hl
      rcases hl with hl | hl <;> cases hl
  | some e =>
    cases e with
    | committed =>
      obtain ⟨r₁, hc, hna⟩ := hT.closed i p h he
      rw [seen_active hr hseen ha hc] at hna
      exact absurd ha hna
    | rolledBack => exact absurd he hi

theorem Taken.step (hT : Taken s) (hr : ((engines H postgres).under G).Reachable s)
    (hs : Step (code H) postgres s l s') : Taken s' := by
  have hch := change hs
  have hback : ∀ {i : ℕ}, s'.shared.ended i = none → s.shared.ended i = none := by
    intro i he'
    rcases ended_step hch i with h | ⟨h, -⟩
    · rw [← h, he']
    · exact h
  have hroll : ∀ {i : ℕ}, s'.shared.ended i ≠ some .rolledBack → s.shared.ended i ≠ some .rolledBack :=
    fun h he => h (ended_mono hch he)
  refine ⟨?_, ?_, ?_⟩
  · intro i p h he'
    rcases took_back hr hs h with hold | ht
    · have he := hback he'
      obtain ⟨⟨r, hd, hna⟩, hc⟩ := hT.opened i p hold he
      -- the committed row changes with the transaction that holds it
      have hsame : s'.shared.committed.get p = s.shared.committed.get p := by
        rcases committed_step hch p with hsame | ⟨j, r', rfl, ho, hdj, -⟩
        · exact hsame
        · obtain ⟨rfl, -⟩ := Prod.mk.inj (Option.some.inj (hd.symm.trans hdj))
          exact absurd he' (ended_of_end hch ho (Or.inl rfl))
      rw [hsame]
      refine ⟨?_, hc⟩
      rcases held_step hch hd with hd' | ⟨r', hd', hw⟩ | hl
      · exact ⟨r, hd', hna⟩
      · refine ⟨r', hd', ?_⟩
        cases hw with
        | insert hi hk hn =>
          rw [Db.seen_own hd] at hn
          cases hn
        | update hwait hq hseen hc heq hend => exact heq ▸ update_leaves hq _
      · exact absurd he' (ended_of_end hch he hl)
    · obtain ⟨r, hseen, ha⟩ := ht.seen
      refine ⟨ht.held, fun r₀ hc => ?_⟩
      have hsame : s'.shared.committed.get p = s.shared.committed.get p := by
        rcases committed_step hch p with hsame | ⟨j, r', hl, -⟩
        · exact hsame
        · rw [ht.label] at hl
          cases hl
      rw [hsame] at hc
      rw [seen_active hr hseen ha hc, ha]
  · intro i p h he'
    rcases took_back hr hs h with hold | ht
    · rcases ended_step hch i with hsame | ⟨ho, ⟨rfl, -⟩ | ⟨-, hrb⟩⟩
      · obtain ⟨r, hc, hna⟩ := hT.closed i p hold (hsame.symm.trans he')
        exact inactive_step hr hs hc hna
      · obtain ⟨⟨r, hd, hna⟩, -⟩ := hT.opened i p hold ho
        refine ⟨r, ?_, hna⟩
        rw [commit_step hch ho, Db.get_commit ho, Db.seen_own hd]
      · rw [he'] at hrb
        cases hrb
    · have hsame := ended_step hch i
      rw [ht.opened, he', ht.label] at hsame
      simp at hsame
  · intro i j p h h' hi hj
    rcases took_back hr hs h with hold | ht
    · rcases took_back hr hs h' with hold' | ht'
      · exact hT.unique i j p hold hold' (hroll hi) (hroll hj)
      · exact hT.not_takes hr hs hold (hroll hi) ht'
    · rcases took_back hr hs h' with hold' | ht'
      · exact (hT.not_takes hr hs hold' (hroll hj) ht).symm
      · exact Label.work.inj (ht.label.symm.trans ht'.label)

theorem taken (h : ((engines H postgres).under G).Reachable s) : Taken s :=
  h.invariant (I := Taken) (fun s hs => by rw [show s = ⟨postgres.start, []⟩ from hs]; exact .init)
    fun _ _ _ hr hT hs => hT.step hr hs.2

end NebulaToken.Runs.RowLocks
