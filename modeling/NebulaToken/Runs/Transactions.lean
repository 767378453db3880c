import NebulaToken.Runs.Families
import NebulaToken.Store.Postgres

/-! # Versions and locks

Engines over the SQL deployment, each call in its transaction. What a step does to the versions of a row,
and what stays true of them: a version is of a record that some call has inserted, a version that is not
committed comes after the committed one, and a transaction that has rotated a row holds it until it ends.

* `written`, `held_step`, `committed_step`: the versions after a step;
* `versions`: the invariant. -/

namespace NebulaToken.Runs.Transactions

open NebulaToken.Lib.KeyedTable NebulaToken.Lib.Pool NebulaToken.Lib.Transition
open NebulaToken.Lib.ReadCommitted NebulaToken.Token.Unicode NebulaToken.Token.Wire
open NebulaToken.Engine.Records NebulaToken.Engine.Operations
open NebulaToken.Runs.Calls NebulaToken.Runs.History NebulaToken.Runs.Provenance
open NebulaToken.Runs.Families NebulaToken.Store.Contract NebulaToken.Store.Postgres

variable {H : HmacSha256} {s s' : PoolState RefreshTokens} {l : PoolLabel End}
  {G : PoolState RefreshTokens → PoolLabel End → Prop}

/-- Call `i` waits for the reply to `q`. -/
def Waits (s : PoolState RefreshTokens) (i : ℕ) (q : StoreCall) : Prop :=
  ∃ th k, s.threads[i]? = some th ∧ th.prog = .call q k

/-! ### What a step does -/

/-- **How a step changes the deployment.** -/
inductive Change (s s' : PoolState RefreshTokens) : PoolLabel End → Prop
  | invoked {op : Operation} (h : s'.shared = s.shared) : Change s s' (.invoke op)
  | stopped {i : ℕ} {m : Mode} (h : s'.shared = s.shared) : Change s s' (.stop i m)
  | selected {i : ℕ} {sel : Str} {r : Option TokenRecord} (hi : idle s.shared i = true)
      (hr : r = s.shared.seen i sel) (h : s'.shared = s.shared) :
    Change s s' (.answer i ⟨.findBySelector sel, r⟩)
  | inserted {i : ℕ} {n : TokenRecord} (hi : idle s.shared i = true)
      (hf : s.shared.free i n.selector = true) (hn : s.shared.seen i n.selector = none)
      (h : s'.shared = s.shared.write i n.selector n) : Change s s' (.answer i ⟨.insert n, ()⟩)
  | started {i : ℕ} {q : StoreCall} {u : Update TokenRecord} (hw : Waits s i q) (hq : update q = some u)
      (hi : idle s.shared i = true) (h : s'.shared = s.shared.start i q u) : Change s s' (.work i)
  | skipped {i : ℕ} {st : Statement Str StoreCall} {u : Update TokenRecord} {k : Str}
      (hw : Waits s i st.call) (hq : update st.call = some u) (he : s.shared.ended i = none)
      (hst : s.shared.running i = some st) (hc : ∀ r, s.shared.seen i k = some r → u.cond r = false)
      (h : s'.shared = s.shared.setRunning i (some (st.past k 0))) : Change s s' (.work i)
  | changed {i : ℕ} {st : Statement Str StoreCall} {u : Update TokenRecord} {k : Str} {r : TokenRecord}
      (hw : Waits s i st.call) (hq : update st.call = some u) (he : s.shared.ended i = none)
      (hst : s.shared.running i = some st) (hf : s.shared.free i k = true)
      (hr : s.shared.seen i k = some r) (hc : u.cond r = true)
      (h : s'.shared = (s.shared.write i k (u.set r)).setRunning i (some (st.past k 1))) :
    Change s s' (.work i)
  | finished {i : ℕ} {st : Statement Str StoreCall} {rep : st.call.Reply} (he : s.shared.ended i = none)
      (hst : s.shared.running i = some st) (htodo : st.todo = [])
      (hrep : ∀ p f x q, st.call = .markRotated p f x q → HEq rep true → st.rowCount = 1)
      (h : s'.shared = s.shared.setRunning i none) : Change s s' (.answer i ⟨st.call, rep⟩)
  | committed {i : ℕ} (he : s.shared.ended i = none) (h : s'.shared = s.shared.commit i) :
    Change s s' (.env (.commit i))
  | rolledBack {i : ℕ} (he : s.shared.ended i = none) (h : s'.shared = s.shared.rollback i) :
    Change s s' (.env (.rollback i))
  | late {i : ℕ} {a : End} {e : Ending} (ha : a = .commit i ∨ a = .rollback i)
      (he : s.shared.ended i = some e) (h : s'.shared = s.shared) : Change s s' (.env a)

theorem change (hs : Step (code H) postgres s l s') : Change s s' l := by
  cases hs with
  | invoke op => exact .invoked rfl
  | stop => exact .stopped rfl
  | @answer i th q k rep a hi hm hp ha =>
    cases answers ha with
    | select hidle => exact .selected hidle rfl rfl
    | insert hidle hf hn => exact .inserted hidle hf hn rfl
    | update hst he htodo hrep => exact .finished he hst htodo hrep rfl
  | @work i th q k a hi hm hp hw =>
    have hwait : Waits s i q := ⟨th, k, hi, hp⟩
    cases hw with
    | start hq hidle => exact .started hwait hq hidle rfl
    | @come u st sel hq he hst hc hsel hf =>
      subst hc
      rcases Db.come_cases s.shared i st u sel with ⟨hno, hcome⟩ | ⟨r, hr, hc, hcome⟩
      · exact .skipped hwait hq he hst hno hcome
      · exact .changed hwait hq he hst hf hr hc hcome
  | env a =>
    cases a with
    | commit i =>
      cases hend : s.shared.ended i with
      | none => exact .committed hend rfl
      | some e => exact .late (Or.inl rfl) hend (if_neg (by rw [hend]; exact Option.some_ne_none e))
    | rollback i =>
      cases hend : s.shared.ended i with
      | none => exact .rolledBack hend rfl
      | some e => exact .late (Or.inr rfl) hend (if_neg (by rw [hend]; exact Option.some_ne_none e))

/-! ### The versions after a step -/

/-- **Call `i` writes a version of the row**: it inserts it, or changes the one it sees. -/
inductive Wrote (s : PoolState RefreshTokens) (i : ℕ) (k : Str) (r' : TokenRecord) :
    PoolLabel End → Prop
  | insert (hi : idle s.shared i = true) (hk : r'.selector = k) (hn : s.shared.seen i k = none) :
    Wrote s i k r' (.answer i ⟨.insert r', ()⟩)
  | update {q : StoreCall} {u : Update TokenRecord} {r : TokenRecord} (hw : Waits s i q)
      (hq : update q = some u) (hr : s.shared.seen i k = some r) (hc : u.cond r = true)
      (he : r' = u.set r) (hend : s.shared.ended i = none) : Wrote s i k r' (.work i)

/-- A version that is not committed was there before the step, or its transaction writes it. -/
theorem dirty_back (h : Change s s' l) {k : Str} {i : ℕ} {r' : TokenRecord}
    (hd : s'.shared.dirty.get k = some (i, r')) :
    s.shared.dirty.get k = some (i, r') ∨ Wrote s i k r' l := by
  cases h with
  | invoked h | stopped h | selected hi hr h | late ha he h =>
    rw [h] at hd
    exact Or.inl hd
  | @inserted j n hi hf hn h =>
    rw [h] at hd
    rcases eq_or_ne k n.selector with rfl | hk
    · rw [Db.get_write_self] at hd
      obtain ⟨rfl, rfl⟩ := Prod.mk.inj (Option.some.inj hd)
      exact Or.inr (.insert hi rfl hn)
    · rw [Db.get_write_ne hk] at hd
      exact Or.inl hd
  | started hw hq hi h | skipped hw hq he hst hc h | finished he hst htodo hrep h =>
    rw [h] at hd
    exact Or.inl hd
  | @changed j st u k₀ r hw hq he hst hf hr hc h =>
    rw [h] at hd
    rcases eq_or_ne k k₀ with rfl | hk
    · have hd : (s.shared.write j k (u.set r)).dirty.get k = some (i, r') := hd
      rw [Db.get_write_self] at hd
      obtain ⟨rfl, rfl⟩ := Prod.mk.inj (Option.some.inj hd)
      exact Or.inr (.update hw hq hr hc rfl he)
    · exact Or.inl ((Db.get_write_ne hk).symm.trans hd)
  | committed he h =>
    rw [h, Db.commit, if_pos he] at hd
    exact Or.inl (Db.get_close.mp hd).1
  | rolledBack he h =>
    rw [h, Db.rollback, if_pos he] at hd
    exact Or.inl (Db.get_close.mp hd).1

/-- **A version that is not committed stays** until its transaction writes the row again, or ends: the
row is locked. -/
theorem held_step (h : Change s s' l) {k : Str} {i : ℕ} {r : TokenRecord}
    (hd : s.shared.dirty.get k = some (i, r)) :
    s'.shared.dirty.get k = some (i, r) ∨
    (∃ r', s'.shared.dirty.get k = some (i, r') ∧ Wrote s i k r' l) ∨
    l = .env (.commit i) ∨ l = .env (.rollback i) := by
  cases h with
  | invoked h | stopped h | selected hi hr h | late ha he h =>
    rw [h]
    exact Or.inl hd
  | @inserted j n hi hf hn h =>
    rw [h]
    rcases eq_or_ne k n.selector with rfl | hk
    · obtain rfl := Db.eq_of_free hf hd
      exact Or.inr (Or.inl ⟨n, Db.get_write_self, .insert hi rfl hn⟩)
    · rw [Db.get_write_ne hk]
      exact Or.inl hd
  | started hw hq hi h | skipped hw hq he hst hc h | finished he hst htodo hrep h =>
    rw [h]
    exact Or.inl hd
  | @changed j st u k₀ r₀ hw hq he hst hf hr hc h =>
    rw [h]
    rcases eq_or_ne k k₀ with rfl | hk
    · obtain rfl := Db.eq_of_free hf hd
      exact Or.inr (Or.inl ⟨_, Db.get_write_self, .update hw hq hr hc rfl he⟩)
    · exact Or.inl ((Db.get_write_ne hk).trans hd)
  | @committed j he h =>
    rw [h, Db.commit, if_pos he, Db.get_close]
    by_cases hij : i = j
    · exact Or.inr (Or.inr (Or.inl (by rw [hij])))
    · exact Or.inl ⟨hd, hij⟩
  | @rolledBack j he h =>
    rw [h, Db.rollback, if_pos he, Db.get_close]
    by_cases hij : i = j
    · exact Or.inr (Or.inr (Or.inr (by rw [hij])))
    · exact Or.inl ⟨hd, hij⟩

/-- **A committed row changes** when the transaction that holds it commits. -/
theorem committed_step (h : Change s s' l) (k : Str) :
    s'.shared.committed.get k = s.shared.committed.get k ∨
    ∃ i r, l = .env (.commit i) ∧ s.shared.ended i = none ∧ s.shared.dirty.get k = some (i, r) ∧
      s'.shared.committed.get k = some r := by
  cases h with
  | invoked h | stopped h | selected hi hr h | late ha he h =>
    rw [h]
    exact Or.inl rfl
  | inserted hi hf hn h | started hw hq hi h | skipped hw hq he hst hc h =>
    rw [h]
    exact Or.inl rfl
  | finished he hst htodo hrep h | changed hw hq he hst hf hr hc h =>
    rw [h]
    exact Or.inl rfl
  | rolledBack he h =>
    rw [h, Db.get_rollback]
    exact Or.inl rfl
  | @committed i he h =>
    rw [h, Db.get_commit he]
    by_cases hd : ∃ r, s.shared.dirty.get k = some (i, r)
    · obtain ⟨r, hr⟩ := hd
      exact Or.inr ⟨i, r, rfl, he, hr, Db.seen_own hr⟩
    · exact Or.inl (Db.seen_committed fun r hr => hd ⟨r, hr⟩)

/-- How a transaction ends. -/
theorem ended_step (h : Change s s' l) (i : ℕ) : s'.shared.ended i = s.shared.ended i ∨
    (s.shared.ended i = none ∧ ((l = .env (.commit i) ∧ s'.shared.ended i = some .committed) ∨
      (l = .env (.rollback i) ∧ s'.shared.ended i = some .rolledBack))) := by
  cases h with
  | invoked h | stopped h | selected hi hr h | late ha he h =>
    rw [h]
    exact Or.inl rfl
  | inserted hi hf hn h | started hw hq hi h | skipped hw hq he hst hc h =>
    rw [h]
    exact Or.inl rfl
  | finished he hst htodo hrep h | changed hw hq he hst hf hr hc h =>
    rw [h]
    exact Or.inl rfl
  | @committed j he h =>
    rw [h, Db.commit, if_pos he, Db.ended_close]
    by_cases hij : i = j
    · subst hij
      exact Or.inr ⟨he, Or.inl ⟨rfl, if_pos rfl⟩⟩
    · exact Or.inl (if_neg hij)
  | @rolledBack j he h =>
    rw [h, Db.rollback, if_pos he, Db.ended_close]
    by_cases hij : i = j
    · subst hij
      exact Or.inr ⟨he, Or.inr ⟨rfl, if_pos rfl⟩⟩
    · exact Or.inl (if_neg hij)

/-- A transaction that has ended has ended for good. -/
theorem ended_mono (h : Change s s' l) {i : ℕ} {e : Ending} (he : s.shared.ended i = some e) :
    s'.shared.ended i = some e := by
  rcases ended_step h i with h | ⟨h, -⟩
  · rw [h, he]
  · rw [he] at h
    cases h

/-- A call that is answered has its transaction open. -/
theorem open_of_answer {i : ℕ} {ev : StoreEvent} (h : Change s s' (.answer i ev)) :
    s'.shared.ended i = none := by
  have he : s.shared.ended i = none := by
    generalize hl : (Label.answer i ev : PoolLabel End) = l at h
    cases h with
    | selected hi | inserted hi =>
      obtain ⟨rfl, -⟩ := Label.answer.inj hl
      exact (idle_iff.mp hi).1
    | finished he =>
      obtain ⟨rfl, -⟩ := Label.answer.inj hl
      exact he
    | invoked | stopped | started | skipped | changed | committed | rolledBack | late => cases hl
  rcases ended_step h i with h | ⟨-, ⟨h, -⟩ | ⟨h, -⟩⟩
  · rw [h, he]
  · cases h
  · cases h

theorem commit_step {i : ℕ} (h : Change s s' (.env (.commit i))) (he : s.shared.ended i = none) :
    s'.shared = s.shared.commit i := by
  cases h with
  | committed _ h => exact h
  | late ha he' _ =>
    rcases ha with ha | ha
    · cases ha
      rw [he] at he'
      cases he'
    · cases ha

theorem rollback_step {i : ℕ} (h : Change s s' (.env (.rollback i))) (he : s.shared.ended i = none) :
    s'.shared = s.shared.rollback i := by
  cases h with
  | rolledBack _ h => exact h
  | late ha he' _ =>
    rcases ha with ha | ha
    · cases ha
    · cases ha
      rw [he] at he'
      cases he'

/-- A transaction that is committed or rolled back has ended. -/
theorem ended_of_end (h : Change s s' l) {i : ℕ} (he : s.shared.ended i = none)
    (hl : l = .env (.commit i) ∨ l = .env (.rollback i)) : s'.shared.ended i ≠ none := by
  rcases hl with rfl | rfl
  · rw [commit_step h he, Db.commit, if_pos he, Db.ended_close, if_pos rfl]
    exact Option.some_ne_none _
  · rw [rollback_step h he, Db.rollback, if_pos he, Db.ended_close, if_pos rfl]
    exact Option.some_ne_none _

/-- The versions of a transaction that ends are gone. -/
theorem not_held_of_end (h : Change s s' l) {i : ℕ} (he : s.shared.ended i = none)
    (hl : l = .env (.commit i) ∨ l = .env (.rollback i)) (sel : Str) (r : TokenRecord) :
    s'.shared.dirty.get sel ≠ some (i, r) := by
  intro hd
  rcases hl with rfl | rfl
  · rw [commit_step h he, Db.commit, if_pos he] at hd
    exact (Db.get_close.mp hd).2 rfl
  · rw [rollback_step h he, Db.rollback, if_pos he] at hd
    exact (Db.get_close.mp hd).2 rfl

/-- A row that is committed stays so. -/
theorem present_step (h : Change s s' l) {sel : Str} {r : TokenRecord}
    (hc : s.shared.committed.get sel = some r) : ∃ r', s'.shared.committed.get sel = some r' := by
  rcases committed_step h sel with h | ⟨i, r', -, -, -, h⟩
  · exact ⟨r, h.trans hc⟩
  · exact ⟨r', h⟩

/-! ### The invariant -/

/-- `r` is a version of a record that some call has inserted under the selector. -/
def Minted (s : PoolState RefreshTokens) (sel : Str) (r : TokenRecord) : Prop :=
  ∃ i n, Inserted s i n ∧ n.selector = sel ∧ minted r = minted n

theorem Minted.mono {sel : Str} {r : TokenRecord} (h : Minted s sel r) (hs : Step (code H) postgres s l s') :
    Minted s' sel r := by
  obtain ⟨i, n, hi, hn, he⟩ := h
  exact ⟨i, n, did_mono hi hs, hn, he⟩

theorem Minted.congr {sel : Str} {r r' : TokenRecord} (h : Minted s sel r) (he : minted r' = minted r) :
    Minted s sel r' := by
  obtain ⟨i, n, hi, hn, hm⟩ := h
  exact ⟨i, n, hi, hn, he.trans hm⟩

theorem Minted.selector {sel : Str} {r : TokenRecord} (h : Minted s sel r) : r.selector = sel := by
  obtain ⟨i, n, -, hn, hm⟩ := h
  rw [← hn]
  exact (congrArg TokenRecord.selector hm :)

/-- **What is known of the versions.** -/
structure Versions (s : PoolState RefreshTokens) : Prop where
  committed : ∀ sel r, s.shared.committed.get sel = some r → Minted s sel r
  dirty : ∀ sel i r, s.shared.dirty.get sel = some (i, r) → Minted s sel r ∧ s.shared.ended i = none ∧
    ∀ r₀, s.shared.committed.get sel = some r₀ → r₀.status = .revoked → r.status = .revoked
  found : ∀ i sel r, s.Did i ⟨.findBySelector sel, some r⟩ → Minted s sel r
  inserted : ∀ i n, Inserted s i n →
    (s.shared.ended i = none → ∃ r, s.shared.dirty.get n.selector = some (i, r)) ∧
    (s.shared.ended i = some .committed → ∃ r, s.shared.committed.get n.selector = some r)

/-- What a transaction sees is a version. -/
theorem Versions.seen (hV : Versions s) {i : ℕ} {sel : Str} {r : TokenRecord}
    (h : s.shared.seen i sel = some r) : Minted s sel r := by
  rcases Db.seen_cases h with hd | ⟨hc, -⟩
  · exact (hV.dirty sel i r hd).1
  · exact hV.committed sel r hc

/-- Every transaction sees a row that is committed, revoked if it is. -/
theorem Versions.sees (hV : Versions s) {sel : Str} {r₀ : TokenRecord}
    (h : s.shared.committed.get sel = some r₀) (i : ℕ) :
    ∃ r, s.shared.seen i sel = some r ∧ (r₀.status = .revoked → r.status = .revoked) := by
  by_cases hd : ∃ r, s.shared.dirty.get sel = some (i, r)
  · obtain ⟨r, hr⟩ := hd
    exact ⟨r, Db.seen_own hr, (hV.dirty sel i r hr).2.2 r₀ h⟩
  · refine ⟨r₀, ?_, fun hrev => hrev⟩
    rw [Db.seen_committed fun r hr => hd ⟨r, hr⟩, h]

/-- A call that waits for an `UPDATE` does not ask for a rotation of a revoked row. -/
theorem not_revoked_of_waits (hr : ((engines H postgres).under G).Reachable s) {i : ℕ} {q : StoreCall}
    (hw : Waits s i q) : ∀ p f x p', q = .markRotated p f x p' → f ≠ .revoked := by
  rintro p f x p' rfl
  obtain ⟨th, k, hi, hp⟩ := hw
  have hat := callAt hr th (mem_of_getElem? hi)
  rw [hp] at hat
  generalize th.trace = tr at hat
  generalize th.op = op at hat
  cases mark_request hat with
  | refresh ht => exact ht.not_revoked

/-- What a call writes is a version, and it writes over no revoked one. -/
theorem Wrote.spec (hr : ((engines H postgres).under G).Reachable s) (hV : Versions s)
    (hs : Step (code H) postgres s l s') {i : ℕ} {sel : Str} {r' : TokenRecord}
    (h : Wrote s i sel r' l) : Minted s' sel r' ∧ s.shared.ended i = none ∧
      ∀ r, s.shared.seen i sel = some r → r.status ≠ .revoked := by
  cases h with
  | insert hi hk hn =>
    refine ⟨⟨i, r', hs.did_iff.mpr (Or.inr rfl), hk, rfl⟩, (idle_iff.mp hi).1, fun r hr => ?_⟩
    rw [hn] at hr
    cases hr
  | @update q u r hw hq hr' hc he hend =>
    obtain ⟨hne, hm⟩ := update_later hq hc (not_revoked_of_waits hr hw)
    subst he
    refine ⟨((hV.seen hr').congr hm).mono hs, hend, fun r₀ hr₀ => ?_⟩
    rw [← Option.some.inj (hr'.symm.trans hr₀)]
    exact hne

theorem Versions.init : Versions ⟨postgres.start, []⟩ := by
  have hno : ∀ i ev, ¬ (⟨postgres.start, []⟩ : PoolState RefreshTokens).Did i ev := by
    rintro i ev ⟨th, hi, -⟩
    cases hi
  refine ⟨fun sel r h => (nomatch h), fun sel i r h => (nomatch h), fun i sel r h => absurd h (hno i _),
    fun i n h => absurd h (hno i _)⟩

/-- **A step keeps what is known of the versions.** -/
theorem Versions.step (hV : Versions s) (hr : ((engines H postgres).under G).Reachable s)
    (hs : Step (code H) postgres s l s') : Versions s' := by
  have hch := change hs
  refine ⟨?_, ?_, ?_, ?_⟩
  · intro sel r hc
    rcases committed_step hch sel with h | ⟨i, r', -, -, hd, h⟩
    · rw [h] at hc
      exact (hV.committed sel r hc).mono hs
    · rw [h] at hc
      obtain rfl := Option.some.inj hc
      exact (hV.dirty sel i r' hd).1.mono hs
  · intro sel i r hd
    have hopen : s.shared.ended i = none → s'.shared.ended i = none := by
      intro he
      rcases ended_step hch i with h | ⟨-, ⟨hl, -⟩ | ⟨hl, -⟩⟩
      · rw [h, he]
      · exact absurd hd (not_held_of_end hch he (Or.inl hl) sel r)
      · exact absurd hd (not_held_of_end hch he (Or.inr hl) sel r)
    rcases dirty_back hch hd with hold | hw
    · obtain ⟨hm, he, hrev⟩ := hV.dirty sel i r hold
      refine ⟨hm.mono hs, hopen he, fun r₀ h₀ => ?_⟩
      rcases committed_step hch sel with h | ⟨j, r', hl, he', hd', h⟩
      · rw [h] at h₀
        exact hrev r₀ h₀
      · rw [hold] at hd'
        obtain ⟨rfl, -⟩ := Prod.mk.inj (Option.some.inj hd')
        exact absurd hd (not_held_of_end hch he (Or.inl hl) sel r)
    · obtain ⟨hm, he, hne⟩ := hw.spec hr hV hs
      refine ⟨hm, hopen he, fun r₀ h₀ hrev => ?_⟩
      have hsame : s'.shared.committed.get sel = s.shared.committed.get sel := by
        rcases committed_step hch sel with h | ⟨j, r', rfl, -⟩
        · exact h
        · cases hw
      rw [hsame] at h₀
      obtain ⟨r₁, hr₁, hrev₁⟩ := hV.sees h₀ i
      exact absurd (hrev₁ hrev) (hne r₁ hr₁)
  · intro i sel r hd
    rcases hs.did_iff.mp hd with hold | rfl
    · exact (hV.found i sel r hold).mono hs
    · obtain ⟨th, k, -, -, -, ha⟩ := answer_inv hs
      exact (hV.seen (answer_find ha).1.symm).mono hs
  · intro i n hins
    rcases hs.did_iff.mp hins with hold | rfl
    · obtain ⟨hopen, hdone⟩ := hV.inserted i n hold
      refine ⟨fun he' => ?_, fun he' => ?_⟩
      · rcases ended_step hch i with h | ⟨he, ⟨-, h⟩ | ⟨-, h⟩⟩
        · obtain ⟨r, hd⟩ := hopen (h.symm.trans he')
          rcases held_step hch hd with h₁ | ⟨r', h₁, -⟩ | hl
          · exact ⟨r, h₁⟩
          · exact ⟨r', h₁⟩
          · exact absurd he' (ended_of_end hch (h.symm.trans he') hl)
        · rw [he'] at h
          cases h
        · rw [he'] at h
          cases h
      · rcases ended_step hch i with h | ⟨he, ⟨rfl, -⟩ | ⟨-, h⟩⟩
        · obtain ⟨r, hc⟩ := hdone (h.symm.trans he')
          exact present_step hch hc
        · obtain ⟨r, hd⟩ := hopen he
          refine ⟨r, ?_⟩
          rw [commit_step hch he, Db.get_commit he, Db.seen_own hd]
        · rw [he'] at h
          cases h
    · obtain ⟨th, k, -, -, -, ha⟩ := answer_inv hs
      obtain ⟨hidle, hw⟩ := answer_insert ha
      refine ⟨fun _ => ⟨n, ?_⟩, fun he => ?_⟩
      · rw [hw]
        exact Db.get_write_self
      · rw [hw] at he
        rw [show (s.shared.write i n.selector n).ended i = s.shared.ended i from rfl,
          (idle_iff.mp hidle).1] at he
        cases he

theorem versions (h : ((engines H postgres).under G).Reachable s) : Versions s :=
  h.invariant (I := Versions) (fun s hs => by rw [show s = ⟨postgres.start, []⟩ from hs]; exact .init)
    fun _ _ _ hr hV hs => hV.step hr hs.2

/-! ### Statements and locks -/

/-- **How a transaction comes to a statement.** -/
inductive Ran (s s' : PoolState RefreshTokens) (i : ℕ) (st' : Statement Str StoreCall) :
    PoolLabel End → Prop
  | kept {l : PoolLabel End} (hl : l ≠ .work i) (h : s.shared.running i = some st')
      (he : s'.shared.ended i = s.shared.ended i) : Ran s s' i st' l
  | started {q : StoreCall} {u : Update TokenRecord} (hq : update q = some u)
      (hi : idle s.shared i = true) (hd : s'.shared.dirty = s.shared.dirty)
      (h : st' = ⟨q, s.shared.candidates i u.cond, 0⟩) : Ran s s' i st' (.work i)
  | skipped {st : Statement Str StoreCall} {u : Update TokenRecord} {k : Str}
      (hq : update st.call = some u) (he : s.shared.ended i = none) (hst : s.shared.running i = some st)
      (hc : ∀ r, s.shared.seen i k = some r → u.cond r = false)
      (hd : s'.shared.dirty = s.shared.dirty) (h : st' = st.past k 0) : Ran s s' i st' (.work i)
  | changed {st : Statement Str StoreCall} {u : Update TokenRecord} {k : Str} {r : TokenRecord}
      (hq : update st.call = some u) (he : s.shared.ended i = none) (hst : s.shared.running i = some st)
      (hr : s.shared.seen i k = some r) (hc : u.cond r = true)
      (hd : s'.shared.dirty.get k = some (i, u.set r)) (h : st' = st.past k 1) :
    Ran s s' i st' (.work i)

theorem ran (h : Change s s' l) {i : ℕ} {st' : Statement Str StoreCall}
    (hst' : s'.shared.running i = some st') : Ran s s' i st' l := by
  -- a step of another transaction
  have hother : ∀ {j : ℕ} {st : Option (Statement Str StoreCall)}, i ≠ j →
      s'.shared.running = (s.shared.setRunning j st).running → s.shared.running i = some st' := by
    intro j st hij hr
    rw [hr, Db.running_setRunning_ne hij] at hst'
    exact hst'
  have hself : ∀ {st : Option (Statement Str StoreCall)},
      s'.shared.running = (s.shared.setRunning i st).running → st = some st' := by
    intro st hr
    rw [hr, Db.running_setRunning_self] at hst'
    exact hst'
  cases h with
  | invoked h | stopped h | selected hi hr h | late ha he h =>
    rw [h] at hst'
    exact .kept (by simp) hst' (by rw [h])
  | inserted hi hf hn h =>
    rw [h] at hst'
    exact .kept (by simp) hst' (by rw [h]; rfl)
  | @started j q u hw hq hi h =>
    by_cases hij : i = j
    · subst hij
      exact .started hq hi (by rw [h]; rfl) (Option.some.inj (hself (by rw [h]; rfl))).symm
    · exact .kept (by simpa using Ne.symm hij) (hother hij (by rw [h]; rfl)) (by rw [h]; rfl)
  | @skipped j st u k hw hq he hst hc h =>
    by_cases hij : i = j
    · subst hij
      exact .skipped hq he hst hc (by rw [h]; rfl) (Option.some.inj (hself (by rw [h]))).symm
    · exact .kept (by simpa using Ne.symm hij) (hother hij (by rw [h])) (by rw [h]; rfl)
  | @changed j st u k r hw hq he hst hf hr hc h =>
    by_cases hij : i = j
    · subst hij
      exact .changed hq he hst hr hc (by rw [h]; exact Db.get_write_self)
        (Option.some.inj (hself (by rw [h]; rfl))).symm
    · exact .kept (by simpa using Ne.symm hij) (hother hij (by rw [h]; rfl)) (by rw [h]; rfl)
  | @finished j st rep he hst htodo hrep h =>
    by_cases hij : i = j
    · subst hij
      cases hself (by rw [h])
    · exact .kept (by simp) (hother hij (by rw [h])) (by rw [h]; rfl)
  | @committed j he h =>
    rw [h, Db.commit, if_pos he, Db.running_close] at hst'
    split_ifs at hst' with hij
    exact .kept (by simp) hst' (by rw [h, Db.commit, if_pos he, Db.ended_close, if_neg hij])
  | @rolledBack j he h =>
    rw [h, Db.rollback, if_pos he, Db.running_close] at hst'
    split_ifs at hst' with hij
    exact .kept (by simp) hst' (by rw [h, Db.rollback, if_pos he, Db.ended_close, if_neg hij])

theorem Wrote.waits (hs : Step (code H) postgres s l s') {i : ℕ} {k : Str} {r : TokenRecord}
    (h : Wrote s i k r l) : ∃ q, Waits s i q := by
  cases h with
  | insert hi hk hn =>
    obtain ⟨th, c, hth, -, hp, -⟩ := answer_inv hs
    exact ⟨_, th, c, hth, hp⟩
  | update hw hq hr hc he hend => exact ⟨_, hw⟩

/-- A call that has rotated makes no more store calls. -/
theorem not_waits_of_marked (hr : ((engines H postgres).under G).Reachable s) {i : ℕ} {p p' : Str}
    {f : TokenStatus} {x : ℤ} (hm : Marked s i p f x p') (q : StoreCall) : ¬ Waits s i q := by
  rintro ⟨th, k, hi, hp⟩
  obtain ⟨c, r, n, tr, hw, -, -⟩ := won_of_marked hr hm
  obtain ⟨mode, hi'⟩ := hw.thread
  obtain rfl := Option.some.inj (hi.symm.trans hi')
  cases hp

/-- **What is known of the locks**: a transaction that has rotated a row holds it until it ends. -/
structure Locks (s : PoolState RefreshTokens) : Prop where
  opened : ∀ i st, s.shared.running i = some st → s.shared.ended i = none
  marking : ∀ i st p f x q, s.shared.running i = some st → st.call = .markRotated p f x q →
    0 < st.rowCount → ∃ r, s.shared.dirty.get p = some (i, r) ∧ r.status = .rotated
  marked : ∀ i p f x q, Marked s i p f x q → s.shared.ended i = none →
    ∃ r, s.shared.dirty.get p = some (i, r) ∧ r.status = .rotated

theorem Locks.init : Locks ⟨postgres.start, []⟩ where
  opened i st h := by cases h
  marking i st p f x q h := by cases h
  marked i p f x q h := by
    obtain ⟨th, hi, -⟩ := h
    cases hi

/-- **A step keeps what is known of the locks.** -/
theorem Locks.step (hL : Locks s) (hr : ((engines H postgres).under G).Reachable s)
    (hs : Step (code H) postgres s l s') : Locks s' := by
  have hch := change hs
  have hV := versions hr
  refine ⟨?_, ?_, ?_⟩
  · intro i st hst
    have hwork : l = .work i → s.shared.ended i = none → s'.shared.ended i = none := by
      rintro rfl he
      rcases ended_step hch i with h | ⟨-, ⟨h, -⟩ | ⟨h, -⟩⟩
      · rw [h, he]
      · cases h
      · cases h
    cases ran hch hst with
    | kept hl h he => rw [he, hL.opened i st h]
    | started hq hi hd h => exact hwork rfl (idle_iff.mp hi).1
    | skipped hq he hst₀ hc hd h => exact hwork rfl he
    | changed hq he hst₀ hr hc hd h => exact hwork rfl he
  · intro i st p f x q hst hcall hpos
    cases ran hch hst with
    | kept hl h he =>
      have hopen := hL.opened i st h
      obtain ⟨r, hd, hrot⟩ := hL.marking i st p f x q h hcall hpos
      rcases held_step hch hd with h₁ | ⟨r', -, hw⟩ | hend
      · exact ⟨r, h₁, hrot⟩
      · cases hw with
        | insert hi hk hn =>
          rw [(idle_iff.mp hi).2] at h
          cases h
        | update => exact absurd rfl hl
      · exact absurd (he.trans hopen) (ended_of_end hch hopen hend)
    | started hq hi hd h =>
      subst h
      exact absurd hpos (lt_irrefl 0)
    | skipped hq he hst₀ hc hd h =>
      subst h
      rw [hd]
      exact hL.marking i _ p f x q hst₀ hcall hpos
    | @changed st₀ u k r hq he hst₀ hr₀ hc hd h =>
      subst h
      have hcall : st₀.call = .markRotated p f x q := hcall
      rw [hcall] at hq
      obtain ⟨hsel, hrot⟩ := update_mark hq hc
      -- the row it has changed is the one it is for
      obtain rfl : k = p := (hV.seen hr₀).selector.symm.trans hsel
      exact ⟨_, hd, hrot⟩
  · intro i p f x q hm he'
    rcases hs.did_iff.mp hm with hold | rfl
    · have he : s.shared.ended i = none := by
        rcases ended_step hch i with h | ⟨h, -⟩
        · rw [← h, he']
        · exact h
      obtain ⟨r, hd, hrot⟩ := hL.marked i p f x q hold he
      rcases held_step hch hd with h₁ | ⟨r', -, hw⟩ | hend
      · exact ⟨r, h₁, hrot⟩
      · obtain ⟨q', hq'⟩ := hw.waits hs
        exact absurd hq' (not_waits_of_marked hr hold q')
      · exact absurd he' (ended_of_end hch he hend)
    · generalize hl : (Label.answer i ⟨.markRotated p f x q, true⟩ : PoolLabel End) = l at hch
      cases hch with
      | @finished j st rep he hst htodo hrep h =>
        obtain ⟨rfl, hev⟩ := Label.answer.inj hl
        obtain ⟨hreq, hrep'⟩ := Event.mk.inj hev
        have hcount := hrep p f x q hreq.symm hrep'.symm
        obtain ⟨r, hd, hrot⟩ := hL.marking i st p f x q hst hreq.symm (by omega)
        exact ⟨r, by rw [h]; exact hd, hrot⟩
      | selected | inserted =>
        obtain ⟨-, hev⟩ := Label.answer.inj hl
        cases hev
      | invoked | stopped | started | skipped | changed | committed | rolledBack | late => cases hl

theorem locks (h : ((engines H postgres).under G).Reachable s) : Locks s :=
  h.invariant (I := Locks) (fun s hs => by rw [show s = ⟨postgres.start, []⟩ from hs]; exact .init)
    fun _ _ _ hr hL hs => hL.step hr hs.2

end NebulaToken.Runs.Transactions
