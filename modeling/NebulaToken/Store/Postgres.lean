import NebulaToken.Lib.ReadCommitted
import NebulaToken.Store.Contract

/-! # The SQL deployment

The statements of the PostgreSQL store, under `READ COMMITTED`. Every call of an engine has a transaction
of its own, by the number of the call: the refresh, as its request wraps it, and the statements of the
other calls. A transaction ends by its `COMMIT`, or is rolled back. -/

namespace NebulaToken.Store.Postgres

open NebulaToken.Lib.KeyedTable NebulaToken.Lib.Pool NebulaToken.Lib.ReadCommitted
open NebulaToken.Token.Unicode NebulaToken.Engine.Records NebulaToken.Store.Contract

/-- The table `refresh_tokens`, with its transactions. -/
abbrev RefreshTokens := Db Str TokenRecord StoreCall

/-- The `UPDATE` of a store call. -/
def update : StoreCall → Option (Update TokenRecord)
  | .markRotated selector fromStatus rotatedAt replacedBySelector => some {
      cond := fun row => row.selector == selector && row.status == fromStatus
      set := fun row => rotatedTo row rotatedAt replacedBySelector }
  | .revokeIfActive selector => some {
      cond := fun row => row.selector == selector && row.status == .active
      set := asRevoked }
  | .revokeFamily familyId => some {
      cond := fun row => row.familyId == familyId && row.status != .revoked
      set := asRevoked }
  | .revokeUser userId => some {
      cond := fun row => row.userId == userId && row.status != .revoked
      set := asRevoked }
  | _ => none

/-- Transaction `i` is open, and no statement of it is running. -/
def idle (s : RefreshTokens) (i : ℕ) : Bool := (s.ended i).isNone && (s.running i).isNone

/-- The `rowCount` of an `UPDATE` that has come to all its rows. -/
def rowCount (s : RefreshTokens) (i : ℕ) (q : StoreCall) : Option (ℕ × RefreshTokens) :=
  match s.running i with
  | some st =>
    if s.ended i = none ∧ st.call = q ∧ st.todo = [] then some (st.rowCount, s.setRunning i none) else none
  | none => none

/-- The answer to a store call. -/
def answer (s : RefreshTokens) (i : ℕ) : (q : StoreCall) → Option (q.Reply × RefreshTokens)
  | .findBySelector selector => if idle s i then some (s.seen i selector, s) else none
  | .insert record =>
    if idle s i then (s.insert i record.selector record).map fun s' => ((), s') else none
  | .markRotated selector fromStatus rotatedAt replacedBySelector =>
    (rowCount s i (.markRotated selector fromStatus rotatedAt replacedBySelector)).map
      fun res => (res.1 == 1, res.2)
  | .revokeIfActive selector =>
    (rowCount s i (.revokeIfActive selector)).map fun res => (res.1 == 1, res.2)
  | .revokeFamily familyId => rowCount s i (.revokeFamily familyId)
  | .revokeUser userId => rowCount s i (.revokeUser userId)

/-- **A step inside an `UPDATE`.** -/
inductive Works (i : ℕ) (q : StoreCall) (s : RefreshTokens) : RefreshTokens → Prop
  | start {u : Update TokenRecord} (hq : update q = some u) (h : idle s i = true) :
    Works i q s (s.start i q u)
  | come {u : Update TokenRecord} {st : Statement Str StoreCall} {selector : Str}
      (hq : update q = some u) (he : s.ended i = none) (h : s.running i = some st) (hc : st.call = q)
      (hsel : selector ∈ st.todo) (hf : s.free i selector = true) :
    Works i q s (s.come i st u selector)

/-- The end of a transaction. -/
inductive End
  | commit (i : ℕ)
  | rollback (i : ℕ)

/-- **The deployment as a service.** -/
def postgres : Service StoreCall StoreCall.Reply RefreshTokens End where
  start := ⟨Table.empty, Table.empty, fun _ => none, fun _ => none⟩
  answer i q s := answer s i q
  work i q s s' := Works i q s s'
  env a s := match a with
    | .commit i => s.commit i
    | .rollback i => s.rollback i

variable {s s' : RefreshTokens} {i : ℕ} {q : StoreCall}

theorem idle_iff : idle s i = true ↔ s.ended i = none ∧ s.running i = none := by
  rw [idle, Bool.and_eq_true, Option.isNone_iff_eq_none, Option.isNone_iff_eq_none]

theorem answer_find {selector : Str} {r : Option TokenRecord}
    (h : answer s i (.findBySelector selector) = some (r, s')) : r = s.seen i selector ∧ s' = s := by
  unfold answer at h
  split_ifs at h
  obtain ⟨rfl, rfl⟩ := Prod.mk.inj (Option.some.inj h)
  exact ⟨rfl, rfl⟩

theorem answer_insert {record : TokenRecord} {u : Unit} (h : answer s i (.insert record) = some (u, s')) :
    idle s i = true ∧ s' = s.write i record.selector record := by
  unfold answer at h
  split_ifs at h with hi
  obtain ⟨s₁, hs₁, he⟩ := Option.map_eq_some_iff.mp h
  unfold Db.insert at hs₁
  split_ifs at hs₁
  obtain rfl := Option.some.inj hs₁
  exact ⟨hi, (Prod.mk.inj he).2.symm⟩

/-- An `UPDATE` is answered once it has come to all its rows. -/
theorem rowCount_some {n : ℕ} (h : rowCount s i q = some (n, s')) :
    ∃ st, s.running i = some st ∧ s.ended i = none ∧ st.call = q ∧ st.todo = [] ∧ n = st.rowCount ∧
      s' = s.setRunning i none := by
  unfold rowCount at h
  split at h
  · next st hst =>
    split_ifs at h with hc
    · obtain ⟨rfl, rfl⟩ := Prod.mk.inj (Option.some.inj h)
      exact ⟨st, hst, hc.1, hc.2.1, hc.2.2, rfl, rfl⟩
  · cases h

/-- **The answers**: a `SELECT`, an `INSERT`, or the end of an `UPDATE`. -/
inductive Answers (s : RefreshTokens) (i : ℕ) : (q : StoreCall) → q.Reply → RefreshTokens → Prop
  | select {selector : Str} (h : idle s i = true) :
    Answers s i (.findBySelector selector) (s.seen i selector) s
  | insert {record : TokenRecord} (h : idle s i = true) (hf : s.free i record.selector = true)
      (hs : s.seen i record.selector = none) :
    Answers s i (.insert record) () (s.write i record.selector record)
  | update {st : Statement Str StoreCall} {rep : st.call.Reply} (h : s.running i = some st)
      (he : s.ended i = none) (htodo : st.todo = [])
      (hrep : ∀ p f x q, st.call = .markRotated p f x q → HEq rep true → st.rowCount = 1) :
    Answers s i st.call rep (s.setRunning i none)

theorem answers {rep : q.Reply} (h : answer s i q = some (rep, s')) : Answers s i q rep s' := by
  cases q with
  | findBySelector selector =>
    unfold answer at h
    split_ifs at h with hi
    obtain ⟨rfl, rfl⟩ := Prod.mk.inj (Option.some.inj h)
    exact .select hi
  | insert record =>
    unfold answer at h
    split_ifs at h with hi
    obtain ⟨s₁, hs₁, he⟩ := Option.map_eq_some_iff.mp h
    unfold Db.insert at hs₁
    split_ifs at hs₁ with hc
    obtain rfl := Option.some.inj hs₁
    obtain ⟨-, rfl⟩ := Prod.mk.inj he
    exact .insert hi hc.1 hc.2
  | markRotated selector fromStatus rotatedAt replacedBySelector =>
    obtain ⟨⟨n, s₁⟩, hn, he⟩ := Option.map_eq_some_iff.mp h
    obtain ⟨rfl, rfl⟩ := Prod.mk.inj he
    obtain ⟨st, hst, hend, hcall, htodo, rfl, rfl⟩ := rowCount_some hn
    obtain ⟨c, todo, m⟩ := st
    subst hcall
    exact .update hst hend htodo fun _ _ _ _ _ hrep => eq_of_beq (eq_of_heq hrep)
  | revokeIfActive selector =>
    obtain ⟨⟨n, s₁⟩, hn, he⟩ := Option.map_eq_some_iff.mp h
    obtain ⟨rfl, rfl⟩ := Prod.mk.inj he
    obtain ⟨st, hst, hend, hcall, htodo, rfl, rfl⟩ := rowCount_some hn
    obtain ⟨c, todo, m⟩ := st
    subst hcall
    exact .update hst hend htodo fun _ _ _ _ hc => nomatch hc
  | revokeFamily familyId =>
    obtain ⟨st, hst, hend, hcall, htodo, -, rfl⟩ := rowCount_some h
    obtain ⟨c, todo, m⟩ := st
    subst hcall
    exact .update hst hend htodo fun _ _ _ _ hc => nomatch hc
  | revokeUser userId =>
    obtain ⟨st, hst, hend, hcall, htodo, -, rfl⟩ := rowCount_some h
    obtain ⟨c, todo, m⟩ := st
    subst hcall
    exact .update hst hend htodo fun _ _ _ _ hc => nomatch hc

/-- An `UPDATE` changes no row that is revoked, and nothing of a row that was minted with it. -/
theorem update_later {u : Update TokenRecord} {r : TokenRecord} (hq : update q = some u)
    (hc : u.cond r = true) (hm : ∀ p f x p', q = .markRotated p f x p' → f ≠ .revoked) :
    r.status ≠ .revoked ∧ minted (u.set r) = minted r := by
  cases q with
  | markRotated p f x p' =>
    obtain rfl := Option.some.inj hq
    rw [Bool.and_eq_true, beq_iff_eq, beq_iff_eq] at hc
    exact ⟨fun hr => hm p f x p' rfl (hc.2.symm.trans hr), rfl⟩
  | revokeIfActive selector =>
    obtain rfl := Option.some.inj hq
    rw [Bool.and_eq_true, beq_iff_eq, beq_iff_eq] at hc
    exact ⟨fun hr => (nomatch hc.2.symm.trans hr), rfl⟩
  | revokeFamily | revokeUser =>
    obtain rfl := Option.some.inj hq
    rw [Bool.and_eq_true, bne_iff_ne] at hc
    exact ⟨hc.2, rfl⟩
  | findBySelector | insert => cases hq

/-- A rotation is of the row of its selector. -/
theorem update_mark {u : Update TokenRecord} {r : TokenRecord} {p q : Str} {f : TokenStatus} {x : ℤ}
    (hq : update (.markRotated p f x q) = some u) (hc : u.cond r = true) :
    r.selector = p ∧ (u.set r).status = .rotated := by
  obtain rfl := Option.some.inj hq
  rw [Bool.and_eq_true, beq_iff_eq] at hc
  exact ⟨hc.1, rfl⟩

/-- The rows a bulk revocation takes: those it covers that are not revoked. -/
theorem update_bulk {u : Update TokenRecord} {r : TokenRecord} (hq : update q = some u)
    (hc : Covers q r) : (u.cond r = true ↔ r.status ≠ .revoked) ∧ (u.set r).status = .revoked := by
  cases q with
  | revokeFamily | revokeUser =>
    obtain rfl := Option.some.inj hq
    refine ⟨?_, rfl⟩
    rw [Bool.and_eq_true, bne_iff_ne, beq_iff_eq]
    exact and_iff_right hc
  | findBySelector | insert | markRotated | revokeIfActive => exact hc.elim

/-- One step inside an `UPDATE`: it starts, or it comes to its next row, if that is free. -/
def nextWork (i : ℕ) (q : StoreCall) (s : RefreshTokens) : Option RefreshTokens :=
  match update q, s.running i with
  | some u, none => if idle s i then some (s.start i q u) else none
  | some u, some st =>
    match st.todo with
    | selector :: _ =>
      if s.ended i = none ∧ st.call = q ∧ s.free i selector = true then some (s.come i st u selector)
      else none
    | [] => none
  | none, _ => none

theorem works_of_nextWork (h : nextWork i q s = some s') : Works i q s s' := by
  unfold nextWork at h
  split at h
  · next u hu hr =>
    split_ifs at h with hi
    obtain rfl := Option.some.inj h
    exact .start hu hi
  · next u st hu hst =>
    split at h
    · next selector todo htodo =>
      split_ifs at h with hc
      obtain rfl := Option.some.inj h
      exact .come hu hc.1 hst hc.2.1 (by rw [htodo]; exact List.mem_cons_self) hc.2.2
    · cases h
  · cases h

end NebulaToken.Store.Postgres
