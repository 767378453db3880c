import NebulaToken.Runs.Calls
import NebulaToken.Store.Contract

/-! # What calls know of the rows

Any number of calls of any engines over one store. A call's reads grow stale while others write; what
stays true of a row it has read, inserted, rotated or revoked is `Knowledge`, an invariant of all runs
in which no selector is stored twice. It is proved for every store that keeps the contract.

* `RowChange`, `RowAfter`: the ways a step changes the rows, and where a row after it comes from;
* `knowledge`: the invariant;
* `evolves_step`, `evolves_run`: a row only evolves. -/

namespace NebulaToken.Runs.History

open NebulaToken.Lib.Pool NebulaToken.Lib.Transition NebulaToken.Token.Unicode
open NebulaToken.Token.Wire NebulaToken.Engine.Records NebulaToken.Engine.Operations
open NebulaToken.Runs.Calls NebulaToken.Store.Contract

variable {σ Env : Type}

abbrev PoolState (σ : Type) :=
  State σ Operation StoreCall StoreCall.Reply NebulaConfigError Outcome

abbrev PoolLabel (Env : Type) := Label Operation StoreCall StoreCall.Reply Env

abbrev StoreService (σ Env : Type) := Service StoreCall StoreCall.Reply σ Env

/-- Calls of any engines over one store. -/
abbrev engines (H : HmacSha256) (svc : StoreService σ Env) : System (PoolState σ) (PoolLabel Env) :=
  pool (code H) svc

/-- Call `i` has stored `n`. -/
def Inserted (s : PoolState σ) (i : ℕ) (n : TokenRecord) : Prop := s.Did i ⟨.insert n, ()⟩

/-- Call `i` has rotated the row of `sel` to `q`. -/
def Marked (s : PoolState σ) (i : ℕ) (sel : Str) (fromStatus : TokenStatus) (t : ℤ) (q : Str) : Prop :=
  s.Did i ⟨.markRotated sel fromStatus t q, true⟩

/-- Some call has stored a record under the selector. -/
def Known (s : PoolState σ) (sel : Str) : Prop := ∃ i n, Inserted s i n ∧ n.selector = sel

/-- No selector is stored a second time, not even after its row was collected. -/
def NoReinsert (s : PoolState σ) (l : PoolLabel Env) : Prop :=
  ∀ i n, l = .answer i ⟨.insert n, ()⟩ → ¬ Known s n.selector

/-! ### The rows after a step -/

section Rows

variable {H : HmacSha256} {svc : StoreService σ Env} {s s' : PoolState σ} {l : PoolLabel Env}

/-- **How a step changes the rows.** -/
inductive RowChange (C : StoreContract svc) (s s' : PoolState σ) : PoolLabel Env → Prop
  | quiet {l : PoolLabel Env} (h : C.look s'.shared = C.look s.shared) : RowChange C s s' l
  | inserted {i : ℕ} {n : TokenRecord} (h0 : C.look s.shared n.selector = none)
      (h : C.look s'.shared = Function.update (C.look s.shared) n.selector (some n)) :
    RowChange C s s' (.answer i ⟨.insert n, ()⟩)
  | rotated {i : ℕ} {sel q : Str} {fromStatus : TokenStatus} {t : ℤ} {r : TokenRecord}
      (h0 : C.look s.shared sel = some r) (hs : r.status = fromStatus)
      (h : C.look s'.shared = Function.update (C.look s.shared) sel (some (rotatedTo r t q))) :
    RowChange C s s' (.answer i ⟨.markRotated sel fromStatus t q, true⟩)
  | cleared {i : ℕ} {sel : Str} {r : TokenRecord} (h0 : C.look s.shared sel = some r)
      (hs : r.status = .active)
      (h : C.look s'.shared = Function.update (C.look s.shared) sel (some (asRevoked r))) :
    RowChange C s s' (.answer i ⟨.revokeIfActive sel, true⟩)
  | bulk {i : ℕ} {q : StoreCall} {l : PoolLabel Env} (hl : l = .work i ∨ ∃ n, l = .answer i ⟨q, n⟩)
      (h : RevokesSome (Covers q) (C.look s.shared) (C.look s'.shared)) : RowChange C s s' l
  | collected {a : Env} {now : ℤ} (h : ∀ sel, C.look s'.shared sel =
      (C.look s.shared sel).filter fun r => decide (now < r.familyExpiresAt)) :
    RowChange C s s' (.env a)

theorem rowChange (C : StoreContract svc) (h : Step (code H) svc s l s') : RowChange C s s' l := by
  rcases h.shared_cases with ⟨i, th, q, k, r, rfl, -, -, -, ha⟩ | ⟨i, th, q, k, rfl, -, -, -, hw⟩ |
    ⟨a, rfl, he⟩ | ⟨-, he⟩
  · cases q with
    | findBySelector sel => exact .quiet (C.find ha).2
    | insert n => exact .inserted (C.insert ha).1 (C.insert ha).2
    | markRotated sel fromStatus t by_ =>
      cases r with
      | true =>
        obtain ⟨row, h0, hs, hu⟩ := C.mark ha
        exact .rotated h0 hs hu
      | false => exact .quiet (C.mark_lost ha).1
    | revokeIfActive sel =>
      cases r with
      | true =>
        obtain ⟨row, h0, hs, hu⟩ := C.clear ha
        exact .cleared h0 hs hu
      | false => exact .quiet (C.clear_lost ha).1
    | revokeFamily familyId => exact .bulk (Or.inr ⟨r, rfl⟩) (C.revokeFamily ha)
    | revokeUser userId => exact .bulk (Or.inr ⟨r, rfl⟩) (C.revokeUser ha)
  · exact .bulk (Or.inl rfl) (C.work hw)
  · obtain ⟨now, hnow⟩ := C.env a s.shared
    rw [← he] at hnow
    exact .collected hnow
  · exact .quiet (by rw [he])

/-- **Where a row after a step comes from.** -/
inductive RowAfter (C : StoreContract svc) (s : PoolState σ) (sel : Str) (row' : TokenRecord) :
    PoolLabel Env → Prop
  | kept {l : PoolLabel Env} (h : C.look s.shared sel = some row') : RowAfter C s sel row' l
  | inserted {i : ℕ} (h : C.look s.shared sel = none) (hsel : row'.selector = sel) :
    RowAfter C s sel row' (.answer i ⟨.insert row', ()⟩)
  | rotated {i : ℕ} {q : Str} {fromStatus : TokenStatus} {t : ℤ} {row : TokenRecord}
      (h : C.look s.shared sel = some row) (hs : row.status = fromStatus)
      (he : row' = rotatedTo row t q) :
    RowAfter C s sel row' (.answer i ⟨.markRotated sel fromStatus t q, true⟩)
  | cleared {i : ℕ} {row : TokenRecord} (h : C.look s.shared sel = some row) (hs : row.status = .active)
      (he : row' = asRevoked row) : RowAfter C s sel row' (.answer i ⟨.revokeIfActive sel, true⟩)
  | bulk {i : ℕ} {q : StoreCall} {l : PoolLabel Env} {row : TokenRecord}
      (hl : l = .work i ∨ ∃ n, l = .answer i ⟨q, n⟩) (h : C.look s.shared sel = some row)
      (hc : Covers q row) (he : row' = asRevoked row) : RowAfter C s sel row' l

theorem rowAfter (C : StoreContract svc) (hs : Step (code H) svc s l s') {sel : Str}
    {row' : TokenRecord} (h : C.look s'.shared sel = some row') : RowAfter C s sel row' l := by
  cases rowChange C hs with
  | quiet hl =>
    rw [hl] at h
    exact .kept h
  | @inserted i n h0 hl =>
    rw [hl] at h
    rcases eq_or_ne sel n.selector with rfl | hne
    · rw [Function.update_self] at h
      obtain rfl := Option.some.inj h
      exact .inserted h0 rfl
    · rw [Function.update_of_ne hne] at h
      exact .kept h
  | @rotated i sel₀ q fromStatus t r h0 hst hl =>
    rw [hl] at h
    rcases eq_or_ne sel sel₀ with rfl | hne
    · rw [Function.update_self] at h
      exact .rotated h0 hst (Option.some.inj h).symm
    · rw [Function.update_of_ne hne] at h
      exact .kept h
  | @cleared i sel₀ r h0 hst hl =>
    rw [hl] at h
    rcases eq_or_ne sel sel₀ with rfl | hne
    · rw [Function.update_self] at h
      exact .cleared h0 hst (Option.some.inj h).symm
    · rw [Function.update_of_ne hne] at h
      exact .kept h
  | bulk hl hrev =>
    rcases hrev sel with he | ⟨r, h0, hc, he⟩
    · rw [he] at h
      exact .kept h
    · rw [he] at h
      exact .bulk hl h0 hc (Option.some.inj h).symm
  | collected hl =>
    rw [hl sel, Option.filter_eq_some_iff] at h
    exact .kept h.1

/-- A row stays until the environment collects it. -/
theorem present_step (C : StoreContract svc) (hs : Step (code H) svc s l s') (hl : ∀ a, l ≠ .env a)
    {sel : Str} (h : C.look s.shared sel ≠ none) : C.look s'.shared sel ≠ none := by
  have hupd : ∀ sel' x, C.look s'.shared = Function.update (C.look s.shared) sel' (some x) →
      C.look s'.shared sel ≠ none := by
    intro sel' x hu
    rw [hu]
    rcases eq_or_ne sel sel' with rfl | hne
    · rw [Function.update_self]
      exact Option.some_ne_none x
    · rw [Function.update_of_ne hne]
      exact h
  cases rowChange C hs with
  | quiet he =>
    rw [he]
    exact h
  | inserted h0 hu => exact hupd _ _ hu
  | rotated h0 hst hu => exact hupd _ _ hu
  | cleared h0 hst hu => exact hupd _ _ hu
  | bulk hlab hrev =>
    rcases hrev sel with he | ⟨r, h0, -, he⟩
    · rw [he]
      exact h
    · rw [he]
      exact Option.some_ne_none _
  | collected => exact absurd rfl (hl _)

/-- An answer, with the call it goes to. -/
theorem answer_inv {i : ℕ} {ev : StoreEvent} (h : Step (code H) svc s (.answer i ev) s') :
    ∃ th k, s.threads[i]? = some th ∧ th.mode = .running ∧ th.prog = .call ev.req k ∧
      svc.answer i ev.req s.shared = some (ev.rep, s'.shared) := by
  rcases h.shared_cases with ⟨j, th, q, k, r, hl, hi, hm, hp, ha⟩ | ⟨j, th, q, k, hl, -⟩ |
    ⟨a, hl, -⟩ | ⟨hno, -⟩
  · cases hl
    exact ⟨th, k, hi, hm, hp, ha⟩
  · cases hl
  · cases hl
  · exact absurd rfl (hno i ev)

end Rows

/-! ### The points of the calls of a run -/

section Points

variable {H : HmacSha256} {svc : StoreService σ Env} {s s' : PoolState σ}
  {G : PoolState σ → PoolLabel Env → Prop}

theorem callAt (h : ((engines H svc).under G).Reachable s) :
    ∀ th ∈ s.threads, CallAt H th.op th.trace th.prog :=
  local_invariant callAt_code callAt_step h

/-- Where a call was when it made a request. -/
theorem callAt_asked (h : ((engines H svc).under G).Reachable s) {i : ℕ}
    {th : Thread Operation StoreCall StoreCall.Reply NebulaConfigError Outcome}
    (hi : s.threads[i]? = some th) {ev : StoreEvent} {tr : List StoreEvent}
    (htr : ev :: tr <:+ th.trace) : ∃ k, CallAt H th.op tr (.call ev.req k) :=
  asked callAt_code callAt_step h th (mem_of_getElem? hi) ev tr htr

/-- A request made is in the trace above what the call had done before. -/
theorem callAt_did (h : ((engines H svc).under G).Reachable s) {i : ℕ} {ev : StoreEvent}
    (hd : s.Did i ev) : ∃ th tr k, s.threads[i]? = some th ∧ ev :: tr <:+ th.trace ∧
      CallAt H th.op tr (.call ev.req k) := by
  obtain ⟨th, hi, hev⟩ := hd
  obtain ⟨l₁, l₂, hl⟩ := List.append_of_mem hev
  have hs : ev :: l₂ <:+ th.trace := ⟨l₁, hl.symm⟩
  obtain ⟨k, hk⟩ := callAt_asked h hi hs
  exact ⟨th, l₂, k, hi, hs, hk⟩

theorem callAt_answer (h : ((engines H svc).under G).Reachable s) {i : ℕ} {ev : StoreEvent}
    (hs : Step (code H) svc s (.answer i ev) s') : ∃ th k, s.threads[i]? = some th ∧
      CallAt H th.op th.trace (.call ev.req k) ∧
      svc.answer i ev.req s.shared = some (ev.rep, s'.shared) := by
  obtain ⟨th, k, hi, -, hp, ha⟩ := answer_inv hs
  exact ⟨th, k, hi, hp ▸ callAt h th (mem_of_getElem? hi), ha⟩

end Points

/-! ### The invariant -/

section Invariant

variable {H : HmacSha256} {svc : StoreService σ Env} {C : StoreContract svc} {s s' : PoolState σ}
  {l : PoolLabel Env} {G : PoolState σ → PoolLabel Env → Prop}

/-- **What calls know of the rows.** -/
structure Knowledge (C : StoreContract svc) (s : PoolState σ) : Prop where
  row : ∀ sel r, C.look s.shared sel = some r →
    RowOk r ∧ ∃ i n, Inserted s i n ∧ n.selector = sel ∧ Evolves n r
  found : ∀ i sel r, s.Did i ⟨.findBySelector sel, some r⟩ →
    RowOk r ∧ (∃ j n, Inserted s j n ∧ n.selector = sel ∧ Evolves n r) ∧
      ∀ row, C.look s.shared sel = some row → Evolves r row
  inserted : ∀ i n, Inserted s i n → ∀ row, C.look s.shared n.selector = some row → Evolves n row
  marked : ∀ i sel fromStatus t q, Marked s i sel fromStatus t q →
    Known s sel ∧ ∀ row, C.look s.shared sel = some row → row.status ≠ .active ∧ row.rotatedAt = some t
  cleared : ∀ i sel b, s.Did i ⟨.revokeIfActive sel, b⟩ →
    Known s sel ∧ ∀ row, C.look s.shared sel = some row →
      row.status ≠ .active ∧ (b = true → row.status = .revoked)

theorem Known.mono {sel : Str} (h : Known s sel) (hs : Step (code H) svc s l s') : Known s' sel := by
  obtain ⟨i, n, hi, hn⟩ := h
  exact ⟨i, n, hs.did_iff.mpr (Or.inl hi), hn⟩

theorem Knowledge.init : Knowledge C ⟨svc.start, []⟩ := by
  have hno : ∀ i ev, ¬ (⟨svc.start, []⟩ : PoolState σ).Did i ev := by
    rintro i ev ⟨th, hi, -⟩
    cases hi
  refine ⟨fun sel r h => ?_, fun i sel r h => absurd h (hno i _), fun i n h => absurd h (hno i _),
    fun i sel f t q h => absurd h (hno i _), fun i sel b h => absurd h (hno i _)⟩
  rw [C.start sel] at h
  cases h

/-- A row read by a call that has its selector. -/
theorem Knowledge.found_selector (hK : Knowledge C s) {i : ℕ} {sel : Str} {r : TokenRecord}
    (h : s.Did i ⟨.findBySelector sel, some r⟩) : r.selector = sel := by
  obtain ⟨-, ⟨j, n, -, hn, he⟩, -⟩ := hK.found i sel r h
  rw [he.selector, hn]

theorem Knowledge.row_selector (hK : Knowledge C s) {sel : Str} {r : TokenRecord}
    (h : C.look s.shared sel = some r) : r.selector = sel := by
  obtain ⟨-, j, n, -, hn, he⟩ := hK.row sel r h
  rw [he.selector, hn]

/-- A call with a ticket, and the row it presents. -/
theorem Knowledge.ticket (hK : Knowledge C s) {i : ℕ} {c : RefreshCall} {r : TokenRecord}
    {fromStatus : TokenStatus} {t : ℤ} {tr : List StoreEvent} (h : Ticket H c r fromStatus t tr)
    (hd : ∀ ev ∈ tr, s.Did i ev) :
    s.Did i ⟨.findBySelector r.selector, some r⟩ ∧ RowOk r ∧ Known s r.selector ∧
      ∀ row, C.look s.shared r.selector = some row → Evolves r row := by
  obtain ⟨sel, pepper, -, hf⟩ := h.found
  have hdf := hd _ hf
  have hsel := hK.found_selector hdf
  obtain ⟨hok, ⟨j, n, hj, hn, -⟩, hrow⟩ := hK.found i sel r hdf
  rw [hsel]
  exact ⟨hdf, hok, ⟨j, n, hj, hn⟩, hrow⟩

/-- A rotation by a call with a ticket is one that a row may take. -/
theorem ticket_time {c : RefreshCall} {r row : TokenRecord} {fromStatus : TokenStatus} {t t' : ℤ}
    {tr : List StoreEvent} (h : Ticket H c r fromStatus t tr) (hok : RowOk r) (he : Evolves r row)
    (hs : row.status = fromStatus) (ht : row.rotatedAt = some t') : t' = t := by
  cases h with
  | fresh hp hsr =>
    rw [he.active hs, hok.together.mpr (hok.active hsr)] at ht
    cases ht
  | grace hp hsr hg =>
    have := he.rotatedAt _ (withinGrace_some hg).1
    rw [this] at ht
    exact (Option.some.inj ht).symm

/-- The trace of a call holds what it has done. -/
theorem did_of_mem {i : ℕ} {th : Thread Operation StoreCall StoreCall.Reply NebulaConfigError Outcome}
    (hi : s.threads[i]? = some th) {ev : StoreEvent} (h : ev ∈ th.trace) : s.Did i ev := ⟨th, hi, h⟩

/-- **A row only evolves**: a row after a step was there before, or has just been inserted. -/
theorem evolves_step (hr : ((engines H svc).under G).Reachable s) (hK : Knowledge C s)
    (hs : Step (code H) svc s l s') {sel : Str} {row' : TokenRecord}
    (h : C.look s'.shared sel = some row') :
    (∃ row, C.look s.shared sel = some row ∧ Evolves row row') ∨
    (∃ i, l = .answer i ⟨.insert row', ()⟩ ∧ row'.selector = sel) := by
  cases rowAfter C hs h with
  | kept h0 => exact Or.inl ⟨row', h0, .refl _⟩
  | inserted h0 hsel => exact Or.inr ⟨_, rfl, hsel⟩
  | @rotated i q fromStatus t r h0 hst he =>
    subst he
    obtain ⟨th, k, hi, hc, -⟩ := callAt_answer hr hs
    generalize hop : th.op = op at hc
    generalize htr : th.trace = tr at hc
    cases mark_request hc with
    | refresh ht hn hsel hq =>
      have hd : ∀ ev ∈ _, s.Did i ev := fun ev hev =>
        did_of_mem hi (htr ▸ List.mem_cons_of_mem _ hev)
      obtain ⟨-, hok, -, hev⟩ := hK.ticket ht hd
      refine Or.inl ⟨r, h0, .rotatedTo (hst ▸ ht.not_revoked) (fun t' ht' => ?_) q⟩
      exact ticket_time ht hok (hev r (hsel ▸ h0)) hst ht'
  | @cleared i r h0 hst he =>
    subst he
    exact Or.inl ⟨r, h0, .asRevoked r⟩
  | @bulk i q l r hl h0 hc he =>
    subst he
    exact Or.inl ⟨r, h0, .asRevoked r⟩

/-- The row of a selector some call has stored was there before the step. -/
theorem evolves_known (hr : ((engines H svc).under G).Reachable s) (hK : Knowledge C s)
    (hs : Step (code H) svc s l s') (hG : NoReinsert s l) {sel : Str} (hk : Known s sel)
    {row' : TokenRecord} (h : C.look s'.shared sel = some row') :
    ∃ row, C.look s.shared sel = some row ∧ Evolves row row' := by
  rcases evolves_step hr hK hs h with hrow | ⟨i, rfl, rfl⟩
  · exact hrow
  · exact absurd hk (hG i row' rfl)

/-- The row of a selector is kept by a request of a call that has it. -/
theorem Knowledge.asked (hr : ((engines H svc).under G).Reachable s) (hK : Knowledge C s) {i : ℕ}
    {ev : StoreEvent} (hs : Step (code H) svc s (.answer i ev) s') :
    (∀ sel fromStatus t q b, ev = ⟨.markRotated sel fromStatus t q, b⟩ → Known s sel) ∧
    ∀ sel b, ev = ⟨.revokeIfActive sel, b⟩ → Known s sel := by
  obtain ⟨th, k, hi, hc, -⟩ := callAt_answer hr hs
  generalize hop : th.op = op at hc
  generalize htr : th.trace = tr at hc
  have hd : ∀ ev ∈ tr, s.Did i ev := fun ev hev => did_of_mem hi (htr ▸ hev)
  constructor
  · rintro sel fromStatus t q b rfl
    cases mark_request hc with
    | refresh ht hn hsel hq =>
      rw [hsel]
      exact (hK.ticket ht fun ev hev => hd ev (List.mem_cons_of_mem _ hev)).2.2.1
  · rintro sel b rfl
    cases clear_request hc with
    | @displace c r d sel₀ pepper q t hp hst hg ha hdev hsel =>
      have hf := hd ⟨.findBySelector q, some d⟩ (by simp)
      obtain ⟨-, ⟨j, n, hj, hn, -⟩, -⟩ := hK.found i q d hf
      rw [hsel, hK.found_selector hf]
      exact ⟨j, n, hj, hn⟩
    | @cleanup c r n fromStatus t tr ht hn hsel =>
      exact ⟨i, n, hd ⟨.insert n, ()⟩ (by simp), hsel.symm⟩

theorem Knowledge.step (hr : ((engines H svc).under G).Reachable s) (hK : Knowledge C s)
    (hs : Step (code H) svc s l s') (hG : NoReinsert s l) : Knowledge C s' where
  row sel r h := by
    rcases evolves_step hr hK hs h with ⟨row, hrow, he⟩ | ⟨i, rfl, hsel⟩
    · obtain ⟨hok, i, n, hi, hn, hev⟩ := hK.row sel row hrow
      exact ⟨he.ok hok, i, n, hs.did_iff.mpr (Or.inl hi), hn, hev.trans he⟩
    · obtain ⟨th, k, -, hc, -⟩ := callAt_answer hr hs
      obtain ⟨hst, ht, hq⟩ := (insert_request hc).mint
      exact ⟨.of_mint hst ht hq, i, r, hs.did_iff.mpr (Or.inr rfl), hsel, .refl r⟩
  found i sel r hd := by
    rcases hs.did_iff.mp hd with hd | rfl
    · obtain ⟨hok, ⟨j, n, hj, hn, he⟩, hrow⟩ := hK.found i sel r hd
      refine ⟨hok, ⟨j, n, hs.did_iff.mpr (Or.inl hj), hn, he⟩, fun row' h' => ?_⟩
      obtain ⟨row, h, hev⟩ := evolves_known hr hK hs hG ⟨j, n, hj, hn⟩ h'
      exact (hrow row h).trans hev
    · obtain ⟨th, k, hi, -, ha⟩ := callAt_answer hr hs
      obtain ⟨hlook, hsame⟩ := C.find ha
      obtain ⟨hok, j, n, hj, hn, he⟩ := hK.row sel r hlook.symm
      refine ⟨hok, ⟨j, n, hs.did_iff.mpr (Or.inl hj), hn, he⟩, fun row' h' => ?_⟩
      rw [hsame, ← hlook] at h'
      obtain rfl := Option.some.inj h'
      exact .refl _
  inserted i n hd row' h' := by
    rcases hs.did_iff.mp hd with hd | rfl
    · obtain ⟨row, h, hev⟩ := evolves_known hr hK hs hG ⟨i, n, hd, rfl⟩ h'
      exact (hK.inserted i n hd row h).trans hev
    · obtain ⟨th, k, hi, -, ha⟩ := callAt_answer hr hs
      rw [(C.insert ha).2, Function.update_self] at h'
      obtain rfl := Option.some.inj h'
      exact .refl _
  marked i sel fromStatus t q hd := by
    rcases hs.did_iff.mp hd with hd | rfl
    · obtain ⟨hk, hrow⟩ := hK.marked i sel fromStatus t q hd
      refine ⟨hk.mono hs, fun row' h' => ?_⟩
      obtain ⟨row, h, hev⟩ := evolves_known hr hK hs hG hk h'
      exact ⟨hev.not_active (hrow row h).1, hev.rotatedAt t (hrow row h).2⟩
    · refine ⟨((hK.asked hr hs).1 _ _ _ _ _ rfl).mono hs, fun row' h' => ?_⟩
      obtain ⟨th, k, hi, -, ha⟩ := callAt_answer hr hs
      obtain ⟨r, -, -, hu⟩ := C.mark ha
      rw [hu, Function.update_self] at h'
      obtain rfl := Option.some.inj h'
      exact ⟨fun h => (nomatch h), rfl⟩
  cleared i sel b hd := by
    rcases hs.did_iff.mp hd with hd | rfl
    · obtain ⟨hk, hrow⟩ := hK.cleared i sel b hd
      refine ⟨hk.mono hs, fun row' h' => ?_⟩
      obtain ⟨row, h, hev⟩ := evolves_known hr hK hs hG hk h'
      exact ⟨hev.not_active (hrow row h).1, fun hb => hev.status_revoked ((hrow row h).2 hb)⟩
    · refine ⟨((hK.asked hr hs).2 _ _ rfl).mono hs, fun row' h' => ?_⟩
      obtain ⟨th, k, hi, -, ha⟩ := callAt_answer hr hs
      cases b with
      | true =>
        obtain ⟨r, -, -, hu⟩ := C.clear ha
        rw [hu, Function.update_self] at h'
        obtain rfl := Option.some.inj h'
        exact ⟨fun h => (nomatch h), fun _ => rfl⟩
      | false =>
        obtain ⟨hsame, hrow⟩ := C.clear_lost ha
        rw [hsame] at h'
        exact ⟨hrow row' h', fun hb => nomatch hb⟩

/-- **Knowledge is kept** in every run that stores no selector twice. -/
theorem knowledge (C : StoreContract svc) (h : ((engines H svc).under NoReinsert).Reachable s) :
    Knowledge C s :=
  h.invariant (fun s hs => by rw [show s = _ from hs]; exact .init)
    fun _ _ _ hr hK hs => hK.step hr hs.2 hs.1

/-- **A row that some call has stored only evolves, in every run.** -/
theorem evolves_run {t : PoolState σ} (hr : ((engines H svc).under NoReinsert).Reachable s)
    (hrun : ((engines H svc).under NoReinsert).Run s t) {sel : Str} (hk : Known s sel)
    {row' : TokenRecord} (h : C.look t.shared sel = some row') :
    ∃ row, C.look s.shared sel = some row ∧ Evolves row row' := by
  revert row'
  induction hrun with
  | refl => exact fun h => ⟨_, h, .refl _⟩
  | @step u v l hsu hstep ih =>
    intro row' h
    have hru := hr.run hsu
    have hku : Known u sel := by
      obtain ⟨i, n, hi, hn⟩ := hk
      exact ⟨i, n, Run.did hsu hi, hn⟩
    obtain ⟨row, hrow, he⟩ := evolves_known hru (knowledge C hru) hstep.2 hstep.1 hku h
    obtain ⟨row₀, hrow₀, he₀⟩ := ih hrow
    exact ⟨row₀, hrow₀, he₀.trans he⟩

end Invariant

end NebulaToken.Runs.History
