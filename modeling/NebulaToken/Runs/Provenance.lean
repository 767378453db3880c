import NebulaToken.Runs.History

/-! # Where records and rotations come from

Every record in the store was minted by one call, and every rotation was made by a refresh with a
ticket. A refresh that has rotated does nothing else: it is left with its success (`Won`).

* `inserted_cases`, `inserted_once`: a record comes from a login or from a ticket, one for each call;
* `won_of_marked`, `won_of_success`: a rotation, and a reported success, are the end of such a call. -/

namespace NebulaToken.Runs.Provenance

open NebulaToken.Lib.Program NebulaToken.Lib.Pool NebulaToken.Token.Unicode NebulaToken.Token.Wire
open NebulaToken.Engine.Records NebulaToken.Engine.Operations
open NebulaToken.Runs.Calls NebulaToken.Runs.History NebulaToken.Store.Contract

variable {σ Env : Type}

/-- Call `i` of the state. -/
abbrev Call := Thread Operation StoreCall StoreCall.Reply NebulaConfigError Outcome

/-- The operation of call `i`. -/
def OpAt (s : PoolState σ) (i : ℕ) (op : Operation) : Prop :=
  ∃ th, s.threads[i]? = some th ∧ th.op = op

/-- Call `i` has reported the success `x`. -/
def Succeeded (s : PoolState σ) (i : ℕ) (x : RefreshSuccess) : Prop :=
  ∃ th, s.threads[i]? = some th ∧ th.result = some (.refreshed (.ok x))

/-- **Call `i` has rotated `r` to `n`** on a ticket for `fromStatus` and `t`, and is left with its
success. -/
structure Won (H : HmacSha256) (s : PoolState σ) (i : ℕ) (c : RefreshCall) (r n : TokenRecord)
    (fromStatus : TokenStatus) (t : ℤ) (tr : List StoreEvent) : Prop where
  ticket : Ticket H c r fromStatus t tr
  mints : Mints H c r n
  thread : ∃ mode, s.threads[i]? = some ⟨.refresh c,
    ⟨.markRotated r.selector fromStatus t n.selector, true⟩ :: ⟨.insert n, ()⟩ :: tr,
    .ret (.refreshed (.ok (success c r n))), mode⟩

section Facts

variable {H : HmacSha256} {svc : StoreService σ Env} {s s' : PoolState σ} {l : PoolLabel Env}
  {G : PoolState σ → PoolLabel Env → Prop}

theorem OpAt.unique {i : ℕ} {op op' : Operation} (h : OpAt s i op) (h' : OpAt s i op') : op = op' := by
  obtain ⟨th, hi, rfl⟩ := h
  obtain ⟨th', hi', rfl⟩ := h'
  rw [Option.some.inj (hi.symm.trans hi')]

theorem OpAt.mono {i : ℕ} {op : Operation} (h : OpAt s i op) (hs : Step (code H) svc s l s') :
    OpAt s' i op := by
  obtain ⟨th, hi, rfl⟩ := h
  obtain ⟨th', hi', hg⟩ := hs.grows hi
  exact ⟨th', hi', hg.op⟩

theorem did_mono {i : ℕ} {ev : StoreEvent} (h : s.Did i ev) (hs : Step (code H) svc s l s') :
    s'.Did i ev := hs.did_iff.mpr (Or.inl h)

/-! ### Insertions -/

theorem no_insert {n n' : TokenRecord} {op : Operation} {tr : List StoreEvent}
    (h : MayInsert H n op tr) : (⟨.insert n', ()⟩ : StoreEvent) ∉ tr := by
  cases h with
  | issue => simp
  | refresh ht => exact ht.no_insert

/-- A call inserts one record. -/
theorem inserted_once (hr : ((engines H svc).under G).Reachable s) {i : ℕ} {n n' : TokenRecord}
    (h : Inserted s i n) (h' : Inserted s i n') : n = n' := by
  obtain ⟨th, tr, k, hi, hs, hc⟩ := callAt_did hr h
  obtain ⟨th', tr', k', hi', hs', hc'⟩ := callAt_did hr h'
  obtain rfl := Option.some.inj (hi.symm.trans hi')
  have hno : (⟨.insert n', ()⟩ : StoreEvent) ∉ tr := no_insert (insert_request hc)
  have hno' : (⟨.insert n, ()⟩ : StoreEvent) ∉ tr' := no_insert (insert_request hc')
  rcases List.suffix_or_suffix_of_suffix hs hs' with hsuf | hsuf
  · rcases List.suffix_cons_iff.mp hsuf with he | he
    · exact StoreCall.insert.inj (congrArg Event.req (List.cons.inj he).1)
    · exact absurd (he.mem List.mem_cons_self) hno'
  · rcases List.suffix_cons_iff.mp hsuf with he | he
    · exact (StoreCall.insert.inj (congrArg Event.req (List.cons.inj he).1)).symm
    · exact absurd (he.mem List.mem_cons_self) hno

/-- **A record comes from a login, or from a refresh with a ticket.** -/
theorem inserted_cases (hr : ((engines H svc).under G).Reachable s) {i : ℕ} {n : TokenRecord}
    (h : Inserted s i n) :
    (∃ c, OpAt s i (.issue c) ∧ IssueMints H c n) ∨
    ∃ c r fromStatus t tr, OpAt s i (.refresh c) ∧ Ticket H c r fromStatus t tr ∧ Mints H c r n ∧
      ∀ ev ∈ tr, s.Did i ev := by
  obtain ⟨th, tr, k, hi, hs, hc⟩ := callAt_did hr h
  generalize hop : th.op = op at hc
  cases insert_request hc with
  | issue hn => exact Or.inl ⟨_, ⟨th, hi, hop⟩, hn⟩
  | refresh ht hn =>
    refine Or.inr ⟨_, _, _, _, _, ⟨th, hi, hop⟩, ht, hn, fun ev hev => did_of_mem hi ?_⟩
    exact hs.mem (List.mem_cons_of_mem _ hev)

/-! ### Rotations -/

/-- The points of a refresh that has rotated. -/
theorem refreshAt_marked {c : RefreshCall} {sel q : Str} {fromStatus : TokenStatus} {t : ℤ}
    {tr : List StoreEvent} {p : StoreM RefreshResult}
    (h : RefreshAt H c (⟨.markRotated sel fromStatus t q, true⟩ :: tr) p) :
    ∃ r n tr₀, Ticket H c r fromStatus t tr₀ ∧ Mints H c r n ∧ sel = r.selector ∧ q = n.selector ∧
      tr = ⟨.insert n, ()⟩ :: tr₀ ∧ p = .ret (.ok (success c r n)) := by
  cases h with
  | won ht hn => exact ⟨_, _, _, ht, hn, rfl, rfl, rfl, rfl⟩
  | refused hf => cases hf
  | burning hb => cases hb
  | inserting ht => cases ht

/-- **A rotation is the last request of its call.** -/
theorem won_of_marked (hr : ((engines H svc).under G).Reachable s) {i : ℕ} {sel q : Str}
    {fromStatus : TokenStatus} {t : ℤ} (h : Marked s i sel fromStatus t q) :
    ∃ c r n tr, Won H s i c r n fromStatus t tr ∧ sel = r.selector ∧ q = n.selector := by
  obtain ⟨th, tr, k, hi, hs, hc⟩ := callAt_did hr h
  have hlast : th.trace = ⟨.markRotated sel fromStatus t q, true⟩ :: tr := by
    obtain ⟨l, hl⟩ := hs
    rcases List.eq_nil_or_concat l with rfl | ⟨l', ev, rfl⟩
    · exact hl.symm
    · have hs' : ev :: ⟨.markRotated sel fromStatus t q, true⟩ :: tr <:+ th.trace :=
        ⟨l', by rw [← hl]; simp⟩
      obtain ⟨k', hk'⟩ := callAt_asked hr hi hs'
      exact absurd hk' not_call_of_marked
  have hat := callAt hr th (mem_of_getElem? hi)
  obtain ⟨op, trace, prog, mode⟩ := th
  dsimp only at hlast hat hc
  subst hlast
  cases mark_request hc with
  | @refresh c r n tr ht hn hsel hq =>
    obtain ⟨p, rfl, hat⟩ := hat
    obtain ⟨r', n', tr', ht', hn', rfl, rfl, htr, rfl⟩ := refreshAt_marked hat
    obtain ⟨-, rfl⟩ := List.cons.inj htr
    exact ⟨c, r', n', tr, ⟨ht', hn', mode, by rw [hi, htr]; rfl⟩, rfl, rfl⟩

section Won

variable {i : ℕ} {c : RefreshCall} {r n : TokenRecord} {fromStatus : TokenStatus} {t : ℤ}
  {tr : List StoreEvent}

theorem Won.opAt (h : Won H s i c r n fromStatus t tr) : OpAt s i (.refresh c) := by
  obtain ⟨mode, hi⟩ := h.thread
  exact ⟨_, hi, rfl⟩

theorem Won.marked (h : Won H s i c r n fromStatus t tr) :
    Marked s i r.selector fromStatus t n.selector := by
  obtain ⟨mode, hi⟩ := h.thread
  exact ⟨_, hi, List.mem_cons_self⟩

theorem Won.inserted (h : Won H s i c r n fromStatus t tr) : Inserted s i n := by
  obtain ⟨mode, hi⟩ := h.thread
  exact ⟨_, hi, List.mem_cons_of_mem _ List.mem_cons_self⟩

theorem Won.did (h : Won H s i c r n fromStatus t tr) : ∀ ev ∈ tr, s.Did i ev := by
  obtain ⟨mode, hi⟩ := h.thread
  exact fun ev hev => ⟨_, hi, List.mem_cons_of_mem _ (List.mem_cons_of_mem _ hev)⟩

end Won

/-- **A reported success is the end of a call that has rotated.** -/
theorem won_of_success (hr : ((engines H svc).under G).Reachable s) {i : ℕ} {x : RefreshSuccess}
    (h : Succeeded s i x) :
    ∃ c r n fromStatus t tr, Won H s i c r n fromStatus t tr ∧ x = success c r n := by
  obtain ⟨th, hi, hres⟩ := h
  obtain ⟨hm, hp⟩ := of_result hres
  have hat := callAt hr th (mem_of_getElem? hi)
  obtain ⟨op, trace, prog, mode⟩ := th
  dsimp only at hm hp hat
  subst hp
  cases op with
  | issue c =>
    obtain ⟨p, he, -⟩ := hat
    obtain ⟨a, -, ha⟩ := Prog.map_eq_ret he.symm
    cases ha
  | refresh c =>
    obtain ⟨p, he, h⟩ := hat
    obtain ⟨a, rfl, ha⟩ := Prog.map_eq_ret he.symm
    cases ha
    cases h with
    | won ht hn => exact ⟨c, _, _, _, _, _, ⟨ht, hn, mode, hi⟩, rfl⟩
  | revokeToken e token =>
    obtain ⟨p, he, -⟩ := hat
    obtain ⟨a, -, ha⟩ := Prog.map_eq_ret he.symm
    cases ha
  | revokeFamily familyId => cases hat
  | revokeAllForUser userId => cases hat

/-! ### How a call that has inserted ends -/

/-- A refresh that has stored a successor ends with its success, or with a conflict after it has revoked
the successor. -/
theorem refreshAt_inserted {c : RefreshCall} {n : TokenRecord} {tr : List StoreEvent}
    {res : RefreshResult} (h : RefreshAt H c tr (.ret res)) (hn : ⟨.insert n, ()⟩ ∈ tr) :
    (∃ r f x, ⟨.markRotated r.selector f x n.selector, true⟩ ∈ tr ∧ res = .ok (success c r n)) ∨
    ∃ b r, ⟨.revokeIfActive n.selector, b⟩ ∈ tr ∧ res = .refused (fail .conflict r) := by
  have hpeel : ∀ {ev : StoreEvent} {tr : List StoreEvent}, ⟨.insert n, ()⟩ ∈ ev :: tr →
      ev.req ≠ .insert n → ⟨.insert n, ()⟩ ∈ tr := by
    intro ev tr hmem hne
    rcases List.mem_cons.mp hmem with rfl | hmem
    · exact absurd rfl hne
    · exact hmem
  have hsame : ∀ {r m : TokenRecord} {f : TokenStatus} {x : ℤ} {tr : List StoreEvent},
      Ticket H c r f x tr → ⟨.insert n, ()⟩ ∈ (⟨.insert m, ()⟩ :: tr : List StoreEvent) → n = m := by
    intro r m f x tr ht hmem
    rcases List.mem_cons.mp hmem with he | hmem
    · cases he
      rfl
    · exact absurd hmem ht.no_insert
  cases h with
  | refused hf => cases hf <;> simp at hn
  | burned hb =>
    have hn := hpeel hn (by simp)
    cases hb <;> simp at hn
  | @won r m f x tr ht hm =>
    obtain rfl := hsame ht (hpeel hn (by simp))
    exact Or.inl ⟨r, f, x, List.mem_cons_self, rfl⟩
  | @cleaned r m f x tr b ht hm =>
    obtain rfl := hsame ht (hpeel (hpeel hn (by simp)) (by simp))
    exact Or.inr ⟨b, r, List.mem_cons_self, rfl⟩

/-- The result of a refresh that has returned, at one of its points. -/
theorem refreshAt_returned (hr : ((engines H svc).under G).Reachable s) {i : ℕ} {th : Call}
    {c : RefreshCall} (hi : s.threads[i]? = some th) (hop : th.op = .refresh c)
    (hm : th.mode = .returned) :
    ∃ res, RefreshAt H c th.trace (.ret res) ∧ th.result = some (.refreshed res) := by
  have hat := callAt hr th (mem_of_getElem? hi)
  rw [hop] at hat
  obtain ⟨p, hp, hat⟩ := hat
  obtain ⟨x, hx⟩ := returned_ret hr th (mem_of_getElem? hi) hm
  obtain ⟨res, rfl, rfl⟩ := Prog.map_eq_ret (hp.symm.trans hx)
  exact ⟨res, hat, result_of_returned hm hx⟩

end Facts

end NebulaToken.Runs.Provenance
