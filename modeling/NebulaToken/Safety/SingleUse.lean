import NebulaToken.Runs.Execution
import NebulaToken.Runs.Exclusion

/-! # Single use

Without a grace window a token is exchanged at most once: its record leaves the active status by one
compare-and-set. And when calls that may all exchange it race, with nothing else touching the family,
one of them does: until the first rotation every read finds the record active, so nobody revokes it.

* `calm_step`: before the first rotation the calls only read the record and store successors;
* `single_use`: at most one call succeeds, and in a race exactly one. -/

namespace NebulaToken.Safety.SingleUse

open NebulaToken.Lib.Program NebulaToken.Lib.Pool NebulaToken.Lib.Transition NebulaToken.Token.Unicode
open NebulaToken.Token.Wire NebulaToken.Engine.Records NebulaToken.Engine.Operations
open NebulaToken.Runs.Calls NebulaToken.Runs.History NebulaToken.Runs.Provenance
open NebulaToken.Runs.Assumptions NebulaToken.Runs.Exclusion NebulaToken.Runs.Execution
open NebulaToken.Store.Contract NebulaToken.Store.Memory

/-- Call `i` has returned, or it throws. -/
def Completed (s : PoolState Rows) (i : ℕ) : Prop :=
  ∃ th, s.threads[i]? = some th ∧ (th.mode = .returned ∨ ∃ err, th.prog = .throw err)

/-- Call `i` has reported the refusal `f`. -/
def Refused (s : PoolState Rows) (i : ℕ) (f : RefreshFailure) : Prop :=
  ∃ th, s.threads[i]? = some th ∧ th.result = some (.refreshed (.refused f))

/-- **The call may exchange the active record `r`**: it proves the verifier, at a time before both
deadlines, from a device the record accepts, with no grace window. -/
structure MayExchange (H : HmacSha256) (r : TokenRecord) (c : RefreshCall) : Prop where
  proves : ∃ pepper, Proves H c r.selector r pepper ∧ deviceRefused H r pepper c.deviceId = false
  absolute : c.now < r.familyExpiresAt
  idle : c.now < r.idleExpiresAt
  noGrace : c.engine.reuseGrace = 0

/-- The rows of the family are the same. -/
def SameFamily (familyId : Str) (rows rows' : Rows) : Prop :=
  ∀ sel r, r.familyId = familyId → (rows.get sel = some r ↔ rows'.get sel = some r)

/-- **Nobody else touches the family**: no selector is stored twice, and neither a collection nor an
answer to a call outside `I` changes the family's rows. -/
structure OthersQuiet (I : Finset ℕ) (familyId : Str) (s : PoolState Rows) (l : PoolLabel ℤ) :
    Prop where
  noReinsert : NoReinsert s l
  env : ∀ now, l = .env now → SameFamily familyId s.shared (memory.env now s.shared)
  others : ∀ i ev, l = .answer i ev → i ∉ I → ∀ rep rows,
    memory.answer i ev.req s.shared = some (rep, rows) → SameFamily familyId s.shared rows

/-- Before the first rotation: the record is as it was, and the calls have only read it and stored
successors. -/
structure Calm (I : Finset ℕ) (r : TokenRecord) (s : PoolState Rows) : Prop where
  row : s.shared.get r.selector = some r
  did : ∀ i ∈ I, ∀ ev, s.Did i ev →
    ev = ⟨.findBySelector r.selector, some r⟩ ∨ ∃ n, ev = ⟨.insert n, ()⟩

section Race

variable {H : HmacSha256} {I : Finset ℕ} {r : TokenRecord} {s s' t : PoolState Rows}
  {l : PoolLabel ℤ} {G : PoolState Rows → PoolLabel ℤ → Prop}

/-- Without a window no record is within grace. -/
theorem withinGrace_none {c : RefreshCall} (h : c.engine.reuseGrace = 0) (r : TokenRecord) :
    withinGrace c.engine r c.now = none := by
  cases hg : withinGrace c.engine r c.now with
  | none => rfl
  | some w =>
    have := (withinGrace_some (t := w.1) (q := w.2) hg).2.2.1
    omega

/-- Without a window a ticket is for an active record. -/
theorem ticket_fresh {c : RefreshCall} {r : TokenRecord} {fromStatus : TokenStatus} {t : ℤ}
    {tr : List StoreEvent} (h : c.engine.reuseGrace = 0) (ht : Ticket H c r fromStatus t tr) :
    fromStatus = .active := by
  cases ht with
  | fresh => rfl
  | grace hp hs hg =>
    rw [withinGrace_none h] at hg
    cases hg

/-- A call that may exchange the record has only one selector to look up. -/
theorem lookup_selector {c : RefreshCall} (hc : MayExchange H r c) {parsed : ParsedToken}
    (hp : parseConfigured c.engine c.token = .ok parsed) : parsed.selector = r.selector := by
  obtain ⟨pepper, ⟨parsed', hp', hsel, -⟩, -⟩ := hc.proves
  rw [hp] at hp'
  rw [Except.ok.inj hp', hsel]

/-- A read allowed before the first rotation is of the record as it was. -/
theorem found_of_calm_read {sel : Str} {found : Option TokenRecord}
    (h : (⟨.findBySelector sel, found⟩ : StoreEvent) = ⟨.findBySelector r.selector, some r⟩ ∨
      ∃ n, (⟨.findBySelector sel, found⟩ : StoreEvent) = ⟨.insert n, ()⟩) : found = some r := by
  rcases h with he | ⟨n, he⟩
  · cases he
    rfl
  · cases he

theorem eq_of_calm_read {sel : Str} {r' : TokenRecord}
    (h : (⟨.findBySelector sel, some r'⟩ : StoreEvent) = ⟨.findBySelector r.selector, some r⟩ ∨
      ∃ n, (⟨.findBySelector sel, some r'⟩ : StoreEvent) = ⟨.insert n, ()⟩) : r' = r :=
  Option.some.inj (found_of_calm_read h)

/-- A call that may exchange the record, and has read it active, does not revoke its family. -/
theorem not_burns {c : RefreshCall} (hc : MayExchange H r c) (hact : r.status = .active)
    {error : NebulaErrorCode} {tr : List StoreEvent} : ¬ Burns H c r error tr := by
  obtain ⟨pepper, hp₀, hd₀⟩ := hc.proves
  intro hb
  cases hb with
  | reuse hp hs =>
    rw [hact] at hs
    cases hs
  | used hp hs =>
    rw [hact] at hs
    cases hs
  | graceDevice hp hs =>
    rw [hact] at hs
    cases hs
  | absolute hp hs habs => exact absurd hc.absolute (not_lt.mpr habs)
  | idle hp hs habs hidle => exact absurd hc.idle (not_lt.mpr hidle)
  | device hp hs habs hidle hd =>
    rw [hp.pepper hp₀, hd₀] at hd
    cases hd

theorem Calm.answer (hcalm : Calm I r s) (hs : Step (code H) memory s l s')
    (hrow : s'.shared.get r.selector = some r)
    (hnew : ∀ i ev, l = .answer i ev → i ∈ I →
      ev = ⟨.findBySelector r.selector, some r⟩ ∨ ∃ n, ev = ⟨.insert n, ()⟩) : Calm I r s' where
  row := hrow
  did j hj ev hd := by
    rcases hs.did_iff.mp hd with hd | hl
    · exact hcalm.did j hj ev hd
    · exact hnew j ev hl hj

/-- **An answer to a racing call before the first rotation** is the first rotation, or keeps the calm. -/
theorem calm_answer (hr : ((engines H memory).under G).Reachable s) (hcalm : Calm I r s)
    (hact : r.status = .active) {i : ℕ} {ev : StoreEvent}
    (hs : Step (code H) memory s (.answer i ev) s') (hi : i ∈ I) {c : RefreshCall}
    (hop : OpAt s i (.refresh c)) (hc : MayExchange H r c) :
    (∃ q t, Marked s' i r.selector .active t q) ∨ Calm I r s' := by
  obtain ⟨th, k, hth, hcall, ha⟩ := callAt_answer hr hs
  obtain ⟨th', hth', hop⟩ := hop
  obtain rfl := Option.some.inj (hth.symm.trans hth')
  have hcalmev : ∀ e ∈ th.trace, e = ⟨.findBySelector r.selector, some r⟩ ∨
      ∃ n, e = ⟨.insert n, ()⟩ := fun e he => hcalm.did i hi e (did_of_mem hth he)
  have hrow : memoryStore.look s.shared r.selector = some r := hcalm.row
  rw [hop] at hcall
  generalize th.trace = tr at hcall hcalmev
  obtain ⟨q, rep⟩ := ev
  obtain ⟨p, heq, hat⟩ := hcall
  obtain ⟨k', rfl, -⟩ := Prog.map_eq_call heq.symm
  cases hat with
  | @lookup parsed hp =>
    have hsel := lookup_selector hc hp
    obtain ⟨hrep, hlook⟩ := memoryStore.find ha
    rw [hsel, hrow] at hrep
    refine Or.inr (hcalm.answer hs (by rw [← hrow]; exact congrFun hlook _) ?_)
    rintro j ev hl -
    cases hl
    dsimp only at hrep ⊢
    subst hrep
    rw [hsel]
    exact Or.inl rfl
  | @successorLookup sel pepper q t r' hp hst hg =>
    rw [eq_of_calm_read (hcalmev ⟨.findBySelector sel, some r'⟩ (by simp)), hact] at hst
    cases hst
  | @consume sel pepper q t r' d hp hst hg =>
    rw [eq_of_calm_read (hcalmev ⟨.findBySelector sel, some r'⟩ (by simp)), hact] at hst
    cases hst
  | burning hb =>
    obtain ⟨sel, pepper, -, hmem⟩ := hb.found
    obtain rfl := eq_of_calm_read (hcalmev _ hmem)
    exact absurd hb (not_burns hc hact)
  | @inserting r' n fromStatus t ht hn =>
    obtain ⟨hnone, hlook⟩ := memoryStore.insert ha
    have hne : r.selector ≠ n.selector := by
      intro he
      rw [← he, hrow] at hnone
      cases hnone
    refine Or.inr (hcalm.answer hs ?_ ?_)
    · show memoryStore.look s'.shared r.selector = some r
      rw [hlook, Function.update_of_ne hne, hrow]
    · rintro j ev hl -
      cases hl
      exact Or.inr ⟨n, rfl⟩
  | @marking r' n fromStatus t tr ht hn =>
    obtain ⟨sel, pepper, -, hmem⟩ := ht.found
    obtain rfl := eq_of_calm_read (hcalmev _ (List.mem_cons_of_mem _ hmem))
    obtain rfl := ticket_fresh hc.noGrace ht
    cases rep with
    | true => exact Or.inl ⟨_, _, hs.did_iff.mpr (Or.inr rfl)⟩
    | false => exact absurd hact ((memoryStore.mark_lost ha).2 r' hrow)
  | cleaning ht hn =>
    rcases hcalmev _ List.mem_cons_self with he | ⟨n, he⟩
    · cases he
    · cases he

/-- **A step before the first rotation** is the first rotation, or keeps the calm. -/
theorem calm_step (hr : ((engines H memory).under G).Reachable s) (hcalm : Calm I r s)
    (hact : r.status = .active) (hs : Step (code H) memory s l s')
    (hG : OthersQuiet I r.familyId s l)
    (hI : ∀ i ∈ I, ∀ op, OpAt s i op → ∃ c, op = .refresh c ∧ MayExchange H r c) :
    (∃ i ∈ I, ∃ q t, Marked s' i r.selector .active t q) ∨ Calm I r s' := by
  rcases hs.shared_cases with ⟨i, th, q, k, rep, rfl, hth, -, -, ha⟩ | ⟨i, th, q, k, -, -, -, -, hw⟩ |
    ⟨a, rfl, he⟩ | ⟨hno, he⟩
  · by_cases hi : i ∈ I
    · obtain ⟨c, hop, hc⟩ := hI i hi th.op ⟨th, hth, rfl⟩
      rcases calm_answer hr hcalm hact hs hi ⟨th, hth, hop⟩ hc with ⟨q, t, hm⟩ | hcalm'
      · exact Or.inl ⟨i, hi, q, t, hm⟩
      · exact Or.inr hcalm'
    · refine Or.inr (hcalm.answer hs ?_ ?_)
      · exact (hG.others i _ rfl hi _ _ ha _ _ rfl).mp hcalm.row
      · rintro j ev hl hj
        cases hl
        exact absurd hj hi
  · exact hw.elim
  · refine Or.inr (hcalm.answer hs ?_ fun j ev hl => (nomatch hl))
    rw [he]
    exact (hG.env a rfl _ _ rfl).mp hcalm.row
  · refine Or.inr (hcalm.answer hs ?_ fun j ev hl => absurd hl (hno j ev))
    rw [he]
    exact hcalm.row

/-- In a race the first rotation has come, or the calm has lasted. -/
theorem race_marked (hr : ((engines H memory).under NoReinsert).Reachable s)
    (hrun : ((engines H memory).under (OthersQuiet I r.familyId)).Run s t)
    (hcalm : Calm I r s) (hact : r.status = .active)
    (hI : ∀ i ∈ I, ∀ op, OpAt t i op → ∃ c, op = .refresh c ∧ MayExchange H r c) :
    (∃ i ∈ I, ∃ q t₀, Marked t i r.selector .active t₀ q) ∨ Calm I r t := by
  induction hrun with
  | refl => exact Or.inr hcalm
  | @step u v l hsu hstep ih =>
    have hop : ∀ i ∈ I, ∀ op, OpAt u i op → ∃ c, op = .refresh c ∧ MayExchange H r c :=
      fun i hi op ho => hI i hi op (ho.mono hstep.2)
    rcases ih hop with ⟨i, hi, q, t₀, hm⟩ | hc
    · exact Or.inl ⟨i, hi, q, t₀, did_mono hm hstep.2⟩
    · exact calm_step (hr.run (hsu.weaken fun _ _ h => h.noReinsert)) hc hact hstep.2 hstep.1 hop

/-- The points a completed refresh is at. -/
theorem completed_at (hr : ((engines H memory).under G).Reachable t) {i : ℕ} {c : RefreshCall}
    (hop : OpAt t i (.refresh c)) (hdone : Completed t i) :
    ∃ tr res, RefreshAt H c tr (.ret res) ∧ (∀ ev ∈ tr, t.Did i ev) ∧
      ∃ th, t.threads[i]? = some th ∧ th.result = some (.refreshed res) := by
  obtain ⟨th, hi, hop⟩ := hop
  obtain ⟨th', hi', hdone⟩ := hdone
  obtain rfl := Option.some.inj (hi.symm.trans hi')
  have hat := callAt hr th (mem_of_getElem? hi)
  rw [hop] at hat
  obtain ⟨p, hp, hat⟩ := hat
  rcases hdone with hm | ⟨err, herr⟩
  · obtain ⟨x, hx⟩ := returned_ret hr th (mem_of_getElem? hi) hm
    obtain ⟨res, rfl, rfl⟩ := Prog.map_eq_ret (hp.symm.trans hx)
    exact ⟨th.trace, res, hat, fun ev hev => did_of_mem hi hev, th, hi, result_of_returned hm hx⟩
  · rw [herr] at hp
    cases p with
    | ret a => cases hp
    | throw e => exact absurd hat RefreshAt.not_throw
    | call q k => cases hp

/-- A racing call cannot end while the calm lasts. -/
theorem not_completed_of_calm (hr : ((engines H memory).under G).Reachable t) (hcalm : Calm I r t)
    (hact : r.status = .active) {i : ℕ} (hi : i ∈ I) {c : RefreshCall}
    (hop : OpAt t i (.refresh c)) (hc : MayExchange H r c) : ¬ Completed t i := by
  intro hdone
  obtain ⟨tr, res, hat, hdid, -⟩ := completed_at hr hop hdone
  have hev : ∀ e ∈ tr, e = ⟨.findBySelector r.selector, some r⟩ ∨ ∃ n, e = ⟨.insert n, ()⟩ :=
    fun e he => hcalm.did i hi e (hdid e he)
  obtain ⟨pepper, hp₀, -⟩ := hc.proves
  cases hat with
  | refused hf =>
    cases hf with
    | unparsed hp =>
      obtain ⟨parsed, hp', -⟩ := hp₀
      rw [hp] at hp'
      cases hp'
    | notFound hp => cases found_of_calm_read (hev _ List.mem_cons_self)
    | unproved hp hv =>
      obtain rfl := eq_of_calm_read (hev _ List.mem_cons_self)
      obtain ⟨parsed, hp', -, hv'⟩ := hp₀
      rw [hp] at hp'
      obtain rfl := Except.ok.inj hp'
      rw [hv] at hv'
      cases hv'
    | revoked hp hs =>
      rw [eq_of_calm_read (hev _ List.mem_cons_self), hact] at hs
      cases hs
    | lost =>
      rcases hev _ List.mem_cons_self with he | ⟨n, he⟩
      · cases he
      · cases he
  | burned =>
    rcases hev _ List.mem_cons_self with he | ⟨n, he⟩
    · cases he
    · cases he
  | won =>
    rcases hev _ List.mem_cons_self with he | ⟨n, he⟩
    · cases he
    · cases he
  | cleaned =>
    rcases hev _ List.mem_cons_self with he | ⟨n, he⟩
    · cases he
    · cases he

/-- A racing call that does not win is refused, because it lost the rotation, found the record rotated,
or found it revoked. -/
theorem refusal_of_race {c : RefreshCall} (hc : MayExchange H r c) (hact : r.status = .active)
    {tr : List StoreEvent} {res : RefreshResult} (hat : RefreshAt H c tr (.ret res))
    (hread : ∀ sel found, ⟨.findBySelector sel, found⟩ ∈ tr → sel = r.selector →
      ∃ r', found = some r' ∧ Evolves r r') :
    (∃ x, res = .ok x) ∨
    ∃ f, res = .refused f ∧
      (f.error = .conflict ∨ f.error = .reuseDetected ∨ f.error = .revoked) := by
  obtain ⟨pepper, hp₀, hd₀⟩ := hc.proves
  have hsel : ∀ {sel pepper r'}, Proves H c sel r' pepper → sel = r.selector := by
    rintro sel pepper r' ⟨parsed, hp, rfl, -⟩
    exact lookup_selector hc hp
  cases hat with
  | refused hf =>
    cases hf with
    | unparsed hp =>
      obtain ⟨parsed, hp', -⟩ := hp₀
      rw [hp] at hp'
      cases hp'
    | notFound hp =>
      obtain ⟨r', he, -⟩ := hread _ _ List.mem_cons_self (lookup_selector hc hp)
      cases he
    | unproved hp hv =>
      obtain ⟨r', he, hev⟩ := hread _ _ List.mem_cons_self (lookup_selector hc hp)
      obtain rfl := Option.some.inj he
      obtain ⟨parsed, hp', -, hv'⟩ := hp₀.congr hev.kid hev.verifierHash
      rw [hp] at hp'
      obtain rfl := Except.ok.inj hp'
      rw [hv] at hv'
      cases hv'
    | revoked => exact Or.inr ⟨_, rfl, Or.inr (Or.inr rfl)⟩
    | lost hp hs hg =>
      rw [withinGrace_none hc.noGrace] at hg
      cases hg
  | @burned r' error tr n hb =>
    obtain ⟨sel, pepper', hp, hmem⟩ := hb.found
    obtain ⟨r₁, he, hev⟩ := hread sel _ (List.mem_cons_of_mem _ hmem) (hsel hp)
    obtain rfl := Option.some.inj he
    have hst : r'.status ≠ .active := fun hst => not_burns hc hact (hev.active hst ▸ hb)
    cases hb with
    | reuse => exact Or.inr ⟨_, rfl, Or.inr (Or.inl rfl)⟩
    | used hp hs hg =>
      rw [withinGrace_none hc.noGrace] at hg
      cases hg
    | graceDevice hp hs hg =>
      rw [withinGrace_none hc.noGrace] at hg
      cases hg
    | absolute hp hs => exact absurd hs hst
    | idle hp hs => exact absurd hs hst
    | device hp hs => exact absurd hs hst
  | won => exact Or.inl ⟨_, rfl⟩
  | cleaned => exact Or.inr ⟨_, rfl, Or.inl rfl⟩

/-- The record stays in the store while nobody else touches the family. -/
theorem present_in_race (hr : ((engines H memory).under NoReinsert).Reachable s)
    (hrun : ((engines H memory).under (OthersQuiet I r.familyId)).Run s t)
    (hrow : s.shared.get r.selector = some r) :
    ∃ row, t.shared.get r.selector = some row ∧ Evolves r row := by
  obtain ⟨-, j, n, hj, hn, -⟩ := (knowledge memoryStore hr).row _ _ hrow
  have hrun' := hrun.weaken fun _ _ h => h.noReinsert
  have hpres : t.shared.get r.selector ≠ none := by
    clear hrun'
    induction hrun with
    | refl =>
      rw [hrow]
      exact Option.some_ne_none r
    | @step u v l hsu hstep ih =>
      by_cases hl : ∃ now, l = .env now
      · obtain ⟨now, rfl⟩ := hl
        obtain ⟨row, hu⟩ := Option.ne_none_iff_exists'.mp ih
        obtain ⟨row₀, h₀, he⟩ := evolves_run (C := memoryStore) hr
          (hsu.weaken fun _ _ h => h.noReinsert) ⟨j, n, hj, hn⟩ hu
        obtain rfl := Option.some.inj (hrow.symm.trans h₀)
        have hshared : v.shared = memory.env now u.shared := by
          cases hstep.2
          rfl
        rw [hshared, (hstep.1.env now rfl _ row he.familyId).mp hu]
        exact Option.some_ne_none row
      · exact present_step memoryStore hstep.2 (fun a ha => hl ⟨a, ha⟩) ih
  obtain ⟨row, ht⟩ := Option.ne_none_iff_exists'.mp hpres
  obtain ⟨row₀, h₀, he⟩ := evolves_run (C := memoryStore) hr hrun' ⟨j, n, hj, hn⟩ ht
  obtain rfl := Option.some.inj (hrow.symm.trans h₀)
  exact ⟨row, ht, he⟩

/-- What a racing call reads of the record is a later state of it. -/
theorem read_in_race (hr : ((engines H memory).under NoReinsert).Reachable s)
    (hrun : ((engines H memory).under (OthersQuiet I r.familyId)).Run s t)
    (hrow : s.shared.get r.selector = some r) {i : ℕ} {found : Option TokenRecord}
    (h0 : ∀ ev, ¬ s.Did i ev) (h : t.Did i ⟨.findBySelector r.selector, found⟩) :
    ∃ r', found = some r' ∧ Evolves r r' := by
  -- the step of the read
  obtain ⟨u, l, v, hsu, ⟨-, hstep⟩, hu, hv, -⟩ :=
    hrun.crossing (P := fun u => u.Did i ⟨.findBySelector r.selector, found⟩) (h0 _) h
  rcases hstep.did_iff.mp hv with hu' | rfl
  · exact absurd hu' hu
  · obtain ⟨th, k, -, -, ha⟩ := callAt_answer (hr.run (hsu.weaken fun _ _ h => h.noReinsert)) hstep
    obtain ⟨row, hrow', he⟩ := present_in_race hr hsu hrow
    exact ⟨row, (memoryStore.find ha).1.trans hrow', he⟩

/-- Two calls that exchange one selector without a window are one call. -/
theorem winner_unique (hr : ((engines H memory).under NoReinsert).Reachable t) {i j : ℕ}
    {c c' : RefreshCall} {x y : RefreshSuccess} (hi : OpAt t i (.refresh c))
    (hj : OpAt t j (.refresh c')) (hc : c.engine.reuseGrace = 0) (hc' : c'.engine.reuseGrace = 0)
    (hsel : ∀ sel sel' r r' pepper pepper', Proves H c sel r pepper → Proves H c' sel' r' pepper' →
      sel = sel') (hx : Succeeded t i x) (hy : Succeeded t j y) : i = j := by
  have hK := knowledge memoryStore hr
  obtain ⟨c₁, r₁, n₁, f₁, t₁, tr₁, hw₁, -⟩ := won_of_success hr hx
  obtain ⟨c₂, r₂, n₂, f₂, t₂, tr₂, hw₂, -⟩ := won_of_success hr hy
  obtain rfl := Operation.refresh.inj (hw₁.opAt.unique hi)
  obtain rfl := Operation.refresh.inj (hw₂.opAt.unique hj)
  obtain rfl := ticket_fresh hc hw₁.ticket
  obtain rfl := ticket_fresh hc' hw₂.ticket
  obtain ⟨sel₁, pepper₁, hp₁, hm₁⟩ := hw₁.ticket.found
  obtain ⟨sel₂, pepper₂, hp₂, hm₂⟩ := hw₂.ticket.found
  have hs₁ := hK.found_selector (hw₁.did _ hm₁)
  have hs₂ := hK.found_selector (hw₂.did _ hm₂)
  have hmark₂ := hw₂.marked
  rw [hs₂, ← hsel _ _ _ _ _ _ hp₁ hp₂, ← hs₁] at hmark₂
  exact (exclusive memoryStore hr).first i j _ _ _ _ _ hw₁.marked hmark₂

end Race

/-- **Single use with exactly one winner.** In every run that stores no selector twice, rows collected
or not: of the calls that present one token to engines without a grace window, at most one succeeds.
And when a nonempty set of calls that may all exchange an active record race, with nobody else touching
its family, then once all have completed exactly one has succeeded, and each other call has reported
`CONFLICT`, `REUSE_DETECTED` or `REVOKED`. -/
theorem single_use (H : HmacSha256) :
    (∀ s : PoolState Rows, ((engines H memory).under NoReinsert).Reachable s →
      ∀ i j c c' x y, OpAt s i (.refresh c) → OpAt s j (.refresh c') → c.engine.reuseGrace = 0 →
        c'.engine.reuseGrace = 0 → c.token = c'.token → Succeeded s i x → Succeeded s j y → i = j) ∧
    ∀ (s t : PoolState Rows) (I : Finset ℕ) (r : TokenRecord),
      ((engines H memory).under NoReinsert).Reachable s →
      ((engines H memory).under (OthersQuiet I r.familyId)).Run s t →
      s.shared.get r.selector = some r → r.status = .active → I.Nonempty →
      (∀ i ∈ I, ∀ ev, ¬ s.Did i ev) →
      (∀ i ∈ I, ∃ c, OpAt t i (.refresh c) ∧ MayExchange H r c) → (∀ i ∈ I, Completed t i) →
      ∃ i ∈ I, (∃ x, Succeeded t i x) ∧ ∀ j ∈ I, j ≠ i → (∀ y, ¬ Succeeded t j y) ∧
        ∃ f, Refused t j f ∧
          (f.error = .conflict ∨ f.error = .reuseDetected ∨ f.error = .revoked) := by
  refine ⟨?_, ?_⟩
  · intro s hr i j c c' x y hi hj hc hc' htok hx hy
    refine winner_unique hr hi hj hc hc' ?_ hx hy
    rintro sel sel' r r' pepper pepper' ⟨parsed, hp, rfl, -⟩ ⟨parsed', hp', rfl, -⟩
    have h₁ := parseToken_of_configured hp
    rw [htok, parseToken_of_configured hp'] at h₁
    rw [Option.some.inj h₁]
  · intro s t I r hr hrun hrow hact hne h0 hI hdone
    have hrun' := hrun.weaken fun _ _ h => h.noReinsert
    have ht := hr.run hrun'
    have hIop : ∀ i ∈ I, ∀ op, OpAt t i op → ∃ c, op = .refresh c ∧ MayExchange H r c := by
      intro i hi op ho
      obtain ⟨c, hop, hc⟩ := hI i hi
      exact ⟨c, ho.unique hop, hc⟩
    have hcalm : Calm I r s := ⟨hrow, fun i hi ev hd => absurd hd (h0 i hi ev)⟩
    -- how each racing call has ended
    have hend : ∀ i ∈ I, (∃ x, Succeeded t i x) ∨ ∃ f, Refused t i f ∧
        (f.error = .conflict ∨ f.error = .reuseDetected ∨ f.error = .revoked) := by
      intro i hi
      obtain ⟨c, hop, hc⟩ := hI i hi
      obtain ⟨tr, res, hat, hdid, th, hth, hres⟩ := completed_at ht hop (hdone i hi)
      have hread : ∀ sel found, (⟨.findBySelector sel, found⟩ : StoreEvent) ∈ tr →
          sel = r.selector → ∃ r', found = some r' ∧ Evolves r r' := by
        rintro sel found hmem rfl
        exact read_in_race hr hrun hrow (h0 i hi) (hdid _ hmem)
      rcases refusal_of_race hc hact hat hread with ⟨x, rfl⟩ | ⟨f, rfl, hf⟩
      · exact Or.inl ⟨x, th, hth, hres⟩
      · exact Or.inr ⟨f, ⟨th, hth, hres⟩, hf⟩
    rcases race_marked hr hrun hcalm hact hIop with ⟨i, hi, q, t₀, hm⟩ | hcalm'
    · obtain ⟨c, hop, hc⟩ := hI i hi
      have hx : ∃ x, Succeeded t i x := by
        rcases hend i hi with hx | ⟨f, ⟨th, hth, hres⟩, -⟩
        · exact hx
        · -- a call that has rotated is left with its success
          obtain ⟨c', r', n, tr, hw, -⟩ := won_of_marked ht hm
          obtain ⟨mode, hth'⟩ := hw.thread
          obtain rfl := Option.some.inj (hth'.symm.trans hth)
          cases (of_result hres).2
      refine ⟨i, hi, hx, fun j hj hji => ?_⟩
      obtain ⟨c', hop', hc'⟩ := hI j hj
      have hno : ∀ y, ¬ Succeeded t j y := by
        intro y hy
        obtain ⟨x, hx⟩ := hx
        refine hji (winner_unique ht hop' hop hc'.noGrace hc.noGrace ?_ hy hx)
        rintro sel sel' r₁ r₂ pepper pepper' ⟨parsed, hp, rfl, -⟩ ⟨parsed', hp', rfl, -⟩
        rw [lookup_selector hc' hp, lookup_selector hc hp']
      exact ⟨hno, (hend j hj).resolve_left fun ⟨y, hy⟩ => hno y hy⟩
    · obtain ⟨i, hi⟩ := hne
      obtain ⟨c, hop, hc⟩ := hI i hi
      exact absurd (hdone i hi) (not_completed_of_calm ht hcalm' hact hi hop hc)

/-- After a login, without a window. -/
def loggedIn : PoolState Rows :=
  (played sampleHmac (fun s l => noReinsertCheck s l)
    (.invoke (sampleIssue 0 0) :: sampleSteps 0 1)).get (by decide)

/-- Two presentations of its token have raced; both read the record active. -/
def raced : PoolState Rows :=
  (playedFrom sampleHmac (fun s l => noReinsertCheck s l && match l with
      | .answer i _ => decide (i = 1 ∨ i = 2)
      | .env _ => false
      | _ => true) loggedIn
    ([.invoke (sampleRefresh 0 0 1 1010), .invoke (sampleRefresh 0 0 2 1010), .go 1, .go 2, .go 2] ++
      sampleSteps 1 2 ++ sampleSteps 2 2)).get (by decide)

theorem single_use_sample :
    (∀ j c' y, OpAt raced j (.refresh c') → c'.engine.reuseGrace = 0 →
      (samplePresent 0 0 1 1010).token = c'.token → Succeeded raced j y → 1 = j) ∧
    ∃ i ∈ ({1, 2} : Finset ℕ), (∃ x, Succeeded raced i x) ∧
      ∀ j ∈ ({1, 2} : Finset ℕ), j ≠ i → ∃ f, Refused raced j f := by
  have hs : ((engines sampleHmac memory).under NoReinsert).Reachable loggedIn :=
    played_reachable (fun _ _ h => noReinsert_of_check h) _
  have hrun : ((engines sampleHmac memory).under
      (OthersQuiet {1, 2} (sampleRow 0 0).familyId)).Run loggedIn raced := by
    refine playedFrom_run (fun s l h => ?_) _
    rw [Bool.and_eq_true] at h
    refine ⟨noReinsert_of_check h.1, fun now hl => ?_, fun j ev hl hj => ?_⟩
    · subst hl
      cases h.2
    · subst hl
      exact absurd (by simpa using of_decide_eq_true h.2) hj
  have hrow : loggedIn.shared.get (sampleRow 0 0).selector = some (sampleRow 0 0) := by decide
  have hmay : ∀ b, MayExchange sampleHmac (sampleRow 0 0) (samplePresent 0 0 b 1010) := by
    intro b
    refine ⟨⟨samplePepper, ⟨⟨sampleKid, (sampleDraw 0).selectorText, List.replicate 32 0⟩, rfl, rfl,
      rfl⟩, rfl⟩, ?_, ?_, rfl⟩
    · show (1010 : ℤ) < (sampleRow 0 0).familyExpiresAt
      decide
    · show (1010 : ℤ) < (sampleRow 0 0).idleExpiresAt
      decide
  have hop : OpAt raced 1 (sampleRefresh 0 0 1 1010) := opAt_of_read rfl
  have hop' : OpAt raced 2 (sampleRefresh 0 0 2 1010) := opAt_of_read rfl
  have hx : ∃ x, Succeeded raced 1 x := ⟨_, succeeded_of_read rfl⟩
  have htwo := (single_use sampleHmac).2 loggedIn raced {1, 2} (sampleRow 0 0) hs hrun hrow rfl
    ⟨1, by simp⟩ (by
      intro i hi ev hd
      obtain ⟨th, hth, -⟩ := hd
      simp only [Finset.mem_insert, Finset.mem_singleton] at hi
      rcases hi with rfl | rfl
      · rw [show loggedIn.threads[1]? = none from rfl] at hth
        cases hth
      · rw [show loggedIn.threads[2]? = none from rfl] at hth
        cases hth) (by
      intro i hi
      simp only [Finset.mem_insert, Finset.mem_singleton] at hi
      rcases hi with rfl | rfl
      · exact ⟨_, hop, hmay 1⟩
      · exact ⟨_, hop', hmay 2⟩) (by
      intro i hi
      simp only [Finset.mem_insert, Finset.mem_singleton] at hi
      rcases hi with rfl | rfl
      · exact ⟨_, rfl, Or.inl rfl⟩
      · exact ⟨_, rfl, Or.inl rfl⟩)
  obtain ⟨i, hi, hwin, hlose⟩ := htwo
  refine ⟨fun j c' y hj hg ht hy => ?_, i, hi, hwin, fun j hj hne => ?_⟩
  · obtain ⟨x, hx⟩ := hx
    exact (single_use sampleHmac).1 raced (hs.run (hrun.weaken fun _ _ h => h.noReinsert)) 1 j _ c' x y hop hj
      rfl hg ht hx hy
  · obtain ⟨-, f, hf, -⟩ := hlose j hj hne
    exact ⟨f, hf⟩

end NebulaToken.Safety.SingleUse
