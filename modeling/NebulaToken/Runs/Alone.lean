import NebulaToken.Runs.Sequential

/-! # A call alone

What one call does to the rows of the reference store when it runs to its end before the next one
starts, for any engine and any reading of the clock. Every write is on rows of one family, that of the
row whose verifier the call proves, since pointers stay inside families.

* `refresh_done`: what a refresh does, and what it returns;
* `Grouped`: the invariant of the rows, kept by every call;
* `Spares`, `spared`: a call that does not touch a family leaves its rows as they are. -/

namespace NebulaToken.Runs.Alone

open NebulaToken.Lib.Program NebulaToken.Lib.Solo NebulaToken.Lib.KeyedTable
open NebulaToken.Token.Unicode NebulaToken.Token.Wire NebulaToken.Engine.Records
open NebulaToken.Engine.Config NebulaToken.Engine.Operations NebulaToken.Runs.Calls
open NebulaToken.Runs.Sequential NebulaToken.Store.Contract NebulaToken.Store.Memory
open NebulaToken.Store.Memory.MemoryRefreshTokenStore

/-- **Pointers stay inside families**, and with them the deadlines. -/
structure Grouped (look : Str → Option TokenRecord) : Prop where
  keyed : ∀ sel r, look sel = some r → r.selector = sel
  pointer : ∀ sel r q, look sel = some r → r.replacedBySelector = some q →
    ∃ d, look q = some d ∧ d.familyId = r.familyId ∧ d.familyExpiresAt = r.familyExpiresAt

/-- The rows of the family. -/
def InFamily (familyId : Str) (r : TokenRecord) : Prop := r.familyId = familyId

variable {look look' : Str → Option TokenRecord}

/-! ### The rows stay grouped -/

theorem Grouped.empty : Grouped (Table.get (Table.empty : Rows)) where
  keyed sel r h := by cases h
  pointer sel r q h := by cases h

theorem Grouped.revoke (hG : Grouped look) {p : TokenRecord → Prop} (h : RevokesSome p look look') :
    Grouped look' := by
  refine ⟨fun sel r' hr' => ?_, fun sel r' q hr' hq => ?_⟩
  · obtain ⟨r, hr, he⟩ := revokesSome_evolves h hr'
    rw [he.selector, hG.keyed sel r hr]
  · have hback : ∃ r, look sel = some r ∧ r.replacedBySelector = some q ∧
        r.familyId = r'.familyId ∧ r.familyExpiresAt = r'.familyExpiresAt := by
      obtain ⟨r, hr, rfl | rfl⟩ := revokesSome_back h hr'
      · exact ⟨_, hr, hq, rfl, rfl⟩
      · exact ⟨r, hr, hq, rfl, rfl⟩
    obtain ⟨r, hr, hq, hf, hx⟩ := hback
    obtain ⟨d, hd, hdf, hdx⟩ := hG.pointer sel r q hr hq
    rcases h q with hsame | ⟨d₀, hd₀, -, hrev⟩
    · exact ⟨d, hsame.trans hd, hdf.trans hf, hdx.trans hx⟩
    · obtain rfl := Option.some.inj (hd.symm.trans hd₀)
      exact ⟨_, hrev, hdf.trans hf, hdx.trans hx⟩

/-- A collection takes a row and the row it points to together. -/
theorem Grouped.collect (hG : Grouped look) {now : ℤ}
    (h : ∀ sel, look' sel = (look sel).filter fun r => decide (now < r.familyExpiresAt)) :
    Grouped look' := by
  have hback : ∀ sel r, look' sel = some r → look sel = some r ∧ now < r.familyExpiresAt := by
    intro sel r hr
    rw [h, Option.filter_eq_some_iff] at hr
    exact ⟨hr.1, of_decide_eq_true hr.2⟩
  refine ⟨fun sel r hr => hG.keyed sel r (hback sel r hr).1, fun sel r q hr hq => ?_⟩
  obtain ⟨hr, hlive⟩ := hback sel r hr
  obtain ⟨d, hd, hf, hx⟩ := hG.pointer sel r q hr hq
  refine ⟨d, ?_, hf, hx⟩
  rw [h, hd, Option.filter_some, if_pos]
  rw [decide_eq_true_eq, hx]
  exact hlive

theorem Grouped.insert (hG : Grouped look) {n : TokenRecord} (hnone : look n.selector = none)
    (hq : n.replacedBySelector = none) :
    Grouped (Function.update look n.selector (some n)) := by
  refine ⟨fun sel r hr => ?_, fun sel r q hr hp => ?_⟩
  · rcases eq_or_ne sel n.selector with rfl | hne
    · rw [Function.update_self] at hr
      rw [← Option.some.inj hr]
    · rw [Function.update_of_ne hne] at hr
      exact hG.keyed sel r hr
  · rcases eq_or_ne sel n.selector with rfl | hne
    · rw [Function.update_self] at hr
      rw [← Option.some.inj hr, hq] at hp
      cases hp
    · rw [Function.update_of_ne hne] at hr
      obtain ⟨d, hd, hf, hx⟩ := hG.pointer sel r q hr hp
      refine ⟨d, ?_, hf, hx⟩
      rw [Function.update_of_ne, hd]
      rintro rfl
      rw [hnone] at hd
      cases hd

theorem Grouped.replaced (hG : Grouped look) {r n : TokenRecord} {t : ℤ}
    (hr : look r.selector = some r) (hnone : look n.selector = none)
    (hq : n.replacedBySelector = none) (hf : n.familyId = r.familyId)
    (hx : n.familyExpiresAt = r.familyExpiresAt) : Grouped (replaced look r n t) := by
  have hG₁ := hG.insert hnone hq
  have hne : n.selector ≠ r.selector := fun he => by
    rw [he, hr] at hnone
    cases hnone
  have hr₁ : Function.update look n.selector (some n) r.selector = some r := by
    rw [Function.update_of_ne hne.symm, hr]
  -- a row of the family and the deadline of `r` is still there
  have hkeep : ∀ q d, Function.update look n.selector (some n) q = some d →
      ∃ d', Sequential.replaced look r n t q = some d' ∧ d'.familyId = d.familyId ∧
        d'.familyExpiresAt = d.familyExpiresAt := by
    intro q d hd
    rcases eq_or_ne q r.selector with rfl | hqr
    · rw [hr₁] at hd
      obtain rfl := Option.some.inj hd
      exact ⟨rotatedTo r t n.selector, by rw [Sequential.replaced, Function.update_self], rfl, rfl⟩
    · exact ⟨d, by rw [Sequential.replaced, Function.update_of_ne hqr, hd], rfl, rfl⟩
  refine ⟨fun sel x hx => ?_, fun sel x q hx' hp => ?_⟩
  · rcases replaced_cases hx with ⟨rfl, rfl⟩ | ⟨rfl, rfl⟩ | ⟨-, hx⟩
    · rfl
    · rfl
    · exact hG.keyed sel x hx
  · rcases replaced_cases hx' with ⟨rfl, rfl⟩ | ⟨rfl, rfl⟩ | ⟨hne', hx'⟩
    · obtain rfl := Option.some.inj (hp : some n.selector = some q)
      obtain ⟨d', hd', hf', hx'⟩ := hkeep n.selector n (Function.update_self ..)
      exact ⟨d', hd', hf'.trans hf, hx'.trans hx⟩
    · rw [hq] at hp
      cases hp
    · obtain ⟨d, hd, hdf, hdx⟩ := hG₁.pointer sel x q (by
        rw [Function.update_of_ne, hx']
        rintro rfl
        rw [hnone] at hx'
        cases hx') hp
      obtain ⟨d', hd', hf', hx'⟩ := hkeep q d hd
      exact ⟨d', hd', hf'.trans hdf, hx'.trans hdx⟩

/-! ### What a refresh does -/

section Refresh

variable {H : HmacSha256} {c : RefreshCall} {rows rows' : Rows} {tr : List StoreEvent}

/-- **What a refresh does to the rows**, with what it returns: it writes nothing; it revokes rows of the
family of the row it proves; or it does so, and then puts the record it mints in the place of that row. -/
inductive Done (H : HmacSha256) (c : RefreshCall) (rows : Rows) :
    Option (Except NebulaConfigError RefreshResult) → Rows → Prop
  | quiet {f : RefreshFailure} {rows' : Rows} (h : rows'.get = rows.get) :
    Done H c rows (some (.ok (.refused f))) rows'
  | revoked {out : Option (Except NebulaConfigError RefreshResult)} {sel pepper : Str}
      {r : TokenRecord} {rows' : Rows} (hp : Proves H c sel r pepper) (hr : rows.get sel = some r)
      (ho : ∀ x, out ≠ some (.ok (.ok x)))
      (h : RevokesSome (InFamily r.familyId) rows.get rows'.get) : Done H c rows out rows'
  | rotated {sel pepper : Str} {r n : TokenRecord} {t : ℤ} {rows₁ rows' : Rows}
      (hp : Proves H c sel r pepper) (hr : rows.get sel = some r) (hn : Mints H c r n)
      (habs : c.now < r.familyExpiresAt)
      (h₁ : RevokesSome (InFamily r.familyId) rows.get rows₁.get)
      (hr₁ : rows₁.get r.selector = some r) (hnone : rows₁.get n.selector = none)
      (h : rows'.get = replaced rows₁.get r n t) :
    Done H c rows (some (.ok (.ok (success c r n)))) rows'

/-- What a call with a ticket has found, and has revoked. -/
theorem ticket_alone (hG : Grouped rows.get) {r : TokenRecord} {f : TokenStatus} {t : ℤ}
    (ht : Ticket H c r f t tr) (h : Replayed rows tr rows') :
    ∃ sel pepper, Proves H c sel r pepper ∧ rows.get sel = some r ∧
      RevokesSome (InFamily r.familyId) rows.get rows'.get ∧ rows'.get r.selector = some r ∧
      r.status = f := by
  cases ht with
  | @fresh sel pepper hp hs habs hidle hd =>
    obtain ⟨h, hr⟩ := h.find
    obtain rfl := h.nil
    obtain rfl := hG.keyed _ r hr
    exact ⟨_, pepper, hp, hr, revokesSome_self _ _, hr, hs⟩
  | @grace sel pepper q _ d hp hs hg ha hd =>
    obtain ⟨rows₁, h, hclear⟩ := Replay.cons_iff.mp h
    obtain ⟨h, hdrow⟩ := Replayed.find h
    obtain ⟨h, hr⟩ := Replayed.find h
    obtain rfl := Replayed.nil h
    obtain rfl := hG.keyed _ r hr
    obtain rfl := hG.keyed _ d hdrow
    obtain ⟨d₀, hd₀, -, hupd⟩ := memoryStore.clear (i := 0) hclear
    obtain rfl := Option.some.inj (hdrow.symm.trans hd₀)
    have hupd : rows'.get = Function.update rows₁.get d.selector (some (asRevoked d)) := hupd
    obtain ⟨d₁, hd₁, hfam, -⟩ := hG.pointer _ r _ hr (withinGrace_some hg).2.1
    obtain rfl := Option.some.inj (hdrow.symm.trans hd₁)
    have hne : r.selector ≠ d.selector := fun he => by
      rw [he, hdrow] at hr
      rw [← Option.some.inj hr, ha] at hs
      cases hs
    refine ⟨_, pepper, hp, hr, fun sel => ?_, ?_, hs⟩
    · rw [hupd]
      rcases eq_or_ne sel d.selector with rfl | hsel
      · exact Or.inr ⟨d, hdrow, hfam, by rw [Function.update_self]⟩
      · exact Or.inl (by rw [Function.update_of_ne hsel])
    · rw [hupd, Function.update_of_ne hne, hr]

/-- The row of a family that is to be revoked. -/
theorem burns_found {r : TokenRecord} {code : NebulaErrorCode} (hb : Burns H c r code tr)
    (h : Replayed rows tr rows') : ∃ sel pepper, Proves H c sel r pepper ∧ rows.get sel = some r := by
  cases hb with
  | reuse hp | absolute hp | idle hp | device hp =>
    obtain ⟨h, hr⟩ := h.find
    obtain rfl := h.nil
    exact ⟨_, _, hp, hr⟩
  | used hp | graceDevice hp =>
    obtain ⟨h, -⟩ := h.find
    obtain ⟨h, hr⟩ := h.find
    obtain rfl := h.nil
    exact ⟨_, _, hp, hr⟩

/-- **What a refresh alone does.** -/
theorem refresh_done (hG : Grouped rows.get) :
    Done H c rows (run (refresh H c.engine c.token c.deviceId c.now c.draw) rows).1
      (run (refresh H c.engine c.token c.deviceId c.now c.draw) rows).2 := by
  obtain ⟨tr, p, hrep, hat, hend⟩ := eval_rule (fun q rows => answer rows q)
    (P := RefreshAt H c) (fun tr q k rep h => refresh_step h rep) rows refresh_at
  change Replayed rows tr (run _ rows).2 at hrep
  change Ends _ (run _ rows).2 p (run _ rows).1 at hend
  generalize run (refresh H c.engine c.token c.deviceId c.now c.draw) rows = x at hrep hend ⊢
  obtain ⟨out, rows'⟩ := x
  dsimp only at hrep hend ⊢
  have hrow : ∀ {r : TokenRecord} {f : TokenStatus} {t : ℤ} {tr : List StoreEvent},
      Ticket H c r f t tr → ∀ rows₁, Replayed rows tr rows₁ →
        rows₁.get r.selector = some r ∧ r.status = f := by
    intro r f t tr ht rows₁ h
    obtain ⟨-, -, -, -, -, hr, hs⟩ := ticket_alone hG ht h
    exact ⟨hr, hs⟩
  cases hat with
  | lookup | successorLookup | consume | burning =>
    cases hend with
    | stuck h => cases h
  | marking | cleaning =>
    cases hend with
    | stuck h => cases h
  | refused hf =>
    cases hend
    exact .quiet (refuses_replayed hf hrep)
  | burned hb =>
    cases hend
    obtain ⟨rows₁, h, hrev⟩ := Replay.cons_iff.mp hrep
    obtain ⟨sel, pepper, hp, hr⟩ := burns_found hb h
    obtain rfl := burns_replayed hb h
    exact .revoked hp hr (fun x hx => by cases hx) (memoryStore.revokeFamily (i := 0) hrev)
  | inserting ht hn =>
    cases hend
    obtain ⟨sel, pepper, hp, hr, hrev, -⟩ := ticket_alone hG ht hrep
    exact .revoked hp hr (fun x hx => by cases hx) hrev
  | won ht hn =>
    cases hend
    obtain ⟨-, rows₁, h, hnone, hget⟩ := rotation_replayed hrep (hrow ht)
    obtain ⟨sel, pepper, hp, hr, hrev, hr₁, -⟩ := ticket_alone hG ht h
    exact .rotated hp hr hn ht.before_deadline hrev hr₁ hnone hget
  | cleaned ht hn =>
    obtain ⟨rows₁, h, -⟩ := Replay.cons_iff.mp hrep
    obtain ⟨hb, -⟩ := rotation_replayed h (hrow ht)
    cases hb

theorem Done.grouped {out : Option (Except NebulaConfigError RefreshResult)} (h : Done H c rows out rows')
    (hG : Grouped rows.get) : Grouped rows'.get := by
  cases h with
  | quiet h =>
    rw [h]
    exact hG
  | revoked hp hr ho h => exact hG.revoke h
  | rotated hp hr hn habs h₁ hr₁ hnone h =>
    rw [h]
    obtain ⟨hash, -, rfl⟩ := hn
    exact (hG.revoke h₁).replaced hr₁ hnone rfl rfl rfl

end Refresh

/-! ### What the other calls do -/

section Others

variable {H : HmacSha256} {rows : Rows}

/-- **What a login alone does**: it writes nothing, or stores its record. -/
theorem issue_done (c : IssueCall) (rows : Rows) :
    (run (issue H c.engine c.userId c.deviceId c.now c.draw) rows).2.get = rows.get ∨
    ∃ n, IssueMints H c n ∧ rows.get n.selector = none ∧
      (run (issue H c.engine c.userId c.deviceId c.now c.draw) rows).2.get =
        Function.update rows.get n.selector (some n) := by
  obtain ⟨tr, p, hrep, hat, -⟩ := eval_rule (fun q rows => answer rows q)
    (P := IssueAt H c) (fun tr q k rep h => issue_step h rep) rows issue_at
  change Replayed rows tr (run _ rows).2 at hrep
  cases hat with
  | threw => exact Or.inl (by rw [hrep.nil])
  | inserting => exact Or.inl (by rw [hrep.nil])
  | @done n hn =>
    obtain ⟨rows₁, h, hins⟩ := Replay.cons_iff.mp hrep
    obtain rfl := Replayed.nil h
    obtain ⟨hnone, hupd⟩ := memoryStore.insert (i := 0) hins
    exact Or.inr ⟨n, hn, hnone, hupd⟩

/-- **What a revocation by token alone does**: it writes nothing, or revokes the family of the row it
proves. -/
theorem revokeToken_done (e : NebulaEngine) (token : Str) (rows : Rows) :
    (run (revokeToken H e token) rows).2.get = rows.get ∨
    ∃ parsed r pepper, parseConfigured e token = .ok parsed ∧ rows.get parsed.selector = some r ∧
      proveVerifier H e r parsed = .ok pepper ∧
      RevokesSome (InFamily r.familyId) rows.get (run (revokeToken H e token) rows).2.get := by
  obtain ⟨tr, p, hrep, hat, -⟩ := eval_rule (fun q rows => answer rows q)
    (P := RevokeTokenAt H e token) (fun tr q k rep h => revokeToken_step h rep) rows revokeToken_at
  change Replayed rows tr (run _ rows).2 at hrep
  cases hat with
  | lookup | unparsed => exact Or.inl (by rw [hrep.nil])
  | refused | revoking => exact Or.inl (by rw [hrep.find.1.nil])
  | @revoked parsed r pepper n hp hv =>
    obtain ⟨rows₁, h, hrev⟩ := Replay.cons_iff.mp hrep
    obtain ⟨h, hr⟩ := Replayed.find h
    obtain rfl := h.nil
    exact Or.inr ⟨parsed, r, pepper, hp, hr, hv, memoryStore.revokeFamily (i := 0) hrev⟩

/-- **Every call keeps the rows grouped.** -/
theorem Grouped.call (hG : Grouped rows.get) (op : Operation) :
    Grouped (run (code H op) rows).2.get := by
  cases op with
  | issue c =>
    show Grouped (run (_ <$> _) rows).2.get
    rw [run_map]
    rcases issue_done c rows with h | ⟨n, hn, hnone, h⟩
    · exact h ▸ hG
    · obtain ⟨hash, -, rfl⟩ := hn
      dsimp only
      rw [h]
      exact hG.insert hnone rfl
  | refresh c =>
    show Grouped (run (_ <$> _) rows).2.get
    rw [run_map]
    exact (refresh_done hG).grouped hG
  | revokeToken e token =>
    show Grouped (run (_ <$> _) rows).2.get
    rw [run_map]
    exact hG.revoke (revokeToken_rows e token)
  | revokeFamily familyId =>
    have h := @StoreContract.revokeFamily _ _ _ memoryStore 0 familyId rows _ _ rfl
    exact hG.revoke h
  | revokeAllForUser userId =>
    have h := @StoreContract.revokeUser _ _ _ memoryStore 0 userId rows _ _ rfl
    exact hG.revoke h

/-- A row that is not among those revoked. -/
theorem revokesSome_outside {p : TokenRecord → Prop} (h : RevokesSome p look look') {sel : Str}
    {r : TokenRecord} (hr : look sel = some r) (hp : ¬ p r) : look' sel = some r := by
  rcases h sel with he | ⟨r₀, hr₀, hp₀, -⟩
  · exact he.trans hr
  · obtain rfl := Option.some.inj (hr.symm.trans hr₀)
    exact absurd hp₀ hp

/-- A row that is not the one replaced. -/
theorem replaced_outside {r n x : TokenRecord} {t : ℤ} {sel : Str} (hx : look sel = some x)
    (hne : sel ≠ r.selector) (hnone : look n.selector = none) : replaced look r n t sel = some x := by
  rw [replaced, Function.update_of_ne hne, Function.update_of_ne, hx]
  rintro rfl
  rw [hnone] at hx
  cases hx

end Others

end NebulaToken.Runs.Alone
