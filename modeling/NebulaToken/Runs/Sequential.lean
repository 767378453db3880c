import NebulaToken.Lib.Solo
import NebulaToken.Runs.Assumptions
import NebulaToken.Store.Memory

/-! # Sequential runs

One engine, the reference store, and calls one after another, each run to its end; the clock does not go
back, and a login draws a family identifier that no row has. Between calls a family is `Orderly`: it has
at most one active row, and nothing in it was rotated after that row was created.

* `refresh_effect`: what a refresh does to the rows, and when it succeeds;
* `orderly`: the invariant of the rows. -/

namespace NebulaToken.Runs.Sequential

open NebulaToken.Lib.Program NebulaToken.Lib.Solo NebulaToken.Lib.Transition NebulaToken.Lib.KeyedTable
open NebulaToken.Token.Unicode NebulaToken.Token.Wire NebulaToken.Engine.Records
open NebulaToken.Engine.Config NebulaToken.Engine.Operations NebulaToken.Runs.Calls
open NebulaToken.Runs.Assumptions NebulaToken.Store.Contract NebulaToken.Store.Memory
open NebulaToken.Store.Memory.MemoryRefreshTokenStore

/-! ### The system -/

/-- The rows, and the latest time a call has read. -/
structure SeqState where
  rows : Rows
  clock : ℤ

inductive SeqEvent
  | call (op : Operation)
  | collect (now : ℤ)

/-- The time a call reads. -/
def readsClock : Operation → Option ℤ
  | .issue c => some c.now
  | .refresh c => some c.now
  | _ => none

/-- The next call is one of the engine, reads a time that is not before the last one, and draws a new
family. -/
structure Admissible (e : NebulaEngine) (s : SeqState) (op : Operation) : Prop where
  engine : ∀ e', engineOf op = some e' → e' = e
  clock : ∀ t, readsClock op = some t → s.clock ≤ t
  family : ∀ f, drawnFamily op = some f → ∀ sel r, s.rows.get sel = some r → r.familyId ≠ f

/-- Calls of one engine, one after another; rows are collected at any time. -/
def sequential (H : HmacSha256) (e : NebulaEngine) : System SeqState SeqEvent where
  init s := s.rows = Table.empty
  step s l s' :=
    match l with
    | .call op =>
      Admissible e s op ∧ s' = ⟨(run (code H op) s.rows).2, (readsClock op).getD s.clock⟩
    | .collect now => s' = ⟨deleteExpired s.rows now, s.clock⟩

/-! ### Orderly rows -/

/-- What holds of one row. -/
structure Sound (e : NebulaEngine) (clock : ℤ) (r : TokenRecord) : Prop where
  created : r.createdAt ≤ clock
  rotated : ∀ t, r.rotatedAt = some t → t ≤ clock
  idle : r.idleExpiresAt = min (r.createdAt + e.idleTtl) r.familyExpiresAt
  absolute : r.familyExpiresAt ≤ r.createdAt + e.absoluteTtl
  ok : RowOk r

/-- **The rows between calls.** -/
structure Orderly (e : NebulaEngine) (look : Str → Option TokenRecord) (clock : ℤ) : Prop where
  keyed : ∀ sel r, look sel = some r → r.selector = sel
  sound : ∀ sel r, look sel = some r → Sound e clock r
  pointer : ∀ sel r q, look sel = some r → r.replacedBySelector = some q →
    ∃ d, look q = some d ∧ d.familyId = r.familyId
  deadline : ∀ sel sel' r r', look sel = some r → look sel' = some r' → r.familyId = r'.familyId →
    r.familyExpiresAt = r'.familyExpiresAt
  one : ∀ sel sel' r r', look sel = some r → look sel' = some r' → r.status = .active →
    r'.status = .active → r.familyId = r'.familyId → sel = sel'
  order : ∀ sel sel' r a t, look sel = some r → look sel' = some a → a.status = .active →
    r.familyId = a.familyId → r.rotatedAt = some t → t ≤ a.createdAt

variable {e : NebulaEngine} {look look' : Str → Option TokenRecord} {clock clock' : ℤ}

theorem Sound.later {r : TokenRecord} (h : Sound e clock r) (hc : clock ≤ clock') :
    Sound e clock' r where
  created := h.created.trans hc
  rotated t ht := (h.rotated t ht).trans hc
  idle := h.idle
  absolute := h.absolute
  ok := h.ok

theorem Orderly.later (h : Orderly e look clock) (hc : clock ≤ clock') : Orderly e look clock' :=
  { h with sound := fun sel r hr => (h.sound sel r hr).later hc }

theorem Orderly.empty (e : NebulaEngine) (clock : ℤ) :
    Orderly e (Table.get (Table.empty : Rows)) clock where
  keyed sel r h := by cases h
  sound sel r h := by cases h
  pointer sel r q h := by cases h
  deadline sel sel' r r' h := by cases h
  one sel sel' r r' h := by cases h
  order sel sel' r a t h := by cases h

/-! ### Revocations and collections -/

/-- Where a row comes from when some rows were revoked. -/
theorem revokesSome_back {p : TokenRecord → Prop} (h : RevokesSome p look look') {sel : Str}
    {r' : TokenRecord} (hr' : look' sel = some r') :
    ∃ r, look sel = some r ∧ (r' = r ∨ r' = asRevoked r) := by
  rcases h sel with he | ⟨r, hr, -, he⟩
  · exact ⟨r', he ▸ hr', Or.inl rfl⟩
  · exact ⟨r, hr, Or.inr (Option.some.inj (hr'.symm.trans he))⟩

theorem revokesSome_evolves {p : TokenRecord → Prop} (h : RevokesSome p look look') {sel : Str}
    {r' : TokenRecord} (hr' : look' sel = some r') : ∃ r, look sel = some r ∧ Evolves r r' := by
  obtain ⟨r, hr, rfl | rfl⟩ := revokesSome_back h hr'
  · exact ⟨r', hr, .refl r'⟩
  · exact ⟨r, hr, .asRevoked r⟩

/-- A row is still there when some rows were revoked. -/
theorem revokesSome_present {p : TokenRecord → Prop} (h : RevokesSome p look look') {sel : Str}
    {r : TokenRecord} (hr : look sel = some r) :
    ∃ r', look' sel = some r' ∧ r'.familyId = r.familyId := by
  rcases h sel with he | ⟨r₀, hr₀, -, he⟩
  · exact ⟨r, he.trans hr, rfl⟩
  · obtain rfl := Option.some.inj (hr.symm.trans hr₀)
    exact ⟨_, he, rfl⟩

/-- **Revocations keep the rows orderly.** -/
theorem Orderly.revoke (hI : Orderly e look clock) {p : TokenRecord → Prop}
    (h : RevokesSome p look look') : Orderly e look' clock where
  keyed sel r' hr' := by
    obtain ⟨r, hr, rfl | rfl⟩ := revokesSome_back h hr'
    · exact hI.keyed sel _ hr
    · exact hI.keyed sel r hr
  sound sel r' hr' := by
    obtain ⟨r, hr, rfl | rfl⟩ := revokesSome_back h hr'
    · exact hI.sound sel _ hr
    · obtain ⟨hc, ht, hi, ha, hok⟩ := hI.sound sel r hr
      exact ⟨hc, ht, hi, ha, hok.asRevoked⟩
  pointer sel r' q hr' hq := by
    have hback : ∃ r, look sel = some r ∧ r.replacedBySelector = some q ∧ r.familyId = r'.familyId := by
      obtain ⟨r, hr, rfl | rfl⟩ := revokesSome_back h hr'
      · exact ⟨_, hr, hq, rfl⟩
      · exact ⟨r, hr, hq, rfl⟩
    obtain ⟨r, hr, hq, hf⟩ := hback
    obtain ⟨d, hd, hdf⟩ := hI.pointer sel r q hr hq
    obtain ⟨d', hd', hdf'⟩ := revokesSome_present h hd
    exact ⟨d', hd', hdf'.trans (hdf.trans hf)⟩
  deadline sel sel' a' b' ha' hb' hf := by
    obtain ⟨a, ha, hea⟩ := revokesSome_evolves h ha'
    obtain ⟨b, hb, heb⟩ := revokesSome_evolves h hb'
    rw [hea.familyId, heb.familyId] at hf
    rw [hea.familyExpiresAt, heb.familyExpiresAt]
    exact hI.deadline sel sel' a b ha hb hf
  one sel sel' a' b' ha' hb' hsa hsb hf := by
    obtain ⟨a, ha, rfl | rfl⟩ := revokesSome_back h ha'
    · obtain ⟨b, hb, rfl | rfl⟩ := revokesSome_back h hb'
      · exact hI.one sel sel' _ _ ha hb hsa hsb hf
      · cases hsb
    · cases hsa
  order sel sel' r' a' t hr' ha' hsa hf ht := by
    obtain ⟨a, ha, rfl | rfl⟩ := revokesSome_back h ha'
    · obtain ⟨r, hr, rfl | rfl⟩ := revokesSome_back h hr'
      · exact hI.order sel sel' _ _ t hr ha hsa hf ht
      · exact hI.order sel sel' r _ t hr ha hsa hf ht
    · cases hsa

/-- **A collection keeps the rows orderly**: it drops families whole. -/
theorem Orderly.collect (hI : Orderly e look clock) {now : ℤ}
    (h : ∀ sel, look' sel = (look sel).filter fun r => decide (now < r.familyExpiresAt)) :
    Orderly e look' clock := by
  have hback : ∀ sel r, look' sel = some r → look sel = some r ∧ now < r.familyExpiresAt := by
    intro sel r hr
    rw [h, Option.filter_eq_some_iff] at hr
    exact ⟨hr.1, of_decide_eq_true hr.2⟩
  refine ⟨fun sel r hr => hI.keyed sel r (hback sel r hr).1,
    fun sel r hr => hI.sound sel r (hback sel r hr).1, fun sel r q hr hq => ?_,
    fun sel sel' r r' hr hr' => hI.deadline sel sel' r r' (hback sel r hr).1 (hback sel' r' hr').1,
    fun sel sel' r r' hr hr' => hI.one sel sel' r r' (hback sel r hr).1 (hback sel' r' hr').1,
    fun sel sel' r a t hr ha => hI.order sel sel' r a t (hback sel r hr).1 (hback sel' a ha).1⟩
  obtain ⟨hr, hlive⟩ := hback sel r hr
  obtain ⟨d, hd, hf⟩ := hI.pointer sel r q hr hq
  refine ⟨d, ?_, hf⟩
  rw [h, hd, Option.filter_some, if_pos]
  rw [decide_eq_true_eq, hI.deadline q sel d r hd hr hf]
  exact hlive

/-! ### Insertions and rotations -/

/-- What holds of a record as it is minted. -/
structure Minted (e : NebulaEngine) (now : ℤ) (n : TokenRecord) : Prop where
  created : n.createdAt = now
  idle : n.idleExpiresAt = min (now + e.idleTtl) n.familyExpiresAt
  absolute : n.familyExpiresAt ≤ now + e.absoluteTtl
  active : n.status = .active
  rotatedAt : n.rotatedAt = none
  replaced : n.replacedBySelector = none

theorem Minted.sound {n : TokenRecord} {now : ℤ} (h : Minted e now n) : Sound e now n where
  created := h.created.le
  rotated t ht := by
    rw [h.rotatedAt] at ht
    cases ht
  idle := by rw [h.created, h.idle]
  absolute := by
    rw [h.created]
    exact h.absolute
  ok := .of_mint h.active h.rotatedAt h.replaced

/-- **A login keeps the rows orderly.** -/
theorem Orderly.login (hI : Orderly e look clock) {n : TokenRecord} (hn : Minted e clock n)
    (hfree : ∀ sel r, look sel = some r → r.familyId ≠ n.familyId)
    (h : look' = Function.update look n.selector (some n)) (hnone : look n.selector = none) :
    Orderly e look' clock := by
  -- a row is the new one, or an old one of another family
  have hcase : ∀ sel r, look' sel = some r →
      (sel = n.selector ∧ r = n) ∨ (look sel = some r ∧ r.familyId ≠ n.familyId) := by
    intro sel r hr
    rw [h] at hr
    rcases eq_or_ne sel n.selector with rfl | hne
    · rw [Function.update_self] at hr
      exact Or.inl ⟨rfl, (Option.some.inj hr).symm⟩
    · rw [Function.update_of_ne hne] at hr
      exact Or.inr ⟨hr, hfree sel r hr⟩
  refine ⟨fun sel r hr => ?_, fun sel r hr => ?_, fun sel r q hr hq => ?_,
    fun sel sel' r r' hr hr' hf => ?_, fun sel sel' r r' hr hr' hs hs' hf => ?_,
    fun sel sel' r a t hr ha hs hf ht => ?_⟩
  · rcases hcase sel r hr with ⟨rfl, rfl⟩ | ⟨hr, -⟩
    · rfl
    · exact hI.keyed sel r hr
  · rcases hcase sel r hr with ⟨-, rfl⟩ | ⟨hr, -⟩
    · exact hn.sound
    · exact hI.sound sel r hr
  · rcases hcase sel r hr with ⟨-, rfl⟩ | ⟨hr, -⟩
    · rw [hn.replaced] at hq
      cases hq
    · obtain ⟨d, hd, hf⟩ := hI.pointer sel r q hr hq
      refine ⟨d, ?_, hf⟩
      rw [h, Function.update_of_ne, hd]
      rintro rfl
      rw [hnone] at hd
      cases hd
  · rcases hcase sel r hr with ⟨-, rfl⟩ | ⟨hr, hne⟩ <;>
      rcases hcase sel' r' hr' with ⟨-, rfl⟩ | ⟨hr', hne'⟩
    · rfl
    · exact absurd hf.symm hne'
    · exact absurd hf hne
    · exact hI.deadline sel sel' r r' hr hr' hf
  · rcases hcase sel r hr with ⟨rfl, rfl⟩ | ⟨hr, hne⟩ <;>
      rcases hcase sel' r' hr' with ⟨rfl, rfl⟩ | ⟨hr', hne'⟩
    · rfl
    · exact absurd hf.symm hne'
    · exact absurd hf hne
    · exact hI.one sel sel' r r' hr hr' hs hs' hf
  · rcases hcase sel r hr with ⟨-, rfl⟩ | ⟨hr, hne⟩
    · rw [hn.rotatedAt] at ht
      cases ht
    · rcases hcase sel' a ha with ⟨-, rfl⟩ | ⟨ha, -⟩
      · exact absurd hf hne
      · exact hI.order sel sel' r a t hr ha hs hf ht

/-- The rows after the record `n` was inserted and put in the place of `r`. -/
def replaced (look : Str → Option TokenRecord) (r n : TokenRecord) (t : ℤ) : Str → Option TokenRecord :=
  Function.update (Function.update look n.selector (some n)) r.selector
    (some (rotatedTo r t n.selector))

/-- A row after a replacement is the predecessor, the successor or an old row. -/
theorem replaced_cases {r n x : TokenRecord} {t : ℤ} {sel : Str}
    (h : replaced look r n t sel = some x) : (sel = r.selector ∧ x = rotatedTo r t n.selector) ∨
      (sel = n.selector ∧ x = n) ∨ (sel ≠ r.selector ∧ look sel = some x) := by
  unfold replaced at h
  rcases eq_or_ne sel r.selector with rfl | hr
  · rw [Function.update_self] at h
    exact Or.inl ⟨rfl, (Option.some.inj h).symm⟩
  · rw [Function.update_of_ne hr] at h
    rcases eq_or_ne sel n.selector with rfl | hn
    · rw [Function.update_self] at h
      exact Or.inr (Or.inl ⟨rfl, (Option.some.inj h).symm⟩)
    · rw [Function.update_of_ne hn] at h
      exact Or.inr (Or.inr ⟨hr, h⟩)

/-- **A rotation keeps the rows orderly**, if the family has no other active row. -/
theorem Orderly.rotate (hI : Orderly e look clock) {r n : TokenRecord} {t : ℤ} (hn : Minted e clock n)
    (hr : look r.selector = some r) (hnone : look n.selector = none)
    (hfam : n.familyId = r.familyId) (hexp : n.familyExpiresAt = r.familyExpiresAt) (ht : t ≤ clock)
    (hidle : ∀ sel a, look sel = some a → a.status = .active → a.familyId = r.familyId →
      sel = r.selector) :
    Orderly e (replaced look r n t) clock := by
  have hne : n.selector ≠ r.selector := fun h => by
    rw [h, hr] at hnone
    cases hnone
  have hnew : replaced look r n t n.selector = some n := by
    rw [replaced, Function.update_of_ne hne, Function.update_self]
  refine ⟨fun sel x hx => ?_, fun sel x hx => ?_, fun sel x q hx hq => ?_,
    fun sel sel' x x' hx hx' hf => ?_, fun sel sel' x x' hx hx' hs hs' hf => ?_,
    fun sel sel' x a t' hx ha hs hf ht' => ?_⟩
  · rcases replaced_cases hx with ⟨rfl, rfl⟩ | ⟨rfl, rfl⟩ | ⟨-, hx⟩
    · rfl
    · rfl
    · exact hI.keyed sel x hx
  · rcases replaced_cases hx with ⟨rfl, rfl⟩ | ⟨rfl, rfl⟩ | ⟨-, hx⟩
    · obtain ⟨hc, -, hi, ha, -⟩ := hI.sound _ r hr
      refine ⟨hc, fun t' h => ?_, hi, ha, .rotatedTo r t n.selector⟩
      rw [← Option.some.inj (h : some t = some t')]
      exact ht
    · exact hn.sound
    · exact hI.sound sel x hx
  · rcases replaced_cases hx with ⟨rfl, rfl⟩ | ⟨rfl, rfl⟩ | ⟨-, hx⟩
    · obtain rfl := Option.some.inj (hq : some n.selector = some q)
      exact ⟨n, hnew, hfam⟩
    · rw [hn.replaced] at hq
      cases hq
    · obtain ⟨d, hd, hf⟩ := hI.pointer sel x q hx hq
      rcases eq_or_ne q r.selector with rfl | hqr
      · rw [hr] at hd
        obtain rfl := Option.some.inj hd
        exact ⟨rotatedTo r t n.selector, by rw [replaced, Function.update_self], hf⟩
      · refine ⟨d, ?_, hf⟩
        rw [replaced, Function.update_of_ne hqr, Function.update_of_ne, hd]
        rintro rfl
        rw [hnone] at hd
        cases hd
  · -- every row has the family and the deadline of an old one
    have hold : ∀ sel x, replaced look r n t sel = some x → ∃ sel₀ o, look sel₀ = some o ∧
        o.familyId = x.familyId ∧ o.familyExpiresAt = x.familyExpiresAt := by
      intro sel x hx
      rcases replaced_cases hx with ⟨-, rfl⟩ | ⟨-, rfl⟩ | ⟨-, hx⟩
      · exact ⟨_, r, hr, rfl, rfl⟩
      · exact ⟨_, r, hr, hfam.symm, hexp.symm⟩
      · exact ⟨sel, x, hx, rfl, rfl⟩
    obtain ⟨s₀, o, ho, hof, hoe⟩ := hold sel x hx
    obtain ⟨s₁, o', ho', hof', hoe'⟩ := hold sel' x' hx'
    rw [← hoe, ← hoe']
    exact hI.deadline s₀ s₁ o o' ho ho' (hof.trans (hf.trans hof'.symm))
  · rcases replaced_cases hx with ⟨-, rfl⟩ | ⟨rfl, rfl⟩ | ⟨hsel, hx₀⟩
    · cases hs
    · rcases replaced_cases hx' with ⟨-, rfl⟩ | ⟨rfl, rfl⟩ | ⟨hsel', hx'⟩
      · cases hs'
      · rfl
      · exact absurd (hidle sel' x' hx' hs' (hf.symm.trans hfam)) hsel'
    · rcases replaced_cases hx' with ⟨-, rfl⟩ | ⟨rfl, rfl⟩ | ⟨-, hx'⟩
      · cases hs'
      · exact absurd (hidle sel x hx₀ hs (hf.trans hfam)) hsel
      · exact hI.one sel sel' x x' hx₀ hx' hs hs' hf
  · rcases replaced_cases ha with ⟨-, rfl⟩ | ⟨rfl, rfl⟩ | ⟨hsel, ha⟩
    · cases hs
    · rw [hn.created]
      rcases replaced_cases hx with ⟨-, rfl⟩ | ⟨-, rfl⟩ | ⟨-, hx⟩
      · rw [← Option.some.inj (ht' : some t = some t')]
        exact ht
      · rw [hn.rotatedAt] at ht'
        cases ht'
      · exact (hI.sound sel x hx).rotated t' ht'
    · rcases replaced_cases hx with ⟨-, rfl⟩ | ⟨-, rfl⟩ | ⟨-, hx⟩
      · exact absurd (hidle sel' a ha hs hf.symm) hsel
      · rw [hn.rotatedAt] at ht'
        cases ht'
      · exact hI.order sel sel' x a t' hx ha hs hf ht'

/-! ### The effect of a call -/

/-- The requests and replies of a call that ran alone. -/
abbrev Replayed (rows : Rows) (tr : List StoreEvent) (rows' : Rows) : Prop :=
  Replay (fun q rows => answer rows q) rows tr rows'

section Calls

variable {H : HmacSha256} {c : RefreshCall} {rows rows' : Rows} {tr : List StoreEvent}

theorem Replayed.find {sel : Str} {found : Option TokenRecord}
    (h : Replayed rows (⟨.findBySelector sel, found⟩ :: tr) rows') :
    Replayed rows tr rows' ∧ rows'.get sel = found := by
  obtain ⟨u, hu, ha⟩ := Replay.cons_iff.mp h
  obtain ⟨rfl, rfl⟩ := Prod.mk.inj (Option.some.inj ha)
  exact ⟨hu, rfl⟩

theorem Replayed.nil (h : Replayed rows [] rows') : rows' = rows := by
  cases h
  rfl

/-- **What a call with a ticket has found and done**: the row it is to rotate is as it found it, and is
the only active one of its family, if any is. -/
theorem ticket_replayed (hI : Orderly e rows.get clock) {r : TokenRecord} {f : TokenStatus} {t : ℤ}
    (ht : Ticket H c r f t tr) (h : Replayed rows tr rows') :
    RevokesSome (fun _ => True) rows.get rows'.get ∧ rows'.get r.selector = some r ∧ r.status = f ∧
      (∀ sel a, rows'.get sel = some a → a.status = .active → a.familyId = r.familyId →
        sel = r.selector) ∧
      ∃ d, rows.get d.selector = some d ∧ d.status = .active ∧ d.familyId = r.familyId ∧
        (f = .active ∧ t = c.now ∧ d = r ∧ c.now < r.idleExpiresAt ∨
          r.rotatedAt = some t ∧ c.now - t ≤ c.engine.reuseGrace ∧ c.now < r.familyExpiresAt) := by
  cases ht with
  | fresh hp hs habs hidle hd =>
    obtain ⟨h, hr⟩ := h.find
    obtain rfl := h.nil
    have hsel := hI.keyed _ r hr
    rw [← hsel] at hr
    exact ⟨fun _ => Or.inl rfl, hr, hs, fun sel a ha hsa hf => hI.one sel _ a r ha hr hsa hs hf, r, hr,
      hs, rfl, Or.inl ⟨rfl, rfl, rfl, hidle⟩⟩
  | @grace sel pepper q _ d hp hs hg ha hd =>
    obtain ⟨rows₁, h, hclear⟩ := Replay.cons_iff.mp h
    obtain ⟨h, hdrow⟩ := Replayed.find h
    obtain ⟨h, hr⟩ := Replayed.find h
    obtain rfl := Replayed.nil h
    obtain ⟨htime, hq, -, hwin, hexp⟩ := withinGrace_some hg
    obtain rfl := hI.keyed _ r hr
    obtain rfl := hI.keyed _ d hdrow
    obtain ⟨d₀, hd₀, -, hupd⟩ := memoryStore.clear (i := 0) hclear
    obtain rfl := Option.some.inj (hdrow.symm.trans hd₀)
    obtain ⟨d₁, hd₁, hfam⟩ := hI.pointer _ r _ hr hq
    obtain rfl := Option.some.inj (hdrow.symm.trans hd₁)
    have hne : r.selector ≠ d.selector := fun he => by
      rw [he, hdrow] at hr
      rw [← Option.some.inj hr, ha] at hs
      cases hs
    have hupd : rows'.get = Function.update rows₁.get d.selector (some (asRevoked d)) := hupd
    refine ⟨fun sel => ?_, ?_, hs, fun sel a hrow hsa hf => ?_, d, hdrow, ha, hfam,
      Or.inr ⟨htime, hwin, hexp⟩⟩
    · rw [hupd]
      rcases eq_or_ne sel d.selector with rfl | hsel
      · exact Or.inr ⟨d, hdrow, trivial, by rw [Function.update_self]⟩
      · exact Or.inl (by rw [Function.update_of_ne hsel])
    · rw [hupd, Function.update_of_ne hne, hr]
    · rw [hupd] at hrow
      rcases eq_or_ne sel d.selector with rfl | hsel
      · rw [Function.update_self] at hrow
        obtain rfl := Option.some.inj hrow
        cases hsa
      · rw [Function.update_of_ne hsel] at hrow
        exact absurd (hI.one sel _ a d hrow hdrow hsa ha (hf.trans hfam.symm)) hsel

/-- **What a refresh does to the rows**: it revokes some of them; or it succeeds, after it has revoked
some of them and put the record it minted in the place of the row presented. -/
inductive RefreshEffect (H : HmacSha256) (c : RefreshCall) (rows : Rows) :
    Option (Except NebulaConfigError RefreshResult) → Rows → Prop
  | refused {out : Option (Except NebulaConfigError RefreshResult)} {rows' : Rows}
      (ho : ∀ x, out ≠ some (.ok (.ok x)))
      (h : RevokesSome (fun _ => True) rows.get rows'.get) : RefreshEffect H c rows out rows'
  | rotated {r n : TokenRecord} {f : TokenStatus} {t : ℤ} {tr : List StoreEvent} {rows₁ rows' : Rows}
      (ht : Ticket H c r f t tr) (hn : Mints H c r n) (hr : Replayed rows tr rows₁)
      (hnone : rows₁.get n.selector = none) (h : rows'.get = replaced rows₁.get r n t) :
    RefreshEffect H c rows (some (.ok (.ok (success c r n)))) rows'

theorem revokesSome_self (look : Str → Option TokenRecord) (p : TokenRecord → Prop) :
    RevokesSome p look look := fun _ => Or.inl rfl

theorem revokesSome_weaken {p : TokenRecord → Prop} (h : RevokesSome p look look') :
    RevokesSome (fun _ => True) look look' := by
  intro sel
  rcases h sel with h | ⟨r, hr, -, h⟩
  · exact Or.inl h
  · exact Or.inr ⟨r, hr, trivial, h⟩

/-- A refusal writes nothing. -/
theorem refuses_replayed {f : RefreshFailure} (hf : Refuses H c f tr) (h : Replayed rows tr rows') :
    rows'.get = rows.get := by
  cases hf with
  | unparsed => rw [h.nil]
  | notFound | unproved | revoked => rw [h.find.1.nil]
  | lost =>
    obtain ⟨rows₁, h, hclear⟩ := Replay.cons_iff.mp h
    have hstill : rows'.get = rows₁.get := (memoryStore.clear_lost (i := 0) hclear).1
    rw [hstill, (Replayed.find (Replayed.find h).1).1.nil]

theorem burns_replayed {r : TokenRecord} {code : NebulaErrorCode} (hb : Burns H c r code tr)
    (h : Replayed rows tr rows') : rows' = rows := by
  cases hb with
  | reuse | absolute | idle | device => rw [h.find.1.nil]
  | used | graceDevice => rw [h.find.1.find.1.nil]

/-- What an insertion and a rotation on a ticket do: the rotation is not refused. -/
theorem rotation_replayed {r n : TokenRecord} {f : TokenStatus} {t : ℤ} {applied : Bool}
    (h : Replayed rows (⟨.markRotated r.selector f t n.selector, applied⟩ ::
      ⟨.insert n, ()⟩ :: tr) rows') (hrow : ∀ rows₁, Replayed rows tr rows₁ →
        rows₁.get r.selector = some r ∧ r.status = f) :
    applied = true ∧ ∃ rows₁, Replayed rows tr rows₁ ∧ rows₁.get n.selector = none ∧
      rows'.get = replaced rows₁.get r n t := by
  obtain ⟨rows₂, hins, hmark⟩ := Replay.cons_iff.mp h
  obtain ⟨rows₁, htr, hins⟩ := Replay.cons_iff.mp hins
  obtain ⟨hr, hst⟩ := hrow rows₁ htr
  obtain ⟨hnone, hupd⟩ := memoryStore.insert (i := 0) hins
  have hnone : rows₁.get n.selector = none := hnone
  have hupd : rows₂.get = Function.update rows₁.get n.selector (some n) := hupd
  have hr₂ : rows₂.get r.selector = some r := by
    rw [hupd, Function.update_of_ne, hr]
    rintro he
    rw [he, hnone] at hr
    cases hr
  cases applied with
  | false => exact absurd hst ((memoryStore.mark_lost (i := 0) hmark).2 r hr₂)
  | true =>
    obtain ⟨r₀, hr₀, -, hupd₂⟩ := memoryStore.mark (i := 0) hmark
    obtain rfl := Option.some.inj (hr₂.symm.trans hr₀)
    have hupd₂ : rows'.get = Function.update rows₂.get r.selector
      (some (rotatedTo r t n.selector)) := hupd₂
    exact ⟨rfl, rows₁, htr, hnone, by rw [hupd₂, hupd, replaced]⟩

/-- **The effect of a refresh** that runs alone against orderly rows. -/
theorem refresh_effect (hI : Orderly e rows.get clock) :
    RefreshEffect H c rows (run (refresh H c.engine c.token c.deviceId c.now c.draw) rows).1
      (run (refresh H c.engine c.token c.deviceId c.now c.draw) rows).2 := by
  obtain ⟨tr, p, hrep, hat, hend⟩ := eval_rule (fun q rows => answer rows q)
    (P := RefreshAt H c) (fun tr q k rep h => refresh_step h rep) rows refresh_at
  change Replayed rows tr (run _ rows).2 at hrep
  change Ends _ (run _ rows).2 p (run _ rows).1 at hend
  generalize run (refresh H c.engine c.token c.deviceId c.now c.draw) rows = x at hrep hend ⊢
  obtain ⟨out, rows'⟩ := x
  dsimp only at hrep hend ⊢
  have hrow : ∀ {r : TokenRecord} {f : TokenStatus} {t : ℤ} {tr : List StoreEvent},
      Ticket H c r f t tr → ∀ rows₁, Replayed rows tr rows₁ →
        rows₁.get r.selector = some r ∧ r.status = f := fun ht rows₁ h =>
    ⟨(ticket_replayed hI ht h).2.1, (ticket_replayed hI ht h).2.2.1⟩
  cases hat with
  | lookup | successorLookup | consume | burning =>
    cases hend with
    | stuck h => cases h
  | marking | cleaning =>
    cases hend with
    | stuck h => cases h
  | @refused f tr hf =>
    cases hend
    refine .refused (fun x hx => by cases hx) ?_
    rw [refuses_replayed hf hrep]
    exact revokesSome_self _ _
  | burned hb =>
    cases hend
    obtain ⟨rows₁, h, hrev⟩ := Replay.cons_iff.mp hrep
    obtain rfl := burns_replayed hb h
    exact .refused (fun x hx => by cases hx)
      (revokesSome_weaken (memoryStore.revokeFamily (i := 0) hrev))
  | inserting ht hn =>
    cases hend
    exact .refused (fun x hx => by cases hx) (ticket_replayed hI ht hrep).1
  | won ht hn =>
    cases hend
    obtain ⟨-, rows₁, h, hnone, hget⟩ := rotation_replayed hrep (hrow ht)
    exact .rotated ht hn h hnone hget
  | cleaned ht hn =>
    obtain ⟨rows₁, h, -⟩ := Replay.cons_iff.mp hrep
    obtain ⟨hb, -⟩ := rotation_replayed h (hrow ht)
    cases hb

/-- **A refresh keeps the rows orderly.** -/
theorem RefreshEffect.orderly {out : Option (Except NebulaConfigError RefreshResult)}
    (h : RefreshEffect H c rows out rows') (hI : Orderly c.engine rows.get clock)
    (hc : clock ≤ c.now) : Orderly c.engine rows'.get c.now := by
  cases h with
  | refused ho h => exact (hI.later hc).revoke h
  | @rotated r n f t tr rows₁ _ ht hn hr hnone h =>
    obtain ⟨hrev, hrow, -, hidle, d, -, -, -, hkind⟩ := ticket_replayed hI ht hr
    have hI₁ : Orderly c.engine rows₁.get c.now := (hI.later hc).revoke hrev
    have hs := hI₁.sound _ r hrow
    have ht : t ≤ c.now := by
      rcases hkind with ⟨-, rfl, -⟩ | ⟨ht, -⟩
      · exact le_rfl
      · exact hs.rotated t ht
    rw [h]
    obtain ⟨hash, -, rfl⟩ := hn
    refine hI₁.rotate ⟨rfl, rfl, ?_, rfl, rfl, rfl⟩ hrow hnone rfl rfl ht hidle
    show r.familyExpiresAt ≤ c.now + c.engine.absoluteTtl
    have hab := hs.absolute
    have hcr := hs.created
    omega

/-- **A login keeps the rows orderly**, if its family is new. -/
theorem issue_orderly {c : IssueCall} (hI : Orderly c.engine rows.get c.now)
    (hnew : ∀ sel r, rows.get sel = some r → r.familyId ≠ c.draw.familyId) :
    Orderly c.engine (run (issue H c.engine c.userId c.deviceId c.now c.draw) rows).2.get c.now := by
  obtain ⟨tr, p, hrep, hat, -⟩ := eval_rule (fun q rows => answer rows q)
    (P := IssueAt H c) (fun tr q k rep h => issue_step h rep) rows issue_at
  change Replayed rows tr (run _ rows).2 at hrep
  cases hat with
  | threw => rw [hrep.nil]; exact hI
  | inserting => rw [hrep.nil]; exact hI
  | done hn =>
    obtain ⟨rows₁, h, hins⟩ := Replay.cons_iff.mp hrep
    obtain rfl := Replayed.nil h
    obtain ⟨hnone, hupd⟩ := memoryStore.insert (i := 0) hins
    obtain ⟨hash, -, rfl⟩ := hn
    exact hI.login ⟨rfl, rfl, le_rfl, rfl, rfl, rfl⟩ hnew hupd hnone

/-- A revocation by token revokes some rows. -/
theorem revokeToken_rows (e : NebulaEngine) (token : Str) :
    RevokesSome (fun _ => True) rows.get (run (revokeToken H e token) rows).2.get := by
  obtain ⟨tr, p, hrep, hat, -⟩ := eval_rule (fun q rows => answer rows q)
    (P := RevokeTokenAt H e token) (fun tr q k rep h => revokeToken_step h rep) rows revokeToken_at
  change Replayed rows tr (run _ rows).2 at hrep
  cases hat with
  | lookup | unparsed => rw [hrep.nil]; exact revokesSome_self _ _
  | refused | revoking => rw [hrep.find.1.nil]; exact revokesSome_self _ _
  | revoked =>
    obtain ⟨rows₁, h, hrev⟩ := Replay.cons_iff.mp hrep
    obtain rfl := (Replayed.find h).1.nil
    exact revokesSome_weaken (memoryStore.revokeFamily (i := 0) hrev)

end Calls

/-! ### Refreshes that succeed -/

section Success

variable {H : HmacSha256} {c : RefreshCall} {rows : Rows} {r : TokenRecord} {pepper : Str}

/-- **A rotation from the status the row has succeeds**, if the selector drawn is new. -/
theorem run_rotate {f : TokenStatus} {t : ℤ}
    (hd : deviceRefused H r pepper c.deviceId = false) (hrow : rows.get r.selector = some r)
    (hst : r.status = f) (hnone : rows.get c.draw.selectorText = none) :
    ∃ n rows', Mints H c r n ∧ run (rotate H c.engine r c.deviceId c.now f t c.draw) rows =
      (some (.ok (.ok (success c r n))), rows') ∧ rows'.get = replaced rows.get r n t := by
  obtain ⟨hash, hm⟩ := migrateDevice_ok H c.engine hd
  have hne : r.selector ≠ c.draw.selectorText := fun he => by
    rw [← he, hrow] at hnone
    cases hnone
  generalize hn : successor H c.engine r hash c.now c.draw = n
  have hsel : n.selector = c.draw.selectorText := by
    rw [← hn]
    rfl
  have hins : insert rows n = some (rows.set n.selector n) := by
    rw [MemoryRefreshTokenStore.insert, hsel, hnone]
    rfl
  have hget : (rows.set n.selector n).get r.selector = some r := by
    rw [Table.get_set_ne _ (hsel ▸ hne), hrow]
  have hmark : markRotated (rows.set n.selector n) r.selector f t n.selector =
      (true, (rows.set n.selector n).modify r.selector fun r => rotatedTo r t n.selector) := by
    rw [markRotated, hget]
    exact if_neg (not_not.mpr hst)
  refine ⟨n, (rows.set n.selector n).modify r.selector fun r => rotatedTo r t n.selector,
    ⟨hash, hm, hn.symm⟩, ?_, ?_⟩
  · unfold rotate
    rw [hm]
    dsimp only [Prog.ofExcept_ok, Prog.ret_bind, Prog.lift_bind]
    rw [hn, run_call () (rows.set n.selector n)]
    · unfold replace
      dsimp only [Prog.lift_bind]
      rw [run_call (q := .markRotated r.selector f t n.selector) true _ (congrArg some hmark),
        if_pos rfl]
      rfl
    · show (insert rows n).map _ = _
      rw [hins]
      rfl
  · rw [get_modify_update hget, replaced]
    congr 1
    funext k
    rcases eq_or_ne k n.selector with rfl | hk
    · rw [Table.get_set_self, Function.update_self]
    · rw [Table.get_set_ne _ hk, Function.update_of_ne hk]

/-- A refresh whose verifier is proved goes on with step 5. -/
theorem run_proved (hp : Proves H c r.selector r pepper) (hrow : rows.get r.selector = some r) :
    run (refresh H c.engine c.token c.deviceId c.now c.draw) rows =
      run (refreshProved H c.engine r pepper c.deviceId c.now c.draw) rows := by
  obtain ⟨parsed, hparse, hsel, hv⟩ := hp
  unfold refresh
  rw [hparse]
  dsimp only
  rw [run_find, hsel, hrow, refreshFound, hv]

/-- **A minted token proves its record**, under an engine that has the pepper of the record. -/
theorem proves_minted {d : Draw} (htok : c.token = mintToken e d) (hsel : r.selector = d.selectorText)
    (hkid : r.kid = e.activeKid) (hhash : r.verifierHash = hashVerifier H e.activePepper d.verifier)
    (hpep : c.engine.peppers.get e.activeKid = some e.activePepper) :
    Proves H c r.selector r e.activePepper := by
  refine ⟨⟨e.activeKid, d.selectorText, d.verifier⟩, ?_, hsel.symm, ?_⟩
  · unfold parseConfigured
    rw [htok, parseToken_mintToken]
    dsimp only
    rw [hpep]
    rfl
  · unfold proveVerifier
    rw [hkid, hpep, hhash]
    dsimp only
    rw [constantTimeEqualHex_hashVerifier, if_pos rfl]

/-- **A login stores its record**, if the selector drawn is new. -/
theorem run_issue {c : IssueCall} (rows : Rows) {hash : Option Str} (hb : bindDevice H c.engine c.deviceId = .ok hash)
    (hnone : rows.get c.draw.selectorText = none) :
    ∃ n, IssueMints H c n ∧ run (issue H c.engine c.userId c.deviceId c.now c.draw) rows =
      (some (.ok (issued c n)), rows.set n.selector n) := by
  refine ⟨_, ⟨hash, hb, rfl⟩, ?_⟩
  unfold issue
  rw [hb]
  dsimp only [Prog.ofExcept_ok, Prog.ret_bind, Prog.lift_bind]
  refine (run_call () _ ?_).trans rfl
  show (insert rows _).map _ = _
  rw [MemoryRefreshTokenStore.insert]
  show (if (rows.get c.draw.selectorText).isSome then none else _).map _ = _
  rw [hnone]
  rfl

/-- **An active row in time is rotated.** -/
theorem run_fresh (hp : Proves H c r.selector r pepper) (hrow : rows.get r.selector = some r)
    (hst : r.status = .active) (habs : c.now < r.familyExpiresAt) (hidle : c.now < r.idleExpiresAt)
    (hd : deviceRefused H r pepper c.deviceId = false)
    (hnone : rows.get c.draw.selectorText = none) :
    ∃ n rows', Mints H c r n ∧ run (refresh H c.engine c.token c.deviceId c.now c.draw) rows =
      (some (.ok (.ok (success c r n))), rows') ∧ rows'.get = replaced rows.get r n c.now := by
  rw [run_proved hp hrow, refreshProved, hst]
  dsimp only
  rw [if_neg (not_le.mpr habs), if_neg (not_le.mpr hidle), hd]
  exact run_rotate hd hrow hst hnone

/-- **A rotated row is rotated again** in its window, while its successor is unused. -/
theorem run_grace {t : ℤ} {d : TokenRecord} (hp : Proves H c r.selector r pepper)
    (hrow : rows.get r.selector = some r) (hst : r.status = .rotated)
    (hg : withinGrace c.engine r c.now = some (t, d.selector)) (hdrow : rows.get d.selector = some d)
    (hact : d.status = .active) (hd : deviceRefused H r pepper c.deviceId = false)
    (hnone : rows.get c.draw.selectorText = none) :
    ∃ n rows', Mints H c r n ∧ run (refresh H c.engine c.token c.deviceId c.now c.draw) rows =
      (some (.ok (.ok (success c r n))), rows') ∧
      rows'.get = replaced (Function.update rows.get d.selector (some (asRevoked d))) r n t := by
  have hclear : revokeIfActive rows d.selector = (true, rows.modify d.selector asRevoked) := by
    rw [revokeIfActive, hdrow]
    exact if_neg (not_not.mpr hact)
  have hget := get_modify_update (f := asRevoked) hdrow
  have hne : r.selector ≠ d.selector := fun he => by
    rw [he, hdrow] at hrow
    rw [← Option.some.inj hrow, hact] at hst
    cases hst
  have hrow' : (rows.modify d.selector asRevoked).get r.selector = some r := by
    rw [Table.get_modify_ne _ hne, hrow]
  have hnone' : (rows.modify d.selector asRevoked).get c.draw.selectorText = none := by
    rw [Table.get_modify_ne, hnone]
    rintro he
    rw [he, hdrow] at hnone
    cases hnone
  have hunused : unused (some d) = some d := if_pos hact
  rw [run_proved hp hrow, refreshProved, hst]
  dsimp only
  rw [handleReuse, hg]
  dsimp only
  rw [run_find, hdrow, displace, hunused]
  dsimp only
  rw [hd, ← hget]
  obtain ⟨n, rows', hn, hrun, hrows⟩ := run_rotate hd hrow' hst hnone'
  refine ⟨n, rows', hn, ?_, hrows⟩
  rw [← hrun]
  exact run_call (q := .revokeIfActive d.selector) true _ (congrArg some hclear)

end Success

/-! ### Runs -/

variable {H : HmacSha256} {s s' : SeqState} {l : SeqEvent}

/-- A call and its outcome, alone against the store. -/
theorem run_map {α β : Type} (f : α → β) (p : StoreM α) (rows : Rows) :
    run (f <$> p) rows = ((run p rows).1.map fun out => out.map f, (run p rows).2) :=
  Prog.eval_map _ f p rows

/-- The result of a refresh, as the outcome of the call. -/
theorem refreshed_of_run {c : RefreshCall} {rows : Rows} {res : RefreshResult}
    (h : (run (code H (.refresh c)) rows).1 = some (.ok (.refreshed res))) :
    (run (refresh H c.engine c.token c.deviceId c.now c.draw) rows).1 = some (.ok res) := by
  change (run (_ <$> _) rows).1 = _ at h
  rw [run_map] at h
  obtain ⟨out, ho, h⟩ := Option.map_eq_some_iff.mp h
  cases out with
  | error err => cases h
  | ok res' =>
    obtain rfl := Outcome.refreshed.inj (Except.ok.inj h)
    exact ho

theorem Orderly.step (hI : Orderly e s.rows.get s.clock) (hs : (sequential H e).step s l s') :
    Orderly e s'.rows.get s'.clock := by
  cases l with
  | collect now =>
    obtain rfl := hs
    obtain ⟨now', h⟩ := memoryStore.env now s.rows
    exact hI.collect h
  | call op =>
    obtain ⟨ha, rfl⟩ := hs
    cases op with
    | issue c =>
      obtain rfl := ha.engine _ rfl
      show Orderly c.engine (run (_ <$> _) s.rows).2.get c.now
      rw [run_map]
      exact issue_orderly (hI.later (ha.clock _ rfl)) (ha.family _ rfl)
    | refresh c =>
      obtain rfl := ha.engine _ rfl
      show Orderly c.engine (run (_ <$> _) s.rows).2.get c.now
      rw [run_map]
      exact (refresh_effect hI).orderly hI (ha.clock _ rfl)
    | revokeToken e' token =>
      show Orderly e (run (_ <$> _) s.rows).2.get s.clock
      rw [run_map]
      exact hI.revoke (revokeToken_rows e' token)
    | revokeFamily familyId =>
      have h := @StoreContract.revokeFamily _ _ _ memoryStore 0 familyId s.rows _ _ rfl
      exact hI.revoke h
    | revokeAllForUser userId =>
      have h := @StoreContract.revokeUser _ _ _ memoryStore 0 userId s.rows _ _ rfl
      exact hI.revoke h

/-- **Between the calls of a sequential run the rows are orderly.** -/
theorem orderly (h : (sequential H e).Reachable s) : Orderly e s.rows.get s.clock := by
  refine h.invariant (I := fun s => Orderly e s.rows.get s.clock) (fun s hs => ?_)
    fun s l s' _ hI hs => hI.step hs
  rw [show s.rows = Table.empty from hs]
  exact .empty e s.clock

end NebulaToken.Runs.Sequential
