import NebulaToken.Runs.Alone
import NebulaToken.Runs.Execution
import NebulaToken.Runs.Lineage
import NebulaToken.Safety.WireForm

/-! # Collections

Collected rows are those whose family deadline has passed. The same calls are run against the rows as
they are and against what a collection leaves of them: the second rows stay what a collection would
leave of the first (`Survivors`), because every call works inside one family, and a family is collected
as a whole.

* `refresh_survives`, `revokeToken_survives`: a call on a token that was not collected;
* `refresh_collected`: a refresh of a token that was;
* `collection_invisible`: runs of any length. -/

namespace NebulaToken.Safety.Collection

open NebulaToken.Lib.Program NebulaToken.Lib.Solo NebulaToken.Lib.Pool NebulaToken.Lib.Transition
open NebulaToken.Lib.KeyedTable NebulaToken.Token.Unicode NebulaToken.Token.Wire
open NebulaToken.Engine.Records NebulaToken.Engine.Config NebulaToken.Engine.Operations
open NebulaToken.Runs.Calls NebulaToken.Runs.History NebulaToken.Runs.Assumptions
open NebulaToken.Runs.Families NebulaToken.Runs.Lineage NebulaToken.Runs.Sequential
open NebulaToken.Runs.Alone NebulaToken.Runs.Execution NebulaToken.Store.Contract NebulaToken.Store.Memory
open NebulaToken.Store.Memory.MemoryRefreshTokenStore NebulaToken.Safety.WireForm

/-- The rows of a family have one deadline. -/
def Uniform (look : Str → Option TokenRecord) : Prop :=
  ∀ sel sel' r r', look sel = some r → look sel' = some r' → r.familyId = r'.familyId →
    r.familyExpiresAt = r'.familyExpiresAt

/-- `B` is what a collection at `now` leaves of `A`. -/
def Survivors (now : ℤ) (A B : Rows) : Prop :=
  ∀ sel, B.get sel = (A.get sel).filter fun r => decide (now < r.familyExpiresAt)

/-- The rows a request is about were not collected. -/
def Concerns (now : ℤ) (look : Str → Option TokenRecord) : StoreCall → Prop
  | .findBySelector sel | .markRotated sel _ _ _ | .revokeIfActive sel =>
    ∀ r, look sel = some r → now < r.familyExpiresAt
  | .insert n => ∀ r, look n.selector = some r → now < r.familyExpiresAt
  | .revokeFamily familyId => ∀ sel r, look sel = some r → r.familyId = familyId → now < r.familyExpiresAt
  | .revokeUser userId => ∀ sel r, look sel = some r → r.userId = userId → now < r.familyExpiresAt

variable {H : HmacSha256} {now : ℤ} {A A' B : Rows} {tr : List StoreEvent}

theorem filter_live {r : TokenRecord} (h : now < r.familyExpiresAt) :
    (some r).filter (fun r => decide (now < r.familyExpiresAt)) = some r :=
  Option.filter_some_pos (decide_eq_true h)

theorem filter_late {r : TokenRecord} (h : ¬ now < r.familyExpiresAt) :
    (some r).filter (fun r => decide (now < r.familyExpiresAt)) = none :=
  Option.filter_some_neg (by simpa using h)

theorem survivors_collect (now : ℤ) (A : Rows) : Survivors now A (deleteExpired A now) := by
  intro sel
  rw [deleteExpired, Table.get_filter]
  congr 1
  funext r
  rw [← decide_not, decide_eq_decide, ge_iff_le, not_le]

theorem Survivors.found (h : Survivors now A B) {sel : Str}
    (hc : ∀ r, A.get sel = some r → now < r.familyExpiresAt) : B.get sel = A.get sel := by
  rw [h sel]
  cases hA : A.get sel with
  | none => rfl
  | some r => exact filter_live (hc r hA)

/-! ### One request -/

/-- What a request leaves of a row: its family, its user and its deadline. -/
structure Keeps (look look' : Str → Option TokenRecord) : Prop where
  row : ∀ sel r, look sel = some r → ∃ r', look' sel = some r' ∧ r'.familyId = r.familyId ∧
    r'.userId = r.userId ∧ r'.familyExpiresAt = r.familyExpiresAt

theorem Keeps.refl (look : Str → Option TokenRecord) : Keeps look look :=
  ⟨fun _ r hr => ⟨r, hr, rfl, rfl, rfl⟩⟩

theorem Keeps.trans {a b c : Str → Option TokenRecord} (h : Keeps a b) (h' : Keeps b c) : Keeps a c := by
  refine ⟨fun sel r hr => ?_⟩
  obtain ⟨r₁, hr₁, hf, hu, hx⟩ := h.row sel r hr
  obtain ⟨r₂, hr₂, hf', hu', hx'⟩ := h'.row sel r₁ hr₁
  exact ⟨r₂, hr₂, hf'.trans hf, hu'.trans hu, hx'.trans hx⟩

theorem Keeps.update {look : Str → Option TokenRecord} {sel : Str} {r x : TokenRecord}
    (hr : look sel = some r) (hf : x.familyId = r.familyId) (hu : x.userId = r.userId)
    (hx : x.familyExpiresAt = r.familyExpiresAt) : Keeps look (Function.update look sel (some x)) := by
  refine ⟨fun sel' r' hr' => ?_⟩
  rcases eq_or_ne sel' sel with rfl | hne
  · obtain rfl := Option.some.inj (hr.symm.trans hr')
    exact ⟨x, Function.update_self _ _ _, hf, hu, hx⟩
  · exact ⟨r', by rw [Function.update_of_ne hne, hr'], rfl, rfl, rfl⟩

theorem Keeps.revokes {look look' : Str → Option TokenRecord} {p : TokenRecord → Prop}
    (h : RevokesSome p look look') : Keeps look look' := by
  refine ⟨fun sel r hr => ?_⟩
  rcases h sel with he | ⟨r₀, hr₀, -, he⟩
  · exact ⟨r, he.trans hr, rfl, rfl, rfl⟩
  · obtain rfl := Option.some.inj (hr.symm.trans hr₀)
    exact ⟨_, he, rfl, rfl, rfl⟩

/-- A request keeps every row. -/
theorem answer_keeps {q : StoreCall} {rep : q.Reply} (h : answer A q = some (rep, A')) :
    Keeps A.get A'.get := by
  cases q with
  | findBySelector sel =>
    obtain ⟨-, rfl⟩ := Prod.mk.inj (Option.some.inj h)
    exact .refl _
  | insert n =>
    obtain ⟨hnone, hupd⟩ := memoryStore.insert (i := 0) h
    have hupd : A'.get = Function.update A.get n.selector (some n) := hupd
    refine ⟨fun sel r hr => ⟨r, ?_, rfl, rfl, rfl⟩⟩
    rw [hupd, Function.update_of_ne, hr]
    rintro rfl
    have hnone : A.get n.selector = none := hnone
    rw [hnone] at hr
    cases hr
  | markRotated sel f t q =>
    cases rep with
    | true =>
      obtain ⟨r, hr, -, hupd⟩ := memoryStore.mark (i := 0) h
      have hupd : A'.get = Function.update A.get sel (some (rotatedTo r t q)) := hupd
      rw [hupd]
      exact .update hr rfl rfl rfl
    | false =>
      have hsame : A'.get = A.get := (memoryStore.mark_lost (i := 0) h).1
      rw [hsame]
      exact .refl _
  | revokeIfActive sel =>
    cases rep with
    | true =>
      obtain ⟨r, hr, -, hupd⟩ := memoryStore.clear (i := 0) h
      have hupd : A'.get = Function.update A.get sel (some (asRevoked r)) := hupd
      rw [hupd]
      exact .update hr rfl rfl rfl
    | false =>
      have hsame : A'.get = A.get := (memoryStore.clear_lost (i := 0) h).1
      rw [hsame]
      exact .refl _
  | revokeFamily familyId => exact .revokes (memoryStore.revokeFamily (i := 0) h)
  | revokeUser userId => exact .revokes (memoryStore.revokeUser (i := 0) h)

/-- What a request is about was not collected before, if it is not afterwards. -/
theorem Concerns.back {look look' : Str → Option TokenRecord} (hk : Keeps look look') {q : StoreCall}
    (h : Concerns now look' q) : Concerns now look q := by
  have hkey : ∀ sel, (∀ r, look' sel = some r → now < r.familyExpiresAt) →
      ∀ r, look sel = some r → now < r.familyExpiresAt := by
    intro sel hsel r hr
    obtain ⟨r', hr', -, -, hx⟩ := hk.row sel r hr
    exact hx ▸ hsel r' hr'
  cases q with
  | findBySelector sel => exact hkey sel h
  | insert n => exact hkey n.selector h
  | markRotated sel f t q => exact hkey sel h
  | revokeIfActive sel => exact hkey sel h
  | revokeFamily familyId =>
    intro sel r hr hf
    obtain ⟨r', hr', hf', -, hx⟩ := hk.row sel r hr
    exact hx ▸ h sel r' hr' (hf'.trans hf)
  | revokeUser userId =>
    intro sel r hr hu
    obtain ⟨r', hr', -, hu', hx⟩ := hk.row sel r hr
    exact hx ▸ h sel r' hr' (hu'.trans hu)

/-- Rows rewritten with their deadlines kept. -/
theorem Survivors.mapRows (h : Survivors now A B) {f : Str → TokenRecord → TokenRecord}
    (hf : ∀ k r, (f k r).familyExpiresAt = r.familyExpiresAt) :
    Survivors now (A.mapRows f) (B.mapRows f) := by
  intro sel
  rw [Table.get_mapRows, Table.get_mapRows, h sel]
  cases A.get sel with
  | none => rfl
  | some r =>
    by_cases hlive : now < r.familyExpiresAt
    · rw [filter_live hlive, Option.map_some, filter_live (by rw [hf]; exact hlive)]
    · rw [filter_late hlive, Option.map_some, filter_late (by rw [hf]; exact hlive)]
      rfl

theorem Survivors.modify (h : Survivors now A B) (f : TokenRecord → TokenRecord)
    (hf : ∀ r, (f r).familyExpiresAt = r.familyExpiresAt) (sel : Str) :
    Survivors now (A.modify sel f) (B.modify sel f) := by
  refine h.mapRows fun k r => ?_
  split_ifs
  · exact hf r
  · rfl

/-- A bulk revocation of rows that were not collected. -/
theorem Survivors.revokeWhere (h : Survivors now A B) {p : TokenRecord → Bool}
    (hp : ∀ sel r, A.get sel = some r → p r = true → now < r.familyExpiresAt) :
    (revokeWhere B p).1 = (revokeWhere A p).1 ∧
      Survivors now (revokeWhere A p).2 (revokeWhere B p).2 := by
  refine ⟨?_, h.mapRows fun k r => ?_⟩
  · rw [MemoryRefreshTokenStore.revokeWhere, MemoryRefreshTokenStore.revokeWhere]
    dsimp only
    refine Table.count_congr fun sel => ?_
    rw [h sel]
    cases hA : A.get sel with
    | none => rfl
    | some r =>
      by_cases hlive : now < r.familyExpiresAt
      · rw [filter_live hlive]
      · have hpr : p r = false := by
          by_contra hpr
          exact hlive (hp sel r hA (by simpa using hpr))
        rw [filter_late hlive]
        simp [hpr]
  · split_ifs <;> rfl

/-- **A request about rows that were not collected** has the same answer on both sides. -/
theorem answer_survives {q : StoreCall} {rep : q.Reply} (hR : Survivors now A B)
    (h : answer A q = some (rep, A')) (hc : Concerns now A'.get q) :
    ∃ B', answer B q = some (rep, B') ∧ Survivors now A' B' := by
  have hpre := hc.back (answer_keeps h)
  cases q with
  | findBySelector sel =>
    obtain ⟨rfl, rfl⟩ := Prod.mk.inj (Option.some.inj h)
    refine ⟨B, ?_, hR⟩
    rw [← hR.found hpre]
    rfl
  | insert n =>
    have hins : (insert A n).map (fun rows => ((), rows)) = some (rep, A') := h
    rw [MemoryRefreshTokenStore.insert] at hins
    split_ifs at hins with hn
    · cases hins
    · obtain ⟨-, rfl⟩ := Prod.mk.inj (Option.some.inj hins)
      have hnone : A.get n.selector = none := by simpa using hn
      have hB : B.get n.selector = none := by rw [hR, hnone]; rfl
      refine ⟨B.set n.selector n, ?_, fun sel => ?_⟩
      · show (insert B n).map _ = _
        rw [MemoryRefreshTokenStore.insert, hB]
        rfl
      · rcases eq_or_ne sel n.selector with rfl | hne
        · have hlive := hc n (Table.get_set_self _ _ _)
          rw [Table.get_set_self, Table.get_set_self, filter_live hlive]
        · rw [Table.get_set_ne _ hne, Table.get_set_ne _ hne, hR]
  | markRotated sel f t q =>
    have hB := hR.found hpre
    have h : markRotated A sel f t q = (rep, A') := Option.some.inj h
    unfold markRotated at h
    show ∃ B', some (markRotated B sel f t q) = some (rep, B') ∧ _
    unfold markRotated
    rw [hB]
    split at h
    · split_ifs at h with hs
      · obtain ⟨rfl, rfl⟩ := Prod.mk.inj h
        exact ⟨B, by rw [if_pos hs], hR⟩
      · obtain ⟨rfl, rfl⟩ := Prod.mk.inj h
        exact ⟨_, by rw [if_neg hs], hR.modify (fun r => rotatedTo r t q) (fun r => rfl) sel⟩
    · obtain ⟨rfl, rfl⟩ := Prod.mk.inj h
      exact ⟨B, rfl, hR⟩
  | revokeIfActive sel =>
    have hB := hR.found hpre
    have h : revokeIfActive A sel = (rep, A') := Option.some.inj h
    unfold revokeIfActive at h
    show ∃ B', some (revokeIfActive B sel) = some (rep, B') ∧ _
    unfold revokeIfActive
    rw [hB]
    split at h
    · split_ifs at h with hs
      · obtain ⟨rfl, rfl⟩ := Prod.mk.inj h
        exact ⟨B, by rw [if_pos hs], hR⟩
      · obtain ⟨rfl, rfl⟩ := Prod.mk.inj h
        exact ⟨_, by rw [if_neg hs], hR.modify asRevoked (fun r => rfl) sel⟩
    · obtain ⟨rfl, rfl⟩ := Prod.mk.inj h
      exact ⟨B, rfl, hR⟩
  | revokeFamily familyId =>
    obtain ⟨rfl, rfl⟩ := Prod.mk.inj (Option.some.inj h)
    obtain ⟨hn, hR'⟩ := hR.revokeWhere (p := fun r => r.familyId == familyId)
      fun sel r hr hp => hpre sel r hr (eq_of_beq hp)
    exact ⟨(revokeFamily B familyId).2, congrArg some (Prod.ext hn rfl), hR'⟩
  | revokeUser userId =>
    obtain ⟨rfl, rfl⟩ := Prod.mk.inj (Option.some.inj h)
    obtain ⟨hn, hR'⟩ := hR.revokeWhere (p := fun r => r.userId == userId)
      fun sel r hr hp => hpre sel r hr (eq_of_beq hp)
    exact ⟨(revokeUser B userId).2, congrArg some (Prod.ext hn rfl), hR'⟩

/-! ### One call -/

theorem replayed_keeps (h : Replayed A tr A') : Keeps A.get A'.get := by
  induction h with
  | nil => exact .refl _
  | cons h ha ih => exact ih.trans (answer_keeps ha)

/-- **A call whose requests are about rows that were not collected** goes the same way on both sides. -/
theorem replayed_survives (hR : Survivors now A B) (h : Replayed A tr A')
    (hc : ∀ ev ∈ tr, Concerns now A'.get ev.req) : ∃ B', Replayed B tr B' ∧ Survivors now A' B' := by
  induction h with
  | nil => exact ⟨B, Replay.nil, hR⟩
  | @cons tr q rep u v h ha ih =>
    obtain ⟨B₁, h₁, hR₁⟩ := ih fun ev hev =>
      (hc ev (List.mem_cons_of_mem _ hev)).back (answer_keeps ha)
    obtain ⟨B', hB', hR'⟩ := answer_survives hR₁ ha (hc _ List.mem_cons_self)
    exact ⟨B', h₁.cons hB', hR'⟩

/-- The row that a token names was not collected, if there is one. -/
def Unaffected (now : ℤ) (rows : Rows) (token : Str) : Prop :=
  ∀ parsed r, parseToken token = some parsed → rows.get parsed.selector = some r → now < r.familyExpiresAt

theorem Uniform.revoke {look look' : Str → Option TokenRecord} (hU : Uniform look)
    {p : TokenRecord → Prop} (h : RevokesSome p look look') : Uniform look' := by
  intro sel sel' a' b' ha' hb' hf
  obtain ⟨a, ha, hea⟩ := revokesSome_evolves h ha'
  obtain ⟨b, hb, heb⟩ := revokesSome_evolves h hb'
  rw [hea.familyId, heb.familyId] at hf
  rw [hea.familyExpiresAt, heb.familyExpiresAt]
  exact hU sel sel' a b ha hb hf

/-- **A refresh keeps one deadline for each family.** -/
theorem Uniform.done {c : RefreshCall} {out : Option (Except NebulaConfigError RefreshResult)}
    (hU : Uniform A.get) (h : Done H c A out A') : Uniform A'.get := by
  cases h with
  | quiet h =>
    rw [h]
    exact hU
  | revoked hp hr ho h => exact hU.revoke h
  | @rotated sel pepper r n t rows₁ _ hp hr hn habs h₁ hr₁ hnone h =>
    have hU₁ := hU.revoke h₁
    obtain ⟨hash, -, rfl⟩ := hn
    -- every row has the family and the deadline of an old one
    have hold : ∀ sel x, A'.get sel = some x → ∃ sel₀ o, rows₁.get sel₀ = some o ∧
        o.familyId = x.familyId ∧ o.familyExpiresAt = x.familyExpiresAt := by
      intro sel x hx
      rw [h] at hx
      rcases replaced_cases hx with ⟨-, rfl⟩ | ⟨-, rfl⟩ | ⟨-, hx⟩
      · exact ⟨_, r, hr₁, rfl, rfl⟩
      · exact ⟨_, r, hr₁, rfl, rfl⟩
      · exact ⟨sel, x, hx, rfl, rfl⟩
    intro sel sel' a b ha hb hf
    obtain ⟨s₀, o, ho, hof, hox⟩ := hold sel a ha
    obtain ⟨s₁, o', ho', hof', hox'⟩ := hold sel' b hb
    rw [← hox, ← hox']
    exact hU₁ s₀ s₁ o o' ho ho' (hof.trans (hf.trans hof'.symm))

/-! ### A refresh -/

section Refresh

variable {c : RefreshCall} {sel q pepper : Str} {r : TokenRecord} {A₁ : Rows}

/-- What is under the key of a row that was not collected. -/
theorem concerns_key (hk : Keeps A.get A'.get) (hr : A.get sel = some r)
    (hl : now < r.familyExpiresAt) : ∀ x, A'.get sel = some x → now < x.familyExpiresAt := by
  intro x hx
  obtain ⟨r', hr', -, -, he⟩ := hk.row sel r hr
  rw [Option.some.inj (hx.symm.trans hr'), he]
  exact hl

theorem proves_live (hlive : Unaffected now A c.token) (hp : Proves H c sel r pepper)
    (hr : A.get sel = some r) : now < r.familyExpiresAt := by
  obtain ⟨parsed, hparse, rfl, -⟩ := hp
  exact hlive parsed r (parseConfigured_ok.mp hparse).1 hr

/-- The requests of a retry up to its displacement: the row, its successor, and the displacement. -/
theorem displacing_concerns {d : TokenRecord} {b : Bool} (hG : Grouped A.get)
    (hk : Keeps A.get A'.get) (hr : A.get sel = some r) (hl : now < r.familyExpiresAt)
    (hq : r.replacedBySelector = some q) (hd : A.get q = some d) :
    ∀ ev ∈ ([⟨.revokeIfActive d.selector, b⟩, ⟨.findBySelector q, some d⟩,
      ⟨.findBySelector sel, some r⟩] : List StoreEvent), Concerns now A'.get ev.req := by
  obtain ⟨d', hd', -, hx⟩ := hG.pointer sel r q hr hq
  obtain rfl := Option.some.inj (hd.symm.trans hd')
  have hld : now < d.familyExpiresAt := by
    rw [hx]
    exact hl
  obtain rfl := hG.keyed q d hd
  intro ev hev
  simp only [List.mem_cons, List.not_mem_nil, or_false] at hev
  rcases hev with rfl | rfl | rfl
  · exact concerns_key hk hd hld
  · exact concerns_key hk hd hld
  · exact concerns_key hk hr hl

/-- The requests of a call that has a ticket. -/
theorem ticket_concerns {f : TokenStatus} {t : ℤ} (hG : Grouped A.get)
    (hlive : Unaffected now A c.token) (hk : Keeps A.get A'.get) (ht : Ticket H c r f t tr)
    (h : Replayed A tr A₁) : now < r.familyExpiresAt ∧ A.get r.selector = some r ∧
      ∀ ev ∈ tr, Concerns now A'.get ev.req := by
  cases ht with
  | fresh hp =>
    obtain ⟨h, hr⟩ := h.find
    obtain rfl := h.nil
    have hl := proves_live hlive hp hr
    obtain rfl := hG.keyed _ r hr
    refine ⟨hl, hr, fun ev hev => ?_⟩
    obtain rfl := List.mem_singleton.mp hev
    exact concerns_key hk hr hl
  | grace hp hs hg =>
    obtain ⟨A₂, h, -⟩ := Replay.cons_iff.mp h
    obtain ⟨h, hd⟩ := Replayed.find h
    obtain ⟨h, hr⟩ := Replayed.find h
    obtain rfl := Replayed.nil h
    have hl := proves_live hlive hp hr
    obtain rfl := hG.keyed _ r hr
    exact ⟨hl, hr, displacing_concerns hG hk hr hl (withinGrace_some hg).2.1 hd⟩

/-- The requests of a call that is to revoke the family. -/
theorem burns_concerns {code : NebulaErrorCode} (hG : Grouped A.get)
    (hlive : Unaffected now A c.token) (hk : Keeps A.get A'.get) (hb : Burns H c r code tr)
    (h : Replayed A tr A₁) : now < r.familyExpiresAt ∧ A.get r.selector = some r ∧
      ∀ ev ∈ tr, Concerns now A'.get ev.req := by
  cases hb with
  | reuse hp | absolute hp | idle hp | device hp =>
    obtain ⟨h, hr⟩ := h.find
    obtain rfl := h.nil
    have hl := proves_live hlive hp hr
    obtain rfl := hG.keyed _ r hr
    refine ⟨hl, hr, fun ev hev => ?_⟩
    obtain rfl := List.mem_singleton.mp hev
    exact concerns_key hk hr hl
  | used hp hs hg | graceDevice hp hs hg =>
    obtain ⟨h, -⟩ := h.find
    obtain ⟨h, hr⟩ := h.find
    obtain rfl := h.nil
    have hl := proves_live hlive hp hr
    obtain ⟨d, hd, -⟩ := hG.pointer _ r _ hr (withinGrace_some hg).2.1
    have hcon := displacing_concerns (b := true) hG hk hr hl (withinGrace_some hg).2.1 hd
    obtain rfl := hG.keyed _ r hr
    refine ⟨hl, hr, fun ev hev => ?_⟩
    rcases List.mem_cons.mp hev with rfl | hev
    · exact hcon ⟨.findBySelector _, some d⟩ (by simp)
    · exact hcon ev (List.mem_cons_of_mem _ (List.mem_cons_of_mem _ hev))

/-- The requests that put a record in the place of another. -/
theorem rotation_concerns {n : TokenRecord} {A₂ : Rows} (hk : Keeps A.get A'.get)
    (hk₂ : Keeps A₂.get A'.get) (hr : A.get r.selector = some r) (hl : now < r.familyExpiresAt)
    (hn : Mints H c r n) (hins : answer A₁ (.insert n) = some ((), A₂)) :
    Concerns now A'.get (.insert n) ∧
      ∀ f t, Concerns now A'.get (.markRotated r.selector f t n.selector) := by
  have hrow : A₂.get n.selector = some n := by
    have hupd : A₂.get = Function.update A₁.get n.selector (some n) :=
      (memoryStore.insert (i := 0) hins).2
    rw [hupd, Function.update_self]
  have hln : now < n.familyExpiresAt := by
    obtain ⟨hash, -, rfl⟩ := hn
    exact hl
  exact ⟨concerns_key hk₂ hrow hln, fun f t => concerns_key hk hr hl⟩

/-- The requests of a refusal. -/
theorem refuses_concerns {f : RefreshFailure} (hG : Grouped A.get) (hlive : Unaffected now A c.token)
    (hk : Keeps A.get A'.get) (hf : Refuses H c f tr) (h : Replayed A tr A') :
    ∀ ev ∈ tr, Concerns now A'.get ev.req := by
  cases hf with
  | unparsed => simp
  | @notFound parsed hp =>
    obtain ⟨-, hnone⟩ := h.find
    intro ev hev
    obtain rfl := List.mem_singleton.mp hev
    intro x hx
    rw [hnone] at hx
    cases hx
  | @unproved parsed r f hp hv =>
    obtain ⟨h, hr⟩ := h.find
    obtain rfl := h.nil
    intro ev hev
    obtain rfl := List.mem_singleton.mp hev
    exact concerns_key hk hr (hlive parsed r (parseConfigured_ok.mp hp).1 hr)
  | revoked hp =>
    obtain ⟨h, hr⟩ := h.find
    obtain rfl := h.nil
    intro ev hev
    obtain rfl := List.mem_singleton.mp hev
    exact concerns_key hk hr (proves_live hlive hp hr)
  | lost hp hs hg =>
    obtain ⟨A₂, h, -⟩ := Replay.cons_iff.mp h
    obtain ⟨h, hd⟩ := Replayed.find h
    obtain ⟨h, hr⟩ := Replayed.find h
    obtain rfl := Replayed.nil h
    exact displacing_concerns hG hk hr (proves_live hlive hp hr) (withinGrace_some hg).2.1 hd

/-- **The requests of a refresh** are about rows that were not collected, if the row it presents was
not. -/
theorem refresh_concerns {p : StoreM RefreshResult} (hG : Grouped A.get)
    (hU : Uniform A'.get) (hlive : Unaffected now A c.token) (hat : RefreshAt H c tr p)
    (h : Replayed A tr A') : ∀ ev ∈ tr, Concerns now A'.get ev.req := by
  have hk := replayed_keeps h
  cases hat with
  | lookup => simp
  | refused hf => exact refuses_concerns hG hlive hk hf h
  | successorLookup hp hs hg =>
    obtain ⟨h, hr⟩ := h.find
    obtain rfl := h.nil
    intro ev hev
    obtain rfl := List.mem_singleton.mp hev
    exact concerns_key hk hr (proves_live hlive hp hr)
  | consume hp hs hg =>
    obtain ⟨h, hd⟩ := h.find
    obtain ⟨h, hr⟩ := h.find
    obtain rfl := h.nil
    have hcon := displacing_concerns (b := true) hG hk hr (proves_live hlive hp hr)
      (withinGrace_some hg).2.1 hd
    exact fun ev hev => hcon ev (List.mem_cons_of_mem _ hev)
  | burning hb => exact (burns_concerns hG hlive hk hb h).2.2
  | burned hb =>
    obtain ⟨A₁, h, -⟩ := Replay.cons_iff.mp h
    obtain ⟨hl, hr, hcon⟩ := burns_concerns hG hlive hk hb h
    intro ev hev
    rcases List.mem_cons.mp hev with rfl | hev
    · -- the family has one deadline
      intro sel x hx hf
      obtain ⟨r', hr', hf', -, he⟩ := hk.row _ _ hr
      rw [hU sel _ x r' hx hr' (hf.trans hf'.symm), he]
      exact hl
    · exact hcon ev hev
  | inserting ht hn => exact (ticket_concerns hG hlive hk ht h).2.2
  | marking ht hn =>
    obtain ⟨A₁, h, hins⟩ := Replay.cons_iff.mp h
    obtain ⟨hl, hr, hcon⟩ := ticket_concerns hG hlive hk ht h
    obtain ⟨hi, -⟩ := rotation_concerns hk (.refl _) hr hl hn hins
    intro ev hev
    rcases List.mem_cons.mp hev with rfl | hev
    · exact hi
    · exact hcon ev hev
  | won ht hn | cleaning ht hn =>
    obtain ⟨A₂, h, hmark⟩ := Replay.cons_iff.mp h
    obtain ⟨A₁, h, hins⟩ := Replay.cons_iff.mp h
    obtain ⟨hl, hr, hcon⟩ := ticket_concerns hG hlive hk ht h
    obtain ⟨hi, hm⟩ := rotation_concerns hk (answer_keeps hmark) hr hl hn hins
    intro ev hev
    rcases List.mem_cons.mp hev with rfl | hev
    · exact hm _ _
    rcases List.mem_cons.mp hev with rfl | hev
    · exact hi
    · exact hcon ev hev
  | cleaned ht hn =>
    obtain ⟨A₃, h, hclear⟩ := Replay.cons_iff.mp h
    obtain ⟨A₂, h, hmark⟩ := Replay.cons_iff.mp h
    obtain ⟨A₁, h, hins⟩ := Replay.cons_iff.mp h
    obtain ⟨hl, hr, hcon⟩ := ticket_concerns hG hlive hk ht h
    obtain ⟨hi, hm⟩ := rotation_concerns hk ((answer_keeps hmark).trans (answer_keeps hclear)) hr hl
      hn hins
    intro ev hev
    rcases List.mem_cons.mp hev with rfl | hev
    · exact hi
    rcases List.mem_cons.mp hev with rfl | hev
    · exact hm _ _
    rcases List.mem_cons.mp hev with rfl | hev
    · exact hi
    · exact hcon ev hev

/-- **A refresh of a token that was not collected** has the same result on both sides. -/
theorem refresh_survives (hG : Grouped A.get) (hU : Uniform A.get) (hR : Survivors now A B)
    (hlive : Unaffected now A c.token) (hnew : A.get c.draw.selectorText = none) :
    (run (refresh H c.engine c.token c.deviceId c.now c.draw) B).1 =
        (run (refresh H c.engine c.token c.deviceId c.now c.draw) A).1 ∧
      Survivors now (run (refresh H c.engine c.token c.deviceId c.now c.draw) A).2
        (run (refresh H c.engine c.token c.deviceId c.now c.draw) B).2 := by
  obtain ⟨tr, p, hrep, ⟨hat, hlead⟩, hend⟩ := eval_rule (fun q rows => answer rows q)
    (P := fun tr p => RefreshAt H c tr p ∧
      Leads (refresh H c.engine c.token c.deviceId c.now c.draw) tr p)
    (fun tr q k rep h => ⟨refresh_step h.1 rep, .answer h.2 rep⟩) A ⟨refresh_at, .start⟩
  have hU' := hU.done (refresh_done (H := H) (c := c) hG)
  change Replayed A tr (run _ A).2 at hrep
  change Ends _ (run _ A).2 p (run _ A).1 at hend
  generalize run (refresh H c.engine c.token c.deviceId c.now c.draw) A = x at hrep hend hU' ⊢
  obtain ⟨out, A'⟩ := x
  dsimp only at hrep hend hU' ⊢
  obtain ⟨B', hrep', hR'⟩ := replayed_survives hR hrep (refresh_concerns hG hU' hlive hat hrep)
  have hrun : run (refresh H c.engine c.token c.deviceId c.now c.draw) B = run p B' :=
    Replay.eval hlead hrep'
  have hend' : run p B' = (out, B') := by
    cases hend with
    | ret a => rfl
    | throw e => rfl
    | @stuck q k hno =>
      -- only an insertion may be refused, and the selector drawn is new
      cases hat with
      | lookup | successorLookup | consume | burning | marking | cleaning => cases hno
      | inserting ht hn =>
        obtain ⟨-, -, -, -, hrev, -⟩ := ticket_alone hG ht hrep
        have hnone : A'.get c.draw.selectorText = none := by
          rcases hrev c.draw.selectorText with hsame | ⟨r₀, hr₀, -⟩
          · exact hsame.trans hnew
          · rw [hnew] at hr₀
            cases hr₀
        obtain ⟨hash, -, rfl⟩ := hn
        have hno : (insert A' _).map (fun rows => ((), rows)) = none := hno
        rw [MemoryRefreshTokenStore.insert] at hno
        change (if (A'.get c.draw.selectorText).isSome then none else some _).map _ = none at hno
        rw [hnone] at hno
        cases hno
  rw [hrun, hend']
  exact ⟨rfl, hR'⟩

end Refresh

/-! ### A revocation by token -/

/-- The rows of a family are collected together. -/
theorem Uniform.family_live (hU : Uniform A.get) {sel : Str} {r : TokenRecord}
    (hr : A.get sel = some r) (hl : now < r.familyExpiresAt) :
    ∀ sel' x, A.get sel' = some x → (x.familyId == r.familyId) = true → now < x.familyExpiresAt := by
  intro sel' x hx hf
  rw [hU sel' sel x r hx hr (eq_of_beq hf)]
  exact hl

/-- **A revocation by a token that was not collected** has the same result on both sides. -/
theorem revokeToken_survives {e : NebulaEngine} {token : Str} (hU : Uniform A.get)
    (hR : Survivors now A B) (hlive : Unaffected now A token) :
    (run (revokeToken H e token) B).1 = (run (revokeToken H e token) A).1 ∧
      Survivors now (run (revokeToken H e token) A).2 (run (revokeToken H e token) B).2 := by
  cases hp : parseConfigured e token with
  | error err =>
    unfold revokeToken
    rw [hp]
    exact ⟨rfl, hR⟩
  | ok parsed =>
    have hparse := (parseConfigured_ok.mp hp).1
    rw [revokeToken_parsed hp, revokeToken_parsed hp, hR.found (hlive parsed · hparse)]
    cases hr : A.get parsed.selector with
    | none => exact ⟨rfl, hR⟩
    | some r =>
      rw [revokeFound]
      cases hv : proveVerifier H e r parsed with
      | error f => exact ⟨rfl, hR⟩
      | ok pepper =>
        obtain ⟨hn, hR'⟩ := hR.revokeWhere (hU.family_live hr (hlive parsed r hparse hr))
        refine ⟨?_, hR'⟩
        have hcount : (revokeFamily B r.familyId).1 = (revokeFamily A r.familyId).1 := hn
        show some (Except.ok (RevokeResult.ok r.userId r.familyId (revokeFamily B r.familyId).1)) =
          some (Except.ok (RevokeResult.ok r.userId r.familyId (revokeFamily A r.familyId).1))
        rw [hcount]

/-! ### Collected tokens -/

/-- Revocations of collected rows do not show. -/
theorem Survivors.revokes (hR : Survivors now A B) {p : TokenRecord → Prop}
    (h : RevokesSome p A.get A'.get)
    (hp : ∀ sel r, A.get sel = some r → p r → ¬ now < r.familyExpiresAt) : Survivors now A' B := by
  intro sel
  rw [hR sel]
  rcases h sel with hsame | ⟨r, hr, hpr, he⟩
  · rw [hsame]
  · have hlate := hp sel r hr hpr
    have hlate' : ¬ now < (asRevoked r).familyExpiresAt := hlate
    rw [hr, he, filter_late hlate, filter_late hlate']

/-- The row that a collected token names, and what is left of it. -/
theorem collected_row {token : Str} (hR : Survivors now A B) (hlate : ¬ Unaffected now A token) :
    ∃ parsed r, parseToken token = some parsed ∧ A.get parsed.selector = some r ∧
      ¬ now < r.familyExpiresAt ∧ B.get parsed.selector = none := by
  unfold Unaffected at hlate
  push Not at hlate
  obtain ⟨parsed, r, hp, hr, hle⟩ := hlate
  refine ⟨parsed, r, hp, hr, not_lt.mpr hle, ?_⟩
  rw [hR, hr, filter_late (not_lt.mpr hle)]

/-- The rows of a collected family are late. -/
theorem Uniform.family_late (hU : Uniform A.get) {sel : Str} {r : TokenRecord}
    (hr : A.get sel = some r) (hl : ¬ now < r.familyExpiresAt) :
    ∀ sel' x, A.get sel' = some x → InFamily r.familyId x → ¬ now < x.familyExpiresAt := by
  intro sel' x hx hf
  rw [hU sel' sel x r hx hr hf]
  exact hl

/-- **A refresh of a token that was collected** is refused on both sides. -/
theorem refresh_collected {c : RefreshCall} (hG : Grouped A.get) (hU : Uniform A.get)
    (hR : Survivors now A B) (hlate : ¬ Unaffected now A c.token) (hnow : now ≤ c.now) :
    (∀ x, (run (refresh H c.engine c.token c.deviceId c.now c.draw) A).1 ≠ some (.ok (.ok x))) ∧
      (∀ x, (run (refresh H c.engine c.token c.deviceId c.now c.draw) B).1 ≠ some (.ok (.ok x))) ∧
      Survivors now (run (refresh H c.engine c.token c.deviceId c.now c.draw) A).2
        (run (refresh H c.engine c.token c.deviceId c.now c.draw) B).2 := by
  obtain ⟨parsed, r, hp, hr, hl, hB⟩ := collected_row hR hlate
  -- a row that the token proves is the collected one
  have hsame : ∀ {sel pepper : Str} {x : TokenRecord}, Proves H c sel x pepper →
      A.get sel = some x → x = r := by
    rintro sel pepper x ⟨parsed', hp', rfl, -⟩ hx
    obtain rfl := Option.some.inj (hp.symm.trans (parseConfigured_ok.mp hp').1)
    exact Option.some.inj (hx.symm.trans hr)
  have hrunB : ∃ f, run (refresh H c.engine c.token c.deviceId c.now c.draw) B =
      (some (.ok (.refused f)), B) := by
    cases hc : parseConfigured c.engine c.token with
    | error err =>
      unfold refresh
      rw [hc]
      exact ⟨_, rfl⟩
    | ok parsed' =>
      obtain rfl := Option.some.inj (hp.symm.trans (parseConfigured_ok.mp hc).1)
      rw [refresh_parsed hc, hB]
      exact ⟨_, rfl⟩
  obtain ⟨f, hrunB⟩ := hrunB
  have hdone := refresh_done (H := H) (c := c) hG
  generalize run (refresh H c.engine c.token c.deviceId c.now c.draw) A = x at hdone ⊢
  obtain ⟨out, A'⟩ := x
  rw [hrunB]
  dsimp only at hdone ⊢
  refine ⟨fun x hx => ?_, (fun x hx => by cases hx), ?_⟩
  · cases hdone with
    | quiet h => cases hx
    | revoked hp' hr' ho h => exact ho x hx
    | rotated hp' hr' hn habs =>
      obtain rfl := hsame hp' hr'
      exact hl (hnow.trans_lt habs)
  · cases hdone with
    | quiet h =>
      intro sel
      rw [hR, h]
    | revoked hp' hr' ho h =>
      obtain rfl := hsame hp' hr'
      exact hR.revokes h (hU.family_late hr hl)
    | rotated hp' hr' hn habs =>
      obtain rfl := hsame hp' hr'
      exact absurd (hnow.trans_lt habs) hl

/-- A revocation by a token that was collected revokes collected rows. -/
theorem revokeToken_collected {e : NebulaEngine} {token : Str} (hU : Uniform A.get)
    (hR : Survivors now A B) (hlate : ¬ Unaffected now A token) :
    Survivors now (run (revokeToken H e token) A).2 (run (revokeToken H e token) B).2 := by
  obtain ⟨parsed, r, hp, hr, hl, hB⟩ := collected_row hR hlate
  have hsame : (run (revokeToken H e token) B).2.get = B.get := by
    rcases revokeToken_done (H := H) e token B with h | ⟨parsed', r', -, hp', hr', -⟩
    · exact h
    · obtain rfl := Option.some.inj (hp.symm.trans (parseConfigured_ok.mp hp').1)
      rw [hB] at hr'
      cases hr'
  have hR' : Survivors now (run (revokeToken H e token) A).2 B := by
    rcases revokeToken_done (H := H) e token A with h | ⟨parsed', r', -, hp', hr', -, h⟩
    · intro sel
      rw [hR, h]
    · obtain rfl := Option.some.inj (hp.symm.trans (parseConfigured_ok.mp hp').1)
      obtain rfl := Option.some.inj (hr.symm.trans hr')
      exact hR.revokes h (hU.family_late hr hl)
  intro sel
  rw [hsame, hR']

/-! ### The runs -/

/-- The calls of the runs: refreshes that read a time from `now'` on and draw a new selector, and
revocations by token. -/
def Later (now' : ℤ) (rows : Rows) : Operation → Prop
  | .refresh c => now' ≤ c.now ∧ rows.get c.draw.selectorText = none
  | .revokeToken _ _ => True
  | _ => False

/-- The token a call presents. -/
def presented : Operation → Option Str
  | .refresh c => some c.token
  | .revokeToken _ token => some token
  | _ => none

/-- The same calls, one after another, against `rows` and against what a collection leaves of them. -/
def sideBySide (H : HmacSha256) (now now' : ℤ) (rows : Rows) : System (Rows × Rows) Operation where
  init p := p = (rows, deleteExpired rows now)
  step p op p' := Later now' p.1 op ∧ p' = ((run (code H op) p.1).2, (run (code H op) p.2).2)

/-- What the two sides have in common. -/
structure Abreast (now : ℤ) (p : Rows × Rows) : Prop where
  grouped : Grouped p.1.get
  uniform : Uniform p.1.get
  survivors : Survivors now p.1 p.2

theorem Abreast.step {now' : ℤ} {rows : Rows} {p p' : Rows × Rows} {op : Operation} (hle : now ≤ now')
    (h : Abreast now p) (hs : (sideBySide H now now' rows).step p op p') : Abreast now p' := by
  obtain ⟨A, B⟩ := p
  obtain ⟨hG, hU, hR⟩ := h
  obtain ⟨hl, rfl⟩ := hs
  dsimp only at hG hU hR hl
  refine ⟨hG.call op, ?_, ?_⟩
  · cases op with
    | refresh c =>
      show Uniform (run (_ <$> _) A).2.get
      rw [run_map]
      exact hU.done (refresh_done hG)
    | revokeToken e token =>
      show Uniform (run (_ <$> _) A).2.get
      rw [run_map]
      exact hU.revoke (revokeToken_rows e token)
    | issue | revokeFamily | revokeAllForUser => exact hl.elim
  · cases op with
    | refresh c =>
      show Survivors now (run (_ <$> _) A).2 (run (_ <$> _) B).2
      rw [run_map, run_map]
      by_cases hlive : Unaffected now A c.token
      · exact (refresh_survives hG hU hR hlive hl.2).2
      · exact (refresh_collected hG hU hR hlive (hle.trans hl.1)).2.2
    | revokeToken e token =>
      show Survivors now (run (_ <$> _) A).2 (run (_ <$> _) B).2
      rw [run_map, run_map]
      by_cases hlive : Unaffected now A token
      · exact (revokeToken_survives hU hR hlive).2
      · exact revokeToken_collected hU hR hlive
    | issue | revokeFamily | revokeAllForUser => exact hl.elim

variable {s : PoolState Rows}

/-- The rows of the reference store are grouped, in every run with fresh draws. -/
theorem grouped_of_reachable (hs : ((engines H memory).under FreshDraws).Reachable s) :
    Grouped s.shared.get := by
  have hK := knowledge memoryStore (noReinsert_of_freshDraws hs)
  refine ⟨fun sel r hr => ?_, fun sel r q hr hq => ?_⟩
  · obtain ⟨i, n, -, hn, he⟩ := Stored.of_row hK hr
    rw [he.selector, hn]
  · obtain ⟨i, f, t, hm⟩ := pointer_row memoryStore hs sel r q hr hq
    obtain ⟨n, hchild, rfl⟩ := child_of_marked hs hm
    have hpres := child_present memoryStore hs sel n hchild
      (by rw [show memoryStore.look s.shared sel = some r from hr]; exact Option.some_ne_none r)
    obtain ⟨d, hd⟩ := Option.ne_none_iff_exists'.mp hpres
    have hfol := follows_of_marked memoryStore hs hm (.of_row hK hr) (.of_row hK hd)
    exact ⟨d, hd, hfol.familyId, hfol.familyExpiresAt⟩

/-- **A family has one deadline**, in every run with fresh draws. -/
theorem uniform_of_reachable (hs : ((engines H memory).under FreshDraws).Reachable s) :
    Uniform s.shared.get := by
  have hK := knowledge memoryStore (noReinsert_of_freshDraws hs)
  intro sel sel' r r' hr hr' hf
  obtain ⟨j, c, n, hfd, ho⟩ := (Stored.of_row hK hr).founded (noReinsert_of_freshDraws hs) memoryStore
  obtain ⟨j', c', n', hfd', ho'⟩ :=
    (Stored.of_row hK hr').founded (noReinsert_of_freshDraws hs) memoryStore
  obtain ⟨-, rfl⟩ := founded_unique hs hfd.opAt hfd'.opAt
    (ho.family.symm.trans (hf.trans ho'.family))
  rw [ho.deadline, ho'.deadline]

theorem abreast {now' : ℤ} {p : Rows × Rows}
    (hs : ((engines H memory).under FreshDraws).Reachable s) (hle : now ≤ now')
    (hp : (sideBySide H now now' s.shared).Reachable p) : Abreast now p := by
  refine hp.invariant (I := Abreast now) (fun p hp => ?_) fun p op p' _ hI hs => hI.step hle hs
  rw [show p = (s.shared, deleteExpired s.shared now) from hp]
  exact ⟨grouped_of_reachable hs, uniform_of_reachable hs, survivors_collect now s.shared⟩

/-- **Garbage collection is invisible.** From every state reached with fresh draws, collected or not,
the same refreshes and revocations by token, at times that are not before the collection, give the same
results and rows for every token whose row was not collected, and refuse every refresh of a token whose
row was. A collection takes a family as a whole, and no record before its deadline. -/
theorem collection_invisible (hs : ((engines H memory).under FreshDraws).Reachable s) {now now' : ℤ}
    (hle : now ≤ now') :
    (∀ A B, (sideBySide H now now' s.shared).Reachable (A, B) → Survivors now A B ∧
      ∀ op, Later now' A op →
        (∀ token, presented op = some token → Unaffected now A token →
          (run (code H op) B).1 = (run (code H op) A).1) ∧
        ∀ c, op = .refresh c → ¬ Unaffected now A c.token →
          ∀ x, (run (code H op) A).1 ≠ some (.ok (.refreshed (.ok x))) ∧
            (run (code H op) B).1 ≠ some (.ok (.refreshed (.ok x)))) ∧
    (∀ sel sel' r r', s.shared.get sel = some r → s.shared.get sel' = some r' →
      r.familyId = r'.familyId →
      ((deleteExpired s.shared now).get sel = none ↔ (deleteExpired s.shared now).get sel' = none)) ∧
    ∀ sel r, s.shared.get sel = some r → now < r.familyExpiresAt →
      (deleteExpired s.shared now).get sel = some r := by
  refine ⟨fun A B hp => ?_, fun sel sel' r r' hr hr' hf => ?_, fun sel r hr hl => ?_⟩
  · obtain ⟨hG, hU, hR⟩ := abreast hs hle hp
    dsimp only at hG hU hR
    refine ⟨hR, fun op hl => ⟨fun token htok hlive => ?_, ?_⟩⟩
    · cases op with
      | refresh c =>
        obtain rfl := Option.some.inj htok
        show (run (_ <$> _) B).1 = (run (_ <$> _) A).1
        rw [run_map, run_map, (refresh_survives hG hU hR hlive hl.2).1]
      | revokeToken e token' =>
        obtain rfl := Option.some.inj htok
        show (run (_ <$> _) B).1 = (run (_ <$> _) A).1
        rw [run_map, run_map, (revokeToken_survives hU hR hlive).1]
      | issue | revokeFamily | revokeAllForUser => cases htok
    · rintro c rfl hlate x
      obtain ⟨hA, hB, -⟩ := refresh_collected (H := H) hG hU hR hlate (hle.trans hl.1)
      exact ⟨fun h => hA x (refreshed_of_run h), fun h => hB x (refreshed_of_run h)⟩
  · have hS := survivors_collect now s.shared
    rw [hS, hS, hr, hr']
    by_cases hl : now < r.familyExpiresAt
    · have hl' : now < r'.familyExpiresAt := by
        rw [← uniform_of_reachable hs sel sel' r r' hr hr' hf]
        exact hl
      rw [filter_live hl, filter_live hl']
      simp
    · have hl' : ¬ now < r'.familyExpiresAt := by
        rw [← uniform_of_reachable hs sel sel' r r' hr hr' hf]
        exact hl
      rw [filter_late hl, filter_late hl']
  · rw [survivors_collect now s.shared, hr, filter_live hl]

/-- A login at time 1000, and a refresh of its token. -/
def refreshedOnce : PoolState Rows :=
  (played sampleHmac (fun s l => freshDrawsCheck s l)
    (.invoke (sampleIssue 0 0) :: sampleSteps 0 1 ++
      .invoke (sampleRefresh 0 0 1 1010) :: sampleSteps 1 3)).get (by decide)

theorem collection_invisible_sample :
    (run (code sampleHmac (sampleRefresh 0 1 2 1050)) (deleteExpired refreshedOnce.shared 1040)).1 =
      (run (code sampleHmac (sampleRefresh 0 1 2 1050)) refreshedOnce.shared).1 ∧
    ∀ x, (run (code sampleHmac (sampleRefresh 0 1 2 2000)) refreshedOnce.shared).1 ≠
      some (.ok (.refreshed (.ok x))) := by
  have hs : ((engines sampleHmac memory).under FreshDraws).Reachable refreshedOnce :=
    played_reachable (fun _ _ h => freshDraws_of_check h) _
  have hrow : ∃ r, refreshedOnce.shared.get (sampleDraw 1).selectorText = some r ∧
      r.familyExpiresAt = 2000 := ⟨_, rfl, rfl⟩
  have hnew : refreshedOnce.shared.get (sampleDraw 2).selectorText = none := by decide
  obtain ⟨r, hr, hexp⟩ := hrow
  have hparse := parseToken_mintToken (sampleEngine 0) (sampleDraw 1)
  constructor
  · refine (((collection_invisible hs (le_refl 1040)).1 _ _ (.init rfl)).2
      (sampleRefresh 0 1 2 1050) ⟨by decide, hnew⟩).1 _ rfl fun parsed r' hp hr' => ?_
    obtain rfl := Option.some.inj (hparse.symm.trans hp)
    obtain rfl := Option.some.inj (hr.symm.trans hr')
    rw [hexp]
    decide
  · refine fun x => ((((collection_invisible hs (le_refl 2000)).1 _ _ (.init rfl)).2
      (sampleRefresh 0 1 2 2000) ⟨by decide, hnew⟩).2 _ rfl (fun hu => ?_) x).1
    have hlt := hu _ r hparse hr
    rw [hexp] at hlt
    exact absurd hlt (by decide)

end NebulaToken.Safety.Collection
