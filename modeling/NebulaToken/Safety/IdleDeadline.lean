import NebulaToken.Engine.Doubles
import NebulaToken.Runs.Execution
import NebulaToken.Runs.Sequential

/-! # The idle deadline

The idle deadline is compared with the clock where the record presented is active, and not where a
rotated one is served as a grace retry. There the live record of the family may have passed it: if the
window of a retry is as long as the idle lifetime and the absolute lifetime is longer, or if a deadline
was rounded down when it was added up.

* `sequentialDoubles`: sequential runs of the engine in double precision;
* `idle_bypassed`, `idle_rounded`: a session revived at its idle deadline;
* `idle_respected_iff`: the configurations under which no session is, as long as no sum is rounded. -/

namespace NebulaToken.Safety.IdleDeadline

open NebulaToken.Lib.Program NebulaToken.Lib.Transition NebulaToken.Lib.KeyedTable
open NebulaToken.Token.Unicode NebulaToken.Token.Wire NebulaToken.Engine NebulaToken.Engine.Records
open NebulaToken.Engine.Config NebulaToken.Engine.Operations NebulaToken.Runs.Calls
open NebulaToken.Runs.Execution NebulaToken.Runs.Sequential NebulaToken.Store.Contract
open NebulaToken.Store.Memory NebulaToken.Store.Memory.MemoryRefreshTokenStore

/-! ### Runs in double precision -/

/-- The program of an operation in double precision. The revocations have no numbers. -/
def doubleCode (H : HmacSha256) : Operation → StoreM Outcome
  | .issue c => .issued <$> Doubles.issue H c.engine c.userId c.deviceId c.now c.draw
  | .refresh c => .refreshed <$> Doubles.refresh H c.engine c.token c.deviceId c.now c.draw
  | op => code H op

/-- Calls of one engine in double precision, one after another; rows are collected at any time. -/
def sequentialDoubles (H : HmacSha256) (e : NebulaEngine) : System SeqState SeqEvent where
  init s := s.rows = Table.empty
  step s l s' :=
    match l with
    | .call op =>
      Admissible e s op ∧ s' = ⟨(run (doubleCode H op) s.rows).2, (readsClock op).getD s.clock⟩
    | .collect now => s' = ⟨deleteExpired s.rows now, s.clock⟩

/-- **No sum of the event is rounded**: the deadlines that a login or a refresh adds up, and the time since
a rotation, are no more than `2 ^ 53`. -/
def ExactSums (s : SeqState) : SeqEvent → Prop
  | .call (.issue c) => |c.now + c.engine.absoluteTtl| ≤ 2 ^ 53 ∧ |c.now + c.engine.idleTtl| ≤ 2 ^ 53
  | .call (.refresh c) => |c.now + c.engine.idleTtl| ≤ 2 ^ 53 ∧
    ∀ sel r t, s.rows.get sel = some r → r.rotatedAt = some t → |c.now - t| ≤ 2 ^ 53
  | _ => True

/-- The live record of the family: its one active row. -/
structure LiveRecord (rows : Rows) (familyId : Str) (a : TokenRecord) : Prop where
  row : rows.get a.selector = some a
  active : a.status = .active
  family : a.familyId = familyId
  only : ∀ sel b, rows.get sel = some b → b.status = .active → b.familyId = familyId → b = a

/-- **Every success comes before the idle deadline** of the live record of its family, in every
sequential run of the engine whose events satisfy `G`. -/
def IdleRespected (H : HmacSha256) (e : NebulaEngine) (G : SeqState → SeqEvent → Prop) : Prop :=
  ∀ s, ((sequentialDoubles H e).under G).Reachable s → ∀ c x, Admissible e s (.refresh c) →
    G s (.call (.refresh c)) →
    (run (Doubles.refresh H e c.token c.deviceId c.now c.draw) s.rows).1 = some (.ok (.ok x)) →
    ∃ a, LiveRecord s.rows x.familyId a ∧ c.now < a.idleExpiresAt

/-! ### Where no sum is rounded -/

variable {H : HmacSha256} {e : NebulaEngine} {s s' : SeqState}

theorem run_refresh_eq {c : RefreshCall} (h : ExactSums s (.call (.refresh c))) :
    run (Doubles.refresh H c.engine c.token c.deviceId c.now c.draw) s.rows =
      run (refresh H c.engine c.token c.deviceId c.now c.draw) s.rows := by
  obtain ⟨hidle, hrot⟩ := h
  unfold Doubles.refresh refresh
  cases parseConfigured c.engine c.token with
  | error err => rfl
  | ok parsed =>
    dsimp only
    rw [run_find, run_find, Doubles.refreshFound_eq hidle fun r t hr => hrot _ r t hr]

theorem run_code_eq {op : Operation} (h : ExactSums s (.call op)) :
    run (doubleCode H op) s.rows = run (code H op) s.rows := by
  cases op with
  | issue c =>
    show run (_ <$> _) s.rows = run (_ <$> _) s.rows
    rw [Doubles.issue_eq h.1 h.2]
  | refresh c =>
    show run (_ <$> _) s.rows = run (_ <$> _) s.rows
    rw [run_map, run_map, run_refresh_eq h]
  | revokeToken | revokeFamily | revokeAllForUser => rfl

/-- **Without rounding, a step is one over the integers.** -/
theorem step_iff {l : SeqEvent} (h : ExactSums s l) :
    (sequentialDoubles H e).step s l s' ↔ (sequential H e).step s l s' := by
  cases l with
  | call op =>
    show (_ ∧ s' = ⟨(run (doubleCode H op) s.rows).2, _⟩) ↔ _
    rw [run_code_eq h]
    rfl
  | collect now => rfl

/-- Runs without rounding are runs over the integers. -/
theorem reachable_integers (h : ((sequentialDoubles H e).under ExactSums).Reachable s) :
    (sequential H e).Reachable s := by
  induction h with
  | init hs => exact .init hs
  | step _ hs ih => exact ih.step ((step_iff hs.1).mp hs.2)

/-! ### Enough -/

/-- The time of a success, by the ticket it was made on. -/
theorem success_time {c : RefreshCall} {x : RefreshSuccess} {rows : Rows} {clock : ℤ}
    (hI : Orderly c.engine rows.get clock)
    (hx : (run (refresh H c.engine c.token c.deviceId c.now c.draw) rows).1 = some (.ok (.ok x))) :
    ∃ a, LiveRecord rows x.familyId a ∧ (c.now < a.idleExpiresAt ∨
      c.now - a.createdAt ≤ c.engine.reuseGrace ∧ c.now < a.familyExpiresAt) := by
  have heff := refresh_effect (H := H) (c := c) hI
  rw [hx] at heff
  generalize hrows : (run (refresh H c.engine c.token c.deviceId c.now c.draw) rows).2 = rows' at heff
  cases heff with
  | refused ho => exact absurd rfl (ho x)
  | @rotated r n f t tr rows₁ _ ht hn hr =>
    obtain ⟨hrev, hrow, -, -, d, hd, hact, hfam, hkind⟩ := ticket_replayed hI ht hr
    refine ⟨d, ⟨hd, hact, hfam, fun sel b hb hbs hbf => ?_⟩, ?_⟩
    · obtain rfl := hI.one sel _ b d hb hd hbs hact (hbf.trans hfam.symm)
      exact Option.some.inj (hb.symm.trans hd)
    · rcases hkind with ⟨-, -, rfl, hidle⟩ | ⟨hrt, hwin, hexp⟩
      · exact Or.inl hidle
      · -- the live record was created after the rotation the window counts from
        obtain ⟨r₀, hr₀, hr₀'⟩ := revokesSome_evolves hrev hrow
        have hrt₀ : r₀.rotatedAt = some t := by
          obtain ⟨r₁, hr₁, rfl | rfl⟩ := revokesSome_back hrev hrow
          · rw [Option.some.inj (hr₀.symm.trans hr₁)]
            exact hrt
          · rw [Option.some.inj (hr₀.symm.trans hr₁)]
            exact hrt
        have hfam₀ : r₀.familyId = d.familyId := hr₀'.familyId.symm.trans hfam.symm
        have hord := hI.order _ _ r₀ d t hr₀ hd hact hfam₀ hrt₀
        have hdl := hI.deadline _ _ r₀ d hr₀ hd hfam₀
        rw [hr₀'.familyExpiresAt, hdl] at hexp
        exact Or.inr ⟨by omega, hexp⟩

theorem idle_respected (h : e.reuseGrace < e.idleTtl ∨ e.absoluteTtl ≤ e.idleTtl) :
    IdleRespected H e ExactSums := by
  intro s hs c x ha hG hx
  have hI := orderly (reachable_integers hs)
  obtain rfl := ha.engine _ rfl
  rw [run_refresh_eq hG] at hx
  obtain ⟨a, hlive, htime⟩ := success_time hI hx
  refine ⟨a, hlive, htime.elim id fun ⟨hwin, hexp⟩ => ?_⟩
  obtain ⟨hc, -, hidle, habs, -⟩ := hI.sound _ a hlive.row
  rw [hidle]
  rcases h with h | h
  · exact lt_min (by omega) hexp
  · exact lt_min (by omega) hexp

/-! ### Not otherwise -/

/-- A login at time 0. -/
def bypassLogin (e : NebulaEngine) : IssueCall where
  engine := e
  userId := ascii ['u']
  deviceId := none
  now := 0
  draw := (sampleLogin 0 0).draw

/-- Its token presented at `now`, with the draw `b`. -/
def bypassRefresh (e : NebulaEngine) (now : ℤ) (b : UInt8) : RefreshCall where
  engine := e
  token := mintToken e (sampleDraw 0)
  deviceId := none
  now
  draw := sampleDraw b

/-- A call without rounding leads to the rows it leaves over the integers. -/
theorem reachable_exact (op : Operation) (rows' : Rows)
    (h : ((sequentialDoubles H e).under ExactSums).Reachable s) (ha : Admissible e s op)
    (hG : ExactSums s (.call op)) (hr : (run (code H op) s.rows).2 = rows') :
    ((sequentialDoubles H e).under ExactSums).Reachable ⟨rows', (readsClock op).getD s.clock⟩ := by
  subst hr
  exact h.step (l := .call op) ⟨hG, (step_iff hG).mpr ⟨ha, rfl⟩⟩

/-- **A session is revived at its idle deadline**, if the window of a retry is that long and the
absolute deadline is later: a login and a rotation at time 0, and a retry of the first token when the
idle lifetime has passed. -/
theorem bypass (hg : e.idleTtl ≤ e.reuseGrace) (ha : e.idleTtl < e.absoluteTtl)
    (hsmall : e.absoluteTtl ≤ 2 ^ 53) (htwice : 2 * e.idleTtl ≤ 2 ^ 53) :
    ¬ IdleRespected H e ExactSums := by
  intro hall
  have hidle := e.idleTtl_gt
  have hidle₀ : |0 + e.idleTtl| ≤ 2 ^ 53 := abs_le.mpr ⟨by omega, by omega⟩
  have h01 : (sampleDraw 0).selectorText ≠ (sampleDraw 1).selectorText := by decide
  have h02 : (sampleDraw 0).selectorText ≠ (sampleDraw 2).selectorText := by decide
  have h12 : (sampleDraw 1).selectorText ≠ (sampleDraw 2).selectorText := by decide
  -- the login
  have hs₀ : ((sequentialDoubles H e).under ExactSums).Reachable ⟨Table.empty, 0⟩ := .init rfl
  obtain ⟨n₀, hn₀, hrun₀⟩ := run_issue (H := H) (c := bypassLogin e) Table.empty rfl rfl
  have hs₁ := reachable_exact (.issue (bypassLogin e)) (Table.empty.set n₀.selector n₀) hs₀
    ⟨fun _ h => (Option.some.inj h).symm, fun _ h => (Option.some.inj h).le,
      fun _ _ _ _ h => by cases h⟩ ⟨abs_le.mpr ⟨by show -2 ^ 53 ≤ 0 + e.absoluteTtl; omega,
      by show 0 + e.absoluteTtl ≤ 2 ^ 53; omega⟩, hidle₀⟩ (by rw [code, run_map, hrun₀])
  have hrow₀ : (Table.empty.set n₀.selector n₀ : Rows).get n₀.selector = some n₀ :=
    Table.get_set_self _ _ _
  have hother : ∀ sel, sel ≠ n₀.selector → (Table.empty.set n₀.selector n₀ : Rows).get sel = none :=
    fun sel hne => Table.get_set_ne _ hne n₀
  generalize (Table.empty.set n₀.selector n₀ : Rows) = rows₁ at hs₁ hrow₀ hother
  obtain ⟨_, hb, hn₀⟩ := hn₀
  cases hb
  have hsel₀ : n₀.selector = (sampleDraw 0).selectorText := by rw [hn₀]; rfl
  have habs : (0 : ℤ) < n₀.familyExpiresAt := by
    rw [hn₀]
    show (0 : ℤ) < 0 + e.absoluteTtl
    omega
  have hexp : n₀.familyExpiresAt = e.absoluteTtl := by
    rw [hn₀]
    exact Int.zero_add _
  -- its rotation
  obtain ⟨n₁, rows₂, ⟨hash₁, hb₁, hn₁⟩, hrun₁, hget₁⟩ := run_fresh (c := bypassRefresh e 0 1)
    (proves_minted (d := sampleDraw 0) rfl hsel₀ (by rw [hn₀]; rfl) (by rw [hn₀]; rfl)
      e.get_activeKid) hrow₀ (by rw [hn₀]; rfl) habs
    (by
      rw [hn₀]
      show (0 : ℤ) < min (0 + e.idleTtl) (0 + e.absoluteTtl)
      exact lt_min (by omega) (by omega))
    (by rw [hn₀]; rfl) (hother _ (by rw [hsel₀]; exact h01.symm))
  have hsel₁ : n₁.selector = (sampleDraw 1).selectorText := by rw [hn₁]; rfl
  have hfresh₁ : ∀ sel r t, rows₁.get sel = some r → r.rotatedAt ≠ some t := by
    intro sel r t hr hrt
    rcases eq_or_ne sel n₀.selector with rfl | hne
    · rw [← Option.some.inj (hrow₀.symm.trans hr), hn₀] at hrt
      cases hrt
    · rw [hother sel hne] at hr
      cases hr
  have hs₂ := reachable_exact (.refresh (bypassRefresh e 0 1)) rows₂ hs₁
    ⟨fun _ h => (Option.some.inj h).symm, fun _ h => (Option.some.inj h).le,
      fun _ h => by cases h⟩ ⟨hidle₀, fun sel r t hr hrt => absurd hrt (hfresh₁ sel r t hr)⟩
    (by rw [code, run_map]; exact congrArg Prod.snd hrun₁)
  have hne : n₁.selector ≠ n₀.selector := by
    rw [hsel₀, hsel₁]
    exact h01.symm
  have hrow₁ : rows₂.get n₁.selector = some n₁ := by
    rw [hget₁, replaced, Function.update_of_ne hne, Function.update_self]
  have hrot : rows₂.get n₀.selector = some (rotatedTo n₀ 0 n₁.selector) := by
    rw [hget₁, replaced, Function.update_self]
    rfl
  -- the retry
  obtain ⟨n₂, rows₃, -, hrun₂, -⟩ := run_grace (c := bypassRefresh e e.idleTtl 2)
    (r := rotatedTo n₀ 0 n₁.selector) (t := 0) (d := n₁)
    (proves_minted (d := sampleDraw 0) rfl hsel₀ (by rw [hn₀]; rfl) (by rw [hn₀]; rfl)
      e.get_activeKid) hrot rfl
    (by
      unfold withinGrace
      exact if_pos ⟨by show 0 < e.reuseGrace; omega, by show e.idleTtl - 0 ≤ e.reuseGrace; omega,
        by show e.idleTtl < n₀.familyExpiresAt; omega⟩)
    hrow₁ (by rw [hn₁]; rfl) (by rw [hn₀]; rfl)
    (by
      rw [hget₁, replaced, Function.update_of_ne, Function.update_of_ne]
      · exact hother _ (by rw [hsel₀]; exact h02.symm)
      · rw [hsel₁]
        exact h12.symm
      · rw [hsel₀]
        exact h02.symm)
  have hexact : ExactSums ⟨rows₂, 0⟩ (.call (.refresh (bypassRefresh e e.idleTtl 2))) := by
    refine ⟨abs_le.mpr ⟨?_, ?_⟩, fun sel r t hr hrt => ?_⟩
    · show -2 ^ 53 ≤ e.idleTtl + e.idleTtl
      omega
    · show e.idleTtl + e.idleTtl ≤ 2 ^ 53
      omega
    · have hr : rows₂.get sel = some r := hr
      rw [hget₁] at hr
      rcases replaced_cases hr with ⟨-, rfl⟩ | ⟨-, rfl⟩ | ⟨-, hr⟩
      · obtain rfl := Option.some.inj (show some (0 : ℤ) = some t from hrt)
        refine abs_le.mpr ⟨?_, ?_⟩
        · show -2 ^ 53 ≤ e.idleTtl - 0
          omega
        · show e.idleTtl - 0 ≤ 2 ^ 53
          omega
      · rw [hn₁] at hrt
        cases hrt
      · exact absurd hrt (hfresh₁ sel r t hr)
  -- the live record is the one minted at time 0
  obtain ⟨a, hlive, hlt⟩ := hall _ hs₂ (bypassRefresh e e.idleTtl 2) _
    ⟨fun _ h => (Option.some.inj h).symm, fun _ h => by
      rw [← Option.some.inj h]
      exact hidle.le, fun _ h => by cases h⟩ hexact
    ((congrArg Prod.fst (run_refresh_eq hexact)).trans (congrArg Prod.fst hrun₂))
  have hlast : n₁ = a := hlive.only _ n₁ hrow₁ (by rw [hn₁]; rfl) (by rw [hn₁]; rfl)
  have hle : n₁.idleExpiresAt ≤ 0 + e.idleTtl := by
    rw [hn₁]
    exact min_le_left _ _
  rw [← hlast] at hlt
  have hlt : e.idleTtl < n₁.idleExpiresAt := hlt
  omega

/-- With an idle lifetime of 100, a window of 100 and an absolute lifetime of 1000, a token presented at
its idle deadline is served. -/
theorem idle_bypassed : ¬ ∀ (H : HmacSha256) (e : NebulaEngine), IdleRespected H e fun _ _ => True := by
  intro h
  have hall := h sampleHmac (sampleEngine 100)
  refine bypass (H := sampleHmac) (e := sampleEngine 100) (by decide) (by decide) (by decide) (by decide) ?_
  exact fun s hs c x ha _ => hall s (hs.weaken fun _ _ _ => trivial) c x ha trivial

/-- An idle lifetime of `2 ^ 53`, a shorter window and a longer absolute lifetime. -/
def longEngine : NebulaEngine :=
  { sampleEngine 0 with
    absoluteTtl := 2 ^ 54
    idleTtl := 2 ^ 53
    reuseGrace := 2 ^ 53 - 1
    absoluteTtl_pos := by decide
    idleTtl_pos := by decide
    reuseGrace_nonneg := by decide }

/-- A login at time 1, its rotation, and a retry when the rounded idle deadline has come. -/
def longLogin : IssueCall := { sampleLogin 0 0 with engine := longEngine, now := 1 }

def longRefresh (now : ℤ) (b : UInt8) : RefreshCall :=
  { samplePresent 0 0 b now with engine := longEngine }

/-- **Rounding revives a session, too**: `1 + 2 ^ 53` is stored as `2 ^ 53`, which the window reaches. -/
theorem idle_rounded : longEngine.reuseGrace < longEngine.idleTtl ∧
    ¬ IdleRespected sampleHmac longEngine fun _ _ => True := by
  refine ⟨by decide, fun hall => ?_⟩
  let rows₁ : Rows := (run (doubleCode sampleHmac (.issue longLogin)) Table.empty).2
  let rows₂ : Rows := (run (doubleCode sampleHmac (.refresh (longRefresh 1 1))) rows₁).2
  have hs₁ : ((sequentialDoubles sampleHmac longEngine).under fun _ _ => True).Reachable ⟨rows₁, 1⟩ :=
    (System.Reachable.init (s := ⟨Table.empty, 1⟩) rfl).step (l := .call (.issue longLogin))
      ⟨trivial, ⟨fun _ h => (Option.some.inj h).symm, fun _ h => (Option.some.inj h).le,
        fun _ _ _ _ h => by cases h⟩, rfl⟩
  have hs₂ : ((sequentialDoubles sampleHmac longEngine).under fun _ _ => True).Reachable ⟨rows₂, 1⟩ :=
    hs₁.step (l := .call (.refresh (longRefresh 1 1)))
      ⟨trivial, ⟨fun _ h => (Option.some.inj h).symm, fun _ h => (Option.some.inj h).le,
        fun _ h => by cases h⟩, rfl⟩
  obtain ⟨x, a, hx, ha, hact, hfam, hidle⟩ : ∃ (x : RefreshSuccess) (a : TokenRecord),
      (run (Doubles.refresh sampleHmac longEngine (sampleToken 0 0) none (2 ^ 53) (sampleDraw 2))
        rows₂).1 = some (.ok (.ok x)) ∧ rows₂.get (sampleDraw 1).selectorText = some a ∧
      a.status = .active ∧ a.familyId = x.familyId ∧ a.idleExpiresAt = 2 ^ 53 :=
    ⟨_, _, rfl, rfl, rfl, rfl, rfl⟩
  obtain ⟨b, hlive, hlt⟩ := hall _ hs₂ (longRefresh (2 ^ 53) 2) x
    ⟨fun _ h => (Option.some.inj h).symm, fun _ h => by
      rw [← Option.some.inj h]
      decide, fun _ h => by cases h⟩ trivial hx
  obtain rfl := hlive.only _ a ha hact hfam
  rw [hidle] at hlt
  exact absurd hlt (lt_irrefl _)

/-- **When the idle deadline is respected.** In every sequential run of an engine under a clock that
does not go back, and in which no sum is rounded, every success comes before the idle deadline of the
live record of its family, if the window of a retry is shorter than the idle lifetime, or the absolute
lifetime is no longer than it. With lifetimes short enough for such a run it is so only then. -/
theorem idle_respected_iff (H : HmacSha256) (e : NebulaEngine) :
    (e.reuseGrace < e.idleTtl ∨ e.absoluteTtl ≤ e.idleTtl → IdleRespected H e ExactSums) ∧
    (e.absoluteTtl ≤ 2 ^ 53 → 2 * e.idleTtl ≤ 2 ^ 53 → IdleRespected H e ExactSums →
      e.reuseGrace < e.idleTtl ∨ e.absoluteTtl ≤ e.idleTtl) := by
  refine ⟨idle_respected, fun hsmall htwice h => ?_⟩
  by_contra hno
  rw [not_or, not_lt, not_le] at hno
  exact bypass hno.1 hno.2 hsmall htwice h

end NebulaToken.Safety.IdleDeadline
