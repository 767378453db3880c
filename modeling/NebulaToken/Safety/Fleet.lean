import NebulaToken.Ports.Agreement
import NebulaToken.Ports.CodeUnitPorts
import NebulaToken.Safety.Failures

/-! # A mixed fleet

Engines in several languages share one store. A call of any of them is, on the strings of its language,
the call of the reference on the texts they stand for; so what the engines of the fleet do together is
what engines of one language could have done.

* `fleetCode_eq`: each call, as a program;
* `one_fleet`: a run of the fleet is a run of the reference, and a token is exchanged once in it. -/

namespace NebulaToken.Safety.Fleet

open NebulaToken.Lib.Program NebulaToken.Lib.Pool NebulaToken.Lib.Transition
open NebulaToken.Token.Unicode NebulaToken.Token.Wire NebulaToken.Engine.Records
open NebulaToken.Engine.Config NebulaToken.Engine.Operations NebulaToken.Runs.Calls
open NebulaToken.Runs.History NebulaToken.Runs.Provenance NebulaToken.Runs.Assumptions
open NebulaToken.Runs.Families NebulaToken.Runs.Execution NebulaToken.Ports.Platforms
open NebulaToken.Ports.CodeUnitPorts NebulaToken.Ports.Agreement NebulaToken.Store.Contract
open NebulaToken.Store.Memory
open NebulaToken.Safety.Failures (winner_unique)

/-! ### The engines -/

/-- The ports whose strings need not be Unicode. Their base64 decoders may be strict or not, and the one in
Dart has its package. -/
inductive WidePort
  | java (strict : Bool)
  | csharp (strict : Bool)
  | dart (C : Dart.Crypto) (hC : C.Documented) (strict : Bool)

namespace WidePort

/-- The strings of the language. -/
def Text : WidePort → Type
  | .java _ | .csharp _ | .dart .. => Str

def platform (H : HmacSha256) : (p : WidePort) → Platform p.Text
  | .java strict => Java.platform H strict
  | .csharp strict => CSharp.platform H strict
  | .dart C _ strict => Dart.platform H C strict

/-- The text that a string stands for. -/
def reading : (p : WidePort) → p.Text → Str
  | .java _ | .csharp _ | .dart .. => id

theorem faithful (H : HmacSha256) (p : WidePort) : (p.platform H).Faithful H p.reading := by
  cases p with
  | java strict => exact Java.faithful H strict
  | csharp strict => exact CSharp.faithful H strict
  | dart C hC strict => exact Dart.faithful H hC strict

end WidePort

/-- A call of an engine of the fleet. In TypeScript, Rust, Elixir and Ruby the devices are texts. -/
inductive FleetCall
  | narrow (p : Port) (hp : p.Documented) (op : Operation) (h : Portable op)
  | issue (p : WidePort) (engine : NebulaEngine) (userId : Str) (deviceId : Option p.Text) (now : ℤ)
      (draw : IssueDraw)
  | refresh (p : WidePort) (engine : NebulaEngine) (token : p.Text) (deviceId : Option p.Text) (now : ℤ)
      (draw : Draw)
  | revokeToken (p : WidePort) (engine : NebulaEngine) (token : p.Text)
  | revokeFamily (familyId : Str)
  | revokeAllForUser (userId : Str)

/-- The reference's call on the texts that the strings stand for. -/
def FleetCall.reads : FleetCall → Operation
  | .narrow _ _ op _ => op
  | .issue p engine userId deviceId now draw =>
    .issue { engine, userId, deviceId := deviceId.map p.reading, now, draw }
  | .refresh p engine token deviceId now draw =>
    .refresh { engine, token := p.reading token, deviceId := deviceId.map p.reading, now, draw }
  | .revokeToken p engine token => .revokeToken engine (p.reading token)
  | .revokeFamily familyId => .revokeFamily familyId
  | .revokeAllForUser userId => .revokeAllForUser userId

/-- The program of a call, by the engine that runs it. -/
def fleetCode (H : HmacSha256) : FleetCall → StoreM Outcome
  | .narrow p _ op _ => p.code H op
  | .issue p engine userId deviceId now draw =>
    .issued <$> (p.platform H).issue engine userId deviceId now draw
  | .refresh p engine token deviceId now draw =>
    .refreshed <$> (p.platform H).refresh engine token deviceId now draw
  | .revokeToken p engine token => .revoked <$> (p.platform H).revokeToken engine token
  | .revokeFamily familyId => .count <$> store (.revokeFamily familyId)
  | .revokeAllForUser userId => .count <$> store (.revokeUser userId)

/-- **A call of the fleet is the program of the call it stands for.** -/
theorem fleetCode_eq (H : HmacSha256) (x : FleetCall) : fleetCode H x = code H x.reads := by
  cases x with
  | narrow p hp op h => exact Port.code_eq hp h
  | issue p engine userId deviceId now draw =>
    exact congrArg (fun m => Outcome.issued <$> m) (Platform.issue_eq (p.faithful H) userId deviceId now draw)
  | refresh p engine token deviceId now draw =>
    exact congrArg (fun m => Outcome.refreshed <$> m)
      (Platform.refresh_eq (p.faithful H) token deviceId now draw)
  | revokeToken p engine token =>
    exact congrArg (fun m => Outcome.revoked <$> m) (Platform.revokeToken_eq (p.faithful H) token)
  | revokeFamily familyId => rfl
  | revokeAllForUser userId => rfl

/-! ### Their runs -/

variable {σ Env : Type}

abbrev FleetState (σ : Type) := State σ FleetCall StoreCall StoreCall.Reply NebulaConfigError Outcome

abbrev FleetThread := Thread FleetCall StoreCall StoreCall.Reply NebulaConfigError Outcome

abbrev FleetLabel (Env : Type) := Label FleetCall StoreCall StoreCall.Reply Env

/-- Calls of any engines of the fleet over one store. -/
abbrev fleet (H : HmacSha256) (svc : StoreService σ Env) : System (FleetState σ) (FleetLabel Env) :=
  pool (fleetCode H) svc

/-- An assumption on the calls that the fleet's stand for. -/
def Read (G : PoolState σ → PoolLabel Env → Prop) (s : FleetState σ) (l : FleetLabel Env) : Prop :=
  G (s.rename FleetCall.reads) (l.rename FleetCall.reads)

section Facts

variable {H : HmacSha256} {svc : StoreService σ Env} {s : FleetState σ}
  {th : FleetThread} {i : ℕ}

theorem fleet_reachable {G : PoolState σ → PoolLabel Env → Prop}
    (h : ((fleet H svc).under (Read G)).Reachable s) :
    ((engines H svc).under G).Reachable (s.rename FleetCall.reads) := rename_reachable (fleetCode_eq H) h

theorem opAt_reads (hi : s.threads[i]? = some th) {op : Operation} (h : th.op.reads = op) :
    OpAt (s.rename FleetCall.reads) i op := ⟨_, State.rename_getElem? hi, h⟩

theorem succeeded_reads (hi : s.threads[i]? = some th) {x : RefreshSuccess}
    (h : th.result = some (.refreshed (.ok x))) : Succeeded (s.rename FleetCall.reads) i x :=
  ⟨_, State.rename_getElem? hi, h⟩

/-- **A mixed fleet is one deployment.** Under any assumption on the texts of the calls, a run of the
fleet is a run of the reference: with the same store, and with the same requests, replies and results in
each call. So over every store that keeps the contract, with fresh draws, of the calls that present one
token to engines without a grace window, in whatever languages, at most one succeeds; and it does so
before the deadline that the login of its family has fixed, in whatever language. -/
theorem one_fleet (H : HmacSha256) (C : StoreContract svc) :
    (∀ (G : PoolState σ → PoolLabel Env → Prop) (s : FleetState σ),
      ((fleet H svc).under (Read G)).Reachable s →
      ((engines H svc).under G).Reachable (s.rename FleetCall.reads)) ∧
    ∀ s : FleetState σ, ((fleet H svc).under (Read FreshDraws)).Reachable s →
      ∀ (i : ℕ) (th : FleetThread) (c : RefreshCall) (x : RefreshSuccess),
        s.threads[i]? = some th → th.op.reads = .refresh c →
        th.result = some (.refreshed (.ok x)) →
        (∃ (j : ℕ) (th₀ : FleetThread) (c₀ : IssueCall),
          s.threads[j]? = some th₀ ∧ th₀.op.reads = .issue c₀ ∧
          x.familyId = c₀.draw.familyId ∧ x.userId = c₀.userId ∧
          x.expiresAt = c₀.now + c₀.engine.absoluteTtl ∧ c.now < x.expiresAt) ∧
        ∀ (j : ℕ) (th' : FleetThread) (c' : RefreshCall) (y : RefreshSuccess),
          s.threads[j]? = some th' → th'.op.reads = .refresh c' →
          th'.result = some (.refreshed (.ok y)) → c.engine.reuseGrace = 0 →
          c'.engine.reuseGrace = 0 → c.token = c'.token → i = j := by
  refine ⟨fun G s h => fleet_reachable h, fun s h i th c x hi hop hx => ⟨?_, ?_⟩⟩
  · have hr := noReinsert_of_freshDraws (fleet_reachable h)
    obtain ⟨c', j, c₀, hop', ⟨th₀, hj, hop₀⟩, hsucc⟩ :=
      success_before_deadline C hr (succeeded_reads hi hx)
    obtain rfl := Operation.refresh.inj (hop'.unique (opAt_reads hi hop))
    obtain ⟨th₁, hth₁, rfl⟩ := List.mem_map.mp (mem_of_getElem? hj)
    obtain ⟨k, hk⟩ := List.mem_iff_getElem?.mp hth₁
    exact ⟨k, th₁, c₀, hk, hop₀, hsucc⟩
  · intro j th' c' y hj hop' hy hc hc' htok
    exact winner_unique C (noReinsert_of_freshDraws (fleet_reachable h)) (opAt_reads hi hop)
      (opAt_reads hj hop') hc hc' htok (succeeded_reads hi hx) (succeeded_reads hj hy)

end Facts

/-- The package as it is. -/
def crypto : Dart.Crypto := ⟨Lib.Codec.hexEncode⟩

theorem crypto_documented : crypto.Documented := fun _ => rfl

/-- A login in Java. Its token is presented in C# and in Dart, and the lookups of both come first; the
call in C# rotates, and the one in Dart loses. -/
def mixed : List (Act FleetCall ℤ) := [
  .invoke (.issue (.java false) (sampleEngine 0) (ascii ['u']) none 1000 (sampleLogin 0 0).draw),
  .go 0, .stop 0 .returned,
  .invoke (.refresh (.csharp true) (sampleEngine 0) (sampleToken 0 0) none 1010 (sampleDraw 1)),
  .invoke (.refresh (.dart crypto crypto_documented true) (sampleEngine 0) (sampleToken 0 0) none 1010
    (sampleDraw 2)),
  .go 1, .go 2, .go 1, .go 1, .stop 1 .returned, .go 2, .go 2, .go 2, .stop 2 .returned]

/-- The schedule, played with the programs the calls stand for. -/
def mixedState : FleetState Rows :=
  (play (fun x => code sampleHmac x.reads) memory (fun _ _ _ => none)
    (fun s l => freshDrawsCheck (s.rename FleetCall.reads) (l.rename FleetCall.reads))
    ⟨memory.start, []⟩ mixed).get (by decide)

theorem one_fleet_sample : ∃ (th : FleetThread) (x : RefreshSuccess),
    mixedState.threads[1]? = some th ∧ th.result = some (.refreshed (.ok x)) ∧
    (∃ (j : ℕ) (th₀ : FleetThread) (c₀ : IssueCall), mixedState.threads[j]? = some th₀ ∧
      th₀.op.reads = .issue c₀ ∧ x.expiresAt = c₀.now + c₀.engine.absoluteTtl) ∧
    ∀ (th' : FleetThread) (y : RefreshSuccess), mixedState.threads[2]? = some th' →
      th'.op.reads = sampleRefresh 0 0 2 1010 → th'.result ≠ some (.refreshed (.ok y)) := by
  have hcode : fleetCode sampleHmac = fun x => code sampleHmac x.reads := funext (fleetCode_eq sampleHmac)
  have hs : ((fleet sampleHmac memory).under (Read FreshDraws)).Reachable mixedState := by
    rw [fleet, hcode]
    exact play_reachable (fun _ _ _ _ hw => by cases hw) (fun _ _ h => freshDraws_of_check h)
      (Option.some_get _).symm
  obtain ⟨th, x, hi, hop, hx⟩ : ∃ (th : FleetThread) (x : RefreshSuccess),
      mixedState.threads[1]? = some th ∧ th.op.reads = sampleRefresh 0 0 1 1010 ∧
      th.result = some (.refreshed (.ok x)) := ⟨_, _, rfl, rfl, rfl⟩
  have h := (one_fleet sampleHmac memoryStore).2 mixedState hs 1 th _ x hi hop hx
  obtain ⟨j, th₀, c₀, hj, hop₀, -, -, hexp, -⟩ := h.1
  refine ⟨th, x, hi, hx, ⟨j, th₀, c₀, hj, hop₀, hexp⟩, fun th' y hj' hop' hy => ?_⟩
  exact absurd (h.2 2 th' _ y hj' hop' hy rfl rfl rfl) (by decide)

end NebulaToken.Safety.Fleet
