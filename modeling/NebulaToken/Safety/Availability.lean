import NebulaToken.Engine.Binding
import NebulaToken.Runs.Alone
import NebulaToken.Runs.Execution
import NebulaToken.Safety.WireForm

/-! # Availability

One client logs in and refreshes again and again, each time with the token it was given last and its
device, before the deadlines it was told. Between its calls come calls that prove no row of its family
and revoke neither it nor its user, collections at times that have passed, and new configurations that
still have the pepper of its record.

* `never_locked_out`: each of its refreshes succeeds. -/

namespace NebulaToken.Safety.Availability

open NebulaToken.Lib.KeyedTable NebulaToken.Lib.Transition NebulaToken.Token.Unicode
open NebulaToken.Token.Wire NebulaToken.Engine.Records NebulaToken.Engine.Config
open NebulaToken.Engine.Operations NebulaToken.Engine.Binding NebulaToken.Runs.Calls
open NebulaToken.Runs.Sequential NebulaToken.Runs.Alone NebulaToken.Runs.Execution
open NebulaToken.Safety.WireForm NebulaToken.Store.Contract
open NebulaToken.Store.Memory NebulaToken.Store.Memory.MemoryRefreshTokenStore

/-! ### The runs -/

/-- A client that is logged in: its device, what the login returned, the engine that minted its token,
the token and its idle deadline as they were returned last, and how often it has refreshed. -/
structure Client where
  device : Option Str
  issued : IssueResult
  engine : NebulaEngine
  token : Str
  idleExpiresAt : ℤ
  refreshes : ℕ

/-- The rows, the current time, and the client, once it has logged in. -/
structure ClientState where
  rows : Rows
  clock : ℤ
  client : Option Client

inductive ClientEvent
  | login (c : IssueCall)
  | refresh (engine : NebulaEngine) (now : ℤ) (draw : Draw)
  | other (op : Operation)
  | collect (t now : ℤ)

/-- The client after its login. -/
def loggedIn (c : IssueCall) : Option (Except NebulaConfigError IssueResult) → Option Client
  | some (.ok x) => some {
      device := c.deviceId
      issued := x
      engine := c.engine
      token := x.token
      idleExpiresAt := x.idleExpiresAt
      refreshes := 0 }
  | _ => none

/-- The client after a refresh: it keeps its old token if it was given no other. -/
def Client.answered (cl : Client) (engine : NebulaEngine) :
    Option (Except NebulaConfigError RefreshResult) → Client
  | some (.ok (.ok x)) =>
    { cl with engine, token := x.token, idleExpiresAt := x.idleExpiresAt, refreshes := cl.refreshes + 1 }
  | _ => { cl with refreshes := cl.refreshes + 1 }

/-- The refresh of the client. -/
def Client.presents (cl : Client) (engine : NebulaEngine) (now : ℤ) (draw : Draw) : RefreshCall where
  engine
  token := cl.token
  deviceId := cl.device
  now
  draw

/-- The call proves no row of the client's family, and revokes neither the family nor its user. -/
def Elsewhere (H : HmacSha256) (rows : Rows) (cl : Client) : Operation → Prop
  | .issue c => c.draw.familyId ≠ cl.issued.familyId
  | .refresh c => ∀ r, Passes H c.engine rows c.token r → r.familyId ≠ cl.issued.familyId
  | .revokeToken e token => ∀ r, Passes H e rows token r → r.familyId ≠ cl.issued.familyId
  | .revokeFamily familyId => familyId ≠ cl.issued.familyId
  | .revokeAllForUser userId => userId ≠ cl.issued.userId

/-- When the client may refresh: in time, before its deadlines, with an engine that still has the pepper
of its record, and drawing a selector that is new. -/
structure InTime (s : ClientState) (cl : Client) (engine : NebulaEngine) (now : ℤ) (draw : Draw) :
    Prop where
  clock : s.clock ≤ now
  idle : now < cl.idleExpiresAt
  absolute : now < cl.issued.expiresAt
  pepper : engine.peppers.get cl.engine.activeKid = some cl.engine.activePepper
  draw : s.rows.get draw.selectorText = none

/-- **The runs of one client**, and of everybody else. -/
def clientRuns (H : HmacSha256) : System ClientState ClientEvent where
  init s := s.rows = Table.empty ∧ s.client = none
  step s l s' :=
    match l with
    | .login c => s.client = none ∧ s.clock ≤ c.now ∧
        s' = ⟨(run (issue H c.engine c.userId c.deviceId c.now c.draw) s.rows).2, c.now,
          loggedIn c (run (issue H c.engine c.userId c.deviceId c.now c.draw) s.rows).1⟩
    | .refresh engine now draw => ∃ cl, s.client = some cl ∧ InTime s cl engine now draw ∧
        s' = ⟨(run (refresh H engine cl.token cl.device now draw) s.rows).2, now,
          some (cl.answered engine (run (refresh H engine cl.token cl.device now draw) s.rows).1)⟩
    | .other op => (∀ cl, s.client = some cl → Elsewhere H s.rows cl op) ∧
        s' = ⟨(run (code H op) s.rows).2, s.clock, s.client⟩
    | .collect t now => s.clock ≤ now ∧ t ≤ now ∧ s' = ⟨deleteExpired s.rows t, now, s.client⟩

/-! ### The invariant -/

/-- `row` is the record of the client's token, which was minted from `d`. -/
structure Live (H : HmacSha256) (look : Str → Option TokenRecord) (cl : Client) (row : TokenRecord)
    (d : Draw) : Prop where
  found : look row.selector = some row
  selector : row.selector = d.selectorText
  token : cl.token = mintToken cl.engine d
  kid : row.kid = cl.engine.activeKid
  hash : row.verifierHash = hashVerifier H cl.engine.activePepper d.verifier
  device : Bound H cl.engine.activePepper cl.device row.deviceIdHash
  active : row.status = .active
  familyId : row.familyId = cl.issued.familyId
  userId : row.userId = cl.issued.userId
  generation : row.generation = cl.refreshes
  deadline : row.familyExpiresAt = cl.issued.expiresAt
  idle : row.idleExpiresAt = cl.idleExpiresAt

/-- **Between calls the record of the client is live**, until its family deadline has passed. -/
structure Served (H : HmacSha256) (s : ClientState) : Prop where
  grouped : Grouped s.rows.get
  live : ∀ cl, s.client = some cl → cl.issued.expiresAt ≤ s.clock ∨ ∃ row d, Live H s.rows.get cl row d

variable {H : HmacSha256} {s s' : ClientState} {cl : Client} {row : TokenRecord} {d : Draw}
  {look look' : Str → Option TokenRecord}

theorem Live.proves (h : Live H look cl row d) {e : NebulaEngine} (now : ℤ) (draw : Draw)
    (hpep : e.peppers.get cl.engine.activeKid = some cl.engine.activePepper) :
    Proves H (cl.presents e now draw) row.selector row cl.engine.activePepper :=
  proves_minted h.token h.selector h.kid h.hash hpep

/-- The record of the client survives what leaves its row as it is. -/
theorem Live.congr (h : Live H look cl row d) (hrow : look' row.selector = some row) :
    Live H look' cl row d := { h with found := hrow }

/-! ### The steps -/

/-- **A refresh of the client succeeds**, and its successor is live. -/
theorem refresh_served {e : NebulaEngine} {now : ℤ} {draw : Draw} (h : Live H s.rows.get cl row d)
    (ht : InTime s cl e now draw) :
    ∃ n rows', Mints H (cl.presents e now draw) row n ∧
      run (refresh H e cl.token cl.device now draw) s.rows =
        (some (.ok (.ok (success (cl.presents e now draw) row n))), rows') ∧
      Live H rows'.get (cl.answered e
        (some (.ok (.ok (success (cl.presents e now draw) row n))))) n draw := by
  have hdev := h.device.accepts
  obtain ⟨n, rows', hn, hrun, hrows⟩ := run_fresh (c := cl.presents e now draw) (h.proves now draw ht.pepper)
    h.found h.active (by rw [h.deadline]; exact ht.absolute) (by rw [h.idle]; exact ht.idle) hdev ht.draw
  refine ⟨n, rows', hn, hrun, ?_⟩
  obtain ⟨hash, hm, rfl⟩ := hn
  have hne : draw.selectorText ≠ row.selector := fun he => by
    have hnone := ht.draw
    rw [he, h.found] at hnone
    cases hnone
  refine ⟨?_, rfl, rfl, rfl, rfl, h.device.migrates hm, rfl, h.familyId, h.userId, ?_,
    h.deadline, rfl⟩
  · rw [hrows]
    exact (Function.update_of_ne hne _ _).trans (Function.update_self _ _ _)
  · exact congrArg (· + 1) h.generation

/-- **A call elsewhere leaves the record of the client as it is.** -/
theorem spared {op : Operation} (hG : Grouped s.rows.get) (h : Live H s.rows.get cl row d)
    (hop : Elsewhere H s.rows cl op) :
    (run (code H op) s.rows).2.get row.selector = some row := by
  have hfam : ∀ {r : TokenRecord}, r.familyId ≠ cl.issued.familyId → ¬ InFamily r.familyId row :=
    fun hne he => hne (he.symm.trans h.familyId)
  cases op with
  | issue c =>
    show (run (_ <$> _) s.rows).2.get row.selector = some row
    rw [run_map]
    rcases issue_done c s.rows with hsame | ⟨n, -, hnone, hupd⟩
    · rw [hsame, h.found]
    · dsimp only
      rw [hupd, Function.update_of_ne, h.found]
      intro he
      rw [← he, h.found] at hnone
      cases hnone
  | refresh c =>
    show (run (_ <$> _) s.rows).2.get row.selector = some row
    rw [run_map]
    have hdone := refresh_done (H := H) (c := c) hG
    dsimp only
    generalize run (refresh H c.engine c.token c.deviceId c.now c.draw) s.rows = x at hdone ⊢
    obtain ⟨out, rows'⟩ := x
    dsimp only at hdone ⊢
    cases hdone with
    | quiet hsame => rw [hsame, h.found]
    | revoked hp hr ho hrev =>
      obtain ⟨parsed, hparse, rfl, hv⟩ := hp
      exact revokesSome_outside hrev h.found (hfam (hop _ ⟨parsed, _, hparse, hr, hv⟩))
    | @rotated sel pepper r n t rows₁ _ hp hr hn habs hrev hr₁ hnone hrows =>
      obtain ⟨parsed, hparse, rfl, hv⟩ := hp
      have hout := hfam (hop _ ⟨parsed, _, hparse, hr, hv⟩)
      have h₁ := revokesSome_outside hrev h.found hout
      rw [hrows]
      refine replaced_outside h₁ (fun he => hout ?_) hnone
      rw [he, hr₁] at h₁
      rw [Option.some.inj h₁]
      rfl
  | revokeToken e token =>
    show (run (_ <$> _) s.rows).2.get row.selector = some row
    rw [run_map]
    rcases revokeToken_done e token s.rows with hsame | ⟨parsed, r, pepper, hparse, hr, hv, hrev⟩
    · rw [hsame, h.found]
    · exact revokesSome_outside hrev h.found (hfam (hop r ⟨parsed, pepper, hparse, hr, hv⟩))
  | revokeFamily familyId =>
    have hrev := @StoreContract.revokeFamily _ _ _ memoryStore 0 familyId s.rows _ _ rfl
    exact revokesSome_outside hrev h.found fun hc => hop (hc.symm.trans h.familyId)
  | revokeAllForUser userId =>
    have hrev := @StoreContract.revokeUser _ _ _ memoryStore 0 userId s.rows _ _ rfl
    exact revokesSome_outside hrev h.found fun hc => hop (hc.symm.trans h.userId)

/-- The first record of the client is live. -/
theorem login_live {c : IssueCall} {rows : Rows}
    (h : loggedIn c (run (issue H c.engine c.userId c.deviceId c.now c.draw) rows).1 = some cl) :
    ∃ row d, Live H (run (issue H c.engine c.userId c.deviceId c.now c.draw) rows).2.get cl row d := by
  cases hb : bindDevice H c.engine c.deviceId with
  | error err =>
    have hrun : run (issue H c.engine c.userId c.deviceId c.now c.draw) rows =
        (some (.error err), rows) := by
      unfold issue
      rw [hb]
      rfl
    rw [hrun] at h
    cases h
  | ok hash =>
    cases hnone : rows.get c.draw.selectorText with
    | some r =>
      have hrun : run (issue H c.engine c.userId c.deviceId c.now c.draw) rows = (none, rows) := by
        unfold issue
        rw [hb]
        refine NebulaToken.Lib.Program.Prog.eval_call_none _ ?_
        show (insert rows _).map _ = none
        rw [MemoryRefreshTokenStore.insert]
        show (if (rows.get c.draw.selectorText).isSome then none else _).map _ = _
        rw [hnone]
        rfl
      rw [hrun] at h
      cases h
    | none =>
      obtain ⟨n, ⟨hash', hb', rfl⟩, hrun⟩ := run_issue rows hb hnone
      rw [hrun] at h ⊢
      obtain rfl := Option.some.inj h
      exact ⟨_, c.draw.toDraw, Table.get_set_self _ _ _, rfl, rfl, rfl, rfl, bindDevice_iff.mp hb', rfl, rfl, rfl, rfl, rfl,
        rfl⟩

theorem Served.step {l : ClientEvent} (hI : Served H s) (hs : (clientRuns H).step s l s') :
    Served H s' := by
  cases l with
  | login c =>
    obtain ⟨-, -, rfl⟩ := hs
    refine ⟨?_, fun cl hcl => Or.inr (login_live hcl)⟩
    have hG := hI.grouped.call (H := H) (.issue c)
    change Grouped (run (_ <$> _) s.rows).2.get at hG
    rw [run_map] at hG
    exact hG
  | refresh e now draw =>
    obtain ⟨cl, hcl, ht, rfl⟩ := hs
    refine ⟨(refresh_done (H := H) (c := cl.presents e now draw) hI.grouped).grouped hI.grouped,
      fun cl' hcl' => Or.inr ?_⟩
    rcases hI.live cl hcl with hlate | ⟨row, d, hlive⟩
    · exact absurd (hlate.trans ht.clock) (not_le.mpr ht.absolute)
    · obtain ⟨n, rows', -, hrun, hlive'⟩ := refresh_served hlive ht
      rw [hrun] at hcl' ⊢
      obtain rfl := Option.some.inj hcl'
      exact ⟨n, draw, hlive'⟩
  | other op =>
    obtain ⟨hop, rfl⟩ := hs
    refine ⟨hI.grouped.call op, fun cl hcl => ?_⟩
    rcases hI.live cl hcl with hlate | ⟨row, d, hlive⟩
    · exact Or.inl hlate
    · exact Or.inr ⟨row, d, hlive.congr (spared hI.grouped hlive (hop cl hcl))⟩
  | collect t now =>
    obtain ⟨hclock, ht, rfl⟩ := hs
    have hget : ∀ sel, (deleteExpired s.rows t).get sel =
        (s.rows.get sel).filter fun r => !decide (t ≥ r.familyExpiresAt) := fun sel =>
      Table.get_filter _ _ sel
    refine ⟨?_, fun cl hcl => ?_⟩
    · obtain ⟨now', h⟩ := memoryStore.env t s.rows
      exact hI.grouped.collect h
    · rcases hI.live cl hcl with hlate | ⟨row, d, hlive⟩
      · exact Or.inl (hlate.trans hclock)
      · by_cases hexp : t ≥ row.familyExpiresAt
        · refine Or.inl ?_
          rw [← hlive.deadline]
          exact hexp.trans ht
        · refine Or.inr ⟨row, d, hlive.congr ?_⟩
          dsimp only
          rw [hget, hlive.found, Option.filter_some, if_pos]
          rw [decide_eq_false hexp]
          rfl

theorem served (h : (clientRuns H).Reachable s) : Served H s := by
  refine h.invariant (I := Served H) (fun s hs => ?_) fun s l s' _ hI hs => hI.step hs
  refine ⟨?_, fun cl hcl => ?_⟩
  · rw [hs.1]
    exact .empty
  · rw [hs.2] at hcl
    cases hcl

/-- **An honest client is never locked out.** In every run of it and of everybody else, every refresh it
makes succeeds: the one after `k` others with the generation `k + 1`, the family, the user and the
deadline of its login, and a token that parses and proves the record that was stored for it. -/
theorem never_locked_out {e : NebulaEngine} {now : ℤ} {draw : Draw} (hs : (clientRuns H).Reachable s)
    (hcl : s.client = some cl) (hstep : (clientRuns H).step s (.refresh e now draw) s') :
    ∃ x n, run (refresh H e cl.token cl.device now draw) s.rows = (some (.ok (.ok x)), s'.rows) ∧
      x.generation = cl.refreshes + 1 ∧ x.familyId = cl.issued.familyId ∧
      x.userId = cl.issued.userId ∧ x.expiresAt = cl.issued.expiresAt ∧
      n.generation = cl.refreshes + 1 ∧ n.status = .active ∧ Passes H e s'.rows x.token n := by
  obtain ⟨cl', hcl', ht, rfl⟩ := hstep
  obtain rfl := Option.some.inj (hcl.symm.trans hcl')
  rcases (served hs).live cl hcl with hlate | ⟨row, d, hlive⟩
  · exact absurd (hlate.trans ht.clock) (not_le.mpr ht.absolute)
  · obtain ⟨n, rows', hn, hrun, hlive'⟩ := refresh_served hlive ht
    obtain ⟨parsed, hparse, hsel, hv⟩ := hlive'.proves now draw e.get_activeKid
    rw [hrun]
    refine ⟨_, n, rfl, ?_, hlive.familyId, hlive.userId, ?_, hlive'.generation, hlive'.active, parsed,
      e.activePepper, hparse, hsel ▸ hlive'.found, hv⟩
    · exact hlive'.generation
    · exact hlive'.deadline

/-- The client after its login at time 1000. -/
def sampleClient : Client where
  device := none
  issued := issued (sampleLogin 0 0) (sampleRow 0 0)
  engine := sampleEngine 0
  token := sampleToken 0 0
  idleExpiresAt := 1100
  refreshes := 0

theorem never_locked_out_sample :
    ∃ s s' : ClientState, s.client = some sampleClient ∧
      (clientRuns sampleHmac).step s (.refresh (sampleEngine 0) 1010 (sampleDraw 1)) s' ∧
      ∃ x n, run (refresh sampleHmac (sampleEngine 0) (sampleToken 0 0) none 1010 (sampleDraw 1))
        s.rows = (some (.ok (.ok x)), s'.rows) ∧ x.generation = 1 ∧ n.status = .active ∧
        Passes sampleHmac (sampleEngine 0) s'.rows x.token n := by
  have hs : (clientRuns sampleHmac).Reachable
      ⟨Table.empty.set (sampleRow 0 0).selector (sampleRow 0 0), 1000, some sampleClient⟩ :=
    .step (.init (s := ⟨Table.empty, 1000, none⟩) ⟨rfl, rfl⟩) (l := .login (sampleLogin 0 0))
      ⟨rfl, le_rfl, rfl⟩
  have hstep : (clientRuns sampleHmac).step
      ⟨Table.empty.set (sampleRow 0 0).selector (sampleRow 0 0), 1000, some sampleClient⟩
      (.refresh (sampleEngine 0) 1010 (sampleDraw 1)) _ :=
    ⟨sampleClient, rfl, ⟨by decide, by decide, by decide, rfl, by decide⟩, rfl⟩
  obtain ⟨x, n, hrun, hgen, -, -, -, -, hact, hp⟩ := never_locked_out hs rfl hstep
  exact ⟨_, _, rfl, hstep, x, n, hrun, hgen, hact, hp⟩

end NebulaToken.Safety.Availability
