import NebulaToken.Runs.Families
import NebulaToken.Store.Memory

/-! # Executable runs of the engines

The assumptions on runs are decidable, so that a schedule can be played against the reference store
and is then a run under them. The digests of the sample platform are those of HMAC-SHA-256 for the
pepper of the conformance vectors. -/

namespace NebulaToken.Runs.Execution

open NebulaToken.Lib.Pool NebulaToken.Lib.Transition NebulaToken.Token.Unicode
open NebulaToken.Token.Wire NebulaToken.Engine.Records NebulaToken.Engine.Config
open NebulaToken.Engine.Operations NebulaToken.Runs.Calls NebulaToken.Runs.History
open NebulaToken.Runs.Provenance NebulaToken.Runs.Assumptions NebulaToken.Runs.Families
open NebulaToken.Store.Memory

section Checks

variable {σ Env : Type}

def noReinsertCheck (s : PoolState σ) (l : PoolLabel Env) : Bool :=
  match l with
  | .answer _ ⟨.insert n, _⟩ => s.threads.all fun th => th.trace.all fun ev =>
      match ev.req with
      | .insert n' => n'.selector != n.selector
      | _ => true
  | _ => true

def freshDrawsCheck (s : PoolState σ) (l : PoolLabel Env) : Bool :=
  match l with
  | .invoke op => s.threads.all fun th =>
      (drawn op).all (fun d => drawn th.op != some d) &&
        (drawnFamily op).all fun f => drawnFamily th.op != some f
  | _ => true

/-- Whether the call proves the verifier of `r`. -/
def provesCheck (H : HmacSha256) (c : RefreshCall) (r : TokenRecord) : Bool :=
  match parseConfigured c.engine c.token with
  | .error _ => false
  | .ok parsed =>
    match proveVerifier H c.engine r parsed with
    | .error _ => false
    | .ok _ => true

def returnedCheck (s : PoolState σ) (sel : Str) : Bool :=
  s.threads.any fun th => drawn th.op == some sel &&
    th.result.any fun x => (Outcome.token? x).isSome

def secretTokensCheck (H : HmacSha256) (s : PoolState σ) (l : PoolLabel Env) : Bool :=
  match l with
  | .answer i ⟨.findBySelector _, some r⟩ =>
    match s.threads[i]? with
    | some ⟨.refresh c, [], _, _⟩ => !provesCheck H c r || returnedCheck s r.selector
    | _ => true
  | _ => true

theorem noReinsert_of_check {s : PoolState σ} {l : PoolLabel Env} (h : noReinsertCheck s l = true) :
    NoReinsert s l := by
  rintro i n rfl ⟨j, n', ⟨th, hth, hev⟩, hsel⟩
  have hall := List.all_eq_true.mp (List.all_eq_true.mp h th (mem_of_getElem? hth)) _ hev
  simp [hsel] at hall

theorem freshDraws_of_check {s : PoolState σ} {l : PoolLabel Env} (h : freshDrawsCheck s l = true) :
    FreshDraws s l := by
  rintro op rfl th hth
  have hall := List.all_eq_true.mp h th hth
  rw [Bool.and_eq_true] at hall
  refine ⟨fun d hd => ?_, fun f hf => ?_⟩
  · rw [hd] at hall
    simpa using hall.1
  · rw [hf] at hall
    simpa using hall.2

theorem returned_of_check {s : PoolState σ} {sel : Str} (h : returnedCheck s sel = true) :
    Returned s sel := by
  obtain ⟨th, hth, hx⟩ := List.any_eq_true.mp h
  rw [Bool.and_eq_true, beq_iff_eq] at hx
  cases hres : th.result with
  | none =>
    rw [hres] at hx
    cases hx.2
  | some x =>
    rw [hres] at hx
    exact ⟨th, hth, hx.1, x, hres, hx.2⟩

theorem secretTokens_of_check {H : HmacSha256} {s : PoolState σ} {l : PoolLabel Env}
    (h : secretTokensCheck H s l = true) : SecretTokens H s l := by
  rintro i th c sel r pepper rfl hi hop htr ⟨parsed, hp, -, hv⟩
  obtain ⟨op, trace, prog, mode⟩ := th
  dsimp only at hop htr
  subst hop htr
  have hproves : provesCheck H c r = true := by
    unfold provesCheck
    rw [hp]
    dsimp only
    rw [hv]
  unfold secretTokensCheck at h
  dsimp only at h
  rw [hi] at h
  dsimp only at h
  rw [hproves] at h
  exact returned_of_check h

def honestCheck (H : HmacSha256) (s : PoolState σ) (l : PoolLabel Env) : Bool :=
  freshDrawsCheck s l && secretTokensCheck H s l

theorem honest_of_check {H : HmacSha256} {s : PoolState σ} {l : PoolLabel Env}
    (h : honestCheck H s l = true) : Honest H s l := by
  rw [honestCheck, Bool.and_eq_true] at h
  exact ⟨freshDraws_of_check h.1, secretTokens_of_check h.2⟩

end Checks

/-- A schedule played against the reference store. -/
def played (H : HmacSha256) (guard : PoolState Rows → PoolLabel ℤ → Bool)
    (xs : List (Act Operation ℤ)) : Option (PoolState Rows) :=
  play (code H) memory (fun _ _ _ => none) guard ⟨memory.start, []⟩ xs

/-- A schedule played on from a state. -/
def playedFrom (H : HmacSha256) (guard : PoolState Rows → PoolLabel ℤ → Bool) (s : PoolState Rows)
    (xs : List (Act Operation ℤ)) : Option (PoolState Rows) :=
  play (code H) memory (fun _ _ _ => none) guard s xs

section Played

variable {H : HmacSha256} {guard : PoolState Rows → PoolLabel ℤ → Bool}
  {G : PoolState Rows → PoolLabel ℤ → Prop} {xs : List (Act Operation ℤ)}

/-- **A schedule that plays ends in a reachable state.** -/
theorem played_reachable (hG : ∀ s l, guard s l = true → G s l) (h : (played H guard xs).isSome) :
    ((engines H memory).under G).Reachable ((played H guard xs).get h) :=
  play_reachable (fun _ _ _ _ hw => by cases hw) hG (Option.some_get h).symm

theorem playedFrom_run (hG : ∀ s l, guard s l = true → G s l) {s : PoolState Rows}
    (h : (playedFrom H guard s xs).isSome) :
    ((engines H memory).under G).Run s ((playedFrom H guard s xs).get h) :=
  play_run (fun _ _ _ _ hw => by cases hw) hG (Option.some_get h).symm

/-- One step of a schedule. -/
theorem step_of_act {s s' : PoolState Rows} {x : Act Operation ℤ} {l : PoolLabel ℤ}
    (h : act (code H) memory (fun _ _ _ => none) s x = some (l, s')) : Step (code H) memory s l s' :=
  act_step (fun _ _ _ _ hw => by cases hw) h

end Played

/-! ### Reading a played state -/

section Reading

variable {σ : Type} {s : PoolState σ} {i : ℕ}

theorem did_of_read {k : ℕ} {ev : StoreEvent}
    (h : (s.threads[i]?.bind fun th => th.trace[k]?) = some ev) : s.Did i ev := by
  obtain ⟨th, hi, hk⟩ := Option.bind_eq_some_iff.mp h
  exact ⟨th, hi, List.mem_of_getElem? hk⟩

theorem opAt_of_read {op : Operation} (h : (s.threads[i]?.map fun th => th.op) = some op) :
    OpAt s i op := Option.map_eq_some_iff.mp h

theorem succeeded_of_read {x : RefreshSuccess}
    (h : (s.threads[i]?.bind fun th => th.result) = some (.refreshed (.ok x))) : Succeeded s i x :=
  Option.bind_eq_some_iff.mp h

end Reading

/-! ### The sample platform -/

/-- `test-pepper-0123456789abcdef0123456789abcdef`, the pepper of the conformance vectors. -/
def samplePepper : Str :=
  ascii ['t', 'e', 's', 't', '-', 'p', 'e', 'p', 'p', 'e', 'r', '-',
    '0', '1', '2', '3', '4', '5', '6', '7', '8', '9', 'a', 'b', 'c', 'd', 'e', 'f',
    '0', '1', '2', '3', '4', '5', '6', '7', '8', '9', 'a', 'b', 'c', 'd', 'e', 'f']

/-- The digests, under the sample pepper, of 32 equal bytes. -/
def sampleDigests : List (UInt8 × List UInt8) := [
  (0, [51, 221, 255, 217, 87, 165, 6, 224, 58, 15, 255, 204, 203, 106, 125, 103,
    140, 234, 16, 114, 26, 154, 184, 190, 145, 204, 85, 72, 49, 203, 39, 14]),
  (1, [23, 176, 201, 38, 76, 254, 59, 252, 21, 168, 246, 53, 154, 141, 152, 151,
    185, 251, 81, 212, 210, 35, 158, 33, 105, 134, 107, 36, 9, 111, 145, 211]),
  (2, [118, 222, 85, 150, 175, 230, 181, 222, 181, 229, 229, 156, 121, 84, 135, 206,
    188, 13, 86, 140, 90, 27, 188, 190, 239, 173, 165, 11, 222, 107, 208, 151]),
  (3, [208, 60, 114, 225, 54, 63, 15, 23, 185, 20, 101, 61, 250, 186, 185, 93,
    116, 194, 170, 121, 167, 223, 220, 62, 51, 130, 205, 219, 8, 9, 199, 68])]

/-- HMAC-SHA-256 where the samples need it, and a constant elsewhere. -/
def sampleHmac : HmacSha256 where
  run key msg :=
    match sampleDigests.find? fun e => key = utf8 samplePepper ∧ msg = List.replicate 32 e.1 with
    | some e => if e.2.length = 32 then e.2 else List.replicate 32 0
    | none => List.replicate 32 0
  run_length key msg := by
    split
    · split_ifs with h
      · exact h
      · rfl
    · rfl

/-- `k1`. -/
def sampleKid : Str := ascii ['k', '1']

/-- An engine with the sample pepper, an absolute lifetime of 1000 and an idle lifetime of 100. -/
def sampleEngine (grace : ℕ) : NebulaEngine where
  peppers := ⟨[(sampleKid, samplePepper)], by simp⟩
  activeKid := sampleKid
  absoluteTtl := 1000
  idleTtl := 100
  reuseGrace := grace
  peppers_checked := by decide
  activeKid_present := by decide
  absoluteTtl_pos := rfl
  idleTtl_pos := rfl
  reuseGrace_nonneg := decide_eq_true (Int.natCast_nonneg grace)

theorem sampleEngine_absoluteTtl : decide (0 < (1000 : ℤ)) = true := rfl

theorem sampleEngine_idleTtl : decide (0 < (100 : ℤ)) = true := rfl

/-- The draw of the byte `b`. -/
def sampleDraw (b : UInt8) : Draw where
  selector := List.replicate 16 b
  verifier := List.replicate 32 b
  selector_length := List.length_replicate
  verifier_length := List.length_replicate

/-- The token of a draw. -/
def sampleToken (grace : ℕ) (b : UInt8) : Str := mintToken (sampleEngine grace) (sampleDraw b)

/-- A login at time 1000. -/
def sampleLogin (grace : ℕ) (b : UInt8) : IssueCall where
  engine := sampleEngine grace
  userId := ascii ['u']
  deviceId := none
  now := 1000
  draw := { sampleDraw b with
    family := List.replicate 16 b
    family_length := List.length_replicate }

def sampleIssue (grace : ℕ) (b : UInt8) : Operation := .issue (sampleLogin grace b)

/-- The token of the draw `a` presented at `now`, with the draw `b` for its successor. -/
def samplePresent (grace : ℕ) (a b : UInt8) (now : ℤ) : RefreshCall where
  engine := sampleEngine grace
  token := sampleToken grace a
  deviceId := none
  now
  draw := sampleDraw b

def sampleRefresh (grace : ℕ) (a b : UInt8) (now : ℤ) : Operation :=
  .refresh (samplePresent grace a b now)

/-- The record of a login. -/
def sampleRow (grace : ℕ) (b : UInt8) : TokenRecord :=
  mintRecord sampleHmac (sampleEngine grace) {
    userId := ascii ['u']
    familyId := (sampleLogin grace b).draw.familyId
    generation := 0
    deviceIdHash := none
    familyExpiresAt := 2000
    now := 1000 } (sampleDraw b)

/-- A played login has founded its family. -/
theorem founded_sample {σ : Type} {s : PoolState σ} {i grace : ℕ} {b : UInt8}
    (hop : (s.threads[i]?.map fun th => th.op) = some (sampleIssue grace b))
    (hev : (s.threads[i]?.bind fun th => th.trace[0]?) = some ⟨.insert (sampleRow grace b), ()⟩) :
    Founded sampleHmac s i (sampleLogin grace b) (sampleRow grace b) :=
  ⟨opAt_of_read hop, ⟨none, rfl, rfl⟩, did_of_read hev⟩

/-- The steps of call `i` up to its return: `n` answers. -/
def sampleSteps (i n : ℕ) : List (Act Operation ℤ) := List.replicate n (.go i) ++ [.stop i .returned]

/-- A login, a refresh abandoned between its insertion and its rotation, and a refresh that proves the
token of its successor, which nobody was given. -/
def forked : PoolState Rows :=
  (played sampleHmac (fun s l => freshDrawsCheck s l)
    (.invoke (sampleIssue 0 0) :: sampleSteps 0 1 ++
      [.invoke (sampleRefresh 0 0 1 1010), .go 1, .go 1, .stop 1 .abandoned] ++
      .invoke (sampleRefresh 0 1 2 1020) :: sampleSteps 2 3)).get (by decide)

theorem forked_reachable : ((engines sampleHmac memory).under FreshDraws).Reachable forked :=
  played_reachable (fun _ _ h => freshDraws_of_check h) _

end NebulaToken.Runs.Execution
