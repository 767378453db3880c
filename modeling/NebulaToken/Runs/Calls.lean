import NebulaToken.Engine.Operations
import NebulaToken.Lib.Pool

/-! # Calls and their program points

An operation of some engine, with what the host gives the call, and the program it runs. `RefreshAt`
lists the points a refresh can be at, each with the requests and replies that lead there: a refresh
rotates only with a `Ticket`, which says what it has read and done before its first write.

* `callAt_code`, `callAt_step`: a call is at one of its program points, and a reply takes it to another;
* `insert_request`, `mark_request`, `clear_request`: what a call has done before it makes a request. -/

namespace NebulaToken.Runs.Calls

open NebulaToken.Lib.Program NebulaToken.Lib.Pool NebulaToken.Token.Unicode NebulaToken.Token.Wire
open NebulaToken.Engine.Records NebulaToken.Engine.Config NebulaToken.Engine.Operations

/-- A request to the store and its reply. -/
abbrev StoreEvent := Event StoreCall StoreCall.Reply

structure IssueCall where
  engine : NebulaEngine
  userId : Str
  deviceId : Option Str
  now : ℤ
  draw : IssueDraw

structure RefreshCall where
  engine : NebulaEngine
  token : Str
  deviceId : Option Str
  now : ℤ
  draw : Draw

/-- The operations of the engines over one store. -/
inductive Operation
  | issue (c : IssueCall)
  | refresh (c : RefreshCall)
  | revokeToken (engine : NebulaEngine) (token : Str)
  | revokeFamily (familyId : Str)
  | revokeAllForUser (userId : Str)

/-- The engine a call is made of. -/
def engineOf : Operation → Option NebulaEngine
  | .issue c => some c.engine
  | .refresh c => some c.engine
  | .revokeToken e _ => some e
  | _ => none

inductive Outcome
  | issued (result : IssueResult)
  | refreshed (result : RefreshResult)
  | revoked (result : RevokeResult)
  | count (n : ℕ)
  deriving DecidableEq, Repr

variable (H : HmacSha256)

/-- The program of an operation. -/
def code : Operation → StoreM Outcome
  | .issue c => .issued <$> issue H c.engine c.userId c.deviceId c.now c.draw
  | .refresh c => .refreshed <$> refresh H c.engine c.token c.deviceId c.now c.draw
  | .revokeToken engine token => .revoked <$> revokeToken H engine token
  | .revokeFamily familyId => .count <$> revokeFamily familyId
  | .revokeAllForUser userId => .count <$> revokeAllForUser userId

/-! ### The points of a refresh -/

section Refresh

variable (c : RefreshCall)

/-- The call presents a token of selector `sel`, and `r` proves its verifier under `pepper`. -/
def Proves (sel : Str) (r : TokenRecord) (pepper : Str) : Prop :=
  ∃ parsed, parseConfigured c.engine c.token = .ok parsed ∧ parsed.selector = sel ∧
    proveVerifier H c.engine r parsed = .ok pepper

/-- The call presents a token of selector `sel`. -/
def Presents (sel : Str) : Prop := ∃ parsed, parseToken c.token = some parsed ∧ parsed.selector = sel

/-- `n` is the record the call mints in the place of `r`. -/
def Mints (r n : TokenRecord) : Prop :=
  ∃ hash, migrateDevice H c.engine r c.deviceId = .ok hash ∧
    n = successor H c.engine r hash c.now c.draw

/-- What the call reports when `n` has taken the place of `r`. -/
def success (r n : TokenRecord) : RefreshSuccess where
  token := mintToken c.engine c.draw
  userId := r.userId
  familyId := r.familyId
  generation := n.generation
  expiresAt := n.familyExpiresAt
  idleExpiresAt := n.idleExpiresAt

/-- What is left of the call once the store has said whether `n` took the place of `r`. -/
def settle (r n : TokenRecord) (applied : Bool) : StoreM RefreshResult :=
  if applied then .ret (.ok (success c r n))
  else .call (.revokeIfActive n.selector) fun _ => .ret (.refused (fail .conflict r))

/-- **The right to rotate `r`**: what the call has read and done, and the status and the time its
rotation will ask for. -/
inductive Ticket (r : TokenRecord) : TokenStatus → ℤ → List StoreEvent → Prop
  | fresh {sel pepper : Str} (hp : Proves H c sel r pepper) (hs : r.status = .active)
      (habs : c.now < r.familyExpiresAt) (hidle : c.now < r.idleExpiresAt)
      (hd : deviceRefused H r pepper c.deviceId = false) :
    Ticket r .active c.now [⟨.findBySelector sel, some r⟩]
  | grace {sel pepper q : Str} {t : ℤ} {d : TokenRecord} (hp : Proves H c sel r pepper)
      (hs : r.status = .rotated) (hg : withinGrace c.engine r c.now = some (t, q))
      (ha : d.status = .active) (hd : deviceRefused H r pepper c.deviceId = false) :
    Ticket r .rotated t [⟨.revokeIfActive d.selector, true⟩, ⟨.findBySelector q, some d⟩,
      ⟨.findBySelector sel, some r⟩]

/-- The reasons to revoke the family of `r`. -/
inductive Burns (r : TokenRecord) : NebulaErrorCode → List StoreEvent → Prop
  | reuse {sel pepper : Str} (hp : Proves H c sel r pepper) (hs : r.status = .rotated)
      (hg : withinGrace c.engine r c.now = none) :
    Burns r .reuseDetected [⟨.findBySelector sel, some r⟩]
  | used {sel pepper q : Str} {t : ℤ} {found : Option TokenRecord} (hp : Proves H c sel r pepper)
      (hs : r.status = .rotated) (hg : withinGrace c.engine r c.now = some (t, q))
      (hu : unused found = none) :
    Burns r .reuseDetected [⟨.findBySelector q, found⟩, ⟨.findBySelector sel, some r⟩]
  | graceDevice {sel pepper q : Str} {t : ℤ} {d : TokenRecord} (hp : Proves H c sel r pepper)
      (hs : r.status = .rotated) (hg : withinGrace c.engine r c.now = some (t, q))
      (ha : d.status = .active) (hd : deviceRefused H r pepper c.deviceId = true) :
    Burns r .deviceMismatch [⟨.findBySelector q, some d⟩, ⟨.findBySelector sel, some r⟩]
  | absolute {sel pepper : Str} (hp : Proves H c sel r pepper) (hs : r.status = .active)
      (habs : r.familyExpiresAt ≤ c.now) :
    Burns r .expiredAbsolute [⟨.findBySelector sel, some r⟩]
  | idle {sel pepper : Str} (hp : Proves H c sel r pepper) (hs : r.status = .active)
      (habs : c.now < r.familyExpiresAt) (hidle : r.idleExpiresAt ≤ c.now) :
    Burns r .expiredIdle [⟨.findBySelector sel, some r⟩]
  | device {sel pepper : Str} (hp : Proves H c sel r pepper) (hs : r.status = .active)
      (habs : c.now < r.familyExpiresAt) (hidle : c.now < r.idleExpiresAt)
      (hd : deviceRefused H r pepper c.deviceId = true) :
    Burns r .deviceMismatch [⟨.findBySelector sel, some r⟩]

/-- The refusals that write nothing. -/
inductive Refuses : RefreshFailure → List StoreEvent → Prop
  | unparsed {error : NebulaErrorCode} (hp : parseConfigured c.engine c.token = .error error) :
    Refuses (.unresolved error) []
  | notFound {parsed : ParsedToken} (hp : parseConfigured c.engine c.token = .ok parsed) :
    Refuses (.unresolved .notFound) [⟨.findBySelector parsed.selector, none⟩]
  | unproved {parsed : ParsedToken} {r : TokenRecord} {failure : RefreshFailure}
      (hp : parseConfigured c.engine c.token = .ok parsed)
      (hv : proveVerifier H c.engine r parsed = .error failure) :
    Refuses failure [⟨.findBySelector parsed.selector, some r⟩]
  | revoked {sel pepper : Str} {r : TokenRecord} (hp : Proves H c sel r pepper)
      (hs : r.status = .revoked) :
    Refuses (fail .revoked r) [⟨.findBySelector sel, some r⟩]
  | lost {sel pepper q : Str} {t : ℤ} {r d : TokenRecord} (hp : Proves H c sel r pepper)
      (hs : r.status = .rotated) (hg : withinGrace c.engine r c.now = some (t, q))
      (ha : d.status = .active) (hd : deviceRefused H r pepper c.deviceId = false) :
    Refuses (fail .conflict r) [⟨.revokeIfActive d.selector, false⟩, ⟨.findBySelector q, some d⟩,
      ⟨.findBySelector sel, some r⟩]

/-- **The points of a refresh**: its requests and replies so far, the latest first, and what is left
of it. -/
inductive RefreshAt : List StoreEvent → StoreM RefreshResult → Prop
  | lookup {parsed : ParsedToken} (hp : parseConfigured c.engine c.token = .ok parsed) :
    RefreshAt [] (.call (.findBySelector parsed.selector)
      (refreshFound H c.engine parsed c.deviceId c.now c.draw))
  | refused {f : RefreshFailure} {tr : List StoreEvent} (h : Refuses H c f tr) :
    RefreshAt tr (.ret (.refused f))
  | successorLookup {sel pepper q : Str} {t : ℤ} {r : TokenRecord} (hp : Proves H c sel r pepper)
      (hs : r.status = .rotated) (hg : withinGrace c.engine r c.now = some (t, q)) :
    RefreshAt [⟨.findBySelector sel, some r⟩] (.call (.findBySelector q)
      (displace H c.engine r pepper c.deviceId c.now t c.draw))
  | consume {sel pepper q : Str} {t : ℤ} {r d : TokenRecord} (hp : Proves H c sel r pepper)
      (hs : r.status = .rotated) (hg : withinGrace c.engine r c.now = some (t, q))
      (ha : d.status = .active) (hd : deviceRefused H r pepper c.deviceId = false) :
    RefreshAt [⟨.findBySelector q, some d⟩, ⟨.findBySelector sel, some r⟩]
      (.call (.revokeIfActive d.selector) fun consumed =>
        if consumed then rotate H c.engine r c.deviceId c.now .rotated t c.draw
        else .ret (.refused (fail .conflict r)))
  | burning {r : TokenRecord} {error : NebulaErrorCode} {tr : List StoreEvent}
      (h : Burns H c r error tr) :
    RefreshAt tr (.call (.revokeFamily r.familyId) fun _ => .ret (.refused (fail error r)))
  | burned {r : TokenRecord} {error : NebulaErrorCode} {tr : List StoreEvent} {n : ℕ}
      (h : Burns H c r error tr) :
    RefreshAt (⟨.revokeFamily r.familyId, n⟩ :: tr) (.ret (.refused (fail error r)))
  | inserting {r n : TokenRecord} {fromStatus : TokenStatus} {t : ℤ} {tr : List StoreEvent}
      (h : Ticket H c r fromStatus t tr) (hn : Mints H c r n) :
    RefreshAt tr (.call (.insert n) fun _ =>
      .call (.markRotated r.selector fromStatus t n.selector) (settle c r n))
  | marking {r n : TokenRecord} {fromStatus : TokenStatus} {t : ℤ} {tr : List StoreEvent}
      (h : Ticket H c r fromStatus t tr) (hn : Mints H c r n) :
    RefreshAt (⟨.insert n, ()⟩ :: tr)
      (.call (.markRotated r.selector fromStatus t n.selector) (settle c r n))
  | won {r n : TokenRecord} {fromStatus : TokenStatus} {t : ℤ} {tr : List StoreEvent}
      (h : Ticket H c r fromStatus t tr) (hn : Mints H c r n) :
    RefreshAt (⟨.markRotated r.selector fromStatus t n.selector, true⟩ :: ⟨.insert n, ()⟩ :: tr)
      (.ret (.ok (success c r n)))
  | cleaning {r n : TokenRecord} {fromStatus : TokenStatus} {t : ℤ} {tr : List StoreEvent}
      (h : Ticket H c r fromStatus t tr) (hn : Mints H c r n) :
    RefreshAt (⟨.markRotated r.selector fromStatus t n.selector, false⟩ :: ⟨.insert n, ()⟩ :: tr)
      (.call (.revokeIfActive n.selector) fun _ => .ret (.refused (fail .conflict r)))
  | cleaned {r n : TokenRecord} {fromStatus : TokenStatus} {t : ℤ} {tr : List StoreEvent} {b : Bool}
      (h : Ticket H c r fromStatus t tr) (hn : Mints H c r n) :
    RefreshAt (⟨.revokeIfActive n.selector, b⟩ ::
        ⟨.markRotated r.selector fromStatus t n.selector, false⟩ :: ⟨.insert n, ()⟩ :: tr)
      (.ret (.refused (fail .conflict r)))

variable {H c}

/-- A call with a ticket has proved the record, and comes from a device it accepts. -/
theorem Ticket.accepted {r : TokenRecord} {fromStatus : TokenStatus} {t : ℤ} {tr : List StoreEvent}
    (h : Ticket H c r fromStatus t tr) :
    ∃ sel pepper, Proves H c sel r pepper ∧ deviceRefused H r pepper c.deviceId = false := by
  cases h with
  | fresh hp _ _ _ hd => exact ⟨_, _, hp, hd⟩
  | grace hp _ _ _ hd => exact ⟨_, _, hp, hd⟩

theorem replace_eq (r n : TokenRecord) (fromStatus : TokenStatus) (t : ℤ) :
    replace c.engine r n fromStatus t c.draw =
      .call (.markRotated r.selector fromStatus t n.selector) (settle c r n) := rfl

theorem rotate_at {r : TokenRecord} {fromStatus : TokenStatus} {t : ℤ} {tr : List StoreEvent}
    (h : Ticket H c r fromStatus t tr) :
    RefreshAt H c tr (rotate H c.engine r c.deviceId c.now fromStatus t c.draw) := by
  obtain ⟨sel, pepper, -, hd⟩ := h.accepted
  obtain ⟨hash, hm⟩ := migrateDevice_ok H c.engine hd
  unfold rotate
  rw [hm, Prog.ofExcept_ok, Prog.ret_bind, Prog.lift_bind, replace_eq]
  exact .inserting h ⟨hash, hm, rfl⟩

theorem displace_at {sel pepper q : Str} {t : ℤ} {r : TokenRecord} (hp : Proves H c sel r pepper)
    (hs : r.status = .rotated) (hg : withinGrace c.engine r c.now = some (t, q))
    (found : Option TokenRecord) :
    RefreshAt H c [⟨.findBySelector q, found⟩, ⟨.findBySelector sel, some r⟩]
      (displace H c.engine r pepper c.deviceId c.now t c.draw found) := by
  unfold displace
  cases hu : unused found with
  | none => exact .burning (.used hp hs hg hu)
  | some d =>
    have hd : found = some d ∧ d.status = .active := by
      unfold unused at hu
      split at hu
      · split_ifs at hu with ha
        obtain rfl := Option.some.inj hu
        exact ⟨rfl, ha⟩
      · cases hu
    obtain ⟨rfl, ha⟩ := hd
    dsimp only
    split_ifs with hdev
    · exact .burning (.graceDevice hp hs hg ha hdev)
    · exact .consume hp hs hg ha (Bool.not_eq_true _ ▸ hdev)

theorem handleReuse_at {sel pepper : Str} {r : TokenRecord} (hp : Proves H c sel r pepper)
    (hs : r.status = .rotated) :
    RefreshAt H c [⟨.findBySelector sel, some r⟩]
      (handleReuse H c.engine r pepper c.deviceId c.now c.draw) := by
  unfold handleReuse
  cases hg : withinGrace c.engine r c.now with
  | none => exact .burning (.reuse hp hs hg)
  | some w =>
    obtain ⟨t, q⟩ := w
    exact .successorLookup hp hs hg

theorem refreshProved_at {sel pepper : Str} {r : TokenRecord} (hp : Proves H c sel r pepper) :
    RefreshAt H c [⟨.findBySelector sel, some r⟩]
      (refreshProved H c.engine r pepper c.deviceId c.now c.draw) := by
  unfold refreshProved
  cases hs : r.status with
  | rotated => exact handleReuse_at hp hs
  | revoked => exact .refused (.revoked hp hs)
  | active =>
    dsimp only
    split_ifs with habs hidle hd
    · exact .burning (.absolute hp hs habs)
    · exact .burning (.idle hp hs (not_le.mp habs) hidle)
    · exact .burning (.device hp hs (not_le.mp habs) (not_le.mp hidle) hd)
    · exact rotate_at (.fresh hp hs (not_le.mp habs) (not_le.mp hidle) (Bool.not_eq_true _ ▸ hd))

theorem refreshFound_at {parsed : ParsedToken} (hp : parseConfigured c.engine c.token = .ok parsed)
    (found : Option TokenRecord) :
    RefreshAt H c [⟨.findBySelector parsed.selector, found⟩]
      (refreshFound H c.engine parsed c.deviceId c.now c.draw found) := by
  cases found with
  | none => exact .refused (.notFound hp)
  | some r =>
    cases hv : proveVerifier H c.engine r parsed with
    | error failure =>
      simp only [refreshFound, hv]
      exact .refused (.unproved hp hv)
    | ok pepper =>
      simp only [refreshFound, hv]
      exact refreshProved_at ⟨parsed, hp, rfl, hv⟩

theorem refresh_at : RefreshAt H c [] (refresh H c.engine c.token c.deviceId c.now c.draw) := by
  unfold refresh
  cases hp : parseConfigured c.engine c.token with
  | error error => exact .refused (.unparsed hp)
  | ok parsed => exact .lookup hp

/-- A refresh does not throw. -/
theorem RefreshAt.not_throw {tr : List StoreEvent} {err : NebulaConfigError} :
    ¬ RefreshAt H c tr (.throw err) := fun h => nomatch h

/-- **A reply takes a refresh from one of its points to another.** -/
theorem refresh_step {tr : List StoreEvent} {q : StoreCall} {k : q.Reply → StoreM RefreshResult}
    (h : RefreshAt H c tr (.call q k)) (rep : q.Reply) : RefreshAt H c (⟨q, rep⟩ :: tr) (k rep) := by
  cases h with
  | lookup hp => exact refreshFound_at hp rep
  | successorLookup hp hs hg => exact displace_at hp hs hg rep
  | consume hp hs hg ha hd =>
    cases rep with
    | true => exact rotate_at (.grace hp hs hg ha hd)
    | false => exact .refused (.lost hp hs hg ha hd)
  | burning h => exact .burned h
  | inserting h hn => exact .marking h hn
  | marking h hn =>
    cases rep with
    | true => exact .won h hn
    | false => exact .cleaning h hn
  | cleaning h hn => exact .cleaned h hn

end Refresh

/-! ### The points of the other operations -/

/-- `n` is the record a login mints. -/
def IssueMints (c : IssueCall) (n : TokenRecord) : Prop :=
  ∃ hash, bindDevice H c.engine c.deviceId = .ok hash ∧
    n = mintRecord H c.engine {
      userId := c.userId
      familyId := c.draw.familyId
      generation := 0
      deviceIdHash := hash
      familyExpiresAt := c.now + c.engine.absoluteTtl
      now := c.now } c.draw.toDraw

/-- What a login reports once `n` is stored. -/
def issued (c : IssueCall) (n : TokenRecord) : IssueResult where
  token := mintToken c.engine c.draw.toDraw
  userId := c.userId
  familyId := c.draw.familyId
  generation := 0
  expiresAt := c.now + c.engine.absoluteTtl
  idleExpiresAt := n.idleExpiresAt

inductive IssueAt (c : IssueCall) : List StoreEvent → StoreM IssueResult → Prop
  | threw {err : NebulaConfigError} : IssueAt c [] (.throw err)
  | inserting {n : TokenRecord} (hn : IssueMints H c n) :
    IssueAt c [] (.call (.insert n) fun _ => .ret (issued c n))
  | done {n : TokenRecord} (hn : IssueMints H c n) : IssueAt c [⟨.insert n, ()⟩] (.ret (issued c n))

inductive RevokeTokenAt (e : NebulaEngine) (token : Str) :
    List StoreEvent → StoreM RevokeResult → Prop
  | lookup {parsed : ParsedToken} (hp : parseConfigured e token = .ok parsed) :
    RevokeTokenAt e token [] (.call (.findBySelector parsed.selector) (revokeFound H e parsed))
  | unparsed {f : RefreshFailure} : RevokeTokenAt e token [] (.ret (.refused f))
  | refused {sel : Str} {found : Option TokenRecord} {f : RefreshFailure} :
    RevokeTokenAt e token [⟨.findBySelector sel, found⟩] (.ret (.refused f))
  | revoking {parsed : ParsedToken} {r : TokenRecord} {pepper : Str}
      (hp : parseConfigured e token = .ok parsed) (hv : proveVerifier H e r parsed = .ok pepper) :
    RevokeTokenAt e token [⟨.findBySelector parsed.selector, some r⟩]
      (.call (.revokeFamily r.familyId) fun n => .ret (.ok r.userId r.familyId n))
  | revoked {parsed : ParsedToken} {r : TokenRecord} {pepper : Str} {n : ℕ}
      (hp : parseConfigured e token = .ok parsed) (hv : proveVerifier H e r parsed = .ok pepper) :
    RevokeTokenAt e token
      [⟨.revokeFamily r.familyId, n⟩, ⟨.findBySelector parsed.selector, some r⟩]
      (.ret (.ok r.userId r.familyId n))

/-- The points of an operation that is one call to the store. -/
inductive BulkAt : Operation → List StoreEvent → StoreM Outcome → Prop
  | family {familyId : Str} : BulkAt (.revokeFamily familyId) []
      (.call (.revokeFamily familyId) fun n => .ret (.count n))
  | familyDone {familyId : Str} {n : ℕ} :
    BulkAt (.revokeFamily familyId) [⟨.revokeFamily familyId, n⟩] (.ret (.count n))
  | user {userId : Str} : BulkAt (.revokeAllForUser userId) []
      (.call (.revokeUser userId) fun n => .ret (.count n))
  | userDone {userId : Str} {n : ℕ} :
    BulkAt (.revokeAllForUser userId) [⟨.revokeUser userId, n⟩] (.ret (.count n))

section Issue

variable {H}

theorem issue_at {c : IssueCall} :
    IssueAt H c [] (issue H c.engine c.userId c.deviceId c.now c.draw) := by
  unfold issue
  cases hb : bindDevice H c.engine c.deviceId with
  | error err => exact .threw
  | ok hash => exact .inserting ⟨hash, hb, rfl⟩

theorem issue_step {c : IssueCall} {tr : List StoreEvent} {q : StoreCall}
    {k : q.Reply → StoreM IssueResult} (h : IssueAt H c tr (.call q k)) (rep : q.Reply) :
    IssueAt H c (⟨q, rep⟩ :: tr) (k rep) := by
  cases h with
  | inserting hn => exact .done hn

theorem revokeToken_at {e : NebulaEngine} {token : Str} :
    RevokeTokenAt H e token [] (revokeToken H e token) := by
  unfold revokeToken
  cases hp : parseConfigured e token with
  | error error => exact .unparsed
  | ok parsed => exact .lookup hp

theorem revokeToken_step {e : NebulaEngine} {token : Str} {tr : List StoreEvent} {q : StoreCall}
    {k : q.Reply → StoreM RevokeResult} (h : RevokeTokenAt H e token tr (.call q k)) (rep : q.Reply) :
    RevokeTokenAt H e token (⟨q, rep⟩ :: tr) (k rep) := by
  cases h with
  | lookup hp =>
    rename_i parsed
    cases rep with
    | none => exact .refused
    | some r =>
      cases hv : proveVerifier H e r parsed with
      | error failure =>
        simp only [revokeFound, hv]
        exact .refused
      | ok pepper =>
        simp only [revokeFound, hv]
        exact .revoking hp hv
  | revoking hp hv => exact .revoked hp hv

theorem bulk_step {op : Operation} {q : StoreCall} {tr : List StoreEvent}
    {k : q.Reply → StoreM Outcome} (h : BulkAt op tr (.call q k)) (rep : q.Reply) :
    BulkAt op (⟨q, rep⟩ :: tr) (k rep) := by
  cases h with
  | family => exact .familyDone
  | user => exact .userDone

end Issue

/-- **The points of a call.** -/
def CallAt : Operation → List StoreEvent → StoreM Outcome → Prop
  | .issue c, tr, p => ∃ p', p = Outcome.issued <$> p' ∧ IssueAt H c tr p'
  | .refresh c, tr, p => ∃ p', p = Outcome.refreshed <$> p' ∧ RefreshAt H c tr p'
  | .revokeToken e token, tr, p => ∃ p', p = Outcome.revoked <$> p' ∧ RevokeTokenAt H e token tr p'
  | op, tr, p => BulkAt op tr p

section Call

variable {H}

/-- A call starts at one of its points. -/
theorem callAt_code (op : Operation) : CallAt H op [] (code H op) := by
  cases op with
  | issue c => exact ⟨_, rfl, issue_at⟩
  | refresh c => exact ⟨_, rfl, refresh_at⟩
  | revokeToken e token => exact ⟨_, rfl, revokeToken_at⟩
  | revokeFamily familyId => exact BulkAt.family
  | revokeAllForUser userId => exact BulkAt.user

/-- A reply takes a call from one of its points to another. -/
theorem callAt_step (op : Operation) (tr : List StoreEvent) (q : StoreCall)
    (k : q.Reply → StoreM Outcome) (rep : q.Reply) (h : CallAt H op tr (.call q k)) :
    CallAt H op (⟨q, rep⟩ :: tr) (k rep) := by
  cases op with
  | issue c =>
    obtain ⟨p, he, h⟩ := h
    obtain ⟨k', rfl, rfl⟩ := Prog.map_eq_call he.symm
    exact ⟨_, rfl, issue_step h rep⟩
  | refresh c =>
    obtain ⟨p, he, h⟩ := h
    obtain ⟨k', rfl, rfl⟩ := Prog.map_eq_call he.symm
    exact ⟨_, rfl, refresh_step h rep⟩
  | revokeToken e token =>
    obtain ⟨p, he, h⟩ := h
    obtain ⟨k', rfl, rfl⟩ := Prog.map_eq_call he.symm
    exact ⟨_, rfl, revokeToken_step h rep⟩
  | revokeFamily familyId => exact bulk_step h rep
  | revokeAllForUser userId => exact bulk_step h rep

/-- The requests of a call, by operation. -/
theorem callAt_call {op : Operation} {tr : List StoreEvent} {q : StoreCall}
    {k : q.Reply → StoreM Outcome} (h : CallAt H op tr (.call q k)) :
    (∃ c k', op = .issue c ∧ IssueAt H c tr (.call q k')) ∨
    (∃ c k', op = .refresh c ∧ RefreshAt H c tr (.call q k')) ∨
    (∃ e token k', op = .revokeToken e token ∧ RevokeTokenAt H e token tr (.call q k')) ∨
    BulkAt op tr (.call q k) := by
  cases op with
  | issue c =>
    obtain ⟨p, he, h⟩ := h
    obtain ⟨k', rfl, -⟩ := Prog.map_eq_call he.symm
    exact Or.inl ⟨c, k', rfl, h⟩
  | refresh c =>
    obtain ⟨p, he, h⟩ := h
    obtain ⟨k', rfl, -⟩ := Prog.map_eq_call he.symm
    exact Or.inr (Or.inl ⟨c, k', rfl, h⟩)
  | revokeToken e token =>
    obtain ⟨p, he, h⟩ := h
    obtain ⟨k', rfl, -⟩ := Prog.map_eq_call he.symm
    exact Or.inr (Or.inr (Or.inl ⟨e, token, k', rfl, h⟩))
  | revokeFamily familyId => exact Or.inr (Or.inr (Or.inr h))
  | revokeAllForUser userId => exact Or.inr (Or.inr (Or.inr h))

end Call

/-! ### What stands behind a request -/

/-- Who inserts: a login its first record, a refresh with a ticket the successor it mints. -/
inductive MayInsert (n : TokenRecord) : Operation → List StoreEvent → Prop
  | issue {c : IssueCall} (hn : IssueMints H c n) : MayInsert n (.issue c) []
  | refresh {c : RefreshCall} {r : TokenRecord} {fromStatus : TokenStatus} {t : ℤ}
      {tr : List StoreEvent} (h : Ticket H c r fromStatus t tr) (hn : Mints H c r n) :
    MayInsert n (.refresh c) tr

/-- Who rotates: a refresh with a ticket that has inserted the successor. -/
inductive MayMark (sel : Str) (fromStatus : TokenStatus) (t : ℤ) (q : Str) :
    Operation → List StoreEvent → Prop
  | refresh {c : RefreshCall} {r n : TokenRecord} {tr : List StoreEvent}
      (h : Ticket H c r fromStatus t tr) (hn : Mints H c r n) (hsel : sel = r.selector)
      (hq : q = n.selector) :
    MayMark sel fromStatus t q (.refresh c) (⟨.insert n, ()⟩ :: tr)

/-- Who revokes a single row: a grace retry the unused successor it has read, and a refresh that lost
its rotation the successor it has inserted. -/
inductive MayClear (sel : Str) : Operation → List StoreEvent → Prop
  | displace {c : RefreshCall} {r d : TokenRecord} {sel₀ pepper q : Str} {t : ℤ}
      (hp : Proves H c sel₀ r pepper) (hs : r.status = .rotated)
      (hg : withinGrace c.engine r c.now = some (t, q)) (ha : d.status = .active)
      (hd : deviceRefused H r pepper c.deviceId = false) (hsel : sel = d.selector) :
    MayClear sel (.refresh c) [⟨.findBySelector q, some d⟩, ⟨.findBySelector sel₀, some r⟩]
  | cleanup {c : RefreshCall} {r n : TokenRecord} {fromStatus : TokenStatus} {t : ℤ}
      {tr : List StoreEvent} (h : Ticket H c r fromStatus t tr) (hn : Mints H c r n)
      (hsel : sel = n.selector) :
    MayClear sel (.refresh c)
      (⟨.markRotated r.selector fromStatus t n.selector, false⟩ :: ⟨.insert n, ()⟩ :: tr)

section Request

variable {H} {op : Operation} {tr : List StoreEvent}

theorem insert_request {n : TokenRecord} {k : Unit → StoreM Outcome}
    (h : CallAt H op tr (.call (.insert n) k)) : MayInsert H n op tr := by
  rcases callAt_call h with ⟨c, k', rfl, h'⟩ | ⟨c, k', rfl, h'⟩ | ⟨e, token, k', -, h'⟩ | h'
  · cases h' with
    | inserting hn => exact .issue hn
  · cases h' with
    | inserting ht hn => exact .refresh ht hn
  · cases h'
  · cases h'

theorem mark_request {sel q : Str} {fromStatus : TokenStatus} {t : ℤ} {k : Bool → StoreM Outcome}
    (h : CallAt H op tr (.call (.markRotated sel fromStatus t q) k)) :
    MayMark H sel fromStatus t q op tr := by
  rcases callAt_call h with ⟨c, k', -, h'⟩ | ⟨c, k', rfl, h'⟩ | ⟨e, token, k', -, h'⟩ | h'
  · cases h'
  · cases h' with
    | marking ht hn => exact .refresh ht hn rfl rfl
  · cases h'
  · cases h'

theorem clear_request {sel : Str} {k : Bool → StoreM Outcome}
    (h : CallAt H op tr (.call (.revokeIfActive sel) k)) : MayClear H sel op tr := by
  rcases callAt_call h with ⟨c, k', -, h'⟩ | ⟨c, k', rfl, h'⟩ | ⟨e, token, k', -, h'⟩ | h'
  · cases h'
  · cases h' with
    | consume hp hs hg ha hd => exact .displace hp hs hg ha hd rfl
    | cleaning ht hn => exact .cleanup ht hn rfl
  · cases h'
  · cases h'

/-- A call makes no request after its rotation. -/
theorem not_call_of_marked {sel by_ : Str} {fromStatus : TokenStatus} {t : ℤ} {q : StoreCall}
    {k : q.Reply → StoreM Outcome} :
    ¬ CallAt H op (⟨.markRotated sel fromStatus t by_, true⟩ :: tr) (.call q k) := by
  intro h
  rcases callAt_call h with ⟨c, k', -, h'⟩ | ⟨c, k', rfl, h'⟩ | ⟨e, token, k', -, h'⟩ | h'
  · cases h'
  · cases h' with
    | inserting ht hn => cases ht
    | burning hb => cases hb
  · cases h'
  · cases h'

end Request

/-! ### What a ticket says of the row it was given for -/

theorem parseToken_of_configured {e : NebulaEngine} {token : Str} {parsed : ParsedToken}
    (h : parseConfigured e token = .ok parsed) : parseToken token = some parsed := by
  unfold parseConfigured at h
  split at h
  · cases h
  · next hp =>
    split_ifs at h
    obtain rfl := Except.ok.inj h
    exact hp

/-- A call presents one selector. -/
theorem Presents.unique {H : HmacSha256} {c : RefreshCall} {sel sel' pepper : Str} {r : TokenRecord}
    (h : Presents c sel) (hp : Proves H c sel' r pepper) : sel' = sel := by
  obtain ⟨parsed, hparsed, rfl⟩ := h
  obtain ⟨parsed', hp', rfl, -⟩ := hp
  rw [parseToken_of_configured hp'] at hparsed
  rw [Option.some.inj hparsed]

/-- A record is proved under one pepper. -/
theorem Proves.pepper {H : HmacSha256} {c : RefreshCall} {sel sel' pepper pepper' : Str}
    {r : TokenRecord} (h : Proves H c sel r pepper) (h' : Proves H c sel' r pepper') :
    pepper = pepper' := by
  obtain ⟨parsed, hp, -, hv⟩ := h
  obtain ⟨parsed', hp', -, hv'⟩ := h'
  rw [hp] at hp'
  rw [Except.ok.inj hp', hv'] at hv
  exact (Except.ok.inj hv).symm

/-- What proves a record is its digest and its pepper's name. -/
theorem Proves.congr {H : HmacSha256} {c : RefreshCall} {sel pepper : Str} {r r' : TokenRecord}
    (h : Proves H c sel r pepper) (hkid : r'.kid = r.kid) (hhash : r'.verifierHash = r.verifierHash) :
    Proves H c sel r' pepper := by
  obtain ⟨parsed, hp, hsel, hv⟩ := h
  refine ⟨parsed, hp, hsel, ?_⟩
  unfold proveVerifier at hv ⊢
  rw [hkid]
  split at hv
  · cases hv
  · next recordPepper hpep =>
    split_ifs at hv with hc
    rw [hhash, if_pos hc]
    exact hv

/-- A call that has read a record whose verifier it proves goes on to the steps that follow the proof. -/
theorem leads_proved {H : HmacSha256} {c : RefreshCall} {sel pepper : Str} {r : TokenRecord}
    (h : Proves H c sel r pepper) : Leads (code H (.refresh c)) [⟨.findBySelector sel, some r⟩]
      (Outcome.refreshed <$> refreshProved H c.engine r pepper c.deviceId c.now c.draw) := by
  obtain ⟨parsed, hp, rfl, hv⟩ := h
  have hstart : Leads (code H (.refresh c)) [] (.call (.findBySelector parsed.selector) fun found =>
      Outcome.refreshed <$> refreshFound H c.engine parsed c.deviceId c.now c.draw found) := by
    have hcode : code H (.refresh c) = .call (.findBySelector parsed.selector) fun found =>
        Outcome.refreshed <$> refreshFound H c.engine parsed c.deviceId c.now c.draw found := by
      simp only [code, refresh, hp, Prog.lift_bind, Prog.map_call]
    rw [hcode]
    exact .start
  have hlook := hstart.answer (some r)
  simp only [refreshFound, hv] at hlook
  exact hlook

section Ticket

variable {H} {c : RefreshCall} {r : TokenRecord} {fromStatus : TokenStatus} {t : ℤ}
  {tr : List StoreEvent}

/-- A call with a ticket has read the row it presents, and has proved its verifier. -/
theorem Ticket.found (h : Ticket H c r fromStatus t tr) :
    ∃ sel pepper, Proves H c sel r pepper ∧ ⟨.findBySelector sel, some r⟩ ∈ tr := by
  cases h with
  | fresh hp => exact ⟨_, _, hp, by simp⟩
  | grace hp => exact ⟨_, _, hp, by simp⟩

/-- The first request of a call with a ticket is the lookup of the row it presents. -/
theorem Ticket.first (h : Ticket H c r fromStatus t tr) :
    ∃ sel pepper, Proves H c sel r pepper ∧ [⟨.findBySelector sel, some r⟩] <:+ tr := by
  cases h with
  | fresh hp => exact ⟨_, _, hp, List.suffix_rfl⟩
  | grace hp => exact ⟨_, _, hp, ⟨[_, _], rfl⟩⟩

theorem Burns.found {error : NebulaErrorCode} (h : Burns H c r error tr) :
    ∃ sel pepper, Proves H c sel r pepper ∧ ⟨.findBySelector sel, some r⟩ ∈ tr := by
  cases h with
  | reuse hp => exact ⟨_, _, hp, by simp⟩
  | used hp => exact ⟨_, _, hp, by simp⟩
  | graceDevice hp => exact ⟨_, _, hp, by simp⟩
  | absolute hp => exact ⟨_, _, hp, by simp⟩
  | idle hp => exact ⟨_, _, hp, by simp⟩
  | device hp => exact ⟨_, _, hp, by simp⟩

theorem Ticket.status (h : Ticket H c r fromStatus t tr) : r.status = fromStatus := by
  cases h with
  | fresh _ hs => exact hs
  | grace _ hs => exact hs

theorem Ticket.not_revoked (h : Ticket H c r fromStatus t tr) : fromStatus ≠ .revoked := by
  cases h with
  | fresh => decide
  | grace => decide

/-- A ticket is given before the absolute deadline. -/
theorem Ticket.before_deadline (h : Ticket H c r fromStatus t tr) : c.now < r.familyExpiresAt := by
  cases h with
  | fresh _ _ habs => exact habs
  | grace _ _ hg => exact (withinGrace_some hg).2.2.2.2

/-- A call with a ticket has inserted nothing yet. -/
theorem Ticket.no_insert (h : Ticket H c r fromStatus t tr) {n : TokenRecord} :
    (⟨.insert n, ()⟩ : StoreEvent) ∉ tr := by
  cases h with
  | fresh => simp
  | grace => simp

end Ticket

theorem Mints.selector {c : RefreshCall} {r n : TokenRecord} (h : Mints H c r n) :
    n.selector = c.draw.selectorText := by
  obtain ⟨hash, -, rfl⟩ := h
  rfl

/-- A record is inserted as `mint` makes it. -/
theorem MayInsert.mint {op : Operation} {tr : List StoreEvent} {n : TokenRecord}
    (h : MayInsert H n op tr) :
    n.status = .active ∧ n.rotatedAt = none ∧ n.replacedBySelector = none := by
  cases h with
  | issue hn =>
    obtain ⟨hash, -, rfl⟩ := hn
    exact ⟨rfl, rfl, rfl⟩
  | refresh h hn =>
    obtain ⟨hash, -, rfl⟩ := hn
    exact ⟨rfl, rfl, rfl⟩

end NebulaToken.Runs.Calls
