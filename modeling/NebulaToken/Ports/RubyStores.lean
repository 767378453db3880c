import NebulaToken.Lib.Reports
import NebulaToken.Ports.Ruby
import NebulaToken.Runs.Execution

/-! # What a store may return to the Ruby engine

Every reply is normalised before it decides anything, so that names for statuses and counts for booleans
change nothing. What is neither is taken for a revoked record, and for a compare-and-set that was not
applied.

* `normalised`: the engine reads its replies through `normalise`;
* `refresh_asks`, `refresh_success`: the lookup comes first, and what a success comes from;
* `refresh_unrecognised`, `refresh_revoked`: an unknown status refuses, and nothing is written;
* `tolerates_reports`: names and counts change nothing in any run, and over any store a refresh succeeds
  only for a known status and a compare-and-set that was applied. -/

namespace NebulaToken.Ports.RubyStores

open NebulaToken.Lib.Program NebulaToken.Lib.Transition NebulaToken.Lib.Pool NebulaToken.Lib.Reports
open NebulaToken.Lib.KeyedTable NebulaToken.Token.Unicode NebulaToken.Token.Utf8
open NebulaToken.Token.Wire NebulaToken.Engine.Records NebulaToken.Engine.Config
open NebulaToken.Runs.Calls (Outcome)
open NebulaToken.Runs.Execution (sampleHmac sampleEngine sampleToken sampleDraw sampleRow)
open NebulaToken.Store.Memory
open NebulaToken.Ports.Bytes
open NebulaToken.Ports.Ruby (RubyString StatusValue CasValue Row Returned EngineM Adapter statusName
  statusByName normalizeStatus casApplied)
open NebulaToken.Engine.Operations (Draw IssueDraw)

/-- The operations of the port. A token and a device are whatever strings the host has. -/
inductive Operation
  | issue (e : NebulaEngine) (userId : Str) (deviceId : Option RubyString) (now : ℤ) (d : IssueDraw)
  | refresh (e : NebulaEngine) (token : Bytes) (deviceId : Option RubyString) (now : ℤ) (d : Draw)
  | revokeToken (e : NebulaEngine) (token : Bytes)
  | revokeFamily (familyId : Str)
  | revokeAllForUser (userId : Str)

variable (H : HmacSha256)

def code : Operation → EngineM Outcome
  | .issue e userId deviceId now d => .issued <$> Ruby.Engine.issue H e userId deviceId now d
  | .refresh e token deviceId now d => .refreshed <$> Ruby.Engine.refresh H e token deviceId now d
  | .revokeToken e token => .revoked <$> Ruby.Engine.revokeToken H e token
  | .revokeFamily familyId => .count <$> Ruby.Engine.revokeFamily familyId
  | .revokeAllForUser userId => .count <$> Ruby.Engine.revokeAllForUser userId

/-! ### Replies are normalised -/

/-- A reply as the engine reads it. -/
def normalise : (q : StoreCall) → Returned q → q.Reply
  | .findBySelector _, found => found.map Row.record
  | .insert _, u => u
  | .markRotated _ _ _ _, v => casApplied v
  | .revokeIfActive _, v => casApplied v
  | .revokeFamily _, n => n
  | .revokeUser _, n => n

/-- The store of symbols and booleans. -/
def plain : Adapter where
  status := .symbol
  applied := .boolean
  status_eq _ := Or.inl rfl
  applied_eq _ := Or.inl rfl

/-- A reply in the plain form of what the engine reads in it. -/
def plainly (q : StoreCall) (r : Returned q) : Returned q := plain.reply q (normalise q r)

/-- **The program reads its replies as normalised.** -/
def Normalised {α : Type} (p : EngineM α) : Prop := p.adapt plainly = p

theorem Normalised.map {α β : Type} {p : EngineM α} (h : Normalised p) (f : α → β) :
    Normalised (f <$> p) := by
  rw [Normalised, Prog.adapt_map, h]

/-- What a store reports is read as what it was. -/
theorem normalise_reply (a : Adapter) (q : StoreCall) (r : q.Reply) : normalise q (a.reply q r) = r := by
  cases q with
  | findBySelector sel =>
    cases r with
    | none => rfl
    | some record => exact congrArg some (a.record_row record)
  | markRotated sel f t by_ => exact a.casApplied_applied r
  | revokeIfActive sel => exact a.casApplied_applied r
  | insert | revokeFamily | revokeUser => rfl

/-- **A normalised program does the same over all stores that keep the contract.** -/
theorem Normalised.adapt_eq {α : Type} {p : EngineM α} (h : Normalised p) (a : Adapter) :
    p.adapt a.reply = p.adapt plain.reply := by
  rw [← h, Prog.adapt_adapt, Prog.adapt_adapt]
  simp only [plainly, normalise_reply]

section Engine

variable {H : HmacSha256} {e : NebulaEngine}

/-- A row in its plain form. -/
abbrev plainRow (r : Row) : Row := plain.row r.record

theorem plainly_find (sel : Str) (found : Option Row) :
    plainly (.findBySelector sel) found = found.map plainRow := by
  cases found with
  | none => rfl
  | some r => rfl

theorem rotate_plain (r : Row) (deviceId : Option RubyString) (now : ℤ) (f : TokenStatus) (t : ℤ)
    (d : Draw) : (Ruby.Engine.rotate H e (plainRow r) deviceId now f t d).adapt plainly =
      Ruby.Engine.rotate H e r deviceId now f t d := by
  have hhash : Ruby.Engine.rotationHash H e (plainRow r) deviceId =
      Ruby.Engine.rotationHash H e r deviceId := rfl
  unfold Ruby.Engine.rotate
  rw [hhash]
  cases Ruby.Engine.rotationHash H e r deviceId with
  | error err => rfl
  | ok hash =>
    refine congrArg (Prog.call _) (funext fun _ => congrArg (Prog.call _) (funext fun v => ?_))
    exact (Prog.adapt_ite plainly _ _ _).trans (if_congr Iff.rfl rfl rfl)

theorem reuseFound_plain (r : Row) (recordPepper : Str) (deviceId : Option RubyString) (now : ℤ)
    (d : Draw) (found : Option Row) :
    (Ruby.Engine.reuseFound H e (plainRow r) recordPepper deviceId now d (found.map plainRow)).adapt
      plainly = Ruby.Engine.reuseFound H e r recordPepper deviceId now d found := by
  cases found with
  | none => rfl
  | some successor =>
    unfold Ruby.Engine.reuseFound
    rw [Option.map_some, Prog.adapt_ite, Prog.adapt_ite]
    refine if_congr Iff.rfl (if_congr Iff.rfl rfl (congrArg (Prog.call _) (funext fun v => ?_))) rfl
    refine (Prog.adapt_ite plainly _ _ _).trans (if_congr Iff.rfl rfl ?_)
    exact rotate_plain r deviceId now .rotated (r.rotatedAt.getD now) d

theorem handleReuse_plain (r : Row) (recordPepper : Str) (deviceId : Option RubyString) (now : ℤ)
    (d : Draw) : (Ruby.Engine.handleReuse H e (plainRow r) recordPepper deviceId now d).adapt plainly =
      Ruby.Engine.handleReuse H e r recordPepper deviceId now d := by
  refine (Prog.adapt_ite plainly _ _ _).trans (if_congr Iff.rfl ?_ rfl)
  refine congrArg (Prog.call _) (funext fun found => ?_)
  show (Ruby.Engine.reuseFound H e (plainRow r) recordPepper deviceId now d
    (plainly (.findBySelector _) found)).adapt plainly = _
  rw [plainly_find]
  exact reuseFound_plain r recordPepper deviceId now d found

theorem refreshProved_plain (r : Row) (recordPepper : Str) (deviceId : Option RubyString) (now : ℤ)
    (d : Draw) : (Ruby.Engine.refreshProved H e (plainRow r) recordPepper deviceId now d).adapt plainly =
      Ruby.Engine.refreshProved H e r recordPepper deviceId now d := by
  unfold Ruby.Engine.refreshProved
  dsimp only
  rw [Prog.adapt_ite, Prog.adapt_ite, Prog.adapt_ite, Prog.adapt_ite, Prog.adapt_ite]
  exact if_congr Iff.rfl (handleReuse_plain r recordPepper deviceId now d)
    (if_congr Iff.rfl rfl (if_congr Iff.rfl rfl (if_congr Iff.rfl rfl (if_congr Iff.rfl rfl
      (rotate_plain r deviceId now .active now d)))))

theorem refreshFound_plain (parsed : ParsedToken) (deviceId : Option RubyString) (now : ℤ) (d : Draw)
    (found : Option Row) :
    (Ruby.Engine.refreshFound H e parsed deviceId now d (found.map plainRow)).adapt plainly =
      Ruby.Engine.refreshFound H e parsed deviceId now d found := by
  cases found with
  | none => rfl
  | some r =>
    have hkid : (plainRow r).kid = r.kid := rfl
    unfold Ruby.Engine.refreshFound
    rw [Option.map_some]
    dsimp only
    rw [hkid]
    cases e.peppers.get r.kid with
    | none => rfl
    | some recordPepper =>
      dsimp only
      rw [Prog.adapt_ite]
      exact if_congr Iff.rfl rfl (refreshProved_plain r recordPepper deviceId now d)

theorem refresh_normalised (token : Bytes) (deviceId : Option RubyString) (now : ℤ) (d : Draw) :
    Normalised (Ruby.Engine.refresh H e token deviceId now d) := by
  unfold Normalised Ruby.Engine.refresh
  cases Ruby.parseToken token with
  | none => rfl
  | some parsed =>
    refine (Prog.adapt_ite plainly _ _ _).trans (if_congr Iff.rfl rfl ?_)
    refine congrArg (Prog.call _) (funext fun found => ?_)
    show (Ruby.Engine.refreshFound H e parsed deviceId now d
      (plainly (.findBySelector _) found)).adapt plainly = _
    rw [plainly_find]
    exact refreshFound_plain parsed deviceId now d found

theorem revokeFound_plain (parsed : ParsedToken) (found : Option Row) :
    (Ruby.Engine.revokeFound H e parsed (found.map plainRow)).adapt plainly =
      Ruby.Engine.revokeFound H e parsed found := by
  cases found with
  | none => rfl
  | some r =>
    have hkid : (plainRow r).kid = r.kid := rfl
    unfold Ruby.Engine.revokeFound
    rw [Option.map_some]
    dsimp only
    rw [hkid]
    cases e.peppers.get r.kid with
    | none => rfl
    | some recordPepper =>
      dsimp only
      rw [Prog.adapt_ite]
      exact if_congr Iff.rfl rfl rfl

theorem revokeToken_normalised (token : Bytes) : Normalised (Ruby.Engine.revokeToken H e token) := by
  unfold Normalised Ruby.Engine.revokeToken
  cases Ruby.parseToken token with
  | none => rfl
  | some parsed =>
    refine (Prog.adapt_ite plainly _ _ _).trans (if_congr Iff.rfl rfl ?_)
    refine congrArg (Prog.call _) (funext fun found => ?_)
    show (Ruby.Engine.revokeFound H e parsed (plainly (.findBySelector _) found)).adapt plainly = _
    rw [plainly_find]
    exact revokeFound_plain parsed found

theorem issue_normalised (userId : Str) (deviceId : Option RubyString) (now : ℤ) (d : IssueDraw) :
    Normalised (Ruby.Engine.issue H e userId deviceId now d) := by
  unfold Normalised Ruby.Engine.issue
  cases Ruby.Engine.issueHash H e deviceId with
  | error err => rfl
  | ok hash => rfl

/-- **Every operation reads its replies as normalised.** -/
theorem normalised (op : Operation) : Normalised (code H op) := by
  cases op with
  | issue e userId deviceId now d => exact (issue_normalised userId deviceId now d).map _
  | refresh e token deviceId now d => exact (refresh_normalised token deviceId now d).map _
  | revokeToken e token => exact (revokeToken_normalised token).map _
  | revokeFamily familyId => rfl
  | revokeAllForUser userId => rfl

/-! ### Whatever a store returns -/

/-- Requests of the engine and the replies it was given. -/
abbrev Reply := Event StoreCall Returned

/-- The last request put the successor in the place of the record, and was answered that it did. -/
def Marked (r : Row) (tr : List Reply) : Prop :=
  ∃ fromStatus rotatedAt by_ v rest,
    tr = ⟨.markRotated r.selector fromStatus rotatedAt by_, v⟩ :: rest ∧
      (v = .boolean true ∨ ∃ n, v = .integer n ∧ 0 < n)

theorem Marked.append {r : Row} {tr : List Reply} (h : Marked r tr) (tr' : List Reply) :
    Marked r (tr ++ tr') := by
  obtain ⟨f, t, q, v, rest, rfl, hv⟩ := h
  exact ⟨f, t, q, v, rest ++ tr', rfl, hv⟩

/-- What counts as applied. -/
theorem casApplied_iff {v : CasValue} :
    casApplied v = true ↔ v = .boolean true ∨ ∃ n, v = .integer n ∧ 0 < n := by
  cases v with
  | boolean b =>
    constructor
    · intro h
      exact Or.inl (congrArg CasValue.boolean h)
    · rintro (h | ⟨n, h, -⟩)
      · exact CasValue.boolean.inj h
      · cases h
  | integer n =>
    constructor
    · intro h
      exact Or.inr ⟨n, rfl, of_decide_eq_true h⟩
    · rintro (h | ⟨m, h, hm⟩)
      · cases h
      · obtain rfl := CasValue.integer.inj h
        exact decide_eq_true hm
  | other => exact iff_of_false Bool.false_ne_true (by rintro (h | ⟨n, h, -⟩) <;> cases h)

theorem burn_refuses {error : NebulaErrorCode} {r : Row} {tr : List Reply} {success : RefreshSuccess}
    (h : Leads (Ruby.Engine.burn error r) tr (.ret (.ok success))) : False := by
  rcases Leads.of_call h with ⟨-, hp⟩ | ⟨n, tr', -, hl⟩
  · cases hp
  · cases (Leads.of_ret hl).2

theorem rotate_success {r : Row} {deviceId : Option RubyString} {now : ℤ} {f : TokenStatus} {t : ℤ}
    {d : Draw} {tr : List Reply} {success : RefreshSuccess}
    (h : Leads (Ruby.Engine.rotate H e r deviceId now f t d) tr (.ret (.ok success))) : Marked r tr := by
  unfold Ruby.Engine.rotate at h
  cases hh : Ruby.Engine.rotationHash H e r deviceId with
  | error err =>
    rw [hh] at h
    cases (Leads.of_throw h).2
  | ok hash =>
    rw [hh] at h
    rcases Leads.of_call h with ⟨-, hp⟩ | ⟨u, tr₁, rfl, h₁⟩
    · cases hp
    rcases Leads.of_call h₁ with ⟨-, hp⟩ | ⟨v, tr₂, rfl, h₂⟩
    · cases hp
    have hl : Leads (if ¬ casApplied v = true then _ else _) tr₂ (.ret (RefreshResult.ok success)) := h₂
    by_cases hv : casApplied v = true
    · rw [if_neg (not_not.mpr hv)] at hl
      obtain ⟨rfl, -⟩ := Leads.of_ret hl
      exact ⟨f, t, _, v, _, rfl, casApplied_iff.mp hv⟩
    · rw [if_pos hv] at hl
      rcases Leads.of_call hl with ⟨-, hp⟩ | ⟨b, tr₃, -, h₃⟩
      · cases hp
      · cases (Leads.of_ret h₃).2

theorem reuseFound_success {r : Row} {recordPepper : Str} {deviceId : Option RubyString} {now : ℤ}
    {d : Draw} {found : Option Row} {tr : List Reply} {success : RefreshSuccess}
    (h : Leads (Ruby.Engine.reuseFound H e r recordPepper deviceId now d found) tr
      (.ret (.ok success))) : Marked r tr := by
  unfold Ruby.Engine.reuseFound at h
  cases found with
  | none => exact (burn_refuses h).elim
  | some successor =>
    dsimp only at h
    split_ifs at h
    · exact (burn_refuses h).elim
    · rcases Leads.of_call h with ⟨-, hp⟩ | ⟨v, tr', rfl, hl⟩
      · cases hp
      have hl : Leads (if ¬ casApplied v = true then _ else _) tr' (.ret (RefreshResult.ok success)) := hl
      by_cases hv : casApplied v = true
      · rw [if_neg (not_not.mpr hv)] at hl
        exact (rotate_success hl).append _
      · rw [if_pos hv] at hl
        cases (Leads.of_ret hl).2
    · exact (burn_refuses h).elim

theorem handleReuse_success {r : Row} {recordPepper : Str} {deviceId : Option RubyString} {now : ℤ}
    {d : Draw} {tr : List Reply} {success : RefreshSuccess}
    (h : Leads (Ruby.Engine.handleReuse H e r recordPepper deviceId now d) tr (.ret (.ok success))) :
    Marked r tr := by
  unfold Ruby.Engine.handleReuse at h
  dsimp only at h
  split_ifs at h
  · rcases Leads.of_call h with ⟨-, hp⟩ | ⟨found, tr', rfl, hl⟩
    · cases hp
    · exact (reuseFound_success hl).append _
  · exact (burn_refuses h).elim

/-- The status of the row allows a rotation. -/
def Rotatable (r : Row) : Prop := r.record.status = .active ∨ r.record.status = .rotated

theorem refreshProved_success {r : Row} {recordPepper : Str} {deviceId : Option RubyString} {now : ℤ}
    {d : Draw} {tr : List Reply} {success : RefreshSuccess}
    (h : Leads (Ruby.Engine.refreshProved H e r recordPepper deviceId now d) tr (.ret (.ok success))) :
    Rotatable r ∧ Marked r tr := by
  unfold Ruby.Engine.refreshProved at h
  dsimp only at h
  split_ifs at h with h₁ h₂
  · exact ⟨Or.inr h₁, handleReuse_success h⟩
  · cases (Leads.of_ret h).2
  · exact (burn_refuses h).elim
  · exact (burn_refuses h).elim
  · exact (burn_refuses h).elim
  · exact ⟨Or.inl (not_not.mp h₂), rotate_success h⟩

/-- **A refresh asks for the row of its token first**, if it can be one of this engine. -/
theorem refresh_asks {token : Bytes} {parsed : ParsedToken} (hp : Ruby.parseToken token = some parsed)
    (hkid : (e.peppers.get parsed.kid).isSome = true) (deviceId : Option RubyString) (now : ℤ) (d : Draw) :
    Ruby.Engine.refresh H e token deviceId now d =
      .call (.findBySelector parsed.selector) (Ruby.Engine.refreshFound H e parsed deviceId now d) := by
  unfold Ruby.Engine.refresh
  rw [hp]
  exact if_neg (not_not.mpr hkid)

/-- A refresh that has asked for anything has asked for that row. -/
theorem refresh_first {token : Bytes} {deviceId : Option RubyString} {now : ℤ} {d : Draw}
    {tr : List Reply} {p : EngineM RefreshResult}
    (h : Leads (Ruby.Engine.refresh H e token deviceId now d) tr p) :
    (tr = [] ∧ ∀ success, p ≠ .ret (.ok success)) ∨ ∃ parsed found rest,
      Ruby.parseToken token = some parsed ∧ tr = rest ++ [⟨.findBySelector parsed.selector, found⟩] ∧
        Leads (Ruby.Engine.refreshFound H e parsed deviceId now d found) rest p := by
  cases hp : Ruby.parseToken token with
  | none =>
    refine Or.inl ?_
    unfold Ruby.Engine.refresh at h
    rw [hp] at h
    obtain ⟨rfl, rfl⟩ := Leads.of_ret h
    exact ⟨rfl, fun success he => by cases he⟩
  | some parsed =>
    by_cases hkid : (e.peppers.get parsed.kid).isSome = true
    · rw [refresh_asks hp hkid] at h
      rcases Leads.of_call h with ⟨rfl, rfl⟩ | ⟨found, rest, rfl, hl⟩
      · exact Or.inl ⟨rfl, fun success he => by cases he⟩
      · exact Or.inr ⟨parsed, found, rest, rfl, rfl, hl⟩
    · refine Or.inl ?_
      unfold Ruby.Engine.refresh at h
      rw [hp] at h
      dsimp only at h
      rw [if_pos hkid] at h
      obtain ⟨rfl, rfl⟩ := Leads.of_ret h
      exact ⟨rfl, fun success he => by cases he⟩

/-- **What a success comes from**: a row that is active or rotated, and a compare-and-set applied to it. -/
theorem refresh_success {token : Bytes} {deviceId : Option RubyString} {now : ℤ} {d : Draw}
    {tr : List Reply} {success : RefreshSuccess}
    (h : Leads (Ruby.Engine.refresh H e token deviceId now d) tr (.ret (.ok success))) :
    ∃ sel r rest, tr = rest ++ [⟨.findBySelector sel, some r⟩] ∧ Rotatable r ∧ Marked r tr := by
  rcases refresh_first h with ⟨-, hno⟩ | ⟨parsed, found, rest, -, rfl, hl⟩
  · exact absurd rfl (hno success)
  unfold Ruby.Engine.refreshFound at hl
  cases found with
  | none => cases (Leads.of_ret hl).2
  | some r =>
    dsimp only at hl
    cases hpep : e.peppers.get r.kid with
    | none =>
      rw [hpep] at hl
      cases (Leads.of_ret hl).2
    | some recordPepper =>
      rw [hpep] at hl
      dsimp only at hl
      split_ifs at hl
      · obtain ⟨hr, hm⟩ := refreshProved_success hl
        exact ⟨_, r, rest, rfl, hr, hm.append _⟩
      · cases (Leads.of_ret hl).2

/-! ### A status that is not known -/

/-- A value that is none of the statuses and names none. -/
def Unrecognised : StatusValue → Prop
  | .symbol _ => False
  | .string name => ∀ s, name ≠ statusName s
  | .other name => ∀ s, name ≠ statusName s

theorem normalizeStatus_unrecognised {v : StatusValue} (h : Unrecognised v) :
    normalizeStatus v = .revoked := by
  have hname : ∀ name : Str, (∀ s, name ≠ statusName s) → statusByName name = .revoked :=
    fun name h => by rw [statusByName, if_neg (h .active), if_neg (h .rotated)]
  cases v with
  | symbol s => exact h.elim
  | string name => exact hname name h
  | other name => exact hname name h

/-- The token of these parts proves the verifier of the row. -/
def ProvesRow (H : HmacSha256) (e : NebulaEngine) (parsed : ParsedToken) (r : Row) : Prop :=
  ∃ recordPepper, e.peppers.get r.kid = some recordPepper ∧
    Ruby.constantTimeEqualHex (Ruby.hashVerifier H recordPepper parsed.verifier) r.verifierHash = true

/-- **Such a row refuses, and nothing is written.** -/
theorem refreshFound_unrecognised (parsed : ParsedToken) {r : Row} (h : Unrecognised r.status)
    (deviceId : Option RubyString) (now : ℤ) (d : Draw) :
    ∃ failure, Ruby.Engine.refreshFound H e parsed deviceId now d (some r) = .ret (.refused failure) ∧
      (ProvesRow H e parsed r → failure = fail .revoked r.record) := by
  unfold Ruby.Engine.refreshFound
  dsimp only
  cases hpep : e.peppers.get r.kid with
  | none =>
    refine ⟨_, rfl, ?_⟩
    rintro ⟨recordPepper, hpep', -⟩
    rw [hpep] at hpep'
    cases hpep'
  | some recordPepper =>
    dsimp only
    by_cases hv : Ruby.constantTimeEqualHex (Ruby.hashVerifier H recordPepper parsed.verifier)
      r.verifierHash = true
    · rw [if_neg (not_not.mpr hv), Ruby.Engine.refreshProved, normalizeStatus_unrecognised h]
      exact ⟨_, rfl, fun _ => rfl⟩
    · rw [if_pos hv]
      refine ⟨_, rfl, ?_⟩
      rintro ⟨recordPepper', hpep', hv'⟩
      obtain rfl := Option.some.inj (hpep.symm.trans hpep')
      exact absurd hv' hv

/-- Whatever it has asked for, a refresh whose lookup was answered with such a row has asked no more. -/
theorem refresh_unrecognised {token : Bytes} {deviceId : Option RubyString} {now : ℤ} {d : Draw}
    {rest : List Reply} {p : EngineM RefreshResult} {sel : Str} {r : Row}
    (h : Leads (Ruby.Engine.refresh H e token deviceId now d) (rest ++ [⟨.findBySelector sel, some r⟩]) p)
    (hu : Unrecognised r.status) : rest = [] ∧ ∃ failure, p = .ret (.refused failure) := by
  rcases refresh_first h with ⟨hnil, -⟩ | ⟨parsed, found, rest', -, htr, hl⟩
  · cases List.append_ne_nil_of_right_ne_nil rest (List.cons_ne_nil _ _) hnil
  · obtain ⟨rfl, he⟩ := List.append_inj' htr rfl
    obtain ⟨failure, hf, -⟩ := refreshFound_unrecognised (H := H) (e := e) parsed hu deviceId now d
    cases he
    have hl : Leads (Ruby.Engine.refreshFound H e parsed deviceId now d (some r)) rest p := hl
    rw [hf] at hl
    obtain ⟨rfl, rfl⟩ := Leads.of_ret hl
    exact ⟨rfl, failure, rfl⟩

/-- **A refresh of a token that opens such a row** makes its lookup, and then refuses as revoked. -/
theorem refresh_revoked {token : Bytes} {parsed : ParsedToken} (hp : Ruby.parseToken token = some parsed)
    (hkid : (e.peppers.get parsed.kid).isSome = true) {r : Row} (hu : Unrecognised r.status)
    (hr : ProvesRow H e parsed r) (deviceId : Option RubyString) (now : ℤ) (d : Draw) :
    ∃ k, Ruby.Engine.refresh H e token deviceId now d = .call (.findBySelector parsed.selector) k ∧
      k (some r) = .ret (.refused (fail .revoked r.record)) := by
  refine ⟨_, refresh_asks hp hkid deviceId now d, ?_⟩
  obtain ⟨failure, hf, hproved⟩ := refreshFound_unrecognised (H := H) (e := e) parsed hu deviceId now d
  rw [hf, hproved hr]

end Engine

/-! ### Every run -/

/-- A row of an unknown status refuses the token that opens it: the first request of the refresh is its
lookup, and if that is answered with such a row, it is the last, and the refresh returns `REVOKED`. -/
def RefusesUnknown (H : HmacSha256) (e : NebulaEngine) (parsed : ParsedToken) (tr : List Reply)
    (p : EngineM Outcome) : Prop :=
  (tr = [] ∧ ∃ k, p = .call (.findBySelector parsed.selector) k) ∨
    ∃ found rest, tr = rest ++ [⟨.findBySelector parsed.selector, found⟩] ∧
      ∀ r, found = some r → Unrecognised r.status → ProvesRow H e parsed r →
        rest = [] ∧ p = .ret (.refreshed (.refused (fail .revoked r.record)))

/-- **The engine tolerates what stores report, and nothing else.** Over two stores that keep the contract
and report in different ways, an operation run alone ends the same and leaves the same rows, and a pool
of calls does the same step by step. Over a store that returns anything at all, a refresh succeeds only
for a row whose status is read as active or rotated, and only if the compare-and-set was answered with
true or a positive count; and if the token opens a row of an unknown status, the lookup is the one call
that the refresh makes, and it returns `REVOKED`. -/
theorem tolerates_reports (H : HmacSha256) :
    (∀ {σ : Type} (answer : (q : StoreCall) → σ → Option (q.Reply × σ)) (a b : Adapter) (op : Operation)
      (s : σ),
      (code H op).eval (fun q s => (answer q s).map fun x => (a.reply q x.1, x.2)) s =
        (code H op).eval (fun q s => (answer q s).map fun x => (b.reply q x.1, x.2)) s) ∧
    (∀ {σ Env : Type} (svc : Service StoreCall StoreCall.Reply σ Env) (a b : Adapter),
      ∃ R, System.Bisimulation (pool (code H) (reported a.reply svc)) (pool (code H) (reported b.reply svc))
          R ∧
        ∀ s t, R s t → s.shared = t.shared ∧
          s.threads.map (fun th => (th.op, th.mode, th.prog.ended)) =
            t.threads.map fun th => (th.op, th.mode, th.prog.ended)) ∧
    (∀ {σ Env : Type} (svc : Service StoreCall Returned σ Env) s, (pool (code H) svc).Reachable s →
      ∀ th ∈ s.threads, ∀ e token deviceId now d, th.op = .refresh e token deviceId now d →
        (∀ success, th.prog = .ret (.refreshed (.ok success)) →
          ∃ sel r rest, th.trace = rest ++ [⟨.findBySelector sel, some r⟩] ∧ Rotatable r ∧
            Marked r th.trace) ∧
        (∀ sel r rest, th.trace = rest ++ [⟨.findBySelector sel, some r⟩] → Unrecognised r.status →
          rest = [] ∧ ∃ failure, th.prog = .ret (.refreshed (.refused failure))) ∧
        ∀ parsed, Ruby.parseToken token = some parsed → (e.peppers.get parsed.kid).isSome = true →
          RefusesUnknown H e parsed th.trace th.prog) ∧
    ∀ {σ : Type} (answer : (q : StoreCall) → σ → Option (Returned q × σ)) (s s' : σ) e token deviceId now d
      parsed r, Ruby.parseToken token = some parsed → (e.peppers.get parsed.kid).isSome = true →
        answer (.findBySelector parsed.selector) s = some (some r, s') → Unrecognised r.status →
        ProvesRow H e parsed r → (code H (.refresh e token deviceId now d)).eval answer s =
          (some (.ok (.refreshed (.refused (fail .revoked r.record)))), s') := by
  refine ⟨fun answer a b op s => ?_, fun svc a b => ?_, ?_, ?_⟩
  · rw [eval_reported, eval_reported, (normalised op).adapt_eq a, (normalised op).adapt_eq b]
  · have hcode : ∀ a : Adapter, (fun op => (code H op).adapt a.reply) =
        fun op => (code H op).adapt plain.reply := fun a => funext fun op => (normalised op).adapt_eq a
    have ha := bisimulation a.reply (code H) svc
    have hb := bisimulation b.reply (code H) svc
    -- over either store the calls do what they do over the store itself
    rw [hcode] at ha hb
    refine ⟨_, ha.symm.trans hb, ?_⟩
    rintro s t ⟨u, hs, ht⟩
    exact ⟨hs.shared.trans ht.shared.symm, hs.ended.trans ht.ended.symm⟩
  · intro σ Env svc s hs th hth e token deviceId now d hop
    have hl := leads (hs.under (G := fun _ _ => True) fun _ _ => trivial) th hth
    rw [hop] at hl
    obtain ⟨p, hp, he⟩ := Leads.of_map hl
    refine ⟨fun success hret => ?_, fun sel r rest htr hu => ?_, fun parsed hparsed hkid => ?_⟩
    · rw [he] at hret
      obtain ⟨result, rfl, hr⟩ := Prog.map_eq_ret hret
      obtain rfl := Outcome.refreshed.inj hr
      exact refresh_success hp
    · rw [htr] at hp
      obtain ⟨hnil, failure, rfl⟩ := refresh_unrecognised hp hu
      exact ⟨hnil, failure, he⟩
    · rw [refresh_asks hparsed hkid] at hp
      rcases Leads.of_call hp with ⟨htr, rfl⟩ | ⟨found, rest, htr, hf⟩
      · exact Or.inl ⟨htr, _, he⟩
      · refine Or.inr ⟨found, rest, htr, ?_⟩
        rintro r rfl hu hr
        obtain ⟨failure, hfound, hproved⟩ := refreshFound_unrecognised (H := H) (e := e) parsed hu deviceId
          now d
        have hf : Leads (Ruby.Engine.refreshFound H e parsed deviceId now d (some r)) rest p := hf
        rw [hfound] at hf
        obtain ⟨rfl, rfl⟩ := Leads.of_ret hf
        exact ⟨rfl, by rw [he, hproved hr]; rfl⟩
  · intro σ answer s s' e token deviceId now d parsed r hparsed hkid ha hu hr
    obtain ⟨k, hk, hret⟩ := refresh_revoked hparsed hkid hu hr deviceId now d
    show (Outcome.refreshed <$> Ruby.Engine.refresh H e token deviceId now d).eval answer s = _
    rw [hk, Prog.map_call, Prog.eval_call _ ha, hret]
    rfl

/-- The operation that presents the first token. -/
def samplePresentation : Operation :=
  .refresh (sampleEngine 0) (utf8 (sampleToken 0 0)) none 1010 (sampleDraw 1)

/-- The row of a login, under a status that is none: `Active`. -/
def unknownRow : Row :=
  { plain.row (sampleRow 0 0) with status := .string (ascii ['A', 'c', 't', 'i', 'v', 'e']) }

/-- A store that returns that row, and does nothing else. -/
def unknownStore : (q : StoreCall) → Unit → Option (Returned q × Unit)
  | .findBySelector _, s => some (some unknownRow, s)
  | _, _ => none

/-- A refresh over a store of names and counts succeeds and rotates the row; one that is given a row of an
unknown status is refused. -/
theorem tolerates_reports_sample :
    (∃ success rows, (code sampleHmac samplePresentation).eval (fun q s =>
        (MemoryRefreshTokenStore.answer s q).map fun x => (Ruby.rowAdapter.reply q x.1, x.2))
        (Table.empty.set (sampleRow 0 0).selector (sampleRow 0 0)) =
        (some (.ok (.refreshed (.ok success))), rows) ∧
      (rows.get (sampleRow 0 0).selector).map TokenRecord.status = some .rotated) ∧
    (code sampleHmac samplePresentation).eval unknownStore () =
      (some (.ok (.refreshed (.refused (fail .revoked unknownRow.record)))), ()) := by
  have hparsed : ∃ parsed, Ruby.parseToken (utf8 (sampleToken 0 0)) = some parsed ∧
      ((sampleEngine 0).peppers.get parsed.kid).isSome = true ∧
      ProvesRow sampleHmac (sampleEngine 0) parsed unknownRow := ⟨_, rfl, rfl, _, rfl, rfl⟩
  obtain ⟨parsed, hp, hkid, hproves⟩ := hparsed
  have hunknown : Unrecognised unknownRow.status := fun s => by cases s <;> decide
  have hall := tolerates_reports sampleHmac
  refine ⟨?_, hall.2.2.2 unknownStore () () (sampleEngine 0) _ none 1010 (sampleDraw 1) parsed unknownRow
    hp hkid rfl hunknown hproves⟩
  rw [hall.1 (fun q s => MemoryRefreshTokenStore.answer s q) Ruby.rowAdapter plain]
  exact ⟨_, _, rfl, rfl⟩

end NebulaToken.Ports.RubyStores
