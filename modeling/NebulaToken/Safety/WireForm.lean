import NebulaToken.Runs.Execution
import NebulaToken.Store.Memory

/-! # The wire forms of a credential

Steps 1 to 4 tie the selector and the verifier of a token to the record, and ask of its kid only that
a pepper be configured under it. So a record has one wire form for each configured pepper.

* `second_form`: with two peppers configured, a token altered in its kid is accepted;
* `wire_forms`: nothing else can be altered. -/

namespace NebulaToken.Safety.WireForm

open NebulaToken.Lib.Program NebulaToken.Lib.Codec NebulaToken.Lib.KeyedTable
open NebulaToken.Token.Unicode NebulaToken.Token.Wire NebulaToken.Engine.Records
open NebulaToken.Engine.Config NebulaToken.Engine.Operations NebulaToken.Runs.Execution
open NebulaToken.Store.Memory NebulaToken.Store.Memory.MemoryRefreshTokenStore

/-- Every row stands under its own selector, as the contract of the lookup has it. -/
def Keyed (rows : Rows) : Prop := ∀ sel r, rows.get sel = some r → r.selector = sel

/-- Verifiers that differ have digests that differ, under each pepper. -/
def InjectiveOnVerifiers (H : HmacSha256) : Prop :=
  ∀ (pepper : Str) (v v' : List UInt8), v.length = verifierBytes → v'.length = verifierBytes →
    H.run (utf8 pepper) v = H.run (utf8 pepper) v' → v = v'

/-- The text passes steps 1 to 4 against the rows, and `r` is the record it resolves to. -/
def Passes (H : HmacSha256) (e : NebulaEngine) (rows : Rows) (token : Str) (r : TokenRecord) : Prop :=
  ∃ parsed pepper, parseConfigured e token = .ok parsed ∧ rows.get parsed.selector = some r ∧
    proveVerifier H e r parsed = .ok pepper

/-- `revokeToken` succeeds for the text, and `r` is the record it resolves to. -/
def Revokes (H : HmacSha256) (e : NebulaEngine) (rows : Rows) (token : Str) (r : TokenRecord) : Prop :=
  (∃ parsed, parseToken token = some parsed ∧ rows.get parsed.selector = some r) ∧
    ∃ n, (run (revokeToken H e token) rows).1 = some (.ok (.ok r.userId r.familyId n))

/-- The text reaches step 5 of `refresh` against the record, or succeeds in `revokeToken`. -/
def Accepted (H : HmacSha256) (e : NebulaEngine) (rows : Rows) (token : Str) (r : TokenRecord) : Prop :=
  Passes H e rows token r ∨ Revokes H e rows token r

variable {H : HmacSha256} {e : NebulaEngine} {rows : Rows} {token : Str} {r : TokenRecord}

/-! ### What passes -/

theorem parseConfigured_ok {parsed : ParsedToken} :
    parseConfigured e token = .ok parsed ↔
      parseToken token = some parsed ∧ (e.peppers.get parsed.kid).isSome := by
  unfold parseConfigured
  cases parseToken token with
  | none => simp
  | some p =>
    dsimp only
    split_ifs with h
    · constructor
      · rintro ⟨⟩
        exact ⟨rfl, h⟩
      · rintro ⟨hp, -⟩
        rw [Option.some.inj hp]
    · constructor
      · rintro ⟨⟩
      · rintro ⟨hp, hk⟩
        rw [Option.some.inj hp] at h
        exact absurd hk h

theorem proveVerifier_ok {parsed : ParsedToken} {pepper : Str} :
    proveVerifier H e r parsed = .ok pepper ↔ e.peppers.get r.kid = some pepper ∧
      constantTimeEqualHex (hashVerifier H pepper parsed.verifier) r.verifierHash = true := by
  unfold proveVerifier
  cases e.peppers.get r.kid with
  | none => simp
  | some p =>
    dsimp only
    split_ifs with h
    · constructor
      · rintro ⟨⟩
        exact ⟨rfl, h⟩
      · rintro ⟨hp, -⟩
        rw [Option.some.inj hp]
    · constructor
      · rintro ⟨⟩
      · rintro ⟨hp, hk⟩
        rw [Option.some.inj hp] at h
        exact absurd hk h

theorem refresh_parsed {parsed : ParsedToken} (hp : parseConfigured e token = .ok parsed)
    (deviceId : Option Str) (now : ℤ) (d : Draw) : run (refresh H e token deviceId now d) rows =
      run (refreshFound H e parsed deviceId now d (rows.get parsed.selector)) rows := by
  unfold refresh
  rw [hp]
  exact run_find _ _ _

/-- **A refresh that passes goes on with step 5**, against the record. -/
theorem refresh_of_passes (h : Passes H e rows token r) : ∃ pepper, ∀ deviceId now d,
    run (refresh H e token deviceId now d) rows =
      run (refreshProved H e r pepper deviceId now d) rows := by
  obtain ⟨parsed, pepper, hp, hr, hv⟩ := h
  refine ⟨pepper, fun deviceId now d => ?_⟩
  rw [refresh_parsed hp, hr, refreshFound, hv]

theorem revokeToken_parsed {parsed : ParsedToken} (hp : parseConfigured e token = .ok parsed) :
    run (revokeToken H e token) rows =
      run (revokeFound H e parsed (rows.get parsed.selector)) rows := by
  unfold revokeToken
  rw [hp]
  exact run_find _ _ _

/-- A text that passes revokes the family of its record. -/
theorem revokeToken_of_passes (h : Passes H e rows token r) :
    run (revokeToken H e token) rows =
      (some (.ok (.ok r.userId r.familyId (revokeFamily rows r.familyId).1)),
        (revokeFamily rows r.familyId).2) := by
  obtain ⟨parsed, pepper, hp, hr, hv⟩ := h
  rw [revokeToken_parsed hp, hr, revokeFound, hv]
  rfl

/-- `revokeToken` succeeds for the texts that pass. -/
theorem revokes_iff : Revokes H e rows token r ↔ Passes H e rows token r := by
  constructor
  · rintro ⟨⟨parsed, hparse, hr⟩, n, hrev⟩
    cases hp : parseConfigured e token with
    | error err =>
      unfold revokeToken at hrev
      rw [hp] at hrev
      cases hrev
    | ok parsed' =>
      obtain rfl := Option.some.inj (hparse.symm.trans (parseConfigured_ok.mp hp).1)
      cases hv : proveVerifier H e r parsed with
      | error f =>
        rw [revokeToken_parsed hp, hr, revokeFound, hv] at hrev
        cases hrev
      | ok pepper => exact ⟨parsed, pepper, hp, hr, hv⟩
  · intro h
    have hrev := revokeToken_of_passes h
    obtain ⟨parsed, pepper, hp, hr, -⟩ := h
    exact ⟨⟨parsed, (parseConfigured_ok.mp hp).1, hr⟩, _, congrArg Prod.fst hrev⟩

/-! ### The forms -/

/-- **Two texts that pass for one record** have the same verifier. -/
theorem verifier_unique (hinj : InjectiveOnVerifiers H) {p p' : ParsedToken} {pepper pepper' : Str}
    (h : proveVerifier H e r p = .ok pepper) (h' : proveVerifier H e r p' = .ok pepper')
    (hl : p.verifier.length = verifierBytes) (hl' : p'.verifier.length = verifierBytes) :
    p.verifier = p'.verifier := by
  obtain ⟨hk, he⟩ := proveVerifier_ok.mp h
  obtain ⟨hk', he'⟩ := proveVerifier_ok.mp h'
  obtain rfl := Option.some.inj (hk.symm.trans hk')
  refine hinj pepper _ _ hl hl' (hexEncode_injective ?_)
  exact (eq_of_constantTimeEqualHex he).trans (eq_of_constantTimeEqualHex he').symm

theorem accepted_iff : Accepted H e rows token r ↔ Passes H e rows token r :=
  ⟨fun h => h.elim id revokes_iff.mp, Or.inl⟩

/-- A text that is accepted stays so under every configured kid. -/
theorem passes_of_kid {p : ParsedToken} {pepper kid : Str} (hwf : p.WellFormed)
    (hr : rows.get p.selector = some r) (hv : proveVerifier H e r p = .ok pepper)
    (hk : (e.peppers.get kid).isSome) :
    Passes H e rows (tokenString kid p.selector p.verifier) r := by
  obtain ⟨secret, hs⟩ := Option.isSome_iff_exists.mp hk
  obtain ⟨htest, hlen⟩ := e.kid_wellFormed hs
  have hwf' : ParsedToken.WellFormed ⟨kid, p.selector, p.verifier⟩ :=
    ⟨hlen, htest, hwf.selector_length, hwf.selector_test, hwf.verifier_length⟩
  exact ⟨_, pepper, parseConfigured_ok.mpr ⟨parseToken_tokenString hwf', hk⟩, hr, hv⟩

/-! ### Two peppers -/

/-- The digest of the sample verifier, and an injective function on 32 bytes that takes that value: the
verifier and its digest exchanged. -/
def exchangeHmac : HmacSha256 where
  run key msg :=
    if msg.length = 32 then
      if key = utf8 samplePepper ∧ msg = List.replicate 32 0 then
        sampleHmac.run key msg
      else if key = utf8 samplePepper ∧ msg = sampleHmac.run (utf8 samplePepper) (List.replicate 32 0) then
        List.replicate 32 0
      else msg
    else List.replicate 32 0
  run_length key msg := by
    split_ifs with h
    · exact sampleHmac.run_length _ _
    · rfl
    · exact h
    · rfl

theorem exchangeHmac_injective : InjectiveOnVerifiers exchangeHmac := by
  intro pepper v v' hv hv' he
  have hv : v.length = 32 := hv
  have hv' : v'.length = 32 := hv'
  dsimp only [exchangeHmac] at he
  rw [if_pos hv, if_pos hv'] at he
  split_ifs at he <;> grind

/-- `k2`. -/
def secondKid : Str := ascii ['k', '2']

/-- The pepper under it: the sample pepper and one more digit. -/
def secondPepper : Str := samplePepper ++ ascii ['0']

theorem rotatingKids_nodup :
    ([(sampleKid, samplePepper), (secondKid, secondPepper)].map Prod.fst).Nodup := by decide

/-- An engine between two peppers: it mints under the first, and has the second configured. -/
def rotatingEngine : NebulaEngine where
  peppers := ⟨[(sampleKid, samplePepper), (secondKid, secondPepper)], rotatingKids_nodup⟩
  activeKid := sampleKid
  absoluteTtl := 1000
  idleTtl := 100
  reuseGrace := 0
  peppers_checked := by decide
  activeKid_present := by decide
  absoluteTtl_pos := sampleEngine_absoluteTtl
  idleTtl_pos := sampleEngine_idleTtl
  reuseGrace_nonneg := rfl

/-- The rows after a login. -/
def rotatingRows : Rows :=
  (run (issue exchangeHmac rotatingEngine (ascii ['u']) none 1000 (sampleLogin 0 0).draw)
    Table.empty).2

/-- The token of the login under a kid. -/
def rotatingToken (kid : Str) : Str :=
  tokenString kid (sampleDraw 0).selectorText (sampleDraw 0).verifier

theorem rotatingRows_keyed : Keyed rotatingRows := by
  intro sel r h
  obtain ⟨r₀, hset, hsel⟩ : ∃ r₀ : TokenRecord, rotatingRows = Table.empty.set r₀.selector r₀ ∧
      r₀.selector = (sampleDraw 0).selectorText := ⟨_, rfl, rfl⟩
  rw [hset] at h
  rcases eq_or_ne sel r₀.selector with rfl | hne
  · rw [Table.get_set_self] at h
    rw [← Option.some.inj h]
  · rw [Table.get_set_ne _ hne] at h
    cases h

theorem rotatingRows_get : ∃ r, rotatingRows.get (sampleDraw 0).selectorText = some r ∧
    Accepted exchangeHmac rotatingEngine rotatingRows (rotatingToken sampleKid) r ∧
    Accepted exchangeHmac rotatingEngine rotatingRows (rotatingToken secondKid) r := by
  obtain ⟨r, hr, hv, hv'⟩ : ∃ r, rotatingRows.get (sampleDraw 0).selectorText = some r ∧
      proveVerifier exchangeHmac rotatingEngine r
        ⟨sampleKid, (sampleDraw 0).selectorText, (sampleDraw 0).verifier⟩ = .ok samplePepper ∧
      proveVerifier exchangeHmac rotatingEngine r
        ⟨secondKid, (sampleDraw 0).selectorText, (sampleDraw 0).verifier⟩ = .ok samplePepper :=
    ⟨_, rfl, rfl, rfl⟩
  exact ⟨r, hr, Or.inl ⟨_, _, rfl, hr, hv⟩, Or.inl ⟨_, _, rfl, hr, hv'⟩⟩

/-- **A record may have two wire forms**: the kid of a token is not compared with that of the record. -/
theorem second_form : ¬ ∀ (H : HmacSha256) (e : NebulaEngine) (rows : Rows) (token token' : Str)
    (r : TokenRecord), InjectiveOnVerifiers H → Keyed rows → Accepted H e rows token r →
      Accepted H e rows token' r → token = token' := by
  intro h
  obtain ⟨r, -, ha, ha'⟩ := rotatingRows_get
  exact absurd (h _ _ _ _ _ r exchangeHmac_injective rotatingRows_keyed ha ha') (by decide)

/-- **The wire forms of a record.** Under every configuration, in every state of the store and for every
record, verifiers being determined by their digests under a pepper: a text that reaches step 5 of
`refresh`, or succeeds in `revokeToken`, is the wire form of the selector of the record and of one
verifier under a configured kid, and the texts that do so are the wire forms of these under the
configured kids. If one pepper is configured, there is one such text. -/
theorem wire_forms (hinj : InjectiveOnVerifiers H) (hkey : Keyed rows) (h : Accepted H e rows token r) :
    ∃ kid verifier, (e.peppers.get kid).isSome ∧ token = tokenString kid r.selector verifier ∧
      (∀ token', Accepted H e rows token' r ↔
        ∃ kid', (e.peppers.get kid').isSome ∧ token' = tokenString kid' r.selector verifier) ∧
      ((∀ kid', (e.peppers.get kid').isSome → kid' = kid) →
        ∀ token', Accepted H e rows token' r → token' = token) := by
  obtain ⟨p, pepper, hp, hr, hv⟩ := accepted_iff.mp h
  obtain ⟨hparse, hk⟩ := parseConfigured_ok.mp hp
  obtain ⟨htok, hwf⟩ := eq_tokenString_of_parseToken hparse
  have hsel := hkey _ r hr
  have hiff : ∀ token', Accepted H e rows token' r ↔
      ∃ kid', (e.peppers.get kid').isSome ∧ token' = tokenString kid' r.selector p.verifier := by
    intro token'
    rw [accepted_iff]
    constructor
    · rintro ⟨p', pepper', hp', hr', hv'⟩
      obtain ⟨hparse', hk'⟩ := parseConfigured_ok.mp hp'
      obtain ⟨htok', hwf'⟩ := eq_tokenString_of_parseToken hparse'
      refine ⟨p'.kid, hk', ?_⟩
      rw [htok', hkey _ r hr',
        verifier_unique hinj hv hv' hwf.verifier_length hwf'.verifier_length]
    · rintro ⟨kid', hk', rfl⟩
      rw [hsel]
      exact passes_of_kid hwf hr hv hk'
  refine ⟨p.kid, p.verifier, hk, by rw [hsel]; exact htok, hiff, fun hone token' h' => ?_⟩
  obtain ⟨kid', hk', rfl⟩ := (hiff token').mp h'
  rw [hone kid' hk', hsel, htok]

theorem wire_forms_sample : ∃ r, rotatingRows.get (sampleDraw 0).selectorText = some r ∧
    ∃ kid verifier, rotatingToken sampleKid = tokenString kid r.selector verifier ∧
      ∀ token', Accepted exchangeHmac rotatingEngine rotatingRows token' r ↔
        ∃ kid', (rotatingEngine.peppers.get kid').isSome ∧
          token' = tokenString kid' r.selector verifier := by
  obtain ⟨r, hr, ha, -⟩ := rotatingRows_get
  obtain ⟨kid, verifier, -, htok, hiff, -⟩ :=
    wire_forms exchangeHmac_injective rotatingRows_keyed ha
  exact ⟨r, hr, kid, verifier, htok, hiff⟩

end NebulaToken.Safety.WireForm
