import NebulaToken.Engine.Operations
import NebulaToken.Token.Utf8

/-! # Sender binding

A login may bind its family to a device: every record of the family then holds the digest of the
device, under the pepper of the record's own kid. A rotation digests the presented device anew, under
the active pepper.

* `Bound`: the binding of a record to a device, or to none;
* `Bound.accepts`, `Bound.migrates`: a binding accepts its device, and is carried over by a rotation;
* `Bound.accepts_iff`, `Bound.accepts_exactly`: it accepts no other device, if digests do not collide. -/

namespace NebulaToken.Engine.Binding

open NebulaToken.Lib.Codec NebulaToken.Token.Unicode NebulaToken.Token.Utf8 NebulaToken.Token.Wire
open NebulaToken.Engine.Records NebulaToken.Engine.Config NebulaToken.Engine.Operations

variable {H : HmacSha256} {e e' : NebulaEngine} {pepper : Str} {device : Option Str} {r : TokenRecord}

/-- The stored digest `hash` is that of the device under the pepper, or both are absent. -/
def Bound (H : HmacSha256) (pepper : Str) (device hash : Option Str) : Prop :=
  match device with
  | some dev => ∃ h, hashDeviceId H pepper dev = .ok h ∧ hash = some h
  | none => hash = none

/-- A login binds its record to its device. -/
theorem bindDevice_iff {hash : Option Str} :
    bindDevice H e device = .ok hash ↔ Bound H e.activePepper device hash := by
  unfold bindDevice Bound
  cases device with
  | none =>
    constructor
    · intro h
      exact (Except.ok.inj h).symm
    · rintro rfl
      rfl
  | some dev =>
    dsimp only
    cases hh : hashDeviceId H e.activePepper dev with
    | error err =>
      constructor
      · intro h
        cases h
      · rintro ⟨h, he, -⟩
        cases he
    | ok h =>
      constructor
      · intro ho
        exact ⟨h, rfl, (Except.ok.inj ho).symm⟩
      · rintro ⟨h', he, rfl⟩
        obtain rfl := Except.ok.inj he
        rfl

/-- The digest of a device compares equal to itself. -/
theorem constantTimeEqualHex_hashDeviceId {dev h : Str} (hh : hashDeviceId H pepper dev = .ok h) :
    constantTimeEqualHex h h = true := by
  unfold hashDeviceId at hh
  split_ifs at hh
  rw [← Except.ok.inj hh]
  exact constantTimeEqualHex_hashVerifier H pepper _

/-- **A binding accepts its device.** -/
theorem Bound.accepts (h : Bound H pepper device r.deviceIdHash) :
    deviceRefused H r pepper device = false := by
  unfold deviceRefused
  cases device with
  | none =>
    have hnone : r.deviceIdHash = none := h
    rw [hnone]
    rfl
  | some dev =>
    obtain ⟨hash, hh, hsome⟩ := h
    unfold deviceMatches
    rw [hsome]
    dsimp only
    rw [hh]
    dsimp only
    rw [constantTimeEqualHex_hashDeviceId hh]
    rfl

/-- **A rotation carries a binding over** to the active pepper. -/
theorem Bound.migrates (h : Bound H pepper device r.deviceIdHash) {hash : Option Str}
    (hm : migrateDevice H e r device = .ok hash) : Bound H e.activePepper device hash := by
  unfold migrateDevice at hm
  cases device with
  | none =>
    have hnone : r.deviceIdHash = none := h
    rw [hnone] at hm
    exact (Except.ok.inj hm).symm
  | some dev =>
    obtain ⟨stored, -, hsome⟩ := h
    rw [hsome] at hm
    exact bindDevice_iff.mp hm

/-- The text of a device identifier that is digested. -/
def deviceMessage (dev : Str) : List UInt8 := utf8 (devicePrefix ++ dev)

/-- No two of the messages have one digest under the pepper. -/
def Distinct (H : HmacSha256) (M : Set (List UInt8)) (pepper : Str) : Prop :=
  Set.InjOn (H.run (utf8 pepper)) M

/-- The presenter's device is one that the binding to `device` accepts. -/
def SameDevice (device deviceId : Option Str) : Prop :=
  ∀ dev, device = some dev → ∃ dev', deviceId = some dev' ∧ isWellFormedUnicode dev' = true ∧
    deviceMessage dev' = deviceMessage dev

variable {M : Set (List UInt8)}

/-- Digests compare equal only if their messages are equal. -/
theorem digest_iff (hM : Distinct H M pepper) {m m' : List UInt8} (hm : m ∈ M) (hm' : m' ∈ M) :
    constantTimeEqualHex (hashVerifier H pepper m) (hashVerifier H pepper m') = true ↔ m = m' := by
  constructor
  · intro h
    exact hM hm hm' (hexEncode_injective (eq_of_constantTimeEqualHex h))
  · rintro rfl
    exact constantTimeEqualHex_hashVerifier H pepper m

theorem hashDeviceId_eq {dev : Str} (h : isWellFormedUnicode dev = true) :
    hashDeviceId H pepper dev = .ok (hashVerifier H pepper (deviceMessage dev)) := by
  unfold hashDeviceId
  rw [if_neg (not_not.mpr h)]
  rfl

/-- **A binding accepts its own device only.** -/
theorem Bound.accepts_iff (hM : Distinct H M pepper) {deviceId : Option Str}
    (hb : Bound H pepper device r.deviceIdHash)
    (hdev : ∀ dev, device = some dev → deviceMessage dev ∈ M)
    (hid : ∀ dev, deviceId = some dev → deviceMessage dev ∈ M) :
    deviceRefused H r pepper deviceId = false ↔ SameDevice device deviceId := by
  cases device with
  | none =>
    have hnone : r.deviceIdHash = none := hb
    unfold deviceRefused
    rw [hnone]
    exact ⟨fun _ dev h => (by cases h), fun _ => rfl⟩
  | some dev =>
    obtain ⟨h, hh, hsome⟩ := hb
    have hwf : isWellFormedUnicode dev = true := by
      by_contra hwf
      rw [hashDeviceId, if_pos hwf] at hh
      cases hh
    obtain rfl := Except.ok.inj ((hashDeviceId_eq hwf).symm.trans hh)
    have hm := hdev dev rfl
    unfold deviceRefused deviceMatches
    rw [hsome]
    cases deviceId with
    | none => exact ⟨fun h => (by cases h), fun h => (by obtain ⟨dev', h', -⟩ := h dev rfl; cases h')⟩
    | some dev' =>
      have hm' := hid dev' rfl
      dsimp only
      by_cases hwf' : isWellFormedUnicode dev' = true
      · rw [hashDeviceId_eq hwf']
        dsimp only
        rw [Option.isSome_some, Bool.true_and, Bool.not_eq_false', digest_iff hM hm' hm]
        constructor
        · rintro heq dev₀ h₀
          obtain rfl := Option.some.inj h₀
          exact ⟨dev', rfl, hwf', heq⟩
        · intro h
          obtain ⟨dev₁, h₁, -, heq⟩ := h dev rfl
          obtain rfl := Option.some.inj h₁
          exact heq
      · have herr : hashDeviceId H pepper dev' = .error .deviceIdUnicode := if_pos hwf'
        rw [herr]
        refine ⟨fun h => (by cases h), fun h => ?_⟩
        obtain ⟨dev₁, h₁, hwf₁, -⟩ := h dev rfl
        obtain rfl := Option.some.inj h₁
        exact absurd hwf₁ hwf'

/-! ### One device, one digest -/

/-- The digest of a device under a pepper. -/
def deviceDigest (H : HmacSha256) (pepper device : Str) : Str :=
  hexEncode (H.run (utf8 pepper) (utf8 (devicePrefix ++ device)))

/-- A device that has a digest is valid Unicode. -/
theorem Bound.wellFormed {dev : Str} {hash : Option Str} (h : Bound H pepper (some dev) hash) :
    isWellFormedUnicode dev = true := by
  obtain ⟨h, hh, -⟩ := h
  unfold hashDeviceId at hh
  by_contra hwf
  rw [if_pos hwf] at hh
  cases hh

/-- A binding is the digest of its device. -/
theorem Bound.eq {hash : Option Str} (h : Bound H pepper device hash) :
    hash = device.map (deviceDigest H pepper) := by
  cases device with
  | none => exact h
  | some dev =>
    have hwf := h.wellFormed
    obtain ⟨x, hx, rfl⟩ := h
    obtain rfl := Except.ok.inj ((hashDeviceId_eq hwf).symm.trans hx)
    rfl

/-- Two devices with one message are one device. -/
theorem device_eq {dev dev' : Str} (hwf : isWellFormedUnicode dev = true)
    (hwf' : isWellFormedUnicode dev' = true) (h : deviceMessage dev' = deviceMessage dev) :
    dev' = dev := by
  have hascii : ∀ u ∈ devicePrefix, u.toNat < 0x80 := ascii_of_check (by decide)
  unfold deviceMessage at h
  rw [utf8_append hascii, utf8_append hascii] at h
  exact utf8_inj hwf' hwf (List.append_cancel_left h)

/-- **A binding accepts exactly its device.** -/
theorem Bound.accepts_exactly {deviceId : Option Str} (hM : Distinct H M pepper) {dev : Str}
    (hb : Bound H pepper (some dev) r.deviceIdHash) (hdev : deviceMessage dev ∈ M)
    (hid : ∀ dev', deviceId = some dev' → deviceMessage dev' ∈ M) :
    deviceRefused H r pepper deviceId = false ↔ deviceId = some dev := by
  have hacc : deviceRefused H r pepper deviceId = false ↔ SameDevice (some dev) deviceId :=
    hb.accepts_iff hM (fun dev' h => Option.some.inj h ▸ hdev) hid
  rw [hacc]
  constructor
  · intro h
    obtain ⟨dev', hd, hwf', hmsg⟩ := h dev rfl
    rw [hd, device_eq hb.wellFormed hwf' hmsg]
  · rintro rfl dev' h
    obtain rfl := Option.some.inj h
    exact ⟨dev, rfl, hb.wellFormed, rfl⟩

/-- **A rotation from the bound device carries the binding over.** -/
theorem Bound.inherited {deviceId : Option Str} (hb : Bound H pepper device r.deviceIdHash)
    (hd : ∀ dev, device = some dev → deviceId = some dev) {hash : Option Str}
    (hm : migrateDevice H e r deviceId = .ok hash) : Bound H e.activePepper device hash := by
  cases device with
  | none =>
    have hnone : r.deviceIdHash = none := hb
    unfold migrateDevice at hm
    rw [hnone] at hm
    exact (Except.ok.inj hm).symm
  | some dev =>
    rw [hd dev rfl] at hm
    exact hb.migrates hm

end NebulaToken.Engine.Binding
