import NebulaToken.Lib.Faults
import NebulaToken.Ports.Agreement

/-! # What a store may return to the Elixir engine

A callback may return any term. Each of the engine's adapters passes on the terms of the contract, and
raises a `StoreError` for every other, with the reason of an `{:error, reason}` or with the term itself.

* `adapter_ok_iff`: the terms of the contract are those that are passed on;
* `code_eq`: the engine over such a store. -/

namespace NebulaToken.Ports.ElixirStores

open NebulaToken.Lib.Program NebulaToken.Lib.Faults NebulaToken.Token.Unicode NebulaToken.Token.Wire
open NebulaToken.Engine.Records NebulaToken.Runs.Calls NebulaToken.Ports.Agreement

inductive Atom
  | ok
  | error
  | nil
  | true
  | false
  | unexpectedReturn
  | other (name : Str)
  deriving DecidableEq, Repr

/-- A term, as far as the adapters look at it. -/
inductive Term
  | atom (a : Atom)
  | integer (n : ℤ)
  | record (r : TokenRecord)
  | pair (a b : Term)
  | other (n : ℕ)
  deriving DecidableEq, Repr

inductive Callback
  | findBySelector
  | insert
  | markRotated
  | revokeIfActive
  | revokeFamily
  | revokeUser
  deriving DecidableEq, Repr

/-- `NebulaToken.StoreError`. -/
structure StoreError where
  operation : Callback
  reason : Term
  deriving DecidableEq, Repr

/-- `store_error!`. -/
def storeError (operation : Callback) : Term → StoreError
  | .pair (.atom .error) reason => ⟨operation, reason⟩
  | other => ⟨operation, .pair (.atom .unexpectedReturn) other⟩

/-- `store_find`. -/
def storeFind : Term → Except StoreError (Option TokenRecord)
  | .pair (.atom .ok) (.atom .nil) => .ok none
  | .pair (.atom .ok) (.record record) => .ok (some record)
  | other => .error (storeError .findBySelector other)

/-- `store_insert`. -/
def storeInsert : Term → Except StoreError Unit
  | .atom .ok => .ok ()
  | other => .error (storeError .insert other)

/-- `{:ok, applied} when is_boolean(applied)`. -/
def storeApplied (operation : Callback) : Term → Except StoreError Bool
  | .pair (.atom .ok) (.atom .true) => .ok true
  | .pair (.atom .ok) (.atom .false) => .ok false
  | other => .error (storeError operation other)

/-- `{:ok, n} when is_integer(n) and n >= 0`. -/
def storeCount (operation : Callback) : Term → Except StoreError ℕ
  | .pair (.atom .ok) (.integer (.ofNat n)) => .ok n
  | other => .error (storeError operation other)

/-- The adapter of each callback: `store_mark_rotated`, `store_revoke_if_active` and
`store_revoke_family`, and the one within `revoke_all_for_user`, differ in the name they report. -/
def adapter : (q : StoreCall) → Term → Fallible StoreError StoreCall.Reply q
  | .findBySelector _ => storeFind
  | .insert _ => storeInsert
  | .markRotated _ _ _ _ => storeApplied .markRotated
  | .revokeIfActive _ => storeApplied .revokeIfActive
  | .revokeFamily _ => storeCount .revokeFamily
  | .revokeUser _ => storeCount .revokeUser

/-- What the contract has a callback return. -/
def contractTerm : (q : StoreCall) → q.Reply → Term
  | .findBySelector _, none => .pair (.atom .ok) (.atom .nil)
  | .findBySelector _, some record => .pair (.atom .ok) (.record record)
  | .insert _, _ => .atom .ok
  | .markRotated _ _ _ _, applied => .pair (.atom .ok) (.atom (if applied then .true else .false))
  | .revokeIfActive _, applied => .pair (.atom .ok) (.atom (if applied then .true else .false))
  | .revokeFamily _, n => .pair (.atom .ok) (.integer n)
  | .revokeUser _, n => .pair (.atom .ok) (.integer n)

theorem storeApplied_ok_iff {operation : Callback} {t : Term} {b : Bool} :
    storeApplied operation t = .ok b ↔
      t = .pair (.atom .ok) (.atom (if b then .true else .false)) := by
  constructor
  · intro h
    unfold storeApplied at h
    split at h
    · cases h
      rfl
    · cases h
      rfl
    · cases h
  · rintro rfl
    cases b with
    | true => rfl
    | false => rfl

theorem storeCount_ok_iff {operation : Callback} {t : Term} {n : ℕ} :
    storeCount operation t = .ok n ↔ t = .pair (.atom .ok) (.integer n) := by
  constructor
  · intro h
    unfold storeCount at h
    split at h
    · cases h
      rfl
    · cases h
  · rintro rfl
    rfl

/-- **The terms that are passed on are those of the contract**, and as what they stand for. -/
theorem adapter_ok_iff {q : StoreCall} {t : Term} {r : q.Reply} :
    adapter q t = .ok r ↔ t = contractTerm q r := by
  cases q with
  | findBySelector sel =>
    constructor
    · intro h
      have h : storeFind t = .ok r := h
      unfold storeFind at h
      split at h
      · cases h
        rfl
      · cases h
        rfl
      · cases h
    · rintro rfl
      cases r with
      | none => rfl
      | some record => rfl
  | insert n =>
    constructor
    · intro h
      have h : storeInsert t = .ok r := h
      unfold storeInsert at h
      split at h
      · rfl
      · cases h
    · rintro rfl
      rfl
  | markRotated sel f at_ by_ => exact storeApplied_ok_iff
  | revokeIfActive sel => exact storeApplied_ok_iff
  | revokeFamily familyId => exact storeCount_ok_iff
  | revokeUser userId => exact storeCount_ok_iff

/-- A program of the engine, over a store that returns terms. -/
abbrev raising {α : Type} (p : StoreM α) :
    Prog StoreCall (fun _ => Term) Empty (Except (NebulaConfigError ⊕ StoreError) α) :=
  (fallible StoreError p).adapt adapter

variable (H : HmacSha256)

/-- The program of an operation of the engine. -/
def code (op : Operation) :
    Prog StoreCall (fun _ => Term) Empty (Except (NebulaConfigError ⊕ StoreError) Outcome) :=
  raising (Port.elixir.code H op)

/-- **Each operation is the program of the engine**, which ends with the first `StoreError`. -/
theorem code_eq {op : Operation} (h : Portable op) : code H op = raising (Runs.Calls.code H op) :=
  congrArg raising (Port.code_eq (p := .elixir) trivial h)

end NebulaToken.Ports.ElixirStores
