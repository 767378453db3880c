import NebulaToken.Lib.Optimistic
import NebulaToken.Store.Contract

/-! # The C# reference store, step by step

Records are immutable, and the store holds references to them. `MarkRotatedAsync`, `RevokeIfActiveAsync`
and the loop of `RevokeWhere` over one row read the reference (`TryGetValue`), look at the record, make a
changed copy and put it there if the reference is still the one they read (`TryUpdate`); if not, they
start again.

* `copy`, `asRotated`, `asRevoked`: the copies of a record;
* `RowCall.Wants`, `RowCall.Writes`: the record a call asks for, and what it changes in it;
* `cas_loops_atomic`: in every interleaving of any number of such calls, a call that returns true changes
  its row once, as it was asked to, and one that returns false changes nothing. -/

namespace NebulaToken.Store.CSharp

open NebulaToken.Lib.Transition NebulaToken.Lib.Optimistic NebulaToken.Token.Unicode
open NebulaToken.Engine.Records

/-! ### Copies of a record -/

/-- `Copy`. -/
def copy (r : TokenRecord) (status : TokenStatus) (rotatedAt : Option ℤ) (replacedBySelector : Option Str) :
    TokenRecord where
  selector := r.selector
  verifierHash := r.verifierHash
  kid := r.kid
  familyId := r.familyId
  generation := r.generation
  userId := r.userId
  deviceIdHash := r.deviceIdHash
  createdAt := r.createdAt
  familyExpiresAt := r.familyExpiresAt
  idleExpiresAt := r.idleExpiresAt
  status := status
  rotatedAt := rotatedAt
  replacedBySelector := replacedBySelector

/-- `AsRotated`. -/
def asRotated (r : TokenRecord) (rotatedAt : ℤ) (replacedBySelector : Str) : TokenRecord :=
  copy r .rotated (some rotatedAt) (some replacedBySelector)

/-- `AsRevoked`. -/
def asRevoked (r : TokenRecord) : TokenRecord := copy r .revoked r.rotatedAt r.replacedBySelector

/-! ### The loops -/

/-- The calls that write to a row; `RevokeWhere` makes one for each key. -/
inductive RowCall
  | markRotated (selector : Str) (fromStatus : TokenStatus) (rotatedAt : ℤ) (replacedBySelector : Str)
  | revokeIfActive (selector : Str)
  | revokeRow (isMatch : TokenRecord → Bool) (selector : Str)

/-- The row of a call. -/
def RowCall.selector : RowCall → Str
  | .markRotated selector _ _ _ => selector
  | .revokeIfActive selector => selector
  | .revokeRow _ selector => selector

/-- Whether the call goes on to its `TryUpdate`. -/
def RowCall.admits : RowCall → TokenRecord → Bool
  | .markRotated _ fromStatus _ _, current => !(current.status != fromStatus)
  | .revokeIfActive _, current => !(current.status != .active)
  | .revokeRow isMatch _, current => !(!isMatch current || current.status == .revoked)

/-- The copy it puts in the place of the record. -/
def RowCall.newRecord : RowCall → TokenRecord → TokenRecord
  | .markRotated _ _ rotatedAt replacedBySelector, current => asRotated current rotatedAt replacedBySelector
  | .revokeIfActive _, current => asRevoked current
  | .revokeRow _ _, current => asRevoked current

/-- The record has the status the call asks for: `fromStatus`, active, or any but revoked. -/
def RowCall.Wants : RowCall → TokenRecord → Prop
  | .markRotated _ fromStatus _ _, r => r.status = fromStatus
  | .revokeIfActive _, r => r.status = .active
  | .revokeRow isMatch _, r => isMatch r = true ∧ r.status ≠ .revoked

/-- What the call makes of the record: a rotation writes the status, the time and the successor, a
revocation the status, and all else stays. -/
def RowCall.Writes : RowCall → TokenRecord → TokenRecord → Prop
  | .markRotated _ _ rotatedAt replacedBySelector, r, r' =>
    r' = { r with
      status := .rotated, rotatedAt := some rotatedAt, replacedBySelector := some replacedBySelector }
  | .revokeIfActive _, r, r' => r' = { r with status := .revoked }
  | .revokeRow _ _, r, r' => r' = { r with status := .revoked }

theorem RowCall.admits_iff (c : RowCall) (r : TokenRecord) : c.admits r = true ↔ c.Wants r := by
  cases c <;> simp [RowCall.admits, RowCall.Wants]

theorem RowCall.writes_newRecord (c : RowCall) (r : TokenRecord) : c.Writes r (c.newRecord r) := by
  cases c with
  | markRotated => rfl
  | revokeIfActive => rfl
  | revokeRow => rfl

/-- The loop of a call. -/
def RowCall.attempt (c : RowCall) : Attempt Str TokenRecord := ⟨c.selector, c.admits, c.newRecord⟩

/-- The rows, and the calls on them. -/
abbrev Calls := State RowCall Str TokenRecord

/-- The calls as a transition system. -/
abbrev rowCalls : System Calls (Label RowCall) := optimistic RowCall.attempt

/-- The call applies: its row is as it asks, and is the only one to change, as the call writes it. -/
def RowCall.Applies (c : RowCall) (look look' : Str → Option TokenRecord) : Prop :=
  ∃ r r', look c.selector = some r ∧ c.Wants r ∧ c.Writes r r' ∧
    look' = Function.update look c.selector (some r')

/-- The row of a call is absent, or does not have the status that the call asks for. -/
def RowCall.Refused (c : RowCall) (look : Str → Option TokenRecord) : Prop :=
  ∀ r, look c.selector = some r → ¬ c.Wants r

/-- The call changed something in exactly one of the steps, which led from the first rows to the second. -/
def ChangedOnce (i : ℕ) (p : Steps RowCall Str TokenRecord)
    (change : (Str → Option TokenRecord) → (Str → Option TokenRecord) → Prop) : Prop :=
  ∃ p₁ u l v p₂, p = p₁ ++ (u, l, v) :: p₂ ∧ l.call = some i ∧ change u.cells.look v.cells.look ∧
    Idle i p₁ ∧ Idle i p₂

/-- **The loops refine an atomic compare-and-set.** In every run, from any rows and with any number of
calls: each step is a step of calls that take one step, or none; a call that has returned true changed
its row in exactly one of its steps, in which the row had the status it asked for, and changed in it the
status and, if it is a rotation, its time and its successor, as requested, and nothing else; a call that
has returned false changed nothing, and in one of its steps the row was absent or had another status; and
the rows are what the calls that returned true, each once and one after another, have made of them. -/
theorem cas_loops_atomic {s₀ s : Calls} {p : Steps RowCall Str TokenRecord} (h₀ : rowCalls.init s₀)
    (h : rowCalls.Path s₀ p s) :
    (∀ u l v, (u, l, v) ∈ p → v.abs = u.abs ∨ AtomicStep RowCall.attempt u.abs v.abs) ∧
    (∀ i c, s.calls[i]? = some ⟨c, .returned true⟩ → ChangedOnce i p c.Applies) ∧
    (∀ i c, s.calls[i]? = some ⟨c, .returned false⟩ →
      Idle i p ∧ ∃ u l v, (u, l, v) ∈ p ∧ l.call = some i ∧ c.Refused u.cells.look) ∧
    ∃ log, (log.map Prod.fst).Nodup ∧
      (∀ i c, (i, c) ∈ log ↔ s.calls[i]? = some ⟨c, .returned true⟩) ∧
      Applied RowCall.attempt s₀.cells.look log s.cells.look := by
  have hT := told h₀ h
  refine ⟨?_, fun i c hi => ?_, fun i c hi => ?_, ?_⟩
  · -- every state on the way is sound
    have hall : Told RowCall.attempt p s ∧ ∀ e ∈ p, e.2.2.abs = e.1.abs ∨
        AtomicStep RowCall.attempt e.1.abs e.2.2.abs := by
      refine System.Path.invariant (I := fun p s => Told RowCall.attempt p s ∧ ∀ e ∈ p,
        e.2.2.abs = e.1.abs ∨ AtomicStep RowCall.attempt e.1.abs e.2.2.abs) h
        ⟨told h₀ .nil, fun e he => by cases he⟩ fun p t l u hI hs => ?_
      refine ⟨told_step hI.1 hs, fun e he => ?_⟩
      rcases List.mem_append.mp he with he | he
      · exact hI.2 e he
      · obtain rfl := List.mem_singleton.mp he
        exact refines hI.1.sound hs
    exact fun u l v he => hall.2 (u, l, v) he
  · obtain ⟨p₁, u, l, v, p₂, hp, hl, hcas, h₁, h₂⟩ := hT.decided i c _ true hi rfl
    obtain ⟨r, hr, hadmits, hlook⟩ := Attempt.cas_true hcas
    exact ⟨p₁, u, l, v, p₂, hp, hl,
      ⟨r, c.newRecord r, hr, (c.admits_iff r).mp hadmits, c.writes_newRecord r, hlook⟩, h₁, h₂⟩
  · obtain ⟨p₁, u, l, v, p₂, rfl, hl, hcas, h₁, h₂⟩ := hT.decided i c _ false hi rfl
    obtain ⟨hlook, hrefused⟩ := Attempt.cas_false hcas
    have hnot : c.Refused u.cells.look := by
      intro r hr hw
      have hno : c.admits r = false := hrefused r hr
      rw [(c.admits_iff r).mpr hw] at hno
      cases hno
    refine ⟨fun e he hi => ?_, u, l, v, List.mem_append_right _ List.mem_cons_self, hl, hnot⟩
    rcases List.mem_append.mp he with he | he
    · exact h₁ e he hi
    · rcases List.mem_cons.mp he with rfl | he
      · exact hlook
      · exact h₂ e he hi
  · obtain ⟨log, hL⟩ := logged h₀ h
    refine ⟨log, hL.nodup, fun i c => (hL.mem i c).trans ?_, hL.applied⟩
    constructor
    · rintro ⟨q, hq, htrue⟩
      cases q with
      | returned b =>
        obtain rfl := Option.some.inj htrue
        exact hq
      | reading => cases htrue
      | holding n => cases htrue
    · exact fun hi => ⟨_, hi, rfl⟩

/-- An active row. -/
def raceRow : TokenRecord where
  selector := ascii ['a']
  verifierHash := []
  kid := ascii ['k', '1']
  familyId := ascii ['f']
  generation := 0
  userId := ascii ['u']
  deviceIdHash := none
  createdAt := 1000
  familyExpiresAt := 2000
  idleExpiresAt := 1100
  status := .active
  rotatedAt := none
  replacedBySelector := none

/-- A store with that row, and no calls. -/
def raceStart : Calls where
  cells := {
    objects := [raceRow]
    ref := fun selector => if selector = raceRow.selector then some 0 else none
    live := by
      intro k n h
      rw [Option.ite_none_right_eq_some] at h
      obtain rfl := Option.some.inj h.2
      exact Nat.one_pos }
  calls := []

/-- A rotation of the row, to the successor `q`. -/
def raceCall (q : Char) : RowCall := .markRotated raceRow.selector .active 1010 (ascii [q])

/-- The loop of a bulk revocation over the row. -/
def raceRevocation : RowCall := .revokeRow (fun r => r.userId = raceRow.userId) raceRow.selector

/-- Two rotations read the row before either writes: the first wins, the second starts again and finds
the row rotated. A revocation comes last. -/
theorem cas_loops_atomic_sample : ∃ p s, rowCalls.Path raceStart p s ∧
    s.calls = [⟨raceCall 'b', .returned true⟩, ⟨raceCall 'c', .returned false⟩,
      ⟨raceRevocation, .returned true⟩] ∧
    ChangedOnce 0 p (raceCall 'b').Applies ∧ Idle 1 p ∧ ChangedOnce 2 p raceRevocation.Applies ∧
    s.cells.look raceRow.selector = some { raceRow with
      status := .revoked, rotatedAt := some 1010, replacedBySelector := some (ascii ['b']) } := by
  have h : rowCalls.Path raceStart _ _ :=
    .snoc (.snoc (.snoc (.snoc (.snoc (.snoc (.snoc (.snoc (.snoc (.snoc .nil
      (.invoke _ (raceCall 'b'))) (.invoke _ (raceCall 'c'))) (.read (i := 0) rfl)) (.read (i := 1) rfl))
      (.swap (i := 0) (n := 0) (r := raceRow) rfl rfl)) (.swap (i := 1) (n := 0) (r := raceRow) rfl rfl))
      (.read (i := 1) rfl)) (.invoke _ raceRevocation)) (.read (i := 2) rfl))
      (.swap (i := 2) (n := 1) (r := asRotated raceRow 1010 (ascii ['b'])) rfl rfl)
  have hinit : rowCalls.init raceStart := rfl
  have hall := cas_loops_atomic hinit h
  exact ⟨_, _, h, rfl, hall.2.1 0 _ rfl, (hall.2.2.1 1 _ rfl).1, hall.2.1 2 _ rfl, rfl⟩

end NebulaToken.Store.CSharp
