import NebulaToken.Ports.Elixir
import NebulaToken.Ports.Ruby
import NebulaToken.Ports.Rust
import NebulaToken.Ports.Table
import NebulaToken.Runs.Execution

/-! # The ports agree

The four engines are programs against one store, and given the same random bytes they are the same
program. A run of any of them is then a run of the others, and a refresh is what the table says.

* `Port.code_eq`: each operation, as a program;
* `ports_agree`: a refresh has the same outcome in every port, the first failing row of the table, and a
  sequence of operations has the same results and leaves the same rows. -/

namespace NebulaToken.Ports.Agreement

open NebulaToken.Lib.Program NebulaToken.Lib.Codec NebulaToken.Lib.KeyedTable NebulaToken.Token.Unicode
open NebulaToken.Token.Utf8 NebulaToken.Token.Wire NebulaToken.Engine.Records
open NebulaToken.Engine.Config NebulaToken.Engine.Operations NebulaToken.Runs.Calls
open NebulaToken.Runs.Execution NebulaToken.Ports.Bytes NebulaToken.Ports.Table
open NebulaToken.Store.Memory NebulaToken.Store.Memory.MemoryRefreshTokenStore

/-- The engines; the one in Rust with its crates, and the one in Ruby with the way its store reports. -/
inductive Port
  | typescript
  | rust (C : Rust.Crates)
  | elixir
  | ruby (a : Ruby.Adapter)

/-- What is used of others does what it documents. -/
def Port.Documented : Port → Prop
  | .rust C => C.Documented
  | _ => True

variable (H : HmacSha256)

/-- A refresh of a port, on a token and a device given as texts. -/
def Port.refresh (e : NebulaEngine) (token : Str) (deviceId : Option Str) (now : ℤ) (d : Draw) :
    Port → StoreM RefreshResult
  | .typescript => Engine.Operations.refresh H e token deviceId now d
  | .rust C => Rust.refresh C H e (utf8 token) (deviceId.map utf8) now d
  | .elixir => Elixir.refresh H e (utf8 token) (deviceId.map utf8) now d
  | .ruby a => Ruby.refresh H e a (utf8 token) (deviceId.map utf8) now d

/-- A login of a port. -/
def Port.issue (e : NebulaEngine) (userId : Str) (deviceId : Option Str) (now : ℤ) (d : IssueDraw) :
    Port → StoreM IssueResult
  | .typescript => Engine.Operations.issue H e userId deviceId now d
  | .rust C => Rust.issue C H e userId (deviceId.map utf8) now d
  | .elixir => Elixir.issue H e userId (deviceId.map utf8) now d
  | .ruby a => Ruby.issue H e a userId (deviceId.map utf8) now d

/-- A revocation by token of a port. -/
def Port.revokeToken (e : NebulaEngine) (token : Str) : Port → StoreM RevokeResult
  | .typescript => Engine.Operations.revokeToken H e token
  | .rust C => Rust.revokeToken C H e (utf8 token)
  | .elixir => Elixir.revokeToken H e (utf8 token)
  | .ruby a => Ruby.revokeToken H e a (utf8 token)

/-- The program of an operation of a port. The revocations by identifier are one store call in each. -/
def Port.code (p : Port) : Operation → StoreM Outcome
  | .issue c => .issued <$> p.issue H c.engine c.userId c.deviceId c.now c.draw
  | .refresh c => .refreshed <$> p.refresh H c.engine c.token c.deviceId c.now c.draw
  | .revokeToken e token => .revoked <$> p.revokeToken H e token
  | .revokeFamily familyId => .count <$> store (.revokeFamily familyId)
  | .revokeAllForUser userId => .count <$> store (.revokeUser userId)

/-- The operations that every port can be asked for. -/
def Portable : Operation → Prop
  | .issue c => Unicode c.deviceId
  | .refresh c => Unicode c.deviceId
  | _ => True

variable {H}

theorem Port.refresh_eq {p : Port} (hp : p.Documented) (e : NebulaEngine) {deviceId : Option Str}
    (hd : Unicode deviceId) (token : Str) (now : ℤ) (d : Draw) :
    p.refresh H e token deviceId now d = Engine.Operations.refresh H e token deviceId now d := by
  cases p with
  | typescript => rfl
  | rust C => exact Rust.refresh_eq hp hd token now d
  | elixir => exact Elixir.refresh_eq hd token now d
  | ruby a => exact Ruby.refresh_eq hd token now d

theorem Port.issue_eq {p : Port} (hp : p.Documented) (e : NebulaEngine) {deviceId : Option Str}
    (hd : Unicode deviceId) (userId : Str) (now : ℤ) (d : IssueDraw) :
    p.issue H e userId deviceId now d = Engine.Operations.issue H e userId deviceId now d := by
  cases p with
  | typescript => rfl
  | rust C => exact Rust.issue_eq hp hd userId now d
  | elixir => exact Elixir.issue_eq hd userId now d
  | ruby a => exact Ruby.issue_eq hd userId now d

theorem Port.revokeToken_eq {p : Port} (hp : p.Documented) (e : NebulaEngine) (token : Str) :
    p.revokeToken H e token = Engine.Operations.revokeToken H e token := by
  cases p with
  | typescript => rfl
  | rust C => exact Rust.revokeToken_eq hp token
  | elixir => exact Elixir.revokeToken_eq token
  | ruby a => exact Ruby.revokeToken_eq token

/-- **Each operation is the same program in every port.** -/
theorem Port.code_eq {p : Port} (hp : p.Documented) {op : Operation} (h : Portable op) :
    p.code H op = Runs.Calls.code H op := by
  cases op with
  | issue c =>
    exact congrArg (fun x => Outcome.issued <$> x) (Port.issue_eq hp c.engine h c.userId c.now c.draw)
  | refresh c =>
    exact congrArg (fun x => Outcome.refreshed <$> x) (Port.refresh_eq hp c.engine h c.token c.now c.draw)
  | revokeToken e token => exact congrArg (fun x => Outcome.revoked <$> x) (Port.revokeToken_eq hp e token)
  | revokeFamily familyId => rfl
  | revokeAllForUser userId => rfl

/-! ### Sequences of operations -/

/-- What the operations return one after another, and the rows they leave. -/
def runAll (H : HmacSha256) (p : Port) :
    List Operation → Rows → List (Option (Except NebulaConfigError Outcome)) × Rows
  | [], rows => ([], rows)
  | op :: ops, rows =>
    let (reply, rows') := run (p.code H op) rows
    let (replies, rows'') := runAll H p ops rows'
    (reply :: replies, rows'')

theorem runAll_eq {ops : List Operation} (h : ∀ op ∈ ops, Portable op) {p q : Port}
    (hp : p.Documented) (hq : q.Documented) (rows : Rows) : runAll H p ops rows = runAll H q ops rows := by
  induction ops generalizing rows with
  | nil => rfl
  | cons op ops ih =>
    have hop := h op List.mem_cons_self
    unfold runAll
    rw [Port.code_eq hp hop, Port.code_eq hq hop]
    dsimp only
    rw [ih fun op' hop' => h op' (List.mem_cons_of_mem op hop')]

/-- **The ports agree**, if the crates of the Rust port do what they document. In every state of the store,
a refresh of any port has the outcome and leaves the rows of the first failing row of the table, with
reuse handling at the fifth; and the same sequence of operations returns the same and leaves the same
rows in all of them. -/
theorem ports_agree (H : HmacSha256) :
    (∀ (e : NebulaEngine) (rows : Rows) (token : Str) (deviceId : Option Str) (now : ℤ) (d : Draw),
      Unicode deviceId → ∀ p : Port, p.Documented →
        run (p.refresh H e token deviceId now d) rows = outcome H e rows token deviceId now d) ∧
    ∀ (ops : List Operation) (rows : Rows), (∀ op ∈ ops, Portable op) →
      ∀ p q : Port, p.Documented → q.Documented → runAll H p ops rows = runAll H q ops rows := by
  refine ⟨fun e rows token deviceId now d hd p hp => ?_, fun ops rows h p q hp hq =>
    runAll_eq h hp hq rows⟩
  rw [Port.refresh_eq hp e hd]
  exact run_refresh_eq_outcome hd token rows

/-- The crates as they are. -/
def crates : Rust.Crates where
  encode := base64urlEncode
  decode b := base64urlDecodeStrict (ofAscii b)
  hexEncode := Lib.Codec.hexEncode
  ctEq a b := a == b

theorem crates_documented : crates.Documented where
  encode _ := rfl
  decode_encode b := by
    have hascii : ∀ c ∈ base64urlEncode b, c.toNat < 0x80 := fun c hc =>
      (isB64urlChar_ascii (base64urlValue_isSome (base64urlEncode_alphabet hc))).1
    show base64urlDecodeStrict (ofAscii (utf8 (base64urlEncode b))) = some b
    rw [ofAscii_utf8 hascii]
    exact base64urlDecodeStrict_iff.mpr rfl
  hexEncode _ := rfl
  ctEq _ _ := beq_iff_eq

/-- A login, its token presented twice. -/
def replayed : List Operation := [sampleIssue 0 0, sampleRefresh 0 0 1 1010, sampleRefresh 0 0 2 1020]

theorem ports_agree_sample :
    run ((Port.rust crates).refresh sampleHmac (sampleEngine 0) (sampleToken 0 0) none 1010
      (sampleDraw 1)) Table.empty =
      outcome sampleHmac (sampleEngine 0) Table.empty (sampleToken 0 0) none 1010 (sampleDraw 1) ∧
    runAll sampleHmac (.rust crates) replayed Table.empty =
      runAll sampleHmac .typescript replayed Table.empty ∧
    runAll sampleHmac (.ruby Ruby.rowAdapter) replayed Table.empty =
      runAll sampleHmac .typescript replayed Table.empty := by
  have hnone : Unicode none := fun dev h => by cases h
  have hall : ∀ op ∈ replayed, Portable op := by
    intro op hop
    rw [replayed, List.mem_cons, List.mem_cons, List.mem_singleton] at hop
    rcases hop with rfl | rfl | rfl
    · exact hnone
    · exact hnone
    · exact hnone
  have h := ports_agree sampleHmac
  exact ⟨h.1 (sampleEngine 0) Table.empty (sampleToken 0 0) none 1010 (sampleDraw 1) hnone
      (.rust crates) crates_documented,
    h.2 replayed Table.empty hall _ _ crates_documented trivial,
    h.2 replayed Table.empty hall _ _ trivial trivial⟩

end NebulaToken.Ports.Agreement
