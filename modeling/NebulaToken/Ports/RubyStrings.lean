import NebulaToken.Ports.Ruby
import NebulaToken.Runs.Execution

/-! # Device identifiers in Ruby and their declared encodings

Two strings of the same bytes differ in nothing but the encoding declared for them, and an identifier is
to be decided on its bytes. `utf8_bytes` uses the bytes of a string tagged UTF-8 or BINARY as they are,
and transcodes those of any other.

* `Decided`: the tags, and the bytes under each, for which that makes no difference;
* `utf8BytesOf_iff`: for these, and no others, `utf8_bytes` returns what the bytes are worth;
* `on_bytes_iff`: then, and only then, the engine decides both strings on their bytes. -/

namespace NebulaToken.Ports.RubyStrings

open NebulaToken.Lib.Program NebulaToken.Lib.KeyedTable NebulaToken.Token.Unicode
open NebulaToken.Token.Utf8 NebulaToken.Token.Wire NebulaToken.Engine.Records
open NebulaToken.Engine.Config NebulaToken.Runs.Execution NebulaToken.Ports.Bytes
open NebulaToken.Ports.Ruby (TextEncoding Encoding RubyString Row utf8BytesOf encode utf8BytesOf_tagged
  hashDeviceId_ok)
open NebulaToken.Engine.Operations (Draw IssueDraw)

/-- Bytes of ASCII characters. -/
def Ascii (b : Bytes) : Prop := ∀ x ∈ b, x.toNat < 0x80

/-- The texts of an encoding, in bytes. -/
def texts (t : TextEncoding) : Set Bytes := {b | ∃ l, t.decode b = some l}

/-- Its overlap with UTF-8: the texts that both write alike. -/
def overlap (t : TextEncoding) : Set Bytes := {b | ∃ l, t.decode b = some l ∧ l.flatMap utf8Bytes = b}

/-- **What makes a string decided on its bytes**: a tag that is taken as it is; ASCII, or any bytes that
are not UTF-8 and that the tag does not read either; and for an encoding that is not a table of single
bytes, a text of its overlap with UTF-8, where a table has ASCII. -/
def Decided (b : Bytes) : Encoding → Prop
  | .utf8 | .binary => True
  | .usAscii => Ascii b ∨ validUtf8 b = false
  | .singleByte t => Ascii b ∨ validUtf8 b = false ∧ ∃ x ∈ b, t.char x = none
  | .text t => b ∈ overlap t ∨ validUtf8 b = false ∧ b ∉ texts t

/-! ### The overlap of an encoding with UTF-8 -/

theorem valid_of_overlap {t : TextEncoding} {b : Bytes} (h : b ∈ overlap t) : validUtf8 b = true := by
  obtain ⟨l, hl, rfl⟩ := h
  exact validUtf8_flatMap fun c hc => (t.scalars hl c hc).1

/-- Characters take a byte each at least, and those beyond ASCII more. -/
theorem length_flatMap_utf8Bytes (l : List ℕ) : l.length ≤ (l.flatMap utf8Bytes).length ∧
    ((l.flatMap utf8Bytes).length ≤ l.length → ∀ c ∈ l, c < 0x80) := by
  induction l with
  | nil => simp
  | cons c l ih =>
    obtain ⟨hle, hascii⟩ := ih
    rw [List.flatMap_cons, List.length_append, List.length_cons]
    by_cases hc : c < 0x80
    · have hone : (utf8Bytes c).length = 1 := by rw [utf8Bytes, if_pos hc, List.length_singleton]
      refine ⟨by omega, fun h => List.forall_mem_cons.mpr ⟨hc, hascii (by omega)⟩⟩
    · have htwo : 2 ≤ (utf8Bytes c).length := by
        rw [utf8Bytes, if_neg hc]
        split_ifs <;> simp
      exact ⟨by omega, fun h => absurd h (by omega)⟩

/-- **A table of single bytes writes nothing as UTF-8 does but ASCII.** -/
theorem overlap_table (t : Ruby.CharTable) : overlap t.encoding = {b | Ascii b} := by
  ext b
  constructor
  · rintro ⟨l, hl, hb⟩
    have hlen := (Ruby.CharTable.read_iff.mp hl).length_eq
    have hascii := (length_flatMap_utf8Bytes l).2 (by rw [hb, hlen])
    intro x hx
    rw [← hb, List.mem_flatMap] at hx
    obtain ⟨c, hc, hx⟩ := hx
    have hlt := hascii c hc
    rw [utf8Bytes, if_pos hlt, List.mem_singleton] at hx
    rw [hx, UInt8.toNat_ofNat_of_lt' (by show c < 256; omega)]
    exact hlt
  · intro h
    refine ⟨b.map UInt8.toNat, Ruby.CharTable.read_iff.mpr ?_, ?_⟩
    · rw [List.forall₂_map_right_iff]
      exact List.forall₂_same.mpr fun x hx => t.ascii (h x hx)
    · induction b with
      | nil => rfl
      | cons x b ih =>
        obtain ⟨hx, hb⟩ := List.forall_mem_cons.mp h
        rw [List.map_cons, List.flatMap_cons, ih hb, utf8Bytes, if_pos hx, UInt8.ofNat_toNat,
          List.singleton_append]

/-- Bytes are a text of a table unless it has no character for one of them. -/
theorem notMem_texts_table {t : Ruby.CharTable} {b : Bytes} :
    b ∉ texts t.encoding ↔ ∃ x ∈ b, t.char x = none := by
  have hread : b ∈ texts t.encoding ↔ ∀ x ∈ b, t.char x ≠ none := by
    show (∃ l, t.read b = some l) ↔ _
    induction b with
    | nil => simp [Ruby.CharTable.read]
    | cons x b ih =>
      rw [List.forall_mem_cons, ← ih]
      simp only [Ruby.CharTable.read_iff, List.forall₂_cons_left_iff]
      constructor
      · rintro ⟨_, c, l, hc, hl, -⟩
        exact ⟨by simp [hc], l, hl⟩
      · rintro ⟨hne, l, hl⟩
        obtain ⟨c, hc⟩ := Option.ne_none_iff_exists'.mp hne
        exact ⟨c :: l, c, l, hc, hl, rfl⟩
  rw [hread]
  push Not
  rfl

theorem ascii_valid {b : Bytes} (h : Ascii b) : validUtf8 b = true :=
  valid_of_overlap ((Set.ext_iff.mp (overlap_table Ruby.usAscii) b).mpr h)

/-! ### The bytes of an identifier -/

theorem utf8BytesOf_encoding {b : Bytes} {t : TextEncoding} :
    encode t b = (if validUtf8 b then some b else none) ↔
      b ∈ overlap t ∨ validUtf8 b = false ∧ b ∉ texts t := by
  rw [encode]
  by_cases hv : validUtf8 b = true
  · rw [if_pos hv, Option.map_eq_some_iff]
    exact (or_iff_left fun h => by
      rw [hv] at h
      cases h.1).symm
  · rw [if_neg hv, Option.map_eq_none_iff, Option.eq_none_iff_forall_ne_some]
    have hnot : b ∉ overlap t := fun h => hv (valid_of_overlap h)
    rw [or_iff_right hnot, texts, Set.mem_ofPred_eq, not_exists, and_iff_right (Bool.not_eq_true _ ▸ hv)]

/-- What is transcoded is valid. -/
theorem transcoded (t : TextEncoding) (b : Bytes) :
    (encode t b >>= fun bytes => if validUtf8 bytes then some bytes else none) = encode t b := by
  unfold encode
  cases hd : t.decode b with
  | none => rfl
  | some l => exact if_pos (validUtf8_flatMap fun c hc => (t.scalars hd c hc).1)

/-- **An identifier is decided on its bytes** under the tags and for the bytes of `Decided`, and no
others. -/
theorem utf8BytesOf_iff {b : Bytes} {t : Encoding} :
    utf8BytesOf ⟨b, t⟩ = (if validUtf8 b then some b else none) ↔ Decided b t := by
  cases t with
  | utf8 => exact iff_of_true (utf8BytesOf_tagged (Or.inl rfl)) trivial
  | binary => exact iff_of_true (utf8BytesOf_tagged (Or.inr rfl)) trivial
  | usAscii =>
    show (encode _ b >>= _) = _ ↔ _
    rw [transcoded, utf8BytesOf_encoding, overlap_table, notMem_texts_table]
    refine or_congr_right (and_iff_left_of_imp fun hv => ?_)
    -- bytes that are not UTF-8 are not all ASCII
    by_contra hno
    push Not at hno
    refine absurd (ascii_valid fun x hx => ?_) (by rw [hv]; decide)
    by_contra hx'
    exact hno x hx (if_neg hx')
  | singleByte t =>
    show (encode _ b >>= _) = _ ↔ _
    rw [transcoded, utf8BytesOf_encoding, overlap_table, notMem_texts_table]
    rfl
  | text t =>
    show (encode _ b >>= _) = _ ↔ _
    rw [transcoded, utf8BytesOf_encoding]
    rfl

/-- Under ISO-8859-1, which has a character for every byte, the bytes are decided if they are ASCII. -/
theorem decided_iso88591 {b : Bytes} : Decided b (.singleByte Ruby.iso88591) ↔ Ascii b :=
  or_iff_left fun h => by
    obtain ⟨-, x, -, hx⟩ := h
    cases hx

/-! ### What an identifier decides -/

variable {H : HmacSha256} {e : NebulaEngine}

/-- A digest, and whether there is one, depend on nothing but the bytes. -/
theorem hashDeviceId_congr {x y : RubyString} (h : utf8BytesOf x = utf8BytesOf y) (pepper : Str) :
    Ruby.hashDeviceId H pepper x = Ruby.hashDeviceId H pepper y := by
  rw [Ruby.hashDeviceId, Ruby.hashDeviceId, h]

theorem deviceMatches_congr {x y : RubyString} (h : utf8BytesOf x = utf8BytesOf y) (record : Row)
    (recordPepper : Str) : Ruby.Engine.deviceMatches H record recordPepper (some x) =
      Ruby.Engine.deviceMatches H record recordPepper (some y) := by
  unfold Ruby.Engine.deviceMatches
  cases record.deviceIdHash with
  | none => rfl
  | some stored =>
    dsimp only
    rw [h, hashDeviceId_congr h]

theorem rotate_congr {x y : RubyString} (h : utf8BytesOf x = utf8BytesOf y) (record : Row) (now : ℤ)
    (fromStatus : TokenStatus) (rotatedAt : ℤ) (d : Draw) :
    Ruby.Engine.rotate H e record (some x) now fromStatus rotatedAt d =
      Ruby.Engine.rotate H e record (some y) now fromStatus rotatedAt d := by
  have hhash : Ruby.Engine.rotationHash H e record (some x) =
      Ruby.Engine.rotationHash H e record (some y) := by
    unfold Ruby.Engine.rotationHash
    cases record.deviceIdHash with
    | none => rfl
    | some stored =>
      dsimp only
      rw [hashDeviceId_congr h]
  unfold Ruby.Engine.rotate
  rw [hhash]

theorem reuseFound_congr {x y : RubyString} (h : utf8BytesOf x = utf8BytesOf y) (record : Row)
    (recordPepper : Str) (now : ℤ) (d : Draw) (found : Option Row) :
    Ruby.Engine.reuseFound H e record recordPepper (some x) now d found =
      Ruby.Engine.reuseFound H e record recordPepper (some y) now d found := by
  unfold Ruby.Engine.reuseFound
  cases found with
  | none => rfl
  | some successor =>
    dsimp only
    rw [deviceMatches_congr h]
    simp only [rotate_congr h]

theorem refreshFound_congr {x y : RubyString} (h : utf8BytesOf x = utf8BytesOf y) (parsed : ParsedToken)
    (now : ℤ) (d : Draw) (found : Option Row) :
    Ruby.Engine.refreshFound H e parsed (some x) now d found =
      Ruby.Engine.refreshFound H e parsed (some y) now d found := by
  have hproved : ∀ record recordPepper, Ruby.Engine.refreshProved H e record recordPepper (some x) now d =
      Ruby.Engine.refreshProved H e record recordPepper (some y) now d := by
    intro record recordPepper
    unfold Ruby.Engine.refreshProved Ruby.Engine.handleReuse
    rw [deviceMatches_congr h, rotate_congr h]
    simp only [reuseFound_congr h]
  unfold Ruby.Engine.refreshFound
  cases found with
  | none => rfl
  | some record =>
    dsimp only
    cases e.peppers.get record.kid with
    | none => rfl
    | some recordPepper =>
      dsimp only
      rw [hproved]

/-- **A refresh depends on nothing but the bytes.** -/
theorem refresh_congr {x y : RubyString} (h : utf8BytesOf x = utf8BytesOf y) (token : Bytes) (now : ℤ)
    (d : Draw) :
    Ruby.Engine.refresh H e token (some x) now d = Ruby.Engine.refresh H e token (some y) now d := by
  unfold Ruby.Engine.refresh
  simp only [refreshFound_congr h]

theorem issue_congr {x y : RubyString} (h : utf8BytesOf x = utf8BytesOf y) (userId : Str) (now : ℤ)
    (d : IssueDraw) :
    Ruby.Engine.issue H e userId (some x) now d = Ruby.Engine.issue H e userId (some y) now d := by
  unfold Ruby.Engine.issue Ruby.Engine.issueHash
  dsimp only
  rw [h, hashDeviceId_congr h]

/-- A login throws exactly if the identifier has no UTF-8 form. -/
theorem issue_throws_iff (x : RubyString) (userId : Str) (now : ℤ) (d : IssueDraw) :
    Ruby.Engine.issue H e userId (some x) now d = .throw .deviceIdUnicode ↔ utf8BytesOf x = none := by
  unfold Ruby.Engine.issue Ruby.Engine.issueHash
  dsimp only
  cases hx : utf8BytesOf x with
  | none => exact iff_of_true rfl rfl
  | some b =>
    rw [hashDeviceId_ok hx]
    exact iff_of_false (fun h => by cases h) (fun h => by cases h)

/-! ### An identifier without a UTF-8 form -/

/-- A presentation that comes to the sender binding: a bound record whose verifier is proved, active and
before its deadlines, or rotated in an open window. -/
structure ReachesBinding (H : HmacSha256) (e : NebulaEngine) (parsed : ParsedToken) (record : Row)
    (now : ℤ) : Prop where
  proved : ∃ recordPepper, e.peppers.get record.kid = some recordPepper ∧
    Ruby.constantTimeEqualHex (Ruby.hashVerifier H recordPepper parsed.verifier) record.verifierHash = true
  bound : record.deviceIdHash.isSome = true
  inTime : record.record.status = .active ∧ now < record.familyExpiresAt ∧ now < record.idleExpiresAt ∨
    record.record.status = .rotated ∧ windowOpen e record.record now = true

/-- The refusal of a bound record, which in a window is given if the successor is still unused. -/
def refusal (record : Row) : Ruby.EngineM RefreshResult :=
  if record.record.status = .active then Ruby.Engine.burn .deviceMismatch record
  else do
    let successor ← Ruby.ask (.findBySelector (record.replacedBySelector.getD []))
    match successor with
    | some successor =>
      if successor.record.status = .active then Ruby.Engine.burn .deviceMismatch record
      else Ruby.Engine.burn .reuseDetected record
    | none => Ruby.Engine.burn .reuseDetected record

/-- **Such an identifier is a failed binding.** -/
theorem refreshFound_none {x : RubyString} (h : utf8BytesOf x = none) {parsed : ParsedToken}
    {record : Row} {now : ℤ} (hr : ReachesBinding H e parsed record now) (d : Draw) :
    Ruby.Engine.refreshFound H e parsed (some x) now d (some record) = refusal record := by
  obtain ⟨recordPepper, hp, hv⟩ := hr.proved
  have hdevice : (record.deviceIdHash.isSome &&
      !Ruby.Engine.deviceMatches H record recordPepper (some x)) = true := by
    obtain ⟨stored, hstored⟩ := Option.isSome_iff_exists.mp hr.bound
    unfold Ruby.Engine.deviceMatches
    rw [hstored]
    dsimp only
    rw [h]
    rfl
  unfold Ruby.Engine.refreshFound Ruby.Engine.refreshProved refusal
  dsimp only
  rw [hp]
  dsimp only
  rw [if_neg (not_not.mpr hv)]
  rcases hr.inTime with ⟨hs, habs, hidle⟩ | ⟨hs, hw⟩
  · have hstatus : Ruby.normalizeStatus record.status = .active := hs
    rw [hstatus, hs, if_neg (by decide), if_neg (by decide), if_neg (not_le.mpr habs),
      if_neg (not_le.mpr hidle), if_pos hdevice, if_pos rfl]
  · have hstatus : Ruby.normalizeStatus record.status = .rotated := hs
    rw [hstatus, hs, if_pos rfl, if_neg (by decide), Ruby.Engine.handleReuse, if_pos hw]
    refine congrArg (Prog.call _) (funext fun found => ?_)
    show Ruby.Engine.reuseFound H e record recordPepper (some x) now d found = _
    cases found with
    | none => rfl
    | some successor =>
      rw [Ruby.Engine.reuseFound, if_pos hdevice]
      rfl

/-! ### On the bytes -/

/-- **Both strings are decided on their bytes.** If these are valid UTF-8, they are what both have for
bytes, digests are those of the bytes, and a login and a refresh are the same program with either. If
not, a login throws and a bound record refuses. -/
structure OnBytes (H : HmacSha256) (e : NebulaEngine) (b : Bytes) (t₁ t₂ : Encoding) : Prop where
  bytes : validUtf8 b = true → ∀ t ∈ [t₁, t₂], utf8BytesOf ⟨b, t⟩ = some b
  digest : validUtf8 b = true → ∀ t ∈ [t₁, t₂], ∀ pepper,
    Ruby.hashDeviceId H pepper ⟨b, t⟩ = .ok (deviceHash H pepper b)
  issue : validUtf8 b = true → ∀ userId now d,
    Ruby.Engine.issue H e userId (some ⟨b, t₁⟩) now d = Ruby.Engine.issue H e userId (some ⟨b, t₂⟩) now d
  refresh : validUtf8 b = true → ∀ token now d,
    Ruby.Engine.refresh H e token (some ⟨b, t₁⟩) now d = Ruby.Engine.refresh H e token (some ⟨b, t₂⟩) now d
  issue_throws : validUtf8 b = false → ∀ t ∈ [t₁, t₂], ∀ userId now d,
    Ruby.Engine.issue H e userId (some ⟨b, t⟩) now d = .throw .deviceIdUnicode
  refresh_refuses : validUtf8 b = false → ∀ t ∈ [t₁, t₂], ∀ parsed record now d,
    ReachesBinding H e parsed record now →
      Ruby.Engine.refreshFound H e parsed (some ⟨b, t⟩) now d (some record) = refusal record

/-- **The engine decides both strings on their bytes if and only if** each is tagged UTF-8 or BINARY, is
ASCII under a table of single bytes, or a text of its encoding's overlap with UTF-8, or a text of neither
encoding. -/
theorem on_bytes_iff (H : HmacSha256) (e : NebulaEngine) (b : Bytes) (t₁ t₂ : Encoding) :
    OnBytes H e b t₁ t₂ ↔ Decided b t₁ ∧ Decided b t₂ := by
  constructor
  · intro h
    have hsame : ∀ t ∈ [t₁, t₂], Decided b t := by
      intro t ht
      rw [← utf8BytesOf_iff]
      by_cases hv : validUtf8 b = true
      · rw [if_pos hv]
        exact h.bytes hv t ht
      · rw [if_neg hv]
        -- a login throws, whatever the random bytes are
        exact (issue_throws_iff ⟨b, t⟩ [] 0 (sampleLogin 0 0).draw).mp
          (h.issue_throws (Bool.not_eq_true _ ▸ hv) t ht [] 0 _)
    exact ⟨hsame t₁ List.mem_cons_self, hsame t₂ (List.mem_cons_of_mem _ List.mem_cons_self)⟩
  · rintro ⟨h₁, h₂⟩
    have hbytes : ∀ t ∈ [t₁, t₂], utf8BytesOf ⟨b, t⟩ = if validUtf8 b then some b else none := by
      intro t ht
      rcases List.mem_cons.mp ht with rfl | ht
      · exact utf8BytesOf_iff.mpr h₁
      · obtain rfl := List.mem_singleton.mp ht
        exact utf8BytesOf_iff.mpr h₂
    have hsame : utf8BytesOf ⟨b, t₁⟩ = utf8BytesOf ⟨b, t₂⟩ :=
      (utf8BytesOf_iff.mpr h₁).trans (utf8BytesOf_iff.mpr h₂).symm
    have hvalid : validUtf8 b = true → ∀ t ∈ [t₁, t₂], utf8BytesOf ⟨b, t⟩ = some b := fun hv t ht => by
      rw [hbytes t ht, if_pos hv]
    have hnone : validUtf8 b = false → ∀ t ∈ [t₁, t₂], utf8BytesOf ⟨b, t⟩ = none := fun hv t ht => by
      rw [hbytes t ht, hv, if_neg Bool.false_ne_true]
    exact {
      bytes := hvalid
      digest := fun hv t ht pepper => hashDeviceId_ok (hvalid hv t ht) pepper
      issue := fun _ userId now d => issue_congr hsame userId now d
      refresh := fun _ token now d => refresh_congr hsame token now d
      issue_throws := fun hv t ht userId now d =>
        (issue_throws_iff ⟨b, t⟩ userId now d).mpr (hnone hv t ht)
      refresh_refuses := fun hv t ht _ _ _ d hr => refreshFound_none (hnone hv t ht) hr d }

/-! ### Tags that read other texts -/

/-- **The bytes of é are refused under US-ASCII and transcoded under ISO-8859-1.** -/
theorem tag_decides : validUtf8 [0xC3, 0xA9] = true ∧
    utf8BytesOf ⟨[0xC3, 0xA9], .utf8⟩ = some [0xC3, 0xA9] ∧
    utf8BytesOf ⟨[0xC3, 0xA9], .usAscii⟩ = none ∧
    utf8BytesOf ⟨[0xC3, 0xA9], .singleByte Ruby.iso88591⟩ = some [0xC3, 0x83, 0xC2, 0xA9] ∧
    ¬ ∀ H e b t₁ t₂, OnBytes H e b t₁ t₂ := by
  have hv : validUtf8 [0xC3, 0xA9] = true := by decide
  have hnone : utf8BytesOf ⟨[0xC3, 0xA9], .usAscii⟩ = none := by decide
  refine ⟨hv, by decide, hnone, by decide, fun h => ?_⟩
  have hsome := (h sampleHmac (sampleEngine 0) [0xC3, 0xA9] .utf8 (.usAscii)).bytes hv (.usAscii)
    (List.mem_cons_of_mem _ List.mem_cons_self)
  rw [hnone] at hsome
  cases hsome

/-- ASCII bytes are the same text under all of them. -/
example : utf8BytesOf ⟨[0x69, 0x64], .singleByte Ruby.iso88591⟩ = some [0x69, 0x64] := by decide

end NebulaToken.Ports.RubyStrings
