import NebulaToken.Runs.Families

/-! # Lineage

A record is granted once it is the first of its family, or a rotation has put it in the place of
another. The pointer `replacedBySelector` of a row, and of any row that was ever read, is one such
rotation, and what it points to is the next generation of the same family.

* `follows_of_marked`: what a rotation puts in the place of a record;
* `pointer_row`, `pointer_found`: pointers are rotations;
* `child_present`: a successor is in the store as long as its predecessor is. -/

namespace NebulaToken.Runs.Lineage

open NebulaToken.Lib.Pool NebulaToken.Lib.Transition NebulaToken.Token.Unicode
open NebulaToken.Token.Wire NebulaToken.Engine.Records NebulaToken.Engine.Operations
open NebulaToken.Runs.Calls NebulaToken.Runs.History NebulaToken.Runs.Provenance
open NebulaToken.Runs.Assumptions NebulaToken.Runs.Families NebulaToken.Store.Contract

variable {σ Env : Type}

/-- The selector is that of the first record of a family. -/
def Root (H : HmacSha256) (s : PoolState σ) (sel : Str) : Prop :=
  ∃ i c n, Founded H s i c n ∧ n.selector = sel

/-- A rotation has put the record of the selector in the place of another. -/
def Installed (s : PoolState σ) (sel : Str) : Prop := ∃ i p fromStatus t, Marked s i p fromStatus t sel

/-- **The token of the selector was returned, or its call has only to return it.** -/
def Granted (H : HmacSha256) (s : PoolState σ) (sel : Str) : Prop := Root H s sel ∨ Installed s sel

/-- `r` is a state of the record stored under the selector. -/
def Stored (s : PoolState σ) (sel : Str) (r : TokenRecord) : Prop :=
  ∃ i n, Inserted s i n ∧ n.selector = sel ∧ Evolves n r

/-- `b` is of the generation after `a`, in the same family. -/
structure Follows (a b : TokenRecord) : Prop where
  generation : b.generation = a.generation + 1
  familyId : b.familyId = a.familyId
  userId : b.userId = a.userId
  familyExpiresAt : b.familyExpiresAt = a.familyExpiresAt

section Facts

variable {H : HmacSha256} {svc : StoreService σ Env} {C : StoreContract svc} {s s' : PoolState σ}
  {l : PoolLabel Env} {G : PoolState σ → PoolLabel Env → Prop}

theorem Follows.of_mints {c : RefreshCall} {r n : TokenRecord} (h : Mints H c r n) : Follows r n := by
  obtain ⟨hash, -, rfl⟩ := h
  exact ⟨rfl, rfl, rfl, rfl⟩

/-- Being the next generation is about the records as they were minted. -/
theorem Follows.congr {a a' b b' : TokenRecord} (h : Follows a b) (ha : minted a' = minted a)
    (hb : minted b' = minted b) : Follows a' b' := by
  have hga : a'.generation = a.generation := (congrArg TokenRecord.generation ha :)
  have hgb : b'.generation = b.generation := (congrArg TokenRecord.generation hb :)
  have hfa : a'.familyId = a.familyId := (congrArg TokenRecord.familyId ha :)
  have hfb : b'.familyId = b.familyId := (congrArg TokenRecord.familyId hb :)
  have hua : a'.userId = a.userId := (congrArg TokenRecord.userId ha :)
  have hub : b'.userId = b.userId := (congrArg TokenRecord.userId hb :)
  have hea : a'.familyExpiresAt = a.familyExpiresAt := (congrArg TokenRecord.familyExpiresAt ha :)
  have heb : b'.familyExpiresAt = b.familyExpiresAt := (congrArg TokenRecord.familyExpiresAt hb :)
  exact ⟨by rw [hgb, hga, h.generation], by rw [hfb, hfa, h.familyId], by rw [hub, hua, h.userId],
    by rw [heb, hea, h.familyExpiresAt]⟩

theorem Follows.ofFamily {c : IssueCall} {a b : TokenRecord} (hf : Follows a b) (h : OfFamily c a) :
    OfFamily c b :=
  ⟨hf.familyId.trans h.family, hf.userId.trans h.user, hf.familyExpiresAt.trans h.deadline⟩

/-! ### Records stored -/

theorem Stored.of_row (hK : Knowledge C s) {sel : Str} {r : TokenRecord}
    (h : C.look s.shared sel = some r) : Stored s sel r := (hK.row sel r h).2

theorem Stored.of_found (hK : Knowledge C s) {i : ℕ} {sel : Str} {r : TokenRecord}
    (h : s.Did i ⟨.findBySelector sel, some r⟩) : Stored s sel r := (hK.found i sel r h).2.1

theorem Stored.of_inserted {i : ℕ} {n : TokenRecord} (h : Inserted s i n) :
    Stored s n.selector n := ⟨i, n, h, rfl, .refl n⟩

theorem Stored.known {sel : Str} {r : TokenRecord} (h : Stored s sel r) : Known s sel := by
  obtain ⟨i, n, hi, hn, -⟩ := h
  exact ⟨i, n, hi, hn⟩

theorem Stored.mono {sel : Str} {r : TokenRecord} (h : Stored s sel r)
    (hs : Step (code H) svc s l s') : Stored s' sel r := by
  obtain ⟨i, n, hi, hn, he⟩ := h
  exact ⟨i, n, did_mono hi hs, hn, he⟩

theorem Stored.run {t : PoolState σ} {sel : Str} {r : TokenRecord} (h : Stored s sel r)
    (hrun : ((engines H svc).under G).Run s t) : Stored t sel r := by
  obtain ⟨i, n, hi, hn, he⟩ := h
  exact ⟨i, n, Run.did hrun hi, hn, he⟩

/-- With fresh draws, a selector has one record. -/
theorem Stored.unique (hr : ((engines H svc).under FreshDraws).Reachable s) {sel : Str}
    {r r' : TokenRecord} (h : Stored s sel r) (h' : Stored s sel r') : minted r = minted r' := by
  obtain ⟨i, n, hi, hn, he⟩ := h
  obtain ⟨j, n', hj, hn', he'⟩ := h'
  obtain ⟨-, rfl⟩ := inserted_unique hr hi hj (hn.trans hn'.symm)
  rw [he.minted, he'.minted]

/-- The record of a selector that was known before a step was stored before it. -/
theorem Stored.back (hr' : ((engines H svc).under FreshDraws).Reachable s')
    (hs : Step (code H) svc s l s') {sel : Str} {r : TokenRecord} (hk : Known s sel)
    (h : Stored s' sel r) : Stored s sel r := by
  obtain ⟨i, n, hi, hn, he⟩ := h
  obtain ⟨j, n', hj, hn'⟩ := hk
  obtain ⟨-, rfl⟩ := inserted_unique hr' hi (did_mono hj hs) (hn.trans hn'.symm)
  exact ⟨j, n, hj, hn, he⟩

/-- The family of a record that was stored has been founded. -/
theorem Stored.founded (hr : ((engines H svc).under NoReinsert).Reachable s) (C : StoreContract svc)
    {sel : Str} {r : TokenRecord} (h : Stored s sel r) :
    ∃ j c n₀, Founded H s j c n₀ ∧ OfFamily c r := by
  obtain ⟨i, n, hi, -, he⟩ := h
  obtain ⟨j, c, n₀, hf, ho⟩ := Families.founded C hr i n hi
  exact ⟨j, c, n₀, hf, ho.evolves he⟩

/-! ### Rotations and pointers -/

/-- **What a rotation puts in the place of a record**: the next generation of its family. -/
theorem follows_of_marked (C : StoreContract svc)
    (hr : ((engines H svc).under FreshDraws).Reachable s) {i : ℕ} {p q : Str}
    {fromStatus : TokenStatus} {t : ℤ} (h : Marked s i p fromStatus t q) {a b : TokenRecord}
    (ha : Stored s p a) (hb : Stored s q b) : Follows a b := by
  obtain ⟨c, r, n, tr, hw, rfl, rfl⟩ := won_of_marked hr h
  obtain ⟨j, m, hj, hm, he⟩ :=
    ticket_stored (knowledge C (noReinsert_of_freshDraws hr)) hw.ticket hw.did
  exact (Follows.of_mints hw.mints).congr (ha.unique hr ⟨j, m, hj, hm, he⟩)
    (hb.unique hr (.of_inserted hw.inserted))

theorem Installed.known (hr : ((engines H svc).under G).Reachable s) {sel : Str}
    (h : Installed s sel) : Known s sel := by
  obtain ⟨i, p, f, t, hm⟩ := h
  obtain ⟨c, r, n, tr, hw, -, rfl⟩ := won_of_marked hr hm
  exact ⟨i, n, hw.inserted, rfl⟩

theorem Granted.known (hr : ((engines H svc).under G).Reachable s) {sel : Str}
    (h : Granted H s sel) : Known s sel := by
  rcases h with ⟨i, c, n, hf, hn⟩ | h
  · exact ⟨i, n, hf.inserted, hn⟩
  · exact h.known hr

theorem Granted.mono {sel : Str} (h : Granted H s sel) (hs : Step (code H) svc s l s') :
    Granted H s' sel := by
  rcases h with ⟨i, c, n, hf, hn⟩ | ⟨i, p, f, t, hm⟩
  · exact Or.inl ⟨i, c, n, hf.mono hs, hn⟩
  · exact Or.inr ⟨i, p, f, t, did_mono hm hs⟩

/-- **How a selector comes to be granted.** -/
theorem granted_step (hs : Step (code H) svc s l s') {sel : Str} (h : Granted H s' sel) :
    Granted H s sel ∨
    (∃ i c n, l = .answer i ⟨.insert n, ()⟩ ∧ Founded H s' i c n ∧ n.selector = sel) ∨
    ∃ i p fromStatus t, l = .answer i ⟨.markRotated p fromStatus t sel, true⟩ := by
  rcases h with ⟨i, c, n, hf, hn⟩ | ⟨i, p, f, t, hm⟩
  · rcases hs.did_iff.mp hf.inserted with hold | hl
    · obtain ⟨th, hi, hev⟩ := hold
      obtain ⟨th', hi', hg⟩ := hs.grows hi
      have hop : th.op = .issue c := hg.op.symm.trans (OpAt.unique ⟨th', hi', rfl⟩ hf.opAt)
      exact Or.inl (Or.inl ⟨i, c, n, ⟨⟨th, hi, hop⟩, hf.mints, th, hi, hev⟩, hn⟩)
    · exact Or.inr (Or.inl ⟨i, c, n, hl, hf, hn⟩)
  · rcases hs.did_iff.mp hm with hold | hl
    · exact Or.inl (Or.inr ⟨i, p, f, t, hold⟩)
    · exact Or.inr (Or.inr ⟨i, p, f, t, hl⟩)

/-- A record that was stored is granted, or its call is a refresh that has not rotated and has returned
no token. -/
theorem granted_or_undelivered (hr : ((engines H svc).under G).Reachable s) {i : ℕ} {n : TokenRecord}
    (h : Inserted s i n) : Granted H s n.selector ∨ ∃ c, OpAt s i (.refresh c) ∧
      (∀ p f x q, ¬ Marked s i p f x q) ∧ ∀ tok, ¬ Delivers s i tok := by
  by_cases hg : Granted H s n.selector
  · exact Or.inl hg
  · have hno : ∀ p f x q, ¬ Marked s i p f x q := by
      intro p f x q hm
      obtain ⟨c, r, n', tr, hw, -, rfl⟩ := won_of_marked hr hm
      obtain rfl := inserted_once hr h hw.inserted
      exact hg (Or.inr ⟨i, p, f, x, hm⟩)
    rcases inserted_cases hr h with ⟨c, hop, hn⟩ | ⟨c, r, f, x, tr, hop, -⟩
    · exact absurd (Or.inl ⟨i, c, n, ⟨hop, hn, h⟩, rfl⟩) hg
    · refine Or.inr ⟨c, hop, hno, fun tok htok => ?_⟩
      obtain ⟨n', -, -, ⟨c', hf⟩ | ⟨c', r', f', x', tr', hw⟩⟩ := delivered hr htok
      · cases hop.unique hf.opAt
      · exact hno _ _ _ _ hw.marked

/-- A pointer of a row is a rotation. -/
theorem pointer_row (C : StoreContract svc) (h : ((engines H svc).under G).Reachable s) :
    ∀ sel r q, C.look s.shared sel = some r → r.replacedBySelector = some q →
      ∃ i fromStatus t, Marked s i sel fromStatus t q := by
  refine h.invariant (I := fun s => ∀ sel r q, C.look s.shared sel = some r →
    r.replacedBySelector = some q → ∃ i fromStatus t, Marked s i sel fromStatus t q) ?_ ?_
  · intro s hs sel r q hrow
    rw [show s = ⟨svc.start, []⟩ from hs, C.start] at hrow
    cases hrow
  · intro s l s' hr ih hs sel r' q hrow hq
    have hold : ∀ r, C.look s.shared sel = some r → r.replacedBySelector = some q →
        ∃ i fromStatus t, Marked s' i sel fromStatus t q := by
      intro r h0 hq0
      obtain ⟨i, f, t, hm⟩ := ih sel r q h0 hq0
      exact ⟨i, f, t, did_mono hm hs.2⟩
    cases rowAfter C hs.2 hrow with
    | kept h0 => exact hold r' h0 hq
    | inserted h0 hsel =>
      obtain ⟨th, k, -, hc, -⟩ := callAt_answer hr hs.2
      rw [(insert_request hc).mint.2.2] at hq
      cases hq
    | @rotated i q' f t r h0 hst he =>
      subst he
      obtain rfl : q' = q := Option.some.inj hq
      exact ⟨i, f, t, hs.2.did_iff.mpr (Or.inr rfl)⟩
    | cleared h0 hst he =>
      subst he
      exact hold _ h0 hq
    | bulk hl h0 hc he =>
      subst he
      exact hold _ h0 hq

/-- A pointer of a row that was read is a rotation. -/
theorem pointer_found (C : StoreContract svc) (h : ((engines H svc).under G).Reachable s) :
    ∀ i sel r q, s.Did i ⟨.findBySelector sel, some r⟩ → r.replacedBySelector = some q →
      ∃ j fromStatus t, Marked s j sel fromStatus t q := by
  refine h.invariant (I := fun s => ∀ i sel r q, s.Did i ⟨.findBySelector sel, some r⟩ →
    r.replacedBySelector = some q → ∃ j fromStatus t, Marked s j sel fromStatus t q) ?_ ?_
  · rintro s hs i sel r q ⟨th, hi, -⟩
    rw [show s = ⟨svc.start, []⟩ from hs] at hi
    cases hi
  · intro s l s' hr ih hs i sel r q hd hq
    rcases hs.2.did_iff.mp hd with hd | rfl
    · obtain ⟨j, f, t, hm⟩ := ih i sel r q hd hq
      exact ⟨j, f, t, did_mono hm hs.2⟩
    · obtain ⟨th, k, -, -, ha⟩ := callAt_answer hr hs.2
      obtain ⟨j, f, t, hm⟩ := pointer_row C hr sel r q (C.find ha).1.symm hq
      exact ⟨j, f, t, did_mono hm hs.2⟩

/-! ### Collections -/

/-- A refresh with a ticket for the row of `p` has stored `n`, to take its place. -/
def Child (H : HmacSha256) (s : PoolState σ) (p : Str) (n : TokenRecord) : Prop :=
  ∃ (i : ℕ) (th : Call) (c : RefreshCall) (r : TokenRecord) (fromStatus : TokenStatus) (t : ℤ)
    (tr : List StoreEvent), s.threads[i]? = some th ∧ th.op = .refresh c ∧
    Ticket H c r fromStatus t tr ∧ Mints H c r n ∧ ⟨.insert n, ()⟩ :: tr <:+ th.trace ∧ r.selector = p

/-- A rotation puts a successor in the place of its predecessor. -/
theorem child_of_marked (hr : ((engines H svc).under G).Reachable s) {i : ℕ} {p q : Str}
    {fromStatus : TokenStatus} {t : ℤ} (h : Marked s i p fromStatus t q) :
    ∃ n, Child H s p n ∧ n.selector = q := by
  obtain ⟨c, r, n, tr, hw, rfl, rfl⟩ := won_of_marked hr h
  obtain ⟨mode, hi⟩ := hw.thread
  exact ⟨n, ⟨i, _, c, r, fromStatus, t, tr, hi, rfl, hw.ticket, hw.mints, List.suffix_cons _ _, rfl⟩, rfl⟩

/-- A successor and its predecessor have both been stored. -/
theorem Child.stored (hK : Knowledge C s) {p : Str} {n : TokenRecord} (h : Child H s p n) :
    (∃ r, Stored s p r ∧ Follows r n) ∧ Stored s n.selector n := by
  obtain ⟨i, th, c, r, f, t, tr, hi, -, ht, hn, htr, rfl⟩ := h
  obtain ⟨j, m, hj, hm, he⟩ :=
    ticket_stored hK ht fun ev hev => did_of_mem hi (htr.mem (List.mem_cons_of_mem _ hev))
  exact ⟨⟨r, ⟨j, m, hj, hm, he⟩, .of_mints hn⟩, .of_inserted (did_of_mem hi (htr.mem List.mem_cons_self))⟩

/-- A step makes a successor only by storing it. -/
theorem child_step (hs : Step (code H) svc s l s') {p : Str} {n : TokenRecord}
    (h : Child H s' p n) : Child H s p n ∨ ∃ i, l = .answer i ⟨.insert n, ()⟩ := by
  obtain ⟨i, th', c, r, f, t, tr, hi, hop, ht, hn, htr, hsel⟩ := h
  rcases hs.thread_cases hi with ⟨op, -, -, rfl⟩ | ⟨th, hth, hop', htr', -⟩ |
    ⟨th, q, k, rep, a, hth, -, -, -, hl, -, rfl⟩
  · exact absurd (List.suffix_nil.mp htr) (List.cons_ne_nil _ _)
  · exact Or.inl ⟨i, th, c, r, f, t, tr, hth, hop' ▸ hop, ht, hn, htr' ▸ htr, hsel⟩
  · rcases List.suffix_cons_iff.mp htr with he | htr
    · refine Or.inr ⟨i, ?_⟩
      rw [hl, (List.cons.inj he).1]
    · exact Or.inl ⟨i, th, c, r, f, t, tr, hth, hop, ht, hn, htr, hsel⟩

/-- A collection takes rows of one deadline together. -/
theorem present_together (C : StoreContract svc) (hs : Step (code H) svc s l s') {a b : Str}
    {ra rb : TokenRecord} (ha : C.look s.shared a = some ra) (hb : C.look s.shared b = some rb)
    (he : rb.familyExpiresAt = ra.familyExpiresAt) (h : C.look s'.shared a ≠ none) :
    C.look s'.shared b ≠ none := by
  have hb' : C.look s.shared b ≠ none := by
    rw [hb]
    exact Option.some_ne_none rb
  by_cases hl : ∃ a, l = .env a
  · obtain ⟨x, rfl⟩ := hl
    cases rowChange C hs with
    | quiet hq =>
      rw [hq]
      exact hb'
    | bulk hl => rcases hl with hl | ⟨m, hl⟩ <;> cases hl
    | @collected _ now hcol =>
      obtain ⟨ra', hra'⟩ := Option.ne_none_iff_exists'.mp h
      rw [hcol a, ha, Option.filter_eq_some_iff] at hra'
      obtain ⟨hsame, hlt⟩ := hra'
      rw [← Option.some.inj hsame, ← he] at hlt
      rw [hcol, hb, Option.filter_some, if_pos hlt]
      exact Option.some_ne_none rb
  · exact present_step C hs (fun a ha => hl ⟨a, ha⟩) hb'

/-- **A successor is in the store as long as its predecessor is**: a collection takes both. -/
theorem child_present (C : StoreContract svc) (h : ((engines H svc).under FreshDraws).Reachable s) :
    ∀ p n, Child H s p n → C.look s.shared p ≠ none → C.look s.shared n.selector ≠ none := by
  refine h.invariant (I := fun s => ∀ p n, Child H s p n → C.look s.shared p ≠ none →
    C.look s.shared n.selector ≠ none) ?_ ?_
  · rintro s hs p n ⟨i, th, c, r, f, t, tr, hi, -⟩
    rw [show s = ⟨svc.start, []⟩ from hs] at hi
    cases hi
  · intro s l s' hr ih hs p n hch hp
    rcases child_step hs.2 hch with hold | ⟨i, rfl⟩
    · have hK := knowledge C (noReinsert_of_freshDraws hr)
      obtain ⟨⟨r, hsr, hf⟩, hsn⟩ := hold.stored hK
      obtain ⟨row', hrow'⟩ := Option.ne_none_iff_exists'.mp hp
      obtain ⟨row, hrow, -⟩ := evolves_known hr hK hs.2 (noReinsert_guard hr hs) hsr.known hrow'
      obtain ⟨rown, hrown⟩ := Option.ne_none_iff_exists'.mp
        (ih p n hold (by rw [hrow]; exact Option.some_ne_none row))
      have hfol := hf.congr ((Stored.of_row hK hrow).unique hr hsr)
        ((Stored.of_row hK hrown).unique hr hsn)
      exact present_together C hs.2 hrow hrown hfol.familyExpiresAt hp
    · obtain ⟨th, k, -, -, ha⟩ := callAt_answer hr hs.2
      rw [(C.insert ha).2, Function.update_self]
      exact Option.some_ne_none n

end Facts

end NebulaToken.Runs.Lineage
