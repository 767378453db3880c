import NebulaToken.Lib.Succession
import NebulaToken.Runs.Unforked

/-! # How a family stands

A family is held by the granted row that is active; it is between rows while a call that has displaced
the successor of a rotated row has still to rotate that row.

* `displacing_forward`: a call that displaces goes on to insert and to rotate;
* `successor_active`: what a refresh rotates to is active until then, unless the family is dead;
* `Same`, `same_of`: the steps that change nothing for a family. -/

namespace NebulaToken.Runs.Sessions

open NebulaToken.Lib.Program NebulaToken.Lib.Pool NebulaToken.Lib.Transition
open NebulaToken.Token.Unicode NebulaToken.Token.Wire
open NebulaToken.Engine.Records NebulaToken.Engine.Operations
open NebulaToken.Runs.Calls NebulaToken.Runs.History NebulaToken.Runs.Provenance
open NebulaToken.Runs.Assumptions NebulaToken.Runs.Families NebulaToken.Runs.Lineage
open NebulaToken.Runs.Unforked NebulaToken.Store.Contract

variable {σ Env : Type}

/-- A login has started the family. -/
def Begun (H : HmacSha256) (s : PoolState σ) (familyId : Str) : Prop :=
  ∃ i c n, Founded H s i c n ∧ c.draw.familyId = familyId

/-- The family has a record of the selector, and it is granted. -/
def GivenOut (H : HmacSha256) (s : PoolState σ) (familyId sel : Str) : Prop :=
  Granted H s sel ∧ ∃ r, Stored s sel r ∧ r.familyId = familyId

section Standing

variable {svc : StoreService σ Env}

/-- The family is held by the row of the selector, which is granted and active. -/
def Held (H : HmacSha256) (C : StoreContract svc) (s : PoolState σ) (familyId sel : Str) : Prop :=
  Live H C s familyId (.inl sel)

/-- Call `i` has displaced the successor of a row of the family, and the row is still rotated. -/
def Between (H : HmacSha256) (C : StoreContract svc) (s : PoolState σ) (familyId : Str) (i : ℕ) :
    Prop :=
  ∃ r row, Displacing H s i r ∧ r.familyId = familyId ∧ C.look s.shared r.selector = some row ∧
    row.status = .rotated

/-- **Nothing has changed for the family.** -/
structure Same (H : HmacSha256) (C : StoreContract svc) (s s' : PoolState σ) (familyId : Str) :
    Prop where
  begun : Begun H s' familyId ↔ Begun H s familyId
  given : ∀ sel, GivenOut H s' familyId sel ↔ GivenOut H s familyId sel
  held : ∀ sel, Held H C s' familyId sel ↔ Held H C s familyId sel
  between : ∀ i, Between H C s' familyId i ↔ Between H C s familyId i

/-- The step of a bulk revocation, or a collection. -/
inductive Ends : PoolLabel Env → Prop
  | family {i : ℕ} {familyId : Str} {n : ℕ} : Ends (.answer i ⟨.revokeFamily familyId, n⟩)
  | user {i : ℕ} {userId : Str} {n : ℕ} : Ends (.answer i ⟨.revokeUser userId, n⟩)
  | collection {a : Env} : Ends (.env a)

end Standing

section Facts

variable {H : HmacSha256} {svc : StoreService σ Env} {C : StoreContract svc} {s s' : PoolState σ}
  {l : PoolLabel Env}

theorem Between.live {familyId : Str} {i : ℕ} (h : Between H C s familyId i) :
    Live H C s familyId (.inr i) := by
  obtain ⟨r, row, hd, hf, -, -⟩ := h
  exact .call hd hf

/-- **A family is held by one row at most, and then no call is to rotate it.** -/
theorem held_unique (C : StoreContract svc) (hr : ((engines H svc).under (Honest H)).Reachable s)
    {familyId sel sel' : Str} (h : Held H C s familyId sel) (h' : Held H C s familyId sel') :
    sel = sel' := Sum.inl.inj (live_unique C hr familyId _ _ h h')

theorem not_between_of_held (C : StoreContract svc)
    (hr : ((engines H svc).under (Honest H)).Reachable s) {familyId sel : Str} {i : ℕ}
    (h : Held H C s familyId sel) : ¬ Between H C s familyId i := fun hb =>
  nomatch live_unique C hr familyId _ _ h hb.live

theorem between_unique (C : StoreContract svc) (hr : ((engines H svc).under (Honest H)).Reachable s)
    {familyId : Str} {i j : ℕ} (h : Between H C s familyId i) (h' : Between H C s familyId j) :
    i = j := Sum.inr.inj (live_unique C hr familyId _ _ h.live h'.live)

/-- A family that is alive has begun. -/
theorem begun_of_live (hr : ((engines H svc).under (Honest H)).Reachable s) {familyId : Str}
    {x : Str ⊕ ℕ} (h : Live H C s familyId x) : Begun H s familyId := by
  obtain ⟨sel, r, hst, hf⟩ := h.stored (knowledge_of_honest C hr)
  obtain ⟨j, c, n, hfd, ho⟩ := hst.founded (noReinsert_of_freshDraws (fresh hr)) C
  exact ⟨j, c, n, hfd, ho.family.symm.trans hf⟩

theorem Begun.mono {familyId : Str} (h : Begun H s familyId) (hs : Step (code H) svc s l s') :
    Begun H s' familyId := by
  obtain ⟨i, c, n, hf, hc⟩ := h
  exact ⟨i, c, n, hf.mono hs, hc⟩

theorem GivenOut.mono {familyId sel : Str} (h : GivenOut H s familyId sel)
    (hs : Step (code H) svc s l s') : GivenOut H s' familyId sel := by
  obtain ⟨hg, r, hst, hf⟩ := h
  exact ⟨hg.mono hs, r, hst.mono hs, hf⟩

/-- A family begins when its login stores its first record. -/
theorem begun_back (hs : Step (code H) svc s l s') {familyId : Str} (h : Begun H s' familyId) :
    Begun H s familyId ∨ ∃ i c n, l = .answer i ⟨.insert n, ()⟩ ∧ Founded H s' i c n ∧
      c.draw.familyId = familyId := by
  obtain ⟨i, c, n, hf, hc⟩ := h
  rcases hs.did_iff.mp hf.inserted with ⟨th, hi, hev⟩ | hl
  · obtain ⟨th', hi', hg⟩ := hs.grows hi
    have hop : th.op = .issue c := hg.op.symm.trans (OpAt.unique ⟨th', hi', rfl⟩ hf.opAt)
    exact Or.inl ⟨i, c, n, ⟨⟨th, hi, hop⟩, hf.mints, th, hi, hev⟩, hc⟩
  · exact Or.inr ⟨i, c, n, hl, hf, hc⟩

/-- A record is given out by the login that stores it, or by the rotation that installs it. -/
theorem givenOut_back (hr : ((engines H svc).under (Honest H)).Reachable s)
    (hs : ((engines H svc).under (Honest H)).step s l s') {familyId sel : Str}
    (h : GivenOut H s' familyId sel) : GivenOut H s familyId sel ∨
      (∃ i c n, l = .answer i ⟨.insert n, ()⟩ ∧ Founded H s' i c n ∧ n.selector = sel) ∨
      ∃ i p f x, l = .answer i ⟨.markRotated p f x sel, true⟩ := by
  obtain ⟨hg, r, hst, hf⟩ := h
  rcases granted_step hs.2 hg with hold | hnew
  · exact Or.inl ⟨hold, r, hst.back (fresh (hr.step hs)) hs.2 (hold.known hr), hf⟩
  · exact Or.inr hnew

/-! ### Calls that displace -/

/-- A refresh inserts the successor once it has displaced the one there was. -/
theorem insert_of_ticket {c : RefreshCall} {r : TokenRecord} {t : ℤ} {tr : List StoreEvent}
    {q : StoreCall} {k : q.Reply → StoreM RefreshResult} (h : RefreshAt H c tr (.call q k))
    (ht : Ticket H c r .rotated t tr) : ∃ n, q = .insert n := by
  cases h with
  | inserting ht' hn => exact ⟨_, rfl⟩
  | burning hb => cases hb <;> cases ht
  | lookup | successorLookup | consume | marking | cleaning => cases ht

/-- It rotates the record it has presented. -/
theorem mark_of_ticket {c : RefreshCall} {r n : TokenRecord} {t : ℤ} {tr : List StoreEvent}
    {q : StoreCall} {k : q.Reply → StoreM RefreshResult}
    (h : RefreshAt H c (⟨.insert n, ()⟩ :: tr) (.call q k)) (ht : Ticket H c r .rotated t tr) :
    ∃ t' q', q = .markRotated r.selector .rotated t' q' := by
  generalize htr : (⟨.insert n, ()⟩ :: tr : List StoreEvent) = tr' at h
  cases h with
  | @marking r' n' f t' tr₀ ht' hn' =>
    obtain ⟨-, rfl⟩ := List.cons.inj htr
    -- both tickets are for the row that the first request has found
    obtain ⟨sel, pepper, -, hs⟩ := ht.first
    obtain ⟨sel', pepper', -, hs'⟩ := ht'.first
    have he := (List.suffix_of_suffix_length_le hs hs' le_rfl).eq_of_length rfl
    obtain ⟨-, rfl⟩ : sel = sel' ∧ r = r' := by simpa using he
    exact ⟨t', n'.selector, by rw [← ht'.status, ht.status]⟩
  | inserting ht' => cases ht' <;> cases htr
  | burning hb => cases hb <;> cases htr
  | lookup | successorLookup | consume | cleaning => cases htr

/-- **A call that displaces does so until the store answers its rotation.** -/
theorem displacing_forward (hr : ((engines H svc).under (Honest H)).Reachable s)
    (hs : Step (code H) svc s l s') {i : ℕ} {r : TokenRecord} (h : Displacing H s i r) :
    Displacing H s' i r ∨
      ∃ t q b, l = .answer i ⟨.markRotated r.selector .rotated t q, b⟩ := by
  obtain ⟨th, c, t, tr, hi, hop, ht, htr⟩ := h
  obtain ⟨th', hi', -⟩ := hs.grows hi
  rcases hs.thread_cases hi' with ⟨op, -, hlen, -⟩ | ⟨th₀, hth, hop', htr', -⟩ |
    ⟨th₀, q, k, rep, a, hth, -, hp, -, hl, -, rfl⟩
  · have hlt := (List.getElem?_eq_some_iff.mp hi).1
    omega
  · obtain rfl := Option.some.inj (hi.symm.trans hth)
    exact Or.inl ⟨th', c, t, tr, hi', hop'.trans hop, ht, htr'.symm ▸ htr⟩
  · obtain rfl := Option.some.inj (hi.symm.trans hth)
    have hat := callAt hr th (mem_of_getElem? hi)
    rw [hop, hp] at hat
    obtain ⟨p, he, hat⟩ := hat
    obtain ⟨k', rfl, -⟩ := Prog.map_eq_call he.symm
    rcases htr with htr | ⟨n, htr⟩
    · obtain ⟨n, rfl⟩ := insert_of_ticket hat (htr ▸ ht)
      exact Or.inl ⟨_, c, t, tr, hi', hop, ht, Or.inr ⟨n, congrArg _ htr⟩⟩
    · obtain ⟨t', q', rfl⟩ := mark_of_ticket (htr ▸ hat) ht
      exact Or.inr ⟨t', q', rep, hl⟩

/-! ### The steps that end nothing -/

variable {A : AtomicContract svc}

/-- A bulk revocation that is no answer leaves the rows as they are. -/
theorem still_of_bulk (hs : Step (code H) svc s l s') (hl : ¬ Ends l) {i : ℕ} {q : StoreCall}
    (hq : l = .work i ∨ ∃ n, l = .answer i ⟨q, n⟩)
    (h : RevokesSome (Covers q) (A.look s.shared) (A.look s'.shared)) :
    A.look s'.shared = A.look s.shared := by
  rcases hq with rfl | ⟨n, rfl⟩
  · cases hs with
    | work hi hm hp hw => exact A.work_still hw
  · cases q with
    | revokeFamily familyId => exact absurd .family hl
    | revokeUser userId => exact absurd .user hl
    | findBySelector | insert | markRotated | revokeIfActive =>
      funext sel
      rcases h sel with he | ⟨r, -, hc, -⟩
      · exact he
      · exact hc.elim

/-- **A row that holds a family holds it until it is rotated or revoked.** -/
theorem Held.forward (hs : Step (code H) svc s l s') (hl : ¬ Ends l) {familyId sel : Str}
    (h : Held H A.toStoreContract s familyId sel)
    (hm : ∀ i f t q, l ≠ .answer i ⟨.markRotated sel f t q, true⟩)
    (hc : ∀ i, l ≠ .answer i ⟨.revokeIfActive sel, true⟩) :
    Held H A.toStoreContract s' familyId sel := by
  cases h with
  | @row _ r hg hrow hst hf =>
    refine .row (hg.mono hs) ?_ hst hf
    cases rowChange A.toStoreContract hs with
    | quiet hq => rw [hq, hrow]
    | @inserted i n h0 hu =>
      have hne : sel ≠ n.selector := fun he => by simp [he, h0] at hrow
      rw [hu, Function.update_of_ne hne, hrow]
    | @rotated i sel' q f t r' h0 hst' hu =>
      have hne : sel ≠ sel' := fun he => hm i f t q (by rw [he])
      rw [hu, Function.update_of_ne hne, hrow]
    | @cleared i sel' r' h0 hst' hu =>
      have hne : sel ≠ sel' := fun he => hc i (by rw [he])
      rw [hu, Function.update_of_ne hne, hrow]
    | bulk hq hrev => rw [still_of_bulk hs hl hq hrev, hrow]
    | collected => exact absurd .collection hl

/-- **A call may rotate a rotated row until it does.** -/
theorem Between.forward (hr : ((engines H svc).under (Honest H)).Reachable s)
    (hs : Step (code H) svc s l s') (hl : ¬ Ends l) {familyId : Str} {i : ℕ}
    (h : Between H A.toStoreContract s familyId i)
    (hm : ∀ p f t q row, l = .answer i ⟨.markRotated p f t q, true⟩ →
      A.look s.shared p = some row → row.familyId ≠ familyId) :
    Between H A.toStoreContract s' familyId i := by
  obtain ⟨r, row, hd, hf, hrow, hst⟩ := h
  have hfam : row.familyId = familyId := by
    rw [((hd.read (knowledge_of_honest A.toStoreContract hr)).2.2 row hrow).familyId, hf]
  -- the store has not refused the rotation, since the row is rotated
  have hd' : Displacing H s' i r := by
    refine (displacing_forward hr hs hd).resolve_right ?_
    rintro ⟨t, q, b, rfl⟩
    cases b with
    | true => exact hm _ _ t q row rfl hrow hfam
    | false =>
      obtain ⟨th, k, -, -, -, ha⟩ := answer_inv hs
      exact (A.mark_lost ha).2 row hrow hst
  cases rowChange A.toStoreContract hs with
  | quiet hq => exact ⟨r, row, hd', hf, by rw [hq, hrow], hst⟩
  | @inserted j n h0 hu =>
    have hne : r.selector ≠ n.selector := fun he => by simp [he, h0] at hrow
    exact ⟨r, row, hd', hf, by rw [hu, Function.update_of_ne hne, hrow], hst⟩
  | @rotated j sel' q f t r' h0 hst' hu =>
    rcases eq_or_ne r.selector sel' with he | hne
    · exact ⟨r, rotatedTo r' t q, hd', hf, by rw [hu, he, Function.update_self], rfl⟩
    · exact ⟨r, row, hd', hf, by rw [hu, Function.update_of_ne hne, hrow], hst⟩
  | @cleared j sel' r' h0 hst' hu =>
    have hne : r.selector ≠ sel' := by
      rintro rfl
      obtain rfl := Option.some.inj (hrow.symm.trans h0)
      simp [hst] at hst'
    exact ⟨r, row, hd', hf, by rw [hu, Function.update_of_ne hne, hrow], hst⟩
  | bulk hq hrev => exact ⟨r, row, hd', hf, by rw [still_of_bulk hs hl hq hrev, hrow], hst⟩
  | collected => exact absurd .collection hl

/-- A call that may rotate a row could before, or has just displaced the row's successor. -/
theorem Between.back (hr : ((engines H svc).under (Honest H)).Reachable s)
    (hs : ((engines H svc).under (Honest H)).step s l s') {familyId : Str} {i : ℕ}
    (h : Between H C s' familyId i) : Between H C s familyId i ∨
      ∃ d r, l = .answer i ⟨.revokeIfActive d, true⟩ ∧ Displacing H s' i r ∧ r.familyId = familyId := by
  obtain ⟨r, row', hd, hf, hrow', hst⟩ := h
  rcases displacing_step hs.2 hd with hold | ⟨d, hl⟩
  · have hread := (hold.read (knowledge_of_honest C hr)).2
    refine Or.inl ⟨r, ?_⟩
    cases rowAfter C hs.2 hrow' with
    | kept h0 => exact ⟨row', hold, hf, h0, hst⟩
    | @inserted j h0 hsel =>
      have hk := (hold.read (knowledge_of_honest C hr)).1.known
      exact absurd (hsel ▸ hk) (noReinsert_of_honest hr hs j row' rfl)
    | @rotated j q f t row h0 hst' he =>
      obtain ⟨th, c, r₀, n, tr, row₀, -, -, ht, -, -, -, -, -, hrow₀, hst₀, -⟩ :=
        mark_step (C := C) hr hs.2
      obtain rfl := Option.some.inj (h0.symm.trans hrow₀)
      refine ⟨row, hold, hf, h0, ?_⟩
      have hne : row.status ≠ .active := (hread.2 row h0).not_active (by simp [hread.1])
      cases hstat : row.status with
      | active => exact absurd hstat hne
      | rotated => rfl
      | revoked => exact absurd (hst'.symm.trans hstat) ht.not_revoked
    | cleared h0 hst' he =>
      subst he
      cases hst
    | bulk hq h0 hc he =>
      subst he
      cases hst
  · exact Or.inr ⟨d, r, hl, hd, hf⟩

/-- **What changes nothing for a family**: a step that ends nothing, starts no session of it, and
rotates or revokes no granted row of it. -/
theorem same_of (hr : ((engines H svc).under (Honest H)).Reachable s)
    (hs : ((engines H svc).under (Honest H)).step s l s') (hl : ¬ Ends l) {familyId : Str}
    (hi : ∀ i c n, l = .answer i ⟨.insert n, ()⟩ → Founded H s' i c n → c.draw.familyId ≠ familyId)
    (hm : ∀ i p f t q row, l = .answer i ⟨.markRotated p f t q, true⟩ →
      A.look s.shared p = some row → row.familyId ≠ familyId)
    (hc : ∀ i d row, l = .answer i ⟨.revokeIfActive d, true⟩ → A.look s.shared d = some row →
      Granted H s d → row.familyId ≠ familyId) : Same H A.toStoreContract s s' familyId := by
  have hK := knowledge_of_honest A.toStoreContract hr
  have hr' := hr.step hs
  -- the family of what a rotation installs is that of the row it is of
  have hinst : ∀ i p f t sel r, l = .answer i ⟨.markRotated p f t sel, true⟩ → Stored s' sel r →
      r.familyId ≠ familyId := by
    intro i p f t sel r hlab hst hfam
    subst hlab
    obtain ⟨th, c, r₀, n, tr, row, -, -, -, -, -, -, -, -, hrow, -⟩ :=
      mark_step (C := A.toStoreContract) hr hs.2
    have hfol := follows_of_marked A.toStoreContract (fresh hr') (hs.2.did_iff.mpr (Or.inr rfl))
      ((Stored.of_row hK hrow).mono hs.2) hst
    exact hm i p f t sel row rfl hrow (hfol.familyId.symm.trans hfam)
  refine ⟨⟨fun h => ?_, fun h => h.mono hs.2⟩, fun sel => ⟨fun h => ?_, fun h => h.mono hs.2⟩,
    fun sel => ⟨fun h => ?_, fun h => ?_⟩, fun i => ⟨fun h => ?_, fun h => ?_⟩⟩
  · rcases begun_back hs.2 h with hold | ⟨i, c, n, hlab, hf, hfam⟩
    · exact hold
    · exact absurd hfam (hi i c n hlab hf)
  · rcases givenOut_back hr hs h with hold | ⟨i, c, n, hlab, hf, rfl⟩ | ⟨i, p, f, t, hlab⟩
    · exact hold
    · obtain ⟨-, r, hst, hfam⟩ := h
      have hmin := hst.unique (fresh hr') (.of_inserted hf.inserted)
      have hfn : r.familyId = n.familyId := (congrArg TokenRecord.familyId hmin :)
      exact absurd ((OfFamily.of_mints hf.mints).family.symm.trans (hfn.symm.trans hfam))
        (hi i c n hlab hf)
    · obtain ⟨-, r, hst, hfam⟩ := h
      exact absurd hfam (hinst i p f t sel r hlab hst)
  · rcases live_back hr hs h with hold | hg
    · exact hold
    · have hrow := h
      cases hg with
      | @login i c n hf hfam =>
        exact absurd ((OfFamily.of_mints hf.mints).family.symm.trans hfam) (hi i c n rfl hf)
      | @rotation i p q f t =>
        cases hrow with
        | @row _ r hg hrow hst hfam =>
          exact absurd hfam (hinst i p f t sel r rfl
            (.of_row (knowledge_of_honest A.toStoreContract hr') hrow))
  · refine Held.forward hs.2 hl h ?_ ?_
    · rintro i f t q hlab
      cases h with
      | @row _ r hg hrow hst hfam => exact hm i sel f t q r hlab hrow hfam
    · rintro i hlab
      cases h with
      | @row _ r hg hrow hst hfam => exact hc i sel r hlab hrow hg hfam
  · rcases h.back hr hs with hold | ⟨d, r, rfl, hd, hfam⟩
    · exact hold
    · obtain ⟨row, hrow, hst, -, -, hsr, j, f, t, hmk⟩ :=
        displacement_step (C := A.toStoreContract) hr hs.2 hd
      have hfol := follows_of_marked A.toStoreContract (fresh hr) hmk hsr (.of_row hK hrow)
      exact absurd (hfol.familyId.trans hfam) (hc i d row rfl hrow (Or.inr ⟨j, _, f, t, hmk⟩))
  · exact h.forward hr hs.2 hl fun p f t q row hlab hrow => hm i p f t q row hlab hrow

/-! ### What a rotation installs -/

/-- **The successor of a refresh that has not settled is active**, unless its family is dead. -/
theorem successor_active (A : AtomicContract svc)
    (h : ((engines H svc).under (Honest H)).Reachable s) :
    ∀ i n c, Inserted s i n → OpAt s i (.refresh c) → (∀ p f t q, ¬ Marked s i p f t q) →
      (∀ b, ¬ s.Did i ⟨.revokeIfActive n.selector, b⟩) → ∀ row,
      A.look s.shared n.selector = some row →
      row.status = .active ∨ Dead H A.toStoreContract s n.familyId := by
  refine h.invariant (I := fun s => ∀ i n c, Inserted s i n → OpAt s i (.refresh c) →
    (∀ p f t q, ¬ Marked s i p f t q) → (∀ b, ¬ s.Did i ⟨.revokeIfActive n.selector, b⟩) → ∀ row,
    A.look s.shared n.selector = some row →
    row.status = .active ∨ Dead H A.toStoreContract s n.familyId) ?_ ?_
  · rintro s hs i n c ⟨th, hi, -⟩
    rw [show s = ⟨svc.start, []⟩ from hs] at hi
    cases hi
  · intro s l s' hr ih hs i n c hins hop hnm hnc row' hrow'
    have hK := knowledge_of_honest A.toStoreContract hr
    have hr' := hr.step hs
    rcases hs.2.did_iff.mp hins with hold | rfl
    swap
    · obtain ⟨th, k, -, hc, ha⟩ := callAt_answer hr hs.2
      rw [(A.insert ha).2, Function.update_self] at hrow'
      obtain rfl := Option.some.inj hrow'
      exact Or.inl (insert_request hc).mint.1
    have hop₀ : OpAt s i (.refresh c) := by
      obtain ⟨th, hi, -⟩ := hold
      obtain ⟨th', hi', hg⟩ := hs.2.grows hi
      exact ⟨th, hi, hg.op.symm.trans (OpAt.unique ⟨th', hi', rfl⟩ hop)⟩
    have hnm₀ : ∀ p f t q, ¬ Marked s i p f t q := fun p f t q h => hnm p f t q (did_mono h hs.2)
    have hng := not_granted (fresh hr) hold hop₀ hnm₀
    obtain ⟨row, hrow, he⟩ := evolves_known hr hK hs.2 (noReinsert_of_honest hr hs)
      (Stored.of_inserted hold).known hrow'
    rcases ih i n c hold hop₀ hnm₀ (fun b h => hnc b (did_mono h hs.2)) row hrow with hact | hD
    swap
    · exact Or.inr (hD.step hr hs)
    cases rowAfter A.toStoreContract hs.2 hrow' with
    | kept h0 =>
      obtain rfl := Option.some.inj (hrow.symm.trans h0)
      exact Or.inl hact
    | inserted h0 hsel => simp [h0] at hrow
    | rotated h0 hst he' =>
      obtain ⟨th, c', r, n', tr, row₀, -, -, -, -, -, -, -, hg, -⟩ :=
        mark_step (C := A.toStoreContract) hr hs.2
      exact absurd hg hng
    | @cleared j r h0 hst he' =>
      -- a call that clears it has read a pointer to it, or has inserted it
      obtain ⟨th, k, hj, hc, -⟩ := callAt_answer hr hs.2
      generalize hop' : th.op = op at hc
      generalize htr : th.trace = tr at hc
      have hd : ∀ ev ∈ tr, s.Did j ev := fun ev hev => did_of_mem hj (htr ▸ hev)
      cases clear_request hc with
      | @displace c' r' d sel₀ pepper q t hp hrs hg ha hdev hsel =>
        have hq := hK.found_selector (hd ⟨.findBySelector q, some d⟩ (by simp))
        obtain ⟨k', f, x, hmk⟩ := pointer_found A.toStoreContract hr j sel₀ r' q
          (hd _ (by simp)) (withinGrace_some hg).2.1
        exact absurd (Or.inr ⟨k', sel₀, f, x, by rw [hsel, hq]; exact hmk⟩) hng
      | @cleanup c' r' n' f t tr' ht hn hsel =>
        obtain ⟨rfl, -⟩ := inserted_unique (fresh hr) hold (hd ⟨.insert n', ()⟩ (by simp)) hsel
        exact absurd (hs.2.did_iff.mpr (Or.inr rfl)) (hnc true)
    | @bulk j q _ r hq h0 hc he' =>
      rcases hq with rfl | ⟨rep, rfl⟩
      · have hstill : A.look s'.shared = A.look s.shared := by
          cases hs.2 with
          | work hi hm hp hw => exact A.work_still hw
        rw [hstill, hrow] at hrow'
        obtain rfl := Option.some.inj hrow'
        exact Or.inl hact
      · obtain ⟨j', c', n', hf, ho⟩ := (Stored.of_row hK h0).founded
          (noReinsert_of_freshDraws (fresh hr)) A.toStoreContract
        have hmin := (Stored.of_row hK h0).unique (fresh hr) (.of_inserted hold)
        have hfam : r.familyId = n.familyId := (congrArg TokenRecord.familyId hmin :)
        rw [← hfam, ho.family]
        exact Or.inr (dead_of_bulk A hr hs hf ((coversFamily_iff ho).mpr hc))

/-- **A rotation makes its successor hold the family.** -/
theorem held_of_marked (A : AtomicContract svc)
    (hr : ((engines H svc).under (Honest H)).Reachable s) {i : ℕ} {p q : Str} {f : TokenStatus} {t : ℤ}
    (hs : ((engines H svc).under (Honest H)).step s (.answer i ⟨.markRotated p f t q, true⟩) s') :
    ∃ row, A.look s.shared p = some row ∧ row.status = f ∧ Granted H s p ∧ ¬ Granted H s q ∧
      Held H A.toStoreContract s' row.familyId q := by
  obtain ⟨th, c, r, n, tr, row, hi, hop, ht, hn, htr, rfl, rfl, hg, hrow, hst, hupd⟩ :=
    mark_step (C := A.toStoreContract) hr hs.2
  have hK := knowledge_of_honest A.toStoreContract hr
  have hins : Inserted s i n := did_of_mem hi (htr ▸ List.mem_cons_self)
  have hnm : ∀ p f t q, ¬ Marked s i p f t q := by
    rintro p f t q ⟨th', hi', hev⟩
    obtain rfl := Option.some.inj (hi.symm.trans hi')
    rw [htr] at hev
    cases ht <;> simp at hev
  have hng := not_granted (fresh hr) hins ⟨th, hi, hop⟩ hnm
  have hd : ∀ ev ∈ tr, s.Did i ev := fun ev hev =>
    did_of_mem hi (htr ▸ List.mem_cons_of_mem _ hev)
  obtain ⟨j, m, hj, hm, he⟩ := ticket_stored hK ht hd
  have hmin := (Stored.of_row hK hrow).unique (fresh hr) ⟨j, m, hj, hm, he⟩
  have hfam : row.familyId = r.familyId := (congrArg TokenRecord.familyId hmin :)
  have hfn := (Follows.of_mints hn).familyId
  -- the call has not revoked its successor
  have hnc : ∀ b, ¬ s.Did i ⟨.revokeIfActive n.selector, b⟩ := by
    rintro b ⟨th', hi', hev⟩
    obtain rfl := Option.some.inj (hi.symm.trans hi')
    rw [htr] at hev
    cases ht with
    | fresh => simp at hev
    | @grace sel pepper q' _ d hp hrs hgr ha hdev =>
      have hq := hK.found_selector (hd ⟨.findBySelector q', some d⟩ (by simp))
      obtain ⟨k', f', x', hmk⟩ := pointer_found A.toStoreContract hr i sel r q' (hd _ (by simp))
        (withinGrace_some hgr).2.1
      have hsel : n.selector = q' := by
        rw [← hq]
        exact (by simpa using hev : n.selector = d.selector ∧ b = true).1
      exact hng (Or.inr ⟨k', sel, f', x', hsel ▸ hmk⟩)
  have hpres : A.look s.shared n.selector ≠ none := by
    refine child_present A.toStoreContract (fresh hr) r.selector n ?_ ?_
    · exact ⟨i, th, c, r, f, t, tr, hi, hop, ht, hn, htr ▸ List.suffix_rfl, rfl⟩
    · rw [hrow]
      exact Option.some_ne_none row
  obtain ⟨rn, hrn⟩ := Option.ne_none_iff_exists'.mp hpres
  have hmin' := (Stored.of_row hK hrn).unique (fresh hr) (.of_inserted hins)
  have hfrn : rn.familyId = n.familyId := (congrArg TokenRecord.familyId hmin' :)
  have hact : rn.status = .active := by
    refine (successor_active A hr i n c hins ⟨th, hi, hop⟩ hnm hnc rn hrn).resolve_right fun hD => ?_
    exact ht.not_revoked (hst ▸ hD.revoked r.selector row hg hrow (hfam.trans hfn.symm))
  have hne : n.selector ≠ r.selector := fun he => hng (he ▸ hg)
  refine ⟨row, hrow, hst, hg, hng, .row (Or.inr ⟨i, _, f, t, hs.2.did_iff.mpr (Or.inr rfl)⟩) ?_ hact ?_⟩
  · rw [hupd, Function.update_of_ne hne, hrn]
  · rw [hfrn, hfn, hfam]

end Facts

end NebulaToken.Runs.Sessions
