import NebulaToken.Runs.Lineage

/-! # A family does not fork

What keeps a family alive is a granted active row, or a call that has displaced one and has still to
rotate. With fresh draws and secret tokens a family has one of these at most: a login starts with one,
and a rotation or a displacement uses up the one there was.

* `presented_granted`: the rows that refreshes present are granted;
* `live_unique`: one at most in a family;
* `Dead`, `dead_run`: a family whose granted rows are revoked stays so. -/

namespace NebulaToken.Runs.Unforked

open NebulaToken.Lib.Pool NebulaToken.Lib.Transition NebulaToken.Token.Unicode
open NebulaToken.Token.Wire NebulaToken.Engine.Records NebulaToken.Engine.Operations
open NebulaToken.Runs.Calls NebulaToken.Runs.History NebulaToken.Runs.Provenance
open NebulaToken.Runs.Assumptions NebulaToken.Runs.Families NebulaToken.Runs.Lineage
open NebulaToken.Store.Contract

variable {σ Env : Type}

/-- Call `i` has displaced the successor of `r`, and has still to rotate `r`. -/
def Displacing (H : HmacSha256) (s : PoolState σ) (i : ℕ) (r : TokenRecord) : Prop :=
  ∃ (th : Call) (c : RefreshCall) (t : ℤ) (tr : List StoreEvent), s.threads[i]? = some th ∧
    th.op = .refresh c ∧ Ticket H c r .rotated t tr ∧
    (th.trace = tr ∨ ∃ n, th.trace = ⟨.insert n, ()⟩ :: tr)

/-- **What keeps a family alive.** -/
inductive Live {svc : StoreService σ Env} (H : HmacSha256) (C : StoreContract svc) (s : PoolState σ)
    (familyId : Str) : Str ⊕ ℕ → Prop
  | row {sel : Str} {r : TokenRecord} (hg : Granted H s sel) (h : C.look s.shared sel = some r)
      (hs : r.status = .active) (hf : r.familyId = familyId) : Live H C s familyId (.inl sel)
  | call {i : ℕ} {r : TokenRecord} (h : Displacing H s i r) (hf : r.familyId = familyId) :
    Live H C s familyId (.inr i)

section Facts

variable {H : HmacSha256} {svc : StoreService σ Env} {C : StoreContract svc} {s s' t : PoolState σ}
  {l : PoolLabel Env}

/-- A run with secret tokens draws freshly. -/
theorem fresh (h : ((engines H svc).under (Honest H)).Reachable s) :
    ((engines H svc).under FreshDraws).Reachable s := h.weaken fun _ _ h => h.fresh

theorem knowledge_of_honest (C : StoreContract svc)
    (h : ((engines H svc).under (Honest H)).Reachable s) : Knowledge C s :=
  knowledge C (noReinsert_of_freshDraws (fresh h))

theorem noReinsert_of_honest (hr : ((engines H svc).under (Honest H)).Reachable s)
    (hs : ((engines H svc).under (Honest H)).step s l s') : NoReinsert s l :=
  noReinsert_guard (fresh hr) ⟨hs.1.fresh, hs.2⟩

/-! ### The rows that refreshes present -/

/-- A token that was returned is that of a granted record. -/
theorem granted_of_returned (hr : ((engines H svc).under (Honest H)).Reachable s) {sel : Str}
    (h : Returned s sel) : Granted H s sel := by
  obtain ⟨th, hth, hd, x, hres, htok⟩ := h
  obtain ⟨i, hi⟩ := List.mem_iff_getElem?.mp hth
  obtain ⟨tok, htok⟩ := Option.isSome_iff_exists.mp htok
  obtain ⟨n, hn, -, hcase⟩ := delivered hr ⟨th, x, hi, hres, htok⟩
  obtain ⟨op, hop, hdn⟩ := inserted_drawn hr hn
  obtain rfl := hop.unique ⟨th, hi, rfl⟩
  obtain rfl := Option.some.inj (hd.symm.trans hdn)
  rcases hcase with ⟨c, hf⟩ | ⟨c, r, f, t, tr, hw⟩
  · exact Or.inl ⟨i, c, n, hf, rfl⟩
  · exact Or.inr ⟨i, _, f, t, hw.marked⟩

/-- **What is true of the tokens that were returned is true of the rows that refreshes have proved.** -/
theorem read_of_returned {G : PoolState σ → PoolLabel Env → Prop} {P : PoolState σ → Str → Prop}
    (hG : ∀ s l, G s l → SecretTokens H s l)
    (hret : ∀ s sel, ((engines H svc).under G).Reachable s → Returned s sel → P s sel)
    (hmono : ∀ s l s' sel, ((engines H svc).under G).Reachable s → Step (code H) svc s l s' →
      P s sel → P s' sel)
    (h : ((engines H svc).under G).Reachable s) :
    ∀ (i : ℕ) (th : Call) c sel r pepper, s.threads[i]? = some th → th.op = .refresh c →
      [⟨.findBySelector sel, some r⟩] <:+ th.trace → Proves H c sel r pepper → P s r.selector := by
  refine h.invariant (I := fun s => ∀ (i : ℕ) (th : Call) c sel r pepper, s.threads[i]? = some th →
    th.op = .refresh c → [⟨.findBySelector sel, some r⟩] <:+ th.trace → Proves H c sel r pepper →
    P s r.selector) ?_ ?_
  · intro s hs i th c sel r pepper hi
    rw [show s = ⟨svc.start, []⟩ from hs] at hi
    cases hi
  · intro s l s' hr ih hs i th' c sel r pepper hi hop htr hp
    rcases hs.2.thread_cases hi with ⟨op, -, -, rfl⟩ | ⟨th, hth, hop', htr', -⟩ |
      ⟨th, q, k, rep, a, hth, -, -, -, hl, -, rfl⟩
    · exact absurd (List.suffix_nil.mp htr) (List.cons_ne_nil _ _)
    · exact hmono s l s' _ hr hs.2 (ih i th c sel r pepper hth (hop' ▸ hop) (htr' ▸ htr) hp)
    · refine hmono s l s' _ hr hs.2 ?_
      rcases List.suffix_cons_iff.mp htr with he | htr
      · obtain ⟨he, hnil⟩ := List.cons.inj he
        rw [← he] at hl
        exact hret s _ hr (hG s l hs.1 i th c sel r pepper hl hth hop hnil.symm hp)
      · exact ih i th c sel r pepper hth hop htr hp

/-- **A row whose verifier a refresh has proved is granted.** -/
theorem read_granted (h : ((engines H svc).under (Honest H)).Reachable s) :
    ∀ (i : ℕ) (th : Call) c sel r pepper, s.threads[i]? = some th → th.op = .refresh c →
      [⟨.findBySelector sel, some r⟩] <:+ th.trace → Proves H c sel r pepper →
      Granted H s r.selector :=
  read_of_returned (fun _ _ hG => hG.secret) (fun _ _ hr h => granted_of_returned hr h)
    (fun _ _ _ _ _ hs hg => hg.mono hs) h

/-- **A call with a ticket presents a granted row.** -/
theorem presented_granted (h : ((engines H svc).under (Honest H)).Reachable s) {i : ℕ} {th : Call}
    {c : RefreshCall} {r : TokenRecord} {f : TokenStatus} {x : ℤ} {tr : List StoreEvent}
    (hi : s.threads[i]? = some th) (hop : th.op = .refresh c) (ht : Ticket H c r f x tr)
    (htr : tr <:+ th.trace) : Granted H s r.selector := by
  obtain ⟨sel, pepper, hp, hfirst⟩ := ht.first
  exact read_granted h i th c sel r pepper hi hop (hfirst.trans htr) hp

/-- A rotation is of a granted row that is not revoked, by a call with a ticket for it. -/
theorem mark_step (h : ((engines H svc).under (Honest H)).Reachable s) {i : ℕ} {p q : Str}
    {f : TokenStatus} {x : ℤ} (hs : Step (code H) svc s (.answer i ⟨.markRotated p f x q, true⟩) s') :
    ∃ th c r n tr row, s.threads[i]? = some th ∧ th.op = .refresh c ∧ Ticket H c r f x tr ∧
      Mints H c r n ∧ th.trace = ⟨.insert n, ()⟩ :: tr ∧ p = r.selector ∧ q = n.selector ∧
      Granted H s p ∧ C.look s.shared p = some row ∧ row.status = f ∧
      C.look s'.shared = Function.update (C.look s.shared) p (some (rotatedTo row x q)) := by
  obtain ⟨th, k, hi, hc, ha⟩ := callAt_answer h hs
  obtain ⟨row, hrow, hst, hupd⟩ := C.mark ha
  generalize hop : th.op = op at hc
  generalize htr : th.trace = tr' at hc
  cases mark_request hc with
  | @refresh c r n tr ht hn hp hq =>
    refine ⟨th, c, r, n, tr, row, hi, hop, ht, hn, htr, hp, hq, ?_, hrow, hst, hupd⟩
    rw [hp]
    exact presented_granted h hi hop ht (htr ▸ List.suffix_cons _ _)

/-- **A record that was rotated is granted.** -/
theorem granted_of_marked (h : ((engines H svc).under (Honest H)).Reachable s) {i : ℕ} {p q : Str}
    {f : TokenStatus} {x : ℤ} (hm : Marked s i p f x q) : Granted H s p := by
  obtain ⟨c, r, n, tr, hw, rfl, -⟩ := won_of_marked h hm
  obtain ⟨mode, hi⟩ := hw.thread
  exact presented_granted h hi rfl hw.ticket ((List.suffix_cons _ _).trans (List.suffix_cons _ _))

/-- **The successor of a refresh that has not rotated is not granted.** -/
theorem not_granted (hr : ((engines H svc).under FreshDraws).Reachable s) {i : ℕ} {n : TokenRecord}
    {c : RefreshCall} (hi : Inserted s i n) (hop : OpAt s i (.refresh c))
    (hno : ∀ p f x q, ¬ Marked s i p f x q) : ¬ Granted H s n.selector := by
  rintro (⟨j, c', n', hf, hn⟩ | ⟨j, p, f, x, hm⟩)
  · obtain ⟨rfl, -⟩ := inserted_unique hr hf.inserted hi hn
    cases hop.unique hf.opAt
  · obtain ⟨c', r, n', tr, hw, -, hsel⟩ := won_of_marked hr hm
    obtain ⟨rfl, -⟩ := inserted_unique hr hw.inserted hi hsel.symm
    exact hno _ _ _ _ hm

/-! ### At most one -/

/-- How a step gains one: by a login, a rotation or a displacement. -/
inductive Gain (H : HmacSha256) (s' : PoolState σ) (familyId : Str) :
    PoolLabel Env → Str ⊕ ℕ → Prop
  | login {i : ℕ} {c : IssueCall} {n : TokenRecord} (h : Founded H s' i c n)
      (hf : n.familyId = familyId) :
    Gain H s' familyId (.answer i ⟨.insert n, ()⟩) (.inl n.selector)
  | rotation {i : ℕ} {p q : Str} {f : TokenStatus} {x : ℤ} :
    Gain H s' familyId (.answer i ⟨.markRotated p f x q, true⟩) (.inl q)
  | displacement {i : ℕ} {d : Str} {r : TokenRecord} (h : Displacing H s' i r)
      (hf : r.familyId = familyId) :
    Gain H s' familyId (.answer i ⟨.revokeIfActive d, true⟩) (.inr i)

/-- A call that displaces after a step did so before it, or has just revoked the successor. -/
theorem displacing_step (hs : Step (code H) svc s l s') {i : ℕ} {r : TokenRecord}
    (h : Displacing H s' i r) :
    Displacing H s i r ∨ ∃ d, l = .answer i ⟨.revokeIfActive d, true⟩ := by
  obtain ⟨th', c, x, tr, hi, hop, ht, htr⟩ := h
  rcases hs.thread_cases hi with ⟨op, -, -, rfl⟩ | ⟨th, hth, hop', htr', -⟩ |
    ⟨th, q, k, rep, a, hth, -, -, -, hl, -, rfl⟩
  · rcases htr with rfl | ⟨n, hn⟩
    · cases ht
    · cases hn
  · exact Or.inl ⟨th, c, x, tr, hth, hop' ▸ hop, ht, htr' ▸ htr⟩
  · rcases htr with rfl | ⟨n, hn⟩
    · refine Or.inr ?_
      generalize htr : (th.next ⟨q, rep⟩ (k rep)).trace = tr at ht
      cases ht with
      | @grace sel pepper q' _ d hp hst hg ha hd =>
        refine ⟨d.selector, ?_⟩
        rw [hl, (List.cons.inj htr).1]
    · exact Or.inl ⟨th, c, x, tr, hth, hop, ht, Or.inl (List.cons.inj hn).2⟩

theorem live_back (hr : ((engines H svc).under (Honest H)).Reachable s)
    (hs : ((engines H svc).under (Honest H)).step s l s') {familyId : Str} {x : Str ⊕ ℕ}
    (h : Live H C s' familyId x) : Live H C s familyId x ∨ Gain H s' familyId l x := by
  cases h with
  | @row sel r hg hrow hst hf =>
    have hknown : Granted H s sel → ¬ ∃ i n, l = .answer i ⟨.insert n, ()⟩ ∧ n.selector = sel := by
      rintro hold ⟨i, n, hl, hn⟩
      exact noReinsert_of_honest hr hs i n hl (hn ▸ hold.known hr)
    cases rowAfter C hs.2 hrow with
    | kept h0 =>
      rcases granted_step hs.2 hg with hold | ⟨i, c, n, rfl, hfd, hn⟩ | ⟨i, p, f, x, rfl⟩
      · exact Or.inl (.row hold h0 hst hf)
      · have hk := (Stored.of_row (knowledge_of_honest C hr) h0).known
        exact absurd (hn ▸ hk) (noReinsert_of_honest hr hs i n rfl)
      · exact Or.inr .rotation
    | inserted h0 hsel =>
      rcases granted_step hs.2 hg with hold | ⟨i, c, n, hl, hfd, hn⟩ | ⟨i, p, f, x, hl⟩
      · exact absurd ⟨_, r, rfl, hsel⟩ (hknown hold)
      · cases hl
        rw [← hsel]
        exact Or.inr (.login hfd hf)
      · cases hl
    | rotated h0 hs0 he =>
      subst he
      cases hst
    | cleared h0 hs0 he =>
      subst he
      cases hst
    | bulk hl h0 hc he =>
      subst he
      cases hst
  | @call i r hd hf =>
    rcases displacing_step hs.2 hd with hold | ⟨d, rfl⟩
    · exact Or.inl (.call hold hf)
    · exact Or.inr (.displacement hd hf)

/-- A call that has rotated displaces no more. -/
theorem not_displacing_of_marked {i : ℕ} {p q : Str} {f : TokenStatus} {x : ℤ} {th : Call}
    {tr : List StoreEvent} (hi : s.threads[i]? = some th)
    (htr : th.trace = ⟨.markRotated p f x q, true⟩ :: tr) (r : TokenRecord) :
    ¬ Displacing H s i r := by
  rintro ⟨th', c, t, tr', hi', -, ht, htr'⟩
  obtain rfl := Option.some.inj (hi.symm.trans hi')
  rw [htr] at htr'
  rcases htr' with rfl | ⟨n, hn⟩
  · cases ht
  · cases hn

/-- The thread of a call that has just been answered. -/
theorem answered {i : ℕ} {ev : StoreEvent} (hs : Step (code H) svc s (.answer i ev) s') {th : Call}
    (hi : s.threads[i]? = some th) : ∃ th', s'.threads[i]? = some th' ∧ th'.op = th.op ∧
      th'.trace = ev :: th.trace := by
  cases hs with
  | @answer _ th₀ q k r a hi₀ hm hp ha =>
    obtain rfl := Option.some.inj (hi.symm.trans hi₀)
    have hlt : i < s.threads.length := (List.getElem?_eq_some_iff.mp hi).1
    exact ⟨_, List.getElem?_set_self hlt, rfl, rfl⟩

/-- **A rotation uses up what kept the family alive**: the row it is of, or the right of its call. -/
theorem rotation_uses (hr : ((engines H svc).under (Honest H)).Reachable s) {i : ℕ} {p q : Str}
    {f : TokenStatus} {x : ℤ} {familyId : Str}
    (hs : ((engines H svc).under (Honest H)).step s (.answer i ⟨.markRotated p f x q, true⟩) s')
    (h : Live H C s' familyId (.inl q)) :
    ∃ a, Live H C s familyId a ∧ ¬ Live H C s' familyId a := by
  obtain ⟨th, c, r, n, tr, row, hi, hop, ht, hn, htr, rfl, rfl, hg, hrow, hst, hupd⟩ :=
    mark_step (C := C) hr hs.2
  have hfr := fresh hr
  have hfr' := fresh (hr.step hs)
  have hK := knowledge_of_honest C hr
  have hK' := knowledge_of_honest C (hr.step hs)
  have hd : ∀ ev ∈ tr, s.Did i ev := fun ev hev =>
    did_of_mem hi (htr ▸ List.mem_cons_of_mem _ hev)
  obtain ⟨j, m, hj, hm, he⟩ := ticket_stored hK ht hd
  -- the record rotated is of the family
  have hfam : r.familyId = familyId := by
    cases h with
    | @row _ rn _ hrn _ hf =>
      have hins : Inserted s i n := did_of_mem hi (htr ▸ List.mem_cons_self)
      have hmin := (Stored.of_row hK' hrn).unique hfr' ((Stored.of_inserted hins).mono hs.2)
      have hfn : rn.familyId = n.familyId := (congrArg TokenRecord.familyId hmin :)
      rw [← hf, hfn, (Follows.of_mints hn).familyId]
  cases f with
  | active =>
    refine ⟨.inl r.selector, .row hg hrow hst ?_, fun h' => ?_⟩
    · have hmin := (Stored.of_row hK hrow).unique hfr ⟨j, m, hj, hm, he⟩
      rw [show row.familyId = r.familyId from (congrArg TokenRecord.familyId hmin :), hfam]
    · cases h' with
      | row _ hrow' hst' =>
        rw [hupd, Function.update_self] at hrow'
        obtain rfl := Option.some.inj hrow'
        cases hst'
  | rotated =>
    refine ⟨.inr i, .call ⟨th, c, x, tr, hi, hop, ht, Or.inr ⟨n, htr⟩⟩ hfam, fun h' => ?_⟩
    cases h' with
    | call hdis =>
      obtain ⟨th', hi', -, htr'⟩ := answered hs.2 hi
      exact not_displacing_of_marked hi' htr' _ hdis
  | revoked => exact absurd rfl ht.not_revoked

/-- A displacement is of the active row that the record presented was rotated to. -/
theorem displacement_step (hr : ((engines H svc).under (Honest H)).Reachable s) {i : ℕ} {d : Str}
    {r : TokenRecord} (hs : Step (code H) svc s (.answer i ⟨.revokeIfActive d, true⟩) s')
    (h : Displacing H s' i r) : ∃ row, C.look s.shared d = some row ∧ row.status = .active ∧
      C.look s'.shared = Function.update (C.look s.shared) d (some (asRevoked row)) ∧
      r.replacedBySelector = some d ∧ Stored s r.selector r ∧
      ∃ j f t, Marked s j r.selector f t d := by
  have hK := knowledge_of_honest C hr
  obtain ⟨th, k, hi, -, ha⟩ := callAt_answer hr hs
  obtain ⟨row, hrow, hst, hupd⟩ := C.clear ha
  obtain ⟨th', hi', -, htr'⟩ := answered hs hi
  obtain ⟨th₀, c, x, tr, hi₀, hop, ht, htr⟩ := h
  obtain rfl := Option.some.inj (hi'.symm.trans hi₀)
  have htr : th'.trace = tr := by
    rcases htr with htr | ⟨n, hn⟩
    · exact htr
    · rw [htr'] at hn
      cases hn
  rw [htr'] at htr
  subst htr
  generalize hev : (⟨.revokeIfActive d, true⟩ :: th.trace : List StoreEvent) = tr at ht
  cases ht with
  | @grace sel pepper q _ d' hp hrs hg hda hdev =>
    obtain ⟨hd, hrest⟩ := List.cons.inj hev
    obtain rfl : d = d'.selector := by
      cases hd
      rfl
    have hread : s.Did i ⟨.findBySelector q, some d'⟩ := did_of_mem hi (hrest ▸ List.mem_cons_self)
    have hfirst : s.Did i ⟨.findBySelector sel, some r⟩ := did_of_mem hi (by rw [hrest]; simp)
    obtain rfl := hK.found_selector hread
    obtain rfl := hK.found_selector hfirst
    have hq := (withinGrace_some hg).2.1
    exact ⟨row, hrow, hst, hupd, hq, .of_found hK hfirst, pointer_found C hr i _ r _ hfirst hq⟩

/-- **A displacement uses up the row it revokes.** -/
theorem displacement_uses (hr : ((engines H svc).under (Honest H)).Reachable s) {i : ℕ} {d : Str}
    {r : TokenRecord} (hs : ((engines H svc).under (Honest H)).step s
      (.answer i ⟨.revokeIfActive d, true⟩) s') (h : Displacing H s' i r) :
    ∃ a, Live H C s r.familyId a ∧ ¬ Live H C s' r.familyId a := by
  obtain ⟨row, hrow, hst, hupd, -, hsr, j, f, t, hm⟩ := displacement_step (C := C) hr hs.2 h
  have hfol := follows_of_marked C (fresh hr) hm hsr (.of_row (knowledge_of_honest C hr) hrow)
  refine ⟨.inl d, .row (Or.inr ⟨j, _, f, t, hm⟩) hrow hst hfol.familyId, fun h' => ?_⟩
  cases h' with
  | row _ hrow' hst' =>
    rw [hupd, Function.update_self] at hrow'
    obtain rfl := Option.some.inj hrow'
    cases hst'

/-- What a displacing call has read: a rotated row, which has only evolved since. -/
theorem Displacing.read (hK : Knowledge C s) {i : ℕ} {r : TokenRecord} (h : Displacing H s i r) :
    Stored s r.selector r ∧ r.status = .rotated ∧
      ∀ row, C.look s.shared r.selector = some row → Evolves r row := by
  obtain ⟨th, c, x, tr, hi, hop, ht, htr⟩ := h
  have hmem : ∀ ev ∈ tr, ev ∈ th.trace := by
    intro ev hev
    rcases htr with htr | ⟨n, htr⟩
    · rw [htr]
      exact hev
    · rw [htr]
      exact List.mem_cons_of_mem _ hev
  obtain ⟨hd, -, -, hrow⟩ := hK.ticket ht fun ev hev => did_of_mem hi (hmem ev hev)
  exact ⟨.of_found hK hd, ht.status, hrow⟩

/-- The record behind what keeps a family alive. -/
theorem Live.stored (hK : Knowledge C s) {familyId : Str} {x : Str ⊕ ℕ} (h : Live H C s familyId x) :
    ∃ sel r, Stored s sel r ∧ r.familyId = familyId := by
  cases h with
  | row hg hrow hs hf => exact ⟨_, _, .of_row hK hrow, hf⟩
  | call h hf => exact ⟨_, _, (h.read hK).1, hf⟩

/-- A login stores the first record of its family. -/
theorem login_first (hr : ((engines H svc).under FreshDraws).Reachable s) {i : ℕ} {c : IssueCall}
    {n : TokenRecord} (hs : ((engines H svc).under FreshDraws).step s (.answer i ⟨.insert n, ()⟩) s')
    (h : Founded H s' i c n) {j : ℕ} {c' : IssueCall} {n' : TokenRecord} (h' : Founded H s j c' n')
    (hf : c'.draw.familyId = c.draw.familyId) : False := by
  obtain ⟨rfl, -⟩ := founded_unique (hr.step hs) (h'.opAt.mono hs.2) h.opAt hf
  obtain ⟨th, k, hi, hc, -⟩ := callAt_answer hr hs.2
  obtain ⟨th', hi', hev⟩ := h'.inserted
  obtain rfl := Option.some.inj (hi.symm.trans hi')
  exact no_insert (insert_request hc) hev

/-- **At most one keeps a family alive.** -/
theorem live_unique (C : StoreContract svc) (h : ((engines H svc).under (Honest H)).Reachable s) :
    ∀ familyId x y, Live H C s familyId x → Live H C s familyId y → x = y := by
  refine h.invariant (I := fun s => ∀ familyId x y, Live H C s familyId x → Live H C s familyId y →
    x = y) ?_ ?_
  · intro s hs familyId x y hx
    obtain ⟨sel, r, ⟨i, n, ⟨th, hi, -⟩, -⟩, -⟩ := hx.stored (by rw [show s = _ from hs]; exact .init)
    rw [show s = ⟨svc.start, []⟩ from hs] at hi
    cases hi
  · intro s l s' hr ih hs familyId
    -- what was there before is used up, if the step gains one
    have huses : ∀ x y, Gain H s' familyId l x → Live H C s' familyId x → Live H C s familyId y →
        ¬ Live H C s' familyId y := by
      intro x y hg hx hy
      cases hg with
      | login hfd hf =>
        obtain ⟨sel, r, hst, hfr⟩ := hy.stored (knowledge_of_honest C hr)
        obtain ⟨j, c', n', hfd', ho⟩ := hst.founded (noReinsert_of_freshDraws (fresh hr)) C
        have hfam := (OfFamily.of_mints hfd.mints).family
        exact (login_first (fresh hr) ⟨hs.1.fresh, hs.2⟩ hfd hfd'
          (by rw [← ho.family, hfr, ← hf, hfam])).elim
      | rotation =>
        obtain ⟨a, ha, ha'⟩ := rotation_uses hr hs hx
        rw [ih familyId y a hy ha]
        exact ha'
      | displacement hd hf =>
        obtain ⟨a, ha, ha'⟩ := displacement_uses (C := C) hr hs hd
        rw [hf] at ha ha'
        rw [ih familyId y a hy ha]
        exact ha'
    have hone : ∀ x y, Gain H s' familyId l x → Gain H s' familyId l y → x = y := by
      intro x y hx hy
      cases hx <;> cases hy <;> rfl
    intro x y hx hy
    rcases live_back hr hs hx with hx₀ | hgx <;> rcases live_back hr hs hy with hy₀ | hgy
    · exact ih familyId x y hx₀ hy₀
    · exact absurd hx (huses y x hgy hy hx₀)
    · exact absurd hy (huses x y hgx hx hy₀)
    · exact hone x y hgx hgy

/-! ### Dead families -/

/-- **A dead family**: it was founded, and its granted rows are revoked or gone. -/
structure Dead (H : HmacSha256) (C : StoreContract svc) (s : PoolState σ) (familyId : Str) : Prop where
  founded : ∃ i c n, Founded H s i c n ∧ c.draw.familyId = familyId
  revoked : ∀ sel r, Granted H s sel → C.look s.shared sel = some r → r.familyId = familyId →
    r.status = .revoked

/-- No record of a dead family is rotated. -/
theorem Dead.no_mark {familyId : Str} (hD : Dead H C s familyId)
    (hr : ((engines H svc).under (Honest H)).Reachable s) {i : ℕ} {p q : Str} {f : TokenStatus} {x : ℤ}
    (hs : Step (code H) svc s (.answer i ⟨.markRotated p f x q, true⟩) s') {r : TokenRecord}
    (hp : Stored s p r) : r.familyId ≠ familyId := by
  intro hf
  obtain ⟨th, c, r', n, tr, row, -, -, ht, -, -, -, -, hg, hrow, hst, -⟩ := mark_step (C := C) hr hs
  have hmin := (Stored.of_row (knowledge_of_honest C hr) hrow).unique (fresh hr) hp
  have hfam : row.familyId = r.familyId := (congrArg TokenRecord.familyId hmin :)
  exact ht.not_revoked (hst ▸ hD.revoked p row hg hrow (hfam.trans hf))

/-- **Where a granted row of a family that is not revoked comes from**: it was there before, or a rotation
of another has just granted it. -/
theorem granted_back (C : StoreContract svc) (hr : ((engines H svc).under (Honest H)).Reachable s)
    (hs : ((engines H svc).under (Honest H)).step s l s') {i : ℕ} {c : IssueCall} {n : TokenRecord}
    (hfd : Founded H s i c n) {sel : Str} {r' : TokenRecord} (hg : Granted H s' sel)
    (hrow' : C.look s'.shared sel = some r') (hf : r'.familyId = c.draw.familyId)
    (hne : r'.status ≠ .revoked) :
    (∃ r, Granted H s sel ∧ C.look s.shared sel = some r ∧ r.familyId = c.draw.familyId ∧
      r.status ≠ .revoked) ∨
    ∃ k p f x row, l = .answer k ⟨.markRotated p f x sel, true⟩ ∧ Granted H s p ∧
      C.look s.shared p = some row ∧ row.familyId = c.draw.familyId ∧ row.status ≠ .revoked ∧
      C.look s.shared sel = some r' := by
  have hK := knowledge_of_honest C hr
  cases rowAfter C hs.2 hrow' with
  | kept h0 =>
    rcases granted_step hs.2 hg with hold | ⟨i, c', n', rfl, -, hn⟩ | ⟨i, p, f, x, rfl⟩
    · exact Or.inl ⟨r', hold, h0, hf, hne⟩
    · exact absurd (hn ▸ (Stored.of_row hK h0).known) (noReinsert_of_honest hr hs i n' rfl)
    · -- the record it takes the place of is of the family
      obtain ⟨th, c', r, n', tr, row, -, -, ht, -, -, -, -, hgp, hrow, hst, -⟩ :=
        mark_step (C := C) hr hs.2
      have hfol := follows_of_marked C (fresh (hr.step hs)) (hs.2.did_iff.mpr (Or.inr rfl))
        ((Stored.of_row hK hrow).mono hs.2) ((Stored.of_row hK h0).mono hs.2)
      exact Or.inr ⟨i, p, f, x, row, rfl, hgp, hrow, hfol.familyId.symm.trans hf,
        fun hrev => ht.not_revoked (hst.symm.trans hrev), h0⟩
  | @inserted j h0 hsel =>
    rcases granted_step hs.2 hg with hold | ⟨j, c', n', hl, hfd', -⟩ | ⟨j, p, f, x, hl⟩
    · exact absurd (hsel ▸ hold.known hr) (noReinsert_of_honest hr hs j r' rfl)
    · cases hl
      have hfam := (OfFamily.of_mints hfd'.mints).family
      exact (login_first (fresh hr) ⟨hs.1.fresh, hs.2⟩ hfd' hfd (by rw [← hf, hfam])).elim
    · cases hl
  | @rotated j q f x row h0 hst he =>
    obtain ⟨th, c', r, n', tr, row', -, -, ht, -, -, -, -, hgp, hrow, hst', -⟩ :=
      mark_step (C := C) hr hs.2
    refine Or.inl ⟨row, hgp, h0, ?_, fun hrev => ht.not_revoked (hst.symm.trans hrev)⟩
    rw [← hf, he]
    rfl
  | cleared h0 hst he =>
    subst he
    exact absurd rfl hne
  | bulk hl h0 hc he =>
    subst he
    exact absurd rfl hne

/-- **A dead family stays dead.** -/
theorem Dead.step {familyId : Str} (hD : Dead H C s familyId)
    (hr : ((engines H svc).under (Honest H)).Reachable s)
    (hs : ((engines H svc).under (Honest H)).step s l s') : Dead H C s' familyId where
  founded := by
    obtain ⟨i, c, n, hf, hc⟩ := hD.founded
    exact ⟨i, c, n, hf.mono hs.2, hc⟩
  revoked sel r' hg hrow' hf := by
    obtain ⟨i, c, n, hfd, rfl⟩ := hD.founded
    by_contra hne
    rcases granted_back C hr hs hfd hg hrow' hf hne with ⟨r, hg₀, hrow, hf₀, hne₀⟩ |
      ⟨k, p, f, x, row, -, hgp, hrow, hf₀, hne₀, -⟩
    · exact hne₀ (hD.revoked sel r hg₀ hrow hf₀)
    · exact hne₀ (hD.revoked p row hgp hrow hf₀)

theorem dead_run {familyId : Str} (hD : Dead H C s familyId)
    (hr : ((engines H svc).under (Honest H)).Reachable s)
    (hrun : ((engines H svc).under (Honest H)).Run s t) : Dead H C t familyId :=
  hrun.invariant (I := fun u => Dead H C u familyId) hr hD fun _ _ _ hu hDu hs => hDu.step hu hs

/-- **No record of a dead family is rotated any more.** -/
theorem marked_of_dead {familyId : Str} (hD : Dead H C s familyId)
    (hr : ((engines H svc).under (Honest H)).Reachable s)
    (hrun : ((engines H svc).under (Honest H)).Run s t) {i : ℕ} {p q : Str} {f : TokenStatus} {x : ℤ}
    (h : Marked t i p f x q) {r : TokenRecord} (hp : Stored t p r) (hf : r.familyId = familyId) :
    Marked s i p f x q := by
  induction hrun with
  | refl => exact h
  | @step u v l hsu hstep ih =>
    have hu := hr.run hsu
    rcases hstep.2.did_iff.mp h with hold | rfl
    · have hk := ((knowledge_of_honest C hu).marked i p f x q hold).1
      exact ih hold (hp.back (fresh (hu.step hstep)) hstep.2 hk)
    · obtain ⟨th, c, r', n, tr, row, -, -, -, -, -, -, -, -, hrow, -⟩ :=
        mark_step (C := C) hu hstep.2
      have hk := (Stored.of_row (knowledge_of_honest C hu) hrow).known
      exact absurd hf ((dead_run hD hr hsu).no_mark hu hstep.2
        (hp.back (fresh (hu.step hstep)) hstep.2 hk))

/-- A success in a dead family was rotated before the family died. -/
theorem success_before_death {familyId : Str} (hD : Dead H C s familyId)
    (hr : ((engines H svc).under (Honest H)).Reachable s)
    (hrun : ((engines H svc).under (Honest H)).Run s t) {k : ℕ} {y : RefreshSuccess}
    (h : Succeeded t k y) (hf : y.familyId = familyId) : ∃ p f x q, Marked s k p f x q := by
  have ht := hr.run hrun
  obtain ⟨c, r, n, f, x, tr, hw, rfl⟩ := won_of_success ht h
  obtain ⟨j, m, hj, hm, he⟩ := ticket_stored (knowledge_of_honest C ht) hw.ticket hw.did
  exact ⟨_, f, x, _, marked_of_dead hD hr hrun hw.marked ⟨j, m, hj, hm, he⟩ hf⟩

/-- **What is active in a dead family**: successors of refreshes that never return their token. -/
theorem undelivered_of_dead {familyId : Str} (hD : Dead H C s familyId)
    (hr : ((engines H svc).under (Honest H)).Reachable s)
    (hrun : ((engines H svc).under (Honest H)).Run s t) {sel : Str} {r : TokenRecord}
    (hrow : C.look t.shared sel = some r) (hf : r.familyId = familyId) (ha : r.status = .active) :
    ∃ k c, OpAt t k (.refresh c) ∧ Inserted t k r ∧
      ∀ u, ((engines H svc).under (Honest H)).Run t u → ∀ tok, ¬ Delivers u k tok := by
  have ht := hr.run hrun
  have hDt := dead_run hD hr hrun
  obtain ⟨-, k, n, hk, rfl, he⟩ := (knowledge_of_honest C ht).row sel r hrow
  obtain rfl := he.active ha
  have hng : ¬ Granted H t r.selector := by
    intro hg
    have hrev := hDt.revoked _ r hg hrow hf
    rw [ha] at hrev
    cases hrev
  obtain ⟨c, hop, hno, -⟩ := (granted_or_undelivered ht hk).resolve_left hng
  refine ⟨k, c, hop, hk, fun u hu tok hdel => ?_⟩
  have hur := ht.run hu
  obtain ⟨n', -, -, ⟨c', hfd⟩ | ⟨c', p, f, x, tr, hw⟩⟩ := delivered hur hdel
  · obtain ⟨th, hth, hop'⟩ := hop
    obtain ⟨th', hth', hg⟩ := Run.grows hu hth
    cases (hg.op.trans hop').symm.trans (OpAt.unique ⟨th', hth', rfl⟩ hfd.opAt)
  · -- the rotation it would have made is of a record of the family
    obtain rfl := inserted_once hur (Run.did hu hk) hw.inserted
    obtain ⟨j, m, hj, hm, hev⟩ := ticket_stored (knowledge_of_honest C hur) hw.ticket hw.did
    exact hno _ _ _ _ (marked_of_dead hDt ht hu hw.marked ⟨j, m, hj, hm, hev⟩
      ((Follows.of_mints hw.mints).familyId.symm.trans hf))

/-! ### What kills a family -/

/-- The bulk revocation covers the family of the login. -/
def CoversFamily (q : StoreCall) (c : IssueCall) : Prop :=
  match q with
  | .revokeFamily familyId => c.draw.familyId = familyId
  | .revokeUser userId => c.userId = userId
  | _ => False

theorem coversFamily_iff {q : StoreCall} {c : IssueCall} {r : TokenRecord} (h : OfFamily c r) :
    CoversFamily q c ↔ Covers q r := by
  cases q with
  | revokeFamily familyId => exact Eq.congr_left h.family.symm
  | revokeUser userId => exact Eq.congr_left h.user.symm
  | findBySelector | insert | markRotated | revokeIfActive => exact Iff.rfl

/-- An atomic bulk revocation leaves every row of a family it covers revoked. -/
theorem revoked_of_bulk (A : AtomicContract svc) (hr : ((engines H svc).under (Honest H)).Reachable s)
    {i : ℕ} {q : StoreCall} {rep : q.Reply}
    (hs : ((engines H svc).under (Honest H)).step s (.answer i ⟨q, rep⟩) s') {j : ℕ} {c : IssueCall}
    {n : TokenRecord} (hf : Founded H s j c n) (hc : CoversFamily q c) {sel : Str} {r : TokenRecord}
    (hrow : A.look s'.shared sel = some r) (hfam : r.familyId = c.draw.familyId) :
    r.status = .revoked := by
  have hr' := hr.step hs
  obtain ⟨th, k, -, -, ha⟩ := callAt_answer hr hs.2
  obtain ⟨j', c', n', hf', ho⟩ := (Stored.of_row (knowledge_of_honest A.toStoreContract hr')
    hrow).founded (noReinsert_of_freshDraws (fresh hr')) A.toStoreContract
  obtain ⟨-, rfl⟩ := founded_unique (fresh hr') (hf.opAt.mono hs.2) hf'.opAt
    (hfam.symm.trans ho.family)
  exact A.bulk ha hrow ((coversFamily_iff ho).mp hc)

/-- **An atomic bulk revocation kills the families it covers**, from its step on. -/
theorem dead_of_bulk (A : AtomicContract svc) (hr : ((engines H svc).under (Honest H)).Reachable s)
    {i : ℕ} {q : StoreCall} {rep : q.Reply}
    (hs : ((engines H svc).under (Honest H)).step s (.answer i ⟨q, rep⟩) s') {j : ℕ} {c : IssueCall}
    {n : TokenRecord} (hf : Founded H s j c n) (hc : CoversFamily q c) :
    Dead H A.toStoreContract s' c.draw.familyId where
  founded := ⟨j, c, n, hf.mono hs.2, rfl⟩
  revoked _ _ _ hrow hfam := revoked_of_bulk A hr hs hf hc hrow hfam

/-- **A row revoked after it was rotated is of a dead family**: only a bulk revocation does that. -/
theorem dead_of_revoked (A : AtomicContract svc)
    (h : ((engines H svc).under (Honest H)).Reachable s) :
    ∀ sel r, A.look s.shared sel = some r → r.status = .revoked → r.replacedBySelector ≠ none →
      Dead H A.toStoreContract s r.familyId ∧ ∃ i q rep, s.Did i ⟨q, rep⟩ ∧ Covers q r := by
  refine h.invariant (I := fun s => ∀ sel r, A.look s.shared sel = some r → r.status = .revoked →
    r.replacedBySelector ≠ none → Dead H A.toStoreContract s r.familyId ∧
      ∃ i q rep, s.Did i ⟨q, rep⟩ ∧ Covers q r) ?_ ?_
  · intro s hs sel r hrow
    rw [show s = ⟨svc.start, []⟩ from hs, A.start] at hrow
    cases hrow
  · intro s l s' hr ih hs sel r' hrow' hrev hq
    have hK := knowledge_of_honest A.toStoreContract hr
    have hold : A.look s.shared sel = some r' → Dead H A.toStoreContract s' r'.familyId ∧
        ∃ i q rep, s'.Did i ⟨q, rep⟩ ∧ Covers q r' := by
      intro h0
      obtain ⟨hD, i, q, rep, hd, hc⟩ := ih sel r' h0 hrev hq
      exact ⟨hD.step hr hs, i, q, rep, did_mono hd hs.2, hc⟩
    cases rowAfter A.toStoreContract hs.2 hrow' with
    | kept h0 => exact hold h0
    | inserted h0 hsel =>
      obtain ⟨th, k, -, hc, -⟩ := callAt_answer hr hs.2
      exact absurd (insert_request hc).mint.2.2 hq
    | rotated h0 hst he =>
      subst he
      cases hrev
    | cleared h0 hst he =>
      subst he
      exact absurd ((hK.row sel _ h0).1.active hst) hq
    | @bulk i q _ row hl h0 hc he =>
      rcases hl with rfl | ⟨rep, rfl⟩
      · have hstill : A.look s'.shared = A.look s.shared := by
          cases hs.2 with
          | work hi hm hp hw => exact A.work_still hw
        exact hold (hstill ▸ hrow')
      · subst he
        obtain ⟨j, c, n, hf, ho⟩ := (Stored.of_row hK h0).founded
          (noReinsert_of_freshDraws (fresh hr)) A.toStoreContract
        have hfam : (asRevoked row).familyId = c.draw.familyId := ho.family
        rw [hfam]
        refine ⟨dead_of_bulk A hr hs hf ((coversFamily_iff ho).mpr hc), i, q, rep,
          hs.2.did_iff.mpr (Or.inr rfl), ?_⟩
        exact (coversFamily_iff (ho.evolves (.asRevoked row))).mp ((coversFamily_iff ho).mpr hc)

end Facts

end NebulaToken.Runs.Unforked
