import Mathlib.Tactic

/-! # Walks along pointers

`Walk next a l`: following `next` from `a` visits the list `l` and ends. Along a walk an invariant of
`next` holds, and a rank that each pointer raises by one numbers the elements, so that none comes twice;
if the rank is bounded there is a walk. -/

namespace NebulaToken.Lib.Pointers

variable {ρ : Type}

/-- Following `next` from the first element visits the list, and ends. -/
inductive Walk (next : ρ → Option ρ) : ρ → List ρ → Prop
  | last {a : ρ} (h : next a = none) : Walk next a [a]
  | step {a b : ρ} {l : List ρ} (h : next a = some b) (w : Walk next b l) : Walk next a (a :: l)

namespace Walk

variable {next : ρ → Option ρ} {a b : ρ} {l : List ρ}

theorem head_mem (w : Walk next a l) : a ∈ l := by
  cases w with
  | last => exact List.mem_singleton_self a
  | step => exact List.mem_cons_self

/-- A walk goes on from each of its elements. -/
theorem mem_next (w : Walk next a l) {x y : ρ} (hx : x ∈ l) (hn : next x = some y) : y ∈ l := by
  induction w with
  | last h =>
    rw [List.mem_singleton.mp hx, h] at hn
    cases hn
  | step h w ih =>
    rcases List.mem_cons.mp hx with rfl | hx
    · rw [h] at hn
      obtain rfl := Option.some.inj hn
      exact List.mem_cons_of_mem _ w.head_mem
    · exact List.mem_cons_of_mem _ (ih hx)

/-- Only the last element of a walk has no next one. -/
theorem isSome_of_mem_dropLast (w : Walk next a l) {x : ρ} (hx : x ∈ l.dropLast) :
    (next x).isSome := by
  induction w with
  | last h => cases hx
  | @step a b l h w ih =>
    have hne : l ≠ [] := List.ne_nil_of_mem w.head_mem
    rw [List.dropLast_cons_of_ne_nil hne] at hx
    rcases List.mem_cons.mp hx with rfl | hx
    · rw [h]
      rfl
    · exact ih hx

theorem last_none (w : Walk next a l) {x : ρ} (hx : l.getLast? = some x) : next x = none := by
  induction w with
  | last h =>
    obtain rfl := Option.some.inj hx
    exact h
  | @step a b l h w ih =>
    rw [List.getLast?_cons_of_ne_nil (List.ne_nil_of_mem w.head_mem)] at hx
    exact ih hx

/-- There is one walk from an element. -/
theorem unique {l' : List ρ} (w : Walk next a l) (w' : Walk next a l') : l = l' := by
  induction w generalizing l' with
  | last h =>
    cases w' with
    | last => rfl
    | step h' =>
      rw [h] at h'
      cases h'
  | step h w ih =>
    cases w' with
    | last h' =>
      rw [h] at h'
      cases h'
    | step h' w' =>
      rw [h] at h'
      obtain rfl := Option.some.inj h'
      rw [ih w']

variable {P : ρ → Prop}

/-- What `next` keeps holds along a walk. -/
theorem invariant (w : Walk next a l) (h0 : P a) (h1 : ∀ x y, P x → next x = some y → P y) :
    ∀ x ∈ l, P x := by
  induction w with
  | last h => exact fun x hx => List.mem_singleton.mp hx ▸ h0
  | step h w ih =>
    intro x hx
    rcases List.mem_cons.mp hx with rfl | hx
    · exact h0
    · exact ih (h1 _ _ h0 h) x hx

variable {f : ρ → ℕ}

/-- A rank that each pointer raises by one numbers the elements. -/
theorem rank_eq (w : Walk next a l) (h0 : P a) (h1 : ∀ x y, P x → next x = some y → P y)
    (hr : ∀ x y, P x → next x = some y → f y = f x + 1) :
    ∀ k x, l[k]? = some x → f x = f a + k := by
  induction w with
  | last h =>
    intro k x hx
    cases k with
    | zero =>
      obtain rfl := Option.some.inj hx
      rfl
    | succ k => cases hx
  | step h w ih =>
    intro k x hx
    cases k with
    | zero =>
      obtain rfl := Option.some.inj hx
      rfl
    | succ k =>
      have hk := ih (h1 _ _ h0 h) k x hx
      have hb := hr _ _ h0 h
      omega

/-- **If the rank is bounded there is a walk.** -/
theorem exists_of_bound {N : ℕ} (h1 : ∀ x y, P x → next x = some y → P y)
    (hr : ∀ x y, P x → next x = some y → f y = f x + 1) (hN : ∀ x, P x → f x < N) :
    ∀ a, P a → ∃ l, Walk next a l := by
  have hfuel : ∀ k a, P a → N ≤ f a + k → ∃ l, Walk next a l := by
    intro k
    induction k with
    | zero =>
      intro a ha hk
      have := hN a ha
      omega
    | succ k ih =>
      intro a ha hk
      cases hn : next a with
      | none => exact ⟨_, .last hn⟩
      | some b =>
        have hb := hr a b ha hn
        obtain ⟨l, w⟩ := ih b (h1 a b ha hn) (by omega)
        exact ⟨_, .step hn w⟩
  exact fun a ha => hfuel N a ha (Nat.le_add_left _ _)

end Walk

end NebulaToken.Lib.Pointers
