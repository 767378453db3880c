import NebulaToken.Lib.Transition

/-! # Lines of succession

Sessions of which each gives out tokens one after another, so that one token at most is in use. A token
is exchanged for the next in one move, or it is withdrawn by an agent who has then to replace it. A
session that is closed is over.

* `Consistent`: the token in use is the latest of its line, and no token is twice in the lines;
* `Later`, `later_of_run`: lines only grow, a token out of use stays out of use, and a session that is
over gives out no more. -/

namespace NebulaToken.Lib.Succession

open NebulaToken.Lib.Transition

/-- How a session stands. -/
inductive Standing (T ι : Type)
  | unborn
  | held (t : T)
  | between (i : ι)
  | ended

/-- How the sessions stand, and the tokens each has given out, the latest first. -/
structure Book (F T ι : Type) where
  standing : F → Standing T ι
  line : F → List T

inductive Move (F T ι : Type)
  | start (f : F) (t : T)
  | exchange (f : F) (t t' : T)
  | withdraw (f : F) (t : T) (i : ι)
  | replace (f : F) (i : ι) (t : T)
  | close (P : F → Prop)

namespace Book

variable {F T ι : Type}

/-- No session has started. -/
def blank : Book F T ι where
  standing _ := .unborn
  line _ := []

/-- No session has given out the token. -/
def Fresh (b : Book F T ι) (t : T) : Prop := ∀ f, t ∉ b.line f

section Updates

variable [DecidableEq F]

def grant (b : Book F T ι) (f : F) (t : T) : Book F T ι where
  standing := Function.update b.standing f (.held t)
  line := Function.update b.line f (t :: b.line f)

def suspend (b : Book F T ι) (f : F) (i : ι) : Book F T ι :=
  { b with standing := Function.update b.standing f (.between i) }

end Updates

open Classical in
/-- The sessions of `P` that have started are over. -/
noncomputable def closed (b : Book F T ι) (P : F → Prop) : Book F T ι :=
  { b with standing := fun f => if P f ∧ b.standing f ≠ .unborn then .ended else b.standing f }

section Reading

variable (b : Book F T ι) {f g : F} {t : T} {i : ι}

section Updated

variable [DecidableEq F]

@[simp] theorem grant_standing_self : (b.grant f t).standing f = .held t := Function.update_self ..

@[simp] theorem grant_line_self : (b.grant f t).line f = t :: b.line f := Function.update_self ..

theorem grant_standing_ne (h : g ≠ f) : (b.grant f t).standing g = b.standing g :=
  Function.update_of_ne h ..

theorem grant_line_ne (h : g ≠ f) : (b.grant f t).line g = b.line g := Function.update_of_ne h ..

@[simp] theorem suspend_line : (b.suspend f i).line = b.line := rfl

@[simp] theorem suspend_standing_self : (b.suspend f i).standing f = .between i :=
  Function.update_self ..

theorem suspend_standing_ne (h : g ≠ f) : (b.suspend f i).standing g = b.standing g :=
  Function.update_of_ne h ..

end Updated

@[simp] theorem closed_line (P : F → Prop) : (b.closed P).line = b.line := rfl

theorem closed_standing_unborn (P : F → Prop) : (b.closed P).standing f = .unborn ↔
    b.standing f = .unborn := by
  by_cases h : P f ∧ b.standing f ≠ .unborn
  · simp only [closed, if_pos h, reduceCtorEq, false_iff]
    exact h.2
  · simp only [closed, if_neg h]

theorem closed_standing_held (P : F → Prop) : (b.closed P).standing f = .held t ↔
    ¬ P f ∧ b.standing f = .held t := by
  by_cases h : P f ∧ b.standing f ≠ .unborn
  · simp [closed, h]
  · simp only [closed, if_neg h]
    exact ⟨fun he => ⟨fun hp => h ⟨hp, by simp [he]⟩, he⟩, fun he => he.2⟩

theorem closed_standing_between (P : F → Prop) : (b.closed P).standing f = .between i ↔
    ¬ P f ∧ b.standing f = .between i := by
  by_cases h : P f ∧ b.standing f ≠ .unborn
  · simp [closed, h]
  · simp only [closed, if_neg h]
    exact ⟨fun he => ⟨fun hp => h ⟨hp, by simp [he]⟩, he⟩, fun he => he.2⟩

theorem closed_standing_cases (P : F → Prop) : (b.closed P).standing f = b.standing f ∨
    (b.closed P).standing f = .ended := by
  by_cases h : P f ∧ b.standing f ≠ .unborn
  · exact Or.inr (if_pos h)
  · exact Or.inl (if_neg h)

end Reading

end Book

section Machine

variable {F T ι : Type} [DecidableEq F] {b b' b'' : Book F T ι} {m : Move F T ι}

/-- One move. -/
inductive Step : Book F T ι → Move F T ι → Book F T ι → Prop
  | start {b : Book F T ι} {f : F} {t : T} (h : b.standing f = .unborn) (ht : b.Fresh t) :
    Step b (.start f t) (b.grant f t)
  | exchange {b : Book F T ι} {f : F} {t t' : T} (h : b.standing f = .held t) (ht : b.Fresh t') :
    Step b (.exchange f t t') (b.grant f t')
  | withdraw {b : Book F T ι} {f : F} {t : T} {i : ι} (h : b.standing f = .held t) :
    Step b (.withdraw f t i) (b.suspend f i)
  | replace {b : Book F T ι} {f : F} {i : ι} {t : T} (h : b.standing f = .between i) (ht : b.Fresh t) :
    Step b (.replace f i t) (b.grant f t)
  | close (b : Book F T ι) (P : F → Prop) : Step b (.close P) (b.closed P)

/-- **Sessions as a transition system.** -/
def sessions (F T ι : Type) [DecidableEq F] : System (Book F T ι) (Move F T ι) where
  init b := b = .blank
  step := Step

/-- What a move makes of the book: a fresh token for a session that is not over, the end of a token in
use, or the end of sessions. -/
theorem Step.book_cases (h : Step b m b') :
    (∃ f t, b.Fresh t ∧ b.standing f ≠ .ended ∧ b' = b.grant f t) ∨
    (∃ f t i, b.standing f = .held t ∧ b' = b.suspend f i) ∨ ∃ P, b' = b.closed P := by
  cases h with
  | @start f t h ht => exact Or.inl ⟨f, t, ht, by rw [h]; simp, rfl⟩
  | @exchange f t t' h ht => exact Or.inl ⟨f, t', ht, by rw [h]; simp, rfl⟩
  | @withdraw f t i h => exact Or.inr (Or.inl ⟨f, t, i, h, rfl⟩)
  | @replace f i t h ht => exact Or.inl ⟨f, t, ht, by rw [h]; simp, rfl⟩
  | close P => exact Or.inr (Or.inr ⟨P, rfl⟩)

/-! ### One token in use -/

/-- **The lines are in order.** -/
structure Consistent (b : Book F T ι) : Prop where
  unborn : ∀ f, b.standing f = .unborn ↔ b.line f = []
  held : ∀ f t, b.standing f = .held t → (b.line f).head? = some t
  nodup : ∀ f, (b.line f).Nodup
  apart : ∀ f g t, t ∈ b.line f → t ∈ b.line g → f = g

theorem Consistent.grant (hb : Consistent b) {f : F} {t : T} (ht : b.Fresh t) :
    Consistent (b.grant f t) where
  unborn g := by
    rcases eq_or_ne g f with rfl | hg
    · simp
    · rw [b.grant_standing_ne hg, b.grant_line_ne hg]
      exact hb.unborn g
  held g u h := by
    rcases eq_or_ne g f with rfl | hg
    · simpa using h
    · rw [b.grant_standing_ne hg] at h
      rw [b.grant_line_ne hg]
      exact hb.held g u h
  nodup g := by
    rcases eq_or_ne g f with rfl | hg
    · rw [b.grant_line_self, List.nodup_cons]
      exact ⟨ht g, hb.nodup g⟩
    · rw [b.grant_line_ne hg]
      exact hb.nodup g
  apart g g' u h h' := by
    rcases eq_or_ne g f with rfl | hg <;> rcases eq_or_ne g' g with rfl | hg'
    · rfl
    · rw [b.grant_line_ne hg'] at h'
      rcases List.mem_cons.mp (b.grant_line_self ▸ h) with rfl | h
      · exact absurd h' (ht g')
      · exact hb.apart g g' u h h'
    · rfl
    · rw [b.grant_line_ne hg] at h
      rcases eq_or_ne g' f with rfl | hgf
      · rcases List.mem_cons.mp (b.grant_line_self ▸ h') with rfl | h'
        · exact absurd h (ht g)
        · exact hb.apart g g' u h h'
      · rw [b.grant_line_ne hgf] at h'
        exact hb.apart g g' u h h'

theorem Consistent.step (hb : Consistent b) (h : Step b m b') : Consistent b' := by
  rcases h.book_cases with ⟨f, t, ht, -, rfl⟩ | ⟨f, t, i, hf, rfl⟩ | ⟨P, rfl⟩
  · exact hb.grant ht
  · refine ⟨fun g => ?_, fun g u hu => ?_, hb.nodup, hb.apart⟩
    · rcases eq_or_ne g f with rfl | hg
      · have := hb.held g t hf
        simp only [Book.suspend_standing_self, reduceCtorEq, Book.suspend_line, false_iff]
        intro h0
        rw [h0] at this
        cases this
      · rw [b.suspend_standing_ne hg]
        exact hb.unborn g
    · rcases eq_or_ne g f with rfl | hg
      · rw [b.suspend_standing_self] at hu
        cases hu
      · rw [b.suspend_standing_ne hg] at hu
        exact hb.held g u hu
  · refine ⟨fun g => (b.closed_standing_unborn P).trans (hb.unborn g), fun g u hu => ?_, hb.nodup,
      hb.apart⟩
    rcases b.closed_standing_cases (f := g) P with hg | hg
    · exact hb.held g u (hg.symm.trans hu)
    · rw [hg] at hu
      cases hu

/-- **The lines are in order in every run.** -/
theorem consistent (h : (sessions F T ι).Reachable b) : Consistent b := by
  refine h.invariant (I := Consistent) ?_ fun _ _ _ _ hb hs => hb.step hs
  intro b hb
  rw [show b = .blank from hb]
  refine ⟨fun f => ?_, fun f t h => ?_, fun f => List.nodup_nil, fun f g t h => ?_⟩
  · exact ⟨fun _ => rfl, fun _ => rfl⟩
  · cases h
  · cases h

/-! ### What has ended -/

/-- `b'` is a later state of the book. -/
structure Later (b b' : Book F T ι) : Prop where
  line : ∀ f, b.line f <:+ b'.line f
  ended : ∀ f, b.standing f = .ended → b'.standing f = .ended ∧ b'.line f = b.line f
  spent : ∀ f t, t ∈ b.line f → b.standing f ≠ .held t → b'.standing f ≠ .held t

omit [DecidableEq F] in
theorem Later.refl (b : Book F T ι) : Later b b :=
  ⟨fun _ => List.suffix_rfl, fun _ h => ⟨h, rfl⟩, fun _ _ _ h => h⟩

omit [DecidableEq F] in
theorem Later.trans (h : Later b b') (h' : Later b' b'') : Later b b'' where
  line f := (h.line f).trans (h'.line f)
  ended f hf := by
    obtain ⟨ho, hl⟩ := h.ended f hf
    obtain ⟨ho', hl'⟩ := h'.ended f ho
    exact ⟨ho', hl'.trans hl⟩
  spent f t ht hf := h'.spent f t ((h.line f).mem ht) (h.spent f t ht hf)

theorem Step.later (h : Step b m b') : Later b b' := by
  rcases h.book_cases with ⟨f, t, ht, hf, rfl⟩ | ⟨f, t, i, hf, rfl⟩ | ⟨P, rfl⟩
  · refine ⟨fun g => ?_, fun g hg => ?_, fun g u hu hg => ?_⟩
    · rcases eq_or_ne g f with rfl | hne
      · rw [b.grant_line_self]
        exact List.suffix_cons t _
      · rw [b.grant_line_ne hne]
    · have hne : g ≠ f := fun he => hf (he ▸ hg)
      rw [b.grant_standing_ne hne, b.grant_line_ne hne]
      exact ⟨hg, rfl⟩
    · rcases eq_or_ne g f with rfl | hne
      · rw [b.grant_standing_self]
        intro he
        obtain rfl : t = u := by simpa using he
        exact ht g hu
      · rw [b.grant_standing_ne hne]
        exact hg
  · refine ⟨fun g => by rw [b.suspend_line], fun g hg => ?_, fun g u hu hg => ?_⟩
    · have hne : g ≠ f := by
        rintro rfl
        rw [hf] at hg
        cases hg
      rw [b.suspend_standing_ne hne]
      exact ⟨hg, rfl⟩
    · rcases eq_or_ne g f with rfl | hne
      · simp
      · rw [b.suspend_standing_ne hne]
        exact hg
  · refine ⟨fun g => by rw [b.closed_line], fun g hg => ?_, fun g u hu hg => ?_⟩
    · rcases b.closed_standing_cases (f := g) P with h | h
      · exact ⟨h.trans hg, rfl⟩
      · exact ⟨h, rfl⟩
    · rcases b.closed_standing_cases (f := g) P with h | h
      · rw [h]
        exact hg
      · rw [h]
        simp

/-- **Lines only grow, a token out of use stays out of use, and what is over stays over.** -/
theorem later_of_run (h : (sessions F T ι).Run b b') : Later b b' := by
  induction h with
  | refl => exact .refl b
  | step _ hs ih => exact ih.trans (Step.later hs)

end Machine

end NebulaToken.Lib.Succession
