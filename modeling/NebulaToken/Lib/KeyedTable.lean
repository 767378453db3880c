import Mathlib.Data.List.Nodup
import Mathlib.Tactic

/-! # Keyed tables

A table is a map from keys to rows that remembers the order its keys were added in. Its keys are
distinct by construction. Every operation comes with the lemma that says what `get` reads after it. -/

namespace NebulaToken.Lib.KeyedTable

/-! ### Lookups in lists of pairs -/

section Lookup

variable {κ ρ : Type} [DecidableEq κ]

theorem mem_of_lookup {l : List (κ × ρ)} {k : κ} {r : ρ} (h : l.lookup k = some r) : (k, r) ∈ l := by
  obtain ⟨l₁, l₂, hl, -⟩ := List.lookup_eq_some_iff.mp h
  rw [hl]
  simp

theorem mem_map_of_lookup {l : List (κ × ρ)} {k : κ} {r : ρ} (h : l.lookup k = some r) :
    k ∈ l.map Prod.fst := List.mem_map.mpr ⟨(k, r), mem_of_lookup h, rfl⟩

theorem lookup_of_notMem {l : List (κ × ρ)} {k : κ} (h : k ∉ l.map Prod.fst) : l.lookup k = none := by
  cases hl : l.lookup k with
  | none => rfl
  | some r => exact absurd (mem_map_of_lookup hl) h

theorem notMem_of_lookup {l : List (κ × ρ)} {k : κ} (h : l.lookup k = none) : k ∉ l.map Prod.fst := by
  intro hk
  obtain ⟨⟨k', r⟩, hm, rfl⟩ := List.mem_map.mp hk
  exact absurd (List.lookup_eq_none_iff.mp h (k', r) hm) (by simp)

theorem lookup_of_mem {l : List (κ × ρ)} (hnd : (l.map Prod.fst).Nodup) {e : κ × ρ} (h : e ∈ l) :
    l.lookup e.1 = some e.2 := by
  induction l with
  | nil => cases h
  | cons e' l ih =>
    rw [List.map_cons, List.nodup_cons] at hnd
    rcases List.mem_cons.mp h with rfl | h
    · rw [List.lookup_cons, beq_self_eq_true]
    · have hne : e.1 ≠ e'.1 := fun he => hnd.1 (he ▸ List.mem_map_of_mem h)
      rw [List.lookup_cons, beq_eq_false_iff_ne.mpr hne]
      exact ih hnd.2 h

theorem lookup_map (f : κ → ρ → ρ) (l : List (κ × ρ)) (k : κ) :
    (l.map fun p => (p.1, f p.1 p.2)).lookup k = (l.lookup k).map (f k) := by
  induction l with
  | nil => rfl
  | cons e l ih =>
    rw [List.map_cons, List.lookup_cons, List.lookup_cons]
    by_cases hk : k = e.1
    · subst hk
      simp
    · rw [beq_eq_false_iff_ne.mpr hk]
      exact ih

theorem lookup_filter (p : κ → ρ → Bool) {l : List (κ × ρ)} (hnd : (l.map Prod.fst).Nodup) (k : κ) :
    (l.filter fun e => p e.1 e.2).lookup k = (l.lookup k).filter (p k) := by
  induction l with
  | nil => rfl
  | cons e l ih =>
    obtain ⟨k', r⟩ := e
    rw [List.map_cons, List.nodup_cons] at hnd
    by_cases hk : k = k'
    · subst hk
      cases hp : p k r with
      | true => simp [hp, Option.filter]
      | false =>
        have hl : (l.filter fun e => p e.1 e.2).lookup k = none :=
          lookup_of_notMem fun hm => hnd.1 ((List.filter_sublist.map Prod.fst).subset hm)
        simp [hp, Option.filter, hl]
    · have hb : (k == k') = false := beq_eq_false_iff_ne.mpr hk
      cases hp : p k' r <;> simp [hp, List.lookup_cons, hb, ih hnd.2]

/-- Rows under the same keys, the same under each. -/
theorem eq_of_lookup {l l' : List (κ × ρ)} (hkeys : l.map Prod.fst = l'.map Prod.fst)
    (hnd : (l.map Prod.fst).Nodup) (h : ∀ k, l.lookup k = l'.lookup k) : l = l' := by
  induction l generalizing l' with
  | nil => exact (List.map_eq_nil_iff.mp hkeys.symm).symm
  | cons e l ih =>
    cases l' with
    | nil => cases hkeys
    | cons e' l' =>
      obtain ⟨k, r⟩ := e
      obtain ⟨k', r'⟩ := e'
      rw [List.map_cons, List.map_cons, List.cons.injEq] at hkeys
      obtain ⟨rfl, hkeys⟩ := hkeys
      rw [List.map_cons, List.nodup_cons] at hnd
      have hr := h k
      rw [List.lookup_cons_self, List.lookup_cons_self] at hr
      obtain rfl := Option.some.inj hr
      rw [ih hkeys hnd.2 fun j => ?_]
      by_cases hj : j = k
      · rw [hj, lookup_of_notMem hnd.1, lookup_of_notMem (hkeys ▸ hnd.1)]
      · have hl := h j
        rwa [List.lookup_cons, List.lookup_cons, beq_eq_false_iff_ne.mpr hj] at hl

/-- Of the rows that count, one fewer. -/
theorem countP_modify {l : List (κ × ρ)} {p : κ → ρ → Bool} {f : ρ → ρ} {k : κ} {r : ρ}
    (hnd : (l.map Prod.fst).Nodup) (hl : l.lookup k = some r) (hr : p k r = true)
    (hf : p k (f r) = false) :
    (l.map fun e => (e.1, if e.1 = k then f e.2 else e.2)).countP (fun e => p e.1 e.2) + 1 =
      l.countP fun e => p e.1 e.2 := by
  induction l with
  | nil => cases hl
  | cons e l ih =>
    rw [List.map_cons, List.nodup_cons] at hnd
    rw [List.map_cons, List.countP_cons, List.countP_cons]
    by_cases hk : k = e.1
    · subst hk
      rw [List.lookup_cons, beq_self_eq_true] at hl
      obtain rfl := Option.some.inj hl
      -- no other row is under its key
      have hrest : (l.map fun e' => (e'.1, if e'.1 = e.1 then f e'.2 else e'.2)) = l := by
        conv_rhs => rw [← List.map_id l]
        refine List.map_congr_left fun e' he' => ?_
        have hne : e'.1 ≠ e.1 := fun h => hnd.1 (h ▸ List.mem_map_of_mem he')
        rw [if_neg hne]
        rfl
      rw [hrest, if_pos rfl, hr, hf]
      rfl
    · rw [List.lookup_cons, beq_eq_false_iff_ne.mpr hk] at hl
      have hrest := ih hnd.2 hl
      dsimp only
      rw [if_neg (Ne.symm hk)]
      omega

end Lookup

/-! ### Tables -/

/-- Rows under distinct keys, in the order the keys were added. -/
structure Table (κ ρ : Type) where
  entries : List (κ × ρ)
  nodup : (entries.map Prod.fst).Nodup

namespace Table

variable {κ ρ : Type}

/-- The table with no row. -/
def empty : Table κ ρ := ⟨[], List.nodup_nil⟩

/-- The keys, oldest first. -/
def keys (t : Table κ ρ) : List κ := t.entries.map Prod.fst

/-- Every row rewritten, under its key. -/
def mapRows (t : Table κ ρ) (f : κ → ρ → ρ) : Table κ ρ where
  entries := t.entries.map fun p => (p.1, f p.1 p.2)
  nodup := by
    rw [List.map_map]
    exact t.nodup

/-- The rows that satisfy `p`. -/
def filter (t : Table κ ρ) (p : κ → ρ → Bool) : Table κ ρ where
  entries := t.entries.filter fun e => p e.1 e.2
  nodup := t.nodup.sublist (List.filter_sublist.map Prod.fst)

/-- How many rows satisfy `p`. -/
def count (t : Table κ ρ) (p : κ → ρ → Bool) : ℕ := t.entries.countP fun e => p e.1 e.2

theorem keys_mapRows (t : Table κ ρ) (f : κ → ρ → ρ) : (t.mapRows f).keys = t.keys := by
  rw [keys, mapRows, List.map_map]
  rfl

variable [DecidableEq κ]

/-- The row under a key. -/
def get (t : Table κ ρ) (k : κ) : Option ρ := t.entries.lookup k

/-- Only the row under `k` rewritten. -/
def modify (t : Table κ ρ) (k : κ) (f : ρ → ρ) : Table κ ρ :=
  t.mapRows fun k' r => if k' = k then f r else r

/-- A row under a new key, at the end; under a key that is there, in its place. -/
def set (t : Table κ ρ) (k : κ) (r : ρ) : Table κ ρ :=
  if h : t.get k = none then
    { entries := t.entries ++ [(k, r)]
      nodup := by
        rw [List.map_append, List.nodup_append]
        refine ⟨t.nodup, by simp, fun a ha b hb => ?_⟩
        simp only [List.map_cons, List.map_nil, List.mem_singleton] at hb
        rintro rfl
        exact notMem_of_lookup h (hb ▸ ha) }
  else t.modify k fun _ => r

@[simp] theorem get_empty (k : κ) : (empty : Table κ ρ).get k = none := rfl

theorem get_mapRows (t : Table κ ρ) (f : κ → ρ → ρ) (k : κ) :
    (t.mapRows f).get k = (t.get k).map (f k) := lookup_map f t.entries k

theorem get_filter (t : Table κ ρ) (p : κ → ρ → Bool) (k : κ) :
    (t.filter p).get k = (t.get k).filter (p k) := lookup_filter p t.nodup k

theorem get_modify_self (t : Table κ ρ) (k : κ) (f : ρ → ρ) :
    (t.modify k f).get k = (t.get k).map f := by
  rw [modify, get_mapRows]
  simp

theorem get_modify_ne (t : Table κ ρ) {k k' : κ} (h : k' ≠ k) (f : ρ → ρ) :
    (t.modify k f).get k' = t.get k' := by
  rw [modify, get_mapRows]
  simp [h]

theorem get_set_self (t : Table κ ρ) (k : κ) (r : ρ) : (t.set k r).get k = some r := by
  unfold set
  split
  · next h =>
    rw [get] at h ⊢
    simp [List.lookup_append, h]
  · next h =>
    obtain ⟨r', hr'⟩ := Option.ne_none_iff_exists'.mp h
    rw [get_modify_self, hr']
    rfl

theorem get_set_ne (t : Table κ ρ) {k k' : κ} (h : k' ≠ k) (r : ρ) : (t.set k r).get k' = t.get k' := by
  unfold set
  split
  · have hb : (k' == k) = false := beq_eq_false_iff_ne.mpr h
    simp [get, List.lookup_append, List.lookup_cons, hb]
  · exact get_modify_ne t h _

theorem mem_of_get {t : Table κ ρ} {k : κ} {r : ρ} (h : t.get k = some r) : (k, r) ∈ t.entries :=
  mem_of_lookup h

theorem get_of_mem {t : Table κ ρ} {e : κ × ρ} (h : e ∈ t.entries) : t.get e.1 = some e.2 :=
  lookup_of_mem t.nodup h

theorem mem_keys_iff (t : Table κ ρ) (k : κ) : k ∈ t.keys ↔ ∃ r, t.get k = some r := by
  constructor
  · intro hk
    cases h : t.get k with
    | none => exact absurd hk (notMem_of_lookup h)
    | some r => exact ⟨r, rfl⟩
  · rintro ⟨r, hr⟩
    exact mem_map_of_lookup hr

/-- The keys of the rows that satisfy `p`. -/
theorem mem_filter_keys (t : Table κ ρ) (p : κ → ρ → Bool) (k : κ) :
    k ∈ (t.filter p).keys ↔ ((t.get k).any (p k)) = true := by
  rw [mem_keys_iff]
  constructor
  · rintro ⟨r, hr⟩
    rw [get_filter, Option.filter_eq_some_iff] at hr
    rw [hr.1]
    exact hr.2
  · intro h
    cases hg : t.get k with
    | none =>
      rw [hg] at h
      cases h
    | some r =>
      rw [hg] at h
      exact ⟨r, by rw [get_filter, hg]; exact Option.filter_some_pos h⟩

/-- A table is determined by its keys and what is under them. -/
theorem ext_get {t t' : Table κ ρ} (hkeys : t.keys = t'.keys) (h : ∀ k, t.get k = t'.get k) : t = t' := by
  obtain ⟨l, hnd⟩ := t
  obtain ⟨l', hnd'⟩ := t'
  obtain rfl : l = l' := eq_of_lookup hkeys hnd h
  rfl

theorem keys_modify (t : Table κ ρ) (k : κ) (f : ρ → ρ) : (t.modify k f).keys = t.keys := keys_mapRows t _

/-- Writing to a key that is there modifies its row. -/
theorem set_eq_modify {t : Table κ ρ} {k : κ} {r r' : ρ} {f : ρ → ρ} (h : t.get k = some r)
    (hf : f r = r') : t.set k r' = t.modify k f := by
  have hset : t.set k r' = t.modify k fun _ => r' := by
    rw [set, dif_neg (by rw [h]; exact Option.some_ne_none r)]
  rw [hset]
  refine ext_get (by rw [keys_modify, keys_modify]) fun k' => ?_
  by_cases hk : k' = k
  · rw [hk, get_modify_self, get_modify_self, h, Option.map_some, Option.map_some, hf]
  · rw [get_modify_ne t hk, get_modify_ne t hk]

theorem count_modify {t : Table κ ρ} {k : κ} {r : ρ} {f : ρ → ρ} {p : κ → ρ → Bool}
    (h : t.get k = some r) (hr : p k r = true) (hf : p k (f r) = false) :
    (t.modify k f).count p + 1 = t.count p := countP_modify t.nodup h hr hf

/-- Tables that agree on which keys have a row that counts have the same count. -/
theorem count_congr {ρ' : Type} {t : Table κ ρ} {t' : Table κ ρ'} {p : κ → ρ → Bool}
    {p' : κ → ρ' → Bool} (h : ∀ k, (t.get k).any (p k) = (t'.get k).any (p' k)) :
    t.count p = t'.count p' := by
  have hperm : (t.filter p).keys.Perm (t'.filter p').keys := by
    refine (List.perm_ext_iff_of_nodup (t.filter p).nodup (t'.filter p').nodup).mpr fun k => ?_
    rw [show (t.filter p).entries.map Prod.fst = (t.filter p).keys from rfl,
      show (t'.filter p').entries.map Prod.fst = (t'.filter p').keys from rfl,
      mem_filter_keys, mem_filter_keys, h]
  have hlen := hperm.length_eq
  unfold keys at hlen
  rw [List.length_map, List.length_map] at hlen
  rw [count, count, List.countP_eq_length_filter, List.countP_eq_length_filter]
  exact hlen

end Table

end NebulaToken.Lib.KeyedTable
