import Mathlib.Tactic

/-! # Integers in double precision

A double holds an integer of up to 53 binary digits, times a power of two. A sum that is not one is rounded
to the nearest that is, and to the one with an even last digit if two are as near. Integers past the
largest double, where the sum is infinite, are not told apart.

* `nearest_eq_self`, `add_eq`, `sub_eq`: up to `2 ^ 53` nothing is rounded. -/

namespace NebulaToken.Lib.Doubles

/-- The distance between doubles of the size of an integer: what the last of 53 binary digits is worth. -/
def spacing (n : ℤ) : ℕ := 2 ^ (n.natAbs.log2 - 52)

/-- **The double nearest to an integer**, and of two the one that is even. -/
def nearest (n : ℤ) : ℤ :=
  let q := n / spacing n
  let r := n % spacing n
  if 2 * r < spacing n ∨ 2 * r = spacing n ∧ q % 2 = 0 then q * spacing n else (q + 1) * spacing n

/-- The sum of two doubles. -/
def add (a b : ℤ) : ℤ := nearest (a + b)

/-- The difference of two doubles. -/
def sub (a b : ℤ) : ℤ := nearest (a - b)

theorem spacing_pos (n : ℤ) : 0 < spacing n := Nat.two_pow_pos _

/-- A multiple of the distance is a double. -/
theorem nearest_of_dvd {n : ℤ} (h : (spacing n : ℤ) ∣ n) : nearest n = n := by
  have hpos : (0 : ℤ) < spacing n := Int.natCast_pos.mpr (spacing_pos n)
  unfold nearest
  dsimp only
  rw [Int.emod_eq_zero_of_dvd h, if_pos (Or.inl (by omega)), Int.ediv_mul_cancel h]

/-- **Integers up to `2 ^ 53` are doubles.** -/
theorem nearest_eq_self {n : ℤ} (h : |n| ≤ 2 ^ 53) : nearest n = n := by
  refine nearest_of_dvd ?_
  have hle : n.natAbs ≤ 2 ^ 53 := by
    have hcast : (n.natAbs : ℤ) ≤ 2 ^ 53 := by rwa [Int.natCast_natAbs]
    exact_mod_cast hcast
  rcases hle.lt_or_eq with hlt | heq
  · -- fewer than 54 digits
    have hlog : n.natAbs.log2 - 52 = 0 := by
      rcases Nat.eq_zero_or_pos n.natAbs with h0 | hpos
      · rw [h0, Nat.log2_zero]
      · have := (Nat.log2_lt hpos.ne').mpr hlt
        omega
    rw [spacing, hlog, pow_zero, Nat.cast_one]
    exact one_dvd n
  · rw [spacing, heq, Nat.log2_two_pow, ← Int.dvd_natAbs, heq]
    exact ⟨2 ^ 52, by norm_num⟩

theorem add_eq {a b : ℤ} (h : |a + b| ≤ 2 ^ 53) : add a b = a + b := nearest_eq_self h

theorem sub_eq {a b : ℤ} (h : |a - b| ≤ 2 ^ 53) : sub a b = a - b := nearest_eq_self h

/-- The first integer that is no double: the even neighbour is taken. -/
example : add (2 ^ 53) 1 = 2 ^ 53 ∧ add (2 ^ 53) 3 = 2 ^ 53 + 4 := by decide

end NebulaToken.Lib.Doubles
