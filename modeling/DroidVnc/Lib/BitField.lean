import Mathlib.Data.Nat.Bitwise

/-! Fields of bits in a word. The field of `n` bits from bit `l` on is read by a
shift and a mask, and written through the mask shifted back. -/

namespace BitField

def mask (l n : ℕ) : ℕ := (2 ^ n - 1) <<< l

def read (l n x : ℕ) : ℕ := (x >>> l) &&& (2 ^ n - 1)

/-- Reading takes exactly the bits of the field. -/
theorem testBit_read (l n x i : ℕ) :
    (read l n x).testBit i = (decide (i < n) && x.testBit (l + i)) := by
  rw [read, Nat.testBit_and, Nat.testBit_shiftRight, Nat.testBit_two_pow_sub_one, Bool.and_comm]

theorem testBit_mask (l n i : ℕ) :
    (mask l n).testBit i = (decide (l ≤ i) && decide (i - l < n)) := by
  rw [mask, Nat.testBit_shiftLeft, Nat.testBit_two_pow_sub_one]

/-- Fields one above the other have disjoint masks. -/
theorem mask_and_mask {l n l' n' : ℕ} (h : l + n ≤ l' ∨ l' + n' ≤ l) :
    mask l n &&& mask l' n' = 0 := by
  apply Nat.eq_of_testBit_eq
  intro i
  rw [Nat.testBit_and, testBit_mask, testBit_mask, Nat.zero_testBit]
  by_contra hset
  simp only [Bool.not_eq_false, Bool.and_eq_true, decide_eq_true_eq] at hset
  omega

/-- A mask tells how many bits it has. -/
theorem ones_inj {m n : ℕ} : 2 ^ m - 1 = 2 ^ n - 1 ↔ m = n := by
  have hm := Nat.one_le_two_pow (n := m)
  have hn := Nat.one_le_two_pow (n := n)
  constructor
  · intro h
    exact Nat.pow_right_injective (le_refl 2) (by dsimp only; omega)
  · intro h
    rw [h]

end BitField
