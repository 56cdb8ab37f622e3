import Mathlib.Tactic

/-!
# VpnCore.Lib.Block — aligned blocks of integers

`a / 2 ^ k` numbers the aligned block of `2 ^ k` integers around `a`.  Clearing or setting the low
bits of a number, one bit after the other, gives the ends of its block; of two blocks that meet,
the larger contains the smaller.
-/

namespace VpnCore.Lib

/-- Bit `i` of a two's complement number, as `BigInteger.clearBit` and `setBit` see it. -/
def bit (n : ℤ) (i : ℕ) : ℤ := n / 2 ^ i % 2

def clearBit (n : ℤ) (i : ℕ) : ℤ := if bit n i = 1 then n - 2 ^ i else n

def setBit (n : ℤ) (i : ℕ) : ℤ := if bit n i = 0 then n + 2 ^ i else n

theorem pow_pos_two (k : ℕ) : (0 : ℤ) < 2 ^ k := by positivity

theorem ediv_pow_succ (n : ℤ) (k : ℕ) : n / 2 ^ (k + 1) = n / 2 ^ k / 2 := by
  rw [pow_succ, Int.ediv_ediv_of_nonneg (pow_pos_two k).le]

theorem bit_block (q : ℤ) (k : ℕ) : bit (q * 2 ^ k) k = q % 2 := by
  rw [bit, Int.mul_ediv_cancel _ (pow_pos_two k).ne']

theorem bit_block_end (q : ℤ) (k : ℕ) : bit (q * 2 ^ k + 2 ^ k - 1) k = q % 2 := by
  have h : q * 2 ^ k + 2 ^ k - 1 = 2 ^ k - 1 + q * 2 ^ k := by ring
  have hpos := pow_pos_two k
  rw [bit, h, Int.add_mul_ediv_right _ _ hpos.ne', Int.ediv_eq_zero_of_lt (by omega) (by omega),
    zero_add]

/-- The first integer of the block. -/
theorem foldl_clearBit (n : ℤ) : ∀ k, (List.range k).foldl clearBit n = n / 2 ^ k * 2 ^ k
  | 0 => by simp
  | k + 1 => by
    rw [List.range_succ, List.foldl_append, foldl_clearBit n k, List.foldl_cons, List.foldl_nil,
      clearBit, bit_block, ediv_pow_succ, pow_succ]
    set q := n / 2 ^ k
    have hq : q = q / 2 * 2 + q % 2 := by omega
    by_cases h : q % 2 = 1
    · rw [if_pos h]
      calc q * 2 ^ k - 2 ^ k = (q - 1) * 2 ^ k := by ring
        _ = q / 2 * 2 * 2 ^ k := by rw [show q - 1 = q / 2 * 2 by omega]
        _ = q / 2 * (2 ^ k * 2) := by ring
    · rw [if_neg h]
      calc q * 2 ^ k = q / 2 * 2 * 2 ^ k := by rw [show q / 2 * 2 = q by omega]
        _ = q / 2 * (2 ^ k * 2) := by ring

/-- The last integer of the block. -/
theorem foldl_setBit (n : ℤ) :
    ∀ k, (List.range k).foldl setBit n = n / 2 ^ k * 2 ^ k + 2 ^ k - 1
  | 0 => by simp
  | k + 1 => by
    rw [List.range_succ, List.foldl_append, foldl_setBit n k, List.foldl_cons, List.foldl_nil,
      setBit, bit_block_end, ediv_pow_succ, pow_succ]
    set q := n / 2 ^ k
    by_cases h : q % 2 = 0
    · rw [if_pos h]
      calc q * 2 ^ k + 2 ^ k - 1 + 2 ^ k = q / 2 * 2 * 2 ^ k + 2 ^ k * 2 - 1 := by
            rw [show q / 2 * 2 = q by omega]; ring
        _ = q / 2 * (2 ^ k * 2) + 2 ^ k * 2 - 1 := by ring
    · rw [if_neg h]
      calc q * 2 ^ k + 2 ^ k - 1 = (q - 1) * 2 ^ k + 2 ^ k * 2 - 1 := by ring
        _ = q / 2 * 2 * 2 ^ k + 2 ^ k * 2 - 1 := by rw [show q - 1 = q / 2 * 2 by omega]
        _ = q / 2 * (2 ^ k * 2) + 2 ^ k * 2 - 1 := by ring

/-- An integer lies between the ends of a block exactly when it has the block's number. -/
theorem mem_block_iff (n a : ℤ) (k : ℕ) :
    n / 2 ^ k * 2 ^ k ≤ a ∧ a ≤ n / 2 ^ k * 2 ^ k + 2 ^ k - 1 ↔ a / 2 ^ k = n / 2 ^ k := by
  have hpos := pow_pos_two k
  constructor
  · rintro ⟨h1, h2⟩
    have hl : n / 2 ^ k ≤ a / 2 ^ k := (Int.le_ediv_iff_mul_le hpos).mpr h1
    have hu : a / 2 ^ k < n / 2 ^ k + 1 := by
      rw [Int.ediv_lt_iff_lt_mul hpos, add_mul, one_mul]
      omega
    omega
  · intro h
    rw [← h]
    have h1 := Int.mul_ediv_add_emod a (2 ^ k)
    have h2 := Int.emod_nonneg a hpos.ne'
    have h3 := Int.emod_lt_of_pos a hpos
    rw [mul_comm] at h1
    omega

/-- **Nesting.**  Numbers with a common block have a common block of every larger size. -/
theorem block_mono {a b : ℤ} {j k : ℕ} (hjk : j ≤ k) (h : a / 2 ^ j = b / 2 ^ j) :
    a / 2 ^ k = b / 2 ^ k := by
  obtain ⟨i, rfl⟩ := Nat.exists_eq_add_of_le hjk
  rw [pow_add, ← Int.ediv_ediv_of_nonneg (pow_pos_two j).le, h,
    Int.ediv_ediv_of_nonneg (pow_pos_two j).le]

/-- A block of twice the size consists of two blocks. -/
theorem block_halves (a n : ℤ) (k : ℕ) :
    a / 2 ^ (k + 1) = n / 2 ^ (k + 1) ↔
      a / 2 ^ k = n / 2 ^ (k + 1) * 2 ∨ a / 2 ^ k = n / 2 ^ (k + 1) * 2 + 1 := by
  rw [ediv_pow_succ a k]
  constructor
  · intro h
    omega
  · rintro (h | h) <;> omega

end VpnCore.Lib
