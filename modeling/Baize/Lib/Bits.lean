import Mathlib.Tactic

namespace Baize.Lib

theorem or_shiftLeft {lo k : ℕ} (h : lo < 2 ^ k) (hi : ℕ) : lo ||| hi <<< k = hi * 2 ^ k + lo := by
  rw [Nat.or_comm, ← Nat.shiftLeft_add_eq_or_of_lt h, Nat.shiftLeft_eq]

theorem and_mask (x n k : ℕ) : x &&& (2 ^ n - 1) <<< k = x / 2 ^ k % 2 ^ n * 2 ^ k := by
  rw [← Nat.shiftLeft_eq, ← Nat.shiftRight_eq_div_pow]
  apply Nat.eq_of_testBit_eq
  intro i
  simp only [Nat.testBit_and, Nat.testBit_shiftLeft, Nat.testBit_two_pow_sub_one, Nat.testBit_mod_two_pow,
    Nat.testBit_shiftRight]
  by_cases h : k ≤ i
  · rw [Nat.add_sub_cancel' h]
    cases x.testBit i <;> simp [h]
  · simp [h]

section Field

variable {v mask : UInt16} {n j : ℕ} (hmask : mask.toNat = (2 ^ n - 1) <<< j)

include hmask

theorem toNat_and_field : (v &&& mask).toNat = (v.toNat / 2 ^ j % 2 ^ n) <<< j := by
  rw [UInt16.toNat_and, hmask, and_mask, Nat.shiftLeft_eq]

theorem toNat_field_shiftLeft (k : UInt16) (hk : k.toNat < 16) (hfits : n + (j + k.toNat) ≤ 16) :
    ((v &&& mask) <<< k).toNat = (v.toNat / 2 ^ j % 2 ^ n) <<< (j + k.toNat) := by
  have hlt : (v.toNat / 2 ^ j % 2 ^ n) <<< (j + k.toNat) < 2 ^ 16 := by
    rw [Nat.shiftLeft_eq]
    calc v.toNat / 2 ^ j % 2 ^ n * 2 ^ (j + k.toNat)
        < 2 ^ n * 2 ^ (j + k.toNat) :=
          Nat.mul_lt_mul_of_pos_right (Nat.mod_lt _ (Nat.two_pow_pos n)) (Nat.two_pow_pos _)
      _ = 2 ^ (n + (j + k.toNat)) := (pow_add 2 n _).symm
      _ ≤ 2 ^ 16 := Nat.pow_le_pow_right Nat.two_pos hfits
  rw [UInt16.toNat_shiftLeft, toNat_and_field hmask, Nat.mod_eq_of_lt hk, ← Nat.shiftLeft_add,
    Nat.mod_eq_of_lt hlt]

theorem toNat_field_shiftRight (k : UInt16) (hk : k.toNat < 16) (hle : k.toNat ≤ j) :
    ((v &&& mask) >>> k).toNat = (v.toNat / 2 ^ j % 2 ^ n) <<< (j - k.toNat) := by
  rw [UInt16.toNat_shiftRight, toNat_and_field hmask, Nat.mod_eq_of_lt hk]
  generalize v.toNat / 2 ^ j % 2 ^ n = x
  obtain ⟨i, rfl⟩ := Nat.exists_eq_add_of_le hle
  rw [Nat.add_comm, Nat.shiftLeft_add, Nat.shiftLeft_shiftRight, Nat.add_sub_cancel]

end Field

end Baize.Lib
