import Mathlib.Tactic

namespace Baize.Lib

variable {w : ℕ} (poly : BitVec w)

/-- One bit of a reflected cyclic redundancy check: the register moves down, and the
polynomial is added when a one falls out of it. -/
def crcBit (crc : BitVec w) : BitVec w := if crc.getLsbD 0 then (crc >>> 1) ^^^ poly else crc >>> 1

def crcBits (n : ℕ) (crc : BitVec w) : BitVec w := (crcBit poly)^[n] crc

theorem crcBit_xor (x y : BitVec w) : crcBit poly (x ^^^ y) = crcBit poly x ^^^ crcBit poly y := by
  unfold crcBit
  rw [BitVec.getLsbD_xor, BitVec.ushiftRight_xor_distrib]
  cases x.getLsbD 0 <;> cases y.getLsbD 0 <;> simp only [Bool.xor_false, Bool.xor_true, Bool.not_true,
    Bool.not_false, Bool.false_eq_true, if_true, if_false]
  · rw [BitVec.xor_assoc]
  · rw [BitVec.xor_assoc, BitVec.xor_assoc, BitVec.xor_comm poly]
  · rw [BitVec.xor_assoc, ← BitVec.xor_assoc poly, BitVec.xor_comm poly, BitVec.xor_assoc _ poly poly,
      BitVec.xor_self, BitVec.xor_zero]

theorem crcBits_xor (n : ℕ) (x y : BitVec w) :
    crcBits poly n (x ^^^ y) = crcBits poly n x ^^^ crcBits poly n y := by
  induction n generalizing x y with
  | zero => rfl
  | succ n ih =>
    simp only [crcBits, Function.iterate_succ_apply, crcBit_xor] at ih ⊢
    exact ih _ _

theorem crcBits_of_low {n : ℕ} {x : BitVec w} (h : ∀ i < n, x.getLsbD i = false) :
    crcBits poly n x = x >>> n := by
  induction n with
  | zero => exact (BitVec.ushiftRight_zero x).symm
  | succ n ih =>
    have hmoved : (crcBit poly)^[n] x = x >>> n := ih fun i hi ↦ h i (hi.trans n.lt_succ_self)
    have hbit : (x >>> n).getLsbD 0 = false := by
      rw [BitVec.getLsbD_ushiftRight]
      exact h n n.lt_succ_self
    rw [crcBits, Function.iterate_succ_apply', hmoved, crcBit, hbit, if_neg Bool.false_ne_true,
      BitVec.shiftRight_add]

def lowBits (n : ℕ) (x : BitVec w) : BitVec w := x &&& BitVec.ofNat w (2 ^ n - 1)

theorem getLsbD_lowBits (n : ℕ) (x : BitVec w) (i : ℕ) :
    (lowBits n x).getLsbD i = (x.getLsbD i && decide (i < n)) := by
  rw [lowBits, BitVec.getLsbD_and, BitVec.getLsbD_ofNat, Nat.testBit_two_pow_sub_one]
  by_cases hi : i < w
  · simp [hi]
  · simp [BitVec.getLsbD_of_ge x i (not_lt.mp hi)]

theorem crcBits_split (n : ℕ) (x : BitVec w) :
    crcBits poly n x = crcBits poly n (lowBits n x) ^^^ (x >>> n) := by
  have hsplit : x = lowBits n x ^^^ (x ^^^ lowBits n x) := by
    rw [BitVec.xor_comm x, ← BitVec.xor_assoc, BitVec.xor_self, BitVec.zero_xor]
  have hlow : ∀ i < n, (x ^^^ lowBits n x).getLsbD i = false := by
    intro i hi
    rw [BitVec.getLsbD_xor, getLsbD_lowBits]
    simp [hi]
  have hhigh : (x ^^^ lowBits n x) >>> n = x >>> n := by
    apply BitVec.eq_of_getLsbD_eq
    intro i _
    rw [BitVec.getLsbD_ushiftRight, BitVec.getLsbD_ushiftRight, BitVec.getLsbD_xor, getLsbD_lowBits]
    simp
  calc crcBits poly n x = crcBits poly n (lowBits n x ^^^ (x ^^^ lowBits n x)) := by rw [← hsplit]
    _ = crcBits poly n (lowBits n x) ^^^ (x >>> n) := by rw [crcBits_xor, crcBits_of_low poly hlow, hhigh]

end Baize.Lib
