import NfpDriver.Library.Adder

namespace Halves

open Adder BitVec

def funnel (y x : BitVec 32) (n : Nat) : BitVec 32 := ((y ++ x) >>> n).setWidth 32

theorem getLsbD_lo (v : BitVec 64) {i : Nat} (hi : i < 32) : (lo v).getLsbD i = v.getLsbD i := by
  simp [lo, hi]

theorem getLsbD_hi (v : BitVec 64) {i : Nat} (hi : i < 32) : (Adder.hi v).getLsbD i = v.getLsbD (32 + i) := by
  simp [Adder.hi, hi]

theorem getLsbD_funnel (y x : BitVec 32) (n : Nat) {i : Nat} (hi : i < 32) :
    (funnel y x n).getLsbD i = (y ++ x).getLsbD (n + i) := by
  simp [funnel, hi]

theorem msb_pair (y x : BitVec 32) : (y ++ x).msb = y.msb := by
  rw [msb_append]
  rfl

theorem funnel_zero (y x : BitVec 32) : funnel y x 0 = x := by
  apply eq_of_getLsbD_eq
  intro i hi
  rw [getLsbD_funnel y x 0 hi, getLsbD_append, Nat.zero_add, if_pos hi]

theorem funnel_low (x : BitVec 32) (n : Nat) : funnel 0 x n = x >>> n := by
  apply eq_of_getLsbD_eq
  intro i hi
  rw [getLsbD_funnel _ _ _ hi, getLsbD_ushiftRight, getLsbD_append]
  split
  · rfl
  · rw [getLsbD_of_ge x _ (by omega)]
    exact getLsbD_zero

section Shifts

variable (y x : BitVec 32) {n : Nat}

theorem lo_shl : lo ((y ++ x) <<< n) = x <<< n := by
  apply eq_of_getLsbD_eq
  intro i hi
  rw [getLsbD_lo _ hi, getLsbD_shiftLeft, getLsbD_shiftLeft, getLsbD_append, if_pos (by omega)]
  simp [hi, show i < 64 by omega]

theorem hi_shl (h0 : 0 < n) (hn : n < 32) : hi ((y ++ x) <<< n) = funnel y x (32 - n) := by
  apply eq_of_getLsbD_eq
  intro i hi
  rw [getLsbD_hi _ hi, getLsbD_funnel _ _ _ hi, getLsbD_shiftLeft, show 32 + i - n = 32 - n + i by omega]
  simp [show 32 + i < 64 by omega, show ¬32 + i < n by omega]

theorem hi_shl_far (hn : 32 ≤ n) : hi ((y ++ x) <<< n) = x <<< (n - 32) := by
  apply eq_of_getLsbD_eq
  intro i hi
  rw [getLsbD_hi _ hi, getLsbD_shiftLeft, getLsbD_shiftLeft, getLsbD_append,
    show 32 + i - n = i - (n - 32) by omega, if_pos (by omega)]
  simp [hi, show 32 + i < 64 by omega, show 32 + i < n ↔ i < n - 32 by omega]

theorem lo_shl_far (hn : 32 ≤ n) : lo ((y ++ x) <<< n) = 0 := by
  rw [lo_shl, shiftLeft_eq_zero hn]
  rfl

theorem lo_shr : lo ((y ++ x) >>> n) = funnel y x n := by
  apply eq_of_getLsbD_eq
  intro i hi
  rw [getLsbD_lo _ hi, getLsbD_funnel _ _ _ hi, getLsbD_ushiftRight]

theorem hi_shr : hi ((y ++ x) >>> n) = y >>> n := by
  apply eq_of_getLsbD_eq
  intro i hi
  rw [getLsbD_hi _ hi, getLsbD_ushiftRight, getLsbD_ushiftRight, getLsbD_append, if_neg (by omega)]
  congr 1
  omega

theorem funnel_far (hn : 32 ≤ n) : funnel y x n = y >>> (n - 32) := by
  apply eq_of_getLsbD_eq
  intro i hi
  rw [getLsbD_funnel _ _ _ hi, getLsbD_ushiftRight, getLsbD_append, if_neg (by omega)]
  congr 1
  omega

theorem lo_sshr (hn : n < 32) : lo ((y ++ x).sshiftRight n) = funnel y x n := by
  apply eq_of_getLsbD_eq
  intro i hi
  rw [getLsbD_lo _ hi, getLsbD_funnel _ _ _ hi, getLsbD_sshiftRight]
  simp [show ¬64 ≤ i by omega, show n + i < 64 by omega]

theorem hi_sshr : hi ((y ++ x).sshiftRight n) = y.sshiftRight n := by
  apply eq_of_getLsbD_eq
  intro i hi
  rw [getLsbD_hi _ hi, getLsbD_sshiftRight, getLsbD_sshiftRight, msb_pair, getLsbD_append,
    if_neg (show ¬n + (32 + i) < 32 by omega), show n + (32 + i) - 32 = n + i by omega]
  simp [show ¬64 ≤ 32 + i by omega, show ¬32 ≤ i by omega, show n + (32 + i) < 64 ↔ n + i < 32 by omega]

theorem lo_sshr_far (hn : 32 ≤ n) : lo ((y ++ x).sshiftRight n) = y.sshiftRight (n - 32) := by
  apply eq_of_getLsbD_eq
  intro i hi
  rw [getLsbD_lo _ hi, getLsbD_sshiftRight, getLsbD_sshiftRight, msb_pair, getLsbD_append,
    if_neg (show ¬n + i < 32 by omega), show n + i - 32 = n - 32 + i by omega]
  simp [show ¬64 ≤ i by omega, show ¬32 ≤ i by omega, show n + i < 64 ↔ n - 32 + i < 32 by omega]

theorem sshr_far (hn : 31 ≤ n) : y.sshiftRight n = y.sshiftRight 31 := by
  apply eq_of_getLsbD_eq
  intro i hi
  rw [getLsbD_sshiftRight, getLsbD_sshiftRight]
  by_cases h : n + i < 32
  · rw [show n = 31 by omega]
  · by_cases h31 : 31 + i < 32
    · rw [if_neg h, if_pos h31, show 31 + i = 31 by omega, ← msb_eq_getLsbD_last]
    · rw [if_neg h, if_neg h31]

end Shifts

end Halves
