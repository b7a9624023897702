import Mathlib.Tactic.Ring
import Mathlib.Data.BitVec
import Mathlib.Algebra.Order.Ring.Nat
import Mathlib.Algebra.Group.Nat.Even

namespace Reciprocal

structure Multiplies (d m P B : Nat) : Prop where
  above : P < m * d
  near : m * d * B ≤ P * B + P

theorem Multiplies.quotient {d m P B n : Nat} (h : Multiplies d m P B) (hd : 0 < d) (hn : n < B) :
    n * m / P = n / d := by
  have hP : 0 < P := by
    by_contra hc
    have h0 : P = 0 := by omega
    have hnear := h.near
    have habove := h.above
    rw [h0, zero_mul, zero_add] at hnear
    have : 0 < m * d * B := Nat.mul_pos (by omega) (by omega)
    omega
  have hlow : n / d * d ≤ n := Nat.div_mul_le_self n d
  have hhigh : n + 1 ≤ (n / d + 1) * d := by
    have := Nat.lt_mul_div_succ n hd
    rw [mul_comm]
    exact this
  apply Nat.div_eq_of_lt_le
  · calc n / d * P ≤ n / d * (m * d) := Nat.mul_le_mul_left _ h.above.le
      _ = n / d * d * m := by ring
      _ ≤ n * m := Nat.mul_le_mul_right _ hlow
  · have hB : 0 < B := by omega
    apply Nat.lt_of_mul_lt_mul_left (a := d * B)
    calc d * B * (n * m) = n * (m * d * B) := by ring
      _ ≤ n * (P * B + P) := Nat.mul_le_mul_left _ h.near
      _ = n * (P * B) + n * P := by ring
      _ < n * (P * B) + B * P := Nat.add_lt_add_left (Nat.mul_lt_mul_of_pos_right hn hP) _
      _ = (n + 1) * (P * B) := by ring
      _ ≤ (n / d + 1) * d * (P * B) := Nat.mul_le_mul_right _ hhigh
      _ = d * B * ((n / d + 1) * P) := by ring

theorem Multiplies.of_halves {d P Q E B k : Nat} {hi : Nat} (hd : 0 < d) (hP : P = Q * 2 ^ k)
    (hE : E * B ≤ P) (hlt : P / d / 2 ^ k < hi / 2 ^ k) (hhi : hi = (P + E) / d) :
    Multiplies d (hi / 2 ^ k) Q B := by
  have h2 : 0 < 2 ^ k := Nat.two_pow_pos k
  have hhalf : hi / 2 ^ k * 2 ^ k ≤ hi := Nat.div_mul_le_self _ _
  have hlow : P / d < hi / 2 ^ k * 2 ^ k := by
    have h1 := Nat.lt_mul_div_succ (P / d) h2
    have h3 : 2 ^ k * (P / d / 2 ^ k + 1) ≤ hi / 2 ^ k * 2 ^ k := by
      rw [mul_comm]
      exact Nat.mul_le_mul_right _ hlt
    omega
  have habove : P < hi / 2 ^ k * 2 ^ k * d := (Nat.div_lt_iff_lt_mul hd).mp hlow
  have hbelow : hi / 2 ^ k * 2 ^ k * d ≤ P + E := by
    calc hi / 2 ^ k * 2 ^ k * d ≤ hi * d := Nat.mul_le_mul_right _ hhalf
      _ ≤ P + E := by rw [hhi]; exact Nat.div_mul_le_self _ _
  constructor
  · apply Nat.lt_of_mul_lt_mul_right (a := 2 ^ k)
    calc Q * 2 ^ k = P := hP.symm
      _ < hi / 2 ^ k * 2 ^ k * d := habove
      _ = hi / 2 ^ k * d * 2 ^ k := by ring
  · apply Nat.le_of_mul_le_mul_right (c := 2 ^ k) _ h2
    calc hi / 2 ^ k * d * B * 2 ^ k = hi / 2 ^ k * 2 ^ k * d * B := by ring
      _ ≤ (P + E) * B := Nat.mul_le_mul_right _ hbelow
      _ = P * B + E * B := by ring
      _ ≤ P * B + P := Nat.add_le_add_left hE _
      _ = (Q * B + Q) * 2 ^ k := by rw [hP]; ring

/-- The wide multiplier `2 ^ w + m` needs one bit more than a word holds, so the quotient is
formed from the high word `t` of the product without overflowing: `(t + (n - t) / 2) / 2 ^ s`. -/
theorem wide_quotient {n m w s : Nat} (hn : n < 2 ^ w) (hm : m < 2 ^ w) :
    ((n - n * m / 2 ^ w) / 2 + n * m / 2 ^ w) / 2 ^ s = n * (2 ^ w + m) / 2 ^ (w + (s + 1)) ∧
      n * m / 2 ^ w ≤ n ∧ (n - n * m / 2 ^ w) / 2 + n * m / 2 ^ w < 2 ^ w := by
  have hw : 0 < 2 ^ w := Nat.two_pow_pos w
  have ht : n * m / 2 ^ w ≤ n := by
    rw [Nat.div_le_iff_le_mul_add_pred hw]
    have := Nat.mul_le_mul_left n hm.le
    rw [mul_comm n (2 ^ w)] at this
    omega
  have hsum : n * (2 ^ w + m) / 2 ^ w = n + n * m / 2 ^ w := by
    rw [mul_add, add_comm, Nat.add_mul_div_right _ _ hw, add_comm]
  refine ⟨?_, ht, by omega⟩
  rw [show w + (s + 1) = w + 1 + s by omega, pow_add, pow_add, ← Nat.div_div_eq_div_mul,
    ← Nat.div_div_eq_div_mul, hsum, pow_one]
  congr 1
  omega

theorem and_neg_self {w : Nat} {x : BitVec w} {p q : Nat} (h : x.toNat = 2 ^ p * (2 * q + 1)) :
    x &&& -x = BitVec.twoPow w p := by
  have hpow := Nat.two_pow_pos p
  have hsplit : 2 ^ p * (2 * q + 1) = 2 ^ p * (2 * q) + 2 ^ p := by ring
  have hpred : (x - 1).toNat = 2 ^ p * (2 * q) + (2 ^ p - 1) := by
    have hw : 0 < w := by
      by_contra hc
      obtain rfl : w = 0 := by omega
      omega
    have h1 : (1 : BitVec w).toNat = 1 := BitVec.toNat_one hw
    rw [BitVec.toNat_sub_of_le (by rw [BitVec.le_def, h1]; omega), h1]
    omega
  have hneg : -x = ~~~(x - 1) := by
    rw [BitVec.not_eq_neg_add, show (1#w : BitVec w) = 1 from rfl]
    ring
  rw [hneg]
  ext i hi
  rw [BitVec.getElem_and, BitVec.getElem_not, ← BitVec.getLsbD_eq_getElem, ← BitVec.getLsbD_eq_getElem,
    ← BitVec.getLsbD_eq_getElem, BitVec.getLsbD_twoPow, ← BitVec.testBit_toNat, ← BitVec.testBit_toNat, h, hpred,
    Nat.testBit_two_pow_mul, Nat.testBit_two_pow_mul_add _ (by omega)]
  rcases lt_trichotomy i p with hlt | rfl | hgt
  · simp [hlt, show ¬p ≤ i by omega, show p ≠ i by omega]
  · simp [hi, Nat.testBit_zero]
  · have hj : 1 ≤ i - p := by omega
    obtain ⟨j, hj⟩ : ∃ j, i - p = j + 1 := ⟨i - p - 1, by omega⟩
    simp [show ¬i < p by omega, show p ≠ i by omega, hj, Nat.testBit_add_one, show (2 * q + 1) / 2 = q by omega]

end Reciprocal
