import Mathlib.Data.BitVec
import Mathlib.Tactic.Ring

namespace Adder

open BitVec

structure Result (w : Nat) where
  sum : BitVec w
  carry : Bool
  overflow : Bool
  deriving DecidableEq

def adc {w : Nat} (x y : BitVec w) (c : Bool) : Result w where
  sum := x + y + (BitVec.ofBool c).setWidth w
  carry := decide (2 ^ w ≤ x.toNat + y.toNat + c.toNat)
  overflow := x.msb == y.msb && (x + y + (BitVec.ofBool c).setWidth w).msb != x.msb

def lo (v : BitVec 64) : BitVec 32 := v.extractLsb' 0 32

def hi (v : BitVec 64) : BitVec 32 := v.extractLsb' 32 32

theorem lo_toNat (v : BitVec 64) : (lo v).toNat = v.toNat % 2 ^ 32 := by
  simp [lo]

theorem hi_toNat (v : BitVec 64) : (hi v).toNat = v.toNat / 2 ^ 32 := by
  simp only [hi, extractLsb'_toNat, Nat.shiftRight_eq_div_pow]
  omega

theorem ext_halves {v u : BitVec 64} (hl : lo v = lo u) (hh : hi v = hi u) : v = u := by
  apply eq_of_toNat_eq
  have h1 := congrArg BitVec.toNat hl
  have h2 := congrArg BitVec.toNat hh
  rw [lo_toNat, lo_toNat] at h1
  rw [hi_toNat, hi_toNat] at h2
  omega

variable {w : Nat}

theorem carryIn_toNat (c : Bool) (hw : 0 < w) : ((BitVec.ofBool c).setWidth w).toNat = c.toNat := by
  have h2 : 2 ≤ 2 ^ w := by
    calc 2 = 2 ^ 1 := rfl
      _ ≤ 2 ^ w := Nat.pow_le_pow_right (by decide) hw
  simp only [toNat_setWidth, toNat_ofBool]
  cases c
  · simp
  · exact Nat.mod_eq_of_lt (by simp only [Bool.toNat_true]; omega)

theorem adc_sum_toNat (hw : 0 < w) (x y : BitVec w) (c : Bool) :
    (adc x y c).sum.toNat = (x.toNat + y.toNat + c.toNat) % 2 ^ w := by
  simp only [adc, toNat_add, carryIn_toNat c hw, Nat.mod_add_mod]

theorem adc_halves_sum (x y : BitVec 64) (c : Bool) :
    lo (adc x y c).sum = (adc (lo x) (lo y) c).sum ∧
      hi (adc x y c).sum = (adc (hi x) (hi y) (adc (lo x) (lo y) c).carry).sum := by
  have hc : c.toNat ≤ 1 := by cases c <;> decide
  constructor
  · apply eq_of_toNat_eq
    rw [lo_toNat, adc_sum_toNat (by decide), adc_sum_toNat (by decide), lo_toNat, lo_toNat]
    omega
  · apply eq_of_toNat_eq
    rw [hi_toNat, adc_sum_toNat (by decide), adc_sum_toNat (by decide), hi_toNat, hi_toNat]
    simp only [adc, lo_toNat]
    by_cases h : 2 ^ 32 ≤ x.toNat % 2 ^ 32 + y.toNat % 2 ^ 32 + c.toNat
    · simp only [h, decide_true, Bool.toNat_true]
      omega
    · simp only [h, decide_false, Bool.toNat_false]
      omega

theorem adc_halves_carry (x y : BitVec 64) (c : Bool) :
    (adc (hi x) (hi y) (adc (lo x) (lo y) c).carry).carry = (adc x y c).carry := by
  have hc : c.toNat ≤ 1 := by cases c <;> decide
  simp only [adc, lo_toNat, hi_toNat]
  congr 1
  by_cases h : 2 ^ 32 ≤ x.toNat % 2 ^ 32 + y.toNat % 2 ^ 32 + c.toNat
  · simp only [h, decide_true, Bool.toNat_true]
    rw [eq_iff_iff]
    omega
  · simp only [h, decide_false, Bool.toNat_false]
    rw [eq_iff_iff]
    omega

theorem hi_msb (v : BitVec 64) : (hi v).msb = v.msb := by
  rw [msb_eq_decide, msb_eq_decide, hi_toNat]
  congr 1
  rw [eq_iff_iff]
  omega

theorem adc_halves_overflow (x y : BitVec 64) (c : Bool) :
    (adc (hi x) (hi y) (adc (lo x) (lo y) c).carry).overflow = (adc x y c).overflow := by
  have h := (adc_halves_sum x y c).2
  simp only [adc] at h ⊢
  rw [hi_msb, hi_msb, ← h, hi_msb]

theorem toInt_eq (x : BitVec w) : x.toInt = x.toNat - (if x.msb then 2 ^ w else 0 : Int) := by
  rw [toInt_eq_msb_cond]
  split <;> simp

theorem adc_sum_carry (hw : 0 < w) (x y : BitVec w) (c : Bool) :
    (adc x y c).sum.toNat + (if (adc x y c).carry then 2 ^ w else 0) = x.toNat + y.toNat + c.toNat := by
  have hc : c.toNat ≤ 1 := by cases c <;> decide
  rw [adc_sum_toNat hw]
  simp only [adc, decide_eq_true_eq]
  by_cases h : 2 ^ w ≤ x.toNat + y.toNat + c.toNat
  · rw [if_pos h, Nat.mod_eq_sub_mod h, Nat.mod_eq_of_lt (by omega)]
    omega
  · rw [if_neg h, Nat.mod_eq_of_lt (by omega)]
    rfl

theorem neg_ne_overflow (hw : 0 < w) (x y : BitVec w) (c : Bool) :
    ((adc x y c).sum.msb != (adc x y c).overflow) = decide (x.toInt + y.toInt + c.toNat < 0) := by
  have hs := adc_sum_carry hw x y c
  have hsl := (adc x y c).sum.isLt
  have hov : (adc x y c).overflow = (x.msb == y.msb && (adc x y c).sum.msb != x.msb) := rfl
  have hx := x.isLt
  have hy := y.isLt
  have hc : c.toNat ≤ 1 := by cases c <;> decide
  have hm : ∀ v : BitVec w, v.msb = decide (2 ^ (w - 1) ≤ v.toNat) := fun v => msb_eq_decide v
  have hp : 2 ^ w = 2 * 2 ^ (w - 1) := by
    rw [← Nat.pow_succ', Nat.succ_eq_add_one, Nat.sub_add_cancel hw]
  rw [hov, toInt_eq, toInt_eq]
  simp only [hm]
  have hcast : ((2 : Int) ^ w) = 2 * ((2 ^ (w - 1) : Nat) : Int) := by
    exact_mod_cast hp
  generalize (2 ^ (w - 1) : Nat) = h at *
  generalize (adc x y c).sum.toNat = z at *
  generalize x.toNat = a at *
  generalize y.toNat = b at *
  by_cases h1 : h ≤ a <;> by_cases h2 : h ≤ b <;> by_cases h3 : h ≤ z <;>
    simp only [h1, h2, h3, decide_true, decide_false, if_true, if_false, Bool.false_eq_true,
      beq_self_eq_true, bne_self_eq_false, Bool.and_false, Bool.true_and] <;>
    cases hcar : (adc x y c).carry <;> simp only [hcar, if_true, if_false, Bool.false_eq_true] at hs <;>
    simp <;> omega

theorem sub_sum (x y : BitVec w) : (adc x (~~~y) true).sum = x - y := by
  have h1 : (ofBool true).setWidth w = 1#w := by
    apply eq_of_toNat_eq
    simp
  simp only [adc, h1]
  rw [BitVec.add_assoc, ← neg_eq_not_add, BitVec.sub_eq_add_neg]

theorem add_sum (x y : BitVec w) : (adc x y false).sum = x + y := by
  have h0 : (ofBool false).setWidth w = 0#w := by
    simp
  simp only [adc, h0, BitVec.add_zero]

theorem sub_carry (x y : BitVec w) : (adc x (~~~y) true).carry = !x.ult y := by
  simp only [adc, toNat_not, Bool.toNat_true, BitVec.ult, ← decide_not]
  congr 1
  rw [eq_iff_iff]
  omega

theorem toInt_not (hw : 0 < w) (y : BitVec w) : (~~~y).toInt = - y.toInt - 1 := by
  have hp : 2 ^ w = 2 * 2 ^ (w - 1) := by
    rw [← Nat.pow_succ', Nat.succ_eq_add_one, Nat.sub_add_cancel hw]
  have hcast : ((2 : Int) ^ w) = ((2 ^ w : Nat) : Int) := by norm_cast
  rw [toInt_eq, toInt_eq, toNat_not, msb_eq_decide, msb_eq_decide, toNat_not, hcast]
  by_cases h : 2 ^ (w - 1) ≤ y.toNat
  · rw [decide_eq_true h, decide_eq_false (by omega)]
    simp only [if_true, Bool.false_eq_true, if_false]
    omega
  · rw [decide_eq_false h, decide_eq_true (by omega)]
    simp only [if_true, Bool.false_eq_true, if_false]
    omega

theorem sub_less (hw : 0 < w) (x y : BitVec w) :
    ((adc x (~~~y) true).sum.msb != (adc x (~~~y) true).overflow) = x.slt y := by
  rw [neg_ne_overflow hw, toInt_not hw, BitVec.slt]
  congr 1
  rw [eq_iff_iff, Bool.toNat_true]
  omega

theorem add_neg_carry {y : BitVec w} (hy : y ≠ 0) (x : BitVec w) : (adc x (-y) false).carry = !x.ult y := by
  have hpos : y.toNat ≠ 0 := fun h => hy (eq_of_toNat_eq (by simpa using h))
  simp only [adc, toNat_neg, Bool.toNat_false, BitVec.ult, ← decide_not]
  rw [Nat.mod_eq_of_lt (by omega)]
  congr 1
  rw [eq_iff_iff]
  omega

theorem add_neg_less (hw : 0 < w) {y : BitVec w} (hy : y ≠ BitVec.intMin w) (x : BitVec w) :
    ((adc x (-y) false).sum.msb != (adc x (-y) false).overflow) = x.slt y := by
  rw [neg_ne_overflow hw, toInt_neg_of_ne_intMin hy, BitVec.slt]
  congr 1
  rw [eq_iff_iff, Bool.toNat_false]
  omega

end Adder
