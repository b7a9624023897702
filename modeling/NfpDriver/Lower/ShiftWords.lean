import NfpDriver.Library.Halves
import NfpDriver.Machine.Engine
import NfpDriver.Lower.Flags

namespace NfpDriver.Lower

open Adder Halves Machine BitVec

inductive ShiftOp where
  | lsh
  | rsh
  | arsh
  deriving DecidableEq, Repr

namespace ShiftOp

def value : ShiftOp → BitVec 64 → Nat → BitVec 64
  | lsh, v, n => v <<< n
  | rsh, v, n => v >>> n
  | arsh, v, n => v.sshiftRight n

def nearLow (op : ShiftOp) (s x y : BitVec 32) : BitVec 32 :=
  match op with
  | lsh => x <<< (s.toNat % 32)
  | rsh | arsh => funnel y x (s.toNat % 32)

def nearHigh (op : ShiftOp) (s x y : BitVec 32) : BitVec 32 :=
  match op with
  | lsh => funnel y x ((32 - s).toNat % 32)
  | rsh => y >>> (s.toNat % 32)
  | arsh => signFill (s ||| y).msb (s.toNat % 32) y

def amountAgain (op : ShiftOp) (same : Bool) (s x y : BitVec 32) : BitVec 32 :=
  match op with
  | lsh => s
  | rsh | arsh => if same then op.nearLow s x y else s

def farLow (op : ShiftOp) (s y : BitVec 32) : BitVec 32 :=
  match op with
  | lsh => 0
  | rsh => y >>> (s.toNat % 32)
  | arsh => signFill (s ||| y).msb (s.toNat % 32) y

def farHigh (op : ShiftOp) (s x y : BitVec 32) : BitVec 32 :=
  match op with
  | lsh => x <<< (s.toNat % 32)
  | rsh => 0
  | arsh => signFill (s ||| y).msb 31 y

end ShiftOp

theorem getLsbD_fill (n : Nat) {i : Nat} (hi : i < 32) :
    (~~~(BitVec.allOnes 32 >>> n)).getLsbD i = decide (32 ≤ n + i) := by
  rw [getLsbD_not, getLsbD_ushiftRight, getLsbD_allOnes, decide_eq_true hi, Bool.true_and, ← decide_not]
  simp only [Nat.not_lt]

theorem signFill_msb (y : BitVec 32) (n : Nat) : signFill y.msb n y = y.sshiftRight n := by
  apply eq_of_getLsbD_eq
  intro i hi
  rw [signFill, getLsbD_or, getLsbD_ushiftRight, getLsbD_sshiftRight, decide_eq_false (by omega)]
  cases y.msb with
  | false =>
    by_cases h : n + i < 32
    · simp [h]
    · simp [h, getLsbD_of_ge y (n + i) (by omega)]
  | true =>
    rw [if_pos rfl, getLsbD_fill n hi]
    by_cases h : n + i < 32
    · simp [h]
    · simp [h, show 32 ≤ n + i by omega]

theorem signFill_sign {sign : Bool} {y : BitVec 32} (h : sign = y.msb) (n : Nat) :
    signFill sign n y = y.sshiftRight n := by
  rw [h, signFill_msb]

theorem signFill_zero (sign : Bool) (y : BitVec 32) : signFill sign 0 y = y := by
  cases sign <;> simp [signFill]

theorem lo_mod (S : BitVec 64) : (lo S).toNat % 32 = S.toNat % 32 := by
  rw [lo_toNat]
  omega

theorem getLsbD_five (S : BitVec 64) : S.getLsbD 5 = decide (32 ≤ S.toNat % 64) := by
  rw [← testBit_toNat, Nat.testBit_eq_decide_div_mod_eq]
  congr 1
  apply propext
  omega

structure Exact (op : ShiftOp) (S : BitVec 64) (x y low high : BitVec 32) : Prop where
  low : low = lo (op.value (y ++ x) (S.toNat % 64))
  high : high = hi (op.value (y ++ x) (S.toNat % 64))

namespace ShiftOp

variable {S : BitVec 64} {x y : BitVec 32}

theorem nearLow_exact (op : ShiftOp) (hn : S.toNat % 64 < 32) :
    op.nearLow (lo S) x y = lo (op.value (y ++ x) (S.toNat % 64)) := by
  have hk := lo_mod S
  rw [show S.toNat % 32 = S.toNat % 64 by omega] at hk
  cases op with
  | lsh => rw [nearLow, value, hk, lo_shl]
  | rsh => rw [nearLow, value, hk, lo_shr]
  | arsh => rw [nearLow, value, hk, lo_sshr _ _ hn]

theorem nearHigh_lsh (hn : S.toNat % 64 < 32) (h0 : S.toNat % 64 ≠ 0) :
    lsh.nearHigh (lo S) x y = hi (lsh.value (y ++ x) (S.toNat % 64)) := by
  have hk : (32 - lo S).toNat % 32 = 32 - S.toNat % 64 := by
    have := lo_mod S
    rw [toNat_sub, show (32 : BitVec 32).toNat = 32 from rfl]
    omega
  rw [nearHigh, value, hk, hi_shl _ _ (by omega) hn]

theorem nearHigh_rsh {s : BitVec 32} (h : y >>> (s.toNat % 32) = y >>> (S.toNat % 64)) :
    rsh.nearHigh s x y = hi (rsh.value (y ++ x) (S.toNat % 64)) := by
  rw [nearHigh, value, hi_shr, h]

theorem nearHigh_arsh {s : BitVec 32} (h : signFill (s ||| y).msb (s.toNat % 32) y = y.sshiftRight (S.toNat % 64)) :
    arsh.nearHigh s x y = hi (arsh.value (y ++ x) (S.toNat % 64)) := by
  rw [nearHigh, value, hi_sshr, h]

theorem far_exact (op : ShiftOp) (hn : 32 ≤ S.toNat % 64) (hsign : op = arsh → (lo S ||| y).msb = y.msb) :
    Exact op S x y (op.farLow (lo S) y) (op.farHigh (lo S) x y) := by
  have hk := lo_mod S
  rw [show S.toNat % 32 = S.toNat % 64 - 32 by omega] at hk
  cases op with
  | lsh =>
    constructor
    · rw [farLow, value, lo_shl_far _ _ hn]
    · rw [farHigh, value, hi_shl_far _ _ hn, hk]
  | rsh =>
    constructor
    · rw [farLow, value, lo_shr, funnel_far _ _ hn, hk]
    · rw [farHigh, value, hi_shr, ushiftRight_eq_zero hn]
      rfl
  | arsh =>
    have hs := hsign rfl
    constructor
    · rw [farLow, value, lo_sshr_far _ _ hn, hk, signFill_sign hs]
    · rw [farHigh, value, hi_sshr, sshr_far _ (by omega), signFill_sign hs]

end ShiftOp

def farPath (u U : Nat) (S : BitVec 64) : Bool := if U < 32 then false else if 32 ≤ u then true else S.getLsbD 5

def outLow (op : ShiftOp) (far : Bool) (s x y : BitVec 32) : BitVec 32 :=
  if far then op.farLow s y else op.nearLow s x y

def outHigh (op : ShiftOp) (far same : Bool) (s x y : BitVec 32) : BitVec 32 :=
  if far then op.farHigh s x y else op.nearHigh (op.amountAgain same s x y) x y

def ExactOut (op : ShiftOp) (far same : Bool) (S : BitVec 64) (x y : BitVec 32) : Prop :=
  Exact op S x y (outLow op far (lo S) x y) (outHigh op far same (lo S) x y)

section Same

variable {S : BitVec 64}

theorem hi_eq_zero (h : S.toNat < 2 ^ 32) : hi S = 0 := by
  apply eq_of_toNat_eq
  rw [hi_toNat, Nat.div_eq_of_lt h]
  rfl

theorem rsh_again (hS : S.toNat ≤ 2 ^ 32) :
    hi S >>> ((funnel (hi S) (lo S) (S.toNat % 64)).toNat % 32) = hi S >>> (S.toNat % 64) := by
  by_cases h : S.toNat < 2 ^ 32
  · rw [hi_eq_zero h]
    simp
  · obtain rfl : S = 0x100000000 := eq_of_toNat_eq (show S.toNat = 2 ^ 32 by omega)
    decide

theorem arsh_again (hS : S.toNat < 2 ^ 31 + 32) (hn : S.toNat % 64 < 32) :
    signFill (funnel (hi S) (lo S) (S.toNat % 64) ||| hi S).msb
      ((funnel (hi S) (lo S) (S.toNat % 64)).toNat % 32) (hi S) = (hi S).sshiftRight (S.toNat % 64) := by
  by_cases h : S.toNat = 2 ^ 31
  · obtain rfl : S = 0x80000000 := eq_of_toNat_eq h
    decide
  have hhalf : S.toNat / 2 ^ (S.toNat % 64) < 2 ^ 31 := by
    by_cases h1 : S.toNat < 2 ^ 31
    · exact (Nat.div_le_self _ _).trans_lt h1
    · have hpow : 2 ^ 1 ≤ 2 ^ (S.toNat % 64) := Nat.pow_le_pow_right (by decide) (by omega)
      exact (Nat.div_le_div_left hpow (by decide)).trans_lt (by omega)
  have hsign : (funnel (hi S) (lo S) (S.toNat % 64) ||| hi S).msb = false := by
    rw [hi_eq_zero (by omega), funnel_low]
    change (_ ||| 0#32).msb = false
    rw [BitVec.or_zero, msb_eq_false_iff_two_mul_lt, toNat_ushiftRight, Nat.shiftRight_eq_div_pow,
      lo_toNat, Nat.mod_eq_of_lt (by omega)]
    omega
  rw [hsign, hi_eq_zero (by omega)]
  simp [signFill]

end Same

section Suffices

variable {op : ShiftOp} {same : Bool} {S : BitVec 64} {x y : BitVec 32}

section

variable (hn : S.toNat % 64 < 32)

include hn

theorem near_suffices (hhigh : op.nearHigh (op.amountAgain same (lo S) x y) x y =
    hi (op.value (y ++ x) (S.toNat % 64))) :
    ExactOut op false same S x y :=
  ⟨op.nearLow_exact hn, hhigh⟩

theorem near_lsh (h : S.toNat % 64 = 0 → x = y) : ExactOut .lsh false same S x y := by
  refine near_suffices hn ?_
  by_cases h0 : S.toNat % 64 = 0
  · have hk : (32 - lo S).toNat % 32 = 0 := by
      have := lo_mod S
      rw [toNat_sub, show (32 : BitVec 32).toNat = 32 from rfl]
      omega
    rw [ShiftOp.amountAgain, ShiftOp.nearHigh, ShiftOp.value, hk, funnel_zero, h0, shiftLeft_zero, hi_append, h h0]
  · exact ShiftOp.nearHigh_lsh hn h0

theorem near_rsh : ExactOut .rsh false false S x y := by
  refine near_suffices hn (ShiftOp.nearHigh_rsh ?_)
  change y >>> ((lo S).toNat % 32) = _
  rw [lo_mod, show S.toNat % 32 = S.toNat % 64 by omega]

theorem near_arsh (h : S.toNat ≤ 2 ^ 31) : ExactOut .arsh false false S x y := by
  refine near_suffices hn (ShiftOp.nearHigh_arsh ?_)
  change signFill (lo S ||| y).msb ((lo S).toNat % 32) y = _
  rw [lo_mod, show S.toNat % 32 = S.toNat % 64 by omega]
  by_cases h31 : S.toNat = 2 ^ 31
  · rw [show S.toNat % 64 = 0 by omega, signFill_zero, sshiftRight_zero]
  have hs : (lo S).msb = false := by
    rw [msb_eq_false_iff_two_mul_lt, lo_toNat]
    omega
  rw [signFill_sign (by rw [msb_or, hs, Bool.false_or])]

theorem near_rsh_same (h : S.toNat ≤ 2 ^ 32) : ExactOut .rsh false true S (lo S) (hi S) := by
  refine near_suffices hn (ShiftOp.nearHigh_rsh ?_)
  change hi S >>> ((funnel (hi S) (lo S) ((lo S).toNat % 32)).toNat % 32) = _
  rw [lo_mod, show S.toNat % 32 = S.toNat % 64 by omega]
  exact rsh_again h

theorem near_arsh_same (h : S.toNat < 2 ^ 31 + 32) :
    ExactOut .arsh false true S (lo S) (hi S) := by
  refine near_suffices hn (ShiftOp.nearHigh_arsh ?_)
  change signFill (funnel (hi S) (lo S) ((lo S).toNat % 32) ||| hi S).msb
    ((funnel (hi S) (lo S) ((lo S).toNat % 32)).toNat % 32) (hi S) = _
  rw [lo_mod, show S.toNat % 32 = S.toNat % 64 by omega]
  exact arsh_again h hn

end

end Suffices

end NfpDriver.Lower
