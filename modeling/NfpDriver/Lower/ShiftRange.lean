import NfpDriver.Lower.ShiftWords
import Mathlib.Tactic.IntervalCases

namespace NfpDriver.Lower

open Adder Halves Machine

def sameOk (u : Nat) : ShiftOp → Bool
  | .lsh => 32 ≤ u % 64
  | .rsh => 32 ≤ u % 64 || u < 2 ^ (u % 64)
  | .arsh => (32 ≤ u % 64 || u < 2 ^ (u % 64) || 2 ^ 64 ≤ u + 2 ^ (u % 64)) && (u.testBit 63 || !u.testBit 31)

def farOk (u : Nat) : Bool → ShiftOp → Bool
  | true, op => sameOk u op
  | false, .lsh => 32 ≤ u % 64
  | false, .rsh => 32 ≤ u % 64
  | false, .arsh => 32 ≤ u % 64 && !u.testBit 31

def crossOk (u U : Nat) : Bool → ShiftOp → Bool
  | false, .lsh => u ≠ 0 && U < 64
  | true, .lsh => U < 64
  | false, .rsh => true
  | true, .rsh => U ≤ 2 ^ 32
  | false, .arsh => U ≤ 2 ^ 31
  | true, .arsh => U < 2 ^ 31 + 32

def rangeOk (op : ShiftOp) (same : Bool) (u U : Nat) : Bool :=
  if U ≤ u then true
  else if U < 32 then op ≠ .lsh || same || u ≠ 0
  else if 32 ≤ u then u / 64 = U / 64 && farOk u same op
  else crossOk u U same op

variable {y x : BitVec 32} {n a b : Nat}

section Far

variable {S : BitVec 64}

theorem hi_msb_bit : (hi S).msb = S.toNat.testBit 63 := by
  rw [BitVec.msb_eq_getLsbD_last, getLsbD_hi _ (by decide), BitVec.testBit_toNat]

theorem lo_msb_bit : (lo S).msb = S.toNat.testBit 31 := by
  rw [BitVec.msb_eq_getLsbD_last, getLsbD_lo _ (by decide), BitVec.testBit_toNat]

theorem or_msb_iff {s : BitVec 32} : (s ||| y).msb = y.msb ↔ (y.msb || !s.msb) = true := by
  rw [BitVec.msb_or]
  cases s.msb <;> cases y.msb <;> decide

theorem signFill_iff {sign : Bool} (hn : 1 ≤ n) {m : Nat} : signFill sign n y = y.sshiftRight m → sign = y.msb := by
  intro h
  have hbit := congrArg (fun v => BitVec.getLsbD v 31) h
  simp only [signFill, BitVec.getLsbD_or, BitVec.getLsbD_ushiftRight, BitVec.getLsbD_sshiftRight] at hbit
  rw [BitVec.getLsbD_of_ge y (n + 31) (by omega), Bool.false_or] at hbit
  have hright : (!decide (32 ≤ 31) && if m + 31 < 32 then y.getLsbD (m + 31) else y.msb) = y.msb := by
    by_cases hm : m = 0
    · rw [hm, BitVec.msb_eq_getLsbD_last]
      rfl
    · rw [if_neg (by omega)]
      rfl
  rw [hright] at hbit
  rw [← hbit]
  cases sign with
  | false => exact BitVec.getLsbD_zero.symm
  | true => rw [if_pos rfl, getLsbD_fill n (by decide), decide_eq_true (by omega)]

theorem pair_self : hi S ++ lo S = S := ext_halves (lo_append _ _) (hi_append _ _)

theorem shl_self (h : x <<< (x.toNat % 32) = 0) : x = 0 := by
  have hlt := x.isLt
  have hk : x.toNat % 32 < 32 := Nat.mod_lt _ (by decide)
  have h0 := congrArg BitVec.toNat h
  rw [BitVec.toNat_shiftLeft, Nat.shiftLeft_eq, show (0 : BitVec 32).toNat = 0 from rfl] at h0
  apply BitVec.eq_of_toNat_eq
  rw [show (0 : BitVec 32).toNat = 0 from rfl]
  generalize x.toNat = a at hlt hk h0 ⊢
  obtain ⟨k, hka⟩ := @exists_eq' _ (a % 32)
  rw [hka] at h0 hk
  interval_cases k <;> omega

theorem far_same_lsh (h32 : 32 ≤ S.toNat) : ExactOut .lsh true true S (lo S) (hi S) ↔ 32 ≤ S.toNat % 64 := by
  constructor
  · intro h
    by_contra hn
    have hlow := h.low
    have hhigh := h.high
    rw [ShiftOp.value, lo_shl] at hlow
    have hx : lo S = 0 := by
      apply shl_self
      rw [lo_mod, show S.toNat % 32 = S.toNat % 64 by omega, ← hlow]
      rfl
    have hz : S.toNat % 64 = 0 := by
      have := lo_mod S
      rw [hx] at this
      change 0 % 32 = _ at this
      omega
    rw [ShiftOp.value, hz, BitVec.shiftLeft_zero, hi_append, hx] at hhigh
    have hy : hi S = 0 := by
      rw [← hhigh]
      rfl
    rw [← @pair_self S, hx, hy] at h32
    cases h32
  · intro hn
    exact ShiftOp.far_exact .lsh hn ShiftOp.noConfusion

theorem shr_eq_zero : S >>> n = 0 ↔ S.toNat < 2 ^ n := by
  rw [← BitVec.toNat_inj, BitVec.toNat_ushiftRight, Nat.shiftRight_eq_div_pow]
  exact Nat.div_eq_zero_iff_lt (Nat.two_pow_pos n)

theorem far_same_rsh : ExactOut .rsh true true S (lo S) (hi S) ↔ 32 ≤ S.toNat % 64 ∨ S.toNat < 2 ^ (S.toNat % 64) := by
  by_cases hn : 32 ≤ S.toNat % 64
  · simp only [hn, true_or, iff_true]
    exact ShiftOp.far_exact .rsh hn ShiftOp.noConfusion
  have hk := lo_mod S
  rw [show S.toNat % 32 = S.toNat % 64 by omega] at hk
  simp only [hn, false_or]
  rw [← shr_eq_zero]
  constructor
  · intro h
    have hhigh : hi (S >>> (S.toNat % 64)) = 0 := by
      have := h.high
      rw [pair_self] at this
      exact this.symm
    apply ext_halves
    · have hlow := h.low
      rw [pair_self] at hlow
      refine hlow.symm.trans ?_
      change hi S >>> ((lo S).toNat % 32) = 0
      rw [hk, ← hi_shr _ (lo S), pair_self, hhigh]
    · exact hhigh
  · intro h
    have hy : hi S >>> (S.toNat % 64) = 0 := by
      rw [← hi_shr _ (lo S), pair_self, h]
      rfl
    constructor
    · rw [pair_self, ShiftOp.value, h]
      change hi S >>> ((lo S).toNat % 32) = 0
      rw [hk, hy]
    · rw [pair_self, ShiftOp.value, h]
      rfl

theorem sshr_fill (y : BitVec 32) : y.sshiftRight 31 = if y.msb then BitVec.allOnes 32 else 0 := by
  apply BitVec.eq_of_getLsbD_eq
  intro i hi
  have hlast : ¬31 + i < 32 ∨ y.getLsbD (31 + i) = y.msb := by
    by_cases h0 : i = 0
    · rw [h0]
      exact .inr (BitVec.msb_eq_getLsbD_last y).symm
    · exact .inl (by omega)
  have hbit : (if 31 + i < 32 then y.getLsbD (31 + i) else y.msb) = y.msb := by
    split
    · next h => exact hlast.resolve_left (not_not.mpr h)
    · rfl
  rw [BitVec.getLsbD_sshiftRight, hbit, decide_eq_false (by omega)]
  cases y.msb with
  | false => exact BitVec.getLsbD_zero.symm
  | true => rw [if_pos rfl, BitVec.getLsbD_allOnes, decide_eq_true hi]; rfl

theorem sshr_flat :
    S.sshiftRight n = (if S.msb then BitVec.allOnes 64 else 0) ↔ S.toNat < 2 ^ n ∨ 2 ^ 64 ≤ S.toNat + 2 ^ n := by
  cases hm : S.msb with
  | false =>
    have hsmall := BitVec.msb_eq_false_iff_two_mul_lt.mp hm
    rw [BitVec.sshiftRight_eq_of_msb_false hm, if_neg Bool.false_ne_true, shr_eq_zero]
    omega
  | true =>
    have hbig := BitVec.msb_eq_true_iff_two_mul_ge.mp hm
    have hnot : BitVec.allOnes 64 = ~~~(0 : BitVec 64) := by decide
    rw [BitVec.sshiftRight_eq_of_msb_true hm, if_pos rfl, hnot, BitVec.not_inj, shr_eq_zero, BitVec.toNat_not]
    omega

theorem far_same_arsh : ExactOut .arsh true true S (lo S) (hi S) ↔
    (32 ≤ S.toNat % 64 ∨ S.toNat < 2 ^ (S.toNat % 64) ∨ 2 ^ 64 ≤ S.toNat + 2 ^ (S.toNat % 64)) ∧
      (lo S ||| hi S).msb = (hi S).msb := by
  by_cases hn : 32 ≤ S.toNat % 64
  · constructor
    · intro h
      refine ⟨.inl hn, ?_⟩
      have hhigh := h.high
      rw [ShiftOp.value, hi_sshr] at hhigh
      exact signFill_iff (by decide) hhigh
    · intro h
      exact ShiftOp.far_exact .arsh hn fun _ => h.2
  have hk := lo_mod S
  rw [show S.toNat % 32 = S.toNat % 64 by omega] at hk
  have hmsb : S.msb = (hi S).msb := by
    rw [← msb_pair (hi S) (lo S), pair_self]
  have hones : ∀ b : Bool, lo (if b then BitVec.allOnes 64 else 0) = (if b then BitVec.allOnes 32 else 0) ∧
      hi (if b then BitVec.allOnes 64 else 0) = (if b then BitVec.allOnes 32 else 0) := by decide
  simp only [hn, false_or]
  rw [← sshr_flat]
  constructor
  · intro h
    have hlow := h.low
    have hhigh := h.high
    have hsign : (lo S ||| hi S).msb = (hi S).msb := by
      rw [ShiftOp.value, hi_sshr] at hhigh
      exact signFill_iff (by decide) hhigh
    refine ⟨?_, hsign⟩
    change signFill (lo S ||| hi S).msb ((lo S).toNat % 32) (hi S) = _ at hlow
    change signFill (lo S ||| hi S).msb 31 (hi S) = _ at hhigh
    rw [ShiftOp.value, signFill_sign hsign, hk, ← hi_sshr (hi S) (lo S), pair_self] at hlow
    rw [ShiftOp.value, signFill_sign hsign, sshr_fill, pair_self] at hhigh
    apply ext_halves
    · rw [← hlow, ← hhigh, hmsb, (hones _).1]
    · rw [← hhigh, hmsb, (hones _).2]
  · rintro ⟨h, hsign⟩
    have hy : (hi S).sshiftRight (S.toNat % 64) = if (hi S).msb then BitVec.allOnes 32 else 0 := by
      rw [← hi_sshr (hi S) (lo S), pair_self, h, hmsb, (hones _).2]
    constructor
    · rw [pair_self, ShiftOp.value, h, hmsb, (hones _).1]
      change signFill (lo S ||| hi S).msb ((lo S).toNat % 32) (hi S) = _
      rw [signFill_sign hsign, hk, hy]
    · rw [pair_self, ShiftOp.value, h, hmsb, (hones _).2]
      change signFill (lo S ||| hi S).msb 31 (hi S) = _
      rw [signFill_sign hsign, sshr_fill]

theorem far_same_iff (op : ShiftOp) (h32 : 32 ≤ S.toNat) :
    ExactOut op true true S (lo S) (hi S) ↔ farOk S.toNat true op = true := by
  cases op with
  | lsh => rw [far_same_lsh h32, farOk, sameOk, decide_eq_true_eq]
  | rsh => rw [far_same_rsh, farOk, sameOk, Bool.or_eq_true, decide_eq_true_eq, decide_eq_true_eq]
  | arsh =>
    rw [far_same_arsh, or_msb_iff, hi_msb_bit, lo_msb_bit]
    simp [farOk, sameOk, or_assoc]

theorem top_bit_shr (hn : n < 32) : (0x80000000 : BitVec 32) >>> n ≠ 0 := by
  intro h
  have hz := congrArg BitVec.toNat h
  rw [BitVec.toNat_ushiftRight, Nat.shiftRight_eq_div_pow] at hz
  have hle : 2 ^ n ≤ 2 ^ 31 := Nat.pow_le_pow_right (by decide) (by omega)
  exact absurd hz (Nat.div_pos hle (Nat.two_pow_pos n)).ne'

theorem far_apart (op : ShiftOp) (h : ∀ x y, ExactOut op true false S x y) : 32 ≤ S.toNat % 64 := by
  by_contra hn
  cases op with
  | lsh =>
    have hlow := (h 1 0).low
    rw [ShiftOp.value, lo_shl] at hlow
    have hz := congrArg BitVec.toNat hlow
    rw [BitVec.toNat_shiftLeft, Nat.shiftLeft_eq, show (1 : BitVec 32).toNat = 1 from rfl, one_mul,
      Nat.mod_eq_of_lt (Nat.pow_lt_pow_right (by decide) (not_le.mp hn))] at hz
    exact absurd hz.symm (Nat.two_pow_pos _).ne'
  | rsh =>
    have hlow := (h 0x80000000 0).low
    rw [ShiftOp.value, lo_shr, funnel_low] at hlow
    refine top_bit_shr (not_le.mp hn) (hlow.symm.trans ?_)
    exact BitVec.zero_ushiftRight
  | arsh =>
    have hlow := (h 0x80000000 0).low
    have hhigh := (h 0x80000000 0).high
    rw [ShiftOp.value, hi_sshr] at hhigh
    have hsign := signFill_iff (by decide) hhigh
    rw [ShiftOp.value, lo_sshr _ _ (not_le.mp hn), funnel_low] at hlow
    refine top_bit_shr (not_le.mp hn) (hlow.symm.trans ?_)
    change signFill (lo S ||| 0).msb _ 0 = 0
    rw [signFill_sign hsign]
    exact BitVec.zero_sshiftRight

theorem far_iff (op : ShiftOp) : (∀ x y, ExactOut op true false S x y) ↔ farOk S.toNat false op = true := by
  have hfar : ∀ op : ShiftOp, op ≠ .arsh → ((∀ x y, ExactOut op true false S x y) ↔ 32 ≤ S.toNat % 64) := fun op hop =>
    ⟨far_apart op, fun hn x y => ShiftOp.far_exact op hn fun h => absurd h hop⟩
  cases op with
  | lsh => rw [hfar .lsh ShiftOp.noConfusion, farOk, decide_eq_true_eq]
  | rsh => rw [hfar .rsh ShiftOp.noConfusion, farOk, decide_eq_true_eq]
  | arsh =>
    rw [farOk, Bool.and_eq_true, decide_eq_true_eq, ← lo_msb_bit]
    constructor
    · intro h
      refine ⟨far_apart .arsh h, ?_⟩
      have hhigh := (h 0 0).high
      rw [ShiftOp.value, hi_sshr] at hhigh
      have hsign := or_msb_iff.mp (signFill_iff (by decide) hhigh)
      exact hsign
    · rintro ⟨hn, hs⟩ x y
      refine ShiftOp.far_exact .arsh hn fun _ => or_msb_iff.mpr ?_
      rw [hs, Bool.or_true]

end Far

section Ranges

variable {op : ShiftOp} {same : Bool} {S : BitVec 64}

theorem testBit_block {i : Nat} (hab : a / 64 = b / 64) (hi : 6 ≤ i) : a.testBit i = b.testBit i := by
  have hdiv : ∀ c : Nat, c.testBit i = (c / 64).testBit (i - 6) := by
    intro c
    rw [show 64 = 2 ^ 6 from rfl, Nat.testBit_div_two_pow]
    congr 1
    omega
  rw [hdiv a, hdiv b, hab]

theorem pow_mod_grows (hab : a / 64 = b / 64) (hle : a ≤ b) : 2 ^ (a % 64) + (b - a) ≤ 2 ^ (b % 64) := by
  have hb : b % 64 = a % 64 + (b - a) := by omega
  have h1 : b - a + 1 ≤ 2 ^ (b - a) := Nat.lt_two_pow_self
  have h2 : 1 ≤ 2 ^ (a % 64) := Nat.one_le_two_pow
  rw [hb, pow_add]
  calc 2 ^ (a % 64) + (b - a) ≤ 2 ^ (a % 64) + 2 ^ (a % 64) * (b - a) :=
        Nat.add_le_add_left (Nat.le_mul_of_pos_left _ h2) _
    _ = 2 ^ (a % 64) * (b - a + 1) := by ring
    _ ≤ 2 ^ (a % 64) * 2 ^ (b - a) := Nat.mul_le_mul_left _ h1

theorem farOk_mono (hab : a / 64 = b / 64) (hle : a ≤ b) (h : farOk a same op = true) : farOk b same op = true := by
  have h63 := testBit_block hab (show 6 ≤ 63 by decide)
  have h31 := testBit_block hab (show 6 ≤ 31 by decide)
  have hmod : 32 ≤ a % 64 → 32 ≤ b % 64 := by omega
  have hpow := pow_mod_grows hab hle
  have hsmall : a < 2 ^ (a % 64) → b < 2 ^ (b % 64) := by omega
  have hbig : 2 ^ 64 ≤ a + 2 ^ (a % 64) → 2 ^ 64 ≤ b + 2 ^ (b % 64) := by omega
  cases same with
  | true =>
    cases op with
    | lsh => simpa [farOk, sameOk] using hmod (by simpa [farOk, sameOk] using h)
    | rsh =>
      simp only [farOk, sameOk, Bool.or_eq_true, decide_eq_true_eq] at h ⊢
      exact h.imp hmod hsmall
    | arsh =>
      simp only [farOk, sameOk, Bool.and_eq_true, Bool.or_eq_true, decide_eq_true_eq, h63, h31] at h ⊢
      exact ⟨h.1.imp (Or.imp hmod hsmall) hbig, h.2⟩
  | false =>
    cases op with
    | lsh | rsh => simpa [farOk] using hmod (by simpa [farOk] using h)
    | arsh =>
      simp only [farOk, Bool.and_eq_true, decide_eq_true_eq, h31] at h ⊢
      exact ⟨hmod h.1, h.2⟩

theorem farOk_multiple (h64 : 64 ≤ a) (hlt : a < 2 ^ 64) (hz : a % 64 = 0) : farOk a same op = false := by
  have hsmall : decide (a < 2 ^ (a % 64)) = false := by
    rw [hz, decide_eq_false]
    omega
  have hbig : decide (2 ^ 64 ≤ a + 2 ^ (a % 64)) = false := by
    rw [hz, decide_eq_false]
    omega
  have hnear : decide (32 ≤ a % 64) = false := by rw [hz]; rfl
  cases same <;> cases op <;> simp only [farOk, sameOk, hsmall, hbig, hnear, Bool.or_self, Bool.false_and]

def Ranged (op : ShiftOp) (same : Bool) (u U : BitVec 64) : Prop :=
  ∀ S x y, u ≤ S → S ≤ U → (same = true → x = lo S ∧ y = hi S) → ExactOut op (farPath u.toNat U.toNat S) same S x y

variable {lower upper : BitVec 64}

theorem exact_at_far (hu : 32 ≤ S.toNat) :
    (∀ x y, (same = true → x = lo S ∧ y = hi S) → ExactOut op true same S x y) ↔ farOk S.toNat same op = true := by
  cases same with
  | true =>
    rw [← far_same_iff op hu]
    constructor
    · intro h
      exact h _ _ fun _ => ⟨rfl, rfl⟩
    · intro h x y hxy
      obtain ⟨rfl, rfl⟩ := hxy rfl
      exact h
  | false =>
    rw [← far_iff op]
    constructor
    · intro h x y
      exact h x y Bool.noConfusion
    · intro h x y _
      exact h x y

theorem ranged_far (hlt : lower < upper) (hlow : 32 ≤ lower.toNat) :
    Ranged op same lower upper ↔ lower.toNat / 64 = upper.toNat / 64 ∧ farOk lower.toNat same op = true := by
  have hlt' : lower.toNat < upper.toNat := hlt
  have hpath : ∀ S, farPath lower.toNat upper.toNat S = true := fun S => by
    rw [farPath, if_neg (by omega), if_pos hlow]
  have hat : ∀ S : BitVec 64, 32 ≤ S.toNat →
      ((∀ x y, (same = true → x = lo S ∧ y = hi S) →
        ExactOut op (farPath lower.toNat upper.toNat S) same S x y) ↔ farOk S.toNat same op = true) := by
    intro S hS
    rw [hpath S]
    exact exact_at_far hS
  constructor
  · intro h
    refine ⟨?_, (hat lower hlow).mp fun x y => h lower x y (BitVec.le_refl _) (BitVec.le_of_lt hlt)⟩
    by_contra hne
    obtain ⟨S, hS⟩ : ∃ S : BitVec 64, S.toNat = 64 * (lower.toNat / 64 + 1) := by
      exact ⟨BitVec.ofNat 64 (64 * (lower.toNat / 64 + 1)), by rw [BitVec.toNat_ofNat]; omega⟩
    have hfar := (hat S (by omega)).mp fun x y =>
      h S x y (BitVec.le_def.mpr (by omega)) (BitVec.le_def.mpr (by omega))
    rw [farOk_multiple (by omega) S.isLt (by omega)] at hfar
    exact Bool.false_ne_true hfar
  · rintro ⟨hblock, hok⟩ S x y h1 h2 hxy
    have h1' : lower.toNat ≤ S.toNat := h1
    have h2' : S.toNat ≤ upper.toNat := h2
    exact (hat S (by omega)).mpr (farOk_mono (by omega) h1' hok) x y hxy

theorem exact_of_cross (h : crossOk S.toNat S.toNat same op = true) (hxy : same = true → x = lo S ∧ y = hi S) :
    ExactOut op (S.getLsbD 5) same S x y := by
  rw [getLsbD_five]
  by_cases hn : 32 ≤ S.toNat % 64
  · rw [decide_eq_true hn]
    refine ShiftOp.far_exact op hn ?_
    rintro rfl
    have hS : S.toNat < 2 ^ 31 := by
      cases same <;> simp only [crossOk, decide_eq_true_eq] at h <;> omega
    have hs : (lo S).msb = false := by
      rw [BitVec.msb_eq_false_iff_two_mul_lt, lo_toNat]
      omega
    rw [BitVec.msb_or, hs, Bool.false_or]
  rw [decide_eq_false hn]
  have hn' := not_le.mp hn
  cases same with
  | false =>
    cases op with
    | lsh =>
      simp only [crossOk, ne_eq, decide_not, Bool.and_eq_true, Bool.not_eq_true', decide_eq_false_iff_not,
        decide_eq_true_eq] at h
      exact near_lsh hn' (by omega)
    | rsh => exact near_rsh hn'
    | arsh =>
      simp only [crossOk, decide_eq_true_eq] at h
      exact near_arsh hn' h
  | true =>
    obtain ⟨rfl, rfl⟩ := hxy rfl
    simp only [crossOk] at h
    cases op with
    | lsh =>
      simp only [decide_eq_true_eq] at h
      refine near_lsh hn' fun hz => ?_
      obtain rfl : S = 0 := BitVec.eq_of_toNat_eq (show S.toNat = 0 by omega)
      rfl
    | rsh =>
      simp only [decide_eq_true_eq] at h
      exact near_rsh_same hn' h
    | arsh =>
      simp only [decide_eq_true_eq] at h
      exact near_arsh_same hn' h

theorem crossOk_at {u U : Nat} (h : crossOk u U same op = true) (h1 : u ≤ a) (h2 : a ≤ U) :
    crossOk a a same op = true := by
  cases same <;> cases op <;>
    simp only [crossOk, ne_eq, decide_not, Bool.and_eq_true, Bool.not_eq_true', decide_eq_false_iff_not,
      decide_eq_true_eq] at h ⊢ <;> omega

theorem farPath_near (hlow : lower.toNat < 32) (h2 : S ≤ upper) : farPath lower.toNat upper.toNat S = S.getLsbD 5 := by
  have h2' : S.toNat ≤ upper.toNat := h2
  rw [farPath]
  split
  · rw [getLsbD_five, decide_eq_false (by omega)]
  · rw [if_neg (by omega)]

theorem ranged_of_cross (hlow : lower.toNat < 32)
    (h : ∀ S, lower ≤ S → S ≤ upper → crossOk S.toNat S.toNat same op = true) : Ranged op same lower upper := by
  intro S x y h1 h2 hxy
  rw [farPath_near hlow h2]
  exact exact_of_cross (h S h1 h2) hxy

theorem Ranged.fails (h : Ranged op same lower upper) (hlow : lower.toNat < 32) (h1 : lower.toNat ≤ S.toNat)
    (hxy : same = true → x = lo S ∧ y = hi S)
    (hbad : outHigh op (S.getLsbD 5) same (lo S) x y ≠ hi (op.value (y ++ x) (S.toNat % 64))) :
    upper.toNat < S.toNat := by
  by_contra h2
  have hS : S ≤ upper := not_lt.mp h2
  have hex := h S x y h1 hS hxy
  rw [farPath_near hlow hS] at hex
  exact hbad hex.high

theorem ranged_near (hlt : lower < upper) (hup : upper.toNat < 32) :
    Ranged op same lower upper ↔ (op ≠ .lsh || same || lower.toNat ≠ 0) = true := by
  have hlt' : lower.toNat < upper.toNat := hlt
  constructor
  · intro h
    by_contra hc
    simp only [ne_eq, decide_not, Bool.or_eq_true, Bool.not_eq_true', decide_eq_false_iff_not, not_or, not_not,
      Bool.not_eq_true] at hc
    obtain ⟨⟨rfl, rfl⟩, hz⟩ := hc
    have := h.fails (S := 0) (x := 1) (y := 0) (by omega) (by rw [hz]; decide)
      (Bool.noConfusion) (by decide)
    exact absurd this (Nat.not_lt_zero _)
  · intro h
    refine ranged_of_cross (by omega) fun S h1 h2 => ?_
    have h1' : lower.toNat ≤ S.toNat := h1
    have h2' : S.toNat ≤ upper.toNat := h2
    cases same <;> cases op <;> simp [crossOk] at h ⊢ <;> omega

theorem ranged_cross (hlow : lower.toNat < 32) :
    Ranged op same lower upper ↔ crossOk lower.toNat upper.toNat same op = true := by
  constructor
  · intro h
    have hfree : ∀ {p : Prop}, false = true → p := Bool.noConfusion
    cases same with
    | false =>
      cases op with
      | lsh =>
        have h64 := h.fails (S := 64) (x := 1) (y := 0) hlow (le_trans (by omega) (by decide : 32 ≤ _)) hfree
            (by decide)
        have hz : lower.toNat ≠ 0 := fun hz => by
          have := h.fails (S := 0) (x := 1) (y := 0) hlow (by rw [hz]; decide) hfree (by decide)
          exact absurd this (Nat.not_lt_zero _)
        simp only [crossOk, ne_eq, decide_not, Bool.and_eq_true, Bool.not_eq_true', decide_eq_false_iff_not,
          decide_eq_true_eq]
        exact ⟨hz, h64⟩
      | rsh => rfl
      | arsh =>
        have hbig := h.fails (S := 0x80000001) (x := 0) (y := 0) hlow (le_trans (by omega) (by decide : 32 ≤ _)) hfree
          (by decide)
        rw [crossOk, decide_eq_true_eq]
        exact Nat.lt_succ_iff.mp hbig
    | true =>
      cases op with
      | lsh =>
        have h64 := h.fails (S := 64) hlow (le_trans (by omega) (by decide : 32 ≤ _)) (fun _ => ⟨rfl, rfl⟩) (by decide)
        exact decide_eq_true h64
      | rsh =>
        have hbig := h.fails (S := 0x100000001) hlow (le_trans (by omega) (by decide : 32 ≤ _)) (fun _ => ⟨rfl, rfl⟩)
          (by decide)
        exact decide_eq_true (Nat.lt_succ_iff.mp hbig)
      | arsh =>
        have hbig := h.fails (S := 0x80000020) hlow (le_trans (by omega) (by decide : 32 ≤ _)) (fun _ => ⟨rfl, rfl⟩)
          (by decide)
        exact decide_eq_true hbig
  · intro h
    exact ranged_of_cross hlow fun S h1 h2 => crossOk_at h h1 h2

theorem ranged_iff (hlt : lower < upper) :
    Ranged op same lower upper ↔ rangeOk op same lower.toNat upper.toNat = true := by
  have hlt' : lower.toNat < upper.toNat := hlt
  rw [rangeOk, if_neg (by omega)]
  split
  · next h => exact ranged_near hlt h
  next h =>
  split
  · next h32 => rw [ranged_far hlt h32, Bool.and_eq_true, decide_eq_true_eq]
  · next h32 => exact ranged_cross (by omega)

end Ranges

end NfpDriver.Lower
