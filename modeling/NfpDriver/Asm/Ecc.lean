import NfpDriver.Library.Fields
import NfpDriver.Library.ParityCode

namespace NfpDriver.Asm

open Fields ParityCode BitVec List

abbrev ustoreEccPolyWords : Nat := 7
abbrev ustoreOpBits : Nat := 45

def ustoreEccPolynomials : List Word :=
  [0x0ff800007fff, 0x11f801ff801f, 0x1e387e0781e1, 0x17cb8e388e22, 0x1af5b2c93244, 0x1f56d5525488, 0x0daf69a46910]

def eccPoly (i : Nat) : Word := ustoreEccPolynomials.getD i 0

def hweight64 (x : Word) : Nat := (List.range 64).countP x.getLsbD

def parity (value : Word) : Bool := hweight64 value % 2 = 1

def ustoreCheckValidNoEcc (insn : Word) : Int := if insn &&& ~~~genmaskUll ustoreOpBits 0 ≠ 0 then -22 else 0

def calcEcc (insn : Word) : BitVec 8 :=
  (List.range ustoreEccPolyWords).foldl (fun ecc i =>
    ecc ||| (BitVec.ofBool (parity (eccPoly i &&& insn))).setWidth 8 <<< i) 0

def ustoreCalcEccInsn (insn : Word) : Word := insn ||| (calcEcc insn).setWidth 64 <<< ustoreOpBits

structure Separate (insn : Word) : Prop where
  op : ((ustoreCalcEccInsn insn).extractLsb' 0 45).setWidth 64 = insn
  ecc : ((ustoreCalcEccInsn insn).extractLsb' 45 7).setWidth 8 = calcEcc insn
  rest : (ustoreCalcEccInsn insn).extractLsb' 52 12 = 0

section Bits

theorem getLsbD_foldBits (p : Nat → Bool) {n : Nat} (hn : n ≤ 8) (i : Nat) :
    ((List.range n).foldl (fun ecc k => ecc ||| (BitVec.ofBool (p k)).setWidth 8 <<< k) (0 : BitVec 8)).getLsbD i =
      (decide (i < n) && p i) := by
  induction n with
  | zero => simp
  | succ n ih =>
    rw [range_succ, foldl_append, foldl_cons, foldl_nil, getLsbD_or, ih (by omega),
      getLsbD_shiftLeft, getLsbD_setWidth, getLsbD_ofBool]
    rcases Nat.lt_trichotomy i n with h | rfl | h
    · simp [h, show i < n + 1 by omega]
    · simp [show i < 8 by omega]
    · simp [show ¬ i < n by omega, show ¬ i < n + 1 by omega, show i - n ≠ 0 by omega]

theorem getLsbD_calcEcc (insn : Word) (i : Nat) :
    (calcEcc insn).getLsbD i = (decide (i < 7) && parity (eccPoly i &&& insn)) :=
  getLsbD_foldBits (fun i => parity (eccPoly i &&& insn)) (by decide) i

theorem getLsbD_calcEccInsn (insn : Word) {i : Nat} (hi : i < 64) :
    (ustoreCalcEccInsn insn).getLsbD i =
      (insn.getLsbD i || (decide (45 ≤ i ∧ i < 52) && parity (eccPoly (i - 45) &&& insn))) := by
  rw [ustoreCalcEccInsn, getLsbD_or, getLsbD_shiftLeft, getLsbD_setWidth, getLsbD_calcEcc]
  rcases lt_or_ge i 45 with h | h
  · simp [h, show ¬ 45 ≤ i by omega]
  · simp [hi, h, show ¬ i < 45 by omega, show i - 45 < 64 by omega, show i - 45 < 7 ↔ i < 52 by omega]

theorem ustoreCheckValid_iff (insn : Word) : ustoreCheckValidNoEcc insn = 0 ↔ ∀ i, 46 ≤ i → insn.getLsbD i = false := by
  have hbits : insn &&& ~~~genmaskUll ustoreOpBits 0 = 0 ↔ ∀ i, 46 ≤ i → insn.getLsbD i = false := by
    have hbit : ∀ i, (insn &&& ~~~genmaskUll ustoreOpBits 0).getLsbD i =
        (insn.getLsbD i && decide (46 ≤ i ∧ i < 64)) := by
      intro i
      rw [getLsbD_and, getLsbD_not, getLsbD_genmaskUll (by decide), ← decide_not, ← Bool.decide_and]
      congr 2
      rw [eq_iff_iff]
      change i < 64 ∧ ¬ (0 ≤ i ∧ i ≤ 45) ↔ _
      omega
    constructor
    · intro h i hi
      rcases lt_or_ge i 64 with h64 | h64
      · have hz := hbit i
        rw [h, decide_eq_true ⟨hi, h64⟩, Bool.and_true] at hz
        exact hz.symm.trans getLsbD_zero
      · exact getLsbD_of_ge insn i h64
    · intro h
      refine eq_of_getLsbD_eq fun i hi => ?_
      refine (hbit i).trans (Eq.trans ?_ getLsbD_zero.symm)
      rcases lt_or_ge i 46 with hlt | hge
      · rw [decide_eq_false (by omega), Bool.and_false]
      · rw [h i hge, Bool.false_and]
  rw [← hbits, ustoreCheckValidNoEcc]
  split
  case isTrue h => exact iff_of_false (by decide) h
  case isFalse h => exact iff_of_true rfl (not_not.mp h)

end Bits

theorem separate_iff (insn : Word) (h : ustoreCheckValidNoEcc insn = 0) : Separate insn ↔ insn.getLsbD 45 = false := by
  have hvalid := (ustoreCheckValid_iff insn).mp h
  constructor
  · intro hs
    have hbit := congrArg (BitVec.getLsbD · 45) hs.op
    simpa using hbit.symm
  · intro h45
    have hhigh : ∀ i, 45 ≤ i → insn.getLsbD i = false := by
      intro i hi
      rcases Nat.eq_or_lt_of_le hi with rfl | hlt
      · exact h45
      · exact hvalid i hlt
    refine ⟨eq_of_getLsbD_eq fun i hi => ?_, eq_of_getLsbD_eq fun i hi => ?_, eq_of_getLsbD_eq fun i hi => ?_⟩
    · rw [getLsbD_setWidth, getLsbD_extractLsb', zero_add, getLsbD_calcEccInsn insn hi]
      rcases lt_or_ge i 45 with hlt | hge
      · simp [hi, hlt, show ¬ 45 ≤ i by omega]
      · simp [show ¬ i < 45 by omega, hhigh i hge]
    · rw [getLsbD_setWidth, getLsbD_extractLsb', getLsbD_calcEccInsn insn (show 45 + i < 64 by omega),
        hhigh _ (by omega), getLsbD_calcEcc]
      simp [hi, show 45 + i < 52 ↔ i < 7 by omega]
    · rw [getLsbD_extractLsb', getLsbD_calcEccInsn insn (show 52 + i < 64 by omega), hhigh _ (by omega)]
      simp

theorem nop_separate : ustoreCheckValidNoEcc 0x0f0000000 = 0 ∧ Separate 0x0f0000000 :=
  ⟨by decide, (separate_iff 0x0f0000000 (by decide)).mpr (by decide)⟩

theorem bit45_overwrites_ecc : ustoreCheckValidNoEcc 0x200000000000 = 0 ∧ ¬ Separate 0x200000000000 :=
  ⟨by decide, fun h => absurd h.op (by decide)⟩

section Distance

def gf2 (b : Bool) : ZMod 2 := if b then 1 else 0

theorem gf2_inj {a b : Bool} : gf2 a = gf2 b ↔ a = b := by
  decide +revert

def word (insn : BitVec 45) (j : Fin 45) : ZMod 2 := gf2 (insn.getLsbD j)

def column (j : Fin 45) (k : Fin 7) : ZMod 2 := gf2 ((eccPoly k).getLsbD j)

theorem gf2_parity (x : Word) : gf2 (parity x) = (hweight64 x : ZMod 2) := by
  rw [gf2, parity]
  split
  case isTrue h => exact (ZMod.natCast_eq_one_iff_odd.mpr (Nat.odd_iff.mpr (of_decide_eq_true h))).symm
  case isFalse h =>
    have heven : hweight64 x % 2 = 0 := by
      have hne : ¬ hweight64 x % 2 = 1 := fun h1 => h (decide_eq_true h1)
      omega
    exact (ZMod.natCast_eq_zero_iff_even.mpr (Nat.even_iff.mpr heven)).symm

theorem countP_range (p : Nat → Bool) (n : Nat) : (List.range n).countP p = ∑ i : Fin n, if p i then 1 else 0 := by
  induction n with
  | zero => rfl
  | succ n ih =>
    rw [range_succ, countP_append, ih, Fin.sum_univ_castSucc, countP_singleton]
    rfl

theorem hweight64_split (x : Word) :
    hweight64 x = (∑ j : Fin 45, if x.getLsbD j then 1 else 0) + (∑ k : Fin 7, if x.getLsbD (45 + k) then 1 else 0) +
      ∑ k : Fin 12, if x.getLsbD (52 + k) then 1 else 0 := by
  have hrange : range 64 = range 45 ++ (range 7).map (45 + ·) ++ (range 12).map (52 + ·) := by
    rw [← range_add, ← range_add]
  rw [hweight64, hrange, countP_append, countP_append, countP_map, countP_map, countP_range, countP_range, countP_range]
  rfl

variable (a b : BitVec 45)

theorem getLsbD_op (i : Nat) : (a.setWidth 64).getLsbD i = a.getLsbD i := by
  rw [getLsbD_setWidth]
  rcases lt_or_ge i 64 with h | h
  · rw [decide_eq_true h, Bool.true_and]
  · rw [getLsbD_of_ge a i (by omega), Bool.and_false]

theorem syndrome_word (k : Fin 7) : syndrome column (word a) k = gf2 (parity (eccPoly k &&& a.setWidth 64)) := by
  have hlow : ∀ i, (eccPoly k &&& a.setWidth 64).getLsbD i = ((eccPoly k).getLsbD i && a.getLsbD i) := by
    intro i
    rw [getLsbD_and, getLsbD_op]
  have hhigh : ∀ i, 45 ≤ i → (eccPoly k &&& a.setWidth 64).getLsbD i = false := by
    intro i hi
    rw [hlow, getLsbD_of_ge a i hi, Bool.and_false]
  rw [gf2_parity, hweight64_split]
  simp only [hhigh _ (Nat.le_add_right 45 _), hhigh (52 + _) (le_trans (by decide) (Nat.le_add_right 52 _)), hlow]
  simp only [Bool.false_eq_true, if_false, Finset.sum_const_zero, add_zero, Nat.cast_sum, syndrome, word, column]
  refine Finset.sum_congr rfl fun j _ => ?_
  cases (eccPoly k).getLsbD j <;> cases a.getLsbD j <;> simp [gf2]

theorem xor_low (j : Fin 45) :
    (ustoreCalcEccInsn (a.setWidth 64) ^^^ ustoreCalcEccInsn (b.setWidth 64)).getLsbD j =
      (a.getLsbD j != b.getLsbD j) := by
  have hj : ¬ 45 ≤ j.val := by omega
  rw [getLsbD_xor, getLsbD_calcEccInsn _ (by omega), getLsbD_calcEccInsn _ (by omega), getLsbD_op, getLsbD_op]
  simp [hj]

theorem xor_ecc (k : Fin 7) :
    (ustoreCalcEccInsn (a.setWidth 64) ^^^ ustoreCalcEccInsn (b.setWidth 64)).getLsbD (45 + k) =
      (parity (eccPoly k &&& a.setWidth 64) != parity (eccPoly k &&& b.setWidth 64)) := by
  have hk : 45 + k.val < 52 := by omega
  rw [getLsbD_xor, getLsbD_calcEccInsn _ (by omega), getLsbD_calcEccInsn _ (by omega), getLsbD_op, getLsbD_op,
    getLsbD_of_ge a _ (by omega), getLsbD_of_ge b _ (by omega)]
  simp [hk]

theorem hammingDist_bits {n : Nat} (x y : Fin n → Bool) :
    hammingDist (fun i => gf2 (x i)) (fun i => gf2 (y i)) = ∑ i, if x i != y i then 1 else 0 := by
  rw [hammingDist, Finset.card_filter]
  refine Finset.sum_congr rfl fun i _ => ?_
  cases x i <;> cases y i <;> decide

theorem dist_le_hweight64 :
    hammingDist (word a) (word b) + hammingDist (syndrome column (word a)) (syndrome column (word b)) ≤
      hweight64 (ustoreCalcEccInsn (a.setWidth 64) ^^^ ustoreCalcEccInsn (b.setWidth 64)) := by
  have hw : hammingDist (word a) (word b) = _ := hammingDist_bits (fun j => a.getLsbD j) fun j => b.getLsbD j
  have hs := hammingDist_bits (fun k : Fin 7 => parity (eccPoly k &&& a.setWidth 64))
    fun k => parity (eccPoly k &&& b.setWidth 64)
  rw [← funext (syndrome_word a), ← funext (syndrome_word b)] at hs
  rw [hw, hs, hweight64_split]
  simp only [xor_low, xor_ecc]
  exact Nat.le_add_right _ _

theorem column_odd (j : Fin 45) : Odd (hammingNorm (column j)) := by
  decide +revert

theorem column_ne_one (j : Fin 45) : hammingNorm (column j) ≠ 1 := by
  decide +revert

theorem column_injective : Function.Injective column := by
  intro i j h
  have hk : ∀ k : Fin 7, (eccPoly k).getLsbD i = (eccPoly k).getLsbD j := fun k => gf2_inj.mp (congrFun h k)
  decide +revert

end Distance

theorem ecc_distance (a b : BitVec 45) (h : a ≠ b) :
    4 ≤ hweight64 (ustoreCalcEccInsn (a.setWidth 64) ^^^ ustoreCalcEccInsn (b.setWidth 64)) := by
  have hne : word a ≠ word b := by
    intro he
    refine h (eq_of_getLsbD_eq fun i hi => ?_)
    exact gf2_inj.mp (congrFun he ⟨i, hi⟩)
  exact le_trans (dist_ge_four column_odd column_ne_one column_injective hne) (dist_le_hweight64 a b)

theorem ecc_distance_one_bit : (0 : BitVec 45) ≠ 1 ∧
    4 ≤ hweight64 (ustoreCalcEccInsn ((0 : BitVec 45).setWidth 64) ^^^
      ustoreCalcEccInsn ((1 : BitVec 45).setWidth 64)) :=
  ⟨by decide, ecc_distance 0 1 (by decide)⟩

end NfpDriver.Asm
