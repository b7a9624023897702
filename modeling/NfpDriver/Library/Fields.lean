import Mathlib.Data.BitVec

namespace Fields

open BitVec

abbrev Word := BitVec 64

def bfShf (mask : Word) : Nat := ((List.range 64).find? fun i => mask.getLsbD i).getD 0

def fieldPrep (mask val : Word) : Word := val <<< bfShf mask &&& mask

def pack (base : Word) : List (Word × Word) → Word
  | [] => base
  | f :: fs => fieldPrep f.1 f.2 ||| pack base fs

theorem or_and_right (x y m : Word) : (x ||| y) &&& m = (x &&& m) ||| (y &&& m) := by
  ext i hi
  simp only [getElem_and, getElem_or, Bool.and_or_distrib_right]

variable {m mask : Word} {i : Nat}

variable (base val : Word) (fs : List (Word × Word))

theorem fieldPrep_disjoint (h : mask &&& m = 0) : fieldPrep mask val &&& m = 0 := by
  rw [fieldPrep, BitVec.and_assoc, h]
  exact and_zero

theorem fieldPrep_within (h : mask &&& m = mask) : fieldPrep mask val &&& m = fieldPrep mask val := by
  rw [fieldPrep, BitVec.and_assoc, h]

theorem pack_and (h : ∀ f ∈ fs, f.1 &&& m = 0) : pack base fs &&& m = base &&& m := by
  induction fs with
  | nil => rfl
  | cons f fs ih =>
    rw [pack, or_and_right, fieldPrep_disjoint f.2 (h f (by simp)), ih fun g hg => h g (by simp [hg])]
    exact zero_or

theorem pack_field (hb : base &&& m = 0) (h : fs.Pairwise fun f g => f.1 &&& g.1 = 0) (hf : (m, val) ∈ fs) :
    pack base fs &&& m = fieldPrep m val := by
  induction fs with
  | nil => cases hf
  | cons f fs ih =>
    obtain ⟨hne, h⟩ := List.pairwise_cons.mp h
    rw [pack, or_and_right]
    rcases List.mem_cons.mp hf with rfl | hf
    · rw [fieldPrep_within val BitVec.and_self, pack_and base fs fun g hg => (BitVec.and_comm ..).trans (hne g hg), hb]
      exact or_zero
    · rw [fieldPrep_disjoint f.2 (hne _ hf), ih h hf]
      exact zero_or

def bitUll (i : Nat) : Word := 1#64 <<< i

def genmaskUll (h l : Nat) : Word := BitVec.allOnes 64 <<< l &&& BitVec.allOnes 64 >>> (63 - h)

theorem getLsbD_genmaskUll {h l : Nat} (hh : h < 64) (i : Nat) :
    (genmaskUll h l).getLsbD i = decide (l ≤ i ∧ i ≤ h) := by
  rw [genmaskUll, getLsbD_and, getLsbD_shiftLeft, getLsbD_ushiftRight, Bool.eq_iff_iff]
  simp only [getLsbD_allOnes, Bool.and_eq_true, decide_eq_true_eq, Bool.not_eq_true', decide_eq_false_iff_not]
  omega

theorem getLsbD_bitUll (hi : i < 64) (j : Nat) : (bitUll i).getLsbD j = decide (j = i) := by
  rw [bitUll, getLsbD_shiftLeft, Bool.eq_iff_iff]
  simp only [getLsbD_one, Bool.and_eq_true, decide_eq_true_eq, Bool.not_eq_true', decide_eq_false_iff_not]
  omega

theorem and_bitUll_ne_zero (hi : i < 64) (x : Word) : x &&& bitUll i ≠ 0 ↔ x.getLsbD i = true := by
  constructor
  · intro h
    by_contra hx
    refine h (eq_of_getLsbD_eq fun j _ => ?_)
    rw [getLsbD_and, getLsbD_bitUll hi, show (0 : Word) = 0#64 from rfl, getLsbD_zero]
    by_cases hj : j = i
    · rw [hj, Bool.eq_false_of_not_eq_true hx, Bool.false_and]
    · rw [decide_eq_false hj, Bool.and_false]
  · intro hx h
    have hbit := congrArg (fun y => getLsbD y i) h
    simp [getLsbD_bitUll hi, hx] at hbit

end Fields
