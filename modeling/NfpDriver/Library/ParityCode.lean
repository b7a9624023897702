import Mathlib

namespace ParityCode

variable {ι κ : Type} [Fintype ι]

def syndrome (col : ι → κ → ZMod 2) (x : ι → ZMod 2) (k : κ) : ZMod 2 := ∑ j, x j * col j k

theorem eq_zero_or_one (a : ZMod 2) : a = 0 ∨ a = 1 := by
  decide +revert

theorem norm_eq_sum (x : ι → ZMod 2) : (hammingNorm x : ZMod 2) = ∑ j, x j := by
  rw [hammingNorm, Finset.card_filter, Nat.cast_sum]
  refine Finset.sum_congr rfl fun j _ => ?_
  rcases eq_zero_or_one (x j) with h | h
  · simp [h]
  · simp [h]

theorem syndrome_neg_add (col : ι → κ → ZMod 2) (x y : ι → ZMod 2) :
    syndrome col (-x + y) = -syndrome col x + syndrome col y := by
  funext k
  simp only [syndrome, Pi.add_apply, Pi.neg_apply, add_mul, neg_mul, Finset.sum_add_distrib, Finset.sum_neg_distrib]

section Support

variable [DecidableEq ι] {x : ι → ZMod 2}

theorem norm_one (h : hammingNorm x = 1) : ∃ j, x = Pi.single j 1 := by
  obtain ⟨j, hj⟩ := Finset.card_eq_one.mp h
  refine ⟨j, funext fun i => ?_⟩
  have hi : x i ≠ 0 ↔ i = j := by simpa using Finset.ext_iff.mp hj i
  rcases eq_or_ne i j with rfl | hij
  · rw [Pi.single_eq_same]
    exact (eq_zero_or_one _).resolve_left (hi.mpr rfl)
  · rw [Pi.single_eq_of_ne hij]
    exact not_not.mp fun hne => hij (hi.mp hne)

theorem norm_two (h : hammingNorm x = 2) : ∃ i j, i ≠ j ∧ x = Pi.single i 1 + Pi.single j 1 := by
  obtain ⟨i, j, hne, hij⟩ := Finset.card_eq_two.mp h
  refine ⟨i, j, hne, funext fun k => ?_⟩
  have hk : x k ≠ 0 ↔ k = i ∨ k = j := by simpa using Finset.ext_iff.mp hij k
  rw [Pi.add_apply]
  rcases eq_or_ne k i with rfl | hki
  · rw [Pi.single_eq_same, Pi.single_eq_of_ne hne, add_zero]
    exact (eq_zero_or_one _).resolve_left (hk.mpr (.inl rfl))
  rcases eq_or_ne k j with rfl | hkj
  · rw [Pi.single_eq_same, Pi.single_eq_of_ne hki, zero_add]
    exact (eq_zero_or_one _).resolve_left (hk.mpr (.inr rfl))
  · rw [Pi.single_eq_of_ne hki, Pi.single_eq_of_ne hkj, add_zero]
    exact not_not.mp fun hx => (hk.mp hx).elim hki hkj

end Support

section Columns

variable {col : ι → κ → ZMod 2} {x y : ι → ZMod 2}

theorem syndrome_single [DecidableEq ι] (j : ι) : syndrome col (Pi.single j 1) = col j := by
  funext k
  simp [syndrome, Pi.single_apply]

variable [Fintype κ]

theorem syndrome_sum (hodd : ∀ j, Odd (hammingNorm (col j))) : ∑ k, syndrome col x k = ∑ j, x j := by
  have hcol : ∀ j, ∑ k, col j k = 1 := by
    intro j
    rw [← norm_eq_sum]
    exact (ZMod.natCast_eq_one_iff_odd).mpr (hodd j)
  calc ∑ k, ∑ j, x j * col j k
    _ = ∑ j, ∑ k, x j * col j k := Finset.sum_comm
    _ = ∑ j, x j := Finset.sum_congr rfl fun j _ => by rw [← Finset.mul_sum, hcol, mul_one]

theorem weight_even (hodd : ∀ j, Odd (hammingNorm (col j))) : Even (hammingNorm x + hammingNorm (syndrome col x)) := by
  rw [← ZMod.natCast_eq_zero_iff_even, Nat.cast_add, norm_eq_sum, norm_eq_sum, syndrome_sum hodd]
  exact CharTwo.add_self_eq_zero _

variable [DecidableEq ι]

section

variable (hodd : ∀ j, Odd (hammingNorm (col j))) (hone : ∀ j, hammingNorm (col j) ≠ 1) (hinj : Function.Injective col)

include hodd hone hinj

theorem weight_ge_four (hx : x ≠ 0) : 4 ≤ hammingNorm x + hammingNorm (syndrome col x) := by
  have heven : Even (hammingNorm x + hammingNorm (syndrome col x)) := weight_even hodd
  have hpos : 0 < hammingNorm x := hammingNorm_pos_iff.mpr hx
  rw [Nat.even_iff] at heven
  by_contra hlt
  have hcases : (hammingNorm x = 1 ∧ hammingNorm (syndrome col x) = 1) ∨
      (hammingNorm x = 2 ∧ hammingNorm (syndrome col x) = 0) := by
    omega
  rcases hcases with ⟨h1, hs⟩ | ⟨h2, hs⟩
  · obtain ⟨j, rfl⟩ := norm_one h1
    rw [syndrome_single] at hs
    exact hone j hs
  obtain ⟨i, j, hne, rfl⟩ := norm_two h2
  have hneg : (Pi.single i 1 + Pi.single j 1 : ι → ZMod 2) = -Pi.single i 1 + Pi.single j 1 := by
    funext k
    rw [Pi.add_apply, Pi.add_apply, Pi.neg_apply, CharTwo.neg_eq]
  rw [hneg, syndrome_neg_add, syndrome_single, syndrome_single, hammingNorm_eq_zero] at hs
  exact hne (hinj (neg_add_eq_zero.mp hs))

theorem dist_ge_four (hne : x ≠ y) :
    4 ≤ hammingDist x y + hammingDist (syndrome col x) (syndrome col y) := by
  rw [hammingDist_eq_hammingNorm, hammingDist_eq_hammingNorm, ← syndrome_neg_add]
  exact weight_ge_four hodd hone hinj fun h => hne (neg_add_eq_zero.mp h)

end

end Columns

end ParityCode
