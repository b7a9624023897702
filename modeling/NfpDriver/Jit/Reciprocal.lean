import NfpDriver.Jit.Shift
import NfpDriver.Library.Reciprocal
import Mathlib.Data.Nat.Factorization.Basic

namespace NfpDriver.Jit

open Adder Reciprocal BitVec

def postShift : Nat → Nat → Nat → Nat × Nat
  | 0, _, mhigh => (0, mhigh)
  | s + 1, mlow, mhigh =>
    if mlow / 2 ≥ mhigh / 2 then (s + 1, mhigh) else postShift s (mlow / 2) (mhigh / 2)

def mhighDividend (d : BitVec 32) (prec : BitVec 8) : Nat :=
  2 ^ (32 + fls (d - 1)) + 2 ^ (32 + fls (d - 1) - prec.toNat)

def reciprocalValueAdv (d : BitVec 32) (prec : BitVec 8) : ReciprocalValueAdv :=
  let l := fls (d - 1)
  let mlow := 2 ^ (32 + l) % 2 ^ 64 / d.toNat
  let mhigh := mhighDividend d prec % 2 ^ 64 / d.toNat
  let r := postShift l mlow mhigh
  { m := BitVec.ofNat 32 r.2
    sh := BitVec.ofNat 8 r.1
    exp := BitVec.ofNat 8 l
    isWideM := 0xffffffff < r.2 }

theorem postShift_spec (l mlow mhigh : Nat) (h : mlow < mhigh) :
    ∃ k ≤ l, postShift l mlow mhigh = (l - k, mhigh / 2 ^ k) ∧ mlow / 2 ^ k < mhigh / 2 ^ k ∧
      (1 ≤ l → mlow / 2 < mhigh / 2 → 1 ≤ k) := by
  induction l generalizing mlow mhigh with
  | zero => exact ⟨0, le_refl 0, by simp [postShift], by simpa using h, fun hl => absurd hl (by decide)⟩
  | succ l ih =>
    rw [postShift]
    split
    · next hge => exact ⟨0, Nat.zero_le _, by simp, by simpa using h, fun _ hlt => absurd hlt (by omega)⟩
    next hlt =>
    obtain ⟨k, hk, heq, hkl, -⟩ := ih (mlow / 2) (mhigh / 2) (by omega)
    rw [Nat.div_div_eq_div_mul, ← pow_succ'] at heq hkl
    rw [Nat.div_div_eq_div_mul, ← pow_succ'] at hkl
    exact ⟨k + 1, by omega, by rw [heq]; congr 1; omega, hkl, fun _ _ => by omega⟩

theorem fls_spec {x : BitVec 32} : x.toNat < 2 ^ fls x ∧ (fls x = 0 ∨ 2 ^ (fls x - 1) ≤ x.toNat) := by
  rw [fls]
  split
  · next h => rw [h]; exact ⟨by decide, .inl rfl⟩
  · next h =>
    have hx : x.toNat ≠ 0 := fun hc => h (eq_of_toNat_eq hc)
    exact ⟨Nat.lt_log2_self, .inr (Nat.log2_self_le hx)⟩

structure Divisor (d : BitVec 32) : Prop where
  pos : 1 ≤ d.toNat
  small : d.toNat ≤ 2 ^ 31

variable {d : BitVec 32} {prec : BitVec 8} {imm : BitVec 64}

theorem Divisor.log (h : Divisor d) :
    d.toNat ≤ 2 ^ fls (d - 1) ∧ (fls (d - 1) = 0 ∨ 2 ^ (fls (d - 1) - 1) < d.toNat) ∧ fls (d - 1) ≤ 31 := by
  have hp := h.pos
  have hs := h.small
  have hsub : (d - 1).toNat = d.toNat - 1 := by
    rw [toNat_sub, show (1 : BitVec 32).toNat = 1 from rfl]
    omega
  obtain ⟨hlt, hge⟩ := fls_spec (x := d - 1)
  by_contra hc
  rcases hge with h0 | hge
  · omega
  · have : 2 ^ 31 ≤ 2 ^ (fls (d - 1) - 1) := Nat.pow_le_pow_right (by decide) (by omega)
    omega

theorem Divisor.dividend (h : Divisor d) (hp : 1 ≤ prec.toNat) (hp' : prec.toNat ≤ 32) :
    mhighDividend d prec < 2 ^ 64 ∧ 2 ^ (32 + fls (d - 1)) < 2 ^ 64 := by
  have hl := h.log.2.2
  have h1 : 2 ^ (32 + fls (d - 1)) ≤ 2 ^ 63 := Nat.pow_le_pow_right (by decide) (by omega)
  have h2 : 2 ^ (32 + fls (d - 1) - prec.toNat) ≤ 2 ^ 62 := Nat.pow_le_pow_right (by decide) (by omega)
  rw [mhighDividend]
  omega

structure Reciprocates (d : BitVec 32) (prec : BitVec 8) (r : ReciprocalValueAdv) (M : Nat) : Prop where
  multiplies : Multiplies d.toNat M (2 ^ (32 + r.sh.toNat)) (2 ^ prec.toNat)
  sh : r.sh.toNat ≤ fls (d - 1)
  exp : r.exp.toNat = fls (d - 1)
  m : M = r.m.toNat + (if r.isWideM then 2 ^ 32 else 0)

theorem Divisor.mhigh_small (h : Divisor d) (hp : fls (d - 1) < prec.toNat) :
    mhighDividend d prec / d.toNat < 2 ^ 33 := by
  obtain ⟨-, hlog, hl⟩ := h.log
  have hpos := h.pos
  have herr : 2 ^ (32 + fls (d - 1) - prec.toNat) < 2 ^ 32 := Nat.pow_lt_pow_right (by decide) (by omega)
  rw [Nat.div_lt_iff_lt_mul hpos, mhighDividend]
  rcases Nat.eq_zero_or_pos (fls (d - 1)) with hz | hz
  · rw [hz] at herr ⊢
    omega
  have hbelow := hlog.resolve_left (by omega)
  have hpow : 2 ^ (32 + fls (d - 1)) = 2 ^ 33 * 2 ^ (fls (d - 1) - 1) := by
    rw [← pow_add]
    congr 1
    omega
  omega

theorem Divisor.reciprocates (h : Divisor d) (prec : BitVec 8) (hp : fls (d - 1) < prec.toNat) (hp' : prec.toNat ≤ 32) :
    ∃ M, Reciprocates d prec (reciprocalValueAdv d prec) M ∧
      (prec.toNat < 32 → 1 ≤ fls (d - 1) → (reciprocalValueAdv d prec).isWideM = false) := by
  obtain ⟨hlog, -, hl⟩ := h.log
  obtain ⟨hdiv, hone⟩ := h.dividend (show 1 ≤ prec.toNat by omega) hp'
  have hsmall := h.mhigh_small hp
  have herr : d.toNat ≤ 2 ^ (32 + fls (d - 1) - prec.toNat) :=
    hlog.trans (Nat.pow_le_pow_right (by decide) (by omega))
  have hgap : 2 ^ (32 + fls (d - 1)) / d.toNat + 1 ≤ mhighDividend d prec / d.toNat := by
    rw [← Nat.add_div_right _ h.pos, mhighDividend]
    exact Nat.div_le_div_right (Nat.add_le_add_left herr _)
  obtain ⟨k, hk, heq, hlt, hone'⟩ := postShift_spec (fls (d - 1)) _ _ hgap
  have hval : reciprocalValueAdv d prec = {
      m := BitVec.ofNat 32 (mhighDividend d prec / d.toNat / 2 ^ k)
      sh := BitVec.ofNat 8 (fls (d - 1) - k)
      exp := BitVec.ofNat 8 (fls (d - 1))
      isWideM := 0xffffffff < mhighDividend d prec / d.toNat / 2 ^ k } := by
    simp only [reciprocalValueAdv, Nat.mod_eq_of_lt hdiv, Nat.mod_eq_of_lt hone, heq]
  have hsh : (BitVec.ofNat 8 (fls (d - 1) - k)).toNat = fls (d - 1) - k := by
    rw [toNat_ofNat]
    omega
  have hM : mhighDividend d prec / d.toNat / 2 ^ k ≤ mhighDividend d prec / d.toNat := Nat.div_le_self _ _
  rw [hval]
  refine ⟨mhighDividend d prec / d.toNat / 2 ^ k, ⟨?_, ?_, ?_, ?_⟩, ?_⟩
  · dsimp only
    rw [hsh]
    refine Multiplies.of_halves h.pos ?_ ?_ hlt rfl
    · rw [← pow_add]
      congr 1
      omega
    · rw [← pow_add]
      exact Nat.pow_le_pow_right (by decide) (by omega)
  · dsimp only
    rw [hsh]
    omega
  · dsimp only
    rw [toNat_ofNat]
    omega
  · dsimp only
    rw [toNat_ofNat]
    simp only [decide_eq_true_eq]
    have hM33 := hM.trans_lt hsmall
    generalize mhighDividend d prec / d.toNat / 2 ^ k = M at hM33
    split <;> omega
  · intro hprec hl1
    have hgap2 : 2 ^ (32 + fls (d - 1)) / d.toNat + 2 ≤ mhighDividend d prec / d.toNat := by
      have herr2 : 2 * d.toNat ≤ 2 ^ (32 + fls (d - 1) - prec.toNat) := by
        calc 2 * d.toNat ≤ 2 * 2 ^ fls (d - 1) := Nat.mul_le_mul_left _ hlog
          _ = 2 ^ (fls (d - 1) + 1) := by rw [pow_succ']
          _ ≤ _ := Nat.pow_le_pow_right (by decide) (by omega)
      rw [← Nat.add_mul_div_right _ _ h.pos, mhighDividend]
      exact Nat.div_le_div_right (Nat.add_le_add_left herr2 _)
    have hk1 := hone' hl1 (by omega)
    have hhalf : mhighDividend d prec / d.toNat / 2 ^ k ≤ mhighDividend d prec / d.toNat / 2 :=
      Nat.div_le_div_left (by simpa using Nat.pow_le_pow_right (show 0 < 2 by decide) hk1) (by decide)
    simp only [decide_eq_false_iff_not]
    omega

def divPreShift (reciprocal : BitVec 32 → BitVec 8 → ReciprocalValueAdv) (imm : BitVec 64) : BitVec 8 :=
  if (reciprocal (lo imm) 32).isWideM && imm &&& 1 == 0 then BitVec.ofNat 8 (fls (lo (imm &&& -imm))) - 1 else 0

def divRvalue (reciprocal : BitVec 32 → BitVec 8 → ReciprocalValueAdv) (imm : BitVec 64) : ReciprocalValueAdv :=
  if (reciprocal (lo imm) 32).isWideM && imm &&& 1 == 0
  then reciprocal (lo (imm >>> (divPreShift reciprocal imm).toNat)) (32 - divPreShift reciprocal imm)
  else reciprocal (lo imm) 32

def reciprocalCalls (reciprocal : BitVec 32 → BitVec 8 → ReciprocalValueAdv) (imm : BitVec 64) :
    List (BitVec 32 × BitVec 8) :=
  if imm > 0x80000000 then []
  else
    (lo imm, 32) ::
      if (reciprocal (lo imm) 32).isWideM && imm &&& 1 == 0
      then [(lo (imm >>> (divPreShift reciprocal imm).toNat), 32 - divPreShift reciprocal imm)]
      else []

structure EvenPart (imm : BitVec 64) (p : BitVec 8) : Prop where
  odd : ∃ q, imm.toNat = 2 ^ p.toNat * (2 * q + 1)
  small : p.toNat ≤ 31

theorem evenPart (h0 : imm ≠ 0) (hmax : imm.toNat ≤ 2 ^ 31) :
    EvenPart imm (BitVec.ofNat 8 (fls (lo (imm &&& -imm))) - 1) := by
  have hne : imm.toNat ≠ 0 := fun hc => h0 (eq_of_toNat_eq hc)
  obtain ⟨p, m, ⟨q, rfl⟩, hm⟩ := Nat.exists_eq_two_pow_mul_odd hne
  have hp : p ≤ 31 := by
    by_contra hc
    have h32 : 2 ^ 32 ≤ 2 ^ p := Nat.pow_le_pow_right (by decide) (by omega)
    have h1 : 2 ^ p * 1 ≤ 2 ^ p * (2 * q + 1) := Nat.mul_le_mul_left _ (by omega)
    omega
  have hlow : (lo (imm &&& -imm)).toNat = 2 ^ p := by
    have hp32 : 2 ^ p < 2 ^ 32 := Nat.pow_lt_pow_right (by decide) (by omega)
    rw [and_neg_self hm, lo_toNat, toNat_twoPow, Nat.mod_eq_of_lt (hp32.trans (by decide)), Nat.mod_eq_of_lt hp32]
  have hfls : fls (lo (imm &&& -imm)) = p + 1 := by
    have hz : lo (imm &&& -imm) ≠ 0 := by
      intro hc
      rw [hc] at hlow
      exact absurd hlow.symm (Nat.two_pow_pos p).ne'
    rw [fls, if_neg hz, hlow, Nat.log2_two_pow]
  have hval : (BitVec.ofNat 8 (fls (lo (imm &&& -imm))) - 1).toNat = p := by
    rw [hfls, toNat_sub, toNat_ofNat, show (1 : BitVec 8).toNat = 1 from rfl]
    omega
  exact ⟨⟨q, by rw [hval]; exact hm⟩, by rw [hval]; exact hp⟩

end NfpDriver.Jit
