import Mathlib.Logic.Function.Iterate
import NfpDriver.Bpf.Meta

namespace NfpDriver.Verifier

open Bpf BitVec

def metaNext (metas : List Meta) (p : Nat) : Nat := if p = metas.length then 0 else p + 1

def metaPrev (metas : List Meta) (p : Nat) : Nat := if p = 0 then metas.length else p - 1

def min32 (x y : BitVec 32) : BitVec 32 := if x < y then x else y

-- the step, how often it is taken and where the walk starts
def gotoWalk (metas : List Meta) (p : Nat) (insnIdx : BitVec 32) : (Nat → Nat) × Nat × Nat :=
  let n := BitVec.ofNat 32 (metaAt metas p).n
  let nInsns := BitVec.ofNat 32 metas.length
  let backward := n - insnIdx
  let forward := insnIdx - n
  let fromLast :=
    if min32 forward backward > nInsns - insnIdx - 1 then (nInsns - insnIdx - 1, metas.length - 1) else (backward, p)
  let fromFirst :=
    if min32 forward fromLast.1 > insnIdx ∧ fromLast.1 > insnIdx then (insnIdx, 0) else (forward, fromLast.2)
  if fromFirst.1 < fromLast.1 then (metaNext metas, fromFirst.1.toNat, fromFirst.2)
  else (metaPrev metas, fromLast.1.toNat, fromFirst.2)

def nfpBpfGotoMeta (metas : List Meta) (p : Nat) (insnIdx : BitVec 32) : Nat :=
  let walk := gotoWalk metas p insnIdx
  walk.1^[walk.2.1] walk.2.2

def Inside (metas : List Meta) (walk : (Nat → Nat) × Nat × Nat) : Prop :=
  ∀ j ≤ walk.2.1, walk.1^[j] walk.2.2 < metas.length

theorem metaNext_iterate (metas : List Meta) (k p : Nat) (hp : p ≤ metas.length) :
    (metaNext metas)^[k] p = (p + k) % (metas.length + 1) := by
  induction k generalizing p with
  | zero => exact (Nat.mod_eq_of_lt (Nat.lt_succ_of_le hp)).symm
  | succ k ih =>
    rw [Function.iterate_succ_apply, metaNext]
    split
    · next h =>
      rw [ih 0 (by omega), h, zero_add, show metas.length + (k + 1) = k + (metas.length + 1) by omega,
        Nat.add_mod_right]
    · next h =>
      rw [ih (p + 1) (by omega)]
      congr 1
      omega

theorem metaPrev_iterate (metas : List Meta) {k p : Nat} (hk : k ≤ p) : (metaPrev metas)^[k] p = p - k := by
  induction k generalizing p with
  | zero => rfl
  | succ k ih =>
    rw [Function.iterate_succ_apply, metaPrev, if_neg (by omega), ih (by omega)]
    omega

def distance (n idx : Nat) : Nat := if n ≤ idx then idx - n else n - idx

theorem min32_toNat (x y : BitVec 32) : (min32 x y).toNat = min x.toNat y.toNat := by
  rw [min32]
  split
  · next h => exact (min_eq_left (le_of_lt h)).symm
  · next h => exact (min_eq_right (le_of_not_gt h)).symm

section Goto

variable {metas : List Meta} {p idx : Nat} (hlen : metas.length < 2 ^ 32) (hp : p < metas.length)
  (hidx : idx < metas.length) (hn : (metaAt metas p).n ≤ p)

include hlen hp hidx hn

theorem gotoWalk_eq :
    gotoWalk metas p (BitVec.ofNat 32 idx) =
      if min idx (metas.length - 1 - idx) < distance (metaAt metas p).n idx then
        if idx < metas.length - 1 - idx then (metaNext metas, idx, 0)
        else (metaPrev metas, metas.length - 1 - idx, metas.length - 1)
      else if (metaAt metas p).n < idx then (metaNext metas, idx - (metaAt metas p).n, p)
      else (metaPrev metas, (metaAt metas p).n - idx, p) := by
  generalize hm : (metaAt metas p).n = n at hn
  have hI : (BitVec.ofNat 32 idx).toNat = idx := by
    rw [toNat_ofNat, Nat.mod_eq_of_lt (by omega)]
  have hE : (BitVec.ofNat 32 metas.length - BitVec.ofNat 32 idx - 1).toNat = metas.length - 1 - idx := by
    simp only [toNat_sub, toNat_ofNat, show (1 : BitVec 32).toNat = 1 from rfl]
    omega
  have hd : n ≤ idx ∧ distance n idx = idx - n ∨ idx < n ∧ distance n idx = n - idx := by
    rw [distance]
    split <;> omega
  have hF : (BitVec.ofNat 32 idx - BitVec.ofNat 32 n).toNat = (2 ^ 32 + idx - n) % 2 ^ 32 := by
    simp only [toNat_sub, toNat_ofNat]
    omega
  have hB : (BitVec.ofNat 32 n - BitVec.ofNat 32 idx).toNat = (2 ^ 32 + n - idx) % 2 ^ 32 := by
    simp only [toNat_sub, toNat_ofNat]
    omega
  simp only [gotoWalk, hm, GT.gt, lt_def, min32_toNat]
  generalize BitVec.ofNat 32 metas.length - BitVec.ofNat 32 idx - 1 = E at *
  generalize BitVec.ofNat 32 idx - BitVec.ofNat 32 n = F at *
  generalize BitVec.ofNat 32 n - BitVec.ofNat 32 idx = B at *
  generalize BitVec.ofNat 32 idx = I at *
  by_cases hlast : E.toNat < min F.toNat B.toNat
  · rw [if_pos (show min idx (metas.length - 1 - idx) < distance n idx by omega)]
    simp only [if_pos hlast]
    by_cases hf : I.toNat < min F.toNat E.toNat ∧ I.toNat < E.toNat
    · simp only [if_pos hf, if_pos hf.2]
      rw [if_pos (by omega), hI]
    · simp only [if_neg hf]
      rw [if_neg (by omega), if_neg (by omega), hE]
  simp only [if_neg hlast]
  by_cases hf : I.toNat < min F.toNat B.toNat ∧ I.toNat < B.toNat
  · rw [if_pos (show min idx (metas.length - 1 - idx) < distance n idx by omega)]
    simp only [if_pos hf, if_pos hf.2]
    rw [if_pos (by omega), hI]
  rw [if_neg (show ¬min idx (metas.length - 1 - idx) < distance n idx by omega)]
  simp only [if_neg hf]
  by_cases hlt : n < idx
  · rw [if_pos hlt, if_pos (by omega), show F.toNat = idx - n by omega]
  · rw [if_neg hlt, if_neg (by omega), show B.toNat = n - idx by omega]

theorem goto_eq :
    nfpBpfGotoMeta metas p (BitVec.ofNat 32 idx) =
      if min idx (metas.length - 1 - idx) < distance (metaAt metas p).n idx then idx
      else if (metaAt metas p).n ≤ idx then (p + (idx - (metaAt metas p).n)) % (metas.length + 1)
      else p - ((metaAt metas p).n - idx) := by
  rw [nfpBpfGotoMeta, gotoWalk_eq hlen hp hidx hn]
  by_cases hr : min idx (metas.length - 1 - idx) < distance (metaAt metas p).n idx
  · simp only [if_pos hr]
    split <;> dsimp only
    · rw [metaNext_iterate _ _ _ (Nat.zero_le _), zero_add, Nat.mod_eq_of_lt (by omega)]
    · rw [metaPrev_iterate _ (by omega)]
      omega
  simp only [if_neg hr]
  split <;> dsimp only
  · next hlt => rw [if_pos (le_of_lt hlt), metaNext_iterate _ _ _ (by omega)]
  · rw [metaPrev_iterate _ (by omega)]
    split
    · rw [Nat.mod_eq_of_lt (by omega)]
      omega
    · rfl

theorem goto_exact_iff :
    nfpBpfGotoMeta metas p (BitVec.ofNat 32 idx) = idx ↔
      (metaAt metas p).n = p ∨ min idx (metas.length - 1 - idx) < distance (metaAt metas p).n idx := by
  rw [goto_eq hlen hp hidx hn]
  split
  · next h => exact iff_of_true rfl (.inr h)
  next h =>
    split
    · rcases lt_or_ge (p + (idx - (metaAt metas p).n)) (metas.length + 1) with hlt | hge
      · rw [Nat.mod_eq_of_lt hlt]
        omega
      · rw [Nat.mod_eq_sub_mod hge, Nat.mod_eq_of_lt (by omega)]
        omega
    · omega

theorem goto_inside (h : (metaAt metas p).n = p ∨ min idx (metas.length - 1 - idx) < distance (metaAt metas p).n idx) :
    Inside metas (gotoWalk metas p (BitVec.ofNat 32 idx)) := by
  rw [gotoWalk_eq hlen hp hidx hn]
  intro j hj
  split_ifs at hj ⊢ <;> dsimp only at hj ⊢
  · rw [metaNext_iterate _ _ _ (Nat.zero_le _), zero_add, Nat.mod_eq_of_lt (by omega)]
    omega
  · rw [metaPrev_iterate _ (by omega)]
    omega
  · rw [metaNext_iterate _ _ _ (by omega), Nat.mod_eq_of_lt (by omega)]
    omega
  · rw [metaPrev_iterate _ (by omega)]
    omega

end Goto

-- `n` is the number of an instruction, so `insn_idx` names one meta: the one at that place
structure Finds (metas : List Meta) (p idx : Nat) : Prop where
  inside : Inside metas (gotoWalk metas p (BitVec.ofNat 32 idx))
  found : nfpBpfGotoMeta metas p (BitVec.ofNat 32 idx) = idx
  number : (metaAt metas idx).n = idx

end NfpDriver.Verifier
