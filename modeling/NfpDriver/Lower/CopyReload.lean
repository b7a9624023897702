import NfpDriver.Lower.CopyBack
import NfpDriver.Bpf.Exec

namespace NfpDriver.Lower

open Asm Adder Jit Bpf Machine Engine Function BitVec

def leValue (bytes : Nat → BitVec 8) (k : Nat) : Nat → BitVec 64
  | 0 => 0
  | w + 1 => leValue bytes (k + 1) w <<< 8 ||| (bytes k).setWidth 64

variable {i k o : Nat}

theorem byteOf_leValue (bytes : Nat → BitVec 8) (k : Nat) {w : Nat} (hi : i < 8) :
    byteOf (leValue bytes k w) i = if i < w then bytes (k + i) else 0 := by
  induction w generalizing k i with
  | zero =>
    exact extractLsb'_zero
  | succ w ih =>
    cases i with
    | zero => rw [leValue, byteOf_low, if_pos (Nat.succ_pos w), add_zero]
    | succ i =>
      rw [leValue, byteOf_high _ _ (by omega), ih (k + 1) (by omega), add_right_comm, add_assoc]
      simp only [Nat.add_lt_add_iff_right]

theorem eq_of_bytes {v u : BitVec 64} (h : ∀ i < 8, byteOf v i = byteOf u i) : v = u := by
  apply eq_of_getLsbD_eq
  intro i hi
  have hb := congrArg (fun b => BitVec.getLsbD b (i % 8)) (h (i / 8) (by omega))
  simp only [byteOf, getLsbD_extractLsb', show i % 8 < 8 by omega, decide_true, Bool.true_and,
    show 8 * (i / 8) + i % 8 = i by omega] at hb
  exact hb

theorem byteOf_pair (y x : BitVec 32) (hi : i < 8) :
    byteOf (y ++ x) i = if i < 4 then laneOf x i else laneOf y (i - 4) := by
  apply eq_of_getLsbD_eq
  intro j hj
  rw [byteOf, getLsbD_extractLsb', getLsbD_append, decide_eq_true hj, Bool.true_and]
  split
  · rw [if_pos (by omega), laneOf, getLsbD_setWidth, getLsbD_ushiftRight, decide_eq_true hj, Bool.true_and]
  · rw [if_neg (by omega), laneOf, getLsbD_setWidth, getLsbD_ushiftRight, decide_eq_true hj, Bool.true_and,
      show 8 * i + j - 32 = 8 * (i - 4) + j by omega]

theorem laneOf_masked (x : BitVec 32) (o k : Nat) {j : Nat} (hj : j < 4) :
    laneOf ((x >>> (8 * o)) &&& BitVec.ofNat 32 (2 ^ (8 * k) - 1)) j = if j < k then laneOf x (o + j) else 0 := by
  apply eq_of_getLsbD_eq
  intro b hb
  rw [laneOf, getLsbD_setWidth, getLsbD_ushiftRight, getLsbD_and, getLsbD_ushiftRight,
    getLsbD_ofNat, Nat.testBit_two_pow_sub_one, decide_eq_true hb, decide_eq_true (by omega), Bool.true_and,
    Bool.true_and]
  by_cases hk : j < k
  · rw [if_pos hk, decide_eq_true (by omega), Bool.and_true, laneOf, getLsbD_setWidth,
      getLsbD_ushiftRight, decide_eq_true hb, Bool.true_and]
    congr 1
    omega
  · rw [if_neg hk, decide_eq_false (by omega), Bool.and_false]
    exact getLsbD_zero.symm

structure Reloaded (e e' : Engine) (d : BitVec 16) (v : BitVec 32) : Prop where
  a : e'.core.a = Function.update e.core.a d v
  b : e'.core.b = Function.update e.core.b d v
  ext : e'.core.ext = e.core.ext
  mem32 : e'.mem32 = e.mem32

theorem xfrRe_encoding (hi : i < 32) :
    (∀ b h, nfpSwregToRereg (regXfer (BitVec.ofNat 16 i)) b h = (inXfrRe i, false)) ∧
      isReImm ((inXfrRe i).setWidth 8) = false ∧ ¬(inXfrRe i).setWidth 8 < reGprCount ∧
      ((inXfrRe i).setWidth 8).setWidth 16 = inXfrRe i := by
  have hall : ∀ k : Fin 32, (∀ b h, nfpSwregToRereg (regXfer (BitVec.ofNat 16 k)) b h = (inXfrRe k, false)) ∧
      isReImm ((inXfrRe k).setWidth 8) = false ∧ ¬(inXfrRe k).setWidth 8 < reGprCount ∧
      ((inXfrRe k).setWidth 8).setWidth 16 = inXfrRe k := by decide
  exact hall ⟨i, hi⟩

section Reload

variable {d : BitVec 16} (hd : d < 0x20) {i : Nat} (hi : i < 32) (e : Engine)

include hd hi

theorem does_movIn :
    ∃ e', Does (wrpMov (regBoth d) (regXfer (BitVec.ofNat 16 i))) e e' ∧ Reloaded e e' d (e.core.ext (inXfr i)) := by
  have hg := (re_encoding hd).2.2.2.2
  obtain ⟨hun, himm, hgpr, -, -⟩ := xfr_encoding hi
  have hread : e.core.readB (inXfr i) = e.core.ext (inXfr i) := by
    rw [State.readB, himm, if_neg Bool.false_ne_true, if_neg hgpr]
  have hops : ops (wrpMov (regBoth d) (regXfer (BitVec.ofNat 16 i))) =
      [.alu (nfpSwregToUnreg (regBoth d) true) (if (regBoth d).type = .gprB then .b else .a) 0 .none (inXfr i) false
        ((regBoth d).type = .gprBoth) false false] := by
    simp [wrpMov, emitAlu, swregToUnrestricted, hun]
    rfl
  refine ⟨_, does_single hops (emitAlu_length ..) (exec_alu (.both hg) .none 0 (inXfr i) false e), ?_, ?_, ?_, rfl⟩
  · rw [aluDone, aluTo_regBoth_a]
    simp only [Bool.false_eq_true, if_false, hread]
    rfl
  · rw [aluDone, aluTo_regBoth_b]
    simp only [Bool.false_eq_true, if_false, hread]
    rfl
  · rfl

theorem does_subpart {fieldLen off : BitVec 8} (ho : off.toNat = o) (ho4 : o < 4)
    (hmask : byteMask (((1 : BitVec 8) <<< fieldLen) - 1) = BitVec.ofNat 32 (2 ^ (8 * k) - 1)) :
    ∃ e', Does (wrpRegSubpart (regBoth d) (regXfer (BitVec.ofNat 16 i)) fieldLen off) e e' ∧
      Reloaded e e' d ((e.core.ext (inXfrRe i) >>> (8 * o)) &&& BitVec.ofNat 32 (2 ^ (8 * k) - 1)) := by
  have hg := (re_encoding hd).2.2.2.2
  obtain ⟨hre, himm, hgpr, hwide⟩ := xfrRe_encoding hi
  have hread : e.core.readRe e.core.b ((inXfrRe i).setWidth 8) false = e.core.ext (inXfrRe i) := by
    rw [State.readRe, himm, if_neg Bool.false_ne_true, if_neg hgpr, hwide]
  have hops : ops (wrpRegSubpart (regBoth d) (regXfer (BitVec.ofNat 16 i)) fieldLen off) =
      [.ldField (if off ≠ 0 then .rShf else .none) (d.setWidth 8) (((1 : BitVec 8) <<< fieldLen) - 1)
        ((inXfrRe i).setWidth 8) (off * 8) false true false true false false] := by
    simp [wrpRegSubpart, emitLdFieldAny, swregToRestricted, rereg_regBoth hd, hre]
  have hlen : (wrpRegSubpart (regBoth d) (regXfer (BitVec.ofNat 16 i)) fieldLen off).length = 1 := by
    rw [wrpRegSubpart, emitLdFieldAny]
    split <;> rfl
  have hshift : shiftSrc (if off ≠ 0 then .rShf else .none) (off * 8) (e.core.ext (inXfrRe i)) =
      some (e.core.ext (inXfrRe i) >>> (8 * o)) := by
    by_cases hz : off = 0
    · rw [if_neg (not_not.mpr hz), hz]
      have h0 : o = 0 := by rw [← ho, hz]; rfl
      rw [h0]
      simp [shiftSrc, rotateRight_def]
    · rw [if_pos hz]
      have hmul : (off * 8).toNat = 8 * o := by
        rw [toNat_mul, show (8 : BitVec 8).toNat = 8 from rfl, ho]
        omega
      rw [shiftSrc, hmul]
  have hor : ∀ v : BitVec 32, 0 ||| v = v := fun v => BitVec.zero_or
  refine ⟨e.put (regBoth d) ((e.core.ext (inXfrRe i) >>> (8 * o)) &&& BitVec.ofNat 32 (2 ^ (8 * k) - 1)),
    does_single hops hlen ?_, ?_⟩
  · simp only [Engine.exec, Machine.exec, State.execLdField, Bool.false_eq_true, if_false, hread, hshift,
      Option.map_some,
      (re_encoding hd).2.2.2.1, (write_gpr hg _).1, fieldValue, if_true, hmask, hor]
    rfl
  · exact ⟨rfl, rfl, rfl, rfl⟩

end Reload

def reloadLast (m : Meta) (len : Nat) : Nat :=
  if m.ldstGatherLen < 0 then 0
  else if bpfSize m.insn.code ≠ bpfDw then (len + 3) / 4 - 1 else (len + 3) / 4 - 2

def reloadIndex (m : Meta) (len : Nat) : Nat :=
  if bpfSize m.insn.code = bpfB then 4 * reloadLast m len + (if len % 4 = 0 then 3 else len % 4 - 1)
  else if bpfSize m.insn.code = bpfH then 4 * reloadLast m len + (if len % 4 = 0 then 2 else 0)
  else if bpfSize m.insn.code = bpfW then 0
  else 4 * reloadLast m len

structure Words (e : Engine) (n : Nat) (bytes : Nat → BitVec 8) : Prop where
  word : ∀ i < n, e.core.ext (inXfrRe i) = e.core.ext (inXfr i)
  lane : ∀ i < n, ∀ j < 4, laneOf (e.core.ext (inXfr i)) j = bytes (4 * i + j)

structure Holding (e : Engine) (g : BitVec 16) (v : BitVec 64) : Prop where
  a : pairA e.core g = v
  b : pairB e.core g = v

theorem laneOf_zero (j : Nat) : laneOf 0 j = 0 := by
  rw [laneOf]
  simp

section Values

variable {n : Nat} {bytes : Nat → BitVec 8} {e : Engine} (hw : Words e n bytes)

include hw

theorem pair_subpart (hi : i < n) (hk : o + k ≤ 4) :
    (0 : BitVec 32) ++ ((e.core.ext (inXfrRe i) >>> (8 * o)) &&& BitVec.ofNat 32 (2 ^ (8 * k) - 1)) =
      leValue bytes (4 * i + o) k := by
  apply eq_of_bytes
  intro j hj
  rw [byteOf_pair _ _ hj, byteOf_leValue _ _ hj]
  by_cases h4 : j < 4
  · rw [if_pos h4, laneOf_masked _ _ _ h4, hw.word i hi]
    by_cases hjk : j < k
    · rw [if_pos hjk, if_pos hjk, hw.lane i hi _ (by omega), add_assoc]
    · rw [if_neg hjk, if_neg hjk]
  · rw [if_neg h4, if_neg (by omega), laneOf_zero]

theorem pair_word (hi : i < n) : (0 : BitVec 32) ++ e.core.ext (inXfr i) = leValue bytes (4 * i) 4 := by
  apply eq_of_bytes
  intro j hj
  rw [byteOf_pair _ _ hj, byteOf_leValue _ _ hj]
  by_cases h4 : j < 4
  · rw [if_pos h4, if_pos h4, hw.lane i hi j h4]
  · rw [if_neg h4, if_neg h4, laneOf_zero]

theorem pair_words (hi : i + 1 < n) : e.core.ext (inXfr (i + 1)) ++ e.core.ext (inXfr i) = leValue bytes (4 * i) 8 := by
  apply eq_of_bytes
  intro j hj
  rw [byteOf_pair _ _ hj, byteOf_leValue _ _ hj, if_pos hj]
  by_cases h4 : j < 4
  · rw [if_pos h4, hw.lane i (by omega) j h4]
  · rw [if_neg h4, hw.lane (i + 1) hi _ (by omega)]
    congr 1
    omega

end Values

theorem holding_pair {e e₁ e₂ : Engine} {g : BitVec 16} {x y : BitVec 32} {v : BitVec 64} (hne : g ≠ g + 1)
    (h₁ : Reloaded e e₁ g x) (h₂ : Reloaded e₁ e₂ (g + 1) y) (hv : y ++ x = v) : Holding e₂ g v := by
  constructor
  · rw [pairA, h₂.a, h₁.a, update_self, update_of_ne hne, update_self, hv]
  · rw [pairB, h₂.b, h₁.b, update_self, update_of_ne hne, update_self, hv]

theorem does_clearHigh {d : BitVec 16} (hd : d < 0x20) (e : Engine) :
    ∃ e', Does (wrpImmed (regBoth d) 0) e e' ∧ Reloaded e e' d 0 :=
  ⟨_, does_wrpImmed (.both (re_encoding hd).2.2.2.2) 0 e, rfl, rfl, rfl, rfl⟩

def lastXfer (m : Meta) (xferNum : BitVec 8) : BitVec 8 :=
  if m.ldstGatherLen < 0 then 0 else if bpfSize m.insn.code ≠ bpfDw then xferNum - 1 else xferNum - 2

theorem ofNat_sub {n : Nat} (hn : n ≤ 32) (hk : k ≤ n) :
    (BitVec.ofNat 8 n - BitVec.ofNat 8 k).setWidth 16 = BitVec.ofNat 16 (n - k) := by
  apply eq_of_toNat_eq
  rw [toNat_setWidth, toNat_sub, toNat_ofNat, toNat_ofNat, toNat_ofNat]
  omega

theorem size_dw {code : BitVec 8} (hb : bpfSize code ≠ bpfB) (hh : bpfSize code ≠ bpfH) (hw : bpfSize code ≠ bpfW) :
    bpfSize code = bpfDw := by
  revert code
  decide

theorem bytes_dw {insn : Insn} (h : bpfSize insn.code = bpfDw) : bpfLdstBytes insn = 8 := by
  rw [bpfLdstBytes, h]
  rfl

section Cases

variable {m : Meta} {len : Nat} (hmax : len ≤ 128) (hmin : 2 * bpfLdstBytes m.insn ≤ len)

include hmax hmin

theorem lastXfer_eq :
    (lastXfer m (BitVec.ofNat 8 ((len + 3) / 4))).setWidth 16 = BitVec.ofNat 16 (reloadLast m len) ∧
      reloadLast m len < (len + 3) / 4 ∧ (bpfSize m.insn.code = bpfDw → reloadLast m len + 1 < (len + 3) / 4) := by
  have hpos := bpfLdstBytes_pos m.insn
  have hdw : bpfSize m.insn.code = bpfDw → 16 ≤ len := fun h => by
    rw [bytes_dw h] at hmin
    omega
  rw [lastXfer, reloadLast]
  by_cases hneg : m.ldstGatherLen < 0
  · rw [if_pos hneg, if_pos hneg]
    refine ⟨rfl, by omega, fun h => ?_⟩
    have := hdw h
    omega
  · rw [if_neg hneg, if_neg hneg]
    by_cases hsize : bpfSize m.insn.code = bpfDw
    · have := hdw hsize
      rw [if_neg (not_not.mpr hsize), if_neg (not_not.mpr hsize)]
      exact ⟨ofNat_sub (k := 2) (by omega) (by omega), by omega, fun _ => by omega⟩
    · rw [if_pos hsize, if_pos hsize]
      exact ⟨ofNat_sub (k := 1) (by omega) (by omega), by omega, fun h => absurd h hsize⟩

variable (hd : m.insn.dstReg ≤ 9) (hdvd : bpfLdstBytes m.insn ∣ len) {e : Engine} {bytes : Nat → BitVec 8}
  (hw : Words e ((len + 3) / 4) bytes)

include hd hdvd hw

theorem does_reload :
    ∃ e', Does (cppReload m.insn len (lastXfer m (BitVec.ofNat 8 ((len + 3) / 4)))) e e' ∧ e'.mem32 = e.mem32 ∧
      Holding e' (gpr m.insn.dstReg) (leValue bytes (reloadIndex m len) (bpfLdstBytes m.insn)) := by
  obtain ⟨hlast, hin, hdw⟩ := lastXfer_eq hmax hmin
  have hg := far_gpr hd
  have hne := gpr_ne_succ m.insn.dstReg
  simp only [cppReload, hlast]
  by_cases hb : bpfSize m.insn.code = bpfB
  · have hw1 : bpfLdstBytes m.insn = 1 := by rw [bpfLdstBytes, hb]; rfl
    have hsz : bpfB ≠ bpfDw := by decide
    rw [if_pos hb, hb, if_pos hsz, hw1, reloadIndex, if_pos hb]
    have ho : (if len % 4 = 0 then (3 : BitVec 8) else BitVec.ofNat 8 (len % 4) - 1).toNat =
        if len % 4 = 0 then 3 else len % 4 - 1 := by
      split
      · rfl
      · exact byte_pred (by omega) (by omega)
    obtain ⟨e1, h1, hr1⟩ := does_subpart hg.low (show reloadLast m len < 32 by omega) e ho (by split <;> omega)
      (show byteMask (((1 : BitVec 8) <<< (1 : BitVec 8)) - 1) = BitVec.ofNat 32 (2 ^ (8 * 1) - 1) by decide)
    obtain ⟨e2, h2, hr2⟩ := does_clearHigh hg.high e1
    exact ⟨e2, h1.append h2, hr2.mem32.trans hr1.mem32,
      holding_pair hne hr1 hr2 (pair_subpart hw hin (by split <;> omega))⟩
  rw [if_neg hb]
  by_cases hh : bpfSize m.insn.code = bpfH
  · have hw2 : bpfLdstBytes m.insn = 2 := by rw [bpfLdstBytes, hh]; rfl
    have hsz : bpfH ≠ bpfDw := by decide
    rw [hw2] at hdvd
    rw [if_pos hh, hh, if_pos hsz, hw2, reloadIndex, if_neg hb, if_pos hh]
    have ho : (BitVec.ofNat 8 (len % 4) ^^^ 2).toNat = if len % 4 = 0 then 2 else 0 := by
      have hcase : len % 4 = 0 ∨ len % 4 = 2 := by omega
      rcases hcase with hc | hc <;> rw [hc] <;> rfl
    obtain ⟨e1, h1, hr1⟩ := does_subpart hg.low (show reloadLast m len < 32 by omega) e ho (by split <;> omega)
      (show byteMask (((1 : BitVec 8) <<< (2 : BitVec 8)) - 1) = BitVec.ofNat 32 (2 ^ (8 * 2) - 1) by decide)
    obtain ⟨e2, h2, hr2⟩ := does_clearHigh hg.high e1
    exact ⟨e2, h1.append h2, hr2.mem32.trans hr1.mem32,
      holding_pair hne hr1 hr2 (pair_subpart hw hin (by split <;> omega))⟩
  rw [if_neg hh]
  by_cases hwd : bpfSize m.insn.code = bpfW
  · have hw4 : bpfLdstBytes m.insn = 4 := by rw [bpfLdstBytes, hwd]; rfl
    have hsz : bpfW ≠ bpfDw := by decide
    rw [if_pos hwd, hwd, if_pos hsz, hw4, reloadIndex, if_neg hb, if_neg hh, if_pos hwd]
    obtain ⟨e1, h1, hr1⟩ := does_movIn hg.low (show 0 < 32 by decide) e
    obtain ⟨e2, h2, hr2⟩ := does_clearHigh hg.high e1
    exact ⟨e2, h1.append h2, hr2.mem32.trans hr1.mem32, holding_pair hne hr1 hr2 (pair_word hw (by omega))⟩
  · have hsize : bpfSize m.insn.code = bpfDw := size_dw hb hh hwd
    have hnext : BitVec.ofNat 16 (reloadLast m len) + 1 = BitVec.ofNat 16 (reloadLast m len + 1) := by
      rw [ofNat_add]
      rfl
    have hin' := hdw hsize
    rw [if_neg hwd, if_neg (not_not.mpr hsize), bytes_dw hsize, reloadIndex, if_neg hb, if_neg hh, if_neg hwd,
      List.append_nil, hnext]
    obtain ⟨e1, h1, hr1⟩ := does_movIn hg.low (show reloadLast m len < 32 by omega) e
    obtain ⟨e2, h2, hr2⟩ := does_movIn hg.high (show reloadLast m len + 1 < 32 by omega) e1
    rw [hr1.ext] at hr2
    exact ⟨e2, h1.append h2, hr2.mem32.trans hr1.mem32, holding_pair hne hr1 hr2 (pair_words hw hin')⟩

end Cases

end NfpDriver.Lower
