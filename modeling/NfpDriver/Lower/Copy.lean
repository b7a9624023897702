import NfpDriver.Machine.Transfer
import NfpDriver.Lower.DivExact

namespace NfpDriver.Lower

open Asm Adder Jit Bpf Machine Engine

theorem addr40_sum (y x imm : BitVec 32) :
    ((adc y 0 (adc x imm false).carry).sum ++ (adc x imm false).sum).setWidth 40 =
      (y ++ x).setWidth 40 + imm.setWidth 40 := by
  have hsum : (adc y 0 (adc x imm false).carry).sum ++ (adc x imm false).sum = (y ++ x) + imm.setWidth 64 := by
    have hadd : (y ++ x) + imm.setWidth 64 = (adc (y ++ x) (imm.setWidth 64) false).sum := (add_sum _ _).symm
    have hh := adc_halves_sum (y ++ x) (imm.setWidth 64) false
    rw [lo_append, lo_zext, hi_append, hi_zext] at hh
    rw [hadd]
    apply ext_halves
    · rw [lo_append, hh.1]
    · rw [hi_append, hh.2]
  rw [hsum, BitVec.setWidth_add _ _ (by decide), BitVec.setWidth_setWidth_of_le _ (by decide)]

structure Far (g : BitVec 16) : Prop where
  low : g < 0x20
  high : g + 1 < 0x20
  lowTemp : g ≠ staticRegImm
  highTemp : g + 1 ≠ staticRegImm

theorem far_gpr {r : Fin 16} (h : r ≤ 9) : Far (gpr r) :=
  ⟨(gpr_small h).1, (gpr_small h).2, (gpr_ne_imm h).1, (gpr_ne_imm h).2⟩

theorem does_addr40 {g : BitVec 16} (hg : Far g) {o : Swreg} (ho : CmdOff o) (e : Engine) :
    ∃ e' ga, Does (addr40Offset g o).1 e e' ∧ Quiet e e' ∧ (addr40Offset g o).2.1 = regA ga ∧ ga < 0x20 ∧
      CmdOff (addr40Offset g o).2.2 ∧
      (e'.core.src (addr40Offset g o).2.2 ++ e'.core.a ga).setWidth 40 =
        (e.core.b (g + 1) ++ e.core.a g).setWidth 40 + (e.core.src o).setWidth 40 := by
  rw [addr40Offset]
  split
  · next hz =>
    refine ⟨e, g, .nil e, .refl e, rfl, hg.low, .reg hg.high, ?_⟩
    rw [hz, src_regImm]
    exact (BitVec.add_zero _).symm
  obtain ⟨hop, hna⟩ := ho.operand
  have h1 := does_emitAlu (.a (show (staticRegImm : BitVec 16) < gprCount by decide)) (.a (re_encoding hg.low).2.2.2.2)
    hop hna.symm .add e
  obtain ⟨e1, he1⟩ : ∃ e1, e.aluDone (regA staticRegImm) .add (e.core.src (regA g)) (e.core.src o)
      (e.core.src (aOperand (regA g) o)) = e1 := ⟨_, rfl⟩
  rw [he1] at h1
  have hq1 : Quiet e e1 := by
    rw [← he1]
    exact quiet_alu e (.inl rfl) _ _ _ _
  have h2 := does_emitAlu (.b (show (staticRegImm : BitVec 16) < gprCount by decide))
    (.b (re_encoding hg.high).2.2.2.2) (.imm (show (0 : BitVec 16) ≤ 0xff by decide)) RegKind.noConfusion .addC e1
  refine ⟨_, staticRegImm, h1.append h2, hq1.trans (quiet_alu e1 (.inr (.inl rfl)) _ _ _ _), rfl, by decide,
    .reg (by decide), ?_⟩
  have hlow : e1.core.a staticRegImm = (adc (e.core.a g) (e.core.src o) false).sum := by
    rw [← he1, aluDone, aluTo_regA_a, Function.update_self]
    rfl
  have hc : e1.core.c = (adc (e.core.a g) (e.core.src o) false).carry := by
    rw [← he1, aluDone, aluTo_c]
    rfl
  rw [← addr40_sum, ← hlow, ← hc, ← hq1.b _ hg.highTemp]
  congr 2

def isWide (m : Meta) : Prop := m.ptr.type = .ptrToMapValue

instance (m : Meta) : Decidable (isWide m) := inferInstanceAs (Decidable (_ = _))

def loadedByte (m : Meta) (e : Engine) (j : Nat) : BitVec 8 :=
  if isWide m then
    e.mem40 ((e.core.b (gpr m.insn.srcReg + 1) ++ e.core.a (gpr m.insn.srcReg)).setWidth 40 +
      (sext16 m.insn.off).setWidth 40 + BitVec.ofNat 40 j)
  else e.mem32 (e.core.a (gpr m.insn.srcReg) + sext16 m.insn.off + BitVec.ofNat 32 j)

structure Loaded (e e' : Engine) (n : Nat) (bytes : Nat → BitVec 8) : Prop where
  a : ∀ r ≠ staticRegImm, e'.core.a r = e.core.a r
  b : ∀ r ≠ staticRegImm, e'.core.b r = e.core.b r
  mem32 : e'.mem32 = e.mem32
  mem40 : e'.mem40 = e.mem40
  word : ∀ i < n, e'.core.ext (inXfrRe i) = e'.core.ext (inXfr i)
  lane : ∀ i < n, ∀ j < 4, laneOf (e'.core.ext (inXfr i)) j = bytes (4 * i + j)

theorem loaded_readXfers {w : Nat} {e e' : Engine} (hq : Quiet e e') (mem : BitVec w → BitVec 8) (addr : BitVec w)
    {n : Nat} (hn : n ≤ 32) :
    Loaded e (e'.withExt (readXfers mem addr 0 n e'.core.ext)) n fun j => mem (addr + BitVec.ofNat w j) where
  a := hq.a
  b := hq.b
  mem32 := hq.mem32
  mem40 := hq.mem40
  word i hi := by
    obtain ⟨h1, h2⟩ := readXfers_at mem addr e'.core.ext hn hi
    exact h2.trans h1.symm
  lane i hi j hj := by
    have h := (readXfers_at mem addr e'.core.ext hn hi).1
    change laneOf (readXfers mem addr 0 n e'.core.ext (inXfr i)) j = _
    rw [h, laneOf_wordAt _ _ hj, BitVec.add_assoc, ← BitVec.ofNat_add]

def readSource (m : Meta) (len : Nat) : Code :=
  let (load, off) := reLoadImmAny (sext16 m.insn.off) immB
  let (addr, srcBase, off) :=
    if isWide m then addr40Offset (gpr m.insn.srcReg) off else ([], regA (gpr m.insn.srcReg), off)
  load ++ addr ++ (if len > 32 then setPrevAluLen (BitVec.ofNat 8 ((len + 3) / 4) - 1) else []) ++
    emitCmdAny .read32Swap (if isWide m then .b40Ba else .b32) 0 srcBase off (BitVec.ofNat 8 ((len + 3) / 4) - 1)
      .swap (len > 32)

variable {len : Nat}

theorem xferNum_pred (h0 : 0 < len) (h : len ≤ 128) :
    (BitVec.ofNat 8 ((len + 3) / 4) - 1).toNat = (len + 3) / 4 - 1 := by
  rw [BitVec.toNat_sub, BitVec.toNat_ofNat, show (1 : BitVec 8).toNat = 1 from rfl]
  omega

theorem does_count (h0 : 0 < len) (h : len ≤ 128) (e : Engine) :
    ∃ e', Does (if len > 32 then setPrevAluLen (BitVec.ofNat 8 ((len + 3) / 4) - 1) else []) e e' ∧ Quiet e e' ∧
      e'.core = e.core ∧
      cmdCount (len > 32) (BitVec.ofNat 8 ((len + 3) / 4) - 1) e'.prevAlu = (len + 3) / 4 := by
  have hpred := xferNum_pred h0 h
  by_cases hlong : len > 32
  · rw [if_pos hlong, decide_eq_true hlong]
    have hle : BitVec.ofNat 8 ((len + 3) / 4) - 1 ≤ (0x1f : BitVec 8) := by
      rw [BitVec.le_def, hpred]
      change _ ≤ 31
      omega
    refine ⟨_, does_setPrevAluLen hle e, ⟨fun _ _ => rfl, fun _ _ => rfl, rfl, rfl, rfl, rfl⟩, rfl, ?_⟩
    rw [cmdCount_override hle, hpred]
    omega
  · rw [if_neg hlong, decide_eq_false hlong]
    refine ⟨e, .nil e, .refl e, rfl, ?_⟩
    rw [cmdCount_direct, hpred]
    · omega
    · rw [BitVec.le_def, hpred]
      change _ ≤ 7
      omega

theorem does_readSource {m : Meta} (hsrc : m.insn.srcReg ≤ 9) (h0 : 0 < len) (h : len ≤ 128) (e : Engine) :
    ∃ e', Does (readSource m len) e e' ∧ Loaded e e' ((len + 3) / 4) (loadedByte m e) := by
  have hg := far_gpr hsrc
  have hn : (len + 3) / 4 ≤ 32 := by omega
  obtain ⟨e1, h1, hq1, ho, hv⟩ := does_reLoad (sext16 m.insn.off) e
  rw [readSource]
  by_cases hw : isWide m
  · simp only [if_pos hw]
    obtain ⟨e2, ga, h2, hq2, hbase, hga, ho2, haddr⟩ := does_addr40 hg ho e1
    obtain ⟨e3, h3, hq3, hcore, hcount⟩ := does_count h0 h e2
    have h4 := does_read40 hga ho2 0 (BitVec.ofNat 8 ((len + 3) / 4) - 1) (len > 32) e3
    have haddr' : (e3.core.src (addr40Offset (gpr m.insn.srcReg) (reLoadImmAny (sext16 m.insn.off) immB).2).2.2 ++
        e3.core.a ga).setWidth 40 = (e.core.b (gpr m.insn.srcReg + 1) ++ e.core.a (gpr m.insn.srcReg)).setWidth 40 +
        (sext16 m.insn.off).setWidth 40 := by
      rw [hcore, haddr, hv, hq1.a _ hg.lowTemp, hq1.b _ hg.highTemp]
    rw [hcount, haddr', ← hbase] at h4
    refine ⟨_, ((h1.append h2).append h3).append h4, ?_⟩
    have hbytes : loadedByte m e = fun j => e3.mem40 ((e.core.b (gpr m.insn.srcReg + 1) ++
        e.core.a (gpr m.insn.srcReg)).setWidth 40 + (sext16 m.insn.off).setWidth 40 + BitVec.ofNat 40 j) := by
      funext j
      rw [loadedByte, if_pos hw, hq3.mem40, hq2.mem40, hq1.mem40]
    rw [hbytes]
    exact loaded_readXfers (hq1.trans (hq2.trans hq3)) e3.mem40 _ hn
  · simp only [if_neg hw, List.append_nil]
    obtain ⟨e3, h3, hq3, hcore, hcount⟩ := does_count h0 h e1
    have h4 := does_read32 hg.low ho 0 (BitVec.ofNat 8 ((len + 3) / 4) - 1) (len > 32) e3
    have haddr : e3.core.a (gpr m.insn.srcReg) + e3.core.src (reLoadImmAny (sext16 m.insn.off) immB).2 =
        e.core.a (gpr m.insn.srcReg) + sext16 m.insn.off := by
      rw [hcore, hv, hq1.a _ hg.lowTemp]
    rw [hcount, haddr] at h4
    refine ⟨_, (h1.append h3).append h4, ?_⟩
    have hbytes : loadedByte m e = fun j =>
        e3.mem32 (e.core.a (gpr m.insn.srcReg) + sext16 m.insn.off + BitVec.ofNat 32 j) := by
      funext j
      rw [loadedByte, if_neg hw, hq3.mem32, hq1.mem32]
    rw [hbytes]
    exact loaded_readXfers (hq1.trans hq3) e3.mem32 _ hn

end NfpDriver.Lower
