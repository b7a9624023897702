import NfpDriver.Lower.Jump
import NfpDriver.Jit.Table

namespace NfpDriver.Lower

open Asm Adder Jit Bpf Machine

structure Holds (p : Prog) (regs : Fin 16 → BitVec 64) (st : State) : Prop where
  a : ∀ r ≤ 9, pairA st (gpr r) = regs r
  b : ∀ r ≤ 9, pairB st (gpr r) = regs r
  fp : regs bpfReg10 = (st.a staticRegStack + p.stackFrameDepth).setWidth 64

theorem src_K_or_X (code : BitVec 8) : bpfSrc code = bpfX ∨ bpfSrc code = bpfK := by
  revert code
  decide +kernel

variable {m : Meta} {r : Fin 16}

theorem operand_imm (hk : bpfSrc m.insn.code = bpfK) (y : BitVec 64) : operand m.insn y = sextImm m.insn := by
  rw [operand, hk]
  rfl

theorem operand_reg (hx : bpfSrc m.insn.code = bpfX) (y : BitVec 64) : operand m.insn y = y := by
  rw [operand, if_pos hx]

theorem le_nine (hr : r ≤ 10) (h10 : r ≠ bpfReg10) : r ≤ 9 := by
  revert r
  decide

def bank (regs : Fin 16 → BitVec 64) (scratch : BitVec 16 → BitVec 32) (g : BitVec 16) : BitVec 32 :=
  if g < 20 then
    if g &&& 1 = 0 then lo (regs (Fin.ofNat 16 (g.toNat / 2))) else hi (regs (Fin.ofNat 16 (g.toNat / 2)))
  else scratch g

def stateOf (regs : Fin 16 → BitVec 64) (scratchA scratchB : BitVec 16 → BitVec 32) : State where
  a := bank regs scratchA
  b := bank regs scratchB
  ext := fun _ => 0
  z := false
  n := false
  c := false
  v := false
  mul := ⟨0, 0, .start, 0⟩

variable (regs : Fin 16 → BitVec 64)

theorem bank_gpr (scratch : BitVec 16 → BitVec 32) (hr : r ≤ 9) :
    bank regs scratch (gpr r + 1) ++ bank regs scratch (gpr r) = regs r := by
  have hall : ∀ r : Fin 16, r ≤ 9 → gpr r < 20 ∧ gpr r + 1 < 20 ∧ gpr r &&& 1 = 0 ∧ gpr r + 1 &&& 1 ≠ 0 ∧
      Fin.ofNat 16 ((gpr r).toNat / 2) = r ∧ Fin.ofNat 16 ((gpr r + 1).toNat / 2) = r := by decide
  obtain ⟨h1, h2, h3, h4, h5, h6⟩ := hall r hr
  apply ext_halves
  · rw [lo_append, bank, if_pos h1, if_pos h3, h5]
  · rw [hi_append, bank, if_pos h2, if_neg h4, h6]

def withDepth (depth : BitVec 32) : Prog := { (default : Prog) with stackFrameDepth := depth }

theorem holds_stateOf (scratchA scratchB : BitVec 16 → BitVec 32) (s : BitVec 32) (hs : regs bpfReg10 = s.setWidth 64) :
    Holds (withDepth (s - scratchA staticRegStack)) regs (stateOf regs scratchA scratchB) where
  a r hr := bank_gpr regs scratchA hr
  b r hr := bank_gpr regs scratchB hr
  fp := by
    have h22 : (stateOf regs scratchA scratchB).a staticRegStack = scratchA staticRegStack := rfl
    rw [h22, hs, withDepth, BitVec.add_comm, BitVec.sub_add_cancel]

def pairScratch (v : BitVec 64) (g : BitVec 16) : BitVec 32 := if g = 21 then hi v else lo v

theorem pair_scratch (v w : BitVec 64) :
    pairA (stateOf regs (pairScratch v) (pairScratch w)) (gpr bpfReg10) = v ∧
      pairB (stateOf regs (pairScratch v) (pairScratch w)) (gpr bpfReg10) = w :=
  ⟨ext_halves (lo_append _ _) (hi_append _ _), ext_halves (lo_append _ _) (hi_append _ _)⟩

def frameRegs (v : BitVec 64) (s : BitVec 32) (r : Fin 16) : BitVec 64 :=
  if r = bpfReg10 then s.setWidth 64 else v

def frameState (v : BitVec 64) (s : BitVec 32) (x y : BitVec 64) : State :=
  stateOf (frameRegs v s) (pairScratch x) (pairScratch y)

theorem frameState_pairs (v : BitVec 64) (s : BitVec 32) (x y : BitVec 64) (hr : r ≤ 10) :
    pairA (frameState v s x y) (gpr r) = (if r = bpfReg10 then x else v) ∧
      pairB (frameState v s x y) (gpr r) = if r = bpfReg10 then y else v := by
  by_cases h10 : r = bpfReg10
  · rw [h10, if_pos rfl, if_pos rfl]
    exact pair_scratch _ _ _
  · have hv : frameRegs v s r = v := if_neg h10
    rw [if_neg h10, if_neg h10]
    exact ⟨(bank_gpr _ _ (le_nine hr h10)).trans hv, (bank_gpr _ _ (le_nine hr h10)).trans hv⟩

end NfpDriver.Lower
