import NfpDriver.Jit.Wrap

namespace NfpDriver.Jit

open Asm Bpf Adder

def jump (m : Meta) : CbResult := ok m (emitBr .unc m.insn.off 0)

def jeqImm (m : Meta) : CbResult :=
  let imm := sextImm m.insn
  let dst := gpr m.insn.dstReg
  let (xorLo, or1) :=
    if lo imm ≠ 0 then
      let (load, tmpReg) := urLoadImmAny (lo imm) immB
      (load ++ emitAlu immA (regA dst) .xor tmpReg, immA)
    else ([], regA dst)
  let (xorHi, or2) :=
    if hi imm ≠ 0 then
      let (load, tmpReg) := urLoadImmAny (hi imm) immB
      (load ++ emitAlu immB (regA (dst + 1)) .xor tmpReg, immB)
    else ([], regB (dst + 1))
  ok m (xorLo ++ xorHi ++ emitAlu regNone or1 .or or2 ++ emitBr .beq m.insn.off 0)

def jeq32Imm (m : Meta) : CbResult :=
  let (load, tmpReg) := urLoadImmAny m.insn.imm immB
  ok m (load ++ emitAlu regNone (regA (gpr m.insn.dstReg)) .xor tmpReg ++ emitBr .beq m.insn.off 0)

def jsetImm (m : Meta) : CbResult :=
  let imm := sextImm m.insn
  let dst := gpr m.insn.dstReg
  let (load, tmpReg) := urLoadImmAny (lo imm) immB
  ok m (load ++ emitAlu immB (regA dst) .and tmpReg ++
    (if isMbpfJmp64 m ∧ hi imm ≠ 0 then emitAlu regNone (regA (dst + 1)) .or immB else []) ++
    emitBr .bne m.insn.off 0)

def jneImm (m : Meta) : CbResult :=
  let imm := sextImm m.insn
  let dst := gpr m.insn.dstReg
  if imm = 0 then
    ok m ((if isMbpfJmp32 m then emitAlu regNone regNone .none (regB dst)
      else emitAlu regNone (regA dst) .or (regB (dst + 1))) ++ emitBr .bne m.insn.off 0)
  else
    let (load, tmpReg) := urLoadImmAny (lo imm) immB
    let (loadHi, tmpRegHi) := urLoadImmAny (hi imm) immB
    ok m (load ++ emitAlu regNone (regA dst) .xor tmpReg ++ emitBr .bne m.insn.off 0 ++
      if isMbpfJmp32 m then []
      else loadHi ++ emitAlu regNone (regA (dst + 1)) .xor tmpRegHi ++ emitBr .bne m.insn.off 0)

def jeqReg (m : Meta) : CbResult :=
  let dst := gpr m.insn.dstReg
  let src := gpr m.insn.srcReg
  ok m (emitAlu immA (regA dst) .xor (regB src) ++
    (if isMbpfJmp64 m then
      emitAlu immB (regA (dst + 1)) .xor (regB (src + 1)) ++ emitAlu regNone immA .or immB
    else []) ++ emitBr .beq m.insn.off 0)

def jsetReg (m : Meta) : CbResult := wrpTestReg m .and .bne

def jneReg (m : Meta) : CbResult := wrpTestReg m .xor .bne

end NfpDriver.Jit
