import NfpDriver.Jit.Wrap

namespace NfpDriver.Jit

open Asm Bpf Adder

def movReg64 (stackFrameDepth : BitVec 32) (m : Meta) : CbResult :=
  let dst := gpr m.insn.dstReg
  let src := gpr m.insn.srcReg
  if m.insn.srcReg = bpfReg10 then
    let (load, stackDepthReg) := urLoadImmAny stackFrameDepth stackImm
    ok m (load ++ emitAlu (regBoth dst) stackReg .add stackDepthReg ++ wrpImmed (regBoth (dst + 1)) 0)
  else ok m (wrpRegMov dst src ++ wrpRegMov (dst + 1) (src + 1))

def movImm64 (m : Meta) : CbResult :=
  let imm := sextImm m.insn
  ok m (wrpImmed (regBoth (gpr m.insn.dstReg)) (lo imm) ++
    wrpImmed (regBoth (gpr m.insn.dstReg + 1)) (hi imm))

def xorReg64 (m : Meta) : CbResult := wrpAlu64Reg m .xor
def xorImm64 (m : Meta) : CbResult := wrpAlu64Imm m .xor (m.insn.imm = 0)
def andReg64 (m : Meta) : CbResult := wrpAlu64Reg m .and
def andImm64 (m : Meta) : CbResult := wrpAlu64Imm m .and (~~~m.insn.imm = 0)
def orReg64 (m : Meta) : CbResult := wrpAlu64Reg m .or
def orImm64 (m : Meta) : CbResult := wrpAlu64Imm m .or (m.insn.imm = 0)

def carryReg64 (m : Meta) (op carryOp : AluOp) : CbResult :=
  let dst := gpr m.insn.dstReg
  let src := gpr m.insn.srcReg
  ok m (emitAlu (regBoth dst) (regA dst) op (regB src) ++
    emitAlu (regBoth (dst + 1)) (regA (dst + 1)) carryOp (regB (src + 1)))

def carryImm64 (m : Meta) (op carryOp : AluOp) : CbResult :=
  let imm := sextImm m.insn
  ok m (wrpAluImm (gpr m.insn.dstReg) op (lo imm) ++ wrpAluImm (gpr m.insn.dstReg + 1) carryOp (hi imm))

def addReg64 (m : Meta) : CbResult := carryReg64 m .add .addC
def addImm64 (m : Meta) : CbResult := carryImm64 m .add .addC
def subReg64 (m : Meta) : CbResult := carryReg64 m .sub .subC
def subImm64 (m : Meta) : CbResult := carryImm64 m .sub .subC
def mulReg64 (m : Meta) : CbResult := wrpMul m true true
def mulImm64 (m : Meta) : CbResult := wrpMul m true false

def negReg64 (m : Meta) : CbResult :=
  let dst := gpr m.insn.dstReg
  ok m (emitAlu (regBoth dst) (regImm 0) .sub (regB dst) ++
    emitAlu (regBoth (dst + 1)) (regImm 0) .subC (regB (dst + 1)))

def movReg (m : Meta) : CbResult :=
  let dst := gpr m.insn.dstReg
  ok m (wrpRegMov dst (gpr m.insn.srcReg) ++ wrpImmed (regBoth (dst + 1)) 0)

def movImm (m : Meta) : CbResult :=
  let dst := gpr m.insn.dstReg
  ok m (wrpImmed (regBoth dst) m.insn.imm ++ wrpImmed (regBoth (dst + 1)) 0)

def xorReg (m : Meta) : CbResult := wrpAlu32Reg m .xor
def xorImm (m : Meta) : CbResult := wrpAlu32Imm m .xor
def andReg (m : Meta) : CbResult := wrpAlu32Reg m .and
def andImm (m : Meta) : CbResult := wrpAlu32Imm m .and
def orReg (m : Meta) : CbResult := wrpAlu32Reg m .or
def orImm (m : Meta) : CbResult := wrpAlu32Imm m .or
def addReg (m : Meta) : CbResult := wrpAlu32Reg m .add
def addImm (m : Meta) : CbResult := wrpAlu32Imm m .add
def subReg (m : Meta) : CbResult := wrpAlu32Reg m .sub
def subImm (m : Meta) : CbResult := wrpAlu32Imm m .sub
def mulReg (m : Meta) : CbResult := wrpMul m false true
def mulImm (m : Meta) : CbResult := wrpMul m false false

def negReg (m : Meta) : CbResult :=
  let dst := gpr m.insn.dstReg
  ok m (emitAlu (regBoth dst) (regImm 0) .sub (regB dst) ++ wrpZext m dst)

def endReg32 (m : Meta) : CbResult :=
  let dst := gpr m.insn.dstReg
  if m.insn.imm = 16 then
    ok m (emitLdField (regBoth dst) 0x9 (regB dst) .rRot 8 ++ emitLdField (regBoth dst) 0xe (regA dst) .rShf 16 ++
      wrpImmed (regBoth (dst + 1)) 0)
  else if m.insn.imm = 32 then ok m (wrpEnd32 (regA dst) dst ++ wrpImmed (regBoth (dst + 1)) 0)
  else if m.insn.imm = 64 then
    ok m (wrpMov immA (regB (dst + 1)) ++ wrpEnd32 (regA dst) (dst + 1) ++ wrpEnd32 immA dst)
  else ok m []

end NfpDriver.Jit
