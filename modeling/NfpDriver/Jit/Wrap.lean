import NfpDriver.Jit.Emit
import NfpDriver.Bpf.Meta
import NfpDriver.Library.Adder

namespace NfpDriver.Jit

open Asm Bpf Adder

abbrev staticRegImma : BitVec 16 := 20
abbrev staticRegImm : BitVec 16 := 21
abbrev staticRegStack : BitVec 16 := 22
abbrev staticRegPktLen : BitVec 16 := 22

def stackReg : Swreg := regA staticRegStack
def plenReg : Swreg := regB staticRegPktLen
def immA : Swreg := regA staticRegImm
def immB : Swreg := regB staticRegImm
def immaA : Swreg := regA staticRegImma
def immaB : Swreg := regB staticRegImma
def immBoth : Swreg := regBoth staticRegImm
def stackImm : Swreg := immB
def retReg : Swreg := immA
def pvLen : Swreg := regLm 1 0
def pvCtmPtr : Swreg := regLm 1 2
def pvQselSet : Swreg := regLm 1 4
def pvQselVal : Swreg := regLm 1 6
def pptrReg : Swreg := pvCtmPtr

def gpr (r : Fin 16) : BitVec 16 := BitVec.ofNat 16 (2 * r.val)

def sextImm (insn : Insn) : BitVec 64 := insn.imm.signExtend 64

def packImmed (imm : BitVec 32) : Option (BitVec 16 × ImmedShift) :=
  if imm &&& 0xffff0000 = 0 then some (imm.setWidth 16, .b0)
  else if imm &&& 0xff0000ff = 0 then some ((imm >>> 8).setWidth 16, .b1)
  else if imm &&& 0x0000ffff = 0 then some ((imm >>> 16).setWidth 16, .b2)
  else none

def wrpImmed (dst : Swreg) (imm : BitVec 32) : Code :=
  match packImmed imm with
  | some (val, shift) => emitImmed dst val .all false shift
  | none =>
    match packImmed (~~~imm) with
    | some (val, shift) => emitImmed dst val .all true shift
    | none =>
      emitImmed dst (imm.setWidth 16) .all false .b0 ++
        emitImmed dst ((imm >>> 16).setWidth 16) .word false .b2

def wrpZext (m : Meta) (dst : BitVec 16) : Code :=
  if m.hasFlag flagInsnDoZext then wrpImmed (regBoth (dst + 1)) 0 else []

def wrpImmedRelo (dst : Swreg) (imm : BitVec 32) (relo : Relo) : Code :=
  if imm > 0xffff then [.fault .efault]
  else emitImmedRelo dst (imm.setWidth 16) .all false .b0 relo

def urLoadImmAny (imm : BitVec 32) (tmpReg : Swreg) : Code × Swreg :=
  if imm ≤ 0xff then ([], regImm (imm.setWidth 16)) else (wrpImmed tmpReg imm, tmpReg)

def reLoadImmAny (imm : BitVec 32) (tmpReg : Swreg) : Code × Swreg :=
  if imm ≤ 0x7f then ([], regImm (imm.setWidth 16)) else (wrpImmed tmpReg imm, tmpReg)

def wrpNops : Nat → Code
  | 0 => []
  | n + 1 => emitNop ++ wrpNops n

def wrpMov (dst src : Swreg) : Code := emitAlu dst regNone .none src

def wrpRegMov (dst src : BitVec 16) : Code := wrpMov (regBoth dst) (regB src)

def wrpRegSubpart (dst src : Swreg) (fieldLen offset : BitVec 8) : Code :=
  emitLdFieldAny dst (((1 : BitVec 8) <<< fieldLen) - 1) src (if offset ≠ 0 then .rShf else .none) (offset * 8) true

def wrpRegOrSubpart (dst src : Swreg) (fieldLen offset : BitVec 8) : Code :=
  emitLdField dst ((((1 : BitVec 8) <<< fieldLen) - 1) <<< offset) src (if offset ≠ 0 then .lShf else .none)
    (32 - offset * 8)

def addr40Offset (srcGpr : BitVec 16) (offset : Swreg) : Code × Swreg × Swreg :=
  if offset = regImm 0 then ([], regA srcGpr, regB (srcGpr + 1))
  else
    (emitAlu immA (regA srcGpr) .add offset ++ emitAlu immB (regB (srcGpr + 1)) .addC (regImm 0), immA, immB)

def wrpAluImm (dst : BitVec 16) (op : AluOp) (imm : BitVec 32) : Code :=
  if op = .and ∧ imm = 0 then wrpImmed (regBoth dst) 0
  else if op = .and ∧ ~~~imm = 0 then []
  else if op = .or ∧ ~~~imm = 0 then wrpImmed (regBoth dst) (~~~0)
  else if op = .or ∧ imm = 0 then []
  else if op = .xor ∧ ~~~imm = 0 then emitAlu (regBoth dst) regNone .not (regB dst)
  else if op = .xor ∧ imm = 0 then []
  else
    let (load, tmpReg) := urLoadImmAny imm immB
    load ++ emitAlu (regBoth dst) (regA dst) op tmpReg

structure CbResult where
  code : Code
  ret : Option Errno
  m : Meta

def ok (m : Meta) (code : Code) : CbResult := ⟨code, none, m⟩

def wrpAlu64Imm (m : Meta) (op : AluOp) (skip : Bool) : CbResult :=
  if skip then ok (m.addFlag flagInsnSkipNoop) []
  else
    let imm := sextImm m.insn
    ok m (wrpAluImm (gpr m.insn.dstReg) op (lo imm) ++ wrpAluImm (gpr m.insn.dstReg + 1) op (hi imm))

def wrpAlu64Reg (m : Meta) (op : AluOp) : CbResult :=
  let dst := gpr m.insn.dstReg
  let src := gpr m.insn.srcReg
  ok m (emitAlu (regBoth dst) (regA dst) op (regB src) ++
    emitAlu (regBoth (dst + 1)) (regA (dst + 1)) op (regB (src + 1)))

def wrpAlu32Imm (m : Meta) (op : AluOp) : CbResult :=
  let dst := gpr m.insn.dstReg
  ok m (wrpAluImm dst op m.insn.imm ++ wrpZext m dst)

def wrpAlu32Reg (m : Meta) (op : AluOp) : CbResult :=
  let dst := gpr m.insn.dstReg
  let src := gpr m.insn.srcReg
  ok m (emitAlu (regBoth dst) (regA dst) op (regB src) ++ wrpZext m dst)

def wrpTestRegOne (dst : BitVec 16) (op : AluOp) (src : BitVec 16) (mask : BrMask) (off : BitVec 16) : Code :=
  emitAlu regNone (regA dst) op (regB src) ++ emitBr mask off 0

def wrpTestReg (m : Meta) (op : AluOp) (mask : BrMask) : CbResult :=
  let dst := gpr m.insn.dstReg
  let src := gpr m.insn.srcReg
  ok m (wrpTestRegOne dst op src mask m.insn.off ++
    if isMbpfJmp64 m then wrpTestRegOne (dst + 1) op (src + 1) mask m.insn.off else [])

structure JmpCodeMap where
  brMask : BrMask
  swap : Bool
  deriving DecidableEq, Repr

def nfpJmpCodeGet (m : Meta) : Option JmpCodeMap :=
  let op := mbpfOp m
  if op = bpfJgt then some ⟨.blo, true⟩
  else if op = bpfJge then some ⟨.bhs, false⟩
  else if op = bpfJlt then some ⟨.blo, false⟩
  else if op = bpfJle then some ⟨.bhs, true⟩
  else if op = bpfJsgt then some ⟨.blt, true⟩
  else if op = bpfJsge then some ⟨.bge, false⟩
  else if op = bpfJslt then some ⟨.blt, false⟩
  else if op = bpfJsle then some ⟨.bge, true⟩
  else none

def cmpOperands (swap : Bool) (reg : BitVec 16) (op : AluOp) (tmpReg : Swreg) : Code :=
  if swap then emitAlu regNone tmpReg op (regA reg) else emitAlu regNone (regA reg) op tmpReg

def cmpImm (m : Meta) : CbResult :=
  match nfpJmpCodeGet m with
  | none => ⟨[], some .einval, m⟩
  | some code =>
    let imm := sextImm m.insn
    let reg := gpr m.insn.dstReg
    let aluOp : AluOp := if m.jumpNegOp then .add else .sub
    let carryOp : AluOp := if m.jumpNegOp then .addC else .subC
    let (load, tmpReg) := urLoadImmAny (lo imm) immB
    let (loadHi, tmpRegHi) := urLoadImmAny (hi imm) immB
    ok m (load ++ cmpOperands code.swap reg aluOp tmpReg ++
      (if isMbpfJmp64 m then loadHi ++ cmpOperands code.swap (reg + 1) carryOp tmpRegHi else []) ++
      emitBr code.brMask m.insn.off 0)

def cmpReg (m : Meta) : CbResult :=
  match nfpJmpCodeGet m with
  | none => ⟨[], some .einval, m⟩
  | some code =>
    let areg := if code.swap then gpr m.insn.srcReg else gpr m.insn.dstReg
    let breg := if code.swap then gpr m.insn.dstReg else gpr m.insn.srcReg
    ok m (emitAlu regNone (regA areg) .sub (regB breg) ++
      (if isMbpfJmp64 m then emitAlu regNone (regA (areg + 1)) .subC (regB (breg + 1)) else []) ++
      emitBr code.brMask m.insn.off 0)

def wrpEnd32 (regIn : Swreg) (gprOut : BitVec 16) : Code :=
  emitLdField (regBoth gprOut) 0xf regIn .rRot 8 ++ emitLdField (regBoth gprOut) 0x5 (regA gprOut) .rRot 16

def wrpMulU32 (dstHi dstLo lreg rreg : Swreg) (genHighHalf : Bool) : Code :=
  emitMul lreg .start .none rreg ++ emitMul lreg .step32x32 .step1 rreg ++
    emitMul lreg .step32x32 .step2 rreg ++ emitMul lreg .step32x32 .step3 rreg ++
    emitMul lreg .step32x32 .step4 rreg ++ emitMul dstLo .step32x32 .last regNone ++
    if genHighHalf then emitMul dstHi .step32x32 .last2 regNone else wrpImmed dstHi 0

def wrpMulU16 (dstLo lreg rreg : Swreg) : Code :=
  emitMul lreg .start .none rreg ++ emitMul lreg .step16x16 .step1 rreg ++
    emitMul lreg .step16x16 .step2 rreg ++ emitMul dstLo .step16x16 .last regNone

def wrpMul (m : Meta) (genHighHalf ropndFromReg : Bool) : CbResult :=
  let dst := gpr m.insn.dstReg
  let multiplicand := regA dst
  let dstHi := regBoth (dst + 1)
  let dstLo := regBoth dst
  let lopndMax := lo m.umaxDst
  let (load, multiplier) :=
    if ropndFromReg then ([], regB (gpr m.insn.srcReg)) else urLoadImmAny m.insn.imm immB
  let ropndMax := if ropndFromReg then lo m.umaxSrc else m.insn.imm
  ok m (load ++
    if lopndMax > 0xffff ∨ ropndMax > 0xffff
    then wrpMulU32 dstHi dstLo multiplicand multiplier genHighHalf
    else wrpMulU16 dstLo multiplicand multiplier)

end NfpDriver.Jit
