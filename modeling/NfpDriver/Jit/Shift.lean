import NfpDriver.Jit.Wrap

namespace NfpDriver.Jit

open Asm Bpf Adder

def hasError (c : Code) : Bool := c.any fun e => e.op?.isNone

def currentOffset (off : Nat) (c : Code) : Nat := off + (ops c).length

def confirmCurrentOffset (off : Nat) (c : Code) (tgt : Nat) : Bool :=
  hasError c || currentOffset off c == tgt

def shlImm64Amt (dst : BitVec 16) (shiftAmt : BitVec 8) : Code :=
  if shiftAmt = 0 then []
  else if shiftAmt < 32 then
    emitShf (regBoth (dst + 1)) (regA (dst + 1)) .none (regB dst) .rDshf (32 - shiftAmt) ++
      emitShf (regBoth dst) regNone .none (regB dst) .lShf shiftAmt
  else if shiftAmt = 32 then wrpRegMov (dst + 1) dst ++ wrpImmed (regBoth dst) 0
  else emitShf (regBoth (dst + 1)) regNone .none (regB dst) .lShf (shiftAmt - 32) ++ wrpImmed (regBoth dst) 0

def shlImm64 (m : Meta) : CbResult := ok m (shlImm64Amt (gpr m.insn.dstReg) (m.insn.imm.setWidth 8))

def shlReg64Lt32High (dst src : BitVec 16) : Code :=
  emitAlu immBoth (regImm 32) .sub (regB src) ++ emitAlu regNone immA .or (regImm 0) ++
    emitShfIndir (regBoth (dst + 1)) (regA (dst + 1)) .none (regB dst) .rDshf

def shlReg64Lt32Low (dst src : BitVec 16) : Code :=
  emitAlu regNone (regA src) .or (regImm 0) ++
    emitShfIndir (regBoth dst) regNone .none (regB dst) .lShf

def shlReg64Lt32 (dst src : BitVec 16) : Code := shlReg64Lt32High dst src ++ shlReg64Lt32Low dst src

def shlReg64Ge32 (dst src : BitVec 16) : Code :=
  emitAlu regNone (regA src) .or (regImm 0) ++
    emitShfIndir (regBoth (dst + 1)) regNone .none (regB dst) .lShf ++ wrpImmed (regBoth dst) 0

def shiftBranches (off : Nat) (m : Meta) (src : BitVec 16) (ge32Dist : Nat) (first second ge32 : Code) :
    CbResult :=
  let labelGe32 : BitVec 16 := BitVec.ofNat 16 (off + ge32Dist)
  let c1 := emitBrBset (regA src) 5 labelGe32 0 ++ first
  let labelEnd : BitVec 16 := BitVec.ofNat 16 (currentOffset off c1 + 6)
  let c2 := c1 ++ emitBr .unc labelEnd 2 ++ second
  if !confirmCurrentOffset off c2 labelGe32.toNat then ⟨c2, some .einval, m⟩
  else
    let c3 := c2 ++ ge32
    if !confirmCurrentOffset off c3 labelEnd.toNat then ⟨c3, some .einval, m⟩ else ok m c3

def shlReg64 (off : Nat) (m : Meta) : CbResult :=
  let dst := gpr m.insn.dstReg
  let src := gpr m.insn.srcReg
  if m.uminSrc = m.umaxSrc then ok m (shlImm64Amt dst (m.uminSrc.setWidth 8))
  else if m.umaxSrc < 32 then ok m (shlReg64Lt32 dst src)
  else if m.uminSrc ≥ 32 then ok m (shlReg64Ge32 dst src)
  else shiftBranches off m src 7 (shlReg64Lt32High dst src) (shlReg64Lt32Low dst src) (shlReg64Ge32 dst src)

def shrImm64Amt (dst : BitVec 16) (shiftAmt : BitVec 8) : Code :=
  if shiftAmt = 0 then []
  else if shiftAmt < 32 then
    emitShf (regBoth dst) (regA (dst + 1)) .none (regB dst) .rDshf shiftAmt ++
      emitShf (regBoth (dst + 1)) regNone .none (regB (dst + 1)) .rShf shiftAmt
  else if shiftAmt = 32 then wrpRegMov dst (dst + 1) ++ wrpImmed (regBoth (dst + 1)) 0
  else
    emitShf (regBoth dst) regNone .none (regB (dst + 1)) .rShf (shiftAmt - 32) ++
      wrpImmed (regBoth (dst + 1)) 0

def shrImm64 (m : Meta) : CbResult := ok m (shrImm64Amt (gpr m.insn.dstReg) (m.insn.imm.setWidth 8))

def shrReg64Lt32High (dst src : BitVec 16) : Code :=
  emitAlu regNone (regA src) .or (regImm 0) ++
    emitShfIndir (regBoth (dst + 1)) regNone .none (regB (dst + 1)) .rShf

def shrReg64Lt32Low (dst src : BitVec 16) : Code :=
  emitAlu regNone (regA src) .or (regImm 0) ++
    emitShfIndir (regBoth dst) (regA (dst + 1)) .none (regB dst) .rDshf

def shrReg64Lt32 (dst src : BitVec 16) : Code := shrReg64Lt32Low dst src ++ shrReg64Lt32High dst src

def shrReg64Ge32 (dst src : BitVec 16) : Code :=
  emitAlu regNone (regA src) .or (regImm 0) ++
    emitShfIndir (regBoth dst) regNone .none (regB (dst + 1)) .rShf ++ wrpImmed (regBoth (dst + 1)) 0

def shrReg64 (off : Nat) (m : Meta) : CbResult :=
  let dst := gpr m.insn.dstReg
  let src := gpr m.insn.srcReg
  if m.uminSrc = m.umaxSrc then ok m (shrImm64Amt dst (m.uminSrc.setWidth 8))
  else if m.umaxSrc < 32 then ok m (shrReg64Lt32 dst src)
  else if m.uminSrc ≥ 32 then ok m (shrReg64Ge32 dst src)
  else shiftBranches off m src 6 (shrReg64Lt32Low dst src) (shrReg64Lt32High dst src) (shrReg64Ge32 dst src)

def ashrImm64Amt (dst : BitVec 16) (shiftAmt : BitVec 8) : Code :=
  if shiftAmt = 0 then []
  else if shiftAmt < 32 then
    emitShf (regBoth dst) (regA (dst + 1)) .none (regB dst) .rDshf shiftAmt ++
      emitAlu regNone (regA (dst + 1)) .or (regImm 0) ++
      emitShf (regBoth (dst + 1)) regNone .ashr (regB (dst + 1)) .rShf shiftAmt
  else if shiftAmt = 32 then
    wrpRegMov dst (dst + 1) ++ emitShf (regBoth (dst + 1)) regNone .ashr (regB (dst + 1)) .rShf 31
  else
    emitAlu regNone (regA (dst + 1)) .or (regImm 0) ++
      emitShf (regBoth dst) regNone .ashr (regB (dst + 1)) .rShf (shiftAmt - 32) ++
      emitShf (regBoth (dst + 1)) regNone .ashr (regB (dst + 1)) .rShf 31

def ashrImm64 (m : Meta) : CbResult := ok m (ashrImm64Amt (gpr m.insn.dstReg) (m.insn.imm.setWidth 8))

def ashrReg64Lt32High (dst src : BitVec 16) : Code :=
  emitAlu regNone (regA src) .or (regB (dst + 1)) ++
    emitShfIndir (regBoth (dst + 1)) regNone .ashr (regB (dst + 1)) .rShf

def ashrReg64Lt32Low (dst src : BitVec 16) : Code := shrReg64Lt32Low dst src

def ashrReg64Lt32 (dst src : BitVec 16) : Code := ashrReg64Lt32Low dst src ++ ashrReg64Lt32High dst src

def ashrReg64Ge32 (dst src : BitVec 16) : Code :=
  emitAlu regNone (regA src) .or (regB (dst + 1)) ++
    emitShfIndir (regBoth dst) regNone .ashr (regB (dst + 1)) .rShf ++
    emitShf (regBoth (dst + 1)) regNone .ashr (regB (dst + 1)) .rShf 31

def ashrReg64 (off : Nat) (m : Meta) : CbResult :=
  let dst := gpr m.insn.dstReg
  let src := gpr m.insn.srcReg
  if m.uminSrc = m.umaxSrc then ok m (ashrImm64Amt dst (m.uminSrc.setWidth 8))
  else if m.umaxSrc < 32 then ok m (ashrReg64Lt32 dst src)
  else if m.uminSrc ≥ 32 then ok m (ashrReg64Ge32 dst src)
  else
    shiftBranches off m src 6 (ashrReg64Lt32Low dst src) (ashrReg64Lt32High dst src) (ashrReg64Ge32 dst src)

def ashrImmAmt (m : Meta) (dst : BitVec 16) (shiftAmt : BitVec 8) : CbResult :=
  ok m ((if shiftAmt ≠ 0 then
    emitAlu regNone (regA dst) .or (regImm 0) ++ emitShf (regBoth dst) regNone .ashr (regB dst) .rShf shiftAmt
  else []) ++ wrpZext m dst)

def ashrReg (m : Meta) : CbResult :=
  let dst := gpr m.insn.dstReg
  if m.uminSrc = m.umaxSrc then ashrImmAmt m dst (m.uminSrc.setWidth 8)
  else
    ok m (emitAlu regNone (regA (gpr m.insn.srcReg)) .or (regB dst) ++
      emitShfIndir (regBoth dst) regNone .ashr (regB dst) .rShf ++ wrpZext m dst)

def ashrImm (m : Meta) : CbResult := ashrImmAmt m (gpr m.insn.dstReg) (m.insn.imm.setWidth 8)

def logicalShiftAmt (sc : ShfSc) (m : Meta) (dst : BitVec 16) (shiftAmt : BitVec 8) : CbResult :=
  ok m ((if shiftAmt ≠ 0 then emitShf (regBoth dst) regNone .none (regB dst) sc shiftAmt else []) ++
    wrpZext m dst)

def shrImmAmt (m : Meta) (dst : BitVec 16) (shiftAmt : BitVec 8) : CbResult :=
  logicalShiftAmt .rShf m dst shiftAmt

def shrImm (m : Meta) : CbResult := shrImmAmt m (gpr m.insn.dstReg) (m.insn.imm.setWidth 8)

def shrReg (m : Meta) : CbResult :=
  let dst := gpr m.insn.dstReg
  if m.uminSrc = m.umaxSrc then shrImmAmt m dst (m.uminSrc.setWidth 8)
  else
    ok m (emitAlu regNone (regA (gpr m.insn.srcReg)) .or (regImm 0) ++
      emitShfIndir (regBoth dst) regNone .none (regB dst) .rShf ++ wrpZext m dst)

def shlImmAmt (m : Meta) (dst : BitVec 16) (shiftAmt : BitVec 8) : CbResult :=
  logicalShiftAmt .lShf m dst shiftAmt

def shlImm (m : Meta) : CbResult := shlImmAmt m (gpr m.insn.dstReg) (m.insn.imm.setWidth 8)

def shlReg (m : Meta) : CbResult :=
  let dst := gpr m.insn.dstReg
  if m.uminSrc = m.umaxSrc then shlImmAmt m dst (m.uminSrc.setWidth 8)
  else ok m (shlReg64Lt32Low dst (gpr m.insn.srcReg) ++ wrpZext m dst)

structure ReciprocalValueAdv where
  m : BitVec 32
  sh : BitVec 8
  exp : BitVec 8
  isWideM : Bool

def fls (x : BitVec 32) : Nat := if x = 0 then 0 else Nat.log2 x.toNat + 1

def wrpDivImm (reciprocal : BitVec 32 → BitVec 8 → ReciprocalValueAdv) (dst : BitVec 16) (imm : BitVec 64) :
    Code :=
  if imm > 0xffffffff then wrpImmed (regBoth dst) 0
  else if imm > 0x80000000 then
    let (load, tmpB) := urLoadImmAny (lo imm) immB
    load ++ emitAlu regNone (regA dst) .sub tmpB ++ wrpImmed immA 0 ++
      emitAlu (regBoth dst) immA .addC (regImm 0)
  else
    let first := reciprocal (lo imm) 32
    let pre := first.isWideM && imm &&& 1 == 0
    let preShift : BitVec 8 := if pre then BitVec.ofNat 8 (fls (lo (imm &&& -imm))) - 1 else 0
    let rvalue := if pre then reciprocal (lo (imm >>> preShift.toNat)) (32 - preShift) else first
    let (load, magic) := urLoadImmAny rvalue.m immB
    load ++
      if imm = 1 <<< first.exp.toNat then emitShf (regBoth dst) regNone .none (regA dst) .rShf first.exp
      else if rvalue.isWideM then
        wrpMulU32 immBoth regNone (regA dst) magic true ++ emitAlu (regBoth dst) (regA dst) .sub immB ++
          emitShf (regBoth dst) regNone .none (regA dst) .rShf 1 ++
          emitAlu (regBoth dst) (regA dst) .add immB ++
          emitShf (regBoth dst) regNone .none (regA dst) .rShf (rvalue.sh - 1)
      else
        (if preShift ≠ 0 then emitShf (regBoth dst) regNone .none (regA dst) .rShf preShift else []) ++
          wrpMulU32 (regBoth dst) regNone (regA dst) magic true ++
          emitShf (regBoth dst) regNone .none (regA dst) .rShf rvalue.sh

end NfpDriver.Jit
