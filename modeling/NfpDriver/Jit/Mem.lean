import NfpDriver.Jit.Shift

namespace NfpDriver.Jit

open Asm Bpf Adder

inductive ProgType where
  | schedCls
  | xdp
  | other
  deriving DecidableEq, Repr

structure SubprogInfo where
  stackDepth : BitVec 16
  needsRegPush : Bool
  deriving DecidableEq, Repr

structure Prog where
  type : ProgType
  stackFrameDepth : BitVec 32
  adjustHeadLocation : BitVec 32
  adjustHeadOffMin : BitVec 32
  adjustHeadOffMax : BitVec 32
  subprog : List SubprogInfo
  insns : List Meta
  reciprocalValueAdv : BitVec 32 → BitVec 8 → ReciprocalValueAdv
  regTypeCode : RegType → BitVec 32

instance : Inhabited Prog :=
  ⟨⟨.other, 0, 0, 0, 0, [], [], fun _ _ => ⟨0, 0, 0, false⟩, fun _ => 0⟩⟩

def subprogAt (p : Prog) (idx : Nat) : SubprogInfo := p.subprog.getD idx ⟨0, false⟩

def regWidth : Nat := 4

abbrev cmdOveLen : BitVec 32 := 0x80

def cmdOvLen (v : BitVec 8) : BitVec 32 := (v.setWidth 32 <<< 8) &&& 0x1f00

def setPrevAluLen (v : BitVec 8) : Code := wrpImmed regNone (cmdOveLen ||| cmdOvLen v)

def sext16 (v : BitVec 16) : BitVec 32 := v.signExtend 32

def movXfers (n : Nat) : Code :=
  (List.range n).flatMap fun i => wrpMov (regXfer (BitVec.ofNat 16 i)) (regXfer (BitVec.ofNat 16 i))

def cppWriteBack (st : Insn) (len : Nat) (xferNum : BitVec 8) : Code :=
  let (load, off) := reLoadImmAny (sext16 st.off) immB
  let base := regA (gpr st.dstReg)
  let len8 : BitVec 8 := BitVec.ofNat 8 len
  load ++
    if len ≤ 8 then emitCmd .write8Swap .b32 0 base off (len8 - 1) .swap
    else if len ≤ 32 ∧ len % 4 = 0 then emitCmd .write32Swap .b32 0 base off (xferNum - 1) .swap
    else if len ≤ 32 then
      setPrevAluLen (len8 - 1) ++ emitCmdIndir .write8Swap .b32 0 base off (len8 - 1) .swap
    else if len % 4 = 0 then
      setPrevAluLen (xferNum - 1) ++ emitCmdIndir .write32Swap .b32 0 base off (xferNum - 1) .swap
    else if len ≤ 40 then
      let (load2, off2) := reLoadImmAny (sext16 st.off + 32) immB
      emitCmd .write32Swap .b32 0 base off 7 .swap ++ load2 ++
        emitCmd .write8Swap .b32 8 base off2 (len8 - 33) .swap
    else
      let newOff : BitVec 8 := st.off.setWidth 8 + (xferNum - 1) * 4
      let (load2, off2) := reLoadImmAny (newOff.setWidth 32) immB
      setPrevAluLen (xferNum - 2) ++ emitCmdIndir .write32Swap .b32 0 base off (xferNum - 2) .swap ++ load2 ++
        emitCmd .write8Swap .b32 (xferNum - 1) base off2 ((len8 &&& 3) - 1) .swap

def cppReload (insn : Insn) (len : Nat) (xferNum : BitVec 8) : Code :=
  let dst := gpr insn.dstReg
  let src := regXfer (xferNum.setWidth 16)
  let size := bpfSize insn.code
  let low : BitVec 8 := BitVec.ofNat 8 (len % 4)
  (if size = bpfB then wrpRegSubpart (regBoth dst) src 1 (if len % 4 = 0 then 3 else low - 1)
  else if size = bpfH then wrpRegSubpart (regBoth dst) src 2 (low ^^^ 2)
  else if size = bpfW then wrpMov (regBoth dst) (regXfer 0)
  else wrpMov (regBoth dst) src ++ wrpMov (regBoth (dst + 1)) (regXfer (xferNum.setWidth 16 + 1))) ++
  if size ≠ bpfDw then wrpImmed (regBoth (dst + 1)) 0 else []

def nfpCppMemcpy (p : Prog) (m : Meta) : CbResult :=
  let len := m.ldstGatherLen.natAbs
  let xferNum : BitVec 8 := BitVec.ofNat 8 ((len + 3) / 4)
  let st := (metaAt p.insns (m.pairedSt.getD 0)).insn
  let (load, off) := reLoadImmAny (sext16 m.insn.off) immB
  let wide := m.ptr.type = .ptrToMapValue
  let (addr, srcBase, off) :=
    if wide then addr40Offset (gpr m.insn.srcReg) off else ([], regA (gpr m.insn.srcReg), off)
  let last : BitVec 8 :=
    if m.ldstGatherLen < 0 then 0 else if bpfSize m.insn.code ≠ bpfDw then xferNum - 1 else xferNum - 2
  ok m (load ++ addr ++ (if len > 32 then setPrevAluLen (xferNum - 1) else []) ++
    emitCmdAny .read32Swap (if wide then .b40Ba else .b32) 0 srcBase off (xferNum - 1) .swap (len > 32) ++
    movXfers xferNum.toNat ++ cppWriteBack st len xferNum ++ cppReload m.insn len last)

def movLoaded (dst : BitVec 16) (n : Nat) : Code :=
  (List.range n).flatMap fun i => wrpMov (regBoth (dst + BitVec.ofNat 16 i)) (regXfer (BitVec.ofNat 16 i))

def dataLd (m : Meta) (offset : Swreg) (dst : BitVec 16) (size : Nat) : Code :=
  let sz := max size 4
  emitCmd .read8 .b32 0 pptrReg offset (BitVec.ofNat 8 (sz - 1)) .swap ++
    if size < 4 then
      emitShf (regBoth dst) regNone .none (regXfer 0) .rShf (BitVec.ofNat 8 ((4 - size) * 8)) ++ wrpZext m dst
    else movLoaded dst ((size + 3) / 4) ++ if (size + 3) / 4 < 2 then wrpZext m dst else []

def dataLdHostOrder (m : Meta) (dst : BitVec 16) (lreg rreg : Swreg) (size : Nat) (mode : CmdMode) : Code :=
  let sz := max size 4
  emitCmd .read32Swap mode 0 lreg rreg (BitVec.ofNat 8 (sz / 4 - 1)) .swap ++
    if size < 4 then
      emitLdFieldAny (regBoth dst) (BitVec.ofNat 8 (2 ^ size - 1)) (regXfer 0) .none 0 true ++ wrpZext m dst
    else movLoaded dst ((size + 3) / 4) ++ if (size + 3) / 4 < 2 then wrpZext m dst else []

def dataLdHostOrderAddr32 (m : Meta) (src : BitVec 16) (offset : Swreg) (dst : BitVec 16) (size : Nat) : Code :=
  dataLdHostOrder m dst (regA src) offset size .b32

def dataLdHostOrderAddr40 (m : Meta) (src : BitVec 16) (offset : Swreg) (dst : BitVec 16) (size : Nat) : Code :=
  let (addr, rega, regb) := addr40Offset src offset
  addr ++ dataLdHostOrder m dst rega regb size .b40Ba

abbrev brOffRelo : BitVec 16 := 15000

def constructDataIndLd (m : Meta) (offset src : BitVec 16) (size : Nat) : CbResult :=
  let (load, tmpReg) := urLoadImmAny (offset.setWidth 32) immB
  ok m (load ++ emitAlu immBoth (regA src) .add tmpReg ++
    emitAlu immA immA .add (regImm (BitVec.ofNat 16 size)) ++ emitAlu regNone plenReg .sub immA ++
    emitBrRelo .blo brOffRelo 0 .brGoAbort ++ dataLd m immB 0 size)

def constructDataLd (m : Meta) (offset : BitVec 16) (size : Nat) : CbResult :=
  let (load, tmpReg) := urLoadImmAny (offset.setWidth 32 + BitVec.ofNat 32 size) immA
  let (load2, tmpReg2) := reLoadImmAny (offset.setWidth 32) immB
  ok m (load ++ emitAlu regNone plenReg .sub tmpReg ++ emitBrRelo .blo brOffRelo 0 .brGoAbort ++ load2 ++
    dataLd m tmpReg2 0 size)

def dataLdN (size : Nat) (m : Meta) : CbResult := constructDataLd m (m.insn.imm.setWidth 16) size

def dataIndLdN (size : Nat) (m : Meta) : CbResult :=
  constructDataIndLd m (m.insn.imm.setWidth 16) (gpr m.insn.srcReg) size

def dataStxHostOrder (dst : BitVec 16) (offset : Swreg) (src : BitVec 16) (size : Nat) : Code :=
  ((List.range ((size + 3) / 4)).flatMap fun i =>
    wrpMov (regXfer (BitVec.ofNat 16 i)) (regA (src + BitVec.ofNat 16 i))) ++
  emitCmd .write8Swap .b32 0 (regA dst) offset (BitVec.ofNat 8 (size - 1)) .swap

def dataStHostOrder (dst : BitVec 16) (offset : Swreg) (imm : BitVec 64) (size : Nat) : Code :=
  wrpImmed (regXfer 0) (lo imm) ++ (if size = 8 then wrpImmed (regXfer 1) (hi imm) else []) ++
    emitCmd .write8Swap .b32 0 (regA dst) offset (BitVec.ofNat 8 (size - 1)) .swap

def immLd8 (m : Meta) : CbResult := ok { m with doubleCb := true } []

end NfpDriver.Jit
