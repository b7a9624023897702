import NfpDriver.Jit.Stack

namespace NfpDriver.Jit

open Asm Bpf Adder

def fault (m : Meta) (e : Errno) : CbResult := ⟨[], some e, m⟩

def ctxField (m : Meta) (size : Nat) (c : Code) : CbResult :=
  if size ≠ 4 then fault m .eopnotsupp else ok m (c ++ wrpImmed (regBoth (gpr m.insn.dstReg + 1)) 0)

def memLdxSkb (m : Meta) (size : Nat) : CbResult :=
  let dst := regBoth (gpr m.insn.dstReg)
  if m.insn.off = 0 then ctxField m size (wrpMov dst plenReg)
  else if m.insn.off = 76 then ctxField m size (wrpMov dst pptrReg)
  else if m.insn.off = 80 then ctxField m size (emitAlu dst plenReg .add pptrReg)
  else fault m .eopnotsupp

def memLdxXdp (m : Meta) (size : Nat) : CbResult :=
  let dst := regBoth (gpr m.insn.dstReg)
  if m.insn.off = 0 then ctxField m size (wrpMov dst pptrReg)
  else if m.insn.off = 4 then ctxField m size (emitAlu dst plenReg .add pptrReg)
  else fault m .eopnotsupp

def memLdxData (m : Meta) (size : Nat) : CbResult :=
  let (load, tmpReg) := reLoadImmAny (sext16 m.insn.off) immB
  ok m (load ++ dataLdHostOrderAddr32 m (gpr m.insn.srcReg) tmpReg (gpr m.insn.dstReg) size)

def memLdxEmem (m : Meta) (size : Nat) : CbResult :=
  let (load, tmpReg) := reLoadImmAny (sext16 m.insn.off) immB
  ok m (load ++ dataLdHostOrderAddr40 m (gpr m.insn.srcReg) tmpReg (gpr m.insn.dstReg) size)

def memLdxDataInitPktcache (m : Meta) : Code :=
  let (load, off) := reLoadImmAny (sext16 m.pktCache.rangeStart) immB
  let len : BitVec 8 := (m.pktCache.rangeEnd - m.pktCache.rangeStart).setWidth 8
  let xferNum : BitVec 8 := BitVec.ofNat 8 ((len.toNat + 3) / 4)
  let indir := len > 32
  load ++ (if indir then setPrevAluLen (xferNum - 1) else []) ++
    emitCmdAny .read32Swap .b32 0 (regA (gpr m.insn.srcReg)) off (xferNum - 1) .swap indir

def memLdxDataFromPktcacheUnaligned (m : Meta) (size : Nat) : Code :=
  let insnOff := m.insn.off - m.pktCache.rangeStart
  let dst := gpr m.insn.dstReg
  let idx : BitVec 16 := (insnOff.sdiv 4) &&& 0xff
  let off : BitVec 8 := (insnOff.srem 4).setWidth 8
  let size8 : BitVec 8 := BitVec.ofNat 8 size
  let size32 : BitVec 32 := BitVec.ofNat 32 size
  let spills := size32 > 4 - off.setWidth 32
  let dstLo := regBoth dst
  let dstHi := regBoth (dst + 1)
  let srcLo := regXfer idx
  let srcMid := regXfer (idx + 1)
  let srcHi := regXfer (idx + 2)
  let lenLo := if spills then 4 - off else size8
  let lenMid := if spills then (if size32 > 8 - off.setWidth 32 then 4 else size8 - lenLo) else 0
  wrpRegSubpart dstLo srcLo lenLo off ++
    if lenMid = 0 then wrpZext m dst
    else if size ≤ regWidth then wrpRegOrSubpart dstLo srcMid lenMid lenLo ++ wrpZext m dst
    else
      wrpRegOrSubpart dstLo srcMid (4 - lenLo) lenLo ++ wrpRegSubpart dstHi srcMid lenLo (4 - lenLo) ++
        wrpRegOrSubpart dstHi srcHi (4 - lenLo) lenLo

def memLdxDataFromPktcacheAligned (m : Meta) (size : Nat) : Code :=
  let diff := sext16 m.insn.off - sext16 m.pktCache.rangeStart
  let idx : BitVec 16 := ((diff.sdiv 4).setWidth 8).setWidth 16
  let dst := gpr m.insn.dstReg
  let dstLo := regBoth dst
  let srcLo := regXfer idx
  if size < regWidth then wrpRegSubpart dstLo srcLo (BitVec.ofNat 8 size) 0 ++ wrpZext m dst
  else if size = regWidth then wrpMov dstLo srcLo ++ wrpZext m dst
  else wrpMov dstLo srcLo ++ wrpMov (regBoth (dst + 1)) (regXfer (idx + 1))

def memLdxDataFromPktcache (m : Meta) (size : Nat) : Code :=
  if (m.insn.off - m.pktCache.rangeStart) &&& 3 = 0 then memLdxDataFromPktcacheAligned m size
  else memLdxDataFromPktcacheUnaligned m size

def stackPtrOff (m : Meta) : BitVec 32 := m.ptr.off + lo m.ptr.varOff.value

def memLdx (p : Prog) (size : Nat) (m : Meta) : CbResult :=
  if m.ldstGatherLen ≠ 0 then nfpCppMemcpy p m
  else
    match m.ptr.type with
    | .ptrToCtx => if p.type = .xdp then memLdxXdp m size else memLdxSkb m size
    | .ptrToPacket =>
      if m.pktCache.rangeEnd ≠ 0 then
        ok m ((if m.pktCache.doInit then memLdxDataInitPktcache m else []) ++ memLdxDataFromPktcache m size)
      else memLdxData m size
    | .ptrToStack => memLdxStack p m size (stackPtrOff m)
    | .ptrToMapValue => memLdxEmem m size
    | _ => fault m .eopnotsupp

def memStData (m : Meta) (size : Nat) : CbResult :=
  let (load, offReg) := reLoadImmAny (sext16 m.insn.off) immB
  ok m (load ++ dataStHostOrder (gpr m.insn.dstReg) offReg (sextImm m.insn) size)

def memSt (size : Nat) (m : Meta) : CbResult :=
  if m.ptr.type = .ptrToPacket then memStData m size else fault m .eopnotsupp

def memStxData (m : Meta) (size : Nat) : CbResult :=
  let (load, offReg) := reLoadImmAny (sext16 m.insn.off) immB
  ok m (load ++ dataStxHostOrder (gpr m.insn.dstReg) offReg (gpr m.insn.srcReg) size)

def nfpQueueSelect (off : Nat) (m : Meta) : CbResult :=
  let jmpTgt := off + 5
  let src := gpr m.insn.srcReg
  let c := emitAlu regNone (regA src) .andNotB (regImm 0xff) ++ emitBr .beq (BitVec.ofNat 16 jmpTgt) 2 ++
    emitShf pvQselSet pvQselSet .or (regImm 1) .lShf 4 ++ emitLdField pvQselVal 0x1 (regB src) .none 0 ++
    emitLdField pvQselVal 0x1 (regImm 64) .none 0
  if !confirmCurrentOffset off c jmpTgt then ⟨c, some .einval, m⟩ else ok m c

def memStxXdp (off : Nat) (m : Meta) : CbResult :=
  if m.insn.off = 16 then nfpQueueSelect off m else fault m .eopnotsupp

def memStx (p : Prog) (size : Nat) (m : Meta) : CbResult :=
  match m.ptr.type with
  | .ptrToPacket => memStxData m size
  | .ptrToStack => memStxStack p m size (stackPtrOff m)
  | _ => fault m .eopnotsupp

def memStx4 (p : Prog) (off : Nat) (m : Meta) : CbResult :=
  if m.ptr.type = .ptrToCtx ∧ p.type = .xdp then memStxXdp off m else memStx p 4 m

def memXadd (off : Nat) (is64 : Bool) (m : Meta) : CbResult :=
  let dst := gpr m.insn.dstReg
  let src := gpr m.insn.srcReg
  let (load, offReg) := urLoadImmAny (sext16 m.insn.off) immB
  let start := currentOffset off load
  let both := m.xaddMaybe16bit && m.xaddOver16bit
  let fullAdd := start + (if m.insn.off ≠ 0 then 2 else 0) + (if m.xaddMaybe16bit then 3 else 0) +
    (if both then 5 else 0)
  let out := fullAdd + (if m.xaddOver16bit then 2 + is64.toNat else 0)
  let choose :=
    if both then
      wrpImmed immA 0xffff ++ emitAlu regNone immA .sub (regB src) ++
        emitAlu regNone (regImm 0) .subC (regB (src + 1)) ++
        emitBr .blo (BitVec.ofNat 16 fullAdd) (if m.insn.off ≠ 0 then 2 else 0)
    else []
  let (addrCode, addra, addrb) :=
    if m.insn.off = 0 then ([], regA dst, regB (dst + 1))
    else
      (emitAlu immaA (regA dst) .add offReg ++ emitAlu immaB (regA (dst + 1)) .addC (regImm 0), immaA, immaB)
  let len : BitVec 32 := if is64 then 0xc else 0x8
  let addImm :=
    if m.xaddMaybe16bit then
      wrpImmed immA ((2 <<< 3) ||| cmdOveLen ||| (len <<< 8)) ++ wrpRegOrSubpart immA (regB src) 2 2 ++
        emitCmdIndir .addImm .b40Ba 0 addra addrb 0 .noSwap ++
        (if m.xaddOver16bit then emitBr .unc (BitVec.ofNat 16 out) 0 else [])
    else []
  let c1 := load ++ choose ++ addrCode ++ addImm
  if !confirmCurrentOffset off c1 fullAdd then ⟨c1, some .einval, m⟩
  else
    let add :=
      if m.xaddOver16bit then
        emitCmd .add .b40Ba 0 addra addrb (if is64 then 4 else 0) (if is64 then .swapDefer2 else .swapDefer1) ++
          wrpMov (regXfer 0) (regA src) ++ (if is64 then wrpMov (regXfer 1) (regA (src + 1)) else [])
      else []
    let c2 := c1 ++ add
    if !confirmCurrentOffset off c2 out then ⟨c2, some .einval, m⟩ else ok m c2

def memAtomic (off : Nat) (is64 : Bool) (m : Meta) : CbResult :=
  if m.insn.imm ≠ bpfAdd.setWidth 32 then fault m .eopnotsupp else memXadd off is64 m

end NfpDriver.Jit
