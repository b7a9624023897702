import NfpDriver.Jit.Mem

namespace NfpDriver.Jit

open Asm Bpf Adder

structure LmemAccess where
  gpr : BitVec 16
  gprByte : BitVec 32
  off : BitVec 32
  size : BitVec 32
  first : Bool
  newGpr : Bool
  last : Bool
  lm3 : Bool
  needsInc : Bool

abbrev LmemStep := LmemAccess → Code × Option Errno

def LmemAccess.shouldInc (x : LmemAccess) : Bool := x.needsInc && x.newGpr && !x.last

def LmemAccess.idx (x : LmemAccess) : BitVec 32 := x.off.sdiv 4

def LmemAccess.lmReg (x : LmemAccess) : Swreg := regLm (if x.lm3 then 3 else 0) (x.idx.setWidth 8)

def lmShift (src dst : BitVec 32) : ShfSc × BitVec 8 :=
  if src = dst then (.none, 0)
  else if src < dst then (.lShf, 32 - (dst - src).setWidth 8 * 8)
  else (.rShf, (src - dst).setWidth 8 * 8)

def LmemAccess.misfit (x : LmemAccess) : Bool :=
  x.gprByte + x.size > 4 || x.off.srem 4 + x.size > 4

def lmMask (size byte : BitVec 32) : BitVec 8 :=
  (((1 : BitVec 8) <<< size.toNat) - 1) <<< byte.toNat

def wrpLmemLoad : LmemStep := fun x =>
  if x.misfit then ([], some .eopnotsupp)
  else if x.size = 4 then
    (wrpMov (regBoth x.gpr) (if x.shouldInc then regLmInc 3 else x.lmReg), none)
  else if x.lm3 ∧ x.idx > 7 then ([], some .eopnotsupp)
  else
    let srcByte := x.off.srem 4
    let mask := lmMask x.size x.gprByte
    if mask > 0xf then ([], some .eopnotsupp)
    else
      let (sc, shf) := lmShift srcByte x.gprByte
      let (pre, reg) :=
        if x.idx ≤ 7 then ([], x.lmReg)
        else (if x.first || !x.newGpr then wrpMov immA (regLm 0 (x.idx.setWidth 8)) else [], immA)
      (pre ++ emitLdFieldAny (regBoth x.gpr) mask reg sc shf x.newGpr ++
        (if x.shouldInc then wrpMov regNone (regLmInc 3) else []), none)

def wrpLmemStore : LmemStep := fun x =>
  if x.misfit then ([], some .eopnotsupp)
  else if x.size = 4 then
    (wrpMov (if x.shouldInc then regLmInc 3 else x.lmReg) (regB x.gpr), none)
  else if x.lm3 ∧ x.idx > 7 then ([], some .eopnotsupp)
  else
    let dstByte := x.off.srem 4
    let mask := lmMask x.size dstByte
    if mask > 0xf then ([], some .eopnotsupp)
    else
      let (sc, shf) := lmShift x.gprByte dstByte
      let (pre, reg) :=
        if x.idx ≤ 7 then ([], x.lmReg)
        else (if x.first || x.last then wrpMov immA (regLm 0 (x.idx.setWidth 8)) else [], immA)
      (pre ++ emitLdField reg mask (regB x.gpr) sc shf ++
        (if x.newGpr || x.last then
          (if x.idx > 7 then wrpMov (regLm 0 (x.idx.setWidth 8)) reg else []) ++
            (if x.shouldInc then wrpMov regNone (regLmInc 3) else [])
        else []), none)

abbrev csrActLmAddr0 : BitVec 16 := 0x64
abbrev csrActLmAddr2 : BitVec 16 := 0x94
abbrev csrActLmAddr3 : BitVec 16 := 0x9c
abbrev csrPseudoRndNum : BitVec 16 := 0x148

def roundDown (x y : BitVec 32) : BitVec 32 := x &&& ~~~(y - 1)

def roundUp (x y : BitVec 32) : BitVec 32 := ((x - 1) ||| (y - 1)) + 1

def smin (x y : BitVec 32) : BitVec 32 := if x.slt y then x else y

def lmemSlices (step : LmemStep) (lm3 needsInc : Bool) :
    Nat → BitVec 16 → Option (BitVec 16) → BitVec 32 → BitVec 32 → BitVec 32 → Code × Option Errno
  | 0, _, _, _, _, _ => ([], none)
  | fuel + 1, gpr, prevGpr, gprByte, off, size =>
    if size = 0 then ([], none)
    else
      let sliceSize := if size < 4 - gprByte then size else 4 - gprByte
      let sliceEnd := smin (off + sliceSize) (roundUp (off + 1) 4)
      let sliceSize := sliceEnd - off
      let off := if needsInc then off.srem 4 else off
      let (code, err) := step {
        gpr := gpr
        gprByte := gprByte
        off := off
        size := sliceSize
        first := prevGpr.isNone
        newGpr := prevGpr ≠ some gpr
        last := sliceSize = size
        lm3 := lm3
        needsInc := needsInc }
      if err.isSome then (code, err)
      else
        let byte := gprByte + sliceSize
        let rest := lmemSlices step lm3 needsInc fuel (if byte ≥ 4 then gpr + 1 else gpr) (some gpr)
          (if byte ≥ 4 then byte - 4 else byte) (off + sliceSize) (size - sliceSize)
        (code ++ rest.1, rest.2)

structure StackSetup where
  code : Code
  lm3 : Bool
  needsInc : Bool
  off : BitVec 32

def stackSetup (p : Prog) (m : Meta) (size : Nat) (ptrOff : BitVec 32) (ptrGpr : BitVec 16) : StackSetup :=
  let off := p.stackFrameDepth + sext16 m.insn.off + ptrOff
  let sz : BitVec 32 := BitVec.ofNat 32 size
  if m.ptrNotConst ∨ m.hasFlag flagInsnPtrCallerStackFrame then
    let (load, stackOffReg) := urLoadImmAny (sext16 m.insn.off) stackImm
    ⟨load ++ emitAlu immB (regA ptrGpr) .add stackOffReg, true, true, off⟩
  else if off + sz ≤ 64 then ⟨[], false, false, off⟩
  else if roundDown off 32 = roundDown (off + sz - 1) 32 then
    let (load, stackOffReg) := urLoadImmAny (roundDown off 32) stackImm
    ⟨load ++ emitAlu immB stackReg .add stackOffReg, true, false, off.srem 32⟩
  else
    let (load, stackOffReg) := urLoadImmAny (roundDown off 4) stackImm
    ⟨load ++ emitAlu immB stackReg .add stackOffReg, true, true, off⟩

def memOpStack (p : Prog) (m : Meta) (size : Nat) (ptrOff : BitVec 32) (gpr ptrGpr : BitVec 16) (clrGpr : Bool)
    (step : LmemStep) : CbResult :=
  let setup := stackSetup p m size ptrOff ptrGpr
  let narrowLd := clrGpr && size < 8
  let addr :=
    if setup.lm3 then
      emitCsrWr immB csrActLmAddr3 ++ wrpNops (if narrowLd && m.hasFlag flagInsnDoZext then 2 else 3)
    else []
  let slices := lmemSlices step setup.lm3 setup.needsInc size gpr none 0 setup.off (BitVec.ofNat 32 size)
  ⟨setup.code ++ addr ++ (if narrowLd then wrpZext m gpr else []) ++ slices.1, slices.2, m⟩

def memLdxStack (p : Prog) (m : Meta) (size : Nat) (ptrOff : BitVec 32) : CbResult :=
  memOpStack p m size ptrOff (gpr m.insn.dstReg) (gpr m.insn.srcReg) true wrpLmemLoad

def memStxStack (p : Prog) (m : Meta) (size : Nat) (ptrOff : BitVec 32) : CbResult :=
  memOpStack p m size ptrOff (gpr m.insn.srcReg) (gpr m.insn.dstReg) false wrpLmemStore

end NfpDriver.Jit
