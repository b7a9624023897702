import NfpDriver.Jit.Access

namespace NfpDriver.Jit

open Asm Bpf Adder

abbrev bpfFuncMapLookupElem : BitVec 32 := 1
abbrev bpfFuncMapUpdateElem : BitVec 32 := 2
abbrev bpfFuncMapDeleteElem : BitVec 32 := 3
abbrev bpfFuncGetPrandomU32 : BitVec 32 := 7
abbrev bpfFuncPerfEventOutput : BitVec 32 := 25
abbrev bpfFuncXdpAdjustHead : BitVec 32 := 44
abbrev bpfFuncXdpAdjustTail : BitVec 32 := 65

def adjustHead (p : Prog) (off : Nat) (m : Meta) : CbResult :=
  let delta := regA 4
  if p.adjustHeadLocation ≠ 0xffffffff then
    if p.adjustHeadLocation.toNat ≠ m.n then fault m .einval
    else
      ok m (emitAlu pptrReg delta .add pptrReg ++ emitAlu plenReg plenReg .sub delta ++
        emitAlu pvLen pvLen .sub delta ++ wrpImmed (regBoth 0) 0 ++ wrpImmed (regBoth 1) 0)
  else
    let retEinval := off + 14
    let tgtEinval : BitVec 16 := BitVec.ofNat 16 retEinval
    let tgtEnd := retEinval + 2
    let c1 := emitAlu immA delta .add2b pptrReg ++
      emitAlu regNone immA .sub (regImm (p.adjustHeadOffMin.setWidth 16)) ++ emitBr .blo tgtEinval 0 ++
      emitAlu regNone (regImm (p.adjustHeadOffMax.setWidth 16)) .sub immA ++ emitBr .blo tgtEinval 0 ++
      emitAlu immB plenReg .sub delta ++ emitAlu regNone immB .sub (regImm 14) ++ emitBr .bmi tgtEinval 0 ++
      wrpImmed (regBoth 0) 0 ++ wrpImmed (regBoth 1) 0 ++ emitLdField pptrReg 0x3 immA .none 0 ++
      emitBr .unc (BitVec.ofNat 16 tgtEnd) 2 ++ emitAlu plenReg plenReg .sub delta ++
      emitAlu pvLen pvLen .sub delta
    if !confirmCurrentOffset off c1 retEinval then ⟨c1, some .einval, m⟩
    else
      let c2 := c1 ++ wrpImmed (regBoth 0) (-22) ++ wrpImmed (regBoth 1) (~~~0)
      if !confirmCurrentOffset off c2 tgtEnd then ⟨c2, some .einval, m⟩ else ok m c2

def adjustTail (off : Nat) (m : Meta) : CbResult :=
  let delta := regA 4
  let retEinval := off + 9
  let tgtEinval : BitVec 16 := BitVec.ofNat 16 retEinval
  let tgtEnd := off + 11
  let c1 := emitAlu immA plenReg .add delta ++ emitBr .blo tgtEinval 0 ++
    emitAlu regNone immA .sub (regImm 14) ++ emitBr .bmi tgtEinval 0 ++ emitAlu plenReg plenReg .add delta ++
    emitAlu pvLen pvLen .add delta ++ emitBr .unc (BitVec.ofNat 16 tgtEnd) 2 ++ wrpImmed (regBoth 0) 0 ++
    wrpImmed (regBoth 1) 0
  if !confirmCurrentOffset off c1 retEinval then ⟨c1, some .einval, m⟩
  else
    let c2 := c1 ++ wrpImmed (regBoth 0) (-22) ++ wrpImmed (regBoth 1) (~~~0)
    if !confirmCurrentOffset off c2 tgtEnd then ⟨c2, some .einval, m⟩ else ok m c2

def helperBranch (m : Meta) : Code := emitBrRelo .unc (brOffRelo + m.funcId.setWidth 16) 2 .brHelper

def mapCallStackCommon (p : Prog) (off : Nat) (m : Meta) : CbResult :=
  let lmOff := p.stackFrameDepth.setWidth 64 + (m.arg2.varOff.value + m.arg2.off.signExtend 64)
  let loadLmPtr := m.arg2VarOff || lmOff != 0
  let c1 := (if loadLmPtr then emitCsrWr (regB 4) csrActLmAddr0 else []) ++
    (if m.funcId = bpfFuncMapUpdateElem then emitCsrWr (regB 6) csrActLmAddr2 else []) ++ helperBranch m
  let retTgt := currentOffset off c1 + 2
  let c2 := c1 ++ wrpMov (regA 0) (regA 2) ++ wrpImmedRelo (regB 0) (BitVec.ofNat 32 retTgt) .immedRel
  if !confirmCurrentOffset off c2 retTgt then ⟨c2, some .einval, m⟩
  else if !loadLmPtr then ok m c2
  else ok m (c2 ++ emitCsrWr stackReg csrActLmAddr0 ++ wrpNops 3)

def nfpGetPrandomU32 (m : Meta) : CbResult :=
  ok m (emitCsrRd csrPseudoRndNum ++ emitImmed (regBoth 0) 0 .all false .b0 ++
    emitImmed (regBoth 1) 0 .all false .b0)

def nfpPerfEventOutput (p : Prog) (off : Nat) (m : Meta) : CbResult :=
  let (load, ptrType) := urLoadImmAny (p.regTypeCode m.arg1.type) immA
  let retTgt := currentOffset off load + 3
  let c := load ++ helperBranch m ++ wrpMov (regA 1) ptrType ++
    wrpImmedRelo (regB 0) (BitVec.ofNat 32 retTgt) .immedRel
  if !confirmCurrentOffset off c retTgt then ⟨c, some .einval, m⟩ else ok m c

def helperCall (p : Prog) (off : Nat) (m : Meta) : CbResult :=
  if m.insn.imm = bpfFuncXdpAdjustHead then adjustHead p off m
  else if m.insn.imm = bpfFuncXdpAdjustTail then adjustTail off m
  else if m.insn.imm = bpfFuncMapLookupElem ∨ m.insn.imm = bpfFuncMapUpdateElem ∨
      m.insn.imm = bpfFuncMapDeleteElem then mapCallStackCommon p off m
  else if m.insn.imm = bpfFuncGetPrandomU32 then nfpGetPrandomU32 m
  else if m.insn.imm = bpfFuncPerfEventOutput then nfpPerfEventOutput p off m
  else fault m .eopnotsupp

abbrev stackFrameAlign : BitVec 32 := 64

def callStackDepth (p : Prog) : BitVec 32 := roundUp p.stackFrameDepth stackFrameAlign

def callPre (stackDepth : BitVec 32) : Code :=
  if stackDepth ≠ 0 then
    let (load, tmpReg) := urLoadImmAny stackDepth stackImm
    load ++ emitAlu stackReg stackReg .add tmpReg ++ emitCsrWr stackReg csrActLmAddr0
  else []

def callPost (stackDepth : BitVec 32) : Code :=
  if stackDepth ≠ 0 then
    let (load, tmpReg) := urLoadImmAny stackDepth stackImm
    load ++ emitAlu stackReg stackReg .sub tmpReg ++ emitCsrWr stackReg csrActLmAddr0 ++ wrpNops 3
  else []

def callBranch (push : Bool) (m : Meta) : Code :=
  if push then emitBrRelo .unc brOffRelo 2 .brGoCallPushRegs else emitBr .unc (m.insn.imm.setWidth 16) 1

def callCallee (push : Bool) : Code := if push then wrpImmedRelo immB 0 .immedRel else []

def bpfToBpfCall (p : Prog) (off : Nat) (m : Meta) : CbResult :=
  let stackDepth := callStackDepth p
  let c0 := callPre stackDepth
  match m.jmpDst with
  | none => ⟨c0, some .eloop, m⟩
  | some dst =>
    let push := (subprogAt p (metaAt p.insns dst).subprogIdx).needsRegPush
    let retTgt := currentOffset off c0 + if push then 3 else 2
    let c1 := c0 ++ callBranch push m
    let c2 := c1 ++ callCallee push ++ wrpImmedRelo retReg (BitVec.ofNat 32 retTgt) .immedRel
    if !confirmCurrentOffset off c2 retTgt then ⟨c2, some .einval, m⟩
    else
      let c3 := c2 ++ callPost stackDepth
      ok { m with numInsnsAfterBr := currentOffset off c3 - currentOffset off c1 } c3

def call (p : Prog) (off : Nat) (m : Meta) : CbResult :=
  if isMbpfPseudoCall m then bpfToBpfCall p off m else helperCall p off m

def nfpIsMainFunction (m : Meta) : Bool := m.subprogIdx == 0

def gotoOut (m : Meta) : CbResult := ok m (emitBrRelo .unc brOffRelo 0 .brGoOut)

def nfpSubprogEpilogue (p : Prog) (m : Meta) : CbResult :=
  if (subprogAt p m.subprogIdx).needsRegPush then
    ok m (emitBrRelo .unc brOffRelo 1 .brGoCallPopRegs ++ wrpMov retReg (regLm 0 0))
  else ok m (wrpMov retReg (regLm 0 0) ++ emitRtn retReg 0)

def jmpExit (p : Prog) (m : Meta) : CbResult :=
  if nfpIsMainFunction m then gotoOut m else nfpSubprogEpilogue p m

end NfpDriver.Jit
