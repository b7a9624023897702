import NfpDriver.Asm.Op

namespace NfpDriver.Jit

open Asm Fields

inductive Relo where
  | none
  | brRel
  | brGoOut
  | brGoAbort
  | brGoCallPushRegs
  | brGoCallPopRegs
  | brNextPkt
  | brHelper
  | immedRel
  deriving DecidableEq, Repr

inductive Effect where
  | push (op : Op) (relo : Relo)
  | fault (e : Errno)
  deriving DecidableEq, Repr

abbrev Code := List Effect

def Effect.op? : Effect → Option Op
  | .push op _ => some op
  | .fault _ => none

def ops (c : Code) : List Op := c.filterMap Effect.op?

@[simp] theorem ops_nil : ops [] = [] := rfl

@[simp] theorem ops_append (c d : Code) : ops (c ++ d) = ops c ++ ops d := List.filterMap_append

@[simp] theorem ops_push (op : Op) (r : Relo) (c : Code) : ops (.push op r :: c) = op :: ops c := rfl

@[simp] theorem ops_fault (e : Errno) (c : Code) : ops (.fault e :: c) = ops c := rfl

def emitCmdAny (op : CmdTgt) (mode : CmdMode) (xfer : BitVec 8) (lreg rreg : Swreg) (size : BitVec 8)
    (ctx : CmdCtx) (indir : Bool) : Code :=
  match swregToRestricted regNone lreg rreg false with
  | .error e => [.fault e]
  | .ok reg =>
    if reg.swap then [.fault .efault]
    else if reg.dstLmextn || reg.srcLmextn then [.fault .efault]
    else [.push (.cmd op mode xfer reg.areg reg.breg size ctx indir) .none]

def emitCmd (op : CmdTgt) (mode : CmdMode) (xfer : BitVec 8) (lreg rreg : Swreg) (size : BitVec 8)
    (ctx : CmdCtx) : Code :=
  emitCmdAny op mode xfer lreg rreg size ctx false

def emitCmdIndir (op : CmdTgt) (mode : CmdMode) (xfer : BitVec 8) (lreg rreg : Swreg) (size : BitVec 8)
    (ctx : CmdCtx) : Code :=
  emitCmdAny op mode xfer lreg rreg size ctx true

def emitBrRelo (mask : BrMask) (addr : BitVec 16) (defer : BitVec 8) (relo : Relo) : Code :=
  if mask = .unc ∧ defer > 2 then [.fault .efault]
  else [.push (.br mask (if mask ≠ .unc then .cond else .uncond) brCssNone addr defer) relo]

def emitBr (mask : BrMask) (addr : BitVec 16) (defer : BitVec 8) : Code := emitBrRelo mask addr defer .brRel

def emitBrBitRelo (src : Swreg) (bit : BitVec 8) (addr : BitVec 16) (defer : BitVec 8) (set : Bool)
    (relo : Relo) : Code :=
  match swregToRestricted regNone src (regImm ((bit + 1).setWidth 16)) false with
  | .error e => [.fault e]
  | .ok reg =>
    [.push (.brBit (reg.areg.setWidth 16) (reg.breg.setWidth 16) addr defer set reg.srcLmextn) relo]

def emitBrBset (src : Swreg) (bit : BitVec 8) (addr : BitVec 16) (defer : BitVec 8) : Code :=
  emitBrBitRelo src bit addr defer true .brRel

def emitRtn (base : Swreg) (defer : BitVec 8) : Code :=
  match swregToUnrestricted regNone base (regImm 0) with
  | .error e => [.fault e]
  | .ok reg => [.push (.brAlu reg.areg reg.breg 0 defer reg.dstLmextn reg.srcLmextn) .none]

def emitImmedRelo (dst : Swreg) (imm : BitVec 16) (width : ImmedWidth) (invert : Bool) (shift : ImmedShift)
    (relo : Relo) : Code :=
  if dst.type = .imm then [.fault .efault]
  else
    match swregToUnrestricted dst dst (regImm (imm &&& 0xff)) with
    | .error e => [.fault e]
    | .ok reg =>
      [.push (.immed (if dst.type = .none then reg.dst else reg.areg) reg.breg (imm >>> 8) width invert shift
        reg.wrBoth reg.dstLmextn reg.srcLmextn) relo]

def emitImmed (dst : Swreg) (imm : BitVec 16) (width : ImmedWidth) (invert : Bool) (shift : ImmedShift) :
    Code :=
  emitImmedRelo dst imm width invert shift .none

def emitShf (dst lreg : Swreg) (op : ShfOp) (rreg : Swreg) (sc : ShfSc) (shift : BitVec 8) : Code :=
  match swregToRestricted dst lreg rreg true with
  | .error e => [.fault e]
  | .ok reg =>
    if shift > 0x1f then [.fault .efault]
    else [.push (.shf (reg.dst.setWidth 16) reg.dstAb sc shift (reg.areg.setWidth 16) op
      (reg.breg.setWidth 16) reg.i8 reg.swap reg.wrBoth reg.dstLmextn reg.srcLmextn) .none]

def emitShfIndir (dst lreg : Swreg) (op : ShfOp) (rreg : Swreg) (sc : ShfSc) : Code :=
  if sc = .rRot then [.fault .efault] else emitShf dst lreg op rreg sc 0

def emitAlu (dst lreg : Swreg) (op : AluOp) (rreg : Swreg) : Code :=
  match swregToUnrestricted dst lreg rreg with
  | .error e => [.fault e]
  | .ok reg =>
    [.push (.alu reg.dst reg.dstAb reg.areg op reg.breg reg.swap reg.wrBoth reg.dstLmextn reg.srcLmextn)
      .none]

def emitMul (lreg : Swreg) (type : MulType) (step : MulStep) (rreg : Swreg) : Code :=
  if type = .start ∧ step ≠ .none then [.fault .einval]
  else if step = .last ∨ step = .last2 then
    match swregToUnrestricted lreg regNone rreg with
    | .error e => [.fault e]
    | .ok reg =>
      [.push (.mul reg.dstAb reg.dst type step reg.breg reg.swap reg.wrBoth reg.dstLmextn reg.srcLmextn)
        .none]
  else
    match swregToUnrestricted regNone lreg rreg with
    | .error e => [.fault e]
    | .ok reg =>
      [.push (.mul reg.dstAb reg.areg type step reg.breg reg.swap reg.wrBoth reg.dstLmextn reg.srcLmextn)
        .none]

def emitLdFieldAny (dst : Swreg) (bmask : BitVec 8) (src : Swreg) (sc : ShfSc) (shift : BitVec 8)
    (zero : Bool) : Code :=
  match swregToRestricted dst dst src true with
  | .error e => [.fault e]
  | .ok reg =>
    [.push (.ldField sc reg.areg bmask reg.breg shift reg.i8 zero reg.swap reg.wrBoth reg.dstLmextn
      reg.srcLmextn) .none]

def emitLdField (dst : Swreg) (bmask : BitVec 8) (src : Swreg) (sc : ShfSc) (shift : BitVec 8) : Code :=
  emitLdFieldAny dst bmask src sc shift false

def emitCsrWr (src : Swreg) (addr : BitVec 16) : Code :=
  if src.type = .imm then
    match swregToUnrestricted regNone src regNone with
    | .error e => [.fault e]
    | .ok reg => [.push (.lcsr reg.areg reg.areg true addr false reg.srcLmextn) .none]
  else
    match swregToUnrestricted regNone src (regImm 0) with
    | .error e => [.fault e]
    | .ok reg => [.push (.lcsr reg.areg reg.breg true addr false reg.srcLmextn) .none]

def emitCsrRd (addr : BitVec 16) : Code := [.push (.lcsr 0 0 false addr false false) .none]

def emitNop : Code := [.push (.immed urRegImm urRegImm 0 .all false .b0 false false false) .none]

end NfpDriver.Jit
