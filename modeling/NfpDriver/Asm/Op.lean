import NfpDriver.Asm.Reg
import NfpDriver.Library.Fields

namespace NfpDriver.Asm

open Fields

inductive BrMask where
  | beq
  | bne
  | bmi
  | bhs
  | blo
  | bge
  | blt
  | unc
  deriving DecidableEq, Repr

def BrMask.code : BrMask → Word
  | .beq => 0x00
  | .bne => 0x01
  | .bmi => 0x02
  | .bhs => 0x04
  | .blo => 0x05
  | .bge => 0x08
  | .blt => 0x09
  | .unc => 0x18

inductive BrEvPip where
  | uncond
  | cond
  deriving DecidableEq, Repr

def BrEvPip.code : BrEvPip → Word
  | .uncond => 0
  | .cond => 1

abbrev brCssNone : Word := 2

inductive ImmedWidth where
  | all
  | byte
  | word
  deriving DecidableEq, Repr

def ImmedWidth.code : ImmedWidth → Word
  | .all => 0
  | .byte => 1
  | .word => 2

inductive ImmedShift where
  | b0
  | b1
  | b2
  deriving DecidableEq, Repr

def ImmedShift.code : ImmedShift → Word
  | .b0 => 0
  | .b1 => 1
  | .b2 => 2

inductive ShfOp where
  | none
  | and
  | or
  | ashr
  deriving DecidableEq, Repr

def ShfOp.code : ShfOp → Word
  | .none => 0
  | .and => 2
  | .or => 5
  | .ashr => 6

inductive ShfSc where
  | rRot
  | rShf
  | lShf
  | rDshf
  deriving DecidableEq, Repr

abbrev ShfSc.none : ShfSc := .rRot

def ShfSc.code : ShfSc → Word
  | .rRot => 0
  | .rShf => 1
  | .lShf => 2
  | .rDshf => 3

inductive AluOp where
  | none
  | add
  | not
  | add2b
  | and
  | andNotA
  | subC
  | andNotB
  | addC
  | or
  | sub
  | xor
  deriving DecidableEq, Repr

def AluOp.code : AluOp → Word
  | .none => 0x00
  | .add => 0x01
  | .not => 0x04
  | .add2b => 0x05
  | .and => 0x08
  | .andNotA => 0x0c
  | .subC => 0x0d
  | .andNotB => 0x10
  | .addC => 0x11
  | .or => 0x14
  | .sub => 0x15
  | .xor => 0x18

def AluDstAb.code : AluDstAb → Word
  | .a => 0
  | .b => 1

inductive CmdTgt where
  | read8
  | write8Swap
  | write32Swap
  | read32
  | read32Le
  | read32Swap
  | readLe
  | readSwapLe
  | add
  | addImm
  deriving DecidableEq, Repr

structure CmdTgtAct where
  token : Word
  tgtCmd : Word

def cmdTgtAct : CmdTgt → CmdTgtAct
  | .write8Swap => ⟨0x02, 0x42⟩
  | .write32Swap => ⟨0x02, 0x5f⟩
  | .read8 => ⟨0x01, 0x43⟩
  | .read32 => ⟨0x00, 0x5c⟩
  | .read32Le => ⟨0x01, 0x5c⟩
  | .read32Swap => ⟨0x02, 0x5c⟩
  | .readLe => ⟨0x01, 0x40⟩
  | .readSwapLe => ⟨0x03, 0x40⟩
  | .add => ⟨0x00, 0x47⟩
  | .addImm => ⟨0x02, 0x47⟩

inductive CmdMode where
  | b40Ab
  | b40Ba
  | b32
  deriving DecidableEq, Repr

def CmdMode.code : CmdMode → Word
  | .b40Ab => 0
  | .b40Ba => 1
  | .b32 => 4

inductive CmdCtx where
  | swap
  | swapDefer1
  | swapDefer2
  | noSwap
  deriving DecidableEq, Repr

def CmdCtx.code : CmdCtx → Word
  | .swap => 0
  | .swapDefer1 => 1
  | .swapDefer2 => 2
  | .noSwap => 3

inductive MulType where
  | start
  | step24x8
  | step16x16
  | step32x32
  deriving DecidableEq, Repr

def MulType.code : MulType → Word
  | .start => 0
  | .step24x8 => 1
  | .step16x16 => 2
  | .step32x32 => 3

inductive MulStep where
  | step1
  | step2
  | step3
  | step4
  | last
  | last2
  deriving DecidableEq, Repr

abbrev MulStep.none : MulStep := .step1

def MulStep.code : MulStep → Word
  | .step1 => 0
  | .step2 => 1
  | .step3 => 2
  | .step4 => 3
  | .last => 4
  | .last2 => 5

inductive Op where
  | cmd (op : CmdTgt) (mode : CmdMode) (xfer areg breg size : BitVec 8) (ctx : CmdCtx) (indir : Bool)
  | br (mask : BrMask) (evPip : BrEvPip) (css : Word) (addr : BitVec 16) (defer : BitVec 8)
  | brBit (areg breg addr : BitVec 16) (defer : BitVec 8) (set srcLmextn : Bool)
  | brAlu (areg breg immHi : BitVec 16) (defer : BitVec 8) (dstLmextn srcLmextn : Bool)
  | immed (areg breg immHi : BitVec 16) (width : ImmedWidth) (invert : Bool) (shift : ImmedShift)
      (wrBoth dstLmextn srcLmextn : Bool)
  | shf (dst : BitVec 16) (dstAb : AluDstAb) (sc : ShfSc) (shift : BitVec 8) (areg : BitVec 16)
      (op : ShfOp) (breg : BitVec 16) (i8 sw wrBoth dstLmextn srcLmextn : Bool)
  | alu (dst : BitVec 16) (dstAb : AluDstAb) (areg : BitVec 16) (op : AluOp) (breg : BitVec 16)
      (swap wrBoth dstLmextn srcLmextn : Bool)
  | mul (dstAb : AluDstAb) (areg : BitVec 16) (type : MulType) (step : MulStep) (breg : BitVec 16)
      (swap wrBoth dstLmextn srcLmextn : Bool)
  | ldField (sc : ShfSc) (areg bmask breg shift : BitVec 8) (imm8 zero swap wrBoth dstLmextn srcLmextn : Bool)
  | lcsr (areg breg : BitVec 16) (wr : Bool) (addr : BitVec 16) (dstLmextn srcLmextn : Bool)
  deriving DecidableEq, Repr

def bit (b : Bool) : Word := (BitVec.ofBool b).setWidth 64

def w64 {n : Nat} (v : BitVec n) : Word := v.setWidth 64

abbrev opBrBase : Word := 0x0d800000020
abbrev opBrBaseMask : Word := 0x0f8000c3ce0
abbrev opBrMask : Word := 0x0000000001f
abbrev opBrEvPip : Word := 0x00000000300
abbrev opBrCss : Word := 0x0000003c000
abbrev opBrDefbr : Word := 0x00000300000
abbrev opBrAddrLo : Word := 0x007ffc00000
abbrev opBrAddrHi : Word := 0x10000000000

abbrev opBrBitBase : Word := 0x0d000000000
abbrev opBrBitBaseMask : Word := 0x0f800080300
abbrev opBrBitASrc : Word := 0x000000000ff
abbrev opBrBitBSrc : Word := 0x0000003fc00
abbrev opBrBitBv : Word := 0x00000040000
abbrev opBrBitSrcLmextn : Word := 0x40000000000

abbrev opBrAluBase : Word := 0x0e800000000
abbrev opBrAluImmHi : Word := 0x0007fc00000

abbrev opASrc10 : Word := 0x000000003ff
abbrev opBSrc10 : Word := 0x000000ffc00
abbrev opASrc8 : Word := 0x000000000ff
abbrev opBSrc8 : Word := 0x0000003fc00
abbrev opWrAb : Word := 0x20000000000
abbrev opSrcLmextn : Word := 0x40000000000
abbrev opDstLmextn : Word := 0x80000000000

abbrev opImmedBase : Word := 0x0f000000000
abbrev opImmedImm : Word := 0x0000ff00000
abbrev opImmedWidth : Word := 0x00060000000
abbrev opImmedInv : Word := 0x00080000000
abbrev opImmedShift : Word := 0x00600000000

abbrev opShfBase : Word := 0x08000000000
abbrev opShfSc : Word := 0x00000000300
abbrev opShfI8 : Word := 0x00000040000
abbrev opShfSw : Word := 0x00000080000
abbrev opShfDst : Word := 0x0000ff00000
abbrev opShfShift : Word := 0x001f0000000
abbrev opShfOp : Word := 0x00e00000000
abbrev opShfDstAb : Word := 0x01000000000

abbrev opAluBase : Word := 0x0a000000000
abbrev opAluDst : Word := 0x0003ff00000
abbrev opAluSw : Word := 0x00040000000
abbrev opAluOp : Word := 0x00f80000000
abbrev opAluDstAb : Word := 0x01000000000

abbrev opLdfBase : Word := 0x0c000000000
abbrev opLdfZf : Word := 0x00000100000
abbrev opLdfBmask : Word := 0x0000f000000

abbrev opCmdCtx : Word := 0x00000000300
abbrev opCmdToken : Word := 0x000000c0000
abbrev opCmdXfer : Word := 0x00001f00000
abbrev opCmdCnt : Word := 0x0000e000000
abbrev opCmdSig : Word := 0x000f0000000
abbrev opCmdTgtCmd : Word := 0x07f00000000
abbrev opCmdIndir : Word := 0x20000000000
abbrev opCmdMode : Word := 0x1c0000000000

abbrev opLcsrBase : Word := 0x0fc00000000
abbrev opLcsrWrite : Word := 0x00000200000
abbrev opLcsrAddr : Word := 0x001ffc00000

abbrev opMulBase : Word := 0x0f800000000
abbrev opMulStep : Word := 0x00000700000
abbrev opMulDstAb : Word := 0x00000800000
abbrev opMulSw : Word := 0x00040000000
abbrev opMulType : Word := 0x00180000000

def brAddrLo (addr : BitVec 16) : BitVec 16 := addr &&& 0x1fff

def brAddrHi (addr : BitVec 16) : Bool := addr != brAddrLo addr

def Op.base : Op → Word
  | .cmd .. => 0
  | .br .. => opBrBase
  | .brBit .. => opBrBitBase
  | .brAlu .. => opBrAluBase
  | .immed .. => opImmedBase
  | .shf .. => opShfBase
  | .alu .. => opAluBase
  | .mul .. => opMulBase
  | .ldField .. => opLdfBase
  | .lcsr .. => opLcsrBase

def shfShift (sc : ShfSc) (shift : BitVec 8) : BitVec 8 :=
  if sc = .lShf ∧ shift ≠ 0 then 32 - shift else shift

def Op.fields : Op → List (Word × Word)
  | .cmd op mode xfer areg breg size ctx indir =>
    [(opASrc8, w64 areg), (opCmdCtx, ctx.code), (opBSrc8, w64 breg), (opCmdToken, (cmdTgtAct op).token),
      (opCmdXfer, w64 xfer), (opCmdCnt, w64 size), (opCmdSig, bit (ctx ≠ .noSwap)),
      (opCmdTgtCmd, (cmdTgtAct op).tgtCmd), (opCmdIndir, bit indir), (opCmdMode, mode.code)]
  | .br mask evPip css addr defer =>
    [(opBrMask, mask.code), (opBrEvPip, evPip.code), (opBrCss, css), (opBrDefbr, w64 defer),
      (opBrAddrLo, w64 (brAddrLo addr)), (opBrAddrHi, bit (brAddrHi addr))]
  | .brBit areg breg addr defer set srcLmextn =>
    [(opBrBitASrc, w64 areg), (opBrBitBSrc, w64 breg), (opBrBitBv, bit set), (opBrDefbr, w64 defer),
      (opBrAddrLo, w64 (brAddrLo addr)), (opBrAddrHi, bit (brAddrHi addr)),
      (opBrBitSrcLmextn, bit srcLmextn)]
  | .brAlu areg breg immHi defer dstLmextn srcLmextn =>
    [(opASrc10, w64 areg), (opBSrc10, w64 breg), (opBrDefbr, w64 defer), (opBrAluImmHi, w64 immHi),
      (opSrcLmextn, bit srcLmextn), (opDstLmextn, bit dstLmextn)]
  | .immed areg breg immHi width invert shift wrBoth dstLmextn srcLmextn =>
    [(opASrc10, w64 areg), (opBSrc10, w64 breg), (opImmedImm, w64 immHi), (opImmedWidth, width.code),
      (opImmedInv, bit invert), (opImmedShift, shift.code), (opWrAb, bit wrBoth),
      (opSrcLmextn, bit srcLmextn), (opDstLmextn, bit dstLmextn)]
  | .shf dst dstAb sc shift areg op breg i8 sw wrBoth dstLmextn srcLmextn =>
    [(opASrc8, w64 areg), (opShfSc, sc.code), (opBSrc8, w64 breg), (opShfI8, bit i8), (opShfSw, bit sw),
      (opShfDst, w64 dst), (opShfShift, w64 (shfShift sc shift)), (opShfOp, op.code),
      (opShfDstAb, dstAb.code), (opWrAb, bit wrBoth), (opSrcLmextn, bit srcLmextn),
      (opDstLmextn, bit dstLmextn)]
  | .alu dst dstAb areg op breg swap wrBoth dstLmextn srcLmextn =>
    [(opASrc10, w64 areg), (opBSrc10, w64 breg), (opAluDst, w64 dst), (opAluSw, bit swap),
      (opAluOp, op.code), (opAluDstAb, dstAb.code), (opWrAb, bit wrBoth), (opSrcLmextn, bit srcLmextn),
      (opDstLmextn, bit dstLmextn)]
  | .mul dstAb areg type step breg swap wrBoth dstLmextn srcLmextn =>
    [(opASrc10, w64 areg), (opBSrc10, w64 breg), (opMulStep, step.code), (opMulDstAb, dstAb.code),
      (opMulSw, bit swap), (opMulType, type.code), (opWrAb, bit wrBoth), (opSrcLmextn, bit srcLmextn),
      (opDstLmextn, bit dstLmextn)]
  | .ldField sc areg bmask breg shift imm8 zero swap wrBoth dstLmextn srcLmextn =>
    [(opASrc8, w64 areg), (opShfSc, sc.code), (opBSrc8, w64 breg), (opShfI8, bit imm8), (opShfSw, bit swap),
      (opLdfZf, bit zero), (opLdfBmask, w64 bmask), (opShfShift, w64 shift), (opWrAb, bit wrBoth),
      (opSrcLmextn, bit srcLmextn), (opDstLmextn, bit dstLmextn)]
  | .lcsr areg breg wr addr dstLmextn srcLmextn =>
    [(opASrc10, w64 areg), (opBSrc10, w64 breg), (opLcsrWrite, bit wr), (opLcsrAddr, w64 (addr / 4)),
      (opSrcLmextn, bit srcLmextn), (opDstLmextn, bit dstLmextn)]

def Op.word (op : Op) : Word := pack op.base op.fields

def nfpIsBr (insn : Word) : Bool :=
  insn &&& opBrBaseMask == opBrBase || insn &&& opBrBitBaseMask == opBrBitBase

def Op.isBr : Op → Bool
  | .br .. => true
  | .brBit .. => true
  | _ => false

abbrev opClass : Word := 0x0f000000000

theorem nfpIsBr_class {w : Word} (h : nfpIsBr w = true) : w &&& opClass = 0x0d000000000 := by
  simp only [nfpIsBr, Bool.or_eq_true, beq_iff_eq] at h
  rcases h with h | h
  · have hc := congrArg (· &&& opClass) h
    simp only [BitVec.and_assoc] at hc
    exact hc
  · have hc := congrArg (· &&& opClass) h
    simp only [BitVec.and_assoc] at hc
    exact hc

theorem not_br_of_probe {op : Op} (p : Word) (hp : opClass &&& p = p)
    (hf : ∀ f ∈ op.fields, f.1 &&& p = 0) (hb : op.base &&& p ≠ 0x0d000000000 &&& p) :
    nfpIsBr op.word = false := by
  by_contra hc
  have hw := congrArg (· &&& p) (nfpIsBr_class (by simpa using hc))
  simp only [BitVec.and_assoc, hp] at hw
  rw [Op.word, pack_and _ _ hf] at hw
  exact hb hw

theorem br_of_base {op : Op} (hf : ∀ f ∈ op.fields, f.1 &&& opBrBaseMask = 0)
    (hb : op.base &&& opBrBaseMask = opBrBase) : nfpIsBr op.word = true := by
  have h : op.word &&& opBrBaseMask = opBrBase := (pack_and _ _ hf).trans hb
  simp only [nfpIsBr, h, beq_self_eq_true, Bool.true_or]

theorem br_of_bitBase {op : Op} (hf : ∀ f ∈ op.fields, f.1 &&& opBrBitBaseMask = 0)
    (hb : op.base &&& opBrBitBaseMask = opBrBitBase) : nfpIsBr op.word = true := by
  have h : op.word &&& opBrBitBaseMask = opBrBitBase := (pack_and _ _ hf).trans hb
  simp only [nfpIsBr, h, beq_self_eq_true, Bool.or_true]

theorem nfpIsBr_word (op : Op) : nfpIsBr op.word = op.isBr := by
  cases op with
  | cmd => exact not_br_of_probe 0x08000000000 (by decide) (by simp [Op.fields]) (by rw [Op.base]; decide)
  | br => exact br_of_base (by simp [Op.fields]) (by rw [Op.base]; decide)
  | brBit => exact br_of_bitBase (by simp [Op.fields]) (by rw [Op.base]; decide)
  | brAlu | immed => exact not_br_of_probe 0x02000000000 (by decide) (by simp [Op.fields]) (by rw [Op.base]; decide)
  | shf | alu => exact not_br_of_probe 0x04000000000 (by decide) (by simp [Op.fields]) (by rw [Op.base]; decide)
  | mul => exact not_br_of_probe 0x02000000000 (by decide) (by simp [Op.fields]) (by rw [Op.base]; decide)
  | ldField => exact not_br_of_probe 0x01000000000 (by decide) (by simp [Op.fields]) (by rw [Op.base]; decide)
  | lcsr => exact not_br_of_probe 0x02000000000 (by decide) (by simp [Op.fields]) (by rw [Op.base]; decide)

theorem fields_disjoint (op : Op) :
    op.fields.Pairwise (fun f g => f.1 &&& g.1 = 0) ∧ ∀ f ∈ op.fields, op.base &&& f.1 = 0 := by
  cases op <;> simp [Op.fields, Op.base]

end NfpDriver.Asm
