import Mathlib.Data.BitVec

namespace NfpDriver.Asm

inductive Errno where
  | efault
  | einval
  | enospc
  | eopnotsupp
  | enoent
  | eloop
  | enomem
  deriving DecidableEq, Repr

inductive RegKind where
  | gprA
  | gprB
  | gprBoth
  | nnr
  | xfer
  | imm
  | none
  | lmem
  deriving DecidableEq, Repr

inductive LmMode where
  | none
  | inc
  | dec
  deriving DecidableEq, Repr

structure Swreg where
  type : RegKind
  lmIdx : Bool
  lmextn : Bool
  lmMode : LmMode
  id : BitVec 16
  deriving DecidableEq, Repr

def encSwreg (id : BitVec 16) (type : RegKind) : Swreg := ⟨type, false, false, .none, id⟩

def encSwregLm (id : BitVec 8) (mode : LmMode) (off : BitVec 8) : Swreg :=
  ⟨.lmem, id.getLsbD 0, id.getLsbD 1, mode, off.setWidth 16⟩

def Swreg.value (reg : Swreg) : BitVec 16 := reg.id &&& 0xff

def regBoth (x : BitVec 16) : Swreg := encSwreg x .gprBoth
def regA (x : BitVec 16) : Swreg := encSwreg x .gprA
def regB (x : BitVec 16) : Swreg := encSwreg x .gprB
def regXfer (x : BitVec 16) : Swreg := encSwreg x .xfer
def regImm (x : BitVec 16) : Swreg := encSwreg x .imm
def regNone : Swreg := encSwreg 0 .none
def regLm (x off : BitVec 8) : Swreg := encSwregLm x .none off
def regLmInc (x : BitVec 8) : Swreg := encSwregLm x .inc 0

abbrev urRegXfr : BitVec 16 := 0x180
abbrev urRegLm : BitVec 16 := 0x200
abbrev urRegLmIdx : BitVec 16 := 0x020
abbrev urRegLmPostMod : BitVec 16 := 0x010
abbrev urRegLmPostModDec : BitVec 16 := 0x001
abbrev urRegLmIdxMax : BitVec 16 := 0xf
abbrev urRegNn : BitVec 16 := 0x280
abbrev urRegNoDst : BitVec 16 := 0x300
abbrev urRegImm : BitVec 16 := urRegNoDst

abbrev reRegNoDst : BitVec 16 := 0x020
abbrev reRegImm : BitVec 16 := 0x020
abbrev reRegLm : BitVec 16 := 0x050
abbrev reRegLmIdx : BitVec 16 := 0x008
abbrev reRegLmIdxMax : BitVec 16 := 0x7
abbrev reRegXfr : BitVec 16 := 0x080

abbrev regNoneEnc : BitVec 16 := 0

def urRegImmEncode (x : BitVec 16) : BitVec 16 := urRegImm ||| x

def reRegImmEncode (x : BitVec 16) : BitVec 16 := reRegImm ||| (x &&& 0x1f) ||| ((x &&& 0x60) <<< 1)

def nfpSwregToUnreg (reg : Swreg) (isDst : Bool) : BitVec 16 :=
  let val := reg.value
  match reg.type with
  | .gprA | .gprB | .gprBoth => val
  | .nnr => urRegNn ||| val
  | .xfer => urRegXfr ||| val
  | .lmem =>
    let idx := if reg.lmIdx then urRegLmIdx else 0
    match reg.lmMode with
    | .none => if val &&& ~~~urRegLmIdxMax ≠ 0 then 0 else urRegLm ||| idx ||| val
    | .dec =>
      if val ≠ 0 then 0 else urRegLm ||| urRegLmPostMod ||| idx ||| urRegLmPostModDec
    | .inc => if val ≠ 0 then 0 else urRegLm ||| urRegLmPostMod ||| idx
  | .imm => if val &&& ~~~0xff ≠ 0 then 0 else urRegImmEncode val
  | .none => if isDst then urRegNoDst else regNoneEnc

inductive AluDstAb where
  | a
  | b
  deriving DecidableEq, Repr

structure InsnUrRegs where
  dstAb : AluDstAb
  dst : BitVec 16
  areg : BitVec 16
  breg : BitVec 16
  swap : Bool
  wrBoth : Bool
  dstLmextn : Bool
  srcLmextn : Bool
  deriving DecidableEq, Repr

def swregToUnrestricted (dst lreg rreg : Swreg) : Except Errno InsnUrRegs :=
  if dst.type = .imm then .error .efault
  else if lreg.type = rreg.type ∧ lreg.type ≠ .none then .error .efault
  else
    let swap := lreg.type = .gprB ∨ rreg.type = .gprA
    .ok {
      dstAb := if dst.type = .gprB then .b else .a
      dst := nfpSwregToUnreg dst true
      areg := if swap then nfpSwregToUnreg rreg false else nfpSwregToUnreg lreg false
      breg := if swap then nfpSwregToUnreg lreg false else nfpSwregToUnreg rreg false
      swap := swap
      wrBoth := dst.type = .gprBoth
      dstLmextn := dst.lmextn
      srcLmextn := lreg.lmextn || rreg.lmextn }

def nfpSwregToRereg (reg : Swreg) (isDst hasImm8 : Bool) : BitVec 16 × Bool :=
  let val := reg.value
  match reg.type with
  | .gprA | .gprB | .gprBoth => (val, false)
  | .xfer => (reRegXfr ||| val, false)
  | .lmem =>
    if reg.lmMode ≠ .none then (0, false)
    else if val &&& ~~~reRegLmIdxMax ≠ 0 then (0, false)
    else (reRegLm ||| (if reg.lmIdx then reRegLmIdx else 0) ||| val, false)
  | .imm =>
    if val &&& ~~~(0x7f ||| (if hasImm8 then 0x80 else 0)) ≠ 0 then (0, false)
    else (reRegImmEncode (val &&& 0x7f), val &&& 0x80 ≠ 0)
  | .none => (if isDst then reRegNoDst else regNoneEnc, false)
  | .nnr => (0, false)

structure InsnReRegs where
  dstAb : AluDstAb
  dst : BitVec 8
  areg : BitVec 8
  breg : BitVec 8
  swap : Bool
  wrBoth : Bool
  i8 : Bool
  dstLmextn : Bool
  srcLmextn : Bool
  deriving DecidableEq, Repr

def swregToRestricted (dst lreg rreg : Swreg) (hasImm8 : Bool) : Except Errno InsnReRegs :=
  if dst.type = .imm then .error .efault
  else if lreg.type = rreg.type ∧ lreg.type ≠ .none then .error .efault
  else
    let swap := lreg.type = .gprB ∨ rreg.type = .gprA
    let l := nfpSwregToRereg lreg false hasImm8
    let r := nfpSwregToRereg rreg false hasImm8
    .ok {
      dstAb := if dst.type = .gprB then .b else .a
      dst := (nfpSwregToRereg dst true false).1.setWidth 8
      areg := (if swap then r.1 else l.1).setWidth 8
      breg := (if swap then l.1 else r.1).setWidth 8
      swap := swap
      wrBoth := dst.type = .gprBoth
      i8 := l.2 || r.2
      dstLmextn := dst.lmextn
      srcLmextn := lreg.lmextn || rreg.lmextn }

end NfpDriver.Asm
