import NfpDriver.Machine.Units

namespace NfpDriver.Machine

open Asm Adder Jit

structure Engine where
  core : State
  prevA : BitVec 32
  prevAlu : BitVec 32
  xferOut : BitVec 16 → BitVec 32
  mem32 : BitVec 32 → BitVec 8
  mem40 : BitVec 40 → BitVec 8

def shfAmount (sc : ShfSc) (shift : BitVec 8) (prevA : BitVec 32) : Nat :=
  let enc := shfShift sc shift
  if enc = 0 then prevA.toNat % 32 else if sc = .lShf then 32 - enc.toNat else enc.toNat

def signFill (sign : Bool) (n : Nat) (x : BitVec 32) : BitVec 32 :=
  x >>> n ||| if sign then ~~~(BitVec.allOnes 32 >>> n) else 0

def shfValue (op : ShfOp) (sc : ShfSc) (sign : Bool) (n : Nat) (l r : BitVec 32) : BitVec 32 :=
  let x :=
    match sc with
    | .rRot => r.rotateRight n
    | .rShf => if op = .ashr then signFill sign n r else r >>> n
    | .lShf => r <<< n
    | .rDshf => ((l ++ r) >>> n).setWidth 32
  match op with
  | .none | .ashr => x
  | .and => l &&& x
  | .or => l ||| x

def Engine.execShf (e : Engine) (dst : BitVec 16) (dstAb : AluDstAb) (sc : ShfSc) (shift : BitVec 8)
    (areg : BitVec 16) (op : ShfOp) (breg : BitVec 16) (i8 sw wrBoth : Bool) : Option Engine :=
  let x := e.core.readRe e.core.a (areg.setWidth 8) i8
  let y := e.core.readRe e.core.b (breg.setWidth 8) i8
  let v := shfValue op sc e.core.n (shfAmount sc shift e.prevA) (if sw then y else x) (if sw then x else y)
  if dst < 0x20 then some { e with core := e.core.write dst dstAb wrBoth v } else none

def isXfer (r : BitVec 16) : Bool := r &&& 0x380 == urRegXfr

def xferIdx (r : BitVec 16) : BitVec 16 := r &&& 0x7f

def Engine.retire (e : Engine) (dst : BitVec 16) (st : State) : Engine :=
  if isXfer dst then
    { e with
      core := { st with ext := e.core.ext }
      xferOut := Function.update e.xferOut (xferIdx dst) (st.ext dst) }
  else { e with core := st }

def immedResult (st : State) (areg breg immHi : BitVec 16) (width : ImmedWidth) (invert : Bool)
    (shift : ImmedShift) : BitVec 32 :=
  if isUrImm breg then immedValue (st.readA areg) ((immHi <<< 8) ||| (breg &&& 0xff)) width invert shift
  else immedValue (st.readB breg) ((immHi <<< 8) ||| (areg &&& 0xff)) width invert shift

def cmdAddr32 (x y : BitVec 32) : BitVec 32 := x + y

def cmdAddr40 (mode : CmdMode) (x y : BitVec 32) : BitVec 40 :=
  match mode with
  | .b40Ab => (x ++ y).setWidth 40
  | _ => (y ++ x).setWidth 40

def cmdCount (indir : Bool) (size : BitVec 8) (prevAlu : BitVec 32) : Nat :=
  if indir && prevAlu &&& cmdOveLenBit != 0 then ((prevAlu >>> 8) &&& 0x1f).toNat + 1
  else (size &&& 7).toNat + 1
where
  cmdOveLenBit : BitVec 32 := 0x80

def wordAt {w : Nat} (mem : BitVec w → BitVec 8) (a : BitVec w) : BitVec 32 :=
  mem (a + 3) ++ mem (a + 2) ++ mem (a + 1) ++ mem a

def laneOf (x : BitVec 32) (j : Nat) : BitVec 8 := (x >>> (8 * j)).setWidth 8

def readXfers {w : Nat} (mem : BitVec w → BitVec 8) (a : BitVec w) (first : Nat) :
    Nat → (BitVec 16 → BitVec 32) → BitVec 16 → BitVec 32
  | 0, ext => ext
  | n + 1, ext =>
    let r := BitVec.ofNat 16 (first + n)
    let x := wordAt mem (a + BitVec.ofNat w (4 * n))
    Function.update (Function.update (readXfers mem a first n ext) (urRegXfr ||| r) x) (reRegXfr ||| r) x

def writeBytes (mem : BitVec 32 → BitVec 8) (a : BitVec 32) (src : Nat → BitVec 8) : Nat → BitVec 32 → BitVec 8
  | 0 => mem
  | n + 1 => Function.update (writeBytes mem a src n) (a + BitVec.ofNat 32 n) (src n)

def Engine.outByte (e : Engine) (first : Nat) (j : Nat) : BitVec 8 :=
  laneOf (e.xferOut (BitVec.ofNat 16 (first + j / 4))) (j % 4)

def Engine.execCmd (e : Engine) (tgt : CmdTgt) (mode : CmdMode) (xfer areg breg size : BitVec 8) (indir : Bool) :
    Option Engine :=
  let x := e.core.readRe e.core.a areg false
  let y := e.core.readRe e.core.b breg false
  let n := cmdCount indir size e.prevAlu
  match tgt, mode with
  | .read32Swap, .b32 =>
    some { e with core := { e.core with ext := readXfers e.mem32 (cmdAddr32 x y) xfer.toNat n e.core.ext } }
  | .read32Swap, mode =>
    some { e with core := { e.core with ext := readXfers e.mem40 (cmdAddr40 mode x y) xfer.toNat n e.core.ext } }
  | .write32Swap, .b32 =>
    some { e with mem32 := writeBytes e.mem32 (cmdAddr32 x y) (e.outByte xfer.toNat) (4 * n) }
  | .write8Swap, .b32 => some { e with mem32 := writeBytes e.mem32 (cmdAddr32 x y) (e.outByte xfer.toNat) n }
  | _, _ => none

def Engine.exec (op : Op) (e : Engine) : Option Engine :=
  match op with
  | .shf dst dstAb sc shift areg op breg i8 sw wrBoth false false =>
    e.execShf dst dstAb sc shift areg op breg i8 sw wrBoth
  | .alu dst dstAb areg aop breg swap wrBoth false false =>
    let l := if swap then e.core.readB breg else e.core.readA areg
    let r := if swap then e.core.readA areg else e.core.readB breg
    (Machine.exec (.alu dst dstAb areg aop breg swap wrBoth false false) e.core).map fun st =>
      { e.retire dst st with prevA := e.core.readA areg, prevAlu := (aluResult aop l r e.core.c).sum }
  | .immed areg breg immHi width invert shift wrBoth false false =>
    (Machine.exec (.immed areg breg immHi width invert shift wrBoth false false) e.core).map fun st =>
      { e.retire (if isUrImm breg then areg else breg) st with
        prevAlu := immedResult e.core areg breg immHi width invert shift }
  | .cmd tgt mode xfer areg breg size _ indir => e.execCmd tgt mode xfer areg breg size indir
  | .mul dstAb areg type step breg swap wrBoth false false =>
    (Machine.exec (.mul dstAb areg type step breg swap wrBoth false false) e.core).map fun st =>
      { e with core := st }
  | .ldField sc areg bmask breg shift imm8 zero swap wrBoth false false =>
    (Machine.exec (.ldField sc areg bmask breg shift imm8 zero swap wrBoth false false) e.core).map fun st =>
      { e with core := st }
  | _ => none

def Engine.execs : List Op → Engine → Option Engine
  | [], e => some e
  | op :: rest, e => (e.exec op).bind (execs rest)

def Engine.bitSet (e : Engine) (areg breg : BitVec 16) : Bool :=
  (e.core.readRe e.core.a (areg.setWidth 8) false).getLsbD
    ((reImmValue (breg.setWidth 8) false).toNat - 1)

def Engine.step (code : List Op) (base pc : Nat) (e : Engine) : Option (Nat × Engine) :=
  let rest := code.drop (pc - base)
  match rest with
  | [] => none
  | .br mask _ _ addr defer :: rest =>
    if e.core.test mask then (execs (rest.take defer.toNat) e).map fun e' => (addr.toNat, e')
    else some (pc + 1, e)
  | .brBit areg breg addr defer set false :: rest =>
    if e.bitSet areg breg = set then (execs (rest.take defer.toNat) e).map fun e' => (addr.toNat, e')
    else some (pc + 1, e)
  | op :: _ => (e.exec op).map fun e' => (pc + 1, e')

def Engine.go (code : List Op) (base : Nat) : Nat → Nat → Engine → Option Engine
  | 0, pc, e => if pc = base + code.length then some e else none
  | n + 1, pc, e =>
    if pc = base + code.length then some e
    else if pc < base then none
    else (e.step code base pc).bind fun r => go code base n r.1 r.2

def Engine.runBlock (code : List Op) (base : Nat) (e : Engine) : Option Engine :=
  Engine.go code base code.length base e

end NfpDriver.Machine
