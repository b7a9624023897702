import NfpDriver.Asm.Op
import NfpDriver.Library.Adder
import Mathlib.Logic.Function.Basic

namespace NfpDriver.Machine

open Asm Adder

structure MulUnit where
  left : BitVec 32
  right : BitVec 32
  type : MulType
  done : Nat

structure State where
  a : BitVec 16 → BitVec 32
  b : BitVec 16 → BitVec 32
  ext : BitVec 16 → BitVec 32
  z : Bool
  n : Bool
  c : Bool
  v : Bool
  mul : MulUnit

abbrev gprCount : BitVec 16 := 0x80

def isUrImm (r : BitVec 16) : Bool := r &&& urRegImm == urRegImm

def State.readA (st : State) (r : BitVec 16) : BitVec 32 :=
  if isUrImm r then (r &&& 0xff).setWidth 32 else if r < gprCount then st.a r else st.ext r

def State.readB (st : State) (r : BitVec 16) : BitVec 32 :=
  if isUrImm r then (r &&& 0xff).setWidth 32 else if r < gprCount then st.b r else st.ext r

def State.setA (st : State) (r : BitVec 16) (x : BitVec 32) : State :=
  { st with a := Function.update st.a r x }

def State.setB (st : State) (r : BitVec 16) (x : BitVec 32) : State :=
  { st with b := Function.update st.b r x }

def State.write (st : State) (dst : BitVec 16) (ab : AluDstAb) (wrBoth : Bool) (x : BitVec 32) : State :=
  if isUrImm dst then st
  else if dst < gprCount then
    if wrBoth then (st.setA dst x).setB dst x
    else
      match ab with
      | .a => st.setA dst x
      | .b => st.setB dst x
  else { st with ext := Function.update st.ext dst x }

def State.setFlags (st : State) (res : Result 32) : State :=
  { st with z := res.sum == 0, n := res.sum.msb, c := res.carry, v := res.overflow }

def plain (x : BitVec 32) : Result 32 := ⟨x, false, false⟩

def aluResult (op : AluOp) (l r : BitVec 32) (c : Bool) : Result 32 :=
  match op with
  | .none => plain r
  | .add => adc l r false
  | .not => plain (~~~r)
  | .add2b => adc l (r &&& 0xffff) false
  | .and => plain (l &&& r)
  | .andNotA => plain (~~~l &&& r)
  | .subC => adc l (~~~r) c
  | .andNotB => plain (l &&& ~~~r)
  | .addC => adc l r c
  | .or => plain (l ||| r)
  | .sub => adc l (~~~r) true
  | .xor => plain (l ^^^ r)

def ImmedShift.bits : ImmedShift → Nat
  | .b0 => 0
  | .b1 => 8
  | .b2 => 16

def immedValue (old : BitVec 32) (imm : BitVec 16) (width : ImmedWidth) (invert : Bool) (shift : ImmedShift) :
    BitVec 32 :=
  let raw := imm.setWidth 32 <<< ImmedShift.bits shift
  let x := if invert then ~~~raw else raw
  match width with
  | .all => x
  | .byte => (old &&& ~~~((0xff : BitVec 32) <<< ImmedShift.bits shift)) ||| (x &&& (0xff <<< ImmedShift.bits shift))
  | .word => (old &&& ~~~((0xffff : BitVec 32) <<< ImmedShift.bits shift)) |||
      (x &&& (0xffff <<< ImmedShift.bits shift))

def State.execImmed (st : State) (areg breg immHi : BitVec 16) (width : ImmedWidth) (invert : Bool)
    (shift : ImmedShift) (wrBoth : Bool) : State :=
  if isUrImm breg then
    st.write areg .a wrBoth
      (immedValue (st.readA areg) ((immHi <<< 8) ||| (breg &&& 0xff)) width invert shift)
  else
    st.write breg .b wrBoth
      (immedValue (st.readB breg) ((immHi <<< 8) ||| (areg &&& 0xff)) width invert shift)

def isReImm (r : BitVec 8) : Bool := r &&& 0x20 != 0

def reImmValue (r : BitVec 8) (i8 : Bool) : BitVec 32 :=
  ((r &&& 0x1f) ||| ((r >>> 1) &&& 0x60) ||| (if i8 then 0x80 else 0)).setWidth 32

abbrev reGprCount : BitVec 8 := 0x20

def State.readRe (st : State) (bank : BitVec 16 → BitVec 32) (r : BitVec 8) (i8 : Bool) : BitVec 32 :=
  if isReImm r then reImmValue r i8
  else if r < reGprCount then bank (r.setWidth 16) else st.ext (r.setWidth 16)

def byteMask (m : BitVec 8) : BitVec 32 :=
  (if m.getLsbD 0 then 0xff else 0) ||| (if m.getLsbD 1 then 0xff00 else 0) |||
    (if m.getLsbD 2 then 0xff0000 else 0) ||| (if m.getLsbD 3 then 0xff000000 else 0)

def shiftSrc (sc : ShfSc) (shift : BitVec 8) (x : BitVec 32) : Option (BitVec 32) :=
  match sc with
  | .rRot => some (x.rotateRight shift.toNat)
  | .rShf => some (x >>> shift.toNat)
  | .lShf => some (x <<< (32 - shift.toNat))
  | .rDshf => none

def fieldValue (old : BitVec 32) (bmask : BitVec 8) (zero : Bool) (x : BitVec 32) : BitVec 32 :=
  (if zero then 0 else old &&& ~~~byteMask bmask) ||| (x &&& byteMask bmask)

def State.execLdField (st : State) (sc : ShfSc) (areg bmask breg shift : BitVec 8)
    (imm8 zero swap wrBoth : Bool) : Option State :=
  if swap then
    (shiftSrc sc shift (st.readRe st.a areg imm8)).map fun x =>
      st.write (breg.setWidth 16) .b wrBoth (fieldValue (st.readRe st.b breg false) bmask zero x)
  else
    (shiftSrc sc shift (st.readRe st.b breg imm8)).map fun x =>
      st.write (areg.setWidth 16) .a wrBoth (fieldValue (st.readRe st.a areg false) bmask zero x)

def MulUnit.product (u : MulUnit) : BitVec 64 :=
  match u.type with
  | .step16x16 => ((u.left &&& 0xffff).setWidth 64) * ((u.right &&& 0xffff).setWidth 64)
  | _ => u.left.setWidth 64 * u.right.setWidth 64

def MulUnit.next (u : MulUnit) (type : MulType) (k : Nat) : Option MulUnit :=
  if u.done = k ∧ (k = 0 ∨ u.type = type) then some { u with type := type, done := k + 1 } else none

def State.execMul (st : State) (dstAb : AluDstAb) (areg : BitVec 16) (type : MulType) (step : MulStep)
    (breg : BitVec 16) (swap wrBoth : Bool) : Option State :=
  match type, step with
  | .start, .step1 =>
    let l := if swap then st.readB breg else st.readA areg
    let r := if swap then st.readA areg else st.readB breg
    some { st with mul := ⟨l, r, .start, 0⟩ }
  | .start, _ => none
  | .step24x8, _ => none
  | type, .step1 => (st.mul.next type 0).map fun u => { st with mul := u }
  | type, .step2 => (st.mul.next type 1).map fun u => { st with mul := u }
  | .step16x16, .step3 => none
  | .step16x16, .step4 => none
  | type, .step3 => (st.mul.next type 2).map fun u => { st with mul := u }
  | type, .step4 => (st.mul.next type 3).map fun u => { st with mul := u }
  | type, .last =>
    (st.mul.next type (if type = .step16x16 then 2 else 4)).map fun u =>
      { st with mul := u }.write areg dstAb wrBoth (lo u.product)
  | .step16x16, .last2 => none
  | type, .last2 =>
    (st.mul.next type 5).map fun u =>
      { st with mul := u }.write areg dstAb wrBoth (hi u.product)

def exec (op : Op) (st : State) : Option State :=
  match op with
  | .immed areg breg immHi width invert shift wrBoth false false =>
    some (st.execImmed areg breg immHi width invert shift wrBoth)
  | .alu dst dstAb areg op breg swap wrBoth false false =>
    let l := if swap then st.readB breg else st.readA areg
    let r := if swap then st.readA areg else st.readB breg
    let res := aluResult op l r st.c
    some ((st.setFlags res).write dst dstAb wrBoth res.sum)
  | .mul dstAb areg type step breg swap wrBoth false false =>
    st.execMul dstAb areg type step breg swap wrBoth
  | .ldField sc areg bmask breg shift imm8 zero swap wrBoth false false =>
    st.execLdField sc areg bmask breg shift imm8 zero swap wrBoth
  | _ => none

def State.test (st : State) : BrMask → Bool
  | .beq => st.z
  | .bne => !st.z
  | .bmi => st.n
  | .bhs => st.c
  | .blo => !st.c
  | .bge => st.n == st.v
  | .blt => st.n != st.v
  | .unc => true

def run : List Op → State → Option (Bool × State)
  | [], st => some (false, st)
  | .br mask _ _ _ 0 :: rest, st => if st.test mask then some (true, st) else run rest st
  | op :: rest, st => (exec op st).bind (run rest)

end NfpDriver.Machine
