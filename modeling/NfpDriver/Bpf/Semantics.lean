import NfpDriver.Bpf.Insn
import NfpDriver.Library.Adder

namespace NfpDriver.Bpf

open Adder

def jmpCond (op : BitVec 8) {w : Nat} (x y : BitVec w) : Bool :=
  if op = bpfJeq then x == y
  else if op = bpfJne then x != y
  else if op = bpfJset then x &&& y != 0
  else if op = bpfJgt then y.ult x
  else if op = bpfJge then !x.ult y
  else if op = bpfJlt then x.ult y
  else if op = bpfJle then !y.ult x
  else if op = bpfJsgt then y.slt x
  else if op = bpfJsge then !x.slt y
  else if op = bpfJslt then x.slt y
  else if op = bpfJsle then !y.slt x
  else false

def operand (insn : Insn) (src : BitVec 64) : BitVec 64 :=
  if bpfSrc insn.code = bpfX then src else insn.imm.signExtend 64

def jumpCond (insn : Insn) (dst src : BitVec 64) : Bool :=
  if bpfClass insn.code = bpfJmp32 then jmpCond (bpfOp insn.code) (lo dst) (lo (operand insn src))
  else jmpCond (bpfOp insn.code) dst (operand insn src)

abbrev orderOps : List (BitVec 8) :=
  [bpfJgt, bpfJge, bpfJlt, bpfJle, bpfJsgt, bpfJsge, bpfJslt, bpfJsle]

abbrev condOps : List (BitVec 8) := bpfJeq :: bpfJne :: bpfJset :: orderOps

def isCondJmp (code : BitVec 8) : Bool :=
  (bpfClass code == bpfJmp || bpfClass code == bpfJmp32) && condOps.contains (bpfOp code)

def aluOp (op : BitVec 8) {w : Nat} (x y : BitVec w) : BitVec w :=
  if op = bpfAdd then x + y
  else if op = bpfSub then x - y
  else if op = bpfMul then x * y
  else if op = bpfOr then x ||| y
  else if op = bpfAnd then x &&& y
  else if op = bpfXor then x ^^^ y
  else if op = bpfMov then y
  else if op = bpfNeg then -x
  else x

def bswap16 (v : BitVec 16) : BitVec 16 := v.extractLsb' 0 8 ++ v.extractLsb' 8 8

def bswap32 (v : BitVec 32) : BitVec 32 :=
  v.extractLsb' 0 8 ++ v.extractLsb' 8 8 ++ v.extractLsb' 16 8 ++ v.extractLsb' 24 8

def bswap64 (v : BitVec 64) : BitVec 64 := bswap32 (lo v) ++ bswap32 (hi v)

def endValue (width : BitVec 32) (v : BitVec 64) : BitVec 64 :=
  if width = 16 then (bswap16 (v.extractLsb' 0 16)).setWidth 64
  else if width = 32 then (bswap32 (lo v)).setWidth 64
  else if width = 64 then bswap64 v
  else v

def aluValue (insn : Insn) (dst src : BitVec 64) : BitVec 64 :=
  if bpfOp insn.code = bpfEnd then endValue insn.imm dst
  else if bpfClass insn.code = bpfAlu64 then aluOp (bpfOp insn.code) dst (operand insn src)
  else (aluOp (bpfOp insn.code) (lo dst) (lo (operand insn src))).setWidth 64

abbrev regOps : List (BitVec 8) := [bpfMov, bpfXor, bpfAnd, bpfOr, bpfAdd, bpfSub, bpfMul]

def isRegAlu (code : BitVec 8) : Bool :=
  (bpfClass code == bpfAlu64 || bpfClass code == bpfAlu) && regOps.contains (bpfOp code)

def isNeg (code : BitVec 8) : Bool := code == bpfAlu64 ||| bpfNeg || code == bpfAlu ||| bpfNeg

def isEnd (code : BitVec 8) : Bool := code == bpfAlu ||| bpfEnd ||| bpfX

end NfpDriver.Bpf
