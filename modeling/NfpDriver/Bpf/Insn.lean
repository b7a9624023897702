import Mathlib.Data.Fintype.Basic
import Mathlib.Data.BitVec

namespace NfpDriver.Bpf

instance registers : NeZero 16 := ⟨by decide⟩

structure Insn where
  code : BitVec 8
  dstReg : Fin 16
  srcReg : Fin 16
  off : BitVec 16
  imm : BitVec 32
  deriving DecidableEq, Repr

def bpfClass (code : BitVec 8) : BitVec 8 := code &&& 0x07
def bpfSize (code : BitVec 8) : BitVec 8 := code &&& 0x18
def bpfMode (code : BitVec 8) : BitVec 8 := code &&& 0xe0
def bpfOp (code : BitVec 8) : BitVec 8 := code &&& 0xf0
def bpfSrc (code : BitVec 8) : BitVec 8 := code &&& 0x08

abbrev bpfLd : BitVec 8 := 0x00
abbrev bpfLdx : BitVec 8 := 0x01
abbrev bpfSt : BitVec 8 := 0x02
abbrev bpfStx : BitVec 8 := 0x03
abbrev bpfAlu : BitVec 8 := 0x04
abbrev bpfJmp : BitVec 8 := 0x05
abbrev bpfJmp32 : BitVec 8 := 0x06
abbrev bpfAlu64 : BitVec 8 := 0x07

abbrev bpfW : BitVec 8 := 0x00
abbrev bpfH : BitVec 8 := 0x08
abbrev bpfB : BitVec 8 := 0x10
abbrev bpfDw : BitVec 8 := 0x18

abbrev bpfImm : BitVec 8 := 0x00
abbrev bpfAbs : BitVec 8 := 0x20
abbrev bpfInd : BitVec 8 := 0x40
abbrev bpfMem : BitVec 8 := 0x60
abbrev bpfAtomic : BitVec 8 := 0xc0

abbrev bpfK : BitVec 8 := 0x00
abbrev bpfX : BitVec 8 := 0x08

abbrev bpfAdd : BitVec 8 := 0x00
abbrev bpfSub : BitVec 8 := 0x10
abbrev bpfMul : BitVec 8 := 0x20
abbrev bpfDiv : BitVec 8 := 0x30
abbrev bpfOr : BitVec 8 := 0x40
abbrev bpfAnd : BitVec 8 := 0x50
abbrev bpfLsh : BitVec 8 := 0x60
abbrev bpfRsh : BitVec 8 := 0x70
abbrev bpfNeg : BitVec 8 := 0x80
abbrev bpfXor : BitVec 8 := 0xa0
abbrev bpfMov : BitVec 8 := 0xb0
abbrev bpfArsh : BitVec 8 := 0xc0
abbrev bpfEnd : BitVec 8 := 0xd0

abbrev bpfJa : BitVec 8 := 0x00
abbrev bpfJeq : BitVec 8 := 0x10
abbrev bpfJgt : BitVec 8 := 0x20
abbrev bpfJge : BitVec 8 := 0x30
abbrev bpfJset : BitVec 8 := 0x40
abbrev bpfJne : BitVec 8 := 0x50
abbrev bpfJsgt : BitVec 8 := 0x60
abbrev bpfJsge : BitVec 8 := 0x70
abbrev bpfCall : BitVec 8 := 0x80
abbrev bpfExit : BitVec 8 := 0x90
abbrev bpfJlt : BitVec 8 := 0xa0
abbrev bpfJle : BitVec 8 := 0xb0
abbrev bpfJslt : BitVec 8 := 0xc0
abbrev bpfJsle : BitVec 8 := 0xd0

def bpfReg10 : Fin 16 := 10
def bpfPseudoCall : Fin 16 := 1

def bpfSizeToBytes (size : BitVec 8) : Nat :=
  if size = bpfB then 1
  else if size = bpfH then 2
  else if size = bpfW then 4
  else 8

def bpfLdstBytes (insn : Insn) : Nat := bpfSizeToBytes (bpfSize insn.code)

theorem bpfLdstBytes_cases (insn : Insn) :
    bpfLdstBytes insn = 1 ∨ bpfLdstBytes insn = 2 ∨ bpfLdstBytes insn = 4 ∨
      bpfLdstBytes insn = 8 := by
  simp only [bpfLdstBytes, bpfSizeToBytes]
  split
  · exact .inl rfl
  split
  · exact .inr (.inl rfl)
  · split
    · exact .inr (.inr (.inl rfl))
    · exact .inr (.inr (.inr rfl))

theorem bpfLdstBytes_pos (insn : Insn) : 0 < bpfLdstBytes insn := by
  rcases bpfLdstBytes_cases insn with h | h | h | h <;> omega

end NfpDriver.Bpf
