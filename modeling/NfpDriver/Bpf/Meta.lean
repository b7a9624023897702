import NfpDriver.Bpf.Insn

namespace NfpDriver.Bpf

inductive RegType where
  | notInit
  | scalarValue
  | ptrToCtx
  | ptrToMapValue
  | ptrToStack
  | ptrToPacket
  | other
  deriving DecidableEq, Repr

structure Tnum where
  value : BitVec 64
  mask : BitVec 64
  deriving DecidableEq, Repr

structure RegState where
  type : RegType
  off : BitVec 32
  id : BitVec 32
  varOff : Tnum
  uminValue : BitVec 64
  umaxValue : BitVec 64
  deriving DecidableEq, Repr

def RegState.zero : RegState := ⟨.notInit, 0, 0, ⟨0, 0⟩, 0, 0⟩

structure PktCache where
  rangeStart : BitVec 16
  rangeEnd : BitVec 16
  doInit : Bool
  deriving DecidableEq, Repr

structure Meta where
  insn : Insn
  ptr : RegState
  pairedSt : Option Nat
  ldstGatherLen : Int
  ptrNotConst : Bool
  pktCache : PktCache
  xaddOver16bit : Bool
  xaddMaybe16bit : Bool
  jmpDst : Option Nat
  jumpNegOp : Bool
  numInsnsAfterBr : Nat
  funcId : BitVec 32
  arg1 : RegState
  arg2 : RegState
  arg2VarOff : Bool
  uminSrc : BitVec 64
  umaxSrc : BitVec 64
  uminDst : BitVec 64
  umaxDst : BitVec 64
  off : Nat
  n : Nat
  flags : BitVec 16
  subprogIdx : Nat
  doubleCb : Bool
  deriving DecidableEq, Repr

def Meta.zero (insn : Insn) (n : Nat) : Meta where
  insn := insn
  ptr := .zero
  pairedSt := none
  ldstGatherLen := 0
  ptrNotConst := false
  pktCache := ⟨0, 0, false⟩
  xaddOver16bit := false
  xaddMaybe16bit := false
  jmpDst := none
  jumpNegOp := false
  numInsnsAfterBr := 0
  funcId := 0
  arg1 := .zero
  arg2 := .zero
  arg2VarOff := false
  uminSrc := 0
  umaxSrc := 0
  uminDst := 0
  umaxDst := 0
  off := 0
  n := n
  flags := 0
  subprogIdx := 0
  doubleCb := false

instance : Inhabited Meta := ⟨.zero ⟨0, 0, 0, 0, 0⟩ 0⟩

def metaAt (l : List Meta) (k : Nat) : Meta := l.getD k default

theorem metaAt_modify (l : List Meta) (i k : Nat) (f : Meta → Meta) :
    metaAt (l.modify i f) k = if k = i ∧ i < l.length then f (metaAt l k) else metaAt l k := by
  simp only [metaAt, List.getD_eq_getElem?_getD, List.getElem?_modify]
  by_cases hk : k = i
  · subst hk
    by_cases hl : k < l.length
    · simp [hl]
    · simp [hl]
  · simp [hk, Ne.symm hk]

variable {i k : Nat} {l : List Meta}

theorem metaAt_modify_self (hi : i < l.length) (f : Meta → Meta) : metaAt (l.modify i f) i = f (metaAt l i) := by
  rw [metaAt_modify, if_pos ⟨rfl, hi⟩]

theorem metaAt_modify_ne (hk : k ≠ i) (f : Meta → Meta) : metaAt (l.modify i f) k = metaAt l k := by
  rw [metaAt_modify, if_neg (fun h => hk h.1)]

theorem metaAt_of_length_le (h : l.length ≤ k) : metaAt l k = default := by
  simp [metaAt, h]

abbrev flagInsnIsJumpDst : BitVec 16 := 0x01
abbrev flagInsnPtrCallerStackFrame : BitVec 16 := 0x04
abbrev flagInsnSkipNoop : BitVec 16 := 0x08
abbrev flagInsnSkipPrecDependent : BitVec 16 := 0x10
abbrev flagInsnSkipVerifierOpt : BitVec 16 := 0x20
abbrev flagInsnDoZext : BitVec 16 := 0x40
abbrev flagInsnSkipMask : BitVec 16 :=
  flagInsnSkipNoop ||| flagInsnSkipPrecDependent ||| flagInsnSkipVerifierOpt

def Meta.hasFlag (m : Meta) (f : BitVec 16) : Bool := m.flags &&& f != 0

def Meta.addFlag (m : Meta) (f : BitVec 16) : Meta := { m with flags := m.flags ||| f }

theorem Meta.hasFlag_addFlag (m : Meta) {f : BitVec 16} (hf : f ≠ 0) : (m.addFlag f).hasFlag f = true := by
  have h : (m.flags ||| f) &&& f = f := by
    ext i hi
    simp only [BitVec.getElem_and, BitVec.getElem_or]
    cases m.flags[i] <;> cases f[i] <;> rfl
  simpa [hasFlag, addFlag, h] using hf

abbrev bpfSizeMask : BitVec 8 := 0x18

def mbpfClass (m : Meta) : BitVec 8 := bpfClass m.insn.code
def mbpfSrc (m : Meta) : BitVec 8 := bpfSrc m.insn.code
def mbpfOp (m : Meta) : BitVec 8 := bpfOp m.insn.code
def mbpfMode (m : Meta) : BitVec 8 := bpfMode m.insn.code

def isMbpfAlu (m : Meta) : Bool := mbpfClass m == bpfAlu64 || mbpfClass m == bpfAlu
def isMbpfLoad (m : Meta) : Bool := m.insn.code &&& ~~~bpfSizeMask == bpfLdx ||| bpfMem
def isMbpfJmp32 (m : Meta) : Bool := mbpfClass m == bpfJmp32
def isMbpfJmp64 (m : Meta) : Bool := mbpfClass m == bpfJmp
def isMbpfJmp (m : Meta) : Bool := isMbpfJmp32 m || isMbpfJmp64 m
def isMbpfStore (m : Meta) : Bool := m.insn.code &&& ~~~bpfSizeMask == bpfStx ||| bpfMem
def isMbpfMul (m : Meta) : Bool := isMbpfAlu m && mbpfOp m == bpfMul
def isMbpfDiv (m : Meta) : Bool := isMbpfAlu m && mbpfOp m == bpfDiv

def isMbpfPseudoCall (m : Meta) : Bool :=
  m.insn.code == bpfJmp ||| bpfCall && m.insn.srcReg == bpfPseudoCall

theorem load_not_store (m : Meta) (h : isMbpfLoad m = true) : isMbpfStore m = false := by
  have hc : m.insn.code &&& ~~~bpfSizeMask = bpfLdx ||| bpfMem := by
    simpa [isMbpfLoad] using h
  rw [isMbpfStore, hc]
  decide

end NfpDriver.Bpf
