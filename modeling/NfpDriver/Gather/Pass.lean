import NfpDriver.Bpf.Meta
import Mathlib.Logic.Function.Iterate

namespace NfpDriver.Gather

open Bpf

def currPairIsMemcpy (ldMeta stMeta : Meta) : Bool :=
  let ld := ldMeta.insn
  let st := stMeta.insn
  if !isMbpfLoad ldMeta || !isMbpfStore stMeta then false
  else if ldMeta.ptr.type ≠ .ptrToPacket ∧ ldMeta.ptr.type ≠ .ptrToMapValue then false
  else if stMeta.ptr.type ≠ .ptrToPacket then false
  else if bpfSize ld.code ≠ bpfSize st.code then false
  else if ld.dstReg ≠ st.srcReg then false
  else if stMeta.hasFlag flagInsnIsJumpDst then false
  else true

def currPairChainWithPrevious (ldMeta stMeta : Meta) (prev : Option (Insn × Insn)) : Bool :=
  match prev with
  | none => true
  | some (prevLd, prevSt) =>
    let ld := ldMeta.insn
    let st := stMeta.insn
    let prevSize := bpfLdstBytes prevLd
    let currSize := bpfLdstBytes ld
    if ld.dstReg ≠ prevLd.dstReg then false
    else if ld.srcReg ≠ prevLd.srcReg ∨ st.dstReg ≠ prevSt.dstReg then false
    else if currSize ≠ prevSize then false
    else if ldMeta.hasFlag flagInsnIsJumpDst then false
    else if prevLd.off.toInt + prevSize = ld.off.toInt ∧
        prevSt.off.toInt + prevSize = st.off.toInt then true
    else if ld.off.toInt + currSize = prevLd.off.toInt ∧
        st.off.toInt + currSize = prevSt.off.toInt then true
    else false

def crossMemAccess (ld : Insn) (headLdMeta headStMeta : Meta) : Bool :=
  if headLdMeta.ptr.type ≠ headStMeta.ptr.type then false
  else if headLdMeta.ptr.id ≠ headStMeta.ptr.id then true
  else
    let headLdOff := headLdMeta.insn.off + headLdMeta.ptr.off.setWidth 16
    let headStOff := headStMeta.insn.off + headStMeta.ptr.off.setWidth 16
    let ldOff := ld.off + headLdMeta.ptr.off.setWidth 16
    if ldOff.toInt > headLdOff.toInt ∧
        headLdOff.toInt < headStOff.toInt ∧ ldOff.toInt ≥ headStOff.toInt then true
    else if ldOff.toInt < headLdOff.toInt ∧
        headLdOff.toInt > headStOff.toInt ∧ ldOff.toInt ≤ headStOff.toInt then true
    else false

structure GatherState where
  insns : List Meta
  pos : Nat
  head : Option (Nat × Nat)
  prev : Option (Nat × Nat)
  count : Nat

def insnPair (insns : List Meta) (p : Nat × Nat) : Insn × Insn :=
  ((metaAt insns p.1).insn, (metaAt insns p.2).insn)

def setGatherLen (len : Int) (m : Meta) : Meta := { m with ldstGatherLen := len }

def setInsnOff (off : BitVec 16) (m : Meta) : Meta := { m with insn := { m.insn with off := off } }

def setPairedSt (st : Nat) (m : Meta) : Meta := { m with pairedSt := some st }

def closeChain (insns : List Meta) (count : Nat) (head prev : Nat × Nat) : List Meta :=
  if count > 1 then
    let prevLdOff := (metaAt insns prev.1).insn.off
    let prevStOff := (metaAt insns prev.2).insn.off
    let headLdOff := (metaAt insns head.1).insn.off
    let insns :=
      if prevLdOff.toInt < headLdOff.toInt then
        ((insns.modify head.1 (setInsnOff prevLdOff)).modify head.2 (setInsnOff prevStOff)).modify
          head.1 (fun m => setGatherLen (-m.ldstGatherLen) m)
      else insns
    (insns.modify head.1 (setPairedSt head.2)).modify head.2
      (Meta.addFlag · flagInsnSkipPrecDependent)
  else insns.modify head.1 (setGatherLen 0)

def closeOpen (s : GatherState) : List Meta :=
  match s.head, s.prev with
  | some head, some prev => closeChain s.insns s.count head prev
  | _, _ => s.insns

def chainBroken (s : GatherState) : Bool :=
  let meta1 := metaAt s.insns s.pos
  let meta2 := metaAt s.insns (s.pos + 1)
  !currPairIsMemcpy meta1 meta2 ||
    !currPairChainWithPrevious meta1 meta2 (s.prev.map (insnPair s.insns)) ||
    match s.head with
    | some head =>
      crossMemAccess meta1.insn (metaAt s.insns head.1) (metaAt s.insns head.2) ||
        (metaAt s.insns head.1).ldstGatherLen ≥ 128
    | none => false

def gatherBody (s : GatherState) : GatherState :=
  let meta1 := metaAt s.insns s.pos
  let meta2 := metaAt s.insns (s.pos + 1)
  let bytes : Int := bpfLdstBytes meta1.insn
  if chainBroken s then
    if s.count = 0 then { s with pos := s.pos + 1 }
    else if currPairIsMemcpy meta1 meta2 then
      { insns := (closeOpen s).modify s.pos (setGatherLen bytes)
        pos := s.pos + 2
        head := some (s.pos, s.pos + 1)
        prev := some (s.pos, s.pos + 1)
        count := 1 }
    else ⟨closeOpen s, s.pos + 1, none, none, 0⟩
  else
    match s.head with
    | none =>
      { insns := s.insns.modify s.pos (fun m => setGatherLen (m.ldstGatherLen + bytes) m)
        pos := s.pos + 2
        head := some (s.pos, s.pos + 1)
        prev := some (s.pos, s.pos + 1)
        count := s.count + 1 }
    | some head =>
      { insns := ((s.insns.modify s.pos (Meta.addFlag · flagInsnSkipPrecDependent)).modify
          (s.pos + 1) (Meta.addFlag · flagInsnSkipPrecDependent)).modify head.1
          (fun m => setGatherLen (m.ldstGatherLen + bytes) m)
        pos := s.pos + 2
        head := some head
        prev := some (s.pos, s.pos + 1)
        count := s.count + 1 }

def gatherStep (s : GatherState) : GatherState :=
  if s.pos + 1 < s.insns.length then gatherBody s else s

def gatherStart (insns : List Meta) : GatherState := ⟨insns, 0, none, none, 0⟩

def nfpBpfOptLdstGather (insns : List Meta) : List Meta :=
  (gatherStep^[insns.length] (gatherStart insns)).insns

end NfpDriver.Gather
