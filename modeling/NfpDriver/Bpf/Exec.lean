import NfpDriver.Bpf.Meta
import NfpDriver.Library.BlockCopy

namespace NfpDriver.Bpf

open BlockCopy

abbrev Bytes := Memory RegType (BitVec 8)

instance nontrivialByte : Nontrivial (BitVec 8) := ⟨0, 1, by decide⟩

inductive Val where
  | num (v : BitVec 64)
  | ptr (t : RegType) (addr : Int)

structure ExecState where
  regs : Fin 16 → Val
  mem : Bytes

def readLe (m : Bytes) (t : RegType) (a : Int) : Nat → BitVec 64
  | 0 => 0
  | w + 1 => readLe m t (a + 1) w <<< 8 ||| (m t a).setWidth 64

def byteOf (v : BitVec 64) (i : Nat) : BitVec 8 := v.extractLsb' (8 * i) 8

def writeLe (m : Bytes) (t : RegType) (a : Int) (w : Nat) (v : BitVec 64) : Bytes :=
  fun p x => if p = t ∧ a ≤ x ∧ x < a + w then byteOf v (x - a).toNat else m p x

def setReg (st : ExecState) (r : Fin 16) (v : Val) : ExecState :=
  { st with regs := fun q => if q = r then v else st.regs q }

def execLoad (insn : Insn) (st : ExecState) : Option ExecState :=
  match st.regs insn.srcReg with
  | .ptr t a =>
    some (setReg st insn.dstReg (.num (readLe st.mem t (a + insn.off.toInt) (bpfLdstBytes insn))))
  | .num _ => none

def execStore (insn : Insn) (st : ExecState) : Option ExecState :=
  match st.regs insn.dstReg, st.regs insn.srcReg with
  | .ptr t a, .num v =>
    some { st with mem := writeLe st.mem t (a + insn.off.toInt) (bpfLdstBytes insn) v }
  | _, _ => none

def execInsn (m : Meta) (st : ExecState) : Option ExecState :=
  if isMbpfLoad m then execLoad m.insn st
  else if isMbpfStore m then execStore m.insn st
  else none

def execAll : List Meta → ExecState → Option ExecState
  | [], st => some st
  | m :: ms, st => (execInsn m st).bind (execAll ms)

theorem execAll_append (ms ns : List Meta) (st : ExecState) :
    execAll (ms ++ ns) st = (execAll ms st).bind (execAll ns) := by
  induction ms generalizing st with
  | nil => rfl
  | cons m ms ih =>
    simp only [List.cons_append, execAll, Option.bind_assoc]
    congr 1
    funext st'
    exact ih st'

theorem byteOf_low (v : BitVec 64) (b : BitVec 8) : byteOf (v <<< 8 ||| b.setWidth 64) 0 = b := by
  apply BitVec.eq_of_getLsbD_eq
  intro j hj
  simp [byteOf, hj, show j < 64 by omega]

theorem byteOf_high (v : BitVec 64) (b : BitVec 8) {i : Nat} (hi : i < 7) :
    byteOf (v <<< 8 ||| b.setWidth 64) (i + 1) = byteOf v i := by
  apply BitVec.eq_of_getLsbD_eq
  intro j hj
  have hb : b.getLsbD (8 * (i + 1) + j) = false := BitVec.getLsbD_of_ge b _ (by omega)
  have hs : 8 * (i + 1) + j - 8 = 8 * i + j := by omega
  simp [byteOf, hj, hb, hs, show 8 * (i + 1) + j < 64 by omega, show ¬ 8 * (i + 1) + j < 8 by omega,
    BitVec.getLsbD_eq_getElem (show 8 * i + j < 64 by omega)]

theorem byteOf_readLe (m : Bytes) (t : RegType) (a : Int) {w i : Nat} (hw : w ≤ 8) (hi : i < w) :
    byteOf (readLe m t a w) i = m t (a + i) := by
  induction w generalizing a i with
  | zero => omega
  | succ w ih =>
    cases i with
    | zero => simp [readLe, byteOf_low]
    | succ i =>
      rw [readLe, byteOf_high _ _ (by omega), ih (a + 1) (by omega) (by omega)]
      push_cast
      congr 1
      ring

theorem writeLe_readLe (m : Bytes) (t q : RegType) (s d : Int) {w : Nat} (hw : w ≤ 8) :
    writeLe m q d w (readLe m t s w) = blockCopy t q s d w m := by
  funext p x
  by_cases h : p = q ∧ d ≤ x ∧ x < d + w
  · obtain ⟨rfl, hl, hu⟩ := h
    have hx : ((x - d).toNat : Int) = x - d := Int.toNat_of_nonneg (by omega)
    rw [blockCopy_inside t p m hl hu, writeLe, if_pos ⟨rfl, hl, hu⟩, byteOf_readLe m t s hw (by omega), hx]
  · simp only [writeLe, blockCopy, if_neg h]

theorem bpfLdstBytes_le (insn : Insn) : bpfLdstBytes insn ≤ 8 := by
  rcases bpfLdstBytes_cases insn with h | h | h | h <;> omega

theorem execPair {ld st : Meta} {s : ExecState} {t q : RegType} {a b : Int}
    (hld : isMbpfLoad ld = true) (hst : isMbpfStore st = true)
    (hreg : ld.insn.dstReg = st.insn.srcReg) (hsize : bpfLdstBytes st.insn = bpfLdstBytes ld.insn)
    (hne : st.insn.dstReg ≠ ld.insn.dstReg)
    (hsrc : s.regs ld.insn.srcReg = .ptr t a) (hdst : s.regs st.insn.dstReg = .ptr q b) :
    ∃ v, execAll [ld, st] s = some
      { setReg s ld.insn.dstReg v with
        mem := blockCopy t q (a + ld.insn.off.toInt) (b + st.insn.off.toInt) (bpfLdstBytes ld.insn) s.mem } := by
  have hnl : isMbpfLoad st = false := by
    by_contra hc
    have := load_not_store st (by simpa using hc)
    rw [hst] at this
    cases this
  refine ⟨.num (readLe s.mem t (a + ld.insn.off.toInt) (bpfLdstBytes ld.insn)), ?_⟩
  simp [execAll, execInsn, hld, hst, hnl, execLoad, hsrc, execStore, setReg, if_neg hne, hdst, ← hreg, hsize,
    writeLe_readLe _ _ _ _ _ (bpfLdstBytes_le ld.insn)]

end NfpDriver.Bpf
