import NfpDriver.Machine.Engine
import NfpDriver.Jit.Shift

namespace NfpDriver.Machine

open Asm Adder Jit List Option

namespace Engine

theorem execs_append (l r : List Op) (e : Engine) : execs (l ++ r) e = (execs l e).bind (execs r) := by
  induction l generalizing e with
  | nil => rfl
  | cons op l ih =>
    rw [cons_append, execs, execs, bind_assoc]
    congr 1
    funext e'
    exact ih e'

structure Does (c : Code) (e e' : Engine) : Prop where
  clean : hasError c = false
  runs : execs (ops c) e = some e'

theorem Does.nil (e : Engine) : Does [] e e := ⟨rfl, rfl⟩

variable {c : Code} {e e' : Engine} {op : Op} {dst l r : Swreg}

theorem Does.append {d : Code} {e'' : Engine} (h : Does c e e') (h' : Does d e' e'') : Does (c ++ d) e e'' where
  clean := by rw [hasError, List.any_append, ← hasError, ← hasError, h.clean, h'.clean]; rfl
  runs := by rw [ops_append, execs_append, h.runs]; exact h'.runs

theorem hasError_of_ops (h : (ops c).length = c.length) : hasError c = false := by
  induction c with
  | nil => rfl
  | cons f c ih =>
    cases f with
    | push op relo =>
      rw [ops_push, length_cons, length_cons] at h
      exact ih (by omega)
    | fault e =>
      have hle : (ops c).length ≤ c.length := length_filterMap_le _ _
      rw [ops_fault, length_cons] at h
      omega

theorem does_single (hc : ops c = [op]) (hlen : c.length = 1) (h : e.exec op = some e') : Does c e e' where
  clean := hasError_of_ops (by rw [hc, hlen]; rfl)
  runs := by
    rw [hc, execs, h]
    rfl

theorem emitAlu_length (dst l : Swreg) (op : AluOp) (r : Swreg) : (emitAlu dst l op r).length = 1 := by
  rw [emitAlu]
  split <;> rfl

theorem emitShf_length (dst l : Swreg) (op : ShfOp) (r : Swreg) (sc : ShfSc) (n : BitVec 8) :
    (emitShf dst l op r sc n).length = 1 := by
  rw [emitShf]
  split
  · rfl
  · split <;> rfl

theorem gpr_not_xfer {r : BitVec 16} (h : r < gprCount) : isXfer r = false := by
  have hall : ∀ k : Fin 128, isXfer (BitVec.ofNat 16 k) = false := by decide
  have hk : r.toNat < 128 := h
  simpa using hall ⟨r.toNat, hk⟩

theorem dest_not_xfer (hd : Dest dst) : isXfer (nfpSwregToUnreg dst true) = false := by
  cases hd with
  | a h => rw [unreg_gpr (.inl rfl) h]; exact gpr_not_xfer h
  | b h => rw [unreg_gpr (.inr (.inl rfl)) h]; exact gpr_not_xfer h
  | both h => rw [unreg_gpr (.inr (.inr rfl)) h]; exact gpr_not_xfer h
  | none => rfl

def aOperand (l r : Swreg) : Swreg := if l.type = .gprB ∨ r.type = .gprA then r else l

def aluDone (e : Engine) (dst : Swreg) (op : AluOp) (x y a : BitVec 32) : Engine :=
  { e with
    core := e.core.aluTo dst op x y
    prevA := a
    prevAlu := (aluResult op x y e.core.c).sum }

theorem exec_alu (hd : Dest dst) (op : AluOp) (areg breg : BitVec 16) (swap : Bool) (e : Engine) :
    e.exec (.alu (nfpSwregToUnreg dst true) (if dst.type = .gprB then .b else .a) areg op breg swap
      (dst.type = .gprBoth) false false) =
      some (e.aluDone dst op (if swap then e.core.readB breg else e.core.readA areg)
        (if swap then e.core.readA areg else e.core.readB breg) (e.core.readA areg)) := by
  simp only [exec, Machine.exec, map_some, write_dest hd, retire, dest_not_xfer hd, Bool.false_eq_true, if_false]
  rfl

theorem does_emitAlu (hd : Dest dst) (hl : Operand l) (hr : Operand r) (hne : l.type ≠ r.type) (op : AluOp)
    (e : Engine) :
    Does (emitAlu dst l op r) e
      (e.aluDone dst op (e.core.src l) (e.core.src r) (e.core.src (aOperand l r))) := by
  have hread : e.core.readA (aReg l r) = e.core.src (aOperand l r) := by
    rw [aReg, aOperand]
    split
    · next h =>
      apply operand_readA hr
      rcases h with h | h
      · exact fun h' => hne (h.trans h'.symm)
      · exact fun h' => RegKind.noConfusion (h.symm.trans h')
    · next h => exact operand_readA hl (fun h' => h (.inl h')) _
  apply does_single (ops_emitAlu hd hl.lmextn.1 hr hne op) (emitAlu_length ..)
  obtain ⟨h1, h2⟩ := operands_read hl hr hne e.core
  rw [exec_alu hd, h1, h2, hread]

theorem does_mov (hd : Dest dst) (hr : Operand r) (e : Engine) :
    ∃ a, Does (wrpMov dst r) e (e.aluDone dst .none 0 (e.core.src r) a) := by
  have hne : regNone.type ≠ r.type := hr.lmextn.2.symm
  refine ⟨e.core.readA (aReg regNone r), does_single (ops_emitAlu hd rfl hr hne .none) (emitAlu_length ..) ?_⟩
  rw [exec_alu hd, unary_read hr]
  rfl

def immedDone (e : Engine) (dst : Swreg) (x : BitVec 32) : Engine :=
  { e with core := e.core.put dst x, prevAlu := x }

theorem does_emitImmed (hd : Gpr dst) (imm : BitVec 16) (width : ImmedWidth) (invert : Bool) (shift : ImmedShift)
    (e : Engine) :
    Does (emitImmed dst imm width invert shift) e
      (e.immedDone dst (immedValue (e.core.held dst) imm width invert shift)) := by
  apply does_single (emitImmed_eq hd imm width invert shift) (emitImmed_length ..)
  rw [exec, Machine.exec]
  cases hd with
  | a h =>
    simp only [regA, encSwreg, reduceCtorEq, if_false, decide_false, execImmed_fst (byte_le imm),
      imm_bytes, readA_gpr h, (write_gpr h _).2.1, map_some, immedResult, imm_encoding (byte_le imm), if_true,
      retire, gpr_not_xfer h, Bool.false_eq_true]
    rfl
  | b h =>
    simp only [regB, encSwreg, reduceCtorEq, if_true, decide_false, execImmed_snd (byte_le imm) h,
      imm_bytes, readB_gpr h, (write_gpr h _).2.2, map_some, immedResult, gpr_encoding h,
      imm_encoding (byte_le imm), retire, gpr_not_xfer h, Bool.false_eq_true, if_false]
    rfl
  | both h =>
    simp only [regBoth, encSwreg, reduceCtorEq, if_false, decide_true, execImmed_fst (byte_le imm),
      imm_bytes, readA_gpr h, (write_gpr h _).1, map_some, immedResult, imm_encoding (byte_le imm), if_true,
      retire, gpr_not_xfer h, Bool.false_eq_true]
    rfl

theorem does_wrpImmed (hd : Gpr dst) (imm : BitVec 32) (e : Engine) :
    Does (wrpImmed dst imm) e (e.immedDone dst imm) := by
  refine wrpImmed_steps .append (does_emitImmed hd) (fun e x f => ?_) imm e
  simp only [immedDone, held_put hd, put_put hd]

theorem does_urLoadImmAny (imm : BitVec 32) (e : Engine) :
    ∃ e', Does (urLoadImmAny imm immB).1 e e' ∧ e'.core = e.core.loadImm imm ∧ e'.prevA = e.prevA := by
  rw [urLoadImmAny, State.loadImm]
  split
  · exact ⟨e, .nil e, rfl, rfl⟩
  · exact ⟨_, does_wrpImmed (.b (by decide)) imm e, rfl, rfl⟩

def isMul : Op → Bool
  | .mul .. => true
  | _ => false

theorem exec_isMul (h : isMul op = true) (e : Engine) :
    e.exec op = (Machine.exec op e.core).map fun st => { e with core := st } := by
  cases op with
  | mul dstAb areg type step breg swap wrBoth dstLm srcLm =>
    cases dstLm <;> cases srcLm <;> rfl
  | _ => cases h

theorem execs_of_run {l : List Op} (hl : ∀ op ∈ l, isMul op = true) {st : State} {t : Bool}
    (h : run l e.core = some (t, st)) : execs l e = some { e with core := st } := by
  induction l generalizing e with
  | nil =>
    cases h
    rfl
  | cons op l ih =>
    have hop := hl op (mem_cons_self ..)
    have hrun : run (op :: l) e.core = (Machine.exec op e.core).bind (run l) := by
      rw [run]
      intro mask ev css addr hbr
      rw [hbr] at hop
      exact Bool.false_ne_true hop
    rw [hrun] at h
    obtain ⟨st₁, hst₁, hrest⟩ := bind_eq_some_iff.mp h
    rw [execs, exec_isMul hop, hst₁]
    exact ih (e := { e with core := st₁ }) (fun q hq => hl q (mem_cons_of_mem _ hq)) hrest

theorem emitMul_isMul (l : Swreg) (type : MulType) (step : MulStep) (r : Swreg) :
    ∀ op ∈ ops (emitMul l type step r), isMul op = true := by
  intro op h
  rw [emitMul] at h
  split at h
  · cases h
  split at h <;> split at h
  · cases h
  · rw [mem_singleton.mp h]
    rfl
  · cases h
  · rw [mem_singleton.mp h]
    rfl

theorem emitMul_length (l : Swreg) (type : MulType) (step : MulStep) (r : Swreg) :
    (emitMul l type step r).length = 1 := by
  rw [emitMul]
  split
  · rfl
  split <;> split <;> rfl

theorem does_mulHigh (hd : Dest dst) (hl : Operand l) (hr : Operand r) (hne : l.type ≠ r.type) (e : Engine) :
    ∃ st, Does (wrpMulU32 dst regNone l r true) e { e with core := st } ∧
      st.a = (e.core.put dst (hi ((e.core.src l).setWidth 64 * (e.core.src r).setWidth 64))).a ∧
      st.b = (e.core.put dst (hi ((e.core.src l).setWidth 64 * (e.core.src r).setWidth 64))).b ∧
      st.c = e.core.c := by
  have h1 := runs_mul32 e.core hl hr hne .none
  have h2 := runs_mul_high hd (e.core.withMul (e.core.src l) (e.core.src r) .step32x32 5) rfl
  have h3 := (h1.append h2).run_eq
  refine ⟨_, ⟨hasError_of_ops ?_, execs_of_run ?_ h3⟩, ?_, ?_, ?_⟩
  · have hin : ∀ {type step}, ¬(type = .start ∧ step ≠ .none) → ¬(step = .last ∨ step = .last2) →
        (ops (emitMul l type step r)).length = 1 := by
      intro type step hs hlast
      rw [emitMul_operands hl hr hne hs hlast]
      rfl
    have hout : ∀ {out : Swreg} {step}, Dest out → (step = .last ∨ step = .last2) →
        (ops (emitMul out .step32x32 step regNone)).length = 1 := by
      intro out step ho hlast
      rw [emitMul_result ho (fun h => MulType.noConfusion h.1) hlast]
      rfl
    simp (disch := decide) only [wrpMulU32, if_true, ops_append, length_append, emitMul_length, hin]
    rw [hout .none (.inl rfl), hout hd (.inr rfl)]
  · intro op hop
    simp only [wrpMulU32, if_true, ops_append, mem_append] at hop
    rcases hop with ((((((hop | hop) | hop) | hop) | hop) | hop) | hop)
    all_goals exact emitMul_isMul _ _ _ _ op hop
  · obtain ⟨type, _, _, _, _⟩ := dst
    cases type <;> rfl
  · obtain ⟨type, _, _, _, _⟩ := dst
    cases type <;> rfl
  · rw [put_c]
    rfl

def put (e : Engine) (dst : Swreg) (x : BitVec 32) : Engine := { e with core := e.core.put dst x }

section Shf

variable {d l r : BitVec 16} (hd : d < 0x20) (hl : l < 0x20) (hr : r < 0x20) (op : ShfOp) (sc : ShfSc)
  {n : BitVec 8} (hn : n ≤ 0x1f) (e : Engine)

include hd hn

theorem does_shf {lhs rhs : Swreg} {areg breg : BitVec 8} (x y : BitVec 32) (sw : Bool)
    (hregs : swregToRestricted (regBoth d) lhs rhs true = .ok
      ⟨.a, d.setWidth 8, areg, breg, sw, true, false, false, false⟩)
    (hx : e.core.readRe e.core.a areg false = x) (hy : e.core.readRe e.core.b breg false = y) :
    Does (emitShf (regBoth d) lhs op rhs sc n) e (e.put (regBoth d)
      (shfValue op sc e.core.n (shfAmount sc n e.prevA) (if sw then y else x) (if sw then x else y))) := by
  have hops : ops (emitShf (regBoth d) lhs op rhs sc n) =
      [.shf d .a sc n (areg.setWidth 16) op (breg.setWidth 16) false sw true false false] := by
    simp only [emitShf, hregs, BitVec.not_lt.mpr hn, if_false, (re_encoding hd).2.2.2.1, ops_push, ops_nil]
  have hw : ∀ z : BitVec 8, (z.setWidth 16).setWidth 8 = z := by
    simp
  refine does_single hops (emitShf_length ..) ?_
  simp only [exec, execShf, hw, hx, hy, if_pos hd, (write_gpr (re_encoding hd).2.2.2.2 _).1]
  rfl

include hr

theorem does_shfA :
    Does (emitShf (regBoth d) regNone op (regA r) sc n) e (e.put (regBoth d)
      (shfValue op sc e.core.n (shfAmount sc n e.prevA) (e.core.b 0) (e.core.a r))) := by
  have hregs : swregToRestricted (regBoth d) regNone (regA r) true =
      .ok ⟨.a, d.setWidth 8, r.setWidth 8, 0, true, true, false, false, false⟩ := by
    simp [swregToRestricted, rereg_regBoth hd, rereg_regA hr, rereg_regNone]
  exact does_shf hd op sc hn e (e.core.a r) (e.core.b 0) true hregs (readRe_gpr hr false)
    (readRe_gpr (show (0 : BitVec 16) < 0x20 by decide) false)

theorem does_shfB :
    Does (emitShf (regBoth d) regNone op (regB r) sc n) e (e.put (regBoth d)
      (shfValue op sc e.core.n (shfAmount sc n e.prevA) (e.core.a 0) (e.core.b r))) := by
  have hregs : swregToRestricted (regBoth d) regNone (regB r) true =
      .ok ⟨.a, d.setWidth 8, 0, r.setWidth 8, false, true, false, false, false⟩ := by
    simp [swregToRestricted, rereg_regBoth hd, rereg_regB hr, rereg_regNone]
  exact does_shf hd op sc hn e (e.core.a 0) (e.core.b r) false hregs
    (readRe_gpr (show (0 : BitVec 16) < 0x20 by decide) false) (readRe_gpr hr false)

include hl

theorem does_shfAB :
    Does (emitShf (regBoth d) (regA l) op (regB r) sc n) e (e.put (regBoth d)
      (shfValue op sc e.core.n (shfAmount sc n e.prevA) (e.core.a l) (e.core.b r))) := by
  have hregs : swregToRestricted (regBoth d) (regA l) (regB r) true =
      .ok ⟨.a, d.setWidth 8, l.setWidth 8, r.setWidth 8, false, true, false, false, false⟩ := by
    simp [swregToRestricted, rereg_regBoth hd, rereg_regA hl, rereg_regB hr]
  exact does_shf hd op sc hn e (e.core.a l) (e.core.b r) false hregs (readRe_gpr hl false) (readRe_gpr hr false)

end Shf

end Engine

end NfpDriver.Machine
