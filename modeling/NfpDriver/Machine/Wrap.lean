import NfpDriver.Machine.Emit
import NfpDriver.Jit.Wrap

namespace NfpDriver.Machine

open Asm Adder Jit Bpf BitVec

inductive Gpr : Swreg → Prop where
  | a {r : BitVec 16} (h : r < gprCount) : Gpr (regA r)
  | b {r : BitVec 16} (h : r < gprCount) : Gpr (regB r)
  | both {r : BitVec 16} (h : r < gprCount) : Gpr (regBoth r)

variable {s dst : Swreg} {st : State} {x val r : BitVec 16} {imm : BitVec 32} {shift : ImmedShift}

theorem Gpr.dest (h : Gpr s) : Dest s := by
  cases h with
  | a h => exact .a h
  | b h => exact .b h
  | both h => exact .both h

theorem Gpr.unreg (h : Gpr s) (d : Bool) : nfpSwregToUnreg s d = s.id := by
  cases h with
  | a h => exact unreg_gpr (.inl rfl) h
  | b h => exact unreg_gpr (.inr (.inl rfl)) h
  | both h => exact unreg_gpr (.inr (.inr rfl)) h

theorem Gpr.type_ne (h : Gpr s) : s.type ≠ .imm ∧ s.type ≠ .none := by
  cases h <;> exact ⟨RegKind.noConfusion, RegKind.noConfusion⟩

def State.held (st : State) (s : Swreg) : BitVec 32 :=
  match s.type with
  | .gprB => st.b s.id
  | _ => st.a s.id

theorem imm_bytes (imm : BitVec 16) : ((imm >>> 8) <<< 8) ||| (imm &&& 0xff) = imm := by
  have h : (0xff : BitVec 16) = (allOnes 8).setWidth 16 := by decide
  rw [h]
  ext i hi
  simp only [getElem_or, getElem_shiftLeft, getElem_and, getElem_setWidth, getLsbD_allOnes, getElem_ushiftRight]
  by_cases hl : i < 8
  · simp [hl]
  · have h8 : 8 + (i - 8) = i := by omega
    simp [hl, h8, getLsbD_eq_getElem hi]

theorem byte_le (imm : BitVec 16) : imm &&& 0xff ≤ 0xff := by
  exact Nat.and_le_right

theorem execImmed_fst (hx : x ≤ 0xff) (areg immHi : BitVec 16) (width : ImmedWidth) (invert : Bool)
    (shift : ImmedShift) (wrBoth : Bool) :
    st.execImmed areg (urRegImm ||| x) immHi width invert shift wrBoth =
      st.write areg .a wrBoth (immedValue (st.readA areg) ((immHi <<< 8) ||| x) width invert shift) := by
  simp only [State.execImmed, imm_encoding hx, if_true]

theorem execImmed_snd {breg : BitVec 16} (hx : x ≤ 0xff) (hb : breg < gprCount) (immHi : BitVec 16)
    (width : ImmedWidth) (invert : Bool) (shift : ImmedShift) (wrBoth : Bool) :
    st.execImmed (urRegImm ||| x) breg immHi width invert shift wrBoth =
      st.write breg .b wrBoth (immedValue (st.readB breg) ((immHi <<< 8) ||| x) width invert shift) := by
  simp only [State.execImmed, gpr_encoding hb, imm_encoding hx, Bool.false_eq_true, if_false]

theorem emitImmed_eq (hd : Gpr dst) (imm : BitVec 16) (width : ImmedWidth) (invert : Bool) (shift : ImmedShift) :
    ops (emitImmed dst imm width invert shift) =
      [.immed (if dst.type = .gprB then urRegImm ||| (imm &&& 0xff) else dst.id)
        (if dst.type = .gprB then dst.id else urRegImm ||| (imm &&& 0xff)) (imm >>> 8) width invert shift
        (dst.type = .gprBoth) false false] := by
  have hne : dst.type ≠ (regImm (imm &&& 0xff)).type := hd.type_ne.1
  have himm : (regImm (imm &&& 0xff)).type ≠ .gprA := RegKind.noConfusion
  simp only [emitImmed, emitImmedRelo, if_neg hd.type_ne.1, if_neg hd.type_ne.2, unrestricted_ok hd.dest (absurd · hne),
    aReg, bReg, hd.unreg, unreg_imm (byte_le imm), himm, or_false, hd.dest.lmextn.1, ops_push, ops_nil]
  rfl

theorem emitImmed_length (dst : Swreg) (imm : BitVec 16) (width : ImmedWidth) (invert : Bool) (shift : ImmedShift) :
    (emitImmed dst imm width invert shift).length = 1 := by
  rw [emitImmed, emitImmedRelo]
  split
  · rfl
  · split <;> rfl

theorem wrpImmed_count (dst : Swreg) (imm : BitVec 32) :
    (wrpImmed dst imm).length = 1 ∨ (wrpImmed dst imm).length = 2 := by
  rw [wrpImmed]
  split
  · exact .inl (emitImmed_length ..)
  split
  · exact .inl (emitImmed_length ..)
  · exact .inr (by rw [List.length_append, emitImmed_length, emitImmed_length])

theorem runs_emitImmed (hd : Gpr dst) (imm : BitVec 16) (width : ImmedWidth) (invert : Bool) (shift : ImmedShift)
    (st : State) :
    Runs (emitImmed dst imm width invert shift) st
      (st.put dst (immedValue (st.held dst) imm width invert shift)) := by
  intro rest
  rw [emitImmed_eq hd]
  apply run_cons rfl
  rw [exec]
  cases hd with
  | a h =>
    simp only [regA, encSwreg, reduceCtorEq, if_false, decide_false, execImmed_fst (byte_le imm),
      imm_bytes, readA_gpr h, (write_gpr h _).2.1]
    rfl
  | b h =>
    simp only [regB, encSwreg, reduceCtorEq, if_true, decide_false, execImmed_snd (byte_le imm) h,
      imm_bytes, readB_gpr h, (write_gpr h _).2.2]
    rfl
  | both h =>
    simp only [regBoth, encSwreg, reduceCtorEq, if_false, decide_true, execImmed_fst (byte_le imm),
      imm_bytes, readA_gpr h, (write_gpr h _).1]
    rfl

theorem and_not_of_and_eq_zero {x m : BitVec 32} (h : x &&& m = 0) : x &&& ~~~m = x := by
  ext i hi
  have hb : (x[i] && m[i]) = false := by
    have := congrArg (·[i]) h
    simpa only [getElem_and, ofNat_eq_ofNat, getElem_zero] using this
  cases hx : x[i] <;> cases hm : m[i] <;> simp_all

theorem window_shift (x : BitVec 32) (k : Nat) :
    ((x >>> k).setWidth 16).setWidth 32 <<< k = x &&& (((BitVec.allOnes 16).setWidth 32) <<< k) := by
  ext i hi
  simp only [getElem_shiftLeft, getElem_and, getElem_setWidth, getLsbD_setWidth, getLsbD_ushiftRight, getLsbD_allOnes]
  by_cases hk : i < k
  · simp [hk]
  · have hik : k + (i - k) = i := by omega
    simp [hk, hik, getLsbD_eq_getElem hi, Bool.and_comm]

theorem window_eq {x m : BitVec 32} {k : Nat} (h : x &&& m = 0)
    (hm : ~~~m = ((BitVec.allOnes 16).setWidth 32) <<< k) :
    ((x >>> k).setWidth 16).setWidth 32 <<< k = x := by
  rw [window_shift, ← hm, and_not_of_and_eq_zero h]

theorem packImmed_value (h : packImmed imm = some (val, shift)) : val.setWidth 32 <<< ImmedShift.bits shift = imm := by
  simp only [packImmed] at h
  split at h
  · next hz =>
    cases h
    simpa [ImmedShift.bits] using window_eq (k := 0) hz (by decide)
  split at h
  · next hz =>
    cases h
    exact window_eq (k := 8) hz (by decide)
  · split at h
    · next hz =>
      cases h
      exact window_eq (k := 16) hz (by decide)
    · cases h

theorem immedValue_pack (old : BitVec 32) (h : packImmed imm = some (val, shift)) :
    immedValue old val .all false shift = imm ∧ immedValue old val .all true shift = ~~~imm := by
  simp [immedValue, packImmed_value h]

theorem immedValue_word (imm old : BitVec 32) :
    immedValue (immedValue old (imm.setWidth 16) .all false .b0) ((imm >>> 16).setWidth 16) .word false .b2 =
      imm := by
  have hw := window_shift imm 16
  have hl := window_shift imm 0
  simp only [ushiftRight_zero] at hl
  change ((imm.setWidth 16).setWidth 32 <<< 0 &&& ~~~(0xffff0000 : BitVec 32)) |||
    (((imm >>> 16).setWidth 16).setWidth 32 <<< 16 &&& (0xffff0000 : BitVec 32)) = imm
  rw [hw, hl, show ((allOnes 16).setWidth 32 : BitVec 32) <<< 0 = ~~~(0xffff0000 : BitVec 32) by decide,
    show ((allOnes 16).setWidth 32 : BitVec 32) <<< 16 = (0xffff0000 : BitVec 32) by decide,
    BitVec.and_assoc, BitVec.and_assoc, BitVec.and_self, BitVec.and_self]
  generalize (0xffff0000 : BitVec 32) = mask
  ext i hi
  simp only [getElem_or, getElem_and, getElem_not]
  cases imm[i] <;> cases mask[i] <;> rfl

theorem wrpImmed_steps {σ : Type} {Step : Code → σ → σ → Prop} {put : σ → BitVec 32 → σ} {held : σ → BitVec 32}
    (happend : ∀ {c d s s₁ s₂}, Step c s s₁ → Step d s₁ s₂ → Step (c ++ d) s s₂)
    (hstep : ∀ val width invert shift s,
      Step (emitImmed dst val width invert shift) s (put s (immedValue (held s) val width invert shift)))
    (hput : ∀ s x (f : BitVec 32 → BitVec 32), put (put s x) (f (held (put s x))) = put s (f x)) (imm : BitVec 32)
      (s : σ) :
    Step (wrpImmed dst imm) s (put s imm) := by
  rw [wrpImmed]
  split
  · next val shift h =>
    have := hstep val .all false shift s
    rwa [(immedValue_pack _ h).1] at this
  split
  · next val shift h =>
    have := hstep val .all true shift s
    rwa [(immedValue_pack _ h).2, BitVec.not_not] at this
  · have h2 := hstep ((imm >>> 16).setWidth 16) .word false .b2
      (put s (immedValue (held s) (imm.setWidth 16) .all false .b0))
    rw [hput s _ (immedValue · _ _ _ _), immedValue_word] at h2
    exact happend (hstep _ _ _ _ s) h2

theorem put_put (hd : Gpr dst) (st : State) (x y : BitVec 32) : (st.put dst x).put dst y = st.put dst y := by
  cases hd <;> simp [State.put, State.setA, State.setB, regA, regB, regBoth, encSwreg]

theorem held_put (hd : Gpr dst) (st : State) (x : BitVec 32) : (st.put dst x).held dst = x := by
  cases hd <;> simp [State.put, State.held, State.setA, State.setB, regA, regB, regBoth, encSwreg]

theorem runs_wrpImmed (hd : Gpr dst) (imm : BitVec 32) (st : State) : Runs (wrpImmed dst imm) st (st.put dst imm) := by
  refine wrpImmed_steps .append (runs_emitImmed hd) (fun st x f => ?_) imm st
  rw [held_put hd, put_put hd]

def State.loadImm (st : State) (imm : BitVec 32) : State := if imm ≤ 0xff then st else st.put immB imm

section LoadImm

variable (st : State) (imm : BitVec 32)

theorem runs_urLoadImmAny : Runs (urLoadImmAny imm immB).1 st (st.loadImm imm) := by
  rw [urLoadImmAny, State.loadImm]
  split
  · exact .nil st
  · exact runs_wrpImmed (.b (by decide)) imm st

theorem src_urLoadImmAny : (st.loadImm imm).src (urLoadImmAny imm immB).2 = imm := by
  rw [urLoadImmAny, State.loadImm]
  split
  · next h =>
    simp only [src_regImm]
    apply eq_of_toNat_eq
    have : imm.toNat ≤ 255 := h
    simp only [toNat_setWidth]
    omega
  · simp [immB]

theorem operand_urLoadImmAny : Operand (urLoadImmAny imm immB).2 ∧ (urLoadImmAny imm immB).2.type ≠ .gprA := by
  rw [urLoadImmAny]
  split
  · next h =>
    refine ⟨.imm ?_, RegKind.noConfusion⟩
    have : imm.toNat ≤ 255 := h
    exact (Nat.mod_le _ _).trans this
  · exact ⟨.b (by decide), RegKind.noConfusion⟩

@[simp] theorem loadImm_a : (st.loadImm imm).a = st.a := by
  rw [State.loadImm]
  split <;> rfl

@[simp] theorem loadImm_c : (st.loadImm imm).c = st.c := by
  rw [State.loadImm]
  split <;> rfl

theorem loadImm_b (h : r ≠ staticRegImm) : (st.loadImm imm).b r = st.b r := by
  rw [State.loadImm]
  split
  · rfl
  · exact Function.update_of_ne h _ _

theorem runs_alu_imm (hd : Dest dst) {l : BitVec 16} (hl : l < gprCount) (op : AluOp) :
    Runs ((urLoadImmAny imm immB).1 ++ emitAlu dst (regA l) op (urLoadImmAny imm immB).2) st
      ((st.loadImm imm).aluTo dst op (st.a l) imm) := by
  have h := runs_emitAlu hd (.a hl) (operand_urLoadImmAny imm).1 (operand_urLoadImmAny imm).2.symm op
    (st.loadImm imm)
  rw [src_urLoadImmAny, src_regA, loadImm_a] at h
  exact (runs_urLoadImmAny st imm).append h

theorem runs_imm_alu (hd : Dest dst) (hr : r < gprCount) (op : AluOp) :
    Runs ((urLoadImmAny imm immB).1 ++ emitAlu dst (urLoadImmAny imm immB).2 op (regA r)) st
      ((st.loadImm imm).aluTo dst op imm (st.a r)) := by
  have h := runs_emitAlu hd (operand_urLoadImmAny imm).1 (.a hr) (operand_urLoadImmAny imm).2 op
    (st.loadImm imm)
  rw [src_urLoadImmAny, src_regA, loadImm_a] at h
  exact (runs_urLoadImmAny st imm).append h

end LoadImm

end NfpDriver.Machine
