import NfpDriver.Lower.Flags
import NfpDriver.Jit.Jump

namespace NfpDriver.Lower

open Asm Adder Jit Bpf Machine Function BitVec

theorem gpr_lt (r : Fin 16) : gpr r < gprCount ∧ gpr r + 1 < gprCount := by
  revert r
  decide

theorem gpr_ne_imm {r : Fin 16} (h : r ≤ 9) : gpr r ≠ staticRegImm ∧ gpr r + 1 ≠ staticRegImm := by
  revert r
  decide

variable {w : Nat} {r l : BitVec 16}

theorem or_eq_zero (x y : BitVec w) : (x ||| y == 0) = (x == 0 && y == 0) := by
  rw [Bool.eq_iff_iff]
  simp [ofNat_eq_ofNat, BitVec.or_eq_zero_iff]

theorem xor_eq_zero (x y : BitVec w) : (x ^^^ y == 0) = (x == y) := by
  rw [Bool.eq_iff_iff]
  simp only [beq_iff_eq, ofNat_eq_ofNat, BitVec.xor_eq_zero_iff]

theorem eq_halves (x y : BitVec 64) : (x == y) = (lo x == lo y && hi x == hi y) := by
  rw [Bool.eq_iff_iff]
  simp only [beq_iff_eq, Bool.and_eq_true]
  exact ⟨fun h => h ▸ ⟨rfl, rfl⟩, fun h => ext_halves h.1 h.2⟩

theorem ne_zero_halves (x : BitVec 64) : (x != 0) = (lo x != 0 || hi x != 0) := by
  rw [bne, eq_halves, Bool.not_and]
  rfl

theorem ne_halves (x y : BitVec 64) : (x != y) = (lo x ^^^ lo y != 0 || hi x ^^^ hi y != 0) := by
  rw [bne, eq_halves, Bool.not_and, ← xor_eq_zero, ← xor_eq_zero (hi x)]
  rfl

section Order

variable {m : Meta} {st : State}

theorem nfpJmpCodeGet_order (h : mbpfOp m ∈ orderOps) : ∃ code, nfpJmpCodeGet m = some code ∧
    code.brMask ∈ cmpMasks ∧ ∀ {w : Nat} (x y : BitVec w),
      (if code.swap then cmpTest code.brMask y x else cmpTest code.brMask x y) = jmpCond (mbpfOp m) x y := by
  simp only [List.mem_cons, List.not_mem_nil, or_false] at h
  rcases h with h | h | h | h | h | h | h | h <;> simp only [nfpJmpCodeGet, h] <;>
    exact ⟨_, rfl, by decide, fun _ _ => rfl⟩

theorem runs_cmpOperands (swap : Bool) (op : AluOp) (imm : BitVec 32) (hr : r < gprCount) (st : State) :
    Runs ((urLoadImmAny imm immB).1 ++ cmpOperands swap r op (urLoadImmAny imm immB).2) st
      ((st.loadImm imm).aluTo regNone op (if swap then imm else st.a r) (if swap then st.a r else imm)) := by
  cases swap with
  | false => exact runs_alu_imm st imm .none hr op
  | true => exact runs_imm_alu st imm .none hr op

theorem cmpImm_taken (h : mbpfOp m ∈ orderOps) (hn : m.jumpNegOp = false) :
    taken (cmpImm m).code st = some
      (if isMbpfJmp64 m then jmpCond (mbpfOp m) (pairA st (gpr m.insn.dstReg)) (sextImm m.insn)
      else jmpCond (mbpfOp m) (st.a (gpr m.insn.dstReg)) (lo (sextImm m.insn))) := by
  obtain ⟨code, hcode, hmask, hcond⟩ := nfpJmpCodeGet_order h
  have hlt := gpr_lt m.insn.dstReg
  have h1 := runs_cmpOperands code.swap .sub (lo (sextImm m.insn)) hlt.1 st
  have h2 := h1.append (runs_cmpOperands code.swap .subC (hi (sextImm m.insn)) hlt.2 _)
  simp only [cmpImm, hcode, hn, ok]
  cases isMbpfJmp64 m with
  | false =>
    simp only [Bool.false_eq_true, if_false, List.append_nil]
    rw [taken_branch h1, test_sub _ _ _ hmask, ← hcond]
    cases code.swap <;> rfl
  | true =>
    simp only [Bool.false_eq_true, if_false, if_true]
    rw [taken_branch h2, ← hcond, aluTo_none_a, loadImm_a]
    cases code.swap with
    | false | true =>
      have hx := lo_pairA st (gpr m.insn.dstReg)
      rw [← hi_pairA]
      exact congrArg some (test_subC (by rw [loadImm_c, hx]; rfl) hmask)

theorem runs_regs {dst : Swreg} (hd : Dest dst) (op : AluOp) (hl : l < gprCount) (hr : r < gprCount) (st : State) :
    Runs (emitAlu dst (regA l) op (regB r)) st (st.aluTo dst op (st.a l) (st.b r)) :=
  runs_emitAlu hd (.a hl) (.b hr) RegKind.noConfusion op st

theorem cmp_regs_taken {mask : BrMask} (hm : mask ∈ cmpMasks) (wide : Bool) (hl : l < gprCount ∧ l + 1 < gprCount)
    (hr : r < gprCount ∧ r + 1 < gprCount) (off : BitVec 16) (st : State) :
    taken (emitAlu regNone (regA l) .sub (regB r) ++
      (if wide then emitAlu regNone (regA (l + 1)) .subC (regB (r + 1)) else []) ++ emitBr mask off 0) st =
      some (if wide then cmpTest mask (pairA st l) (pairB st r) else cmpTest mask (st.a l) (st.b r)) := by
  have h1 := runs_regs .none .sub hl.1 hr.1 st
  cases wide with
  | false =>
    simp only [Bool.false_eq_true, if_false, List.append_nil]
    rw [taken_branch h1, test_sub _ _ _ hm]
  | true =>
    have h2 := h1.append (runs_regs .none .subC hl.2 hr.2 _)
    simp only [if_true]
    rw [taken_branch h2, aluTo_none_a, aluTo_none_b, ← hi_pairA, ← hi_pairB]
    exact congrArg some (test_subC (by rw [lo_pairA, lo_pairB]; rfl) hm)

theorem cmpReg_taken (h : mbpfOp m ∈ orderOps) : ∃ swap : Bool, ∀ st,
    taken (cmpReg m).code st = some
      (if isMbpfJmp64 m then
        jmpCond (mbpfOp m)
          (if swap then pairB st (gpr m.insn.dstReg) else pairA st (gpr m.insn.dstReg))
          (if swap then pairA st (gpr m.insn.srcReg) else pairB st (gpr m.insn.srcReg))
      else
        jmpCond (mbpfOp m) (if swap then st.b (gpr m.insn.dstReg) else st.a (gpr m.insn.dstReg))
          (if swap then st.a (gpr m.insn.srcReg) else st.b (gpr m.insn.srcReg))) := by
  obtain ⟨code, hcode, hmask, hcond⟩ := nfpJmpCodeGet_order h
  refine ⟨code.swap, fun st => ?_⟩
  have hd := gpr_lt m.insn.dstReg
  have hs := gpr_lt m.insn.srcReg
  simp only [cmpReg, hcode, ok, ← hcond]
  cases code.swap with
  | false => exact cmp_regs_taken hmask (isMbpfJmp64 m) hd hs m.insn.off st
  | true => exact cmp_regs_taken hmask (isMbpfJmp64 m) hs hd m.insn.off st

end Order

section Equal

variable {m : Meta} {st : State}

theorem jeq32Imm_taken : taken (jeq32Imm m).code st = some (st.a (gpr m.insn.dstReg) == m.insn.imm) := by
  have h := runs_alu_imm st m.insn.imm .none (gpr_lt m.insn.dstReg).1 .xor
  simp only [jeq32Imm, ok]
  rw [taken_branch h, State.test, aluTo_z]
  exact congrArg some (xor_eq_zero _ _)

theorem taken_test (c : Code) (st st' : State) (h : Runs c st st') (mask : BrMask) (off : BitVec 16) (d : Code)
    (y : Bool) (hd : taken d st' = some y) :
    taken (c ++ emitBr mask off 0 ++ d) st = some (st'.test mask || y) := by
  rw [taken_branch_append h, hd]
  cases st'.test mask <;> rfl

theorem wrpTestReg_taken (op : AluOp) :
    taken (wrpTestReg m op .bne).code st = some
      (((aluResult op (st.a (gpr m.insn.dstReg)) (st.b (gpr m.insn.srcReg)) st.c).sum != 0) ||
        (isMbpfJmp64 m && (aluResult op (st.a (gpr m.insn.dstReg + 1)) (st.b (gpr m.insn.srcReg + 1))
          (aluResult op (st.a (gpr m.insn.dstReg)) (st.b (gpr m.insn.srcReg)) st.c).carry).sum != 0)) := by
  have h1 := runs_regs .none op (gpr_lt m.insn.dstReg).1 (gpr_lt m.insn.srcReg).1 st
  have h2 := runs_regs .none op (gpr_lt m.insn.dstReg).2 (gpr_lt m.insn.srcReg).2
    (st.aluTo regNone op (st.a (gpr m.insn.dstReg)) (st.b (gpr m.insn.srcReg)))
  simp only [wrpTestReg, wrpTestRegOne, ok]
  cases isMbpfJmp64 m with
  | false =>
    simp only [Bool.false_eq_true, if_false, List.append_nil, Bool.false_and, Bool.or_false]
    rw [taken_branch h1, State.test, aluTo_z]
    rfl
  | true =>
    simp only [if_true, Bool.true_and]
    rw [taken_test _ _ _ h1 _ _ _ _ (taken_branch h2 _ _), State.test, State.test, aluTo_z, aluTo_z]
    rfl

theorem jsetReg_taken :
    taken (jsetReg m).code st = some
      (if isMbpfJmp64 m then pairA st (gpr m.insn.dstReg) &&& pairB st (gpr m.insn.srcReg) != 0
      else st.a (gpr m.insn.dstReg) &&& st.b (gpr m.insn.srcReg) != 0) := by
  rw [jsetReg, wrpTestReg_taken]
  cases isMbpfJmp64 m with
  | false => rw [Bool.false_and, Bool.or_false]; rfl
  | true => rw [if_pos rfl, ne_zero_halves, lo_and, hi_and, lo_pairA, lo_pairB, hi_pairA, hi_pairB]; rfl

theorem jneReg_taken :
    taken (jneReg m).code st = some
      (if isMbpfJmp64 m then pairA st (gpr m.insn.dstReg) != pairB st (gpr m.insn.srcReg)
      else st.a (gpr m.insn.dstReg) != st.b (gpr m.insn.srcReg)) := by
  rw [jneReg, wrpTestReg_taken]
  cases isMbpfJmp64 m with
  | false =>
    rw [Bool.false_and, Bool.or_false]
    exact congrArg (some ∘ not) (xor_eq_zero _ _)
  | true => rw [if_pos rfl, ne_halves, lo_pairA, lo_pairB, hi_pairA, hi_pairB]; rfl

theorem sextImm_hi (insn : Insn) : hi (sextImm insn) = if insn.imm.msb then BitVec.allOnes 32 else 0 := by
  ext i hi
  have h1 : ¬32 + i < 32 := by omega
  have h2 : 32 + i < 64 := by omega
  simp only [Adder.hi, sextImm, getElem_extractLsb', getLsbD_signExtend, h1, h2, decide_true, Bool.true_and, if_false]
  cases insn.imm.msb
  · exact (getElem_zero hi).symm
  · exact (getElem_allOnes i hi).symm

theorem sextImm_lo (insn : Insn) : lo (sextImm insn) = insn.imm := by
  ext i hi
  have h2 : i < 64 := by omega
  simp [Adder.lo, sextImm, getElem_extractLsb', getLsbD_eq_getElem h2, getElem_signExtend, hi]

theorem sextImm_ne_zero {insn : Insn} (h : insn.imm ≠ 0) : sextImm insn ≠ 0 := by
  intro hz
  apply h
  rw [← sextImm_lo, hz]
  rfl

theorem jsetImm_taken :
    taken (jsetImm m).code st = some
      (if isMbpfJmp64 m then pairA st (gpr m.insn.dstReg) &&& sextImm m.insn != 0
      else st.a (gpr m.insn.dstReg) &&& lo (sextImm m.insn) != 0) := by
  have hd := gpr_lt m.insn.dstReg
  have h1 := runs_alu_imm st (lo (sextImm m.insn)) (show Dest immB from .b (by decide)) hd.1 .and
  have h2 := h1.append (runs_regs .none .or hd.2 (show staticRegImm < gprCount by decide) _)
  simp only [jsetImm, ok]
  by_cases hw : isMbpfJmp64 m ∧ hi (sextImm m.insn) ≠ 0
  · have hones : hi (sextImm m.insn) = BitVec.allOnes 32 := by
      have := sextImm_hi m.insn
      split at this
      · exact this
      · exact absurd this hw.2
    rw [if_pos hw, if_pos hw.1]
    refine (taken_branch h2 .bne m.insn.off).trans (congrArg some ?_)
    rw [State.test, ne_zero_halves, lo_and, hi_and, hones, BitVec.and_allOnes, lo_pairA, hi_pairA]
    simp only [immB, aluTo_z, aluTo_regB_a, aluTo_regB_b, loadImm_a, update_self, aluResult, plain,
      or_eq_zero, Bool.not_and, Bool.or_comm]
    rfl
  · rw [if_neg hw, List.append_nil, taken_branch h1, State.test, aluTo_z]
    refine congrArg some ?_
    by_cases h64 : isMbpfJmp64 m
    · have hz : hi (sextImm m.insn) = 0 := by
        by_contra hc
        exact hw ⟨h64, hc⟩
      rw [if_pos h64, ne_zero_halves, lo_and, hi_and, hz, lo_pairA,
        show hi (pairA st (gpr m.insn.dstReg)) &&& 0 = 0 from BitVec.and_zero, bne_self_eq_false, Bool.or_false]
      rfl
    · rw [if_neg h64]
      rfl

theorem jneImm_taken (hz : sextImm m.insn ≠ 0) (hj : isMbpfJmp32 m = !isMbpfJmp64 m) :
    taken (jneImm m).code st = some
      (if isMbpfJmp64 m then pairA st (gpr m.insn.dstReg) != sextImm m.insn
      else st.a (gpr m.insn.dstReg) != lo (sextImm m.insn)) := by
  have hd := gpr_lt m.insn.dstReg
  have h1 := runs_alu_imm st (lo (sextImm m.insn)) .none hd.1 .xor
  have h2 := runs_alu_imm ((st.loadImm (lo (sextImm m.insn))).aluTo regNone .xor (st.a (gpr m.insn.dstReg))
    (lo (sextImm m.insn))) (hi (sextImm m.insn)) .none hd.2 .xor
  simp only [jneImm, ok, if_neg hz, hj]
  cases isMbpfJmp64 m with
  | false =>
    simp only [Bool.not_false, if_true, Bool.false_eq_true, if_false, List.append_nil]
    rw [taken_branch h1, State.test, aluTo_z]
    exact congrArg (some ∘ not) (xor_eq_zero _ _)
  | true =>
    simp only [Bool.not_true, if_true, Bool.false_eq_true, if_false]
    rw [taken_test _ _ _ h1 _ _ _ _ (taken_branch h2 _ _), ne_halves, lo_pairA, hi_pairA, State.test, State.test,
      aluTo_z, aluTo_z, aluTo_none_a, loadImm_a]
    rfl

theorem jneImm_zero_taken (hz : sextImm m.insn = 0) (hj : isMbpfJmp32 m = !isMbpfJmp64 m) :
    taken (jneImm m).code st = some
      (if isMbpfJmp64 m then st.a (gpr m.insn.dstReg) ||| st.b (gpr m.insn.dstReg + 1) != 0
      else st.b (gpr m.insn.dstReg) != 0) := by
  have hd := gpr_lt m.insn.dstReg
  simp only [jneImm, ok, if_pos hz, hj]
  cases isMbpfJmp64 m with
  | false =>
    simp only [Bool.not_false, if_true, Bool.false_eq_true, if_false]
    rw [taken_branch (runs_emitAlu_unary .none (.b hd.1) (.inl rfl) st), State.test, aluTo_z]
    rfl
  | true =>
    simp only [Bool.not_true, if_true, Bool.false_eq_true, if_false]
    rw [taken_branch (runs_regs .none .or hd.1 hd.2 st), State.test, aluTo_z]
    rfl

theorem jeqReg_taken :
    taken (jeqReg m).code st = some
      (st.a (gpr m.insn.dstReg) == st.b (gpr m.insn.srcReg) && (!isMbpfJmp64 m ||
        update st.a staticRegImm (st.a (gpr m.insn.dstReg) ^^^ st.b (gpr m.insn.srcReg))
          (gpr m.insn.dstReg + 1) == st.b (gpr m.insn.srcReg + 1))) := by
  have hd := gpr_lt m.insn.dstReg
  have hs := gpr_lt m.insn.srcReg
  have himm : staticRegImm < gprCount := by decide
  have h1 := runs_regs (show Dest immA from .a himm) .xor hd.1 hs.1 st
  have h2 := h1.append ((runs_regs (show Dest immB from .b himm) .xor hd.2 hs.2 _).append
    (runs_regs .none .or himm himm _))
  simp only [jeqReg, ok]
  cases isMbpfJmp64 m with
  | false =>
    simp only [Bool.false_eq_true, if_false, List.append_nil, Bool.not_false, Bool.true_or, Bool.and_true]
    rw [taken_branch h1, State.test, aluTo_z]
    exact congrArg some (xor_eq_zero _ _)
  | true =>
    simp only [if_true, Bool.not_true, Bool.false_or]
    refine (taken_branch h2 .beq m.insn.off).trans (congrArg some ?_)
    simp only [State.test, immA, immB, aluTo_z, aluTo_regA_a, aluTo_regA_b, aluTo_regB_a, aluTo_regB_b,
      update_self, aluResult, plain, or_eq_zero, xor_eq_zero]

theorem jeqImm_lo (dst : BitVec 16) (hd : dst < gprCount) (imm : BitVec 32) (st : State) :
    ∃ code or1, (if imm ≠ 0 then ((urLoadImmAny imm immB).1 ++
        emitAlu immA (regA dst) .xor (urLoadImmAny imm immB).2, immA) else ([], regA dst)) = (code, or1) ∧
      ∃ st1, Runs code st st1 ∧ (∃ r < gprCount, or1 = regA r ∧ st1.a r = st.a dst ^^^ imm) ∧
        (∀ r, imm ≠ 0 → st1.a r = update st.a staticRegImm (st.a dst ^^^ imm) r) ∧
        (∀ r ≠ staticRegImm, st1.a r = st.a r ∧ st1.b r = st.b r) := by
  by_cases hz : imm = 0
  · refine ⟨[], regA dst, by rw [if_neg (fun h => h hz)], st, .nil st, ⟨dst, hd, rfl, ?_⟩,
      fun _ h => absurd hz h, fun _ _ => ⟨rfl, rfl⟩⟩
    rw [hz]
    exact BitVec.xor_zero.symm
  refine ⟨_, _, if_pos hz, _, runs_alu_imm st imm (show Dest immA from .a (by decide)) hd .xor,
    ⟨staticRegImm, by decide, rfl, ?_⟩, fun r _ => ?_, fun r hr => ⟨?_, ?_⟩⟩
  · simp [immA, aluResult, plain]
  · simp [immA, aluResult, plain]
  · simp only [immA, aluTo_regA_a, loadImm_a]
    exact update_of_ne hr _ _
  · simp only [immA, aluTo_regA_b]
    exact loadImm_b st imm hr

theorem jeqImm_hi (dst : BitVec 16) (hd : dst < gprCount) (imm : BitVec 32) (st : State) :
    ∃ code or2, (if imm ≠ 0 then ((urLoadImmAny imm immB).1 ++
        emitAlu immB (regA dst) .xor (urLoadImmAny imm immB).2, immB) else ([], regB dst)) = (code, or2) ∧
      ∃ st1, Runs code st st1 ∧ st1.a = st.a ∧
        ∃ r < gprCount, or2 = regB r ∧ st1.b r = if imm ≠ 0 then st.a dst ^^^ imm else st.b dst := by
  by_cases hz : imm = 0
  · refine ⟨[], regB dst, by rw [if_neg (fun h => h hz)], st, .nil st, rfl, dst, hd, rfl, ?_⟩
    rw [if_neg (fun h => h hz)]
  refine ⟨_, _, if_pos hz, _, runs_alu_imm st imm (show Dest immB from .b (by decide)) hd .xor, ?_,
    staticRegImm, by decide, rfl, ?_⟩
  · simp [immB]
  · rw [if_pos hz]
    simp [immB, aluResult, plain]

theorem jeqImm_taken (m : Meta) (st : State) : ∃ x : BitVec 32,
    taken (jeqImm m).code st = some (st.a (gpr m.insn.dstReg) == lo (sextImm m.insn) && x == 0) ∧
      (m.insn.dstReg ≤ 9 → st.b (gpr m.insn.dstReg + 1) = st.a (gpr m.insn.dstReg + 1) →
        x = st.a (gpr m.insn.dstReg + 1) ^^^ hi (sextImm m.insn)) ∧
      (m.insn.dstReg = 10 → lo (sextImm m.insn) ≠ 0 → hi (sextImm m.insn) ≠ 0 →
        x = st.a (gpr m.insn.dstReg) ^^^ lo (sextImm m.insn) ^^^ hi (sextImm m.insn)) := by
  have hd := gpr_lt m.insn.dstReg
  obtain ⟨c1, o1, he1, st1, h1, ⟨r1, hr1, ho1, hv1⟩, hset, hframe⟩ :=
    jeqImm_lo (gpr m.insn.dstReg) hd.1 (lo (sextImm m.insn)) st
  obtain ⟨c2, o2, he2, st2, h2, ha2, r2, hr2, ho2, hv2⟩ :=
    jeqImm_hi (gpr m.insn.dstReg + 1) hd.2 (hi (sextImm m.insn)) st1
  have hrun := (h1.append h2).append (runs_regs .none .or hr1 hr2 st2)
  refine ⟨st2.b r2, ?_, fun h9 hab => ?_, fun h10 hlo hhi => ?_⟩
  · simp only [jeqImm, ok, he1, he2, ho1, ho2]
    rw [taken_branch hrun, State.test, aluTo_z, ha2, hv1]
    simp only [aluResult, plain, or_eq_zero, xor_eq_zero]
  · have hf := hframe _ (gpr_ne_imm h9).2
    rw [hv2, hf.1, hf.2, hab]
    split
    · rfl
    · next h => rw [Decidable.not_not.mp h]; exact BitVec.xor_zero.symm
  · have h21 : gpr m.insn.dstReg + 1 = staticRegImm := by rw [h10]; decide
    rw [hv2, if_pos hhi, hset _ hlo, h21, update_self]

end Equal

end NfpDriver.Lower
