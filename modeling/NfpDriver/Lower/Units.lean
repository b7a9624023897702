import NfpDriver.Lower.Alu
import Mathlib.Tactic.IntervalCases

namespace NfpDriver.Lower

open Asm Adder Jit Bpf Machine Function BitVec

theorem swapped_word (x : BitVec 32) :
    fieldValue (x.rotateRight 8) 0x5 false ((x.rotateRight 8).rotateRight 16) = bswap32 x := by
  have hm : byteMask 0x5 = 0x00ff00ff := by decide
  rw [fieldValue, hm]
  apply eq_of_getLsbD_eq
  intro i hi
  rw [bswap32, getLsbD_append, getLsbD_append, getLsbD_append]
  interval_cases i <;> simp

theorem swapped_half (x : BitVec 32) :
    fieldValue (fieldValue x 0x9 false (x.rotateRight 8)) 0xe false
      (fieldValue x 0x9 false (x.rotateRight 8) >>> 16) = (bswap16 (x.extractLsb' 0 16)).setWidth 32 := by
  have h9 : byteMask 0x9 = 0xff0000ff := by decide
  have he : byteMask 0xe = 0xffffff00 := by decide
  rw [fieldValue, fieldValue, h9, he]
  apply eq_of_getLsbD_eq
  intro i hi
  rw [getLsbD_setWidth, bswap16, getLsbD_append]
  interval_cases i <;> simp

theorem fieldValue_full (old x : BitVec 32) : fieldValue old 0xf false x = x := by
  have hm : byteMask 0xf = allOnes 32 := by decide
  rw [fieldValue, hm, if_neg Bool.false_ne_true, not_allOnes, and_zero, zero_or, and_allOnes]

variable {g : BitVec 16} {x y : BitVec 32}

theorem Sets.trans {st s1 s2 : State} (h1 : Sets st s1 g x) (h2 : Sets s1 s2 g y) : Sets st s2 g y where
  a := h2.a
  b := h2.b
  frame r hr hi := by
    rw [(h2.frame r hr hi).1, (h2.frame r hr hi).2]
    exact h1.frame r hr hi

section Swap

variable {g s : BitVec 16} (hg : g < 0x20) (hs : s < 0x20) (st : State)

include hg hs

theorem runs_wrpEnd32 : Runs (wrpEnd32 (regA s) g) st
    ((st.put (regBoth g) ((st.a s).rotateRight 8)).put (regBoth g) (bswap32 (st.a s))) := by
  have h1 := runs_ldField_regA hg hs 0xf .rRot 8 false st rfl
  rw [fieldValue_full] at h1
  have h2 := runs_ldField_regA hg hg 0x5 .rRot 16 false (st.put (regBoth g) ((st.a s).rotateRight 8)) rfl
  rw [put_regBoth_a, put_regBoth_b, update_self, update_self] at h2
  rw [← swapped_word]
  exact h1.append h2

theorem wp_wrpEnd32 : Wp (wrpEnd32 (regA s) g) st fun st' =>
    Sets st st' g (bswap32 (st.a s)) ∧ ∀ r, r ≠ g → st'.a r = st.a r := by
  refine .of_runs (runs_wrpEnd32 hg hs st) ⟨(sets_put st g _).trans (sets_put _ g _), fun r hr => ?_⟩
  rw [put_regBoth_a, put_regBoth_a, update_of_ne hr, update_of_ne hr]

end Swap

theorem gpr_lt_re {d : Fin 16} (h : d ≤ 9) : gpr d < 0x20 ∧ gpr d + 1 < 0x20 := by
  revert d
  decide

theorem extract_lo (v : BitVec 64) : (lo v).extractLsb' 0 16 = v.extractLsb' 0 16 := by
  apply eq_of_getLsbD_eq
  simp [lo]

theorem zext_zext (x : BitVec 16) : (x.setWidth 32).setWidth 64 = x.setWidth 64 := by
  apply eq_of_toNat_eq
  simp only [toNat_setWidth]
  omega

section End

variable {m : Meta} {st : State} (hd : m.insn.dstReg ≤ 9) (hab : Agree st m.insn.dstReg)

include hd hab

theorem wp_end16 : Wp (emitLdField (regBoth (gpr m.insn.dstReg)) 0x9 (regB (gpr m.insn.dstReg)) .rRot 8 ++
    emitLdField (regBoth (gpr m.insn.dstReg)) 0xe (regA (gpr m.insn.dstReg)) .rShf 16) st fun st' =>
      Sets st st' (gpr m.insn.dstReg) ((bswap16 ((st.a (gpr m.insn.dstReg)).extractLsb' 0 16)).setWidth 32) := by
  have hg := (gpr_lt_re hd).1
  have h1 := runs_ldField_regB hg hg 0x9 .rRot 8 false st rfl
  rw [← hab.lo] at h1
  have h2 := runs_ldField_regA hg hg 0xe .rShf 16 false
    (st.put (regBoth (gpr m.insn.dstReg)) (fieldValue (st.a (gpr m.insn.dstReg)) 0x9 false
      ((st.a (gpr m.insn.dstReg)).rotateRight 8))) rfl
  rw [put_regBoth_a, put_regBoth_b, update_self, update_self] at h2
  refine .of_runs (h1.append h2) ?_
  rw [← swapped_half]
  exact (sets_put st _ _).trans (sets_put _ _ _)

theorem wp_end64 : Wp (wrpMov immA (regB (gpr m.insn.dstReg + 1)) ++
    wrpEnd32 (regA (gpr m.insn.dstReg)) (gpr m.insn.dstReg + 1) ++ wrpEnd32 immA (gpr m.insn.dstReg)) st
    fun st' => Leaves st st' m.insn.dstReg (bswap64 (pairA st (gpr m.insn.dstReg))) := by
  have hg := gpr_lt_re hd
  have himm : staticRegImm < 0x20 := by decide
  apply Wp.append
  apply Wp.append
  refine .of_runs (runs_emitAlu_unary (.a (show staticRegImm < gprCount by decide)) (.b (gpr_lt _).2) (.inl rfl) st) ?_
  generalize hs0 : st.aluTo (regA staticRegImm) .none 0 (st.src (regB (gpr m.insn.dstReg + 1))) = s0
  have h0 : s0.a staticRegImm = st.a (gpr m.insn.dstReg + 1) := by
    rw [← hs0, aluTo_regA_a, update_self, src_regB, hab.hi]
    rfl
  have hf : ∀ r, r ≠ staticRegImm → s0.a r = st.a r ∧ s0.b r = st.b r := by
    intro r hr
    rw [← hs0, aluTo_regA_a, aluTo_regA_b, update_of_ne hr]
    exact ⟨rfl, rfl⟩
  refine (wp_wrpEnd32 hg.2 hg.1 s0).mono fun s1 h1 => ?_
  refine (wp_wrpEnd32 hg.1 himm s1).mono fun s2 h2 => ?_
  have hne := gpr_ne_imm hd
  rw [(hf _ hne.1).1] at h1
  rw [h1.2 _ hne.2.symm, h0] at h2
  have hhi := h2.1.frame _ (gpr_ne_succ m.insn.dstReg).symm hne.2
  have hl : Leaves st s2 m.insn.dstReg
      (bswap32 (st.a (gpr m.insn.dstReg)) ++ bswap32 (st.a (gpr m.insn.dstReg + 1))) := by
    refine ⟨?_, ?_, fun r hr hr1 hi => ?_⟩
    · rw [pairA, h2.1.a, hhi.1, h1.1.a]
    · rw [pairB, h2.1.b, hhi.2, h1.1.b]
    · rw [(h2.1.frame r hr hi).1, (h2.1.frame r hr hi).2, (h1.1.frame r hr1 hi).1, (h1.1.frame r hr1 hi).2]
      exact hf r hi
  rwa [bswap64, lo_pairA, hi_pairA]

theorem wp_endReg32 (hw : m.insn.imm = 16 ∨ m.insn.imm = 32 ∨ m.insn.imm = 64) :
    Wp (endReg32 m).code st fun st' =>
      Leaves st st' m.insn.dstReg (endValue m.insn.imm (pairA st (gpr m.insn.dstReg))) := by
  rcases hw with hw | hw | hw
  · rw [endReg32, if_pos hw]
    refine (wp_zero_high hd (wp_end16 hd hab)).mono fun st' h => ?_
    rw [← lo_pairA, extract_lo, zext_zext] at h
    rwa [endValue, if_pos hw]
  · rw [endReg32, hw, if_neg (by decide), if_pos rfl, endValue, if_neg (by decide), if_pos rfl, lo_pairA]
    exact wp_zero_high hd ((wp_wrpEnd32 (gpr_lt_re hd).1 (gpr_lt_re hd).1 st).mono fun _ h => h.1)
  · rw [endReg32, hw, if_neg (by decide), if_neg (by decide), if_pos rfl, endValue, if_neg (by decide),
      if_neg (by decide), if_pos rfl]
    exact wp_end64 hd hab

end End

theorem Sets.of_frame {st st1 st' : State} (h : Sets st1 st' g x)
    (hf : ∀ r, r ≠ staticRegImm → st1.a r = st.a r ∧ st1.b r = st.b r) : Sets st st' g x where
  a := h.a
  b := h.b
  frame r hr hi := by
    rw [(h.frame r hr hi).1, (h.frame r hr hi).2]
    exact hf r hi

theorem sets_withMul (st : State) (l r : BitVec 32) (type : MulType) (done : Nat) (g : BitVec 16) (x : BitVec 32) :
    Sets st ((st.withMul l r type done).put (regBoth g) x) g x :=
  (sets_put _ g x).of_frame fun _ _ => ⟨rfl, rfl⟩

section Mul

variable {m : Meta} {st : State} (hd : m.insn.dstReg ≤ 9)

abbrev mulOperand (m : Meta) (st : State) (ropndFromReg : Bool) : BitVec 32 :=
  if ropndFromReg then st.b (gpr m.insn.srcReg) else m.insn.imm

abbrev mulWide (m : Meta) (ropndFromReg : Bool) : Prop :=
  lo m.umaxDst > 0xffff ∨ (if ropndFromReg then lo m.umaxSrc else m.insn.imm) > 0xffff

def mulValue (genHighHalf : Bool) (x y : BitVec 32) : BitVec 64 :=
  if genHighHalf then x.setWidth 64 * y.setWidth 64 else (x * y).setWidth 64

theorem mul_toNat (x y : BitVec 32) : (x.setWidth 64 * y.setWidth 64).toNat = x.toNat * y.toNat := by
  have hx := x.isLt
  have hy := y.isLt
  have hxy : x.toNat * y.toNat < 2 ^ 32 * 2 ^ 32 := Nat.mul_lt_mul'' hx hy
  rw [toNat_mul, toNat_setWidth, toNat_setWidth,
    Nat.mod_eq_of_lt (show x.toNat < 2 ^ 64 by omega), Nat.mod_eq_of_lt (show y.toNat < 2 ^ 64 by omega),
    Nat.mod_eq_of_lt (by omega)]

theorem lo_mul (x y : BitVec 32) : lo (x.setWidth 64 * y.setWidth 64) = x * y := by
  apply eq_of_toNat_eq
  rw [lo_toNat, mul_toNat, toNat_mul]

theorem zero_lo {v : BitVec 64} (h : v.toNat < 2 ^ 32) : (0 : BitVec 32) ++ lo v = v := by
  apply ext_halves
  · rw [lo_append]
  · rw [hi_append]
    apply eq_of_toNat_eq
    rw [hi_toNat, Nat.div_eq_of_lt h]
    rfl

theorem and_narrow (h : x.toNat ≤ 0xffff) : x &&& 0xffff = x := by
  apply eq_of_toNat_eq
  exact (Nat.and_two_pow_sub_one_eq_mod x.toNat 16).trans (Nat.mod_eq_of_lt (by omega))

theorem mul_narrow (hx : x.toNat ≤ 0xffff) (hy : y.toNat ≤ 0xffff ∨ x = 0) (genHighHalf : Bool) :
    (0 : BitVec 32) ++ lo ((x &&& 0xffff).setWidth 64 * (y &&& 0xffff).setWidth 64) =
      mulValue genHighHalf x y := by
  rcases hy with hy | rfl
  · rw [and_narrow hx, and_narrow hy]
    cases genHighHalf with
    | true =>
      have hxy : x.toNat * y.toNat ≤ 0xffff * 0xffff := Nat.mul_le_mul hx hy
      exact zero_lo (by rw [mul_toNat]; omega)
    | false => rw [lo_mul, zero_append]; rfl
  · cases genHighHalf <;> simp [mulValue] <;> rfl

theorem wp_mul_operand (ropndFromReg : Bool) {post : State → Prop} {c : Swreg → Code}
    (h : ∀ (st1 : State) (r : Swreg), Operand r → r.type ≠ .gprA → st1.src r = mulOperand m st ropndFromReg →
      st1.a = st.a → (∀ g, g ≠ staticRegImm → st1.b g = st.b g) → Wp (c r) st1 post) :
    Wp ((if ropndFromReg then ([], regB (gpr m.insn.srcReg)) else urLoadImmAny m.insn.imm immB).1 ++
      c (if ropndFromReg then ([], regB (gpr m.insn.srcReg)) else urLoadImmAny m.insn.imm immB).2) st post := by
  cases ropndFromReg with
  | true => exact h st _ (.b (gpr_lt _).1) RegKind.noConfusion rfl rfl (fun _ _ => rfl)
  | false =>
    apply Wp.append
    refine .of_runs (runs_urLoadImmAny st m.insn.imm) ?_
    exact h _ _ (operand_urLoadImmAny _).1 (operand_urLoadImmAny _).2 (src_urLoadImmAny st _) (loadImm_a st _)
      (fun g hg => loadImm_b st _ hg)

include hd

theorem wp_wrpMul (genHighHalf ropndFromReg : Bool) (hab : Agree st m.insn.dstReg)
    (hn : ¬mulWide m ropndFromReg → st.a (gpr m.insn.dstReg + 1) = 0 ∧ (st.a (gpr m.insn.dstReg)).toNat ≤ 0xffff ∧
      ((mulOperand m st ropndFromReg).toNat ≤ 0xffff ∨ st.a (gpr m.insn.dstReg) = 0)) :
    Wp (wrpMul m genHighHalf ropndFromReg).code st fun st' => Leaves st st' m.insn.dstReg
      (mulValue genHighHalf (st.a (gpr m.insn.dstReg)) (mulOperand m st ropndFromReg)) := by
  have hg := gpr_lt m.insn.dstReg
  refine wp_mul_operand ropndFromReg (c := fun r =>
    if mulWide m ropndFromReg then wrpMulU32 (regBoth (gpr m.insn.dstReg + 1)) (regBoth (gpr m.insn.dstReg))
      (regA (gpr m.insn.dstReg)) r genHighHalf
    else wrpMulU16 (regBoth (gpr m.insn.dstReg)) (regA (gpr m.insn.dstReg)) r) ?_
  intro st1 r hr hra hsrc hsa hsb
  have hf : ∀ g, g ≠ staticRegImm → st1.a g = st.a g ∧ st1.b g = st.b g := fun g hg => ⟨by rw [hsa], hsb g hg⟩
  have hl : Operand (regA (gpr m.insn.dstReg)) := .a hg.1
  have hx : st1.src (regA (gpr m.insn.dstReg)) = st.a (gpr m.insn.dstReg) := by rw [src_regA, hsa]
  split
  · apply Wp.append
    refine .of_runs (runs_mul32 st1 hl hr hra.symm (.both hg.1)) ?_
    rw [hx, hsrc]
    have h1 := (sets_withMul st1 (st.a (gpr m.insn.dstReg)) (mulOperand m st ropndFromReg) .step32x32 5
      (gpr m.insn.dstReg) (lo ((st.a (gpr m.insn.dstReg)).setWidth 64 *
        (mulOperand m st ropndFromReg).setWidth 64))).of_frame hf
    cases genHighHalf with
    | true =>
      refine .of_runs (runs_mul_high (.both hg.2) _ (put_mul _ _ _)) ?_
      exact (h1.pair hd (sets_withMul _ _ _ _ _ _ _)).of_halves rfl rfl
    | false =>
      refine (wp_immed hg.2 0 _).mono fun s2 h2 => ?_
      have hp := h1.pair hd h2.1
      rwa [lo_mul, zero_append] at hp
  · next hw =>
    obtain ⟨h0, hn1, hn2⟩ := hn hw
    refine .of_runs (runs_mul16 st1 hl hr hra.symm (.both hg.1)) ?_
    rw [hx, hsrc]
    have h1 := (sets_withMul st1 (st.a (gpr m.insn.dstReg)) (mulOperand m st ropndFromReg) .step16x16 3
      (gpr m.insn.dstReg) (lo ((st.a (gpr m.insn.dstReg) &&& 0xffff).setWidth 64 *
        (mulOperand m st ropndFromReg &&& 0xffff).setWidth 64))).of_frame hf
    have hp := h1.leaves hd hab.hi
    rwa [h0, mul_narrow hn1 hn2] at hp

end Mul

end NfpDriver.Lower
