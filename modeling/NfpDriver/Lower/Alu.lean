import NfpDriver.Lower.Wp
import NfpDriver.Machine.Units
import NfpDriver.Jit.Alu

namespace NfpDriver.Lower

open Asm Adder Jit Bpf Machine

def FullWidth (m : Meta) : Prop :=
  mbpfClass m = bpfAlu64 ∨ m.hasFlag flagInsnDoZext = true ∨ mbpfOp m ∈ [bpfMov, bpfMul, bpfEnd]

structure AluExact (m : Meta) (st st' : State) (v : BitVec 64) : Prop where
  low : lo (pairA st' (gpr m.insn.dstReg)) = lo v ∧ lo (pairB st' (gpr m.insn.dstReg)) = lo v
  full : FullWidth m → pairA st' (gpr m.insn.dstReg) = v ∧ pairB st' (gpr m.insn.dstReg) = v
  frame : ∀ r ≤ 9, r ≠ m.insn.dstReg →
    pairA st' (gpr r) = pairA st (gpr r) ∧ pairB st' (gpr r) = pairB st (gpr r)
  stack : st'.a staticRegStack = st.a staticRegStack

variable {d r : Fin 16} {st st' : State} {v : BitVec 64} {m : Meta} {x : BitVec 32} {op : BitVec 8} {c : Code}

theorem gpr_disjoint (h : r ≠ d) : gpr r ≠ gpr d ∧ gpr r + 1 ≠ gpr d + 1 := by
  revert r d
  decide

theorem gpr_parity (r d : Fin 16) : gpr r ≠ gpr d + 1 ∧ gpr r + 1 ≠ gpr d := by
  revert r d
  decide

theorem stack_ne (h : d ≤ 9) : staticRegStack ≠ gpr d ∧ staticRegStack ≠ gpr d + 1 ∧ staticRegStack ≠ staticRegImm := by
  revert d
  decide

theorem Leaves.pairs (h : Leaves st st' d v) (hr : r ≤ 9) (hne : r ≠ d) :
    pairA st' (gpr r) = pairA st (gpr r) ∧ pairB st' (gpr r) = pairB st (gpr r) := by
  have h1 := h.frame (gpr r) (gpr_disjoint hne).1 (gpr_parity r d).1 (gpr_ne_imm hr).1
  have h2 := h.frame (gpr r + 1) (gpr_parity r d).2 (gpr_disjoint hne).2 (gpr_ne_imm hr).2
  rw [pairA, pairA, pairB, pairB, h1.1, h1.2, h2.1, h2.2]
  exact ⟨rfl, rfl⟩

theorem Leaves.exact (hd : m.insn.dstReg ≤ 9) (h : Leaves st st' m.insn.dstReg v) : AluExact m st st' v where
  low := by rw [h.a, h.b]; exact ⟨rfl, rfl⟩
  full _ := ⟨h.a, h.b⟩
  frame _ hr hne := h.pairs hr hne
  stack := (h.frame _ (stack_ne hd).1 (stack_ne hd).2.1 (stack_ne hd).2.2).1

theorem Leaves.low_exact {w : BitVec 64} (hd : m.insn.dstReg ≤ 9) (h : Leaves st st' m.insn.dstReg w)
    (hlo : lo w = lo v) (hf : ¬FullWidth m) : AluExact m st st' v where
  low := by rw [h.a, h.b]; exact ⟨hlo, hlo⟩
  full hf' := absurd hf' hf
  frame _ hr hne := h.pairs hr hne
  stack := (h.frame _ (stack_ne hd).1 (stack_ne hd).2.1 (stack_ne hd).2.2).1

theorem Sets.leaves (hd : d ≤ 9) (h : Sets st st' (gpr d) x) (hab : st.a (gpr d + 1) = st.b (gpr d + 1)) :
    Leaves st st' d (st.a (gpr d + 1) ++ x) where
  a := by rw [pairA, h.a, (h.frame _ (gpr_ne_succ d).symm (gpr_ne_imm hd).2).1]
  b := by rw [pairB, h.b, (h.frame _ (gpr_ne_succ d).symm (gpr_ne_imm hd).2).2, hab]
  frame r h1 _ h3 := h.frame r h1 h3

structure Agree (st : State) (d : Fin 16) : Prop where
  lo : st.a (gpr d) = st.b (gpr d)
  hi : st.a (gpr d + 1) = st.b (gpr d + 1)

theorem wp_pair_regs (hd : d ≤ 9) (s : Fin 16) (op carryOp : AluOp) (st : State) :
    Wp (emitAlu (regBoth (gpr d)) (regA (gpr d)) op (regB (gpr s)) ++
      emitAlu (regBoth (gpr d + 1)) (regA (gpr d + 1)) carryOp (regB (gpr s + 1))) st fun st' =>
      ∃ z, Leaves st st' d (z ++ (aluResult op (st.a (gpr d)) (st.b (gpr s)) st.c).sum) ∧
        (s ≤ 9 → z = (aluResult carryOp (st.a (gpr d + 1)) (st.b (gpr s + 1))
          (aluResult op (st.a (gpr d)) (st.b (gpr s)) st.c).carry).sum) := by
  have hgd := gpr_lt d
  have hgs := gpr_lt s
  apply Wp.append
  refine (wp_alu_regs hgd.1 hgd.1 hgs.1 op st).mono fun s1 h1 => ?_
  refine (wp_alu_regs hgd.2 hgd.2 hgs.2 carryOp s1).mono fun s2 h2 => ?_
  refine ⟨_, h1.1.pair hd h2.1, fun hs => ?_⟩
  rw [h1.2, (h1.1.frame _ (gpr_ne_succ d).symm (gpr_ne_imm hd).2).1,
    (h1.1.frame _ (gpr_parity s d).2 (gpr_ne_imm hs).2).2]

theorem wp_pair_imm (hd : d ≤ 9) (op carryOp : AluOp) (imm1 imm2 : BitVec 32) (st : State) (hab : Agree st d) :
    Wp (wrpAluImm (gpr d) op imm1 ++ wrpAluImm (gpr d + 1) carryOp imm2) st fun st' =>
      ∃ c, (op ∈ arithOps → c = (aluResult op (st.a (gpr d)) imm1 st.c).carry) ∧
        Leaves st st' d ((aluResult carryOp (st.a (gpr d + 1)) imm2 c).sum ++
          (aluResult op (st.a (gpr d)) imm1 st.c).sum) := by
  have hgd := gpr_lt d
  apply Wp.append
  refine (wp_wrpAluImm hgd.1 op imm1 st hab.lo).mono fun s1 h1 => ?_
  have hf := h1.sets.frame _ (gpr_ne_succ d).symm (gpr_ne_imm hd).2
  refine (wp_wrpAluImm hgd.2 carryOp imm2 s1 (by rw [hf.1, hf.2, hab.hi])).mono fun s2 h2 => ?_
  refine ⟨s1.c, h1.carry, ?_⟩
  have h2s := h2.sets
  rw [hf.1] at h2s
  exact h1.sets.pair hd h2s

abbrev pairOps : List (BitVec 8) := [bpfXor, bpfAnd, bpfOr, bpfAdd, bpfSub]

def lowOp (op : BitVec 8) : AluOp :=
  if op = bpfXor then .xor else if op = bpfAnd then .and else if op = bpfOr then .or
  else if op = bpfAdd then .add else .sub

def highOp (op : BitVec 8) : AluOp :=
  if op = bpfXor then .xor else if op = bpfAnd then .and else if op = bpfOr then .or
  else if op = bpfAdd then .addC else .subC

theorem lowOp_sum (h : op ∈ pairOps) (x y : BitVec 32) (c : Bool) :
    (aluResult (lowOp op) x y c).sum = aluOp op x y := by
  simp only [List.mem_cons, List.not_mem_nil, or_false] at h
  rcases h with rfl | rfl | rfl | rfl | rfl
  · rfl
  · rfl
  · rfl
  · exact add_sum x y
  · exact sub_sum x y

theorem lo_aluOp (h : op ∈ pairOps) (x y : BitVec 64) : lo (aluOp op x y) = aluOp op (lo x) (lo y) := by
  simp only [List.mem_cons, List.not_mem_nil, or_false] at h
  rcases h with rfl | rfl | rfl | rfl | rfl
  · exact lo_xor x y
  · exact lo_and x y
  · exact lo_or x y
  · have := (adc_halves_sum x y false).1
    rw [add_sum, add_sum] at this
    exact this
  · have := (adc_halves_sum x (~~~y) true).1
    rw [lo_not, sub_sum, sub_sum] at this
    exact this

theorem highOp_sum (h : op ∈ pairOps) (x y : BitVec 64) {c c' : Bool}
    (hc : lowOp op ∈ arithOps → c' = (aluResult (lowOp op) (lo x) (lo y) c).carry) :
    (aluResult (highOp op) (hi x) (hi y) c').sum = hi (aluOp op x y) := by
  simp only [List.mem_cons, List.not_mem_nil, or_false] at h
  rcases h with rfl | rfl | rfl | rfl | rfl
  · exact (hi_xor x y).symm
  · exact (hi_and x y).symm
  · exact (hi_or x y).symm
  · rw [hc (by decide)]
    have := (adc_halves_sum x y false).2
    rw [add_sum] at this
    exact this.symm
  · rw [hc (by decide)]
    have := (adc_halves_sum x (~~~y) true).2
    rw [lo_not, hi_not, sub_sum] at this
    exact this.symm

section Pair

variable {m : Meta} {st : State} (hd : m.insn.dstReg ≤ 9) (hop : mbpfOp m ∈ pairOps)

include hd hop

theorem wp_alu64_reg :
    Wp (carryReg64 m (lowOp (mbpfOp m)) (highOp (mbpfOp m))).code st fun st' =>
      ∃ z : BitVec 32, Leaves st st' m.insn.dstReg
        (z ++ aluOp (mbpfOp m) (st.a (gpr m.insn.dstReg)) (st.b (gpr m.insn.srcReg))) ∧
        (m.insn.srcReg ≤ 9 → Leaves st st' m.insn.dstReg
          (aluOp (mbpfOp m) (pairA st (gpr m.insn.dstReg)) (pairB st (gpr m.insn.srcReg)))) := by
  refine (wp_pair_regs hd m.insn.srcReg _ _ st).mono fun st' h => ?_
  obtain ⟨z, hl, hz⟩ := h
  rw [lowOp_sum hop] at hl
  refine ⟨z, hl, fun hs => hl.of_halves ?_ ?_⟩
  · rw [lo_aluOp hop, lo_pairA, lo_pairB]
  · rw [hz hs, ← highOp_sum hop (c := st.c) _ _ (fun _ => rfl), lo_pairA, lo_pairB, hi_pairA, hi_pairB]

theorem wp_alu64_imm (hab : Agree st m.insn.dstReg) :
    Wp (carryImm64 m (lowOp (mbpfOp m)) (highOp (mbpfOp m))).code st fun st' =>
      Leaves st st' m.insn.dstReg (aluOp (mbpfOp m) (pairA st (gpr m.insn.dstReg)) (sextImm m.insn)) := by
  refine (wp_pair_imm hd _ _ _ _ st hab).mono fun st' h => ?_
  obtain ⟨c, hc, hl⟩ := h
  refine hl.of_halves ?_ ?_
  · rw [lowOp_sum hop, lo_aluOp hop, lo_pairA]
  · rw [← lo_pairA] at hc
    rw [← highOp_sum hop _ _ hc, hi_pairA]

end Pair

theorem zero_append (x : BitVec 32) : (0 : BitVec 32) ++ x = x.setWidth 64 := by
  apply ext_halves
  · rw [lo_append, lo_zext]
  · rw [hi_append, hi_zext]

section Narrow

variable {m : Meta} {st : State} (hd : m.insn.dstReg ≤ 9)

include hd

section

variable (hab : Agree st m.insn.dstReg) (hf : FullWidth m → m.hasFlag flagInsnDoZext = true)

include hab hf

theorem wp_zext (h : Wp c st fun s => Sets st s (gpr m.insn.dstReg) x) :
    Wp (c ++ wrpZext m (gpr m.insn.dstReg)) st fun st' => AluExact m st st' (x.setWidth 64) := by
  apply Wp.append
  refine h.mono fun s1 h1 => ?_
  rw [wrpZext]
  split
  · refine (wp_immed (gpr_lt _).2 0 s1).mono fun s2 h2 => ?_
    have hl := h1.pair hd h2.1
    rw [zero_append] at hl
    exact hl.exact hd
  · next hz =>
    refine .nil ((h1.leaves hd hab.hi).low_exact hd ?_ (fun h => hz (hf h)))
    rw [lo_append, lo_zext]

theorem wp_alu32_reg (hop : mbpfOp m ∈ pairOps) :
    Wp (wrpAlu32Reg m (lowOp (mbpfOp m))).code st fun st' => AluExact m st st'
      ((aluOp (mbpfOp m) (st.a (gpr m.insn.dstReg)) (st.b (gpr m.insn.srcReg))).setWidth 64) := by
  apply wp_zext hd hab hf
  refine (wp_alu_regs (gpr_lt _).1 (gpr_lt _).1 (gpr_lt _).1 _ st).mono fun s h => ?_
  rw [← lowOp_sum hop]
  exact h.1

theorem wp_alu32_imm (hop : mbpfOp m ∈ pairOps) :
    Wp (wrpAlu32Imm m (lowOp (mbpfOp m))).code st fun st' => AluExact m st st'
      ((aluOp (mbpfOp m) (st.a (gpr m.insn.dstReg)) m.insn.imm).setWidth 64) := by
  apply wp_zext hd hab hf
  refine (wp_wrpAluImm (gpr_lt _).1 _ _ st hab.lo).mono fun s h => ?_
  rw [← lowOp_sum hop]
  exact h.sets

end

end Narrow

section Move

variable {m : Meta} {st : State} (hd : m.insn.dstReg ≤ 9)

include hd

theorem wp_zero_high (h : Wp c st fun s => Sets st s (gpr m.insn.dstReg) x) :
    Wp (c ++ wrpImmed (regBoth (gpr m.insn.dstReg + 1)) 0) st fun st' =>
      Leaves st st' m.insn.dstReg (x.setWidth 64) := by
  apply Wp.append
  refine h.mono fun s1 h1 => (wp_immed (gpr_lt _).2 0 s1).mono fun s2 h2 => ?_
  rw [← zero_append]
  exact h1.pair hd h2.1

theorem wp_movReg64 (depth : BitVec 32) (hs : m.insn.srcReg ≤ 9) :
    Wp (movReg64 depth m).code st fun st' =>
      Leaves st st' m.insn.dstReg (pairB st (gpr m.insn.srcReg)) := by
  have h10 : m.insn.srcReg ≠ bpfReg10 := by
    intro hc
    rw [hc] at hs
    exact absurd hs (by decide)
  rw [movReg64, if_neg h10]
  apply Wp.append
  refine (wp_mov (gpr_lt _).1 (gpr_lt _).1 st).mono fun s1 h1 => ?_
  refine (wp_mov (gpr_lt _).2 (gpr_lt _).2 s1).mono fun s2 h2 => ?_
  have hl := h1.pair hd h2
  rwa [(h1.frame _ (gpr_parity m.insn.srcReg m.insn.dstReg).2 (gpr_ne_imm hs).2).2] at hl

theorem wp_movReg64_frame (depth : BitVec 32) (h10 : m.insn.srcReg = bpfReg10) :
    Wp (movReg64 depth m).code st fun st' =>
      Leaves st st' m.insn.dstReg ((st.a staticRegStack + depth).setWidth 64) := by
  rw [movReg64, if_pos h10]
  apply wp_zero_high hd
  refine (wp_load_alu (gpr_lt _).1 (show staticRegStack < gprCount by decide) .add depth st).mono fun s h => ?_
  rw [← add_sum]
  exact h.1

theorem wp_movImm64 : Wp (movImm64 m).code st fun st' => Leaves st st' m.insn.dstReg (sextImm m.insn) := by
  apply Wp.append
  refine (wp_immed (gpr_lt _).1 _ st).mono fun s1 h1 => (wp_immed (gpr_lt _).2 _ s1).mono fun s2 h2 => ?_
  exact (h1.1.pair hd h2.1).of_halves rfl rfl

theorem wp_movReg : Wp (movReg m).code st fun st' =>
    Leaves st st' m.insn.dstReg ((st.b (gpr m.insn.srcReg)).setWidth 64) :=
  wp_zero_high hd (wp_mov (gpr_lt _).1 (gpr_lt _).1 st)

theorem wp_movImm : Wp (movImm m).code st fun st' => Leaves st st' m.insn.dstReg (m.insn.imm.setWidth 64) :=
  wp_zero_high hd ((wp_immed (gpr_lt _).1 _ st).mono fun _ h => h.1)

end Move

section Neg

variable {m : Meta} {st : State} (hd : m.insn.dstReg ≤ 9)

theorem wp_neg_word {g : BitVec 16} (hg : g < gprCount) (op : AluOp) (st : State) :
    Wp (emitAlu (regBoth g) (regImm 0) op (regB g)) st fun st' =>
      Sets st st' g (aluResult op 0 (st.b g) st.c).sum ∧ st'.c = (aluResult op 0 (st.b g) st.c).carry :=
  .of_runs (runs_emitAlu (.both hg) (.imm (by decide)) (.b hg) RegKind.noConfusion op st)
    ⟨sets_aluTo st st g op _ _ (fun _ _ _ => ⟨rfl, rfl⟩), aluTo_c st op _ _ _⟩

include hd

theorem wp_negReg64 (hab : Agree st m.insn.dstReg) :
    Wp (negReg64 m).code st fun st' => Leaves st st' m.insn.dstReg (-pairA st (gpr m.insn.dstReg)) := by
  apply Wp.append
  refine (wp_neg_word (gpr_lt _).1 .sub st).mono fun s1 h1 => ?_
  refine (wp_neg_word (gpr_lt _).2 .subC s1).mono fun s2 h2 => ?_
  have hsum := adc_halves_sum 0 (~~~pairA st (gpr m.insn.dstReg)) true
  rw [sub_sum, lo_not, hi_not, lo_pairA, hi_pairA, show (0 : BitVec 64) = 0#64 from rfl, BitVec.zero_sub] at hsum
  refine (h1.1.pair hd h2.1).of_halves ?_ ?_
  · rw [hsum.1, hab.lo]
    rfl
  · rw [hsum.2, h1.2, (h1.1.frame _ (gpr_ne_succ _).symm (gpr_ne_imm hd).2).2, ← hab.hi, ← hab.lo]
    rfl

theorem wp_negReg (hab : Agree st m.insn.dstReg) (hf : FullWidth m → m.hasFlag flagInsnDoZext = true) :
    Wp (negReg m).code st fun st' => AluExact m st st' ((-st.a (gpr m.insn.dstReg)).setWidth 64) := by
  apply wp_zext hd hab hf
  refine (wp_neg_word (gpr_lt _).1 .sub st).mono fun s h => ?_
  rw [← BitVec.zero_sub, ← sub_sum, hab.lo]
  exact h.1

end Neg

end NfpDriver.Lower
