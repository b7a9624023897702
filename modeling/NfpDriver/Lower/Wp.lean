import NfpDriver.Lower.Jump

namespace NfpDriver.Lower

open Asm Adder Jit Bpf Machine Function BitVec

def Wp (c : Code) (st : State) (post : State → Prop) : Prop := ∃ st', Runs c st st' ∧ post st'

variable {post : State → Prop} {st st' : State} {c : Code} {d : Fin 16} {x y imm : BitVec 32} {g l r : BitVec 16}
  {op : AluOp}

theorem Wp.nil (h : post st) : Wp [] st post := ⟨st, .nil st, h⟩

theorem Wp.of_runs (h : Runs c st st') (hp : post st') : Wp c st post := ⟨st', h, hp⟩

theorem Wp.mono {post' : State → Prop} (h : Wp c st post) (hp : ∀ st', post st' → post' st') : Wp c st post' := by
  obtain ⟨st', hr, hs⟩ := h
  exact ⟨st', hr, hp st' hs⟩

theorem Wp.append {d : Code} (h : Wp c st fun s => Wp d s post) : Wp (c ++ d) st post := by
  obtain ⟨s, hr, s', hr', hs⟩ := h
  exact ⟨s', hr.append hr', hs⟩

structure Sets (st st' : State) (g : BitVec 16) (x : BitVec 32) : Prop where
  a : st'.a g = x
  b : st'.b g = x
  frame : ∀ r, r ≠ g → r ≠ staticRegImm → st'.a r = st.a r ∧ st'.b r = st.b r

structure Leaves (st st' : State) (d : Fin 16) (v : BitVec 64) : Prop where
  a : pairA st' (gpr d) = v
  b : pairB st' (gpr d) = v
  frame : ∀ r, r ≠ gpr d → r ≠ gpr d + 1 → r ≠ staticRegImm → st'.a r = st.a r ∧ st'.b r = st.b r

theorem gpr_ne_succ (d : Fin 16) : gpr d ≠ gpr d + 1 := by
  revert d
  decide

theorem Sets.pair {s1 s2 : State} (hd : d ≤ 9) (h1 : Sets st s1 (gpr d) x) (h2 : Sets s1 s2 (gpr d + 1) y) :
    Leaves st s2 d (y ++ x) := by
  have hf := h2.frame _ (gpr_ne_succ d) (gpr_ne_imm hd).1
  refine ⟨?_, ?_, fun r hr hr1 hi => ?_⟩
  · rw [pairA, h2.a, hf.1, h1.a]
  · rw [pairB, h2.b, hf.2, h1.b]
  · rw [(h2.frame r hr1 hi).1, (h2.frame r hr1 hi).2]
    exact h1.frame r hr hi

theorem Leaves.of_halves {v : BitVec 64} (h : Leaves st st' d (y ++ x)) (hx : x = lo v) (hy : y = hi v) :
    Leaves st st' d v := by
  have hv : y ++ x = v := by
    apply ext_halves
    · rw [lo_append, hx]
    · rw [hi_append, hy]
  rwa [hv] at h

theorem sets_aluTo (st st1 : State) (g : BitVec 16) (op : AluOp) (x y : BitVec 32)
    (h : ∀ r, r ≠ g → r ≠ staticRegImm → st1.a r = st.a r ∧ st1.b r = st.b r) :
    Sets st (st1.aluTo (regBoth g) op x y) g (aluResult op x y st1.c).sum where
  a := by rw [aluTo_regBoth_a, update_self]
  b := by rw [aluTo_regBoth_b, update_self]
  frame r hr hi := by
    rw [aluTo_regBoth_a, aluTo_regBoth_b, update_of_ne hr, update_of_ne hr]
    exact h r hr hi

theorem sets_put (st : State) (g : BitVec 16) (x : BitVec 32) : Sets st (st.put (regBoth g) x) g x where
  a := by rw [put_regBoth_a, update_self]
  b := by rw [put_regBoth_b, update_self]
  frame r hr _ := by
    rw [put_regBoth_a, put_regBoth_b, update_of_ne hr, update_of_ne hr]
    exact ⟨rfl, rfl⟩

theorem wp_immed (hg : g < gprCount) (x : BitVec 32) (st : State) :
    Wp (wrpImmed (regBoth g) x) st fun st' => Sets st st' g x ∧ st'.c = st.c ∧ st'.mul = st.mul :=
  .of_runs (runs_wrpImmed (.both hg) x st) ⟨sets_put st g x, by simp, by simp⟩

theorem wp_alu_regs (hg : g < gprCount) (hl : l < gprCount) (hr : r < gprCount) (op : AluOp) (st : State) :
    Wp (emitAlu (regBoth g) (regA l) op (regB r)) st fun st' =>
      Sets st st' g (aluResult op (st.a l) (st.b r) st.c).sum ∧
        st'.c = (aluResult op (st.a l) (st.b r) st.c).carry :=
  .of_runs (runs_regs (.both hg) op hl hr st)
    ⟨sets_aluTo st st g op _ _ (fun _ _ _ => ⟨rfl, rfl⟩), by simp⟩

theorem wp_mov (hg : g < gprCount) (hr : r < gprCount) (st : State) :
    Wp (wrpRegMov g r) st fun st' => Sets st st' g (st.b r) :=
  .of_runs (runs_emitAlu_unary (.both hg) (.b hr) (.inl rfl) st)
    (sets_aluTo st st g .none _ _ (fun _ _ _ => ⟨rfl, rfl⟩))

theorem wp_load_alu (hg : g < gprCount) (hl : l < gprCount) (op : AluOp) (imm : BitVec 32) (st : State) :
    Wp ((urLoadImmAny imm immB).1 ++ emitAlu (regBoth g) (regA l) op (urLoadImmAny imm immB).2) st fun st' =>
      Sets st st' g (aluResult op (st.a l) imm st.c).sum ∧ st'.c = (aluResult op (st.a l) imm st.c).carry := by
  refine .of_runs (runs_alu_imm st imm (.both hg) hl op) ⟨?_, by simp⟩
  have h := sets_aluTo st (st.loadImm imm) g op (st.a l) imm
    (fun r _ hi => ⟨by rw [loadImm_a], loadImm_b st imm hi⟩)
  rwa [loadImm_c] at h

def arithOps : List AluOp := [.add, .sub, .addC, .subC]

structure AluDone (st st' : State) (g : BitVec 16) (op : AluOp) (imm : BitVec 32) : Prop where
  sets : Sets st st' g (aluResult op (st.a g) imm st.c).sum
  carry : op ∈ arithOps → st'.c = (aluResult op (st.a g) imm st.c).carry

theorem wp_unchanged (hab : st.a g = st.b g) (hop : op ∉ arithOps)
    (hv : (aluResult op (st.a g) imm st.c).sum = st.a g) : Wp [] st fun st' => AluDone st st' g op imm :=
  .nil ⟨⟨hv.symm, by rw [hv, hab], fun _ _ _ => ⟨rfl, rfl⟩⟩, fun h => absurd h hop⟩

theorem wp_constant (hg : g < gprCount) (hop : op ∉ arithOps) (hv : (aluResult op (st.a g) imm st.c).sum = x) :
    Wp (wrpImmed (regBoth g) x) st fun st' => AluDone st st' g op imm :=
  (wp_immed hg x st).mono fun _ h => ⟨hv ▸ h.1, fun h => absurd h hop⟩

theorem eq_allOnes (h : ~~~imm = 0) : imm = BitVec.allOnes 32 := by
  rw [← not_not (b := imm), h]
  decide

theorem wp_wrpAluImm (hg : g < gprCount) (op : AluOp) (imm : BitVec 32) (st : State) (hab : st.a g = st.b g) :
    Wp (wrpAluImm g op imm) st fun st' => AluDone st st' g op imm := by
  rw [wrpAluImm]
  split
  · next h =>
    obtain ⟨rfl, rfl⟩ := h
    exact wp_constant hg (by decide) and_zero
  split
  · next h =>
    obtain ⟨rfl, h⟩ := h
    exact wp_unchanged hab (by decide) (by rw [eq_allOnes h]; exact and_allOnes)
  split
  · next h =>
    obtain ⟨rfl, h⟩ := h
    exact wp_constant hg (by decide) (by rw [eq_allOnes h]; exact or_allOnes)
  split
  · next h =>
    obtain ⟨rfl, rfl⟩ := h
    exact wp_unchanged hab (by decide) or_zero
  split
  · next h =>
    obtain ⟨rfl, h⟩ := h
    refine .of_runs (runs_emitAlu_unary (.both hg) (.b hg) (.inr rfl) st) ⟨?_, fun h => absurd h (by decide)⟩
    have hs := sets_aluTo st st g .not 0 (st.src (regB g)) (fun _ _ _ => ⟨rfl, rfl⟩)
    have hv : (aluResult .xor (st.a g) imm st.c).sum = (aluResult .not 0 (st.src (regB g)) st.c).sum := by
      rw [eq_allOnes h, src_regB, ← hab]
      exact xor_allOnes
    rwa [hv]
  split
  · next h =>
    obtain ⟨rfl, rfl⟩ := h
    exact wp_unchanged hab (by decide) xor_zero
  · exact (wp_load_alu hg hg op imm st).mono fun _ h => ⟨h.1, fun _ => h.2⟩

end NfpDriver.Lower
