import NfpDriver.Lower.Units
import NfpDriver.Lower.Holds
import NfpDriver.Verifier.Alu

namespace NfpDriver.Lower

open Asm Adder Jit Bpf Machine Verifier

def aluCode (p : Prog) (off : Nat) (m : Meta) : Option Code :=
  (instrCb.lookup m.insn.code).map fun cb => (cb.run p off m).code

def Lowers (p : Prog) (off : Nat) (m : Meta) (st : State) (post : State → Prop) : Prop :=
  ∃ c, aluCode p off m = some c ∧ Wp c st post

abbrev LowersAlu (p : Prog) (off : Nat) (m : Meta) (st : State) (regs : Fin 16 → BitVec 64) : Prop :=
  Lowers p off m st fun st' => AluExact m st st' (aluValue m.insn (regs m.insn.dstReg) (regs m.insn.srcReg))

variable {m : Meta} {off : Nat} {p : Prog} {post : State → Prop} {st : State} {op : BitVec 8} {d : Fin 16}
  {u v : BitVec 64} {regs : Fin 16 → BitVec 64}

theorem aluCode_eq {cb : Cb} (h : instrCb.lookup m.insn.code = some cb) :
    aluCode p off m = some (cb.run p off m).code := by
  rw [aluCode, h]
  rfl

def aluRun (p : Prog) (off : Nat) (m : Meta) (st : State) : Option (Bool × State) :=
  (aluCode p off m).bind fun c => run (ops c) st

theorem Lowers.run (h : Lowers p off m st post) : ∃ st', aluRun p off m st = some (false, st') ∧ post st' := by
  obtain ⟨c, hc, st', hr, hp⟩ := h
  exact ⟨st', by rw [aluRun, hc]; exact hr.run_eq, hp⟩

theorem Lowers.mono {post' : State → Prop} (h : Lowers p off m st post) (hp : ∀ st', post st' → post' st') :
    Lowers p off m st post' := by
  obtain ⟨c, hc, hw⟩ := h
  exact ⟨c, hc, hw.mono hp⟩

def pickOp (op : BitVec 8) (xor and or add sub : Cb) : Cb :=
  if op = bpfXor then xor else if op = bpfAnd then and else if op = bpfOr then or
  else if op = bpfAdd then add else sub

def pairCb (code : BitVec 8) : Cb :=
  if bpfClass code = bpfAlu64 then
    if bpfSrc code = bpfX then pickOp (bpfOp code) .xorReg64 .andReg64 .orReg64 .addReg64 .subReg64
    else pickOp (bpfOp code) .xorImm64 .andImm64 .orImm64 .addImm64 .subImm64
  else if bpfSrc code = bpfX then pickOp (bpfOp code) .xorReg .andReg .orReg .addReg .subReg
  else pickOp (bpfOp code) .xorImm .andImm .orImm .addImm .subImm

def movCb (code : BitVec 8) : Cb :=
  if bpfClass code = bpfAlu64 then if bpfSrc code = bpfX then .movReg64 else .movImm64
  else if bpfSrc code = bpfX then .movReg else .movImm

def mulCb (code : BitVec 8) : Cb :=
  if bpfClass code = bpfAlu64 then if bpfSrc code = bpfX then .mulReg64 else .mulImm64
  else if bpfSrc code = bpfX then .mulReg else .mulImm

theorem instrCb_regAlu : ∀ code : BitVec 8, isRegAlu code = true →
    (bpfClass code = bpfAlu64 ∨ bpfClass code = bpfAlu) ∧
      (bpfOp code = bpfMov ∧ instrCb.lookup code = some (movCb code) ∨
        bpfOp code = bpfMul ∧ instrCb.lookup code = some (mulCb code) ∨
        bpfOp code ∈ pairOps ∧ instrCb.lookup code = some (pairCb code)) := by
  decide +kernel

theorem isRegAlu_cases {code : BitVec 8} (h : isRegAlu code = true) :
    (bpfClass code = bpfAlu64 ∨ bpfClass code = bpfAlu) ∧
      (bpfOp code = bpfMov ∨ bpfOp code = bpfMul ∨ bpfOp code ∈ pairOps) :=
  (instrCb_regAlu code h).imp id (Or.imp And.left (Or.imp And.left And.left))

section

variable (code : BitVec 8) (h : isRegAlu code = true)

include h

theorem instrCb_mov (hop : bpfOp code = bpfMov) :
    instrCb.lookup code = some (movCb code) := by
  rcases (instrCb_regAlu code h).2 with hcb | hcb | hcb
  · exact hcb.2
  · cases hop.symm.trans hcb.1
  · exact absurd (hop ▸ hcb.1) (by decide)

theorem instrCb_mul (hop : bpfOp code = bpfMul) :
    instrCb.lookup code = some (mulCb code) := by
  rcases (instrCb_regAlu code h).2 with hcb | hcb | hcb
  · cases hop.symm.trans hcb.1
  · exact hcb.2
  · exact absurd (hop ▸ hcb.1) (by decide)

theorem instrCb_pair (hop : bpfOp code ∈ pairOps) :
    instrCb.lookup code = some (pairCb code) := by
  rcases (instrCb_regAlu code h).2 with hcb | hcb | hcb
  · exact absurd (hcb.1 ▸ hop) (by decide)
  · exact absurd (hcb.1 ▸ hop) (by decide)
  · exact hcb.2

end

theorem mem_pairOps (h : op ∈ pairOps) : op = bpfXor ∨ op = bpfAnd ∨ op = bpfOr ∨ op = bpfAdd ∨ op = bpfSub := by
  simpa using h

section PairCode

variable {m : Meta} (p : Prog) (off : Nat) (hop : mbpfOp m ∈ pairOps)

include hop

theorem pairCb_reg64 (hc : bpfClass m.insn.code = bpfAlu64) (hx : bpfSrc m.insn.code = bpfX) :
    ((pairCb m.insn.code).run p off m).code = (carryReg64 m (lowOp (mbpfOp m)) (highOp (mbpfOp m))).code := by
  rw [pairCb, if_pos hc, if_pos hx]
  rcases mem_pairOps hop with h | h | h | h | h <;>
    rw [h, show bpfOp m.insn.code = _ from h] <;> rfl

theorem pairCb_reg (hc : bpfClass m.insn.code ≠ bpfAlu64) (hx : bpfSrc m.insn.code = bpfX) :
    ((pairCb m.insn.code).run p off m).code = (wrpAlu32Reg m (lowOp (mbpfOp m))).code := by
  rw [pairCb, if_neg hc, if_pos hx]
  rcases mem_pairOps hop with h | h | h | h | h <;>
    rw [h, show bpfOp m.insn.code = _ from h] <;> rfl

theorem pairCb_imm (hc : bpfClass m.insn.code ≠ bpfAlu64) (hx : bpfSrc m.insn.code ≠ bpfX) :
    ((pairCb m.insn.code).run p off m).code = (wrpAlu32Imm m (lowOp (mbpfOp m))).code := by
  rw [pairCb, if_neg hc, if_neg hx]
  rcases mem_pairOps hop with h | h | h | h | h <;>
    rw [h, show bpfOp m.insn.code = _ from h] <;> rfl

def identityImm (op : BitVec 8) (imm : BitVec 32) : Bool :=
  if op = bpfXor then imm = 0 else if op = bpfAnd then ~~~imm = 0 else if op = bpfOr then imm = 0 else false

theorem pairCb_imm64 (hc : bpfClass m.insn.code = bpfAlu64) (hx : bpfSrc m.insn.code ≠ bpfX) :
    ((pairCb m.insn.code).run p off m).code = if identityImm (mbpfOp m) m.insn.imm then []
      else (carryImm64 m (lowOp (mbpfOp m)) (highOp (mbpfOp m))).code := by
  rw [pairCb, if_pos hc, if_neg hx]
  rcases mem_pairOps hop with h | h | h | h | h <;> rw [h, show bpfOp m.insn.code = _ from h]
  · exact apply_ite CbResult.code _ _ _
  · exact apply_ite CbResult.code _ _ _
  · exact apply_ite CbResult.code _ _ _
  · rfl
  · rfl

end PairCode

theorem identityImm_value (hi : identityImm (mbpfOp m) m.insn.imm = true) (x : BitVec 64) :
    aluOp (mbpfOp m) x (sextImm m.insn) = x := by
  simp only [identityImm] at hi
  split at hi
  · next h =>
    rw [h, sextImm, of_decide_eq_true hi]
    exact BitVec.xor_zero
  split at hi
  · next h =>
    rw [h, sextImm, eq_allOnes (of_decide_eq_true hi)]
    exact BitVec.and_allOnes
  split at hi
  · next h =>
    rw [h, sextImm, of_decide_eq_true hi]
    exact BitVec.or_zero
  · cases hi

theorem aluValue_wide (hc : bpfClass m.insn.code = bpfAlu64) (he : mbpfOp m ≠ bpfEnd) (x y : BitVec 64) :
    aluValue m.insn x y = aluOp (mbpfOp m) x (operand m.insn y) := by
  rw [aluValue, if_neg (show bpfOp m.insn.code ≠ bpfEnd from he), if_pos hc]
  rfl

theorem aluValue_narrow (hc : bpfClass m.insn.code ≠ bpfAlu64) (he : mbpfOp m ≠ bpfEnd) (x y : BitVec 64) :
    aluValue m.insn x y = (aluOp (mbpfOp m) (lo x) (lo (operand m.insn y))).setWidth 64 := by
  rw [aluValue, if_neg (show bpfOp m.insn.code ≠ bpfEnd from he), if_neg hc]
  rfl

theorem pairOps_not_end (h : op ∈ pairOps) : op ≠ bpfEnd ∧ op ∉ [bpfMov, bpfMul, bpfEnd] := by
  revert op
  decide

section Sound

variable {m : Meta} {p : Prog} {off : Nat} {st : State} {regs : Fin 16 → BitVec 64}
  (hd : m.insn.dstReg ≤ 9) (hh : Holds p regs st)

include hh

theorem Holds.agree (hd : d ≤ 9) : Agree st d where
  lo := by rw [← lo_pairA, hh.a _ hd, ← hh.b _ hd, lo_pairB]
  hi := by rw [← hi_pairA, hh.a _ hd, ← hh.b _ hd, hi_pairB]

theorem Holds.word (hd : d ≤ 9) : st.a (gpr d) = lo (regs d) ∧ st.b (gpr d) = lo (regs d) := by
  rw [← lo_pairA, ← lo_pairB, hh.a _ hd, hh.b _ hd]
  exact ⟨rfl, rfl⟩

include hd

theorem pair_sound (h : isRegAlu m.insn.code = true) (hop : mbpfOp m ∈ pairOps)
    (hs : bpfSrc m.insn.code = bpfX → m.insn.srcReg ≤ 9) :
    LowersAlu p off m st regs := by
  refine ⟨_, aluCode_eq (instrCb_pair _ h hop), ?_⟩
  have hab := hh.agree hd
  obtain ⟨hend, hwide⟩ := pairOps_not_end hop
  by_cases hc : bpfClass m.insn.code = bpfAlu64
  · rw [aluValue_wide hc hend]
    rcases src_K_or_X m.insn.code with hx | hk
    · rw [pairCb_reg64 p off hop hc hx, operand_reg hx, ← hh.a _ hd, ← hh.b _ (hs hx)]
      refine (wp_alu64_reg hd hop).mono fun st' hl => ?_
      obtain ⟨z, -, hl⟩ := hl
      exact (hl (hs hx)).exact hd
    have hx : bpfSrc m.insn.code ≠ bpfX := by rw [hk]; decide
    rw [pairCb_imm64 p off hop hc hx, operand_imm hk, ← hh.a _ hd]
    split
    · next hi =>
      rw [identityImm_value hi]
      refine .nil (Leaves.exact hd ⟨rfl, ?_, fun _ _ _ _ => ⟨rfl, rfl⟩⟩)
      rw [hh.a _ hd, hh.b _ hd]
    · exact (wp_alu64_imm hd hop hab).mono fun st' hl => hl.exact hd
  · have hf : FullWidth m → m.hasFlag flagInsnDoZext = true := by
      rintro (hw | hw | hw)
      · exact absurd hw hc
      · exact hw
      · exact absurd hw hwide
    rw [aluValue_narrow hc hend, ← hh.a _ hd, lo_pairA]
    rcases src_K_or_X m.insn.code with hx | hk
    · rw [pairCb_reg p off hop hc hx, operand_reg hx, ← hh.b _ (hs hx), lo_pairB]
      exact wp_alu32_reg hd hab hf hop
    · have hx : bpfSrc m.insn.code ≠ bpfX := by rw [hk]; decide
      rw [pairCb_imm p off hop hc hx, operand_imm hk, sextImm_lo]
      exact wp_alu32_imm hd hab hf hop

theorem mov_sound (h : isRegAlu m.insn.code = true) (hop : mbpfOp m = bpfMov)
    (hs : bpfSrc m.insn.code = bpfX → m.insn.srcReg ≤ 9 ∨ bpfClass m.insn.code = bpfAlu64 ∧ m.insn.srcReg = bpfReg10) :
    LowersAlu p off m st regs := by
  refine ⟨_, aluCode_eq (instrCb_mov _ h hop), Wp.mono ?_ fun st' => Leaves.exact hd⟩
  have hend : mbpfOp m ≠ bpfEnd := by rw [hop]; decide
  by_cases hc : bpfClass m.insn.code = bpfAlu64
  · rw [aluValue_wide hc hend, hop, movCb, if_pos hc]
    rcases src_K_or_X m.insn.code with hx | hk
    · rw [if_pos hx, operand_reg hx]
      rcases hs hx with hs | ⟨-, h10⟩
      · rw [← hh.b _ hs]
        exact wp_movReg64 hd _ hs
      · rw [h10, hh.fp]
        exact wp_movReg64_frame hd _ h10
    · rw [if_neg (by rw [hk]; decide), operand_imm hk]
      exact wp_movImm64 hd
  · rw [aluValue_narrow hc hend, hop, movCb, if_neg hc]
    rcases src_K_or_X m.insn.code with hx | hk
    · have hs9 := (hs hx).resolve_right (fun h => hc h.1)
      rw [if_pos hx, operand_reg hx, ← hh.b _ hs9, lo_pairB]
      exact wp_movReg hd
    · rw [if_neg (by rw [hk]; decide), operand_imm hk, sextImm_lo]
      exact wp_movImm hd

end Sound

theorem hi_zero_of_max (hv : v ≤ u) (hu : u ≤ u32Max) : hi v = 0 := by
  have h1 : v.toNat ≤ u.toNat := hv
  have h2 : u.toNat ≤ 0xffffffff := hu
  apply BitVec.eq_of_toNat_eq
  rw [hi_toNat, Nat.div_eq_of_lt (by omega)]
  rfl

theorem lo_small_of_max (hv : v ≤ u) (hu : u ≤ u32Max) (hn : ¬lo u > 0xffff) : (lo v).toNat ≤ 0xffff := by
  have h1 : v.toNat ≤ u.toNat := hv
  have h2 : u.toNat ≤ 0xffffffff := hu
  have h3 : ¬0xffff < (lo u).toNat := hn
  rw [lo_toNat] at h3 ⊢
  omega

theorem zext_lo (h : hi v = 0) : (lo v).setWidth 64 = v := by
  apply ext_halves
  · rw [lo_zext]
  · rw [hi_zext, h]

def Bounded (m : Meta) (regs : Fin 16 → BitVec 64) : Prop :=
  isMbpfMul m = true → regs m.insn.dstReg ≤ m.umaxDst ∧
    (bpfSrc m.insn.code = bpfX → regs m.insn.srcReg ≤ m.umaxSrc)

theorem isMbpfMul_of (h : isRegAlu m.insn.code = true) (hop : mbpfOp m = bpfMul) : isMbpfMul m = true := by
  rcases (isRegAlu_cases h).1 with hc | hc <;> simp [isMbpfMul, isMbpfAlu, mbpfClass, hc, hop]

section Mul

variable {m : Meta} {p : Prog} {off : Nat} {st : State} (hd : m.insn.dstReg ≤ 9)
  (h : isRegAlu m.insn.code = true) (hop : mbpfOp m = bpfMul)

include hd h hop

theorem mul_lowers (hab : Agree st m.insn.dstReg)
    (hn : ¬mulWide m (bpfSrc m.insn.code = bpfX) → st.a (gpr m.insn.dstReg + 1) = 0 ∧
      (st.a (gpr m.insn.dstReg)).toNat ≤ 0xffff ∧
      ((mulOperand m st (bpfSrc m.insn.code = bpfX)).toNat ≤ 0xffff ∨ st.a (gpr m.insn.dstReg) = 0)) :
    Lowers p off m st fun st' => Leaves st st' m.insn.dstReg (mulValue (bpfClass m.insn.code = bpfAlu64)
      (st.a (gpr m.insn.dstReg)) (mulOperand m st (bpfSrc m.insn.code = bpfX))) := by
  refine ⟨_, aluCode_eq (instrCb_mul _ h hop), ?_⟩
  have hcb : ((mulCb m.insn.code).run p off m).code =
      (wrpMul m (bpfClass m.insn.code = bpfAlu64) (bpfSrc m.insn.code = bpfX)).code := by
    rw [mulCb]
    split <;> split <;> simp only [*, decide_true, decide_false] <;> rfl
  rw [hcb]
  exact wp_wrpMul hd _ _ hab hn

omit hd h in
theorem mulValue_eq {x : BitVec 64} {y : BitVec 32} (hx : hi x = 0)
    (hy : x = 0 ∨ lo (operand m.insn v) = y ∧ (bpfClass m.insn.code = bpfAlu64 → hi (operand m.insn v) = 0)) :
    mulValue (bpfClass m.insn.code = bpfAlu64) (lo x) y = aluValue m.insn x v := by
  have hend : mbpfOp m ≠ bpfEnd := by rw [hop]; decide
  by_cases hc : bpfClass m.insn.code = bpfAlu64
  · rw [aluValue_wide hc hend, hop, mulValue, if_pos (decide_eq_true hc), zext_lo hx]
    rcases hy with rfl | ⟨rfl, hy⟩
    · exact BitVec.zero_mul.trans BitVec.zero_mul.symm
    · rw [zext_lo (hy hc)]
      rfl
  · rw [aluValue_narrow hc hend, hop, mulValue, if_neg (by rwa [decide_eq_true_eq])]
    rcases hy with rfl | ⟨rfl, -⟩
    · exact congrArg (BitVec.setWidth 64) (BitVec.zero_mul.trans BitVec.zero_mul.symm)
    · rfl

theorem mul_sound (hh : Holds p regs st) (hacc : MulAccepted m) (hb : Bounded m regs)
    (hs : bpfSrc m.insn.code = bpfX → m.insn.srcReg ≤ 9 ∨ m.umaxDst = 0) :
    LowersAlu p off m st regs := by
  obtain ⟨hbd, hbs⟩ := hb (isMbpfMul_of h hop)
  have hhi := hi_zero_of_max hbd hacc.dst
  have hword := (hh.word hd).1
  have hz : m.umaxDst = 0 → regs m.insn.dstReg = 0 := by
    intro hu
    rw [hu] at hbd
    exact BitVec.le_zero_iff.mp hbd
  refine (mul_lowers hd h hop (hh.agree hd) ?_).mono fun st' hl => ?_
  · intro hw
    have hw1 : ¬lo m.umaxDst > 0xffff := fun hc => hw (.inl hc)
    refine ⟨by rw [← hi_pairA, hh.a _ hd, hhi], by rw [hword]; exact lo_small_of_max hbd hacc.dst hw1, ?_⟩
    rcases src_K_or_X m.insn.code with hx | hk
    · rcases hs hx with hs9 | hu
      · left
        rw [mulOperand, if_pos (decide_eq_true hx), (hh.word hs9).2]
        refine lo_small_of_max (hbs hx) (hacc.src hx) fun hc => hw (.inr ?_)
        rwa [if_pos (decide_eq_true hx)]
      · right
        rw [hword, hz hu]
        rfl
    · left
      have hx : ¬decide (bpfSrc m.insn.code = bpfX) = true := by rw [hk]; decide
      rw [mulOperand, if_neg hx]
      have himm : ¬m.insn.imm > 0xffff := fun hc => hw (.inr (by rwa [if_neg hx]))
      have himm' : ¬0xffff < m.insn.imm.toNat := himm
      omega
  · rw [hword, mulValue_eq hop hhi] at hl
    · exact hl.exact hd
    rcases src_K_or_X m.insn.code with hx | hk
    · rw [mulOperand, if_pos (decide_eq_true hx), operand_reg hx]
      rcases hs hx with hs9 | hu
      · exact .inr ⟨(hh.word hs9).2.symm, fun _ => hi_zero_of_max (hbs hx) (hacc.src hx)⟩
      · exact .inl (hz hu)
    · rw [mulOperand, if_neg (by rw [hk]; decide), operand_imm hk]
      refine .inr ⟨sextImm_lo _, fun hc => ?_⟩
      have hmsb : m.insn.imm.msb = false := BitVec.slt_zero_eq_msb.symm.trans (hacc.imm hc hk)
      rw [sextImm_hi, hmsb, if_neg Bool.false_ne_true]

end Mul

section Unary

variable {m : Meta} {p : Prog} {off : Nat} {st : State} {regs : Fin 16 → BitVec 64}
  (hd : m.insn.dstReg ≤ 9) (hh : Holds p regs st)

include hd hh

theorem neg_sound (h : isNeg m.insn.code = true) :
    LowersAlu p off m st regs := by
  have hab := hh.agree hd
  simp only [isNeg, Bool.or_eq_true, beq_iff_eq] at h
  rcases h with h | h
  · refine ⟨_, aluCode_eq (by rw [h]; rfl), ?_⟩
    rw [aluValue, h, ← hh.a _ hd]
    exact (wp_negReg64 hd hab).mono fun st' hl => hl.exact hd
  refine ⟨_, aluCode_eq (by rw [h]; rfl), ?_⟩
  have hf : FullWidth m → m.hasFlag flagInsnDoZext = true := by
    rw [FullWidth, mbpfClass, mbpfOp, h]
    rintro (hw | hw | hw)
    · cases hw
    · exact hw
    · exact absurd hw (by decide)
  rw [aluValue, h, ← hh.a _ hd, lo_pairA]
  exact wp_negReg hd hab hf

theorem end_sound (h : isEnd m.insn.code = true)
    (hw : m.insn.imm = 16 ∨ m.insn.imm = 32 ∨ m.insn.imm = 64) :
    LowersAlu p off m st regs := by
  simp only [isEnd, beq_iff_eq] at h
  refine ⟨_, aluCode_eq (by rw [h]; rfl), ?_⟩
  rw [aluValue, h, ← hh.a _ hd]
  exact (wp_endReg32 hd (hh.agree hd) hw).mono fun st' hl => hl.exact hd

end Unary

theorem lo_mul64 (x y : BitVec 64) : lo (x * y) = lo x * lo y := by
  apply BitVec.eq_of_toNat_eq
  rw [lo_toNat, BitVec.toNat_mul, BitVec.toNat_mul, lo_toNat, lo_toNat, ← Nat.mul_mod]
  omega

theorem lo_aluValue (h : isRegAlu m.insn.code = true) (hx : bpfSrc m.insn.code = bpfX) (x y : BitVec 64) :
    lo (aluValue m.insn x y) = aluOp (mbpfOp m) (lo x) (lo y) := by
  obtain ⟨-, hop⟩ := isRegAlu_cases h
  have hend : mbpfOp m ≠ bpfEnd := by
    rcases hop with hop | hop | hop
    · rw [mbpfOp, hop]; decide
    · rw [mbpfOp, hop]; decide
    · exact (pairOps_not_end hop).1
  by_cases hc : bpfClass m.insn.code = bpfAlu64
  · rw [aluValue_wide hc hend, operand_reg hx]
    rcases hop with hop | hop | hop
    · rw [mbpfOp, hop]; rfl
    · rw [mbpfOp, hop]; exact lo_mul64 x y
    · exact lo_aluOp hop x y
  · rw [aluValue_narrow hc hend, operand_reg hx, lo_zext]

section Necessary

variable {m : Meta} {p : Prog} {off : Nat} {st : State} (hd : m.insn.dstReg ≤ 9)
  (h : isRegAlu m.insn.code = true) (hx : bpfSrc m.insn.code = bpfX)
  (hmov : ¬(bpfOp m.insn.code = bpfMov ∧ bpfClass m.insn.code = bpfAlu64))

include hd h hx hmov

theorem reg_low (hab : Agree st m.insn.dstReg)
    (hn : st.a (gpr m.insn.dstReg + 1) = 0 ∧ (st.a (gpr m.insn.dstReg)).toNat ≤ 0xffff ∧
      (st.b (gpr m.insn.srcReg)).toNat ≤ 0xffff) :
    Lowers p off m st fun st' => lo (pairA st' (gpr m.insn.dstReg)) =
      aluOp (mbpfOp m) (st.a (gpr m.insn.dstReg)) (st.b (gpr m.insn.srcReg)) := by
  rcases (isRegAlu_cases h).2 with hop | hop | hop
  · have hc : bpfClass m.insn.code ≠ bpfAlu64 := fun hc => hmov ⟨hop, hc⟩
    refine ⟨_, aluCode_eq (instrCb_mov _ h hop), ?_⟩
    rw [movCb, if_neg hc, if_pos hx, mbpfOp, hop]
    refine (wp_movReg hd).mono fun st' hl => ?_
    rw [hl.a, lo_zext]
    rfl
  · refine (mul_lowers hd h hop hab ?_).mono fun st' hl => ?_
    · rw [mulOperand, if_pos (decide_eq_true hx)]
      exact fun _ => ⟨hn.1, hn.2.1, .inl hn.2.2⟩
    · rw [hl.a, mulOperand, if_pos (decide_eq_true hx), mulValue, mbpfOp, hop]
      split
      · exact lo_mul _ _
      · exact lo_zext _
  · refine ⟨_, aluCode_eq (instrCb_pair _ h hop), ?_⟩
    by_cases hc : bpfClass m.insn.code = bpfAlu64
    · rw [pairCb_reg64 p off hop hc hx]
      refine (wp_alu64_reg hd hop).mono fun st' hl => ?_
      obtain ⟨z, hl, -⟩ := hl
      rw [hl.a, lo_append]
    rw [pairCb_reg p off hop hc hx]
    have hf : FullWidth m → m.hasFlag flagInsnDoZext = true := by
      rintro (hw | hw | hw)
      · exact absurd hw hc
      · exact hw
      · exact absurd hw (pairOps_not_end hop).2
    refine (wp_alu32_reg hd hab hf hop).mono fun st' hl => ?_
    rw [hl.low.1, lo_zext]

def AlwaysExact (m : Meta) : Prop := ∀ p off regs st, Holds p regs st → Bounded m regs →
  ∃ st', aluRun p off m st = some (false, st') ∧
    AluExact m st st' (aluValue m.insn (regs m.insn.dstReg) (regs m.insn.srcReg))

def dstProbe (op : BitVec 8) : BitVec 64 := if op = bpfOr then 0 else 1

omit hd h hx hmov in
theorem probe_differs (h : op ∈ regOps) : aluOp op (lo (dstProbe op)) (lo 1) ≠ aluOp op (lo (dstProbe op)) (lo 0) := by
  revert op
  decide

theorem frame_necessary (h10 : m.insn.srcReg = bpfReg10) (hmul : bpfOp m.insn.code = bpfMul → m.umaxDst ≠ 0) :
    ¬AlwaysExact m := by
  intro he
  have hop : mbpfOp m ∈ regOps := by
    simp only [isRegAlu, Bool.and_eq_true, List.contains_iff_mem] at h
    exact h.2
  have hd10 : m.insn.dstReg ≤ 10 := le_trans hd (by decide)
  have hdne : m.insn.dstReg ≠ bpfReg10 := by
    intro hc
    rw [hc] at hd
    exact absurd hd (by decide)
  have hpd := frameState_pairs (dstProbe (mbpfOp m)) 0 0 1 hd10
  have hps := frameState_pairs (dstProbe (mbpfOp m)) 0 0 1 (show m.insn.srcReg ≤ 10 by rw [h10]; decide)
  rw [if_neg hdne, if_neg hdne] at hpd
  rw [if_pos h10, if_pos h10] at hps
  have hh := holds_stateOf (frameRegs (dstProbe (mbpfOp m)) 0) (pairScratch 0) (pairScratch 1) 0 rfl
  have hrd : frameRegs (dstProbe (mbpfOp m)) 0 m.insn.dstReg = dstProbe (mbpfOp m) := if_neg hdne
  have hrs : frameRegs (dstProbe (mbpfOp m)) 0 m.insn.srcReg = 0 := if_pos h10
  have hb : Bounded m (frameRegs (dstProbe (mbpfOp m)) 0) := by
    intro hm
    have hmop : mbpfOp m = bpfMul := by
      simp only [isMbpfMul, Bool.and_eq_true, beq_iff_eq] at hm
      exact hm.2
    rw [hrd, hrs, hmop]
    have hpos : m.umaxDst.toNat ≠ 0 := fun hu => hmul hmop (BitVec.eq_of_toNat_eq hu)
    exact ⟨Nat.one_le_iff_ne_zero.mpr hpos, fun _ => Nat.zero_le _⟩
  have hn : (frameState (dstProbe (mbpfOp m)) 0 0 1).a (gpr m.insn.dstReg + 1) = 0 ∧
      ((frameState (dstProbe (mbpfOp m)) 0 0 1).a (gpr m.insn.dstReg)).toNat ≤ 0xffff ∧
      ((frameState (dstProbe (mbpfOp m)) 0 0 1).b (gpr m.insn.srcReg)).toNat ≤ 0xffff := by
    rw [← hi_pairA, ← lo_pairA, ← lo_pairB, hpd.1, hps.2, dstProbe]
    split <;> decide
  obtain ⟨st', hr, hex⟩ := he _ 0 _ _ hh hb
  obtain ⟨st'', hr', hlow⟩ := (reg_low hd h hx hmov (hh.agree hd) hn).run
  rw [frameState] at hpd hps
  have hst : st' = st'' := congrArg Prod.snd (Option.some.inj (hr.symm.trans hr'))
  have hval := hex.low.1
  rw [hst, hlow, lo_aluValue h hx, hrd, hrs, ← lo_pairA, ← lo_pairB, hpd.1, hps.2] at hval
  exact probe_differs hop hval

end Necessary

def FrameOperand (insn : Insn) : Prop :=
  isRegAlu insn.code = true ∧ bpfSrc insn.code = bpfX ∧ insn.srcReg = bpfReg10 ∧
    ¬(bpfOp insn.code = bpfMov ∧ bpfClass insn.code = bpfAlu64)

def isLowered (insn : Insn) : Prop :=
  isRegAlu insn.code = true ∨ isNeg insn.code = true ∨
    isEnd insn.code = true ∧ (insn.imm = 16 ∨ insn.imm = 32 ∨ insn.imm = 64)

theorem alu_sound (hc : isLowered m.insn) (hacc : isMbpfMul m = true → MulAccepted m) (hd : m.insn.dstReg ≤ 9)
    (hs : m.insn.srcReg ≤ 10) (hf : ¬FrameOperand m.insn ∨ bpfOp m.insn.code = bpfMul ∧ m.umaxDst = 0)
    (hh : Holds p regs st) (hb : Bounded m regs) :
    LowersAlu p off m st regs := by
  rcases hc with h | h | ⟨h, hw⟩
  · have hsrc : bpfSrc m.insn.code = bpfX → m.insn.srcReg ≤ 9 ∨ m.insn.srcReg = bpfReg10 ∧
        (bpfOp m.insn.code = bpfMov ∧ bpfClass m.insn.code = bpfAlu64 ∨
          bpfOp m.insn.code = bpfMul ∧ m.umaxDst = 0) := by
      intro hx
      by_cases h10 : m.insn.srcReg = bpfReg10
      · refine .inr ⟨h10, ?_⟩
        by_contra hno
        rw [not_or] at hno
        exact hf.elim (fun hf => hf ⟨h, hx, h10, hno.1⟩) hno.2
      · exact .inl (le_nine hs h10)
    rcases (isRegAlu_cases h).2 with hop | hop | hop
    · refine mov_sound hd hh h hop fun hx => (hsrc hx).imp id fun ⟨h10, hm⟩ => ?_
      rcases hm with hm | hm
      · exact ⟨hm.2, h10⟩
      · cases hop.symm.trans hm.1
    · refine mul_sound hd h hop hh (hacc (isMbpfMul_of h hop)) hb fun hx => (hsrc hx).imp id fun ⟨_, hm⟩ => ?_
      rcases hm with hm | hm
      · cases hop.symm.trans hm.1
      · exact hm.2
    · refine pair_sound hd hh h hop fun hx => (hsrc hx).resolve_right fun ⟨_, hm⟩ => ?_
      rcases hm with hm | hm
      · exact absurd (hm.1 ▸ hop) (by decide)
      · exact absurd (hm.1 ▸ hop) (by decide)
  · exact neg_sound hd hh h
  · exact end_sound hd hh h hw

theorem alu_exact_iff (sreg dreg : RegState) (m₀ m : Meta) (hacc : nfpBpfCheckAlu sreg dreg m₀ = .ok m)
    (hc : isLowered m.insn) (hd : m.insn.dstReg ≤ 9) (hs : m.insn.srcReg ≤ 10) :
    (∀ p off regs st, Holds p regs st → Bounded m regs → ∃ st', aluRun p off m st = some (false, st') ∧
        AluExact m st st' (aluValue m.insn (regs m.insn.dstReg) (regs m.insn.srcReg))) ↔
      ¬FrameOperand m.insn ∨ bpfOp m.insn.code = bpfMul ∧ m.umaxDst = 0 := by
  constructor
  · intro he
    by_contra hno
    rw [not_or, not_not] at hno
    obtain ⟨⟨h, hx, h10, hmov⟩, hmul⟩ := hno
    exact frame_necessary hd h hx hmov h10 (fun hop hu => hmul ⟨hop, hu⟩) he
  · intro hf p off regs st hh hb
    exact (alu_sound hc (nfpBpfCheckAlu_ok hacc).2 hd hs hf hh hb).run

def mulRegs : Meta := Meta.zero ⟨bpfAlu64 ||| bpfMul ||| bpfX, 1, 2, 0, 0⟩ 0

def scalarUpTo (bound : BitVec 64) : RegState := { RegState.zero with type := .scalarValue, umaxValue := bound }

theorem mulRegs_exact : isLowered mulRegs.insn ∧
    AlwaysExact (widenRange (scalarUpTo 7) (scalarUpTo 0xffffffff) mulRegs) :=
  ⟨.inl (by decide), (alu_exact_iff (scalarUpTo 7) (scalarUpTo 0xffffffff) mulRegs _ (by rfl) (.inl (by decide))
    (by decide) (by decide)).mpr (.inl fun h => absurd h.2.2.1 (by decide))⟩

def addFramePointer : Meta := Meta.zero ⟨bpfAlu64 ||| bpfAdd ||| bpfX, 2, 10, 0, 0⟩ 0

theorem addFramePointer_differs :
    nfpBpfCheckAlu .zero .zero addFramePointer = .ok addFramePointer ∧
      Holds (withDepth 64) (frameRegs 1 64) (frameState 1 64 0 0) ∧
      (aluRun (withDepth 64) 0 addFramePointer (frameState 1 64 0 0)).map (fun r => pairA r.2 (gpr 2)) = some 1 ∧
      aluValue addFramePointer.insn (frameRegs 1 64 2) (frameRegs 1 64 10) = 65 :=
  ⟨by rfl, holds_stateOf (frameRegs 1 64) (pairScratch 0) (pairScratch 0) 64 rfl, by decide +kernel, by decide⟩

end NfpDriver.Lower
