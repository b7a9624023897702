import NfpDriver.Lower.Holds

namespace NfpDriver.Lower

open Asm Adder Jit Bpf Machine

def jumpTaken (p : Prog) (off : Nat) (m : Meta) (st : State) : Option Bool :=
  (instrCb.lookup m.insn.code).bind fun cb => taken (cb.run p off m).code st

def condCb (code : BitVec 8) : Cb :=
  let x := bpfSrc code = bpfX
  if bpfOp code = bpfJeq then if x then .jeqReg else if bpfClass code = bpfJmp32 then .jeq32Imm else .jeqImm
  else if bpfOp code = bpfJne then if x then .jneReg else .jneImm
  else if bpfOp code = bpfJset then if x then .jsetReg else .jsetImm
  else if x then .cmpReg else .cmpImm

variable {code : BitVec 8}

theorem condCb_jeq (h : bpfOp code = bpfJeq) :
    condCb code = if bpfSrc code = bpfX then .jeqReg
      else if bpfClass code = bpfJmp32 then .jeq32Imm else .jeqImm := by
  simp only [condCb, h, if_true]

theorem condCb_jne (h : bpfOp code = bpfJne) : condCb code = if bpfSrc code = bpfX then .jneReg else .jneImm := by
  simp only [condCb, h]
  rfl

theorem condCb_jset (h : bpfOp code = bpfJset) : condCb code = if bpfSrc code = bpfX then .jsetReg else .jsetImm := by
  simp only [condCb, h]
  rfl

theorem order_ne {op : BitVec 8} (h : op ∈ orderOps) : op ≠ bpfJeq ∧ op ≠ bpfJne ∧ op ≠ bpfJset := by
  revert op
  decide

theorem condCb_order (h : bpfOp code ∈ orderOps) : condCb code = if bpfSrc code = bpfX then .cmpReg else .cmpImm := by
  simp only [condCb, (order_ne h).1, (order_ne h).2.1, (order_ne h).2.2, if_false]

theorem instrCb_cond : ∀ code : BitVec 8, isCondJmp code = true → instrCb.lookup code = some (condCb code) := by
  decide +kernel

theorem isCondJmp_cases (h : isCondJmp code = true) :
    (bpfClass code = bpfJmp ∨ bpfClass code = bpfJmp32) ∧
      (bpfOp code = bpfJeq ∨ bpfOp code = bpfJne ∨ bpfOp code = bpfJset ∨ bpfOp code ∈ orderOps) := by
  simp only [isCondJmp, Bool.and_eq_true, Bool.or_eq_true, beq_iff_eq, List.contains_iff_mem] at h
  refine ⟨h.1, ?_⟩
  simpa [condOps] using h.2

section Dispatch

variable {m : Meta} {p : Prog} {off : Nat} {st : State} (h : isCondJmp m.insn.code = true)

include h

theorem jumpTaken_cond : jumpTaken p off m st = taken ((condCb m.insn.code).run p off m).code st := by
  rw [jumpTaken, instrCb_cond _ h]
  rfl

theorem jumpTaken_jeq (ho : bpfOp m.insn.code = bpfJeq) :
    jumpTaken p off m st = taken (if bpfSrc m.insn.code = bpfX then jeqReg m
      else if bpfClass m.insn.code = bpfJmp32 then jeq32Imm m else jeqImm m).code st := by
  rw [jumpTaken_cond h, condCb_jeq ho]
  split_ifs <;> rfl

theorem jumpTaken_jne (ho : bpfOp m.insn.code = bpfJne) :
    jumpTaken p off m st = taken (if bpfSrc m.insn.code = bpfX then jneReg m else jneImm m).code st := by
  rw [jumpTaken_cond h, condCb_jne ho]
  split_ifs <;> rfl

theorem jumpTaken_jset (ho : bpfOp m.insn.code = bpfJset) :
    jumpTaken p off m st = taken (if bpfSrc m.insn.code = bpfX then jsetReg m else jsetImm m).code st := by
  rw [jumpTaken_cond h, condCb_jset ho]
  split_ifs <;> rfl

theorem jumpTaken_order (ho : bpfOp m.insn.code ∈ orderOps) :
    jumpTaken p off m st = taken (if bpfSrc m.insn.code = bpfX then cmpReg m else cmpImm m).code st := by
  rw [jumpTaken_cond h, condCb_order ho]
  split_ifs <;> rfl

theorem jmp32_eq : isMbpfJmp32 m = !isMbpfJmp64 m := by
  rcases (isCondJmp_cases h).1 with hc | hc <;> simp only [isMbpfJmp32, isMbpfJmp64, mbpfClass, hc] <;> decide

theorem jumpCond_eq (x y : BitVec 64) :
    jumpCond m.insn x y =
      if isMbpfJmp64 m then jmpCond (mbpfOp m) x (operand m.insn y)
      else jmpCond (mbpfOp m) (lo x) (lo (operand m.insn y)) := by
  have h32 := jmp32_eq h
  simp only [isMbpfJmp32, mbpfClass] at h32
  rw [jumpCond]
  cases hw : isMbpfJmp64 m with
  | false => rw [if_pos (by simpa [hw] using h32)]; rfl
  | true => rw [if_neg (by simpa [hw] using h32)]; rfl

theorem imm_taken (hk : bpfSrc m.insn.code = bpfK) (hn : m.jumpNegOp = false)
    (heq : ¬(mbpfOp m = bpfJeq ∧ isMbpfJmp64 m = true)) (hne : ¬(mbpfOp m = bpfJne ∧ m.insn.imm = 0)) (y : BitVec 64) :
    jumpTaken p off m st = some (jumpCond m.insn (pairA st (gpr m.insn.dstReg)) y) := by
  have hx : ¬bpfSrc m.insn.code = bpfX := by rw [hk]; decide
  rw [jumpCond_eq h, operand_imm hk, lo_pairA]
  rcases (isCondJmp_cases h).2 with ho | ho | ho | ho
  · have hm : mbpfOp m = bpfJeq := ho
    have hw : isMbpfJmp64 m = false := by simpa [hm] using heq
    have h32 : bpfClass m.insn.code = bpfJmp32 := by
      simpa [hw, isMbpfJmp32, mbpfClass] using jmp32_eq h
    rw [jumpTaken_jeq h ho, if_neg hx, if_pos h32, jeq32Imm_taken, hw, hm, sextImm_lo]
    rfl
  · have hm : mbpfOp m = bpfJne := ho
    have hz : sextImm m.insn ≠ 0 := sextImm_ne_zero (fun hz => hne ⟨ho, hz⟩)
    rw [jumpTaken_jne h ho, if_neg hx, jneImm_taken hz (jmp32_eq h), hm]
    rfl
  · have hm : mbpfOp m = bpfJset := ho
    rw [jumpTaken_jset h ho, if_neg hx, jsetImm_taken, hm]
    rfl
  · rw [jumpTaken_order h ho, if_neg hx, cmpImm_taken ho hn]

theorem reg_taken (hx : bpfSrc m.insn.code = bpfX) (heq : mbpfOp m ≠ bpfJeq) :
    ∃ swap : Bool, ∀ p off st, jumpTaken p off m st = some
      (jumpCond m.insn (if swap then pairB st (gpr m.insn.dstReg) else pairA st (gpr m.insn.dstReg))
        (if swap then pairA st (gpr m.insn.srcReg) else pairB st (gpr m.insn.srcReg))) := by
  rcases (isCondJmp_cases h).2 with ho | ho | ho | ho
  · exact absurd ho heq
  · refine ⟨false, fun p off st => ?_⟩
    have hm : mbpfOp m = bpfJne := ho
    rw [jumpTaken_jne h ho, jumpCond_eq h, operand_reg hx, if_pos hx, jneReg_taken, hm]
    simp only [Bool.false_eq_true, if_false, lo_pairA, lo_pairB]
    rfl
  · refine ⟨false, fun p off st => ?_⟩
    have hm : mbpfOp m = bpfJset := ho
    rw [jumpTaken_jset h ho, jumpCond_eq h, operand_reg hx, if_pos hx, jsetReg_taken, hm]
    simp only [Bool.false_eq_true, if_false, lo_pairA, lo_pairB]
    rfl
  · obtain ⟨swap, hswap⟩ := cmpReg_taken ho
    refine ⟨swap, fun p off st => ?_⟩
    rw [jumpTaken_order h ho, jumpCond_eq h, operand_reg hx, if_pos hx, hswap]
    cases swap <;> simp only [Bool.false_eq_true, if_false, if_true, lo_pairA, lo_pairB]

theorem jeqReg_exact (hx : bpfSrc m.insn.code = bpfX) (heq : mbpfOp m = bpfJeq) (hd : m.insn.dstReg ≤ 9) :
    jumpTaken p off m st = some
      (jumpCond m.insn (pairA st (gpr m.insn.dstReg)) (pairB st (gpr m.insn.srcReg))) := by
  have hop : bpfOp m.insn.code = bpfJeq := heq
  rw [jumpTaken_jeq h hop, jumpCond_eq h, operand_reg hx, heq, if_pos hx, jeqReg_taken,
    Function.update_of_ne (gpr_ne_imm hd).2]
  cases isMbpfJmp64 m with
  | false => simp only [Bool.not_false, Bool.true_or, Bool.and_true, lo_pairA, lo_pairB]; rfl
  | true =>
    simp only [Bool.not_true, Bool.false_or, if_true]
    rw [show jmpCond bpfJeq (pairA st (gpr m.insn.dstReg)) (pairB st (gpr m.insn.srcReg)) =
      (pairA st (gpr m.insn.dstReg) == pairB st (gpr m.insn.srcReg)) from rfl, eq_halves, lo_pairA, lo_pairB,
      hi_pairA, hi_pairB]

theorem jeqReg_not_taken (hx : bpfSrc m.insn.code = bpfX) (heq : mbpfOp m = bpfJeq)
    (hne : st.a (gpr m.insn.dstReg) ≠ st.b (gpr m.insn.srcReg)) : jumpTaken p off m st = some false := by
  have hop : bpfOp m.insn.code = bpfJeq := heq
  rw [jumpTaken_jeq h hop, if_pos hx, jeqReg_taken, beq_eq_false_iff_ne.mpr hne, Bool.false_and]

section

variable (hk : bpfSrc m.insn.code = bpfK)

include hk

theorem jeqImm_dispatch (heq : mbpfOp m = bpfJeq) (hw : isMbpfJmp64 m = true) :
    jumpTaken p off m st = taken (jeqImm m).code st := by
  have hop : bpfOp m.insn.code = bpfJeq := heq
  have hx : ¬bpfSrc m.insn.code = bpfX := by rw [hk]; decide
  have h32 : ¬bpfClass m.insn.code = bpfJmp32 := by
    simpa [hw, isMbpfJmp32, mbpfClass] using jmp32_eq h
  rw [jumpTaken_jeq h hop, if_neg hx, if_neg h32]

theorem jneImm_dispatch (hne : mbpfOp m = bpfJne) :
    jumpTaken p off m st = taken (jneImm m).code st := by
  have hop : bpfOp m.insn.code = bpfJne := hne
  have hx : ¬bpfSrc m.insn.code = bpfX := by rw [hk]; decide
  rw [jumpTaken_jne h hop, if_neg hx]

theorem jeqImm_exact (heq : mbpfOp m = bpfJeq) (hw : isMbpfJmp64 m = true)
    (hd : m.insn.dstReg ≤ 9) (hab : pairA st (gpr m.insn.dstReg) = pairB st (gpr m.insn.dstReg)) (y : BitVec 64) :
    jumpTaken p off m st = some (jumpCond m.insn (pairA st (gpr m.insn.dstReg)) y) := by
  obtain ⟨x, ht, hx, -⟩ := jeqImm_taken m st
  have hhi : st.b (gpr m.insn.dstReg + 1) = st.a (gpr m.insn.dstReg + 1) := by
    rw [← hi_pairA, hab, hi_pairB]
  rw [jeqImm_dispatch h hk heq hw, ht, hx hd hhi, jumpCond_eq h, if_pos hw, heq, operand_imm hk,
    show jmpCond bpfJeq (pairA st (gpr m.insn.dstReg)) (sextImm m.insn) =
      (pairA st (gpr m.insn.dstReg) == sextImm m.insn) from rfl, eq_halves, xor_eq_zero, lo_pairA, hi_pairA]

theorem jneImm_zero_exact (hne : mbpfOp m = bpfJne) (hz : m.insn.imm = 0)
    (hab : pairA st (gpr m.insn.dstReg) = pairB st (gpr m.insn.dstReg)) (y : BitVec 64) :
    jumpTaken p off m st = some (jumpCond m.insn (pairA st (gpr m.insn.dstReg)) y) := by
  have hs : sextImm m.insn = 0 := by rw [sextImm, hz]; decide
  rw [jneImm_dispatch h hk hne, jneImm_zero_taken hs (jmp32_eq h), jumpCond_eq h, hne, operand_imm hk, hs]
  cases isMbpfJmp64 m with
  | false =>
    simp only [Bool.false_eq_true, if_false]
    rw [hab, lo_pairB]
    rfl
  | true =>
    rw [show jmpCond bpfJne (pairA st (gpr m.insn.dstReg)) 0 = (pairA st (gpr m.insn.dstReg) != 0) from rfl,
      ne_zero_halves, bne, or_eq_zero, Bool.not_and, lo_pairA, hab, hi_pairB]
    rfl

end

theorem jump_sound {regs : Fin 16 → BitVec 64} (hn : m.jumpNegOp = false) (hd : m.insn.dstReg ≤ 9)
    (hs : bpfSrc m.insn.code = bpfX → m.insn.srcReg ≤ 9) (hh : Holds p regs st) :
    jumpTaken p off m st = some (jumpCond m.insn (regs m.insn.dstReg) (regs m.insn.srcReg)) := by
  have hab : pairA st (gpr m.insn.dstReg) = pairB st (gpr m.insn.dstReg) := by rw [hh.a _ hd, hh.b _ hd]
  rcases src_K_or_X m.insn.code with hx | hk
  · rw [← hh.a _ hd, ← hh.b _ (hs hx)]
    by_cases heq : mbpfOp m = bpfJeq
    · exact jeqReg_exact h hx heq hd
    obtain ⟨swap, hswap⟩ := reg_taken h hx heq
    rw [hswap]
    cases swap with
    | false => rfl
    | true => simp only [if_true, ← hab, hh.a _ (hs hx), hh.b _ (hs hx)]
  · rw [← hh.a _ hd]
    by_cases heq : mbpfOp m = bpfJeq ∧ isMbpfJmp64 m = true
    · exact jeqImm_exact h hk heq.1 heq.2 hd hab _
    · by_cases hne : mbpfOp m = bpfJne ∧ m.insn.imm = 0
      · exact jneImm_zero_exact h hk hne.1 hne.2 hab _
      · exact imm_taken h hk hn heq hne _

end Dispatch

def JumpExact (m : Meta) : Prop := ∀ p off regs st, Holds p regs st →
  jumpTaken p off m st = some (jumpCond m.insn (regs m.insn.dstReg) (regs m.insn.srcReg))

def OperandsKept (insn : Insn) : Prop :=
  insn.dstReg ≠ bpfReg10 ∧ (bpfSrc insn.code = bpfX → insn.srcReg ≠ bpfReg10)

def DstIrrelevant (insn : Insn) : Prop := ∀ v w, jumpCond insn v 0 = jumpCond insn w 0

def NeverEqual (insn : Insn) : Prop :=
  bpfOp insn.code = bpfJeq ∧ bpfClass insn.code = bpfJmp ∧ insn.imm.slt 0 = true

section Necessary

variable {m : Meta}

theorem JumpExact.at_frame (he : JumpExact m) (v : BitVec 64) (s : BitVec 32) (x y : BitVec 64) :
    ∃ p, jumpTaken p 0 m (frameState v s x y) =
      some (jumpCond m.insn (frameRegs v s m.insn.dstReg) (frameRegs v s m.insn.srcReg)) :=
  ⟨_, he _ 0 _ _ (holds_stateOf (frameRegs v s) (pairScratch x) (pairScratch y) s rfl)⟩

theorem jumpCond_imm (h : isCondJmp m.insn.code = true) (hk : bpfSrc m.insn.code = bpfK) (v y : BitVec 64) :
    jumpCond m.insn v y = jumpCond m.insn v 0 := by
  rw [jumpCond_eq h, jumpCond_eq h, operand_imm hk, operand_imm hk]

theorem not_ne (v : BitVec 32) : ~~~v ≠ v := by
  intro hc
  have := congrArg (·.getLsbD 0) hc
  simp at this

theorem sextImm_nonneg (hmsb : m.insn.imm.msb = false) : m.insn.imm.setWidth 64 = sextImm m.insn := by
  rw [sextImm, BitVec.signExtend_eq_setWidth_of_msb_false hmsb]

section

variable (h : isCondJmp m.insn.code = true) (hk : bpfSrc m.insn.code = bpfK)

include h hk

theorem jeqImm_necessary (heq : mbpfOp m = bpfJeq) (hw : isMbpfJmp64 m = true) (h10 : m.insn.dstReg = bpfReg10)
    (he : JumpExact m) : m.insn.imm.msb = true := by
  by_contra hmsb
  have hz := sextImm_nonneg (Bool.not_eq_true _ ▸ hmsb)
  obtain ⟨p, hp⟩ := he.at_frame 0 m.insn.imm (~~~sextImm m.insn) 0
  obtain ⟨x, ht, -⟩ := jeqImm_taken m (frameState 0 m.insn.imm (~~~sextImm m.insn) 0)
  have ha : (frameState 0 m.insn.imm (~~~sextImm m.insn) 0).a (gpr m.insn.dstReg) ≠ lo (sextImm m.insn) := by
    rw [h10, ← lo_pairA, frameState, (pair_scratch _ _ _).1, lo_not]
    exact not_ne _
  have hdst : frameRegs 0 m.insn.imm m.insn.dstReg = sextImm m.insn := by
    rw [frameRegs, if_pos h10, hz]
  have hfalse := (jeqImm_dispatch h hk heq hw).symm.trans hp
  rw [ht, beq_eq_false_iff_ne.mpr ha, hdst, jumpCond_eq h, if_pos hw, heq, operand_imm hk] at hfalse
  simp [jmpCond] at hfalse

theorem jneImm_zero_necessary (hne : mbpfOp m = bpfJne) (hz : m.insn.imm = 0) (h10 : m.insn.dstReg = bpfReg10) :
    ¬JumpExact m := by
  intro he
  have hs : sextImm m.insn = 0 := by rw [sextImm, hz]; decide
  obtain ⟨p, hp⟩ := he.at_frame 0 0 1 1
  have ha : (frameState 0 0 1 1).a (gpr m.insn.dstReg) ||| (frameState 0 0 1 1).b (gpr m.insn.dstReg + 1) = 1 := by
    rw [h10]; decide
  have hb : (frameState 0 0 1 1).b (gpr m.insn.dstReg) = 1 := by rw [h10]; decide
  have hdst : frameRegs 0 0 m.insn.dstReg = 0 := by rw [h10]; decide
  rw [jneImm_dispatch h hk hne, jneImm_zero_taken hs (jmp32_eq h), ha, hb, hdst, jumpCond_eq h, hne,
    operand_imm hk, hs] at hp
  revert hp
  cases isMbpfJmp64 m <;> decide

theorem imm_necessary (hn : m.jumpNegOp = false) (h10 : m.insn.dstReg = bpfReg10) (he : JumpExact m) :
    DstIrrelevant m.insn ∨ NeverEqual m.insn := by
  by_cases heq : mbpfOp m = bpfJeq ∧ isMbpfJmp64 m = true
  · refine .inr ⟨heq.1, by simpa [isMbpfJmp64, mbpfClass] using heq.2, ?_⟩
    exact BitVec.slt_zero_eq_msb.trans (jeqImm_necessary h hk heq.1 heq.2 h10 he)
  refine .inl fun v w => ?_
  have hne : ¬(mbpfOp m = bpfJne ∧ m.insn.imm = 0) :=
    fun hne => jneImm_zero_necessary h hk hne.1 hne.2 h10 he
  have key : ∀ u, jumpCond m.insn u 0 = jumpCond m.insn (frameRegs 0 0 m.insn.dstReg) 0 := by
    intro u
    obtain ⟨p, hp⟩ := he.at_frame 0 0 u 0
    rw [imm_taken h hk hn heq hne 0, h10, frameState, (pair_scratch _ _ _).1, jumpCond_imm h hk _ (frameRegs _ _ _)]
      at hp
    rw [h10]
    exact Option.some.inj hp
  rw [key v, key w]

end

abbrev small (b : Bool) : BitVec 64 := if b then 1 else 0

theorem jumpCond_small (h : isCondJmp m.insn.code = true) (hx : bpfSrc m.insn.code = bpfX) (a b : Bool) :
    jumpCond m.insn (small a) (small b) = jmpCond (mbpfOp m) (small a) (small b) := by
  have hall : ∀ op : BitVec 8, ∀ a b : Bool,
      jmpCond op (lo (small a)) (lo (small b)) = jmpCond op (small a) (small b) := by decide +kernel
  rw [jumpCond_eq h, operand_reg hx, hall, ite_self]

theorem jmpCond_depends : ∀ op : BitVec 8, condOps.contains op = true →
    (∃ b, jmpCond op (small false) (small b) ≠ jmpCond op (small true) (small b)) ∧
      (∃ a, jmpCond op (small a) (small false) ≠ jmpCond op (small a) (small true)) ∧
      ∃ a b, jmpCond op (small a) (small b) ≠ jmpCond op (small false) (small false) := by
  decide +kernel

theorem frameRegs_small (v : BitVec 64) (s : Bool) (r : Fin 16) :
    frameRegs v (lo (small s)) r = if r = bpfReg10 then small s else v := by
  cases s <;> rfl

theorem jeqReg_necessary (h : isCondJmp m.insn.code = true) (hx : bpfSrc m.insn.code = bpfX)
    (heq : mbpfOp m = bpfJeq) (h10 : m.insn.dstReg = bpfReg10 ∨ m.insn.srcReg = bpfReg10)
    (hd : m.insn.dstReg ≤ 10) (hs : m.insn.srcReg ≤ 10) : ¬JumpExact m := by
  intro he
  have hdst := fun x y => (frameState_pairs (small false) (lo (small false)) x y hd).1
  have hsrc := fun x y => (frameState_pairs (small false) (lo (small false)) x y hs).2
  have key : ∀ x y, pairA (frameState (small false) (lo (small false)) x y) (gpr m.insn.dstReg) = small true ∧
      pairB (frameState (small false) (lo (small false)) x y) (gpr m.insn.srcReg) = small false ∨
      pairA (frameState (small false) (lo (small false)) x y) (gpr m.insn.dstReg) = small false ∧
      pairB (frameState (small false) (lo (small false)) x y) (gpr m.insn.srcReg) = small true → False := by
    intro x y hxy
    obtain ⟨p, hp⟩ := he.at_frame (small false) (lo (small false)) x y
    have hne : (frameState (small false) (lo (small false)) x y).a (gpr m.insn.dstReg) ≠
        (frameState (small false) (lo (small false)) x y).b (gpr m.insn.srcReg) := by
      rw [← lo_pairA, ← lo_pairB]
      rcases hxy with ⟨h1, h2⟩ | ⟨h1, h2⟩ <;> rw [h1, h2] <;> decide
    rw [jeqReg_not_taken h hx heq hne, frameRegs_small, frameRegs_small, ite_self, ite_self,
      jumpCond_small h hx, heq] at hp
    cases hp
  by_cases hd10 : m.insn.dstReg = bpfReg10
  · refine key (small true) (small false) (.inl ⟨?_, ?_⟩)
    · rw [hdst, if_pos hd10]
    · rw [hsrc, ite_self]
  · refine key (small false) (small true) (.inr ⟨?_, ?_⟩)
    · rw [hdst, if_neg hd10]
    · rw [hsrc, if_pos (h10.resolve_left hd10)]

theorem reg_necessary (h : isCondJmp m.insn.code = true) (hx : bpfSrc m.insn.code = bpfX)
    (h10 : m.insn.dstReg = bpfReg10 ∨ m.insn.srcReg = bpfReg10)
    (hd : m.insn.dstReg ≤ 10) (hs : m.insn.srcReg ≤ 10) : ¬JumpExact m := by
  by_cases heq : mbpfOp m = bpfJeq
  · exact jeqReg_necessary h hx heq h10 hd hs
  intro he
  have hcond : condOps.contains (mbpfOp m) = true := by
    simp only [isCondJmp, Bool.and_eq_true] at h
    exact h.2
  obtain ⟨⟨b, hb⟩, ⟨a, ha⟩, ⟨c, d, hcd⟩⟩ := jmpCond_depends _ hcond
  obtain ⟨swap, hswap⟩ := reg_taken h hx heq
  have hpairs := fun v s x y => frameState_pairs v s x y hd
  have hpairs' := fun v s x y => frameState_pairs v s x y hs
  by_cases hd10 : m.insn.dstReg = bpfReg10
  · by_cases hs10 : m.insn.srcReg = bpfReg10
    · obtain ⟨p, hp⟩ := he.at_frame 0 (lo (small false)) (if swap then small d else small c)
        (if swap then small c else small d)
      simp only [hswap, hpairs, hpairs', frameRegs_small] at hp
      simp only [hd10, hs10, if_true] at hp
      apply hcd
      rw [← jumpCond_small h hx, ← jumpCond_small h hx, ← Option.some.inj hp]
      cases swap <;> rfl
    · obtain ⟨p, hp⟩ := he.at_frame (small b) (lo (small true)) (small false) (small false)
      simp only [hswap, hpairs, hpairs', frameRegs_small] at hp
      simp only [hd10, hs10, if_true, if_false, ite_self] at hp
      apply hb
      rw [← jumpCond_small h hx, ← jumpCond_small h hx]
      exact Option.some.inj hp
  · have hs10 := h10.resolve_left hd10
    obtain ⟨p, hp⟩ := he.at_frame (small a) (lo (small true)) (small false) (small false)
    simp only [hswap, hpairs, hpairs', frameRegs_small] at hp
    simp only [hd10, hs10, if_true, if_false, ite_self] at hp
    apply ha
    rw [← jumpCond_small h hx, ← jumpCond_small h hx]
    exact Option.some.inj hp

end Necessary

section Sufficient

variable {m : Meta} {p : Prog} {off : Nat} {st : State} {regs : Fin 16 → BitVec 64} (h : isCondJmp m.insn.code = true)
  (hk : bpfSrc m.insn.code = bpfK)

include h hk

theorem zero_imm_of_irrelevant (hirr : DstIrrelevant m.insn) :
    ¬(mbpfOp m = bpfJeq ∧ isMbpfJmp64 m = true) ∧ ¬(mbpfOp m = bpfJne ∧ m.insn.imm = 0) := by
  constructor
  · rintro ⟨heq, hw⟩
    have := hirr (sextImm m.insn) (~~~sextImm m.insn)
    rw [jumpCond_eq h, jumpCond_eq h, if_pos hw, if_pos hw, operand_imm hk, heq] at this
    have hne : (~~~sextImm m.insn == sextImm m.insn) = false := by
      rw [beq_eq_false_iff_ne]
      intro hc
      exact not_ne (lo (sextImm m.insn)) (by rw [← lo_not, hc])
    simp [jmpCond, hne] at this
  · rintro ⟨hne, hz⟩
    have hs : sextImm m.insn = 0 := by rw [sextImm, hz]; decide
    have := hirr 0 1
    rw [jumpCond_eq h, jumpCond_eq h, operand_imm hk, hs, hne] at this
    revert this
    cases isMbpfJmp64 m <;> decide

theorem irrelevant_exact (hn : m.jumpNegOp = false) (hirr : DstIrrelevant m.insn) : JumpExact m := by
  intro p off regs st _
  obtain ⟨heq, hne⟩ := zero_imm_of_irrelevant h hk hirr
  rw [imm_taken h hk hn heq hne 0, jumpCond_imm h hk (regs _), hirr]

theorem neverEqual_exact (h10 : m.insn.dstReg = bpfReg10) (hnev : NeverEqual m.insn) : JumpExact m := by
  intro p off regs st hh
  obtain ⟨heq, hcls, hneg⟩ := hnev
  have hw : isMbpfJmp64 m = true := by simpa [isMbpfJmp64, mbpfClass] using hcls
  have hmsb : m.insn.imm.msb = true := BitVec.slt_zero_eq_msb.symm.trans hneg
  have hhi : hi (sextImm m.insn) = BitVec.allOnes 32 := by rw [sextImm_hi, if_pos hmsb]
  have hhi0 : hi (sextImm m.insn) ≠ 0 := by rw [hhi]; decide
  have hlo0 : lo (sextImm m.insn) ≠ 0 := by
    intro hc
    rw [sextImm_lo] at hc
    rw [hc] at hmsb
    cases hmsb
  obtain ⟨x, ht, -, hx⟩ := jeqImm_taken m st
  have hfalse : (st.a (gpr m.insn.dstReg) == lo (sextImm m.insn) && x == 0) = false := by
    rw [hx h10 hlo0 hhi0, xor_eq_zero, Bool.and_eq_false_iff, or_iff_not_imp_left]
    intro he
    rw [Bool.not_eq_false, beq_iff_eq] at he
    rw [he, BitVec.xor_self, beq_eq_false_iff_ne]
    exact hhi0.symm
  have hregs : (regs m.insn.dstReg == sextImm m.insn) = false := by
    rw [beq_eq_false_iff_ne]
    intro hc
    apply hhi0
    rw [← hc, h10, hh.fp, hi_zext]
  rw [jeqImm_dispatch h hk heq hw, ht, hfalse, jumpCond_eq h, if_pos hw, operand_imm hk,
    show mbpfOp m = bpfJeq from heq]
  exact congrArg some hregs.symm

end Sufficient

theorem jump_exact_iff (m : Meta) (hc : isCondJmp m.insn.code = true) (hd : m.insn.dstReg ≤ 10)
    (hs : m.insn.srcReg ≤ 10) (hn : m.jumpNegOp = false) :
    (∀ p off regs st, Holds p regs st →
      jumpTaken p off m st = some (jumpCond m.insn (regs m.insn.dstReg) (regs m.insn.srcReg))) ↔
      OperandsKept m.insn ∨
        bpfSrc m.insn.code = bpfK ∧ (DstIrrelevant m.insn ∨ NeverEqual m.insn) := by
  constructor
  · intro he
    rcases src_K_or_X m.insn.code with hx | hk
    · refine .inl ?_
      by_contra hkept
      refine reg_necessary hc hx ?_ hd hs he
      by_contra h10
      rw [not_or] at h10
      exact hkept ⟨h10.1, fun _ => h10.2⟩
    · by_cases h10 : m.insn.dstReg = bpfReg10
      · exact .inr ⟨hk, imm_necessary hc hk hn h10 he⟩
      · refine .inl ⟨h10, fun hx => ?_⟩
        rw [hk] at hx
        cases hx
  · rintro (hkept | ⟨hk, hirr | hnev⟩)
    · intro p off regs st hh
      exact jump_sound hc hn (le_nine hd hkept.1) (fun hx => le_nine hs (hkept.2 hx)) hh
    · exact irrelevant_exact hc hk hn hirr
    · intro p off regs st hh
      by_cases h10 : m.insn.dstReg = bpfReg10
      · exact neverEqual_exact hc hk h10 hnev p off regs st hh
      · refine jump_sound hc hn (le_nine hd h10) (fun hx => ?_) hh
        rw [hk] at hx
        cases hx

def jsgtRegs : Meta := Meta.zero ⟨bpfJmp ||| bpfJsgt ||| bpfX, 1, 2, 5, 0⟩ 0

theorem jsgtRegs_exact : isCondJmp jsgtRegs.insn.code = true ∧ JumpExact jsgtRegs :=
  ⟨by decide, (jump_exact_iff jsgtRegs (by decide) (by decide) (by decide) rfl).mpr
    (.inl ⟨by decide, fun _ => by decide⟩)⟩

def jeqFramePointer : Meta := Meta.zero ⟨bpfJmp ||| bpfJeq ||| bpfK, 10, 0, 5, 64⟩ 0

theorem jeqFramePointer_not_taken :
    Holds (withDepth 64) (frameRegs 0 64) (frameState 0 64 0 0) ∧
      jumpTaken (withDepth 64) 0 jeqFramePointer (frameState 0 64 0 0) = some false ∧
      jumpCond jeqFramePointer.insn (frameRegs 0 64 10) (frameRegs 0 64 0) = true :=
  ⟨holds_stateOf (frameRegs 0 64) (pairScratch 0) (pairScratch 0) 64 rfl, by decide +kernel, by decide⟩

end NfpDriver.Lower
