import NfpDriver.Lower.AluExact
import NfpDriver.Lower.JumpExact

namespace NfpDriver.Lower

open Asm Adder Jit Bpf Machine List

abbrev negJumpOps : List (BitVec 8) := [bpfJge, bpfJsge, bpfJlt, bpfJslt]

local instance opcodes : LawfulBEq (BitVec 8) := inferInstance

def negAddSub (m : Meta) : Meta :=
  if m.hasFlag flagInsnSkipMask then m
  else if !isMbpfAlu m && !isMbpfJmp m then m
  else if bpfSrc m.insn.code ≠ bpfK then m
  else if m.insn.imm.slt 0 = false then m
  else if isMbpfJmp m then
    if bpfOp m.insn.code ∈ negJumpOps then
      { m with jumpNegOp := true, insn := { m.insn with imm := -m.insn.imm } }
    else m
  else if bpfOp m.insn.code = bpfAdd then
    { m with insn := { m.insn with code := bpfClass m.insn.code ||| bpfSub ||| bpfK, imm := -m.insn.imm } }
  else if bpfOp m.insn.code = bpfSub then
    { m with insn := { m.insn with code := bpfClass m.insn.code ||| bpfAdd ||| bpfK, imm := -m.insn.imm } }
  else m

def nfpBpfOptNegAddSub (insns : List Meta) : List Meta := insns.map negAddSub

def sumTest (mask : BrMask) {w : Nat} (r : Result w) : Bool :=
  match mask with
  | .blo => !r.carry
  | .bhs => r.carry
  | .blt => r.sum.msb != r.overflow
  | .bge => r.sum.msb == r.overflow
  | _ => false

variable {mask : BrMask} {st : State} {w : Nat} {m : Meta} {op code : BitVec 8}

theorem test_flags {r : Result w} (hc : st.c = r.carry) (hn : st.n = r.sum.msb) (hv : st.v = r.overflow)
    (hm : mask ∈ cmpMasks) : st.test mask = sumTest mask r := by
  simp only [mem_cons, not_mem_nil, or_false] at hm
  rcases hm with rfl | rfl | rfl | rfl <;> simp only [State.test, sumTest, hc, hn, hv]

theorem test_add (st : State) (x y : BitVec 32) (hm : mask ∈ cmpMasks) :
    (st.aluTo regNone .add x y).test mask = sumTest mask (adc x y false) :=
  test_flags rfl rfl rfl hm

theorem test_addC {x y : BitVec 64} (hc : st.c = (adc (lo x) (lo y) false).carry) (hm : mask ∈ cmpMasks) :
    (st.aluTo regNone .addC (hi x) (hi y)).test mask = sumTest mask (adc x y false) := by
  have hsum := (adc_halves_sum x y false).2
  have hcar := adc_halves_carry x y false
  have hov := adc_halves_overflow x y false
  rw [← hc] at hsum hcar hov
  apply test_flags _ _ _ hm
  · exact hcar
  · rw [← hi_msb, hsum]
    rfl
  · exact hov

theorem sumTest_neg (hw : 0 < w) (hm : mask ∈ cmpMasks) {y : BitVec w} (hy : y ≠ 0)
    (hs : mask = .blt ∨ mask = .bge → y ≠ BitVec.intMin w) (x : BitVec w) :
    sumTest mask (adc x (-y) false) = cmpTest mask x y := by
  simp only [mem_cons, not_mem_nil, or_false] at hm
  rcases hm with rfl | rfl | rfl | rfl
  · simp only [sumTest, cmpTest, add_neg_carry hy, Bool.not_not]
  · simp only [sumTest, cmpTest, add_neg_carry hy]
  · simp only [sumTest, cmpTest, add_neg_less hw (hs (.inl rfl))]
  · rw [sumTest, cmpTest, ← add_neg_less hw (hs (.inr rfl)), bne, Bool.not_not]

def negMask (op : BitVec 8) : BrMask :=
  if op = bpfJge then .bhs else if op = bpfJsge then .bge else if op = bpfJlt then .blo else .blt

theorem nfpJmpCodeGet_neg (h : mbpfOp m ∈ negJumpOps) :
    nfpJmpCodeGet m = some ⟨negMask (mbpfOp m), false⟩ ∧ negMask (mbpfOp m) ∈ cmpMasks := by
  simp only [nfpJmpCodeGet]
  generalize mbpfOp m = op at h ⊢
  revert op
  decide

theorem jmpCond_neg (h : op ∈ negJumpOps) (x y : BitVec w) : jmpCond op x y = cmpTest (negMask op) x y := by
  simp only [mem_cons, not_mem_nil, or_false] at h
  rcases h with rfl | rfl | rfl | rfl <;> rfl

theorem cmpImm_neg_taken (h : mbpfOp m ∈ negJumpOps) (hn : m.jumpNegOp = true) :
    taken (cmpImm m).code st = some
      (if isMbpfJmp64 m then
        sumTest (negMask (mbpfOp m)) (adc (pairA st (gpr m.insn.dstReg)) (sextImm m.insn) false)
      else sumTest (negMask (mbpfOp m)) (adc (st.a (gpr m.insn.dstReg)) m.insn.imm false)) := by
  obtain ⟨hcode, hmask⟩ := nfpJmpCodeGet_neg h
  have hlt := gpr_lt m.insn.dstReg
  have h1 := runs_cmpOperands false .add (lo (sextImm m.insn)) hlt.1 st
  have h2 := h1.append (runs_cmpOperands false .addC (hi (sextImm m.insn)) hlt.2 _)
  simp only [cmpImm, hcode, hn, ok]
  cases isMbpfJmp64 m with
  | false =>
    simp only [Bool.false_eq_true, if_false, if_true, append_nil]
    rw [taken_branch h1, ← sextImm_lo]
    exact congrArg some (test_add _ _ _ hmask)
  | true =>
    simp only [if_true]
    rw [taken_branch h2, aluTo_none_a, loadImm_a, ← hi_pairA]
    have hx := lo_pairA st (gpr m.insn.dstReg)
    exact congrArg some (test_addC (by rw [loadImm_c, hx]; rfl) hmask)

def isNegAlu (code : BitVec 8) : Bool :=
  bpfSrc code == bpfK && (bpfClass code == bpfAlu64 || bpfClass code == bpfAlu) &&
    (bpfOp code == bpfAdd || bpfOp code == bpfSub)

def isNegJump (code : BitVec 8) : Bool :=
  bpfSrc code == bpfK && (bpfClass code == bpfJmp || bpfClass code == bpfJmp32) && negJumpOps.contains (bpfOp code)

def flipCode (code : BitVec 8) : BitVec 8 :=
  bpfClass code ||| (if bpfOp code = bpfAdd then bpfSub else bpfAdd) ||| bpfK

def negAlu (m : Meta) : Meta :=
  { m with insn := { m.insn with code := flipCode m.insn.code, imm := -m.insn.imm } }

def negJump (m : Meta) : Meta :=
  { m with jumpNegOp := true, insn := { m.insn with imm := -m.insn.imm } }

theorem negAddSub_keep (h : m.hasFlag flagInsnSkipMask = true ∨ m.insn.imm.slt 0 = false) : negAddSub m = m := by
  rw [negAddSub]
  rcases h with h | h
  · rw [if_pos h]
  split
  · rfl
  split
  · rfl
  split <;> rfl

theorem isNegAlu_facts (h : isNegAlu code = true) :
    bpfSrc code = bpfK ∧ isRegAlu code = true ∧ bpfOp code ∈ pairOps ∧
      (bpfOp code = bpfAdd ∧ bpfOp (flipCode code) = bpfSub ∨ bpfOp code = bpfSub ∧ bpfOp (flipCode code) = bpfAdd) ∧
      isRegAlu (flipCode code) = true ∧ bpfSrc (flipCode code) = bpfK ∧ bpfOp (flipCode code) ∈ pairOps ∧
      bpfClass (flipCode code) = bpfClass code := by
  revert code
  decide +kernel

theorem isNegJump_facts (h : isNegJump code = true) :
    bpfSrc code = bpfK ∧ isCondJmp code = true ∧ bpfOp code ∈ negJumpOps ∧ bpfOp code ∈ orderOps := by
  revert code
  decide +kernel

theorem isMbpfAlu_of_neg (h : isNegAlu m.insn.code = true) : isMbpfAlu m = true ∧ isMbpfJmp m = false := by
  rcases (isRegAlu_cases (isNegAlu_facts h).2.1).1 with hc | hc <;>
    simp only [isMbpfAlu, isMbpfJmp, isMbpfJmp32, isMbpfJmp64, mbpfClass, hc] <;> decide

theorem isMbpfJmp_of_neg (h : isNegJump m.insn.code = true) : isMbpfAlu m = false ∧ isMbpfJmp m = true := by
  rcases (isCondJmp_cases (isNegJump_facts h).2.1).1 with hc | hc <;>
    simp only [isMbpfAlu, isMbpfJmp, isMbpfJmp32, isMbpfJmp64, mbpfClass, hc] <;> decide

section Rewrite

variable {m : Meta} (hf : m.hasFlag flagInsnSkipMask = false) (hi : m.insn.imm.slt 0 = true)

include hf hi

theorem negAddSub_alu (h : isNegAlu m.insn.code = true) : negAddSub m = negAlu m := by
  obtain ⟨ha, hj⟩ := isMbpfAlu_of_neg h
  obtain ⟨hk, -, -, hop, -⟩ := isNegAlu_facts h
  rw [negAddSub, hf, if_neg Bool.false_ne_true, ha, hj, if_neg (by decide), if_neg (not_not.mpr hk),
    if_neg (by rw [hi]; decide), if_neg Bool.false_ne_true, negAlu, flipCode]
  rcases hop with ⟨hop, -⟩ | ⟨hop, -⟩ <;> rw [hop] <;> rfl

theorem negAddSub_jump (h : isNegJump m.insn.code = true) : negAddSub m = negJump m := by
  obtain ⟨ha, hj⟩ := isMbpfJmp_of_neg h
  obtain ⟨hk, -, hop, -⟩ := isNegJump_facts h
  rw [negAddSub, hf, if_neg Bool.false_ne_true, ha, hj, if_neg (by decide), if_neg (not_not.mpr hk),
    if_neg (by rw [hi]; decide), if_pos rfl, if_pos hop]
  rfl

end Rewrite

theorem AluExact.of_negAlu (h : isNegAlu m.insn.code = true) {st' : State} {v : BitVec 64}
    (he : AluExact (negAlu m) st st' v) : AluExact m st st' v where
  low := he.low
  full hw := by
    refine he.full ?_
    rcases hw with hw | hw | hw
    · exact .inl ((isNegAlu_facts h).2.2.2.2.2.2.2.trans hw)
    · exact .inr (.inl hw)
    · exact absurd hw (pairOps_not_end (isNegAlu_facts h).2.2.1).2
  frame := he.frame
  stack := he.stack

theorem aluOp_flip {op' : BitVec 8} (h : op = bpfAdd ∧ op' = bpfSub ∨ op = bpfSub ∧ op' = bpfAdd) (x y : BitVec w) :
    aluOp op' x (-y) = aluOp op x y := by
  rcases h with ⟨rfl, rfl⟩ | ⟨rfl, rfl⟩
  · exact (BitVec.sub_eq_add_neg _ _).trans (congrArg _ BitVec.neg_neg)
  · exact (BitVec.sub_eq_add_neg _ _).symm

theorem aluValue_negAlu (h : isNegAlu m.insn.code = true)
    (hs : m.insn.imm ≠ BitVec.intMin 32 ∨ bpfClass m.insn.code ≠ bpfAlu64) (x y : BitVec 64) :
    aluValue (negAlu m).insn x y = aluValue m.insn x y := by
  obtain ⟨hk, -, hop, hflip, -, hk', hop', hcls⟩ := isNegAlu_facts h
  have he : mbpfOp m ≠ bpfEnd := (pairOps_not_end hop).1
  have he' : mbpfOp (negAlu m) ≠ bpfEnd := (pairOps_not_end hop').1
  have hk'' : bpfSrc (negAlu m).insn.code = bpfK := hk'
  by_cases hc : bpfClass m.insn.code = bpfAlu64
  · have hsext : sextImm (negAlu m).insn = -sextImm m.insn :=
      BitVec.signExtend_neg_of_ne_intMin _ (hs.resolve_right (not_not.mpr hc))
    rw [aluValue_wide (m := negAlu m) (hcls.trans hc) he', aluValue_wide hc he, operand_imm hk'', operand_imm hk, hsext]
    exact aluOp_flip hflip _ _
  · have hlo : lo (sextImm (negAlu m).insn) = -lo (sextImm m.insn) := by rw [sextImm_lo, sextImm_lo]; rfl
    rw [aluValue_narrow (m := negAlu m) (fun hh => hc (hcls.symm.trans hh)) he', aluValue_narrow hc he,
      operand_imm hk'', operand_imm hk, hlo]
    exact congrArg (BitVec.setWidth 64) (aluOp_flip hflip _ _)

def AluPreserved (m m' : Meta) : Prop := ∀ p off regs st, Holds p regs st →
  ∃ st', aluRun p off m' st = some (false, st') ∧
    AluExact m st st' (aluValue m.insn (regs m.insn.dstReg) (regs m.insn.srcReg))

def JumpPreserved (m m' : Meta) : Prop := ∀ p off regs st, Holds p regs st →
  jumpTaken p off m' st = some (jumpCond m.insn (regs m.insn.dstReg) (regs m.insn.srcReg))

def NegSafe (m : Meta) : Prop :=
  m.hasFlag flagInsnSkipMask = true ∨ m.insn.imm ≠ BitVec.intMin 32 ∨ bpfClass m.insn.code = bpfAlu ∨
    bpfClass m.insn.code = bpfJmp32 ∧ (bpfOp m.insn.code = bpfJge ∨ bpfOp m.insn.code = bpfJlt)

theorem intMin_neg : (BitVec.intMin 32).slt 0 = true := by decide

section Alu

variable {m : Meta} (h : isNegAlu m.insn.code = true) (hd : m.insn.dstReg ≤ 9)

include h hd

theorem negAlu_sound {p : Prog} (off : Nat) {regs : Fin 16 → BitVec 64} (hh : Holds p regs st) :
    Lowers p off (negAlu m) st fun st' =>
      AluExact m st st' (aluValue (negAlu m).insn (regs m.insn.dstReg) (regs m.insn.srcReg)) := by
  obtain ⟨-, -, -, -, hreg, hk, hop, -⟩ := isNegAlu_facts h
  refine (pair_sound (m := negAlu m) hd hh hreg hop fun hx => ?_).mono fun st' he => he.of_negAlu h
  cases hx.symm.trans hk

theorem aluPreserved_of_safe (hs : m.hasFlag flagInsnSkipMask = true ∨ m.insn.imm ≠ BitVec.intMin 32 ∨
    bpfClass m.insn.code ≠ bpfAlu64) : AluPreserved m (negAddSub m) := by
  intro p off regs st hh
  obtain ⟨hk, hreg, hop, -⟩ := isNegAlu_facts h
  by_cases hkeep : m.hasFlag flagInsnSkipMask = true ∨ m.insn.imm.slt 0 = false
  · rw [negAddSub_keep hkeep]
    refine (pair_sound hd hh hreg hop fun hx => ?_).run
    cases hx.symm.trans hk
  · rw [not_or, Bool.not_eq_true, Bool.not_eq_false] at hkeep
    rw [negAddSub_alu hkeep.1 hkeep.2 h, ← aluValue_negAlu h (hs.resolve_left (by rw [hkeep.1]; decide))]
    exact (negAlu_sound h hd off hh).run

theorem safe_of_aluPreserved (he : AluPreserved m (negAddSub m)) :
    m.hasFlag flagInsnSkipMask = true ∨ m.insn.imm ≠ BitVec.intMin 32 ∨ bpfClass m.insn.code ≠ bpfAlu64 := by
  by_contra hno
  rw [not_or, not_or, Bool.not_eq_true, not_not, not_not] at hno
  obtain ⟨hf, himm, hc⟩ := hno
  obtain ⟨hk, -, hop, hflip, -, hk', hop', hcls⟩ := isNegAlu_facts h
  have hh := holds_stateOf (frameRegs 0 0) (pairScratch 0) (pairScratch 0) 0 rfl
  obtain ⟨st', hr, hex⟩ := he _ 0 _ _ hh
  obtain ⟨st'', hr', hex'⟩ := (negAlu_sound h hd 0 hh).run
  rw [negAddSub_alu hf (by rw [himm]; exact intMin_neg) h] at hr
  have hst : st' = st'' := congrArg Prod.snd (Option.some.inj (hr.symm.trans hr'))
  have hv := (hex.full (.inl hc)).1
  rw [hst, (hex'.full (.inl hc)).1] at hv
  have h0 : frameRegs 0 0 m.insn.dstReg = 0 := ite_self _
  rw [aluValue_wide (m := negAlu m) (hcls.trans hc) (pairOps_not_end hop').1,
    aluValue_wide hc (pairOps_not_end hop).1, operand_imm (m := negAlu m) hk', operand_imm hk, h0,
    sextImm, sextImm, show (negAlu m).insn.imm = -m.insn.imm from rfl, himm] at hv
  rcases hflip with ⟨h1, h2⟩ | ⟨h1, h2⟩
  · rw [show mbpfOp m = bpfAdd from h1, show mbpfOp (negAlu m) = bpfSub from h2] at hv
    cases hv
  · rw [show mbpfOp m = bpfSub from h1, show mbpfOp (negAlu m) = bpfAdd from h2] at hv
    cases hv

end Alu

section Jump

variable {m : Meta} {p : Prog} {off : Nat} {st : State} (h : isNegJump m.insn.code = true)

include h

theorem negJump_taken : jumpTaken p off (negJump m) st = some
    (if isMbpfJmp64 m then
      sumTest (negMask (mbpfOp m)) (adc (pairA st (gpr m.insn.dstReg)) (sextImm (negJump m).insn) false)
    else sumTest (negMask (mbpfOp m)) (adc (st.a (gpr m.insn.dstReg)) (-m.insn.imm) false)) := by
  obtain ⟨hk, hc, hop, hord⟩ := isNegJump_facts h
  have hx : ¬bpfSrc (negJump m).insn.code = bpfX := by
    rw [show bpfSrc (negJump m).insn.code = bpfK from hk]
    decide
  rw [jumpTaken_order (m := negJump m) hc hord, if_neg hx]
  exact cmpImm_neg_taken (m := negJump m) hop rfl

theorem negJump_exact (hi : m.insn.imm.slt 0 = true) (hs : m.insn.imm ≠ BitVec.intMin 32 ∨
    bpfClass m.insn.code = bpfJmp32 ∧ (bpfOp m.insn.code = bpfJge ∨ bpfOp m.insn.code = bpfJlt)) (y : BitVec 64) :
    jumpTaken p off (negJump m) st = some (jumpCond m.insn (pairA st (gpr m.insn.dstReg)) y) := by
  obtain ⟨hk, hc, hop, -⟩ := isNegJump_facts h
  have hop' : mbpfOp m ∈ negJumpOps := hop
  have hmask := (nfpJmpCodeGet_neg hop').2
  have hne : m.insn.imm ≠ 0 := by
    intro hz
    rw [hz] at hi
    cases hi
  rw [negJump_taken h, jumpCond_eq hc, operand_imm hk, lo_pairA, sextImm_lo, jmpCond_neg hop', jmpCond_neg hop']
  refine congrArg some ?_
  cases hw : isMbpfJmp64 m with
  | true =>
    have hcls : bpfClass m.insn.code = bpfJmp := by simpa [isMbpfJmp64, mbpfClass] using hw
    have hmin : m.insn.imm ≠ BitVec.intMin 32 := by
      refine hs.resolve_right fun h32 => ?_
      cases hcls.symm.trans h32.1
    have hlo : sextImm m.insn ≠ BitVec.intMin 64 := by
      intro hc
      apply hne
      rw [← sextImm_lo, hc]
      decide
    rw [if_pos rfl, if_pos rfl,
      show sextImm (negJump m).insn = -sextImm m.insn from BitVec.signExtend_neg_of_ne_intMin _ hmin]
    exact sumTest_neg (by decide) hmask (sextImm_ne_zero hne) (fun _ => hlo) _
  | false =>
    refine sumTest_neg (by decide) hmask hne (fun hsigned => hs.resolve_right fun h32 => ?_) _
    rcases h32.2 with ho | ho <;> rw [show mbpfOp m = _ from ho] at hsigned <;> exact absurd hsigned (by decide)

theorem safe_exact (hn : m.jumpNegOp = false) (hs : NegSafe m) (y : BitVec 64) :
    jumpTaken p off (negAddSub m) st = some (jumpCond m.insn (pairA st (gpr m.insn.dstReg)) y) := by
  obtain ⟨hk, hc, hop, -⟩ := isNegJump_facts h
  by_cases hkeep : m.hasFlag flagInsnSkipMask = true ∨ m.insn.imm.slt 0 = false
  · rw [negAddSub_keep hkeep]
    have hne : mbpfOp m ≠ bpfJeq ∧ mbpfOp m ≠ bpfJne := by
      rw [mbpfOp]
      revert hop
      generalize bpfOp m.insn.code = op
      revert op
      decide
    exact imm_taken hc hk hn (fun hh => hne.1 hh.1) (fun hh => hne.2 hh.1) y
  · rw [not_or, Bool.not_eq_true, Bool.not_eq_false] at hkeep
    rw [negAddSub_jump hkeep.1 hkeep.2 h]
    refine negJump_exact h hkeep.2 ?_ y
    rcases hs with hs | hs | hs | hs
    · cases hkeep.1.symm.trans hs
    · exact .inl hs
    · rcases (isCondJmp_cases hc).1 with hcls | hcls <;> cases hcls.symm.trans hs
    · exact .inr hs

def jumpProbe (op : BitVec 8) : BitVec 64 := if op = bpfJge ∨ op = bpfJlt then 0x80000000 else 0

omit h in
theorem jumpProbe_hi (op : BitVec 8) : hi (jumpProbe op) = 0 := by
  rw [jumpProbe]
  split <;> decide

theorem safe_of_jumpPreserved (hd : m.insn.dstReg ≤ 10) (he : JumpPreserved m (negAddSub m)) : NegSafe m := by
  by_contra hno
  simp only [NegSafe, not_or, not_and, Bool.not_eq_true, not_not] at hno
  obtain ⟨hf, himm, -, h32⟩ := hno
  obtain ⟨hk, hc, hop, -⟩ := isNegJump_facts h
  have hh := holds_stateOf (frameRegs (jumpProbe (mbpfOp m)) (lo (jumpProbe (mbpfOp m))))
    (pairScratch (jumpProbe (mbpfOp m))) (pairScratch 0) _ rfl
  have ht := he _ 0 _ _ hh
  have hp := (frameState_pairs (jumpProbe (mbpfOp m)) (lo (jumpProbe (mbpfOp m))) (jumpProbe (mbpfOp m)) 0 hd).1
  rw [ite_self, frameState] at hp
  have hr : frameRegs (jumpProbe (mbpfOp m)) (lo (jumpProbe (mbpfOp m))) m.insn.dstReg = jumpProbe (mbpfOp m) := by
    rw [frameRegs]
    split
    · exact zext_lo (jumpProbe_hi _)
    · rfl
  rw [negAddSub_jump hf (by rw [himm]; exact intMin_neg) h, negJump_taken h, jumpCond_eq hc, operand_imm hk,
    ← lo_pairA, hp, hr, sextImm, sextImm, show (negJump m).insn.imm = -m.insn.imm from rfl, himm] at ht
  have hop' : mbpfOp m ∈ negJumpOps := hop
  cases hw : isMbpfJmp64 m with
  | true =>
    rw [hw] at ht
    revert ht
    generalize mbpfOp m = op at hop'
    revert op
    decide
  | false =>
    have hcls : bpfClass m.insn.code = bpfJmp32 := by simpa [hw, isMbpfJmp32, mbpfClass] using jmp32_eq hc
    have hsigned : ¬(mbpfOp m = bpfJge ∨ mbpfOp m = bpfJlt) := not_or.mpr (h32 hcls)
    rw [hw] at ht
    revert ht hsigned
    generalize mbpfOp m = op at hop'
    revert op
    decide

theorem jumpPreserved_iff (hn : m.jumpNegOp = false) (hd : m.insn.dstReg ≤ 10) :
    JumpPreserved m (negAddSub m) ↔ NegSafe m ∧ (m.insn.dstReg ≠ bpfReg10 ∨ DstIrrelevant m.insn) := by
  obtain ⟨hk, hc, -, -⟩ := isNegJump_facts h
  constructor
  · intro he
    have hs := safe_of_jumpPreserved h hd he
    refine ⟨hs, ?_⟩
    by_cases h10 : m.insn.dstReg = bpfReg10
    · have hall : ∀ v, jumpCond m.insn v 0 = jumpCond m.insn 0 0 := by
        intro v
        have ht := he _ 0 _ _ (holds_stateOf (frameRegs 0 0) (pairScratch v) (pairScratch 0) 0 rfl)
        have hp := (frameState_pairs 0 0 v 0 hd).1
        rw [if_pos h10, frameState] at hp
        rw [safe_exact h hn hs 0, hp, jumpCond_imm hc hk (frameRegs 0 0 m.insn.dstReg)] at ht
        exact (Option.some.inj ht).trans (congrArg (jumpCond m.insn · 0) (ite_self _))
      exact .inr fun v w => (hall v).trans (hall w).symm
    · exact .inl h10
  · rintro ⟨hs, hdst⟩ p off regs st hh
    rw [safe_exact h hn hs (regs m.insn.srcReg)]
    rcases hdst with h10 | hirr
    · rw [hh.a _ (le_nine hd h10)]
    · rw [jumpCond_imm hc hk, jumpCond_imm hc hk (regs m.insn.dstReg), hirr]

end Jump

def Preserved (m m' : Meta) : Prop :=
  (isMbpfAlu m = true → AluPreserved m m') ∧ (isMbpfJmp m = true → JumpPreserved m m')

theorem neg_add_sub_preserves_iff (insns : List Meta) (k : Nat) (m : Meta) (hm : insns[k]? = some m)
    (hc : isNegAlu m.insn.code = true ∧ m.insn.dstReg ≤ 9 ∨ isNegJump m.insn.code = true ∧ m.insn.dstReg ≤ 10)
    (hn : m.jumpNegOp = false) :
    (∃ m', (nfpBpfOptNegAddSub insns)[k]? = some m' ∧ Preserved m m') ↔
      NegSafe m ∧ (isMbpfJmp m = true → m.insn.dstReg ≠ bpfReg10 ∨ DstIrrelevant m.insn) := by
  have hget : (nfpBpfOptNegAddSub insns)[k]? = some (negAddSub m) := by
    rw [nfpBpfOptNegAddSub, getElem?_map, hm]
    rfl
  simp only [hget, Option.some.injEq, exists_eq_left', Preserved]
  rcases hc with ⟨h, hd⟩ | ⟨h, hd⟩
  · obtain ⟨ha, hj⟩ := isMbpfAlu_of_neg h
    have hcls := (isRegAlu_cases (isNegAlu_facts h).2.1).1
    have hsafe : NegSafe m ↔ m.hasFlag flagInsnSkipMask = true ∨ m.insn.imm ≠ BitVec.intMin 32 ∨
        bpfClass m.insn.code ≠ bpfAlu64 := by
      rw [NegSafe]
      rcases hcls with hcls | hcls <;> simp [hcls]
    rw [hsafe]
    simp only [ha, hj, forall_const, Bool.false_eq_true, false_implies, and_true]
    exact ⟨safe_of_aluPreserved h hd, aluPreserved_of_safe h hd⟩
  · obtain ⟨ha, hj⟩ := isMbpfJmp_of_neg h
    simp only [ha, hj, forall_const, Bool.false_eq_true, false_implies, true_and]
    exact jumpPreserved_iff h hn hd

def addNegative : Meta := Meta.zero ⟨bpfAlu64 ||| bpfAdd ||| bpfK, 1, 0, 0, -5⟩ 0

theorem addNegative_preserved : addNegative.insn.imm.slt 0 = true ∧
    ∃ m', (nfpBpfOptNegAddSub [addNegative])[0]? = some m' ∧ Preserved addNegative m' :=
  ⟨by decide, (neg_add_sub_preserves_iff [addNegative] 0 addNegative rfl (.inl ⟨by decide, by decide⟩) rfl).mpr
    ⟨.inr (.inl (by decide)), fun h => absurd h (by decide)⟩⟩

def addIntMin : Meta := Meta.zero ⟨bpfAlu64 ||| bpfAdd ||| bpfK, 1, 0, 0, BitVec.intMin 32⟩ 0

theorem addIntMin_differs :
    Holds (withDepth 0) (frameRegs 0 0) (frameState 0 0 0 0) ∧
      ((nfpBpfOptNegAddSub [addIntMin])[0]?.bind fun m' =>
        aluRun (withDepth 0) 0 m' (frameState 0 0 0 0)).map (fun r => pairA r.2 (gpr 1)) = some 0x80000000 ∧
      aluValue addIntMin.insn (frameRegs 0 0 1) (frameRegs 0 0 0) = 0xffffffff80000000 :=
  ⟨holds_stateOf (frameRegs 0 0) (pairScratch 0) (pairScratch 0) 0 rfl, by decide +kernel, by decide⟩

end NfpDriver.Lower
