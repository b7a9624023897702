import NfpDriver.Lower.CopyExact
import NfpDriver.Machine.Issue
import NfpDriver.Jit.Access

namespace NfpDriver.Lower

open Asm Adder Jit Bpf Machine Engine Function List

def mapBase (e : Engine) (r : Fin 16) : BitVec 40 := (pairA e.core (gpr r)).setWidth 40

def emitted (off : BitVec 16) : BitVec 40 := (sext16 off).setWidth 40

theorem emitted_eq_iff (off : BitVec 16) : emitted off = off.signExtend 40 ↔ 0 ≤ off.toInt := by
  rw [nonneg_iff, ← BitVec.toNat_inj, emitted, BitVec.toNat_setWidth, sext16, sext_toNat (by decide),
    sext_toNat (by decide)]
  cases off.msb with
  | false | true => simp; omega

variable {base : Nat} {e'' : Engine}

section Loads

variable {e : Engine} {m : Meta}

theorem near_rest (m : Meta) (dst : BitVec 16) (size : Nat) :
    Near (if size < 4 then
      emitLdFieldAny (regBoth dst) (BitVec.ofNat 8 (2 ^ size - 1)) (regXfer 0) .none 0 true ++ wrpZext m dst
    else movLoaded dst ((size + 3) / 4) ++ if (size + 3) / 4 < 2 then wrpZext m dst else []) := by
  split
  · exact ((plain_emitLdFieldAny ..).append (plain_wrpZext ..)).near
  refine (Near.flatMap _ fun _ => (plain_wrpMov ..).near).append ?_
  split
  · exact (plain_wrpZext ..).near
  · exact Plain.nil.near

theorem plain_addr40Offset (g : BitVec 16) (o : Swreg) : Plain (addr40Offset g o).1 := by
  rw [addr40Offset]
  split
  · exact .nil
  · exact (plain_emitAlu ..).append (plain_emitAlu ..)

theorem issues_far {code : List Op} {pc : Nat} {rest : Code} {r : Fin 16} (hr : r ≤ 9) (hp : Agree e.core r)
    (off : BitVec 16) (size : BitVec 8) (indir : Bool) (count : Code) (hcount : Plain count)
    (hdoes : ∀ e₁, ∃ e₂, Does count e₁ e₂ ∧ e₂.core = e₁.core)
    (hat : At code base pc (ops ((reLoadImmAny (sext16 off) immB).1 ++
      (addr40Offset (gpr r) (reLoadImmAny (sext16 off) immB).2).1 ++ count ++
      emitCmdAny .read32Swap .b40Ba 0 (addr40Offset (gpr r) (reLoadImmAny (sext16 off) immB).2).2.1
        (addr40Offset (gpr r) (reLoadImmAny (sext16 off) immB).2).2.2 size .swap indir ++ rest))) (hrest : Near rest) :
    Issues code base pc e [mapBase e r + emitted off] := by
  have hg := far_gpr hr
  obtain ⟨e₁, h1, hq1, ho, hv⟩ := does_reLoad (sext16 off) e
  obtain ⟨e₂, ga, h2, hq2, hbase, hga, ho2, haddr⟩ := does_addr40 hg ho e₁
  obtain ⟨e3, h3, hcore⟩ := hdoes e₂
  have haddr' : (e3.core.src (addr40Offset (gpr r) (reLoadImmAny (sext16 off) immB).2).2.2 ++
      e3.core.a ga).setWidth 40 = mapBase e r + emitted off := by
    rw [hcore, haddr, hv, hq1.a _ hg.lowTemp, hq1.b _ hg.highTemp, ← hp.hi]
    rfl
  rw [hbase] at hat
  simp only [ops_append, append_assoc] at hat
  have hat1 := hat.skip
  have hat2 := hat1.skip
  have hat3 := hat2.skip
  refine issues_does hat (plain_reLoadImmAny ..) h1 (issues_does hat1 (plain_addr40Offset ..) h2
    (issues_does hat2 hcount h3 ?_))
  rw [← haddr']
  refine issues_command hga ho2 _ _ _ _ _ hat3 fun e' => ?_
  have hat4 := hat3.skip
  obtain ⟨areg, breg, hcode, -⟩ := ops_emitCmd hga ho2 .read32Swap .b40Ba 0 size .swap indir
  rw [hcode] at hat4
  exact issues_near hat4 hrest

theorem issues_load (hr : m.insn.srcReg ≤ 9) (hp : Agree e.core m.insn.srcReg) (size : Nat) :
    addresses (ops (memLdxEmem m size).code) base e = [mapBase e m.insn.srcReg + emitted m.insn.off] := by
  refine (issues_far hr hp m.insn.off (BitVec.ofNat 8 (max size 4 / 4 - 1)) false [] .nil (fun e1 => ⟨e1, .nil e1, rfl⟩)
    (At.start ?_ base) (near_rest m (gpr m.insn.dstReg) size)).addresses
  simp [memLdxEmem, dataLdHostOrderAddr40, dataLdHostOrder, emitCmd, ok]

theorem near_cppWriteBack (st : Insn) (len : Nat) (xferNum : BitVec 8) : Near (cppWriteBack st len xferNum) := by
  have hlen : ∀ v, Near (setPrevAluLen v) := fun v => (plain_wrpImmed ..).near
  refine (plain_reLoadImmAny ..).near.append ?_
  split
  · exact near_emitCmdAny ..
  split
  · exact near_emitCmdAny ..
  split
  · exact (hlen _).append (near_emitCmdAny ..)
  split
  · exact (hlen _).append (near_emitCmdAny ..)
  split
  · exact ((near_emitCmdAny ..).append (plain_reLoadImmAny ..).near).append (near_emitCmdAny ..)
  · exact (((hlen _).append (near_emitCmdAny ..)).append (plain_reLoadImmAny ..).near).append (near_emitCmdAny ..)

theorem near_cppReload (insn : Insn) (len : Nat) (xferNum : BitVec 8) : Near (cppReload insn len xferNum) := by
  refine Plain.near (.append ?_ ?_)
  · split
    · exact plain_emitLdFieldAny ..
    split
    · exact plain_emitLdFieldAny ..
    split
    · exact plain_wrpMov ..
    · exact (plain_wrpMov ..).append (plain_wrpMov ..)
  · split
    · exact plain_wrpImmed ..
    · exact .nil

theorem issues_gather {p : Prog} (hr : m.insn.srcReg ≤ 9) (hp : Agree e.core m.insn.srcReg) (hw : isWide m)
    (h0 : 0 < m.ldstGatherLen.natAbs) (h : m.ldstGatherLen.natAbs ≤ 128) :
    addresses (ops (nfpCppMemcpy p m).code) base e = [mapBase e m.insn.srcReg + emitted m.insn.off] := by
  obtain ⟨len, hlen⟩ := @exists_eq' _ m.ldstGatherLen.natAbs
  rw [hlen] at h0 h
  have hplain : Plain (if len > 32 then setPrevAluLen (BitVec.ofNat 8 ((len + 3) / 4) - 1) else []) := by
    split
    · exact plain_wrpImmed ..
    · exact .nil
  have hdoes : ∀ e1, ∃ e2,
      Does (if len > 32 then setPrevAluLen (BitVec.ofNat 8 ((len + 3) / 4) - 1) else []) e1 e2 ∧ e2.core = e1.core := by
    intro e1
    obtain ⟨e2, h2, -, hcore, -⟩ := does_count h0 h e1
    exact ⟨e2, h2, hcore⟩
  have hrest : Near (movXfers (BitVec.ofNat 8 ((len + 3) / 4)).toNat ++
      cppWriteBack (storeInsn p m) len (BitVec.ofNat 8 ((len + 3) / 4)) ++
      cppReload m.insn len (lastXfer m (BitVec.ofNat 8 ((len + 3) / 4)))) :=
    ((Near.flatMap _ fun _ => (plain_wrpMov ..).near).append (near_cppWriteBack ..)).append (near_cppReload ..)
  refine (issues_far hr hp m.insn.off (BitVec.ofNat 8 ((len + 3) / 4) - 1) (len > 32) _ hplain hdoes (At.start ?_ base)
    hrest).addresses
  rw [memcpy_code hlen, readSource]
  simp [if_pos hw]

end Loads

theorem gpr_succ_ne_imma : ∀ r : Fin 16, gpr r + 1 ≠ staticRegImma := by
  decide

section Add

variable (m : Meta) (is64 : Bool)

def addLoad : Code × Swreg := urLoadImmAny (sext16 m.insn.off) immB

def addPair : Code × Swreg × Swreg :=
  if m.insn.off = 0 then ([], regA (gpr m.insn.dstReg), regB (gpr m.insn.dstReg + 1))
  else
    (emitAlu immaA (regA (gpr m.insn.dstReg)) .add (addLoad m).2 ++
      emitAlu immaB (regA (gpr m.insn.dstReg + 1)) .addC (regImm 0), immaA, immaB)

def addTest : Code :=
  wrpImmed immA 0xffff ++ emitAlu regNone immA .sub (regB (gpr m.insn.srcReg)) ++
    emitAlu regNone (regImm 0) .subC (regB (gpr m.insn.srcReg + 1))

def addWord : Code :=
  let len : BitVec 32 := if is64 then 0xc else 0x8
  wrpImmed immA ((2 <<< 3) ||| cmdOveLen ||| (len <<< 8)) ++ wrpRegOrSubpart immA (regB (gpr m.insn.srcReg)) 2 2

def addShort : Code := emitCmdIndir .addImm .b40Ba 0 (addPair m).2.1 (addPair m).2.2 0 .noSwap

def addFull : Code :=
  emitCmd .add .b40Ba 0 (addPair m).2.1 (addPair m).2.2 (if is64 then 4 else 0)
    (if is64 then .swapDefer2 else .swapDefer1)

def addData : Code :=
  wrpMov (regXfer 0) (regA (gpr m.insn.srcReg)) ++
    if is64 then wrpMov (regXfer 1) (regA (gpr m.insn.srcReg + 1)) else []

def addCode (full out : Nat) : Code :=
  (addLoad m).1 ++
    ((if m.xaddMaybe16bit && m.xaddOver16bit
      then addTest m ++ emitBr .blo (BitVec.ofNat 16 full) (if m.insn.off ≠ 0 then 2 else 0) else []) ++
    ((addPair m).1 ++
    ((if m.xaddMaybe16bit then
        addWord m is64 ++ addShort m ++ if m.xaddOver16bit then emitBr .unc (BitVec.ofNat 16 out) 0 else []
      else []) ++
    (if m.xaddOver16bit then addFull m is64 ++ addData m is64 else []))))

structure Scratch (e e' : Engine) : Prop where
  a : ∀ r ≠ staticRegImm, e'.core.a r = e.core.a r
  b : e'.core.b = e.core.b

structure Offered (e e' : Engine) : Prop where
  off : e'.core.src (addLoad m).2 = sext16 m.insn.off
  low : e'.core.a (gpr m.insn.dstReg) = e.core.a (gpr m.insn.dstReg)
  high : e'.core.a (gpr m.insn.dstReg + 1) = e.core.a (gpr m.insn.dstReg + 1)
  highB : e'.core.b (gpr m.insn.dstReg + 1) = e.core.b (gpr m.insn.dstReg + 1)

def Addressed (e : Engine) (addr : BitVec 40) : Prop :=
  (e.core.src (addPair m).2.2 ++ e.core.src (addPair m).2.1).setWidth 40 = addr

variable {m is64} {e e' : Engine}

theorem addPair_regs (hdst : m.insn.dstReg ≤ 9) :
    ∃ ga gb, (addPair m).2 = (regA ga, regB gb) ∧ ga < 0x20 ∧ gb < 0x20 ∧ ga ≠ staticRegImm := by
  have hg := far_gpr hdst
  rw [addPair]
  split
  · exact ⟨_, _, rfl, hg.low, hg.high, hg.lowTemp⟩
  · exact ⟨_, _, rfl, by decide, by decide, by decide⟩

theorem Addressed.scratch {addr : BitVec 40} (h : Addressed m e addr) (hdst : m.insn.dstReg ≤ 9) (hs : Scratch e e') :
    Addressed m e' addr := by
  obtain ⟨ga, gb, hregs, -, -, hne⟩ := addPair_regs hdst
  rw [Addressed, hregs, src_regA, src_regB] at h ⊢
  rw [hs.a ga hne, hs.b, h]

theorem Offered.scratch (hdst : m.insn.dstReg ≤ 9) (h : Offered m e e') (hs : Scratch e' e'') : Offered m e e'' where
  off := by
    rw [← h.off, addLoad, urLoadImmAny]
    split
    · rfl
    · exact congrFun hs.b staticRegImm
  low := (hs.a _ (far_gpr hdst).lowTemp).trans h.low
  high := (hs.a _ (far_gpr hdst).highTemp).trans h.high
  highB := by rw [hs.b, h.highB]

theorem does_addLoad (hdst : m.insn.dstReg ≤ 9) (e : Engine) : ∃ e', Does (addLoad m).1 e e' ∧ Offered m e e' := by
  obtain ⟨e', h, hcore, -⟩ := does_urLoadImmAny (sext16 m.insn.off) e
  refine ⟨e', h, ?_, ?_, ?_, ?_⟩
  · rw [hcore, addLoad, src_urLoadImmAny]
  · rw [hcore, loadImm_a]
  · rw [hcore, loadImm_a]
  · rw [hcore, loadImm_b _ _ (far_gpr hdst).highTemp]

theorem does_addPair (hdst : m.insn.dstReg ≤ 9) (hp : Agree e.core m.insn.dstReg) (ho : Offered m e e') :
    ∃ e'', Does (addPair m).1 e' e'' ∧ Addressed m e'' (mapBase e m.insn.dstReg + emitted m.insn.off) := by
  have hg := far_gpr hdst
  by_cases hz : m.insn.off = 0
  · have hpair : addPair m = ([], regA (gpr m.insn.dstReg), regB (gpr m.insn.dstReg + 1)) := if_pos hz
    refine ⟨e', hpair ▸ .nil e', ?_⟩
    rw [Addressed, hpair, src_regB, src_regA, ho.low, ho.highB, ← hp.hi, hz]
    exact (BitVec.add_zero _).symm
  obtain ⟨hop, hna⟩ := operand_urLoadImmAny (sext16 m.insn.off)
  have h1 := does_emitAlu (.a (show (staticRegImma : BitVec 16) < gprCount by decide)) (.a (re_encoding hg.low).2.2.2.2)
    hop hna.symm .add e'
  obtain ⟨e1, he1⟩ : ∃ e1, e'.aluDone (regA staticRegImma) .add (e'.core.src (regA (gpr m.insn.dstReg)))
      (e'.core.src (addLoad m).2) (e'.core.src (aOperand (regA (gpr m.insn.dstReg)) (addLoad m).2)) = e1 := ⟨_, rfl⟩
  have h2 := does_emitAlu (.b (show (staticRegImma : BitVec 16) < gprCount by decide))
    (.a (re_encoding hg.high).2.2.2.2) (.imm (show (0 : BitVec 16) ≤ 0xff by decide)) RegKind.noConfusion .addC e1
  have h1' : Does (emitAlu immaA (regA (gpr m.insn.dstReg)) .add (addLoad m).2) e' e1 := he1 ▸ h1
  have hpair : addPair m = (emitAlu immaA (regA (gpr m.insn.dstReg)) .add (addLoad m).2 ++
      emitAlu immaB (regA (gpr m.insn.dstReg + 1)) .addC (regImm 0), immaA, immaB) := if_neg hz
  refine ⟨_, by rw [hpair]; exact h1'.append h2, ?_⟩
  rw [Addressed, hpair]
  have hlow : e1.core.a staticRegImma = (adc (e.core.a (gpr m.insn.dstReg)) (sext16 m.insn.off) false).sum := by
    rw [← he1, aluDone, aluTo_regA_a, update_self, src_regA, ho.low, ho.off]
    rfl
  have hc : e1.core.c = (adc (e.core.a (gpr m.insn.dstReg)) (sext16 m.insn.off) false).carry := by
    rw [← he1, aluDone, aluTo_c, src_regA, ho.low, ho.off]
    rfl
  have hhigh : e1.core.a (gpr m.insn.dstReg + 1) = e.core.a (gpr m.insn.dstReg + 1) := by
    rw [← he1, aluDone, aluTo_regA_a, update_of_ne (gpr_succ_ne_imma _), ho.high]
  have hsum := addr40_sum (e.core.a (gpr m.insn.dstReg + 1)) (e.core.a (gpr m.insn.dstReg)) (sext16 m.insn.off)
  rw [← hlow, ← hc, ← hhigh] at hsum
  rw [mapBase, pairA, ← hhigh, emitted, ← hsum]
  change BitVec.setWidth 40 (update e1.core.b staticRegImma _ staticRegImma ++ e1.core.a staticRegImma) = _
  rfl

theorem scratch_immed (e : Engine) (x : BitVec 32) : Scratch e (e.immedDone immA x) :=
  ⟨fun _ hr => update_of_ne hr _ _, rfl⟩

theorem Scratch.trans (h : Scratch e e') (h' : Scratch e' e'') : Scratch e e'' :=
  ⟨fun r hr => (h'.a r hr).trans (h.a r hr), h'.b.trans h.b⟩

theorem does_addTest (hsrc : m.insn.srcReg ≤ 9) (e : Engine) : ∃ e', Does (addTest m) e e' ∧ Scratch e e' := by
  have hg := far_gpr hsrc
  have h1 := does_wrpImmed (.a (show (staticRegImm : BitVec 16) < gprCount by decide)) 0xffff e
  have h2 := does_emitAlu .none (.a (show (staticRegImm : BitVec 16) < gprCount by decide))
    (.b (re_encoding hg.low).2.2.2.2) RegKind.noConfusion .sub (e.immedDone immA 0xffff)
  have h3 := does_emitAlu .none (.imm (show (0 : BitVec 16) ≤ 0xff by decide)) (.b (re_encoding hg.high).2.2.2.2)
    RegKind.noConfusion .subC
  exact ⟨_, (h1.append h2).append (h3 _), (scratch_immed e 0xffff).trans ⟨fun _ _ => rfl, rfl⟩⟩

theorem does_orHigh {s : BitVec 16} (hs : s < 0x20) (e : Engine) :
    ∃ e', Does (wrpRegOrSubpart immA (regB s) 2 2) e e' ∧ Scratch e e' := by
  have h1 : ∀ d i, nfpSwregToRereg immA d i = (staticRegImm, false) := rereg_regA (by decide)
  have hops : ops (wrpRegOrSubpart immA (regB s) 2 2) =
      [.ldField .lShf (staticRegImm.setWidth 8) 0xc (s.setWidth 8) 16 false false false false false false] := by
    simp only [wrpRegOrSubpart, emitLdField, emitLdFieldAny, swregToRestricted, h1, rereg_regB hs]
    rfl
  have hlen : (wrpRegOrSubpart immA (regB s) 2 2).length = 1 := by
    rw [wrpRegOrSubpart, emitLdField, emitLdFieldAny]
    split <;> rfl
  refine ⟨e.put immA (fieldValue (e.core.a staticRegImm) 0xc false (e.core.b s <<< 16)), does_single hops hlen ?_,
    fun _ hr => update_of_ne hr _ _, rfl⟩
  have hg := re_encoding (show staticRegImm < 0x20 by decide)
  simp only [Engine.exec, Machine.exec, State.execLdField, Bool.false_eq_true, if_false, readRe_gpr hs,
    readRe_gpr (show staticRegImm < 0x20 by decide), shiftSrc, Option.map_some, hg.2.2.2.1,
      (write_gpr hg.2.2.2.2 _).2.1]
  rfl

theorem does_addWord (hsrc : m.insn.srcReg ≤ 9) (e : Engine) : ∃ e', Does (addWord m is64) e e' ∧ Scratch e e' := by
  obtain ⟨word, hword⟩ : ∃ word, addWord m is64 =
      wrpImmed immA word ++ wrpRegOrSubpart immA (regB (gpr m.insn.srcReg)) 2 2 := ⟨_, rfl⟩
  have h1 := does_wrpImmed (.a (show (staticRegImm : BitVec 16) < gprCount by decide)) word e
  obtain ⟨e2, h2, hs⟩ := does_orHigh (far_gpr hsrc).low (e.immedDone immA word)
  rw [hword]
  exact ⟨e2, h1.append h2, (scratch_immed e word).trans hs⟩

theorem addPair_length (hdst : m.insn.dstReg ≤ 9) : (ops (addPair m).1).length = if m.insn.off ≠ 0 then 2 else 0 := by
  obtain ⟨e, -, ho⟩ := does_addLoad hdst (flatEngine 0 0)
  obtain ⟨_, h, -⟩ := does_addPair hdst ⟨rfl, rfl⟩ ho
  rw [h.ops_length, addPair]
  by_cases hz : m.insn.off = 0
  · rw [if_pos hz, if_neg (not_not.mpr hz)]
    rfl
  · rw [if_neg hz, if_pos hz, length_append, emitAlu_length, emitAlu_length]

theorem addTest_length (hsrc : m.insn.srcReg ≤ 9) : (ops (addTest m)).length = 3 := by
  obtain ⟨_, h, -⟩ := does_addTest hsrc (flatEngine 0 0)
  rfl

theorem addWord_length (hsrc : m.insn.srcReg ≤ 9) : (ops (addWord m is64)).length = 2 := by
  obtain ⟨_, h, -⟩ := @does_addWord m is64 hsrc (flatEngine 0 0)
  cases is64 <;> rfl

theorem addCommand (hdst : m.insn.dstReg ≤ 9) (tgt : CmdTgt) (size : BitVec 8) (ctx : CmdCtx) (indir : Bool) :
    (ops (emitCmdAny tgt .b40Ba 0 (addPair m).2.1 (addPair m).2.2 size ctx indir)).length = 1 := by
  obtain ⟨ga, gb, hregs, hga, hgb, -⟩ := addPair_regs hdst
  obtain ⟨areg, breg, hcode, -⟩ := ops_emitCmd hga (.reg hgb) tgt .b40Ba 0 size ctx indir
  rw [hregs, hcode]
  rfl

theorem addData_length : (ops (addData m is64)).length = 1 + is64.toNat := by
  have hall : ∀ r : Fin 16, (ops (wrpMov (regXfer 0) (regA (gpr r)))).length = 1 ∧
      (ops (wrpMov (regXfer 1) (regA (gpr r + 1)))).length = 1 := by decide
  obtain ⟨h0, h1⟩ := hall m.insn.srcReg
  cases is64 with
  | false => rfl
  | true => exact congrArg (1 + ·) h1

def addFullAt (base : Nat) (m : Meta) : Nat :=
  base + (ops (addLoad m).1).length + (if m.insn.off ≠ 0 then 2 else 0) + (if m.xaddMaybe16bit then 3 else 0) +
    (if m.xaddMaybe16bit && m.xaddOver16bit then 5 else 0)

def addOutAt (base : Nat) (is64 : Bool) (m : Meta) : Nat :=
  addFullAt base m + if m.xaddOver16bit then 2 + is64.toNat else 0

theorem memXadd_ops (hdst : m.insn.dstReg ≤ 9) (hsrc : m.insn.srcReg ≤ 9) (base : Nat) :
    ops (memXadd base is64 m).code = ops (addCode m is64 (addFullAt base m) (addOutAt base is64 m)) := by
  have hpair := addPair_length hdst
  have htest := addTest_length hsrc
  have hword := @addWord_length m is64 hsrc
  have hdata := @addData_length m is64
  have hshort := addCommand hdst .addImm 0 .noSwap true
  have hfull := addCommand hdst .add (if is64 then 4 else 0) (if is64 then .swapDefer2 else .swapDefer1) false
  have hbr : ∀ a d, (ops (emitBr .blo a d)).length = 1 := fun _ _ => rfl
  have hunc : ∀ a, (ops (emitBr .unc a 0)).length = 1 := fun _ => rfl
  obtain ⟨c1, hc1⟩ : ∃ c1, (addLoad m).1 ++ (if m.xaddMaybe16bit && m.xaddOver16bit
      then addTest m ++ emitBr .blo (BitVec.ofNat 16 (addFullAt base m)) (if m.insn.off ≠ 0 then 2 else 0) else []) ++
      (addPair m).1 ++ (if m.xaddMaybe16bit then
        addWord m is64 ++ addShort m ++
          if m.xaddOver16bit then emitBr .unc (BitVec.ofNat 16 (addOutAt base is64 m)) 0 else []
        else []) = c1 := ⟨_, rfl⟩
  obtain ⟨c2, hc2⟩ := @exists_eq' _ ((if m.xaddOver16bit then addFull m is64 ++ addData m is64 else []))
  have hcode : (memXadd base is64 m) = if !confirmCurrentOffset base c1 (addFullAt base m) then ⟨c1, some .einval, m⟩
      else if !confirmCurrentOffset base (c1 ++ c2) (addOutAt base is64 m) then ⟨c1 ++ c2, some .einval, m⟩
      else ok m (c1 ++ c2) := by
    have hc2' : (if m.xaddOver16bit then
        addFull m is64 ++ wrpMov (regXfer 0) (regA (gpr m.insn.srcReg)) ++
          (if is64 then wrpMov (regXfer 1) (regA (gpr m.insn.srcReg + 1)) else []) else []) = c2 := by
      rw [← hc2, addData, append_assoc]
    rw [← hc1, ← hc2']
    rfl
  have hlen1 : base + (ops c1).length = addFullAt base m := by
    rw [← hc1, addFullAt]
    cases m.xaddMaybe16bit <;> cases m.xaddOver16bit <;>
      simp only [Bool.and_self, Bool.and_false, Bool.false_and, Bool.false_eq_true, if_true, if_false, ops_append,
        ops_nil, length_append, length_nil, htest, hword, hbr, hunc, addShort, emitCmdIndir, hshort] <;> omega
  have hlen2 : base + (ops (c1 ++ c2)).length = addOutAt base is64 m := by
    rw [ops_append, length_append, addOutAt, ← hlen1, ← hc2]
    cases m.xaddOver16bit with
    | false => rfl
    | true =>
      simp only [if_true, ops_append, length_append, addFull, emitCmd, hfull, hdata]
      omega
  have hok : confirmCurrentOffset base c1 (addFullAt base m) = true ∧
      confirmCurrentOffset base (c1 ++ c2) (addOutAt base is64 m) = true := by
    rw [confirmCurrentOffset, confirmCurrentOffset, currentOffset, currentOffset, hlen1, hlen2]
    simp
  rw [hcode, hok.1, hok.2, ok, addCode, ← hc1, ← hc2]
  simp

theorem plain_addPair (m : Meta) : Plain (addPair m).1 := by
  rw [addPair]
  split
  · exact .nil
  · exact (plain_emitAlu ..).append (plain_emitAlu ..)

theorem plain_addTest (m : Meta) : Plain (addTest m) :=
  ((plain_wrpImmed ..).append (plain_emitAlu ..)).append (plain_emitAlu ..)

theorem plain_addWord (m : Meta) (is64 : Bool) : Plain (addWord m is64) :=
  (plain_wrpImmed ..).append (plain_wrpRegOrSubpart ..)

theorem addLoad_length (m : Meta) : (ops (addLoad m).1).length ≤ 2 := by
  rw [addLoad, urLoadImmAny]
  split
  · exact Nat.zero_le 2
  · exact (length_filterMap_le _ _).trans (wrpImmed_length ..)

section Trace

variable {code rest : List Op} {base pc : Nat} {addr : BitVec 40} {as : List (BitVec 40)} (hdst : m.insn.dstReg ≤ 9)

include hdst

theorem issues_addCommand {tgt : CmdTgt} {size : BitVec 8} {ctx : CmdCtx} {indir : Bool}
    (hat : At code base pc (ops (emitCmdAny tgt .b40Ba 0 (addPair m).2.1 (addPair m).2.2 size ctx indir) ++ rest))
    (h : Addressed m e addr) (hnext : ∀ e', Issues code base (pc + 1) e' as) : Issues code base pc e (addr :: as) := by
  obtain ⟨ga, gb, hregs, hga, hgb, -⟩ := addPair_regs hdst
  rw [Addressed, hregs, src_regA] at h
  rw [hregs] at hat
  rw [← h]
  exact issues_command hga (.reg hgb) tgt 0 size ctx indir hat hnext

theorem issues_full (hat : At code base pc (ops (addFull m is64 ++ addData m is64))) (h : Addressed m e addr) :
    Issues code base pc e [addr] := by
  rw [ops_append] at hat
  refine issues_addCommand hdst hat h fun e' => ?_
  have hat' := hat.skip
  rw [show (ops (addFull m is64)).length = 1 from addCommand hdst ..] at hat'
  refine issues_near hat' (Plain.near ((plain_wrpMov ..).append ?_))
  split
  · exact plain_wrpMov ..
  · exact .nil

theorem issues_short (hsrc : m.insn.srcReg ≤ 9)
    (hat : At code base pc (ops (addWord m is64) ++ (ops (addShort m) ++ rest)))
    (h : Addressed m e addr) (hnext : At code base (pc + 3) rest → ∀ e', Issues code base (pc + 3) e' []) :
    Issues code base pc e [addr] := by
  obtain ⟨e1, h1, hs⟩ := @does_addWord m is64 hsrc e
  have hat1 := hat.skip
  have hat2 := hat1.skip
  rw [addWord_length hsrc, show (ops (addShort m)).length = 1 from addCommand hdst ..] at hat2
  refine issues_does hat (plain_addWord ..) h1 (issues_addCommand hdst hat1 (h.scratch hdst hs) ?_)
  rw [addWord_length hsrc]
  exact hnext hat2

theorem issues_pair (hp : Agree e.core m.insn.dstReg) (ho : Offered m e e')
    (hat : At code base pc (ops (addPair m).1 ++ rest))
    (hnext : ∀ e'', Addressed m e'' (mapBase e m.insn.dstReg + emitted m.insn.off) →
      Issues code base (pc + (ops (addPair m).1).length) e'' as) : Issues code base pc e' as := by
  obtain ⟨e'', h, ha⟩ := does_addPair hdst hp ho
  exact issues_does hat (plain_addPair m) h (hnext e'' ha)

theorem issues_both (hsrc : m.insn.srcReg ≤ 9) (hp : Agree e.core m.insn.dstReg) (ho : Offered m e e') {full out : Nat}
    (hfull : full = pc + 8 + (ops (addPair m).1).length) (hout : out = full + 2 + is64.toNat) (hlt : out < 2 ^ 16)
    (hat : At code base pc (ops (addTest m) ++
      (.br .blo .cond brCssNone (BitVec.ofNat 16 full) (if m.insn.off ≠ 0 then 2 else 0) :: (ops (addPair m).1 ++
        (ops (addWord m is64) ++ (ops (addShort m) ++ (.br .unc .uncond brCssNone (BitVec.ofNat 16 out) 0 ::
          ops (addFull m is64 ++ addData m is64)))))))) :
    Issues code base pc e' [mapBase e m.insn.dstReg + emitted m.insn.off] := by
  obtain ⟨e1, h1, hs⟩ := does_addTest hsrc e'
  have ho1 := ho.scratch hdst hs
  have hat1 := hat.skip
  have hat2 := hat1.next
  have hat3 := hat2.skip.skip.skip
  have hat4 := hat3.next
  rw [addTest_length hsrc] at hat1 hat2 hat3 hat4
  rw [addWord_length hsrc, show (ops (addShort m)).length = 1 from addCommand hdst ..] at hat3 hat4
  have hat5 : At code base full (ops (addFull m is64 ++ addData m is64)) := by
    convert hat4 using 1
    omega
  refine issues_does hat (plain_addTest m) h1 ?_
  rw [addTest_length hsrc]
  cases ht : e1.core.test .blo with
  | true =>
    obtain ⟨e2, h2, ha⟩ := does_addPair hdst hp ho1
    have hdefer : ((if m.insn.off ≠ 0 then 2 else 0 : BitVec 8)).toNat = (ops (addPair m).1).length := by
      rw [addPair_length hdst]
      split <;> rfl
    refine issues_taken hat1 ht ?_ (Nat.mod_eq_of_lt (by omega)) (by omega) (issues_full hdst hat5 ha)
    rw [hdefer, take_left]
    exact h2.runs
  | false =>
    refine issues_fall hat1 ht (issues_pair hdst hp ho1 hat2 fun e2 ha =>
      issues_short hdst hsrc hat2.skip ha fun hat6 e3 => ?_)
    have hdata : (ops (addFull m is64 ++ addData m is64)).length = 2 + is64.toNat := by
      rw [ops_append, length_append, addData_length, show (ops (addFull m is64)).length = 1 from addCommand hdst ..]
      omega
    have hend : At code base out (ops []) := by
      rw [← append_nil (ops (addFull m is64 ++ addData m is64))] at hat5
      rw [hout, add_assoc, ← hdata]
      exact hat5.skip
    exact issues_taken hat6 rfl rfl (Nat.mod_eq_of_lt hlt) (by omega) (issues_near hend Plain.nil.near)

end Trace

theorem issues_add (hdst : m.insn.dstReg ≤ 9) (hsrc : m.insn.srcReg ≤ 9) (hbase : base + 32 < 2 ^ 16)
    (huse : m.xaddMaybe16bit = true ∨ m.xaddOver16bit = true) (hp : Agree e.core m.insn.dstReg) :
    addresses (ops (memXadd base is64 m).code) base e = [mapBase e m.insn.dstReg + emitted m.insn.off] := by
  rw [memXadd_ops hdst hsrc]
  obtain ⟨code, hcode⟩ := @exists_eq' _ (ops (addCode m is64 (addFullAt base m) (addOutAt base is64 m)))
  have hat := At.start hcode.symm base
  rw [hcode]
  apply Issues.addresses
  obtain ⟨e1, h1, ho⟩ := does_addLoad hdst e
  have hload := addLoad_length m
  have hpair := addPair_length hdst
  rw [addCode, ops_append] at hat
  refine issues_does hat (plain_urLoadImmAny ..) h1 ?_
  have hat1 := hat.skip
  cases hmaybe : m.xaddMaybe16bit with
  | false =>
    have hover : m.xaddOver16bit = true := huse.resolve_left (by rw [hmaybe]; exact Bool.false_ne_true)
    simp only [hmaybe, hover, Bool.false_and, Bool.false_eq_true, if_false, if_true, nil_append, ops_append] at hat1
    refine issues_pair hdst hp ho hat1 fun e' ha => @issues_full m is64 _ _ _ _ _ hdst ?_ ha
    rw [ops_append]
    exact hat1.skip
  | true =>
    cases hover : m.xaddOver16bit with
    | false =>
      simp only [hmaybe, hover, Bool.and_false, Bool.false_eq_true, if_false, if_true, nil_append, ops_append,
        append_nil] at hat1
      refine issues_pair hdst hp ho hat1 fun e' ha => ?_
      have hat2 := hat1.skip
      rw [← append_nil (ops (addShort m))] at hat2
      exact issues_short hdst hsrc hat2 ha fun hat3 e'' => issues_near (c := []) hat3 Plain.nil.near
    | true =>
      have hfull : addFullAt base m = base + (ops (addLoad m).1).length + 8 + (ops (addPair m).1).length := by
        rw [addFullAt, hmaybe, hover, hpair]
        simp only [Bool.and_self, if_true]
        omega
      have hout : addOutAt base is64 m = addFullAt base m + 2 + is64.toNat := by
        rw [addOutAt, hover, if_pos rfl, add_assoc]
      refine @issues_both m is64 _ _ _ _ _ hdst hsrc hp ho _ _ hfull hout ?_ ?_
      · have : is64.toNat ≤ 1 := Bool.toNat_le is64
        have : (ops (addPair m).1).length ≤ 2 := by
          rw [hpair]
          split <;> decide
        omega
      · simp only [hmaybe, hover, Bool.and_self, if_true, ops_append, append_assoc] at hat1
        rw [ops_append]
        exact hat1

end Add

inductive MapUse where
  | load (size : Nat)
  | gather (p : Prog)
  | add (is64 : Bool)

namespace MapUse

variable (base : Nat) (m : Meta)

def code : MapUse → Code
  | load size => (memLdxEmem m size).code
  | gather p => (nfpCppMemcpy p m).code
  | add is64 => (memXadd base is64 m).code

def reg : MapUse → Fin 16
  | add _ => m.insn.dstReg
  | _ => m.insn.srcReg

def Fits : MapUse → Prop
  | load _ => m.insn.srcReg ≤ 9
  | gather _ => m.insn.srcReg ≤ 9 ∧ isWide m ∧ 0 < m.ldstGatherLen.natAbs ∧ m.ldstGatherLen.natAbs ≤ 128
  | add _ => m.insn.dstReg ≤ 9 ∧ m.insn.srcReg ≤ 9 ∧ base + 32 < 2 ^ 16 ∧
      (m.xaddMaybe16bit = true ∨ m.xaddOver16bit = true)

variable {base m}

theorem addresses_eq {u : MapUse} (h : u.Fits base m) {e : Engine} (hp : Agree e.core (u.reg m)) :
    addresses (ops (u.code base m)) base e = [mapBase e (u.reg m) + emitted m.insn.off] := by
  cases u with
  | load size => exact issues_load h hp size
  | gather p => exact issues_gather h.1 hp h.2.1 h.2.2.1 h.2.2.2
  | add is64 => exact issues_add h.1 h.2.1 h.2.2.1 h.2.2.2 hp

theorem map_address_iff (u : MapUse) (h : u.Fits base m) (e : Engine) (hp : Agree e.core (u.reg m)) :
    addresses (ops (u.code base m)) base e = [mapBase e (u.reg m) + m.insn.off.signExtend 40] ↔
      0 ≤ m.insn.off.toInt := by
  rw [addresses_eq h hp, singleton_inj, add_right_inj, emitted_eq_iff]

def mapMeta (off : BitVec 16) : Meta := Meta.zero ⟨0x61, 1, 2, off, 0⟩ 0

theorem mapMeta_fits (off : BitVec 16) : (load 4).Fits 0 (mapMeta off) := show (2 : Fin 16) ≤ 9 by decide

theorem load_at_offset_four : addresses (ops ((load 4).code 0 (mapMeta 4))) 0 (flatEngine 8 0) = [0x080000000c] :=
  (map_address_iff (load 4) (mapMeta_fits 4) (flatEngine 8 0) ⟨rfl, rfl⟩).mpr (by decide)

theorem load_before_base_misses :
    mapBase (flatEngine 8 0) 2 + BitVec.signExtend 40 (-4 : BitVec 16) = 0x0800000004 ∧
      addresses (ops ((load 4).code 0 (mapMeta (-4)))) 0 (flatEngine 8 0) = [0x0900000004] :=
  ⟨by decide, addresses_eq (mapMeta_fits (-4)) ⟨rfl, rfl⟩⟩

end MapUse

end NfpDriver.Lower
