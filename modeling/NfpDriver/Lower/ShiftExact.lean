import NfpDriver.Lower.ShiftBlocks
import NfpDriver.Lower.Holds

namespace NfpDriver.Lower

open Asm Adder Jit Bpf Machine Engine Halves Option BitVec

def shiftOf (code : BitVec 8) : Option ShiftOp :=
  if bpfClass code ≠ bpfAlu64 then none
  else if bpfOp code = bpfLsh then some .lsh
  else if bpfOp code = bpfRsh then some .rsh
  else if bpfOp code = bpfArsh then some .arsh
  else none

def translated (p : Prog) (off : Nat) (m : Meta) : Option (List Op) :=
  (instrCb.lookup m.insn.code).bind fun cb =>
    if (cb.run p off m).ret = none ∧ hasError (cb.run p off m).code = false then some (ops (cb.run p off m).code)
    else none

def shiftAmount (m : Meta) (S : BitVec 64) : Nat :=
  if bpfSrc m.insn.code = bpfX then S.toNat % 64 else m.insn.imm.toNat

def Shifts (op : ShiftOp) (m : Meta) : Prop :=
  ∀ p off code e v S, translated p off m = some code → Pair e (gpr m.insn.dstReg) (lo v) (hi v) →
    (bpfSrc m.insn.code = bpfX → Pair e (gpr m.insn.srcReg) (lo S) (hi S) ∧ m.uminSrc ≤ S ∧ S ≤ m.umaxSrc) →
    ∃ e', runBlock code off e = some e' ∧ pairA e'.core (gpr m.insn.dstReg) = op.value v (shiftAmount m S) ∧
      pairB e'.core (gpr m.insn.dstReg) = op.value v (shiftAmount m S)

theorem code_parts (code : BitVec 8) : code = bpfClass code ||| bpfSrc code ||| bpfOp code := by
  rw [bpfClass, bpfSrc, bpfOp, ← and_or_distrib_left, ← and_or_distrib_left]
  exact (and_allOnes).symm

def ShiftOp.bits : ShiftOp → BitVec 8
  | .lsh => bpfLsh
  | .rsh => bpfRsh
  | .arsh => bpfArsh

theorem shiftOf_code {code : BitVec 8} {op : ShiftOp} (h : shiftOf code = some op) :
    code = bpfAlu64 ||| bpfSrc code ||| op.bits := by
  have hparts := code_parts code
  rw [shiftOf] at h
  split at h
  · cases h
  next hc =>
  rw [not_not.mp hc] at hparts
  have hbits : bpfOp code = op.bits := by
    split at h
    · next ho => rw [ho, ← some.inj h]; rfl
    split at h
    · next ho => rw [ho, ← some.inj h]; rfl
    · split at h
      · next ho => rw [ho, ← some.inj h]; rfl
      · cases h
  rwa [hbits] at hparts

section Translation

variable {m : Meta} {op : ShiftOp} (hop : shiftOf m.insn.code = some op) (p : Prog) (off : Nat)

include hop

theorem translated_reg (hx : bpfSrc m.insn.code = bpfX) :
    translated p off m = if (op.reg64 off m).ret = none ∧ hasError (op.reg64 off m).code = false
      then some (ops (op.reg64 off m).code) else none := by
  have hcode := shiftOf_code hop
  rw [hx] at hcode
  obtain ⟨cb, hlook, hrun⟩ : ∃ cb, instrCb.lookup m.insn.code = some cb ∧ cb.run p off m = op.reg64 off m := by
    rw [hcode]
    cases op with
    | lsh => exact ⟨.shlReg64, rfl, rfl⟩
    | rsh => exact ⟨.shrReg64, rfl, rfl⟩
    | arsh => exact ⟨.ashrReg64, rfl, rfl⟩
  rw [translated, hlook, bind_some, hrun]

theorem translated_imm (hk : bpfSrc m.insn.code = bpfK) :
    translated p off m =
      if hasError (op.amt (gpr m.insn.dstReg) (m.insn.imm.setWidth 8)) = false
      then some (ops (op.amt (gpr m.insn.dstReg) (m.insn.imm.setWidth 8))) else none := by
  have hcode := shiftOf_code hop
  rw [hk] at hcode
  obtain ⟨cb, hlook, hrun⟩ : ∃ cb, instrCb.lookup m.insn.code = some cb ∧
      cb.run p off m = ok m (op.amt (gpr m.insn.dstReg) (m.insn.imm.setWidth 8)) := by
    rw [hcode]
    cases op with
    | lsh => exact ⟨.shlImm64, rfl, rfl⟩
    | rsh => exact ⟨.shrImm64, rfl, rfl⟩
    | arsh => exact ⟨.ashrImm64, rfl, rfl⟩
  rw [translated, hlook, bind_some, hrun]
  simp only [ok, true_and]

end Translation

section Register

variable {m : Meta} (op : ShiftOp) (hd : m.insn.dstReg ≤ 9) {off : Nat} {e : Engine} {x y : BitVec 32} {S : BitVec 64}
  (hp : Pair e (gpr m.insn.dstReg) x y)

include hd hp

theorem runs_amount (off : Nat) {n : BitVec 8} (hn : n < 64) :
    ∃ e', runBlock (ops (op.amt (gpr m.insn.dstReg) n)) off e = some e' ∧
      Pair e' (gpr m.insn.dstReg) (lo (op.value (y ++ x) n.toNat)) (hi (op.value (y ++ x) n.toNat)) := by
  have hregs := shiftRegs hd hd
  obtain ⟨e', hdoes, hp'⟩ := does_amount hregs.low hregs.high hregs.halves hp hn op
  exact ⟨e', runBlock_execs hdoes.runs off, hp'⟩

variable (hs : m.insn.srcReg ≤ 9) (hsrc : Pair e (gpr m.insn.srcReg) (lo S) (hi S))

include hs hsrc

theorem runs_reg64 (hlt : m.uminSrc ≠ m.umaxSrc) (hok : (op.reg64 off m).ret = none) :
    ∃ e', runBlock (ops (op.reg64 off m).code) off e = some e' ∧
      Pair e' (gpr m.insn.dstReg) (outLow op (farPath m.uminSrc.toNat m.umaxSrc.toNat S) (lo S) x y)
        (outHigh op (farPath m.uminSrc.toNat m.umaxSrc.toNat S) (gpr m.insn.srcReg == gpr m.insn.dstReg)
          (lo S) x y) := by
  have hregs := shiftRegs hd hs
  obtain ⟨en, hnear, hpn⟩ := does_near hregs hp hsrc.lowA hsrc.lowB op
  obtain ⟨ef, hfar, hpf⟩ := does_far hregs hp hsrc.lowA op
  simp only [ShiftOp.reg64, if_neg hlt] at hok ⊢
  rw [farPath]
  by_cases hup : m.umaxSrc < 32
  · rw [if_pos hup, if_pos (show m.umaxSrc.toNat < 32 from hup)]
    exact ⟨en, runBlock_execs hnear.runs off, hpn⟩
  rw [if_neg hup] at hok ⊢
  rw [if_neg (show ¬m.umaxSrc.toNat < 32 from hup)]
  by_cases hlow : m.uminSrc ≥ 32
  · rw [if_pos hlow, if_pos (show 32 ≤ m.uminSrc.toNat from hlow)]
    exact ⟨ef, runBlock_execs hfar.runs off, hpf⟩
  rw [if_neg hlow] at hok ⊢
  rw [if_neg (show ¬32 ≤ m.uminSrc.toNat from hlow)]
  have hlen : (op.second (gpr m.insn.dstReg) (gpr m.insn.srcReg)).length = 2 := by
    cases op <;> rfl
  refine ⟨_, shiftBranches_runs hregs.amount hnear hfar hlen hok, ?_⟩
  rw [hsrc.lowA, getLsbD_lo _ (by decide)]
  cases S.getLsbD 5 with
  | true => exact hpf
  | false => exact hpn

theorem reg64_emitted (hlt : m.uminSrc ≠ m.umaxSrc) :
    (op.reg64 0 m).ret = none ∧ hasError (op.reg64 0 m).code = false := by
  have hregs := shiftRegs hd hs
  obtain ⟨en, hnear, -⟩ := does_near hregs hp hsrc.lowA hsrc.lowB op
  obtain ⟨ef, hfar, -⟩ := does_far hregs hp hsrc.lowA op
  simp only [ShiftOp.reg64, if_neg hlt]
  split
  · exact ⟨rfl, hnear.clean⟩
  split
  · exact ⟨rfl, hfar.clean⟩
  have hclean := hnear.clean
  rw [hasError_append, Bool.or_eq_false_iff] at hclean
  have hfirst : (ops (op.first (gpr m.insn.dstReg) (gpr m.insn.srcReg))).length + 4 = op.dist := by
    cases op <;> rfl
  have hsecond : (ops (op.second (gpr m.insn.dstReg) (gpr m.insn.srcReg))).length = 2 := by
    cases op <;> rfl
  have hlast : (ops (op.far (gpr m.insn.dstReg) (gpr m.insn.srcReg))).length = 3 := by
    cases op <;> rfl
  exact shiftBranches_emitted hregs.amount hclean.1 hclean.2 hfar.clean hfirst hsecond hlast
    (by cases op <;> decide)

end Register

theorem gpr_beq (r q : Fin 16) : (gpr r == gpr q) = (r == q) := by
  revert r q
  decide

def pairEngine (regs : Fin 16 → BitVec 64) : Engine where
  core := stateOf regs (fun _ => 0) (fun _ => 0)
  prevA := 0
  prevAlu := 0
  xferOut := fun _ => 0
  mem32 := fun _ => 0
  mem40 := fun _ => 0

theorem pairEngine_pair (regs : Fin 16 → BitVec 64) {r : Fin 16} (hr : r ≤ 9) :
    Pair (pairEngine regs) (gpr r) (lo (regs r)) (hi (regs r)) := by
  have h : bank regs (fun _ => 0) (gpr r + 1) ++ bank regs (fun _ => 0) (gpr r) = regs r := bank_gpr regs _ hr
  constructor <;> rw [← h]
  · exact (lo_append _ _).symm
  · exact (lo_append _ _).symm
  · exact (hi_append _ _).symm
  · exact (hi_append _ _).symm

section Shifted

variable {m : Meta} {op : ShiftOp} (hop : shiftOf m.insn.code = some op) (hd : m.insn.dstReg ≤ 9)

include hop hd

theorem shifts_imm (hk : bpfSrc m.insn.code = bpfK) (himm : m.insn.imm < 64) : Shifts op m := by
  intro p off code e v S htr hp _
  have himm' : m.insn.imm.toNat < 64 := himm
  have hn : (m.insn.imm.setWidth 8).toNat = m.insn.imm.toNat := by
    rw [toNat_setWidth]
    omega
  have hamount : shiftAmount m S = (m.insn.imm.setWidth 8).toNat := by
    rw [hn, shiftAmount, if_neg (by rw [hk]; decide)]
  rw [translated_imm hop p off hk] at htr
  split at htr
  · cases htr
    obtain ⟨e', hrun, hp'⟩ := runs_amount op hd hp off (lt_def.mpr (by rw [hn]; exact himm))
    rw [pair_self] at hp'
    refine ⟨e', hrun, ?_, ?_⟩
    · rw [hp'.values.1, pair_self, hamount]
    · rw [hp'.values.2, pair_self, hamount]
  · cases htr

variable (hs : m.insn.srcReg ≤ 9) (hx : bpfSrc m.insn.code = bpfX)

include hs hx

theorem shifts_of_ranged (hrange : m.uminSrc < m.umaxSrc →
    Ranged op (m.insn.srcReg == m.insn.dstReg) m.uminSrc m.umaxSrc) :
    Shifts op m := by
  intro p off code e v S htr hp hsrc
  obtain ⟨hps, h1, h2⟩ := hsrc hx
  have hamount : shiftAmount m S = S.toNat % 64 := if_pos hx
  rw [translated_reg hop p off hx] at htr
  split at htr
  swap
  · cases htr
  next hemit =>
  cases htr
  by_cases hconst : m.uminSrc = m.umaxSrc
  · have hcode : (op.reg64 off m).code = op.amt (gpr m.insn.dstReg) (m.uminSrc.setWidth 8) := by
      simp only [ShiftOp.reg64, if_pos hconst, ok]
    have hS : S = m.uminSrc := BitVec.le_antisymm (hconst ▸ h2) h1
    have hn : m.uminSrc.setWidth 8 < (64 : BitVec 8) := by
      by_contra hn
      rw [hcode, amt_error op _ hn] at hemit
      cases hemit.2
    have hn' : (m.uminSrc.setWidth 8).toNat = S.toNat % 64 := by
      have hlt : (m.uminSrc.setWidth 8).toNat < 64 := hn
      rw [toNat_setWidth] at hlt ⊢
      rw [hS]
      omega
    obtain ⟨e', hrun, hp'⟩ := runs_amount op hd hp off hn
    rw [pair_self, hn'] at hp'
    rw [hcode, hamount]
    exact ⟨e', hrun, by rw [hp'.values.1, pair_self], by rw [hp'.values.2, pair_self]⟩
  · have hlt : m.uminSrc < m.umaxSrc := by
      have hle : m.uminSrc.toNat ≤ m.umaxSrc.toNat := le_trans h1 h2
      have hne : m.uminSrc.toNat ≠ m.umaxSrc.toNat := fun h => hconst (eq_of_toNat_eq h)
      exact lt_def.mpr (by omega)
    obtain ⟨e', hrun, hp'⟩ := runs_reg64 op hd hp hs hps hconst hemit.1
    rw [gpr_beq] at hp'
    have hexact := hrange hlt S (lo v) (hi v) h1 h2 fun hsame => by
      rw [beq_iff_eq] at hsame
      rw [hsame] at hps
      exact ⟨hp.lowA.symm.trans hps.lowA, hp.highA.symm.trans hps.highA⟩
    rw [hexact.low, hexact.high, pair_self] at hp'
    rw [hamount]
    exact ⟨e', hrun, by rw [hp'.values.1, pair_self], by rw [hp'.values.2, pair_self]⟩

theorem ranged_of_shifts (h : Shifts op m) (hlt : m.uminSrc < m.umaxSrc) :
    Ranged op (m.insn.srcReg == m.insn.dstReg) m.uminSrc m.umaxSrc := by
  intro S x y h1 h2 hsame
  have hne : m.uminSrc ≠ m.umaxSrc := fun hc => absurd (hc ▸ hlt) (BitVec.lt_irrefl _)
  obtain ⟨regs, hregs⟩ : ∃ regs : Fin 16 → BitVec 64,
      (fun r => if r = m.insn.srcReg then S else y ++ x) = regs := ⟨_, rfl⟩
  have hsrc : regs m.insn.srcReg = S := by rw [← hregs]; exact if_pos rfl
  have hdst : regs m.insn.dstReg = y ++ x := by
    rw [← hregs]
    by_cases hq : m.insn.dstReg = m.insn.srcReg
    · obtain ⟨rfl, rfl⟩ := hsame (by rw [hq]; exact beq_self_eq_true _)
      rw [pair_self]
      exact if_pos hq
    · exact if_neg hq
  have hp := pairEngine_pair regs hd
  have hps := pairEngine_pair regs hs
  rw [hdst] at hp
  rw [hsrc] at hps
  have hemit := reg64_emitted op hd hp hs hps hne
  have htr := translated_reg hop default 0 hx
  rw [if_pos hemit] at htr
  obtain ⟨e', hrun, hA, -⟩ := h default 0 _ (pairEngine regs) (y ++ x) S htr hp fun _ => ⟨hps, h1, h2⟩
  obtain ⟨e'', hrun', hp''⟩ := runs_reg64 op hd hp hs hps hne hemit.1
  obtain rfl := some.inj (hrun.symm.trans hrun')
  rw [hp''.values.1, shiftAmount, if_pos hx, gpr_beq, lo_append, hi_append] at hA
  constructor
  · rw [← hA, lo_append]
  · rw [← hA, hi_append]

end Shifted

theorem shift64_exact_iff (m : Meta) (op : ShiftOp) (hop : shiftOf m.insn.code = some op) (hd : m.insn.dstReg ≤ 9)
    (hs : bpfSrc m.insn.code = bpfX → m.insn.srcReg ≤ 9) (himm : bpfSrc m.insn.code = bpfK → m.insn.imm < 64) :
    Shifts op m ↔ (bpfSrc m.insn.code = bpfX →
      rangeOk op (m.insn.srcReg == m.insn.dstReg) m.uminSrc.toNat m.umaxSrc.toNat = true) := by
  rcases src_K_or_X m.insn.code with hx | hk
  · simp only [hx, forall_const]
    constructor
    · intro h
      by_cases hlt : m.uminSrc < m.umaxSrc
      · exact (ranged_iff hlt).mp (ranged_of_shifts hop hd (hs hx) hx h hlt)
      · rw [rangeOk, if_pos (Nat.not_lt.mp hlt)]
    · intro h
      exact shifts_of_ranged hop hd (hs hx) hx fun hlt => (ranged_iff hlt).mpr h
  · have hne : bpfSrc m.insn.code ≠ bpfX := by
      rw [hk]
      decide
    exact ⟨fun _ h => absurd h hne, fun _ => shifts_imm hop hd hk (himm hk)⟩

def shlRanged (umin umax : BitVec 64) : Meta :=
  { Meta.zero ⟨bpfAlu64 ||| bpfLsh ||| bpfX, 1, 2, 0, 0⟩ 0 with uminSrc := umin, umaxSrc := umax }

theorem shl_one_to_63_exact : Shifts .lsh (shlRanged 1 63) :=
  (shift64_exact_iff (shlRanged 1 63) .lsh rfl (by decide) (by decide) (by decide)).mpr fun _ => rfl

theorem shl_by_zero_copies_low_half :
    ∃ code e', translated default 0 (shlRanged 0 63) = some code ∧
      runBlock code 0 (pairEngine fun r => if r = 1 then 1 else 0) = some e' ∧
      pairA e'.core (gpr 1) = 0x100000001 :=
  ⟨_, _, rfl, rfl, rfl⟩

end NfpDriver.Lower
