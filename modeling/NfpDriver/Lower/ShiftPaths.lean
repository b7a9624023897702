import NfpDriver.Lower.ShiftWords
import NfpDriver.Lower.DivExact

namespace NfpDriver.Lower

open Asm Adder Jit Bpf Machine Engine Halves

structure Wrote (e e' : Engine) (d : BitVec 16) (v : BitVec 32) : Prop where
  a : e'.core.a = Function.update e.core.a d v
  b : e'.core.b = Function.update e.core.b d v

variable {e e' : Engine} {v : BitVec 32} {op : ShfOp} {sc : ShfSc} {o : Swreg} {n : BitVec 8}

theorem Wrote.same {d : BitVec 16} (h : Wrote e e' d v) : e'.core.a d = v ∧ e'.core.b d = v := by
  rw [h.a, h.b]
  exact ⟨Function.update_self .., Function.update_self ..⟩

theorem Wrote.other {d r : BitVec 16} (h : Wrote e e' d v) (hr : r ≠ d) :
    e'.core.a r = e.core.a r ∧ e'.core.b r = e.core.b r := by
  rw [h.a, h.b]
  exact ⟨Function.update_of_ne hr .., Function.update_of_ne hr ..⟩

theorem wrote_put (e : Engine) (d : BitVec 16) (v : BitVec 32) : Wrote e (e.put (regBoth d) v) d v := ⟨rfl, rfl⟩

theorem shfValue_left (hop : op = .none ∨ op = .ashr) (hsc : sc ≠ .rDshf) (sign : Bool) (n : Nat) (l r : BitVec 32) :
    shfValue op sc sign n l r = shfValue op sc sign n 0 r := by
  cases sc with
  | rDshf => exact absurd rfl hsc
  | _ => rcases hop with rfl | rfl <;> rfl

section Instructions

variable {d s l r : BitVec 16} (hd : d < 0x20) (hs : s < 0x20) (hl : l < 0x20) (hr : r < 0x20) (e : Engine)

include hs in
theorem does_tap (ho : Operand o) (hna : o.type ≠ .gprA) :
    ∃ e', Does (emitAlu regNone (regA s) .or o) e e' ∧ e'.core.a = e.core.a ∧ e'.core.b = e.core.b ∧
      e'.prevA = e.core.a s ∧ e'.core.n = (e.core.a s ||| e.core.src o).msb := by
  have hop : aOperand (regA s) o = regA s := if_neg fun h => h.elim RegKind.noConfusion hna
  refine ⟨_, does_emitAlu .none (.a (re_encoding hs).2.2.2.2) ho hna.symm .or e, rfl, rfl, ?_, rfl⟩
  rw [hop]
  rfl

include hd hr

theorem does_shift (hop : op = .none ∨ op = .ashr) (hsc : sc ≠ .rDshf) (hn : n ≤ 0x1f) :
    ∃ e', Does (emitShf (regBoth d) regNone op (regB r) sc n) e e' ∧ e'.core.n = e.core.n ∧
      Wrote e e' d (shfValue op sc e.core.n (shfAmount sc n e.prevA) 0 (e.core.b r)) := by
  refine ⟨_, does_shfB hd hr op sc hn e, put_n _ _ _, ?_⟩
  rw [shfValue_left hop hsc]
  exact wrote_put ..

include hl in
theorem does_funnel (hn : n ≤ 0x1f) :
    ∃ e', Does (emitShf (regBoth d) (regA l) .none (regB r) .rDshf n) e e' ∧
      Wrote e e' d (funnel (e.core.a l) (e.core.b r) (shfAmount .rDshf n e.prevA)) :=
  ⟨_, does_shfAB hd hl hr .none .rDshf hn e, wrote_put ..⟩

include hs

theorem does_indirect (hop : op = .none ∨ op = .ashr) (hsc : sc = .rShf ∨ sc = .lShf) (ho : Operand o)
    (hna : o.type ≠ .gprA) :
    ∃ e', Does (emitAlu regNone (regA s) .or o ++ emitShfIndir (regBoth d) regNone op (regB r) sc) e e' ∧
      e'.core.n = (e.core.a s ||| e.core.src o).msb ∧
      Wrote e e' d (shfValue op sc (e.core.a s ||| e.core.src o).msb ((e.core.a s).toNat % 32) 0 (e.core.b r)) := by
  obtain ⟨e1, h1, ha, hb, hprev, hn⟩ := does_tap hs e ho hna
  have hne : sc ≠ .rRot ∧ sc ≠ .rDshf ∧ shfAmount sc 0 e1.prevA = e1.prevA.toNat % 32 := by
    rcases hsc with rfl | rfl <;> exact ⟨ShfSc.noConfusion, ShfSc.noConfusion, rfl⟩
  obtain ⟨e2, h2, hn2, hw⟩ := does_shift hd hr e1 hop hne.2.1 (n := 0) (by decide)
  rw [hne.2.2, hprev, hn, hb] at hw
  rw [emitShfIndir, if_neg hne.1]
  exact ⟨e2, h1.append h2, hn2.trans hn, by rw [hw.a, ha], by rw [hw.b, hb]⟩

include hl

theorem does_indirect_funnel :
    ∃ e', Does (emitAlu regNone (regA s) .or (regImm 0) ++ emitShfIndir (regBoth d) (regA l) .none (regB r) .rDshf)
        e e' ∧
      Wrote e e' d (funnel (e.core.a l) (e.core.b r) ((e.core.a s).toNat % 32)) := by
  obtain ⟨e1, h1, ha, hb, hprev, -⟩ := does_tap hs e (.imm (x := 0) (by decide)) RegKind.noConfusion
  obtain ⟨e2, h2, hw⟩ := does_funnel hd hl hr e1 (n := 0) (by decide)
  rw [show shfAmount .rDshf 0 e1.prevA = e1.prevA.toNat % 32 from rfl, hprev, ha, hb] at hw
  exact ⟨e2, h1.append h2, by rw [hw.a, ha], by rw [hw.b, hb]⟩

end Instructions

structure ShiftRegs (dst src : BitVec 16) : Prop where
  low : dst < 0x20
  high : dst + 1 < 0x20
  amount : src < 0x20
  halves : dst ≠ dst + 1
  kept : src ≠ dst + 1
  lowTemp : dst ≠ staticRegImm
  highTemp : dst + 1 ≠ staticRegImm
  amountTemp : src ≠ staticRegImm

theorem shiftRegs {d s : Fin 16} (hd : d ≤ 9) (hs : s ≤ 9) : ShiftRegs (gpr d) (gpr s) := by
  have hall : ∀ d s : Fin 16, d ≤ 9 → s ≤ 9 → gpr d < 0x20 ∧ gpr d + 1 < 0x20 ∧ gpr s < 0x20 ∧ gpr d ≠ gpr d + 1 ∧
      gpr s ≠ gpr d + 1 ∧ gpr d ≠ staticRegImm ∧ gpr d + 1 ≠ staticRegImm ∧ gpr s ≠ staticRegImm := by decide
  obtain ⟨h1, h2, h3, h4, h5, h6, h7, h8⟩ := hall d s hd hs
  exact ⟨h1, h2, h3, h4, h5, h6, h7, h8⟩

structure Pair (e : Engine) (g : BitVec 16) (x y : BitVec 32) : Prop where
  lowA : e.core.a g = x
  lowB : e.core.b g = x
  highA : e.core.a (g + 1) = y
  highB : e.core.b (g + 1) = y

theorem Pair.values {g : BitVec 16} {x y : BitVec 32} (h : Pair e g x y) :
    pairA e.core g = y ++ x ∧ pairB e.core g = y ++ x := by
  rw [pairA, pairB, h.lowA, h.lowB, h.highA, h.highB]
  exact ⟨rfl, rfl⟩

section Writes

variable {e e' : Engine} {g r : BitVec 16} {x y v : BitVec 32} (h : Pair e g x y) (hne : g ≠ g + 1)

include h

theorem Pair.putLow (hne : g ≠ g + 1) (hw : Wrote e e' g v) : Pair e' g v y where
  lowA := hw.same.1
  lowB := hw.same.2
  highA := (hw.other hne.symm).1.trans h.highA
  highB := (hw.other hne.symm).2.trans h.highB

theorem Pair.putHigh (hne : g ≠ g + 1) (hw : Wrote e e' (g + 1) v) : Pair e' g x v where
  lowA := (hw.other hne).1.trans h.lowA
  lowB := (hw.other hne).2.trans h.lowB
  highA := hw.same.1
  highB := hw.same.2

theorem Pair.putTemp (hg : g ≠ r) (hg1 : g + 1 ≠ r) (hw : Wrote e e' r v) : Pair e' g x y where
  lowA := (hw.other hg).1.trans h.lowA
  lowB := (hw.other hg).2.trans h.lowB
  highA := (hw.other hg1).1.trans h.highA
  highB := (hw.other hg1).2.trans h.highB

end Writes

namespace ShiftOp

def first : ShiftOp → BitVec 16 → BitVec 16 → Code
  | lsh => shlReg64Lt32High
  | rsh => shrReg64Lt32Low
  | arsh => ashrReg64Lt32Low

def second : ShiftOp → BitVec 16 → BitVec 16 → Code
  | lsh => shlReg64Lt32Low
  | rsh => shrReg64Lt32High
  | arsh => ashrReg64Lt32High

def far : ShiftOp → BitVec 16 → BitVec 16 → Code
  | lsh => shlReg64Ge32
  | rsh => shrReg64Ge32
  | arsh => ashrReg64Ge32

end ShiftOp

section Paths

variable {dst src : BitVec 16} (hregs : ShiftRegs dst src) {e : Engine} {s x y : BitVec 32} (hp : Pair e dst x y)
  (ha : e.core.a src = s) (hb : e.core.b src = s)

include hregs hp ha

include hb in
theorem does_shlHigh :
    ∃ e', Does (shlReg64Lt32High dst src) e e' ∧ e'.core.a src = s ∧
      Pair e' dst x (funnel y x ((32 - s).toNat % 32)) := by
  have hsub := does_emitAlu (.both (r := staticRegImm) (by decide)) (.imm (x := 32) (by decide))
    (.b (re_encoding hregs.amount).2.2.2.2) RegKind.noConfusion .sub e
  obtain ⟨e1, he1⟩ : ∃ e1, e.aluDone (regBoth staticRegImm) .sub (e.core.src (regImm 32)) (e.core.src (regB src))
      (e.core.src (aOperand (regImm 32) (regB src))) = e1 := ⟨_, rfl⟩
  rw [he1] at hsub
  have hw1 : Wrote e e1 staticRegImm (32 - s) := by
    have hsum : (aluResult .sub (e.core.src (regImm 32)) (e.core.src (regB src)) e.core.c).sum = 32 - s := by
      rw [src_regB, hb, src_regImm]
      exact sub_sum _ _
    rw [← he1, ← hsum]
    exact ⟨rfl, rfl⟩
  obtain ⟨e2, h2, hw2⟩ := does_indirect_funnel hregs.high (show (staticRegImm : BitVec 16) < 0x20 by decide)
    hregs.high hregs.low e1
  have hp1 := hp.putTemp hregs.lowTemp hregs.highTemp hw1
  rw [hw1.same.1, hp1.highA, hp1.lowB] at hw2
  refine ⟨e2, ?_, ?_, hp1.putHigh hregs.halves hw2⟩
  · rw [shlReg64Lt32High, List.append_assoc]
    exact hsub.append h2
  · rw [(hw2.other hregs.kept).1, (hw1.other hregs.amountTemp).1, ha]

theorem does_shrLow :
    ∃ e', Does (shrReg64Lt32Low dst src) e e' ∧ Wrote e e' dst (funnel y x (s.toNat % 32)) ∧
      Pair e' dst (funnel y x (s.toNat % 32)) y := by
  obtain ⟨e1, h1, hw⟩ := does_indirect_funnel hregs.low hregs.amount hregs.high hregs.low e
  rw [hp.highA, hp.lowB, ha] at hw
  exact ⟨e1, h1, hw, hp.putLow hregs.halves hw⟩

theorem does_second (op : ShiftOp) :
    ∃ e', Does (op.second dst src) e e' ∧
      match op with
      | .lsh => Pair e' dst (op.nearLow s x y) y
      | .rsh | .arsh => Pair e' dst x (op.nearHigh s x y) := by
  cases op with
  | lsh =>
    obtain ⟨e1, h1, -, hw⟩ := does_indirect hregs.low hregs.amount hregs.low e (.inl rfl) (.inr rfl)
      (.imm (x := 0) (by decide)) RegKind.noConfusion
    rw [hp.lowB, ha] at hw
    exact ⟨e1, h1, hp.putLow hregs.halves hw⟩
  | rsh =>
    obtain ⟨e1, h1, -, hw⟩ := does_indirect hregs.high hregs.amount hregs.high e (.inl rfl) (.inl rfl)
      (.imm (x := 0) (by decide)) RegKind.noConfusion
    rw [hp.highB, ha] at hw
    exact ⟨e1, h1, hp.putHigh hregs.halves hw⟩
  | arsh =>
    obtain ⟨e1, h1, -, hw⟩ := does_indirect hregs.high hregs.amount hregs.high e (.inr rfl) (.inl rfl)
      (.b (re_encoding hregs.high).2.2.2.2) RegKind.noConfusion
    rw [src_regB, hp.highB, ha] at hw
    exact ⟨e1, h1, hp.putHigh hregs.halves hw⟩

include hb in
theorem does_near (op : ShiftOp) :
    ∃ e', Does (op.first dst src ++ op.second dst src) e e' ∧
      Pair e' dst (op.nearLow s x y) (op.nearHigh (op.amountAgain (src == dst) s x y) x y) := by
  have hright : ∀ op : ShiftOp, op ≠ .lsh → ∃ e', Does (shrReg64Lt32Low dst src) e e' ∧
      Pair e' dst (op.nearLow s x y) y ∧ e'.core.a src = op.amountAgain (src == dst) s x y := by
    intro op hop
    obtain ⟨e1, h1, hw, hp1⟩ := does_shrLow hregs hp ha
    have hsrc : e1.core.a src = if (src == dst) = true then funnel y x (s.toNat % 32) else s := by
      by_cases h : src = dst
      · rw [if_pos (by rw [h]; exact beq_self_eq_true _), h, hw.same.1]
      · rw [if_neg (by rw [beq_iff_eq]; exact h), (hw.other h).1, ha]
    cases op with
    | lsh => exact absurd rfl hop
    | rsh | arsh => exact ⟨e1, h1, hp1, hsrc⟩
  cases op with
  | lsh =>
    obtain ⟨e1, h1, ha1, hp1⟩ := does_shlHigh hregs hp ha hb
    obtain ⟨e2, h2, hp2⟩ := does_second hregs hp1 ha1 .lsh
    exact ⟨e2, h1.append h2, hp2⟩
  | rsh =>
    obtain ⟨e1, h1, hp1, ha1⟩ := hright .rsh ShiftOp.noConfusion
    obtain ⟨e2, h2, hp2⟩ := does_second hregs hp1 ha1 .rsh
    exact ⟨e2, h1.append h2, hp2⟩
  | arsh =>
    obtain ⟨e1, h1, hp1, ha1⟩ := hright .arsh ShiftOp.noConfusion
    obtain ⟨e2, h2, hp2⟩ := does_second hregs hp1 ha1 .arsh
    exact ⟨e2, h1.append h2, hp2⟩

omit hregs hp ha in
theorem does_clear {half : BitVec 16} (hh : half < 0x20) (e : Engine) :
    ∃ e', Does (wrpImmed (regBoth half) 0) e e' ∧ Wrote e e' half 0 :=
  ⟨_, does_wrpImmed (.both (re_encoding hh).2.2.2.2) 0 e, rfl, rfl⟩

theorem does_far (op : ShiftOp) :
    ∃ e', Does (op.far dst src) e e' ∧ Pair e' dst (op.farLow s y) (op.farHigh s x y) := by
  cases op with
  | lsh =>
    obtain ⟨e1, h1, -, hw⟩ := does_indirect hregs.high hregs.amount hregs.low e (.inl rfl) (.inr rfl)
      (.imm (x := 0) (by decide)) RegKind.noConfusion
    rw [hp.lowB, ha] at hw
    have hp1 := hp.putHigh hregs.halves hw
    obtain ⟨e2, h2, hw2⟩ := does_clear hregs.low _
    exact ⟨e2, h1.append h2, hp1.putLow hregs.halves hw2⟩
  | rsh =>
    obtain ⟨e1, h1, -, hw⟩ := does_indirect hregs.low hregs.amount hregs.high e (.inl rfl) (.inl rfl)
      (.imm (x := 0) (by decide)) RegKind.noConfusion
    rw [hp.highB, ha] at hw
    have hp1 := hp.putLow hregs.halves hw
    obtain ⟨e2, h2, hw2⟩ := does_clear hregs.high _
    exact ⟨e2, h1.append h2, hp1.putHigh hregs.halves hw2⟩
  | arsh =>
    obtain ⟨e1, h1, hn, hw⟩ := does_indirect hregs.low hregs.amount hregs.high e (.inr rfl) (.inl rfl)
      (.b (re_encoding hregs.high).2.2.2.2) RegKind.noConfusion
    rw [src_regB, hp.highB, ha] at hw hn
    have hp1 := hp.putLow hregs.halves hw
    obtain ⟨e2, h2, -, hw2⟩ := does_shift hregs.high hregs.high e1 (.inr rfl)
        (show ShfSc.rShf ≠ .rDshf from ShfSc.noConfusion)
      (n := 31) (by decide)
    rw [hp1.highB, hn] at hw2
    exact ⟨e2, h1.append h2, hp1.putHigh hregs.halves hw2⟩

end Paths

end NfpDriver.Lower
