import NfpDriver.Lower.ShiftRange
import NfpDriver.Lower.ShiftPaths
import NfpDriver.Machine.Block

namespace NfpDriver.Lower

open Asm Adder Jit Bpf Machine Engine Halves List

namespace ShiftOp

def amt : ShiftOp → BitVec 16 → BitVec 8 → Code
  | lsh => shlImm64Amt
  | rsh => shrImm64Amt
  | arsh => ashrImm64Amt

def dist : ShiftOp → Nat
  | lsh => 7
  | rsh => 6
  | arsh => 6

def reg64 (op : ShiftOp) (off : Nat) (m : Meta) : CbResult :=
  let dst := gpr m.insn.dstReg
  let src := gpr m.insn.srcReg
  if m.uminSrc = m.umaxSrc then ok m (op.amt dst (m.uminSrc.setWidth 8))
  else if m.umaxSrc < 32 then ok m (op.first dst src ++ op.second dst src)
  else if m.uminSrc ≥ 32 then ok m (op.far dst src)
  else shiftBranches off m src op.dist (op.first dst src) (op.second dst src) (op.far dst src)

end ShiftOp

variable {n : BitVec 8} {sc : ShfSc} {op : ShfOp}

theorem shfAmount_shl (h0 : n ≠ 0) (hn : n < 32) (a : BitVec 32) : shfAmount .lShf n a = n.toNat := by
  have hall : ∀ k : Fin 32, (BitVec.ofNat 8 k) ≠ 0 → shfShift .lShf (BitVec.ofNat 8 k) ≠ 0 ∧
      32 - (shfShift .lShf (BitVec.ofNat 8 k)).toNat = (BitVec.ofNat 8 k).toNat := by decide
  have hk : n.toNat < 32 := hn
  have := hall ⟨n.toNat, hk⟩
  simp only [BitVec.ofNat_toNat, BitVec.setWidth_eq] at this
  obtain ⟨h1, h2⟩ := this h0
  simp only [shfAmount, if_neg h1, if_pos, h2]

theorem shfAmount_right (hsc : sc ≠ .lShf) (h0 : n ≠ 0) (a : BitVec 32) : shfAmount sc n a = n.toNat := by
  have h : shfShift sc n = n := if_neg (fun h => hsc h.1)
  simp only [shfAmount, h, if_neg h0, if_neg hsc]

section Direct

variable {d l r : BitVec 16} (hd : d < 0x20) (hl : l < 0x20) (hr : r < 0x20) {n : BitVec 8} (h0 : n ≠ 0) (hn : n < 32)
  (e : Engine)

include hd hr

theorem does_regMov : ∃ e', Does (wrpRegMov d r) e e' ∧ e'.core.n = (e.core.b r).msb ∧ Wrote e e' d (e.core.b r) := by
  obtain ⟨a, h⟩ := does_mov (.both (re_encoding hd).2.2.2.2) (.b (re_encoding hr).2.2.2.2) e
  exact ⟨_, h, rfl, rfl, rfl⟩

include h0 hn

theorem does_direct (hop : op = .none ∨ op = .ashr) (hsc : sc = .rShf ∨ sc = .lShf) :
    ∃ e', Does (emitShf (regBoth d) regNone op (regB r) sc n) e e' ∧ e'.core.n = e.core.n ∧
      Wrote e e' d (shfValue op sc e.core.n n.toNat 0 (e.core.b r)) := by
  have hamt : sc ≠ .rDshf ∧ shfAmount sc n e.prevA = n.toNat := by
    rcases hsc with rfl | rfl
    · exact ⟨ShfSc.noConfusion, shfAmount_right ShfSc.noConfusion h0 _⟩
    · exact ⟨ShfSc.noConfusion, shfAmount_shl h0 hn _⟩
  have h := does_shift hd hr e hop hamt.1 (show n.toNat ≤ 31 from Nat.le_of_lt_succ hn)
  rwa [hamt.2] at h

include hl

theorem does_direct_funnel :
    ∃ e', Does (emitShf (regBoth d) (regA l) .none (regB r) .rDshf n) e e' ∧
      Wrote e e' d (funnel (e.core.a l) (e.core.b r) n.toNat) := by
  have h := does_funnel hd hl hr e (show n.toNat ≤ 31 from Nat.le_of_lt_succ hn)
  rwa [shfAmount_right ShfSc.noConfusion h0] at h

end Direct

theorem amount_cases (hn : n < 64) (h0 : n ≠ 0) :
    (n < 32 ∧ 32 - n ≠ 0 ∧ 32 - n < 32 ∧ (32 - n).toNat = 32 - n.toNat) ∨ n = 32 ∨
      ¬n < 32 ∧ n ≠ 32 ∧ n - 32 ≠ 0 ∧ n - 32 < 32 ∧ (n - 32).toNat = n.toNat - 32 := by
  have hall : ∀ k : Fin 64, BitVec.ofNat 8 k ≠ 0 →
      (BitVec.ofNat 8 k < 32 ∧ 32 - BitVec.ofNat 8 k ≠ 0 ∧ 32 - BitVec.ofNat 8 k < 32 ∧
        (32 - BitVec.ofNat 8 k).toNat = 32 - (BitVec.ofNat 8 k).toNat) ∨ BitVec.ofNat 8 k = 32 ∨
      ¬BitVec.ofNat 8 k < 32 ∧ BitVec.ofNat 8 k ≠ 32 ∧ BitVec.ofNat 8 k - 32 ≠ 0 ∧ BitVec.ofNat 8 k - 32 < 32 ∧
        (BitVec.ofNat 8 k - 32).toNat = (BitVec.ofNat 8 k).toNat - 32 := by decide
  have hk : n.toNat < 64 := hn
  have := hall ⟨n.toNat, hk⟩
  simp only [BitVec.ofNat_toNat, BitVec.setWidth_eq] at this
  exact this h0

section Constant

variable {dst : BitVec 16} (hlow : dst < 0x20) (hhigh : dst + 1 < 0x20) (hne : dst ≠ dst + 1) {e : Engine}
  {x y : BitVec 32} (hp : Pair e dst x y) {n : BitVec 8} (hn : n < 64) (h0 : n ≠ 0)

include hlow hhigh hne hp hn h0

theorem does_shlAmt :
    ∃ e', Does (shlImm64Amt dst n) e e' ∧ Pair e' dst (lo ((y ++ x) <<< n.toNat)) (hi ((y ++ x) <<< n.toNat)) := by
  have h0' : 0 < n.toNat := Nat.pos_of_ne_zero fun h => h0 (BitVec.eq_of_toNat_eq h)
  rw [shlImm64Amt, if_neg h0]
  rcases amount_cases hn h0 with ⟨h32, hs0, hs32, hs⟩ | rfl | ⟨h32, hne32, hs0, hs32, hs⟩
  · rw [if_pos h32, lo_shl, hi_shl y x h0' h32]
    obtain ⟨e1, h1, hw1⟩ := does_direct_funnel hhigh hhigh hlow hs0 hs32 e
    rw [hs, hp.highA, hp.lowB] at hw1
    have hp1 := hp.putHigh hne hw1
    obtain ⟨e2, h2, -, hw2⟩ := does_direct hlow hlow h0 h32 e1 (.inl rfl) (.inr rfl)
    rw [hp1.lowB] at hw2
    exact ⟨e2, h1.append h2, hp1.putLow hne hw2⟩
  · rw [if_neg (by decide), if_pos rfl, lo_shl_far y x (by decide), hi_shl_far y x (by decide),
      show BitVec.toNat (32 : BitVec 8) - 32 = 0 from rfl, BitVec.shiftLeft_zero]
    obtain ⟨e1, h1, -, hw1⟩ := does_regMov hhigh hlow e
    rw [hp.lowB] at hw1
    have hp1 := hp.putHigh hne hw1
    obtain ⟨e2, h2, hw2⟩ := does_clear hlow _
    exact ⟨e2, h1.append h2, hp1.putLow hne hw2⟩
  · have hn32 : 32 ≤ n.toNat := not_lt.mp h32
    rw [if_neg h32, if_neg hne32, lo_shl_far y x hn32, hi_shl_far y x hn32]
    obtain ⟨e1, h1, -, hw1⟩ := does_direct hhigh hlow hs0 hs32 e (.inl rfl) (.inr rfl)
    rw [hp.lowB, hs] at hw1
    have hp1 := hp.putHigh hne hw1
    obtain ⟨e2, h2, hw2⟩ := does_clear hlow _
    exact ⟨e2, h1.append h2, hp1.putLow hne hw2⟩

theorem does_shrAmt :
    ∃ e', Does (shrImm64Amt dst n) e e' ∧ Pair e' dst (lo ((y ++ x) >>> n.toNat)) (hi ((y ++ x) >>> n.toNat)) := by
  rw [shrImm64Amt, if_neg h0, lo_shr, hi_shr]
  rcases amount_cases hn h0 with ⟨h32, -, -, -⟩ | rfl | ⟨h32, hne32, hs0, hs32, hs⟩
  · rw [if_pos h32]
    obtain ⟨e1, h1, hw1⟩ := does_direct_funnel hlow hhigh hlow h0 h32 e
    rw [hp.highA, hp.lowB] at hw1
    have hp1 := hp.putLow hne hw1
    obtain ⟨e2, h2, -, hw2⟩ := does_direct hhigh hhigh h0 h32 e1 (.inl rfl) (.inl rfl)
    rw [hp1.highB] at hw2
    exact ⟨e2, h1.append h2, hp1.putHigh hne hw2⟩
  · rw [if_neg (by decide), if_pos rfl, funnel_far y x (by decide),
      @BitVec.ushiftRight_eq_zero _ y (BitVec.toNat (32 : BitVec 8)) (by decide),
      show BitVec.toNat (32 : BitVec 8) - 32 = 0 from rfl, BitVec.ushiftRight_zero]
    obtain ⟨e1, h1, -, hw1⟩ := does_regMov hlow hhigh e
    rw [hp.highB] at hw1
    have hp1 := hp.putLow hne hw1
    obtain ⟨e2, h2, hw2⟩ := does_clear hhigh _
    exact ⟨e2, h1.append h2, hp1.putHigh hne hw2⟩
  · have hn32 : 32 ≤ n.toNat := not_lt.mp h32
    rw [if_neg h32, if_neg hne32, funnel_far y x hn32, @BitVec.ushiftRight_eq_zero _ y n.toNat hn32]
    obtain ⟨e1, h1, -, hw1⟩ := does_direct hlow hhigh hs0 hs32 e (.inl rfl) (.inl rfl)
    rw [hp.highB, hs] at hw1
    have hp1 := hp.putLow hne hw1
    obtain ⟨e2, h2, hw2⟩ := does_clear hhigh _
    exact ⟨e2, h1.append h2, hp1.putHigh hne hw2⟩

omit hlow hn in
theorem does_fill (hn : n < 32) (hsign : e.core.n = y.msb) :
    ∃ e', Does (emitShf (regBoth (dst + 1)) regNone .ashr (regB (dst + 1)) .rShf n) e e' ∧
      Pair e' dst x (y.sshiftRight n.toNat) := by
  obtain ⟨e1, h1, -, hw1⟩ := does_direct hhigh hhigh h0 hn e (.inr rfl) (.inl rfl)
  rw [hp.highB] at hw1
  change Wrote e e1 (dst + 1) (signFill e.core.n n.toNat y) at hw1
  rw [signFill_sign hsign] at hw1
  exact ⟨e1, h1, hp.putHigh hne hw1⟩

theorem does_ashrAmt :
    ∃ e', Does (ashrImm64Amt dst n) e e' ∧
      Pair e' dst (lo ((y ++ x).sshiftRight n.toNat)) (hi ((y ++ x).sshiftRight n.toNat)) := by
  have htap : ∀ {e : Engine} {x : BitVec 32}, Pair e dst x y →
      ∃ e', Does (emitAlu regNone (regA (dst + 1)) .or (regImm 0)) e e' ∧ Pair e' dst x y ∧ e'.core.n = y.msb := by
    intro e x hp
    obtain ⟨e1, h1, ha, hb, -, hsign⟩ := does_tap hhigh e (.imm (x := 0) (by decide)) RegKind.noConfusion
    refine ⟨e1, h1, ⟨by rw [ha, hp.lowA], by rw [hb, hp.lowB], by rw [ha, hp.highA], by rw [hb, hp.highB]⟩, ?_⟩
    rw [hsign, hp.highA]
    change (y ||| 0#32).msb = y.msb
    rw [BitVec.or_zero]
  rw [ashrImm64Amt, if_neg h0, hi_sshr]
  rcases amount_cases hn h0 with ⟨h32, -, -, -⟩ | rfl | ⟨h32, hne32, hs0, hs32, hs⟩
  · rw [if_pos h32, lo_sshr y x h32]
    obtain ⟨e1, h1, hw1⟩ := does_direct_funnel hlow hhigh hlow h0 h32 e
    rw [hp.highA, hp.lowB] at hw1
    obtain ⟨e2, h2, hp2, hsign⟩ := htap (hp.putLow hne hw1)
    obtain ⟨e3, h3, hp3⟩ := does_fill hhigh hne hp2 h0 h32 hsign
    exact ⟨e3, (h1.append h2).append h3, hp3⟩
  · rw [if_neg (by decide), if_pos rfl, lo_sshr_far y x (by decide),
      sshr_far y (n := BitVec.toNat (32 : BitVec 8)) (by decide),
      show BitVec.toNat (32 : BitVec 8) - 32 = 0 from rfl, BitVec.sshiftRight_zero]
    obtain ⟨e1, h1, hsign, hw1⟩ := does_regMov hlow hhigh e
    rw [hp.highB] at hw1 hsign
    obtain ⟨e2, h2, hp2⟩ := does_fill hhigh hne (hp.putLow hne hw1) (n := 31) (by decide) (by decide) hsign
    exact ⟨e2, h1.append h2, hp2⟩
  · have hn32 : 32 ≤ n.toNat := not_lt.mp h32
    rw [if_neg h32, if_neg hne32, lo_sshr_far y x hn32, sshr_far y (n := n.toNat) (by omega)]
    obtain ⟨e1, h1, hp1, hsign⟩ := htap hp
    obtain ⟨e2, h2, hsign2, hw2⟩ := does_direct hlow hhigh hs0 hs32 e1 (.inr rfl) (.inl rfl)
    rw [hp1.highB, hs] at hw2
    change Wrote e1 e2 dst (signFill e1.core.n (n.toNat - 32) y) at hw2
    rw [signFill_sign hsign] at hw2
    obtain ⟨e3, h3, hp3⟩ := does_fill hhigh hne (hp1.putLow hne hw2) (n := 31) (by decide) (by decide)
      (hsign2.trans hsign)
    exact ⟨e3, (h1.append h2).append h3, hp3⟩

omit h0 in
theorem does_amount (op : ShiftOp) :
    ∃ e', Does (op.amt dst n) e e' ∧ Pair e' dst (lo (op.value (y ++ x) n.toNat)) (hi (op.value (y ++ x) n.toNat)) := by
  by_cases h0 : n = 0
  · have hnil : op.amt dst n = [] := by
      rw [h0]
      cases op <;> rfl
    have hval : op.value (y ++ x) n.toNat = y ++ x := by
      rw [h0]
      cases op with
      | lsh => exact BitVec.shiftLeft_zero _
      | rsh => exact BitVec.ushiftRight_zero _
      | arsh => exact BitVec.sshiftRight_zero
    rw [hnil, hval, lo_append, hi_append]
    exact ⟨e, .nil e, hp⟩
  · cases op with
    | lsh => exact does_shlAmt hlow hhigh hne hp hn h0
    | rsh => exact does_shrAmt hlow hhigh hne hp hn h0
    | arsh => exact does_ashrAmt hlow hhigh hne hp hn h0

end Constant

theorem ops_length {c : Code} (h : hasError c = false) : (ops c).length = c.length := by
  induction c with
  | nil => rfl
  | cons f c ih =>
    cases f with
    | push op relo => rw [ops_push, length_cons, length_cons, ih h]
    | fault e => exact absurd h Bool.noConfusion

theorem hasError_append (c d : Code) : hasError (c ++ d) = (hasError c || hasError d) := List.any_append

theorem emitShf_big {dst l r : Swreg} (hn : n > 0x1f) : hasError (emitShf dst l op r sc n) = true := by
  rw [emitShf]
  split
  · rfl
  · rw [if_pos hn]
    rfl

theorem amt_error (op : ShiftOp) (dst : BitVec 16) (hn : ¬n < 64) : hasError (op.amt dst n) = true := by
  have hn' : 64 ≤ n.toNat := not_lt.mp hn
  have h0 : n ≠ 0 := by
    rintro rfl
    exact absurd hn' (by decide)
  have h32 : ¬n < 32 := not_lt.mpr (le_trans (by decide) hn')
  have hne : n ≠ 32 := by
    rintro rfl
    exact absurd hn' (by decide)
  have hbig : n - 32 > 0x1f := by
    rw [gt_iff_lt, BitVec.lt_def, BitVec.toNat_sub, show (32 : BitVec 8).toNat = 32 from rfl,
      show (0x1f : BitVec 8).toNat = 31 from rfl]
    omega
  cases op with
  | lsh =>
    rw [ShiftOp.amt, shlImm64Amt, if_neg h0, if_neg h32, if_neg hne, hasError_append, emitShf_big hbig, Bool.true_or]
  | rsh =>
    rw [ShiftOp.amt, shrImm64Amt, if_neg h0, if_neg h32, if_neg hne, hasError_append, emitShf_big hbig, Bool.true_or]
  | arsh =>
    rw [ShiftOp.amt, ashrImm64Amt, if_neg h0, if_neg h32, if_neg hne, hasError_append, hasError_append,
      emitShf_big hbig, Bool.or_true, Bool.true_or]

section Branches

variable {src : BitVec 16} (hs : src < 0x20)

def bitFive : BitVec 16 := ((reRegImmEncode 6).setWidth 8).setWidth 16

include hs

theorem emitBrBset_eq (tgt : BitVec 16) :
    emitBrBset (regA src) 5 tgt 0 = [.push (.brBit src bitFive tgt 0 true false) .brRel] := by
  simp [emitBrBset, emitBrBitRelo, swregToRestricted, rereg_regA hs, (re_encoding hs).2.2.2.1]
  rfl

theorem bitSet_five (e : Engine) : e.bitSet src bitFive = (e.core.a src).getLsbD 5 := by
  rw [bitSet, readRe_gpr hs]
  rfl

variable {off : Nat} {m : Meta} {dist : Nat} {first second far : Code} {e near' far' : Engine}

theorem shiftBranches_runs (hnear : Does (first ++ second) e near') (hfar : Does far e far') (hlen : second.length = 2)
    (hok : (shiftBranches off m src dist first second far).ret = none) :
    runBlock (ops (shiftBranches off m src dist first second far).code) off e =
      some (if (e.core.a src).getLsbD 5 then far' else near') := by
  have hclean := hnear.clean
  rw [hasError_append, Bool.or_eq_false_iff] at hclean
  have hsecond : (ops second).length = 2 := (ops_length hclean.2).trans hlen
  obtain ⟨tgt, htgt⟩ : ∃ t : BitVec 16, BitVec.ofNat 16 (off + dist) = t := ⟨_, rfl⟩
  obtain ⟨fin, hfin⟩ : ∃ t : BitVec 16,
      BitVec.ofNat 16 (currentOffset off (emitBrBset (regA src) 5 tgt 0 ++ first) + 6) = t := ⟨_, rfl⟩
  have hbr : emitBr .unc fin 2 = [.push (.br .unc .uncond brCssNone fin 2) .brRel] := rfl
  have hc2 : hasError (emitBrBset (regA src) 5 tgt 0 ++ first ++ emitBr .unc fin 2 ++ second) = false := by
    simp only [emitBrBset_eq hs, hbr, hasError_append, hclean.1, hclean.2]
    rfl
  have hc3 : hasError (emitBrBset (regA src) 5 tgt 0 ++ first ++ emitBr .unc fin 2 ++ second ++ far) = false := by
    rw [hasError_append, hc2, hfar.clean]
    rfl
  simp only [shiftBranches, htgt, hfin, confirmCurrentOffset, hc2, hc3, Bool.false_or] at hok ⊢
  split at hok
  · cases hok
  next hlab =>
  split at hok
  · cases hok
  next hend =>
  rw [if_neg hlab, if_neg hend]
  simp only [Bool.not_eq_true', beq_eq_false_iff_ne, ne_eq, not_not, currentOffset, emitBrBset_eq hs, hbr, ops_append,
    ops_push, ops_nil, length_append, length_cons, length_nil, hsecond] at hlab hend
  have hcode : ops (ok m (emitBrBset (regA src) 5 tgt 0 ++ first ++ emitBr .unc fin 2 ++ second ++ far)).code =
      branches src bitFive tgt fin .uncond brCssNone (ops first) (ops second) (ops far) := by
    simp only [ok, emitBrBset_eq hs, hbr, ops_append, ops_push, branches, cons_append, nil_append, append_assoc]
  rw [hcode]
  cases hbit : (e.core.a src).getLsbD 5 with
  | true =>
    rw [runBlock_set hsecond (by omega) (by rw [bitSet_five hs, hbit]) hfar.runs]
    rfl
  | false =>
    have hruns := hnear.runs
    rw [ops_append] at hruns
    rw [runBlock_clear hsecond (by omega) (by rw [bitSet_five hs, hbit]) hruns]
    rfl

theorem shiftBranches_emitted (hfirst : hasError first = false) (hsecond : hasError second = false)
    (hfar : hasError far = false) (hdist : (ops first).length + 4 = dist) (htwo : (ops second).length = 2)
    (hthree : (ops far).length = 3) (hsmall : dist < 100) :
    (shiftBranches 0 m src dist first second far).ret = none ∧
      hasError (shiftBranches 0 m src dist first second far).code = false := by
  obtain ⟨tgt, htgt⟩ : ∃ t : BitVec 16, BitVec.ofNat 16 (0 + dist) = t := ⟨_, rfl⟩
  obtain ⟨fin, hfin⟩ : ∃ t : BitVec 16,
      BitVec.ofNat 16 (currentOffset 0 (emitBrBset (regA src) 5 tgt 0 ++ first) + 6) = t := ⟨_, rfl⟩
  have hbr : emitBr .unc fin 2 = [.push (.br .unc .uncond brCssNone fin 2) .brRel] := rfl
  have hlab : currentOffset 0 (emitBrBset (regA src) 5 tgt 0 ++ first ++ emitBr .unc fin 2 ++ second) = tgt.toNat := by
    simp only [currentOffset, emitBrBset_eq hs, hbr, ops_append, ops_push, ops_nil, length_append,
      length_cons, length_nil, htwo, ← htgt, BitVec.toNat_ofNat]
    omega
  have hfin' : fin.toNat = (ops first).length + 7 := by
    simp only [← hfin, currentOffset, emitBrBset_eq hs, ops_append, ops_push, ops_nil, length_append,
      length_cons, length_nil, BitVec.toNat_ofNat]
    omega
  have hend : currentOffset 0 (emitBrBset (regA src) 5 tgt 0 ++ first ++ emitBr .unc fin 2 ++ second ++ far) =
      fin.toNat := by
    simp only [currentOffset, emitBrBset_eq hs, hbr, ops_append, ops_push, ops_nil, length_append,
      length_cons, length_nil, htwo, hthree, hfin']
    omega
  simp only [shiftBranches, htgt, hfin, confirmCurrentOffset, hlab, hend, beq_self_eq_true, Bool.or_true, Bool.not_true,
    Bool.false_eq_true, if_false, ok, true_and]
  simp only [hasError_append, emitBrBset_eq hs, hbr, hfirst, hsecond, hfar]
  rfl

end Branches

end NfpDriver.Lower
