import NfpDriver.Machine.Straight
import NfpDriver.Lower.Divisor

namespace NfpDriver.Lower

open Asm Bpf Jit Adder Machine Reciprocal Engine Function Nat

def isPowerOfTwo (imm : BitVec 64) : Prop := imm = 1 <<< (reciprocalValueAdv (lo imm) 32).exp.toNat

instance (imm : BitVec 64) : Decidable (isPowerOfTwo imm) := inferInstanceAs (Decidable (_ = _))

def finalShift (imm : BitVec 64) : BitVec 8 :=
  if isPowerOfTwo imm then (reciprocalValueAdv (lo imm) 32).exp
  else if (divRvalue reciprocalValueAdv imm).isWideM then (divRvalue reciprocalValueAdv imm).sh - 1
  else (divRvalue reciprocalValueAdv imm).sh

def divTail (dst : BitVec 16) (imm : BitVec 64) (magic : Swreg) : Code :=
  if isPowerOfTwo imm then emitShf (regBoth dst) regNone .none (regA dst) .rShf (reciprocalValueAdv (lo imm) 32).exp
  else if (divRvalue reciprocalValueAdv imm).isWideM then
    wrpMulU32 immBoth regNone (regA dst) magic true ++ emitAlu (regBoth dst) (regA dst) .sub immB ++
      emitShf (regBoth dst) regNone .none (regA dst) .rShf 1 ++ emitAlu (regBoth dst) (regA dst) .add immB ++
      emitShf (regBoth dst) regNone .none (regA dst) .rShf ((divRvalue reciprocalValueAdv imm).sh - 1)
  else
    (if divPreShift reciprocalValueAdv imm ≠ 0
      then emitShf (regBoth dst) regNone .none (regA dst) .rShf (divPreShift reciprocalValueAdv imm) else []) ++
      wrpMulU32 (regBoth dst) regNone (regA dst) magic true ++
      emitShf (regBoth dst) regNone .none (regA dst) .rShf (divRvalue reciprocalValueAdv imm).sh

variable {imm : BitVec 64} {n : BitVec 8} {g : BitVec 16}

theorem wrpDivImm_eq (h : ¬imm > 0x80000000) (dst : BitVec 16) :
    wrpDivImm reciprocalValueAdv dst imm =
      (urLoadImmAny (divRvalue reciprocalValueAdv imm).m immB).1 ++
        divTail dst imm (urLoadImmAny (divRvalue reciprocalValueAdv imm).m immB).2 := by
  have hbig : ¬imm > 0xffffffff := by
    intro hc
    have h1 : ¬2147483648 < imm.toNat := h
    have h2 : 4294967295 < imm.toNat := hc
    omega
  simp only [wrpDivImm, if_neg hbig, if_neg h, divTail, isPowerOfTwo, divRvalue, divPreShift]
  by_cases hpre : ((reciprocalValueAdv (lo imm) 32).isWideM && imm &&& 1 == 0) = true
  · simp only [if_pos hpre]
  · simp only [if_neg hpre]

theorem shfAmount_direct (hn : n ≠ 0) (a : BitVec 32) : shfAmount .rShf n a = n.toNat := by
  have h : shfShift .rShf n = n := if_neg (fun h => ShfSc.noConfusion h.1)
  simp only [shfAmount, h, if_neg hn, reduceCtorEq, if_false]

theorem shfAmount_indirect (a : BitVec 32) : shfAmount .rShf 0 a = a.toNat % 32 := rfl

theorem does_shr (hg : g < 0x20) (hn : n ≤ 0x1f) (e : Engine) :
    Does (emitShf (regBoth g) regNone .none (regA g) .rShf n) e
      (e.put (regBoth g) (e.core.a g >>> shfAmount .rShf n e.prevA)) :=
  does_shfA hg hg .none .rShf hn e

structure Quotient (g : BitVec 16) (imm : BitVec 64) (x : BitVec 32) (prevA : BitVec 32) (e' : Engine) : Prop where
  shifted : ∃ v a : BitVec 32, e'.core.a g = v >>> shfAmount .rShf (finalShift imm) a ∧ e'.core.b g = e'.core.a g ∧
    v.toNat / 2 ^ (finalShift imm).toNat = x.toNat / imm.toNat ∧ (finalShift imm = 0 → a = prevA)

theorem Quotient.put {x prevA v a : BitVec 32} (e : Engine)
    (hv : v.toNat / 2 ^ (finalShift imm).toNat = x.toNat / imm.toNat) (ha : finalShift imm = 0 → a = prevA) :
    Quotient g imm x prevA (e.put (regBoth g) (v >>> shfAmount .rShf (finalShift imm) a)) := by
  refine ⟨v, a, ?_, ?_, hv, ha⟩
  · rw [Engine.put, put_regBoth_a, update_self]
  · rw [Engine.put, put_regBoth_b, put_regBoth_a, update_self, update_self]

section Tail

variable {imm : BitVec 64} (h0 : imm ≠ 0) (hmax : ¬imm > 0x80000000)

include h0 hmax

theorem divisor_of_imm : Divisor (lo imm) ∧ (lo imm).toNat = imm.toNat ∧ imm.toNat ≤ 2 ^ 31 := by
  have h1 : imm.toNat ≤ 2 ^ 31 := BitVec.not_lt.mp hmax
  have h2 : imm.toNat ≠ 0 := fun hc => h0 (BitVec.eq_of_toNat_eq hc)
  have h3 : (lo imm).toNat = imm.toNat := by
    rw [lo_toNat]
    omega
  exact ⟨⟨by omega, by omega⟩, h3, h1⟩

theorem reciprocates_first : ∃ M, Reciprocates (lo imm) 32 (reciprocalValueAdv (lo imm) 32) M := by
  obtain ⟨hd, -, -⟩ := divisor_of_imm h0 hmax
  obtain ⟨M, hM, -⟩ := hd.reciprocates 32 (lt_succ_of_le hd.log.2.2) (by decide)
  exact ⟨M, hM⟩

theorem powerOfTwo_iff : isPowerOfTwo imm ↔ imm.toNat = 2 ^ fls (lo imm - 1) := by
  obtain ⟨hd, hlo, -⟩ := divisor_of_imm h0 hmax
  obtain ⟨M, hM⟩ := reciprocates_first h0 hmax
  have hl := hd.log.2.2
  have hpow : 2 ^ fls (lo imm - 1) < 2 ^ 64 := Nat.pow_lt_pow_right (by decide) (by omega)
  rw [isPowerOfTwo, hM.exp, ← BitVec.toNat_inj, BitVec.natCast_eq_ofNat, BitVec.toNat_ofNat, shiftLeft_eq,
    one_mul, mod_eq_of_lt hpow]

theorem power_of_log {p : Nat} (h : imm.toNat = 2 ^ p) : isPowerOfTwo imm := by
  rw [powerOfTwo_iff h0 hmax, h]
  obtain ⟨hd, hlo, -⟩ := divisor_of_imm h0 hmax
  obtain ⟨hle, hlt, -⟩ := hd.log
  rw [hlo, h] at hle hlt
  congr 1
  apply le_antisymm
  · exact (Nat.pow_le_pow_iff_right (by decide)).mp hle
  · rcases hlt with hz | hlt
    · omega
    · have := (Nat.pow_lt_pow_iff_right (by decide)).mp hlt
      omega

structure Scaled (imm : BitVec 64) (p d : Nat) (M : Nat) : Prop where
  split : imm.toNat = 2 ^ p * d
  pos : 0 < d
  preShift : (divPreShift reciprocalValueAdv imm).toNat = p
  small : p ≤ 31
  mult : Multiplies d M (2 ^ (32 + (divRvalue reciprocalValueAdv imm).sh.toNat)) (2 ^ (32 - p))
  sh : (divRvalue reciprocalValueAdv imm).sh.toNat ≤ 31
  m : M = (divRvalue reciprocalValueAdv imm).m.toNat +
    (if (divRvalue reciprocalValueAdv imm).isWideM then 2 ^ 32 else 0)
  wide : (divRvalue reciprocalValueAdv imm).isWideM = true → ¬isPowerOfTwo imm → p = 0

theorem scaled : ∃ p d M, Scaled imm p d M := by
  obtain ⟨hd, hlo, hmax'⟩ := divisor_of_imm h0 hmax
  by_cases hpre : ((reciprocalValueAdv (lo imm) 32).isWideM && imm &&& 1 == 0) = true
  · obtain ⟨⟨q, hq⟩, hp⟩ := evenPart h0 hmax'
    have hps : divPreShift reciprocalValueAdv imm = BitVec.ofNat 8 (fls (lo (imm &&& -imm))) - 1 := by
      rw [divPreShift, if_pos hpre]
    rw [← hps] at hq hp
    generalize hk : divPreShift reciprocalValueAdv imm = k at hq hp
    have hrv : divRvalue reciprocalValueAdv imm = reciprocalValueAdv (lo (imm >>> k.toNat)) (32 - k) := by
      rw [divRvalue, if_pos hpre, hk]
    have hodd : (imm >>> k.toNat).toNat = 2 * q + 1 := by
      rw [BitVec.toNat_ushiftRight, shiftRight_eq_div_pow, hq, Nat.mul_div_cancel_left _ (Nat.two_pow_pos _)]
    have hbound : 2 * q + 1 ≤ 2 ^ (31 - k.toNat) := by
      apply Nat.le_of_mul_le_mul_left (c := 2 ^ k.toNat) _ (Nat.two_pow_pos _)
      rw [← hq, ← pow_add]
      calc imm.toNat ≤ 2 ^ 31 := hmax'
        _ = 2 ^ (k.toNat + (31 - k.toNat)) := by congr 1; omega
    have hsmall : 2 * q + 1 ≤ 2 ^ 31 := hbound.trans (Nat.pow_le_pow_right (by decide) (by omega))
    have hlo' : (lo (imm >>> k.toNat)).toNat = 2 * q + 1 := by
      rw [lo_toNat, hodd]
      omega
    have hdiv : Divisor (lo (imm >>> k.toNat)) := ⟨by omega, by omega⟩
    have hprec : (32 - k : BitVec 8).toNat = 32 - k.toNat := by
      rw [BitVec.toNat_sub, show (32 : BitVec 8).toNat = 32 from rfl]
      omega
    have hfls : fls (lo (imm >>> k.toNat) - 1) ≤ 31 - k.toNat := by
      rcases hdiv.log.2.1 with hz | hlt
      · omega
      · rw [hlo'] at hlt
        have := (Nat.pow_lt_pow_iff_right (show 1 < 2 by decide)).mp (hlt.trans_le hbound)
        omega
    obtain ⟨M, hM, hnarrow⟩ := hdiv.reciprocates (32 - k) (by rw [hprec]; omega) (by rw [hprec]; omega)
    have hkpos : 1 ≤ k.toNat := by
      by_contra hc
      rw [Bool.and_eq_true, beq_iff_eq] at hpre
      have hbit := congrArg BitVec.toNat hpre.2
      rw [BitVec.toNat_and, show (1 : BitVec 64).toNat = 1 from rfl, and_one_is_mod, hq,
        show k.toNat = 0 by omega, show (0 : BitVec 64).toNat = 0 from rfl] at hbit
      omega
    refine ⟨k.toNat, 2 * q + 1, M, hq, by omega, by rw [hk], hp, ?_, ?_, ?_, ?_⟩
    · have hmul := hM.multiplies
      rwa [hprec, hlo', ← hrv] at hmul
    · rw [hrv]
      have := hM.sh
      omega
    · rw [hrv]
      exact hM.m
    · intro hw hnp
      exfalso
      rw [hrv] at hw
      by_cases hz : 1 ≤ fls (lo (imm >>> k.toNat) - 1)
      · rw [hnarrow (by rw [hprec]; omega) hz] at hw
        exact Bool.false_ne_true hw
      have hone := hdiv.log.1
      rw [show fls (lo (imm >>> k.toNat) - 1) = 0 by omega, hlo'] at hone
      obtain rfl : q = 0 := by omega
      exact hnp (power_of_log h0 hmax (p := k.toNat) (by rw [hq, Nat.mul_one]))
  · obtain ⟨M, hM⟩ := reciprocates_first h0 hmax
    have hrv : divRvalue reciprocalValueAdv imm = reciprocalValueAdv (lo imm) 32 := by rw [divRvalue, if_neg hpre]
    have hps : (divPreShift reciprocalValueAdv imm).toNat = 0 := by rw [divPreShift, if_neg hpre]; rfl
    refine ⟨0, imm.toNat, M, by omega, by have := hd.pos; omega, hps, by decide, ?_, ?_, ?_, fun _ _ => rfl⟩
    · have hmul := hM.multiplies
      rwa [hlo, ← hrv] at hmul
    · rw [hrv]
      exact hM.sh.trans hd.log.2.2
    · rw [hrv]
      exact hM.m

end Tail

structure Magic (magic : Swreg) (e : Engine) (m : BitVec 32) : Prop where
  operand : Operand magic
  notA : magic.type ≠ .gprA
  value : ∀ st : State, st.b staticRegImm = e.core.b staticRegImm → st.src magic = m

theorem does_loadMagic (m : BitVec 32) (e : Engine) :
    ∃ e', Does (urLoadImmAny m immB).1 e e' ∧ e'.core.a = e.core.a ∧ e'.prevA = e.prevA ∧
      Magic (urLoadImmAny m immB).2 e' m := by
  obtain ⟨e', hdoes, hcore, hprev⟩ := does_urLoadImmAny m e
  obtain ⟨hop, hna⟩ := operand_urLoadImmAny m
  refine ⟨e', hdoes, by rw [hcore, loadImm_a], hprev, hop, hna, ?_⟩
  intro st hst
  have hval := src_urLoadImmAny e.core m
  rw [urLoadImmAny] at hval ⊢
  split
  · next h =>
    rw [if_pos h] at hval
    exact hval
  · next h =>
    rw [if_neg h] at hval
    change st.b staticRegImm = m
    rw [hst, hcore]
    exact hval

abbrev divRv (imm : BitVec 64) : ReciprocalValueAdv := divRvalue reciprocalValueAdv imm

section Emitted

variable {imm : BitVec 64} (h0 : imm ≠ 0) (hmax : ¬imm > 0x80000000) {g : BitVec 16} (hg : g < 0x20)
  (hne : g ≠ staticRegImm) {magic : Swreg} {e : Engine}

include h0 hmax hg

theorem does_power (hp : isPowerOfTwo imm) :
    ∃ e', Does (divTail g imm magic) e e' ∧ Quotient g imm (e.core.a g) e.prevA e' := by
  obtain ⟨M, hM⟩ := reciprocates_first h0 hmax
  have hl := (divisor_of_imm h0 hmax).1.log.2.2
  have hfs : finalShift imm = (reciprocalValueAdv (lo imm) 32).exp := if_pos hp
  rw [divTail, if_pos hp, ← hfs]
  refine ⟨_, does_shr hg ?_ e, Quotient.put e ?_ fun _ => rfl⟩
  · rw [hfs, BitVec.le_def, hM.exp]
    exact hl
  · rw [hfs, hM.exp, (powerOfTwo_iff h0 hmax).mp hp]

include hne

theorem does_narrow (hmag : Magic magic e (divRv imm).m) (hp : ¬isPowerOfTwo imm)
    (hw : (divRv imm).isWideM = false) :
    ∃ e', Does (divTail g imm magic) e e' ∧ Quotient g imm (e.core.a g) e.prevA e' := by
  obtain ⟨p, d, M, hs⟩ := scaled h0 hmax
  have hfs : finalShift imm = (divRv imm).sh := by
    rw [finalShift, if_neg hp, if_neg (by rw [hw]; exact Bool.false_ne_true)]
  obtain ⟨e1, hdoes, hprev, hb, ha⟩ : ∃ e1, Does (if divPreShift reciprocalValueAdv imm ≠ 0
      then emitShf (regBoth g) regNone .none (regA g) .rShf (divPreShift reciprocalValueAdv imm) else []) e e1 ∧
      e1.prevA = e.prevA ∧ e1.core.b staticRegImm = e.core.b staticRegImm ∧
      (e1.core.a g).toNat = (e.core.a g).toNat / 2 ^ p := by
    by_cases hz : divPreShift reciprocalValueAdv imm = 0
    · rw [if_neg (not_not.mpr hz)]
      have hp0 := hs.preShift
      rw [hz] at hp0
      exact ⟨e, .nil e, rfl, rfl, by rw [← hp0]; simp⟩
    rw [if_pos hz]
    have hle : divPreShift reciprocalValueAdv imm ≤ 0x1f := by
      rw [BitVec.le_def, hs.preShift]
      exact hs.small
    refine ⟨_, does_shr hg hle e, rfl, ?_, ?_⟩
    · rw [Engine.put, put_regBoth_b, update_of_ne hne.symm]
    · rw [Engine.put, put_regBoth_a, update_self, shfAmount_direct hz, BitVec.toNat_ushiftRight,
        shiftRight_eq_div_pow, hs.preShift]
  have hsh : (divRv imm).sh ≤ 0x1f := hs.sh
  obtain ⟨st, hmul, hsta, -, -⟩ := @does_mulHigh (regBoth g) (regA g) magic (.both (re_encoding hg).2.2.2.2)
    (.a (re_encoding hg).2.2.2.2) hmag.operand hmag.notA.symm e1
  have hprod : (st.a g).toNat = (e.core.a g).toNat / 2 ^ p * M / 2 ^ 32 := by
    have hm : M = (divRv imm).m.toNat := by
      rw [hs.m, hw]
      rfl
    rw [hsta, put_regBoth_a, update_self, hi_toNat, mul_toNat, hmag.value _ hb, src_regA, ha, hm]
  have hlast := does_shr hg hsh { e1 with core := st }
  rw [divTail, if_neg hp, if_neg (by rw [hw]; exact Bool.false_ne_true)]
  refine ⟨_, (hdoes.append hmul).append hlast, ?_⟩
  rw [← hfs]
  refine Quotient.put _ ?_ fun _ => hprev
  have hx := (e.core.a g).isLt
  have hlt : (e.core.a g).toNat / 2 ^ p < 2 ^ (32 - p) := by
    have := hs.small
    rw [Nat.div_lt_iff_lt_mul (Nat.two_pow_pos p), ← pow_add]
    exact hx.trans_eq (by congr 1; omega)
  rw [hfs, hprod, Nat.div_div_eq_div_mul, ← pow_add, hs.mult.quotient hs.pos hlt, Nat.div_div_eq_div_mul, ← hs.split]

omit h0 hmax in
theorem does_aluTemp (op : AluOp) :
    ∃ e', Does (emitAlu (regBoth g) (regA g) op immB) e e' ∧
      e'.core.a g = (aluResult op (e.core.a g) (e.core.b staticRegImm) e.core.c).sum ∧
      e'.core.b staticRegImm = e.core.b staticRegImm := by
  have hg' := (re_encoding hg).2.2.2.2
  refine ⟨_, does_emitAlu (.both hg') (.a hg') (.b (by decide)) RegKind.noConfusion op e, ?_, ?_⟩
  · rw [aluDone, aluTo_regBoth_a, update_self]
    rfl
  · rw [aluDone, aluTo_regBoth_b, update_of_ne hne.symm]

omit hg hne in
theorem wide_shift {d M : Nat} (hs : Scaled imm 0 d M) (hp : ¬isPowerOfTwo imm)
    (hw : (divRv imm).isWideM = true) : 2 ≤ (divRv imm).sh.toNat := by
  have hsplit := hs.split
  have hM : 2 ^ 32 ≤ M := by
    rw [hs.m, hw, if_pos rfl]
    omega
  have hnear := hs.mult.near
  have hmul : 2 ^ 32 * d ≤ M * d := Nat.mul_le_mul_right _ hM
  have hsh := hs.sh
  generalize (divRv imm).sh.toNat = sh at hnear hsh ⊢
  rw [pow_add, Nat.sub_zero] at hnear
  by_contra hc
  have hsmall : d = 1 ∨ d = 2 := by
    have hpos := hs.pos
    have : 2 ^ sh ≤ 2 ^ 1 := Nat.pow_le_pow_right (by decide) (by omega)
    omega
  rcases hsmall with rfl | rfl
  · exact hp (power_of_log h0 hmax (p := 0) hsplit)
  · exact hp (power_of_log h0 hmax (p := 1) hsplit)

theorem does_wide (hmag : Magic magic e (divRv imm).m) (hp : ¬isPowerOfTwo imm)
    (hw : (divRv imm).isWideM = true) :
    ∃ e', Does (divTail g imm magic) e e' ∧ Quotient g imm (e.core.a g) e.prevA e' := by
  obtain ⟨p, d, M, hs⟩ := scaled h0 hmax
  obtain rfl := hs.wide hw hp
  have hsh := wide_shift h0 hmax hs hp hw
  have hfs : finalShift imm = (divRv imm).sh - 1 := by
    rw [finalShift, if_neg hp, if_pos hw]
  have hfsn : (finalShift imm).toNat = (divRv imm).sh.toNat - 1 := by
    rw [hfs, BitVec.toNat_sub, show (1 : BitVec 8).toNat = 1 from rfl]
    omega
  have hg' := (re_encoding hg).2.2.2.2
  obtain ⟨st, hmul, hsta, hstb, -⟩ := @does_mulHigh immBoth (regA g) magic (.both (by decide)) (.a hg') hmag.operand
    hmag.notA.symm e
  obtain ⟨t, ht⟩ := @exists_eq' _ (hi ((e.core.src (regA g)).setWidth 64 * (e.core.src magic).setWidth 64))
  rw [ht] at hsta hstb
  have ha1 : st.a g = e.core.a g := by rw [hsta]; exact update_of_ne hne _ _
  have hb1 : st.b staticRegImm = t := by rw [hstb]; exact update_self staticRegImm t e.core.b
  obtain ⟨e2, hsub, ha2, hb2⟩ := does_aluTemp hg hne (e := { e with core := st }) .sub
  rw [ha1, hb1] at ha2
  have hshr := does_shr hg (show (1 : BitVec 8) ≤ 0x1f by decide) e2
  obtain ⟨e3, he3⟩ := @exists_eq' _ (e2.put (regBoth g) (e2.core.a g >>> shfAmount .rShf 1 e2.prevA))
  rw [he3] at hshr
  have ha3 : e3.core.a g = e2.core.a g >>> 1 := by
    rw [← he3, Engine.put, put_regBoth_a, update_self, shfAmount_direct (by decide)]
    rfl
  have hb3 : e3.core.b staticRegImm = t := by
    rw [← he3, Engine.put, put_regBoth_b, update_of_ne hne.symm, hb2]
    exact hb1
  obtain ⟨e4, hadd, ha4, -⟩ := does_aluTemp hg hne (e := e3) .add
  rw [hb3, ha3, ha2] at ha4
  have hsmall : finalShift imm ≤ 0x1f := by
    have : (divRv imm).sh.toNat ≤ 31 := hs.sh
    rw [BitVec.le_def, hfsn]
    change _ ≤ 31
    omega
  have hlast := does_shr hg hsmall e4
  rw [divTail, if_neg hp, if_pos hw, ← hfs]
  refine ⟨_, (((hmul.append hsub).append hshr).append hadd).append hlast, Quotient.put _ ?_ ?_⟩
  · have hx := (e.core.a g).isLt
    have hm := (divRv imm).m.isLt
    have htn : t.toNat = (e.core.a g).toNat * (divRv imm).m.toNat / 2 ^ 32 := by
      rw [← ht, hi_toNat, mul_toNat, hmag.value _ rfl, src_regA]
    obtain ⟨hq, hle, hlt⟩ := wide_quotient (s := (finalShift imm).toNat) hx hm
    rw [← htn] at hq hle hlt
    have hv : (e4.core.a g).toNat = ((e.core.a g).toNat - t.toNat) / 2 + t.toNat := by
      rw [ha4]
      change (adc _ _ false).sum.toNat = _
      rw [add_sum]
      change ((adc _ _ true).sum >>> 1 + t).toNat = _
      rw [sub_sum, BitVec.toNat_add, BitVec.toNat_ushiftRight, shiftRight_eq_div_pow,
        BitVec.toNat_sub_of_le hle, pow_one]
      exact mod_eq_of_lt hlt
    rw [hv, hq, hfsn, show 32 + ((divRv imm).sh.toNat - 1 + 1) =
      32 + (divRv imm).sh.toNat by omega]
    have hM : 2 ^ 32 + (divRv imm).m.toNat = M := by
      rw [hs.m, hw, if_pos rfl, add_comm]
    have hsplit := hs.split
    rw [pow_zero, one_mul] at hsplit
    rw [hM, hs.mult.quotient hs.pos hx, hsplit]
  · intro hz
    rw [hz] at hfsn
    have h00 : (0 : BitVec 8).toNat = 0 := rfl
    omega

theorem does_divTail : ∃ e', Does (wrpDivImm reciprocalValueAdv g imm) e e' ∧
    Quotient g imm (e.core.a g) e.prevA e' := by
  rw [wrpDivImm_eq hmax]
  obtain ⟨e1, hload, ha, hprev, hmag⟩ := does_loadMagic (divRv imm).m e
  obtain ⟨e2, htail, hq⟩ : ∃ e2, Does (divTail g imm (urLoadImmAny (divRv imm).m immB).2) e1 e2 ∧
      Quotient g imm (e1.core.a g) e1.prevA e2 := by
    by_cases hp : isPowerOfTwo imm
    · exact does_power h0 hmax hg hp
    · cases hw : (divRv imm).isWideM with
      | true => exact does_wide h0 hmax hg hne hmag hp hw
      | false => exact does_narrow h0 hmax hg hne hmag hp hw
  rw [ha, hprev] at hq
  exact ⟨e2, hload.append htail, hq⟩

omit h0 hmax hne

theorem does_compare (hbig : imm > 0x80000000) (hmax : imm ≤ 0xffffffff) :
    ∃ e', Does (wrpDivImm reciprocalValueAdv g imm) e e' ∧ e'.core.a g = e.core.a g / lo imm ∧
      e'.core.b g = e.core.a g / lo imm := by
  have hg' := (re_encoding hg).2.2.2.2
  obtain ⟨e1, hload, hcore, -⟩ := does_urLoadImmAny (lo imm) e
  obtain ⟨hop, hna⟩ := operand_urLoadImmAny (lo imm)
  have hsub := does_emitAlu .none (.a hg') hop hna.symm .sub e1
  rw [hcore, src_urLoadImmAny, src_regA, loadImm_a] at hsub
  obtain ⟨e2, he2⟩ : ∃ e2, e1.aluDone regNone .sub (e.core.a g) (lo imm)
      ((e.core.loadImm (lo imm)).src (aOperand (regA g) (urLoadImmAny (lo imm) immB).2)) = e2 := ⟨_, rfl⟩
  rw [he2] at hsub
  have hc : e2.core.c = !(e.core.a g).ult (lo imm) := by
    rw [← he2, aluDone, aluTo_c]
    exact sub_carry _ _
  have hzero := does_wrpImmed (.a (show (staticRegImm : BitVec 16) < gprCount by decide)) 0 e2
  have hadd := does_emitAlu (.both hg') (.a (show (staticRegImm : BitVec 16) < gprCount by decide))
    (.imm (show (0 : BitVec 16) ≤ 0xff by decide)) RegKind.noConfusion .addC (e2.immedDone immA 0)
  have hval : (adc (0 : BitVec 32) 0 e2.core.c).sum = e.core.a g / lo imm := by
    have h1 : 2 ^ 31 < imm.toNat := hbig
    have h2 : imm.toNat ≤ 2 ^ 32 - 1 := hmax
    have hlo : (lo imm).toNat = imm.toNat := by
      rw [lo_toNat]
      omega
    apply BitVec.eq_of_toNat_eq
    rw [adc_sum_toNat (by decide), BitVec.toNat_udiv, hc, BitVec.ult_eq_decide, hlo]
    by_cases hlt : (e.core.a g).toNat < imm.toNat
    · rw [div_eq_of_lt hlt]
      simp [hlt]
    · rw [Nat.div_eq_of_lt_le (k := 1) (by omega) (by omega)]
      simp [hlt]
  have hbig' : ¬imm > 0xffffffff := BitVec.not_lt.mpr hmax
  rw [wrpDivImm, if_neg hbig', if_pos hbig]
  refine ⟨_, ((hload.append hsub).append hzero).append hadd, ?_, ?_⟩
  · rw [aluDone, aluTo_regBoth_a, update_self, ← hval]
    rfl
  · rw [aluDone, aluTo_regBoth_b, update_self, ← hval]
    rfl

end Emitted

theorem Does.unique {c : Code} {e e₁ e₂ : Engine} (h₁ : Does c e e₁) (h₂ : Does c e e₂) : e₁ = e₂ :=
  Option.some.inj (h₁.runs.symm.trans h₂.runs)

def flatEngine (x prevA : BitVec 32) : Engine where
  core := ⟨fun _ => x, fun _ => x, fun _ => 0, false, false, false, false, ⟨0, 0, .start, 0⟩⟩
  prevA := prevA
  prevAlu := 0
  xferOut := fun _ => 0
  mem32 := fun _ => 0
  mem40 := fun _ => 0

theorem gpr_small {d : Fin 16} (hd : d ≤ 9) : gpr d < 0x20 ∧ gpr d + 1 < 0x20 := by
  revert d
  decide

theorem wrpDivImm_exact_iff (d : Fin 16) (hd : d ≤ 9) (imm : BitVec 64) (hpos : 1 ≤ imm) (hmax : imm ≤ 0xffffffff) :
    (∀ e : Engine, e.core.a (gpr d) = e.core.b (gpr d) → ∃ e', Does (wrpDivImm reciprocalValueAdv (gpr d) imm) e e' ∧
        e'.core.a (gpr d) = e.core.a (gpr d) / lo imm ∧ e'.core.b (gpr d) = e.core.a (gpr d) / lo imm) ↔
      imm > 0x80000000 ∨ finalShift imm ≠ 0 := by
  have hg := (gpr_small hd).1
  have hne := (gpr_ne_imm hd).1
  have h0 : imm ≠ 0 := by
    rintro rfl
    cases hpos
  constructor
  · intro h
    by_contra hc
    rw [not_or, not_not] at hc
    obtain ⟨hsmall, hfs⟩ := hc
    obtain ⟨-, hlo, hle⟩ := divisor_of_imm h0 hsmall
    obtain ⟨e1, hdoes, ha, -⟩ := h (flatEngine (lo imm) 1) rfl
    obtain ⟨e2, hdoes', ⟨v, a, hv, -, hval, hprev⟩⟩ :=
      does_divTail h0 hsmall hg hne (e := flatEngine (lo imm) 1)
    rw [← Does.unique hdoes hdoes', ha, hprev hfs, hfs, shfAmount_indirect] at hv
    have hv1 : v.toNat = 1 := by
      have hpos' : 0 < imm.toNat := hpos
      rw [hfs, show (0 : BitVec 8).toNat = 0 from rfl, pow_zero, Nat.div_one] at hval
      rw [hval]
      change (lo imm).toNat / imm.toNat = 1
      rw [hlo, Nat.div_self hpos']
    have hz := congrArg BitVec.toNat hv
    change (lo imm / lo imm).toNat = (v >>> 1).toNat at hz
    rw [BitVec.toNat_udiv, BitVec.toNat_ushiftRight, shiftRight_eq_div_pow, hv1, hlo,
      Nat.div_self (show 0 < imm.toNat from hpos)] at hz
    cases hz
  · rintro (hbig | hfs) e -
    · exact does_compare hg hbig hmax
    · by_cases hbig : imm > 0x80000000
      · exact does_compare hg hbig hmax
      obtain ⟨e', hdoes, ⟨v, a, hv, hb, hval, -⟩⟩ := does_divTail h0 hbig hg hne (e := e)
      have hq : e'.core.a (gpr d) = e.core.a (gpr d) / lo imm := by
        obtain ⟨-, hlo, -⟩ := divisor_of_imm h0 hbig
        apply BitVec.eq_of_toNat_eq
        rw [hv, shfAmount_direct hfs, BitVec.toNat_ushiftRight, shiftRight_eq_div_pow, hval, BitVec.toNat_udiv, hlo]
      exact ⟨e', hdoes, hq, by rw [hb, hq]⟩

theorem div_by_seven : ∃ e', Does (wrpDivImm reciprocalValueAdv (gpr 1) 7) (flatEngine 100 3) e' ∧
    e'.core.a (gpr 1) = 14 := by
  obtain ⟨e', hdoes, ha, -⟩ := (wrpDivImm_exact_iff 1 (by decide) 7 (by decide) (by decide)).mpr (.inr (by decide))
    (flatEngine 100 3) rfl
  exact ⟨e', hdoes, ha⟩

theorem div_shifts_indirectly :
    (∃ e', Does (wrpDivImm reciprocalValueAdv (gpr 1) 1) (flatEngine 6 1) e' ∧ e'.core.a (gpr 1) = 3) ∧
      (∃ e', Does (wrpDivImm reciprocalValueAdv (gpr 1) 28) (flatEngine 28 1) e' ∧ e'.core.a (gpr 1) = 0) ∧
      ∃ e', Does (wrpDivImm reciprocalValueAdv (gpr 1) 641) (flatEngine 641 1) e' ∧ e'.core.a (gpr 1) = 0 :=
  ⟨⟨_, ⟨rfl, rfl⟩, rfl⟩, ⟨_, ⟨rfl, rfl⟩, rfl⟩, ⟨_, ⟨rfl, rfl⟩, rfl⟩⟩

end NfpDriver.Lower
