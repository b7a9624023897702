import NfpDriver.Lower.Units
import NfpDriver.Lower.Holds
import NfpDriver.Verifier.Alu
import NfpDriver.Jit.Reciprocal

namespace NfpDriver.Lower

open Bpf Jit Adder Verifier List

def prepared (insn : Insn) (n : Nat) : Meta :=
  let m := Meta.zero insn n
  if isMbpfAlu m then { m with uminSrc := 0xffffffffffffffff, uminDst := 0xffffffffffffffff } else m

def checkVisits : List (RegState × RegState) → Meta → Except String Meta
  | [], m => .ok m
  | (sreg, dreg) :: rest, m =>
    match nfpBpfCheckAlu sreg dreg m with
    | .error e => .error e
    | .ok m' => checkVisits rest m'

structure DivAccepted (m : Meta) : Prop where
  dst : m.umaxDst ≤ u32Max
  const : bpfSrc m.insn.code = bpfX → m.uminSrc = m.umaxSrc
  src : bpfSrc m.insn.code = bpfX → m.umaxSrc ≤ u32Max
  imm : bpfSrc m.insn.code = bpfK → m.insn.imm.slt 0 = false

variable {m m' : Meta} {visits : List (RegState × RegState)} {insn : Insn} {n : Nat}

theorem checkDiv_accepts (h : checkDiv m = .ok m') : DivAccepted m := by
  unfold checkDiv at h
  split at h
  · cases h
  next h1 =>
  split at h
  · cases h
  next h2 =>
  split at h
  · cases h
  next h3 =>
  split at h
  · cases h
  next h4 =>
  refine ⟨BitVec.not_lt.mp h1, fun hx => ?_, fun hx => BitVec.not_lt.mp fun hc => h3 ⟨hx, hc⟩, fun hk => ?_⟩
  · by_contra hc
    exact h2 ⟨hx, hc⟩
  · rw [← Bool.not_eq_true]
    exact fun hs => h4 ⟨hk, hs⟩

theorem div_not_mul (h : isMbpfDiv m = true) : isMbpfMul m = false := by
  simp only [isMbpfDiv, Bool.and_eq_true, beq_iff_eq] at h
  simp [isMbpfMul, h.2, bpfDiv, bpfMul]

theorem nfpBpfCheckAlu_div {sreg dreg : RegState} (hdiv : isMbpfDiv m = true)
    (h : nfpBpfCheckAlu sreg dreg m = .ok m') : m'.insn = m.insn ∧ DivAccepted m' := by
  have hw : isMbpfDiv (widenRange sreg dreg m) = true := hdiv
  have hm' := (nfpBpfCheckAlu_ok h).1
  simp only [nfpBpfCheckAlu, div_not_mul hw, Bool.false_eq_true, if_false, bind, Except.bind, hw, if_true] at h
  have hacc := checkDiv_accepts h
  rw [hm']
  exact ⟨rfl, hacc⟩

theorem checkVisits_div (hdiv : isMbpfDiv m = true) (h : checkVisits visits m = .ok m') (hne : visits ≠ []) :
    m'.insn = m.insn ∧ DivAccepted m' := by
  induction visits generalizing m with
  | nil => exact absurd rfl hne
  | cons v rest ih =>
    rw [checkVisits] at h
    split at h
    · cases h
    next m₁ hcheck =>
    obtain ⟨hinsn, hacc⟩ := nfpBpfCheckAlu_div hdiv hcheck
    cases rest with
    | nil =>
      rw [← Except.ok.inj h]
      exact ⟨hinsn, hacc⟩
    | cons w rest =>
      have hdiv₁ : isMbpfDiv m₁ = true := by
        rw [isMbpfDiv, isMbpfAlu, mbpfClass, mbpfOp, hinsn]
        exact hdiv
      rw [← hinsn]
      exact ih hdiv₁ h (cons_ne_nil _ _)

def divisor (m : Meta) : BitVec 64 := if bpfSrc m.insn.code = bpfX then m.uminSrc else sextImm m.insn

theorem div_translation : ∀ code : BitVec 8, (bpfClass code = bpfAlu64 ∨ bpfClass code = bpfAlu) →
    bpfOp code = bpfDiv → instrCb.lookup code = some
      (if bpfClass code = bpfAlu64 then if bpfSrc code = bpfX then .divReg64 else .divImm64
      else if bpfSrc code = bpfX then .divReg else .divImm) := by
  decide

def divCalls (p : Prog) (m : Meta) : List (BitVec 32 × BitVec 8) :=
  match instrCb.lookup m.insn.code with
  | some .divReg64 | some .divReg => reciprocalCalls p.reciprocalValueAdv m.uminSrc
  | some .divImm64 | some .divImm => reciprocalCalls p.reciprocalValueAdv (sextImm m.insn)
  | _ => []

theorem divCalls_eq (hdiv : isMbpfDiv m = true) (p : Prog) :
    divCalls p m = reciprocalCalls p.reciprocalValueAdv (divisor m) := by
  simp only [isMbpfDiv, isMbpfAlu, Bool.and_eq_true, Bool.or_eq_true, beq_iff_eq] at hdiv
  rw [divCalls, div_translation _ hdiv.1 hdiv.2, divisor]
  by_cases hc : bpfClass m.insn.code = bpfAlu64 <;> by_cases hx : bpfSrc m.insn.code = bpfX <;>
    simp only [hc, hx, if_true, if_false]

def Legal (c : BitVec 32 × BitVec 8) : Prop := 1 ≤ c.1 ∧ c.1 ≤ 0x80000000 ∧ mhighDividend c.1 c.2 < 2 ^ 64

theorem Legal.of_divisor {d : BitVec 32} {prec : BitVec 8} (h : Divisor d) (hp : 1 ≤ prec.toNat)
    (hp' : prec.toNat ≤ 32) : Legal (d, prec) :=
  ⟨h.pos, h.small, (h.dividend hp hp').1⟩

theorem calls_legal (r : BitVec 32 → BitVec 8 → ReciprocalValueAdv) {imm : BitVec 64} (h0 : imm ≠ 0) :
    ∀ c ∈ reciprocalCalls r imm, Legal c := by
  intro c hc
  rw [reciprocalCalls] at hc
  split at hc
  · cases hc
  next hmax =>
  have hmax' : imm.toNat ≤ 2 ^ 31 := BitVec.not_lt.mp hmax
  have hne : imm.toNat ≠ 0 := fun hz => h0 (BitVec.eq_of_toNat_eq hz)
  rcases mem_cons.mp hc with rfl | hc
  · refine .of_divisor ⟨?_, ?_⟩ (by decide) (by decide) <;> rw [lo_toNat] <;> omega
  split at hc
  · next hpre =>
    rw [mem_singleton.mp hc]
    obtain ⟨⟨q, hq⟩, hp⟩ := evenPart h0 hmax'
    rw [divPreShift, if_pos hpre]
    generalize BitVec.ofNat 8 (fls (lo (imm &&& -imm))) - 1 = p at hq hp
    have hshift : (imm >>> p.toNat).toNat = 2 * q + 1 := by
      rw [BitVec.toNat_ushiftRight, Nat.shiftRight_eq_div_pow, hq, Nat.mul_div_cancel_left _ (Nat.two_pow_pos _)]
    have hle : 2 * q + 1 ≤ imm.toNat := by
      rw [hq]
      exact Nat.le_mul_of_pos_left _ (Nat.two_pow_pos _)
    have hprec : (32 - p).toNat = 32 - p.toNat := by
      rw [BitVec.toNat_sub, show (32 : BitVec 8).toNat = 32 from rfl]
      omega
    refine .of_divisor ⟨?_, ?_⟩ (by rw [hprec]; omega) (by rw [hprec]; omega) <;>
      rw [lo_toNat, hshift] <;> omega
  · cases hc

theorem prepared_div (hdiv : isMbpfDiv (Meta.zero insn n) = true) :
    prepared insn n = { Meta.zero insn n with uminSrc := 0xffffffffffffffff, uminDst := 0xffffffffffffffff } := by
  have halu : isMbpfAlu (Meta.zero insn n) = true := by
    rw [isMbpfDiv, Bool.and_eq_true] at hdiv
    exact hdiv.1
  simp only [prepared, halu, if_true]

theorem visited_div (hdiv : isMbpfDiv (Meta.zero insn n) = true) (hacc : checkVisits visits (prepared insn n) = .ok m) :
    m.insn = insn ∧ (m.uminSrc = 0xffffffffffffffff ∨ DivAccepted m) := by
  have hprep := prepared_div hdiv
  cases visits with
  | nil =>
    rw [checkVisits, hprep] at hacc
    rw [← Except.ok.inj hacc]
    exact ⟨rfl, .inl rfl⟩
  | cons v rest =>
    have hdiv' : isMbpfDiv (prepared insn n) = true := by rw [hprep]; exact hdiv
    obtain ⟨hinsn, hok⟩ := checkVisits_div hdiv' hacc (cons_ne_nil _ _)
    exact ⟨by rw [hinsn, hprep]; rfl, .inr hok⟩

theorem divisor_legal_iff (insn : Insn) (n : Nat) (visits : List (RegState × RegState)) (m : Meta)
    (hdiv : isMbpfDiv (Meta.zero insn n) = true) (hacc : checkVisits visits (prepared insn n) = .ok m)
    (hcore : bpfSrc insn.code = bpfK → insn.imm ≠ 0) (p : Prog) :
    (∀ c ∈ divCalls p m, Legal c) ↔ ¬(bpfSrc insn.code = bpfX ∧ m.uminSrc = 0 ∧ m.umaxSrc = 0) := by
  obtain ⟨hinsn, hrange⟩ := visited_div hdiv hacc
  have hdiv' : isMbpfDiv m = true := by
    rw [isMbpfDiv, isMbpfAlu, mbpfClass, mbpfOp, hinsn]
    exact hdiv
  rw [divCalls_eq hdiv', divisor, hinsn]
  constructor
  · rintro hlegal ⟨hx, hmin, -⟩
    rw [if_pos hx, hmin] at hlegal
    exact absurd (hlegal (0, 32) (mem_cons_self ..)).1 (by decide)
  · intro hno
    apply calls_legal
    split
    · next hx =>
      intro hmin
      rcases hrange with hmax | hok
      · rw [hmin] at hmax
        cases hmax
      · exact hno ⟨hx, hmin, by rw [← hok.const (by rw [hinsn]; exact hx), hmin]⟩
    · next hx => exact sextImm_ne_zero (hcore ((src_K_or_X insn.code).resolve_left hx))

def constant (v : BitVec 64) : RegState :=
  { RegState.zero with type := .scalarValue, uminValue := v, umaxValue := v }

def divReg : Insn := ⟨bpfAlu64 ||| bpfDiv ||| bpfX, 1, 2, 0, 0⟩

def withReciprocal : Prog := { (default : Prog) with reciprocalValueAdv := reciprocalValueAdv }

theorem divReg_legal : ∃ m, checkVisits [(constant 10, constant 7)] (prepared divReg 0) = .ok m ∧
    ∀ c ∈ divCalls withReciprocal m, Legal c := by
  obtain ⟨m, hm⟩ : ∃ m, checkVisits [(constant 10, constant 7)] (prepared divReg 0) = .ok m := ⟨_, rfl⟩
  refine ⟨m, hm, (divisor_legal_iff divReg 0 [(constant 10, constant 7)] m rfl hm (by decide) withReciprocal).mpr ?_⟩
  rw [← Except.ok.inj hm]
  decide

theorem divReg_zero_divides :
    ∃ m, checkVisits [(constant 0, constant 7)] (prepared divReg 0) = .ok m ∧
      (0, 32) ∈ divCalls withReciprocal m ∧ ¬Legal (0, 32) :=
  ⟨_, rfl, List.mem_cons_self .., fun h => absurd h.1 (by decide)⟩

end NfpDriver.Lower
