import NfpDriver.Bpf.Meta

namespace NfpDriver.Verifier

open Bpf

abbrev u32Max : BitVec 64 := 0xffffffff

def minU (x y : BitVec 64) : BitVec 64 := if x < y then x else y

def maxU (x y : BitVec 64) : BitVec 64 := if x > y then x else y

def widenRange (sreg dreg : RegState) (m : Meta) : Meta :=
  { m with
    uminSrc := minU m.uminSrc sreg.uminValue
    umaxSrc := maxU m.umaxSrc sreg.umaxValue
    uminDst := minU m.uminDst dreg.uminValue
    umaxDst := maxU m.umaxDst dreg.umaxValue }

def checkMul (m : Meta) : Except String Meta :=
  if m.umaxDst > u32Max then .error "multiplier is not within u32 value range\n"
  else if mbpfSrc m = bpfX ∧ m.umaxSrc > u32Max then .error "multiplicand is not within u32 value range\n"
  else if mbpfClass m = bpfAlu64 ∧ mbpfSrc m = bpfK ∧ m.insn.imm.slt 0 = true then
    .error "sign extended multiplicand won't be within u32 value range\n"
  else .ok m

def checkDiv (m : Meta) : Except String Meta :=
  if m.umaxDst > u32Max then .error "dividend is not within u32 value range\n"
  else if mbpfSrc m = bpfX ∧ m.uminSrc ≠ m.umaxSrc then .error "divisor is not constant\n"
  else if mbpfSrc m = bpfX ∧ m.umaxSrc > u32Max then .error "divisor is not within u32 value range\n"
  else if mbpfSrc m = bpfK ∧ m.insn.imm.slt 0 = true then .error "divide by negative constant is not supported\n"
  else .ok m

def nfpBpfCheckAlu (sreg dreg : RegState) (m : Meta) : Except String Meta := do
  let m := widenRange sreg dreg m
  let m ← if isMbpfMul m then checkMul m else .ok m
  if isMbpfDiv m then checkDiv m else .ok m

structure MulAccepted (m : Meta) : Prop where
  dst : m.umaxDst ≤ u32Max
  src : bpfSrc m.insn.code = bpfX → m.umaxSrc ≤ u32Max
  imm : bpfClass m.insn.code = bpfAlu64 → bpfSrc m.insn.code = bpfK → m.insn.imm.slt 0 = false

variable {m m' : Meta}

theorem checkMul_ok (h : checkMul m = .ok m') : m' = m ∧ MulAccepted m := by
  unfold checkMul at h
  split at h
  · cases h
  next h1 =>
  split at h
  · cases h
  next h2 =>
  split at h
  · cases h
  next h3 =>
  have hm : m = m' := Except.ok.inj h
  refine ⟨hm.symm, BitVec.not_lt.mp h1, fun hx => BitVec.not_lt.mp fun hc => h2 ⟨hx, hc⟩, fun hc hk => ?_⟩
  rw [← Bool.not_eq_true]
  exact fun hs => h3 ⟨hc, hk, hs⟩

theorem checkDiv_ok (h : checkDiv m = .ok m') : m' = m := by
  unfold checkDiv at h
  split at h
  · cases h
  split at h
  · cases h
  split at h
  · cases h
  split at h
  · cases h
  · exact (Except.ok.inj h).symm

theorem nfpBpfCheckAlu_ok {sreg dreg : RegState} (h : nfpBpfCheckAlu sreg dreg m = .ok m') :
    m' = widenRange sreg dreg m ∧ (isMbpfMul m' = true → MulAccepted m') := by
  simp only [nfpBpfCheckAlu] at h
  generalize widenRange sreg dreg m = w at h ⊢
  cases hm : isMbpfMul w with
  | true =>
    rw [hm, if_pos rfl] at h
    cases hc : checkMul w with
    | error e => rw [hc] at h; exact absurd h (by simp [bind, Except.bind])
    | ok u =>
      obtain ⟨rfl, hacc⟩ := checkMul_ok hc
      rw [hc] at h
      have hu : m' = u := by
        simp only [bind, Except.bind] at h
        split at h
        · exact checkDiv_ok h
        · exact (Except.ok.inj h).symm
      rw [hu]
      exact ⟨rfl, fun _ => hacc⟩
  | false =>
    rw [hm, if_neg Bool.false_ne_true] at h
    have hu : m' = w := by
      simp only [bind, Except.bind] at h
      split at h
      · exact checkDiv_ok h
      · exact (Except.ok.inj h).symm
    rw [hu]
    exact ⟨rfl, fun hc => absurd (hm.symm.trans hc) Bool.false_ne_true⟩

end NfpDriver.Verifier
