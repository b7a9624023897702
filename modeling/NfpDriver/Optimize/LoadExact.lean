import NfpDriver.Optimize.LoadTail
import Mathlib.Logic.Function.Basic

namespace NfpDriver.Optimize

open Bpf Option

structure Cpu (ω : Type) where
  pc : Nat
  regs : Fin 16 → BitVec 64
  world : ω

def isPacketLoad (code : BitVec 8) : Bool :=
  bpfClass code == bpfLd && (bpfMode code == bpfAbs || bpfMode code == bpfInd)

def beValue (bytes : List (BitVec 8)) : Nat := bytes.foldl (fun v b => v * 256 + b.toNat) 0

def loadOffset (insn : Insn) (regs : Fin 16 → BitVec 64) : Nat :=
  (insn.imm + if bpfMode insn.code = bpfInd then (regs insn.srcReg).setWidth 32 else 0).toNat

def loadPacket (packet : List (BitVec 8)) (insn : Insn) (regs : Fin 16 → BitVec 64) : Option (BitVec 64) :=
  let off := loadOffset insn regs
  let size := bpfLdstBytes insn
  if off + size ≤ packet.length then some (BitVec.ofNat 64 (beValue ((packet.drop off).take size))) else none

def andCode : BitVec 8 := bpfAlu64 ||| bpfAnd ||| bpfK
def lshCode : BitVec 8 := bpfLsh ||| bpfK ||| bpfAlu64
def rshCode : BitVec 8 := bpfRsh ||| bpfK ||| bpfAlu64

def aluTail (insn : Insn) (x : BitVec 64) : Option (BitVec 64) :=
  if insn.code = andCode then some (x &&& insn.imm.signExtend 64)
  else if insn.code = lshCode then some (x <<< (insn.imm.toNat % 64))
  else if insn.code = rshCode then some (x >>> (insn.imm.toNat % 64))
  else none

section Semantics

variable {ω : Type} (l : List Meta) (packet : ω → List (BitVec 8)) (other : Cpu ω → Option (Cpu ω))

def Cpu.next (s : Cpu ω) (r : Fin 16) (v : BitVec 64) : Cpu ω := ⟨s.pc + 1, Function.update s.regs r v, s.world⟩

def step (s : Cpu ω) : Option (Cpu ω) :=
  let insn := (metaAt l s.pc).insn
  if isPacketLoad insn.code then (loadPacket (packet s.world) insn s.regs).map (s.next 0)
  else
    match aluTail insn (s.regs insn.dstReg) with
    | some v => some (s.next insn.dstReg v)
    | none => other s

def stepKept (past : BitVec 32) (s : Cpu ω) : Option (Cpu ω) :=
  if removed past l s.pc then some { s with pc := s.pc + 1 } else step l packet other s

def after (f : Cpu ω → Option (Cpu ω)) : Nat → Cpu ω → Option (Cpu ω)
  | 0, s => some s
  | n + 1, s => (after f n s).bind f

def Enters (s s' : Cpu ω) : Prop :=
  s'.pc = s.pc + 1 ∨ (metaAt l s'.pc).hasFlag flagInsnIsJumpDst = true ∨
    ∃ c, s'.pc = c + 1 ∧ (metaAt l c).insn.code = bpfJmp ||| bpfCall

def Agree (past : BitVec 32) (s : Cpu ω) : Prop :=
  ∀ n t, removed past l t.pc = false →
    (after (step l packet other) n s = some t ↔ after (stepKept l packet other past) n s = some t)

def ZeroBeforeRshLsh (s : Cpu ω) : Prop :=
  ∀ n t v, after (step l packet other) n s = some t → shiftAt l t.pc = true →
    (metaAt l (t.pc + 1)).insn.code = rshCode → loadPacket (packet t.world) (metaAt l t.pc).insn t.regs = some v → v = 0

end Semantics

theorem beValue_lt (bytes : List (BitVec 8)) : beValue bytes < 256 ^ bytes.length := by
  have hall : ∀ (bytes : List (BitVec 8)) (v n : Nat), v < 256 ^ n →
      bytes.foldl (fun v b => v * 256 + b.toNat) v < 256 ^ (n + bytes.length) := by
    intro bytes
    induction bytes with
    | nil => exact fun v n h => h
    | cons b bytes ih =>
      intro v n h
      rw [List.foldl_cons, List.length_cons, add_comm bytes.length 1, ← add_assoc]
      refine ih _ _ ?_
      omega
  have h := hall bytes 0 0 (by decide)
  rw [zero_add] at h
  exact h

variable {insn : Insn} {v : BitVec 64} {past : BitVec 32} {code : BitVec 8} {h k : Nat} {l : List Meta}

theorem loadPacket_lt {packet : List (BitVec 8)} {regs : Fin 16 → BitVec 64}
    (h : loadPacket packet insn regs = some v) (hw : bpfLdstBytes insn ≤ 4) : v.toNat < 256 ^ bpfLdstBytes insn := by
  rw [loadPacket] at h
  split at h
  · next hle =>
    have hlen : ((packet.drop (loadOffset insn regs)).take (bpfLdstBytes insn)).length = bpfLdstBytes insn := by
      rw [List.length_take, List.length_drop]
      omega
    have hlt := beValue_lt ((packet.drop (loadOffset insn regs)).take (bpfLdstBytes insn))
    rw [hlen] at hlt
    have hpow : 256 ^ bpfLdstBytes insn ≤ 256 ^ 4 := Nat.pow_le_pow_right (by decide) hw
    rw [← some.inj h, BitVec.toNat_ofNat, Nat.mod_eq_of_lt (by omega)]
    exact hlt
  · cases h

theorem size_cases (h : bpfSize code ≠ bpfDw) : bpfSize code = bpfB ∨ bpfSize code = bpfH ∨ bpfSize code = bpfW := by
  revert code
  decide

theorem and_mask (hdw : bpfSize insn.code ≠ bpfDw) (hv : v.toNat < 256 ^ bpfLdstBytes insn) :
    v &&& (expMask past (bpfSize insn.code)).signExtend 64 = v := by
  have hmod : ∀ n ≤ 64, v.toNat < 2 ^ n → v &&& BitVec.ofNat 64 (2 ^ n - 1) = v := by
    intro n hn hlt
    apply BitVec.eq_of_toNat_eq
    have hpow : 2 ^ n ≤ 2 ^ 64 := Nat.pow_le_pow_right (by decide) hn
    rw [BitVec.toNat_and, BitVec.toNat_ofNat, Nat.mod_eq_of_lt (by omega), Nat.and_two_pow_sub_one_eq_mod,
      Nat.mod_eq_of_lt hlt]
  rw [bpfLdstBytes] at hv
  rcases size_cases hdw with hs | hs | hs
  · rw [hs] at hv ⊢
    exact hmod 8 (by decide) hv
  · rw [hs] at hv ⊢
    exact hmod 16 (by decide) hv
  · rw [hs]
    exact hmod 64 le_rfl v.isLt

theorem lsh_rsh (hv : v.toNat < 2 ^ 32) : v <<< 32 >>> 32 = v := by
  apply BitVec.eq_of_toNat_eq
  rw [BitVec.toNat_ushiftRight, BitVec.toNat_shiftLeft, Nat.shiftLeft_eq, Nat.shiftRight_eq_div_pow]
  omega

theorem rsh_zero (hv : v.toNat < 2 ^ 32) : v >>> 32 = 0 := by
  apply BitVec.eq_of_toNat_eq
  rw [BitVec.toNat_ushiftRight, Nat.shiftRight_eq_div_pow]
  exact Nat.div_eq_of_lt hv

structure MaskGroup (past : BitVec 32) (l : List Meta) (h : Nat) : Prop where
  load : isPacketLoad (metaAt l h).insn.code = true
  code : (metaAt l (h + 1)).insn.code = andCode
  dst : (metaAt l (h + 1)).insn.dstReg = 0
  imm : (metaAt l (h + 1)).insn.imm = expMask past (bpfSize (metaAt l h).insn.code)
  inner : (metaAt l (h + 1)).hasFlag flagInsnIsJumpDst = false

structure ShiftGroup (l : List Meta) (h : Nat) (c₁ c₂ : BitVec 8) : Prop where
  load : isPacketLoad (metaAt l h).insn.code = true
  width : bpfSize (metaAt l h).insn.code = bpfW
  code₁ : (metaAt l (h + 1)).insn.code = c₁
  code₂ : (metaAt l (h + 2)).insn.code = c₂
  dst₁ : (metaAt l (h + 1)).insn.dstReg = 0
  dst₂ : (metaAt l (h + 2)).insn.dstReg = 0
  imm₁ : (metaAt l (h + 1)).insn.imm = 0x20
  imm₂ : (metaAt l (h + 2)).insn.imm = 0x20
  inner₁ : (metaAt l (h + 1)).hasFlag flagInsnIsJumpDst = false
  inner₂ : (metaAt l (h + 2)).hasFlag flagInsnIsJumpDst = false

theorem load_of_mode (hc : ¬bpfClass code ≠ bpfLd) (hm : ¬(bpfMode code ≠ bpfAbs ∧ bpfMode code ≠ bpfInd)) :
    isPacketLoad code = true := by
  revert code
  decide

theorem passed {c : Prop} [Decidable c] {b : Bool} (h : (if c then false else b) = true) : ¬c ∧ b = true := by
  split at h
  · cases h
  · next hc => exact ⟨hc, h⟩

theorem maskAt_group (hm : maskAt past l h = true) : MaskGroup past l h := by
  obtain ⟨-, hm⟩ := (Bool.and_eq_true _ _).mp hm
  obtain ⟨h1, hm⟩ := passed hm
  obtain ⟨h2, hm⟩ := passed hm
  obtain ⟨h3, hm⟩ := passed hm
  obtain ⟨-, hm⟩ := passed hm
  obtain ⟨h5, hm⟩ := passed hm
  obtain ⟨h6, hm⟩ := passed hm
  rw [not_or, not_not, not_not] at h6
  exact ⟨load_of_mode h1 h2, not_not.mp h3, h6.2, (not_not.mp h5).symm, Bool.not_eq_true' _ ▸ hm⟩

theorem shiftAt_group (hs : shiftAt l h = true) : ∃ c₁ c₂, ShiftGroup l h c₁ c₂ ∧
    (c₁ = lshCode ∧ c₂ = rshCode ∨ c₁ = rshCode ∧ c₂ = lshCode) := by
  obtain ⟨-, hs⟩ := (Bool.and_eq_true _ _).mp hs
  obtain ⟨h1, hs⟩ := passed hs
  obtain ⟨h2, hs⟩ := passed hs
  obtain ⟨h3, hs⟩ := passed hs
  obtain ⟨h4, hs⟩ := passed hs
  obtain ⟨h5, hs⟩ := passed hs
  obtain ⟨h6, hs⟩ := passed hs
  simp only [not_or, not_not] at h3 h5 h6
  simp only [Bool.not_eq_true', Bool.or_eq_false_iff] at hs
  rw [not_and_or, not_not, not_not] at h4
  exact ⟨_, _, ⟨load_of_mode h1 h2, h3, rfl, rfl, h5.2.1, h5.2.2.2, h6.1, h6.2, hs.1, hs.2⟩, h4⟩

def isTail (code : BitVec 8) : Bool := code == andCode || code == lshCode || code == rshCode

theorem load_not_tail (h : isPacketLoad code = true) : isTail code = false := by
  revert code
  decide

theorem load_not_call (h : isPacketLoad code = true ∨ isTail code = true) : code ≠ bpfJmp ||| bpfCall := by
  revert code
  decide

section Groups

variable {past : BitVec 32} {l : List Meta} {h : Nat}

theorem shift_codes (hs : shiftAt l h = true) : isPacketLoad (metaAt l h).insn.code = true ∧
    isTail (metaAt l (h + 1)).insn.code = true ∧ isTail (metaAt l (h + 2)).insn.code = true := by
  obtain ⟨c1, c2, hg, ⟨rfl, rfl⟩ | ⟨rfl, rfl⟩⟩ := shiftAt_group hs
  · exact ⟨hg.load, by rw [hg.code₁]; decide, by rw [hg.code₂]; decide⟩
  · exact ⟨hg.load, by rw [hg.code₁]; decide, by rw [hg.code₂]; decide⟩

theorem mask_tail (hm : maskAt past l h = true) : isTail (metaAt l (h + 1)).insn.code = true := by
  rw [(maskAt_group hm).code]
  decide

theorem not_removed_of_load (hl : isPacketLoad (metaAt l h).insn.code = true) : removed past l h = false := by
  by_contra hr
  rw [Bool.not_eq_false, removed_iff] at hr
  have hno := load_not_tail hl
  obtain ⟨g, ⟨hm, rfl⟩ | ⟨hs, rfl | rfl⟩⟩ := hr
  · exact Bool.false_ne_true (hno.symm.trans (mask_tail hm))
  · exact Bool.false_ne_true (hno.symm.trans (shift_codes hs).2.1)
  · exact Bool.false_ne_true (hno.symm.trans (shift_codes hs).2.2)

theorem not_removed_after_tail (h1 : isTail (metaAt l (h + 1)).insn.code = true) (h0 : shiftAt l h = false) :
    removed past l (h + 2) = false := by
  have hno : isPacketLoad (metaAt l (h + 1)).insn.code = false := by
    by_contra hc
    rw [Bool.not_eq_false] at hc
    exact Bool.false_ne_true ((load_not_tail hc).symm.trans h1)
  by_contra hr
  rw [Bool.not_eq_false, removed_iff] at hr
  obtain ⟨g, ⟨hm, hg⟩ | ⟨hs, hg | hg⟩⟩ := hr
  · obtain rfl : g = h + 1 := by omega
    exact Bool.false_ne_true (hno.symm.trans (maskAt_group hm).load)
  · obtain rfl : g = h + 1 := by omega
    exact Bool.false_ne_true (hno.symm.trans (shift_codes hs).1)
  · obtain rfl : g = h := by omega
    cases h0.symm.trans hs

theorem not_removed_after_mask (hm : maskAt past l h = true) : removed past l (h + 2) = false := by
  refine not_removed_after_tail (mask_tail hm) ?_
  by_contra hs
  rw [Bool.not_eq_false] at hs
  have hc := (maskAt_group hm).code
  obtain ⟨c1, c2, hg, ⟨rfl, -⟩ | ⟨rfl, -⟩⟩ := shiftAt_group hs
  · cases hc.symm.trans hg.code₁
  · cases hc.symm.trans hg.code₁

theorem not_removed_after_shift (hs : shiftAt l h = true) : removed past l (h + 3) = false := by
  obtain ⟨-, h1, h2⟩ := shift_codes hs
  refine not_removed_after_tail h2 ?_
  by_contra hc
  rw [Bool.not_eq_false] at hc
  exact Bool.false_ne_true ((load_not_tail (shift_codes hc).1).symm.trans h1)

theorem removed_inner (hr : removed past l k = true) : (metaAt l k).hasFlag flagInsnIsJumpDst = false := by
  obtain ⟨g, ⟨hm, rfl⟩ | ⟨hs, hk⟩⟩ := removed_iff.mp hr
  · exact (maskAt_group hm).inner
  obtain ⟨c1, c2, hg, -⟩ := shiftAt_group hs
  rcases hk with rfl | rfl
  · exact hg.inner₁
  · exact hg.inner₂

theorem removed_pred (hr : removed past l (k + 1) = true) : (metaAt l k).insn.code ≠ bpfJmp ||| bpfCall := by
  apply load_not_call
  obtain ⟨g, ⟨hm, hk⟩ | ⟨hs, hk | hk⟩⟩ := removed_iff.mp hr
  · obtain rfl : k = g := by omega
    exact .inl (maskAt_group hm).load
  · obtain rfl : k = g := by omega
    exact .inl (shift_codes hs).1
  · obtain rfl : k = g + 1 := by omega
    exact .inr (shift_codes hs).2.1

end Groups

section Simulation

variable {ω : Type} {l : List Meta} {packet : ω → List (BitVec 8)} {other : Cpu ω → Option (Cpu ω)} {past : BitVec 32}

theorem step_load {s : Cpu ω} (hl : isPacketLoad (metaAt l s.pc).insn.code = true) :
    step l packet other s = (loadPacket (packet s.world) (metaAt l s.pc).insn s.regs).map (s.next 0) := by
  rw [step, if_pos hl]

theorem step_tail {s : Cpu ω} (ht : isTail (metaAt l s.pc).insn.code = true) (hd : (metaAt l s.pc).insn.dstReg = 0)
    (hv : aluTail (metaAt l s.pc).insn (s.regs 0) = some v) : step l packet other s = some (s.next 0 v) := by
  have hno : ¬isPacketLoad (metaAt l s.pc).insn.code = true := fun hl =>
    Bool.false_ne_true ((load_not_tail hl).symm.trans ht)
  rw [step, if_neg hno]
  simp only [hd, hv]

inductive Related (past : BitVec 32) (l : List Meta) : Cpu ω → Cpu ω → Prop
  | same (s : Cpu ω) (hkept : removed past l s.pc = false) : Related past l s s
  | mask (s : Cpu ω) (h : Nat) (hpc : s.pc = h + 1) (hm : maskAt past l h = true)
      (hv : (s.regs 0).toNat < 256 ^ bpfLdstBytes (metaAt l h).insn) : Related past l s s
  | first (s : Cpu ω) (h : Nat) (hpc : s.pc = h + 1) (hs : shiftAt l h = true) (hv : (s.regs 0).toNat < 2 ^ 32)
      (hz : (metaAt l (h + 1)).insn.code = rshCode → s.regs 0 = 0) : Related past l s s
  | second (s t : Cpu ω) (h : Nat) (x : BitVec 64) (hpc : t.pc = h + 2) (hs : shiftAt l h = true)
      (heq : s = ⟨t.pc, Function.update t.regs 0 x, t.world⟩)
      (hx : aluTail (metaAt l (h + 2)).insn x = some (t.regs 0)) : Related past l s t

theorem Related.pc {s t : Cpu ω} (hr : Related past l s t) : s.pc = t.pc := by
  cases hr with
  | same | mask | first => rfl
  | second t h x hpc hs heq hx => rw [heq]

theorem Related.eq {s t : Cpu ω} (hr : Related past l s t) (hkept : removed past l s.pc = false) : s = t := by
  have hno : ∀ k, removed past l k = true → s.pc ≠ k := fun k hk hc =>
    Bool.false_ne_true (hkept.symm.trans (hc ▸ hk))
  cases hr with
  | same | mask | first => rfl
  | second t h x hpc hs heq hx =>
    refine absurd ?_ (hno (h + 2) (removed_iff.mpr ⟨h, .inr ⟨hs, .inr rfl⟩⟩))
    rw [heq]
    exact hpc

variable (hother : ∀ s s', other s = some s' → Enters l s s')
  (hwidth : ∀ k, isPacketLoad (metaAt l k).insn.code = true → bpfSize (metaAt l k).insn.code ≠ bpfDw)

theorem width_le (h : bpfSize insn.code ≠ bpfDw) : bpfLdstBytes insn ≤ 4 := by
  rw [bpfLdstBytes]
  rcases size_cases h with hs | hs | hs <;> rw [hs] <;> decide

include hother in
theorem step_falls {s s' : Cpu ω} (hs : step l packet other s = some s') (hr : removed past l s'.pc = true) :
    s'.pc = s.pc + 1 := by
  rw [step] at hs
  split at hs
  · obtain ⟨v, -, rfl⟩ := map_eq_some_iff.mp hs
    rfl
  split at hs
  · rw [← some.inj hs]
    rfl
  rcases hother s s' hs with hpc | hj | ⟨c, hc, hcode⟩
  · exact hpc
  · exact absurd ((removed_inner hr).symm.trans hj) Bool.false_ne_true
  · rw [hc] at hr
    exact absurd hcode (removed_pred hr)

include hwidth in
theorem load_next {s s' : Cpu ω} (hl : isPacketLoad (metaAt l s.pc).insn.code = true)
    (hs : step l packet other s = some s') : ∃ v, loadPacket (packet s.world) (metaAt l s.pc).insn s.regs = some v ∧
      s' = s.next 0 v ∧ v.toNat < 256 ^ bpfLdstBytes (metaAt l s.pc).insn := by
  rw [step_load hl] at hs
  obtain ⟨v, hv, rfl⟩ := map_eq_some_iff.mp hs
  exact ⟨v, hv, rfl, loadPacket_lt hv (width_le (hwidth _ hl))⟩

theorem shift_width (hs : shiftAt l h = true) : 256 ^ bpfLdstBytes (metaAt l h).insn = 2 ^ 32 := by
  obtain ⟨c1, c2, hg, -⟩ := shiftAt_group hs
  rw [bpfLdstBytes, hg.width]
  rfl

theorem shift_run (hs : shiftAt l h = true) (hv : v.toNat < 2 ^ 32) :
    (metaAt l (h + 1)).insn.dstReg = 0 ∧ (metaAt l (h + 2)).insn.dstReg = 0 ∧
      ∃ x, aluTail (metaAt l (h + 1)).insn v = some x ∧
        aluTail (metaAt l (h + 2)).insn x = some (if (metaAt l (h + 1)).insn.code = rshCode then 0 else v) := by
  have hne : rshCode ≠ andCode ∧ rshCode ≠ lshCode ∧ lshCode ≠ andCode ∧ lshCode ≠ rshCode := by decide
  obtain ⟨c1, c2, hg, ⟨rfl, rfl⟩ | ⟨rfl, rfl⟩⟩ := shiftAt_group hs
  · refine ⟨hg.dst₁, hg.dst₂, v <<< 32, ?_, ?_⟩
    · rw [aluTail, hg.code₁, hg.imm₁, if_neg hne.2.2.1, if_pos rfl]
      rfl
    · rw [aluTail, hg.code₁, hg.code₂, hg.imm₂, if_neg hne.1, if_neg hne.2.1, if_pos rfl, if_neg hne.2.2.2]
      exact congrArg some (lsh_rsh hv)
  · refine ⟨hg.dst₁, hg.dst₂, 0, ?_, ?_⟩
    · rw [aluTail, hg.code₁, hg.imm₁, if_neg hne.1, if_neg hne.2.1, if_pos rfl]
      exact congrArg some (rsh_zero hv)
    · rw [aluTail, hg.code₁, hg.code₂, hg.imm₂, if_neg hne.2.2.1, if_pos rfl, if_pos rfl]
      rfl

theorem next_self (s : Cpu ω) (r : Fin 16) (v : BitVec 64) : (s.next r v).regs r = v := Function.update_self ..

theorem next_same (s : Cpu ω) : s.next 0 (s.regs 0) = { s with pc := s.pc + 1 } := by
  rw [Cpu.next, Function.update_eq_self]

theorem stepKept_removed {s : Cpu ω} (hr : removed past l s.pc = true) :
    stepKept l packet other past s = some { s with pc := s.pc + 1 } := by
  rw [stepKept, if_pos hr]

theorem stepKept_kept {s : Cpu ω} (hk : removed past l s.pc = false) :
    stepKept l packet other past s = step l packet other s := by
  rw [stepKept, hk, if_neg Bool.false_ne_true]

theorem mask_step {s : Cpu ω} (hpc : s.pc = h + 1) (hm : maskAt past l h = true)
    (hdw : bpfSize (metaAt l h).insn.code ≠ bpfDw) (hv : (s.regs 0).toNat < 256 ^ bpfLdstBytes (metaAt l h).insn) :
    step l packet other s = some { s with pc := s.pc + 1 } := by
  have hg := maskAt_group hm
  rw [← next_same]
  apply step_tail
  · rw [hpc]
    exact mask_tail hm
  · rw [hpc]
    exact hg.dst
  · rw [hpc, aluTail, if_pos hg.code, hg.imm, and_mask hdw hv]

include hother hwidth in
theorem related_step {s t : Cpu ω} (hr : Related past l s t)
    (hzero : ∀ v, shiftAt l s.pc = true → (metaAt l (s.pc + 1)).insn.code = rshCode →
      loadPacket (packet s.world) (metaAt l s.pc).insn s.regs = some v → v = 0) :
    step l packet other s = none ∧ stepKept l packet other past t = none ∨
      ∃ s' t', step l packet other s = some s' ∧ stepKept l packet other past t = some t' ∧ Related past l s' t' := by
  cases hr with
  | same hkept =>
    rw [stepKept_kept hkept]
    cases hs : step l packet other s with
    | none => exact .inl ⟨rfl, rfl⟩
    | some s' =>
      refine .inr ⟨s', s', rfl, rfl, ?_⟩
      by_cases hrem : removed past l s'.pc = true
      · have hpc := step_falls hother hs hrem
        obtain ⟨h, ⟨hm, hk⟩ | ⟨hsh, hk | hk⟩⟩ := removed_iff.mp hrem
        · obtain rfl : h = s.pc := by omega
          obtain ⟨v, hv, rfl, hlt⟩ := load_next hwidth (maskAt_group hm).load hs
          exact .mask _ s.pc hk hm (by rw [next_self]; exact hlt)
        · obtain rfl : h = s.pc := by omega
          obtain ⟨v, hv, rfl, hlt⟩ := load_next hwidth (shift_codes hsh).1 hs
          rw [shift_width hsh] at hlt
          refine .first _ s.pc hk hsh (by rw [next_self]; exact hlt) fun hc => ?_
          rw [next_self]
          exact hzero v hsh hc hv
        · -- the second shift is entered only from the first one, which is itself removed
          have hin : removed past l s.pc = true := removed_iff.mpr ⟨h, .inr ⟨hsh, .inl (by omega)⟩⟩
          cases hkept.symm.trans hin
      · exact .same s' (Bool.not_eq_true _ ▸ hrem)
  | mask h hpc hm hv =>
    have hin : removed past l s.pc = true := removed_iff.mpr ⟨h, .inl ⟨hm, hpc⟩⟩
    refine .inr ⟨_, _, mask_step hpc hm (hwidth h (maskAt_group hm).load) hv, stepKept_removed hin, .same _ ?_⟩
    rw [hpc]
    exact not_removed_after_mask hm
  | first h hpc hs hv hz =>
    have hin : removed past l s.pc = true := removed_iff.mpr ⟨h, .inr ⟨hs, .inl hpc⟩⟩
    obtain ⟨hd, -, x, hx, hx'⟩ := shift_run hs hv
    have hback : (if (metaAt l (h + 1)).insn.code = rshCode then 0 else s.regs 0) = s.regs 0 := by
      split
      · next hc => exact (hz hc).symm
      · rfl
    rw [hback] at hx'
    refine .inr ⟨_, _, step_tail ?_ ?_ (v := x) ?_, stepKept_removed hin, .second _ _ h x ?_ hs rfl hx'⟩
    · rw [hpc]
      exact (shift_codes hs).2.1
    · rw [hpc]
      exact hd
    · rw [hpc]
      exact hx
    · rw [hpc]
  | second t h x hpc hs heq hx =>
    have hin : removed past l t.pc = true := removed_iff.mpr ⟨h, .inr ⟨hs, .inr hpc⟩⟩
    have hd : (metaAt l (h + 2)).insn.dstReg = 0 := (shift_run (v := 0) hs (by decide)).2.1
    subst heq
    refine .inr ⟨_, _, step_tail ?_ ?_ (v := t.regs 0) ?_, stepKept_removed hin, ?_⟩
    · rw [hpc]
      exact (shift_codes hs).2.2
    · rw [hpc]
      exact hd
    · rw [hpc]
      simpa using hx
    · rw [Cpu.next]
      simp only [Function.update_idem, Function.update_eq_self]
      refine .same _ ?_
      rw [hpc]
      exact not_removed_after_shift hs

include hother hwidth in
theorem related_after {s : Cpu ω} (hs : removed past l s.pc = false) (hz : ZeroBeforeRshLsh l packet other s)
    (n : Nat) :
    after (step l packet other) n s = none ∧ after (stepKept l packet other past) n s = none ∨
      ∃ s' t', after (step l packet other) n s = some s' ∧ after (stepKept l packet other past) n s = some t' ∧
        Related past l s' t' := by
  induction n with
  | zero => exact .inr ⟨s, s, rfl, rfl, .same s hs⟩
  | succ n ih =>
    rcases ih with ⟨h1, h2⟩ | ⟨s', t', h1, h2, hr⟩
    · left
      rw [after, after, h1, h2]
      exact ⟨rfl, rfl⟩
    · rw [after, after, h1, h2]
      exact related_step hother hwidth hr fun v => hz n s' v h1

include hother hwidth in
theorem agree_of_zero {s : Cpu ω} (hs : removed past l s.pc = false) (hz : ZeroBeforeRshLsh l packet other s) :
    Agree l packet other past s := by
  intro n t hkept
  rcases related_after hother hwidth hs hz n with ⟨h1, h2⟩ | ⟨s', t', h1, h2, hr⟩
  · rw [h1, h2]
  rw [h1, h2]
  constructor
  · intro he
    cases he
    rw [hr.eq hkept]
  · intro he
    cases he
    rw [hr.eq (hr.pc ▸ hkept)]

include hwidth in
theorem zero_of_agree {s : Cpu ω} (ha : Agree l packet other past s) : ZeroBeforeRshLsh l packet other s := by
  intro n t v hn hs hc hv
  have hl := (shift_codes hs).1
  have hlt := loadPacket_lt hv (width_le (hwidth _ hl))
  rw [shift_width hs] at hlt
  obtain ⟨hd1, hd2, x, hx, hx'⟩ := shift_run hs hlt
  rw [if_pos hc] at hx'
  have hnext : step l packet other t = some (t.next 0 v) := by rw [step_load hl, hv, map_some]
  have hsecond : step l packet other (t.next 0 v) = some ((t.next 0 v).next 0 x) :=
    step_tail (shift_codes hs).2.1 hd1 (by rw [next_self]; exact hx)
  have hthird : step l packet other ((t.next 0 v).next 0 x) = some (((t.next 0 v).next 0 x).next 0 0) :=
    step_tail (shift_codes hs).2.2 hd2 (by rw [next_self]; exact hx')
  have hkept : removed past l t.pc = false := not_removed_of_load hl
  have hkn : after (stepKept l packet other past) n s = some t := (ha n t hkept).mp hn
  have horig : after (step l packet other) (n + 3) s = some (((t.next 0 v).next 0 x).next 0 0) := by
    rw [after, after, after, hn, bind_some, hnext, bind_some, hsecond, bind_some, hthird]
  have hopt : after (stepKept l packet other past) (n + 3) s =
      some { t.next 0 v with pc := (t.next 0 v).pc + 1 + 1 } := by
    have h1 : removed past l (t.next 0 v).pc = true := removed_iff.mpr ⟨t.pc, .inr ⟨hs, .inl rfl⟩⟩
    have h2 : removed past l ((t.next 0 v).pc + 1) = true := removed_iff.mpr ⟨t.pc, .inr ⟨hs, .inr rfl⟩⟩
    rw [after, after, after, hkn, bind_some, stepKept_kept hkept, hnext, bind_some, stepKept_removed h1,
      bind_some, stepKept_removed h2]
  have heq := (ha (n + 3) _ (not_removed_after_shift hs)).mp horig
  rw [hopt] at heq
  have hreg := congrArg (fun c : Cpu ω => c.regs 0) (some.inj heq)
  simpa [Cpu.next] using hreg

end Simulation

theorem optLd_preserves_iff {ω : Type} (past : BitVec 32) (l : List Meta) (packet : ω → List (BitVec 8))
    (other : Cpu ω → Option (Cpu ω)) (regs : Fin 16 → BitVec 64) (world : ω)
    (hother : ∀ s s', other s = some s' → Enters l s s')
    (hwidth : ∀ k, isPacketLoad (metaAt l k).insn.code = true → bpfSize (metaAt l k).insn.code ≠ bpfDw) :
    (∀ k, (metaAt (nfpBpfOptLdShift (nfpBpfOptLdMask past l)) k).hasFlag flagInsnSkipPrecDependent =
        ((metaAt l k).hasFlag flagInsnSkipPrecDependent || removed past l k)) ∧
      (Agree l packet other past ⟨0, regs, world⟩ ↔ ZeroBeforeRshLsh l packet other ⟨0, regs, world⟩) :=
  ⟨optimised_flag past l, zero_of_agree hwidth, agree_of_zero hother hwidth rfl⟩

def shiftPair (first second : BitVec 8) : List Meta :=
  [Meta.zero ⟨0x20, 0, 0, 0, 0⟩ 0, Meta.zero ⟨first, 0, 0, 0, 0x20⟩ 1, Meta.zero ⟨second, 0, 0, 0, 0x20⟩ 2,
    Meta.zero ⟨0x95, 0, 0, 0, 0⟩ 3]

theorem optLd_preserves_lsh_rsh :
    Agree (shiftPair 0x67 0x77) (fun packet : List (BitVec 8) => packet) (fun _ => none) 0
      ⟨0, fun _ => 0, [1, 2, 3, 4]⟩ :=
  (optLd_preserves_iff 0 (shiftPair 0x67 0x77) (fun packet : List (BitVec 8) => packet) (fun _ => none) (fun _ => 0)
    [1, 2, 3, 4] (fun _ _ h => nomatch h) (by
      intro k hk
      match k with
      | 0 => decide
      | 1 | 2 | 3 => cases hk
      | k + 4 =>
        rw [metaAt_of_length_le (by simp [shiftPair])] at hk
        exact absurd hk (by decide))).2.mpr (by
      intro n t v hn hs hc hv
      match ht : t.pc with
      | 0 =>
        rw [ht] at hc
        cases hc
      | 1 | 2 => rw [ht] at hs; cases hs
      | k + 3 => rw [ht] at hs; exact absurd hs (by simp [shiftAt, shiftPair]))

theorem rsh_lsh_after_word_load_clears_r0 :
    (nfpBpfOptLdShift (nfpBpfOptLdMask 0 (shiftPair 0x77 0x67))).map (Meta.hasFlag · flagInsnSkipPrecDependent) =
        [false, true, true, false] ∧
      (after (step (shiftPair 0x77 0x67) (fun packet : List (BitVec 8) => packet) fun _ => none) 3
        ⟨0, fun _ => 0, [1, 2, 3, 4]⟩).map (fun s => (s.pc, s.regs 0)) = some (3, 0) ∧
      (after (stepKept (shiftPair 0x77 0x67) (fun packet : List (BitVec 8) => packet) (fun _ => none) 0) 3
        ⟨0, fun _ => 0, [1, 2, 3, 4]⟩).map (fun s => (s.pc, s.regs 0)) = some (3, 0x01020304) :=
  ⟨by decide, by decide, by decide⟩

end NfpDriver.Optimize
