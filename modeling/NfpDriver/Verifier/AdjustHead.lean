import Mathlib.Data.Set.Basic
import Mathlib.Logic.Function.Basic
import NfpDriver.Library.Runs

namespace NfpDriver.AdjustHead

open Runs List

structure Tnum where
  value : BitVec 64
  mask : BitVec 64
deriving DecidableEq

def tnumIsConst (t : Tnum) : Bool := t.mask = 0

structure RegState where
  scalarValue : Bool
  varOff : Tnum
deriving DecidableEq

structure CapAdjustHead where
  flags : BitVec 32
  offMax : BitVec 32
  guaranteedSub : BitVec 32
  guaranteedAdd : BitVec 32

def uintMax : BitVec 32 := 0xffffffff

def ethZlen : Int := 60

def ethHlen : Int := 14

def adjustHeadNoMeta : BitVec 32 := 1

def nfpRecordAdjustHead (cap : CapAdjustHead) (adjustHeadLocation : BitVec 32) (n : BitVec 16) (arg2 reg2 : RegState) :
    BitVec 32 :=
  if ¬reg2.scalarValue ∨ ¬tnumIsConst reg2.varOff then uintMax
  else
    let imm := reg2.varOff.value.setWidth 32
    if imm.toInt > ethZlen - ethHlen then uintMax
    else if imm.toInt > cap.guaranteedAdd.toInt ∨ imm.toInt < (-cap.guaranteedSub).toInt then uintMax
    else if adjustHeadLocation ≠ 0 ∧ adjustHeadLocation ≠ n.setWidth 32 then uintMax
    else if adjustHeadLocation ≠ 0 ∧ arg2.varOff.value ≠ imm.signExtend 64 then uintMax
    else n.setWidth 32

structure Visit where
  insn : Nat
  reg2 : RegState

structure Prog where
  adjustHeadLocation : BitVec 32
  arg2 : Nat → RegState

def prepared : Prog := ⟨0, fun _ => ⟨false, 0, 0⟩⟩

-- `meta->n` is an unsigned short that `nfp_prog_prepare` fills with the position of the instruction
def checkHelperCall (cap : CapAdjustHead) (p : Prog) (v : Visit) : Option Prog :=
  if cap.offMax = 0 then none
  else if cap.flags &&& adjustHeadNoMeta = 0 then none
  else some {
    adjustHeadLocation :=
      nfpRecordAdjustHead cap p.adjustHeadLocation (BitVec.ofNat 16 v.insn) (p.arg2 v.insn) v.reg2
    arg2 := Function.update p.arg2 v.insn v.reg2 }

def ConstArg (reg : RegState) (imm : BitVec 32) : Prop :=
  reg.scalarValue ∧ tnumIsConst reg.varOff ∧ reg.varOff.value.setWidth 32 = imm

def Supported (cap : CapAdjustHead) : Prop := cap.offMax ≠ 0 ∧ cap.flags &&& adjustHeadNoMeta ≠ 0

def Guaranteed (cap : CapAdjustHead) (imm : BitVec 32) : Prop :=
  imm.toInt ≤ ethZlen - ethHlen ∧ imm.toInt ≤ cap.guaranteedAdd.toInt ∧ -cap.guaranteedSub.toInt ≤ imm.toInt

def Passes (cap : CapAdjustHead) (imm : BitVec 32) : Prop :=
  imm.toInt ≤ ethZlen - ethHlen ∧ imm.toInt ≤ cap.guaranteedAdd.toInt ∧ (-cap.guaranteedSub).toInt ≤ imm.toInt

structure FastPathSafe (cap : CapAdjustHead) (visits : List Visit) : Prop where
  single : ∀ p, run (checkHelperCall cap) prepared visits = some p → p.adjustHeadLocation ≠ 0 →
    p.adjustHeadLocation ≠ uintMax →
    ∃ imm, Guaranteed cap imm ∧ ∀ v ∈ visits, v.insn = p.adjustHeadLocation.toNat ∧ ConstArg v.reg2 imm
  sticky : ∀ before after p q, visits = before ++ after → run (checkHelperCall cap) prepared before = some p →
    p.adjustHeadLocation = uintMax → run (checkHelperCall cap) p after = some q → q.adjustHeadLocation = uintMax

variable {i : Nat} {imm : BitVec 32} {p q : Prog}

section Step

variable {cap : CapAdjustHead} {p q : Prog} {v : Visit}

theorem number_ne_uintMax (n : BitVec 16) : n.setWidth 32 ≠ uintMax := by
  intro h
  have hn : n.toNat = 0xffffffff := by
    simpa [uintMax, Nat.mod_eq_of_lt (show n.toNat < 4294967296 by omega)] using congrArg BitVec.toNat h
  omega

theorem number_toNat (i : Nat) : ((BitVec.ofNat 16 i).setWidth 32).toNat = i % 65536 := by
  rw [BitVec.toNat_setWidth, BitVec.toNat_ofNat, Nat.mod_eq_of_lt (by omega)]

theorem number_eq_zero : (BitVec.ofNat 16 i).setWidth 32 = 0#32 ↔ 65536 ∣ i := by
  rw [← BitVec.toNat_inj, number_toNat, Nat.dvd_iff_mod_eq_zero]
  rfl

theorem record_cases (cap : CapAdjustHead) (loc : BitVec 32) (n : BitVec 16) (arg2 reg2 : RegState) :
    nfpRecordAdjustHead cap loc n arg2 reg2 = uintMax ∨
      nfpRecordAdjustHead cap loc n arg2 reg2 = n.setWidth 32 ∧
        (∃ imm, ConstArg reg2 imm ∧ Passes cap imm ∧ (loc ≠ 0 → arg2.varOff.value = imm.signExtend 64)) ∧
        (loc ≠ 0 → loc = n.setWidth 32) := by
  rw [nfpRecordAdjustHead]
  by_cases hc : ¬reg2.scalarValue ∨ ¬tnumIsConst reg2.varOff
  · exact .inl (if_pos hc)
  obtain ⟨imm, hi⟩ := @exists_eq' _ (reg2.varOff.value.setWidth 32)
  rw [if_neg hc, hi]
  dsimp only
  rw [not_or, not_not, not_not] at hc
  split_ifs with h1 h2 h3 h4
  · exact .inl rfl
  · exact .inl rfl
  · exact .inl rfl
  · exact .inl rfl
  · rw [not_or] at h2
    refine .inr ⟨rfl, ⟨imm, ⟨hc.1, hc.2, hi⟩, ⟨by omega, by omega, by omega⟩, fun hl => ?_⟩, fun hl => ?_⟩
    · exact not_not.mp fun h => h4 ⟨hl, h⟩
    · exact not_not.mp fun h => h3 ⟨hl, h⟩

theorem record_unset {n : BitVec 16} {arg2 reg2 : RegState} (hc : ConstArg reg2 imm) (hp : Passes cap imm) :
    nfpRecordAdjustHead cap 0 n arg2 reg2 = n.setWidth 32 := by
  obtain ⟨hs, ht, hi⟩ := hc
  obtain ⟨hz, ha, hb⟩ := hp
  rw [nfpRecordAdjustHead, if_neg (by simp [hs, ht]), hi]
  rw [if_neg (by omega), if_neg (by omega), if_neg (by simp), if_neg (by simp)]

theorem record_uintMax (n : BitVec 16) (arg2 reg2 : RegState) :
    nfpRecordAdjustHead cap uintMax n arg2 reg2 = uintMax := by
  rcases record_cases cap uintMax n arg2 reg2 with h | ⟨-, -, hl⟩
  · exact h
  · exact absurd (hl (by decide)).symm (number_ne_uintMax n)

theorem checkHelperCall_some (h : checkHelperCall cap p v = some q) :
    Supported cap ∧
      q.adjustHeadLocation = nfpRecordAdjustHead cap p.adjustHeadLocation (BitVec.ofNat 16 v.insn)
        (p.arg2 v.insn) v.reg2 ∧
      q.arg2 v.insn = v.reg2 := by
  rw [checkHelperCall] at h
  split_ifs at h with h1 h2
  cases h
  exact ⟨⟨h1, h2⟩, rfl, Function.update_self ..⟩

theorem checkHelperCall_supported (hs : Supported cap) : ∃ q, checkHelperCall cap p v = some q := by
  rw [checkHelperCall, if_neg hs.1, if_neg hs.2]
  exact ⟨_, rfl⟩

end Step

section Runs

variable {cap : CapAdjustHead} {visits : List Visit}

theorem uintMax_sticky (hp : p.adjustHeadLocation = uintMax) (hr : run (checkHelperCall cap) p visits = some q) :
    q.adjustHeadLocation = uintMax := by
  induction visits generalizing p with
  | nil => exact Option.some.inj hr ▸ hp
  | cons v visits ih =>
    obtain ⟨r, hv, hr⟩ := run_cons.mp hr
    refine ih ?_ hr
    rw [(checkHelperCall_some hv).2.1, hp, record_uintMax]

theorem never_recorded (hn : ∀ v ∈ visits, 65536 ∣ v.insn ∨ ¬∃ imm, Passes cap imm)
    (hp : p.adjustHeadLocation = 0 ∨ p.adjustHeadLocation = uintMax)
    (hr : run (checkHelperCall cap) p visits = some q) : q.adjustHeadLocation = 0 ∨ q.adjustHeadLocation = uintMax := by
  induction visits generalizing p with
  | nil => exact Option.some.inj hr ▸ hp
  | cons v visits ih =>
    obtain ⟨r, hv, hr⟩ := run_cons.mp hr
    refine ih (fun w hw => hn w (mem_cons_of_mem v hw)) ?_ hr
    rw [(checkHelperCall_some hv).2.1]
    rcases record_cases cap p.adjustHeadLocation (BitVec.ofNat 16 v.insn) (p.arg2 v.insn) v.reg2 with
      h | ⟨h, ⟨imm, -, hpass, -⟩, -⟩
    · exact .inr h
    · rcases hn v mem_cons_self with hd | hno
      · exact .inl (h.trans (number_eq_zero.mpr hd))
      · exact absurd ⟨imm, hpass⟩ hno

-- the visits made so far when the location is the instruction `n`
structure Recorded (cap : CapAdjustHead) (p : Prog) (visits : List Visit) (n : Nat) (imm : BitVec 32) : Prop where
  location : p.adjustHeadLocation.toNat = n
  passes : Passes cap imm
  arg : ConstArg (p.arg2 n) imm
  all : ∀ v ∈ visits, v.insn = n ∧ ConstArg v.reg2 imm

inductive Seen (cap : CapAdjustHead) (p : Prog) (visits : List Visit) : Prop
  | unset (hl : p.adjustHeadLocation = 0) (hv : visits = [])
  | failed (hl : p.adjustHeadLocation = uintMax)
  | recorded (n : Nat) (imm : BitVec 32) (hl : p.adjustHeadLocation ≠ 0) (hr : Recorded cap p visits n imm)

theorem signExtend_setWidth (x : BitVec 32) : (x.signExtend 64).setWidth 32 = x := by
  refine BitVec.eq_of_getLsbD_eq fun i hi => ?_
  rw [BitVec.getLsbD_setWidth, BitVec.getLsbD_signExtend]
  simp [hi, lt_trans hi (show 32 < 64 by decide)]

theorem seen_step {v : Visit} (hv : 0 < v.insn ∧ v.insn < 65536) (hs : Seen cap p visits)
    (h : checkHelperCall cap p v = some q) : Seen cap q (visits ++ [v]) := by
  obtain ⟨-, hloc, harg⟩ := checkHelperCall_some h
  have hnum : (BitVec.ofNat 16 v.insn).setWidth 32 ≠ 0#32 := fun h0 => by
    have := Nat.le_of_dvd hv.1 (number_eq_zero.mp h0)
    omega
  have hnat : ((BitVec.ofNat 16 v.insn).setWidth 32).toNat = v.insn := by
    rw [number_toNat, Nat.mod_eq_of_lt hv.2]
  rcases record_cases cap p.adjustHeadLocation (BitVec.ofNat 16 v.insn) (p.arg2 v.insn) v.reg2 with
    hr | ⟨hr, ⟨imm, hc, hpass, hold⟩, hsame⟩
  · exact .failed (hloc.trans hr)
  have hq : q.adjustHeadLocation = (BitVec.ofNat 16 v.insn).setWidth 32 := hloc.trans hr
  refine .recorded v.insn imm (hq ▸ hnum) ⟨hq ▸ hnat, hpass, harg.symm ▸ hc, fun w hw => ?_⟩
  rcases mem_append.mp hw with hw | hw
  · cases hs with
    | unset hl hnil => exact absurd (hnil ▸ hw) not_mem_nil
    | failed hl => exact absurd (hsame (hl ▸ by decide)).symm (hl ▸ number_ne_uintMax _)
    | recorded n imm' hl hrec =>
      have hn : n = v.insn := by rw [← hrec.location, hsame hl, hnat]
      subst hn
      -- the stored argument is the previous visit's, and its low half is that visit's constant
      have himm : imm' = imm := by
        rw [← hrec.arg.2.2, hold hl, signExtend_setWidth]
      exact himm ▸ hrec.all w hw
  · cases mem_singleton.mp hw
    exact ⟨rfl, hc⟩

theorem seen_run {before : List Visit} (hn : ∀ v ∈ visits, 0 < v.insn ∧ v.insn < 65536) (hs : Seen cap p before)
    (hr : run (checkHelperCall cap) p visits = some q) : Seen cap q (before ++ visits) := by
  induction visits generalizing p before with
  | nil => exact Option.some.inj hr ▸ (append_nil before).symm ▸ hs
  | cons v visits ih =>
    obtain ⟨r, hv, hr⟩ := run_cons.mp hr
    have hstep := seen_step (hn v mem_cons_self) hs hv
    simpa using ih (fun w hw => hn w (mem_cons_of_mem v hw)) hstep hr

theorem guaranteed_of_passes (hsub : cap.guaranteedSub ≠ BitVec.intMin 32) (h : Passes cap imm) :
    Guaranteed cap imm := by
  refine ⟨h.1, h.2.1, ?_⟩
  rw [← BitVec.toInt_neg_of_ne_intMin hsub]
  exact h.2.2

theorem safe_of_never (hn : ∀ v ∈ visits, 65536 ∣ v.insn ∨ ¬∃ imm, Passes cap imm) : FastPathSafe cap visits where
  single p hr h0 hmax := by
    rcases never_recorded hn (.inl rfl) hr with h | h
    · exact absurd h h0
    · exact absurd h hmax
  sticky before after p q _ _ hp hq := uintMax_sticky hp hq

theorem safe_of_numbered (hsub : cap.guaranteedSub ≠ BitVec.intMin 32)
    (hn : ∀ v ∈ visits, 0 < v.insn ∧ v.insn < 65536) : FastPathSafe cap visits where
  single p hr h0 hmax := by
    rcases seen_run hn (.unset rfl rfl) hr with ⟨hl, -⟩ | hl | ⟨n, imm, -, hrec⟩
    · exact absurd hl h0
    · exact absurd hl hmax
    · exact ⟨imm, guaranteed_of_passes hsub hrec.passes, fun v hv => hrec.location.symm ▸ hrec.all v hv⟩
  sticky before after p q _ _ hp hq := uintMax_sticky hp hq

theorem safe_of_unsupported (hs : ¬Supported cap) : FastPathSafe cap visits where
  single p hr h0 _ := by
    cases visits with
    | nil => exact absurd (Option.some.inj hr ▸ rfl) h0
    | cons v visits =>
      obtain ⟨r, hv, -⟩ := run_cons.mp hr
      exact absurd (checkHelperCall_some hv).1 hs
  sticky before after p q _ _ hp hq := uintMax_sticky hp hq

end Runs

def constReg (imm : BitVec 32) : RegState := ⟨true, imm.signExtend 64, 0⟩

theorem constReg_const (imm : BitVec 32) : ConstArg (constReg imm) imm :=
  ⟨rfl, rfl, signExtend_setWidth imm⟩

section Necessity

variable {cap : CapAdjustHead} {imm : BitVec 32}

section

variable (hs : Supported cap) (hp : Passes cap imm)

include hs hp

theorem visit_unset (h0 : p.adjustHeadLocation = 0) (i : Nat) :
    ∃ q, checkHelperCall cap p ⟨i, constReg imm⟩ = some q ∧
      q.adjustHeadLocation = (BitVec.ofNat 16 i).setWidth 32 := by
  obtain ⟨q, hq⟩ := checkHelperCall_supported (p := p) (v := ⟨i, constReg imm⟩) hs
  refine ⟨q, hq, ?_⟩
  rw [(checkHelperCall_some hq).2.1, h0]
  exact record_unset (constReg_const imm) hp

theorem recorded_alone (hi : ¬65536 ∣ i)
    (h : FastPathSafe cap [⟨i, constReg imm⟩]) : (∃ imm, Guaranteed cap imm) ∧ i < 65536 := by
  obtain ⟨q, hq, hl⟩ := visit_unset hs hp (show prepared.adjustHeadLocation = 0 from rfl) i
  have h0 : q.adjustHeadLocation ≠ 0 := fun h0 => hi (number_eq_zero.mp (hl.symm.trans h0))
  obtain ⟨imm', hg, hall⟩ := h.single q (run_cons.mpr ⟨q, hq, rfl⟩) h0 (hl ▸ number_ne_uintMax _)
  have hi := (hall _ mem_cons_self).1
  rw [hl, number_toNat] at hi
  exact ⟨⟨imm', hg⟩, by simp only at hi; omega⟩

theorem second_site_hides_first {j : Nat} (hi : 65536 ∣ i)
    (hj : ¬65536 ∣ j) : ¬FastPathSafe cap [⟨i, constReg imm⟩, ⟨j, constReg imm⟩] := by
  intro h
  obtain ⟨p, hp1, hl1⟩ := visit_unset hs hp (show prepared.adjustHeadLocation = 0 from rfl) i
  obtain ⟨q, hq, hl⟩ := visit_unset hs hp (hl1.trans (number_eq_zero.mpr hi)) j
  have h0 : q.adjustHeadLocation ≠ 0 := fun h0 => hj (number_eq_zero.mp (hl.symm.trans h0))
  have hr : run (checkHelperCall cap) prepared [⟨i, constReg imm⟩, ⟨j, constReg imm⟩] = some q :=
    run_cons.mpr ⟨p, hp1, run_cons.mpr ⟨q, hq, rfl⟩⟩
  obtain ⟨_, -, hall⟩ := h.single q hr h0 (hl ▸ number_ne_uintMax _)
  have hi' := (hall _ mem_cons_self).1
  have hj' := (hall _ (mem_cons_of_mem _ mem_cons_self)).1
  simp only at hi' hj'
  omega

end

theorem not_guaranteed_intMin (h : cap.guaranteedSub = BitVec.intMin 32) : ¬Guaranteed cap imm := by
  rintro ⟨h46, -, hb⟩
  rw [h, show (BitVec.intMin 32).toInt = -2147483648 by decide] at hb
  change imm.toInt ≤ 46 at h46
  omega

end Necessity

theorem adjustHead_safe_iff (cap : CapAdjustHead) (sites : Set Nat) :
    (∀ visits : List Visit, (∀ v ∈ visits, v.insn ∈ sites) → FastPathSafe cap visits) ↔
      (∀ i ∈ sites, 65536 ∣ i) ∨
      (cap.guaranteedSub ≠ BitVec.intMin 32 ∧ ∀ i ∈ sites, 0 < i ∧ i < 65536) ∨
      ¬(Supported cap ∧ ∃ imm, Passes cap imm) := by
  constructor
  · intro h
    by_contra hno
    simp only [not_or, not_not, not_forall] at hno
    obtain ⟨⟨j, hj, hjd⟩, hsub, hs, imm, hp⟩ := hno
    obtain ⟨⟨imm', hg⟩, -⟩ := recorded_alone hs hp hjd (h _ (by simpa using hj))
    refine hsub ⟨fun hmin => not_guaranteed_intMin hmin hg, fun i hi => ?_⟩
    have hid : ¬65536 ∣ i := fun hd => second_site_hides_first hs hp hd hjd (h _ (by simp [hi, hj]))
    have hlt := (recorded_alone hs hp hid (h _ (by simpa using hi))).2
    exact ⟨Nat.pos_of_ne_zero fun h0 => hid (h0 ▸ Nat.dvd_zero _), hlt⟩
  · rintro (hd | ⟨hsub, hn⟩ | hno) visits hv
    · exact safe_of_never fun v hm => .inl (hd v.insn (hv v hm))
    · exact safe_of_numbered hsub fun v hm => hn v.insn (hv v hm)
    · rcases not_and_or.mp hno with hs | hp
      · exact safe_of_unsupported hs
      · exact safe_of_never fun v _ => .inr hp

theorem wrapped_site_not_seen : ¬FastPathSafe ⟨1, 256, 64, 64⟩ [⟨65536, constReg 8⟩, ⟨65540, constReg 8⟩] :=
  second_site_hides_first ⟨by decide, by decide⟩ ⟨by decide, by decide, by decide⟩ (by decide) (by decide)

end NfpDriver.AdjustHead
