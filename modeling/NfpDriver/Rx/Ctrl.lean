import NfpDriver.Library.Loop
import NfpDriver.Rx.Ring

namespace NfpDriver.Rx.Ctrl

open Slots Loop

structure App where
  ctrlHasMeta : Bool
  deriving DecidableEq, Repr

structure Probe where
  completed : Nat → Option Desc
  metaType : BitVec 32
  metaTag : BitVec 32
  built : Bool
  newBuf : Option Buf

structure Vec where
  rx : Ring
  pool : Pool

def metaPortid : BitVec 32 := 5

def nfpCtrlMetaOk (app : App) (p : Probe) (metaLen : BitVec 7) : Bool :=
  if app.ctrlHasMeta then metaLen = 8 && p.metaType = metaPortid && p.metaTag = portIdCtrl else metaLen = 0

def ctrlExit (app : App) (p : Probe) (rxd : Desc) : Exit :=
  if !nfpCtrlMetaOk app p rxd.metaLen then .recycle
  else if !p.built then .recycle
  else
    match p.newBuf with
    | none => .noReplacement
    | some newBuf => .replace newBuf true

-- the device may have completed further descriptors since the last probe
def arrive (rx : Ring) (p : Probe) : Ring := { rx with rxds := fun i => (p.completed i).or (rx.rxds i) }

def nfpCtrlRxOne (app : App) (k : Nat) (v : Vec) (p : Probe) : Bool × Vec :=
  let rx := arrive v.rx p
  let i := idx k rx.rdP
  match rx.rxds i with
  | none => (false, { v with rx := rx })
  | some rxd =>
    let d := handOver k (pop rx) v.pool (rx.rxbufs i) (ctrlExit app p rxd)
    (true, ⟨d.1, d.2⟩)

structure Poll where
  vec : Vec
  budget : BitVec 32
  probes : Nat

structure Drained where
  vec : Vec
  budget : BitVec 32
  found : Bool

section Loop

variable (app : App) (k : Nat) (probe : Nat → Probe)

def rxStep (s : Poll) : Drained ⊕ Poll :=
  let r := nfpCtrlRxOne app k s.vec (probe s.probes)
  if r.1 then
    if s.budget = 0 then .inl ⟨r.2, s.budget - 1, true⟩ else .inr ⟨r.2, s.budget - 1, s.probes + 1⟩
  else .inl ⟨r.2, s.budget, false⟩

def ctrlBudget : BitVec 32 := 512

def NfpCtrlRx (v : Vec) (d : Drained) : Prop := Loop.Returns (rxStep app k probe) ⟨v, ctrlBudget, 0⟩ d

def Drained.ret (d : Drained) : Bool := d.budget ≠ 0

inductive Irq where
  | unmask
  | reschedule
  deriving DecidableEq, Repr

def pollIrq (d : Drained) : Irq := if d.ret then .unmask else .reschedule

def CtrlPoll (v : Vec) (d : Drained) (irq : Irq) : Prop := NfpCtrlRx app k probe v d ∧ irq = pollIrq d

def NfpNfd3CtrlPoll : Vec → Drained → Irq → Prop := CtrlPoll app k probe

def NfpNfdkCtrlPoll : Vec → Drained → Irq → Prop := CtrlPoll app k probe

def found : Nat → Nat → Vec → Bool
  | _, 0, _ => true
  | i, n + 1, v =>
    let r := nfpCtrlRxOne app k v (probe i)
    r.1 && found (i + 1) n r.2

end Loop

variable {app : App} {k : Nat} {probe : Nat → Probe}

theorem rxStep_found {s : Poll} {v : Vec} (h : nfpCtrlRxOne app k s.vec (probe s.probes) = (true, v)) :
    rxStep app k probe s =
      if s.budget = 0 then .inl ⟨v, s.budget - 1, true⟩ else .inr ⟨v, s.budget - 1, s.probes + 1⟩ := by
  rw [rxStep, h]
  rfl

theorem rxStep_empty {s : Poll} {v : Vec} (h : nfpCtrlRxOne app k s.vec (probe s.probes) = (false, v)) :
    rxStep app k probe s = .inl ⟨v, s.budget, false⟩ := by
  rw [rxStep, h]
  rfl

variable (app k probe) in
theorem returns_budget {n : Nat} (hn : n < 2 ^ 32) (i : Nat) (v : Vec) :
    ∃ d, Loop.Returns (rxStep app k probe) ⟨v, BitVec.ofNat 32 n, i⟩ d ∧ d.found = found app k probe i (n + 1) v ∧
      (d.found = true → d.ret = true) := by
  induction n generalizing i v with
  | zero =>
    rw [found]
    cases h : nfpCtrlRxOne app k v (probe i) with
    | mk b v' =>
      cases b with
      | false => exact ⟨_, (returns_inl (rxStep_empty h)).mpr rfl, rfl, fun hf => nomatch hf⟩
      | true => exact ⟨_, (returns_inl (rxStep_found h)).mpr rfl, rfl, fun _ => rfl⟩
  | succ n ih =>
    rw [found]
    cases h : nfpCtrlRxOne app k v (probe i) with
    | mk b v' =>
      cases b with
      | false => exact ⟨_, (returns_inl (rxStep_empty h)).mpr rfl, rfl, fun hf => nomatch hf⟩
      | true =>
        have hne : BitVec.ofNat 32 (n + 1) ≠ 0 := by
          intro hc
          have := congrArg BitVec.toNat hc
          rw [BitVec.toNat_ofNat, Nat.mod_eq_of_lt hn] at this
          exact Nat.succ_ne_zero n this
        have hpred : BitVec.ofNat 32 (n + 1) - 1 = BitVec.ofNat 32 n := by
          rw [BitVec.ofNat_add]
          exact BitVec.add_sub_cancel _ _
        have hstep := rxStep_found (s := ⟨v, BitVec.ofNat 32 (n + 1), i⟩) h
        rw [if_neg hne, hpred] at hstep
        obtain ⟨d, hd, hfound, hret⟩ := ih (by omega) (i + 1) v'
        exact ⟨d, (returns_inr hstep).mpr hd, hfound, hret⟩

-- a message consumed by the last probe means that the loop stopped on its budget
structure UnmaskedIdle (d : Drained) (irq : Irq) : Prop where
  idle : irq = .unmask → d.found = false
  resched : d.found = true → irq = .reschedule

theorem ctrl_poll_unmasks_iff (app : App) (k : Nat) (probe : Nat → Probe) (v : Vec) :
    ∃ d irq, NfpNfd3CtrlPoll app k probe v d irq ∧ NfpNfdkCtrlPoll app k probe v d irq ∧
      (UnmaskedIdle d irq ↔ found app k probe 0 513 v = false) := by
  obtain ⟨d, hd, hfound, hret⟩ := returns_budget app k probe (show 512 < 2 ^ 32 by decide) 0 v
  refine ⟨d, pollIrq d, ⟨hd, rfl⟩, ⟨hd, rfl⟩, ?_⟩
  rw [← hfound]
  constructor
  · intro h
    cases hf : d.found with
    | false => rfl
    | true =>
      have hirq : pollIrq d = .unmask := if_pos (hret hf)
      exact absurd (hirq.symm.trans (h.resched hf)) (by decide)
  · intro h
    exact ⟨fun _ => h, fun hf => absurd (h.symm.trans hf) (by decide)⟩

def flooded : Probe := ⟨fun _ => some ⟨0, 64⟩, 0, 0, false, none⟩

theorem found_flooded (n i : Nat) (v : Vec) : found ⟨false⟩ k (fun _ => flooded) i n v = true := by
  induction n generalizing i v with
  | zero => rfl
  | succ n ih =>
    exact ih (i + 1) _

def emptyVec : Vec := ⟨fillFreelist 10 (bufsAlloc []), ⟨fun _ => 0, []⟩⟩

theorem flood_unmasks : ∃ d, NfpNfd3CtrlPoll ⟨false⟩ 10 (fun _ => flooded) emptyVec d .unmask ∧ d.found = true := by
  obtain ⟨d, hd, hfound, hret⟩ := returns_budget ⟨false⟩ 10 (fun _ => flooded) (show 512 < 2 ^ 32 by decide) 0 emptyVec
  have hf : d.found = true := hfound.trans (found_flooded ..)
  exact ⟨d, ⟨hd, (if_pos (hret hf)).symm⟩, hf⟩

end NfpDriver.Rx.Ctrl
