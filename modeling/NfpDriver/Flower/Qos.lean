import Mathlib.Algebra.Ring.Nat
import Mathlib.Data.List.Basic
import NfpDriver.Library.Runs

namespace NfpDriver.Qos

open Runs List

inductive ActId
  | drop
  | accept
  | goOn
  | pipe
  | other
deriving DecidableEq

structure Action where
  police : Bool
  exceed : ActId
  notexceed : ActId
  peakrateBytesPs : BitVec 64
  avrate : BitVec 32
  overhead : BitVec 16
  rateBytesPs : BitVec 64
  burst : BitVec 32
  ratePktPs : BitVec 64
  burstPkt : BitVec 64
  hwIndex : BitVec 32

structure Config where
  flagsOpts : BitVec 32
  id : BitVec 32
  bktTknP : BitVec 32 := 0
  bktTknC : BitVec 32 := 0
  pbs : BitVec 32 := 0
  cbs : BitVec 32 := 0
  pir : BitVec 32 := 0
  cir : BitVec 32 := 0

inductive Cmsg
  | qosMod (config : Config)
  | qosDel (config : Config)

-- the port id of a VF carries the PCIe port type in its top four bits
structure Repr where
  portId : BitVec 32
  pcie : portId.extractLsb' 28 4 = 2
  tableId : BitVec 32 := 0

structure Meter where
  meterId : BitVec 32
  bps : Bool

structure Feats where
  vfRlim : Bool
  qosPps : Bool
  qosMeter : Bool

-- `reprs` are the VF representors, `polling` says that `qos_stats_work` is scheduled
structure Priv where
  reprs : List Repr
  meterTable : List Meter
  qosRateLimiters : Int
  polling : Bool
  sent : List Cmsg

def Priv.meterIds (st : Priv) : List (BitVec 32) := st.meterTable.map Meter.meterId

def enomem : Int := 12

def enoent : Int := 2

def eopnotsupp : Int := 95

def qosPps : BitVec 32 := 1 <<< 15

def qosMeter : BitVec 32 := 1 <<< 10

def Priv.send (st : Priv) (msg : Cmsg) : Priv := { st with sent := st.sent ++ [msg] }

def Priv.gain (st : Priv) : Priv :=
  { st with qosRateLimiters := st.qosRateLimiters + 1, polling := st.polling || st.qosRateLimiters + 1 = 1 }

def Priv.lose (st : Priv) : Priv :=
  { st with qosRateLimiters := st.qosRateLimiters - 1, polling := st.polling && st.qosRateLimiters - 1 ≠ 0 }

def nfpFlowerOffloadOnePolice (ingress pps : Bool) (id rate burst : BitVec 32) : Config :=
  ⟨(if pps then qosPps else 0) ||| (if ingress then 0 else qosMeter), id, burst, burst, burst, burst, rate, rate⟩

def nfpPolicerValidate (act : Action) (last ingress : Bool) : Bool :=
  act.exceed = .drop && (act.notexceed = .accept || act.notexceed = if ingress then .goOn else .pipe) &&
    !(act.notexceed = .accept && !last) && act.peakrateBytesPs = 0 && act.avrate = 0 && act.overhead = 0

def chosen (pps : Bool) (act : Action) : Option (BitVec 64 × BitVec 32) :=
  if act.rateBytesPs ≠ 0#64 then some (act.rateBytesPs, act.burst)
  else if act.ratePktPs ≠ 0#64 ∧ pps then some (act.ratePktPs, act.burstPkt.setWidth 32)
  else none

def message (ingress : Bool) (id : BitVec 32) (act : Action) (t : BitVec 64 × BitVec 32) : Config :=
  nfpFlowerOffloadOnePolice ingress (act.ratePktPs ≠ 0#64) id (t.1.setWidth 32) t.2

def emitted (ok pps ingress : Bool) (id : BitVec 32) (act : Action) : List Config :=
  if ok then ((chosen pps act).map (message ingress id act)).toList else []

def validates (pps : Bool) : Bool → Bool → List Action → Bool
  | _, _, [] => true
  | bpsNum, ppsNum, act :: rest =>
    act.police && nfpPolicerValidate act rest.isEmpty true && !(act.rateBytesPs ≠ 0#64 && bpsNum) &&
      !(act.ratePktPs ≠ 0#64 && (!pps || ppsNum)) &&
      validates pps (bpsNum || act.rateBytesPs ≠ 0#64) (ppsNum || act.ratePktPs ≠ 0#64) rest

def countable (pps : Bool) (actionNum : Nat) : Bool :=
  if pps then !(2 < actionNum || actionNum = 0) else actionNum = 1

-- each action comes with the outcome of the allocation of its message
def programmed (portId : BitVec 32) (acts : List (Action × Bool)) : List Config :=
  acts.flatMap fun a => emitted a.2 true true portId a.1

def nfpFlowerInstallRateLimiter (feats : Feats) (st : Priv) (netdev : Nat) (blockShared : Bool) (prio : BitVec 32)
    (acts : List (Action × Bool)) : Int × Priv :=
  match st.reprs[netdev]? with
  | none => (-eopnotsupp, st)
  | some repr =>
    if blockShared ∨ !countable feats.qosPps acts.length ∨ prio ≠ 1 ∨
        !validates feats.qosPps false false (acts.map Prod.fst) then (-eopnotsupp, st)
    else
      (0, Priv.gain { st with
        reprs := st.reprs.set netdev { repr with tableId := repr.portId }
        sent := st.sent ++ (programmed repr.portId acts).map .qosMod })

def nfpFlowerRemoveRateLimiter (feats : Feats) (st : Priv) (netdev : Nat) (bpsSkb ppsSkb : Bool) : Int × Priv :=
  match st.reprs[netdev]? with
  | none => (-eopnotsupp, st)
  | some repr =>
    if repr.tableId = 0 then (-eopnotsupp, st)
    else
      let st' := Priv.lose { st with reprs := st.reprs.set netdev { repr with tableId := 0 } }
      if !bpsSkb then (-enomem, st')
      else
        let st' := st'.send (.qosDel { flagsOpts := 0, id := repr.portId })
        if !feats.qosPps then (0, st')
        else if !ppsSkb then (-enomem, st')
        else (0, st'.send (.qosDel { flagsOpts := qosPps, id := repr.portId }))

structure Attempt where
  entry : Bool
  insert : Bool
  skb : Bool

def nfpFlowerAddMeterEntry (st : Priv) (meterId : BitVec 32) (e : Attempt) : Option Priv :=
  if st.meterIds.contains meterId then some st
  else if e.entry && e.insert then some (Priv.gain { st with meterTable := st.meterTable ++ [⟨meterId, false⟩] })
  else none

def programBps (act : Action) (m : Meter) : Meter :=
  if m.meterId = act.hwIndex then { m with bps := act.rateBytesPs ≠ 0#64 } else m

def nfpFlowerSetupMeterAdd (st : Priv) (act : Action) (e : Attempt) : Option Priv :=
  (nfpFlowerAddMeterEntry st act.hwIndex e).map fun st => { st with meterTable := st.meterTable.map (programBps act) }

def nfpFlowerDelMeterEntry (st : Priv) (meterId : BitVec 32) : Priv :=
  if st.meterIds.contains meterId then
    Priv.lose { st with meterTable := st.meterTable.eraseP fun m => m.meterId == meterId }
  else st

-- the body of the loop for a valid police action, `none` is `continue`
def installOne (feats : Feats) (st : Priv) (act : Action) (e : Attempt) : Option Priv :=
  (chosen feats.qosPps act).bind fun t => (nfpFlowerSetupMeterAdd st act e).map fun st' =>
    if e.skb then st'.send (.qosMod (message false act.hwIndex act t)) else st'

def nfpActInstallActions (feats : Feats) : List (Action × Attempt) → Priv → Bool → Int × Priv
  | [], st, add => (if add then 0 else -eopnotsupp, st)
  | (act, e) :: rest, st, add =>
    if !act.police then nfpActInstallActions feats rest st add
    else if !nfpPolicerValidate act rest.isEmpty false then (-eopnotsupp, st)
    else
      match installOne feats st act e with
      | none => nfpActInstallActions feats rest st add
      | some st' => nfpActInstallActions feats rest st' true

def nfpActRemoveActions (st : Priv) (police : Bool) (index : BitVec 32) (skb : Bool) : Int × Priv :=
  if !police then (-eopnotsupp, st)
  else
    match st.meterTable.find? fun m => m.meterId == index with
    | none => (-enoent, st)
    | some m =>
      if !skb then (-enomem, st)
      else
        let flags := qosMeter ||| if m.bps then 0 else qosPps
        (0, nfpFlowerDelMeterEntry (st.send (.qosDel { flagsOpts := flags, id := index })) index)

inductive Command
  | replace (netdev : Nat) (blockShared : Bool) (prio : BitVec 32) (acts : List (Action × Bool))
  | destroy (netdev : Nat) (bpsSkb ppsSkb : Bool)
  | stats (netdev : Nat)
  | actReplace (acts : List (Action × Attempt))
  | actDestroy (police : Bool) (index : BitVec 32) (skb : Bool)
  | actStats (index : BitVec 32)

def setup (feats : Feats) (st : Priv) : Command → Int × Priv
  | .replace netdev blockShared prio acts =>
    if feats.vfRlim then nfpFlowerInstallRateLimiter feats st netdev blockShared prio acts else (-eopnotsupp, st)
  | .destroy netdev bpsSkb ppsSkb =>
    if feats.vfRlim then nfpFlowerRemoveRateLimiter feats st netdev bpsSkb ppsSkb else (-eopnotsupp, st)
  | .actReplace acts => if feats.qosMeter then nfpActInstallActions feats acts st false else (-eopnotsupp, st)
  | .actDestroy police index skb =>
    if feats.qosMeter then nfpActRemoveActions st police index skb else (-eopnotsupp, st)
  -- the statistics commands read and write the counters of an entry only
  | .stats _ => (0, st)
  | .actStats _ => (0, st)

def step (feats : Feats) (st : Priv) (c : Command) : Option Priv := some (setup feats st c).2

def initial (reprs : List Repr) : Priv := ⟨reprs.map fun r => { r with tableId := 0 }, [], 0, false, []⟩

def Repr.limited (r : Repr) : Bool := r.tableId ≠ 0

def Priv.limiters (st : Priv) : Nat := st.reprs.countP Repr.limited + st.meterTable.length

structure Counts (count : Int) (polling : Bool) (limiters : Nat) : Prop where
  count : count = limiters
  polling : polling = true ↔ 0 < limiters

def Exact (st : Priv) : Prop := Counts st.qosRateLimiters st.polling st.limiters

def Fresh (feats : Feats) (st : Priv) : Command → Prop
  | .replace netdev blockShared prio acts =>
    (setup feats st (.replace netdev blockShared prio acts)).1 = 0 → ∀ r ∈ st.reprs[netdev]?, r.tableId = 0
  | _ => True

def Placeable (act : Action) (e : Attempt) (ids : List (BitVec 32)) : Prop :=
  ids.contains act.hwIndex = true ∨ e.entry = true ∧ e.insert = true

def placed (act : Action) (ids : List (BitVec 32)) : List (BitVec 32) :=
  if ids.contains act.hwIndex then ids else ids ++ [act.hwIndex]

instance (act : Action) (e : Attempt) (ids : List (BitVec 32)) : Decidable (Placeable act e ids) :=
  inferInstanceAs (Decidable (_ ∨ _))

section Count

variable {feats : Feats} {st : Priv} {count : Int} {polling : Bool} {n m : Nat}

theorem Counts.gain (h : Counts count polling n) (hm : m = n + 1) :
    Counts (count + 1) (polling || count + 1 = 1) m where
  count := by rw [h.count, hm]; rfl
  polling := by
    rw [Bool.or_eq_true, decide_eq_true_eq, h.polling, h.count]
    omega

theorem Counts.lose (h : Counts count polling n) (hm : m + 1 = n) :
    Counts (count - 1) (polling && count - 1 ≠ 0) m where
  count := by rw [h.count]; omega
  polling := by
    rw [Bool.and_eq_true, decide_eq_true_eq, h.polling, h.count]
    omega

theorem Repr.portId_limited (r : Repr) : Repr.limited { r with tableId := r.portId } = true := by
  have h := r.pcie
  rw [Repr.limited, decide_eq_true_eq]
  rintro (h0 : r.portId = 0)
  rw [h0] at h
  cases h

theorem set_limited {l : List Repr} {i : Nat} {r : Repr} (h : l[i]? = some r) (s : Repr) :
    (l.set i s).countP Repr.limited + r.limited.toNat = l.countP Repr.limited + s.limited.toNat := by
  induction l generalizing i with
  | nil => cases h
  | cons q l ih =>
    cases i with
    | zero =>
      cases h
      rw [set_cons_zero, countP_cons, countP_cons]
      cases s.limited <;> cases r.limited <;> simp
    | succ i =>
      have := ih h
      rw [set_cons_succ, countP_cons, countP_cons]
      omega

theorem install_cases (feats : Feats) (st : Priv) (netdev : Nat) (blockShared : Bool) (prio : BitVec 32)
    (acts : List (Action × Bool)) :
    nfpFlowerInstallRateLimiter feats st netdev blockShared prio acts = (-eopnotsupp, st) ∨
      ∃ r, st.reprs[netdev]? = some r ∧
        nfpFlowerInstallRateLimiter feats st netdev blockShared prio acts = (0, Priv.gain { st with
          reprs := st.reprs.set netdev { r with tableId := r.portId }
          sent := st.sent ++ (programmed r.portId acts).map .qosMod }) := by
  rw [nfpFlowerInstallRateLimiter]
  cases st.reprs[netdev]? with
  | none => exact .inl rfl
  | some r =>
    dsimp only
    split
    · exact .inl rfl
    · exact .inr ⟨r, rfl, rfl⟩

theorem refused : -eopnotsupp ≠ 0 := by decide

theorem install_exact_iff (h : Exact st) (netdev : Nat) (blockShared : Bool) (prio : BitVec 32)
    (acts : List (Action × Bool)) :
    Exact (setup feats st (.replace netdev blockShared prio acts)).2 ↔
      Fresh feats st (.replace netdev blockShared prio acts) := by
  rw [Fresh, setup]
  split
  · rcases install_cases feats st netdev blockShared prio acts with heq | ⟨r, hr, heq⟩
    · rw [heq]
      exact iff_of_true h (absurd · refused)
    have hset := set_limited hr { r with tableId := r.portId }
    rw [r.portId_limited, Repr.limited] at hset
    simp only [heq, hr, Option.mem_some_iff, forall_eq', true_imp_iff]
    constructor
    · intro hx
      have hc := hx.count
      simp only [Priv.gain, Priv.limiters, h.count] at hc
      by_contra h0
      simp only [h0, ne_eq, not_false_eq_true, decide_true, Bool.toNat_true] at hset
      omega
    · intro h0
      refine h.gain ?_
      simp only [h0, ne_eq, not_true_eq_false, decide_false, Bool.toNat_true, Bool.toNat_false] at hset
      simp only [Priv.limiters, Priv.gain]
      omega
  · exact iff_of_true h (absurd · refused)

theorem remove_exact (h : Exact st) (netdev : Nat) (bpsSkb ppsSkb : Bool) :
    Exact (nfpFlowerRemoveRateLimiter feats st netdev bpsSkb ppsSkb).2 := by
  rw [nfpFlowerRemoveRateLimiter]
  cases hr : st.reprs[netdev]? with
  | none => exact h
  | some r =>
    dsimp only
    split
    · exact h
    next h0 =>
    have hset := set_limited hr { r with tableId := 0 }
    have hl : Exact (Priv.lose { st with reprs := st.reprs.set netdev { r with tableId := 0 } }) := by
      refine h.lose ?_
      simp only [Repr.limited, h0, ne_eq, not_false_eq_true, decide_true, not_true_eq_false, decide_false,
        Bool.toNat_true, Bool.toNat_false] at hset
      simp only [Priv.limiters, Priv.lose]
      omega
    split_ifs <;> exact hl

theorem programBps_ids (act : Action) (l : List Meter) :
    (l.map (programBps act)).map Meter.meterId = l.map Meter.meterId := by
  rw [map_map]
  refine map_congr_left fun m _ => ?_
  rw [Function.comp_apply, programBps]
  split <;> rfl

theorem setupMeterAdd_cases (st : Priv) (act : Action) (e : Attempt) :
    (nfpFlowerSetupMeterAdd st act e = none ∧ ¬Placeable act e st.meterIds) ∨
      ∃ st', nfpFlowerSetupMeterAdd st act e = some st' ∧ Placeable act e st.meterIds ∧ st'.sent = st.sent ∧
        (Exact st → Exact st') ∧ st'.meterIds = placed act st.meterIds := by
  rw [nfpFlowerSetupMeterAdd, nfpFlowerAddMeterEntry, placed, Placeable]
  split
  · next h =>
    refine .inr ⟨_, rfl, .inl h, rfl, fun hx => ⟨hx.count.trans ?_, hx.polling.trans ?_⟩, programBps_ids ..⟩
    · simp [Priv.limiters]
    · simp [Priv.limiters]
  · next h =>
    split
    · next ha =>
      rw [Bool.and_eq_true] at ha
      refine .inr ⟨_, rfl, .inr ha, rfl, fun hx => hx.gain ?_, (programBps_ids ..).trans map_append⟩
      simp [Priv.limiters, Priv.gain, Nat.add_assoc]
    · next ha => exact .inl ⟨rfl, by simp_all⟩

theorem installOne_exact {act : Action} {e : Attempt} {st' : Priv} (h : Exact st)
    (ho : installOne feats st act e = some st') : Exact st' := by
  obtain ⟨t, -, ho⟩ := Option.bind_eq_some_iff.mp ho
  rcases setupMeterAdd_cases st act e with ⟨hs, -⟩ | ⟨st₁, hs, -, -, hx, -⟩
  · rw [hs] at ho
    cases ho
  rw [hs] at ho
  cases ho
  split
  · exact hx h
  · exact hx h

theorem actInstall_exact (acts : List (Action × Attempt)) (add : Bool) (h : Exact st) :
    Exact (nfpActInstallActions feats acts st add).2 := by
  induction acts generalizing st add with
  | nil => exact h
  | cons a rest ih =>
    rw [nfpActInstallActions]
    split_ifs
    · exact ih add h
    · exact h
    · split
      · exact ih add h
      · next ho => exact ih true (installOne_exact h ho)

theorem delMeter_exact (h : Exact st) (meterId : BitVec 32) : Exact (nfpFlowerDelMeterEntry st meterId) := by
  rw [nfpFlowerDelMeterEntry]
  split
  · next hm =>
    obtain ⟨m, hm', rfl⟩ := mem_map.mp (contains_iff_mem.mp hm)
    have hlen := length_eraseP_of_mem (p := fun k : Meter => k.meterId == m.meterId) hm' (beq_self_eq_true m.meterId)
    have hpos := length_pos_of_mem hm'
    refine h.lose ?_
    simp only [Priv.limiters, Priv.lose, hlen]
    omega
  · exact h

theorem actRemove_exact (h : Exact st) (police : Bool) (index : BitVec 32) (skb : Bool) :
    Exact (nfpActRemoveActions st police index skb).2 := by
  rw [nfpActRemoveActions]
  split
  · exact h
  split
  · exact h
  · split
    · exact h
    · exact @delMeter_exact (st.send _) h index

theorem step_exact_iff {c : Command} {st' : Priv} (h : Exact st) (hs : step feats st c = some st') :
    Exact st' ↔ Fresh feats st c := by
  cases hs
  cases c with
  | replace netdev blockShared prio acts => exact install_exact_iff h netdev blockShared prio acts
  | destroy netdev bpsSkb ppsSkb =>
    refine iff_of_true ?_ trivial
    rw [setup]
    split
    · exact remove_exact h netdev bpsSkb ppsSkb
    · exact h
  | actReplace acts =>
    refine iff_of_true ?_ trivial
    rw [setup]
    split
    · exact actInstall_exact acts false h
    · exact h
  | actDestroy police index skb =>
    refine iff_of_true ?_ trivial
    rw [setup]
    split
    · exact actRemove_exact h police index skb
    · exact h
  | stats | actStats => exact iff_of_true h trivial

theorem initial_exact (reprs : List Repr) : Exact (initial reprs) := by
  have h0 : (initial reprs).limiters = 0 := by
    simp [initial, Priv.limiters, Repr.limited, countP_eq_zero]
  rw [Exact, h0]
  exact ⟨rfl, iff_of_false Bool.false_ne_true (Nat.lt_irrefl 0)⟩

theorem rate_limiters_counted_iff (feats : Feats) (reprs : List Repr) (cs : List Command) :
    Always (step feats) Exact (initial reprs) cs ↔ Guarded (step feats) (Fresh feats) (initial reprs) cs := by
  obtain ⟨t, ht⟩ := run_total (fun s c => ⟨(setup feats s c).2, rfl⟩) (initial reprs) cs
  exact always_iff_guarded (I := Exact) (fun _ h => h) (fun _ _ _ => step_exact_iff) (fun _ _ _ _ _ h => h)
    (initial_exact reprs) ht

def capable : Feats := ⟨true, true, true⟩

def kilobyte : Action := ⟨true, .drop, .accept, 0, 0, 0, 1000, 100, 0, 0, 0⟩

def vf : Repr := { portId := 0x20000000, pcie := by decide }

-- the second rule replaces the first one on the same port and is counted again
theorem replaced_counted_twice :
    ¬Always (step capable) Exact (initial [vf])
      [.replace 0 false 1 [(kilobyte, true)], .replace 0 false 1 [(kilobyte, true)], .destroy 0 true true] := by
  intro h
  have := (h.last rfl).count
  exact absurd this (by decide)

end Count

section Exactness

structure Order where
  pps : Bool
  meter : Bool
  id : BitVec 32
  bursts : List Nat
  rates : List Nat
deriving DecidableEq

def carried (c : Config) : Order :=
  ⟨c.flagsOpts.getLsbD 15, c.flagsOpts.getLsbD 10, c.id, [c.bktTknP, c.bktTknC, c.pbs, c.cbs].map BitVec.toNat,
    [c.pir, c.cir].map BitVec.toNat⟩

namespace Action

def OneRate (act : Action) : Prop := ¬(act.rateBytesPs ≠ 0#64 ∧ act.ratePktPs ≠ 0#64)

def rate (act : Action) : Nat := if act.rateBytesPs ≠ 0#64 then act.rateBytesPs.toNat else act.ratePktPs.toNat

def size (act : Action) : Nat := if act.rateBytesPs ≠ 0#64 then act.burst.toNat else act.burstPkt.toNat

def Fits (act : Action) : Prop := act.rate < 2 ^ 32 ∧ act.size < 2 ^ 32

def order (act : Action) (ingress : Bool) (id : BitVec 32) : List Order :=
  if act.rate = 0 then []
  else [⟨act.rateBytesPs = 0#64, !ingress, id, List.replicate 4 act.size, List.replicate 2 act.rate⟩]

end Action

def Offloads (st st' : Priv) (orders : List Order) : Prop :=
  ∃ msgs : List Config, st'.sent = st.sent ++ msgs.map .qosMod ∧ msgs.map carried = orders

def Ready (pps : Bool) : List (Action × Attempt) → List (BitVec 32) → Prop
  | [], _ => True
  | (act, e) :: rest, ids =>
    if act.police ∧ act.rate ≠ 0 then
      (act.rateBytesPs = 0#64 → pps) ∧ Placeable act e ids ∧ e.skb ∧ act.Fits ∧ Ready pps rest (placed act ids)
    else Ready pps rest ids

variable {act : Action} {pps : Bool} {t : BitVec 64 × BitVec 32}

theorem flags_read (ingress pps : Bool) :
    ((if pps then qosPps else 0) ||| (if ingress then 0 else qosMeter)).getLsbD 15 = pps ∧
      ((if pps then qosPps else 0) ||| (if ingress then 0 else qosMeter)).getLsbD 10 = !ingress := by
  revert ingress pps
  decide

theorem carried_offload (ingress pps : Bool) (id rate burst : BitVec 32) :
    carried (nfpFlowerOffloadOnePolice ingress pps id rate burst) =
      ⟨pps, !ingress, id, List.replicate 4 burst.toNat, List.replicate 2 rate.toNat⟩ := by
  rw [carried, nfpFlowerOffloadOnePolice, (flags_read ingress pps).1, (flags_read ingress pps).2]
  rfl

theorem message_exact_iff (h1 : act.OneRate) (ht : chosen pps act = some t)
    (ingress : Bool) (id : BitVec 32) : [carried (message ingress id act t)] = act.order ingress id ↔ act.Fits := by
  rw [message, carried_offload, Action.order, Action.Fits, Action.rate, Action.size]
  rw [chosen] at ht
  split at ht
  · next hb =>
    cases ht
    have hp : act.ratePktPs = 0#64 := by_contra fun h => h1 ⟨hb, h⟩
    have hr : act.rateBytesPs.toNat ≠ 0 := fun h => hb (BitVec.eq_of_toNat_eq h)
    simp [hb, hp, hr]
    omega
  · next hb =>
    split at ht
    · next hp =>
      cases ht
      have hr : act.ratePktPs.toNat ≠ 0 := fun h => hp.1 (BitVec.eq_of_toNat_eq h)
      simp [not_not.mp hb, hp.1, hr]
      omega
    · cases ht

theorem rate_eq_zero : act.rate = 0 ↔ act.rateBytesPs = 0#64 ∧ act.ratePktPs = 0#64 := by
  rw [Action.rate]
  split
  · next hb => exact iff_of_false (fun h => hb (BitVec.eq_of_toNat_eq h)) (fun h => hb h.1)
  · next hb =>
    rw [not_not.mp hb]
    exact ⟨fun h => ⟨rfl, BitVec.eq_of_toNat_eq h⟩, fun h => congrArg BitVec.toNat h.2⟩

theorem chosen_none (h : chosen pps act = none) (hr : act.rate ≠ 0) : act.rateBytesPs = 0#64 ∧ pps = false := by
  rw [chosen] at h
  split at h
  · cases h
  next hb =>
  split at h
  · cases h
  · next hp =>
    rw [Ne, rate_eq_zero] at hr
    simp_all

theorem chosen_some (h : chosen pps act = some t) : act.rate ≠ 0 ∧ (act.rateBytesPs = 0#64 → pps = true) := by
  rw [chosen] at h
  rw [Ne, rate_eq_zero]
  split at h
  · next hb => exact ⟨fun h => hb h.1, fun h => absurd h hb⟩
  · split at h
    · next hp => exact ⟨fun h => hp.1 h.2, fun _ => hp.2⟩
    · cases h

theorem emitted_exact_iff (ok pps ingress : Bool) (id : BitVec 32) (act : Action) :
    (emitted ok pps ingress id act).length ≤ (act.order ingress id).length ∧
      (act.OneRate → ((emitted ok pps ingress id act).map carried = act.order ingress id ↔
        (act.rate ≠ 0 → (act.rateBytesPs = 0#64 → pps = true) ∧ ok = true ∧ act.Fits))) := by
  rw [emitted]
  cases hc : chosen pps act with
  | none =>
    have hnil : (if ok then (Option.map (message ingress id act) none).toList else []) = [] := ite_self ..
    rw [hnil]
    refine ⟨Nat.zero_le _, fun _ => ?_⟩
    by_cases hr : act.rate = 0
    · rw [Action.order, if_pos hr]
      exact iff_of_true rfl (absurd hr ·)
    · obtain ⟨hb, hp⟩ := chosen_none hc hr
      rw [Action.order, if_neg hr]
      simp [hr, hb, hp]
  | some t =>
    obtain ⟨hr, hp⟩ := chosen_some hc
    cases ok with
    | false =>
      rw [Action.order, if_neg hr]
      simp [hr]
    | true =>
      refine ⟨?_, fun h1 => (message_exact_iff h1 hc ingress id).trans ?_⟩
      · rw [Action.order, if_neg hr]
        exact Nat.le_refl 1
      · exact ⟨fun hf _ => ⟨hp, rfl, hf⟩, fun h => (h hr).2.2⟩

theorem append_exact_iff {m msgs : List Config} {w orders : List Order} (hm : m.length ≤ w.length)
    (hle : msgs.length ≤ orders.length) :
    (m ++ msgs).map carried = w ++ orders ↔ m.map carried = w ∧ msgs.map carried = orders := by
  rw [map_append]
  constructor
  · intro h
    have hlen := congrArg length h
    rw [length_append, length_append, length_map, length_map] at hlen
    exact append_inj h (by rw [length_map]; omega)
  · rintro ⟨rfl, rfl⟩
    rfl

theorem programmed_exact_iff (id : BitVec 32) (acts : List (Action × Bool)) (h1 : ∀ a ∈ acts, a.1.OneRate) :
    (programmed id acts).length ≤ (acts.flatMap fun a => a.1.order true id).length ∧
      ((programmed id acts).map carried = acts.flatMap (fun a => a.1.order true id) ↔
        ∀ a ∈ acts, a.1.rate ≠ 0 → a.2 = true ∧ a.1.Fits) := by
  induction acts with
  | nil => exact ⟨Nat.le_refl 0, iff_of_true rfl (fun a ha => nomatch ha)⟩
  | cons a acts ih =>
    obtain ⟨hle, hiff⟩ := ih fun b hb => h1 b (mem_cons_of_mem a hb)
    obtain ⟨hone, hexact⟩ := emitted_exact_iff a.2 true true id a.1
    rw [programmed, flatMap_cons, ← programmed, flatMap_cons, append_exact_iff hone hle,
      hexact (h1 a mem_cons_self), hiff]
    refine ⟨?_, ?_⟩
    · rw [length_append, length_append]
      omega
    · simp

def actOrder (a : Action × Attempt) : List Order := if a.1.police then a.1.order false a.1.hwIndex else []

theorem installOne_emits (feats : Feats) (st : Priv) (act : Action) (e : Attempt) :
    ((installOne feats st act e).getD st).sent =
        st.sent ++ (emitted (Placeable act e st.meterIds && e.skb) feats.qosPps false act.hwIndex act).map .qosMod ∧
      (act.rate = 0 → installOne feats st act e = none) ∧
      (act.rate ≠ 0 → (act.rateBytesPs = 0#64 → feats.qosPps = true) → Placeable act e st.meterIds →
        ((installOne feats st act e).getD st).meterIds = placed act st.meterIds) := by
  rw [installOne, emitted]
  cases hc : chosen feats.qosPps act with
  | none =>
    refine ⟨by simp, fun _ => rfl, fun hr hp => ?_⟩
    obtain ⟨hb, hf⟩ := chosen_none hc hr
    exact absurd (hp hb) (by simp [hf])
  | some t =>
    refine ⟨?_, fun hr => absurd hr (chosen_some hc).1, fun _ _ hp => ?_⟩
    all_goals rcases setupMeterAdd_cases st act e with ⟨hs, hn⟩ | ⟨st', hs, hpl, hsent, -, hids⟩
    · simp [hs, hn]
    · cases hskb : e.skb <;> simp [hs, hpl, hsent, Priv.send]
    · exact absurd hp hn
    · rw [hs, ← hids]
      cases e.skb <;> rfl

theorem actInstall_offloads (feats : Feats) (acts : List (Action × Attempt)) (st : Priv) (add : Bool) :
    ∃ msgs : List Config, (nfpActInstallActions feats acts st add).2.sent = st.sent ++ msgs.map .qosMod ∧
      msgs.length ≤ (acts.flatMap actOrder).length ∧
      ((∀ a ∈ acts, a.1.OneRate) → (nfpActInstallActions feats acts st add).1 = 0 →
        (msgs.map carried = acts.flatMap actOrder ↔ Ready feats.qosPps acts st.meterIds)) := by
  induction acts generalizing st add with
  | nil => exact ⟨[], by simp [nfpActInstallActions], Nat.le_refl 0, fun _ _ => iff_of_true rfl trivial⟩
  | cons a rest ih =>
    obtain ⟨act, e⟩ := a
    rw [nfpActInstallActions, flatMap_cons, actOrder, Ready]
    cases hpol : act.police with
    | false =>
      obtain ⟨msgs, hsent, hle, hiff⟩ := ih st add
      exact ⟨msgs, hsent, hle, fun h1 => hiff fun b hb => h1 b (mem_cons_of_mem _ hb)⟩
    | true =>
      simp only [Bool.not_true, Bool.false_eq_true, if_false, if_true, true_and]
      split
      · exact ⟨[], by simp, Nat.zero_le _, fun _ h0 => absurd h0 refused⟩
      obtain ⟨hone, hnone, hids⟩ := installOne_emits feats st act e
      obtain ⟨hlen, hexact⟩ := emitted_exact_iff
          (Placeable act e st.meterIds && e.skb) feats.qosPps false act.hwIndex act
      obtain ⟨msgs, hsent, hle, hiff⟩ :=
          ih ((installOne feats st act e).getD st) (add || (installOne feats st act e).isSome)
      have hloop : (match installOne feats st act e with
          | none => nfpActInstallActions feats rest st add
          | some st' => nfpActInstallActions feats rest st' true) =
          nfpActInstallActions feats rest ((installOne feats st act e).getD st)
            (add || (installOne feats st act e).isSome) := by
        cases installOne feats st act e <;> simp
      rw [hloop]
      refine ⟨_ ++ msgs, by rw [hsent, hone, map_append, append_assoc], ?_, fun h1 h0 => ?_⟩
      · rw [length_append, length_append]
        omega
      rw [append_exact_iff hlen hle, hexact (h1 _ mem_cons_self), hiff (fun b hb => h1 b (mem_cons_of_mem _ hb)) h0]
      by_cases hr : act.rate = 0
      · simp [hr, hnone hr]
      simp only [ne_eq, hr, not_false_eq_true, true_imp_iff, if_true, Bool.and_eq_true, decide_eq_true_eq]
      constructor
      · rintro ⟨⟨hp, ⟨hpl, hskb⟩, hf⟩, hrest⟩
        exact ⟨hp, hpl, hskb, hf, hids hr hp hpl ▸ hrest⟩
      · rintro ⟨hp, hpl, hskb, hf, hrest⟩
        exact ⟨⟨hp, ⟨hpl, hskb⟩, hf⟩, (hids hr hp hpl).symm ▸ hrest⟩

theorem offloads_iff {st st' : Priv} (msgs : List Config) (h : st'.sent = st.sent ++ msgs.map .qosMod)
    (orders : List Order) : Offloads st st' orders ↔ msgs.map carried = orders := by
  refine ⟨?_, fun ho => ⟨msgs, h, ho⟩⟩
  rintro ⟨msgs', h', ho⟩
  rw [h] at h'
  rw [map_injective_iff.mpr (fun _ _ => Cmsg.qosMod.inj) (append_cancel_left h'), ho]

theorem police_offload_exact_iff (feats : Feats) (st : Priv) :
    (∀ netdev blockShared prio acts, (∀ a ∈ acts, a.1.OneRate) →
      (setup feats st (.replace netdev blockShared prio acts)).1 = 0 → ∃ r, st.reprs[netdev]? = some r ∧
        (Offloads st (setup feats st (.replace netdev blockShared prio acts)).2
            (acts.flatMap fun a => a.1.order true r.portId) ↔
          ∀ a ∈ acts, a.1.rate ≠ 0 → a.2 = true ∧ a.1.Fits)) ∧
      ∀ acts, (∀ a ∈ acts, a.1.OneRate) → (setup feats st (.actReplace acts)).1 = 0 →
        (Offloads st (setup feats st (.actReplace acts)).2 (acts.flatMap actOrder) ↔
          Ready feats.qosPps acts st.meterIds) := by
  refine ⟨fun netdev blockShared prio acts h1 h0 => ?_, fun acts h1 h0 => ?_⟩
  · rw [setup] at h0 ⊢
    split at h0
    · next hf =>
      rw [if_pos hf]
      rcases install_cases feats st netdev blockShared prio acts with heq | ⟨r, hr, heq⟩
      · rw [heq] at h0
        exact absurd h0 refused
      · rw [heq]
        exact ⟨r, hr, (offloads_iff _ rfl _).trans (programmed_exact_iff r.portId acts h1).2⟩
    · exact absurd h0 refused
  · rw [setup] at h0 ⊢
    split at h0
    · next hf =>
      rw [if_pos hf]
      obtain ⟨msgs, hsent, -, hiff⟩ := actInstall_offloads feats acts st false
      exact (offloads_iff msgs hsent _).trans (hiff h1 h0)
    · exact absurd h0 refused

theorem kilobyte_offloaded :
    (∃ r : Repr, Offloads (initial [vf]) (setup capable (initial [vf]) (.replace 0 false 1 [(kilobyte, true)])).2
        ([(kilobyte, true)].flatMap fun a => a.1.order true r.portId)) ∧
      Offloads (initial [vf]) (setup capable (initial [vf]) (.actReplace [(kilobyte, ⟨true, true, true⟩)])).2
        ([(kilobyte, ⟨true, true, true⟩)].flatMap actOrder) := by
  obtain ⟨hreplace, hact⟩ := police_offload_exact_iff capable (initial [vf])
  have h1 : kilobyte.OneRate := fun h => h.2 rfl
  have hfit : kilobyte.Fits := ⟨by decide, by decide⟩
  constructor
  · obtain ⟨r, -, h⟩ := hreplace 0 false 1 [(kilobyte, true)] (by simpa using h1) rfl
    exact ⟨r, h.mpr (by simpa using fun _ => hfit)⟩
  · exact (hact [(kilobyte, ⟨true, true, true⟩)] (by simpa using h1) rfl).mpr
      ⟨by decide, .inr ⟨rfl, rfl⟩, rfl, hfit, trivial⟩

def fiveGigabytes : Action := { kilobyte with rateBytesPs := 5000000000 }

-- the message carries 705032704, the low 32 bits of the rate
theorem wide_rate_truncated :
    (setup capable (initial [vf]) (.replace 0 false 1 [(fiveGigabytes, true)])).1 = 0 ∧
      ¬Offloads (initial [vf]) (setup capable (initial [vf]) (.replace 0 false 1 [(fiveGigabytes, true)])).2
        (fiveGigabytes.order true vf.portId) := by
  refine ⟨rfl, fun h => ?_⟩
  rw [offloads_iff [message true vf.portId fiveGigabytes (5000000000, 100)] rfl] at h
  cases h

end Exactness

end NfpDriver.Qos
