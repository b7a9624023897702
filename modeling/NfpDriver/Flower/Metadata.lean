import NfpDriver.Flower.MaskIds
import NfpDriver.Flower.StatsIds

namespace NfpDriver.Metadata

open Circ List

abbrev enoent : Int := -2
abbrev enomem : Int := -12
abbrev eexist : Int := -17

structure FlStats where
  pkts : BitVec 64
  bytes : BitVec 64
  used : Nat

structure CtxEntry where
  statsCxt : BitVec 32
  flow : Nat
  deriving DecidableEq, Repr

structure FlKey where
  netdev : Nat
  cookie : BitVec 64
  deriving DecidableEq, Repr

structure Priv where
  statsIds : Flower.Priv
  maskIds : MaskIds.Priv
  statsCtxTable : List CtxEntry
  flowTable : List FlKey
  flowerVersion : BitVec 64
  stats : BitVec 32 → FlStats

structure Payload where
  flow : Nat
  hostCtxId : BitVec 32
  hostCookie : BitVec 64
  flowVersion : BitVec 64
  ingressDev : Nat
  flags : BitVec 8
  maskData : MaskIds.Mask
  maskId : BitVec 8
  preTunRuleDev : Bool

-- results of the kernel's allocations and readings of its clocks
structure Env where
  kzalloc : Bool
  insert : Bool
  maskKmalloc : Bool
  allocTime : Int
  allocFailTime : Int
  removeTime : Int
  jiffies : Nat

section Model

variable (jhash : MaskIds.Mask → BitVec 32)

def errReleaseStats (p : Priv) (statsCxt : BitVec 32) : Priv :=
  { p with statsIds := (Flower.nfpReleaseStatsEntry p.statsIds statsCxt).1 }

def errRemoveRhash (p : Priv) (entry : CtxEntry) : Priv :=
  errReleaseStats { p with statsCtxTable := p.statsCtxTable.erase entry } entry.statsCxt

def removeMask (maskIds : MaskIds.Priv) (nfpFlow : Payload) (flags : Option (BitVec 8)) (now : Int) :
    MaskIds.Priv × Bool × Option (BitVec 8) × Option Nat :=
  if nfpFlow.preTunRuleDev then (maskIds, true, flags, none)
  else MaskIds.nfpCheckMaskRemove jhash maskIds nfpFlow.maskData flags now

def errRemoveMask (p : Priv) (nfpFlow : Payload) (now : Int) (entry : CtxEntry) : Priv :=
  errRemoveRhash { p with maskIds := (removeMask jhash p.maskIds nfpFlow none now).1 } entry

def addMask (env : Env) (p : Priv) (nfpFlow : Payload) : MaskIds.Priv × Bool × BitVec 8 × Option Int :=
  if nfpFlow.preTunRuleDev then (p.maskIds, true, nfpFlow.flags, some 0)
  else
    MaskIds.nfpCheckMaskAdd jhash p.maskIds nfpFlow.maskData nfpFlow.flags env.allocTime env.maskKmalloc
      env.allocFailTime

def finishMetadata (env : Env) (key : FlKey) (p : Priv) (nfpFlow : Payload) (entry : CtxEntry) : Priv × Payload × Int :=
  let m := addMask jhash env p nfpFlow
  let p := { p with maskIds := m.1 }
  if m.2.1 = false then (errRemoveRhash p entry, nfpFlow, enoent)
  else
    let nfpFlow := { nfpFlow with
      flags := m.2.2.1, flowVersion := p.flowerVersion, maskId := BitVec.ofInt 8 (m.2.2.2.getD 0) }
    let p := { p with
      flowerVersion := p.flowerVersion + 1, stats := Function.update p.stats entry.statsCxt ⟨0, 0, env.jiffies⟩ }
    if key ∈ p.flowTable then (errRemoveMask jhash p nfpFlow env.removeTime entry, nfpFlow, eexist)
    else (p, nfpFlow, 0)

def nfpCompileFlowMetadata (env : Env) (cookie : BitVec 32) (netdev : Nat) (p : Priv) (nfpFlow : Payload) :
    Priv × Payload × Int :=
  let r := Flower.nfpGetStatsEntry p.statsIds
  let p := { p with statsIds := r.1 }
  if r.2.1 ≠ 0 then (p, nfpFlow, r.2.1)
  else
    let nfpFlow := { nfpFlow with hostCtxId := r.2.2, hostCookie := cookie.setWidth 64, ingressDev := netdev }
    if env.kzalloc = false then (errReleaseStats p r.2.2, nfpFlow, enomem)
    else
      let entry : CtxEntry := ⟨r.2.2, nfpFlow.flow⟩
      if env.insert = false then (errReleaseStats p r.2.2, nfpFlow, enomem)
      else
        finishMetadata jhash env ⟨netdev, cookie.setWidth 64⟩
          { p with statsCtxTable := entry :: p.statsCtxTable } nfpFlow
          entry

def nfpModifyFlowMetadata (now : Int) (p : Priv) (nfpFlow : Payload) : Priv × Payload × Int :=
  let nfpFlow := { nfpFlow with
    flags := nfpFlow.flags &&& ~~~MaskIds.nfpFlMetaFlagManageMask, flowVersion := p.flowerVersion }
  let p := { p with flowerVersion := p.flowerVersion + 1 }
  let m := removeMask jhash p.maskIds nfpFlow (some nfpFlow.flags) now
  let nfpFlow := { nfpFlow with flags := m.2.2.1.getD nfpFlow.flags, maskId := BitVec.ofNat 8 (m.2.2.2.getD 0) }
  let p := { p with maskIds := m.1 }
  match p.statsCtxTable.find? fun e => e.statsCxt = nfpFlow.hostCtxId with
  | none => (p, nfpFlow, enoent)
  | some entry =>
    let r := Flower.nfpReleaseStatsEntry p.statsIds nfpFlow.hostCtxId
    ({ p with statsCtxTable := p.statsCtxTable.erase entry, statsIds := r.1 }, nfpFlow, r.2)

end Model

structure Wf (p : Priv) : Prop where
  stats : Flower.Core p.statsIds
  ring : p.maskIds.maskIdFreeList.WF MaskIds.nfpFlowerMaskEntryRs
  ids : (p.maskIds.maskTable.map MaskIds.MaskIdTable.maskId ++ p.maskIds.idle).Perm (List.range' 1 255)
  counted : ∀ e ∈ p.maskIds.maskTable, 0 < e.refCnt ∧ e.refCnt < 2 ^ 32

def statIdPool (p : Flower.Priv) : List (BitVec 32) := p.fresh ++ p.free

structure Same (p p' : Priv) : Prop where
  statsIds : (statIdPool p'.statsIds).Perm (statIdPool p.statsIds)
  statsCtxTable : p'.statsCtxTable = p.statsCtxTable
  masks : p'.maskIds.maskTable = p.maskIds.maskTable
  maskIds : p'.maskIds.idle.Perm p.maskIds.idle

def Restores (jhash : MaskIds.Mask → BitVec 32) (env : Env) (cookie : BitVec 32) (netdev : Nat) (p : Priv)
    (nfpFlow : Payload) :
    Prop :=
  let r := nfpCompileFlowMetadata jhash env cookie netdev p nfpFlow
  if r.2.2 ≠ 0 then Same p r.1 else ∀ now, Same p (nfpModifyFlowMetadata jhash now r.1 r.2.1).1

def Room (p : Flower.Priv) : Prop := p.initUnalloc = 0 ∨ p.free.length + 1 < p.statsRingSize

section Stats

variable {p : Flower.Priv} {r : Flower.Priv × Int × BitVec 32}

theorem fresh_eq_nil_iff (hc : Flower.Core p) : p.fresh = [] ↔ p.initUnalloc = 0 := by
  constructor
  · intro h
    by_contra hne
    obtain ⟨n, hn⟩ := Nat.exists_eq_succ_of_ne_zero hne
    rw [Flower.Priv.fresh, hn, Flower.fresh_succ n hc.active] at h
    exact cons_ne_nil _ _ h
  · intro h
    rw [Flower.Priv.fresh, h, Flower.unallocated]

theorem release_pool_iff (hc : Flower.Core p) (hr : Flower.nfpGetStatsEntry p = r) (hok : r.2.1 = 0) :
    (statIdPool (Flower.nfpReleaseStatsEntry r.1 r.2.2).1).Perm (statIdPool p) ↔ Room p := by
  obtain ⟨hcr, hgot, hsize⟩ := hc.get hr
  obtain ⟨q, hq⟩ := @exists_eq' _ (Flower.nfpReleaseStatsEntry r.1 r.2.2)
  have hput := hcr.release hq
  rw [hq, statIdPool, statIdPool, hput.fresh, Room]
  cases hgot with
  | fresh _ hfresh hfree =>
    have hne : p.initUnalloc ≠ 0 := by
      intro hz
      rw [(fresh_eq_nil_iff hc).mpr hz] at hfresh
      cases hfresh
    have hroom : q.2 = 0 ↔ p.free.length + 1 < p.statsRingSize := by
      rw [hput.ok, hfree, hsize]
      omega
    rw [hfresh, or_iff_right hne, ← hroom]
    constructor
    · intro hperm
      by_contra hfull
      have hlen := hperm.length_eq
      have hsame : q.1.free = r.1.free := by
        rw [Flower.nfpReleaseStatsEntry] at hq
        split at hq
        · rw [← hq]
        · exact absurd (by rw [← hq]) hfull
      rw [hsame, hfree] at hlen
      simp at hlen
    · intro hz
      rw [hput.free hz, hfree, cons_append, ← append_assoc]
      exact perm_append_singleton _ _
  | free _ hnil hfresh hfree =>
    refine iff_of_true ?_ (.inl ((fresh_eq_nil_iff hc).mp hnil))
    have hlt : r.1.free.length < r.1.statsRingSize - 1 := by
      have hwf := hc.ring.length_lt
      rw [← Flower.Priv.free, hfree, length_cons] at hwf
      omega
    rw [hput.free (hput.ok.mpr hlt), hfresh, hfree]
    exact (perm_append_singleton _ _).append_left _
  | empty ret => exact absurd hok ret

end Stats

section Masks

open MaskIds

variable {table : List MaskIdTable} {key : BitVec 32} {e : MaskIdTable} {f g : MaskIdTable → MaskIdTable}

section

variable (h : table.find? (fun e => e.hashKey = key) = some e) (hf : (f e).hashKey = key)

include h hf

theorem find_modifyEntry :
    (modifyEntry key f table).find? (fun e => e.hashKey = key) = some (f e) := by
  induction table with
  | nil => cases h
  | cons a table ih =>
    rw [find?_cons] at h
    by_cases hk : a.hashKey = key
    · rw [decide_eq_true hk] at h
      cases h
      rw [modifyEntry, if_pos hk, find?_cons, decide_eq_true hf]
    · rw [decide_eq_false hk] at h
      rw [modifyEntry, if_neg hk, find?_cons, decide_eq_false hk]
      exact ih h

theorem modifyEntry_undo (hg : g (f e) = e) : modifyEntry key g (modifyEntry key f table) = table := by
  induction table with
  | nil => cases h
  | cons a table ih =>
    rw [find?_cons] at h
    by_cases hk : a.hashKey = key
    · rw [decide_eq_true hk] at h
      cases h
      rw [modifyEntry, if_pos hk, modifyEntry, if_pos hf, hg]
    · rw [decide_eq_false hk] at h
      rw [modifyEntry, if_neg hk, modifyEntry, if_neg hk, ih h]

end

structure MasksKept (p p' : MaskIds.Priv) : Prop where
  table : p'.maskTable = p.maskTable
  idle : p'.idle.Perm p.idle

variable {jhash : Mask → BitVec 32} {p : MaskIds.Priv} {mask : Mask} {flags : BitVec 8} {now now' : Int}
    {kmalloc : Bool}
  {r : MaskIds.Priv × Bool × BitVec 8 × Option Int} {a : MaskIds.Priv × Int}

theorem found_undone (hs : nfpSearchMaskTable jhash p mask = some e) (hcnt : 0 < e.refCnt ∧ e.refCnt < 2 ^ 32)
    (flags' : Option (BitVec 8)) (t : Int) :
    MasksKept p (nfpCheckMaskRemove jhash (nfpFindInMaskTable jhash p mask).1 mask flags' t).1 := by
  have hfound : p.maskTable.find? (fun e => e.hashKey = jhash mask) = some e := hs
  have hk : e.hashKey = jhash mask := by simpa using find?_some hfound
  have hfind := find_modifyEntry (f := fun e => { e with refCnt := (e.refCnt + 1) % 2 ^ 32 }) hfound hk
  have hback : ((e.refCnt + 1) % 2 ^ 32 + 2 ^ 32 - 1) % 2 ^ 32 = e.refCnt := by omega
  rw [nfpFindInMaskTable, hs]
  simp only [nfpCheckMaskRemove, nfpSearchMaskTable, hfind, -Nat.reducePow]
  rw [hback, if_neg (Nat.pos_iff_ne_zero.mp hcnt.1)]
  exact ⟨modifyEntry_undo hfound hk rfl, .refl _⟩

theorem remove_last {q : MaskIds.Priv} (hs : nfpSearchMaskTable jhash q mask = some e) (hone : e.refCnt = 1)
    (flags' : Option (BitVec 8)) (t : Int) :
    (nfpCheckMaskRemove jhash q mask flags' t).1 =
      (nfpReleaseMaskId { q with maskTable := q.maskTable.eraseP fun e => e.hashKey = jhash mask } e.maskId t).1 := by
  have hz : (e.refCnt + 2 ^ 32 - 1) % 2 ^ 32 = 0 := by rw [hone, Nat.add_sub_cancel_left, Nat.mod_self]
  obtain ⟨r, hr⟩ := @exists_eq' _ (nfpCheckMaskRemove jhash q mask flags' t)
  obtain ⟨q', hq⟩ : ∃ q', nfpReleaseMaskId
    { q with maskTable := q.maskTable.eraseP fun e => e.hashKey = jhash mask } e.maskId t = q' := ⟨_, rfl⟩
  rw [hr, hq]
  rw [nfpCheckMaskRemove, hs] at hr
  simp only [if_pos hz, hq, -Nat.reducePow] at hr
  rw [← hr]

theorem remove_newest {q : MaskIds.Priv} (hq : q = { p with maskTable := e :: p.maskTable })
    (hk : e.hashKey = jhash mask)
    (hone : e.refCnt = 1) (flags' : Option (BitVec 8)) (t : Int) :
    (nfpCheckMaskRemove jhash q mask flags' t).1 = (nfpReleaseMaskId p e.maskId t).1 := by
  have htable : q.maskTable = e :: p.maskTable := by rw [hq]
  have hs : nfpSearchMaskTable jhash q mask = some e := by
    rw [nfpSearchMaskTable, htable, find?_cons, decide_eq_true hk]
  have herase : { q with maskTable := q.maskTable.eraseP fun e => e.hashKey = jhash mask } = p := by
    rw [htable, eraseP_cons, decide_eq_true hk, hq]
    rfl
  rw [remove_last hs hone, herase]

section Pool

variable (hw : p.maskIdFreeList.WF nfpFlowerMaskEntryRs)
  (hids : (p.maskTable.map MaskIdTable.maskId ++ p.idle).Perm (List.range' 1 255))

include hids

theorem idle_room {q : MaskIds.Priv} {id : Nat} (h : p.idle.Perm (id :: q.idle)) : q.idle.length < 255 := by
  have h1 := h.length_eq
  have h2 := hids.length_eq
  rw [length_append, length_range'] at h2
  rw [length_cons] at h1
  omega

include hw

theorem insert_undone (ha : nfpAddMaskTable jhash p mask now kmalloc now' = a) :
    (a.2 < 0 → MasksKept p a.1) ∧
      (¬ a.2 < 0 → ∀ (flags' : Option (BitVec 8)) (t : Int),
        MasksKept p (nfpCheckMaskRemove jhash a.1 mask flags' t).1) := by
  obtain ⟨r, hr⟩ := @exists_eq' _ (nfpMaskAlloc p now)
  obtain ⟨q, hq⟩ := @exists_eq' _ (nfpReleaseMaskId r.1 r.2.2 now')
  obtain ⟨hwr, htable, hidle⟩ := alloc_idle hw hr
  rw [nfpAddMaskTable, hr] at ha
  rcases hidle with ⟨hok, hperm⟩ | ⟨herr, heq⟩
  · have hroom := idle_room hids hperm
    rw [if_neg (not_not.mpr hok), hq] at ha
    cases kmalloc with
    | false =>
      obtain ⟨-, htable', hidle'⟩ := release_idle hwr hroom hq
      subst ha
      exact ⟨fun _ => ⟨htable'.trans htable, hidle'.trans hperm.symm⟩, fun h =>
        absurd (show MaskIds.enomem < 0 by decide) h⟩
    | true =>
      have hret : a.2 = r.2.2 := congrArg Prod.snd ha.symm
      refine ⟨fun h => absurd h (by omega), fun _ flags' t => ?_⟩
      obtain ⟨q', hq'⟩ := @exists_eq' _ (nfpReleaseMaskId r.1 r.2.2 t)
      obtain ⟨-, htable', hidle'⟩ := release_idle hwr hroom hq'
      rw [remove_newest (congrArg Prod.fst ha.symm) rfl rfl, hq']
      exact ⟨htable'.trans htable, hidle'.trans hperm.symm⟩
  · rw [if_pos (by rw [herr]; decide)] at ha
    subst ha
    exact ⟨fun _ => heq ▸ ⟨rfl, .refl _⟩, fun h => absurd (show MaskIds.enoent < 0 by decide) h⟩

theorem add_undone (hcnt : ∀ e ∈ p.maskTable, 0 < e.refCnt ∧ e.refCnt < 2 ^ 32)
    (hr : nfpCheckMaskAdd jhash p mask flags now kmalloc now' = r) :
    (r.2.1 = false → MasksKept p r.1) ∧
      (r.2.1 = true → ∀ (flags' : Option (BitVec 8)) (t : Int),
        MasksKept p (nfpCheckMaskRemove jhash r.1 mask flags' t).1) := by
  rw [nfpCheckMaskAdd] at hr
  cases hs : nfpSearchMaskTable jhash p mask with
  | some e =>
    have hundo := found_undone hs (hcnt e (mem_of_find?_eq_some hs))
    have hpos : ¬ (nfpFindInMaskTable jhash p mask).2 < 0 := by
      rw [nfpFindInMaskTable, hs]
      exact Int.not_lt.mpr (Int.natCast_nonneg _)
    simp only [if_neg hpos] at hr
    subst hr
    exact ⟨Bool.noConfusion, fun _ => hundo⟩
  | none =>
    obtain ⟨a, ha⟩ := @exists_eq' _ (nfpAddMaskTable jhash p mask now kmalloc now')
    obtain ⟨hneg, hpos⟩ := insert_undone hw hids ha
    rw [nfpFindInMaskTable, hs, if_pos (show MaskIds.enoent < 0 by decide), ha] at hr
    subst hr
    by_cases hlt : a.2 < 0
    · simp only [if_pos hlt]
      exact ⟨fun _ => hneg hlt, Bool.noConfusion⟩
    · simp only [if_neg hlt]
      exact ⟨Bool.noConfusion, fun _ => hpos hlt⟩

end Pool

end Masks

variable {q : Priv} {head : Nat}

section Unwind

variable {jhash : MaskIds.Mask → BitVec 32} {env : Env} {p : Priv} {nfpFlow : Payload} {entry : CtxEntry}
  {r : Flower.Priv × Int × BitVec 32}

structure Unwound (p : Priv) (r : Flower.Priv × Int × BitVec 32) (p' : Priv) : Prop where
  statsIds : p'.statsIds = (Flower.nfpReleaseStatsEntry r.1 r.2.2).1
  statsCtxTable : p'.statsCtxTable = p.statsCtxTable
  masks : MasksKept p.maskIds p'.maskIds

theorem Unwound.same_iff {p' : Priv} (hw : Wf p) (hr : Flower.nfpGetStatsEntry p.statsIds = r) (hok : r.2.1 = 0)
    (h : Unwound p r p') : Same p p' ↔ Room p.statsIds := by
  have hpool := release_pool_iff hw.stats hr hok
  constructor
  · intro hs
    have hperm := hs.statsIds
    rw [h.statsIds] at hperm
    exact hpool.mp hperm
  · intro hroom
    refine ⟨?_, h.statsCtxTable, h.masks.table, h.masks.idle⟩
    rw [h.statsIds]
    exact hpool.mpr hroom

theorem addMask_undone (hw : Wf p) (hq : q.maskIds = p.maskIds) {m : MaskIds.Priv × Bool × BitVec 8 × Option Int}
    (hm : addMask jhash env q nfpFlow = m) :
    (m.2.1 = false → MasksKept p.maskIds m.1) ∧
      (m.2.1 = true → ∀ flow' : Payload, flow'.preTunRuleDev = nfpFlow.preTunRuleDev →
        flow'.maskData = nfpFlow.maskData →
        ∀ flags t, MasksKept p.maskIds (removeMask jhash m.1 flow' flags t).1) := by
  rw [addMask, hq] at hm
  cases hpre : nfpFlow.preTunRuleDev with
  | true =>
    rw [hpre, if_pos rfl] at hm
    subst hm
    refine ⟨(nomatch ·), fun _ flow' hpre' _ flags t => ?_⟩
    rw [removeMask, if_pos hpre']
    exact ⟨rfl, .refl _⟩
  | false =>
    rw [hpre, if_neg (by decide)] at hm
    obtain ⟨hfail, hdone⟩ := add_undone hw.ring hw.ids hw.counted hm
    refine ⟨hfail, fun hok flow' hpre' hdata flags t => ?_⟩
    rw [removeMask, hpre', hdata, if_neg (by decide)]
    exact hdone hok flags t

theorem errReleaseStats_unwound (hids : q.statsIds = r.1) (htable : q.statsCtxTable = p.statsCtxTable)
    (hm : MasksKept p.maskIds q.maskIds) : Unwound p r (errReleaseStats q r.2.2) := by
  obtain ⟨x, hx⟩ := @exists_eq' _ (Flower.nfpReleaseStatsEntry r.1 r.2.2)
  rw [errReleaseStats, hids, hx]
  exact ⟨by rw [hx], htable, hm⟩

theorem errRemoveRhash_unwound (hcxt : entry.statsCxt = r.2.2) (hids : q.statsIds = r.1)
    (htable : q.statsCtxTable = entry :: p.statsCtxTable) (hm : MasksKept p.maskIds q.maskIds) :
    Unwound p r (errRemoveRhash q entry) := by
  rw [errRemoveRhash, hcxt]
  refine errReleaseStats_unwound hids ?_ hm
  rw [htable, erase_cons_head]

theorem modify_unwound {flow' : Payload} {now : Int} (hcxt : entry.statsCxt = r.2.2) (hids : q.statsIds = r.1)
    (htable : q.statsCtxTable = entry :: p.statsCtxTable) (hflow : flow'.hostCtxId = entry.statsCxt)
    (hm : ∀ flow'' : Payload, flow''.preTunRuleDev = flow'.preTunRuleDev → flow''.maskData = flow'.maskData →
      ∀ flags, MasksKept p.maskIds (removeMask jhash q.maskIds flow'' flags now).1) :
    Unwound p r (nfpModifyFlowMetadata jhash now q flow').1 := by
  obtain ⟨x, hx⟩ := @exists_eq' _ (Flower.nfpReleaseStatsEntry r.1 r.2.2)
  rw [nfpModifyFlowMetadata]
  have hkept := hm { flow' with
    flags := flow'.flags &&& ~~~MaskIds.nfpFlMetaFlagManageMask, flowVersion := q.flowerVersion } rfl rfl
    (some (flow'.flags &&& ~~~MaskIds.nfpFlMetaFlagManageMask))
  rw [htable, find?_cons, decide_eq_true hflow.symm]
  dsimp only
  rw [hids, hflow, hcxt, hx, erase_cons_head]
  exact ⟨by rw [hx], rfl, hkept⟩

inductive Compiled (jhash : MaskIds.Mask → BitVec 32) (p : Priv) (r : Flower.Priv × Int × BitVec 32)
    (res : Priv × Payload × Int) : Prop where
  | failed (ret : res.2.2 ≠ 0) (h : Unwound p r res.1)
  | ok (ret : res.2.2 = 0) (h : ∀ now, Unwound p r (nfpModifyFlowMetadata jhash now res.1 res.2.1).1)

theorem finishMetadata_compiled (hw : Wf p) (hq : q.maskIds = p.maskIds) (hcxt : entry.statsCxt = r.2.2)
    (hids : q.statsIds = r.1) (htable : q.statsCtxTable = entry :: p.statsCtxTable)
    (hflow : nfpFlow.hostCtxId = entry.statsCxt) (key : FlKey) :
    Compiled jhash p r (finishMetadata jhash env key q nfpFlow entry) := by
  obtain ⟨m, hm⟩ := @exists_eq' _ (addMask jhash env q nfpFlow)
  obtain ⟨hfail, hdone⟩ := addMask_undone hw hq hm
  rw [finishMetadata, hm]
  dsimp only
  split
  case isTrue hno =>
    exact .failed (show enoent ≠ 0 by decide) (errRemoveRhash_unwound hcxt hids htable (hfail hno))
  case isFalse hyes =>
    have hundo := hdone (Bool.eq_true_of_not_eq_false hyes)
    split
    case isTrue =>
      refine .failed (show eexist ≠ 0 by decide) ?_
      exact errRemoveRhash_unwound hcxt hids htable (hundo _ rfl rfl none env.removeTime)
    case isFalse =>
      refine .ok rfl fun now => ?_
      exact modify_unwound hcxt hids htable hflow fun flow'' hpre hdata flags => hundo flow'' hpre hdata flags now

theorem compile_compiled (jhash : MaskIds.Mask → BitVec 32) (env : Env) (nfpFlow : Payload) (hw : Wf p)
    (cookie : BitVec 32)
    (netdev : Nat) (hr : Flower.nfpGetStatsEntry p.statsIds = r) (hok : r.2.1 = 0) :
    Compiled jhash p r (nfpCompileFlowMetadata jhash env cookie netdev p nfpFlow) := by
  have hsame : MasksKept p.maskIds p.maskIds := ⟨rfl, .refl _⟩
  rw [nfpCompileFlowMetadata, hr]
  rw [if_neg (not_not.mpr hok)]
  split
  case isTrue => exact .failed (show enomem ≠ 0 by decide) (errReleaseStats_unwound rfl rfl hsame)
  case isFalse =>
    split
    case isTrue => exact .failed (show enomem ≠ 0 by decide) (errReleaseStats_unwound rfl rfl hsame)
    case isFalse =>
      apply finishMetadata_compiled hw
      all_goals rfl

end Unwind

theorem restores_iff (jhash : MaskIds.Mask → BitVec 32) (env : Env) (cookie : BitVec 32) (netdev : Nat) (p : Priv)
    (nfpFlow : Payload) (h : Wf p) :
    Restores jhash env cookie netdev p nfpFlow ↔
      p.statsIds.initUnalloc = 0 ∨ p.statsIds.free.length + 1 < p.statsIds.statsRingSize := by
  obtain ⟨r, hr⟩ := @exists_eq' _ (Flower.nfpGetStatsEntry p.statsIds)
  obtain ⟨-, hgot, -⟩ := h.stats.get hr
  by_cases hok : r.2.1 = 0
  · have hc := compile_compiled jhash env nfpFlow h cookie netdev hr hok
    rw [Restores]
    cases hc with
    | failed ret hu =>
      rw [if_pos ret]
      exact hu.same_iff h hr hok
    | ok ret hu =>
      rw [if_neg (not_not.mpr ret)]
      exact ⟨fun hs => ((hu 0).same_iff h hr hok).mp (hs 0), fun hroom now => ((hu now).same_iff h hr hok).mpr hroom⟩
  · cases hgot with
    | fresh ret | free ret => exact absurd ret hok
    | empty ret hnil hp =>
      refine iff_of_true ?_ (.inl ((fresh_eq_nil_iff h.stats).mp hnil))
      have hres : nfpCompileFlowMetadata jhash env cookie netdev p nfpFlow = (p, nfpFlow, r.2.1) := by
        rw [nfpCompileFlowMetadata, hr]
        rw [if_pos ret, hp]
      rw [Restores, hres, if_pos ret]
      exact ⟨.refl _, rfl, rfl, .refl _⟩

def emptyMasks : MaskIds.Priv := MaskIds.nfpFlowerMetadataInit (fun _ => 0) fun _ => 0

def statPool (head : Nat) : Flower.Priv := ⟨1, 0, 4, 1, ⟨head, 0, fun i => BitVec.ofNat 32 (i + 1)⟩⟩

def metaPriv (head : Nat) : Priv := ⟨statPool head, emptyMasks, [], [], 0, fun _ => ⟨0, 0, 0⟩⟩

theorem statPool_ring (h : head < 4) : (statPool head).freeList.WF 4 := ⟨⟨2, by decide, rfl⟩, h, show 0 < 4 by decide⟩

theorem statPool_free (h : head < 4) : (statPool head).free.length = head := by
  have hcnt := (statPool_ring h).cnt_eq
  rw [Flower.Priv.free, Buf.length_contents]
  exact hcnt

theorem metaPriv_wf (h : head < 4) : Wf (metaPriv head) where
  stats := ⟨statPool_ring h, show 0 < 1 by decide, show 1 < 2 ^ 10 by decide⟩
  ring := MaskIds.empty_wf _
  ids := by
    rw [MaskIds.Priv.idle, metaPriv, emptyMasks, MaskIds.nfpFlowerMetadataInit,
      (MaskIds.empty_wf _).contents_eq_nil rfl]
    exact .refl _
  counted := fun _ h => nomatch h

def noEntry : Env := ⟨false, true, true, 0, 0, 0, 0⟩

def plainFlow : Payload := ⟨0, 0, 0, 0, 0, 0, [0xff], 0, false⟩

theorem one_free_restored : Wf (metaPriv 1) ∧ Restores (fun _ => 0) noEntry 7 0 (metaPriv 1) plainFlow :=
  ⟨metaPriv_wf (by decide), (restores_iff (fun _ => 0) noEntry 7 0 (metaPriv 1) plainFlow (metaPriv_wf (by decide))).mpr
    (.inr (by
      have hlen : (metaPriv 1).statsIds.free.length = 1 := statPool_free (by decide)
      rw [hlen]
      decide))⟩

theorem full_ring_loses_id : Wf (metaPriv 3) ∧ ¬ Restores (fun _ => 0) noEntry 7 0 (metaPriv 3) plainFlow := by
  have hw : Wf (metaPriv 3) := metaPriv_wf (by decide)
  refine ⟨hw, fun hres => ?_⟩
  obtain ⟨r, hr⟩ := @exists_eq' _ (Flower.nfpGetStatsEntry (metaPriv 3).statsIds)
  have hok : r.2.1 = 0 := by rw [← hr]; rfl
  have hroom : ¬ Room (metaPriv 3).statsIds := by
    have hlen : (metaPriv 3).statsIds.free.length = 3 := statPool_free (by decide)
    rw [Room, hlen]
    decide
  rw [Restores] at hres
  cases compile_compiled (fun _ => 0) noEntry plainFlow hw 7 0 hr hok with
  | failed ret hu =>
    exact hroom ((hu.same_iff hw hr hok).mp hres)
  | ok ret hu =>
    rw [if_neg (not_not.mpr ret)] at hres
    exact hroom (((hu 0).same_iff hw hr hok).mp (hres 0))

end NfpDriver.Metadata
