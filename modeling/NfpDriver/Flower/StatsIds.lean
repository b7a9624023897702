import Mathlib.Data.List.Perm.Basic
import Mathlib.Data.List.Nodup
import NfpDriver.Library.Circ
import NfpDriver.Library.Fields
import NfpDriver.Library.Runs

namespace NfpDriver.Flower

open Circ Fields Runs BitVec List Option Nat

abbrev enoent : Int := -2
abbrev enobufs : Int := -105

def statIdMuNum : Word := genmaskUll 31 22
def statIdStat : Word := genmaskUll 21 0

def fieldFit (mask val : Word) : Prop := val <<< bfShf mask &&& ~~~mask = 0

instance (mask val : Word) : Decidable (fieldFit mask val) := inferInstanceAs (Decidable (_ = _))

def flsLong (x : Nat) : Nat := if x = 0 then 0 else x.log2 + 1

def roundupPowOfTwo (n : Nat) : Nat := 2 ^ (flsLong ((n + 2 ^ 64 - 1) % 2 ^ 64) % 64)

structure Priv where
  totalMemUnits : Nat
  activeMemUnit : Nat
  statsRingSize : Nat
  initUnalloc : Nat
  freeList : Buf (BitVec 32)

def nfpFlowerInit (ctxCount numMems : Word) : Option Priv :=
  if ¬fieldFit statIdMuNum numMems ∨ numMems = 0 then none
  else if roundupPowOfTwo ctxCount.toNat % 2 ^ 32 = 0 then none
  else if numMems.toNat % 2 ^ 32 = 0 then none
  else some {
    totalMemUnits := numMems.toNat % 2 ^ 32
    activeMemUnit := 0
    statsRingSize := roundupPowOfTwo ctxCount.toNat % 2 ^ 32
    initUnalloc := ctxCount.toNat / (numMems.toNat % 2 ^ 32) % 2 ^ 32
    freeList := ⟨0, 0, fun _ => 0⟩ }

def nfpReleaseStatsEntry (p : Priv) (statsContextId : BitVec 32) : Priv × Int :=
  if circSpace p.freeList.head p.freeList.tail p.statsRingSize = 0 then (p, enobufs)
  else ({ p with freeList := p.freeList.push p.statsRingSize statsContextId }, 0)

def statId (stat mu : Nat) : BitVec 32 :=
  (fieldPrep statIdStat (BitVec.ofNat 64 stat) ||| fieldPrep statIdMuNum (BitVec.ofNat 64 mu)).setWidth 32

def nfpGetStatsEntry (p : Priv) : Priv × Int × BitVec 32 :=
  if p.initUnalloc > 0 then
    let id := statId (p.initUnalloc - 1) p.activeMemUnit
    if (p.activeMemUnit + 1) % 2 ^ 32 = p.totalMemUnits then
      ({ p with initUnalloc := p.initUnalloc - 1, activeMemUnit := 0 }, 0, id)
    else ({ p with activeMemUnit := (p.activeMemUnit + 1) % 2 ^ 32 }, 0, id)
  else if p.freeList.head = p.freeList.tail then (p, enoent, BitVec.ofNat 32 p.statsRingSize)
  else
    let r := p.freeList.pop p.statsRingSize (BitVec.ofNat 32 p.statsRingSize)
    ({ p with freeList := r.2 }, 0, r.1)

structure St where
  priv : Priv
  out : List (BitVec 32)
  released : Int

inductive Action where
  | get
  | release (id : BitVec 32)
  deriving DecidableEq, Repr

def step (st : St) : Action → Option St
  | .get =>
    let r := nfpGetStatsEntry st.priv
    some (if r.2.1 = 0 then { st with priv := r.1, out := r.2.2 :: st.out } else { st with priv := r.1 })
  | .release id =>
    if id ∈ st.out then
      let r := nfpReleaseStatsEntry st.priv id
      some ⟨r.1, st.out.erase id, r.2⟩
    else none

def unallocated (total : Nat) : Nat → Nat → List (BitVec 32)
  | 0, _ => []
  | stat + 1, mu => (List.range' mu (total - mu)).map (statId stat) ++ unallocated total stat 0

def Priv.fresh (p : Priv) : List (BitVec 32) := unallocated p.totalMemUnits p.initUnalloc p.activeMemUnit

def Priv.free (p : Priv) : List (BitVec 32) := p.freeList.contents p.statsRingSize

def St.ids (st : St) : List (BitVec 32) := st.priv.fresh ++ (st.priv.free ++ st.out)

structure Conserved (ctxCount numMems : Word) (p : Priv) (st : St) : Prop where
  perm : st.ids.Perm p.fresh
  nodup : st.ids.Nodup
  card : st.ids.length = ctxCount.toNat / numMems.toNat * numMems.toNat
  released : st.released = 0

structure Fits (ctxCount numMems : Word) (p : Priv) : Prop where
  card : p.initUnalloc * p.totalMemUnits = ctxCount.toNat / numMems.toNat * numMems.toNat
  stat : p.initUnalloc ≤ 2 ^ 22
  ring : p.initUnalloc * p.totalMemUnits < p.statsRingSize

section StatId

theorem getLsbD_statId (stat mu i : Nat) :
    (statId stat mu).getLsbD i = if i < 22 then stat.testBit i else decide (i < 32) && mu.testBit (i - 22) := by
  have h1 : bfShf statIdStat = 0 := by decide
  have h2 : bfShf statIdMuNum = 22 := by decide
  rw [statId, getLsbD_setWidth, getLsbD_or, fieldPrep, fieldPrep, h1, h2, getLsbD_and,
    getLsbD_and, getLsbD_shiftLeft, getLsbD_shiftLeft, getLsbD_ofNat, getLsbD_ofNat,
    statIdStat, statIdMuNum, getLsbD_genmaskUll (by decide), getLsbD_genmaskUll (by decide)]
  split
  · next h => simp [show i < 64 by omega, show i < 32 by omega, show i ≤ 21 by omega, show ¬22 ≤ i by omega]
  next h =>
  by_cases hi : i < 32
  · simp [hi, show i < 64 by omega, show ¬i ≤ 21 by omega, show 22 ≤ i by omega, show i ≤ 31 by omega, h,
      show i - 22 < 64 by omega]
  · simp [hi]

theorem statId_inj {s s' m m' : Nat} (hs : s < 2 ^ 22) (hs' : s' < 2 ^ 22) (hm : m < 2 ^ 10) (hm' : m' < 2 ^ 10)
    (h : statId s m = statId s' m') : s = s' ∧ m = m' := by
  have hbit (i : Nat) := congrArg (BitVec.getLsbD · i) h
  simp only [getLsbD_statId] at hbit
  constructor
  · refine eq_of_testBit_eq fun i => ?_
    by_cases hi : i < 22
    · simpa [hi] using hbit i
    · have hle : 2 ^ 22 ≤ 2 ^ i := Nat.pow_le_pow_right (by decide) (by omega)
      rw [testBit_lt_two_pow (by omega), testBit_lt_two_pow (by omega)]
  · refine eq_of_testBit_eq fun i => ?_
    by_cases hi : i < 10
    · simpa [hi, show ¬i + 22 < 22 by omega, show i + 22 < 32 by omega] using hbit (i + 22)
    · have hle : 2 ^ 10 ≤ 2 ^ i := Nat.pow_le_pow_right (by decide) (by omega)
      rw [testBit_lt_two_pow (by omega), testBit_lt_two_pow (by omega)]

theorem statId_wrap (s m : Nat) : statId (s + 2 ^ 22) m = statId s m := by
  refine eq_of_getLsbD_eq fun i hi => ?_
  rw [getLsbD_statId, getLsbD_statId]
  split
  · next h =>
    have hmod (x : Nat) : x.testBit i = (x % 2 ^ 22).testBit i := by
      rw [testBit_mod_two_pow, decide_eq_true h, Bool.true_and]
    rw [hmod, hmod s, add_mod_right]
  · rfl

end StatId

variable {id : BitVec 32}

section Unallocated

variable {total : Nat}

theorem mem_unallocated {stat : Nat} : id ∈ unallocated total stat 0 ↔ ∃ s < stat, ∃ m < total, id = statId s m := by
  induction stat with
  | zero => simp [unallocated]
  | succ stat ih =>
    rw [unallocated, List.mem_append, ih, List.mem_map]
    constructor
    · rintro (⟨m, hm, rfl⟩ | ⟨s, hs, m, hm, rfl⟩)
      · exact ⟨stat, by omega, m, by simpa using hm, rfl⟩
      · exact ⟨s, by omega, m, hm, rfl⟩
    · rintro ⟨s, hs, m, hm, rfl⟩
      rcases Nat.lt_succ_iff_lt_or_eq.mp hs with h | rfl
      · exact .inr ⟨s, h, m, hm, rfl⟩
      · exact .inl ⟨m, by simpa using hm, rfl⟩

theorem length_unallocated (stat : Nat) : (unallocated total stat 0).length = stat * total := by
  induction stat with
  | zero => simp [unallocated]
  | succ stat ih =>
    rw [unallocated, length_append, ih, length_map, length_range', Nat.sub_zero, Nat.succ_mul, add_comm]

theorem unallocated_nodup_iff (ht : 0 < total) (ht' : total < 2 ^ 10) (stat : Nat) :
    (unallocated total stat 0).Nodup ↔ stat ≤ 2 ^ 22 := by
  induction stat with
  | zero => simp [unallocated]
  | succ stat ih =>
    rw [unallocated, nodup_append, ih]
    constructor
    · rintro ⟨-, -, hdisj⟩
      by_contra hgt
      refine hdisj (statId stat 0) (mem_map.mpr ⟨0, by simpa using ht, rfl⟩) (statId (stat - 2 ^ 22) 0)
        (mem_unallocated.mpr ⟨stat - 2 ^ 22, by omega, 0, ht, rfl⟩) ?_
      rw [← statId_wrap (stat - 2 ^ 22), Nat.sub_add_cancel (by omega)]
    · intro hle
      refine ⟨?_, by omega, ?_⟩
      · refine Nodup.map_on (fun m hm m' hm' h => ?_) nodup_range'
        simp only [mem_range'_1] at hm hm'
        exact (statId_inj (by omega) (by omega) (by omega) (by omega) h).2
      · intro id hid id' hid' heq
        obtain ⟨m, hm, rfl⟩ := mem_map.mp hid
        obtain ⟨s, hs, m', hm', rfl⟩ := mem_unallocated.mp hid'
        simp only [mem_range'_1] at hm
        have := (statId_inj (by omega) (by omega) (by omega) (by omega) heq).1
        omega

end Unallocated

structure Core (p : Priv) : Prop where
  ring : p.freeList.WF p.statsRingSize
  active : p.activeMemUnit < p.totalMemUnits
  total : p.totalMemUnits < 2 ^ 10

inductive Got (p : Priv) (r : Priv × Int × BitVec 32) : Prop where
  | fresh (ret : r.2.1 = 0) (hfresh : p.fresh = r.2.2 :: r.1.fresh) (hfree : r.1.free = p.free)
  | free (ret : r.2.1 = 0) (hnil : p.fresh = []) (hfresh : r.1.fresh = p.fresh) (hfree : p.free = r.2.2 :: r.1.free)
  | empty (ret : r.2.1 ≠ 0) (hnil : p.fresh = []) (hp : r.1 = p)

section Priv

variable {p : Priv}

theorem fresh_succ (stat : Nat) {total mu : Nat} (h : mu < total) :
    unallocated total (stat + 1) mu =
      statId stat mu :: if mu + 1 = total then unallocated total stat 0 else unallocated total (stat + 1) (mu + 1) := by
  rw [unallocated, show total - mu = total - (mu + 1) + 1 by omega, List.range'_succ, List.map_cons, List.cons_append]
  split
  · next heq => rw [heq, Nat.sub_self, range'_zero, map_nil, nil_append]
  · rw [unallocated]

theorem Core.get (hc : Core p) {r : Priv × Int × BitVec 32} (hr : nfpGetStatsEntry p = r) :
    Core r.1 ∧ Got p r ∧ r.1.statsRingSize = p.statsRingSize := by
  have hact := hc.active
  have htot := hc.total
  rw [nfpGetStatsEntry] at hr
  subst hr
  split
  · next hpos =>
    have hmod : (p.activeMemUnit + 1) % 2 ^ 32 = p.activeMemUnit + 1 := mod_eq_of_lt (by omega)
    have hfresh := fresh_succ (p.initUnalloc - 1) hact
    rw [Nat.sub_add_cancel hpos] at hfresh
    rw [hmod]
    split
    · next heq =>
      rw [if_pos heq] at hfresh
      exact ⟨⟨hc.ring, lt_of_le_of_lt (Nat.zero_le _) hact, htot⟩, .fresh rfl hfresh rfl, rfl⟩
    · next hne =>
      rw [if_neg hne] at hfresh
      exact ⟨⟨hc.ring, show p.activeMemUnit + 1 < p.totalMemUnits by omega, htot⟩, .fresh rfl hfresh rfl, rfl⟩
  next hzero =>
  have hnil : p.fresh = [] := by rw [Priv.fresh, Nat.eq_zero_of_not_pos hzero, unallocated]
  split
  · next heq => exact ⟨hc, .empty (show enoent ≠ 0 by decide) hnil rfl, rfl⟩
  · next hne => exact ⟨⟨hc.ring.pop _, hact, htot⟩, .free rfl hnil rfl (hc.ring.contents_pop _ hne), rfl⟩

structure Put (p : Priv) (id : BitVec 32) (r : Priv × Int) : Prop where
  core : Core r.1
  size : r.1.statsRingSize = p.statsRingSize
  fresh : r.1.fresh = p.fresh
  ok : r.2 = 0 ↔ p.free.length < p.statsRingSize - 1
  free : r.2 = 0 → r.1.free = p.free ++ [id]

theorem Core.release (hc : Core p) {r : Priv × Int} (hr : nfpReleaseStatsEntry p id = r) : Put p id r := by
  have hspace := hc.ring.space_eq
  rw [nfpReleaseStatsEntry] at hr
  subst hr
  split
  · next h0 =>
    have hne : ¬enobufs = 0 := by decide
    refine ⟨hc, rfl, rfl, ⟨fun h => absurd h hne, fun h => ?_⟩, fun h => absurd h hne⟩
    rw [Priv.free] at h
    omega
  · next h0 =>
    refine ⟨⟨hc.ring.push id, hc.active, hc.total⟩, rfl, rfl, ⟨fun _ => ?_, fun _ => rfl⟩, fun _ =>
      hc.ring.contents_push id h0⟩
    rw [Priv.free]
    omega

end Priv

section Run

variable {p : Priv} {st st' : St} {a : Action}

theorem step_get (h : step st .get = some st') :
    ∃ r, nfpGetStatsEntry st.priv = r ∧
      st' = if r.2.1 = 0 then { st with priv := r.1, out := r.2.2 :: st.out } else { st with priv := r.1 } := by
  exact ⟨_, rfl, (some.inj h).symm⟩

theorem step_release (h : step st (.release id) = some st') :
    ∃ r, nfpReleaseStatsEntry st.priv id = r ∧ id ∈ st.out ∧ st' = ⟨r.1, st.out.erase id, r.2⟩ := by
  obtain ⟨hmem, hs⟩ := ite_none_right_eq_some.mp h
  exact ⟨_, rfl, hmem, (some.inj hs).symm⟩

theorem core_step (hc : Core st.priv) (h : step st a = some st') :
    Core st'.priv ∧ st'.priv.statsRingSize = st.priv.statsRingSize := by
  cases a with
  | get =>
    obtain ⟨r, hr, rfl⟩ := step_get h
    obtain ⟨hc', -, hsize⟩ := hc.get hr
    split <;> exact ⟨hc', hsize⟩
  | release id =>
    obtain ⟨r, hr, -, rfl⟩ := step_release h
    exact ⟨(hc.release hr).core, (hc.release hr).size⟩

theorem perm_out {α : Type} (fresh free out : List α) (x : α) :
    (fresh ++ (free ++ x :: out)).Perm (fresh ++ (x :: free ++ out)) ∧
      (fresh ++ (free ++ x :: out)).Perm (x :: fresh ++ (free ++ out)) := by
  constructor
  · exact perm_middle.append_left fresh
  · rw [← List.append_assoc, List.cons_append, ← List.append_assoc]
    exact List.perm_middle

theorem get_perm (hc : Core st.priv) (h : step st .get = some st') :
    st'.ids.Perm st.ids ∧ st'.released = st.released := by
  obtain ⟨r, hr, rfl⟩ := step_get h
  obtain ⟨-, hgot, -⟩ := hc.get hr
  cases hgot with
  | fresh ret hfresh hfree =>
    rw [if_pos ret]
    refine ⟨?_, rfl⟩
    simp only [St.ids]
    rw [hfresh, hfree]
    exact (perm_out r.1.fresh st.priv.free st.out r.2.2).2
  | free ret _ hfresh hfree =>
    rw [if_pos ret]
    refine ⟨?_, rfl⟩
    simp only [St.ids]
    rw [hfresh, hfree]
    exact (perm_out st.priv.fresh r.1.free st.out r.2.2).1
  | empty ret _ hp =>
    rw [if_neg ret, hp]
    exact ⟨.refl _, rfl⟩

theorem release_perm (hc : Core st.priv) (h : step st (.release id) = some st') (h0 : st'.released = 0) :
    st'.ids.Perm st.ids := by
  obtain ⟨r, hr, hmem, rfl⟩ := step_release h
  have hput := hc.release hr
  rw [St.ids, hput.fresh, hput.free h0, List.append_assoc, List.singleton_append]
  exact ((List.perm_cons_erase hmem).symm.append_left _).append_left _

theorem length_free_lt (hp : st.ids.length < st.priv.statsRingSize) (hmem : id ∈ st.out) :
    st.priv.free.length < st.priv.statsRingSize - 1 := by
  have hpos := length_pos_of_mem hmem
  simp only [St.ids, length_append] at hp
  omega

end Run

section Conserved

variable {ctxCount numMems : Word} {p : Priv}

structure Inv (ctxCount numMems : Word) (p : Priv) (st : St) : Prop where
  core : Core st.priv
  size : st.priv.statsRingSize = p.statsRingSize
  conserved : Conserved ctxCount numMems p st

theorem fieldFit_muNum {v : Word} (h : fieldFit statIdMuNum v) : v.toNat % 2 ^ 32 < 2 ^ 10 := by
  have hshf : bfShf statIdMuNum = 22 := by decide
  rw [fieldFit, hshf] at h
  refine lt_pow_two_of_testBit _ fun i hi => ?_
  rw [testBit_mod_two_pow]
  by_cases hlt : i < 32
  · have hbit := congrArg (BitVec.getLsbD · (i + 22)) h
    simp only [statIdMuNum, getLsbD_and, getLsbD_not, getLsbD_shiftLeft,
      getLsbD_genmaskUll (show 31 < 64 by decide)] at hbit
    rw [testBit_toNat]
    simpa [hlt, show i + 22 < 64 by omega, show ¬i + 22 ≤ 31 by omega] using hbit
  · rw [decide_eq_false hlt, Bool.false_and]

theorem roundupPowOfTwo_mod {n : Nat} (h : roundupPowOfTwo n % 2 ^ 32 ≠ 0) :
    ∃ k ≤ 32, roundupPowOfTwo n % 2 ^ 32 = 2 ^ k := by
  rw [roundupPowOfTwo] at h ⊢
  generalize flsLong ((n + 2 ^ 64 - 1) % 2 ^ 64) % 64 = k at h ⊢
  by_cases hk : k < 32
  · exact ⟨k, le_of_lt hk, mod_eq_of_lt (Nat.pow_lt_pow_right (by decide) hk)⟩
  · refine absurd (mod_eq_zero_of_dvd ?_) h
    exact Nat.pow_dvd_pow 2 (by omega)

structure Started (ctxCount numMems : Word) (p : Priv) : Prop where
  fit : fieldFit statIdMuNum numMems
  ring : p.statsRingSize ≠ 0
  units : p.totalMemUnits ≠ 0
  statsRingSize : p.statsRingSize = roundupPowOfTwo ctxCount.toNat % 2 ^ 32
  totalMemUnits : p.totalMemUnits = numMems.toNat % 2 ^ 32
  activeMemUnit : p.activeMemUnit = 0
  head : p.freeList.head = 0
  tail : p.freeList.tail = 0

theorem init_started (h : nfpFlowerInit ctxCount numMems = some p) : Started ctxCount numMems p := by
  unfold nfpFlowerInit at h
  rw [ite_none_left_eq_some, ite_none_left_eq_some, ite_none_left_eq_some] at h
  obtain ⟨hfit, hring, hunits, h⟩ := h
  cases h
  exact ⟨Decidable.not_not.mp fun hn => hfit (.inl hn), hring, hunits, rfl, rfl, rfl, rfl, rfl⟩

section Started

variable (hs : Started ctxCount numMems p)

include hs

theorem Started.core : Core p where
  ring := by
    have hpos := Nat.pos_of_ne_zero hs.ring
    have hpow := roundupPowOfTwo_mod (hs.statsRingSize ▸ hs.ring)
    rw [← hs.statsRingSize] at hpow
    exact ⟨hpow, hs.head ▸ hpos, hs.tail ▸ hpos⟩
  active := hs.activeMemUnit ▸ Nat.pos_of_ne_zero hs.units
  total := hs.totalMemUnits ▸ fieldFit_muNum hs.fit

theorem Started.free : p.free = [] := hs.core.ring.contents_eq_nil (hs.head.trans hs.tail.symm)

theorem Started.length_fresh : p.fresh.length = p.initUnalloc * p.totalMemUnits := by
  rw [Priv.fresh, hs.activeMemUnit, length_unallocated]

theorem Started.nodup_iff : p.fresh.Nodup ↔ p.initUnalloc ≤ 2 ^ 22 := by
  rw [Priv.fresh, hs.activeMemUnit]
  exact unallocated_nodup_iff (Nat.pos_of_ne_zero hs.units) hs.core.total _

theorem Started.ids : St.ids ⟨p, [], 0⟩ = p.fresh := by
  rw [St.ids, hs.free, append_nil, append_nil]

theorem Started.conserved_iff : Conserved ctxCount numMems p ⟨p, [], 0⟩ ↔
    p.initUnalloc * p.totalMemUnits = ctxCount.toNat / numMems.toNat * numMems.toNat ∧ p.initUnalloc ≤ 2 ^ 22 := by
  have hids := hs.ids
  rw [← hs.length_fresh, ← hs.nodup_iff]
  constructor
  · intro h
    exact ⟨hids ▸ h.card, hids ▸ h.nodup⟩
  · rintro ⟨hcard, hnodup⟩
    exact ⟨hids ▸ .refl _, hids ▸ hnodup, hids ▸ hcard, rfl⟩

theorem Started.inv (hf : Fits ctxCount numMems p) : Inv ctxCount numMems p ⟨p, [], 0⟩ :=
  ⟨hs.core, rfl, hs.conserved_iff.mpr ⟨hf.card, hf.stat⟩⟩

omit hs in
theorem Fits.inv_step (hf : Fits ctxCount numMems p) {st st' : St} {a : Action} (hi : Inv ctxCount numMems p st)
    (h : step st a = some st') : Inv ctxCount numMems p st' := by
  obtain ⟨hcore, hsize⟩ := core_step hi.core h
  have hstep : st'.ids.Perm st.ids ∧ st'.released = 0 := by
    cases a with
    | get =>
      obtain ⟨hperm, hrel⟩ := get_perm hi.core h
      exact ⟨hperm, hrel.trans hi.conserved.released⟩
    | release id =>
      have hrel : st'.released = 0 := by
        obtain ⟨r, hr, hmem, rfl⟩ := step_release h
        refine (hi.core.release hr).ok.mpr (length_free_lt ?_ hmem)
        rw [hi.conserved.card, hi.size, ← hf.card]
        exact hf.ring
      exact ⟨release_perm hi.core h hrel, hrel⟩
  refine ⟨hcore, hsize.trans hi.size, hstep.1.trans hi.conserved.perm, ?_, ?_, hstep.2⟩
  · exact hstep.1.nodup_iff.mpr hi.conserved.nodup
  · exact hstep.1.length_eq.trans hi.conserved.card

end Started

theorem fill (n : Nat) (st : St) (hc : Core st.priv) (hn : st.priv.fresh.length = n) :
    ∃ as t, run step st as = some t ∧ Core t.priv ∧ t.priv.statsRingSize = st.priv.statsRingSize ∧
      t.out.length = st.out.length + n := by
  induction n generalizing st with
  | zero => exact ⟨[], st, rfl, hc, rfl, rfl⟩
  | succ n ih =>
    obtain ⟨st', h⟩ : ∃ st', step st .get = some st' := by
      exact ⟨_, rfl⟩
    obtain ⟨hc', hsize⟩ := core_step hc h
    have hout : st'.priv.fresh.length = n ∧ st'.out.length = st.out.length + 1 := by
      obtain ⟨r, hr, rfl⟩ := step_get h
      obtain ⟨-, hgot, -⟩ := hc.get hr
      cases hgot with
      | fresh ret hfresh hfree =>
        rw [hfresh, length_cons] at hn
        rw [if_pos ret]
        exact ⟨succ.inj hn, rfl⟩
      | free _ hnil | empty _ hnil =>
        rw [hnil] at hn
        exact absurd hn (succ_ne_zero n).symm
    obtain ⟨as, t, hr, hct, hst, hlen⟩ := ih st' hc' hout.1
    exact ⟨.get :: as, t, run_cons.mpr ⟨st', h, hr⟩, hct, hst.trans hsize, by omega⟩

theorem drain (n : Nat) (st : St) (hc : Core st.priv) (hn : n ≤ st.out.length)
    (hok : ∀ as, Always step (fun st => st.released = 0) st as) :
    ∃ t : St, Core t.priv ∧ t.priv.statsRingSize = st.priv.statsRingSize ∧
      t.priv.free.length = st.priv.free.length + n := by
  induction n generalizing st with
  | zero => exact ⟨st, hc, rfl, (add_zero _).symm⟩
  | succ n ih =>
    obtain ⟨id, hmem⟩ := exists_mem_of_length_pos (lt_of_lt_of_le (succ_pos n) hn)
    obtain ⟨st', h⟩ : ∃ st', step st (.release id) = some st' := by
      rw [step, if_pos hmem]
      exact ⟨_, rfl⟩
    obtain ⟨hc', hsize⟩ := core_step hc h
    have hrel := ((hok [.release id]).2 st' h).head
    have hout : n ≤ st'.out.length ∧ st'.priv.free.length = st.priv.free.length + 1 := by
      obtain ⟨r, hr, -, rfl⟩ := step_release h
      have hput := hc.release hr
      constructor
      · rw [length_erase_of_mem hmem]
        omega
      · rw [hput.free hrel, length_append, length_singleton]
    obtain ⟨t, hct, hst, hlen⟩ := ih st' hc' hout.1 fun as => (hok (.release id :: as)).2 st' h
    exact ⟨t, hct, hst.trans hsize, by omega⟩

end Conserved

theorem stats_ids_conserved_iff {ctxCount numMems : Word} {p : Priv} (h : nfpFlowerInit ctxCount numMems = some p) :
    (∀ as, Always step (Conserved ctxCount numMems p) ⟨p, [], 0⟩ as) ↔ Fits ctxCount numMems p := by
  have hs := init_started h
  constructor
  · intro hall
    obtain ⟨hcard, hstat⟩ := hs.conserved_iff.mp (hall [])
    refine ⟨hcard, hstat, ?_⟩
    obtain ⟨as, t, hr, hct, hst, hout⟩ := fill _ ⟨p, [], 0⟩ hs.core rfl
    have hok (bs : List Action) := (always_of_run hall hr bs).imp fun _ hc => hc.released
    obtain ⟨u, hcu, hsu, hfree⟩ := drain _ t hct le_rfl hok
    have hlt := hcu.ring.length_lt
    have hlen := hs.length_fresh
    simp only [length_nil] at hst hout
    rw [Priv.free] at hfree
    omega
  · intro hf as
    exact always_of_invariant (fun _ _ _ hi h => hf.inv_step hi h) (fun _ hi => hi.conserved) (hs.inv hf) as

def pool (total ring unalloc : Nat) : Priv := ⟨total, 0, ring, unalloc, ⟨0, 0, fun _ => 0⟩⟩

theorem nfpFlowerInit_eq {ctxCount numMems : Word} {total ring unalloc : Nat}
    (hfit : fieldFit statIdMuNum numMems ∧ numMems ≠ 0) (hring : roundupPowOfTwo ctxCount.toNat % 2 ^ 32 = ring)
    (hring0 : ring ≠ 0) (htotal : numMems.toNat % 2 ^ 32 = total) (htotal0 : total ≠ 0)
    (hunalloc : ctxCount.toNat / total % 2 ^ 32 = unalloc) :
    nfpFlowerInit ctxCount numMems = some (pool total ring unalloc) := by
  subst hunalloc htotal hring
  rw [nfpFlowerInit, if_neg (fun h => h.elim (fun h => h hfit.1) hfit.2), if_neg hring0, if_neg htotal0, pool]

theorem sixContexts_conserved :
    nfpFlowerInit 6 2 = some (pool 2 8 3) ∧ ∀ as, Always step (Conserved 6 2 (pool 2 8 3)) ⟨pool 2 8 3, [], 0⟩ as := by
  have hinit : nfpFlowerInit 6 2 = some (pool 2 8 3) :=
    nfpFlowerInit_eq (by decide) (by decide) (by decide) (by decide) (by decide) (by decide)
  exact ⟨hinit, (stats_ids_conserved_iff hinit).mpr ⟨by decide, by decide, by decide⟩⟩

theorem fourContexts_lost :
    nfpFlowerInit 4 1 = some (pool 1 4 4) ∧
      (run step ⟨pool 1 4 4, [], 0⟩ [.get, .get, .get, .get, .release 3, .release 2, .release 1, .release 0]).map
        (fun st => (st.released, st.ids)) = some (enobufs, [3, 2, 1]) :=
  ⟨nfpFlowerInit_eq (by decide) (by decide) (by decide) (by decide) (by decide) (by decide), by decide +kernel⟩

end NfpDriver.Flower
