import Mathlib.Data.List.Perm.Basic
import Mathlib.Data.List.Nodup
import NfpDriver.Library.Circ
import NfpDriver.Library.Runs

namespace NfpDriver.MaskIds

open Circ Runs Function List Option

abbrev Mask := List (BitVec 8)

abbrev enoent : Int := -2
abbrev enomem : Int := -12
abbrev enobufs : Int := -105
abbrev nfpFlowerMaskEntryRs : Nat := 256
abbrev nfpFlMaskReuseTimeNs : Int := 40000
abbrev nfpFlMetaFlagManageMask : BitVec 8 := 0x80

structure MaskIdTable where
  hashKey : BitVec 32
  refCnt : Nat
  maskId : Nat
  deriving DecidableEq, Repr

inductive Op where
  | fresh (id : Nat)
  | reused (id : Nat) (now : Int)
  | released (id : Nat) (now : Int) (ret : Int)
  deriving DecidableEq, Repr

structure Priv where
  initUnallocated : Nat
  maskIdFreeList : Buf Nat
  lastUsed : Nat → Int
  maskTable : List MaskIdTable
  log : List Op

def nfpFlowerMetadataInit (buf : Nat → Nat) (lastUsed : Nat → Int) : Priv :=
  ⟨nfpFlowerMaskEntryRs - 1, ⟨0, 0, buf⟩, lastUsed, [], []⟩

def ktimeAddNs (kt ns : Int) : Int := (kt + ns).bmod (2 ^ 64)

def nfpReleaseMaskId (p : Priv) (maskId : Nat) (now : Int) : Priv × Int :=
  if circSpace p.maskIdFreeList.head p.maskIdFreeList.tail nfpFlowerMaskEntryRs = 0 then
    ({ p with log := .released maskId now enobufs :: p.log }, enobufs)
  else
    ({ p with
        maskIdFreeList := p.maskIdFreeList.push nfpFlowerMaskEntryRs maskId
        lastUsed := Function.update p.lastUsed maskId now
        log := .released maskId now 0 :: p.log }, 0)

def nfpMaskAlloc (p : Priv) (now : Int) : Priv × Int × Nat :=
  let freedId := nfpFlowerMaskEntryRs - 1
  if p.initUnallocated > 0 then
    ({ p with initUnallocated := p.initUnallocated - 1, log := .fresh p.initUnallocated :: p.log }, 0,
      p.initUnallocated)
  else if p.maskIdFreeList.head = p.maskIdFreeList.tail then (p, enoent, freedId)
  else
    let r := p.maskIdFreeList.pop nfpFlowerMaskEntryRs freedId
    if now < ktimeAddNs (p.lastUsed r.1) nfpFlMaskReuseTimeNs then (p, enoent, freedId)
    else ({ p with maskIdFreeList := r.2, log := .reused r.1 now :: p.log }, 0, r.1)

def modifyEntry (hashKey : BitVec 32) (f : MaskIdTable → MaskIdTable) : List MaskIdTable → List MaskIdTable
  | [] => []
  | e :: es => if e.hashKey = hashKey then f e :: es else e :: modifyEntry hashKey f es

section Table

variable (jhash : Mask → BitVec 32)

def nfpAddMaskTable (p : Priv) (mask : Mask) (now : Int) (kmalloc : Bool) (now' : Int) : Priv × Int :=
  let r := nfpMaskAlloc p now
  if r.2.1 ≠ 0 then (r.1, enoent)
  else if kmalloc = false then ((nfpReleaseMaskId r.1 r.2.2 now').1, enomem)
  else ({ r.1 with maskTable := ⟨jhash mask, 1, r.2.2⟩ :: r.1.maskTable }, r.2.2)

def nfpSearchMaskTable (p : Priv) (mask : Mask) : Option MaskIdTable :=
  p.maskTable.find? fun e => e.hashKey = jhash mask

def nfpFindInMaskTable (p : Priv) (mask : Mask) : Priv × Int :=
  match nfpSearchMaskTable jhash p mask with
  | none => (p, enoent)
  | some e =>
    ({ p with maskTable :=
        modifyEntry (jhash mask) (fun e => { e with refCnt := (e.refCnt + 1) % 2 ^ 32 }) p.maskTable }, e.maskId)

def nfpCheckMaskAdd (p : Priv) (mask : Mask) (metaFlags : BitVec 8) (now : Int) (kmalloc : Bool) (now' : Int) :
    Priv × Bool × BitVec 8 × Option Int :=
  let f := nfpFindInMaskTable jhash p mask
  if f.2 < 0 then
    let a := nfpAddMaskTable jhash f.1 mask now kmalloc now'
    if a.2 < 0 then (a.1, false, metaFlags, none) else (a.1, true, metaFlags ||| nfpFlMetaFlagManageMask, some a.2)
  else (f.1, true, metaFlags, some f.2)

def nfpCheckMaskRemove (p : Priv) (mask : Mask) (metaFlags : Option (BitVec 8)) (now : Int) :
    Priv × Bool × Option (BitVec 8) × Option Nat :=
  match nfpSearchMaskTable jhash p mask with
  | none => (p, false, metaFlags, none)
  | some e =>
    let refCnt := (e.refCnt + 2 ^ 32 - 1) % 2 ^ 32
    if refCnt = 0 then
      let deleted := { p with maskTable := p.maskTable.eraseP fun e => e.hashKey = jhash mask }
      ((nfpReleaseMaskId deleted e.maskId now).1, true, metaFlags.map (· ||| nfpFlMetaFlagManageMask), some e.maskId)
    else
      ({ p with maskTable := modifyEntry (jhash mask) (fun e => { e with refCnt := refCnt }) p.maskTable }, true,
        metaFlags, some e.maskId)

end Table

structure Last where
  flagsIn : Option (BitVec 8)
  flagsOut : Option (BitVec 8)
  changed : Bool

structure St where
  priv : Priv
  uses : Mask → Nat
  last : Last

inductive Action where
  | add (mask : Mask) (metaFlags : BitVec 8) (now : Int) (kmalloc : Bool) (now' : Int)
  | remove (mask : Mask) (metaFlags : Option (BitVec 8)) (now : Int)
  deriving DecidableEq, Repr

def Reading (t : Int) : Prop := -2 ^ 63 ≤ t ∧ t + nfpFlMaskReuseTimeNs < 2 ^ 63

instance (t : Int) : Decidable (Reading t) := inferInstanceAs (Decidable (_ ∧ _))

def start (buf : Nat → Nat) (lastUsed : Nat → Int) : St :=
  ⟨nfpFlowerMetadataInit buf lastUsed, fun _ => 0, ⟨none, none, false⟩⟩

def step (jhash : Mask → BitVec 32) (st : St) : Action → Option St
  | .add mask metaFlags now kmalloc now' =>
    if st.uses mask + 1 < 2 ^ 32 ∧ Reading now ∧ Reading now' then
      let r := nfpCheckMaskAdd jhash st.priv mask metaFlags now kmalloc now'
      let uses := if r.2.1 then Function.update st.uses mask (st.uses mask + 1) else st.uses
      some ⟨r.1, uses, ⟨some metaFlags, some r.2.2.1, decide (st.uses mask = 0 ∧ 0 < uses mask)⟩⟩
    else none
  | .remove mask metaFlags now =>
    if 0 < st.uses mask ∧ Reading now then
      let r := nfpCheckMaskRemove jhash st.priv mask metaFlags now
      let uses := Function.update st.uses mask (st.uses mask - 1)
      some ⟨r.1, uses, ⟨metaFlags, r.2.2.1, decide (uses mask = 0)⟩⟩
    else none

def NoCollision (jhash : Mask → BitVec 32) (st : St) : Action → Prop
  | .add mask _ _ _ _ => ∀ m, 0 < st.uses m → jhash m = jhash mask → m = mask
  | .remove _ _ _ => True

def lastRelease (id : Nat) : List Op → Option Int
  | [] => none
  | .released i now _ :: log => if i = id then some now else lastRelease id log
  | _ :: log => lastRelease id log

def Spaced : List Op → Prop
  | [] => True
  | .fresh id :: log => lastRelease id log = none ∧ Spaced log
  | .reused id now :: log => (∀ t, lastRelease id log = some t → t + nfpFlMaskReuseTimeNs ≤ now) ∧ Spaced log
  | .released _ _ _ :: log => Spaced log

def Priv.idle (p : Priv) : List Nat :=
  p.maskIdFreeList.contents nfpFlowerMaskEntryRs ++ List.range' 1 p.initUnallocated

structure Good (jhash : Mask → BitVec 32) (st : St) : Prop where
  owner : ∀ e ∈ st.priv.maskTable, ∃ m, 0 < st.uses m ∧ e.hashKey = jhash m ∧ e.refCnt = st.uses m
  live : ∀ m, 0 < st.uses m → ∃ e ∈ st.priv.maskTable, e.hashKey = jhash m ∧ e.refCnt = st.uses m
  distinct : ∀ m m', 0 < st.uses m → 0 < st.uses m' → m ≠ m' → ∀ e ∈ st.priv.maskTable, ∀ e' ∈ st.priv.maskTable,
    e.hashKey = jhash m → e'.hashKey = jhash m' → e.maskId ≠ e'.maskId
  partition : (st.priv.maskTable.map MaskIdTable.maskId ++ st.priv.idle).Perm (List.range' 1 255)
  released : ∀ id now ret, .released id now ret ∈ st.priv.log → ret = 0
  spaced : Spaced st.priv.log
  manage : st.last.flagsOut =
    st.last.flagsIn.map fun flags => if st.last.changed then flags ||| nfpFlMetaFlagManageMask else flags

structure Pool (p : Priv) : Prop where
  ring : p.maskIdFreeList.WF nfpFlowerMaskEntryRs
  times : ∀ id t, lastRelease id p.log = some t → p.lastUsed id = t ∧ Reading t
  fresh : ∀ id, 1 ≤ id → id ≤ p.initUnallocated → lastRelease id p.log = none
  released : ∀ id now ret, .released id now ret ∈ p.log → ret = 0
  spaced : Spaced p.log

variable {now : Int} {r : Priv × Int × Nat} {id k n : Nat} {key : BitVec 32} {m' : Mask} {a : Priv × Int}
  {kmalloc : Bool} {p : Priv} {metaFlags : BitVec 8} {e : MaskIdTable} {rest : List MaskIdTable} {uses : Mask → Nat}

section Pool

variable {p : Priv}

theorem ktimeAddNs_eq {t : Int} (h : Reading t) : ktimeAddNs t nfpFlMaskReuseTimeNs = t + nfpFlMaskReuseTimeNs := by
  obtain ⟨h1, h2⟩ := h
  rw [ktimeAddNs, Int.bmod_eq_of_le] <;> simp only [nfpFlMaskReuseTimeNs] at * <;> omega

section

variable (hw : p.maskIdFreeList.WF nfpFlowerMaskEntryRs)

include hw

theorem alloc_idle (hr : nfpMaskAlloc p now = r) :
    r.1.maskIdFreeList.WF nfpFlowerMaskEntryRs ∧ r.1.maskTable = p.maskTable ∧
      (r.2.1 = 0 ∧ p.idle.Perm (r.2.2 :: r.1.idle) ∨ r.2.1 = enoent ∧ r.1 = p) := by
  simp only [nfpMaskAlloc] at hr
  subst hr
  split
  · next hpos =>
    refine ⟨hw, rfl, .inl ⟨rfl, ?_⟩⟩
    rw [Priv.idle, Priv.idle]
    conv_lhs => rw [← Nat.sub_add_cancel hpos, range'_concat, ← append_assoc]
    simp only [one_mul]
    rw [add_comm 1, Nat.sub_add_cancel hpos]
    exact perm_append_singleton _ _
  split
  · exact ⟨hw, rfl, .inr ⟨rfl, rfl⟩⟩
  next hne =>
  split
  · exact ⟨hw, rfl, .inr ⟨rfl, rfl⟩⟩
  · refine ⟨hw.pop _, rfl, .inl ⟨rfl, ?_⟩⟩
    rw [Priv.idle, Priv.idle, hw.contents_pop (nfpFlowerMaskEntryRs - 1) hne, cons_append]

theorem release_space (hspace : p.idle.length < 255) :
    circSpace p.maskIdFreeList.head p.maskIdFreeList.tail nfpFlowerMaskEntryRs ≠ 0 := by
  have hlen := hw.space_eq
  have hsize : nfpFlowerMaskEntryRs = 256 := rfl
  rw [Priv.idle, length_append] at hspace
  omega

theorem release_idle (hspace : p.idle.length < 255) {r : Priv × Int}
    (hr : nfpReleaseMaskId p id now = r) :
    r.1.maskIdFreeList.WF nfpFlowerMaskEntryRs ∧ r.1.maskTable = p.maskTable ∧ r.1.idle.Perm (id :: p.idle) := by
  have hne := release_space hw hspace
  rw [nfpReleaseMaskId, if_neg hne] at hr
  subst hr
  refine ⟨hw.push id, rfl, ?_⟩
  rw [Priv.idle, Priv.idle, hw.contents_push id hne, append_assoc, singleton_append]
  exact perm_middle

end

theorem Pool.alloc (hp : Pool p) (hr : nfpMaskAlloc p now = r) :
    Pool r.1 ∧ r.1.maskTable = p.maskTable ∧
      (r.2.1 = 0 ∧ p.idle.Perm (r.2.2 :: r.1.idle) ∨ r.2.1 = enoent ∧ r.1 = p) := by
  obtain ⟨hring, htable, hidle⟩ := alloc_idle hp.ring hr
  refine ⟨?_, htable, hidle⟩
  simp only [nfpMaskAlloc] at hr
  subst hr
  split
  · next hpos =>
    refine ⟨hp.ring, hp.times, fun id h1 h2 => hp.fresh id h1 (le_trans h2 (Nat.sub_le _ _)), ?_, ?_⟩
    · intro id now ret h
      exact hp.released id now ret (mem_of_ne_of_mem (by simp) h)
    · exact ⟨hp.fresh _ hpos le_rfl, hp.spaced⟩
  split
  · exact hp
  split
  · exact hp
  next hready =>
  refine ⟨hp.ring.pop _, hp.times, hp.fresh, ?_, ?_⟩
  · intro id now ret h
    exact hp.released id now ret (mem_of_ne_of_mem (by simp) h)
  · refine ⟨fun t ht => ?_, hp.spaced⟩
    obtain ⟨hlast, hread⟩ := hp.times _ t ht
    rw [hlast, ktimeAddNs_eq hread] at hready
    omega

theorem Pool.release (hp : Pool p) (hnow : Reading now) (hid : p.initUnallocated < id) (hspace : p.idle.length < 255)
    {r : Priv × Int} (hr : nfpReleaseMaskId p id now = r) :
    Pool r.1 ∧ r.1.maskTable = p.maskTable ∧ r.1.idle.Perm (id :: p.idle) := by
  obtain ⟨hring, htable, hidle⟩ := release_idle hp.ring hspace hr
  refine ⟨?_, htable, hidle⟩
  rw [nfpReleaseMaskId, if_neg (release_space hp.ring hspace)] at hr
  subst hr
  refine ⟨hring, ?_, ?_, ?_, hp.spaced⟩
  · intro i t h
    simp only [lastRelease] at h
    split at h
    · next heq =>
      cases h
      subst heq
      exact ⟨update_self _ _ _, hnow⟩
    · next hni =>
      simp only [update_of_ne (Ne.symm hni)]
      exact hp.times i t h
  · intro i h1 h2
    have hi : i ≤ p.initUnallocated := h2
    simp only [lastRelease]
    rw [if_neg (by omega)]
    exact hp.fresh i h1 hi
  · intro i t ret h
    rcases mem_cons.mp h with h | h
    · cases h
      rfl
    · exact hp.released i t ret h

end Pool

structure TableOk (jhash : Mask → BitVec 32) (uses : Mask → Nat) (table : List MaskIdTable) : Prop where
  owner : ∀ e ∈ table, ∃ m, 0 < uses m ∧ e.hashKey = jhash m ∧ e.refCnt = uses m
  live : ∀ m, 0 < uses m → ∃ e ∈ table, e.hashKey = jhash m
  keys : (table.map MaskIdTable.hashKey).Nodup
  inj : ∀ m m', 0 < uses m → 0 < uses m' → jhash m = jhash m' → m = m'

structure Split (table : List MaskIdTable) (key : BitVec 32) (e : MaskIdTable) (rest : List MaskIdTable) : Prop where
  found : e.hashKey = key
  perm : table.Perm (e :: rest)
  modify : ∀ f, (modifyEntry key f table).Perm (f e :: rest)
  erase : (table.eraseP fun e => e.hashKey = key).Perm rest

section Table

variable {jhash : Mask → BitVec 32} {uses : Mask → Nat} {table rest : List MaskIdTable} {e : MaskIdTable} {m : Mask}

theorem find_split (h : table.find? (fun e => e.hashKey = key) = some e) : ∃ rest, Split table key e rest := by
  induction table with
  | nil => cases h
  | cons a table ih =>
    rw [find?_cons] at h
    by_cases hk : a.hashKey = key
    · rw [decide_eq_true hk] at h
      cases h
      refine ⟨table, hk, .refl _, fun f => ?_, ?_⟩
      · rw [modifyEntry, if_pos hk]
      · rw [eraseP_cons, decide_eq_true hk]
        exact .refl _
    · rw [decide_eq_false hk] at h
      obtain ⟨rest, hs⟩ := ih h
      refine ⟨a :: rest, hs.found, (hs.perm.cons a).trans (.swap e a rest), fun f => ?_, ?_⟩
      · rw [modifyEntry, if_neg hk]
        exact ((hs.modify f).cons a).trans (.swap (f e) a rest)
      · rw [eraseP_cons, decide_eq_false hk]
        exact hs.erase.cons a

theorem TableOk.perm {table' : List MaskIdTable} (h : TableOk jhash uses table) (hp : table.Perm table') :
    TableOk jhash uses table' where
  owner e he := h.owner e (hp.mem_iff.mpr he)
  live m hm := by
    obtain ⟨e, he, hk⟩ := h.live m hm
    exact ⟨e, hp.mem_iff.mp he, hk⟩
  keys := (hp.map _).nodup_iff.mp h.keys
  inj := h.inj

theorem TableOk.refCnt (h : TableOk jhash uses table) (he : e ∈ table) (hk : e.hashKey = jhash m) (hm : 0 < uses m) :
    e.refCnt = uses m := by
  obtain ⟨m', hm', hk', hr⟩ := h.owner e he
  rwa [h.inj m' m hm' hm (hk'.symm.trans hk)] at hr

theorem pos_of_update (hm : 0 < uses m) (hm' : 0 < update uses m k m') : 0 < uses m' := by
  by_cases hne : m' = m
  · rwa [hne]
  · rwa [update_of_ne hne] at hm'

section Head

variable (h : TableOk jhash uses (e :: rest)) (hk : e.hashKey = jhash m)

include h hk

theorem TableOk.rest_owner {e' : MaskIdTable} (he : e' ∈ rest) (k : Nat) :
    ∃ m', m' ≠ m ∧ 0 < update uses m k m' ∧ e'.hashKey = jhash m' ∧ e'.refCnt = update uses m k m' := by
  obtain ⟨m', hm', hk', hr⟩ := h.owner e' (mem_cons_of_mem e he)
  have hne : m' ≠ m := by
    rintro rfl
    refine (nodup_cons.mp h.keys).1 ?_
    rw [hk, ← hk']
    exact mem_map_of_mem he
  refine ⟨m', hne, ?_⟩
  rw [update_of_ne hne]
  exact ⟨hm', hk', hr⟩

theorem TableOk.rest_live (hm : 0 < uses m) (hne : m' ≠ m) (hm' : 0 < uses m') :
    ∃ e' ∈ rest, e'.hashKey = jhash m' := by
  obtain ⟨e', he', hk'⟩ := h.live m' hm'
  rcases mem_cons.mp he' with rfl | he'
  · exact absurd (h.inj m' m hm' hm (hk'.symm.trans hk)) hne
  · exact ⟨e', he', hk'⟩

theorem TableOk.set (hm : 0 < uses m) (hpos : 0 < k) :
    TableOk jhash (update uses m k) ({ e with refCnt := k } :: rest) where
  owner e' he' := by
    rcases mem_cons.mp he' with rfl | he'
    · exact ⟨m, by rwa [update_self], hk, (update_self m k uses).symm⟩
    · obtain ⟨m', -, howner⟩ := h.rest_owner hk he' k
      exact ⟨m', howner⟩
  live m' hm' := by
    by_cases hne : m' = m
    · exact ⟨_, mem_cons_self, hne ▸ hk⟩
    · rw [update_of_ne hne] at hm'
      obtain ⟨e', he', hk'⟩ := h.rest_live hk hm hne hm'
      exact ⟨e', mem_cons_of_mem _ he', hk'⟩
  keys := h.keys
  inj m1 m2 h1 h2 := h.inj m1 m2 (pos_of_update hm h1) (pos_of_update hm h2)

theorem TableOk.drop (hm : 0 < uses m) : TableOk jhash (update uses m 0) rest where
  owner e' he' := by
    obtain ⟨m', -, howner⟩ := h.rest_owner hk he' 0
    exact ⟨m', howner⟩
  live m' hm' := by
    have hne : m' ≠ m := by
      rintro rfl
      rw [update_self] at hm'
      exact lt_irrefl 0 hm'
    rw [update_of_ne hne] at hm'
    exact h.rest_live hk hm hne hm'
  keys := (nodup_cons.mp h.keys).2
  inj m1 m2 h1 h2 := h.inj m1 m2 (pos_of_update hm h1) (pos_of_update hm h2)

end Head

theorem TableOk.add (h : TableOk jhash uses table) (hm : uses m = 0)
    (hc : ∀ m', 0 < uses m' → jhash m' = jhash m → m' = m) (id : Nat) :
    TableOk jhash (update uses m 1) (⟨jhash m, 1, id⟩ :: table) where
  owner e he := by
    rcases mem_cons.mp he with rfl | he
    · exact ⟨m, by rw [update_self]; exact Nat.one_pos, rfl, (update_self m 1 uses).symm⟩
    obtain ⟨m', hm', howner⟩ := h.owner e he
    have hne : m' ≠ m := by
      rintro rfl
      omega
    rw [← update_of_ne hne 1 uses] at hm' howner
    exact ⟨m', hm', howner⟩
  live m' hm' := by
    by_cases hne : m' = m
    · exact ⟨_, mem_cons_self, hne ▸ rfl⟩
    · rw [update_of_ne hne] at hm'
      obtain ⟨e, he, hk⟩ := h.live m' hm'
      exact ⟨e, mem_cons_of_mem _ he, hk⟩
  keys := by
    refine nodup_cons.mpr ⟨fun hmem => ?_, h.keys⟩
    obtain ⟨e, he, hk⟩ := mem_map.mp hmem
    obtain ⟨m', hm', hk', -⟩ := h.owner e he
    have := hc m' hm' (hk'.symm.trans hk)
    rw [this] at hm'
    omega
  inj m1 m2 h1 h2 hj := by
    by_cases e1 : m1 = m
    · by_cases e2 : m2 = m
      · rw [e1, e2]
      · rw [update_of_ne e2] at h2
        rw [e1] at hj ⊢
        exact (hc m2 h2 hj.symm).symm
    · rw [update_of_ne e1] at h1
      by_cases e2 : m2 = m
      · rw [e2] at hj ⊢
        exact hc m1 h1 hj
      · rw [update_of_ne e2] at h2
        exact h.inj m1 m2 h1 h2 hj

end Table

structure Inv (jhash : Mask → BitVec 32) (st : St) : Prop where
  pool : Pool st.priv
  bound : ∀ m, st.uses m < 2 ^ 32
  table : TableOk jhash st.uses st.priv.maskTable
  partition : (st.priv.maskTable.map MaskIdTable.maskId ++ st.priv.idle).Perm (List.range' 1 255)
  manage : st.last.flagsOut =
    st.last.flagsIn.map fun flags => if st.last.changed then flags ||| nfpFlMetaFlagManageMask else flags

section Partition

variable {ids idle : List Nat} {id : Nat}

theorem partition_nodup (h : (ids ++ idle).Perm (List.range' 1 255)) : (ids ++ idle).Nodup :=
  h.nodup_iff.mpr List.nodup_range'

theorem partition_held {initUnallocated : Nat} {contents : List Nat}
    (h : (id :: ids ++ (contents ++ List.range' 1 initUnallocated)).Perm (List.range' 1 255)) :
    initUnallocated < id ∧ (contents ++ List.range' 1 initUnallocated).length < 255 := by
  constructor
  · by_contra hle
    have hmem : id ∈ range' 1 255 := h.mem_iff.mp (mem_append_left _ mem_cons_self)
    rw [mem_range'_1] at hmem
    have hnd := partition_nodup h
    rw [cons_append, nodup_cons] at hnd
    refine hnd.1 (mem_append_right _ (mem_append_right _ ?_))
    rw [mem_range'_1]
    omega
  · have hlen := h.length_eq
    rw [length_append, length_cons, length_range'] at hlen
    omega

theorem Inv.good {jhash : Mask → BitVec 32} {st : St} (hi : Inv jhash st) : Good jhash st where
  owner := hi.table.owner
  live m hm := by
    obtain ⟨e, he, hk⟩ := hi.table.live m hm
    exact ⟨e, he, hk, hi.table.refCnt he hk hm⟩
  distinct m m' hm hm' hne e he e' he' hk hk' heq := by
    have hnd := (nodup_append.mp (partition_nodup hi.partition)).1
    obtain rfl := inj_on_of_nodup_map hnd he he' heq
    exact hne (hi.table.inj m m' hm hm' (hk.symm.trans hk'))
  partition := hi.partition
  released := hi.pool.released
  spaced := hi.pool.spaced
  manage := hi.manage

end Partition

theorem empty_wf (buf : Nat → Nat) : Buf.WF nfpFlowerMaskEntryRs (⟨0, 0, buf⟩ : Buf Nat) :=
  ⟨⟨8, by decide, rfl⟩, show 0 < 256 by decide, show 0 < 256 by decide⟩

theorem inv_start (jhash : Mask → BitVec 32) (buf : Nat → Nat) (lastUsed : Nat → Int) :
    Inv jhash (start buf lastUsed) where
  pool := by
    refine ⟨empty_wf buf, fun id t h => ?_, fun _ _ _ => rfl, fun _ _ _ h => ?_, trivial⟩
    · cases h
    · cases h
  bound _ := show 0 < 2 ^ 32 by decide
  table := by
    refine ⟨fun e he => absurd he not_mem_nil, fun m hm => absurd hm (lt_irrefl 0), nodup_nil, ?_⟩
    exact fun m _ hm => absurd hm (lt_irrefl 0)
  partition := by
    rw [Priv.idle, start, nfpFlowerMetadataInit, (empty_wf buf).contents_eq_nil rfl]
    exact .refl _
  manage := rfl

inductive Inserted (jhash : Mask → BitVec 32) (p : Priv) (mask : Mask) (now' : Int) (a : Priv × Int) : Prop where
  | refused (ret : a.2 < 0) (hp : a.1 = p)
  | failed (ret : a.2 < 0) (r : Priv × Int × Nat) (pool : Pool r.1) (table : r.1.maskTable = p.maskTable)
    (perm : p.idle.Perm (r.2.2 :: r.1.idle)) (q : Priv × Int) (hq : nfpReleaseMaskId r.1 r.2.2 now' = q)
      (hp : a.1 = q.1)
  | new (ret : ¬a.2 < 0) (r : Priv × Int × Nat) (pool : Pool r.1) (table : r.1.maskTable = p.maskTable)
    (perm : p.idle.Perm (r.2.2 :: r.1.idle))
    (hp : a.1 = { r.1 with maskTable := ⟨jhash mask, 1, r.2.2⟩ :: r.1.maskTable })

inductive Added (jhash : Mask → BitVec 32) (p : Priv) (mask : Mask) (metaFlags : BitVec 8) (now' : Int)
    (r : Priv × Bool × BitVec 8 × Option Int) : Prop where
  | found (e : MaskIdTable) (rest : List MaskIdTable) (hs : Split p.maskTable (jhash mask) e rest)
    (hp : r.1 = { p with
      maskTable := modifyEntry (jhash mask) (fun e => { e with refCnt := (e.refCnt + 1) % 2 ^ 32 }) p.maskTable })
    (ok : r.2.1 = true) (flags : r.2.2.1 = metaFlags)
  | inserted (hs : nfpSearchMaskTable jhash p mask = none) (a : Priv × Int) (ha : Inserted jhash p mask now' a)
    (hp : r.1 = a.1) (ok : r.2.1 = !decide (a.2 < 0))
    (flags : r.2.2.1 = if a.2 < 0 then metaFlags else metaFlags ||| nfpFlMetaFlagManageMask)

section Step

variable {jhash : Mask → BitVec 32} {st st' : St} {mask : Mask} {now now' : Int}

theorem Pool.insert (hp : Pool p) (ha : nfpAddMaskTable jhash p mask now kmalloc now' = a) :
    Inserted jhash p mask now' a := by
  obtain ⟨r, hr⟩ := @exists_eq' _ (nfpMaskAlloc p now)
  obtain ⟨q, hq⟩ := @exists_eq' _ (nfpReleaseMaskId r.1 r.2.2 now')
  obtain ⟨hpool, htable, hok⟩ := hp.alloc hr
  rw [nfpAddMaskTable, hr] at ha
  rcases hok with ⟨h0, hperm⟩ | ⟨herr, heq⟩
  · rw [if_neg (not_not.mpr h0), hq] at ha
    cases kmalloc with
    | false =>
      subst ha
      exact .failed (show enomem < 0 by decide) r hpool htable hperm q hq rfl
    | true =>
      subst ha
      exact .new (show ¬(r.2.2 : Int) < 0 by omega) r hpool htable hperm rfl
  · rw [if_pos (by rw [herr]; decide)] at ha
    subst ha
    exact .refused (show enoent < 0 by decide) heq

theorem Pool.add (hp : Pool p) {r : Priv × Bool × BitVec 8 × Option Int}
    (hr : nfpCheckMaskAdd jhash p mask metaFlags now kmalloc now' = r) : Added jhash p mask metaFlags now' r := by
  rw [nfpCheckMaskAdd] at hr
  cases hs : nfpSearchMaskTable jhash p mask with
  | some e =>
    obtain ⟨rest, hsplit⟩ := find_split hs
    rw [nfpFindInMaskTable, hs] at hr
    have hid : ¬(e.maskId : Int) < 0 := by omega
    subst hr
    exact .found e rest hsplit rfl rfl rfl
  | none =>
    obtain ⟨a, ha⟩ := @exists_eq' _ (nfpAddMaskTable jhash p mask now kmalloc now')
    have hins := hp.insert ha
    have hneg : enoent < 0 := by decide
    rw [nfpFindInMaskTable, hs, if_pos hneg, ha] at hr
    subst hr
    by_cases hlt : a.2 < 0
    · rw [if_pos hlt]
      exact .inserted hs a hins rfl (by rw [decide_eq_true hlt]; rfl) (if_pos hlt).symm
    · rw [if_neg hlt]
      exact .inserted hs a hins rfl (by rw [decide_eq_false hlt]; rfl) (if_neg hlt).symm

theorem step_add (h : step jhash st (.add mask metaFlags now kmalloc now') = some st') :
    (st.uses mask + 1 < 2 ^ 32 ∧ Reading now ∧ Reading now') ∧
      ∃ r, nfpCheckMaskAdd jhash st.priv mask metaFlags now kmalloc now' = r ∧
        ∃ uses, uses = (if r.2.1 then update st.uses mask (st.uses mask + 1) else st.uses) ∧
          st' = ⟨r.1, uses, ⟨some metaFlags, some r.2.2.1, decide (st.uses mask = 0 ∧ 0 < uses mask)⟩⟩ := by
  obtain ⟨hg, hs⟩ := ite_none_right_eq_some.mp h
  exact ⟨hg, _, rfl, _, rfl, (some.inj hs).symm⟩

theorem step_remove {metaFlags : Option (BitVec 8)} (h : step jhash st (.remove mask metaFlags now) = some st') :
    (0 < st.uses mask ∧ Reading now) ∧
      ∃ r, nfpCheckMaskRemove jhash st.priv mask metaFlags now = r ∧
        st' = ⟨r.1, update st.uses mask (st.uses mask - 1),
          ⟨metaFlags, r.2.2.1, decide (update st.uses mask (st.uses mask - 1) mask = 0)⟩⟩ := by
  obtain ⟨hg, hs⟩ := ite_none_right_eq_some.mp h
  exact ⟨hg, _, rfl, (some.inj hs).symm⟩

theorem Pool.withTable (hp : Pool p) (table : List MaskIdTable) : Pool { p with maskTable := table } :=
  { hp with }

theorem Split.modify_ids {table : List MaskIdTable} (hs : Split table key e rest) (k : MaskIdTable → Nat) :
    ((modifyEntry key (fun e => { e with refCnt := k e }) table).map MaskIdTable.maskId).Perm
      (table.map MaskIdTable.maskId) :=
  ((hs.modify _).map _).trans (hs.perm.map MaskIdTable.maskId).symm

theorem search_none_uses (ht : TableOk jhash st.uses st.priv.maskTable)
    (hs : nfpSearchMaskTable jhash st.priv mask = none) :
    st.uses mask = 0 := by
  by_contra hne
  obtain ⟨e, he, hk⟩ := ht.live mask (Nat.pos_of_ne_zero hne)
  have := find?_eq_none.mp hs e he
  exact this (decide_eq_true hk)

theorem changed_false {uses' : Mask → Nat} (h : ¬(uses mask = 0 ∧ 0 < uses' mask)) (metaFlags : BitVec 8) :
    some metaFlags = (some metaFlags).map fun flags =>
      if decide (uses mask = 0 ∧ 0 < uses' mask) = true then flags ||| nfpFlMetaFlagManageMask else flags := by
  rw [decide_eq_false h]
  rfl

theorem update_bound (h : ∀ m, uses m < 2 ^ 32) (hn : n < 2 ^ 32) (m : Mask) : update uses mask n m < 2 ^ 32 := by
  by_cases hm : m = mask
  · rw [hm, update_self]
    exact hn
  · rw [update_of_ne hm]
    exact h m

theorem inv_found (hi : Inv jhash st) (hm : 0 < st.uses mask) (hs : Split st.priv.maskTable (jhash mask) e rest)
    {k : MaskIdTable → Nat} (hk : k e = n) (hn : 0 < n) (hn' : n < 2 ^ 32) {last : Last} (hl : last.flagsOut =
      last.flagsIn.map fun flags => if last.changed then flags ||| nfpFlMetaFlagManageMask else flags) :
    Inv jhash ⟨{ st.priv with
      maskTable := modifyEntry (jhash mask) (fun e => { e with refCnt := k e }) st.priv.maskTable },
      update st.uses mask n, last⟩ where
  pool := hi.pool.withTable _
  bound := update_bound hi.bound hn'
  table := by
    have hperm := hs.modify fun e => { e with refCnt := k e }
    simp only [hk] at hperm
    exact ((hi.table.perm hs.perm).set hs.found hm hn).perm hperm.symm
  partition := ((hs.modify_ids k).append_right _).trans hi.partition
  manage := hl

theorem inv_inserted (hi : Inv jhash st) (hnow' : Reading now')
    (hc : ∀ m, 0 < st.uses m → jhash m = jhash mask → m = mask) (h0 : st.uses mask = 0)
    (ha : Inserted jhash st.priv mask now' a)
    (huses : uses = if (!decide (a.2 < 0)) = true then update st.uses mask (st.uses mask + 1) else st.uses) :
    Inv jhash ⟨a.1, uses, ⟨some metaFlags, some (if a.2 < 0 then metaFlags else metaFlags ||| nfpFlMetaFlagManageMask),
      decide (st.uses mask = 0 ∧ 0 < uses mask)⟩⟩ := by
  cases ha with
  | refused ret hp =>
    rw [decide_eq_true ret, if_neg (by decide)] at huses
    subst huses
    rw [hp, if_pos ret]
    exact ⟨hi.pool, hi.bound, hi.table, hi.partition, changed_false (fun h => by omega) metaFlags⟩
  | failed ret r pool table perm q hq hp =>
    rw [decide_eq_true ret, if_neg (by decide)] at huses
    subst huses
    have hpart := (perm.append_left (st.priv.maskTable.map MaskIdTable.maskId)).symm.trans hi.partition
    obtain ⟨hid, hlen⟩ := partition_held (perm_middle.symm.trans hpart)
    obtain ⟨hpool, htable, hidle⟩ := pool.release hnow' hid hlen hq
    rw [hp, if_pos ret]
    refine ⟨hpool, hi.bound, ?_, ?_, changed_false (fun h => by omega) metaFlags⟩
    · rw [htable, table]
      exact hi.table
    · rw [htable, table]
      exact (hidle.append_left _).trans hpart
  | new ret r pool table perm hp =>
    rw [decide_eq_false ret, if_pos (by decide), h0] at huses
    subst huses
    rw [hp, if_neg ret]
    refine ⟨pool.withTable _, update_bound hi.bound (by decide), ?_, ?_, ?_⟩
    · rw [table]
      exact hi.table.add h0 hc r.2.2
    · rw [table]
      have hpart := (perm.append_left (st.priv.maskTable.map MaskIdTable.maskId)).symm.trans hi.partition
      exact perm_middle.symm.trans hpart
    · have hch : decide (st.uses mask = 0 ∧ 0 < update st.uses mask (0 + 1) mask) = true :=
        decide_eq_true ⟨h0, by rw [update_self]; exact Nat.one_pos⟩
      simp only [hch]
      rfl

theorem inv_add (hi : Inv jhash st) (hc : ∀ m, 0 < st.uses m → jhash m = jhash mask → m = mask)
    (h : step jhash st (.add mask metaFlags now kmalloc now') = some st') : Inv jhash st' := by
  obtain ⟨⟨hbound, -, hnow'⟩, r, hr, uses, huses, rfl⟩ := step_add h
  cases hi.pool.add hr with
  | found e rest hs hp ok flags =>
    obtain ⟨m, hm, hk, hcnt⟩ := hi.table.owner e (hs.perm.mem_iff.mpr mem_cons_self)
    obtain rfl := hc m hm (hk.symm.trans hs.found)
    rw [ok, if_pos rfl] at huses
    subst huses
    rw [hp, flags]
    refine inv_found hi hm hs ?_ (Nat.succ_pos _) hbound (changed_false (fun h => absurd h.1 hm.ne') metaFlags)
    rw [hcnt, Nat.mod_eq_of_lt hbound]
  | inserted hs a ha hp ok flags =>
    rw [ok] at huses
    rw [hp, flags]
    exact inv_inserted hi hnow' hc (search_none_uses hi.table hs) ha huses

inductive Removed (jhash : Mask → BitVec 32) (p : Priv) (mask : Mask) (metaFlags : Option (BitVec 8)) (now : Int)
    (r : Priv × Bool × Option (BitVec 8) × Option Nat) : Prop where
  | kept (e : MaskIdTable) (rest : List MaskIdTable) (hs : Split p.maskTable (jhash mask) e rest)
    (cnt : (e.refCnt + 2 ^ 32 - 1) % 2 ^ 32 ≠ 0)
    (hp : r.1 = { p with
      maskTable := modifyEntry (jhash mask) (fun e' =>
        { e' with refCnt := (e.refCnt + 2 ^ 32 - 1) % 2 ^ 32 }) p.maskTable })
    (flags : r.2.2.1 = metaFlags)
  | deleted (e : MaskIdTable) (rest : List MaskIdTable) (hs : Split p.maskTable (jhash mask) e rest)
    (cnt : (e.refCnt + 2 ^ 32 - 1) % 2 ^ 32 = 0) (q : Priv × Int)
    (hq : nfpReleaseMaskId { p with maskTable := p.maskTable.eraseP fun e => e.hashKey = jhash mask } e.maskId now = q)
    (hp : r.1 = q.1) (flags : r.2.2.1 = metaFlags.map (· ||| nfpFlMetaFlagManageMask))

theorem nfpCheckMaskRemove_removed {metaFlags : Option (BitVec 8)} {r : Priv × Bool × Option (BitVec 8) × Option Nat}
    (hs : nfpSearchMaskTable jhash p mask = some e) (hr : nfpCheckMaskRemove jhash p mask metaFlags now = r) :
    Removed jhash p mask metaFlags now r := by
  obtain ⟨rest, hsplit⟩ := find_split hs
  obtain ⟨q, hq⟩ : ∃ q, nfpReleaseMaskId
    { p with maskTable := p.maskTable.eraseP fun e => e.hashKey = jhash mask } e.maskId now = q := ⟨_, rfl⟩
  rw [nfpCheckMaskRemove, hs] at hr
  by_cases hcnt : (e.refCnt + 2 ^ 32 - 1) % 2 ^ 32 = 0
  · simp only [if_pos hcnt, hq, -Nat.reducePow] at hr
    subst hr
    exact .deleted e rest hsplit hcnt q hq rfl rfl
  · simp only [if_neg hcnt, -Nat.reducePow] at hr
    subst hr
    exact .kept e rest hsplit hcnt rfl rfl

theorem inv_deleted (hi : Inv jhash st) {metaFlags : Option (BitVec 8)} (hnow : Reading now) (hm : 0 < st.uses mask)
    (hs : Split st.priv.maskTable (jhash mask) e rest) {q : Priv × Int}
    (hq : nfpReleaseMaskId { st.priv with maskTable := st.priv.maskTable.eraseP fun e => e.hashKey = jhash mask }
      e.maskId now = q) :
    Inv jhash ⟨q.1, update st.uses mask 0, ⟨metaFlags, metaFlags.map (· ||| nfpFlMetaFlagManageMask), true⟩⟩ := by
  have hpart : (e.maskId :: rest.map MaskIdTable.maskId ++ st.priv.idle).Perm (range' 1 255) :=
    ((hs.perm.map MaskIdTable.maskId).symm.append_right _).trans hi.partition
  obtain ⟨hid, hlen⟩ := partition_held hpart
  obtain ⟨hpool, htable, hidle⟩ :=
    (hi.pool.withTable (st.priv.maskTable.eraseP fun e => e.hashKey = jhash mask)).release hnow hid hlen hq
  refine ⟨hpool, update_bound hi.bound (by decide), ?_, ?_, ?_⟩
  · rw [htable]
    exact ((hi.table.perm hs.perm).drop hs.found hm).perm hs.erase.symm
  · rw [htable]
    exact ((hs.erase.map _).append hidle).trans (perm_middle.trans hpart)
  · simp only [if_true]

theorem inv_remove (hi : Inv jhash st) {metaFlags : Option (BitVec 8)}
    (h : step jhash st (.remove mask metaFlags now) = some st') : Inv jhash st' := by
  obtain ⟨⟨hm, hnow⟩, r, hr, rfl⟩ := step_remove h
  cases hs : nfpSearchMaskTable jhash st.priv mask with
  | none => exact absurd (search_none_uses hi.table hs) hm.ne'
  | some e =>
    have hbound := hi.bound mask
    have hcnt {e : MaskIdTable} {rest : List MaskIdTable} (hs : Split st.priv.maskTable (jhash mask) e rest) :
        (e.refCnt + 2 ^ 32 - 1) % 2 ^ 32 = st.uses mask - 1 := by
      rw [hi.table.refCnt (hs.perm.mem_iff.mpr mem_cons_self) hs.found hm]
      omega
    rw [update_self]
    cases nfpCheckMaskRemove_removed hs hr with
    | kept e rest hs cnt hp flags =>
      rw [hcnt hs] at cnt hp
      rw [hp, flags, decide_eq_false cnt]
      exact inv_found hi hm hs rfl (Nat.pos_of_ne_zero cnt) (by omega) (by cases metaFlags <;> rfl)
    | deleted e rest hs cnt q hq hp flags =>
      rw [hcnt hs] at cnt
      rw [hp, flags, cnt, decide_eq_true rfl]
      exact inv_deleted hi hnow hm hs hq

theorem inv_step {a : Action} (hi : Inv jhash st) (hc : NoCollision jhash st a) (h : step jhash st a = some st') :
    Inv jhash st' := by
  cases a with
  | add mask metaFlags now kmalloc now' => exact inv_add hi hc h
  | remove mask metaFlags now => exact inv_remove hi h

end Step

theorem mask_ids_kept (jhash : Mask → BitVec 32) (buf : Nat → Nat) (lastUsed : Nat → Int) (as : List Action)
    (hc : Guarded (step jhash) (NoCollision jhash) (start buf lastUsed) as) :
    Always (step jhash) (Good jhash) (start buf lastUsed) as :=
  always_of_guarded (fun _ _ _ hi hc h => inv_step hi hc h) (fun _ hi => hi.good) (inv_start jhash buf lastUsed) hc

theorem addRemove_kept :
    Always (step fun mask => BitVec.ofNat 32 mask.length) (Good fun mask => BitVec.ofNat 32 mask.length)
      (start (fun _ => 0) fun _ => 0) [.add [1] 0 7 true 7, .remove [1] (some 0) 9, .add [2] 1 9 false 9] := by
  have hempty : ∀ m : Mask, ¬0 < (start (fun _ => 0) fun _ => 0).uses m := fun m => lt_irrefl 0
  refine mask_ids_kept _ _ _ _ ⟨fun m hm => absurd hm (hempty m), fun s hs =>
    ⟨trivial, fun s' hs' => ⟨?_, fun _ _ => trivial⟩⟩⟩
  intro m hm
  obtain ⟨-, r, -, uses, huses, rfl⟩ := step_add hs
  obtain ⟨-, r', -, rfl⟩ := step_remove hs'
  have huse : uses m ≤ if m = [1] then 1 else 0 := by
    rw [huses]
    split
    · exact le_of_eq (update_apply _ _ _ m)
    · exact Nat.zero_le _
  by_cases hm1 : m = [1]
  · rw [hm1, if_pos rfl] at huse
    rw [hm1] at hm
    simp only [update_self] at hm
    omega
  · rw [if_neg hm1] at huse
    simp only [update_of_ne hm1] at hm
    omega

end NfpDriver.MaskIds
