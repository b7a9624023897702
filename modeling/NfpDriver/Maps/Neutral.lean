import Mathlib.Algebra.Ring.Nat
import Mathlib.Data.List.Perm.Basic
import Mathlib.Data.List.ReduceOption
import Mathlib.Logic.Function.Basic
import NfpDriver.Library.Runs

namespace NfpDriver.Neutral

open Runs Function List Option

abbrev MapId := BitVec 32

abbrev Addr := Nat

structure Map where
  id : MapId
  offloadNeutral : Bool

structure Record where
  mapId : MapId
  count : BitVec 32
deriving DecidableEq

-- `mapRefs` counts the references this driver took with `bpf_map_inc` and has not put
structure Bpf where
  mapsNeutral : MapId → Option Addr
  heap : Addr → Option Record
  mapRefs : MapId → Int

structure Attempt where
  incErr : Int
  memory : Option Addr
  insertErr : Int

def enomem : Int := 12

def kmalloc (bpf : Bpf) (e : Attempt) : Option Addr := e.memory.filter fun a => (bpf.heap a).isNone

def mapInc (bpf : Bpf) (id : MapId) : Bpf := { bpf with mapRefs := Function.update bpf.mapRefs id (bpf.mapRefs id + 1) }

def mapPut (bpf : Bpf) (id : MapId) : Bpf := { bpf with mapRefs := Function.update bpf.mapRefs id (bpf.mapRefs id - 1) }

def store (bpf : Bpf) (a : Addr) (r : Option Record) : Bpf := { bpf with heap := Function.update bpf.heap a r }

def tableInsert (bpf : Bpf) (id : MapId) (a : Addr) : Bpf :=
  { bpf with mapsNeutral := Function.update bpf.mapsNeutral id (some a) }

def tableRemove (bpf : Bpf) (id : MapId) (a : Addr) : Bpf :=
  if bpf.mapsNeutral id = some a then { bpf with mapsNeutral := Function.update bpf.mapsNeutral id none } else bpf

-- `none` is a read of a record that has been freed
def nfpMapPtrRecord (bpf : Bpf) (mapRecords : List Addr) (id : MapId) (e : Attempt) : Option (Int × Bpf × List Addr) :=
  match bpf.mapsNeutral id with
  | some a => (bpf.heap a).map fun r => (0, store bpf a (some { r with count := r.count + 1 }), mapRecords ++ [a])
  | none =>
    if e.incErr ≠ 0 then some (e.incErr, bpf, mapRecords)
    else
      match kmalloc bpf e with
      | none => some (-enomem, mapPut (mapInc bpf id) id, mapRecords)
      | some a =>
        let bpf' := store (mapInc bpf id) a (some ⟨id, 1⟩)
        if e.insertErr ≠ 0 then some (e.insertErr, mapPut (store bpf' a none) id, mapRecords)
        else some (0, tableInsert bpf' id a, mapRecords ++ [a])

def forgetCounts : List Addr → Bpf → Option (Bpf × List (Option Addr) × Bool)
  | [], bpf => some (bpf, [], false)
  | a :: mapRecords, bpf =>
    (bpf.heap a).bind fun r =>
      let bpf' := store bpf a (some { r with count := r.count - 1 })
      if r.count - 1 ≠ 0 then (forgetCounts mapRecords bpf').map fun t => (t.1, none :: t.2.1, t.2.2)
      else (forgetCounts mapRecords (tableRemove bpf' r.mapId a)).map fun t => (t.1, some a :: t.2.1, true)

def forgetFree : List (Option Addr) → Bpf → Option Bpf
  | [], bpf => some bpf
  | none :: mapRecords, bpf => forgetFree mapRecords bpf
  | some a :: mapRecords, bpf =>
    (bpf.heap a).bind fun r => forgetFree mapRecords (store (mapPut bpf r.mapId) a none)

def nfpMapPtrsForget (bpf : Bpf) (mapRecords : List Addr) : Option Bpf :=
  (forgetCounts mapRecords bpf).bind fun t => if t.2.2 then forgetFree t.2.1 t.1 else some t.1

def recordLoop : List (Map × Attempt) → Bpf → List Addr → Option (Int × Bpf × List Addr)
  | [], bpf, mapRecords => some (0, bpf, mapRecords)
  | (map, e) :: usedMaps, bpf, mapRecords =>
    if map.offloadNeutral then
      (nfpMapPtrRecord bpf mapRecords map.id e).bind fun t =>
        if t.1 ≠ 0 then (nfpMapPtrsForget t.2.1 t.2.2).map fun bpf' => (t.1, bpf', [])
        else recordLoop usedMaps t.2.1 t.2.2
    else recordLoop usedMaps bpf mapRecords

def nfpMapPtrsRecord (bpf : Bpf) (usedMaps : List (Map × Attempt)) (array : Bool) : Option (Int × Bpf × List Addr) :=
  if usedMaps.countP (fun m => m.1.offloadNeutral) = 0 then some (0, bpf, [])
  else if array then recordLoop usedMaps bpf []
  else some (-enomem, bpf, [])

structure State where
  bpf : Bpf
  progs : List (List Addr)

inductive Op
  | translate (usedMaps : List (Map × Attempt)) (array : Bool)
  | destroy (i : Nat)

def step (s : State) : Op → Option State
  | .translate usedMaps array => (nfpMapPtrsRecord s.bpf usedMaps array).map fun t => ⟨t.2.1, s.progs ++ [t.2.2]⟩
  | .destroy i =>
    match s.progs[i]? with
    | none => some s
    | some mapRecords => (nfpMapPtrsForget s.bpf mapRecords).map fun bpf => ⟨bpf, s.progs.eraseIdx i⟩

def initial : State := ⟨⟨fun _ => none, fun _ => none, fun _ => 0⟩, []⟩

def slots (s : State) (a : Addr) : Nat := s.progs.flatten.count a

structure Exact (s : State) : Prop where
  count : ∀ id a, s.bpf.mapsNeutral id = some a → ∃ r, s.bpf.heap a = some r ∧ r.mapId = id ∧ r.count.toNat = slots s a
  present : ∀ a, (∃ id, s.bpf.mapsNeutral id = some a) ↔ 0 < slots s a
  refs : ∀ id, s.bpf.mapRefs id = if (s.bpf.mapsNeutral id).isSome then 1 else 0

def neutralIds (usedMaps : List (Map × Attempt)) : List MapId :=
    (usedMaps.filter fun m => m.1.offloadNeutral).map fun m => m.1.id

def liveSlots (bpf : Bpf) (held : List Addr) (id : MapId) : Nat := (bpf.mapsNeutral id).elim 0 fun a => held.count a

def Room (bpf : Bpf) (held : List Addr) (ids : List MapId) : Prop :=
  ∀ id, liveSlots bpf held id + ids.count id < 2 ^ 32

def Fits (s : State) : Op → Prop
  | .translate usedMaps _ => Room s.bpf s.progs.flatten (neutralIds usedMaps)
  | .destroy _ => True

structure Counted (bpf : Bpf) (held : List Addr) : Prop where
  alive : ∀ a ∈ held, ∃ r, bpf.heap a = some r
  record : ∀ a r, bpf.heap a = some r →
    a ∈ held ∧ r.count = BitVec.ofNat 32 (held.count a) ∧ bpf.mapsNeutral r.mapId = some a
  table : ∀ id a, bpf.mapsNeutral id = some a → ∃ r, bpf.heap a = some r ∧ r.mapId = id
  refs : ∀ id, bpf.mapRefs id = if (bpf.mapsNeutral id).isSome then 1 else 0
  fits : ∀ a, held.count a < 2 ^ 32

def SameMaps (held : List Addr) (bpf bpf' : Bpf) : Prop :=
  ∀ a ∈ held, (bpf.heap a).map Record.mapId = (bpf'.heap a).map Record.mapId

variable {progs : List (List Addr)} {bpf'' : Bpf} {a b : Addr} {ds held records : List Addr} {r : Record}
  {ids : List MapId} {usedMaps : List (Map × Attempt)} {s : State}

section Basic

variable {bpf bpf' : Bpf} {held : List Addr} {a b : Addr} {id : MapId}

theorem store_self (bpf : Bpf) (a : Addr) (r : Option Record) : (store bpf a r).heap a = r := update_self ..

theorem store_other (bpf : Bpf) (r : Option Record) (h : b ≠ a) : (store bpf a r).heap b = bpf.heap b :=
    update_of_ne h ..

theorem store_none (bpf : Bpf) (h : bpf.heap a = none) (r : Option Record) : store (store bpf a r) a none = bpf := by
  simp [store, update_idem, ← h, update_eq_self]

theorem mapPut_mapInc (bpf : Bpf) (id : MapId) : mapPut (mapInc bpf id) id = bpf := by
  simp [mapPut, mapInc, update_idem, update_eq_self]

theorem Counted.perm {held' : List Addr} (h : Counted bpf held) (hp : held.Perm held') : Counted bpf held' where
  alive a ha := h.alive a (hp.mem_iff.mpr ha)
  record a r hr := by
    obtain ⟨hm, hc, ht⟩ := h.record a r hr
    exact ⟨hp.mem_iff.mp hm, hp.count_eq a ▸ hc, ht⟩
  table := h.table
  refs := h.refs
  fits a := hp.count_eq a ▸ h.fits a

theorem Counted.unheld (h : Counted bpf held) (ha : a ∉ held) : bpf.heap a = none := by
  cases hr : bpf.heap a with
  | none => rfl
  | some r => exact absurd (h.record a r hr).1 ha

theorem Counted.held_of_table (h : Counted bpf held) (ht : bpf.mapsNeutral id = some a) : a ∈ held := by
  obtain ⟨r, hr, -⟩ := h.table id a ht
  exact (h.record a r hr).1

theorem Counted.exact (h : Counted bpf progs.flatten) : Exact ⟨bpf, progs⟩ where
  count id a ht := by
    obtain ⟨r, hr, hid⟩ := h.table id a ht
    refine ⟨r, hr, hid, ?_⟩
    rw [(h.record a r hr).2.1, BitVec.toNat_ofNat, Nat.mod_eq_of_lt (h.fits a), slots]
  present a := by
    rw [slots, count_pos_iff]
    refine ⟨fun ⟨id, ht⟩ => h.held_of_table ht, fun ha => ?_⟩
    obtain ⟨r, hr⟩ := h.alive a ha
    exact ⟨r.mapId, (h.record a r hr).2.2⟩
  refs := h.refs

theorem SameMaps.trans (h : SameMaps held bpf bpf') (h' : SameMaps held bpf' bpf'') : SameMaps held bpf bpf'' :=
  fun a ha => (h a ha).trans (h' a ha)

theorem Counted.heap_unique (h : Counted bpf held) (h' : Counted bpf' held) (hs : SameMaps held bpf bpf') :
    bpf.heap = bpf'.heap := by
  funext a
  by_cases ha : a ∈ held
  · obtain ⟨r, hr⟩ := h.alive a ha
    obtain ⟨r', hr'⟩ := h'.alive a ha
    have hid : r.mapId = r'.mapId := by simpa [hr, hr'] using hs a ha
    have hc : r.count = r'.count := (h.record a r hr).2.1.trans (h'.record a r' hr').2.1.symm
    rw [hr, hr']
    cases r
    cases r'
    cases hid
    cases hc
    rfl
  · rw [h.unheld ha, h'.unheld ha]

theorem Counted.table_iff (h : Counted bpf held) :
    bpf.mapsNeutral id = some a ↔ ∃ r, bpf.heap a = some r ∧ r.mapId = id := by
  refine ⟨h.table id a, ?_⟩
  rintro ⟨r, hr, rfl⟩
  exact (h.record a r hr).2.2

-- the records and the references are determined by the slots, up to which map each record is for
theorem Counted.unique (h : Counted bpf held) (h' : Counted bpf' held) (hs : SameMaps held bpf bpf') : bpf = bpf' := by
  have hheap := h.heap_unique h' hs
  have htable : bpf.mapsNeutral = bpf'.mapsNeutral := by
    funext id
    refine ext fun a => ?_
    rw [h.table_iff, h'.table_iff, hheap]
  have hrefs : bpf.mapRefs = bpf'.mapRefs := by
    funext id
    rw [h.refs, h'.refs, htable]
  cases bpf
  cases bpf'
  cases hheap
  cases htable
  cases hrefs
  rfl

end Basic

section Forget

variable {bpf : Bpf}

-- what the first pass needs of the slots it has still to visit
structure Pending (bpf : Bpf) (ds held : List Addr) : Prop where
  record : ∀ a ∈ ds, ∃ r, bpf.heap a = some r ∧ r.count = BitVec.ofNat 32 ((ds ++ held).count a) ∧
    bpf.mapsNeutral r.mapId = some a
  table : ∀ id a, bpf.mapsNeutral id = some a → ∃ r, bpf.heap a = some r ∧ r.mapId = id
  fits : ∀ a, (ds ++ held).count a < 2 ^ 32

structure Decremented (bpf : Bpf) (ds held : List Addr) (bpf' : Bpf) (dropped : List Addr) : Prop where
  refs : bpf'.mapRefs = bpf.mapRefs
  heap : ∀ a, bpf'.heap a = (bpf.heap a).map fun r => { r with count := r.count - BitVec.ofNat 32 (ds.count a) }
  table : ∀ id a, bpf'.mapsNeutral id = some a ↔ bpf.mapsNeutral id = some a ∧ ¬(a ∈ ds ∧ a ∉ held)
  nodup : dropped.Nodup
  dropped : ∀ a, a ∈ dropped ↔ a ∈ ds ∧ a ∉ held

theorem ofNat_succ_sub (n : Nat) : BitVec.ofNat 32 (n + 1) - 1 = BitVec.ofNat 32 n := by
  rw [BitVec.ofNat_add]
  exact BitVec.add_sub_cancel _ _

theorem ofNat_eq_zero {n : Nat} (h : n < 2 ^ 32) : BitVec.ofNat 32 n = 0 ↔ n = 0 := by
  rw [← BitVec.toNat_inj, BitVec.toNat_ofNat, Nat.mod_eq_of_lt h]
  rfl

def decrement (bpf : Bpf) (a : Addr) (r : Record) : Bpf := store bpf a (some { r with count := r.count - 1 })

theorem Pending.decrement (h : Pending bpf (a :: ds) held) (hr : bpf.heap a = some r) :
    Pending (decrement bpf a r) ds held where
  record b hb := by
    obtain ⟨r', hr', hc, ht⟩ := h.record b (mem_cons_of_mem a hb)
    rw [cons_append] at hc
    rcases eq_or_ne b a with rfl | hab
    · cases hr.symm.trans hr'
      refine ⟨_, store_self .., ?_, ht⟩
      rw [hc, count_cons_self, ofNat_succ_sub]
    · refine ⟨r', (store_other _ _ hab).trans hr', ?_, ht⟩
      rw [hc, count_cons_of_ne (Ne.symm hab)]
  table id b hb := by
    obtain ⟨r', hr', hid⟩ := h.table id b hb
    rcases eq_or_ne b a with rfl | hab
    · cases hr.symm.trans hr'
      exact ⟨_, store_self .., hid⟩
    · exact ⟨r', (store_other _ _ hab).trans hr', hid⟩
  fits b := lt_of_le_of_lt (Sublist.count_le b (sublist_cons_self a (ds ++ held))) (h.fits b)

theorem tableRemove_table {id : MapId} (h : bpf.mapsNeutral id = some a)
    (ht : ∀ id' , bpf.mapsNeutral id' = some a → id' = id) (id' : MapId) (b : Addr) :
    (tableRemove bpf id a).mapsNeutral id' = some b ↔ bpf.mapsNeutral id' = some b ∧ b ≠ a := by
  rw [tableRemove, if_pos h]
  rcases eq_or_ne id' id with rfl | hid
  · simp [h, Ne, eq_comm]
  simp only [update_of_ne hid]
  refine ⟨fun hb => ⟨hb, ?_⟩, And.left⟩
  rintro rfl
  exact hid (ht id' hb)

theorem tableRemove_heap (id : MapId) (a : Addr) : (tableRemove bpf id a).heap = bpf.heap := by
  rw [tableRemove]
  split <;> rfl

theorem tableRemove_refs (id : MapId) (a : Addr) : (tableRemove bpf id a).mapRefs = bpf.mapRefs := by
  rw [tableRemove]
  split <;> rfl

theorem decrement_heap (hr : bpf.heap a = some r) (ds : List Addr) :
    (((decrement bpf a r).heap b).map fun r => { r with count := r.count - BitVec.ofNat 32 (ds.count b) }) =
      (bpf.heap b).map fun r => { r with count := r.count - BitVec.ofNat 32 ((a :: ds).count b) } := by
  rcases eq_or_ne b a with rfl | hab
  · rw [decrement, store_self, hr, map_some, map_some, count_cons_self, BitVec.ofNat_add]
    simp only [some.injEq, Record.mk.injEq, true_and]
    rw [BitVec.sub_sub, BitVec.add_comm]
    rfl
  · rw [decrement, store_other _ _ hab, count_cons_of_ne (Ne.symm hab)]

theorem forgetCounts_spec (h : Pending bpf ds held) :
    ∃ bpf' out freed, forgetCounts ds bpf = some (bpf', out, freed) ∧ Decremented bpf ds held bpf' out.reduceOption ∧
      (freed = false → out.reduceOption = []) := by
  induction ds generalizing bpf with
  | nil =>
    refine ⟨bpf, [], false, rfl, ⟨rfl, fun a => ?_, fun id a => ?_, nodup_nil, fun a => ?_⟩, fun _ => rfl⟩
    · cases bpf.heap a <;> simp
    · simp
    · simp [reduceOption_nil]
  | cons a ds ih =>
    obtain ⟨r, hr, hc, ht⟩ := h.record a mem_cons_self
    have hdec := h.decrement hr
    have hlt := h.fits a
    rw [cons_append, count_cons_self] at hc hlt
    have hcount : r.count - 1 = BitVec.ofNat 32 ((ds ++ held).count a) := by rw [hc, ofNat_succ_sub]
    have hzero : r.count - 1 = 0 ↔ a ∉ ds ++ held := by
      rw [hcount, ofNat_eq_zero (by omega), count_eq_zero]
    by_cases hn : a ∈ ds ++ held
    · obtain ⟨bpf', out, freed, hf, hd, hfree⟩ := ih hdec
      refine ⟨bpf', none :: out, freed, ?_, ⟨hd.refs, fun b => ?_, fun id b => ?_, hd.nodup, fun b => ?_⟩, hfree⟩
      · change (bpf.heap a).bind _ = _
        rw [hr, bind_some, if_pos (fun h0 => hzero.mp h0 hn)]
        exact congrArg (Option.map _) hf
      · rw [hd.heap, decrement_heap hr]
      · rw [hd.table]
        have : b ∈ ds ∧ b ∉ held ↔ b ∈ a :: ds ∧ b ∉ held := by grind
        rw [this]
        rfl
      · rw [reduceOption_cons_of_none, hd.dropped]
        grind
    · -- the last slot of the record: it leaves the table now and memory in the second pass
      have ht1 : (decrement bpf a r).mapsNeutral r.mapId = some a := ht
      have hinj (id' : MapId) (h' : (decrement bpf a r).mapsNeutral id' = some a) : id' = r.mapId := by
        obtain ⟨r', hr', hid⟩ := h.table id' a h'
        cases hr.symm.trans hr'
        exact hid.symm
      have hrem := tableRemove_table ht1 hinj
      have hpend : Pending (tableRemove (decrement bpf a r) r.mapId a) ds held := by
        refine ⟨fun b hb => ?_, fun id b hb => ?_, hdec.fits⟩
        · obtain ⟨r', hr', hc', ht'⟩ := hdec.record b hb
          refine ⟨r', (congrFun (tableRemove_heap r.mapId a) b).trans hr', hc', (hrem _ _).mpr ⟨ht', ?_⟩⟩
          rintro rfl
          exact hn (mem_append_left held hb)
        · rw [tableRemove_heap]
          exact hdec.table id b ((hrem id b).mp hb).1
      obtain ⟨bpf', out, freed, hf, hd, hfree⟩ := ih hpend
      refine ⟨bpf', some a :: out, true, ?_, ⟨?_, fun b => ?_, fun id b => ?_, ?_, fun b => ?_⟩, (nomatch ·)⟩
      · change (bpf.heap a).bind _ = _
        rw [hr, bind_some, if_neg (not_not.mpr (hzero.mpr hn))]
        exact congrArg (Option.map _) hf
      · rw [hd.refs, tableRemove_refs]
        rfl
      · rw [hd.heap, tableRemove_heap, decrement_heap hr]
      · rw [hd.table, hrem]
        change (bpf.mapsNeutral id = some b ∧ b ≠ a) ∧ _ ↔ _
        grind
      · rw [reduceOption_cons_of_some, nodup_cons, hd.dropped]
        exact ⟨fun h' => hn (mem_append_left held h'.1), hd.nodup⟩
      · rw [reduceOption_cons_of_some, mem_cons, hd.dropped]
        grind

def Injective (bpf : Bpf) : Prop :=
  ∀ a b r r', bpf.heap a = some r → bpf.heap b = some r' → r.mapId = r'.mapId → a = b

structure Referenced (bpf : Bpf) : Prop where
  one : ∀ a r, bpf.heap a = some r → bpf.mapRefs r.mapId = 1
  zero : ∀ id, (∀ a r, bpf.heap a = some r → r.mapId ≠ id) → bpf.mapRefs id = 0

def release (bpf : Bpf) (a : Addr) (r : Record) : Bpf := store (mapPut bpf r.mapId) a none

theorem release_heap {r' : Record} : (release bpf a r).heap b = some r' ↔ b ≠ a ∧ bpf.heap b = some r' := by
  rcases eq_or_ne b a with rfl | hab
  · simp [release, store_self]
  · rw [release, store_other _ none hab]
    exact ⟨fun h => ⟨hab, h⟩, And.right⟩

theorem Injective.release (h : Injective bpf) (r : Record) : Injective (release bpf a r) :=
  fun b c rb rc hb hc hid => h b c rb rc (release_heap.mp hb).2 (release_heap.mp hc).2 hid

theorem Referenced.release (h : Referenced bpf) (hi : Injective bpf) (hr : bpf.heap a = some r) :
    Referenced (release bpf a r) where
  one b r' hb := by
    obtain ⟨hab, hb⟩ := release_heap.mp hb
    have hne : r'.mapId ≠ r.mapId := fun hid => hab (hi b a r' r hb hr hid)
    exact (update_of_ne hne ..).trans (h.one b r' hb)
  zero id hid := by
    by_cases hrid : id = r.mapId
    · subst hrid
      refine (update_self ..).trans ?_
      rw [h.one a r hr, Int.sub_self]
    · refine (update_of_ne hrid ..).trans (h.zero id fun b r' hb heq => ?_)
      refine hid b r' (release_heap.mpr ⟨?_, hb⟩) heq
      rintro rfl
      cases hr.symm.trans hb
      exact hrid heq.symm

theorem forgetFree_spec {out : List (Option Addr)} (hi : Injective bpf) (hr : Referenced bpf)
    (hn : out.reduceOption.Nodup) (ha : ∀ a ∈ out.reduceOption, ∃ r, bpf.heap a = some r) :
    ∃ bpf', forgetFree out bpf = some bpf' ∧ bpf'.mapsNeutral = bpf.mapsNeutral ∧ Referenced bpf' ∧
      ∀ a, bpf'.heap a = if a ∈ out.reduceOption then none else bpf.heap a := by
  induction out generalizing bpf with
  | nil => exact ⟨bpf, rfl, rfl, hr, fun a => by simp [reduceOption_nil]⟩
  | cons o out ih =>
    cases o with
    | none => exact ih hi hr hn ha
    | some a =>
      rw [reduceOption_cons_of_some] at hn ha ⊢
      obtain ⟨hna, hn⟩ := nodup_cons.mp hn
      obtain ⟨r, har⟩ := ha a mem_cons_self
      obtain ⟨bpf', hf, ht, href, hheap⟩ := ih (hi.release r) (hr.release hi har) hn fun b hb => by
        obtain ⟨r', hr'⟩ := ha b (mem_cons_of_mem a hb)
        exact ⟨r', release_heap.mpr ⟨fun hba => hna (hba ▸ hb), hr'⟩⟩
      refine ⟨bpf', ?_, ht, href, fun b => ?_⟩
      · rw [forgetFree, har]
        exact hf
      · rw [hheap]
        rcases eq_or_ne b a with rfl | hab
        · rw [if_neg hna, if_pos mem_cons_self]
          exact store_self ..
        · rw [release, store_other _ none hab]
          simp [hab, mapPut]

theorem Counted.pending (h : Counted bpf (ds ++ held)) : Pending bpf ds held where
  record a ha := by
    obtain ⟨r, hr⟩ := h.alive a (mem_append_left held ha)
    exact ⟨r, hr, (h.record a r hr).2⟩
  table := h.table
  fits := h.fits

theorem Counted.injective (h : Counted bpf held) : Injective bpf := by
  intro a b r r' ha hb hid
  have hta := (h.record a r ha).2.2
  rw [hid, (h.record b r' hb).2.2] at hta
  exact (some.inj hta).symm

theorem Counted.referenced (h : Counted bpf held) : Referenced bpf where
  one a r hr := by rw [h.refs, (h.record a r hr).2.2]; rfl
  zero id hid := by
    rw [h.refs]
    cases ht : bpf.mapsNeutral id with
    | none => rfl
    | some a =>
      obtain ⟨r, hr, hrid⟩ := h.table id a ht
      exact absurd hrid (hid a r hr)

variable {bpf' : Bpf} {ds held dropped : List Addr}

section

variable (h : Decremented bpf ds held bpf' dropped)

include h

theorem Decremented.injective (hi : Injective bpf) : Injective bpf' := by
  intro a b r r' ha hb hid
  rw [h.heap, map_eq_some_iff] at ha hb
  obtain ⟨ra, hra, rfl⟩ := ha
  obtain ⟨rb, hrb, rfl⟩ := hb
  exact hi a b ra rb hra hrb hid

theorem Decremented.referenced (hr : Referenced bpf) : Referenced bpf' where
  one a r ha := by
    rw [h.heap, map_eq_some_iff] at ha
    obtain ⟨ra, hra, rfl⟩ := ha
    rw [h.refs]
    exact hr.one a ra hra
  zero id hid := by
    rw [h.refs]
    refine hr.zero id ?_
    intro a r ha
    refine hid a { r with count := r.count - BitVec.ofNat 32 (ds.count a) } ?_
    rw [h.heap, ha]
    rfl

theorem Decremented.counted (hc : Counted bpf (ds ++ held))
    (ht : bpf''.mapsNeutral = bpf'.mapsNeutral) (hr : Referenced bpf'')
    (hheap : ∀ a, bpf''.heap a = if a ∈ dropped then none else bpf'.heap a) : Counted bpf'' held := by
  have hmem (a : Addr) (hdrop : a ∉ dropped) (ha : a ∈ ds ++ held) : a ∈ held := by
    rw [h.dropped, not_and, not_not] at hdrop
    exact (mem_append.mp ha).elim hdrop id
  have hrecord (a : Addr) (r : Record) (ha : bpf''.heap a = some r) :
      a ∈ held ∧ r.count = BitVec.ofNat 32 (held.count a) ∧ bpf''.mapsNeutral r.mapId = some a := by
    rw [hheap] at ha
    split at ha
    · cases ha
    next hdrop =>
      rw [h.heap, map_eq_some_iff] at ha
      obtain ⟨ra, hra, rfl⟩ := ha
      obtain ⟨hm, hcount, htab⟩ := hc.record a ra hra
      refine ⟨hmem a hdrop hm, ?_, ?_⟩
      · rw [hcount, count_append, BitVec.ofNat_add, BitVec.add_comm]
        exact BitVec.add_sub_cancel _ _
      · rw [ht, h.table]
        exact ⟨htab, fun h' => h'.2 (hmem a hdrop hm)⟩
  have htable (id : MapId) (a : Addr) (ha : bpf''.mapsNeutral id = some a) :
      ∃ r, bpf''.heap a = some r ∧ r.mapId = id := by
    rw [ht, h.table] at ha
    obtain ⟨r, hr, hid⟩ := hc.table id a ha.1
    rw [hheap, if_neg (fun hd => ha.2 ((h.dropped a).mp hd)), h.heap, hr]
    exact ⟨_, rfl, hid⟩
  refine ⟨fun a ha => ?_, hrecord, htable, fun id => ?_, fun a => ?_⟩
  · obtain ⟨r, hr⟩ := hc.alive a (mem_append_right ds ha)
    rw [hheap, if_neg (fun hd => ((h.dropped a).mp hd).2 ha), h.heap, hr]
    exact ⟨_, rfl⟩
  · cases hid : bpf''.mapsNeutral id with
    | none =>
      refine hr.zero id fun a r ha heq => ?_
      rw [← heq, (hrecord a r ha).2.2] at hid
      cases hid
    | some a =>
      obtain ⟨r, ha, rfl⟩ := htable id a hid
      exact hr.one a r ha
  · have := hc.fits a
    rw [count_append] at this
    omega

theorem Decremented.sameMaps (hheap : ∀ a, bpf''.heap a = if a ∈ dropped then none else bpf'.heap a) :
    SameMaps held bpf bpf'' := by
  intro a ha
  rw [hheap, if_neg (fun hd => ((h.dropped a).mp hd).2 ha), h.heap, Option.map_map]
  rfl

end

theorem nfpMapPtrsForget_spec (hc : Counted bpf (ds ++ held)) :
    ∃ bpf'', nfpMapPtrsForget bpf ds = some bpf'' ∧ Counted bpf'' held ∧ SameMaps held bpf bpf'' := by
  obtain ⟨bpf', out, freed, hf, hd, hfree⟩ := forgetCounts_spec hc.pending
  rw [nfpMapPtrsForget, hf, bind_some]
  have href := hd.referenced hc.referenced
  cases freed with
  | false =>
    have hheap (a : Addr) : bpf'.heap a = if a ∈ out.reduceOption then none else bpf'.heap a := by
      rw [hfree rfl, if_neg not_mem_nil]
    exact ⟨bpf', rfl, hd.counted hc rfl href hheap, hd.sameMaps hheap⟩
  | true =>
    obtain ⟨bpf'', hff, ht, href'', hheap⟩ := forgetFree_spec (hd.injective hc.injective) href hd.nodup fun a ha => by
      obtain ⟨r, hr⟩ := hc.alive a (mem_append_left held ((hd.dropped a).mp ha).1)
      rw [hd.heap, hr]
      exact ⟨_, rfl⟩
    exact ⟨bpf'', hff, hd.counted hc ht href'' hheap, hd.sameMaps hheap⟩

end Forget

section Record

variable {bpf : Bpf} {held : List Addr} {id : MapId}

theorem kmalloc_free {e : Attempt} (h : kmalloc bpf e = some a) : bpf.heap a = none := by
  rw [kmalloc, filter_eq_some_iff] at h
  exact isNone_iff_eq_none.mp h.2

-- the slots that will exist once `id` and then `ids` have been recorded
theorem Counted.reuse (h : Counted bpf held) (hr : bpf.heap a = some r) (ht : bpf.mapsNeutral id = some a)
    (hroom : Room bpf held (id :: ids)) : Counted (store bpf a (some { r with count := r.count + 1 })) (a :: held) where
  alive b hb := by
    rcases eq_or_ne b a with rfl | hab
    · exact ⟨_, store_self ..⟩
    · rw [store_other _ _ hab]
      exact h.alive b ((mem_cons.mp hb).resolve_left hab)
  record b r' hb := by
    rcases eq_or_ne b a with rfl | hab
    · rw [store_self] at hb
      cases hb
      obtain ⟨-, hc, ht⟩ := h.record b r hr
      refine ⟨mem_cons_self, ?_, ht⟩
      rw [count_cons_self, BitVec.ofNat_add, ← hc]
      rfl
    · rw [store_other _ _ hab] at hb
      obtain ⟨hm, hc, ht⟩ := h.record b r' hb
      refine ⟨mem_cons_of_mem a hm, ?_, ht⟩
      rw [hc, count_cons_of_ne (Ne.symm hab)]
  table id' b hb := by
    obtain ⟨r', hr', hid⟩ := h.table id' b hb
    rcases eq_or_ne b a with rfl | hab
    · cases hr.symm.trans hr'
      exact ⟨_, store_self .., hid⟩
    · exact ⟨r', (store_other _ _ hab).trans hr', hid⟩
  refs := h.refs
  fits b := by
    rcases eq_or_ne b a with rfl | hab
    · have := hroom id
      rw [liveSlots, ht, count_cons_self, elim_some] at this
      rw [count_cons_self]
      omega
    · rw [count_cons_of_ne (Ne.symm hab)]
      exact h.fits b

def added (bpf : Bpf) (id : MapId) (a : Addr) : Bpf := tableInsert (store (mapInc bpf id) a (some ⟨id, 1⟩)) id a

theorem Counted.insert (h : Counted bpf held) (ha : bpf.heap a = none) (hid : bpf.mapsNeutral id = none) :
    Counted (added bpf id a) (a :: held) := by
  have hnot : a ∉ held := fun hm => by
    obtain ⟨r, hr⟩ := h.alive a hm
    rw [ha] at hr
    cases hr
  have hother (b : Addr) (hab : b ≠ a) : (added bpf id a).heap b = bpf.heap b := store_other (mapInc bpf id) _ hab
  have hself : (added bpf id a).heap a = some ⟨id, 1⟩ := store_self (mapInc bpf id) ..
  refine ⟨fun b hb => ?_, fun b r hb => ?_, fun id' b hb => ?_, fun id' => ?_, fun b => ?_⟩
  · rcases eq_or_ne b a with rfl | hab
    · exact ⟨_, hself⟩
    · rw [hother b hab]
      exact h.alive b ((mem_cons.mp hb).resolve_left hab)
  · rcases eq_or_ne b a with rfl | hab
    · rw [hself] at hb
      cases hb
      refine ⟨mem_cons_self, ?_, update_self ..⟩
      rw [count_cons_self, count_eq_zero.mpr hnot]
      rfl
    · rw [hother b hab] at hb
      obtain ⟨hm, hc, ht⟩ := h.record b r hb
      refine ⟨mem_cons_of_mem a hm, ?_, (update_of_ne (fun heq => ?_) ..).trans ht⟩
      · rw [hc, count_cons_of_ne (Ne.symm hab)]
      · rw [heq, hid] at ht
        cases ht
  · rcases eq_or_ne id' id with rfl | hidid
    · cases (update_self ..).symm.trans hb
      exact ⟨_, hself, rfl⟩
    have hb : bpf.mapsNeutral id' = some b := (update_of_ne hidid ..).symm.trans hb
    obtain ⟨r, hr, hrid⟩ := h.table id' b hb
    refine ⟨r, (hother b ?_).trans hr, hrid⟩
    rintro rfl
    rw [ha] at hr
    cases hr
  · rcases eq_or_ne id' id with rfl | hidid
    · have hrefs : (added bpf id' a).mapRefs id' = bpf.mapRefs id' + 1 := update_self ..
      rw [hrefs, h.refs, hid, show (added bpf id' a).mapsNeutral id' = some a from update_self ..]
      rfl
    · have hrefs : (added bpf id a).mapRefs id' = bpf.mapRefs id' := update_of_ne hidid ..
      rw [hrefs, h.refs, show (added bpf id a).mapsNeutral id' = bpf.mapsNeutral id' from update_of_ne hidid ..]
  · rcases eq_or_ne b a with rfl | hab
    · rw [count_cons_self, count_eq_zero.mpr hnot]
      decide
    · rw [count_cons_of_ne (Ne.symm hab)]
      exact h.fits b

structure Added (bpf : Bpf) (held : List Addr) (id : MapId) (bpf' : Bpf) (a : Addr) : Prop where
  counted : Counted bpf' (a :: held)
  sameMaps : SameMaps held bpf bpf'
  self : bpf'.mapsNeutral id = some a
  other : ∀ id', id' ≠ id → bpf'.mapsNeutral id' = bpf.mapsNeutral id'

theorem nfpMapPtrRecord_spec (h : Counted bpf held) (hroom : Room bpf held (id :: ids)) (records : List Addr)
    (e : Attempt) :
    (∃ err, err ≠ 0 ∧ nfpMapPtrRecord bpf records id e = some (err, bpf, records)) ∨
      ∃ bpf' a, nfpMapPtrRecord bpf records id e = some (0, bpf', records ++ [a]) ∧ Added bpf held id bpf' a := by
  rw [nfpMapPtrRecord]
  cases ht : bpf.mapsNeutral id with
  | some a =>
    obtain ⟨r, hr, -⟩ := h.table id a ht
    refine .inr ⟨_, a, ?_, h.reuse hr ht hroom, fun b _ => ?_, ht, fun _ _ => rfl⟩
    · simp only [hr, map_some]
    · rcases eq_or_ne b a with rfl | hab
      · rw [store_self, hr]
        rfl
      · rw [store_other _ _ hab]
  | none =>
    by_cases hinc : e.incErr ≠ 0
    · exact .inl ⟨e.incErr, hinc, if_pos hinc⟩
    rw [if_neg hinc]
    cases hk : kmalloc bpf e with
    | none => exact .inl ⟨-enomem, by decide, by rw [mapPut_mapInc]⟩
    | some a =>
      have ha := kmalloc_free hk
      dsimp only
      split_ifs with hins
      · refine .inl ⟨e.insertErr, hins, ?_⟩
        rw [store_none (mapInc bpf id) ha, mapPut_mapInc]
      refine .inr ⟨_, a, rfl, h.insert ha ht, fun b hb => ?_, update_self .., fun id' hne => ?_⟩
      · have hab : b ≠ a := fun hab => by
          obtain ⟨r, hr⟩ := h.alive b hb
          rw [hab, ha] at hr
          cases hr
        exact congrArg _ (store_other (mapInc bpf id) _ hab).symm
      · exact update_of_ne hne ..

theorem Added.room {bpf' : Bpf} (h : Added bpf held id bpf' a) (hc : Counted bpf held)
    (hroom : Room bpf held (id :: ids)) : Room bpf' (a :: held) ids := by
  intro id'
  have hr := hroom id'
  rcases eq_or_ne id' id with rfl | hid
  · rw [liveSlots, h.self, elim_some, count_cons_self]
    rw [count_cons_self] at hr
    cases ht : bpf.mapsNeutral id' with
    | some b =>
      obtain ⟨r, hrb, hrid⟩ := hc.table id' b ht
      have hsame := h.sameMaps b (hc.held_of_table ht)
      rw [hrb] at hsame
      obtain ⟨r', hr', hid'⟩ := map_eq_some_iff.mp hsame.symm
      have htb := (h.counted.record b r' hr').2.2
      rw [hid', hrid, h.self] at htb
      cases htb
      rw [liveSlots, ht, elim_some] at hr
      omega
    | none =>
      have hnot : a ∉ held := fun hm => by
        obtain ⟨r, hra⟩ := hc.alive a hm
        have hsame := h.sameMaps a hm
        rw [hra] at hsame
        obtain ⟨r', hr', hid'⟩ := map_eq_some_iff.mp hsame.symm
        obtain ⟨r'', hr'', hid''⟩ := h.counted.table id' a h.self
        cases hr'.symm.trans hr''
        have := (hc.record a r hra).2.2
        rw [← hid', hid'', ht] at this
        cases this
      rw [count_eq_zero.mpr hnot]
      omega
  · rw [count_cons_of_ne (Ne.symm hid)] at hr
    rw [liveSlots, h.other id' hid]
    cases ht : bpf.mapsNeutral id' with
    | none =>
      rw [liveSlots, ht] at hr
      exact hr
    | some b =>
      rw [liveSlots, ht, elim_some] at hr
      have hab : a ≠ b := fun hab => by
        obtain ⟨r, hra, hid'⟩ := h.counted.table id a h.self
        obtain ⟨r', hr', hid''⟩ := h.counted.table id' b ((h.other id' hid).trans ht)
        subst hab
        cases hra.symm.trans hr'
        exact hid (hid''.symm.trans hid')
      rw [elim_some, count_cons_of_ne hab]
      exact hr

theorem neutralIds_cons {m : Map × Attempt} :
    neutralIds (m :: usedMaps) = if m.1.offloadNeutral then m.1.id :: neutralIds usedMaps else neutralIds usedMaps := by
  rw [neutralIds, neutralIds, filter_cons]
  split <;> rfl

theorem recordLoop_spec {bpf₀ : Bpf} (h₀ : Counted bpf₀ held) (hc : Counted bpf (records ++ held))
    (hs : SameMaps held bpf₀ bpf) (hroom : Room bpf (records ++ held) (neutralIds usedMaps)) :
    (∃ err, err ≠ 0 ∧ recordLoop usedMaps bpf records = some (err, bpf₀, [])) ∨
      ∃ bpf' records', recordLoop usedMaps bpf records = some (0, bpf', records') ∧
        Counted bpf' (records' ++ held) := by
  induction usedMaps generalizing bpf records with
  | nil => exact .inr ⟨bpf, records, rfl, hc⟩
  | cons m usedMaps ih =>
    obtain ⟨map, e⟩ := m
    rw [neutralIds_cons] at hroom
    rw [recordLoop]
    split_ifs at hroom ⊢ with hn
    · rcases nfpMapPtrRecord_spec hc hroom records e with ⟨err, herr, hr⟩ | ⟨bpf', a, hr, hadd⟩
      · obtain ⟨bpf'', hf, hc'', hs''⟩ := nfpMapPtrsForget_spec hc
        have heq : bpf'' = bpf₀ := hc''.unique h₀ fun a ha => ((hs.trans hs'') a ha).symm
        refine .inl ⟨err, herr, ?_⟩
        rw [hr, bind_some, if_pos herr, hf, heq]
        rfl
      have hperm : (a :: (records ++ held)).Perm (records ++ [a] ++ held) := by
        rw [append_assoc]
        exact perm_middle.symm
      have hroom' := hadd.room hc hroom
      rw [hr, bind_some, if_neg (fun h => h rfl)]
      refine ih (hadd.counted.perm hperm) (hs.trans fun b hb => hadd.sameMaps b (mem_append_right records hb)) ?_
      intro id
      have := hroom' id
      rwa [liveSlots, show (fun b => (a :: (records ++ held)).count b) = fun b => (records ++ [a] ++ held).count b from
        funext fun b => hperm.count_eq b] at this
    · exact ih hc hs hroom

theorem nfpMapPtrsRecord_spec (h : Counted bpf held) (hroom : Room bpf held (neutralIds usedMaps)) (array : Bool) :
    (∃ err, err ≠ 0 ∧ nfpMapPtrsRecord bpf usedMaps array = some (err, bpf, [])) ∨
      ∃ bpf' records, nfpMapPtrsRecord bpf usedMaps array = some (0, bpf', records) ∧
        Counted bpf' (records ++ held) := by
  rw [nfpMapPtrsRecord]
  split_ifs
  · exact .inr ⟨bpf, [], rfl, h⟩
  · exact recordLoop_spec h h (fun _ _ => rfl) hroom
  · exact .inl ⟨-enomem, by decide, rfl⟩

end Record

theorem counted_initial : Counted initial.bpf initial.progs.flatten where
  alive _ ha := absurd ha List.not_mem_nil
  record _ _ hr := nomatch hr
  table _ _ ht := nomatch ht
  refs _ := rfl
  fits a := (show List.count a [] < 2 ^ 32 from Nat.two_pow_pos 32)

theorem flatten_eraseIdx {i : Nat} (h : progs[i]? = some records) :
    progs.flatten.Perm (records ++ (progs.eraseIdx i).flatten) := by
  induction progs generalizing i with
  | nil => cases h
  | cons p progs ih =>
    cases i with
    | zero =>
      cases h
      exact List.Perm.refl _
    | succ i =>
      exact ((ih h).append_left p).trans (perm_append_comm_assoc ..)

theorem step_counted {op : Op} (h : Counted s.bpf s.progs.flatten) (hf : Fits s op) :
    ∃ t, step s op = some t ∧ Counted t.bpf t.progs.flatten := by
  cases op with
  | translate usedMaps array =>
    have happ (bpf : Bpf) (records : List Addr) (hc : Counted bpf (records ++ s.progs.flatten)) :
        Counted bpf (s.progs ++ [records]).flatten := by
      rw [flatten_append, flatten_singleton]
      exact hc.perm perm_append_comm
    rw [step]
    rcases nfpMapPtrsRecord_spec h hf array with ⟨err, -, hr⟩ | ⟨bpf', records, hr, hc⟩
    · rw [hr]
      exact ⟨_, rfl, happ s.bpf [] h⟩
    · rw [hr]
      exact ⟨_, rfl, happ bpf' records hc⟩
  | destroy i =>
    rw [step]
    cases hp : s.progs[i]? with
    | none => exact ⟨s, rfl, h⟩
    | some records =>
      obtain ⟨bpf', hforget, hc, -⟩ := nfpMapPtrsForget_spec (h.perm (flatten_eraseIdx hp))
      exact ⟨⟨bpf', s.progs.eraseIdx i⟩, congrArg (Option.map _) hforget, hc⟩

theorem run_counted {ops : List Op} (h : Counted s.bpf s.progs.flatten) (hg : Guarded step Fits s ops) :
    ∃ t, run step s ops = some t ∧ Counted t.bpf t.progs.flatten := by
  induction ops generalizing s with
  | nil => exact ⟨s, rfl, h⟩
  | cons op ops ih =>
    obtain ⟨s', hs, hc⟩ := step_counted h hg.1
    obtain ⟨t, hr, ht⟩ := ih hc (hg.2 s' hs)
    exact ⟨t, run_cons.mpr ⟨s', hs, hr⟩, ht⟩

theorem neutral_counts_exact (ops : List Op) (hg : Guarded step Fits initial ops) :
    ∃ s, run step initial ops = some s ∧ Exact s ∧
      ∀ usedMaps array, Fits s (.translate usedMaps array) → ∃ err bpf records,
        nfpMapPtrsRecord s.bpf usedMaps array = some (err, bpf, records) ∧ (err ≠ 0 → bpf = s.bpf ∧ records = []) := by
  obtain ⟨s, hr, hc⟩ := run_counted counted_initial hg
  refine ⟨s, hr, hc.exact, fun usedMaps array hf => ?_⟩
  rcases nfpMapPtrsRecord_spec hc hf array with ⟨err, -, h⟩ | ⟨bpf', records, h, -⟩
  · exact ⟨err, s.bpf, [], h, fun _ => ⟨rfl, rfl⟩⟩
  · exact ⟨0, bpf', records, h, fun h0 => absurd rfl h0⟩

def shared : List (Map × Attempt) := [(⟨1, true⟩, ⟨0, some 7, 0⟩), (⟨2, false⟩, ⟨0, none, 0⟩)]

def failing : List (Map × Attempt) := [(⟨1, true⟩, ⟨0, none, 0⟩), (⟨3, true⟩, ⟨0, some 9, 17⟩)]

theorem room_short {bpf : Bpf} (h : held.length + ids.length < 2 ^ 32) : Room bpf held ids := by
  intro id
  have hids : ids.count id ≤ ids.length := count_le_length
  have hheld : liveSlots bpf held id ≤ held.length := by
    rw [liveSlots]
    cases bpf.mapsNeutral id with
    | none => exact Nat.zero_le _
    | some a => exact count_le_length
  omega

theorem shared_failing_exact :
    Guarded step Fits initial [.translate shared true, .translate failing true, .destroy 0] ∧
      ∃ s, run step initial [.translate shared true, .translate failing true, .destroy 0] = some s ∧ Exact s := by
  have hg : Guarded step Fits initial [.translate shared true, .translate failing true, .destroy 0] := by
    refine ⟨room_short (by decide), fun s hs => ⟨?_, fun _ _ => ⟨trivial, fun _ _ => trivial⟩⟩⟩
    cases hs
    exact room_short (by decide)
  obtain ⟨s, hr, hx, -⟩ := neutral_counts_exact _ hg
  exact ⟨hg, s, hr, hx⟩

end NfpDriver.Neutral
