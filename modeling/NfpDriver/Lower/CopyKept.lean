import NfpDriver.Lower.CopyExact

namespace NfpDriver.Lower

open Asm Adder Jit Bpf Machine Engine

def element (m : Meta) (len i : Nat) : Nat :=
  if m.ldstGatherLen < 0 then len - (i + 1) * bpfLdstBytes m.insn else i * bpfLdstBytes m.insn

def lastElement (m : Meta) (len : Nat) : Nat := element m len (len / bpfLdstBytes m.insn - 1)

section Element

variable {p : Prog} {m : Meta} {len : Nat} (hg : Gathered p m len)

include hg

omit hg in
theorem element_inside {i : Nat} (hi : i < len / bpfLdstBytes m.insn) :
    element m len i + bpfLdstBytes m.insn ≤ len := by
  have hle : (i + 1) * bpfLdstBytes m.insn ≤ len :=
    (Nat.mul_le_mul_right _ hi).trans (Nat.div_mul_le_self ..)
  rw [add_mul, one_mul] at hle
  rw [element]
  split
  · rw [add_mul, one_mul]
    omega
  · exact hle

theorem pairs_pos : 0 < len / bpfLdstBytes m.insn :=
  Nat.div_pos (by have := hg.pairs; omega) (bpfLdstBytes_pos m.insn)

theorem lastElement_eq : lastElement m len = if m.ldstGatherLen < 0 then 0 else len - bpfLdstBytes m.insn := by
  have hmul : len / bpfLdstBytes m.insn * bpfLdstBytes m.insn = len := Nat.div_mul_cancel hg.width
  rw [lastElement, element, Nat.sub_add_cancel (pairs_pos hg), Nat.sub_mul, hmul, Nat.sub_self, one_mul]

theorem lastElement_lt : lastElement m len < len := by
  have hin := element_inside (Nat.sub_lt (pairs_pos hg) one_pos)
  have hw := bpfLdstBytes_pos m.insn
  rw [lastElement]
  omega

end Element

section Original

def storeMeta (p : Prog) (m : Meta) : Meta := metaAt p.insns (m.pairedSt.getD 0)

def pairStep (p : Prog) (m : Meta) (k : Nat) (e : Engine) : Engine :=
  withMem e (writeBytes e.mem32 (destination p m e + BitVec.ofNat 32 k) (fun j => sourceByte m e (k + j))
    (bpfLdstBytes m.insn))

def afterPairs (p : Prog) (m : Meta) (len : Nat) : Nat → Engine → Engine
  | 0, e => e
  | i + 1, e => pairStep p m (element m len i) (afterPairs p m len i e)

def lastLoad (p : Prog) (m : Meta) (len : Nat) (e : Engine) : BitVec 64 :=
  leValue (sourceByte m (afterPairs p m len (len / bpfLdstBytes m.insn - 1) e)) (lastElement m len)
    (bpfLdstBytes m.insn)

-- a packet source is gathered only with a store through the same pointer id: the registers differ by the known offsets
def Placed (p : Prog) (m : Meta) (e : Engine) : Prop :=
  isWide m ∨ e.core.a (gpr (storeInsn p m).dstReg) - (storeMeta p m).ptr.off =
    e.core.a (gpr m.insn.srcReg) - m.ptr.off

def gap (p : Prog) (m : Meta) : BitVec 32 :=
  ((storeMeta p m).ptr.off + (storeInsn p m).off.signExtend 32) - (m.ptr.off + m.insn.off.signExtend 32)

-- where a byte at offset y from the source comes from after i pairs
def cameFrom (g : BitVec 32) (m : Meta) (len : Nat) : Nat → BitVec 32 → BitVec 32
  | 0, y => y
  | i + 1, y => cameFrom g m len i
      (if (y - g - BitVec.ofNat 32 (element m len i)).toNat < bpfLdstBytes m.insn then y - g else y)

end Original

def Reloads (p : Prog) (m : Meta) (len : Nat) : Prop :=
  ∀ e, Banked m e → Placed p m e → ∃ e', Does (nfpCppMemcpy p m).code e e' ∧
    Holding e' (gpr m.insn.dstReg) (lastLoad p m len e)

-- an earlier store of the chain reaches the last element
def Overtakes (p : Prog) (m : Meta) (len : Nat) : Prop :=
  if m.ldstGatherLen < 0 then 0 < - (gap p m).toInt ∧ - (gap p m).toInt < len
  else 0 < (gap p m).toInt ∧ (gap p m).toInt < len

def Trails (p : Prog) (m : Meta) (len : Nat) : Prop :=
  ∀ j < bpfLdstBytes m.insn, cameFrom (gap p m) m len (len / bpfLdstBytes m.insn - 1)
    (BitVec.ofNat 32 (lastElement m len + j)) = BitVec.ofNat 32 (reloadIndex m len + j)

instance (p : Prog) (m : Meta) (len : Nat) : Decidable (Overtakes p m len) := inferInstanceAs (Decidable (ite ..))

theorem bytes_le (insn : Insn) : bpfLdstBytes insn ≤ 8 := by
  rcases bpfLdstBytes_cases insn with h | h | h | h <;> omega

theorem size_cases (code : BitVec 8) :
    bpfSize code = bpfB ∨ bpfSize code = bpfH ∨ bpfSize code = bpfW ∨ bpfSize code = bpfDw := by
  revert code
  decide

def lanesFit (m : Meta) (len : Nat) : Prop :=
  (bpfLdstBytes m.insn = 1 → 0 ≤ m.ldstGatherLen ∨ len % 4 = 1) ∧
    (bpfLdstBytes m.insn = 2 → 0 ≤ m.ldstGatherLen ∨ len % 4 = 2) ∧
      (bpfLdstBytes m.insn = 4 → m.ldstGatherLen < 0)

section Index

variable {p : Prog} {m : Meta} {len : Nat} (hg : Gathered p m len)

include hg

theorem reloadIndex_lt : reloadIndex m len < 2 ^ 31 := by
  have hmost := hg.most
  have hlast : reloadLast m len ≤ 32 := by
    rw [reloadLast]
    split
    · omega
    · split <;> omega
  rw [reloadIndex]
  split
  · split <;> omega
  · split
    · split <;> omega
    · split <;> omega

theorem reloadIndex_iff : reloadIndex m len = lastElement m len ↔ lanesFit m len := by
  have hpairs := hg.pairs
  have hwidth := hg.width
  have hBH : bpfH ≠ bpfB := by decide
  have hBW : bpfW ≠ bpfB := by decide
  have hHW : bpfW ≠ bpfH := by decide
  have hBD : bpfDw ≠ bpfB := by decide
  have hHD : bpfDw ≠ bpfH := by decide
  have hWD : bpfDw ≠ bpfW := by decide
  rw [lastElement_eq hg, reloadIndex, reloadLast, lanesFit]
  rcases size_cases m.insn.code with hs | hs | hs | hs
  · have hw : bpfLdstBytes m.insn = 1 := by rw [bpfLdstBytes, hs]; rfl
    rw [hw] at hpairs hwidth ⊢
    rw [if_pos hs, hs, if_pos hBD.symm]
    split <;> split <;> omega
  · have hw : bpfLdstBytes m.insn = 2 := by rw [bpfLdstBytes, hs]; rfl
    rw [hw] at hpairs hwidth ⊢
    rw [hs, if_neg hBH, if_pos rfl, if_pos hHD.symm]
    split <;> split <;> omega
  · have hw : bpfLdstBytes m.insn = 4 := by rw [bpfLdstBytes, hs]; rfl
    rw [hw] at hpairs hwidth ⊢
    rw [hs, if_neg hBW, if_neg hHW, if_pos rfl]
    split <;> omega
  · have hw : bpfLdstBytes m.insn = 8 := bytes_dw hs
    rw [hw] at hpairs hwidth ⊢
    rw [hs, if_neg hBD, if_neg hHD, if_neg hWD, if_neg (not_not.mpr rfl)]
    split <;> omega

end Index

def markEngine (m : Meta) (k : Nat) : Engine :=
  memEngine (fun a => if a = m.insn.off.signExtend 32 + BitVec.ofNat 32 k then 1 else 0)
    (fun a => if a = m.insn.off.signExtend 40 + BitVec.ofNat 40 k then 1 else 0)

theorem markEngine_banked (m : Meta) (k : Nat) : Banked m (markEngine m k) := rfl

theorem source_mark {m : Meta} {k j : Nat} (hk : k < 2 ^ 31) (hj : j < 2 ^ 31) :
    sourceByte m (markEngine m k) j = if j = k then 1 else 0 := by
  have hiff : ∀ {w : Nat} (x : BitVec w), 32 ≤ w → (x + BitVec.ofNat w j = x + BitVec.ofNat w k ↔ j = k) := by
    intro w x hw
    refine ⟨fun h => ?_, fun h => by rw [h]⟩
    have hn := congrArg BitVec.toNat (add_left_cancel h)
    have hle : 2 ^ 32 ≤ 2 ^ w := Nat.pow_le_pow_right (by decide) hw
    rw [BitVec.toNat_ofNat, BitVec.toNat_ofNat, Nat.mod_eq_of_lt (by omega), Nat.mod_eq_of_lt (by omega)] at hn
    exact hn
  rw [sourceByte]
  split
  · rw [markEngine, memEngine_base]
    simp only [memEngine, zero_add, hiff _ (show 32 ≤ 40 by decide)]
  · change (if (0 : BitVec 32) + _ + _ = _ then (1 : BitVec 8) else 0) = _
    simp only [zero_add, hiff _ (le_refl 32)]

section Pairs

variable {p : Prog} {m : Meta} {len i : Nat} {e : Engine}

def sourceAt (m : Meta) (e : Engine) : BitVec 32 := e.core.a (gpr m.insn.srcReg) + m.insn.off.signExtend 32

theorem afterPairs_frame (i : Nat) :
    (afterPairs p m len i e).core = e.core ∧ (afterPairs p m len i e).mem40 = e.mem40 := by
  induction i with
  | zero => exact ⟨rfl, rfl⟩
  | succ i ih => exact ih

theorem lastLoad_wide (hw : isWide m) :
    lastLoad p m len e = leValue (sourceByte m e) (lastElement m len) (bpfLdstBytes m.insn) := by
  have hframe := @afterPairs_frame p m len e (len / bpfLdstBytes m.insn - 1)
  have hsource : sourceByte m (afterPairs p m len (len / bpfLdstBytes m.insn - 1) e) = sourceByte m e := by
    funext j
    rw [sourceByte, sourceByte, if_pos hw, if_pos hw, hframe.1, hframe.2]
  rw [lastLoad, hsource]

variable (hn : ¬isWide m)

include hn

theorem Placed.destination_eq (h : Placed p m e) : destination p m e = sourceAt m e + gap p m := by
  have hbase := h.resolve_left hn
  rw [destination, sourceAt, gap, ← sub_add_cancel (e.core.a (gpr (storeInsn p m).dstReg)) (storeMeta p m).ptr.off,
    hbase]
  ring

theorem sourceByte_narrow (j : Nat) : sourceByte m e j = e.mem32 (sourceAt m e + BitVec.ofNat 32 j) := if_neg hn

theorem afterPairs_mem (hd : destination p m e = sourceAt m e + gap p m) (i : Nat) (y : BitVec 32) :
    (afterPairs p m len i e).mem32 (sourceAt m e + y) = e.mem32 (sourceAt m e + cameFrom (gap p m) m len i y) := by
  induction i generalizing y with
  | zero => rfl
  | succ i ih =>
    have hw : bpfLdstBytes m.insn ≤ 2 ^ 32 := (bytes_le m.insn).trans (by decide)
    have hcore := (@afterPairs_frame p m len e i).1
    have hsrc : sourceAt m (afterPairs p m len i e) = sourceAt m e := by rw [sourceAt, sourceAt, hcore]
    have hdst : destination p m (afterPairs p m len i e) = sourceAt m e + gap p m := by
      rw [← hd, destination, destination, hcore]
    have hsub : sourceAt m e + y - (sourceAt m e + gap p m + BitVec.ofNat 32 (element m len i)) =
        y - gap p m - BitVec.ofNat 32 (element m len i) := by ring
    rw [afterPairs, pairStep, withMem]
    simp only [writeBytes_apply _ _ _ hw, hdst, hsub, cameFrom]
    split
    · have hback : BitVec.ofNat 32 (element m len i + (y - gap p m - BitVec.ofNat 32 (element m len i)).toNat) =
          y - gap p m := by
        rw [BitVec.ofNat_add, BitVec.ofNat_toNat, BitVec.setWidth_eq]
        ring
      rw [sourceByte_narrow hn, hsrc, hback, ih]
    · exact ih y

theorem lastLoad_byte (h : Placed p m e) {j : Nat} (hj : j < bpfLdstBytes m.insn) :
    byteOf (lastLoad p m len e) j = e.mem32 (sourceAt m e + cameFrom (gap p m) m len
      (len / bpfLdstBytes m.insn - 1) (BitVec.ofNat 32 (lastElement m len + j))) := by
  have hcore := (@afterPairs_frame p m len e (len / bpfLdstBytes m.insn - 1)).1
  rw [lastLoad, byteOf_leValue _ _ (hj.trans_le (bytes_le m.insn)), if_pos hj, sourceByte_narrow hn,
    show sourceAt m (afterPairs p m len _ e) = sourceAt m e by rw [sourceAt, sourceAt, hcore],
    afterPairs_mem hn (h.destination_eq hn)]

end Pairs

section Untouched

variable {p : Prog} {m : Meta} {len : Nat} (hg : Gathered p m len)

include hg

-- as offsets from the source, earlier elements and the last one are apart
theorem element_apart {i : Nat} (hi : i < len / bpfLdstBytes m.insn - 1) :
    if m.ldstGatherLen < 0 then lastElement m len + bpfLdstBytes m.insn ≤ element m len i
    else element m len i + bpfLdstBytes m.insn ≤ lastElement m len := by
  have hmul : len / bpfLdstBytes m.insn * bpfLdstBytes m.insn = len := Nat.div_mul_cancel hg.width
  have hle : (i + 2) * bpfLdstBytes m.insn ≤ len := by
    rw [← hmul]
    exact Nat.mul_le_mul_right _ (by omega)
  rw [add_mul] at hle
  rw [lastElement_eq hg, element]
  split
  · rw [add_mul]
    omega
  · omega

theorem cameFrom_untouched (hover : ¬Overtakes p m len) {j i : Nat} (hj : j < bpfLdstBytes m.insn)
    (hi : i ≤ len / bpfLdstBytes m.insn - 1) :
    cameFrom (gap p m) m len i (BitVec.ofNat 32 (lastElement m len + j)) =
      BitVec.ofNat 32 (lastElement m len + j) := by
  induction i with
  | zero => rfl
  | succ i ih =>
    have hapart := element_apart hg hi
    have hin := element_inside (show i < len / bpfLdstBytes m.insn by omega)
    have hlast : lastElement m len + bpfLdstBytes m.insn ≤ len :=
      element_inside (Nat.sub_lt (pairs_pos hg) one_pos)
    have hmost := hg.most
    have hw := bytes_le m.insn
    rw [cameFrom, if_neg, ih (by omega)]
    intro ht
    refine hover ?_
    have hgap := (gap p m).isLt
    rw [BitVec.toNat_sub, BitVec.toNat_sub, BitVec.toNat_ofNat, BitVec.toNat_ofNat] at ht
    rw [Overtakes, BitVec.toInt_eq_toNat_cond]
    split at hapart
    · rw [if_pos ‹_›]
      split <;> omega
    · rw [if_neg ‹_›]
      split <;> omega

theorem trails_iff (hover : ¬Overtakes p m len) : Trails p m len ↔ lanesFit m len := by
  rw [← reloadIndex_iff hg]
  have hlast := lastElement_lt hg
  have hmost := hg.most
  have hw := bpfLdstBytes_pos m.insn
  have hindex := reloadIndex_lt hg
  constructor
  · intro h
    have hfirst := h 0 hw
    rw [cameFrom_untouched hg hover hw le_rfl] at hfirst
    have hn := congrArg BitVec.toNat hfirst
    rw [BitVec.toNat_ofNat, BitVec.toNat_ofNat] at hn
    omega
  · intro h j hj
    rw [cameFrom_untouched hg hover hj le_rfl, h]

end Untouched

section Kept

variable {p : Prog} {m : Meta} {len : Nat} (hg : Gathered p m len)

include hg

theorem reloads_iff :
    Reloads p m len ↔ ∀ e, Banked m e → Placed p m e →
      leValue (loadedByte m e) (reloadIndex m len) (bpfLdstBytes m.insn) = lastLoad p m len e := by
  refine forall_congr' fun e => forall₂_congr fun hb hp => ?_
  obtain ⟨e1, hdoes, -, hhold⟩ := does_memcpy hg e
  constructor
  · rintro ⟨e2, hdoes', hhold'⟩
    rw [Does.unique hdoes hdoes'] at hhold
    rw [← hhold.a, hhold'.a]
  · intro h
    exact ⟨e1, hdoes, h ▸ hhold⟩

theorem wide_reloads_iff (hw : isWide m) : Reloads p m len ↔ 0 ≤ m.insn.off.toInt ∧ lanesFit m len := by
  have hlast := lastElement_lt hg
  have hmost := hg.most
  have hindex := reloadIndex_lt hg
  have hpos := bpfLdstBytes_pos m.insn
  rw [reloads_iff hg]
  constructor
  · intro h
    have hfirst := congrArg (byteOf · 0) (h (markEngine m (lastElement m len)) (markEngine_banked ..) (.inl hw))
    simp only [lastLoad_wide hw, byteOf_leValue _ _ (show 0 < 8 by decide), if_pos hpos, add_zero] at hfirst
    rw [source_mark (by omega) (by omega), if_pos rfl] at hfirst
    have hoff : 0 ≤ m.insn.off.toInt := by
      by_contra hneg
      rw [nonneg_iff, Bool.not_eq_false] at hneg
      rw [markEngine, wide_misses hw hneg (by omega) hindex] at hfirst
      cases hfirst
    refine ⟨hoff, ?_⟩
    rw [loadedByte_eq (markEngine_banked ..) fun _ => (nonneg_iff _).mp hoff, source_mark (by omega) hindex] at hfirst
    rw [← reloadIndex_iff hg]
    by_contra hne
    rw [if_neg hne] at hfirst
    cases hfirst
  · rintro ⟨hoff, hfit⟩ e hb -
    rw [lastLoad_wide hw, (reloadIndex_iff hg).mpr hfit, loadedByte_eq hb fun _ => (nonneg_iff _).mp hoff]

end Kept

section Narrow

variable {p : Prog} {m : Meta} {len : Nat}

def placedEngine (p : Prog) (m : Meta) (mem32 : BitVec 32 → BitVec 8) : Engine :=
  let e := memEngine mem32 fun _ => 0
  { e with core := { e.core with
      a := Function.update e.core.a (gpr (storeInsn p m).dstReg) ((storeMeta p m).ptr.off - m.ptr.off) } }

variable (hreg : m.insn.srcReg = (storeInsn p m).dstReg → m.ptr.off = (storeMeta p m).ptr.off)

include hreg

theorem placedEngine_source (mem32 : BitVec 32 → BitVec 8) :
    (placedEngine p m mem32).core.a (gpr m.insn.srcReg) = 0 := by
  by_cases h : m.insn.srcReg = (storeInsn p m).dstReg
  · rw [h]
    exact (Function.update_self ..).trans (by rw [hreg h, sub_self])
  · exact Function.update_of_ne (gpr_disjoint h).1 ..

theorem placedEngine_placed (mem32 : BitVec 32 → BitVec 8) : Placed p m (placedEngine p m mem32) := by
  refine .inr ?_
  rw [placedEngine_source hreg, show (placedEngine p m mem32).core.a (gpr (storeInsn p m).dstReg) = _ from
    Function.update_self ..]
  ring

theorem placedEngine_banked (mem32 : BitVec 32 → BitVec 8) : Banked m (placedEngine p m mem32) := by
  have hhigh : (placedEngine p m mem32).core.a (gpr m.insn.srcReg + 1) = 0 :=
    Function.update_of_ne (gpr_parity _ _).2 ..
  rw [Banked, pairA, hhigh, placedEngine_source hreg]
  rfl

theorem narrow_reloads_iff (hg : Gathered p m len) (hn : ¬isWide m) : Reloads p m len ↔ Trails p m len := by
  have hw := bytes_le m.insn
  rw [reloads_iff hg]
  constructor
  · intro h j hj
    obtain ⟨spot, hat⟩ : ∃ a : BitVec 32, m.insn.off.signExtend 32 + BitVec.ofNat 32 (reloadIndex m len + j) = a :=
      ⟨_, rfl⟩
    obtain ⟨e, he⟩ := @exists_eq' _ (placedEngine p m fun a => if a = spot then 1 else 0)
    have hb : Banked m e := he ▸ placedEngine_banked hreg _
    have hp : Placed p m e := he ▸ placedEngine_placed hreg _
    have hsrc : sourceAt m e = m.insn.off.signExtend 32 := by
      rw [sourceAt, ← he, placedEngine_source hreg, zero_add]
    have hmem (a : BitVec 32) : e.mem32 a = if a = spot then 1 else 0 := by
      rw [← he]
      rfl
    have hbyte := congrArg (byteOf · j) (h e hb hp)
    simp only [lastLoad_byte hn hp hj, byteOf_leValue _ _ (hj.trans_le hw), if_pos hj,
      loadedByte_eq hb fun hw => absurd hw hn, sourceByte_narrow hn, hsrc, hmem, hat, if_true] at hbyte
    by_contra hne
    rw [if_neg fun heq => hne (add_left_cancel (heq.trans hat.symm))] at hbyte
    cases hbyte
  · intro h e hb hp
    apply eq_of_bytes
    intro j hj8
    rw [byteOf_leValue _ _ hj8]
    by_cases hj : j < bpfLdstBytes m.insn
    · rw [if_pos hj, lastLoad_byte hn hp hj, h j hj, loadedByte_eq hb fun hw => absurd hw hn, sourceByte_narrow hn]
    · rw [if_neg hj, lastLoad, byteOf_leValue _ _ hj8, if_neg hj]

end Narrow

theorem memcpy_reloads_iff (p : Prog) (m : Meta) (len : Nat) (hg : Gathered p m len)
    (hreg : m.insn.srcReg = (storeInsn p m).dstReg → m.ptr.off = (storeMeta p m).ptr.off) :
    Reloads p m len ↔
      (m.ptr.type = .ptrToMapValue → 0 ≤ m.insn.off.toInt) ∧
      (m.ptr.type = .ptrToMapValue ∨ ¬Overtakes p m len →
        (bpfLdstBytes m.insn = 1 → 0 ≤ m.ldstGatherLen ∨ len % 4 = 1) ∧
        (bpfLdstBytes m.insn = 2 → 0 ≤ m.ldstGatherLen ∨ len % 4 = 2) ∧
        (bpfLdstBytes m.insn = 4 → m.ldstGatherLen < 0)) ∧
      (m.ptr.type ≠ .ptrToMapValue → Overtakes p m len → Trails p m len) := by
  by_cases hw : isWide m
  · rw [wide_reloads_iff hg hw]
    exact ⟨fun h => ⟨fun _ => h.1, fun _ => h.2, fun hn => absurd hw hn⟩, fun h => ⟨h.1 hw, h.2.1 (.inl hw)⟩⟩
  · rw [narrow_reloads_iff hreg hg hw]
    by_cases hover : Overtakes p m len
    · exact ⟨fun h => ⟨fun h' => absurd h' hw, fun h' => absurd hover (h'.resolve_left hw), fun _ _ => h⟩,
        fun h => h.2.2 hw hover⟩
    · rw [trails_iff hg hover]
      exact ⟨fun h => ⟨fun h' => absurd h' hw, fun _ => h, fun _ h' => absurd h' hover⟩, fun h => h.2.1 (.inr hover)⟩

theorem memcpy_reloads_descending_words : Reloads (gatherProg 0x61 0 64 (-8)) (gatherMeta 0x61 0 (-8)) 8 :=
  (memcpy_reloads_iff (gatherProg 0x61 0 64 (-8)) (gatherMeta 0x61 0 (-8)) 8
    ⟨by decide, by decide, by decide, by decide, by decide, by decide, by decide⟩ (fun _ => rfl)).mpr
      ⟨fun _ => by decide, fun _ => by decide, fun _ h => absurd h (by decide)⟩

theorem memcpy_ascending_words_reload_first :
    Placed (gatherProg 0x61 0 64 8) (gatherMeta 0x61 0 8) (memEngine (fun a => if a = 4 then 1 else 0) fun _ => 0) ∧
    ∃ e', Does (nfpCppMemcpy (gatherProg 0x61 0 64 8) (gatherMeta 0x61 0 8)).code
      (memEngine (fun a => if a = 4 then 1 else 0) fun _ => 0) e' ∧
      pairA e'.core (gpr 3) = 0 ∧
      lastLoad (gatherProg 0x61 0 64 8) (gatherMeta 0x61 0 8) 8
        (memEngine (fun a => if a = 4 then 1 else 0) fun _ => 0) = 1 :=
  ⟨.inr rfl, _, ⟨rfl, rfl⟩, rfl, rfl⟩

end NfpDriver.Lower
