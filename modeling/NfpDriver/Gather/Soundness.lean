import NfpDriver.Gather.Annotation
import NfpDriver.Bpf.Exec
import NfpDriver.Library.Walk

namespace NfpDriver.Gather

open Bpf BlockCopy Option

def AcceptedPair (l : List Meta) (p : Nat) : Prop :=
  (metaAt l (p + 1)).insn.dstReg ≠ (metaAt l p).insn.dstReg ∧
  (PairAt l (p + 2) → (metaAt l (p + 2)).insn.srcReg ≠ (metaAt l p).insn.dstReg) ∧
  ((metaAt l p).insn.srcReg = (metaAt l (p + 1)).insn.dstReg →
    (metaAt l p).ptr.type = (metaAt l (p + 1)).ptr.type ∧
    (metaAt l p).ptr.id = (metaAt l (p + 1)).ptr.id ∧
    (metaAt l p).ptr.off = (metaAt l (p + 1)).ptr.off)

instance (l : List Meta) (p : Nat) : Decidable (AcceptedPair l p) :=
  inferInstanceAs (Decidable (_ ∧ _ ∧ _))

def Accepted (l : List Meta) : Prop := ∀ p, PairAt l p → AcceptedPair l p

def ldOff (l : List Meta) (h i : Nat) : Int := (metaAt l (h + 2 * i)).insn.off.toInt

def stOff (l : List Meta) (h i : Nat) : Int := (metaAt l (h + 2 * i + 1)).insn.off.toInt

def ptrAddr (base : RegType → BitVec 32 → Int) (m : Meta) : Int := base m.ptr.type m.ptr.id + m.ptr.off.toInt

structure Entry (l : List Meta) (h : Nat) (base : RegType → BitVec 32 → Int) (st : ExecState) : Prop where
  src : st.regs (metaAt l h).insn.srcReg = .ptr (metaAt l h).ptr.type (ptrAddr base (metaAt l h))
  dst : st.regs (metaAt l (h + 1)).insn.dstReg =
    .ptr (metaAt l (h + 1)).ptr.type (ptrAddr base (metaAt l (h + 1)))

def chainInsns (l : List Meta) (h n : Nat) : List Meta :=
  (List.range (2 * n + 2)).map fun k => metaAt l (h + k)

def bulkCopy (l l' : List Meta) (h n : Nat) (base : RegType → BitVec 32 → Int) (m : Bytes) : Bytes :=
  blockCopy (metaAt l h).ptr.type (metaAt l (h + 1)).ptr.type
    (ptrAddr base (metaAt l h) + lowest (ldOff l h) n)
    (ptrAddr base (metaAt l (h + 1)) + lowest (stOff l h) n)
    ((metaAt l' h).ldstGatherLen.natAbs : Nat) m

def ChainSound (l l' : List Meta) (h n : Nat) : Prop := ∀ base st, Entry l h base st →
  (execAll (chainInsns l h n) st).map ExecState.mem = some (bulkCopy l l' h n base st.mem)

def SameObject (l : List Meta) (h : Nat) : Prop :=
  (metaAt l h).ptr.type = (metaAt l (h + 1)).ptr.type ∧ (metaAt l h).ptr.id = (metaAt l (h + 1)).ptr.id

-- offsets from the start of the object
def loadAt (l : List Meta) (h i : Nat) : Int := (metaAt l h).ptr.off.toInt + ldOff l h i

def storeAt (l : List Meta) (h i : Nat) : Int := (metaAt l (h + 1)).ptr.off.toInt + stOff l h i

def ReadsStored (l : List Meta) (h i j : Nat) : Prop :=
  SameObject l h ∧ ∃ x, (loadAt l h j ≤ x ∧ x < loadAt l h j + width l h) ∧
    (storeAt l h i ≤ x ∧ x < storeAt l h i + width l h)

def CrossesSeen (l : List Meta) (h n : Nat) : Prop := ∀ i j, i < j → j ≤ n → ReadsStored l h i j →
  crossMemAccess (metaAt l (h + 2 * j)).insn (metaAt l h) (metaAt l (h + 1)) = true

def GatherSound (l l' : List Meta) : Prop :=
  ∀ h n, Chain l h n → CrossesSeen l h n ∧ ((metaAt l' h).ldstGatherLen ≠ 0 → ChainSound l l' h n)

def distance (l : List Meta) (h : Nat) : Int := storeAt l h 0 - loadAt l h 0

def Ascending (l : List Meta) (h n : Nat) : Prop := ∀ i < n, ldOff l h (i + 1) = ldOff l h i + width l h

def Descending (l : List Meta) (h n : Nat) : Prop := ∀ i < n, ldOff l h (i + 1) = ldOff l h i - width l h

def GatherSafe (l : List Meta) (h n : Nat) : Prop :=
  (Ascending l h n ∨ Descending l h n) ∧
    ¬ (SameObject l h ∧ 1 ≤ n ∧
      (Ascending l h n ∧ 0 < distance l h ∧ distance l h < ((n + 1) * width l h : Nat) ∨
        Descending l h n ∧ 0 < - distance l h ∧ - distance l h < ((n + 1) * width l h : Nat)))

variable {l : List Meta} {h n : Nat}

variable {i : Nat} {l' : List Meta}

theorem Run.step (hr : Run l h n) (hi : i < n) :
    (metaAt l (h + 2 * (i + 1))).insn.dstReg = (metaAt l (h + 2 * i)).insn.dstReg ∧
    (metaAt l (h + 2 * (i + 1))).insn.srcReg = (metaAt l (h + 2 * i)).insn.srcReg ∧
    (metaAt l (h + 2 * (i + 1) + 1)).insn.dstReg = (metaAt l (h + 2 * i + 1)).insn.dstReg ∧
    (ldOff l h (i + 1) = ldOff l h i + width l h ∧ stOff l h (i + 1) = stOff l h i + width l h ∨
      ldOff l h (i + 1) = ldOff l h i - width l h ∧ stOff l h (i + 1) = stOff l h i - width l h) := by
  obtain ⟨h1, h2, h3, -, h5⟩ := currPairChainWithPrevious_true (hr.2 i hi).2.1
  have hw : bpfLdstBytes (metaAt l (h + 2 * i)).insn = width l h := hr.width_eq (le_of_lt hi)
  have hw' : bpfLdstBytes (metaAt l (h + 2 * i + 2)).insn = width l h := hr.width_eq hi
  refine ⟨h1, h2, h3, ?_⟩
  simp only [hw, hw'] at h5
  rw [show ldOff l h (i + 1) = (metaAt l (h + 2 * i + 2)).insn.off.toInt from rfl,
    show stOff l h (i + 1) = (metaAt l (h + 2 * i + 3)).insn.off.toInt from rfl, ldOff, stOff]
  rcases h5 with h5 | h5
  · left
    constructor <;> omega
  · right
    constructor <;> omega

theorem Run.regs (hr : Run l h n) (hi : i ≤ n) :
    (metaAt l (h + 2 * i)).insn.dstReg = (metaAt l h).insn.dstReg ∧
    (metaAt l (h + 2 * i)).insn.srcReg = (metaAt l h).insn.srcReg ∧
    (metaAt l (h + 2 * i + 1)).insn.dstReg = (metaAt l (h + 1)).insn.dstReg ∧
    stOff l h i = ldOff l h i + (stOff l h 0 - ldOff l h 0) := by
  induction i with
  | zero => exact ⟨rfl, rfl, rfl, by omega⟩
  | succ i ih =>
    obtain ⟨h1, h2, h3, h4⟩ := ih (by omega)
    obtain ⟨s1, s2, s3, s4⟩ := hr.step hi
    exact ⟨s1.trans h1, s2.trans h2, s3.trans h3, by omega⟩

theorem Run.walk (hr : Run l h n) : Walk (width l h) n (ldOff l h) := fun _ hi =>
  (hr.step hi).2.2.2.imp And.left And.left

theorem Run.lowest_stOff (hr : Run l h n) :
    lowest (stOff l h) n = lowest (ldOff l h) n + (stOff l h 0 - ldOff l h 0) := by
  induction n with
  | zero => simp only [lowest]; omega
  | succ n ih =>
    have hl := ih (hr.mono (Nat.le_succ n))
    have hs := (hr.regs le_rfl).2.2.2
    simp only [lowest]
    omega

theorem chainInsns_succ (l : List Meta) (h n : Nat) : chainInsns l h (n + 1) =
    chainInsns l h n ++ [metaAt l (h + 2 * (n + 1)), metaAt l (h + 2 * (n + 1) + 1)] := by
  simp only [chainInsns, List.range_succ,
    List.map_append, List.map_cons, List.map_nil, List.append_assoc, List.singleton_append,
    show 2 * (n + 1) = 2 * n + 2 by omega]
  rfl

theorem Run.type_ne_or_same (hr : Run l h n) (hn : 1 ≤ n)
    (ht : (metaAt l h).ptr.type = (metaAt l (h + 1)).ptr.type) : SameObject l h := by
  have hc := (hr.2 0 hn).2.2.1
  refine ⟨ht, ?_⟩
  by_contra hid
  rw [crossMemAccess, if_neg (by simp [ht]), if_pos hid] at hc
  cases hc

theorem Accepted.run_src (ha : Accepted l) (hr : Run l h n) (hn : 1 ≤ n) :
    (metaAt l h).insn.srcReg ≠ (metaAt l h).insn.dstReg := by
  have hnext := (ha h hr.1).2.1 (hr.pair (i := 1) hn)
  rwa [show h + 2 = h + 2 * 1 from rfl, (hr.regs hn).2.1] at hnext

section Execution

variable {base : RegType → BitVec 32 → Int} {st : ExecState}

theorem execAll_pair (ha : Accepted l) (hr : Run l h n) (he : Entry l h base st) (hi : i ≤ n) {s : ExecState}
    (hsrc : s.regs (metaAt l h).insn.srcReg = st.regs (metaAt l h).insn.srcReg)
    (hdst : s.regs (metaAt l (h + 1)).insn.dstReg = st.regs (metaAt l (h + 1)).insn.dstReg) :
    ∃ v, execAll [metaAt l (h + 2 * i), metaAt l (h + 2 * i + 1)] s = some
      { setReg s (metaAt l h).insn.dstReg v with
        mem := blockCopy (metaAt l h).ptr.type (metaAt l (h + 1)).ptr.type
          (ptrAddr base (metaAt l h) + ldOff l h i)
          (ptrAddr base (metaAt l (h + 1)) + (stOff l h 0 - ldOff l h 0) + ldOff l h i)
          (width l h) s.mem } := by
  have hp := hr.pair hi
  obtain ⟨r1, r2, r3, r4⟩ := hr.regs hi
  obtain ⟨c1, c2, -, c4, c5⟩ := currPairIsMemcpy_true hp.2
  obtain ⟨v, hv⟩ := execPair (s := s) c1 c2 c5 (by rw [bpfLdstBytes, bpfLdstBytes, c4]) (ha _ hp).1
    (by rw [r2, hsrc, he.src]) (by rw [r3, hdst, he.dst])
  have hw : bpfLdstBytes (metaAt l (h + 2 * i)).insn = width l h := hr.width_eq hi
  have hb : ptrAddr base (metaAt l (h + 1)) + (metaAt l (h + 2 * i + 1)).insn.off.toInt =
      ptrAddr base (metaAt l (h + 1)) + (stOff l h 0 - ldOff l h 0) + ldOff l h i := by
    have : (metaAt l (h + 2 * i + 1)).insn.off.toInt = stOff l h i := rfl
    omega
  rw [r1, hw, hb] at hv
  exact ⟨v, hv⟩

theorem execAll_chain (ha : Accepted l) (hr : Run l h n) (he : Entry l h base st) :
    ∃ st', execAll (chainInsns l h n) st = some st' ∧
      st'.mem = copies (metaAt l h).ptr.type (metaAt l (h + 1)).ptr.type (ptrAddr base (metaAt l h))
        (ptrAddr base (metaAt l (h + 1)) + (stOff l h 0 - ldOff l h 0)) (width l h)
        (offsets (ldOff l h) n) st.mem ∧
      ∀ r, r ≠ (metaAt l h).insn.dstReg → st'.regs r = st.regs r := by
  induction n with
  | zero =>
    obtain ⟨v, hv⟩ := execAll_pair ha hr he (Nat.le_refl 0) (s := st) rfl rfl
    exact ⟨_, hv, rfl, fun r hne => if_neg hne⟩
  | succ n ih =>
    obtain ⟨s, hs, hmem, hregs⟩ := ih (hr.mono (Nat.le_succ n))
    obtain ⟨v, hv⟩ := execAll_pair ha hr he (Nat.le_refl (n + 1))
      (hregs _ (ha.run_src hr (by omega))) (hregs _ (ha h hr.1).1)
    have hrun : execAll (chainInsns l h (n + 1)) st =
        execAll [metaAt l (h + 2 * (n + 1)), metaAt l (h + 2 * (n + 1) + 1)] s := by
      rw [chainInsns_succ, execAll_append, hs, bind_some]
    refine ⟨_, hrun.trans hv, ?_, fun r hne => (if_neg hne).trans (hregs r hne)⟩
    rw [offsets_succ, copies_append, ← hmem]
    rfl

theorem entry_exists (ha : Accepted l) (hp : PairAt l h) (base : RegType → BitVec 32 → Int) (m : Bytes) :
    ∃ st : ExecState, st.mem = m ∧ Entry l h base st := by
  refine ⟨⟨fun r => if r = (metaAt l h).insn.srcReg
    then .ptr (metaAt l h).ptr.type (ptrAddr base (metaAt l h))
    else .ptr (metaAt l (h + 1)).ptr.type (ptrAddr base (metaAt l (h + 1))), m⟩, rfl, if_pos rfl, ?_⟩
  by_cases hr : (metaAt l (h + 1)).insn.dstReg = (metaAt l h).insn.srcReg
  · obtain ⟨h1, h2, h3⟩ := (ha h hp).2.2 hr.symm
    simp only [if_pos hr, ptrAddr, h1, h2, h3]
  · exact if_neg hr

end Execution

theorem chainSound_bulk (ha : Accepted l) (hr : Run l h n)
    (hlen : (metaAt l' h).ldstGatherLen.natAbs = (n + 1) * width l h) :
    ChainSound l l' h n ↔ ∀ base : RegType → BitVec 32 → Int,
      BulkSafe (metaAt l h).ptr.type (metaAt l (h + 1)).ptr.type (ptrAddr base (metaAt l h))
        (ptrAddr base (metaAt l (h + 1)) + (stOff l h 0 - ldOff l h 0)) (width l h) n (ldOff l h) := by
  have hw : (0 : Int) < width l h := by
    have : 0 < width l h := bpfLdstBytes_pos _
    omega
  have hbulk : ∀ base m, bulkCopy l l' h n base m =
      blockCopy (metaAt l h).ptr.type (metaAt l (h + 1)).ptr.type
        (ptrAddr base (metaAt l h) + lowest (ldOff l h) n)
        (ptrAddr base (metaAt l (h + 1)) + (stOff l h 0 - ldOff l h 0) + lowest (ldOff l h) n)
        (((n + 1 : Nat) : Int) * width l h) m := by
    intro base m
    rw [bulkCopy, hlen, hr.lowest_stOff, Nat.cast_mul]
    congr 1
    omega
  constructor
  · intro hs base
    refine (bulk_iff (B := BitVec 8) _ _ hw hr.walk).mp fun m => ?_
    obtain ⟨st, rfl, he⟩ := entry_exists ha hr.1 base m
    obtain ⟨st', hst, hmem, -⟩ := execAll_chain ha hr he
    have heq := hs base st he
    rw [hst, map_some, some.injEq, hmem, hbulk] at heq
    exact heq
  · intro hs base st he
    obtain ⟨st', hst, hmem, -⟩ := execAll_chain ha hr he
    rw [hst, map_some, hmem, hbulk, (bulk_iff (B := BitVec 8) _ _ hw hr.walk).mpr (hs base)]

theorem bulkSafe_iff (hr : Run l h n) (base : RegType → BitVec 32 → Int) :
    BulkSafe (metaAt l h).ptr.type (metaAt l (h + 1)).ptr.type (ptrAddr base (metaAt l h))
      (ptrAddr base (metaAt l (h + 1)) + (stOff l h 0 - ldOff l h 0)) (width l h) n (ldOff l h) ↔
    SameObject l h ∧ distance l h = 0 ∨ GatherSafe l h n := by
  rcases Nat.eq_zero_or_pos n with rfl | hn
  · have hasc : Ascending l h 0 := fun i hi => absurd hi (by omega)
    exact iff_of_true (.inr ⟨.inl hasc, by simp⟩) (.inr ⟨.inl hasc, by simp⟩)
  by_cases hso : SameObject l h
  · have hd : ptrAddr base (metaAt l (h + 1)) + (stOff l h 0 - ldOff l h 0) -
        ptrAddr base (metaAt l h) = distance l h := by
      simp only [ptrAddr, distance, storeAt, loadAt, hso.1, hso.2]
      omega
    have heq : ptrAddr base (metaAt l h) =
        ptrAddr base (metaAt l (h + 1)) + (stOff l h 0 - ldOff l h 0) ↔ distance l h = 0 := by
      omega
    have hneg : ptrAddr base (metaAt l h) -
        (ptrAddr base (metaAt l (h + 1)) + (stOff l h 0 - ldOff l h 0)) = - distance l h := by
      omega
    simp only [BulkSafe, GatherSafe, Overlaps, hso, hso.1, heq, hd, hneg, Rises, Falls, Ascending,
      Descending, Nat.cast_mul]
  · have hne : (metaAt l h).ptr.type ≠ (metaAt l (h + 1)).ptr.type := fun ht =>
      hso (hr.type_ne_or_same hn ht)
    simp only [BulkSafe, GatherSafe, hso, hne, false_and, not_false_eq_true, and_true, false_or]
    exact Iff.rfl

theorem chainSound_iff (ha : Accepted l) (hr : Run l h n)
    (hlen : (metaAt l' h).ldstGatherLen.natAbs = (n + 1) * width l h) :
    ChainSound l l' h n ↔ SameObject l h ∧ distance l h = 0 ∨ GatherSafe l h n := by
  rw [chainSound_bulk ha hr hlen]
  exact ⟨fun hs => (bulkSafe_iff hr fun _ _ => 0).mp (hs _), fun hs base => (bulkSafe_iff hr base).mpr hs⟩

section Crossing

variable {j : Nat}

theorem Run.readsStored_iff (hr : Run l h n) (hi : i ≤ n) :
    ReadsStored l h i j ↔ SameObject l h ∧
      distance l h - width l h < ldOff l h j - ldOff l h i ∧ ldOff l h j - ldOff l h i < distance l h + width l h := by
  have hst := (hr.regs hi).2.2.2
  refine and_congr_right fun _ => ?_
  simp only [loadAt, storeAt, distance]
  constructor
  · rintro ⟨x, ⟨_, _⟩, _, _⟩
    omega
  · rintro ⟨_, _⟩
    refine ⟨max (loadAt l h j) (storeAt l h i), ⟨?_, ?_⟩, ?_, ?_⟩ <;> simp only [loadAt, storeAt] <;> omega

-- a pair joins the chain only where the test answered false
theorem Run.crossesSeen_iff (hr : Run l h n) :
    CrossesSeen l h n ↔ ∀ i j, i < j → j ≤ n → ¬ ReadsStored l h i j := by
  refine forall_congr' fun i => forall_congr' fun j => forall₂_congr fun hij hj => ?_
  obtain ⟨k, rfl⟩ : ∃ k, j = k + 1 := ⟨j - 1, by omega⟩
  have hfalse : crossMemAccess (metaAt l (h + 2 * (k + 1))).insn (metaAt l h) (metaAt l (h + 1)) = false :=
    (hr.2 k hj).2.2.1
  rw [hfalse]
  exact ⟨fun hs hread => (nomatch hs hread), fun hs hread => absurd hread hs⟩

theorem straight_of_crossesSeen (hr : Run l h n) (hc : CrossesSeen l h n) (hso : SameObject l h)
    (hd : distance l h = 0) : Ascending l h n ∨ Descending l h n := by
  have hw : 0 < width l h := bpfLdstBytes_pos _
  refine hr.walk.straight fun i hi heq => hr.crossesSeen_iff.mp hc i (i + 2) (by omega) hi ?_
  exact (hr.readsStored_iff (by omega)).mpr ⟨hso, by omega⟩

theorem GatherSafe.crossesSeen (hr : Run l h n) (hs : GatherSafe l h n) : CrossesSeen l h n := by
  rw [hr.crossesSeen_iff]
  intro i j hij hj hread
  obtain ⟨hso, hlow, hhigh⟩ := (hr.readsStored_iff (by omega)).mp hread
  have hnear : (width l h : Int) ≤ ((j - i : Nat) : Int) * width l h :=
    le_mul_of_one_le_left (by omega) (by omega)
  have hfar : ((j - i : Nat) : Int) * width l h ≤ (n : Int) * width l h :=
    mul_le_mul_of_nonneg_right (by omega) (by omega)
  have hsum : (((n + 1) * width l h : Nat) : Int) = (n : Int) * width l h + width l h := by push_cast; ring
  have hgap : ((j - i : Nat) : Int) * width l h = (j : Int) * width l h - (i : Int) * width l h := by
    rw [Nat.cast_sub hij.le]
    ring
  refine hs.2 ⟨hso, by omega, ?_⟩
  rcases hs.1 with hup | hdown
  · have hfi := Rises.at (w := width l h) (f := ldOff l h) hup (show i ≤ n by omega)
    have hfj := Rises.at (w := width l h) (f := ldOff l h) hup hj
    exact .inl ⟨hup, by omega, by omega⟩
  · have hfi := Falls.at (w := width l h) (f := ldOff l h) hdown (show i ≤ n by omega)
    have hfj := Falls.at (w := width l h) (f := ldOff l h) hdown hj
    exact .inr ⟨hdown, by omega, by omega⟩

theorem gatherSafe_iff (hr : Run l h n) :
    CrossesSeen l h n ∧ (SameObject l h ∧ distance l h = 0 ∨ GatherSafe l h n) ↔ GatherSafe l h n := by
  constructor
  · rintro ⟨hc, ⟨hso, hd⟩ | hs⟩
    · refine ⟨straight_of_crossesSeen hr hc hso hd, ?_⟩
      rintro ⟨-, -, ⟨-, hpos, -⟩ | ⟨-, hpos, -⟩⟩ <;> omega
    · exact hs
  · exact fun hs => ⟨hs.crossesSeen hr, .inr hs⟩

end Crossing

theorem gather_len (hf : Fresh l) (hc : Chain l h n) :
    (metaAt (nfpBpfOptLdstGather l) h).ldstGatherLen.natAbs = (n + 1) * width l h ∨
      n = 0 ∧ (metaAt (nfpBpfOptLdstGather l) h).ldstGatherLen = 0 := by
  obtain ⟨s, cs, o, hs, hv, hr⟩ := gather_final hf
  rw [← hs]
  rcases hv.chain_mem hr.1 hc with rfl | hm
  · have ho : Open l s h n := hv.phase
    left
    rw [ho.ld, setGatherLen_len, chainLen, Int.natAbs_natCast]
  by_cases hn : n = 0
  · right
    have hat := (hv.done.chains h n hm).2.2 h ⟨by omega, by omega⟩
    rw [hat, closedMeta, if_pos hn]
    exact ⟨hn, (hf h).1⟩
  · exact .inl (hv.done.annotated hm hn).len

theorem gatherSafe_single (l : List Meta) (h : Nat) : GatherSafe l h 0 :=
  ⟨.inl fun i hi => absurd hi (by omega), by simp⟩

theorem gather_sound_iff (l : List Meta) (hf : Fresh l) (ha : Accepted l) :
    GatherSound l (nfpBpfOptLdstGather l) ↔ ∀ h n, Chain l h n → GatherSafe l h n := by
  refine forall_congr' fun h => forall_congr' fun n => forall_congr' fun hc => ?_
  rcases gather_len hf hc with hlen | ⟨rfl, hzero⟩
  · have hpos : 0 < (n + 1) * width l h := Nat.mul_pos n.succ_pos (bpfLdstBytes_pos _)
    have hne : (metaAt (nfpBpfOptLdstGather l) h).ldstGatherLen ≠ 0 := by omega
    rw [← gatherSafe_iff hc.run, chainSound_iff ha hc.run hlen]
    exact and_congr_right fun _ => ⟨fun hs => hs hne, fun hs _ => hs⟩
  · have hsafe := gatherSafe_single l h
    exact iff_of_true ⟨hsafe.crossesSeen hc.run, fun hne => absurd hzero hne⟩ hsafe

theorem accepted_of_lt (h : ∀ p < l.length, PairAt l p → AcceptedPair l p) : Accepted l := fun p hp =>
  h p (Nat.lt_of_succ_lt hp.1) hp

theorem chain_of_first (hp : PairAt l 0) (hj : ∀ i < n, Joins l 0 i) (hs : ¬ Joins l 0 n) : Chain l 0 n :=
  ⟨.first hp fun q hq => absurd hq (by omega), ⟨hp, hj⟩, hs⟩

def misaligned : List Meta :=
  [ldxPacket bpfW 0, stxPacket bpfW 6, ldxPacket bpfW 4, stxPacket bpfW 10, movMeta, exitMeta]

def countingState : ExecState := ⟨fun _ => .ptr .ptrToPacket 0, fun _ x => BitVec.ofInt 8 x⟩

theorem misaligned_gather_differs :
    Fresh misaligned ∧ Accepted misaligned ∧ Chain misaligned 0 1 ∧
    crossMemAccess (metaAt misaligned 2).insn (metaAt misaligned 0) (metaAt misaligned 1) = false ∧
    Entry misaligned 0 (fun _ _ => 0) countingState ∧
    (execAll (chainInsns misaligned 0 1) countingState).map (fun st => st.mem .ptrToPacket 12) = some 0 ∧
    bulkCopy misaligned (nfpBpfOptLdstGather misaligned) 0 1 (fun _ _ => 0) countingState.mem
      .ptrToPacket 12 = 6 ∧
    ¬ GatherSound misaligned (nfpBpfOptLdstGather misaligned) := by
  have hc : Chain misaligned 0 1 := chain_of_first (by decide) (by decide) (by decide)
  have he : Entry misaligned 0 (fun _ _ => 0) countingState := ⟨rfl, rfl⟩
  have hseq : (execAll (chainInsns misaligned 0 1) countingState).map
      (fun st => st.mem .ptrToPacket 12) = some 0 := by decide
  have hbulk : bulkCopy misaligned (nfpBpfOptLdstGather misaligned) 0 1 (fun _ _ => 0)
      countingState.mem .ptrToPacket 12 = 6 := by decide
  refine ⟨fresh_of_mem (by decide), accepted_of_lt (by decide), hc, by decide, he, hseq, hbulk, ?_⟩
  intro hs
  have heq := congrArg (Option.map fun m : Bytes => m .ptrToPacket 12) ((hs 0 1 hc).2 (by decide) _ _ he)
  cases hseq.symm.trans heq

theorem twoPairsThenMov_head (hh : Head twoPairsThenMov h) : h = 0 := by
  have hpairs : ∀ p < 6, PairAt twoPairsThenMov p → p = 0 ∨ p = 2 := by decide
  rcases hpairs h (Nat.lt_of_succ_lt hh.pairAt.1) hh.pairAt with rfl | rfl
  · rfl
  rcases hh.inv with hq | ⟨g, m, hp, -, -, hj⟩
  · exact absurd (by decide) (hq 0 rfl)
  · obtain ⟨rfl, rfl⟩ : g = 0 ∧ m = 0 := by omega
    exact absurd (by decide) hj

theorem twoPairsThenMov_sound :
    Fresh twoPairsThenMov ∧ Accepted twoPairsThenMov ∧
    GatherSound twoPairsThenMov (nfpBpfOptLdstGather twoPairsThenMov) := by
  have hf : Fresh twoPairsThenMov := fresh_of_mem (by decide)
  have ha : Accepted twoPairsThenMov := accepted_of_lt (by decide)
  refine ⟨hf, ha, (gather_sound_iff twoPairsThenMov hf ha).mpr fun h n hc => ?_⟩
  obtain rfl := twoPairsThenMov_head hc.head
  have h01 : Chain twoPairsThenMov 0 1 := chain_of_first (by decide) (by decide) (by decide)
  obtain rfl := hc.unique h01
  have hasc : ∀ i < 1, ldOff twoPairsThenMov 0 (i + 1) = ldOff twoPairsThenMov 0 i +
      width twoPairsThenMov 0 := by decide
  have hfar : distance twoPairsThenMov 0 = 64 := by decide
  have hlen : ((1 + 1) * width twoPairsThenMov 0 : Nat) = 8 := by decide
  refine ⟨.inl hasc, ?_⟩
  rintro ⟨-, -, ⟨-, -, hlt⟩ | ⟨-, hlt, -⟩⟩
  · rw [hfar, hlen] at hlt
    cases hlt
  · rw [hfar] at hlt
    cases hlt

end NfpDriver.Gather
