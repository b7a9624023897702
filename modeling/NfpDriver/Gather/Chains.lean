import NfpDriver.Gather.Pass

namespace NfpDriver.Gather

open Bpf

def PairAt (l : List Meta) (p : Nat) : Prop :=
  p + 1 < l.length ∧ currPairIsMemcpy (metaAt l p) (metaAt l (p + 1)) = true

instance (l : List Meta) (p : Nat) : Decidable (PairAt l p) := inferInstanceAs (Decidable (_ ∧ _))

def width (l : List Meta) (h : Nat) : Nat := bpfLdstBytes (metaAt l h).insn

def Joins (l : List Meta) (h i : Nat) : Prop :=
  PairAt l (h + 2 * i + 2) ∧
  currPairChainWithPrevious (metaAt l (h + 2 * i + 2)) (metaAt l (h + 2 * i + 3))
    (some (insnPair l (h + 2 * i, h + 2 * i + 1))) = true ∧
  crossMemAccess (metaAt l (h + 2 * i + 2)).insn (metaAt l h) (metaAt l (h + 1)) = false ∧
  (i + 1) * width l h < 128

instance (l : List Meta) (h i : Nat) : Decidable (Joins l h i) :=
  inferInstanceAs (Decidable (_ ∧ _ ∧ _ ∧ _))

def Run (l : List Meta) (h n : Nat) : Prop := PairAt l h ∧ ∀ i < n, Joins l h i

inductive Head (l : List Meta) : Nat → Prop
  | first {p : Nat} (hp : PairAt l p) (hq : ∀ q, q + 2 = p → ¬ PairAt l q) : Head l p
  | next {h n : Nat} (hh : Head l h) (hr : Run l h n) (hj : ¬ Joins l h n)
      (hp : PairAt l (h + 2 * n + 2)) : Head l (h + 2 * n + 2)

structure Chain (l : List Meta) (h n : Nat) : Prop where
  head : Head l h
  run : Run l h n
  stop : ¬ Joins l h n

variable {ld st : Meta} {l : List Meta} {p h i n m : Nat}

theorem currPairIsMemcpy_true (h : currPairIsMemcpy ld st = true) :
    isMbpfLoad ld = true ∧ isMbpfStore st = true ∧ st.ptr.type = .ptrToPacket ∧
      bpfSize ld.insn.code = bpfSize st.insn.code ∧ ld.insn.dstReg = st.insn.srcReg := by
  simp only [currPairIsMemcpy, Bool.or_eq_true, Bool.not_eq_true', ne_eq, ite_eq_iff, Bool.false_eq_true,
    and_false, false_or, not_or, Bool.not_eq_false, Decidable.not_not] at h
  tauto

theorem PairAt.load (h : PairAt l p) : isMbpfLoad (metaAt l p) = true :=
  (currPairIsMemcpy_true h.2).1

theorem PairAt.store (h : PairAt l p) : isMbpfStore (metaAt l (p + 1)) = true :=
  (currPairIsMemcpy_true h.2).2.1

theorem PairAt.not_succ (h : PairAt l p) : ¬ PairAt l (p + 1) := by
  intro hs
  have := load_not_store _ hs.load
  rw [h.store] at this
  cases this

theorem Head.pairAt (hh : Head l h) : PairAt l h := by
  cases hh with
  | first hp | next _ _ _ hp => exact hp

theorem Head.inv (hh : Head l p) : (∀ q, q + 2 = p → ¬ PairAt l q) ∨
    ∃ h n, p = h + 2 * n + 2 ∧ Head l h ∧ Run l h n ∧ ¬ Joins l h n := by
  cases hh with
  | first _ hq => exact .inl hq
  | next hh hr hj _ => exact .inr ⟨_, _, rfl, hh, hr, hj⟩

theorem Run.pair (hr : Run l h n) (hi : i ≤ n) : PairAt l (h + 2 * i) := by
  cases i with
  | zero => exact hr.1
  | succ i => exact (hr.2 i (by omega)).1

theorem Run.mono (hr : Run l h n) (hm : m ≤ n) : Run l h m :=
  ⟨hr.1, fun i hi => hr.2 i (by omega)⟩

theorem Run.length (hr : Run l h n) : h + 2 * n + 1 < l.length :=
  (hr.pair (Nat.le_refl n)).1

theorem Chain.unique (hn : Chain l h n) (hm : Chain l h m) : n = m := by
  rcases Nat.lt_trichotomy n m with hlt | heq | hgt
  · exact absurd (hm.run.2 n hlt) hn.stop
  · exact heq
  · exact absurd (hn.run.2 m hgt) hm.stop

theorem currPairChainWithPrevious_true {pl ps : Insn} (h : currPairChainWithPrevious ld st (some (pl, ps)) = true) :
    ld.insn.dstReg = pl.dstReg ∧ ld.insn.srcReg = pl.srcReg ∧ st.insn.dstReg = ps.dstReg ∧
    bpfLdstBytes ld.insn = bpfLdstBytes pl ∧
    (pl.off.toInt + bpfLdstBytes pl = ld.insn.off.toInt ∧ ps.off.toInt + bpfLdstBytes pl = st.insn.off.toInt ∨
      ld.insn.off.toInt + bpfLdstBytes ld.insn = pl.off.toInt ∧
        st.insn.off.toInt + bpfLdstBytes ld.insn = ps.off.toInt) := by
  simp only [currPairChainWithPrevious, ne_eq, ite_eq_iff, Bool.false_eq_true, and_false, false_or,
    and_true, not_or, Decidable.not_not] at h
  tauto

theorem Run.width_eq (hr : Run l h n) (hi : i ≤ n) : width l (h + 2 * i) = width l h := by
  induction i with
  | zero => rfl
  | succ i ih =>
    have hj := hr.2 i (by omega)
    rw [← ih (by omega)]
    exact (currPairChainWithPrevious_true hj.2.1).2.2.2.1

end NfpDriver.Gather
