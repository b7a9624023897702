import NfpDriver.Gather.Chains

namespace NfpDriver.Gather

open Bpf

def Fresh (l : List Meta) : Prop := ∀ k, (metaAt l k).ldstGatherLen = 0 ∧ (metaAt l k).pairedSt = none

def chainLen (l : List Meta) (h n : Nat) : Int := ((n + 1) * width l h : Nat)

def Descends (l : List Meta) (h n : Nat) : Prop :=
  (metaAt l (h + 2 * n)).insn.off.toInt < (metaAt l h).insn.off.toInt

instance (l : List Meta) (h n : Nat) : Decidable (Descends l h n) := inferInstanceAs (Decidable (_ < _))

def skipped (m : Meta) : Meta := m.addFlag flagInsnSkipPrecDependent

def closedLd (l : List Meta) (h n : Nat) : Meta :=
  setPairedSt (h + 1) (if Descends l h n
    then setGatherLen (-chainLen l h n) (setInsnOff (metaAt l (h + 2 * n)).insn.off (metaAt l h))
    else setGatherLen (chainLen l h n) (metaAt l h))

def closedSt (l : List Meta) (h n : Nat) : Meta :=
  skipped (if Descends l h n
    then setInsnOff (metaAt l (h + 2 * n + 1)).insn.off (metaAt l (h + 1))
    else metaAt l (h + 1))

def closedMeta (l : List Meta) (h n k : Nat) : Meta :=
  if n = 0 then metaAt l k
  else if k = h then closedLd l h n
  else if k = h + 1 then closedSt l h n
  else skipped (metaAt l k)

def inChain (h n k : Nat) : Prop := h ≤ k ∧ k < h + 2 * n + 2

structure Open (l : List Meta) (s : GatherState) (h n : Nat) : Prop where
  head : s.head = some (h, h + 1)
  prev : s.prev = some (h + 2 * n, h + 2 * n + 1)
  count : s.count = n + 1
  pos : s.pos = h + 2 * n + 2
  isHead : Head l h
  run : Run l h n
  ld : metaAt s.insns h = setGatherLen (chainLen l h n) (metaAt l h)
  st : metaAt s.insns (h + 1) = metaAt l (h + 1)
  tail : ∀ k, h + 2 ≤ k → k < h + 2 * n + 2 → metaAt s.insns k = skipped (metaAt l k)

structure Idle (l : List Meta) (s : GatherState) : Prop where
  head : s.head = none
  prev : s.prev = none
  count : s.count = 0
  fresh : ∀ q, q + 2 = s.pos → ¬ PairAt l q

def Phase (l : List Meta) (s : GatherState) : Option (Nat × Nat) → Prop
  | some (h, n) => Open l s h n
  | none => Idle l s

def bound (s : GatherState) : Option (Nat × Nat) → Nat
  | some (h, _) => h
  | none => s.pos

structure Done (l insns : List Meta) (cs : List (Nat × Nat)) (b : Nat) : Prop where
  length : insns.length = l.length
  chains : ∀ h n, (h, n) ∈ cs → Chain l h n ∧ h + 2 * n + 2 ≤ b ∧
    ∀ k, inChain h n k → metaAt insns k = closedMeta l h n k
  outside : ∀ k < b, (∀ h n, (h, n) ∈ cs → ¬ inChain h n k) → metaAt insns k = metaAt l k
  apart : ∀ c ∈ cs, ∀ c' ∈ cs, c = c' ∨ c.1 + 2 * c.2 + 2 ≤ c'.1 ∨ c'.1 + 2 * c'.2 + 2 ≤ c.1

structure Inv (l : List Meta) (s : GatherState) (cs : List (Nat × Nat)) (o : Option (Nat × Nat)) :
    Prop where
  done : Done l s.insns cs (bound s o)
  ahead : ∀ k, s.pos ≤ k → metaAt s.insns k = metaAt l k
  phase : Phase l s o
  aligned : ∀ q, q + 1 = s.pos → ¬ PairAt l q
  heads : ∀ h, Head l h → h < s.pos → (∃ n, o = some (h, n)) ∨ ∃ n, (h, n) ∈ cs

theorem inv_start (l : List Meta) : Inv l (gatherStart l) [] none where
  done := ⟨rfl, by simp, fun _ _ _ => rfl, by simp⟩
  ahead _ _ := rfl
  phase := ⟨rfl, rfl, rfl, by intro q hq; simp [gatherStart] at hq⟩
  aligned := by intro q hq; simp [gatherStart] at hq
  heads := by intro h _ hl; simp [gatherStart] at hl

variable (len : Int) (m : Meta)

@[simp] theorem setGatherLen_insn : (setGatherLen len m).insn = m.insn := rfl

@[simp] theorem setGatherLen_ptr : (setGatherLen len m).ptr = m.ptr := rfl

@[simp] theorem setGatherLen_len : (setGatherLen len m).ldstGatherLen = len := rfl

@[simp] theorem setGatherLen_twice (a b : Int) (m : Meta) :
    setGatherLen a (setGatherLen b m) = setGatherLen a m := rfl
@[simp] theorem skipped_insn : (skipped m).insn = m.insn := rfl

theorem setGatherLen_self {m : Meta} {len : Int} (h : m.ldstGatherLen = len) : setGatherLen len m = m := by
  subst h
  rfl

variable {l : List Meta} {s : GatherState} {cs : List (Nat × Nat)} {o : Option (Nat × Nat)} {h n : Nat}

theorem Open.prev_insns (ho : Open l s h n) :
    insnPair s.insns (h + 2 * n, h + 2 * n + 1) = insnPair l (h + 2 * n, h + 2 * n + 1) := by
  rcases Nat.eq_zero_or_pos n with rfl | hn
  · simp [insnPair, ho.ld, ho.st]
  · simp [insnPair, ho.tail (h + 2 * n) (by omega) (by omega),
      ho.tail (h + 2 * n + 1) (by omega) (by omega)]

variable {a b count k : Nat} {insns : List Meta}

section

variable (insns : List Meta) (p q : Nat) (hc : 1 < count) (ha : a < insns.length) (hb : b < insns.length)
    (hab : a ≠ b)

include hc ha hb hab

theorem closeChain_descends (hd : (metaAt insns p).insn.off.toInt < (metaAt insns a).insn.off.toInt) :
    metaAt (closeChain insns count (a, b) (p, q)) a =
      setPairedSt b (setGatherLen (-(metaAt insns a).ldstGatherLen)
        (setInsnOff (metaAt insns p).insn.off (metaAt insns a))) ∧
    metaAt (closeChain insns count (a, b) (p, q)) b =
      skipped (setInsnOff (metaAt insns q).insn.off (metaAt insns b)) ∧
    ∀ k, k ≠ a → k ≠ b → metaAt (closeChain insns count (a, b) (p, q)) k = metaAt insns k := by
  simp only [closeChain, if_pos (show count > 1 from hc), if_pos hd]
  refine ⟨?_, ?_, ?_⟩
  · rw [metaAt_modify_ne hab, metaAt_modify_self (by simpa using ha),
      metaAt_modify_self (by simpa using ha), metaAt_modify_ne hab, metaAt_modify_self ha]
    rfl
  · rw [metaAt_modify_self (by simpa using hb), metaAt_modify_ne hab.symm, metaAt_modify_ne hab.symm,
      metaAt_modify_self (by simpa using hb), metaAt_modify_ne hab.symm]
    rfl
  · intro k hka hkb
    rw [metaAt_modify_ne hkb, metaAt_modify_ne hka, metaAt_modify_ne hka, metaAt_modify_ne hkb, metaAt_modify_ne hka]

theorem closeChain_ascends (hd : ¬ (metaAt insns p).insn.off.toInt < (metaAt insns a).insn.off.toInt) :
    metaAt (closeChain insns count (a, b) (p, q)) a = setPairedSt b (metaAt insns a) ∧
    metaAt (closeChain insns count (a, b) (p, q)) b = skipped (metaAt insns b) ∧
    ∀ k, k ≠ a → k ≠ b → metaAt (closeChain insns count (a, b) (p, q)) k = metaAt insns k := by
  simp only [closeChain, if_pos (show count > 1 from hc), if_neg hd]
  refine ⟨?_, ?_, ?_⟩
  · rw [metaAt_modify_ne hab, metaAt_modify_self ha]
  · rw [metaAt_modify_self (by simpa using hb), metaAt_modify_ne hab.symm]
    rfl
  · intro k hka hkb
    rw [metaAt_modify_ne hkb, metaAt_modify_ne hka]

end

theorem closeOpen_outside (ho : Open l s h n) (hk : k ≠ h) (hk1 : k ≠ h + 1) (hlen : s.insns.length = l.length) :
    metaAt (closeOpen s) k = metaAt s.insns k := by
  have hl := ho.run.length
  simp only [closeOpen, ho.head, ho.prev, ho.count]
  rcases Nat.eq_zero_or_pos n with rfl | hn
  · simp only [closeChain, gt_iff_lt, zero_add, lt_irrefl, if_false]
    exact metaAt_modify_ne hk _
  have hc : 1 < n + 1 := by omega
  have ha : h < s.insns.length := by omega
  have hb : h + 1 < s.insns.length := by omega
  have hab : h ≠ h + 1 := by omega
  by_cases hd : (metaAt s.insns (h + 2 * n)).insn.off.toInt < (metaAt s.insns h).insn.off.toInt
  · exact (closeChain_descends s.insns _ _ hc ha hb hab hd).2.2 k hk hk1
  · exact (closeChain_ascends s.insns _ _ hc ha hb hab hd).2.2 k hk hk1

theorem closeOpen_heads (hf : Fresh l) (hlen : s.insns.length = l.length) (ho : Open l s h n) :
    metaAt (closeOpen s) h = closedMeta l h n h ∧
    metaAt (closeOpen s) (h + 1) = closedMeta l h n (h + 1) := by
  have hl := ho.run.length
  have hlast := ho.prev_insns
  simp only [insnPair, Prod.mk.injEq] at hlast
  simp only [closeOpen, ho.head, ho.prev, ho.count, closedMeta]
  rcases Nat.eq_zero_or_pos n with rfl | hn
  · simp only [closeChain, gt_iff_lt, zero_add, lt_irrefl, if_false, if_true]
    rw [metaAt_modify_self (by omega), metaAt_modify_ne (by omega), ho.ld, ho.st, setGatherLen_twice,
      setGatherLen_self (hf h).1]
    exact ⟨rfl, rfl⟩
  have hdesc : ((metaAt s.insns (h + 2 * n)).insn.off.toInt < (metaAt s.insns h).insn.off.toInt) ↔
      Descends l h n := by
    rw [hlast.1, ho.ld]
    rfl
  simp only [show n ≠ 0 by omega, show h + 1 ≠ h by omega, if_false, if_true, closedLd, closedSt]
  by_cases hd : Descends l h n
  · obtain ⟨h1, h2, -⟩ := closeChain_descends s.insns (h + 2 * n) (h + 2 * n + 1)
      (show 1 < n + 1 by omega) (by omega) (show h + 1 < s.insns.length by omega) (by omega) (hdesc.mpr hd)
    rw [h1, h2, ho.ld, ho.st, hlast.1, hlast.2, if_pos hd, if_pos hd]
    exact ⟨rfl, rfl⟩
  · obtain ⟨h1, h2, -⟩ := closeChain_ascends s.insns (h + 2 * n) (h + 2 * n + 1)
      (show 1 < n + 1 by omega) (by omega) (show h + 1 < s.insns.length by omega) (by omega) (fun hx =>
        hd (hdesc.mp hx))
    rw [h1, h2, ho.ld, ho.st, if_neg hd, if_neg hd]
    exact ⟨rfl, rfl⟩

theorem closeOpen_inside (hf : Fresh l) (hlen : s.insns.length = l.length) (ho : Open l s h n) (hk : inChain h n k) :
    metaAt (closeOpen s) k = closedMeta l h n k := by
  obtain ⟨hl, hu⟩ := hk
  by_cases h0 : k = h
  · exact h0 ▸ (closeOpen_heads hf hlen ho).1
  by_cases h1 : k = h + 1
  · exact h1 ▸ (closeOpen_heads hf hlen ho).2
  · rw [closeOpen_outside ho h0 h1 hlen, ho.tail k (by omega) (by omega)]
    simp [closedMeta, h0, h1, show n ≠ 0 by omega]

theorem closeOpen_length (s : GatherState) : (closeOpen s).length = s.insns.length := by
  simp only [closeOpen]
  split
  · simp only [closeChain]
    split
    · split <;> simp
    · simp
  · rfl

theorem Done.frame {insns' : List Meta} (hd : Done l insns cs b) (hlen : insns'.length = insns.length)
    (hk : ∀ k < b, metaAt insns' k = metaAt insns k) : Done l insns' cs b where
  length := hlen.trans hd.length
  chains h n hc := by
    obtain ⟨hch, hb, hm⟩ := hd.chains h n hc
    refine ⟨hch, hb, fun k hin => ?_⟩
    rw [hk k (by have := hin.2; omega)]
    exact hm k hin
  outside k hlt hno := (hk k hlt).trans (hd.outside k hlt hno)
  apart := hd.apart

theorem Done.extend {b' : Nat} (hd : Done l insns cs b) (hb : b ≤ b')
    (hk : ∀ k, b ≤ k → k < b' → metaAt insns k = metaAt l k) : Done l insns cs b' where
  length := hd.length
  chains h n hc := by
    obtain ⟨hch, hle, hm⟩ := hd.chains h n hc
    exact ⟨hch, by omega, hm⟩
  outside k hlt hno := by
    by_cases hkb : k < b
    · exact hd.outside k hkb hno
    · exact hk k (by omega) hlt
  apart := hd.apart

theorem Done.close (hf : Fresh l) (hd : Done l s.insns cs h) (ho : Open l s h n)
    (hj : ¬ Joins l h n) : Done l (closeOpen s) ((h, n) :: cs) s.pos := by
  have hbelow : ∀ k < h, metaAt (closeOpen s) k = metaAt s.insns k := fun k hk =>
    closeOpen_outside ho (by omega) (by omega) hd.length
  have hold := hd.frame (closeOpen_length s) hbelow
  have hpos := ho.pos
  refine ⟨hold.length, ?_, ?_, ?_⟩
  · intro h' n' hc
    rcases List.mem_cons.mp hc with heq | hmem
    · cases heq
      exact ⟨⟨ho.isHead, ho.run, hj⟩, by omega, fun k => closeOpen_inside hf hd.length ho⟩
    · obtain ⟨hch, hb, hm⟩ := hold.chains h' n' hmem
      exact ⟨hch, by omega, hm⟩
  · intro k hk hno
    have hout := hno h n (by simp)
    refine hold.outside k ?_ (fun h' n' hc => hno h' n' (by simp [hc]))
    simp only [inChain] at hout
    omega
  · intro c hc c' hc'
    rcases List.mem_cons.mp hc with rfl | hm
    · rcases List.mem_cons.mp hc' with rfl | hm'
      · exact .inl rfl
      · exact .inr (.inr (hold.chains c'.1 c'.2 hm').2.1)
    · rcases List.mem_cons.mp hc' with rfl | hm'
      · exact .inr (.inl (hold.chains c.1 c.2 hm).2.1)
      · exact hold.apart c hm c' hm'

end NfpDriver.Gather
