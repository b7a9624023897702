import NfpDriver.Gather.Loop

namespace NfpDriver.Gather

open Bpf

structure Annotated (l l' : List Meta) (h n : Nat) : Prop where
  chain : Chain l h n
  pairs : 2 ≤ n + 1
  len : (metaAt l' h).ldstGatherLen.natAbs = (n + 1) * width l h
  bounded : (metaAt l' h).ldstGatherLen.natAbs ≤ 128
  paired : (metaAt l' h).pairedSt = some (h + 1)
  skip : ∀ k, inChain h n k → k ≠ h → (metaAt l' k).hasFlag flagInsnSkipPrecDependent = true

def Consistent (l l' : List Meta) : Prop :=
  (∀ h, (metaAt l' h).ldstGatherLen ≠ 0 → ∃ n, Annotated l l' h n) ∧
  ∀ k, (metaAt l k).hasFlag flagInsnSkipPrecDependent = false →
    (metaAt l' k).hasFlag flagInsnSkipPrecDependent = true →
    ∃! c : Nat × Nat, inChain c.1 c.2 k ∧ Annotated l l' c.1 c.2

def isExit (m : Meta) : Bool := m.insn.code == bpfJmp ||| bpfExit

def EndsInExit (l : List Meta) : Prop := ∃ p, p + 1 = l.length ∧ isExit (metaAt l p) = true

def TrailingPair (l : List Meta) : Prop := ∃ q, q + 3 = l.length ∧ PairAt l q

variable {l : List Meta} {s : GatherState} {cs : List (Nat × Nat)} {h n : Nat}

theorem exit_not_store {m : Meta} (he : isExit m = true) : isMbpfStore m = false := by
  have hc : m.insn.code = bpfJmp ||| bpfExit := by simpa [isExit] using he
  rw [isMbpfStore, hc]
  decide

theorem EndsInExit.not_pair (he : EndsInExit l) : ∀ q, q + 2 = l.length → ¬ PairAt l q := by
  obtain ⟨p, hp, hx⟩ := he
  intro q hq hpair
  obtain rfl : p = q + 1 := by omega
  exact Bool.noConfusion ((exit_not_store hx).symm.trans hpair.store)

theorem Run.len_le (hr : Run l h n) (hn : 1 ≤ n) : (n + 1) * width l h ≤ 128 := by
  have hj := (hr.2 (n - 1) (by omega)).2.2.2
  rcases bpfLdstBytes_cases (metaAt l h).insn with hw | hw | hw | hw <;>
    (simp only [width, hw] at hj ⊢; omega)

theorem skipped_hasFlag (m : Meta) : (skipped m).hasFlag flagInsnSkipPrecDependent = true :=
  m.hasFlag_addFlag (by decide)

theorem closedMeta_head (hn : n ≠ 0) : closedMeta l h n h = closedLd l h n := by
  simp [closedMeta, hn]

theorem closedLd_len (l : List Meta) (h n : Nat) : (closedLd l h n).ldstGatherLen.natAbs = (n + 1) * width l h := by
  simp only [closedLd, setPairedSt, chainLen]
  split
  · rw [setGatherLen_len, Int.natAbs_neg, Int.natAbs_natCast]
  · rw [setGatherLen_len, Int.natAbs_natCast]

variable {k b : Nat} {insns : List Meta} {o : Option (Nat × Nat)}

theorem closedMeta_tail (hn : n ≠ 0) (hk : k ≠ h) :
    (closedMeta l h n k).hasFlag flagInsnSkipPrecDependent = true ∧
      (closedMeta l h n k).ldstGatherLen = (metaAt l k).ldstGatherLen := by
  by_cases h1 : k = h + 1
  · simp only [closedMeta, hn, h1, closedSt, Nat.succ_ne_self, if_false, if_true, skipped_hasFlag, true_and]
    split <;> rfl
  · simp only [closedMeta, hn, hk, h1, if_false, skipped_hasFlag, true_and]
    rfl

theorem Done.annotated (hd : Done l insns cs b) (hc : (h, n) ∈ cs) (hn : n ≠ 0) : Annotated l insns h n := by
  obtain ⟨hch, -, hm⟩ := hd.chains h n hc
  have hhead : metaAt insns h = closedLd l h n := by
    rw [hm h ⟨by omega, by omega⟩, closedMeta_head hn]
  have hlen : (metaAt insns h).ldstGatherLen.natAbs = (n + 1) * width l h := by
    rw [hhead, closedLd_len]
  refine ⟨hch, by omega, hlen, ?_, ?_, ?_⟩
  · rw [hlen]
    exact hch.run.len_le (by omega)
  · rw [hhead]
    rfl
  · intro k hk hne
    rw [hm k hk]
    exact (closedMeta_tail hn hne).1

theorem Inv.closed_at (hv : Inv l s cs none) (k : Nat) :
    (∃ h n, (h, n) ∈ cs ∧ inChain h n k ∧ metaAt s.insns k = closedMeta l h n k) ∨
      metaAt s.insns k = metaAt l k := by
  by_cases hc : ∃ h n, (h, n) ∈ cs ∧ inChain h n k
  · obtain ⟨h, n, hmem, hin⟩ := hc
    exact .inl ⟨h, n, hmem, hin, (hv.done.chains h n hmem).2.2 k hin⟩
  right
  by_cases hk : k < s.pos
  · exact hv.done.outside k hk (fun h n hmem hin => hc ⟨h, n, hmem, hin⟩)
  · exact hv.ahead k (by omega)

theorem Done.disjoint {c c' : Nat × Nat} (hd : Done l insns cs b) (hc : c ∈ cs) (hc' : c' ∈ cs)
    (hk : inChain c.1 c.2 k) (hk' : inChain c'.1 c'.2 k) : c = c' := by
  simp only [inChain] at hk hk'
  rcases hd.apart c hc c' hc' with heq | hlt | hgt
  · exact heq
  · omega
  · omega

theorem Inv.chain_mem (hv : Inv l s cs o) (hend : l.length ≤ s.pos + 1) (hc : Chain l h n) :
    o = some (h, n) ∨ (h, n) ∈ cs := by
  have hlt := hc.head.pairAt.1
  rcases hv.heads h hc.head (by omega) with ⟨m, rfl⟩ | ⟨m, hm⟩
  · have ho : Open l s h m := hv.phase
    have hstop : ¬ Joins l h m := by
      intro hj
      have hlen := hj.1.1
      have hpos := ho.pos
      omega
    obtain rfl := hc.unique ⟨ho.isHead, ho.run, hstop⟩
    exact .inl rfl
  · obtain rfl := hc.unique (hv.done.chains h m hm).1
    exact .inr hm

theorem Inv.consistent (hf : Fresh l) (hv : Inv l s cs none) (hend : l.length ≤ s.pos + 1) : Consistent l s.insns := by
  refine ⟨fun h hlen => ?_, fun k hold hnew => ?_⟩
  · rcases hv.closed_at h with ⟨g, n, hmem, hin, hat⟩ | hat
    · by_cases hn : n = 0
      · simp [hat, closedMeta, hn, (hf h).1] at hlen
      by_cases hg : h = g
      · exact ⟨n, hg ▸ hv.done.annotated hmem hn⟩
      · rw [hat, (closedMeta_tail hn hg).2] at hlen
        exact absurd (hf h).1 hlen
    · exact absurd (hat ▸ (hf h).1) hlen
  · rcases hv.closed_at k with ⟨g, n, hmem, hin, hat⟩ | hat
    · have hn : n ≠ 0 := by
        rintro rfl
        rw [hat, closedMeta, if_pos rfl, hold] at hnew
        cases hnew
      refine ⟨(g, n), ⟨hin, hv.done.annotated hmem hn⟩, ?_⟩
      rintro c ⟨hck, hca⟩
      have hcm := (hv.chain_mem hend hca.chain).resolve_left (by simp)
      exact hv.done.disjoint hcm hmem hck hin
    · rw [hat, hold] at hnew
      cases hnew

theorem Open.inconsistent (hf : Fresh l) (ho : Open l s h n) : ¬ Consistent l s.insns := by
  intro hc
  have hpos : 0 < (n + 1) * width l h := Nat.mul_pos n.succ_pos (bpfLdstBytes_pos _)
  obtain ⟨m, ha⟩ := hc.1 h (by rw [ho.ld, setGatherLen_len, chainLen]; omega)
  have hp := ha.paired
  rw [ho.ld] at hp
  have hfresh : (setGatherLen (chainLen l h n) (metaAt l h)).pairedSt = none := (hf h).2
  exact absurd (hfresh.symm.trans hp) (by simp)

theorem open_iff_trailing (he : EndsInExit l) (hv : Inv l s cs o) (hr : ReachedEnd l s.pos) :
    (∃ c, o = some c) ↔ TrailingPair l := by
  have hlt : l.length ≤ 1 ∨ s.pos < l.length := by
    by_cases h1 : l.length ≤ 1
    · exact .inl h1
    · exact .inr (hr.2 (l.length - 2) (by omega) (he.not_pair _ (by omega)))
  constructor
  · rintro ⟨⟨h, n⟩, rfl⟩
    have ho : Open l s h n := hv.phase
    have hlast := ho.run.pair (Nat.le_refl n)
    have hpos := ho.pos
    have hend := hr.1
    have hlen := hlast.1
    exact ⟨h + 2 * n, by omega, hlast⟩
  · rintro ⟨q, hq, hp⟩
    cases o with
    | some c => exact ⟨c, rfl⟩
    | none =>
      have hi : Idle l s := hv.phase
      have hend := hr.1
      exact absurd hp (hi.fresh q (by omega))

theorem gather_consistent_iff (l : List Meta) (hf : Fresh l) (he : EndsInExit l) :
    Consistent l (nfpBpfOptLdstGather l) ↔ ¬ TrailingPair l := by
  obtain ⟨s, cs, o, hs, hv, hr⟩ := gather_final hf
  rw [← hs, ← open_iff_trailing he hv hr]
  cases o with
  | none =>
    refine ⟨?_, fun _ => hv.consistent hf hr.1⟩
    rintro - ⟨c, hc⟩
    exact Option.some_ne_none c hc.symm
  | some c => exact ⟨fun hc => absurd hc (Open.inconsistent hf hv.phase), fun hn => absurd ⟨c, rfl⟩ hn⟩

theorem fresh_of_mem (h : ∀ m ∈ l, m.ldstGatherLen = 0 ∧ m.pairedSt = none) : Fresh l := by
  intro k
  by_cases hk : k < l.length
  · have hat : metaAt l k = l[k] := by simp [metaAt, hk]
    rw [hat]
    exact h _ (List.getElem_mem hk)
  · rw [metaAt_of_length_le (by omega)]
    exact ⟨rfl, rfl⟩

def packetPtr : RegState := { RegState.zero with type := .ptrToPacket, id := 1 }

def ldxPacket (size : BitVec 8) (off : BitVec 16) : Meta :=
  { Meta.zero ⟨bpfLdx ||| bpfMem ||| size, 1, 2, off, 0⟩ 0 with ptr := packetPtr }

def stxPacket (size : BitVec 8) (off : BitVec 16) : Meta :=
  { Meta.zero ⟨bpfStx ||| bpfMem ||| size, 3, 1, off, 0⟩ 0 with ptr := packetPtr }

def exitMeta : Meta := Meta.zero ⟨bpfJmp ||| bpfExit, 0, 0, 0, 0⟩ 0

def movMeta : Meta := Meta.zero ⟨bpfAlu64 ||| bpfMov ||| bpfK, 0, 0, 0, 0⟩ 0

def onePairThenExit : List Meta := [ldxPacket bpfW 0, stxPacket bpfW 64, exitMeta]

def twoPairsThenMov : List Meta :=
  [ldxPacket bpfW 0, stxPacket bpfW 64, ldxPacket bpfW 4, stxPacket bpfW 68, movMeta, exitMeta]

theorem onePairThenExit_inconsistent :
    Fresh onePairThenExit ∧ EndsInExit onePairThenExit ∧
    (metaAt (nfpBpfOptLdstGather onePairThenExit) 0).ldstGatherLen = 4 ∧
    (metaAt (nfpBpfOptLdstGather onePairThenExit) 0).pairedSt = none ∧
    ¬ Consistent onePairThenExit (nfpBpfOptLdstGather onePairThenExit) := by
  have hlen : (metaAt (nfpBpfOptLdstGather onePairThenExit) 0).ldstGatherLen = 4 := by decide
  have hpair : (metaAt (nfpBpfOptLdstGather onePairThenExit) 0).pairedSt = none := by decide
  refine ⟨fresh_of_mem (by decide), ⟨2, rfl, by decide⟩, hlen, hpair, fun hc => ?_⟩
  obtain ⟨n, ha⟩ := hc.1 0 (by rw [hlen]; decide)
  exact absurd (hpair.symm.trans ha.paired) (by simp)

theorem twoPairsThenMov_consistent :
    Fresh twoPairsThenMov ∧ EndsInExit twoPairsThenMov ∧
    Consistent twoPairsThenMov (nfpBpfOptLdstGather twoPairsThenMov) := by
  have hf : Fresh twoPairsThenMov := fresh_of_mem (by decide)
  have he : EndsInExit twoPairsThenMov := ⟨5, rfl, by decide⟩
  refine ⟨hf, he, (gather_consistent_iff twoPairsThenMov hf he).mpr ?_⟩
  rintro ⟨q, hq, hp⟩
  obtain rfl : q = 3 := by
    have hlen : twoPairsThenMov.length = 6 := rfl
    omega
  exact absurd hp.2 (by decide)

end NfpDriver.Gather
