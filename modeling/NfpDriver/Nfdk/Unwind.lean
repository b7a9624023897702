import Mathlib.Data.List.Perm.Basic
import NfpDriver.Nfdk.Send

namespace NfpDriver.Nfdk

open Slots List

abbrev Mapping := Nat × Nat

-- the DMA mappings one transmit call makes and undoes, and how often it frees the packet
structure Dma where
  maps : List Mapping
  unmaps : List Mapping
  freed : Nat
  deriving DecidableEq, Repr

-- the comparison is the source's: it continues while the end lies before the slot to unmap
def unmapFrags (ktxbufs : Nat → Raw) (etxbuf : Nat) : Nat → List Nat → List Mapping
  | _, [] => []
  | txbuf, frag :: frags =>
    if etxbuf < txbuf then ((ktxbufs txbuf).dmaAddr, frag) :: unmapFrags ktxbufs etxbuf (txbuf + 1) frags else []

def unwind (ktxbufs : Nat → Raw) (wrIdx etxbuf : Nat) (skb : Skb) : List Mapping :=
  if wrIdx + 1 < etxbuf then
    ((ktxbufs (wrIdx + 1)).dmaAddr, skb.headlen) :: unmapFrags ktxbufs etxbuf (wrIdx + 2) skb.frags
  else unmapFrags ktxbufs etxbuf (wrIdx + 1) skb.frags

def sendMappedDma (k : Nat) (r : Ring) (skb : Skb) (head : Nat) (frags : List (Option Nat))
    (metadata lso : BitVec 64) : Dma :=
  let addrs := (mapFrags frags).1
  let bufs := .skb skb :: .dma head :: addrs.map .dma
  let maps := (head, skb.headlen) :: addrs.zip skb.frags
  let wrIdx := idx k r.wrP
  if (mapFrags frags).2 then
    let descs := packetDescs skb head addrs metadata lso
    if overflows k r descs.length then
      -- the slot of the segmentation data is stepped back over
      let etxbuf := wrIdx + (bufs ++ skb.tsoBuf).length - skb.gsoDescs
      ⟨maps, unwind (put k r descs (bufs ++ skb.tsoBuf)).ktxbufs wrIdx etxbuf skb, 1⟩
    else ⟨maps, [], 0⟩
  else ⟨maps, unwind (put k r (dataPart skb head addrs) bufs).ktxbufs wrIdx (wrIdx + bufs.length) skb, 1⟩

def nfpNfdkTxDma (k : Nat) (r : Ring) (env : TxEnv) : Dma :=
  if nfpNetTxFull k r 64 then ⟨[], [], 0⟩
  else
    match env.prep with
    | none => ⟨[], [], 1⟩
    | some (skb, metadata) =>
      if !env.featuresOk then ⟨[], [], 1⟩
      else
        match nfpNfdkTxMaybeCloseBlock k r skb env.linearized with
        | none => ⟨[], [], 1⟩
        | some (skb, r) =>
          match env.head with
          | none => ⟨[], [], 1⟩
          | some head => sendMappedDma k r skb head env.frags metadata env.lso

def Answered (env : TxEnv) : Prop :=
  ∀ skb metadata skb', env.prep = some (skb, metadata) → fitted skb env.linearized = some skb' →
    env.frags.length = skb'.frags.length

structure Undone (k : Nat) (r : Ring) (env : TxEnv) : Prop where
  unmapped : (nfpNfdkTxDma k r env).unmaps.Perm (nfpNfdkTxDma k r env).maps
  freed : (nfpNfdkTxDma k r env).freed = 1
  announced : ∃ nopSlots, (nopSlots = 0 ∨ nopSlots = dBlockCpl r.wrP) ∧
    (nfpNfdkTx k r env).1.wrP = r.wrP + BitVec.ofNat 32 nopSlots ∧ (nfpNfdkTx k r env).1.wrPtrAdd = 0 ∧
    (nfpNfdkTx k r env).1.qcpWr = r.qcpWr + r.wrPtrAdd + BitVec.ofNat 32 nopSlots

def FailsBeforeFrags (k : Nat) (r : Ring) (env : TxEnv) : Prop :=
  ∀ skb metadata skb' r' head, env.prep = some (skb, metadata) → env.featuresOk = true →
    nfpNfdkTxMaybeCloseBlock k r skb env.linearized = some (skb', r') → env.head = some head →
      (mapFrags env.frags).1 = []

section Unwind

variable {k : Nat} {r : Ring}

-- the end is never before the first slot of a fragment, so the loop does not run
theorem unmapFrags_nil {ktxbufs : Nat → Raw} {etxbuf txbuf : Nat} (h : txbuf ≤ etxbuf) (frags : List Nat) :
    unmapFrags ktxbufs etxbuf txbuf frags = [] := by
  cases frags with
  | nil => rfl
  | cons frag frags => exact if_neg (Nat.not_lt.mpr h)

theorem unwind_head {ktxbufs : Nat → Raw} {wrIdx etxbuf : Nat} (h : wrIdx + 2 ≤ etxbuf) (skb : Skb) :
    unwind ktxbufs wrIdx etxbuf skb = [((ktxbufs (wrIdx + 1)).dmaAddr, skb.headlen)] := by
  rw [unwind, if_pos (show wrIdx + 1 < etxbuf from h), unmapFrags_nil h]

theorem put_head (descs : List Desc) (skb : Skb) (head : Nat) (bufs : List Raw) :
    (put k r descs (.skb skb :: .dma head :: bufs)).ktxbufs (idx k r.wrP + 1) = .dma head :=
  write_get (idx k r.wrP) rfl

structure Flushed (r r' : Ring) (nopSlots : Nat) : Prop where
  wrP : r'.wrP = r.wrP + BitVec.ofNat 32 nopSlots
  wrPtrAdd : r'.wrPtrAdd = 0
  qcpWr : r'.qcpWr = r.qcpWr + r.wrPtrAdd + BitVec.ofNat 32 nopSlots

theorem flushed (r : Ring) : Flushed r (nfpNetTxXmitMoreFlush r) 0 :=
  ⟨(BitVec.add_zero _).symm, rfl, (BitVec.add_zero _).symm⟩

theorem flushed_scratch (descs : List Desc) (bufs : List Raw) (wrIdx : Nat) :
    Flushed r (nfpNetTxXmitMoreFlush (errUnmap (put k r descs bufs) wrIdx)) 0 :=
  ⟨(BitVec.add_zero _).symm, rfl, (BitVec.add_zero _).symm⟩

theorem Flushed.undone {env : TxEnv} {nopSlots : Nat} (h : Flushed r (nfpNfdkTx k r env).1 nopSlots)
    (hn : nopSlots = 0 ∨ nopSlots = dBlockCpl r.wrP) (hfreed : (nfpNfdkTxDma k r env).freed = 1) :
    Undone k r env ↔ (nfpNfdkTxDma k r env).unmaps.Perm (nfpNfdkTxDma k r env).maps :=
  ⟨Undone.unmapped, fun hp => ⟨hp, hfreed, nopSlots, hn, h.wrP, h.wrPtrAdd, h.qcpWr⟩⟩

theorem maybeClose_nops {skb skb' : Skb} {linearized : Bool} {r' t : Ring}
    (h : nfpNfdkTxMaybeCloseBlock k r skb linearized = some (skb', r')) (hf : Flushed r' t 0) :
    ∃ nopSlots, (nopSlots = 0 ∨ nopSlots = dBlockCpl r.wrP) ∧ Flushed r t nopSlots := by
  rw [nfpNfdkTxMaybeCloseBlock, Option.map_eq_some_iff] at h
  obtain ⟨s, -, heq⟩ := h
  split at heq
  · obtain ⟨rfl, rfl⟩ := Prod.mk.inj heq
    refine ⟨dBlockCpl r.wrP, .inr rfl, hf.wrP.trans (BitVec.add_zero _), hf.wrPtrAdd, hf.qcpWr.trans ?_⟩
    rw [BitVec.add_zero]
    exact (BitVec.add_assoc _ _ _).symm
  · obtain ⟨rfl, rfl⟩ := Prod.mk.inj heq
    exact ⟨0, .inl rfl, hf⟩

section Mapped

variable {skb : Skb} {head : Nat} {frags : List (Option Nat)} {metadata lso : BitVec 64} {flush : Bool}

theorem sendMapped_dropped (hd : (sendMapped k r skb head frags metadata lso flush).2 = .dropped) :
    Flushed r (sendMapped k r skb head frags metadata lso flush).1 0 ∧
      sendMappedDma k r skb head frags metadata lso =
        ⟨(head, skb.headlen) :: (mapFrags frags).1.zip skb.frags, [(head, skb.headlen)], 1⟩ := by
  obtain ⟨descs, hdescs⟩ := @exists_eq' _ (packetDescs skb head (mapFrags frags).1 metadata lso)
  simp only [sendMapped, hdescs] at hd ⊢
  simp only [sendMappedDma, hdescs]
  by_cases hok : (mapFrags frags).2 = true
  · rw [if_pos hok] at hd ⊢
    rw [if_pos hok]
    by_cases hover : overflows k r descs.length = true
    · rw [if_pos hover, if_pos hover, unwind_head, cons_append, cons_append, put_head]
      · exact ⟨flushed_scratch _ _ _, rfl⟩
      · simp only [length_append, length_cons, tsoBuf_length]
        omega
    · rw [if_neg hover] at hd
      cases hd
  · rw [if_neg hok, if_neg hok, unwind_head, put_head]
    · exact ⟨flushed_scratch _ _ _, rfl⟩
    · simp only [length_cons]
      omega

end Mapped

theorem maps_perm_iff {m : Mapping} {ms : List Mapping} : [m].Perm (m :: ms) ↔ ms = [] := by
  rw [perm_cons, nil_perm]

theorem zip_nil_iff {addrs sizes : List Nat} (h : addrs.length ≤ sizes.length) : addrs.zip sizes = [] ↔ addrs = [] := by
  rw [zip_eq_nil_iff]
  refine ⟨fun h' => h'.elim id fun hs => ?_, .inl⟩
  rw [hs] at h
  exact length_eq_zero_iff.mp (Nat.le_zero.mp h)

theorem mapFrags_le (frags : List (Option Nat)) : (mapFrags frags).1.length ≤ frags.length := by
  induction frags with
  | nil => exact Nat.le_refl 0
  | cons f frags ih =>
    cases f with
    | none => exact Nat.zero_le _
    | some addr => exact Nat.succ_le_succ ih

end Unwind

section Exact

variable {k : Nat} {r : Ring} {env : TxEnv}

theorem undone_early (hf : ∃ nopSlots, (nopSlots = 0 ∨ nopSlots = dBlockCpl r.wrP) ∧
    Flushed r (nfpNfdkTx k r env).1 nopSlots)
    (hdma : nfpNfdkTxDma k r env = ⟨[], [], 1⟩) : Undone k r env := by
  obtain ⟨nopSlots, hn, hf⟩ := hf
  refine (hf.undone hn (by rw [hdma])).mpr ?_
  rw [hdma]

theorem undone_mapped {skb skb' : Skb} {metadata : BitVec 64} {r' : Ring} {head : Nat} (henv : Answered env)
    (hroom : ¬nfpNetTxFull k r 64 = true) (hprep : env.prep = some (skb, metadata)) (hok : env.featuresOk = true)
    (hclose : nfpNfdkTxMaybeCloseBlock k r skb env.linearized = some (skb', r')) (hhead : env.head = some head)
    (hd : (nfpNfdkTx k r env).2 = .dropped) : Undone k r env ↔ (mapFrags env.frags).1 = [] := by
  have htx : nfpNfdkTx k r env = sendMapped k r' skb' head env.frags metadata env.lso env.flush := by
    simp only [nfpNfdkTx, if_neg hroom, hprep, hok, hclose, hhead]
    rfl
  have hdma : nfpNfdkTxDma k r env = sendMappedDma k r' skb' head env.frags metadata env.lso := by
    simp only [nfpNfdkTxDma, if_neg hroom, hprep, hok, hclose, hhead]
    rfl
  have hlen := henv skb metadata skb' hprep (maybeClose_log hclose).1
  rw [htx] at hd
  obtain ⟨hf, hsend⟩ := sendMapped_dropped hd
  rw [← htx] at hf
  obtain ⟨nopSlots, hn, hf⟩ := maybeClose_nops hclose hf
  rw [hf.undone hn (by rw [hdma, hsend]), hdma, hsend, maps_perm_iff, zip_nil_iff (hlen ▸ mapFrags_le env.frags)]

end Exact

theorem nfdk_tx_undone_iff (k : Nat) (r : Ring) (env : TxEnv) (henv : Answered env)
    (hd : (nfpNfdkTx k r env).2 = .dropped) : Undone k r env ↔ FailsBeforeFrags k r env := by
  by_cases hroom : nfpNetTxFull k r 64 = true
  · rw [nfpNfdkTx, if_pos hroom] at hd
    cases hd
  cases hprep : env.prep with
  | none =>
    refine iff_of_true (undone_early ⟨0, .inl rfl, ?_⟩ ?_) fun _ _ _ _ _ h => ?_
    · simp only [nfpNfdkTx, if_neg hroom, hprep]
      exact flushed r
    · simp only [nfpNfdkTxDma, if_neg hroom, hprep]
    · rw [hprep] at h
      cases h
  | some p =>
    obtain ⟨skb, metadata⟩ := p
    by_cases hok : env.featuresOk = true
    · cases hclose : nfpNfdkTxMaybeCloseBlock k r skb env.linearized with
      | none =>
        refine iff_of_true (undone_early ⟨0, .inl rfl, ?_⟩ ?_) fun _ _ _ _ _ h _ h' => ?_
        · simp only [nfpNfdkTx, if_neg hroom, hprep, hok, hclose]
          exact flushed r
        · simp only [nfpNfdkTxDma, if_neg hroom, hprep, hok, hclose]
          rfl
        · cases hprep.symm.trans h
          cases hclose.symm.trans h'
      | some c =>
        obtain ⟨skb', r'⟩ := c
        cases hhead : env.head with
        | none =>
          refine iff_of_true (undone_early (maybeClose_nops hclose ?_) ?_) fun _ _ _ _ _ _ _ _ h => ?_
          · simp only [nfpNfdkTx, if_neg hroom, hprep, hok, hclose, hhead]
            exact flushed r'
          · simp only [nfpNfdkTxDma, if_neg hroom, hprep, hok, hclose, hhead]
            rfl
          · cases hhead.symm.trans h
        | some head =>
          rw [undone_mapped henv hroom hprep hok hclose hhead hd]
          refine ⟨fun h _ _ _ _ _ _ _ _ _ => h, fun h => h skb metadata skb' r' head hprep hok hclose hhead⟩
    · refine iff_of_true (undone_early ⟨0, .inl rfl, ?_⟩ ?_) fun _ _ _ _ _ _ h => absurd h hok
      · simp only [nfpNfdkTx, if_neg hroom, hprep, Bool.not_eq_true] at hok ⊢
        rw [hok]
        exact flushed r
      · simp only [nfpNfdkTxDma, if_neg hroom, hprep, Bool.not_eq_true] at hok ⊢
        rw [hok]
        rfl

def twoFrags : Skb := ⟨0, 0, 100, [200, 300], none, by decide, by decide, by decide⟩

def emptyRing : Ring := .start (fun _ => .nop) (fun _ => .null)

def fragFails (frags : List (Option Nat)) : TxEnv := ⟨some (twoFrags, 0), true, true, some 4096, frags, 0, true⟩

theorem answered_fragFails {frags : List (Option Nat)} (h : frags.length = 2) : Answered (fragFails frags) := by
  intro skb metadata skb' hprep hfit
  cases hprep
  exact Option.some.inj hfit ▸ h

theorem first_frag_failure_undone : (nfpNfdkTx 7 emptyRing (fragFails [none, none])).2 = .dropped ∧
    nfpNfdkTxDma 7 emptyRing (fragFails [none, none]) = ⟨[(4096, 100)], [(4096, 100)], 1⟩ ∧
    Undone 7 emptyRing (fragFails [none, none]) := by
  refine ⟨rfl, rfl, (nfdk_tx_undone_iff 7 emptyRing _ (answered_fragFails rfl) rfl).mpr ?_⟩
  exact fun _ _ _ _ _ _ _ _ _ => rfl

theorem second_frag_failure_leaks : (nfpNfdkTx 7 emptyRing (fragFails [some 8192, none])).2 = .dropped ∧
    nfpNfdkTxDma 7 emptyRing (fragFails [some 8192, none]) = ⟨[(4096, 100), (8192, 200)], [(4096, 100)], 1⟩ ∧
    ¬Undone 7 emptyRing (fragFails [some 8192, none]) := by
  have hdma : nfpNfdkTxDma 7 emptyRing (fragFails [some 8192, none]) =
      ⟨[(4096, 100), (8192, 200)], [(4096, 100)], 1⟩ := rfl
  refine ⟨rfl, hdma, fun h => ?_⟩
  have hp := h.unmapped
  exact absurd hp.length_eq (by decide)

end NfpDriver.Nfdk
