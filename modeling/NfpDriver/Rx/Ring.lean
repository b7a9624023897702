import NfpDriver.Library.Slots

namespace NfpDriver.Rx

open Slots BitVec List

abbrev Ptr := BitVec 32

abbrev Buf := Nat × Nat

structure Desc where
  metaLen : BitVec 7
  dataLen : BitVec 16
  deriving DecidableEq, Repr

structure Ring where
  wrP : Ptr
  rdP : Ptr
  rxbufs : Nat → Buf
  rxds : Nat → Option Desc
  qcpFl : Nat

def flBatch : Nat := 16

def giveOne (k : Nat) (rx : Ring) (buf : Buf) : Ring :=
  let wrIdx := idx k rx.wrP
  { rx with
    rxbufs := Function.update rx.rxbufs wrIdx buf
    rxds := Function.update rx.rxds wrIdx none
    wrP := rx.wrP + 1
    qcpFl := if (rx.wrP + 1).toNat % flBatch = 0 then rx.qcpFl + flBatch else rx.qcpFl }

def giveAll (k : Nat) (rx : Ring) (bufs : List Buf) : Ring := bufs.foldl (giveOne k) rx

def bufsAlloc (bufs : List Buf) : Ring := ⟨0, 0, fun i => bufs.getD i (0, 0), fun _ => none, 0⟩

def fillFreelist (k : Nat) (rx : Ring) : Ring :=
  (List.range (2 ^ k - 1)).foldl (fun rx i => giveOne k rx (rx.rxbufs i)) rx

def freeList (k : Nat) (rx : Ring) : List Buf := queue k rx.rxbufs rx.rdP (rx.wrP - rx.rdP).toNat

structure Config where
  rxDmaOff : BitVec 32
  rxOffset : BitVec 32
  dmaMapSz : BitVec 32
  chainedMetadataFormat : Bool
  xdpProg : Bool
  deriving DecidableEq, Repr

inductive Verdict where
  | pass
  | tx
  | drop
  | aborted
  | invalid
  deriving DecidableEq, Repr

structure Env where
  portid : Option (BitVec 32)
  verdict : Verdict
  adjusted : Option (BitVec 32 × BitVec 32)
  netdev : Bool
  built : Bool
  newBuf : Option Buf
  vlanStrip : Bool
  ipsec : Bool
  deriving DecidableEq, Repr

inductive Exit where
  | recycle
  | noReplacement
  | replace (newBuf : Buf) (delivered : Bool)
  | xdpTx (dmaOff pktLen : BitVec 32)
  deriving DecidableEq, Repr

def portIdCtrl : BitVec 32 := 0xffffffff

def stackExit (env : Env) : Exit :=
  if env.built then
    match env.newBuf with
    | none => .noReplacement
    | some newBuf => .replace newBuf (env.vlanStrip && env.ipsec)
  else .recycle

def portExit (portid : BitVec 32) (env : Env) : Exit :=
  if portid = 0 then stackExit env
  else if portid = portIdCtrl then .recycle
  else if env.netdev then stackExit env
  else .recycle

def rxExit (cfg : Config) (rxd : Desc) (env : Env) : Exit :=
  let metaLen := rxd.metaLen.setWidth 32
  let pktLen := rxd.dataLen.setWidth 32 - metaLen
  let dmaOff := cfg.rxDmaOff + if cfg.rxOffset = 0 then metaLen else cfg.rxOffset
  if 64 < metaLen ∨ cfg.rxOffset ≠ 0 ∧ cfg.rxOffset < metaLen then .recycle
  else
    match if cfg.chainedMetadataFormat ∧ metaLen ≠ 0 then env.portid else some 0 with
    | none => .recycle
    | some portid =>
      if cfg.xdpProg ∧ portid = 0 then
        match env.verdict with
        | .pass => portExit portid env
        | .tx =>
          match env.adjusted with
          | none => .xdpTx dmaOff pktLen
          | some (dmaOff, pktLen) => .xdpTx dmaOff pktLen
        | .drop => .recycle
        | .aborted => .recycle
        | .invalid => .recycle
      else portExit portid env

inductive XdpOutcome where
  | rejected
  | dropped
  | sent
  deriving DecidableEq, Repr

structure XdpTx (τ : Type) where
  tx : τ
  rx : Ring
  completed : Bool
  outcome : XdpOutcome

structure Pool where
  refs : Buf → Nat
  stack : List Buf

def pageRefInc (refs : Buf → Nat) (buf : Buf) : Buf → Nat := Function.update refs buf (refs buf + 1)

def freeFrag (refs : Buf → Nat) (buf : Buf) : Buf → Nat := Function.update refs buf (refs buf - 1)

def allocOne (refs : Buf → Nat) (buf : Buf) : Buf → Nat := Function.update refs buf 1

def rxDrop (k : Nat) (rx : Ring) (refs : Buf → Nat) (rxbuf skb : Option Buf) : Ring × (Buf → Nat) :=
  let refs := match rxbuf, skb with
    | some rxbuf, some head => if head = rxbuf then pageRefInc refs rxbuf else refs
    | _, _ => refs
  let rx := match rxbuf with
    | some rxbuf => giveOne k rx rxbuf
    | none => rx
  let refs := match skb with
    | some head => freeFrag refs head
    | none => refs
  (rx, refs)

def handOver (k : Nat) (rx : Ring) (pool : Pool) (rxbuf : Buf) : Exit → Ring × Pool
  | .recycle =>
    let d := rxDrop k rx pool.refs (some rxbuf) none
    (d.1, { pool with refs := d.2 })
  | .noReplacement =>
    let d := rxDrop k rx pool.refs (some rxbuf) (some rxbuf)
    (d.1, { pool with refs := d.2 })
  | .replace newBuf delivered =>
    let refs := allocOne pool.refs newBuf
    let rx := giveOne k rx newBuf
    if delivered then (rx, ⟨refs, pool.stack ++ [rxbuf]⟩)
    else
      let d := rxDrop k rx refs none (some rxbuf)
      (d.1, ⟨d.2, pool.stack⟩)
  | .xdpTx _ _ => (rx, pool)

def free (rx : Ring) : Nat := (rx.wrP - rx.rdP).toNat

def pop (rx : Ring) : Ring := { rx with rdP := rx.rdP + 1 }

section FreeList

variable {k : Nat} {rx : Ring}

theorem freeList_length : (freeList k rx).length = free rx := queue_length

theorem giveOne_free (h : free rx < 2 ^ 32 - 1) (buf : Buf) : free (giveOne k rx buf) = free rx + 1 := by
  have hsub : rx.wrP + 1 - rx.rdP = rx.wrP - rx.rdP + 1 := BitVec.add_sub_comm
  have hone : (1 : BitVec 32).toNat = 1 := rfl
  rw [free] at h ⊢
  rw [giveOne, hsub, toNat_add, hone]
  exact Nat.mod_eq_of_lt (by omega)

theorem giveOne_freeList (hk : k < 32) (h : free rx < 2 ^ k) (buf : Buf) :
    freeList k (giveOne k rx buf) = freeList k rx ++ [buf] := by
  have hpow : 2 ^ k ≤ 2 ^ 31 := Nat.pow_le_pow_right (by decide) (Nat.le_of_lt_succ hk)
  have hfree := giveOne_free (k := k) (show free rx < 2 ^ 32 - 1 by omega) buf
  have hwr : rx.wrP = rx.rdP + BitVec.ofNat 32 (free rx) := by
    rw [free, ofNat_toNat, setWidth_eq, BitVec.add_comm]
    exact (BitVec.sub_add_cancel _ _).symm
  have hsnoc : queue k (Function.update rx.rxbufs (idx k (rx.rdP + BitVec.ofNat 32 (free rx))) buf) rx.rdP
      (free rx + 1) =
      queue k rx.rxbufs rx.rdP (free rx) ++ [buf] := queue_snoc (le_of_lt hk) h buf
  rw [← hwr] at hsnoc
  exact (congrArg (queue k _ rx.rdP) hfree).trans hsnoc

theorem giveAll_freeList (hk : k < 32) {bufs : List Buf} (h : free rx + bufs.length ≤ 2 ^ k) :
    freeList k (giveAll k rx bufs) = freeList k rx ++ bufs := by
  induction bufs generalizing rx with
  | nil => exact (append_nil _).symm
  | cons buf bufs ih =>
    rw [length_cons] at h
    have hpow : 2 ^ k ≤ 2 ^ 31 := Nat.pow_le_pow_right (by decide) (Nat.le_of_lt_succ hk)
    have hfree := giveOne_free (k := k) (show free rx < 2 ^ 32 - 1 by omega) buf
    have hrest := ih (show free (giveOne k rx buf) + bufs.length ≤ 2 ^ k by omega)
    rw [giveOne_freeList hk (by omega), List.append_assoc, List.singleton_append] at hrest
    exact hrest

theorem pop_giveOne (buf : Buf) : giveOne k (pop rx) buf = pop (giveOne k rx buf) := rfl

theorem pop_giveAll (bufs : List Buf) : giveAll k (pop rx) bufs = pop (giveAll k rx bufs) := by
  induction bufs generalizing rx with
  | nil => rfl
  | cons buf bufs ih => exact @ih (giveOne k rx buf)

theorem pop_freeList {buf : Buf} {rest : List Buf} (h : freeList k rx = buf :: rest) :
    rx.rxbufs (idx k rx.rdP) = buf ∧ freeList k (pop rx) = rest := by
  have hlen := congrArg length h
  rw [freeList_length, length_cons] at hlen
  have hsub : rx.wrP - (rx.rdP + 1) = rx.wrP - rx.rdP - 1 := sub_add_eq_sub_sub rx.wrP rx.rdP 1
  have hfree : free (pop rx) = rest.length := by
    have hone : (1 : BitVec 32).toNat = 1 := rfl
    rw [free] at hlen
    rw [free, pop, hsub, toNat_sub, hone, hlen]
    omega
  have hqueue : freeList k rx = rx.rxbufs (idx k rx.rdP) :: queue k rx.rxbufs (rx.rdP + 1) rest.length := by
    rw [freeList, ← free, hlen, queue_head]
  rw [h] at hqueue
  obtain ⟨hhead, htail⟩ := cons.inj hqueue
  refine ⟨hhead.symm, htail.symm ▸ ?_⟩
  exact congrArg (queue k rx.rxbufs (rx.rdP + 1)) hfree

theorem pop_empty (h : freeList k rx = []) : free (pop rx) = 2 ^ 32 - 1 := by
  have hlen := congrArg length h
  rw [freeList_length, free] at hlen
  have hsub : rx.wrP - (rx.rdP + 1) = rx.wrP - rx.rdP - 1 := sub_add_eq_sub_sub rx.wrP rx.rdP 1
  have hzero : rx.wrP - rx.rdP = 0 := eq_of_toNat_eq hlen
  rw [free, pop, hsub, hzero]
  rfl

theorem fillFreelist_freeList (hk : k < 32) {bufs : List Buf} (hlen : bufs.length = 2 ^ k - 1) :
    freeList k (fillFreelist k (bufsAlloc bufs)) = bufs := by
  have hpow : 2 ^ k < 2 ^ 32 := Nat.pow_lt_pow_right (by decide) hk
  have hfold (n : Nat) (hn : n ≤ 2 ^ k - 1) :
      ((range n).foldl (fun rx i => giveOne k rx (rx.rxbufs i)) (bufsAlloc bufs)).wrP = BitVec.ofNat 32 n ∧
      ((range n).foldl (fun rx i => giveOne k rx (rx.rxbufs i)) (bufsAlloc bufs)).rdP = 0 ∧
      ((range n).foldl (fun rx i => giveOne k rx (rx.rxbufs i)) (bufsAlloc bufs)).rxbufs = (bufsAlloc bufs).rxbufs := by
    induction n with
    | zero => exact ⟨rfl, rfl, rfl⟩
    | succ n ih =>
      obtain ⟨hwr, hrd, hbufs⟩ := ih (by omega)
      rw [range_succ, foldl_append, foldl_cons, foldl_nil]
      refine ⟨?_, hrd, ?_⟩
      · rw [giveOne, hwr, ofNat_add]
        rfl
      · rw [giveOne, hwr, idx_ofNat (le_of_lt hk), Nat.mod_eq_of_lt (by omega), Function.update_eq_self]
        exact hbufs
  obtain ⟨hwr, hrd, hbufs⟩ := hfold (2 ^ k - 1) le_rfl
  have hfree : free (fillFreelist k (bufsAlloc bufs)) = 2 ^ k - 1 := by
    rw [free, fillFreelist, hwr, hrd, sub_zero, toNat_ofNat, Nat.mod_eq_of_lt (by omega)]
  rw [freeList, ← free, hfree, fillFreelist, hbufs, hrd]
  refine ext_getElem (queue_length.trans hlen.symm) fun i hi hi' => ?_
  have hmod : idx k (0 + BitVec.ofNat 32 i) = i := by
    rw [zero_add, idx_ofNat (le_of_lt hk), Nat.mod_eq_of_lt (by omega)]
  simp only [queue, getElem_map, getElem_range, hmod, bufsAlloc]
  rw [List.getD_eq_getElem?_getD, List.getElem?_eq_getElem hi', Option.getD_some]

end FreeList

end NfpDriver.Rx
