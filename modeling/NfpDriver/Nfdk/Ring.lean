import NfpDriver.Library.Slots
import NfpDriver.Nfdk.Desc

namespace NfpDriver.Nfdk

open Slots

abbrev Ptr := BitVec 32

inductive Raw where
  | null
  | skb (skb : Skb)
  | dma (dmaAddr : Nat)
  | tso (pktCnt realLen : Nat)
  | sop (frag : Nat)
  deriving DecidableEq

def Raw.dmaAddr : Raw → Nat
  | .dma dmaAddr => dmaAddr
  | _ => 0

inductive Entry where
  | packet (skb : Skb) (head : Nat) (addrs : List Nat) (descs : List Desc)
  | xdp (frag dmaAddr pktLen : Nat) (descs : List Desc)
  | closed (nopSlots : Nat)
  deriving DecidableEq

def Entry.descs : Entry → List Desc
  | .packet _ _ _ descs => descs
  | .xdp _ _ _ descs => descs
  | .closed nopSlots => List.replicate nopSlots .nop

def Entry.size (e : Entry) : Nat := e.descs.length

def Entry.bytes : Entry → Nat
  | .packet skb _ _ _ => skb.len
  | .xdp _ _ pktLen _ => pktLen
  | .closed _ => 0

structure Ring where
  wrP : Ptr
  rdP : Ptr
  qcpRdP : Ptr
  wrPtrAdd : Ptr
  qcpWr : Ptr
  dataPending : BitVec 16
  ktxds : Nat → Desc
  ktxbufs : Nat → Raw
  log : List Entry

def Ring.start (ktxds : Nat → Desc) (ktxbufs : Nat → Raw) : Ring := ⟨0, 0, 0, 0, 0, 0, ktxds, ktxbufs, []⟩

def nfpNetTxFull (k : Nat) (r : Ring) (dcnt : Nat) : Bool :=
  (BitVec.ofNat 32 (2 ^ k) - BitVec.ofNat 32 dcnt).toNat ≤ (r.wrP - r.rdP).toNat

def nfpNetTxXmitMoreFlush (r : Ring) : Ring := { r with qcpWr := r.qcpWr + r.wrPtrAdd, wrPtrAdd := 0 }

def dBlockCpl (p : Ptr) : Nat := 32 - p.toNat % 32

def roundDown (n : Nat) : Nat := n - n % 32

def crossesBlock (p : Ptr) (nDescs : Nat) : Bool := roundDown p.toNat ≠ roundDown (p + BitVec.ofNat 32 nDescs).toNat

def mustClose (r : Ring) (nDescs len : Nat) : Bool :=
  crossesBlock r.wrP nDescs || decide (65536 < u32 (r.dataPending.toNat + len))

def closeBlock (k : Nat) (r : Ring) : Ring :=
  let nopSlots := dBlockCpl r.wrP
  { r with
    ktxds := write r.ktxds (idx k r.wrP) (List.replicate nopSlots .nop)
    dataPending := 0
    wrP := r.wrP + BitVec.ofNat 32 nopSlots
    wrPtrAdd := r.wrPtrAdd + BitVec.ofNat 32 nopSlots
    log := r.log ++ [.closed nopSlots] }

def fitted (skb : Skb) (linearized : Bool) : Option Skb :=
  if skb.segs ≤ 17 then some skb
  else if skb.frags ≠ [] ∧ linearized then
    if skb.linearize.segs ≤ 17 then some skb.linearize else none
  else none

def nfpNfdkTxMaybeCloseBlock (k : Nat) (r : Ring) (skb : Skb) (linearized : Bool) : Option (Skb × Ring) :=
  (fitted skb linearized).map fun skb =>
    if mustClose r (skb.segs + skb.gsoDescs) skb.len then
      (skb, closeBlock k { r with ktxbufs := Function.update r.ktxbufs (idx k r.wrP) .null })
    else (skb, r)

def commit (r : Ring) (e : Entry) : Ring :=
  let wrP := r.wrP + BitVec.ofNat 32 e.size
  { r with
    wrP := wrP
    dataPending := if wrP.toNat % 32 ≠ 0 then r.dataPending + BitVec.ofNat 16 e.bytes else 0
    wrPtrAdd := r.wrPtrAdd + BitVec.ofNat 32 e.size
    log := r.log ++ [e] }

inductive Outcome where
  | sent
  | busy
  | dropped
  deriving DecidableEq, Repr

def errUnmap (r : Ring) (wrIdx : Nat) : Ring := { r with ktxbufs := Function.update r.ktxbufs (wrIdx + 1) .null }

def put (k : Nat) (r : Ring) (descs : List Desc) (bufs : List Raw) : Ring :=
  { r with
    ktxds := write r.ktxds (idx k r.wrP) descs
    ktxbufs := write r.ktxbufs (idx k r.wrP) bufs }

def overflows (k : Nat) (r : Ring) (cnt : Nat) : Bool := roundDown (idx k r.wrP) ≠ roundDown (idx k r.wrP + cnt - 1)

def mapFrags : List (Option Nat) → List Nat × Bool
  | [] => ([], true)
  | none :: _ => ([], false)
  | some addr :: rest => (addr :: (mapFrags rest).1, (mapFrags rest).2)

def Skb.tsoBuf (skb : Skb) : List Raw :=
  match skb.gso with
  | none => []
  | some gso => [.tso gso.segs (skb.len + gso.hdrlen * (gso.segs - 1))]

def sendMapped (k : Nat) (r : Ring) (skb : Skb) (head : Nat) (frags : List (Option Nat)) (metadata lso : BitVec 64)
    (flush : Bool) : Ring × Outcome :=
  let addrs := (mapFrags frags).1
  let bufs := .skb skb :: .dma head :: addrs.map .dma
  if (mapFrags frags).2 then
    let descs := packetDescs skb head addrs metadata lso
    let r' := put k r descs (bufs ++ skb.tsoBuf)
    if overflows k r descs.length then (nfpNetTxXmitMoreFlush (errUnmap r' (idx k r.wrP)), .dropped)
    else
      let r' := commit r' (.packet skb head addrs descs)
      (if flush then nfpNetTxXmitMoreFlush r' else r', .sent)
  else
    (nfpNetTxXmitMoreFlush (errUnmap (put k r (dataPart skb head addrs) bufs) (idx k r.wrP)), .dropped)

structure TxEnv where
  prep : Option (Skb × BitVec 64)
  featuresOk : Bool
  linearized : Bool
  head : Option Nat
  frags : List (Option Nat)
  lso : BitVec 64
  flush : Bool
  deriving DecidableEq

def nfpNfdkTx (k : Nat) (r : Ring) (env : TxEnv) : Ring × Outcome :=
  if nfpNetTxFull k r 64 then (nfpNetTxXmitMoreFlush r, .busy)
  else
    match env.prep with
    | none => (nfpNetTxXmitMoreFlush r, .dropped)
    | some (skb, metadata) =>
      if !env.featuresOk then (nfpNetTxXmitMoreFlush r, .dropped)
      else
        match nfpNfdkTxMaybeCloseBlock k r skb env.linearized with
        | none => (nfpNetTxXmitMoreFlush r, .dropped)
        | some (skb, r) =>
          match env.head with
          | none => (nfpNetTxXmitMoreFlush r, .dropped)
          | some head => sendMapped k r skb head env.frags metadata env.lso env.flush

def ctrlMeta (hasMeta : Bool) : BitVec 64 := if hasMeta then 8 else 0

def ctrlPush (skb : Skb) (hasMeta : Bool) : Option Skb :=
  if hasMeta then if h : 8 ≤ skb.headroom then some (skb.push 8 h) else none else some skb

def ctrlSendMapped (k : Nat) (r : Ring) (skb : Skb) (hasMeta : Bool) (head : Nat) : Ring × Outcome :=
  let descs := packetDescs skb head [] (ctrlMeta hasMeta) 0
  let r' := put k r descs [.skb skb, .dma head]
  if overflows k r descs.length then (errUnmap r' (idx k r.wrP), .dropped)
  else (nfpNetTxXmitMoreFlush (commit r' (.packet skb head [] descs)), .sent)

def ctrlSend (k : Nat) (r : Ring) (skb : Skb) (hasMeta : Bool) (dma : Option Nat) : Ring × Outcome :=
  match ctrlPush skb hasMeta with
  | none => (r, .dropped)
  | some skb =>
    match nfpNfdkTxMaybeCloseBlock k r skb false with
    | none => (r, .dropped)
    | some (skb, r) =>
      match dma with
      | none => (r, .dropped)
      | some head => ctrlSendMapped k r skb hasMeta head

def nfpNfdkCtrlTxOne (k : Nat) (r : Ring) (skb : Skb) (hasMeta : Bool) (dma : Option Nat) : Ring × Outcome :=
  if skb.frags ≠ [] then (r, .dropped)
  else if nfpNetTxFull k r 64 then (r, .busy)
  else ctrlSend k r skb hasMeta dma

def Raw.nDescs (rdP : Ptr) : Raw → Nat
  | .skb s => 1 + s.segs + s.gsoDescs
  | _ => dBlockCpl rdP

def Raw.consumed : Raw → List Skb
  | .skb s => [s]
  | _ => []

structure Walk where
  rdP : Ptr
  consumed : List Skb

def walkOne (k : Nat) (r : Ring) (w : Walk) : Walk :=
  let raw := r.ktxbufs (idx k w.rdP)
  ⟨w.rdP + BitVec.ofNat 32 (raw.nDescs w.rdP), w.consumed ++ raw.consumed⟩

def completeLoop (k : Nat) (r : Ring) : Nat → Nat → Walk → Walk
  | 0, _, w => w
  | fuel + 1, todo, w =>
    if todo = 0 then w
    else completeLoop k r fuel (todo - (r.ktxbufs (idx k w.rdP)).nDescs w.rdP) (walkOne k r w)

def nfpNfdkTxComplete (k : Nat) (r : Ring) (qcpRdP : Ptr) : Ring × List Skb :=
  if r.wrP = r.rdP then (r, [])
  else if qcpRdP = r.qcpRdP then (r, [])
  else
    let todo := idx k (qcpRdP - r.qcpRdP)
    let w := completeLoop k r todo todo ⟨r.rdP, []⟩
    ({ r with rdP := w.rdP, qcpRdP := qcpRdP }, w.consumed)

def resetLoop (k : Nat) (r : Ring) : Nat → Walk → Walk
  | 0, w => w
  | fuel + 1, w => if w.rdP = r.wrP then w else resetLoop k r fuel (walkOne k r w)

def nfpNfdkTxRingReset (k : Nat) (r : Ring) : Walk := resetLoop k r (2 ^ k) ⟨r.rdP, []⟩

end NfpDriver.Nfdk
