import Mathlib.Data.List.Perm.Basic
import NfpDriver.Library.Runs
import NfpDriver.Library.Slots

namespace NfpDriver.Nfd3

open Runs Slots

abbrev Ptr := BitVec 32

structure Gso where
  segs : Nat
  hdrlen : Nat
  deriving DecidableEq, Repr

structure Skb where
  uid : Nat
  headlen : Nat
  frags : List Nat
  gso : Option Gso
  deriving DecidableEq, Repr

def Skb.len (skb : Skb) : Nat := skb.headlen + skb.frags.sum

def Skb.pktCnt (skb : Skb) : BitVec 16 :=
  match skb.gso with
  | none => 1
  | some gso => BitVec.ofNat 16 gso.segs

def Skb.realLen (skb : Skb) : BitVec 32 :=
  match skb.gso with
  | none => BitVec.ofNat 32 skb.len
  | some gso => BitVec.ofNat 32 skb.len + BitVec.ofNat 32 gso.hdrlen * (skb.pktCnt.setWidth 32 - 1)

structure TxBuf where
  skb : Option Skb
  dmaAddr : Nat
  fidx : Int
  pktCnt : BitVec 16
  realLen : BitVec 32
  deriving DecidableEq, Repr

abbrev Mapping := Nat × Nat

structure Packet where
  skb : Skb
  head : Nat
  frags : List Nat
  deriving DecidableEq, Repr

structure St where
  wrP : Ptr
  rdP : Ptr
  qcpRdP : Ptr
  wrPtrAdd : Ptr
  txbufs : Nat → TxBuf
  qcpWr : Ptr
  qcpRd : Ptr
  sentBytes : BitVec 32
  sentPkts : BitVec 32
  completedBytes : BitVec 32
  completedPkts : BitVec 32
  sent : List Packet
  done : Nat
  devDone : Nat
  maps : List Mapping
  unmaps : List Mapping
  consumed : List Skb
  dropped : List Skb

def nfpNetTxFull (k : Nat) (st : St) (dcnt : Nat) : Bool :=
  (BitVec.ofNat 32 (2 ^ k) - BitVec.ofNat 32 dcnt).toNat ≤ (st.wrP - st.rdP).toNat

def nfpNetTxXmitMoreFlush (st : St) : St := { st with qcpWr := st.qcpWr + st.wrPtrAdd, wrPtrAdd := 0 }

def clearBuf (b : TxBuf) : TxBuf := { b with skb := none, dmaAddr := 0, fidx := -2 }

structure Gather where
  txbufs : Nat → TxBuf
  wrIdx : Nat
  f : Nat
  mapped : List Mapping
  ok : Bool

def gather (k : Nat) (skb : Skb) (g : Gather) : List (Nat × Option Nat) → Gather
  | [] => g
  | (_, none) :: _ => { g with ok := false }
  | (fsize, some dmaAddr) :: rest =>
    let wrIdx := (g.wrIdx + 1) &&& (2 ^ k - 1)
    gather k skb
      { txbufs := Function.update g.txbufs wrIdx
          { g.txbufs wrIdx with skb := some skb, dmaAddr := dmaAddr, fidx := g.f }
        wrIdx := wrIdx
        f := g.f + 1
        mapped := g.mapped ++ [(dmaAddr, fsize)]
        ok := g.ok } rest

structure Unwind where
  txbufs : Nat → TxBuf
  wrIdx : Nat
  unmapped : List Mapping

def unwindFrags (k : Nat) (skb : Skb) : Nat → Unwind → Unwind
  | 0, u => u
  | f + 1, u =>
    unwindFrags k skb f
      { txbufs := Function.update u.txbufs u.wrIdx (clearBuf (u.txbufs u.wrIdx))
        wrIdx := if u.wrIdx = 0 then 2 ^ k - 1 else u.wrIdx - 1
        unmapped := u.unmapped ++ [((u.txbufs u.wrIdx).dmaAddr, skb.frags.getD f 0)] }

def errUnmap (k : Nat) (skb : Skb) (f : Nat) (u : Unwind) : Unwind :=
  let u := unwindFrags k skb f u
  { txbufs := Function.update u.txbufs u.wrIdx (clearBuf (u.txbufs u.wrIdx))
    wrIdx := u.wrIdx
    unmapped := u.unmapped ++ [((u.txbufs u.wrIdx).dmaAddr, skb.headlen)] }

def errFlush (st : St) (skb : Skb) : St := { nfpNetTxXmitMoreFlush st with dropped := st.dropped ++ [skb] }

def headBuf (skb : Skb) (dmaAddr : Nat) : TxBuf := ⟨some skb, dmaAddr, -1, skb.pktCnt, skb.realLen⟩

def sendMapped (k : Nat) (st : St) (skb : Skb) (head : Nat) (frags : List (Option Nat)) (flush : Bool) : St :=
  let wrIdx := idx k st.wrP
  let g := gather k skb ⟨Function.update st.txbufs wrIdx (headBuf skb head), wrIdx, 0, [(head, skb.headlen)], true⟩
    (skb.frags.zip frags)
  if g.ok then
    let nr := BitVec.ofNat 32 (skb.frags.length + 1)
    let st := { st with
      txbufs := g.txbufs
      wrP := st.wrP + nr
      wrPtrAdd := st.wrPtrAdd + nr
      maps := st.maps ++ g.mapped
      sent := st.sent ++ [⟨skb, head, frags.map (·.getD 0)⟩]
      sentBytes := st.sentBytes + skb.realLen
      sentPkts := st.sentPkts + skb.pktCnt.setWidth 32 }
    if flush then nfpNetTxXmitMoreFlush st else st
  else
    let u := errUnmap k skb g.f ⟨g.txbufs, g.wrIdx, []⟩
    errFlush { st with txbufs := u.txbufs, maps := st.maps ++ g.mapped, unmaps := st.unmaps ++ u.unmapped } skb

structure Dma where
  head : Option Nat
  frags : List (Option Nat)
  deriving DecidableEq, Repr

def nfpNfd3Tx (k : Nat) (st : St) (skb : Skb) (prep : Option Skb) (dma : Dma) (flush : Bool) : St :=
  if nfpNetTxFull k st (skb.frags.length + 1) then nfpNetTxXmitMoreFlush st
  else
    match prep with
    | none => errFlush st skb
    | some skb =>
      match dma.head with
      | none => errFlush st skb
      | some head => sendMapped k st skb head dma.frags flush

structure Done where
  st : St
  pkts : BitVec 32
  bytes : BitVec 32

def completeOne (k : Nat) (d : Done) : Done :=
  let i := idx k d.st.rdP
  let b := d.st.txbufs i
  let st := { d.st with rdP := d.st.rdP + 1, done := d.st.done + 1 }
  match b.skb with
  | none => { d with st := st }
  | some skb =>
    let unmapped := if b.fidx = -1 then skb.headlen else skb.frags.getD b.fidx.toNat 0
    { st := { st with
        txbufs := Function.update st.txbufs i (clearBuf b)
        unmaps := st.unmaps ++ [(b.dmaAddr, unmapped)]
        consumed := st.consumed ++ if b.fidx = (skb.frags.length : Int) - 1 then [skb] else [] }
      pkts := if b.fidx = -1 then d.pkts + b.pktCnt.setWidth 32 else d.pkts
      bytes := if b.fidx = -1 then d.bytes + b.realLen else d.bytes }

def completeLoop (k : Nat) : Nat → Done → Done
  | 0, d => d
  | todo + 1, d => completeLoop k todo (completeOne k d)

def nfpQcpRdPtrRead (qcpRd : Ptr) : Ptr := qcpRd &&& 0x3ffff

-- the device writes its pointer back if the ring has a write-back area
def nfpNetReadTxCmpl (txrwb : Bool) (qcpRd : Ptr) : Ptr := if txrwb then qcpRd else nfpQcpRdPtrRead qcpRd

def nfpNfd3TxComplete (k : Nat) (txrwb : Bool) (st : St) : St :=
  let qcpRdP := nfpNetReadTxCmpl txrwb st.qcpRd
  if st.wrP = st.rdP then st
  else if qcpRdP = st.qcpRdP then st
  else
    let d := completeLoop k (idx k (qcpRdP - st.qcpRdP)) ⟨st, 0, 0⟩
    { d.st with
      qcpRdP := qcpRdP
      completedPkts := d.st.completedPkts + d.pkts
      completedBytes := d.st.completedBytes + d.bytes }

inductive Action where
  | tx (skb : Skb) (prep : Option Skb) (dma : Dma) (flush : Bool)
  | complete
  | advance (n : Nat)
  deriving DecidableEq, Repr

def prepares (skb : Skb) (prep : Option Skb) : Bool :=
  match prep with
  | none => true
  | some skb' => skb'.frags = skb.frags || skb'.frags = []

def step (k maxSkbFrags : Nat) (txrwb : Bool) (st : St) : Action → Option St
  | .tx skb prep dma flush =>
    if skb.frags.length ≤ maxSkbFrags ∧ prepares skb prep ∧ (∀ skb' ∈ prep, dma.frags.length = skb'.frags.length) then
      some (nfpNfd3Tx k st skb prep dma flush)
    else none
  | .complete => some (nfpNfd3TxComplete k txrwb st)
  | .advance n =>
    if n ≤ (st.qcpWr - st.qcpRd).toNat then
      some { st with qcpRd := st.qcpRd + BitVec.ofNat 32 n, devDone := st.devDone + n }
    else none

def start (txbufs : Nat → TxBuf) : St :=
  ⟨0, 0, 0, 0, txbufs, 0, 0, 0, 0, 0, 0, [], 0, 0, [], [], [], []⟩

structure Entry where
  skb : Option Skb
  dmaAddr : Nat
  fidx : Int
  pktCnt : BitVec 32
  realLen : BitVec 32
  deriving DecidableEq, Repr

def TxBuf.view (b : TxBuf) : Entry :=
  ⟨b.skb, b.dmaAddr, b.fidx, if b.fidx = -1 then b.pktCnt.setWidth 32 else 0, if b.fidx = -1 then b.realLen else 0⟩

def fragEntries (skb : Skb) (f : Nat) : List Nat → List Entry
  | [] => []
  | dmaAddr :: rest => ⟨some skb, dmaAddr, f, 0, 0⟩ :: fragEntries skb (f + 1) rest

def Packet.entries (p : Packet) : List Entry := (headBuf p.skb p.head).view :: fragEntries p.skb 0 p.frags

def Entry.mapping (e : Entry) : Mapping :=
  match e.skb with
  | none => (e.dmaAddr, 0)
  | some skb => (e.dmaAddr, if e.fidx = -1 then skb.headlen else skb.frags.getD e.fidx.toNat 0)

def finished (done : Nat) : List Packet → List Skb
  | [] => []
  | p :: rest => if p.entries.length ≤ done then p.skb :: finished (done - p.entries.length) rest else []

def St.log (st : St) : List Entry := st.sent.flatMap Packet.entries

structure Sound (k : Nat) (st : St) : Prop where
  room : (st.wrP - st.rdP).toNat < 2 ^ k
  pending : st.done + (st.wrP - st.rdP).toNat = st.log.length
  slots : ∀ i < (st.wrP - st.rdP).toNat,
    st.log[st.done + i]? = some (st.txbufs (idx k (st.rdP + BitVec.ofNat 32 i))).view
  unmapped : (st.unmaps ++ (st.log.drop st.done).map Entry.mapping).Perm st.maps
  consumed : st.consumed = finished st.done st.sent
  completed : st.done ≤ st.devDone
  bytes : st.completedBytes + ((st.log.drop st.done).map (·.realLen)).sum = st.sentBytes
  pkts : st.completedPkts + ((st.log.drop st.done).map (·.pktCnt)).sum = st.sentPkts

end NfpDriver.Nfd3
