import NfpDriver.Nfdk.Blocks
import NfpDriver.Rx.Ring

namespace NfpDriver.Nfdk

open Slots Rx

structure Recycle where
  done : Nat
  ktxbufs : Nat → Raw
  given : List Buf

def xdpCompleteLoop (k : Nat) (rdP : Ptr) : Nat → Nat → Recycle → Recycle
  | 0, _, c => c
  | fuel + 1, todo, c =>
    if todo = 0 then c
    else
      let i := idx k (rdP + BitVec.ofNat 32 c.done)
      match c.ktxbufs i with
      | .sop frag =>
        xdpCompleteLoop k rdP fuel (todo - 2)
          { done := c.done + 2
            ktxbufs := write c.ktxbufs i [.null, .null]
            given := c.given ++ [(frag, (c.ktxbufs (i + 1)).dmaAddr)] }
      | _ => xdpCompleteLoop k rdP fuel (todo - 1) { c with done := c.done + 1 }

def nfpNfdkXdpComplete (k : Nat) (r : Ring) (qcpRdP : Ptr) : Ring × List Buf × Bool :=
  if qcpRdP = r.qcpRdP then (r, [], true)
  else
    let todo := idx k (qcpRdP - r.qcpRdP)
    let c := xdpCompleteLoop k r.rdP (min todo 2048) (min todo 2048) ⟨0, r.ktxbufs, []⟩
    ({ r with
        qcpRdP := BitVec.ofNat 32 (idx k (r.qcpRdP + BitVec.ofNat 32 c.done))
        rdP := r.rdP + BitVec.ofNat 32 c.done
        ktxbufs := c.ktxbufs }, c.given, decide (todo ≤ 2048))

def xdpType (pktLen : Nat) : DescType := if pktLen ≤ 4096 then .simple else .gather

def xdpDescs (dmaAddr pktLen : Nat) : List Desc := setEop (headDescs (xdpType pktLen) dmaAddr pktLen) ++ [.metadata 0]

def xdpPlace (k : Nat) (r : Ring) (rxbuf : Buf) (dmaOff pktLen : Nat) : Ring :=
  let r := if mustClose r (nfpNfdkHeadlenToSegs pktLen) pktLen then closeBlock k r else r
  let descs := xdpDescs (rxbuf.2 + dmaOff) pktLen
  commit (put k r descs [.sop rxbuf.1, .dma rxbuf.2]) (.xdp rxbuf.1 rxbuf.2 pktLen descs)

def xdpMakeRoom (j k : Nat) (tx : Ring) (rx : Rx.Ring) (completed : Bool) (cmpl : Ptr) : Ring × Rx.Ring × Bool :=
  if nfpNetTxFull j tx 64 ∧ ¬completed then
    let c := nfpNfdkXdpComplete j tx cmpl
    (c.1, giveAll k rx c.2.1, true)
  else (tx, rx, completed)

def nfpNfdkTxXdpBuf (j k dmaMapSz : Nat) (tx : Ring) (rx : Rx.Ring) (rxIdx dmaOff pktLen : Nat) (completed : Bool)
    (cmpl : Ptr) :
    XdpTx Ring :=
  if dmaMapSz < u32 (pktLen + dmaOff) then ⟨tx, rx, completed, .rejected⟩
  else
    let room := xdpMakeRoom j k tx rx completed cmpl
    let rxbuf := room.2.1.rxbufs rxIdx
    if nfpNetTxFull j room.1 64 then ⟨room.1, giveOne k room.2.1 rxbuf, room.2.2, .dropped⟩
    else ⟨xdpPlace j room.1 rxbuf dmaOff pktLen, room.2.1, room.2.2, .sent⟩

end NfpDriver.Nfdk
