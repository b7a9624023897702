import NfpDriver.Rx.Conserve

namespace NfpDriver.Rx.Nfd3

open Slots Function List

structure TxRing where
  wrP : Ptr
  rdP : Ptr
  qcpRdP : Ptr
  wrPtrAdd : Ptr
  qcpWr : Ptr
  qcpRd : Ptr
  txbufs : Nat → Buf

def nfpNetTxFull (j : Nat) (tx : TxRing) (dcnt : Nat) : Bool :=
  (BitVec.ofNat 32 (2 ^ j) - BitVec.ofNat 32 dcnt).toNat ≤ (tx.wrP - tx.rdP).toNat

def nfpNetTxXmitMoreFlush (tx : TxRing) : TxRing := { tx with qcpWr := tx.qcpWr + tx.wrPtrAdd, wrPtrAdd := 0 }

def nfpNfd3XdpComplete (j : Nat) (tx : TxRing) : TxRing :=
  if tx.qcpRd = tx.qcpRdP then tx
  else
    let todo := min (idx j (tx.qcpRd - tx.qcpRdP)) 2048
    { tx with
      qcpRdP := BitVec.ofNat 32 (idx j (tx.qcpRdP + BitVec.ofNat 32 todo))
      rdP := tx.rdP + BitVec.ofNat 32 todo }

def xdpSwap (j k : Nat) (tx : TxRing) (rx : Ring) (rxIdx : Nat) : TxRing × Ring :=
  let wrIdx := idx j tx.wrP
  let rx := giveOne k rx (tx.txbufs wrIdx)
  ({ tx with
    txbufs := Function.update tx.txbufs wrIdx (rx.rxbufs rxIdx)
    wrP := tx.wrP + 1
    wrPtrAdd := tx.wrPtrAdd + 1 }, rx)

def nfpNfd3TxXdpBuf (j k : Nat) (dmaMapSz : BitVec 32) (tx : TxRing) (rx : Ring) (rxIdx : Nat)
    (dmaOff pktLen : BitVec 32)
    (completed : Bool) : XdpTx TxRing :=
  if dmaMapSz < pktLen + dmaOff then ⟨tx, rx, completed, .rejected⟩
  else
    let retry := nfpNetTxFull j tx 1 && !completed
    let tx := if retry then nfpNfd3XdpComplete j tx else tx
    if nfpNetTxFull j tx 1 then ⟨tx, giveOne k rx (rx.rxbufs rxIdx), completed || retry, .dropped⟩
    else
      let s := xdpSwap j k tx rx rxIdx
      ⟨s.1, s.2, completed || retry, .sent⟩

def xdpRoom (j : Nat) (tx : TxRing) (completed : Bool) : Option (List Buf) :=
  let tx := if nfpNetTxFull j tx 1 && !completed then nfpNfd3XdpComplete j tx else tx
  if nfpNetTxFull j tx 1 then none else some [tx.txbufs (idx j tx.wrP)]

def held (j : Nat) (tx : TxRing) : List Buf := (List.range (2 ^ j)).map tx.txbufs

def path (j k : Nat) (dmaMapSz : BitVec 32) : Path TxRing where
  txXdpBuf := nfpNfd3TxXdpBuf j k dmaMapSz
  xdpComplete tx := (nfpNfd3XdpComplete j tx, [])
  unflushed tx := tx.wrPtrAdd ≠ 0
  flush := nfpNetTxXmitMoreFlush
  busy tx := tx.wrP ≠ tx.rdP
  advance tx n := some { tx with qcpRd := tx.qcpRd + BitVec.ofNat 32 n }
  room := xdpRoom j
  held := held j
  inFlight _ := 0
  inRing _ := True

def bufsAlloc (bufs : List Buf) : TxRing := ⟨0, 0, 0, 0, 0, 0, fun i => bufs.getD i (0, 0)⟩

section Laws

variable {j k : Nat} {dmaMapSz : BitVec 32}

theorem update_perm {α : Type} {f : Nat → α} {i n : Nat} (h : i < n) (x : α) :
    (f i :: (List.range n).map (update f i x)).Perm (x :: (List.range n).map f) := by
  induction n with
  | zero => exact absurd h (Nat.not_lt_zero i)
  | succ n ih =>
    rw [range_succ, map_append, map_append, map_singleton, map_singleton]
    rcases Nat.eq_or_lt_of_le (Nat.le_of_lt_succ h) with rfl | hlt
    · have hsame : (range i).map (update f i x) = (range i).map f :=
        map_congr_left fun m hm => update_of_ne (Nat.ne_of_lt (mem_range.mp hm)) x f
      rw [update_self, hsame]
      exact ((perm_append_singleton x _).cons (f i)).trans
        ((Perm.swap x (f i) _).trans ((perm_append_singleton (f i) _).symm.cons x))
    · rw [update_of_ne (Nat.ne_of_gt hlt)]
      exact (ih hlt).append_right [f n]

theorem complete_held (tx : TxRing) : held j (nfpNfd3XdpComplete j tx) = held j tx := by
  rw [nfpNfd3XdpComplete]
  split <;> rfl

theorem lawful (hj : j ≤ 32) : Lawful (path j k dmaMapSz) k (fun _ => True) (fun _ => True) dmaMapSz := by
  refine ⟨fun _ _ => trivial, ?_, ?_, fun _ _ => ⟨trivial, rfl, rfl⟩, ?_⟩
  · intro tx rx rxIdx dmaOff pktLen completed _ _
    have hroom (b : Bool) : held j (if b then nfpNfd3XdpComplete j tx else tx) = held j tx := by
      split
      · exact complete_held tx
      · rfl
    obtain ⟨tx', htx⟩ := @exists_eq' _ ((if nfpNetTxFull j tx 1 && !completed then nfpNfd3XdpComplete j tx else tx))
    have hheld := hroom (nfpNetTxFull j tx 1 && !completed)
    have hroom : xdpRoom j tx completed = if nfpNetTxFull j tx' 1 then none else some [tx'.txbufs (idx j tx'.wrP)] := by
      rw [xdpRoom, htx]
    rw [htx] at hheld
    simp only [path, nfpNfd3TxXdpBuf, htx]
    split
    · next hlong => exact .rejected hlong
    next hlong =>
    have hfits := BitVec.not_lt.mp hlong
    split
    · next hfull => exact .dropped [] _ hfits (hroom.trans (if_pos hfull)) trivial (.of_eq hheld) rfl
    next hfull =>
    refine .sent [tx'.txbufs (idx j tx'.wrP)] _ hfits (hroom.trans (if_neg hfull)) trivial trivial ?_ rfl
    have hlt : idx j tx'.wrP < 2 ^ j := by
      rw [idx_eq_mod hj]
      exact Nat.mod_lt _ (Nat.two_pow_pos j)
    refine (update_perm hlt _).trans (.of_eq ?_)
    exact congrArg (_ :: ·) hheld
  · intro tx _
    exact ⟨trivial, .of_eq (complete_held tx), rfl⟩
  · intro tx n tx' _ h
    cases h
    exact ⟨trivial, rfl, rfl⟩

end Laws

end NfpDriver.Rx.Nfd3
