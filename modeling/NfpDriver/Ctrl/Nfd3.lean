import NfpDriver.Ctrl.Queue
import NfpDriver.Nfd3.TxSound

namespace NfpDriver.Ctrl.Nfd3

open Runs Slots List Function BitVec NfpDriver.Nfd3

structure TxDesc where
  dmaAddrHi : BitVec 8
  dmaLen : BitVec 16
  offsetEop : BitVec 8
  dmaAddrLo : BitVec 32
  mss : BitVec 16
  lsoHdrlen : BitVec 8
  flags : BitVec 8
  dataLen : BitVec 16
  deriving DecidableEq, Repr

structure TxRing where
  st : NfpDriver.Nfd3.St
  txds : Nat → TxDesc
  fetched : List (Option Skb)

structure Msg where
  skb : Skb
  headroom : Nat
  deriving DecidableEq, Repr

def metaLen (hasMeta : Bool) : Nat := if hasMeta then 8 else 0

def ctrlPush (msg : Msg) (hasMeta : Bool) : Option Skb :=
  if hasMeta then
    if 8 ≤ msg.headroom then some { msg.skb with headlen := 8 + msg.skb.headlen } else none
  else some msg.skb

def setDmaAddr40b (txd : TxDesc) (addr : Nat) : TxDesc :=
  { txd with dmaAddrLo := BitVec.ofNat 32 addr, dmaAddrHi := BitVec.ofNat 8 (addr >>> 32) }

def ctrlDesc (txd : TxDesc) (hasMeta : Bool) (skb : Skb) (dmaAddr : Nat) : TxDesc :=
  { setDmaAddr40b txd dmaAddr with
    offsetEop := BitVec.ofNat 8 (metaLen hasMeta) ||| 0x80
    dmaLen := BitVec.ofNat 16 skb.headlen
    dataLen := BitVec.ofNat 16 skb.len
    flags := 0
    mss := 0
    lsoHdrlen := 0 }

def errFree (r : TxRing) (skb : Skb) : TxRing := { r with st := { r.st with dropped := r.st.dropped ++ [skb] } }

def ctrlPut (k : Nat) (hasMeta : Bool) (r : TxRing) (skb : Skb) (realLen dmaAddr : Nat) : TxRing :=
  let wrIdx := idx k r.st.wrP
  { r with
    st := nfpNetTxXmitMoreFlush { r.st with
      txbufs := update r.st.txbufs wrIdx ⟨some skb, dmaAddr, -1, 1, BitVec.ofNat 32 realLen⟩
      wrP := r.st.wrP + 1
      wrPtrAdd := r.st.wrPtrAdd + 1
      maps := r.st.maps ++ [(dmaAddr, skb.headlen)]
      sent := r.st.sent ++ [⟨skb, dmaAddr, []⟩] }
    txds := update r.txds wrIdx (ctrlDesc (r.txds wrIdx) hasMeta skb dmaAddr) }

def nfpNfd3CtrlTxOne (k : Nat) (hasMeta : Bool) (r : TxRing) (msg : Msg) (dma : Option Nat) : TxRing × Nfdk.Outcome :=
  if msg.skb.frags ≠ [] then (errFree r msg.skb, .dropped)
  else if nfpNetTxFull k r.st 1 then (r, .busy)
  else
    match ctrlPush msg hasMeta with
    | none => (errFree r msg.skb, .dropped)
    | some skb =>
      match dma with
      | none => (errFree r skb, .dropped)
      | some head => (ctrlPut k hasMeta r skb msg.skb.len head, .sent)

-- the message of a slot, if its descriptor tells the device to transfer all of the buffer and nothing else
def slotMsg (hasMeta : Bool) (txd : TxDesc) (txbuf : TxBuf) : Option Skb :=
  txbuf.skb.filter fun skb => decide
    (txd.offsetEop = BitVec.ofNat 8 (metaLen hasMeta) ||| 0x80 ∧
      (txd.dmaAddrHi ++ txd.dmaAddrLo).toNat = txbuf.dmaAddr ∧
      txd.dmaLen.toNat = skb.headlen ∧ txd.dataLen.toNat = skb.len ∧ txd.mss = 0 ∧ txd.lsoHdrlen = 0 ∧ txd.flags = 0)

def slot (hasMeta : Bool) (r : TxRing) (i : Nat) : Option Skb := slotMsg hasMeta (r.txds i) (r.st.txbufs i)

def advance (k : Nat) (hasMeta : Bool) (r : TxRing) (n : Nat) : Option TxRing :=
  if n ≤ (r.st.qcpWr - r.st.qcpRd).toNat then
    some { r with
      st := { r.st with qcpRd := r.st.qcpRd + BitVec.ofNat 32 n, devDone := r.st.devDone + n }
      fetched := r.fetched ++ queue k (slot hasMeta r) r.st.qcpRd n }
  else none

def written (k : Nat) (hasMeta : Bool) (r : TxRing) : List (Option Skb) :=
  r.fetched ++ queue k (slot hasMeta r) r.st.qcpRd (r.st.wrP - r.st.qcpRd).toNat

def ops (k : Nat) (txrwb hasMeta : Bool) : Ops TxRing Msg where
  ctrlTxOne := nfpNfd3CtrlTxOne k hasMeta
  txComplete r := { r with st := nfpNfd3TxComplete k txrwb r.st }
  advance := advance k hasMeta

def linear (hasMeta : Bool) (msg : Msg) : Bool := decide (msg.skb.frags = []) && (!hasMeta || decide (8 ≤ msg.headroom))

def fits (hasMeta : Bool) (msg : Msg) : Bool :=
  linear hasMeta msg && decide (metaLen hasMeta + msg.skb.headlen < 2 ^ 16)

def mapped (_ : Msg) (head : Nat) : Bool := decide (head < 2 ^ 40)

def full (k : Nat) (r : TxRing) : Bool := nfpNetTxFull k r.st 1

def start (txbufs : Nat → TxBuf) (txds : Nat → TxDesc) : TxRing := ⟨NfpDriver.Nfd3.start txbufs, txds, []⟩

variable {k done dev wr : Nat} {hasMeta txrwb : Bool} {r : TxRing} {skb : Skb}

section Slots

theorem setDmaAddr40b_toNat (txd : TxDesc) {addr : Nat} (h : addr < 2 ^ 40) :
    ((setDmaAddr40b txd addr).dmaAddrHi ++ (setDmaAddr40b txd addr).dmaAddrLo).toNat = addr := by
  have hlo : (BitVec.ofNat 32 addr).toNat < 2 ^ 32 := isLt _
  rw [setDmaAddr40b, toNat_append, ← Nat.shiftLeft_add_eq_or_of_lt hlo, toNat_ofNat, toNat_ofNat, Nat.shiftLeft_eq,
    Nat.shiftRight_eq_div_pow]
  omega

theorem slotMsg_ctrlDesc (txd : TxDesc) (hasMeta : Bool) (hfrags : skb.frags = []) (hlen : skb.headlen < 2 ^ 16)
    {dmaAddr : Nat} (haddr : dmaAddr < 2 ^ 40) (realLen : BitVec 32) :
    slotMsg hasMeta (ctrlDesc txd hasMeta skb dmaAddr) ⟨some skb, dmaAddr, -1, 1, realLen⟩ = some skb := by
  have hall : skb.len = skb.headlen := by rw [Skb.len, hfrags, sum_nil, add_zero]
  have hfield : (BitVec.ofNat 16 skb.headlen).toNat = skb.headlen := Nat.mod_eq_of_lt hlen
  refine Option.filter_eq_some_iff.mpr ⟨rfl,
    decide_eq_true ⟨rfl, setDmaAddr40b_toNat txd haddr, hfield, ?_, rfl, rfl, rfl⟩⟩
  rw [ctrlDesc, hall]
  exact hfield

theorem slot_ctrlPut (hfrags : skb.frags = []) (hlen : skb.headlen < 2 ^ 16) (realLen : Nat) {dmaAddr : Nat}
    (haddr : dmaAddr < 2 ^ 40) :
    slot hasMeta (ctrlPut k hasMeta r skb realLen dmaAddr) = update (slot hasMeta r) (idx k r.st.wrP) (some skb) := by
  funext i
  by_cases hi : i = idx k r.st.wrP
  · subst hi
    simp only [slot, ctrlPut, nfpNetTxXmitMoreFlush, update_self]
    exact slotMsg_ctrlDesc _ hasMeta hfrags hlen haddr _
  · simp only [slot, ctrlPut, nfpNetTxXmitMoreFlush, update_of_ne hi]

end Slots

section Complete

structure Cleared (k : Nat) (st st' : NfpDriver.Nfd3.St) (todo : Nat) : Prop where
  wrP : st'.wrP = st.wrP
  qcpRd : st'.qcpRd = st.qcpRd
  qcpWr : st'.qcpWr = st.qcpWr
  wrPtrAdd : st'.wrPtrAdd = st.wrPtrAdd
  rdP : st'.rdP = st.rdP + BitVec.ofNat 32 todo
  bufs : ∀ i, (∀ j < todo, i ≠ idx k (st.rdP + BitVec.ofNat 32 j)) → st'.txbufs i = st.txbufs i

theorem completeOne_cleared (k : Nat) (d : Done) : Cleared k d.st (completeOne k d).st 1 := by
  rw [completeOne]
  split
  · exact ⟨rfl, rfl, rfl, rfl, rfl, fun _ _ => rfl⟩
  · refine ⟨rfl, rfl, rfl, rfl, rfl, fun i hi => update_of_ne ?_ _ _⟩
    have hne := hi 0 one_pos
    rwa [BitVec.add_zero] at hne

theorem completeLoop_cleared (k todo : Nat) (d : Done) : Cleared k d.st (completeLoop k todo d).st todo := by
  induction todo generalizing d with
  | zero => exact ⟨rfl, rfl, rfl, rfl, (BitVec.add_zero _).symm, fun _ _ => rfl⟩
  | succ todo ih =>
    have hone := completeOne_cleared k d
    have hrest := ih (completeOne k d)
    refine ⟨hrest.wrP.trans hone.wrP, hrest.qcpRd.trans hone.qcpRd, hrest.qcpWr.trans hone.qcpWr,
      hrest.wrPtrAdd.trans hone.wrPtrAdd, ?_, fun i hi => ?_⟩
    · rw [completeLoop, hrest.rdP, hone.rdP, BitVec.add_assoc, ← ofNat_add, Nat.add_comm 1]
    · refine (hrest.bufs i fun j hj => ?_).trans (hone.bufs i fun j hj => hi j (by omega))
      rw [hone.rdP, BitVec.add_assoc, ← ofNat_add]
      exact hi (1 + j) (by omega)

end Complete

structure At (k : Nat) (txrwb : Bool) (r : TxRing) (done dev wr : Nat) : Prop where
  wrP : r.st.wrP = BitVec.ofNat 32 wr
  rdP : r.st.rdP = BitVec.ofNat 32 done
  qcpRd : r.st.qcpRd = BitVec.ofNat 32 dev
  qcpRdP : r.st.qcpRdP = nfpNetReadTxCmpl txrwb (BitVec.ofNat 32 done)
  qcpWr : r.st.qcpWr = r.st.wrP
  wrPtrAdd : r.st.wrPtrAdd = 0
  completed : done ≤ dev
  told : dev ≤ wr
  room : wr < done + 2 ^ k

def Good (k : Nat) (txrwb : Bool) (r : TxRing) : Prop := ∃ done dev wr, At k txrwb r done dev wr

section Ring

variable (ha : At k txrwb r done dev wr) (hk : k ≤ 18)

include ha hk

theorem At.pending : (r.st.wrP - r.st.qcpRd).toNat = wr - dev := by
  have hpow : 2 ^ k ≤ 2 ^ 18 := Nat.pow_le_pow_right (by decide) hk
  have := ha.completed
  have := ha.room
  rw [ha.wrP, ha.qcpRd, toNat_sub_ofNat ha.told (by omega)]

theorem At.not_full (h : full k r = false) : wr + 1 < done + 2 ^ k := by
  have hpow : 2 ^ k ≤ 2 ^ 18 := Nat.pow_le_pow_right (by decide) hk
  have hpos := Nat.two_pow_pos k
  have := ha.completed
  have := ha.told
  have := ha.room
  rw [full, nfpNetTxFull, decide_eq_false_iff_not, ha.wrP, ha.rdP, toNat_sub_ofNat hpos (by omega),
    toNat_sub_ofNat (by omega) (by omega)] at h
  omega

theorem At.put (h : full k r = false) (hfrags : skb.frags = []) (hlen : skb.headlen < 2 ^ 16) (realLen : Nat)
    {dmaAddr : Nat} (haddr : dmaAddr < 2 ^ 40) :
    At k txrwb (ctrlPut k hasMeta r skb realLen dmaAddr) done dev (wr + 1) ∧
      written k hasMeta (ctrlPut k hasMeta r skb realLen dmaAddr) = written k hasMeta r ++ [some skb] := by
  have hroom := ha.not_full hk h
  have htold := ha.told
  have hat : At k txrwb (ctrlPut k hasMeta r skb realLen dmaAddr) done dev (wr + 1) := by
    refine ⟨?_, ha.rdP, ha.qcpRd, ha.qcpRdP, ?_, rfl, ha.completed, by omega, hroom⟩
    · rw [ofNat_add, ← ha.wrP]
      rfl
    · simp only [ctrlPut, nfpNetTxXmitMoreFlush]
      rw [ha.qcpWr, ha.wrPtrAdd, zero_add]
  refine ⟨hat, ?_⟩
  have hnext : r.st.wrP = r.st.qcpRd + BitVec.ofNat 32 (wr - dev) := by
    rw [ha.wrP, ha.qcpRd, ← ofNat_add, Nat.add_sub_cancel' htold]
  have hcompleted := ha.completed
  rw [written, written, hat.pending hk, ha.pending hk, slot_ctrlPut hfrags hlen realLen haddr, hnext,
    Nat.succ_sub htold, List.append_assoc]
  exact congrArg (_ ++ ·) (queue_snoc (by omega) (by omega) _)

theorem At.advance {n : Nat} {r' : TxRing} (hadv : advance k hasMeta r n = some r') :
    At k txrwb r' done (dev + n) wr ∧ written k hasMeta r' = written k hasMeta r ∧ full k r' = full k r := by
  obtain ⟨hn, heq⟩ := Option.ite_none_right_eq_some.mp hadv
  have hr := Option.some.inj heq
  rw [ha.qcpWr, ha.pending hk] at hn
  have htold := ha.told
  have hat : At k txrwb r' done (dev + n) wr := by
    subst hr
    refine ⟨ha.wrP, ha.rdP, ?_, ha.qcpRdP, ha.qcpWr, ha.wrPtrAdd, Nat.le_add_right_of_le ha.completed, by omega,
      ha.room⟩
    exact (congrArg (· + BitVec.ofNat 32 n) ha.qcpRd).trans (ofNat_add dev n).symm
  refine ⟨hat, ?_, by rw [← hr]; rfl⟩
  rw [written, hat.pending hk, ← hr, written, ha.pending hk, show wr - dev = n + (wr - (dev + n)) by omega, queue_add]
  exact List.append_assoc _ _ _

theorem At.complete :
    (∃ done', At k txrwb { r with st := nfpNfd3TxComplete k txrwb r.st } done' dev wr) ∧
      written k hasMeta { r with st := nfpNfd3TxComplete k txrwb r.st } = written k hasMeta r := by
  have hcompleted := ha.completed
  have htold := ha.told
  have hroom := ha.room
  have htodo : idx k (nfpNetReadTxCmpl txrwb r.st.qcpRd - r.st.qcpRdP) = dev - done := by
    rw [ha.qcpRd, ha.qcpRdP, todo_eq hk, sub_ofNat hcompleted, idx_ofNat (by omega), Nat.mod_eq_of_lt (by omega)]
  rw [nfpNfd3TxComplete]
  split
  · exact ⟨⟨done, ha⟩, rfl⟩
  split
  · exact ⟨⟨done, ha⟩, rfl⟩
  obtain ⟨d, hd⟩ := @exists_eq' _ (completeLoop k (idx k (nfpNetReadTxCmpl txrwb r.st.qcpRd - r.st.qcpRdP))
      ⟨r.st, 0, 0⟩)
  have hclear := completeLoop_cleared k (idx k (nfpNetReadTxCmpl txrwb r.st.qcpRd - r.st.qcpRdP)) ⟨r.st, 0, 0⟩
  rw [hd, htodo] at hclear
  simp only [hd]
  refine ⟨⟨dev, hclear.wrP.trans ha.wrP, ?_, hclear.qcpRd.trans ha.qcpRd, ?_, ?_, hclear.wrPtrAdd.trans ha.wrPtrAdd,
    le_rfl, htold, by omega⟩, ?_⟩
  · refine hclear.rdP.trans ?_
    rw [ha.rdP, ← ofNat_add, Nat.add_sub_cancel' hcompleted]
  · exact congrArg (nfpNetReadTxCmpl txrwb) ha.qcpRd
  · exact (hclear.qcpWr.trans ha.qcpWr).trans hclear.wrP.symm
  -- the slots the device has not read are none of those the completion clears
  · simp only [written, hclear.qcpRd, hclear.wrP, ha.pending hk]
    refine congrArg (r.fetched ++ ·) (queue_congr fun i hi =>
      congrArg (slotMsg hasMeta _) (hclear.bufs _ fun j hj => ?_))
    rw [ha.qcpRd, ha.rdP, ← ofNat_add, ← ofNat_add, idx_ofNat (by omega), idx_ofNat (by omega)]
    exact (mod_ne (by omega) (by omega)).symm

end Ring

theorem ctrlPush_linear {msg : Msg} (h : linear hasMeta msg = true) :
    msg.skb.frags = [] ∧ ∃ skb, ctrlPush msg hasMeta = some skb ∧ skb.frags = [] ∧
      skb.headlen = metaLen hasMeta + msg.skb.headlen := by
  obtain ⟨hfrags, hroom⟩ := Bool.and_eq_true_iff.mp h
  have hfrags := of_decide_eq_true hfrags
  refine ⟨hfrags, ?_⟩
  cases hasMeta with
  | false => exact ⟨msg.skb, rfl, hfrags, (Nat.zero_add _).symm⟩
  | true => exact ⟨_, if_pos (of_decide_eq_true hroom), hfrags, rfl⟩

theorem channel (hk : k ≤ 18) (txrwb hasMeta : Bool) :
    Channel (ops k txrwb hasMeta) (fits hasMeta) mapped (full k) (Good k txrwb) (written k hasMeta)
      fun msg => ctrlPush msg hasMeta := by
  refine ⟨fun r msg dma hok hfull => ?_, fun r msg head hgood hok hmap hfull => ?_, fun r hgood => ?_,
    fun r n r' hgood hadv => ?_⟩
  · obtain ⟨hfrags, -⟩ := ctrlPush_linear (Bool.and_eq_true_iff.mp hok).1
    have hfull' : nfpNetTxFull k r.st 1 = true := hfull
    simp only [ops, nfpNfd3CtrlTxOne]
    rw [if_neg (not_not.mpr hfrags), if_pos hfull']
  · obtain ⟨hlinear, hlen⟩ := Bool.and_eq_true_iff.mp hok
    obtain ⟨hfrags, skb, hpush, hskb, hhead⟩ := ctrlPush_linear hlinear
    obtain ⟨done, dev, wr, ha⟩ := hgood
    have hlen := of_decide_eq_true hlen
    have hroom : ¬nfpNetTxFull k r.st 1 = true := Bool.eq_false_iff.mp hfull
    obtain ⟨hat, hwritten⟩ := ha.put hk hfull hskb (hhead ▸ hlen) msg.skb.len (of_decide_eq_true hmap)
    refine ⟨_, ?_, ⟨done, dev, wr + 1, hat⟩, hpush ▸ hwritten⟩
    simp only [ops, nfpNfd3CtrlTxOne, hpush]
    rw [if_neg (not_not.mpr hfrags), if_neg hroom]
  · obtain ⟨done, dev, wr, ha⟩ := hgood
    obtain ⟨⟨done', hat⟩, hwritten⟩ := ha.complete hk
    exact ⟨⟨done', dev, wr, hat⟩, hwritten⟩
  · obtain ⟨done, dev, wr, ha⟩ := hgood
    obtain ⟨hat, hsame⟩ := ha.advance hk hadv
    exact ⟨⟨done, dev + n, wr, hat⟩, hsame⟩

theorem start_good (k : Nat) (txrwb : Bool) (txbufs : Nat → TxBuf) (txds : Nat → TxDesc) :
    Good k txrwb (start txbufs txds) :=
  ⟨0, 0, 0, rfl, rfl, rfl, show (0 : Ptr) = nfpNetReadTxCmpl txrwb 0 by cases txrwb <;> decide, rfl, rfl, le_rfl,
    le_rfl, Nat.lt_add_of_pos_right (Nat.two_pow_pos k)⟩

theorem start_written (k : Nat) (hasMeta : Bool) (txbufs : Nat → TxBuf) (txds : Nat → TxDesc) :
    written k hasMeta (start txbufs txds) = [] := by
  have hnone : ((0 : Ptr) - 0).toNat = 0 := by decide
  exact eq_nil_of_length_eq_zero (queue_length.trans hnone)

end NfpDriver.Ctrl.Nfd3
