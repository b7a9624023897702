import NfpDriver.Nfdk.XdpRing
import NfpDriver.Rx.Nfd3

namespace NfpDriver.Rx.Nfdk

open Slots Runs NfpDriver.Nfdk

structure TxRing where
  ring : NfpDriver.Nfdk.Ring
  dev : Nat

def slotBuf (ring : NfpDriver.Nfdk.Ring) (slot : Nat) : List Buf :=
  match ring.ktxbufs slot with
  | .sop frag => [(frag, (ring.ktxbufs (slot + 1)).dmaAddr)]
  | _ => []

def held (j : Nat) (tx : TxRing) : List Buf :=
  (List.range (2 ^ j)).flatMap fun i => slotBuf tx.ring (idx j (tx.ring.rdP + BitVec.ofNat 32 i))

def reaped (j : Nat) (tx : TxRing) (completed : Bool) : NfpDriver.Nfdk.Ring × List Buf :=
  if nfpNetTxFull j tx.ring 64 ∧ ¬completed then
    let c := nfpNfdkXdpComplete j tx.ring (xdpCmpl j tx.ring tx.dev)
    (c.1, c.2.1)
  else (tx.ring, [])

def xdpRoom (j : Nat) (tx : TxRing) (completed : Bool) : Option (List Buf) :=
  let c := reaped j tx completed
  if nfpNetTxFull j c.1 64 then none else some c.2

def path (j k : Nat) (dmaMapSz : BitVec 32) : Path TxRing where
  txXdpBuf tx rx rxIdx dmaOff pktLen completed :=
    let t := nfpNfdkTxXdpBuf j k dmaMapSz.toNat tx.ring rx rxIdx dmaOff.toNat pktLen.toNat completed
      (xdpCmpl j tx.ring tx.dev)
    ⟨{ tx with ring := t.tx }, t.rx, t.completed, t.outcome⟩
  xdpComplete tx :=
    let c := nfpNfdkXdpComplete j tx.ring (xdpCmpl j tx.ring tx.dev)
    ({ tx with ring := c.1 }, c.2.1)
  unflushed tx := tx.ring.wrPtrAdd ≠ 0
  flush tx := { tx with ring := nfpNetTxXmitMoreFlush tx.ring }
  busy tx := tx.ring.wrP ≠ tx.ring.rdP
  advance tx n := if tx.dev + n ≤ tx.ring.log.length then some { tx with dev := tx.dev + n } else none
  room := xdpRoom j
  held := held j
  inFlight tx := (held j tx).length
  inRing tx := ∀ as e bs, tx.ring.log = as ++ e :: bs → span as % 2 ^ j + e.size ≤ 2 ^ j

def lenOk (pktLen : BitVec 32) : Prop := 1 ≤ pktLen.toNat ∧ pktLen.toNat ≤ 65536

def Inv (j : Nat) (tx : TxRing) : Prop := ∃ read, XdpDev j tx.ring read tx.dev

def entryBufs : Entry → List Buf
  | .packet _ _ _ _ => []
  | .xdp frag dmaAddr _ _ => [(frag, dmaAddr)]
  | .closed _ => []

section Held

variable {j read dev : Nat} {tx : TxRing}

theorem slotBuf_eq (hj : 5 ≤ j) (hj' : j < 32) (h : XdpRing j tx.ring read) {i : Nat} (hi : i < 2 ^ j) :
    slotBuf tx.ring (idx j (tx.ring.rdP + BitVec.ofNat 32 i)) = bufAt tx.ring.log (read + i) := by
  have hidx : idx j (tx.ring.rdP + BitVec.ofNat 32 i) = (read + i) % 2 ^ j := by
    rw [h.core.rd, ← BitVec.ofNat_add, idx_ofNat (le_of_lt hj')]
  have hraw := h.slots.bufs (read + i) (Nat.le_add_right _ _) (by omega)
  rw [hidx, slotBuf, bufAt, hraw]
  cases hsop : rawAt tx.ring.log (read + i) with
  | sop frag =>
    obtain ⟨hspan, hblock, -⟩ := sop_at h.xdp h.core.placed hsop
    have hroom := h.core.room
    have hmod := mod_blocks hj (read + i)
    obtain ⟨m, hm⟩ := pow_eq_blocks hj
    have hnext : (read + i) % 2 ^ j + 1 = (read + i + 1) % 2 ^ j := (mod_add_of_fits (by omega)).symm
    rw [hnext, h.slots.bufs (read + i + 1) (by omega) (by omega)]
  | null | skb | dma | tso => rfl

theorem held_eq (tx : TxRing) (hj : 5 ≤ j) (hj' : j < 32) (h : XdpRing j tx.ring read) :
    held j tx = bufsIn tx.ring.log read (2 ^ j) := by
  rw [held, bufsIn, List.range'_eq_map_range, List.flatMap_map]
  exact List.flatMap_congr fun i hi => slotBuf_eq hj hj' h (List.mem_range.mp hi)

theorem bufsIn_snoc {es : List Entry} {e : Entry} (hx : ∀ e' ∈ es ++ [e], e'.Xdp) (hplaced : Placed 0 (es ++ [e]))
    {p n : Nat}
    (hp : p ≤ span es) (hn : span (es ++ [e]) ≤ p + n) : bufsIn (es ++ [e]) p n = bufsIn es p n ++ entryBufs e := by
  have hx' : ∀ e' ∈ es, e'.Xdp := fun e' he => hx e' (List.mem_append_left _ he)
  have hplaced' := (placed_append.mp hplaced).1
  have hraw (q : Nat) := rawAt_snoc (p := q) hx hplaced
  obtain ⟨m, hm⟩ := Nat.exists_eq_add_of_le hp
  have hspan : span (es ++ [e]) = span es + e.size := by rw [span_append, span_singleton]
  obtain ⟨n', rfl⟩ := Nat.exists_eq_add_of_le (show m ≤ n by omega)
  have hold : bufsIn (es ++ [e]) p m = bufsIn es p m := by
    refine List.flatMap_congr fun q hq => ?_
    have hlt : q < span es := by have := List.mem_range'_1.mp hq; omega
    rw [bufAt, bufAt, hraw q, if_pos hlt]
    cases hsop : rawAt es q with
    | sop frag =>
      have hpair := (sop_at hx' hplaced' hsop).1
      simp only
      rw [hraw (q + 1), if_pos (by omega)]
    | null | skb | dma | tso => rfl
  have hat (i : Nat) : rawAt (es ++ [e]) (span es + i) = e.raws.getD i .null := by
    rw [hraw, if_neg (by omega), Nat.add_sub_cancel_left]
  have hnull {a c : Nat} (h : ∀ i, a ≤ i → e.raws.getD i .null = .null) : bufsIn (es ++ [e]) (span es + a) c = [] := by
    refine List.flatMap_eq_nil_iff.mpr fun q hq => ?_
    obtain ⟨i, rfl⟩ := Nat.exists_eq_add_of_le (List.mem_range'_1.mp hq).1
    rw [bufAt, add_assoc, hat, h _ (Nat.le_add_right a i)]
  rw [bufsIn_add, bufsIn_add es, hold, ← hm, bufsIn_beyond hx' hplaced' le_rfl, List.append_nil]
  refine congrArg (_ ++ ·) ?_
  cases e with
  | packet skb head addrs descs => exact (hx _ (List.mem_append_right _ (List.mem_singleton_self _))).elim
  | xdp frag dmaAddr pktLen descs =>
    have hsize : 2 ≤ descs.length := hplaced.at.1
    have hsize' : (Entry.xdp frag dmaAddr pktLen descs).size = descs.length := rfl
    obtain ⟨n'', rfl⟩ := Nat.exists_eq_add_of_le (show 2 ≤ n' by omega)
    have hpair : bufsIn (es ++ [.xdp frag dmaAddr pktLen descs]) (span es) 2 = [(frag, dmaAddr)] :=
      bufsIn_pair ((hat 0).trans (Entry.raws_getD _ 0)) ((hat 1).trans (Entry.raws_getD _ 1))
    have hrest : bufsIn (es ++ [.xdp frag dmaAddr pktLen descs]) (span es + 2) n'' = [] := by
      refine hnull fun i hi => ?_
      obtain ⟨i, rfl⟩ := Nat.exists_eq_add_of_le hi
      rw [add_comm]
      exact Entry.raws_getD (.xdp frag dmaAddr pktLen descs) (i + 2)
    rw [bufsIn_add, hpair, hrest]
    rfl
  | closed nopSlots => exact hnull (a := 0) fun i _ => Entry.raws_getD (.closed nopSlots) i

theorem placed_held (tx : TxRing) (hj : 6 ≤ j) (hj' : j < 32) (h : XdpRing j tx.ring read)
    (hroom : span tx.ring.log + 64 < read + 2 ^ j) (rxbuf : Buf) (dmaOff : Nat) {pktLen : Nat} (hpos : 1 ≤ pktLen)
      (hlen : pktLen ≤ 65536) :
    held j { tx with ring := xdpPlace j tx.ring rxbuf dmaOff pktLen } = held j tx ++ [rxbuf] := by
  obtain ⟨descs, hdescs⟩ := @exists_eq' _ (xdpDescs (rxbuf.2 + dmaOff) pktLen)
  have hplaced := h.placed hj hj' hroom rxbuf dmaOff hpos hlen
  have ht := (h.target (Nat.le_of_succ_le hj) hj' hroom pktLen).1
  have hlog : (xdpPlace j tx.ring rxbuf dmaOff pktLen).log =
      (xdpTarget j tx.ring pktLen).log ++ [.xdp rxbuf.1 rxbuf.2 pktLen descs] := by
    rw [xdpPlace_eq tx.ring rxbuf dmaOff pktLen hdescs]
    rfl
  have hfirst : bufsIn (xdpTarget j tx.ring pktLen).log read (2 ^ j) = bufsIn tx.ring.log read (2 ^ j) := by
    have hroom' := ht.core.room
    have hx := ht.xdp
    have hp := ht.core.placed
    rcases xdpTarget_log j tx.ring pktLen with hsame | ⟨n, hclosed⟩
    · rw [hsame]
    · rw [hclosed] at hroom' hx hp ⊢
      exact (bufsIn_snoc hx hp h.core.le (le_of_lt hroom')).trans (List.append_nil _)
  obtain ⟨r', hr'⟩ := @exists_eq' _ (xdpPlace j tx.ring rxbuf dmaOff pktLen)
  rw [hr'] at hplaced hlog ⊢
  rw [held_eq ⟨r', tx.dev⟩ (Nat.le_of_succ_le hj) hj' hplaced, held_eq tx (Nat.le_of_succ_le hj) hj' h, ← hfirst]
  have hx := hplaced.xdp
  have hp := hplaced.core.placed
  have hroom' := hplaced.core.room
  simp only [hlog] at hx hp hroom' ⊢
  exact bufsIn_snoc hx hp ht.core.le (le_of_lt hroom')

theorem reclaimed_held (hj : 5 ≤ j) (hj' : j < 32) (h : XdpRing j tx.ring read) {tx' : TxRing} {read' : Nat}
    (h' : XdpRing j tx'.ring read') (hle : read ≤ read') (hlog : tx'.ring.log = tx.ring.log) :
    bufsIn tx.ring.log read (read' - read) ++ held j tx' = held j tx := by
  obtain ⟨n, rfl⟩ := Nat.exists_eq_add_of_le hle
  have hroom := h.core.room
  rw [held_eq tx' hj hj' h', held_eq tx hj hj' h, hlog, Nat.add_sub_cancel_left, ← bufsIn_add, add_comm n, bufsIn_add,
    bufsIn_beyond h.xdp h.core.placed (le_of_lt hroom), List.append_nil]

end Held

section Laws

variable {j k : Nat} {dmaMapSz : BitVec 32}

variable {tx : TxRing} {pktLen : BitVec 32}

theorem inv_inRing (hj : 5 ≤ j) (h : Inv j tx) : (path j k dmaMapSz).inRing tx := by
  obtain ⟨read, hdev⟩ := h
  intro as e bs hlog
  have hplaced := hdev.ring.core.placed
  rw [hlog] at hplaced
  obtain ⟨hpos, hblock⟩ := hplaced.at.inBlock
  rw [zero_add] at hblock
  exact inBlock_fits hj hpos hblock

theorem long_descs (hlegit : Legit pktLen) (h : ¬lenOk pktLen) (dmaAddr : Nat) :
    2 ^ 18 < (xdpDescs dmaAddr pktLen.toNat).length := by
  have hlen : pktLen.toNat = 0 ∨ 2 ^ 32 - 127 ≤ pktLen.toNat := by
    rw [lenOk] at h
    rcases hlegit with rfl | hle | hge
    · exact .inl rfl
    · omega
    · exact .inr hge
  rw [xdpDescs_length, u32]
  rcases hlen with hzero | hge
  · rw [hzero]
    decide
  · omega

theorem long_overruns (hj : j ≤ 18) (hlegit : Legit pktLen) (h : ¬lenOk pktLen) (ring : NfpDriver.Nfdk.Ring)
    (rxbuf : Buf) (dmaOff : Nat) {dev : Nat} :
    ¬(path j k dmaMapSz).inRing ⟨xdpPlace j ring rxbuf dmaOff pktLen.toNat, dev⟩ := by
  intro hin
  obtain ⟨es, descs, hlog, hdescs⟩ := xdpPlace_log (j := j) ring rxbuf dmaOff pktLen.toNat
  have hlong := long_descs hlegit h (rxbuf.2 + dmaOff)
  rw [← hdescs] at hlong
  have hfits := hin _ _ [] hlog
  have hsize : (Entry.xdp rxbuf.1 rxbuf.2 pktLen.toNat descs).size = descs.length := rfl
  have hpow : 2 ^ j ≤ 2 ^ 18 := Nat.pow_le_pow_right (by decide) hj
  omega

theorem reaped_spec (hj : 5 ≤ j) (hj' : j < 32) {read : Nat} (hdev : XdpDev j tx.ring read tx.dev) (completed : Bool) :
    ∃ read', read ≤ read' ∧ XdpDev j (reaped j tx completed).1 read' tx.dev ∧
      (reaped j tx completed).1.log = tx.ring.log ∧
      (reaped j tx completed).2 = bufsIn tx.ring.log read (read' - read) := by
  rw [reaped]
  split
  · obtain ⟨c, hc⟩ := @exists_eq' _ (nfpNfdkXdpComplete j tx.ring (xdpCmpl j tx.ring tx.dev))
    obtain ⟨read', hle, -, hdev', hlog, -, -, hgiven⟩ := nfpNfdkXdpComplete_spec hj hj' hdev hc
    rw [hc]
    exact ⟨read', hle, hdev', hlog, hgiven⟩
  · exact ⟨read, le_rfl, hdev, rfl, by rw [Nat.sub_self]; rfl⟩

theorem makeRoom_reaped (tx : TxRing) (rx : Ring) (completed : Bool) :
    ∃ room, xdpMakeRoom j k tx.ring rx completed (xdpCmpl j tx.ring tx.dev) = room ∧
      room.1 = (reaped j tx completed).1 ∧ room.2.1 = giveAll k rx (reaped j tx completed).2 := by
  refine ⟨_, rfl, ?_⟩
  rw [xdpMakeRoom, reaped]
  split <;> exact ⟨rfl, rfl⟩

theorem xmits (hj : 6 ≤ j) (hj' : j ≤ 18) {read : Nat} (hdev : XdpDev j tx.ring read tx.dev) (rx : Ring) (rxIdx : Nat)
    (dmaOff : BitVec 32) (hlegit : Legit pktLen) (completed : Bool) {t : XdpTx NfpDriver.Nfdk.Ring}
    (ht : nfpNfdkTxXdpBuf j k dmaMapSz.toNat tx.ring rx rxIdx dmaOff.toNat pktLen.toNat completed
      (xdpCmpl j tx.ring tx.dev) = t) :
    Xmits (path j k dmaMapSz) k lenOk (Inv j) dmaMapSz tx rx rxIdx dmaOff pktLen completed
      ⟨⟨t.tx, tx.dev⟩, t.rx, t.completed, t.outcome⟩ := by
  have hj5 : 5 ≤ j := Nat.le_of_succ_le hj
  have hj32 : j < 32 := lt_of_le_of_lt hj' (by decide)
  obtain ⟨read', hle, hdev', hlog, hgiven⟩ := reaped_spec hj5 hj32 hdev completed
  obtain ⟨⟨ring', given⟩, hreap⟩ := @exists_eq' _ (reaped j tx completed)
  obtain ⟨⟨_, _, completed'⟩, hmake, rfl, rfl⟩ := makeRoom_reaped (k := k) tx rx completed
  have hroom : xdpRoom j tx completed = if nfpNetTxFull j ring' 64 then none else some given := by
    rw [xdpRoom, hreap]
  rw [hreap] at hmake hdev' hlog hgiven
  have hring : XdpRing j ring' read' := hdev'.ring
  have hheld : given ++ held j ⟨ring', tx.dev⟩ = held j tx := by
    rw [show given = _ from hgiven]
    exact reclaimed_held hj5 hj32 hdev.ring hring hle hlog
  have hcount : given.length + (held j ⟨ring', tx.dev⟩).length = (held j tx).length := by
      rw [← List.length_append, hheld]
  have htest : dmaMapSz.toNat < u32 (pktLen.toNat + dmaOff.toNat) ↔ dmaMapSz < pktLen + dmaOff := by
    rw [BitVec.lt_def, BitVec.toNat_add, u32]
  simp only [nfpNfdkTxXdpBuf, hmake, htest] at ht
  split at ht
  · next hlong =>
    subst ht
    exact .rejected hlong
  next hlong =>
  have hfits := BitVec.not_lt.mp hlong
  split at ht
  · next hfull =>
    subst ht
    exact .dropped given completed' hfits (hroom.trans (if_pos hfull)) ⟨read', hdev'⟩ (.of_eq hheld) hcount
  next hfull =>
  have hfree := hring.core.not_full hj hj32 hfull
  have hroom := hroom.trans (if_neg hfull)
  obtain ⟨rxbuf, hbuf⟩ := @exists_eq' _ ((giveAll k rx given).rxbufs rxIdx)
  rw [hbuf] at ht
  subst ht
  by_cases hlen : lenOk pktLen
  · have hplaced : held j ⟨xdpPlace j ring' rxbuf dmaOff.toNat pktLen.toNat, tx.dev⟩ = held j ⟨ring', tx.dev⟩ ++
      [rxbuf] :=
      placed_held ⟨ring', tx.dev⟩ hj hj32 hring hfree rxbuf dmaOff.toNat hlen.1 hlen.2
    have hsent : XdpDev j (xdpPlace j ring' rxbuf dmaOff.toNat pktLen.toNat) read' tx.dev := by
      obtain ⟨es, descs, hlog, -⟩ := xdpPlace_log (j := j) ring' rxbuf dmaOff.toNat pktLen.toNat
      exact hdev'.place (hring.placed hj hj32 hfree rxbuf dmaOff.toNat hlen.1 hlen.2)
        (hlog.trans (List.append_assoc _ _ _)) (xdpPlace_ptrs ring' rxbuf dmaOff.toNat pktLen.toNat).2
    have hperm : (given ++ held j ⟨xdpPlace j ring' rxbuf dmaOff.toNat pktLen.toNat, tx.dev⟩).Perm
        ((giveAll k rx given).rxbufs rxIdx :: held j tx) := by
      rw [hbuf, hplaced, ← List.append_assoc, hheld]
      exact List.perm_append_singleton rxbuf _
    exact .sent given completed' hfits hroom hlen ⟨read', hsent⟩ hperm (by
      have hlength := hperm.length_eq
      rw [List.length_append, List.length_cons] at hlength
      exact hlength)
  · exact .overrun given completed' hroom hlen (long_overruns hj' hlegit hlen ring' rxbuf dmaOff.toNat)

theorem lawful (hj : 6 ≤ j) (hj' : j ≤ 18) : Lawful (path j k dmaMapSz) k lenOk (Inv j) dmaMapSz := by
  have hj5 : 5 ≤ j := Nat.le_of_succ_le hj
  have hj32 : j < 32 := lt_of_le_of_lt hj' (by decide)
  refine ⟨fun _ h => inv_inRing hj5 h, ?_, ?_, ?_, ?_⟩
  · intro tx rx rxIdx dmaOff pktLen completed ⟨read, hdev⟩ hlegit
    exact xmits hj hj' hdev rx rxIdx dmaOff hlegit completed rfl
  · intro tx ⟨read, hdev⟩
    obtain ⟨c, hc⟩ := @exists_eq' _ (nfpNfdkXdpComplete j tx.ring (xdpCmpl j tx.ring tx.dev))
    obtain ⟨read', hle, -, hdev', hlog, -, -, hgiven⟩ := nfpNfdkXdpComplete_spec hj5 hj32 hdev hc
    have hheld : bufsIn tx.ring.log read (read' - read) ++ held j ⟨c.1, tx.dev⟩ = held j tx :=
      reclaimed_held hj5 hj32 hdev.ring hdev'.ring hle hlog
    simp only [path, hc, hgiven]
    exact ⟨⟨read', hdev'⟩, .of_eq hheld, by rw [← List.length_append, hheld]⟩
  · intro tx ⟨read, hdev⟩
    have hcore := hdev.ring.core
    exact ⟨⟨read, ⟨⟨{ hcore with }, hdev.ring.xdp, hdev.ring.slots⟩,
      hdev.reported, hdev.reclaimed, hdev.qcp⟩⟩, rfl, rfl⟩
  · intro tx n tx' ⟨read, hdev⟩ h
    obtain ⟨hle, heq⟩ := Option.ite_none_right_eq_some.mp h
    cases heq
    exact ⟨⟨read, hdev.advance hle⟩, rfl, rfl⟩

end Laws

end NfpDriver.Rx.Nfdk

namespace NfpDriver.Rx

open Runs Slots

theorem nfd3_start_held {j : Nat} {txbufs : List Buf} (hlen : txbufs.length = 2 ^ j) :
    Nfd3.held j (Nfd3.bufsAlloc txbufs) = txbufs := by
  rw [Nfd3.held, ← hlen]
  refine List.ext_getElem (by rw [List.length_map, List.length_range]) fun i hi hi' => ?_
  rw [List.getElem_map, List.getElem_range]
  exact (List.getElem_eq_getD (0, 0)).symm

theorem nfdk_start_held (j : Nat) (ktxds : Nat → NfpDriver.Nfdk.Desc) :
    Nfdk.held j ⟨.start ktxds fun _ => .null, 0⟩ = [] :=
  List.flatMap_eq_nil_iff.mpr fun _ _ => rfl

theorem rx_buffers_conserved_iff {j k : Nat} (hk : k < 32) (cfg : Config) {bufs : List Buf}
    (hbufs : bufs.length = 2 ^ k - 1) :
    (∀ txbufs : List Buf, j ≤ 32 → txbufs.length = 2 ^ j → (bufs ++ txbufs).Nodup → ∀ as t,
      run (step (Nfd3.path j k cfg.dmaMapSz) k cfg)
        (start (Nfd3.path j k cfg.dmaMapSz) k bufs (Nfd3.bufsAlloc txbufs)) as = some t →
      (Always (step (Nfd3.path j k cfg.dmaMapSz) k cfg) (Conserved (Nfd3.path j k cfg.dmaMapSz) k)
        (start (Nfd3.path j k cfg.dmaMapSz) k bufs (Nfd3.bufsAlloc txbufs)) as ↔
      Guarded (step (Nfd3.path j k cfg.dmaMapSz) k cfg) (Returns (Nfd3.path j k cfg.dmaMapSz) k cfg fun _ => True)
        (start (Nfd3.path j k cfg.dmaMapSz) k bufs (Nfd3.bufsAlloc txbufs)) as)) ∧
    ∀ ktxds : Nat → NfpDriver.Nfdk.Desc, 6 ≤ j → j ≤ 18 → bufs.Nodup → ∀ as t,
      run (step (Nfdk.path j k cfg.dmaMapSz) k cfg)
        (start (Nfdk.path j k cfg.dmaMapSz) k bufs ⟨.start ktxds fun _ => .null, 0⟩) as = some t →
      (Always (step (Nfdk.path j k cfg.dmaMapSz) k cfg) (Conserved (Nfdk.path j k cfg.dmaMapSz) k)
        (start (Nfdk.path j k cfg.dmaMapSz) k bufs ⟨.start ktxds fun _ => .null, 0⟩) as ↔
      Guarded (step (Nfdk.path j k cfg.dmaMapSz) k cfg) (Returns (Nfdk.path j k cfg.dmaMapSz) k cfg Nfdk.lenOk)
        (start (Nfdk.path j k cfg.dmaMapSz) k bufs ⟨.start ktxds fun _ => .null, 0⟩) as) := by
  constructor
  · intro txbufs hj htxbufs hnodup as t hr
    refine conserved_iff (Nfd3.lawful hj) hk (start_good hk trivial trivial ?_ hbufs rfl) hr
    rw [show (Nfd3.path j k cfg.dmaMapSz).held = Nfd3.held j from rfl, nfd3_start_held htxbufs]
    exact hnodup
  · intro ktxds hj hj' hnodup as t hr
    have hlaw : Lawful (Nfdk.path j k cfg.dmaMapSz) k Nfdk.lenOk (Nfdk.Inv j) cfg.dmaMapSz := Nfdk.lawful hj hj'
    have hinv : Nfdk.Inv j ⟨.start ktxds fun _ => .null, 0⟩ := ⟨0, .start ktxds⟩
    have hheld := nfdk_start_held j ktxds
    refine conserved_iff hlaw hk (start_good hk hinv (hlaw.inRing _ hinv) ?_ hbufs (congrArg List.length hheld)) hr
    rw [show (Nfdk.path j k cfg.dmaMapSz).held = Nfdk.held j from rfl, hheld, List.append_nil]
    exact hnodup

def rxBufs : List Buf := (List.range 31).map fun i => (i, 4096 * i)

def rxConfig : Config := ⟨192, 0, 1714, true, true⟩

def xdpTxOf (adjusted : Option (BitVec 32 × BitVec 32)) : Action :=
  .packet ⟨none, .tx, adjusted, true, true, none, true, true⟩

def bounceOne (adjusted : Option (BitVec 32 × BitVec 32)) : List Action :=
    [.begin, .fill ⟨0, 1000⟩, xdpTxOf adjusted, .finish]

theorem bounceOne_conserved :
    Always (step (Nfd3.path 1 5 1714) 5 rxConfig) (Conserved (Nfd3.path 1 5 1714) 5)
        (start (Nfd3.path 1 5 1714) 5 rxBufs (Nfd3.bufsAlloc [(31, 0), (32, 0)])) (bounceOne none) ∧
      Always (step (Nfdk.path 7 5 1714) 5 rxConfig) (Conserved (Nfdk.path 7 5 1714) 5)
        (start (Nfdk.path 7 5 1714) 5 rxBufs ⟨.start (fun _ => .nop) fun _ => .null, 0⟩) (bounceOne none) := by
  have hconserved {j : Nat} := @rx_buffers_conserved_iff j 5 (by decide) rxConfig rxBufs (by decide)
  constructor
  · refine (hconserved.1 [(31, 0), (32, 0)] (by decide) rfl (by decide) (bounceOne none) _ rfl).mpr ?_
    refine guarded_cons rfl trivial (guarded_cons rfl trivial (guarded_cons rfl ?_ (guarded_cons rfl trivial trivial)))
    intro rxd hrxd
    cases hrxd
    exact ⟨by decide, fun _ _ => ⟨trivial, .inl (by decide)⟩⟩
  · refine (hconserved.2 (fun _ => .nop) (by decide) (by decide) (by decide) (bounceOne none) _ rfl).mpr ?_
    refine guarded_cons rfl trivial (guarded_cons rfl trivial (guarded_cons rfl ?_ (guarded_cons rfl trivial trivial)))
    intro rxd hrxd
    cases hrxd
    exact ⟨by decide, fun _ _ => ⟨⟨by decide, by decide⟩, .inl (by decide)⟩⟩

theorem grown_tail_leaks :
    ¬Always (step (Nfd3.path 1 5 1714) 5 rxConfig) (Conserved (Nfd3.path 1 5 1714) 5)
        (start (Nfd3.path 1 5 1714) 5 rxBufs (Nfd3.bufsAlloc [(31, 0), (32, 0)])) (bounceOne (some (192, 3000))) ∧
      ¬Always (step (Nfdk.path 7 5 1714) 5 rxConfig) (Conserved (Nfdk.path 7 5 1714) 5)
        (start (Nfdk.path 7 5 1714) 5 rxBufs ⟨.start (fun _ => .nop) fun _ => .null, 0⟩)
          (bounceOne (some (192, 3000))) := by
  constructor
  · intro h
    have htotal := (h.last rfl).total
    revert htotal
    decide
  · intro h
    have htotal := (h.last rfl).total
    revert htotal
    decide

end NfpDriver.Rx
