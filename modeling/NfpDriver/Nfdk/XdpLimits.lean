import NfpDriver.Nfdk.Limits
import NfpDriver.Nfdk.XdpRing

namespace NfpDriver.Nfdk

open Runs Slots Rx

structure XdpSt where
  tx : Ring
  rx : Rx.Ring
  read : Nat
  dev : Nat

inductive XdpAction where
  | send (rxIdx dmaOff pktLen : Nat) (completed : Bool)
  | complete
  | advance (n : Nat)
  deriving DecidableEq, Repr

def XdpSt.moved (st : XdpSt) (tx : Ring) (rx : Rx.Ring) : XdpSt :=
  { st with tx := tx, rx := rx, read := st.read + (tx.rdP - st.tx.rdP).toNat }

def xdpSend (j k dmaMapSz : Nat) (st : XdpSt) (rxIdx dmaOff pktLen : Nat) (completed : Bool) : XdpTx Ring :=
  nfpNfdkTxXdpBuf j k dmaMapSz st.tx st.rx rxIdx dmaOff pktLen completed (xdpCmpl j st.tx st.dev)

def xdpStep (j k dmaMapSz : Nat) (st : XdpSt) : XdpAction → Option XdpSt
  | .send rxIdx dmaOff pktLen completed =>
    if pktLen ≤ 65536 then
      let t := xdpSend j k dmaMapSz st rxIdx dmaOff pktLen completed
      some (st.moved t.tx t.rx)
    else none
  | .complete =>
    let c := nfpNfdkXdpComplete j st.tx (xdpCmpl j st.tx st.dev)
    some (st.moved c.1 (giveAll k st.rx c.2.1))
  | .advance n => if st.dev + n ≤ st.tx.log.length then some { st with dev := st.dev + n } else none

def xdpStart (ktxds : Nat → Desc) (rx : Rx.Ring) : XdpSt := ⟨.start ktxds fun _ => .null, rx, 0, 0⟩

def XdpClosesBrimful (j k dmaMapSz : Nat) (st : XdpSt) : XdpAction → Prop
  | .send rxIdx dmaOff pktLen completed => (xdpSend j k dmaMapSz st rxIdx dmaOff pktLen completed).outcome = .sent →
      1 ≤ pktLen ∧ (filled st.tx = 65536 → crossesBlock st.tx.wrP (nfpNfdkHeadlenToSegs pktLen) = true)
  | .complete => True
  | .advance _ => True

structure XdpAccounted (j : Nat) (st : XdpSt) : Prop where
  dev : XdpDev j st.tx st.read st.dev
  account : Account st.tx
  data : ∀ b, blockData b 0 st.tx.log ≤ 65536

section Runs

variable {j : Nat} {st : XdpSt}

variable {read' pktLen dmaMapSz k : Nat} {tx : Ring}

theorem moved_read {rx : Rx.Ring} (hle : st.read ≤ read') (hlt : read' < st.read + 2 ^ 32)
    (hrd : tx.rdP = st.tx.rdP + BitVec.ofNat 32 (read' - st.read)) : (st.moved tx rx).read = read' := by
  have hsub : st.tx.rdP + BitVec.ofNat 32 (read' - st.read) - st.tx.rdP = BitVec.ofNat 32 (read' - st.read) :=
    add_sub_cancel_left _ _
  rw [XdpSt.moved, hrd, hsub, BitVec.toNat_ofNat, Nat.mod_eq_of_lt (by omega)]
  exact Nat.add_sub_cancel' hle

theorem xdp_kept (hj : j < 32) (ha : XdpAccounted j st) (rx : Rx.Ring) (hle : st.read ≤ read')
    (hle' : read' ≤ span st.tx.log) (hrd : tx.rdP = st.tx.rdP + BitVec.ofNat 32 (read' - st.read))
    (hdev : XdpDev j tx read' st.dev) (hacc : Account tx) :
    (Limits j tx (st.moved tx rx).read ↔ Within tx.log) ∧
      (Limits j tx (st.moved tx rx).read → XdpAccounted j (st.moved tx rx)) := by
  have hpow : 2 ^ j < 2 ^ 32 := Nat.pow_lt_pow_right (by decide) hj
  have hroom := ha.dev.ring.core.room
  have hread : (st.moved tx rx).read = read' := moved_read hle (by omega) hrd
  refine ⟨⟨fun h => h.data, fun hdata => ?_⟩, fun h => ⟨?_, hacc, h.data⟩⟩
  · rw [hread]
    exact core_limits hdev.ring.core hj hdata
  · rw [hread]
    exact hdev

theorem xdpPlace_limit {read : Nat} {r : Ring} (h : XdpRing j r read) (hj : 6 ≤ j) (hj' : j < 32)
    (hroom : span r.log + 64 < read + 2 ^ j) (ha : Account r) (hdata : Within r.log) (rxbuf : Buf)
    (dmaOff : Nat) (hpos : 1 ≤ pktLen) (hlen : pktLen ≤ 65536) :
    Account (xdpPlace j r rxbuf dmaOff pktLen) ∧ (Within (xdpPlace j r rxbuf dmaOff pktLen).log ↔
      (filled r = 65536 → crossesBlock r.wrP (nfpNfdkHeadlenToSegs pktLen) = true)) := by
  obtain ⟨descs, hdescs⟩ := @exists_eq' _ (xdpDescs (rxbuf.2 + dmaOff) pktLen)
  have hplaced := (h.placed hj hj' hroom rxbuf dmaOff hpos hlen).core.placed
  have ht := (h.target (Nat.le_of_succ_le hj) hj' hroom pktLen).1
  obtain ⟨hacc, hdata', hiff⟩ := closed_account (k := j) r
      (t := xdpTarget j r pktLen) h.core.wr h.core.placed ha hdata hpos
    hlen rfl rfl rfl
  rw [xdpPlace_eq r rxbuf dmaOff pktLen hdescs] at hplaced ⊢
  refine ⟨account_commit hacc ht.core.wr hplaced descs _, ?_⟩
  rw [← hiff]
  exact data_append hdata'

theorem empty_straddles (r : Ring) (rxbuf : Buf) (dmaOff read : Nat) :
    ¬Limits j (xdpPlace j r rxbuf dmaOff 0) read := by
  intro hl
  obtain ⟨es, descs, hlog, hdescs⟩ := xdpPlace_log (j := j) r rxbuf dmaOff 0
  have hcount : descs.length = 262146 := by rw [hdescs, xdpDescs_length_zero]
  have hsize : (Entry.xdp rxbuf.1 rxbuf.2 0 descs).size = descs.length := rfl
  have hblock := hl.blocks _ _ [] hlog
  rw [InBlock, hsize, hcount] at hblock
  omega

theorem xdp_send_limit (hj : 6 ≤ j) (hj' : j < 32) (ha : XdpAccounted j st) (rxIdx dmaOff : Nat)
    (hlen : pktLen ≤ 65536) (completed : Bool) {t : XdpTx Ring}
    (ht : xdpSend j k dmaMapSz st rxIdx dmaOff pktLen completed = t) :
    (Limits j t.tx (st.moved t.tx t.rx).read ↔ XdpClosesBrimful j k dmaMapSz st (.send rxIdx dmaOff pktLen completed)) ∧
      (Limits j t.tx (st.moved t.tx t.rx).read → XdpAccounted j (st.moved t.tx t.rx)) := by
  obtain ⟨read', hroom⟩ := xdpMakeRoom_spec (Nat.le_of_succ_le hj) hj' ha.dev k st.rx completed
  obtain ⟨room, hmake⟩ := @exists_eq' _ (xdpMakeRoom j k st.tx st.rx completed (xdpCmpl j st.tx st.dev))
  rw [hmake] at hroom
  rw [XdpClosesBrimful, ht]
  have haccount : Account room.1 := account_of_eq ha.account hroom.data hroom.log
  have hdata : Within room.1.log := hroom.log ▸ ha.data
  have hspan : read' ≤ span st.tx.log := hroom.log ▸ hroom.dev.ring.core.le
  simp only [xdpSend, nfpNfdkTxXdpBuf, hmake] at ht
  split at ht
  · subst ht
    obtain ⟨hiff, hkept⟩ := xdp_kept hj' ha st.rx (Nat.le_refl _) ha.dev.ring.core.le
      (by rw [Nat.sub_self]; exact (add_zero _).symm) ha.dev ha.account
    exact ⟨hiff.trans (iff_of_true ha.data nofun), hkept⟩
  split at ht
  · subst ht
    obtain ⟨hiff, hkept⟩ := xdp_kept hj' ha _ hroom.le hspan hroom.rd hroom.dev haccount
    exact ⟨hiff.trans (iff_of_true hdata nofun), hkept⟩
  next hfull =>
  have hfree := hroom.dev.ring.core.not_full hj hj' hfull
  subst ht
  rcases Nat.eq_zero_or_pos pktLen with rfl | hpos
  · have hbad := empty_straddles (j := j) room.1 (room.2.1.rxbufs rxIdx) dmaOff
    exact ⟨iff_of_false (hbad _) fun h => absurd (h rfl).1 (by decide), fun hl => absurd hl (hbad _)⟩
  obtain ⟨hrd, hqcp⟩ := xdpPlace_ptrs (j := j) room.1 (room.2.1.rxbufs rxIdx) dmaOff pktLen
  obtain ⟨es, descs, hlog, -⟩ := xdpPlace_log (j := j) room.1 (room.2.1.rxbufs rxIdx) dmaOff pktLen
  have hring := hroom.dev.ring.placed hj hj' hfree (room.2.1.rxbufs rxIdx) dmaOff hpos hlen
  have hdev := hroom.dev.place hring (hlog.trans (List.append_assoc _ _ _)) hqcp
  obtain ⟨hacc, hlimit⟩ := xdpPlace_limit hroom.dev.ring hj hj' hfree haccount hdata
      (room.2.1.rxbufs rxIdx) dmaOff hpos hlen
  obtain ⟨hiff, hkept⟩ := xdp_kept hj' ha room.2.1 hroom.le hspan (hrd.trans hroom.rd) hdev hacc
  refine ⟨hiff.trans ?_, hkept⟩
  rw [hlimit, filled, hroom.log, hroom.wr]
  exact ⟨fun h _ => ⟨hpos, h⟩, fun h => (h rfl).2⟩

theorem xdpStep_limit (hj : 6 ≤ j) (hj' : j < 32) (ha : XdpAccounted j st) (a : XdpAction) {st' : XdpSt}
    (h : xdpStep j k dmaMapSz st a = some st') :
    (Limits j st'.tx st'.read ↔ XdpClosesBrimful j k dmaMapSz st a) ∧
      (Limits j st'.tx st'.read → XdpAccounted j st') := by
  cases a with
  | send rxIdx dmaOff pktLen completed =>
    obtain ⟨hlen, heq⟩ := Option.ite_none_right_eq_some.mp h
    cases heq
    exact xdp_send_limit hj hj' ha rxIdx dmaOff hlen completed rfl
  | complete =>
    cases h
    obtain ⟨c, hc⟩ := @exists_eq' _ (nfpNfdkXdpComplete j st.tx (xdpCmpl j st.tx st.dev))
    obtain ⟨read', hle, hrd, hdev, hlog, hdata, hwr, -⟩ := nfpNfdkXdpComplete_spec (Nat.le_of_succ_le hj) hj' ha.dev hc
    have hspan : read' ≤ span st.tx.log := hlog ▸ hdev.ring.core.le
    simp only [hc]
    obtain ⟨hiff, hkept⟩ := xdp_kept hj' ha (giveAll k st.rx c.2.1) hle hspan hrd hdev
        (account_of_eq ha.account hdata hlog)
    exact ⟨hiff.trans (iff_of_true (hlog ▸ ha.data) trivial), hkept⟩
  | advance n =>
    obtain ⟨hle, heq⟩ := Option.ite_none_right_eq_some.mp h
    cases heq
    have hdev := ha.dev.advance hle
    exact ⟨iff_of_true (core_limits hdev.ring.core hj' ha.data) trivial, fun _ => ⟨hdev, ha.account, ha.data⟩⟩

theorem xdp_start_accounted (ktxds : Nat → Desc) (rx : Rx.Ring) : XdpAccounted j (xdpStart ktxds rx) :=
  ⟨XdpDev.start ktxds, rfl, fun _ => Nat.zero_le _⟩

theorem nfdk_block_limits_iff (hj : 6 ≤ j) (hj' : j < 32) (ktxds : Nat → Desc) (ktxbufs : Nat → Raw) :
    (∀ as t, run (sizedStep j) (start ktxds ktxbufs) as = some t →
      (Always (sizedStep j) (fun st => Limits j st.ring (span (st.ring.log.take st.seen))) (start ktxds ktxbufs) as ↔
        Guarded (sizedStep j) (ClosesBrimful j) (start ktxds ktxbufs) as)) ∧
      ∀ k dmaMapSz rx as t, run (xdpStep j k dmaMapSz) (xdpStart ktxds rx) as = some t →
        (Always (xdpStep j k dmaMapSz) (fun st => Limits j st.tx st.read) (xdpStart ktxds rx) as ↔
          Guarded (xdpStep j k dmaMapSz) (XdpClosesBrimful j k dmaMapSz) (xdpStart ktxds rx) as) := by
  refine ⟨fun as t hr => skb_limits_iff hj hj' ktxds ktxbufs hr, fun k dmaMapSz rx as t hr => ?_⟩
  refine always_iff_guarded (I := XdpAccounted j) ?_ ?_ ?_ (xdp_start_accounted ktxds rx) hr
  · exact fun st ha => core_limits ha.dev.ring.core hj' ha.data
  · exact fun st a st' ha h => (xdpStep_limit hj hj' ha a h).1
  · exact fun st a st' ha h => (xdpStep_limit hj hj' ha a h).2

def linearSkb (uid len : Nat) (hpos : 1 ≤ len) (hlen : len < 2 ^ 31) : Skb :=
  ⟨uid, 0, len, [], none, hpos, Skb.fragless, by rw [List.sum_nil]; omega⟩

def sendLinear (uid len : Nat) (hpos : 1 ≤ len) (hlen : len < 2 ^ 31) : Action :=
  .tx ⟨some (linearSkb uid len hpos hlen, 0), true, true, some 4096, [], 0, true⟩

def halves : List Action := [sendLinear 0 32768 (by decide) (by decide), sendLinear 1 32768 (by decide) (by decide)]

theorem halves_within_limits :
    Always (sizedStep 7) (fun st => Limits 7 st.ring (span (st.ring.log.take st.seen)))
      (start (fun _ => .nop) fun _ => .null) halves := by
  refine ((nfdk_block_limits_iff (by decide) (by decide) _ _).1 halves _ rfl).mpr ?_
  exact guarded_cons rfl (fun h => absurd h (by decide)) (guarded_cons rfl (fun h => absurd h (by decide)) trivial)

theorem full_block_overfilled :
    ∃ st, run (sizedStep 7) (start (fun _ => .nop) fun _ => .null)
        (halves ++ [sendLinear 2 100 (by decide) (by decide)]) = some st ∧
      blockData 0 0 st.ring.log = 65636 ∧
      ¬Always (sizedStep 7) (fun st => Limits 7 st.ring (span (st.ring.log.take st.seen)))
        (start (fun _ => .nop) fun _ => .null)
        (halves ++ [sendLinear 2 100 (by decide) (by decide)]) := by
  refine ⟨_, rfl, by decide, fun h => ?_⟩
  have hdata := (h.last rfl).data 0
  revert hdata
  decide

end Runs

end NfpDriver.Nfdk
