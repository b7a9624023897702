import NfpDriver.Ctrl.Queue
import NfpDriver.Nfd3.TxSound
import NfpDriver.Nfdk.TxExact

namespace NfpDriver.Ctrl.Nfdk

open Runs Slots List NfpDriver.Nfdk
open NfpDriver.Nfd3 (nfpNetReadTxCmpl readTxCmpl_ofNat todo_eq)

structure TxRing where
  ring : Ring
  qcpRd : Ptr
  fetched : List (Option Skb)

def untilEop : List Desc → List Desc × List Desc
  | [] => ([], [])
  | d :: ds =>
    if d.isData then if d.hasEop then ([d], ds) else (d :: (untilEop ds).1, (untilEop ds).2) else ([], d :: ds)

-- the addresses the device reads for the descriptors of one packet, and the metadata it gets with them
def transfer (ds : List Desc) : Option (List Nat × BitVec 64) :=
  match untilEop ds with
  | (data, [.metadata raw]) => some (covered data, raw)
  | _ => none

-- the message whose first slot is at p, if its descriptors transfer all of the buffer and nothing else;
-- a closed block has none, if its descriptors do nothing
def slotMsgs (k : Nat) (hasMeta : Bool) (r : Ring) (p : Ptr) : List (Option Skb) :=
  let raw := r.ktxbufs (idx k p)
  let ds := queue k r.ktxds p (raw.nDescs p)
  match raw with
  | .skb skb =>
    [if transfer ds = some (range' (r.ktxbufs (idx k p + 1)).dmaAddr skb.headlen, ctrlMeta hasMeta) then some skb
      else none]
  | _ => if ds.all (· = .nop) then [] else [none]

def walkSlots (k : Nat) (hasMeta : Bool) (r : Ring) (stop : Ptr) : Nat → Ptr → List (Option Skb) × Ptr
  | 0, p => ([], p)
  | n + 1, p =>
    if p = stop then ([], p)
    else
      let rest := walkSlots k hasMeta r stop n (p + BitVec.ofNat 32 ((r.ktxbufs (idx k p)).nDescs p))
      (slotMsgs k hasMeta r p ++ rest.1, rest.2)

-- the device moves over n packets and closed blocks, or up to the write pointer it was told
def advance (k : Nat) (hasMeta : Bool) (r : TxRing) (n : Nat) : TxRing :=
  let w := walkSlots k hasMeta r.ring r.ring.qcpWr n r.qcpRd
  { r with qcpRd := w.2, fetched := r.fetched ++ w.1 }

def written (k : Nat) (hasMeta : Bool) (r : TxRing) : List (Option Skb) :=
  r.fetched ++ (walkSlots k hasMeta r.ring r.ring.wrP (2 ^ k) r.qcpRd).1

def ops (k : Nat) (txrwb hasMeta : Bool) : Ops TxRing Skb where
  ctrlTxOne r skb dma :=
    let t := nfpNfdkCtrlTxOne k r.ring skb hasMeta dma
    ({ r with ring := t.1 }, t.2)
  txComplete r := { r with ring := (nfpNfdkTxComplete k r.ring (nfpNetReadTxCmpl txrwb r.qcpRd)).1 }
  advance r n := some (advance k hasMeta r n)

def linear (hasMeta : Bool) (skb : Skb) : Bool :=
  decide (skb.frags = []) && skb.gso.isNone && (!hasMeta || decide (8 ≤ skb.headroom))

def fits (hasMeta : Bool) (skb : Skb) : Bool :=
  linear hasMeta skb && decide (skb.headlen + (if hasMeta then 8 else 0) ≤ 266240)

def mapped (hasMeta : Bool) (skb : Skb) (head : Nat) : Bool := ctrlMapped skb hasMeta (some head)

def full (k : Nat) (r : TxRing) : Bool := nfpNetTxFull k r.ring 64

def start (ktxds : Nat → Desc) (ktxbufs : Nat → Raw) : TxRing := ⟨.start ktxds ktxbufs, 0, []⟩

variable {k n head : Nat} {hasMeta txrwb : Bool} {r : TxRing} {skb pushed : Skb} {as mid rest es bs : List Entry}
    {e : Entry}

section Transfer

theorem untilEop_eq {first : Desc} {ds tail : List Desc} (hdata : ∀ d ∈ first :: ds, d.isData = true)
    (heop : (first :: ds).map Desc.hasEop = replicate ds.length false ++ [true]) :
    untilEop (first :: ds ++ tail) = (first :: ds, tail) := by
  induction ds generalizing first with
  | nil =>
    have hlast : first.hasEop = true := head_eq_of_cons_eq heop
    rw [cons_append, untilEop, if_pos (hdata first mem_cons_self), if_pos hlast]
    rfl
  | cons d ds ih =>
    obtain ⟨hfirst, hrest⟩ := cons.inj heop
    have htail := ih (fun x hx => hdata x (mem_cons_of_mem _ hx)) hrest
    rw [cons_append, untilEop, if_pos (hdata first mem_cons_self), if_neg (by rw [hfirst]; exact Bool.false_ne_true),
      htail]

theorem transfer_packetDescs (hfrags : skb.frags = []) (hgso : skb.gso = none) (hhead : head + skb.headlen ≤ 2 ^ 48)
    (metadata : BitVec 64) : transfer (packetDescs skb head [] metadata 0) =
      some (range' head skb.headlen, metadata) := by
  have hexact := packetDescs_exact (show ([] : List Nat).length = skb.frags.length by rw [hfrags]) hhead
    (by rw [hfrags]; exact fun f hf => (not_mem_nil hf).elim) metadata 0
  obtain ⟨first, rest, tail, hdescs, hbytes, -, -, heop, hdata, htail⟩ := hexact.split
  rw [hgso] at htail
  obtain ⟨metadata', rfl⟩ := htail
  -- the descriptor behind the data is the one the send path puts there
  have hlast : metadata' = metadata := by
    have h := hdescs
    rw [packetDescs, hgso, Option.isSome_none, if_neg Bool.false_ne_true] at h
    exact (Desc.metadata.inj (append_singleton_inj.mp h).2).symm
  rw [hfrags, fragBytes, zip_nil_left, flatMap_nil, append_nil] at hbytes
  rw [transfer, hdescs, untilEop_eq hdata heop, ← hbytes, hlast]

end Transfer

def CtrlEntry (hasMeta : Bool) : Entry → Prop
  | .packet skb head addrs descs =>
    Exact skb head addrs descs ∧ transfer descs = some (range' head skb.headlen, ctrlMeta hasMeta)
  | .xdp _ _ _ _ => False
  | .closed _ => True

theorem CtrlEntry.ok (h : CtrlEntry hasMeta e) : e.Ok := by
  cases e with
  | packet => exact h.1
  | xdp => exact h
  | closed => trivial

section Walk

variable {r : Ring} {read : Nat} (hc : Core k skbMarks r read) (hk : 5 ≤ k) (hk' : k < 32)

include hc hk'

theorem descs_at (hlog : r.log = as ++ e :: bs) (hread : read ≤ span as) :
    queue k r.ktxds (BitVec.ofNat 32 (span as)) e.size = e.descs := by
  refine List.ext_getElem? fun i => ?_
  rcases lt_or_ge i e.size with hlt | hge
  · have hlen : (as.flatMap Entry.descs).length = span as := flat_length as
    have hget : (flat r.log)[span as + i]? = e.descs[i]? := by
      rw [hlog, flat, flatMap_append, flatMap_cons, getElem?_append_right (by omega), hlen, Nat.add_sub_cancel_left,
        getElem?_append_left hlt]
    have hbuf := hc.descs _ _ (by omega) (hget.trans (getElem?_eq_getElem hlt))
    rw [queue, getElem?_map, getElem?_range hlt, Option.map_some, ← BitVec.ofNat_add, idx_ofNat (le_of_lt hk'), hbuf]
    exact (getElem?_eq_getElem hlt).symm
  · rw [getElem?_eq_none (by rw [queue_length]; exact hge), getElem?_eq_none hge]

include hk

theorem dma_at {descs : List Desc} {addrs : List Nat} (hlog : r.log = as ++ .packet skb head addrs descs :: bs)
    (hread : read ≤ span as) : r.ktxbufs (idx k (BitVec.ofNat 32 (span as)) + 1) = .dma head := by
  have hplaced := hc.placed
  rw [hlog] at hplaced
  obtain ⟨htwo, hblock⟩ := hplaced.at
  rw [zero_add] at hblock
  have hfits := inBlock_fits hk (by omega) hblock
  have hnext : idx k (BitVec.ofNat 32 (span as)) + 1 = (span as + 1) % 2 ^ k := by
    rw [idx_ofNat (le_of_lt hk'), mod_add_of_fits (by omega)]
  rw [hnext]
  refine hc.bufs _ _ (by omega) ?_
  rw [hlog, flatMap_append, flatMap_cons, getElem?_append_right (by rw [marks_length skbMarks_length]; omega),
    marks_length skbMarks_length, Nat.add_sub_cancel_left, getElem?_append_left (by rw [skbMarks_length]; exact htwo),
    skbMarks, getElem?_map, getElem?_range (show 1 < (Entry.packet skb head addrs descs).size from htwo)]
  rfl

variable (hctrl : ∀ e ∈ r.log, CtrlEntry hasMeta e)

include hctrl

theorem slotMsgs_at (hlog : r.log = as ++ e :: bs) (hread : read ≤ span as) :
    (r.ktxbufs (idx k (BitVec.ofNat 32 (span as)))).nDescs (BitVec.ofNat 32 (span as)) = e.size ∧
      slotMsgs k hasMeta r (BitVec.ofNat 32 (span as)) = e.skbs.map some := by
  obtain ⟨hn, -⟩ := hc.walkOne hk' (fun e he => (hctrl e he).ok) hlog hread []
  refine ⟨hn, ?_⟩
  have hmark := hc.mark_at hk' hlog hread
  have hdescs := descs_at hc hk' hlog hread
  have hentry := hctrl e (hlog ▸ mem_append_right _ mem_cons_self)
  rw [hmark] at hn
  simp only [slotMsgs, hmark, hn, hdescs]
  cases e with
  | packet skb head addrs descs =>
    simp only [Entry.mark, Entry.descs, Entry.skbs, dma_at hc hk hk' hlog hread, Raw.dmaAddr]
    rw [if_pos hentry.2]
    rfl
  | xdp => exact hentry.elim
  | closed m =>
    have hnop : ((Entry.closed m).descs.all (· = .nop)) = true :=
      all_eq_true.mpr fun d hd => decide_eq_true (eq_of_mem_replicate hd)
    simp only [Entry.mark, hnop, if_true]
    rfl

theorem walkSlots_spec (hlog : r.log = as ++ es) (hread : read ≤ span as) :
    walkSlots k hasMeta r r.wrP n (BitVec.ofNat 32 (span as)) =
      (((es.take n).flatMap Entry.skbs).map some, BitVec.ofNat 32 (span (as ++ es.take n))) := by
  induction n generalizing as es with
  | zero => rw [take_zero, append_nil, walkSlots, flatMap_nil, map_nil]
  | succ n ih =>
    cases es with
    | nil =>
      rw [append_nil] at hlog
      rw [walkSlots, if_pos (by rw [hc.wr, hlog]), take_nil, append_nil, flatMap_nil, map_nil]
    | cons e es =>
      have hspan : span r.log = span as + (e.size + span es) := by rw [hlog, span_append, span_cons]
      have hplaced := hc.placed
      rw [hlog] at hplaced
      have hpos := hplaced.at.inBlock.1
      have hpow : 2 ^ k < 2 ^ 32 := Nat.pow_lt_pow_right (by decide) hk'
      have hroom := hc.room
      have hne : ¬BitVec.ofNat 32 (span as) = r.wrP := by
        rw [hc.wr]
        intro heq
        have := ofNat_inj (by omega) (by omega) heq.symm
        omega
      obtain ⟨hn, hmsgs⟩ := slotMsgs_at hc hk hk' hctrl hlog hread
      have hsnoc : span (as ++ [e]) = span as + e.size := by rw [span_append, span_singleton]
      have hsplit : r.log = (as ++ [e]) ++ es := by
        rw [hlog, append_assoc]
        rfl
      have hrest := ih hsplit (by omega)
      rw [hsnoc, BitVec.ofNat_add] at hrest
      simp only [walkSlots, if_neg hne, hn, hmsgs, hrest]
      rw [take_succ_cons, flatMap_cons, map_append, append_assoc, singleton_append]

end Walk

structure At (k : Nat) (txrwb hasMeta : Bool) (r : TxRing) (as mid rest : List Entry) : Prop where
  log : r.ring.log = as ++ mid ++ rest
  core : Core k skbMarks r.ring (span as)
  ctrl : ∀ e ∈ r.ring.log, CtrlEntry hasMeta e
  qcpRd : r.qcpRd = BitVec.ofNat 32 (span (as ++ mid))
  qcpRdP : r.ring.qcpRdP = nfpNetReadTxCmpl txrwb (BitVec.ofNat 32 (span as))
  qcpWr : r.ring.qcpWr = r.ring.wrP
  wrPtrAdd : r.ring.wrPtrAdd = 0

def Good (k : Nat) (txrwb hasMeta : Bool) (r : TxRing) : Prop := ∃ as mid rest, At k txrwb hasMeta r as mid rest

section Ring

variable (ha : At k txrwb hasMeta r as mid rest) (hk : 6 ≤ k) (hk' : k ≤ 18)

include ha hk hk'

theorem At.walk (n : Nat) :
    walkSlots k hasMeta r.ring r.ring.wrP n r.qcpRd =
      (((rest.take n).flatMap Entry.skbs).map some, BitVec.ofNat 32 (span (as ++ mid ++ rest.take n))) := by
  rw [ha.qcpRd]
  exact walkSlots_spec ha.core (Nat.le_of_succ_le hk) (by omega) ha.ctrl ha.log (by rw [span_append]; omega)

theorem At.written_eq : written k hasMeta r = r.fetched ++ (rest.flatMap Entry.skbs).map some := by
  have hplaced := ha.core.placed
  rw [ha.log] at hplaced
  have hlen : rest.length ≤ span rest := span_pos (placed_append.mp hplaced).2
  have hspan : span r.ring.log = span as + span mid + span rest := by rw [← span_append, ← span_append, ← ha.log]
  have hroom := ha.core.room
  rw [written, ha.walk hk hk', take_of_length_le (by omega)]

theorem At.advance (n : Nat) :
    At k txrwb hasMeta (advance k hasMeta r n) as (mid ++ rest.take n) (rest.drop n) ∧
      written k hasMeta (advance k hasMeta r n) = written k hasMeta r := by
  have hwalk := ha.walk hk hk' n
  have hat : At k txrwb hasMeta (Nfdk.advance k hasMeta r n) as (mid ++ rest.take n) (rest.drop n) := by
    refine ⟨?_, ha.core, ha.ctrl, ?_, ha.qcpRdP, ha.qcpWr, ha.wrPtrAdd⟩
    · rw [append_assoc as, append_assoc mid, take_append_drop, ← append_assoc]
      exact ha.log
    · simp only [Nfdk.advance]
      rw [ha.qcpWr, hwalk, append_assoc]
  refine ⟨hat, ?_⟩
  rw [hat.written_eq hk hk', ha.written_eq hk hk']
  simp only [Nfdk.advance]
  rw [ha.qcpWr, hwalk, append_assoc, ← map_append, ← flatMap_append, take_append_drop]

theorem At.complete :
    ∃ r', (ops k txrwb hasMeta).txComplete r = r' ∧ At k txrwb hasMeta r' (as ++ mid) [] rest ∧
      written k hasMeta r' = written k hasMeta r := by
  have hc := ha.core
  have hpow : 2 ^ k ≤ 2 ^ 18 := Nat.pow_le_pow_right (by decide) hk'
  have hspan : span r.ring.log = span as + span mid + span rest := by rw [← span_append, ← span_append, ← ha.log]
  have hspan' : span (as ++ mid) = span as + span mid := span_append as mid
  have hroom := hc.room
  have htodo : idx k (nfpNetReadTxCmpl txrwb r.qcpRd - r.ring.qcpRdP) = span mid := by
    rw [ha.qcpRd, ha.qcpRdP, todo_eq hk', sub_ofNat (by omega), idx_ofNat (by omega), Nat.mod_eq_of_lt (by omega),
      hspan',
      Nat.add_sub_cancel_left]
  have hidle : nfpNetReadTxCmpl txrwb r.qcpRd = r.ring.qcpRdP ↔ span mid = 0 := by
    refine ⟨fun heq => ?_, fun hzero => ?_⟩
    · rw [heq, BitVec.sub_self] at htodo
      exact htodo.symm.trans (idx_ofNat (w := 32) (by omega) 0 |>.trans (Nat.zero_mod _))
    · rw [ha.qcpRd, ha.qcpRdP, hspan', hzero, add_zero]
  have heq := hc.complete (by omega) (fun e he => (ha.ctrl e he).ok) ha.log rfl hidle htodo
  obtain ⟨r', hr'⟩ := @exists_eq' _ ((ops k txrwb hasMeta).txComplete r)
  have hring : r' = { r with
      ring := { r.ring with
        rdP := BitVec.ofNat 32 (span (as ++ mid))
        qcpRdP := nfpNetReadTxCmpl txrwb r.qcpRd } } := by
    rw [← hr']
    simp only [ops, heq]
  have hat : At k txrwb hasMeta r' (as ++ mid) [] rest := by
    subst hring
    refine ⟨by rw [append_nil]; exact ha.log, hc.advance (by omega) (by omega) _ rfl, ha.ctrl, ?_, ?_, ha.qcpWr,
      ha.wrPtrAdd⟩
    · rw [append_nil]
      exact ha.qcpRd
    · exact congrArg (nfpNetReadTxCmpl txrwb) ha.qcpRd
  refine ⟨r', hr', hat, ?_⟩
  rw [hat.written_eq hk hk', ha.written_eq hk hk', hring]

end Ring

section Send

theorem ctrlPush_fits (h : fits hasMeta skb = true) :
    skb.frags = [] ∧ ∃ pushed, ctrlPush skb hasMeta = some pushed ∧ pushed.gso = none ∧
      fitted pushed false = some pushed := by
  obtain ⟨⟨⟨hfrags, hgso⟩, hroom⟩, hsize⟩ :
      ((skb.frags = [] ∧ skb.gso = none) ∧ (!hasMeta || decide (8 ≤ skb.headroom)) = true) ∧
      skb.headlen + (if hasMeta then 8 else 0) ≤ 266240 := by
    simpa only [fits, linear, Bool.and_eq_true, decide_eq_true_eq, Option.isNone_iff_eq_none] using h
  have hfitted {pushed : Skb} (hlin : pushed.frags = []) (hlen : pushed.headlen ≤ 266240) :
      fitted pushed false = some pushed := by
    refine if_pos ?_
    rw [segs_eq, hlin, map_nil, sum_nil, Nat.add_zero, headlenToSegs_eq (by omega)]
    omega
  refine ⟨hfrags, ?_⟩
  cases hasMeta with
  | false => exact ⟨skb, rfl, hgso, hfitted hfrags hsize⟩
  | true =>
    have hhead : 8 ≤ skb.headroom := of_decide_eq_true hroom
    have hlen : 8 + skb.headlen ≤ 266240 := Nat.add_comm 8 _ ▸ hsize
    exact ⟨skb.push 8 hhead, dif_pos hhead, hgso, hfitted hfrags hlen⟩

theorem maybeClose_told {r r' : Ring} {skb' : Skb} {linearized : Bool}
    (h : nfpNfdkTxMaybeCloseBlock k r skb linearized = some (skb', r')) (htold : r.qcpWr + r.wrPtrAdd = r.wrP) :
    r'.qcpWr + r'.wrPtrAdd = r'.wrP := by
  rw [nfpNfdkTxMaybeCloseBlock, Option.map_eq_some_iff] at h
  obtain ⟨s, -, heq⟩ := h
  split at heq
  · cases heq
    simp only [closeBlock]
    rw [← BitVec.add_assoc, htold]
  · cases heq
    exact htold

theorem closed_ctrl {closed : List Entry} (hok : ∀ e ∈ closed, e.Ok) (hskbs : closed.flatMap Entry.skbs = []) :
    ∀ e ∈ closed, CtrlEntry hasMeta e := by
  intro e he
  have hnone := flatMap_eq_nil_iff.mp hskbs e he
  cases e with
  | packet => cases hnone
  | xdp => exact hok _ he
  | closed => trivial

theorem At.sent (ha : At k txrwb hasMeta r as mid rest) (hk : 6 ≤ k) (hk' : k ≤ 18) (hfits : fits hasMeta skb = true)
    (hmap : mapped hasMeta skb head = true) (hfull : full k r = false) :
    ∃ ring', nfpNfdkCtrlTxOne k r.ring skb hasMeta (some head) = (ring', .sent) ∧
      Good k txrwb hasMeta { r with ring := ring' } ∧
      written k hasMeta { r with ring := ring' } = written k hasMeta r ++ [ctrlPush skb hasMeta] := by
  obtain ⟨hfrags, pushed, hpush, hgso, hfit⟩ := ctrlPush_fits hfits
  have hroom : ¬nfpNetTxFull k r.ring 64 = true := Bool.eq_false_iff.mp hfull
  obtain ⟨⟨skb', r₁⟩, hclose⟩ : ∃ out, nfpNfdkTxMaybeCloseBlock k r.ring pushed false = some out :=
    ⟨_, by rw [nfpNfdkTxMaybeCloseBlock, hfit, Option.map_some]⟩
  obtain ⟨hfit', closed, hlog, hclosed⟩ := maybeClose_log hclose
  obtain rfl : pushed = skb' := Option.some.inj (hfit.symm.trans hfit')
  obtain ⟨-, hcore₁, hgrows₁, hblock, hroom₁⟩ := maybeClose_spec ha.core hk (by omega) hfull hclose
  obtain ⟨es, hes, hesOk⟩ := hgrows₁.log
  obtain rfl : es = closed := append_cancel_left (hes.symm.trans hlog)
  have htold := maybeClose_told hclose (by rw [ha.wrPtrAdd, ha.qcpWr]; exact BitVec.add_zero _)
  have hlinear : pushed.frags = [] := (ctrlPush_frags hpush).trans hfrags
  have hhead : head + pushed.headlen ≤ 2 ^ 48 := by
    simp only [mapped, ctrlMapped, hpush, Option.all_some, Bool.and_eq_true] at hmap
    exact (skbMapped_iff.mp hmap.2).1
  have hexact := packetDescs_exact (show ([] : List Nat).length = pushed.frags.length by rw [hlinear]) hhead
    (by rw [hlinear]; exact fun f hf => (not_mem_nil hf).elim) (ctrlMeta hasMeta) 0
  have htransfer := transfer_packetDescs hlinear hgso hhead (ctrlMeta hasMeta)
  obtain ⟨descs, hdescs⟩ := @exists_eq' _ (packetDescs pushed head [] (ctrlMeta hasMeta) 0)
  rw [hdescs] at hexact htransfer
  have hge := segs_ge pushed
  obtain ⟨hover, hcore₂, hgrows₂⟩ := hcore₁.packet (Nat.le_of_succ_le hk) (by omega)
      (fitted_segs hfit) hblock hroom₁ hexact
    [.skb pushed, .dma head] (show 2 ≤ _ by omega) rfl rfl
  obtain ⟨r₂, hr₂⟩ := @exists_eq' _ (commit (put k r₁ descs [.skb pushed, .dma head]) (.packet pushed head [] descs))
  rw [hr₂] at hcore₂ hgrows₂
  have hlog₂ : r₂.log = as ++ mid ++ (rest ++ es ++ [.packet pushed head [] descs]) := by
    rw [← hr₂]
    simp only [commit, put]
    rw [hlog, ha.log]
    simp only [append_assoc]
  have hentries : ∀ e ∈ r₂.log, CtrlEntry hasMeta e := by
    have hsplit : r₂.log = r.ring.log ++ es ++ [.packet pushed head [] descs] := by
      rw [hlog₂, ha.log]
      simp only [append_assoc]
    intro e he
    rw [hsplit] at he
    rcases mem_append.mp he with he | he
    · exact (mem_append.mp he).elim (ha.ctrl e) (closed_ctrl hesOk hclosed e)
    · exact mem_singleton.mp he ▸ ⟨hexact, htransfer⟩
  have hat : At k txrwb hasMeta { r with ring := nfpNetTxXmitMoreFlush r₂ } as mid
      (rest ++ es ++ [.packet pushed head [] descs]) := by
    refine ⟨hlog₂, hcore₂.flush, hentries, ha.qcpRd, ?_, ?_, rfl⟩
    · exact (hgrows₂.qcp.trans hgrows₁.qcp).trans ha.qcpRdP
    · rw [← hr₂]
      simp only [nfpNetTxXmitMoreFlush, commit, put]
      rw [← BitVec.add_assoc, htold]
  refine ⟨nfpNetTxXmitMoreFlush r₂, ?_, ⟨_, _, _, hat⟩, ?_⟩
  · simp only [nfpNfdkCtrlTxOne, ctrlSend, hpush, hclose, ctrlSendMapped, hdescs, hr₂]
    rw [if_neg (not_not.mpr hfrags), if_neg hroom, hover, if_neg Bool.false_ne_true]
  · rw [hat.written_eq hk hk', ha.written_eq hk hk', flatMap_append, flatMap_append, hclosed, append_nil, map_append,
      append_assoc, hpush]
    rfl

theorem channel (hk : 6 ≤ k) (hk' : k ≤ 18) (txrwb hasMeta : Bool) :
    Channel (ops k txrwb hasMeta) (fits hasMeta) (mapped hasMeta) (full k) (Good k txrwb hasMeta) (written k hasMeta)
      fun skb => ctrlPush skb hasMeta := by
  refine ⟨fun r skb dma hok hfull => ?_, fun r skb head hgood hok hmap hfull => ?_, fun r hgood => ?_,
    fun r n r' hgood hadv => ?_⟩
  · obtain ⟨hfrags, -⟩ := ctrlPush_fits hok
    have hfull' : nfpNetTxFull k r.ring 64 = true := hfull
    simp only [ops, nfpNfdkCtrlTxOne]
    rw [if_neg (not_not.mpr hfrags), if_pos hfull']
  · obtain ⟨as, mid, rest, ha⟩ := hgood
    obtain ⟨ring', hsent, hgood', hwritten⟩ := ha.sent hk hk' hok hmap hfull
    exact ⟨{ r with ring := ring' }, by simp only [ops, hsent], hgood', hwritten⟩
  · obtain ⟨as, mid, rest, ha⟩ := hgood
    obtain ⟨r', rfl, hat, hwritten⟩ := ha.complete hk hk'
    exact ⟨⟨_, _, _, hat⟩, hwritten⟩
  · obtain ⟨as, mid, rest, ha⟩ := hgood
    obtain rfl := Option.some.inj hadv
    obtain ⟨hat, hwritten⟩ := ha.advance hk hk' n
    exact ⟨⟨_, _, _, hat⟩, hwritten, rfl⟩

theorem start_good (k : Nat) (txrwb hasMeta : Bool) (ktxds : Nat → Desc) (ktxbufs : Nat → Raw) :
    Good k txrwb hasMeta (start ktxds ktxbufs) :=
  ⟨[], [], [], rfl, (inv_start ktxds ktxbufs).core, fun _ he => (not_mem_nil he).elim, rfl,
    show (0 : Ptr) = nfpNetReadTxCmpl txrwb 0 by cases txrwb <;> decide, rfl, rfl⟩

theorem start_written (k : Nat) (hasMeta : Bool) (ktxds : Nat → Desc) (ktxbufs : Nat → Raw) :
    written k hasMeta (start ktxds ktxbufs) = [] := by
  obtain ⟨m, hm⟩ := Nat.exists_eq_add_of_le (Nat.two_pow_pos k)
  rw [written, hm, Nat.add_comm]
  rfl

end Send

end NfpDriver.Ctrl.Nfdk
