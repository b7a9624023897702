import NfpDriver.Nfdk.Blocks

namespace NfpDriver.Nfdk

open Slots List Option

def skbMapped (skb : Skb) (head : Nat) (addrs : List Nat) : Bool :=
  decide (head + skb.headlen ≤ 2 ^ 48) && (skb.frags.zip addrs).all fun f => decide (f.2 + f.1 ≤ 2 ^ 48)

def txMapped (env : TxEnv) : Bool :=
  match env.prep with
  | none => true
  | some (skb, _) =>
    (fitted skb env.linearized).all fun skb =>
      decide (env.frags.length = skb.frags.length) && env.head.all fun head => skbMapped skb head (mapFrags env.frags).1

def ctrlMapped (skb : Skb) (hasMeta : Bool) (dma : Option Nat) : Bool :=
  decide (skb.gso = none) && (ctrlPush skb hasMeta).all fun skb => dma.all fun head => skbMapped skb head []

def Entry.mark : Entry → Raw
  | .packet skb _ _ _ => .skb skb
  | .xdp _ _ _ _ => .null
  | .closed _ => .null

def Entry.skbs : Entry → List Skb
  | .packet skb _ _ _ => [skb]
  | .xdp _ _ _ _ => []
  | .closed _ => []

def Accepts (k : Nat) (r : Ring) (env : TxEnv) : Prop :=
  ∃ skb metadata skb' head closed descs, env.prep = some (skb, metadata) ∧ fitted skb env.linearized = some skb' ∧
    env.head = some head ∧ closed.flatMap Entry.skbs = [] ∧
    (nfpNfdkTx k r env).1.log = r.log ++ closed ++ [.packet skb' head (mapFrags env.frags).1 descs]

def Entry.Ok : Entry → Prop
  | .packet skb head addrs descs => Exact skb head addrs descs
  | .xdp _ _ _ _ => False
  | .closed _ => True

def Entry.mapped : Entry → Option Raw
  | .packet _ head _ _ => some (.dma head)
  | .xdp _ _ _ _ => none
  | .closed _ => none

def skbMarks (e : Entry) : List (Option Raw) :=
  (List.range e.size).map fun i => if i = 0 then some e.mark else if i = 1 then e.mapped else none

theorem skbMarks_length (e : Entry) : (skbMarks e).length = e.size := by
  rw [skbMarks, length_map, length_range]

variable {e : Entry} {n head : Nat} {r r' : Ring} {linearized hasMeta : Bool} {skb skb' : Skb}
  {frags : List (Option Nat)} {env : TxEnv} {out : Ring × Outcome}

theorem skbMarks_get {x : Raw} (h : (skbMarks e)[n]? = some (some x)) :
    n = 0 ∧ x = e.mark ∨ n = 1 ∧ e.mapped = some x := by
  rw [skbMarks, List.getElem?_map, map_eq_some_iff] at h
  obtain ⟨m, hm, hx⟩ := h
  obtain ⟨hlt, rfl⟩ := List.getElem?_eq_some_iff.mp hm
  rw [List.getElem_range] at hx
  split at hx
  · next h0 => exact .inl ⟨h0, (some.inj hx).symm⟩
  split at hx
  · next h1 => exact .inr ⟨h1, hx⟩
  · cases hx

structure Grows (r r' : Ring) : Prop where
  rd : r'.rdP = r.rdP
  qcp : r'.qcpRdP = r.qcpRdP
  log : ∃ es, r'.log = r.log ++ es ∧ ∀ e ∈ es, e.Ok

theorem Grows.refl (r : Ring) : Grows r r :=
    ⟨rfl, rfl, [], (List.append_nil _).symm, fun _ h => (List.not_mem_nil h).elim⟩

theorem Grows.flush (h : Grows r r') : Grows r (nfpNetTxXmitMoreFlush r') := { h with }

theorem Grows.scratch (k : Nat) (r : Ring) (descs : List Desc) (bufs : List Raw) (wrIdx : Nat) :
    Grows r (errUnmap (put k r descs bufs) wrIdx) :=
  ⟨rfl, rfl, (Grows.refl r).log⟩

theorem Grows.trans {r'' : Ring} (h : Grows r r') (h' : Grows r' r'') : Grows r r'' := by
  obtain ⟨es, hes, hok⟩ := h.log
  obtain ⟨fs, hfs, hok'⟩ := h'.log
  refine ⟨h'.rd.trans h.rd, h'.qcp.trans h.qcp, es ++ fs, by rw [hfs, hes, append_assoc], fun e he => ?_⟩
  exact (mem_append.mp he).elim (hok e) (hok' e)

theorem Grows.snoc (hrd : r'.rdP = r.rdP) (hqcp : r'.qcpRdP = r.qcpRdP) (hlog : r'.log = r.log ++ [e]) (he : e.Ok) :
    Grows r r' :=
  ⟨hrd, hqcp, [e], hlog, fun _ hx => List.mem_singleton.mp hx ▸ he⟩

section Send

variable {k read : Nat} {r : Ring}

theorem Core.flush {marks : Entry → List (Option Raw)} (hc : Core k marks r read) :
    Core k marks (nfpNetTxXmitMoreFlush r) read :=
  { hc with }

theorem fitted_segs (h : fitted skb linearized = some skb') : skb'.segs ≤ 17 := by
  rw [fitted] at h
  split at h
  · next hle => exact some.inj h ▸ hle
  split at h
  · obtain ⟨hle, heq⟩ := ite_none_right_eq_some.mp h
    exact some.inj heq ▸ hle
  · cases h

theorem gsoDescs_le (skb : Skb) : skb.gsoDescs ≤ 1 := by
  rw [Skb.gsoDescs]
  split <;> decide

theorem segs_ge (skb : Skb) : 1 + skb.frags.length ≤ skb.segs := by
  have hsmall := skb.small
  have hfrags : ∀ sizes : List Nat, (∀ size ∈ sizes, 1 ≤ size) → sizes.sum < 2 ^ 31 →
      sizes.length ≤ (sizes.map fun size => divRoundUp size 16384).sum := by
    intro sizes hsizes hsum
    induction sizes with
    | nil => exact le_rfl
    | cons size sizes ih =>
      have hsize := hsizes size mem_cons_self
      rw [sum_cons] at hsum
      have hrest := ih (fun s hs => hsizes s (mem_cons_of_mem _ hs)) (by omega)
      rw [map_cons, sum_cons, length_cons, divRoundUp_eq (by omega)]
      omega
  have h := hfrags skb.frags skb.frags_pos (by omega)
  rw [segs_eq, headlenToSegs_eq (by omega)]
  omega

theorem mapFrags_length (frags : List (Option Nat)) :
    (mapFrags frags).1.length ≤ frags.length ∧
      ((mapFrags frags).2 = true → (mapFrags frags).1.length = frags.length) := by
  induction frags with
  | nil => exact ⟨le_rfl, fun _ => rfl⟩
  | cons f frags ih =>
    cases f with
    | none => exact ⟨Nat.zero_le _, Bool.noConfusion⟩
    | some addr => exact ⟨Nat.succ_le_succ ih.1, fun h => congrArg (· + 1) (ih.2 h)⟩

theorem skbMapped_iff {addrs : List Nat} :
    skbMapped skb head addrs = true ↔
      head + skb.headlen ≤ 2 ^ 48 ∧ ∀ f ∈ skb.frags.zip addrs, f.2 + f.1 ≤ 2 ^ 48 := by
  rw [skbMapped, Bool.and_eq_true, decide_eq_true_eq, List.all_eq_true]
  simp only [decide_eq_true_eq]

theorem tsoBuf_length (skb : Skb) : skb.tsoBuf.length = skb.gsoDescs := by
  rw [Skb.tsoBuf, Skb.gsoDescs]
  cases skb.gso <;> rfl

section

variable (hc : Core k skbMarks r read) (hk : 5 ≤ k) (hk' : k < 32)

include hc hk hk'

theorem Core.entry (hplaced : e.Placed (span r.log)) (hroom : span r.log + e.size < read + 2 ^ k)
    (hwr : r'.wrP = r.wrP + BitVec.ofNat 32 e.size) (hrd : r'.rdP = r.rdP) (hlog : r'.log = r.log ++ [e])
    (hdescs : r'.ktxds = write r.ktxds (idx k r.wrP) e.descs) (bufs : List Raw)
    (hktx : r'.ktxbufs = write r.ktxbufs (idx k r.wrP) bufs) (hlen : bufs.length ≤ e.size)
    (hfirst : bufs[0]? = some e.mark) (hsecond : ∀ x, e.mapped = some x → bufs[1]? = some x) :
    Core k skbMarks r' read := by
  obtain ⟨hpos, hblock⟩ := hplaced.inBlock
  have hfits := inBlock_fits hk hpos hblock
  have hmarks := marks_length skbMarks_length r.log
  refine hc.append hk hk' hplaced hroom hwr hrd hlog hdescs ?_
  rw [hktx, hc.idx_wr hk', ← hmarks]
  refine hc.bufs.write bufs _ ?_ ?_ ?_ ?_
  · intro n x hx
    rcases skbMarks_get hx with ⟨rfl, rfl⟩ | ⟨rfl, hmapped⟩
    · exact hfirst
    · exact hsecond x hmapped
  · rw [skbMarks_length]
    exact hlen
  · rw [hmarks, skbMarks_length]
    exact hfits
  · rw [hmarks, skbMarks_length]
    exact le_of_lt hroom

theorem Core.close (hroom : span r.log + 32 < read + 2 ^ k) :
    Core k skbMarks (closeBlock k { r with ktxbufs := Function.update r.ktxbufs (idx k r.wrP) .null }) read := by
  have hn : dBlockCpl r.wrP = 32 - span r.log % 32 := by rw [hc.wr, dBlockCpl_ofNat]
  have hplaced : (Entry.closed (dBlockCpl r.wrP)).Placed (span r.log) := hn
  have hsize := size_closed (dBlockCpl r.wrP)
  exact hc.entry hk hk' hplaced (by omega) (by rw [hsize]; rfl) rfl rfl rfl [.null] rfl hplaced.inBlock.1 rfl nofun

theorem Core.scratch (hn : 2 ≤ n) (hblock : InBlock (span r.log) n) (hroom : span r.log + n ≤ read + 2 ^ k)
    (descs : List Desc) (bufs : List Raw) (hdescs : descs.length ≤ n) (hbufs : bufs.length ≤ n) :
    Core k skbMarks (errUnmap (put k r descs bufs) (idx k r.wrP)) read := by
  have hfits := inBlock_fits hk (by omega) hblock
  have hidx := hc.idx_wr hk'
  have hmarks := marks_length skbMarks_length r.log
  refine ⟨hc.wr, hc.rd, hc.le, hc.room, ?_, ?_, hc.placed⟩
  · simp only [errUnmap, put]
    rw [hidx, ← flat_length]
    refine (hc.descs.write ?_ ?_).left
    · rw [flat_length]
      omega
    · rw [flat_length]
      omega
  · simp only [errUnmap, put]
    rw [hidx, ← mod_add_of_fits (by omega)]
    refine Marks.ahead ?_ (by omega) (by omega) _
    rw [← hmarks]
    refine (hc.bufs.write bufs (replicate bufs.length none) ?_ ?_ ?_ ?_).left
    · intro m x hx
      rw [List.getElem?_replicate] at hx
      split at hx
      · cases hx
      · cases hx
    · rw [length_replicate]
    · rw [hmarks, length_replicate]
      omega
    · rw [hmarks, length_replicate]
      omega

theorem Core.packet (hsegs : skb.segs ≤ 17) (hblock : InBlock (span r.log) (1 + skb.segs + skb.gsoDescs))
    (hroom : span r.log + 32 < read + 2 ^ k) {addrs : List Nat} {descs : List Desc}
      (hexact : Exact skb head addrs descs)
    (bufs : List Raw) (hbufs : bufs.length ≤ 1 + skb.segs + skb.gsoDescs) (hfirst : bufs[0]? = some (.skb skb))
    (hsecond : bufs[1]? = some (.dma head)) :
    overflows k r descs.length = false ∧
      Core k skbMarks (commit (put k r descs bufs) (.packet skb head addrs descs)) read ∧
      Grows r (commit (put k r descs bufs) (.packet skb head addrs descs)) := by
  have hge := segs_ge skb
  have hgso := gsoDescs_le skb
  have hcount := hexact.slots
  rw [← hcount] at hblock hbufs
  have hplaced : (Entry.packet skb head addrs descs).Placed (span r.log) := ⟨by omega, hblock⟩
  have hfits : span r.log + descs.length < read + 2 ^ k := by omega
  exact ⟨overflows_ofNat hk (le_of_lt hk') hc.wr hblock (by omega),
    hc.entry hk hk' hplaced hfits rfl rfl rfl rfl bufs rfl hbufs hfirst fun _ hx =>
      hsecond.trans hx, Grows.snoc rfl rfl rfl hexact⟩

theorem sendMapped_core (hsegs : skb.segs ≤ 17) (hblock : InBlock (span r.log) (1 + skb.segs + skb.gsoDescs))
    (hroom : span r.log + 32 < read + 2 ^ k) (hlen : frags.length = skb.frags.length)
    (hmap : skbMapped skb head (mapFrags frags).1 = true) (metadata lso : BitVec 64) (flush : Bool) :
    Core k skbMarks (sendMapped k r skb head frags metadata lso flush).1 read ∧
      Grows r (sendMapped k r skb head frags metadata lso flush).1 := by
  have hge := segs_ge skb
  have htso := tsoBuf_length skb
  have hgso := gsoDescs_le skb
  obtain ⟨hle, heq⟩ := mapFrags_length frags
  obtain ⟨hhead, haddr⟩ := skbMapped_iff.mp hmap
  obtain ⟨addrs, haddrs⟩ := @exists_eq' _ ((mapFrags frags).1)
  rw [haddrs] at hle heq haddr
  have hbufs : (Raw.skb skb :: Raw.dma head :: addrs.map Raw.dma).length = addrs.length + 2 := by
    rw [length_cons, length_cons, length_map]
  simp only [sendMapped, haddrs]
  split
  · next hok =>
    have hexact := packetDescs_exact ((heq hok).trans hlen) hhead haddr metadata lso
    obtain ⟨descs, hdescs⟩ := @exists_eq' _ (packetDescs skb head addrs metadata lso)
    rw [hdescs] at hexact
    obtain ⟨hover, hcore, hgrows⟩ := hc.packet hk hk' hsegs hblock hroom hexact
      ((Raw.skb skb :: Raw.dma head :: addrs.map Raw.dma) ++ skb.tsoBuf) (by rw [length_append, hbufs]; omega) rfl rfl
    rw [hdescs, hover, if_neg Bool.false_ne_true]
    cases flush with
    | false => exact ⟨hcore, hgrows⟩
    | true => exact ⟨hcore.flush, hgrows.flush⟩
  · have hdata := (dataPart_length_le skb head addrs).1
    have hscratch := hc.scratch hk hk' (by omega) hblock (by omega) (dataPart skb head addrs)
      (Raw.skb skb :: Raw.dma head :: addrs.map Raw.dma) (by omega) (by rw [hbufs]; omega)
    exact ⟨hscratch.flush, (Grows.scratch ..).flush⟩

theorem ctrlSendMapped_core (hasMeta : Bool) (hsegs : skb.segs ≤ 17) (hfrags : skb.frags = [])
    (hblock : InBlock (span r.log) (1 + skb.segs + skb.gsoDescs)) (hroom : span r.log + 32 < read + 2 ^ k)
    (hhead : head + skb.headlen ≤ 2 ^ 48) :
    Core k skbMarks (ctrlSendMapped k r skb hasMeta head).1 read ∧ Grows r (ctrlSendMapped k r skb hasMeta head).1 := by
  have hge := segs_ge skb
  have hexact := packetDescs_exact (show ([] : List Nat).length = skb.frags.length by rw [hfrags]) hhead
    (by rw [hfrags]; exact fun f hf => (not_mem_nil hf).elim) (ctrlMeta hasMeta) 0
  obtain ⟨descs, hdescs⟩ := @exists_eq' _ (packetDescs skb head [] (ctrlMeta hasMeta) 0)
  rw [hdescs] at hexact
  obtain ⟨hover, hcore, hgrows⟩ := hc.packet hk hk' hsegs hblock hroom hexact [.skb skb, .dma head]
    (show 2 ≤ _ by omega) rfl rfl
  simp only [ctrlSendMapped, hdescs]
  rw [hover, if_neg Bool.false_ne_true]
  exact ⟨hcore.flush, hgrows.flush⟩

end

theorem maybeClose_spec (hc : Core k skbMarks r read) (hk : 6 ≤ k) (hk' : k < 32)
    (hfull : nfpNetTxFull k r 64 = false) (h : nfpNfdkTxMaybeCloseBlock k r skb linearized = some (skb', r')) :
    fitted skb linearized = some skb' ∧ Core k skbMarks r' read ∧ Grows r r' ∧
      InBlock (span r'.log) (1 + skb'.segs + skb'.gsoDescs) ∧ span r'.log + 32 < read + 2 ^ k := by
  rw [nfpNfdkTxMaybeCloseBlock, map_eq_some_iff] at h
  obtain ⟨s, hfit, heq⟩ := h
  have hsegs := fitted_segs hfit
  have hgso := gsoDescs_le s
  have hroom := hc.not_full hk hk' (Bool.eq_false_iff.mp hfull)
  split at heq
  · cases heq
    have hn : dBlockCpl r.wrP = 32 - span r.log % 32 := by rw [hc.wr, dBlockCpl_ofNat]
    have hclosed := hc.close (Nat.le_of_succ_le hk) hk' (by omega)
    have hspan : span (r.log ++ [Entry.closed (dBlockCpl r.wrP)]) = span r.log + (32 - span r.log % 32) := by
      rw [span_append, span_singleton, size_closed, hn]
    refine ⟨hfit, hclosed, Grows.snoc rfl rfl rfl trivial, ?_, ?_⟩
    · simp only [closeBlock]
      rw [hspan, InBlock]
      omega
    · simp only [closeBlock]
      rw [hspan]
      omega
  · next hopen =>
    obtain ⟨rfl, rfl⟩ := Prod.mk.inj heq
    have hcross : ¬crossesBlock r.wrP (s.segs + s.gsoDescs) = true := fun hx =>
        hopen (by rw [mustClose, hx, Bool.true_or])
    rw [hc.wr, crossesBlock_ofNat (by omega), not_not] at hcross
    refine ⟨hfit, hc, Grows.refl r, ?_, by omega⟩
    rw [InBlock, hcross]
    exact congrArg (· / 32) (by omega)

inductive Sends (k : Nat) (r : Ring) (env : TxEnv) : Ring × Outcome → Prop
  | idle {o : Outcome} (ho : o ≠ .sent) : Sends k r env (nfpNetTxXmitMoreFlush r, o)
  | unmapped {skb skb' : Skb} {metadata : BitVec 64} {r' : Ring} (hroom : nfpNetTxFull k r 64 = false)
      (hprep : env.prep = some (skb, metadata))
        (hclose : nfpNfdkTxMaybeCloseBlock k r skb env.linearized = some (skb', r')) :
      Sends k r env (nfpNetTxXmitMoreFlush r', .dropped)
  | mapped {skb skb' : Skb} {metadata : BitVec 64} {r' : Ring} {head : Nat} (hroom : nfpNetTxFull k r 64 = false)
      (hprep : env.prep = some (skb, metadata))
        (hclose : nfpNfdkTxMaybeCloseBlock k r skb env.linearized = some (skb', r'))
      (hhead : env.head = some head) :
      Sends k r env (sendMapped k r' skb' head env.frags metadata env.lso env.flush)

theorem nfpNfdkTx_sends (k : Nat) (r : Ring) (env : TxEnv) : Sends k r env (nfpNfdkTx k r env) := by
  unfold nfpNfdkTx
  split
  · exact .idle nofun
  next hfull =>
  split
  · exact .idle nofun
  next skb metadata hprep =>
  split
  · exact .idle nofun
  split
  · exact .idle nofun
  next skb' r' hclose =>
  split
  · exact .unmapped (Bool.eq_false_iff.mpr hfull) hprep hclose
  · next head hhead => exact .mapped (Bool.eq_false_iff.mpr hfull) hprep hclose hhead

theorem Sends.core (h : Sends k r env out) (hc : Core k skbMarks r read) (hk : 6 ≤ k) (hk' : k < 32)
    (hmap : txMapped env = true) : Core k skbMarks out.1 read ∧ Grows r out.1 := by
  cases h with
  | idle ho => exact ⟨hc.flush, (Grows.refl r).flush⟩
  | unmapped hfull hprep hclose =>
    obtain ⟨-, hc', hgrows, -, -⟩ := maybeClose_spec hc hk hk' hfull hclose
    exact ⟨hc'.flush, hgrows.flush⟩
  | mapped hfull hprep hclose hhead =>
    obtain ⟨hfit, hc', hgrows, hblock, hroom'⟩ := maybeClose_spec hc hk hk' hfull hclose
    simp only [txMapped, hprep, hfit, hhead, all_some, Bool.and_eq_true, decide_eq_true_eq] at hmap
    obtain ⟨hcore, hg⟩ :=
      sendMapped_core hc' (Nat.le_of_succ_le hk) hk' (fitted_segs hfit) hblock hroom' hmap.1 hmap.2 _ env.lso env.flush
    exact ⟨hcore, hgrows.trans hg⟩

theorem maybeClose_log (h : nfpNfdkTxMaybeCloseBlock k r skb linearized = some (skb', r')) :
    fitted skb linearized = some skb' ∧ ∃ closed, r'.log = r.log ++ closed ∧ closed.flatMap Entry.skbs = [] := by
  rw [nfpNfdkTxMaybeCloseBlock, map_eq_some_iff] at h
  obtain ⟨s, hfit, heq⟩ := h
  split at heq
  · cases heq
    exact ⟨hfit, [.closed _], rfl, rfl⟩
  · cases heq
    exact ⟨hfit, [], (append_nil _).symm, rfl⟩

theorem flush_log (flush : Bool) : (if flush then nfpNetTxXmitMoreFlush r else r).log = r.log := by
  cases flush <;> rfl

theorem sendMapped_log {metadata lso : BitVec 64} {flush : Bool}
    (h : (sendMapped k r skb head frags metadata lso flush).2 = .sent) :
    ∃ descs, (sendMapped k r skb head frags metadata lso flush).1.log =
      r.log ++ [.packet skb head (mapFrags frags).1 descs] := by
  obtain ⟨descs, hdescs⟩ := @exists_eq' _ (packetDescs skb head (mapFrags frags).1 metadata lso)
  simp only [sendMapped, hdescs] at h ⊢
  split at h
  · next hok =>
    split at h
    · cases h
    · next hover =>
      rw [if_pos hok, if_neg hover, flush_log]
      exact ⟨descs, rfl⟩
  · cases h

theorem Sends.accepts (h : Sends k r env (nfpNfdkTx k r env)) (hsent : (nfpNfdkTx k r env).2 = .sent) :
    Accepts k r env := by
  obtain ⟨out, hout⟩ := @exists_eq' _ (nfpNfdkTx k r env)
  rw [hout] at h hsent
  cases h with
  | idle ho => exact (ho hsent).elim
  | unmapped hfull hprep hclose => cases hsent
  | mapped hfull hprep hclose hhead =>
    obtain ⟨hfit, closed, hlog, hclosed⟩ := maybeClose_log hclose
    obtain ⟨descs, hdescs⟩ := sendMapped_log hsent
    exact ⟨_, _, _, _, closed, descs, hprep, hfit, hhead, hclosed, by rw [hout, hdescs, hlog]⟩

theorem fitted_frags (h : fitted skb linearized = some skb') (hfrags : skb.frags = []) : skb' = skb := by
  rw [fitted] at h
  split at h
  · exact (some.inj h).symm
  · rw [if_neg (fun hx => hx.1 hfrags)] at h
    cases h

theorem ctrlPush_frags (h : ctrlPush skb hasMeta = some skb') : skb'.frags = skb.frags := by
  rw [ctrlPush] at h
  split at h
  · split at h
    · exact some.inj h ▸ rfl
    · cases h
  · exact some.inj h ▸ rfl

inductive CtrlSends (k : Nat) (r : Ring) (skb : Skb) (hasMeta : Bool) (dma : Option Nat) : Ring × Outcome → Prop
  | idle {o : Outcome} (ho : o ≠ .sent) : CtrlSends k r skb hasMeta dma (r, o)
  | unmapped {pushed skb' : Skb} {r' : Ring} (hroom : nfpNetTxFull k r 64 = false)
      (hpush : ctrlPush skb hasMeta = some pushed)
      (hclose : nfpNfdkTxMaybeCloseBlock k r pushed false = some (skb', r')) :
        CtrlSends k r skb hasMeta dma (r', .dropped)
  | mapped {pushed skb' : Skb} {r' : Ring} {head : Nat} (hfrags : skb.frags = []) (hroom : nfpNetTxFull k r 64 = false)
      (hpush : ctrlPush skb hasMeta = some pushed)
        (hclose : nfpNfdkTxMaybeCloseBlock k r pushed false = some (skb', r'))
      (hdma : dma = some head) : CtrlSends k r skb hasMeta dma (ctrlSendMapped k r' skb' hasMeta head)

theorem nfpNfdkCtrlTxOne_sends (k : Nat) (r : Ring) (skb : Skb) (hasMeta : Bool) (dma : Option Nat) :
    CtrlSends k r skb hasMeta dma (nfpNfdkCtrlTxOne k r skb hasMeta dma) := by
  unfold nfpNfdkCtrlTxOne
  split
  · exact .idle nofun
  next hfrags =>
  split
  · exact .idle nofun
  next hfull =>
  unfold ctrlSend
  split
  · exact .idle nofun
  next pushed hpush =>
  split
  · exact .idle nofun
  next skb' r' hclose =>
  split
  · exact .unmapped (Bool.eq_false_iff.mpr hfull) hpush hclose
  · exact .mapped (not_not.mp hfrags) (Bool.eq_false_iff.mpr hfull) hpush hclose rfl

theorem CtrlSends.core {dma : Option Nat} (h : CtrlSends k r skb hasMeta dma out) (hc : Core k skbMarks r read)
    (hk : 6 ≤ k) (hk' : k < 32) (hmap : ctrlMapped skb hasMeta dma = true) :
    Core k skbMarks out.1 read ∧ Grows r out.1 := by
  cases h with
  | idle ho => exact ⟨hc, Grows.refl r⟩
  | unmapped hfull hpush hclose =>
    obtain ⟨-, hc', hgrows, -, -⟩ := maybeClose_spec hc hk hk' hfull hclose
    exact ⟨hc', hgrows⟩
  | mapped hfrags hfull hpush hclose hdma =>
    obtain ⟨hfit, hc', hgrows, hblock, hroom'⟩ := maybeClose_spec hc hk hk' hfull hclose
    have hlinear := (ctrlPush_frags hpush).trans hfrags
    have hsame := fitted_frags hfit hlinear
    simp only [ctrlMapped, hpush, hdma, all_some, Bool.and_eq_true] at hmap
    have hhead := (skbMapped_iff.mp hmap.2).1
    rw [← hsame] at hhead hlinear
    obtain ⟨hcore, hg⟩ := ctrlSendMapped_core hc' (Nat.le_of_succ_le hk) hk' hasMeta
        (fitted_segs hfit) hlinear hblock hroom' hhead
    exact ⟨hcore, hgrows.trans hg⟩

end Send

end NfpDriver.Nfdk
