import NfpDriver.Nfdk.TxExact

namespace NfpDriver.Nfdk

open Runs Slots Option

def blockData (b pos : Nat) : List Entry → Nat
  | [] => 0
  | e :: es => (if pos / 32 = b then e.bytes else 0) + blockData b (pos + e.size) es

def filled (r : Ring) : Nat := blockData (span r.log / 32) 0 r.log

abbrev Within (log : List Entry) : Prop := ∀ b, blockData b 0 log ≤ 65536

structure Limits (k : Nat) (r : Ring) (read : Nat) : Prop where
  data : ∀ b, blockData b 0 r.log ≤ 65536
  blocks : ∀ as e bs, r.log = as ++ e :: bs → InBlock (span as) e.size
  nops : ∀ as n bs, r.log = as ++ .closed n :: bs → read ≤ span as → ∀ i < n,
    r.ktxds (idx k (BitVec.ofNat 32 (span as + i))) = .nop
  room : (r.wrP - r.rdP).toNat ≤ 2 ^ k

variable {e : Entry} {r' : Ring} {len nDescs : Nat} {linearized : Bool} {skb skb' : Skb}

section Account

variable {k : Nat} {r : Ring}

theorem blockData_append (b pos : Nat) (as bs : List Entry) :
    blockData b pos (as ++ bs) = blockData b pos as + blockData b (pos + span as) bs := by
  induction as generalizing pos with
  | nil => exact (zero_add _).symm
  | cons a as ih => rw [List.cons_append, blockData, blockData, ih, span_cons, add_assoc, add_assoc]

theorem blockData_singleton (b pos : Nat) (e : Entry) : blockData b pos [e] = if pos / 32 = b then e.bytes else 0 := rfl

theorem blockData_fresh {b pos : Nat} {es : List Entry} (hplaced : Placed pos es) (h : pos + span es ≤ 32 * b) :
    blockData b pos es = 0 := by
  induction es generalizing pos with
  | nil => rfl
  | cons e es ih =>
    have hpos := hplaced.1.inBlock.1
    rw [span_cons] at h
    rw [blockData, ih hplaced.2 (by omega), if_neg (by omega)]

theorem filled_closed {n : Nat} (hplaced : Placed 0 (r.log ++ [.closed n])) :
    blockData (span (r.log ++ [.closed n]) / 32) 0 (r.log ++ [.closed n]) = 0 := by
  have hn : n = 32 - (0 + span r.log) % 32 := hplaced.at
  refine blockData_fresh hplaced ?_
  rw [span_append, span_singleton, size_closed]
  omega

theorem filled_append (hplaced : Placed 0 (r.log ++ [e])) :
    blockData (span (r.log ++ [e]) / 32) 0 (r.log ++ [e]) =
      if span (r.log ++ [e]) % 32 = 0 then 0 else filled r + e.bytes := by
  obtain ⟨hpos, hblock⟩ := (Placed.at hplaced).inBlock
  rw [zero_add, InBlock] at hblock
  have hspan : span (r.log ++ [e]) = span r.log + e.size := by rw [span_append, span_singleton]
  split
  · exact blockData_fresh hplaced (by omega)
  · have hsame : span (r.log ++ [e]) / 32 = span r.log / 32 := by omega
    rw [hsame, blockData_append, blockData_singleton, zero_add, if_pos rfl]
    rfl

theorem data_append (hlimit : Within r.log) :
    Within (r.log ++ [e]) ↔ filled r + e.bytes ≤ 65536 := by
  have happend (b : Nat) : blockData b 0 (r.log ++ [e]) =
      blockData b 0 r.log + if span r.log / 32 = b then e.bytes else 0 := by
    rw [blockData_append, blockData_singleton, zero_add]
  constructor
  · intro h
    have hcur := h (span r.log / 32)
    rw [happend, if_pos rfl] at hcur
    exact hcur
  · intro h b
    rw [happend]
    split
    · next heq => exact heq ▸ h
    · exact hlimit b

def Account (r : Ring) : Prop := r.dataPending = BitVec.ofNat 16 (filled r)

theorem account_commit (ha : Account r) (hwr : r.wrP = BitVec.ofNat 32 (span r.log))
    (hplaced : Placed 0 (r.log ++ [e])) (descs : List Desc) (bufs : List Raw) :
    Account (commit (put k r descs bufs) e) := by
  have hfilled : filled (commit (put k r descs bufs) e) =
      if span (r.log ++ [e]) % 32 = 0 then 0 else filled r + e.bytes := filled_append hplaced
  have hmod : (r.wrP + BitVec.ofNat 32 e.size).toNat % 32 = span (r.log ++ [e]) % 32 := by
    rw [hwr, ← BitVec.ofNat_add, ofNat_mod_blocks, span_append, span_singleton]
  rw [Account, hfilled]
  simp only [commit, put, hmod]
  split
  · rw [BitVec.ofNat_add, ha]
  · next heq =>
    rw [if_pos (not_not.mp heq)]
    rfl

theorem close_fresh (hwr : r.wrP = BitVec.ofNat 32 (span r.log)) (hplaced : Placed 0 r.log) :
    filled (closeBlock k r) = 0 ∧ Account (closeBlock k r) := by
  have hn : dBlockCpl r.wrP = 32 - span r.log % 32 := by rw [hwr, dBlockCpl_ofNat]
  have hplaced' : Placed 0 (r.log ++ [.closed (dBlockCpl r.wrP)]) :=
    placed_append.mpr ⟨hplaced, by rw [zero_add]; exact hn, trivial⟩
  have hfilled : filled (closeBlock k r) = 0 := filled_closed hplaced'
  refine ⟨hfilled, ?_⟩
  rw [Account, hfilled]
  rfl

theorem close_data (hlimit : Within r.log) (b : Nat) : blockData b 0 (closeBlock k r).log ≤ 65536 := by
  have hsame : filled r + (Entry.closed (dBlockCpl r.wrP)).bytes ≤ 65536 := hlimit _
  exact (data_append hlimit).mpr hsame b

theorem account_of_eq (ha : Account r) (hdata : r'.dataPending = r.dataPending) (hlog : r'.log = r.log) :
    Account r' := by
  rw [Account, filled, hdata, hlog]
  exact ha

theorem mustClose_iff (ha : Account r) (hlimit : filled r ≤ 65536) (hlen : 1 ≤ len) (hlen' : len ≤ 65536) :
    (mustClose r nDescs len = false → filled r + len ≤ 65536) ↔
      (filled r = 65536 → crossesBlock r.wrP nDescs = true) := by
  have hpending : r.dataPending.toNat = filled r % 65536 := by
    rw [ha]
    exact BitVec.toNat_ofNat _ _
  rw [mustClose, Bool.or_eq_false_iff, decide_eq_false_iff_not, hpending, u32]
  cases crossesBlock r.wrP nDescs with
  | true => exact iff_of_true (fun h => Bool.noConfusion h.1) fun _ => rfl
  | false =>
    constructor
    · intro h heq
      have := h ⟨rfl, by omega⟩
      omega
    · rintro h ⟨-, hle⟩
      rcases lt_or_ge (filled r) 65536 with hlt | hge
      · omega
      · exact absurd (h (le_antisymm hlimit hge)) Bool.false_ne_true

theorem closed_account (r₀ : Ring) (hwr : r.wrP = BitVec.ofNat 32 (span r.log)) (hplaced : Placed 0 r.log)
    (ha : Account r) (hlimit : Within r.log) (hlen : 1 ≤ len) (hlen' : len ≤ 65536)
    (hlog : r₀.log = r.log) (hwr₀ : r₀.wrP = r.wrP) {t : Ring}
    (ht : t = if mustClose r nDescs len then closeBlock k r₀ else r) :
    Account t ∧ Within t.log ∧
      (filled t + len ≤ 65536 ↔ (filled r = 65536 → crossesBlock r.wrP nDescs = true)) := by
  rw [← mustClose_iff ha (hlimit _) hlen hlen']
  split at ht
  · next hmust =>
    obtain ⟨hfilled, hclose⟩ := close_fresh (k := k) (r := r₀) (by rw [hwr₀, hlog, hwr]) (by rw [hlog]; exact hplaced)
    rw [ht, hfilled, zero_add]
    refine ⟨hclose, close_data (by rw [hlog]; exact hlimit), iff_of_true hlen' fun hm => ?_⟩
    exact absurd hmust (by rw [hm]; exact Bool.false_ne_true)
  · next hopen =>
    rw [ht]
    exact ⟨ha, hlimit, fun hle _ => hle, fun hle => hle (Bool.eq_false_iff.mpr hopen)⟩

theorem fitted_len (h : fitted skb linearized = some skb') : skb'.len = skb.len := by
  rw [fitted] at h
  split at h
  · exact some.inj h ▸ rfl
  split at h
  · obtain ⟨-, heq⟩ := ite_none_right_eq_some.mp h
    cases heq
    exact add_zero _
  · cases h

inductive Fills (r : Ring) (len : Nat) : Ring × Outcome → Prop
  | dropped {r' : Ring} {o : Outcome} (ho : o ≠ .sent) (hdata : r'.dataPending = r.dataPending)
      (hlog : r'.log = r.log) :
      Fills r len (r', o)
  | sent {r' : Ring} {e : Entry} (hbytes : e.bytes = len) (hlog : r'.log = r.log ++ [e])
      (hdata : Placed 0 r'.log → Account r → Account r') : Fills r len (r', .sent)

theorem fills_scratch (k : Nat) (r : Ring) (len wrIdx : Nat) (descs : List Desc) (bufs : List Raw) :
    Fills r len (errUnmap (put k r descs bufs) wrIdx, .dropped) ∧
      Fills r len (nfpNetTxXmitMoreFlush (errUnmap (put k r descs bufs) wrIdx), .dropped) :=
  ⟨.dropped nofun rfl rfl, .dropped nofun rfl rfl⟩

section

variable (hwr : r.wrP = BitVec.ofNat 32 (span r.log))

include hwr

theorem fills_placed (e : Entry) (descs : List Desc) (bufs : List Raw) (flush : Bool) :
    Fills r e.bytes (if flush then nfpNetTxXmitMoreFlush (commit (put k r descs bufs) e)
      else commit (put k r descs bufs) e, .sent) := by
  refine .sent rfl (flush_log flush) fun hplaced ha => ?_
  rw [flush_log] at hplaced
  refine account_of_eq (account_commit (k := k) ha hwr hplaced descs bufs) ?_ (flush_log flush)
  cases flush <;> rfl

theorem sendMapped_fills (skb : Skb) (head : Nat) (frags : List (Option Nat))
    (metadata lso : BitVec 64) (flush : Bool) : Fills r skb.len (sendMapped k r skb head frags metadata lso flush) := by
  obtain ⟨descs, hdescs⟩ := @exists_eq' _ (packetDescs skb head (mapFrags frags).1 metadata lso)
  simp only [sendMapped, hdescs]
  split
  · split
    · exact (fills_scratch ..).2
    · exact fills_placed hwr (.packet skb head (mapFrags frags).1 descs) descs _ flush
  · exact (fills_scratch ..).2

theorem ctrlSendMapped_fills (skb : Skb) (hasMeta : Bool) (head : Nat) :
    Fills r skb.len (ctrlSendMapped k r skb hasMeta head) := by
  obtain ⟨descs, hdescs⟩ := @exists_eq' _ (packetDescs skb head [] (ctrlMeta hasMeta) 0)
  simp only [ctrlSendMapped, hdescs]
  split
  · exact (fills_scratch ..).1
  · exact fills_placed hwr (.packet skb head [] descs) descs _ true

end

theorem Fills.limit {out : Ring × Outcome} (h : Fills r len out) (ha : Account r)
    (hlimit : Within r.log) (hplaced : Placed 0 out.1.log) :
    Account out.1 ∧ (Within out.1.log ↔ (out.2 = .sent → filled r + len ≤ 65536)) := by
  cases h with
  | dropped ho hdata hlog =>
    refine ⟨account_of_eq ha hdata hlog, ?_⟩
    rw [hlog]
    exact iff_of_true hlimit fun h => (ho h).elim
  | sent hbytes hlog hdata =>
    refine ⟨hdata hplaced ha, ?_⟩
    rw [hlog, data_append hlimit, hbytes]
    exact ⟨fun h _ => h, fun h => h rfl⟩

theorem flat_at (as bs : List Entry) (e : Entry) {i : Nat} (h : i < e.size) :
    (flat (as ++ e :: bs))[span as + i]? = e.descs[i]? := by
  have hflat : flat (as ++ e :: bs) = flat as ++ (e.descs ++ flat bs) := by
    rw [flat, List.flatMap_append, List.flatMap_cons]
    rfl
  rw [hflat, List.getElem?_append_right (by rw [flat_length]; omega), flat_length, Nat.add_sub_cancel_left,
    List.getElem?_append_left h]

theorem core_limits {read : Nat} {marks : Entry → List (Option Raw)} (hc : Core k marks r read) (hk : k < 32)
    (hdata : Within r.log) : Limits k r read := by
  refine ⟨hdata, ?_, ?_, ?_⟩
  · intro as e bs heq
    have hplaced := hc.placed
    rw [heq] at hplaced
    have hat := hplaced.at.inBlock.2
    rwa [zero_add] at hat
  · intro as n bs hlog hread i hlt
    rw [idx_ofNat (le_of_lt hk)]
    refine hc.descs _ _ (le_trans hread (Nat.le_add_right _ i)) ?_
    rw [hlog, flat_at as bs _ (by rw [size_closed]; exact hlt), Entry.descs, List.getElem?_replicate, if_pos hlt]
  · have hroom := hc.room
    have hle := hc.le
    rw [hc.ring hk]
    omega

end Account

def sized : Action → Bool
  | .tx env => env.prep.all fun p => decide (p.1.len ≤ 65536)
  | .ctrl skb hasMeta _ => (ctrlPush skb hasMeta).all fun skb => decide (skb.len ≤ 65536)
  | .complete => true
  | .advance _ => true

def sizedStep (k : Nat) (st : St) (a : Action) : Option St := if sized a then step k st a else none

def ClosesBrimful (k : Nat) (st : St) : Action → Prop
  | .tx env => filled st.ring = 65536 → (nfpNfdkTx k st.ring env).2 = .sent → ∀ skb metadata skb',
      env.prep = some (skb, metadata) → fitted skb env.linearized = some skb' →
        crossesBlock st.ring.wrP (skb'.segs + skb'.gsoDescs) = true
  | .ctrl skb hasMeta dma => filled st.ring = 65536 → (nfpNfdkCtrlTxOne k st.ring skb hasMeta dma).2 = .sent →
      ∀ pushed, ctrlPush skb hasMeta = some pushed → crossesBlock st.ring.wrP (pushed.segs + pushed.gsoDescs) = true
  | .complete => True
  | .advance _ => True

structure Accounted (k : Nat) (st : St) : Prop where
  inv : Inv k st
  account : Account st.ring
  data : ∀ b, blockData b 0 st.ring.log ≤ 65536

section Runs

variable {k : Nat} {st : St}

section

variable (ha : Accounted k st) (hk : 6 ≤ k) (hk' : k < 32)

include ha

theorem Accounted.closed (h : nfpNfdkTxMaybeCloseBlock k st.ring skb linearized = some (skb', r'))
    (hsized : decide (skb.len ≤ 65536) = true) :
    Account r' ∧ Within r'.log ∧ (filled r' + skb'.len ≤ 65536 ↔
      (filled st.ring = 65536 → crossesBlock st.ring.wrP (skb'.segs + skb'.gsoDescs) = true)) := by
  have hpos : 1 ≤ skb'.len := le_trans skb'.head_pos (Nat.le_add_right _ _)
  have hlen := of_decide_eq_true hsized
  rw [← fitted_len (maybeClose_log h).1] at hlen
  rw [nfpNfdkTxMaybeCloseBlock, map_eq_some_iff] at h
  obtain ⟨s, -, heq⟩ := h
  rw [← apply_ite (Prod.mk s)] at heq
  obtain ⟨rfl, ht⟩ := Prod.mk.inj heq
  exact closed_account { st.ring with ktxbufs := Function.update st.ring.ktxbufs (idx k st.ring.wrP) .null }
    ha.inv.core.wr
    ha.inv.core.placed ha.account ha.data hpos hlen rfl rfl ht.symm

include hk hk'

theorem Accounted.sent {out : Ring × Outcome} (hfull : nfpNetTxFull k st.ring 64 = false)
    (hclose : nfpNfdkTxMaybeCloseBlock k st.ring skb linearized = some (skb', r'))
    (hsized : decide (skb.len ≤ 65536) = true)
    (hfills : r'.wrP = BitVec.ofNat 32 (span r'.log) → Fills r' skb'.len out) (hplaced : Placed 0 out.1.log) :
    Account out.1 ∧ (Within out.1.log ↔ (out.2 = .sent → filled st.ring = 65536 →
      crossesBlock st.ring.wrP (skb'.segs + skb'.gsoDescs) = true)) := by
  obtain ⟨hacc, hdata, hiff⟩ := ha.closed hclose hsized
  obtain ⟨-, hc', -, -, -⟩ := maybeClose_spec ha.inv.core hk hk' hfull hclose
  rw [← hiff]
  exact (hfills hc'.wr).limit hacc hdata hplaced

theorem limit_tx {env : TxEnv} (hmap : txMapped env = true) (hsized : sized (.tx env) = true) :
    Account (nfpNfdkTx k st.ring env).1 ∧
      (Within (nfpNfdkTx k st.ring env).1.log ↔ ClosesBrimful k st (.tx env)) := by
  have hsends := nfpNfdkTx_sends k st.ring env
  obtain ⟨hcore, -⟩ := hsends.core ha.inv.core hk hk' hmap
  obtain ⟨out, hout⟩ := @exists_eq' _ (nfpNfdkTx k st.ring env)
  rw [ClosesBrimful]
  rw [hout] at hsends hcore ⊢
  cases hsends with
  | idle ho => exact ⟨account_of_eq ha.account rfl rfl, iff_of_true ha.data fun _ h => (ho h).elim⟩
  | unmapped hfull hprep hclose =>
    rw [sized, hprep] at hsized
    obtain ⟨hacc, hdata, -⟩ := ha.closed hclose hsized
    exact ⟨account_of_eq hacc rfl rfl, iff_of_true hdata fun _ h => (nomatch h)⟩
  | mapped hfull hprep hclose hhead =>
    obtain ⟨hfit, -⟩ := maybeClose_log hclose
    rw [sized, hprep] at hsized
    obtain ⟨hacc, hlimit⟩ := ha.sent hk hk' hfull hclose hsized
      (fun hwr => sendMapped_fills hwr _ _ env.frags _ env.lso env.flush) hcore.placed
    refine ⟨hacc, hlimit.trans ?_⟩
    constructor
    · intro h hbrim hsent skb1 metadata1 skb2 hprep1 hfit1
      obtain ⟨rfl, rfl⟩ := Prod.mk.inj (some.inj (hprep.symm.trans hprep1))
      obtain rfl := some.inj (hfit.symm.trans hfit1)
      exact h hsent hbrim
    · exact fun h hsent hbrim => h hbrim hsent _ _ _ hprep hfit

theorem limit_ctrl {hasMeta : Bool} {dma : Option Nat} (hmap : ctrlMapped skb hasMeta dma = true)
    (hsized : sized (.ctrl skb hasMeta dma) = true) :
    Account (nfpNfdkCtrlTxOne k st.ring skb hasMeta dma).1 ∧
      (Within (nfpNfdkCtrlTxOne k st.ring skb hasMeta dma).1.log ↔
        ClosesBrimful k st (.ctrl skb hasMeta dma)) := by
  have hsends := nfpNfdkCtrlTxOne_sends k st.ring skb hasMeta dma
  obtain ⟨hcore, -⟩ := hsends.core ha.inv.core hk hk' hmap
  obtain ⟨out, hout⟩ := @exists_eq' _ (nfpNfdkCtrlTxOne k st.ring skb hasMeta dma)
  rw [ClosesBrimful]
  rw [hout] at hsends hcore ⊢
  cases hsends with
  | idle ho => exact ⟨ha.account, iff_of_true ha.data fun _ h => (ho h).elim⟩
  | unmapped hfull hpush hclose =>
    rw [sized, hpush] at hsized
    obtain ⟨hacc, hdata, -⟩ := ha.closed hclose hsized
    exact ⟨hacc, iff_of_true hdata fun _ h => (nomatch h)⟩
  | mapped hfrags hfull hpush hclose hdma =>
    obtain rfl := fitted_frags (maybeClose_log hclose).1 ((ctrlPush_frags hpush).trans hfrags)
    rw [sized, hpush] at hsized
    obtain ⟨hacc, hlimit⟩ := ha.sent hk hk' hfull hclose hsized (fun hwr =>
        ctrlSendMapped_fills hwr _ hasMeta _) hcore.placed
    refine ⟨hacc, hlimit.trans ?_⟩
    constructor
    · intro h hbrim hsent pushed hpush'
      obtain rfl := some.inj (hpush.symm.trans hpush')
      exact h hsent hbrim
    · exact fun h hsent hbrim => h hbrim hsent _ hpush

end

theorem sizedStep_spec (hk : 6 ≤ k) (hk' : k < 32) {a : Action} {st' : St} (ha : Accounted k st)
    (h : sizedStep k st a = some st') :
    Inv k st' ∧ Account st'.ring ∧ (Within st'.ring.log ↔ ClosesBrimful k st a) := by
  obtain ⟨hsized, hstep⟩ := ite_none_right_eq_some.mp h
  refine ⟨inv_step hk hk' a st' ha.inv hstep, ?_⟩
  cases a with
  | tx env =>
    obtain ⟨hmap, heq⟩ := ite_none_right_eq_some.mp hstep
    cases heq
    exact limit_tx ha hk hk' hmap hsized
  | ctrl skb hasMeta dma =>
    obtain ⟨hmap, heq⟩ := ite_none_right_eq_some.mp hstep
    cases heq
    exact limit_ctrl ha hk hk' hmap hsized
  | complete =>
    cases hstep
    have hsame : (nfpNfdkTxComplete k st.ring (cmplPtr k st)).1.dataPending = st.ring.dataPending := by
      unfold nfpNfdkTxComplete
      split
      · rfl
      · split <;> rfl
    have hlog := (ha.inv.complete hk').1
    refine ⟨account_of_eq ha.account hsame hlog, ?_⟩
    simp only [hlog]
    exact iff_of_true ha.data trivial
  | advance n =>
    obtain ⟨-, heq⟩ := ite_none_right_eq_some.mp hstep
    cases heq
    exact ⟨ha.account, iff_of_true ha.data trivial⟩

theorem skb_limits_iff (hk : 6 ≤ k) (hk' : k < 32) (ktxds : Nat → Desc) (ktxbufs : Nat → Raw) {as : List Action}
    {t : St}
    (hr : run (sizedStep k) (start ktxds ktxbufs) as = some t) :
    Always (sizedStep k) (fun st => Limits k st.ring (span (st.ring.log.take st.seen))) (start ktxds ktxbufs) as ↔
      Guarded (sizedStep k) (ClosesBrimful k) (start ktxds ktxbufs) as := by
  refine always_iff_guarded (I := Accounted k) ?_ ?_ ?_ ⟨inv_start ktxds ktxbufs, rfl, fun b => Nat.zero_le _⟩ hr
  · exact fun st ha => core_limits ha.inv.core hk' ha.data
  · intro st a st' ha h
    obtain ⟨hinv, -, hiff⟩ := sizedStep_spec hk hk' ha h
    rw [← hiff]
    exact ⟨fun hl => hl.data, fun hdata => core_limits hinv.core hk' hdata⟩
  · intro st a st' ha h hl
    obtain ⟨hinv, hacc, -⟩ := sizedStep_spec hk hk' ha h
    exact ⟨hinv, hacc, hl.data⟩

end Runs

end NfpDriver.Nfdk
