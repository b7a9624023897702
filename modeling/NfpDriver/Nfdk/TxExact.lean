import NfpDriver.Library.Runs
import NfpDriver.Nfdk.Send

namespace NfpDriver.Nfdk

open Runs Slots List

structure St where
  ring : Ring
  seen : Nat
  devDone : Nat
  consumed : List Skb

inductive Action where
  | tx (env : TxEnv)
  | ctrl (skb : Skb) (hasMeta : Bool) (dma : Option Nat)
  | complete
  | advance (n : Nat)
  deriving DecidableEq

def cmplPtr (k : Nat) (st : St) : Ptr := BitVec.ofNat 32 (span (st.ring.log.take st.devDone) % 2 ^ k)

def step (k : Nat) (st : St) : Action → Option St
  | .tx env => if txMapped env then some { st with ring := (nfpNfdkTx k st.ring env).1 } else none
  | .ctrl skb hasMeta dma =>
    if ctrlMapped skb hasMeta dma then some { st with ring := (nfpNfdkCtrlTxOne k st.ring skb hasMeta dma).1 } else none
  | .complete =>
    let c := nfpNfdkTxComplete k st.ring (cmplPtr k st)
    some { st with ring := c.1, seen := st.devDone, consumed := st.consumed ++ c.2 }
  | .advance n => if st.devDone + n ≤ st.ring.log.length then some { st with devDone := st.devDone + n } else none

def start (ktxds : Nat → Desc) (ktxbufs : Nat → Raw) : St := ⟨.start ktxds ktxbufs, 0, 0, []⟩

structure Sound (k : Nat) (st : St) : Prop where
  accepted : ∀ env, (nfpNfdkTx k st.ring env).2 = .sent → Accepts k st.ring env
  seen : st.seen ≤ st.ring.log.length
  landed : st.ring.rdP = BitVec.ofNat 32 (span (st.ring.log.take st.seen))
  marked : ∀ e, st.ring.log[st.seen]? = some e → st.ring.ktxbufs (idx k st.ring.rdP) = e.mark
  consumed : st.consumed = (st.ring.log.take st.seen).flatMap Entry.skbs
  exact : ∀ skb head addrs descs, .packet skb head addrs descs ∈ st.ring.log → Exact skb head addrs descs
  blocks : ∀ as e bs, st.ring.log = as ++ e :: bs → InBlock (span as) e.size
  slots : ∀ i < (st.ring.wrP - st.ring.rdP).toNat,
    (flat st.ring.log)[span (st.ring.log.take st.seen) + i]? =
      some (st.ring.ktxds (idx k (st.ring.rdP + BitVec.ofNat 32 i)))
  skipped : ∀ skb head addrs descs p, .packet skb head addrs descs ∈ st.ring.log → (Raw.skb skb).nDescs p = descs.length
  reset : nfpNfdkTxRingReset k st.ring = ⟨st.ring.wrP, (st.ring.log.drop st.seen).flatMap Entry.skbs⟩

variable {e : Entry} {pos fuel : Nat} {as bs es : List Entry} {r' : Ring}

section Complete

variable {k read : Nat} {r : Ring}

theorem Entry.mark_nDescs (hok : e.Ok) (hplaced : e.Placed pos) : e.mark.nDescs (BitVec.ofNat 32 pos) = e.size := by
  cases e with
  | packet skb head addrs descs =>
    have hexact : Exact skb head addrs descs := hok
    exact hexact.slots.symm
  | xdp frag dmaAddr pktLen descs => exact hok.elim
  | closed n =>
    have hn : n = 32 - pos % 32 := hplaced
    rw [size_closed, hn]
    exact dBlockCpl_ofNat pos

theorem span_pos (h : Placed pos es) : es.length ≤ span es := by
  induction es generalizing pos with
  | nil => exact le_rfl
  | cons e es ih =>
    have hpos := h.1.inBlock.1
    have hrest := ih h.2
    rw [length_cons, span_cons]
    omega

theorem Entry.mark_consumed (e : Entry) : e.mark.consumed = e.skbs := by
  cases e <;> rfl

theorem Core.mark_at (hc : Core k skbMarks r read) (hk : k < 32) (hlog : r.log = as ++ e :: bs)
    (hread : read ≤ span as) : r.ktxbufs (idx k (BitVec.ofNat 32 (span as))) = e.mark := by
  have hplaced := hc.placed
  rw [hlog] at hplaced
  obtain ⟨m, hm⟩ := Nat.exists_eq_add_of_le hplaced.at.inBlock.1
  rw [idx_ofNat (le_of_lt hk)]
  refine hc.bufs _ _ hread ?_
  rw [hlog, flatMap_append, flatMap_cons, List.getElem?_append_right (by rw [marks_length skbMarks_length]),
    marks_length skbMarks_length, Nat.sub_self, skbMarks, hm, add_comm 1 m, range_succ_eq_map]
  rfl

section

variable (hc : Core k skbMarks r read) (hk : k < 32) (hok : ∀ e ∈ r.log, e.Ok)

include hc hk hok

theorem Core.walkOne (hlog : r.log = as ++ e :: bs) (hread : read ≤ span as) (consumed : List Skb) :
    (r.ktxbufs (idx k (BitVec.ofNat 32 (span as)))).nDescs (BitVec.ofNat 32 (span as)) = e.size ∧
      walkOne k r ⟨BitVec.ofNat 32 (span as), consumed⟩ = ⟨BitVec.ofNat 32 (span (as ++ [e])), consumed ++ e.skbs⟩ := by
  have hplaced := hc.placed
  rw [hlog] at hplaced
  have hat := hplaced.at
  rw [zero_add] at hat
  have hmark := hc.mark_at hk hlog hread
  have hn := Entry.mark_nDescs (hok e (hlog ▸ mem_append_right _ mem_cons_self)) hat
  rw [Nfdk.walkOne, hmark, hn, Entry.mark_consumed, span_append, span_singleton, BitVec.ofNat_add]
  exact ⟨rfl, rfl⟩

theorem Core.completeLoop (hlog : r.log = as ++ es ++ bs) (hread : read ≤ span as) (hfuel : span es ≤ fuel)
    (consumed : List Skb) :
    completeLoop k r fuel (span es) ⟨BitVec.ofNat 32 (span as), consumed⟩ =
      ⟨BitVec.ofNat 32 (span (as ++ es)), consumed ++ es.flatMap Entry.skbs⟩ := by
  induction es generalizing as fuel consumed with
  | nil =>
    rw [append_nil, flatMap_nil, append_nil]
    cases fuel <;> rfl
  | cons e es ih =>
    have hlog' : r.log = as ++ e :: (es ++ bs) := by rw [hlog, append_assoc, cons_append]
    have hplaced := hc.placed
    rw [hlog'] at hplaced
    have hpos := hplaced.at.inBlock.1
    obtain ⟨hn, hwalk⟩ := hc.walkOne hk hok hlog' hread consumed
    rw [span_cons] at hfuel ⊢
    cases fuel with
    | zero => omega
    | succ fuel =>
      rw [Nfdk.completeLoop, if_neg (by omega), hn, hwalk, Nat.add_sub_cancel_left,
        ih (by rw [hlog', append_assoc, append_assoc]; rfl) (by rw [span_append]; omega) (by omega)]
      rw [append_assoc as, singleton_append, flatMap_cons, append_assoc]

theorem Core.complete (hlog : r.log = as ++ es ++ bs) (hread : read = span as) {cmpl : Ptr}
    (hidle : cmpl = r.qcpRdP ↔ span es = 0) (htodo : idx k (cmpl - r.qcpRdP) = span es) :
    nfpNfdkTxComplete k r cmpl =
      ({ r with rdP := BitVec.ofNat 32 (span (as ++ es)), qcpRdP := cmpl }, es.flatMap Entry.skbs) := by
  subst hread
  have hplaced := hc.placed
  rw [hlog] at hplaced
  have hlen : es.length ≤ span es := span_pos (placed_append.mp (placed_append.mp hplaced).1).2
  -- when no slot was completed since the last call the early returns leave everything as it is
  have hearly (h : span es = 0) : (r, ([] : List Skb)) =
      ({ r with rdP := BitVec.ofNat 32 (span (as ++ es)), qcpRdP := cmpl }, es.flatMap Entry.skbs) := by
    obtain rfl : es = [] := eq_nil_of_length_eq_zero (by omega)
    rw [append_nil, ← hc.rd, hidle.mpr h, flatMap_nil]
  rw [nfpNfdkTxComplete]
  split
  · next hempty =>
    have hspan : span r.log = span as + span es + span bs := by rw [← span_append, ← span_append, ← hlog]
    have hpow : 2 ^ k < 2 ^ 32 := Nat.pow_lt_pow_right (by decide) hk
    have hroom := hc.room
    rw [hc.wr, hc.rd] at hempty
    have := ofNat_inj hc.le (by omega) hempty
    exact hearly (by omega)
  split
  · next heq => exact hearly (hidle.mp heq)
  · simp only [htodo]
    rw [hc.rd, hc.completeLoop hk hok hlog le_rfl le_rfl, nil_append]

theorem Core.resetLoop (hlog : r.log = as ++ es)
    (hread : read ≤ span as) (hfuel : span es ≤ fuel) (consumed : List Skb) :
    resetLoop k r fuel ⟨BitVec.ofNat 32 (span as), consumed⟩ = ⟨r.wrP, consumed ++ es.flatMap Entry.skbs⟩ := by
  induction es generalizing as fuel consumed with
  | nil =>
    rw [append_nil] at hlog
    rw [flatMap_nil, append_nil, hc.wr, hlog]
    cases fuel with
    | zero => rfl
    | succ fuel => rw [Nfdk.resetLoop, if_pos (by rw [hc.wr, hlog])]
  | cons e es ih =>
    have hplaced := hc.placed
    rw [hlog] at hplaced
    have hpos := hplaced.at.inBlock.1
    obtain ⟨-, hwalk⟩ := hc.walkOne hk hok hlog hread consumed
    have hspan : span r.log = span as + (e.size + span es) := by rw [hlog, span_append, span_cons]
    have hpow : 2 ^ k < 2 ^ 32 := Nat.pow_lt_pow_right (by decide) hk
    have hroom := hc.room
    rw [span_cons] at hfuel
    cases fuel with
    | zero => omega
    | succ fuel =>
      have hne : ¬BitVec.ofNat 32 (span as) = r.wrP := by
        rw [hc.wr]
        intro heq
        have := ofNat_inj (by omega) (by omega) heq.symm
        omega
      rw [Nfdk.resetLoop, if_neg hne, hwalk,
        ih (by rw [hlog, append_assoc]; rfl) (by rw [span_append]; omega) (by omega)]
      rw [flatMap_cons, append_assoc]

end

theorem Core.advance (hc : Core k skbMarks r read) {read' : Nat} (hle : read ≤ read') (hle' : read' ≤ span r.log)
    (qcpRdP : Ptr) (hr : r' = { r with rdP := BitVec.ofNat 32 read', qcpRdP := qcpRdP }) :
    Core k skbMarks r' read' := by
  subst hr
  have hroom := hc.room
  exact ⟨hc.wr, rfl, hle', lt_of_lt_of_le hroom (Nat.add_le_add_right hle _), hc.descs.mono hle, hc.bufs.mono hle,
    hc.placed⟩

end Complete

structure Inv (k : Nat) (st : St) : Prop where
  core : Core k skbMarks st.ring (span (st.ring.log.take st.seen))
  ok : ∀ e ∈ st.ring.log, e.Ok
  seen : st.seen ≤ st.devDone
  dev : st.devDone ≤ st.ring.log.length
  qcp : st.ring.qcpRdP = BitVec.ofNat 32 (span (st.ring.log.take st.seen) % 2 ^ k)
  consumed : st.consumed = (st.ring.log.take st.seen).flatMap Entry.skbs

section Runs

variable {k : Nat} {st : St}

theorem take_split (es : List Entry) {m n : Nat} (h : m ≤ n) : es.take n = es.take m ++ (es.drop m).take (n - m) := by
  obtain ⟨d, rfl⟩ := Nat.exists_eq_add_of_le h
  rw [take_add, Nat.add_sub_cancel_left]

theorem Inv.split (hi : Inv k st) : ∃ mid rest, st.ring.log = st.ring.log.take st.seen ++ mid ++ rest ∧
    st.ring.log.take st.devDone = st.ring.log.take st.seen ++ mid ∧ mid.length = st.devDone - st.seen ∧
      mid.length ≤ span mid := by
  have hsplit := take_split st.ring.log hi.seen
  have hlog : st.ring.log = st.ring.log.take st.seen ++ (st.ring.log.drop st.seen).take (st.devDone - st.seen) ++
      st.ring.log.drop st.devDone := by
    rw [← hsplit, take_append_drop]
  refine ⟨_, _, hlog, hsplit, ?_, ?_⟩
  · have := hi.dev
    rw [length_take, length_drop]
    omega
  · have hplaced := hi.core.placed
    rw [hlog] at hplaced
    exact span_pos (placed_append.mp (placed_append.mp hplaced).1).2

theorem Inv.sound (hi : Inv k st) (hk : k < 32) : Sound k st := by
  have hc := hi.core
  have hlog := take_append_drop st.seen st.ring.log
  have hseen := le_trans hi.seen hi.dev
  have hring := hc.ring hk
  refine ⟨fun env => (nfpNfdkTx_sends k st.ring env).accepts, hseen, hc.rd, ?_, hi.consumed,
    fun skb head addrs descs h => hi.ok _ h, ?_, ?_, ?_, ?_⟩
  · intro e he
    obtain ⟨hlt, rfl⟩ := List.getElem?_eq_some_iff.mp he
    rw [List.drop_eq_getElem_cons hlt] at hlog
    rw [hc.rd]
    exact hc.mark_at hk hlog.symm le_rfl
  · intro as e bs heq
    have hplaced := hc.placed
    rw [heq] at hplaced
    have hat := hplaced.at.inBlock.2
    rwa [zero_add] at hat
  · intro i hlt
    rw [hring] at hlt
    have hlen : span (st.ring.log.take st.seen) + i < (flat st.ring.log).length := by
      rw [flat_length]
      omega
    have hget := List.getElem?_eq_getElem hlen
    rw [hc.rd, ← BitVec.ofNat_add, idx_ofNat (le_of_lt hk), hc.descs _ _ (Nat.le_add_right _ i) hget]
    exact hget
  · intro skb head addrs descs p h
    have hexact : Exact skb head addrs descs := hi.ok _ h
    exact hexact.slots.symm
  · have hroom := hc.room
    have hspan := congrArg span hlog
    rw [span_append] at hspan
    rw [nfpNfdkTxRingReset, hc.rd, hc.resetLoop hk hi.ok hlog.symm le_rfl (by omega), nil_append]

theorem inv_start (ktxds : Nat → Desc) (ktxbufs : Nat → Raw) : Inv k (start ktxds ktxbufs) := by
  have hpow := Nat.two_pow_pos k
  refine ⟨⟨rfl, rfl, le_rfl, Nat.lt_add_of_pos_right hpow, ?_, ?_, trivial⟩, ?_, le_rfl, le_rfl,
    ?_, rfl⟩
  · exact fun p x _ hx => (nomatch hx)
  · exact fun p x _ hx => (nomatch hx)
  · exact fun e he => (not_mem_nil he).elim
  · exact congrArg (BitVec.ofNat 32) (Nat.zero_mod _).symm

theorem Inv.grow (hi : Inv k st) (hcore : Core k skbMarks r' (span (st.ring.log.take st.seen)))
    (hgrows : Grows st.ring r') : Inv k { st with ring := r' } := by
  obtain ⟨es, hlog, hok⟩ := hgrows.log
  have hseen := le_trans hi.seen hi.dev
  have htake : r'.log.take st.seen = st.ring.log.take st.seen := by rw [hlog, take_append_of_le_length hseen]
  refine ⟨by rw [htake]; exact hcore, ?_, hi.seen, ?_, ?_, ?_⟩
  · intro e he
    rw [hlog] at he
    exact (mem_append.mp he).elim (hi.ok e) (hok e)
  · have hdev := hi.dev
    rw [hlog, length_append]
    exact le_trans hdev (Nat.le_add_right _ _)
  · rw [htake, hgrows.qcp, hi.qcp]
  · rw [htake, hi.consumed]

theorem Inv.complete (hi : Inv k st) (hk : k < 32) :
    (nfpNfdkTxComplete k st.ring (cmplPtr k st)).1.log = st.ring.log ∧
      Core k skbMarks (nfpNfdkTxComplete k st.ring (cmplPtr k st)).1 (span (st.ring.log.take st.devDone)) ∧
      (nfpNfdkTxComplete k st.ring (cmplPtr k st)).1.qcpRdP = cmplPtr k st ∧
      st.consumed ++ (nfpNfdkTxComplete k st.ring (cmplPtr k st)).2 =
        (st.ring.log.take st.devDone).flatMap Entry.skbs := by
  obtain ⟨mid, rest, hlog, htake, hmid, hle⟩ := hi.split
  have hc := hi.core
  have hpow : 2 ^ k < 2 ^ 32 := Nat.pow_lt_pow_right (by decide) hk
  have hspan : span st.ring.log = span (st.ring.log.take st.seen) + span mid + span rest := by
    rw [← span_append, ← span_append, ← hlog]
  have hspan' : span (st.ring.log.take st.devDone) = span (st.ring.log.take st.seen) + span mid := by
      rw [htake, span_append]
  have hroom := hc.room
  have hseen := hi.seen
  have hidle : cmplPtr k st = st.ring.qcpRdP ↔ span mid = 0 := by
    have hlt (n : Nat) : n % 2 ^ k < 2 ^ 32 := lt_trans (Nat.mod_lt _ (Nat.two_pow_pos k)) hpow
    refine ⟨fun heq => ?_, fun hzero => ?_⟩
    · rw [hi.qcp, cmplPtr] at heq
      have hmod := congrArg BitVec.toNat heq
      rw [BitVec.toNat_ofNat, BitVec.toNat_ofNat, Nat.mod_eq_of_lt (hlt _), Nat.mod_eq_of_lt (hlt _), hspan'] at hmod
      by_contra hne
      exact mod_ne (by omega) (by omega) hmod.symm
    · rw [hi.qcp, cmplPtr, show st.devDone = st.seen by omega]
  have htodo : idx k (cmplPtr k st - st.ring.qcpRdP) = span mid := by
    rw [hi.qcp, cmplPtr, idx_sub_mod (le_of_lt hk), sub_ofNat (by omega), idx_ofNat (le_of_lt hk),
      Nat.mod_eq_of_lt (by omega), hspan', Nat.add_sub_cancel_left]
  rw [hc.complete hk hi.ok hlog rfl hidle htodo, ← htake]
  refine ⟨rfl, hc.advance (by omega) (by omega) (cmplPtr k st) rfl, rfl, ?_⟩
  rw [hi.consumed, htake, flatMap_append]

theorem inv_step (hk : 6 ≤ k) (hk' : k < 32) (a : Action) (st' : St) (hi : Inv k st) (h : step k st a = some st') :
    Inv k st' := by
  cases a with
  | tx env =>
    obtain ⟨hmap, heq⟩ := Option.ite_none_right_eq_some.mp h
    cases heq
    obtain ⟨hcore, hgrows⟩ := (nfpNfdkTx_sends k st.ring env).core hi.core hk hk' hmap
    exact hi.grow hcore hgrows
  | ctrl skb hasMeta dma =>
    obtain ⟨hmap, heq⟩ := Option.ite_none_right_eq_some.mp h
    cases heq
    obtain ⟨hcore, hgrows⟩ := (nfpNfdkCtrlTxOne_sends k st.ring skb hasMeta dma).core hi.core hk hk' hmap
    exact hi.grow hcore hgrows
  | complete =>
    obtain ⟨c, hc⟩ := @exists_eq' _ (nfpNfdkTxComplete k st.ring (cmplPtr k st))
    simp only [step, hc] at h
    cases h
    have hcomplete := hi.complete hk'
    rw [hc] at hcomplete
    obtain ⟨hlog, hcore, hqcp, hconsumed⟩ := hcomplete
    rw [← hlog] at hcore hconsumed
    refine ⟨hcore, fun e he => hi.ok e (hlog ▸ he), le_rfl, ?_, ?_, hconsumed⟩
    · rw [hlog]
      exact hi.dev
    · rw [hlog]
      exact hqcp
  | advance n =>
    obtain ⟨hle, heq⟩ := Option.ite_none_right_eq_some.mp h
    cases heq
    exact ⟨hi.core, hi.ok, le_trans hi.seen (Nat.le_add_right _ _), hle, hi.qcp, hi.consumed⟩

theorem nfdk_tx_exact (hk : 6 ≤ k) (hk' : k < 32) (ktxds : Nat → Desc) (ktxbufs : Nat → Raw) (as : List Action) :
    Always (step k) (Sound k) (start ktxds ktxbufs) as :=
  always_of_invariant (fun _ a st' hi h => inv_step hk hk' a st' hi h) (fun _ hi =>
    hi.sound hk') (inv_start ktxds ktxbufs) as

def gatherSkb : Skb := ⟨0, 0, 5000, [20000], none, by decide, by decide, by decide⟩

def tsoSkb : Skb := ⟨1, 0, 66, [40000], some ⟨30, 66⟩, by decide, by decide, by decide⟩

def sendTwoCompleteOne : List Action :=
  [.tx ⟨some (gatherSkb, 0), true, true, some 4096, [some 65536], 0, true⟩,
    .tx ⟨some (tsoSkb, 0), true, true, some 8192, [some 131072], 7, true⟩, .advance 1, .complete]

theorem sendTwoCompleteOne_exact :
    (run (step 7) (start (fun _ => .nop) fun _ => .null) sendTwoCompleteOne).map (fun st =>
      (st.consumed, st.ring.rdP)) =
        some ([gatherSkb], 5) ∧
      Always (step 7) (Sound 7) (start (fun _ => .nop) fun _ => .null) sendTwoCompleteOne :=
  ⟨rfl, nfdk_tx_exact (by decide) (by decide) _ _ _⟩

end Runs

end NfpDriver.Nfdk
