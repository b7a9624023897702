import Mathlib.Data.List.Perm.Basic
import NfpDriver.Library.Runs
import NfpDriver.Rx.Ring

namespace NfpDriver.Rx

open Runs Slots Function List Option

structure Path (τ : Type) where
  txXdpBuf : τ → Ring → Nat → BitVec 32 → BitVec 32 → Bool → XdpTx τ
  xdpComplete : τ → τ × List Buf
  unflushed : τ → Bool
  flush : τ → τ
  busy : τ → Bool
  advance : τ → Nat → Option τ
  -- the buffers that come back before one more packet is placed, none if the ring stays full
  room : τ → Bool → Option (List Buf)
  held : τ → List Buf
  inFlight : τ → Nat
  inRing : τ → Prop

structure St (τ : Type) where
  rx : Ring
  filled : Nat
  tx : τ
  pool : Pool
  polling : Bool
  xdpTxCmpl : Bool

inductive Action where
  | begin
  | packet (env : Env)
  | finish
  | fill (rxd : Desc)
  | advance (n : Nat)
  | release (buf : Buf)
  deriving DecidableEq, Repr

section Machine

variable {τ : Type} (p : Path τ) (k : Nat) (cfg : Config)

def adjustedOk (env : Env) : Bool :=
  env.adjusted.all fun a => decide (14 ≤ a.2.toNat ∧ a.1.toNat + a.2.toNat ≤ 65536)

def freshBuf (pool : Pool) (env : Env) : Bool := env.newBuf.all fun b => decide (pool.refs b = 0)

def xmit (st : St τ) (dmaOff pktLen : BitVec 32) : XdpTx τ :=
  p.txXdpBuf st.tx (pop st.rx) (idx k st.rx.rdP) dmaOff pktLen st.xdpTxCmpl

def rxPacket (st : St τ) (rxd : Desc) (env : Env) : St τ :=
  match rxExit cfg rxd env with
  | .xdpTx dmaOff pktLen =>
    let t := xmit p k st dmaOff pktLen
    { st with rx := t.rx, tx := t.tx, xdpTxCmpl := t.completed }
  | exit =>
    let h := handOver k (pop st.rx) st.pool (st.rx.rxbufs (idx k st.rx.rdP)) exit
    { st with rx := h.1, pool := h.2 }

def pollEnd (st : St τ) : St τ :=
  if cfg.xdpProg then
    if p.unflushed st.tx then { st with tx := p.flush st.tx }
    else if p.busy st.tx ∧ ¬st.xdpTxCmpl then
      let c := p.xdpComplete st.tx
      { st with tx := c.1, rx := giveAll k st.rx c.2 }
    else st
  else st

def step (st : St τ) : Action → Option (St τ)
  | .begin => if st.polling then none else some { st with polling := true, xdpTxCmpl := false }
  | .packet env =>
    if st.polling ∧ adjustedOk env ∧ freshBuf st.pool env then
      (st.rx.rxds (idx k st.rx.rdP)).map fun rxd => rxPacket p k cfg st rxd env
    else none
  | .finish => if st.polling then some { pollEnd p k cfg st with polling := false } else none
  | .fill rxd =>
    if st.filled < st.rx.qcpFl then
      some { st with
        rx := { st.rx with rxds := Function.update st.rx.rxds (st.filled % 2 ^ k) (some rxd) }
        filled := st.filled + 1 }
    else none
  | .advance n => (p.advance st.tx n).map fun tx => { st with tx := tx }
  | .release buf =>
    if buf ∈ st.pool.stack then
      some { st with pool := ⟨freeFrag st.pool.refs buf, st.pool.stack.erase buf⟩ }
    else none

def start (bufs : List Buf) (tx : τ) : St τ where
  rx := fillFreelist k (bufsAlloc bufs)
  filled := 0
  tx := tx
  pool := ⟨fun b => (bufs ++ p.held tx).count b, []⟩
  polling := false
  xdpTxCmpl := false

structure Conserved (st : St τ) : Prop where
  places : ∀ b, (freeList k st.rx ++ p.held st.tx ++ st.pool.stack).count b = st.pool.refs b ∧ st.pool.refs b ≤ 1
  total : (freeList k st.rx).length + p.inFlight st.tx = 2 ^ k - 1
  inRing : p.inRing st.tx

def Returns (lenOk : BitVec 32 → Prop) (st : St τ) : Action → Prop
  | .packet env => ∀ rxd, st.rx.rxds (idx k st.rx.rdP) = some rxd →
    match rxExit cfg rxd env with
    | .recycle => True
    | .noReplacement => True
    | .replace newBuf _ => freeList k st.rx ≠ [] ∨ st.rx.rxbufs (idx k st.rx.rdP) = newBuf
    | .xdpTx dmaOff pktLen => pktLen + dmaOff ≤ cfg.dmaMapSz ∧
        ∀ given, p.room st.tx st.xdpTxCmpl = some given → lenOk pktLen ∧ (freeList k st.rx ≠ [] ∨ given ≠ [])
  | _ => True

end Machine

def Legit (pktLen : BitVec 32) : Prop := pktLen = 0 ∨ pktLen.toNat ≤ 65536 ∨ 2 ^ 32 - 127 ≤ pktLen.toNat

section Law

variable {τ : Type} (p : Path τ) (k : Nat) (lenOk : BitVec 32 → Prop) (Inv : τ → Prop) (dmaMapSz : BitVec 32)

inductive Xmits (tx : τ) (rx : Ring) (rxIdx : Nat) (dmaOff pktLen : BitVec 32) (completed : Bool) : XdpTx τ → Prop
  | rejected (hlong : dmaMapSz < pktLen + dmaOff) :
      Xmits tx rx rxIdx dmaOff pktLen completed ⟨tx, rx, completed, .rejected⟩
  | dropped {tx' : τ} (given : List Buf) (completed' : Bool) (hfits : pktLen + dmaOff ≤ dmaMapSz)
      (hroom : p.room tx completed = none) (hinv : Inv tx') (hperm : (given ++ p.held tx').Perm (p.held tx))
      (hcount : given.length + p.inFlight tx' = p.inFlight tx) :
      Xmits tx rx rxIdx dmaOff pktLen completed
        ⟨tx', giveOne k (giveAll k rx given) ((giveAll k rx given).rxbufs rxIdx), completed', .dropped⟩
  | sent {tx' : τ} (given : List Buf) (completed' : Bool) (hfits : pktLen + dmaOff ≤ dmaMapSz)
      (hroom : p.room tx completed = some given) (hlen : lenOk pktLen) (hinv : Inv tx')
      (hperm : (given ++ p.held tx').Perm ((giveAll k rx given).rxbufs rxIdx :: p.held tx))
      (hcount : given.length + p.inFlight tx' = p.inFlight tx + 1) :
      Xmits tx rx rxIdx dmaOff pktLen completed ⟨tx', giveAll k rx given, completed', .sent⟩
  | overrun {tx' : τ} {rx' : Ring} (given : List Buf) (completed' : Bool) (hroom : p.room tx completed = some given)
      (hlen : ¬lenOk pktLen) (hover : ¬p.inRing tx') :
      Xmits tx rx rxIdx dmaOff pktLen completed ⟨tx', rx', completed', .sent⟩

structure Lawful : Prop where
  inRing : ∀ tx, Inv tx → p.inRing tx
  xmit : ∀ tx rx rxIdx dmaOff pktLen completed, Inv tx → Legit pktLen →
    Xmits p k lenOk Inv dmaMapSz tx rx rxIdx dmaOff pktLen completed
      (p.txXdpBuf tx rx rxIdx dmaOff pktLen completed)
  complete : ∀ tx, Inv tx → Inv (p.xdpComplete tx).1 ∧
    ((p.xdpComplete tx).2 ++ p.held (p.xdpComplete tx).1).Perm (p.held tx) ∧
    (p.xdpComplete tx).2.length + p.inFlight (p.xdpComplete tx).1 = p.inFlight tx
  flush : ∀ tx, Inv tx → Inv (p.flush tx) ∧ p.held (p.flush tx) = p.held tx ∧ p.inFlight (p.flush tx) = p.inFlight tx
  advance : ∀ tx n tx', Inv tx → p.advance tx n = some tx' →
    Inv tx' ∧ p.held tx' = p.held tx ∧ p.inFlight tx' = p.inFlight tx

end Law

section Balance

def Balanced (places : List Buf) (refs : Buf → Nat) : Prop := ∀ b, places.count b = refs b ∧ refs b ≤ 1

variable {places places' : List Buf} {refs : Buf → Nat} {b : Buf}

theorem Balanced.perm (h : Balanced places refs) (hp : places'.Perm places) : Balanced places' refs :=
  fun b => by rw [hp.count_eq]; exact h b

theorem Balanced.alloc (h : Balanced places refs) (hfresh : refs b = 0) : Balanced (b :: places) (allocOne refs b) := by
  intro c
  by_cases hc : c = b
  · rw [hc, allocOne, update_self, count_cons_self, (h b).1, hfresh]
    exact ⟨rfl, Nat.le_refl _⟩
  · rw [allocOne, update_of_ne hc, count_cons_of_ne (Ne.symm hc)]
    exact h c

theorem Balanced.release (h : Balanced (b :: places) refs) : Balanced places (freeFrag refs b) := by
  intro c
  have hc := h c
  by_cases heq : c = b
  · rw [heq, count_cons_self] at hc
    rw [heq, freeFrag, update_self]
    omega
  · rw [count_cons_of_ne (Ne.symm heq)] at hc
    rw [freeFrag, update_of_ne heq]
    exact hc

theorem Balanced.not_lost (h : Balanced (b :: places) refs) : ¬Balanced places refs := by
  intro h'
  have hb := (h b).1
  rw [count_cons_self, (h' b).1] at hb
  omega

def passedOn (pool : Pool) (buf : Buf) (delivered : Bool) : Pool :=
  if delivered then { pool with stack := pool.stack ++ [buf] } else { pool with refs := freeFrag pool.refs buf }

theorem Balanced.passedOn (pool : Pool) (h : Balanced (b :: (places ++ pool.stack)) pool.refs) (delivered : Bool) :
    Balanced (places ++ (passedOn pool b delivered).stack) (passedOn pool b delivered).refs := by
  cases delivered with
  | true => exact h.perm (append_assoc places pool.stack [b] ▸ perm_append_singleton b _)
  | false => exact h.release

theorem freeFrag_pageRefInc (refs : Buf → Nat) (b : Buf) : freeFrag (pageRefInc refs b) b = refs := by
  rw [freeFrag, pageRefInc, update_self, update_idem, Nat.add_sub_cancel, update_eq_self]

end Balance

section Ring

variable {k : Nat} {rx : Ring}

theorem recycle_freeList (hk : k < 32) (h : free rx < 2 ^ k) :
    (freeList k (giveOne k (pop rx) (rx.rxbufs (idx k rx.rdP)))).Perm (freeList k rx) := by
  have hgive := giveOne_freeList hk h (rx.rxbufs (idx k rx.rdP))
  rw [pop_giveOne]
  cases hfree : freeList k rx with
  | nil =>
    rw [hfree] at hgive
    rw [(pop_freeList hgive).2]
  | cons b rest =>
    rw [hfree] at hgive
    obtain ⟨hb, -⟩ := pop_freeList hfree
    rw [(pop_freeList hgive).2, hb]
    exact perm_append_singleton b rest

theorem giveAll_rdP (bufs : List Buf) : (giveAll k rx bufs).rdP = rx.rdP := by
  induction bufs generalizing rx with
  | nil => rfl
  | cons b bufs ih => exact @ih (giveOne k rx b)

end Ring

section Steps

variable {τ : Type} {p : Path τ} {k : Nat} {cfg : Config} {lenOk : BitVec 32 → Prop} {Inv : τ → Prop} {st : St τ}

structure Good (p : Path τ) (k : Nat) (Inv : τ → Prop) (st : St τ) : Prop where
  conserved : Conserved p k st
  inv : Inv st.tx

theorem Good.free_lt (hg : Good p k Inv st) (n : Nat) (hn : n ≤ p.inFlight st.tx + 1) : free st.rx + n ≤ 2 ^ k := by
  have htotal := hg.conserved.total
  have hpow := Nat.two_pow_pos k
  rw [freeList_length] at htotal
  omega

variable {h : Ring × Pool} {newBuf : Buf} {pktLen : BitVec 32} {env : Env} {rxd : Desc}

theorem handOver_returned (hk : k < 32) (hg : Good p k Inv st) {exit : Exit}
    (hexit : exit = .recycle ∨ exit = .noReplacement)
    (hh : handOver k (pop st.rx) st.pool (st.rx.rxbufs (idx k st.rx.rdP)) exit = h) :
    Good p k Inv { st with rx := h.1, pool := h.2 } := by
  have hperm := recycle_freeList hk (hg.free_lt 1 (Nat.le_add_left _ _))
  have hpool : h = (giveOne k (pop st.rx) (st.rx.rxbufs (idx k st.rx.rdP)), st.pool) := by
    rcases hexit with rfl | rfl
    · exact hh.symm
    · rw [← hh]
      simp only [handOver, rxDrop, if_true, freeFrag_pageRefInc]
  rw [hpool]
  refine ⟨⟨?_, ?_, hg.conserved.inRing⟩, hg.inv⟩
  · exact Balanced.perm hg.conserved.places ((hperm.append_right _).append_right _)
  · simp only
    rw [hperm.length_eq]
    exact hg.conserved.total

theorem handOver_replaced (hk : k < 32) (hg : Good p k Inv st) (hfresh : st.pool.refs newBuf = 0) (delivered : Bool)
    (hh : handOver k (pop st.rx) st.pool (st.rx.rxbufs (idx k st.rx.rdP)) (.replace newBuf delivered) = h) :
    (Conserved p k { st with rx := h.1, pool := h.2 } ↔ freeList k st.rx ≠ [] ∨
      st.rx.rxbufs (idx k st.rx.rdP) = newBuf) := by
  have hplaces := hg.conserved.places
  have htotal := hg.conserved.total
  have hgive := giveOne_freeList hk (hg.free_lt 1 (Nat.le_add_left _ _)) newBuf
  have hpool : h = (giveOne k (pop st.rx) newBuf,
      passedOn ⟨allocOne st.pool.refs newBuf, st.pool.stack⟩ (st.rx.rxbufs (idx k st.rx.rdP)) delivered) := by
    rw [← hh]
    cases delivered <;> rfl
  have halloc := Balanced.alloc hg.conserved.places hfresh
  rw [hpool, pop_giveOne]
  cases hfree : freeList k st.rx with
  | nil =>
    rw [hfree] at hgive halloc hplaces htotal
    have hnil := (pop_freeList hgive).2
    constructor
    · intro hc
      refine .inr (by_contra fun hne => ?_)
      have hcount := (hc.places newBuf).1
      have hold := (hplaces newBuf).1
      simp only [hnil] at hcount
      rw [hfresh] at hold
      cases delivered with
      | true =>
        simp only [passedOn, if_true] at hcount
        rw [← append_assoc, count_append, hold, count_singleton, allocOne, update_self] at hcount
        simp [hne] at hcount
      | false =>
        simp only [passedOn, Bool.false_eq_true, if_false] at hcount
        rw [hold, freeFrag, update_of_ne (Ne.symm hne), allocOne, update_self] at hcount
        cases hcount
    · rintro (hne | heq)
      · exact absurd rfl hne
      · refine ⟨?_, ?_, hg.conserved.inRing⟩
        · simp only [hnil, heq]
          exact Balanced.passedOn ⟨allocOne st.pool.refs newBuf, st.pool.stack⟩ halloc delivered
        · simp only [hnil]
          exact htotal
  | cons b rest =>
    rw [hfree] at halloc htotal
    rw [hfree, cons_append] at hgive
    obtain ⟨hb, -⟩ := pop_freeList hfree
    have hrest := (pop_freeList hgive).2
    refine iff_of_true ⟨?_, ?_, hg.conserved.inRing⟩ (.inl (cons_ne_nil b rest))
    · simp only [hrest, hb]
      refine Balanced.passedOn ⟨allocOne st.pool.refs newBuf, st.pool.stack⟩ (halloc.perm ?_) delivered
      have hswap : (b :: (rest ++ [newBuf])).Perm (newBuf :: b :: rest) :=
        ((perm_append_singleton newBuf rest).cons b).trans (Perm.swap newBuf b rest)
      exact (hswap.append_right _).append_right _
    · simp only
      rw [hrest, length_append, length_singleton]
      exact htotal

theorem xmit_conserved (hlaw : Lawful p k lenOk Inv cfg.dmaMapSz) (hk : k < 32) (hg : Good p k Inv st)
    (dmaOff : BitVec 32)
    (hlegit : Legit pktLen) {t : XdpTx τ} (ht : xmit p k st dmaOff pktLen = t) :
    (Conserved p k { st with rx := t.rx, tx := t.tx, xdpTxCmpl := t.completed } ↔
      pktLen + dmaOff ≤ cfg.dmaMapSz ∧
        ∀ given, p.room st.tx st.xdpTxCmpl = some given → lenOk pktLen ∧ (freeList k st.rx ≠ [] ∨ given ≠ [])) ∧
    (Conserved p k { st with rx := t.rx, tx := t.tx, xdpTxCmpl := t.completed } → Inv t.tx) := by
  have hplaces : Balanced _ _ := hg.conserved.places
  have htotal := hg.conserved.total
  have hpow : 2 ^ k < 2 ^ 32 := Nat.pow_lt_pow_right (by decide) hk
  have hpos := Nat.two_pow_pos k
  have hxmits := hlaw.xmit st.tx (pop st.rx) (idx k st.rx.rdP) dmaOff pktLen st.xdpTxCmpl hg.inv hlegit
  rw [xmit] at ht
  rw [ht] at hxmits
  cases hxmits with
  | rejected hlong =>
    refine ⟨iff_of_false (fun hc => ?_) fun h => absurd h.1 (BitVec.not_le.mpr hlong), fun _ => hg.inv⟩
    have hlost := hc.total
    simp only [freeList_length] at hlost
    cases hfree : freeList k st.rx with
    | nil =>
      rw [pop_empty hfree] at hlost
      omega
    | cons b rest =>
      have hc' : Balanced _ _ := hc.places
      simp only [(pop_freeList hfree).2] at hc'
      rw [hfree] at hplaces
      exact hplaces.not_lost hc'
  | @dropped tx' given completed hfits hroom hinv hperm hcount =>
    have hlist := giveAll_freeList hk (hg.free_lt given.length (by omega))
    have hlt : free (giveAll k st.rx given) < 2 ^ k := by
      rw [← freeList_length (k := k), hlist, length_append]
      omega
    have hdrop := recycle_freeList hk hlt
    rw [giveAll_rdP, ← pop_giveAll, hlist] at hdrop
    have hbufs : (giveAll k (pop st.rx) given).rxbufs = (giveAll k st.rx given).rxbufs := by
      rw [pop_giveAll]
      rfl
    refine ⟨iff_of_true ⟨?_, ?_, hlaw.inRing tx' hinv⟩ ⟨hfits, ?_⟩, fun _ => hinv⟩
    · refine hplaces.perm (Perm.append_right _ ?_)
      simp only [hbufs]
      have hmoved := hdrop.append_right (p.held tx')
      rw [append_assoc] at hmoved
      exact hmoved.trans (hperm.append_left _)
    · simp only [hbufs]
      rw [hdrop.length_eq, length_append]
      omega
    · rw [hroom]
      nofun
  | @sent tx' given completed hfits hroom hlen hinv hperm hcount =>
    have hlist := giveAll_freeList hk (hg.free_lt given.length (by omega))
    refine ⟨?_, fun _ => hinv⟩
    simp only [hroom, some.injEq, forall_eq']
    have hdry : freeList k st.rx ≠ [] ∨ given ≠ [] ↔ freeList k st.rx ++ given ≠ [] := by
      rw [Ne, Ne, Ne, append_eq_nil_iff, not_and_or]
    rw [hdry, ← hlist]
    rw [pop_giveAll] at hperm ⊢
    cases hfree : freeList k (giveAll k st.rx given) with
    | nil =>
      refine iff_of_false (fun hc => ?_) fun h => h.2.2 rfl
      have hlost := hc.total
      simp only [freeList_length, pop_empty hfree] at hlost
      omega
    | cons b rest =>
      obtain ⟨hb, hrest⟩ := pop_freeList hfree
      rw [giveAll_rdP] at hb
      have hbuf : (pop (giveAll k st.rx given)).rxbufs (idx k st.rx.rdP) = b := hb
      rw [hbuf] at hperm
      refine iff_of_true ⟨?_, ?_, hlaw.inRing tx' hinv⟩ ⟨hfits, hlen, cons_ne_nil b rest⟩
      · refine hplaces.perm (Perm.append_right _ (Perm.cons_inv (a := b) ?_))
        simp only [hrest]
        rw [← cons_append, ← hfree, hlist, append_assoc]
        exact (hperm.append_left _).trans perm_middle
      · simp only [hrest]
        have hlength := congrArg length (hlist.symm.trans hfree)
        rw [length_append, length_cons] at hlength
        omega
  | overrun given completed hroom hlen hover =>
    exact ⟨iff_of_false (fun hc => hover hc.inRing) fun h => hlen (h.2 given hroom).1, fun hc => absurd hc.inRing hover⟩

theorem rxExit_xdpTx {dmaOff : BitVec 32} (hadj : adjustedOk env = true)
    (h : rxExit cfg rxd env = .xdpTx dmaOff pktLen) : Legit pktLen := by
  have hport (portid : BitVec 32) : portExit portid env ≠ .xdpTx dmaOff pktLen := by
    have hstack : stackExit env ≠ .xdpTx dmaOff pktLen := by
      rw [stackExit]
      split
      · split <;> nofun
      · nofun
    rw [portExit]
    split
    · exact hstack
    split
    · nofun
    · split
      · exact hstack
      · nofun
  have hraw : Legit (rxd.dataLen.setWidth 32 - rxd.metaLen.setWidth 32) := by
    rw [Legit, BitVec.toNat_sub, BitVec.toNat_setWidth, BitVec.toNat_setWidth]
    omega
  simp only [rxExit] at h
  split at h
  · cases h
  split at h
  · cases h
  split at h
  · split at h
    · exact absurd h (hport _)
    · split at h
      · obtain ⟨-, rfl⟩ := Exit.xdpTx.inj h
        exact hraw
      next o l hadjusted =>
      obtain ⟨rfl, rfl⟩ := Exit.xdpTx.inj h
      simp only [adjustedOk, hadjusted, all_some, decide_eq_true_eq] at hadj
      exact .inr (.inl (by omega))
    · cases h
    · cases h
    · cases h
  · exact absurd h (hport _)

theorem rxExit_replace {delivered : Bool} (h : rxExit cfg rxd env = .replace newBuf delivered) :
    env.newBuf = some newBuf := by
  have hstack (hs : stackExit env = .replace newBuf delivered) : env.newBuf = some newBuf := by
    rw [stackExit] at hs
    split at hs
    · split at hs
      · cases hs
      · next b hb =>
        obtain ⟨rfl, -⟩ := Exit.replace.inj hs
        exact hb
    · cases hs
  have hport {portid : BitVec 32} (hs : portExit portid env = .replace newBuf delivered) :
      env.newBuf = some newBuf := by
    rw [portExit] at hs
    split at hs
    · exact hstack hs
    split at hs
    · cases hs
    · split at hs
      · exact hstack hs
      · cases hs
  simp only [rxExit] at h
  split at h
  · cases h
  split at h
  · cases h
  split at h
  · split at h
    · exact hport h
    · split at h <;> cases h
    · cases h
    · cases h
    · cases h
  · exact hport h

theorem packet_conserved (hlaw : Lawful p k lenOk Inv cfg.dmaMapSz) (hk : k < 32) (hg : Good p k Inv st)
    (hrxd : st.rx.rxds (idx k st.rx.rdP) = some rxd) (hadj : adjustedOk env = true)
    (hfresh : freshBuf st.pool env = true) :
    (Conserved p k (rxPacket p k cfg st rxd env) ↔ Returns p k cfg lenOk st (.packet env)) ∧
      (Conserved p k (rxPacket p k cfg st rxd env) → Inv (rxPacket p k cfg st rxd env).tx) := by
  have hiff {Q : Desc → Prop} : (∀ rxd', st.rx.rxds (idx k st.rx.rdP) = some rxd' → Q rxd') ↔ Q rxd :=
    ⟨fun h => h rxd hrxd, fun h rxd' h' => some.inj (hrxd.symm.trans h') ▸ h⟩
  rw [Returns, hiff]
  cases hexit : rxExit cfg rxd env with
  | recycle =>
    have hg' := handOver_returned hk hg (.inl rfl) rfl
    simp only [rxPacket, hexit]
    exact ⟨iff_of_true hg'.conserved trivial, fun _ => hg'.inv⟩
  | noReplacement =>
    have hg' := handOver_returned hk hg (.inr rfl) rfl
    simp only [rxPacket, hexit]
    exact ⟨iff_of_true hg'.conserved trivial, fun _ => hg'.inv⟩
  | replace newBuf delivered =>
    simp only [freshBuf, rxExit_replace hexit, all_some, decide_eq_true_eq] at hfresh
    simp only [rxPacket, hexit]
    exact ⟨handOver_replaced hk hg hfresh delivered rfl, fun _ => hg.inv⟩
  | xdpTx dmaOff pktLen =>
    simp only [rxPacket, hexit]
    exact xmit_conserved hlaw hk hg dmaOff (rxExit_xdpTx hadj hexit) rfl

theorem pollEnd_conserved (hlaw : Lawful p k lenOk Inv cfg.dmaMapSz) (hk : k < 32) (hg : Good p k Inv st) :
    Good p k Inv (pollEnd p k cfg st) := by
  rw [pollEnd]
  split
  · split
    · obtain ⟨hinv, hheld, hflight⟩ := hlaw.flush st.tx hg.inv
      refine ⟨⟨?_, ?_, hlaw.inRing _ hinv⟩, hinv⟩
      · simp only [hheld]
        exact hg.conserved.places
      · simp only [hflight]
        exact hg.conserved.total
    split
    · obtain ⟨hinv, hperm, hcount⟩ := hlaw.complete st.tx hg.inv
      have hlist := giveAll_freeList hk (hg.free_lt (p.xdpComplete st.tx).2.length (by omega))
      refine ⟨⟨?_, ?_, hlaw.inRing _ hinv⟩, hinv⟩
      · simp only [hlist]
        refine Balanced.perm hg.conserved.places (Perm.append_right _ ?_)
        rw [append_assoc]
        exact hperm.append_left _
      · have htotal := hg.conserved.total
        simp only [hlist, length_append]
        omega
    · exact hg
  · exact hg

theorem step_conserved (hlaw : Lawful p k lenOk Inv cfg.dmaMapSz) (hk : k < 32) (hg : Good p k Inv st) (a : Action)
    {st' : St τ}
    (h : step p k cfg st a = some st') :
    (Conserved p k st' ↔ Returns p k cfg lenOk st a) ∧ (Conserved p k st' → Inv st'.tx) := by
  have hkept (hg' : Good p k Inv st') (hr : Returns p k cfg lenOk st a) :
      (Conserved p k st' ↔ Returns p k cfg lenOk st a) ∧ (Conserved p k st' → Inv st'.tx) :=
    ⟨iff_of_true hg'.conserved hr, fun _ => hg'.inv⟩
  cases a with
  | begin =>
    obtain ⟨-, heq⟩ := ite_none_left_eq_some.mp h
    cases heq
    exact hkept ⟨{ hg.conserved with }, hg.inv⟩ trivial
  | packet env =>
    obtain ⟨⟨-, hadj, hfresh⟩, heq⟩ := ite_none_right_eq_some.mp h
    obtain ⟨rxd, hrxd, rfl⟩ := map_eq_some_iff.mp heq
    exact packet_conserved hlaw hk hg hrxd hadj hfresh
  | finish =>
    obtain ⟨-, heq⟩ := ite_none_right_eq_some.mp h
    cases heq
    have hg' := pollEnd_conserved hlaw hk hg
    exact hkept ⟨⟨hg'.conserved.places, hg'.conserved.total, hg'.conserved.inRing⟩, hg'.inv⟩ trivial
  | fill rxd =>
    obtain ⟨-, heq⟩ := ite_none_right_eq_some.mp h
    cases heq
    exact hkept ⟨{ hg.conserved with }, hg.inv⟩ trivial
  | advance n =>
    obtain ⟨tx', htx, rfl⟩ := map_eq_some_iff.mp h
    obtain ⟨hinv, hheld, hflight⟩ := hlaw.advance st.tx n tx' hg.inv htx
    refine hkept ⟨⟨?_, ?_, hlaw.inRing tx' hinv⟩, hinv⟩ trivial
    · simp only [hheld]
      exact hg.conserved.places
    · simp only [hflight]
      exact hg.conserved.total
  | release buf =>
    obtain ⟨hmem, heq⟩ := ite_none_right_eq_some.mp h
    cases heq
    refine hkept ⟨⟨?_, hg.conserved.total, hg.conserved.inRing⟩, hg.inv⟩ trivial
    refine Balanced.release (Balanced.perm hg.conserved.places ?_)
    exact perm_middle.symm.trans ((perm_cons_erase hmem).symm.append_left _)

theorem start_good (hk : k < 32) {bufs : List Buf} {tx : τ} (hinv : Inv tx) (hring : p.inRing tx)
    (hnodup : (bufs ++ p.held tx).Nodup)
    (hlen : bufs.length = 2 ^ k - 1) (hflight : p.inFlight tx = 0) : Good p k Inv (start p k bufs tx) := by
  have hlist := fillFreelist_freeList hk hlen
  refine ⟨⟨fun b => ?_, ?_, hring⟩, hinv⟩
  · simp only [start, hlist, append_nil]
    exact ⟨trivial, nodup_iff_count_le_one.mp hnodup b⟩
  · simp only [start, hlist, hflight]
    exact hlen

theorem conserved_iff (hlaw : Lawful p k lenOk Inv cfg.dmaMapSz) (hk : k < 32) (hg : Good p k Inv st)
    {as : List Action} {t : St τ}
    (hr : run (step p k cfg) st as = some t) :
    Always (step p k cfg) (Conserved p k) st as ↔ Guarded (step p k cfg) (Returns p k cfg lenOk) st as := by
  refine always_iff_guarded (I := Good p k Inv) (fun _ hg => hg.conserved) ?_ ?_ hg hr
  · exact fun _ a _ hg h => (step_conserved hlaw hk hg a h).1
  · exact fun _ a _ hg h hc => ⟨hc, (step_conserved hlaw hk hg a h).2 hc⟩

end Steps

end NfpDriver.Rx
