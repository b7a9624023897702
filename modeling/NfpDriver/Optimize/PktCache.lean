import NfpDriver.Bpf.Meta

namespace NfpDriver.Optimize

open Bpf List Nat

def isMbpfLoadPkt (m : Meta) : Bool := isMbpfLoad m && m.ptr.type == .ptrToPacket
def isMbpfStorePkt (m : Meta) : Bool := isMbpfStore m && m.ptr.type == .ptrToPacket
def isMbpfClassicLoad (m : Meta) : Bool := mbpfClass m == bpfLd && (mbpfMode m == bpfAbs || mbpfMode m == bpfInd)
def isMbpfClassicStore (m : Meta) : Bool := mbpfClass m == bpfSt && mbpfMode m == bpfMem
def isMbpfClassicStorePkt (m : Meta) : Bool := isMbpfClassicStore m && m.ptr.type == .ptrToPacket

structure CacheScan where
  insns : List Meta
  rangeNode : Option Nat
  rangeStart : BitVec 16
  rangeEnd : BitVec 16
  cacheAvail : Bool
  rangePtrOff : BitVec 32
  rangePtrId : BitVec 32

def setRange (rangeStart rangeEnd : BitVec 16) (m : Meta) : Meta :=
  { m with pktCache := { m.pktCache with rangeStart, rangeEnd } }

def setDoInit (m : Meta) : Meta := { m with pktCache := { m.pktCache with doInit := true } }

def accessEnd (m : Meta) : BitVec 16 := m.insn.off + BitVec.ofNat 16 (bpfLdstBytes m.insn)

def endCurrent (s : CacheScan) : List Meta :=
  match s.rangeNode with
  | some r => s.insns.modify r (setRange s.rangeStart s.rangeEnd)
  | none => s.insns

def startNew (s : CacheScan) (pos : Nat) : CacheScan where
  insns := (endCurrent s).modify pos setDoInit
  rangeNode := some pos
  rangeStart := (metaAt s.insns pos).insn.off
  rangeEnd := accessEnd (metaAt s.insns pos)
  cacheAvail := true
  rangePtrOff := (metaAt s.insns pos).ptr.off
  rangePtrId := (metaAt s.insns pos).ptr.id

def flushes (m : Meta) : Bool :=
  isMbpfStorePkt m || m.insn.code == bpfJmp ||| bpfCall || isMbpfClassicStorePkt m || isMbpfClassicLoad m

def extendRange (s : CacheScan) (pos : Nat) : CacheScan :=
  let m := metaAt s.insns pos
  if m.ptr.id = s.rangePtrId ∧ m.ptr.off = s.rangePtrOff then
    let newStart := if m.insn.off.toInt < s.rangeStart.toInt then m.insn.off else s.rangeStart
    let newEnd := if (accessEnd m).toInt > s.rangeEnd.toInt then accessEnd m else s.rangeEnd
    if ¬(m.insn.off.toInt < s.rangeStart.toInt ∨ (accessEnd m).toInt > s.rangeEnd.toInt) then s
    else if newEnd.toInt - newStart.toInt ≤ 64 then { s with rangeStart := newStart, rangeEnd := newEnd }
    else startNew s pos
  else startNew s pos

def leave (s : CacheScan) : CacheScan := { s with cacheAvail := false }

def enter (s : CacheScan) (pos : Nat) : CacheScan :=
  if (metaAt s.insns pos).hasFlag flagInsnIsJumpDst then leave s else s

def cacheBody (s : CacheScan) (pos : Nat) : CacheScan :=
  let s := enter s pos
  let m := metaAt s.insns pos
  if m.hasFlag flagInsnSkipMask then s
  else if flushes m then leave s
  else if !isMbpfLoad m then s
  else if m.ptr.type ≠ .ptrToPacket ∨ m.ldstGatherLen ≠ 0 then leave s
  else if !s.cacheAvail then startNew s pos
  else extendRange s pos

def cacheStart (l : List Meta) : CacheScan := ⟨l, none, 0, 0, false, 0, 0⟩

def cacheScan (l : List Meta) (n : Nat) : CacheScan := (List.range n).foldl cacheBody (cacheStart l)

def spread (rangeStart rangeEnd : BitVec 16) : List Meta → List Meta
  | [] => []
  | m :: ms =>
    if m.hasFlag flagInsnSkipMask then m :: spread rangeStart rangeEnd ms
    else if isMbpfLoadPkt m && m.ldstGatherLen == 0 then
      if m.pktCache.doInit then m :: spread m.pktCache.rangeStart m.pktCache.rangeEnd ms
      else setRange rangeStart rangeEnd m :: spread rangeStart rangeEnd ms
    else m :: spread rangeStart rangeEnd ms

def nfpBpfOptPktCache (l : List Meta) : List Meta :=
  let s := cacheScan l l.length
  spread s.rangeStart s.rangeEnd (endCurrent s)

variable {m : Meta} {insns insns' l : List Meta} {k q : Nat}

section Kinds

def cached (m : Meta) : Bool := !m.hasFlag flagInsnSkipMask && isMbpfLoadPkt m && m.ldstGatherLen == 0

def barrier (m : Meta) : Bool :=
  m.hasFlag flagInsnIsJumpDst || !m.hasFlag flagInsnSkipMask &&
    (flushes m || isMbpfLoad m && !(m.ptr.type == .ptrToPacket && m.ldstGatherLen == 0))

theorem load_not_flushes (h : isMbpfLoad m = true) : flushes m = false := by
  have hcode : ∀ code : BitVec 8, code &&& ~~~bpfSizeMask == bpfLdx ||| bpfMem →
      (code &&& ~~~bpfSizeMask == bpfStx ||| bpfMem) = false ∧ (code == bpfJmp ||| bpfCall) = false ∧
        (bpfClass code == bpfSt) = false ∧ (bpfClass code == bpfLd) = false := by decide
  obtain ⟨hstore, hcall, hst, hld⟩ := hcode _ h
  rw [flushes, isMbpfStorePkt, isMbpfStore, hstore, hcall, isMbpfClassicStorePkt, isMbpfClassicStore, mbpfClass, hst,
    isMbpfClassicLoad, mbpfClass, hld]
  rfl

-- the pass writes cache fields only, which none of its decisions reads
def bare (m : Meta) : Meta := { m with pktCache := ⟨0, 0, false⟩ }

theorem cached_bare (m : Meta) : cached (bare m) = cached m := rfl

theorem bare_setRange (a b : BitVec 16) (m : Meta) : bare (setRange a b m) = bare m := rfl

theorem bare_setDoInit (m : Meta) : bare (setDoInit m) = bare m := rfl

end Kinds

structure Covers (l : List Meta) (rangeStart rangeEnd : BitVec 16) (q k : Nat) : Prop where
  start : rangeStart.toInt ≤ (metaAt l k).insn.off.toInt
  stop : (metaAt l k).insn.off.toInt + bpfLdstBytes (metaAt l k).insn ≤ rangeEnd.toInt
  len : rangeEnd.toInt - rangeStart.toInt ≤ 64
  clear : ∀ j, q < j → j < k → barrier (metaAt l j) = false
  entry : q < k → (metaAt l k).hasFlag flagInsnIsJumpDst = false
  ptrId : (metaAt l k).ptr.id = (metaAt l q).ptr.id
  ptrOff : (metaAt l k).ptr.off = (metaAt l q).ptr.off

structure Owner (l insns : List Meta) (q k : Nat) : Prop where
  le : q ≤ k
  cached : cached (metaAt l q) = true
  doInit : (metaAt insns q).pktCache.doInit = true
  nearest : ∀ j, q < j → j ≤ k → (metaAt insns j).pktCache.doInit = false

def Owned (l insns : List Meta) (k : Nat) : Prop :=
  ∃ q, Owner l insns q k ∧ Covers l (metaAt insns q).pktCache.rangeStart (metaAt insns q).pktCache.rangeEnd q k

structure Open (l : List Meta) (s : CacheScan) (n r : Nat) : Prop where
  lt : r < n
  cached : cached (metaAt l r) = true
  doInit : (metaAt s.insns r).pktCache.doInit = true
  last : ∀ j, r < j → (metaAt s.insns j).pktCache.doInit = false
  ptrId : s.rangePtrId = (metaAt l r).ptr.id
  ptrOff : s.rangePtrOff = (metaAt l r).ptr.off
  covers : ∀ k, r ≤ k → k < n → Optimize.cached (metaAt l k) = true → Covers l s.rangeStart s.rangeEnd r k
  avail : s.cacheAvail = true → ∀ j, r < j → j < n → barrier (metaAt l j) = false
  closed : ∀ k < r, Optimize.cached (metaAt l k) = true → Owned l s.insns k

structure Idle (l : List Meta) (s : CacheScan) (n : Nat) : Prop where
  avail : s.cacheAvail = false
  none : ∀ k < n, cached (metaAt l k) = false
  fresh : ∀ k, (metaAt s.insns k).pktCache.doInit = false

structure ScanInv (l : List Meta) (s : CacheScan) (n : Nat) : Prop where
  len : s.insns.length = l.length
  bare : ∀ k, bare (metaAt s.insns k) = bare (metaAt l k)
  phase : (s.rangeNode = none ∧ Idle l s n) ∨ ∃ r, s.rangeNode = some r ∧ Open l s n r

def NoWrap (l : List Meta) : Prop :=
  ∀ k, cached (metaAt l k) = true → (metaAt l k).insn.off.toInt + bpfLdstBytes (metaAt l k).insn ≤ 32767

section Scan

variable {l : List Meta} {s : CacheScan} {n : Nat}

theorem Owner.congr (h : Owner l insns q k)
    (heq : ∀ j, j ≤ k → (metaAt insns' j).pktCache.doInit = (metaAt insns j).pktCache.doInit) : Owner l insns' q k :=
  ⟨h.le, h.cached, (heq q h.le).trans h.doInit, fun j hq hk => (heq j hk).trans (h.nearest j hq hk)⟩

theorem Owned.congr (h : Owned l insns k) (heq : ∀ j, j ≤ k → (metaAt insns' j).pktCache = (metaAt insns j).pktCache) :
    Owned l insns' k := by
  obtain ⟨q, howner, hcovers⟩ := h
  refine ⟨q, howner.congr fun j hj => congrArg _ (heq j hj), ?_⟩
  rw [heq q howner.le]
  exact hcovers

theorem endCurrent_doInit (s : CacheScan) (k : Nat) :
    (metaAt (endCurrent s) k).pktCache.doInit = (metaAt s.insns k).pktCache.doInit := by
  unfold endCurrent
  split
  · rw [metaAt_modify]
    split_ifs <;> rfl
  · rfl

theorem ScanInv.endCurrent_bare (h : ScanInv l s n) :
    (endCurrent s).length = l.length ∧ ∀ k, Optimize.bare (metaAt (endCurrent s) k) = Optimize.bare (metaAt l k) := by
  unfold endCurrent
  split
  · refine ⟨(length_modify ..).trans h.len, fun k => ?_⟩
    rw [metaAt_modify]
    split_ifs
    · rw [bare_setRange, h.bare]
    · exact h.bare k
  · exact ⟨h.len, h.bare⟩

-- closing the open range leaves every load seen so far with an owner
theorem ScanInv.owned (h : ScanInv l s n) (hn : n ≤ l.length) (hk : k < n) (hc : cached (metaAt l k) = true) :
    Owned l (endCurrent s) k := by
  rcases h.phase with ⟨-, hidle⟩ | ⟨r, hr, hopen⟩
  · rw [hidle.none k hk] at hc
    cases hc
  have hlen : r < s.insns.length := by
    have := hopen.lt
    rw [h.len]
    omega
  have hend : endCurrent s = s.insns.modify r (setRange s.rangeStart s.rangeEnd) := by rw [endCurrent, hr]
  by_cases hkr : k < r
  · refine (hopen.closed k hkr hc).congr fun j hj => ?_
    rw [hend, metaAt_modify_ne (by omega)]
  refine ⟨r, ⟨by omega, hopen.cached, ?_, fun j hj _ => ?_⟩, ?_⟩
  · rw [endCurrent_doInit]
    exact hopen.doInit
  · rw [endCurrent_doInit]
    exact hopen.last j hj
  · rw [hend, metaAt_modify_self hlen]
    exact hopen.covers k (by omega) hk hc

theorem accessEnd_toInt (h : m.insn.off.toInt + bpfLdstBytes m.insn ≤ 32767) :
    (accessEnd m).toInt = m.insn.off.toInt + bpfLdstBytes m.insn := by
  have hoff := BitVec.le_toInt m.insn.off
  have hbytes : (BitVec.ofNat 16 (bpfLdstBytes m.insn)).toInt = bpfLdstBytes m.insn := by
    rcases bpfLdstBytes_cases m.insn with hb | hb | hb | hb <;> rw [hb] <;> rfl
  rw [accessEnd, BitVec.toInt_add, hbytes]
  exact Int.bmod_eq_of_le (by omega) (by omega)

section

variable (h : ScanInv l s n)

include h

theorem metaAt_insn (k : Nat) : (metaAt s.insns k).insn = (metaAt l k).insn := by
  have hinsn := congrArg Meta.insn (h.bare k)
  exact hinsn

theorem metaAt_ptr (k : Nat) : (metaAt s.insns k).ptr = (metaAt l k).ptr := by
  have hptr := congrArg Meta.ptr (h.bare k)
  exact hptr

theorem metaAt_hasFlag (k : Nat) (f : BitVec 16) :
    (metaAt s.insns k).hasFlag f = (metaAt l k).hasFlag f := by
  have hflags := congrArg (Meta.hasFlag · f) (h.bare k)
  exact hflags

theorem ScanInv.leave : ScanInv l (leave s) n where
  len := h.len
  bare := h.bare
  phase := by
    rcases h.phase with ⟨hnone, hidle⟩ | ⟨r, hr, hopen⟩
    · exact .inl ⟨hnone, rfl, hidle.none, hidle.fresh⟩
    · exact .inr ⟨r, hr, { hopen with avail := nofun }⟩

theorem ScanInv.pass (hc : cached (metaAt l n) = false)
    (hb : s.cacheAvail = true → barrier (metaAt l n) = false) : ScanInv l s (n + 1) where
  len := h.len
  bare := h.bare
  phase := by
    rcases h.phase with ⟨hnone, hidle⟩ | ⟨r, hr, hopen⟩
    · refine .inl ⟨hnone, hidle.avail, fun k hk => ?_, hidle.fresh⟩
      rcases Nat.lt_succ_iff_lt_or_eq.mp hk with hk | rfl
      · exact hidle.none k hk
      · exact hc
    refine .inr ⟨r, hr, { hopen with
      lt := lt_succ_of_lt hopen.lt
      covers := fun k hle hk hck => ?_
      avail := fun ha j hj hjn => ?_ }⟩
    · rcases Nat.lt_succ_iff_lt_or_eq.mp hk with hk | rfl
      · exact hopen.covers k hle hk hck
      · rw [hc] at hck
        cases hck
    · rcases Nat.lt_succ_iff_lt_or_eq.mp hjn with hjn | rfl
      · exact hopen.avail ha j hj hjn
      · exact hb ha

end

theorem ScanInv.startNew (hl : NoWrap l) (h : ScanInv l s n) (hn : n < l.length) (hc : cached (metaAt l n) = true) :
    ScanInv l (startNew s n) (n + 1) := by
  obtain ⟨hlen, hbare⟩ := h.endCurrent_bare
  have hat (k : Nat) (hk : k ≠ n) : metaAt (Optimize.startNew s n).insns k = metaAt (endCurrent s) k :=
      metaAt_modify_ne hk _
  have hself : metaAt (Optimize.startNew s n).insns n = setDoInit (metaAt (endCurrent s) n) :=
    metaAt_modify_self (by rw [hlen]; exact hn) _
  have hfresh (k : Nat) (hk : n < k) : (metaAt s.insns k).pktCache.doInit = false := by
    rcases h.phase with ⟨-, hidle⟩ | ⟨r, -, hopen⟩
    · exact hidle.fresh k
    · exact hopen.last k (lt_trans hopen.lt hk)
  have hend := accessEnd_toInt (hl n hc)
  refine ⟨(length_modify ..).trans hlen, fun k => ?_, .inr ⟨n, rfl, ?_⟩⟩
  · by_cases hk : k = n
    · rw [hk, hself, bare_setDoInit, hbare]
    · rw [hat k hk, hbare]
  · refine
      { lt := lt_succ_self n
        cached := hc
        doInit := ?_
        last := fun j hj => ?_
        ptrId := congrArg RegState.id (metaAt_ptr h n)
        ptrOff := congrArg RegState.off (metaAt_ptr h n)
        covers := fun k hle hk _ => ?_
        avail := fun _ j hj hjn => absurd hjn (by omega)
        closed := fun k hk hck => ?_ }
    · rw [hself]
      rfl
    · rw [hat j (by omega), endCurrent_doInit]
      exact hfresh j hj
    · obtain rfl : k = n := by omega
      have hsame : Optimize.accessEnd (metaAt s.insns k) = Optimize.accessEnd (metaAt l k) := by
        rw [accessEnd, accessEnd, metaAt_insn h]
      refine ⟨?_, ?_, ?_, fun j hj hjk => absurd hjk (by omega), fun hlt => absurd hlt (lt_irrefl k), rfl, rfl⟩
      · rw [Optimize.startNew, metaAt_insn h]
      · rw [Optimize.startNew]
        dsimp only
        rw [hsame, hend]
      · rw [Optimize.startNew]
        dsimp only
        rw [hsame, hend, metaAt_insn h]
        rcases bpfLdstBytes_cases (metaAt l k).insn with hb | hb | hb | hb <;> omega
    · refine (h.owned (le_of_lt hn) hk hck).congr fun j hj => ?_
      rw [hat j (by omega)]

theorem cached_parts (h : cached m = true) :
    m.hasFlag flagInsnSkipMask = false ∧ isMbpfLoad m = true ∧ m.ptr.type = .ptrToPacket ∧ m.ldstGatherLen = 0 := by
  simpa [cached, isMbpfLoadPkt, and_assoc] using h

theorem cached_not_barrier (h : cached m = true) (hj : m.hasFlag flagInsnIsJumpDst = false) : barrier m = false := by
  obtain ⟨hskip, hload, hpkt, hgather⟩ := cached_parts h
  rw [barrier, hj, hskip, load_not_flushes hload, hload, hpkt, hgather]
  rfl

-- a load merged into the open range: the range may grow, and keeps what it had
theorem Open.extend {r : Nat} (h : Open l s n r) (havail : s.cacheAvail = true)
    (hc : Optimize.cached (metaAt l n) = true)
    (hj : (metaAt l n).hasFlag flagInsnIsJumpDst = false) (hid : (metaAt l n).ptr.id = s.rangePtrId)
    (hoff : (metaAt l n).ptr.off = s.rangePtrOff) {a b : BitVec 16} (ha : a.toInt ≤ s.rangeStart.toInt)
    (hb : s.rangeEnd.toInt ≤ b.toInt) (hlen : b.toInt - a.toInt ≤ 64) (hstart : a.toInt ≤ (metaAt l n).insn.off.toInt)
    (hstop : (metaAt l n).insn.off.toInt + bpfLdstBytes (metaAt l n).insn ≤ b.toInt) :
    Open l { s with rangeStart := a, rangeEnd := b } (n + 1) r :=
  { h with
    lt := Nat.lt_succ_of_lt h.lt
    covers := fun k hle hk hck => by
      rcases Nat.lt_succ_iff_lt_or_eq.mp hk with hk | rfl
      · have hold := h.covers k hle hk hck
        exact { hold with start := Int.le_trans ha hold.start, stop := Int.le_trans hold.stop hb, len := hlen }
      · exact ⟨hstart, hstop, hlen, h.avail havail, fun _ => hj, hid.trans h.ptrId, hoff.trans h.ptrOff⟩
    avail := fun _ j hjr hjn => by
      rcases Nat.lt_succ_iff_lt_or_eq.mp hjn with hjn | rfl
      · exact h.avail havail j hjr hjn
      · exact cached_not_barrier hc hj }

theorem ScanInv.extendRange (hl : NoWrap l) (h : ScanInv l s n) (hn : n < l.length) (hc : cached (metaAt l n) = true)
    (havail : s.cacheAvail = true) (hj : (metaAt l n).hasFlag flagInsnIsJumpDst = false) :
    ScanInv l (extendRange s n) (n + 1) := by
  obtain ⟨r, hr, hopen⟩ : ∃ r, s.rangeNode = some r ∧ Open l s n r := by
    rcases h.phase with ⟨-, hidle⟩ | hopen
    · rw [hidle.avail] at havail
      cases havail
    · exact hopen
  have hend := accessEnd_toInt (hl n hc)
  have hsame : accessEnd (metaAt s.insns n) = accessEnd (metaAt l n) := by rw [accessEnd, accessEnd, metaAt_insn h]
  have hlen := (hopen.covers r (Nat.le_refl r) hopen.lt hopen.cached).len
  have hnewStart : ∃ a,
      (if (metaAt l n).insn.off.toInt < s.rangeStart.toInt then (metaAt l n).insn.off else s.rangeStart) = a ∧
      a.toInt ≤ s.rangeStart.toInt ∧ a.toInt ≤ (metaAt l n).insn.off.toInt := by
    refine ⟨_, rfl, ?_⟩
    split_ifs <;> omega
  have hnewEnd : ∃ b,
      (if (accessEnd (metaAt l n)).toInt > s.rangeEnd.toInt then accessEnd (metaAt l n) else s.rangeEnd) = b ∧
      s.rangeEnd.toInt ≤ b.toInt ∧ (accessEnd (metaAt l n)).toInt ≤ b.toInt := by
    refine ⟨_, rfl, ?_⟩
    split_ifs <;> omega
  obtain ⟨a, haeq, ha, hstart⟩ := hnewStart
  obtain ⟨b, hbeq, hb, hstop⟩ := hnewEnd
  rw [Optimize.extendRange]
  dsimp only
  rw [metaAt_ptr h, metaAt_insn h, hsame, haeq, hbeq]
  rw [hend] at hstop ⊢
  split_ifs with hptr hchanged hfit
  · exact ⟨h.len, h.bare, .inr ⟨r, hr, hopen.extend havail hc hj hptr.1 hptr.2 ha hb hfit hstart hstop⟩⟩
  · exact h.startNew hl hn hc
  · refine ⟨h.len, h.bare, .inr ⟨r, hr, ?_⟩⟩
    exact hopen.extend havail hc hj hptr.1 hptr.2 (Int.le_refl _) (Int.le_refl _) hlen (by omega) (by omega)
  · exact h.startNew hl hn hc

theorem scan_body (hl : NoWrap l) (h : ScanInv l s n) (hn : n < l.length) : ScanInv l (cacheBody s n) (n + 1) := by
  have henter : ScanInv l (enter s n) n ∧
      ((enter s n).cacheAvail = true → (metaAt l n).hasFlag flagInsnIsJumpDst = false) := by
    rw [enter]
    split_ifs with hj
    · exact ⟨h.leave, nofun⟩
    · rw [metaAt_hasFlag h] at hj
      exact ⟨h, fun _ => Bool.eq_false_iff.mpr hj⟩
  obtain ⟨t, ht⟩ := @exists_eq' _ (enter s n)
  rw [ht] at henter
  obtain ⟨hinv, hjump⟩ := henter
  have hflush : flushes (bare (metaAt t.insns n)) = flushes (bare (metaAt l n)) := by rw [hinv.bare]
  have hload : isMbpfLoad (bare (metaAt t.insns n)) = isMbpfLoad (bare (metaAt l n)) := by rw [hinv.bare]
  have hgather : (bare (metaAt t.insns n)).ldstGatherLen = (bare (metaAt l n)).ldstGatherLen := by rw [hinv.bare]
  change flushes (metaAt t.insns n) = flushes (metaAt l n) at hflush
  change isMbpfLoad (metaAt t.insns n) = isMbpfLoad (metaAt l n) at hload
  change (metaAt t.insns n).ldstGatherLen = (metaAt l n).ldstGatherLen at hgather
  rw [cacheBody, ht, metaAt_hasFlag hinv, hflush, hload, metaAt_ptr hinv, hgather]
  split
  · next hskip =>
    refine hinv.pass ?_ fun ha => ?_
    · rw [cached, hskip]
      rfl
    · rw [barrier, hjump ha, hskip]
      rfl
  next hskip =>
  split
  · next hfl =>
    refine hinv.leave.pass ?_ nofun
    by_contra hc
    rw [load_not_flushes (cached_parts (Bool.eq_true_of_not_eq_false hc)).2.1] at hfl
    cases hfl
  next hfl =>
  split
  · next hld =>
    have hld' : isMbpfLoad (metaAt l n) = false := by simpa using hld
    refine hinv.pass ?_ fun ha => ?_
    · rw [cached, isMbpfLoadPkt, hld', Bool.false_and, Bool.and_false, Bool.false_and]
    · rw [barrier, hjump ha, hld', Bool.eq_false_iff.mpr hfl, Bool.false_and, Bool.or_false, Bool.and_false,
        Bool.or_false]
  next hld =>
  split
  · next hother =>
    refine hinv.leave.pass ?_ nofun
    by_contra hc
    obtain ⟨-, -, hpkt, hg⟩ := cached_parts (Bool.eq_true_of_not_eq_false hc)
    exact hother.elim (fun hne => hne hpkt) (fun hne => hne hg)
  next hother =>
  have hc : cached (metaAt l n) = true := by
    rw [not_or, not_not, not_not] at hother
    have hld' : isMbpfLoad (metaAt l n) = true := by simpa using hld
    rw [cached, isMbpfLoadPkt, hld', hother.1, hother.2, Bool.eq_false_iff.mpr hskip]
    rfl
  split
  · exact hinv.startNew hl hn hc
  · next havail =>
    have havail' : t.cacheAvail = true := by simpa using havail
    exact hinv.extendRange hl hn hc havail' (hjump havail')

theorem scan_inv (hl : NoWrap l) (hfresh : ∀ k, (metaAt l k).pktCache.doInit = false) (hn : n ≤ l.length) :
    ScanInv l (cacheScan l n) n := by
  induction n with
  | zero => exact ⟨rfl, fun _ => rfl, .inl ⟨rfl, rfl, nofun, hfresh⟩⟩
  | succ n ih =>
    rw [cacheScan, range_succ, foldl_append, ← cacheScan]
    exact scan_body hl (ih (by omega)) hn

end Scan

section Spread

variable (a b : BitVec 16)

theorem metaAt_zero (m : Meta) (ms : List Meta) : metaAt (m :: ms) 0 = m := rfl

theorem metaAt_succ (m : Meta) (ms : List Meta) (k : Nat) : metaAt (m :: ms) (k + 1) = metaAt ms k := rfl

theorem spread_cons (m : Meta) (ms : List Meta) :
    spread a b (m :: ms) =
      if cached m then
        if m.pktCache.doInit then m :: spread m.pktCache.rangeStart m.pktCache.rangeEnd ms
        else setRange a b m :: spread a b ms
      else m :: spread a b ms := by
  rw [spread, cached]
  cases m.hasFlag flagInsnSkipMask <;> simp

theorem spread_frame (l : List Meta) (k : Nat) :
    bare (metaAt (spread a b l) k) = bare (metaAt l k) ∧
      (metaAt (spread a b l) k).pktCache.doInit = (metaAt l k).pktCache.doInit := by
  induction l generalizing k a b with
  | nil => exact ⟨rfl, rfl⟩
  | cons m ms ih =>
    rw [spread_cons]
    cases k with
    | zero => split_ifs <;> exact ⟨rfl, rfl⟩
    | succ k => split_ifs <;> exact ih _ _ k

theorem spread_before (l : List Meta) (hk : k < l.length) (hc : cached (metaAt l k) = true)
    (hinit : ∀ j ≤ k, (metaAt l j).pktCache.doInit = false) : (metaAt (spread a b l) k).pktCache = ⟨a, b, false⟩ := by
  induction l generalizing k with
  | nil => exact absurd hk (Nat.not_lt_zero k)
  | cons m ms ih =>
    have hm : m.pktCache.doInit = false := hinit 0 (Nat.zero_le k)
    rw [spread_cons, if_neg (Bool.eq_false_iff.mp hm)]
    cases k with
    | zero =>
      rw [metaAt_zero] at hc
      rw [if_pos hc]
      exact congrArg (PktCache.mk a b) hm
    | succ k =>
      have hrest := ih (lt_of_succ_lt_succ hk) hc fun j hj => hinit (j + 1) (succ_le_succ hj)
      split_ifs <;> exact hrest

-- a load gets the range of the nearest initialising load before it
theorem spread_owner (l : List Meta) (hk : k < l.length) (hqk : q ≤ k) (hq : cached (metaAt l q) = true)
    (hinit : (metaAt l q).pktCache.doInit = true) (hc : cached (metaAt l k) = true)
    (hnear : ∀ j, q < j → j ≤ k → (metaAt l j).pktCache.doInit = false) :
    (metaAt (spread a b l) k).pktCache.rangeStart = (metaAt l q).pktCache.rangeStart ∧
      (metaAt (spread a b l) k).pktCache.rangeEnd = (metaAt l q).pktCache.rangeEnd := by
  induction l generalizing q k a b with
  | nil => exact absurd hk (Nat.not_lt_zero k)
  | cons m ms ih =>
    rw [spread_cons]
    cases q with
    | zero =>
      rw [metaAt_zero] at hq hinit
      rw [if_pos hq, if_pos hinit]
      cases k with
      | zero => exact ⟨rfl, rfl⟩
      | succ k =>
        have hrest := spread_before m.pktCache.rangeStart m.pktCache.rangeEnd ms (lt_of_succ_lt_succ hk) hc fun j hj =>
          hnear (j + 1) (succ_pos j) (succ_le_succ hj)
        rw [metaAt_succ, hrest]
        exact ⟨rfl, rfl⟩
    | succ q =>
      cases k with
      | zero => exact absurd hqk (not_succ_le_zero q)
      | succ k =>
        have hrest (a b : BitVec 16) :=
            ih a b (lt_of_succ_lt_succ hk) (le_of_succ_le_succ hqk) hq hinit hc fun j hj hjk =>
          hnear (j + 1) (succ_lt_succ hj) (succ_le_succ hjk)
        split_ifs <;> exact hrest _ _

end Spread

structure Installed (l out : List Meta) (q k : Nat) : Prop where
  owner : Owner l out q k
  sameStart : (metaAt out k).pktCache.rangeStart = (metaAt out q).pktCache.rangeStart
  sameEnd : (metaAt out k).pktCache.rangeEnd = (metaAt out q).pktCache.rangeEnd
  covers : Covers l (metaAt out k).pktCache.rangeStart (metaAt out k).pktCache.rangeEnd q k

theorem metaAt_mem (hk : k < l.length) : metaAt l k ∈ l := by
  rw [metaAt, getD_eq_getElem?_getD, getElem?_eq_getElem hk]
  exact getElem_mem hk

theorem installed_of_noWrap (hl : NoWrap l) (hfresh : ∀ k, (metaAt l k).pktCache.doInit = false) (hk : k < l.length)
    (hc : cached (metaAt l k) = true) : ∃ q, Installed l (nfpBpfOptPktCache l) q k := by
  have hinv := scan_inv hl hfresh (Nat.le_refl l.length)
  obtain ⟨s, hs⟩ := @exists_eq' _ (cacheScan l l.length)
  rw [hs] at hinv
  obtain ⟨q, howner, hcovers⟩ := hinv.owned le_rfl hk hc
  obtain ⟨hlen, hbare⟩ := hinv.endCurrent_bare
  have hcached (j : Nat) : cached (metaAt (endCurrent s) j) = cached (metaAt l j) := by
      rw [← cached_bare, hbare, cached_bare]
  have hown (j : Nat) (hj : j < l.length) (hcj : cached (metaAt l j) = true) (hle : q ≤ j) (hjk : j ≤ k) :=
    spread_owner s.rangeStart s.rangeEnd (endCurrent s) (k := j) (by rw [hlen]; exact hj) hle
      (by rw [hcached]; exact howner.cached)
      howner.doInit (by rw [hcached]; exact hcj) fun i hi hij => howner.nearest i hi (le_trans hij hjk)
  obtain ⟨hkStart, hkEnd⟩ := hown k hk hc howner.le (Nat.le_refl k)
  obtain ⟨hqStart, hqEnd⟩ := hown q (lt_of_le_of_lt howner.le hk) howner.cached (Nat.le_refl q) howner.le
  refine ⟨q, ?_⟩
  rw [nfpBpfOptPktCache, hs]
  refine ⟨howner.congr fun j _ => (spread_frame _ _ _ j).2, hkStart.trans hqStart.symm, hkEnd.trans hqEnd.symm, ?_⟩
  rw [hkStart, hkEnd]
  exact hcovers

theorem pkt_cache_iff (l : List Meta) (hfresh : ∀ m ∈ l, m.pktCache.doInit = false) :
    (∀ k < l.length, cached (metaAt l k) = true → ∃ q, Installed l (nfpBpfOptPktCache l) q k) ↔
      ∀ m ∈ l, cached m = true → m.insn.off.toInt + bpfLdstBytes m.insn ≤ 32767 := by
  constructor
  · intro h m hm hc
    obtain ⟨k, hk, rfl⟩ := mem_iff_getElem.mp hm
    have hat : metaAt l k = l[k] := by rw [metaAt, getD_eq_getElem?_getD, getElem?_eq_getElem hk, Option.getD_some]
    obtain ⟨q, hq⟩ := h k hk (by rw [hat]; exact hc)
    have hstop := hq.covers.stop
    have hmax := BitVec.toInt_lt (x := (metaAt (nfpBpfOptPktCache l) k).pktCache.rangeEnd)
    rw [hat] at hstop
    omega
  · intro h k hk hc
    refine installed_of_noWrap (fun j hj => ?_) (fun j => ?_) hk hc
    · by_cases hlt : j < l.length
      · exact h _ (metaAt_mem hlt) hj
      · rw [metaAt_of_length_le (not_lt.mp hlt)] at hj
        cases hj
    · by_cases hlt : j < l.length
      · exact hfresh _ (metaAt_mem hlt)
      · rw [metaAt_of_length_le (not_lt.mp hlt)]
        rfl

def pktLoad (size : BitVec 8) (off : BitVec 16) : Meta :=
  { Meta.zero ⟨bpfLdx ||| bpfMem ||| size, 1, 2, off, 0⟩ 0 with ptr := { RegState.zero with type := .ptrToPacket } }

theorem two_loads_one_range :
    ∃ q, Installed [pktLoad bpfW 0, pktLoad bpfW 12] (nfpBpfOptPktCache [pktLoad bpfW 0, pktLoad bpfW 12]) q 1 :=
  (pkt_cache_iff [pktLoad bpfW 0, pktLoad bpfW 12] (by decide)).mpr (by decide) 1 (by decide) (by decide)

theorem top_load_not_covered :
    cached (pktLoad bpfDw 0x7ffc) = true ∧
      (metaAt (nfpBpfOptPktCache [pktLoad bpfDw 0x7ffc]) 0).pktCache = ⟨0x7ffc, 0x8004, true⟩ ∧
      ¬∃ q, Installed [pktLoad bpfDw 0x7ffc] (nfpBpfOptPktCache [pktLoad bpfDw 0x7ffc]) q 0 := by
  refine ⟨by decide, by decide, fun ⟨q, h⟩ => ?_⟩
  exact absurd h.covers.stop (by decide)

end NfpDriver.Optimize
