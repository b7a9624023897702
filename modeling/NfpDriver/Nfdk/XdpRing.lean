import NfpDriver.Nfdk.Xdp

namespace NfpDriver.Nfdk

open Slots Rx Function List Nat

def Entry.raws : Entry → List Raw
  | .packet _ _ _ _ => []
  | .xdp frag dmaAddr _ descs => .sop frag :: .dma dmaAddr :: List.replicate (descs.length - 2) .null
  | .closed nopSlots => List.replicate nopSlots .null

def Entry.Xdp : Entry → Prop
  | .packet _ _ _ _ => False
  | .xdp _ _ _ _ => True
  | .closed _ => True

def raws (es : List Entry) : List Raw := es.flatMap Entry.raws

def rawAt (es : List Entry) (p : Nat) : Raw := (raws es).getD p .null

def bufAt (es : List Entry) (p : Nat) : List Buf :=
  match rawAt es p with
  | .sop frag => [(frag, (rawAt es (p + 1)).dmaAddr)]
  | _ => []

def bufsIn (es : List Entry) (p n : Nat) : List Buf := (List.range' p n).flatMap (bufAt es)

variable {e : Entry} {as bs es : List Entry} {i frag dmaAddr p n bound dev pktLen : Nat} {descs : List Desc}
  {c : Recycle}

section Raws

variable {es : List Entry} {pos p : Nat}

theorem Entry.raws_length (hx : e.Xdp) (hplaced : e.Placed pos) : e.raws.length = e.size := by
  cases e with
  | packet skb head addrs descs => exact hx.elim
  | xdp frag dmaAddr pktLen descs =>
    have hlen := hplaced.1
    simp only [Entry.raws, length_cons, length_replicate, Entry.size, Entry.descs]
    omega
  | closed n => rw [Entry.raws, length_replicate, size_closed]

theorem raws_length (hx : ∀ e ∈ es, e.Xdp) (hplaced : Placed pos es) : (raws es).length = span es := by
  induction es generalizing pos with
  | nil => rfl
  | cons e es ih =>
    have hrest := ih (fun e he => hx e (mem_cons_of_mem _ he)) hplaced.2
    rw [raws] at hrest ⊢
    rw [flatMap_cons, length_append, Entry.raws_length (hx e mem_cons_self) hplaced.1, hrest, span_cons]

theorem exists_entry_at (h : p < span es) : ∃ as e bs i, es = as ++ e :: bs ∧ p = span as + i ∧ i < e.size := by
  induction es generalizing p with
  | nil => exact absurd h (Nat.not_lt_zero p)
  | cons e es ih =>
    rw [span_cons] at h
    rcases lt_or_ge p e.size with hlt | hge
    · exact ⟨[], e, es, p, rfl, (zero_add p).symm, hlt⟩
    · obtain ⟨as, e', bs, i, rfl, hp, hi⟩ := ih (p := p - e.size) (by omega)
      exact ⟨e :: as, e', bs, i, rfl, by rw [span_cons]; omega, hi⟩

theorem raws_at (hx : ∀ e' ∈ as ++ e :: bs, e'.Xdp) (hplaced : Placed pos (as ++ e :: bs)) (hi : i < e.size) :
    (raws (as ++ e :: bs))[span as + i]? = e.raws[i]? := by
  have hlen := raws_length (fun e' he => hx e' (mem_append_left _ he)) (placed_append.mp hplaced).1
  have hraws := Entry.raws_length (hx e (mem_append_right _ mem_cons_self)) hplaced.at
  have hsplit : raws (as ++ e :: bs) = raws as ++ (e.raws ++ raws bs) := by
    rw [raws, flatMap_append, flatMap_cons]
    rfl
  rw [hsplit, getElem?_append_right (by omega), hlen, Nat.add_sub_cancel_left, getElem?_append_left (by omega)]

theorem rawAt_beyond (hx : ∀ e ∈ es, e.Xdp) (hplaced : Placed pos es) (h : span es ≤ p) : rawAt es p = .null := by
  rw [rawAt, getD_eq_getElem?_getD, getElem?_eq_none (by rw [raws_length hx hplaced]; exact h)]
  rfl

theorem rawAt_entry (hx : ∀ e' ∈ as ++ e :: bs, e'.Xdp) (hplaced : Placed pos (as ++ e :: bs)) (hi : i < e.size) :
    rawAt (as ++ e :: bs) (span as + i) = e.raws.getD i .null := by
  rw [rawAt, getD_eq_getElem?_getD, raws_at hx hplaced hi, ← getD_eq_getElem?_getD]

theorem rawAt_append (fs : List Entry) (hx : ∀ e ∈ es, e.Xdp) (hplaced : Placed pos es) (h : p < span es) :
    rawAt (es ++ fs) p = rawAt es p := by
  have hsplit : raws (es ++ fs) = raws es ++ raws fs := flatMap_append
  rw [rawAt, rawAt, hsplit, getD_eq_getElem?_getD, getD_eq_getElem?_getD,
    getElem?_append_left (by rw [raws_length hx hplaced]; exact h)]

theorem Entry.raws_getD (e : Entry) (i : Nat) : e.raws.getD i .null = match e, i with
    | .xdp frag _ _ _, 0 => .sop frag
    | .xdp _ dmaAddr _ _, 1 => .dma dmaAddr
    | _, _ => .null := by
  have hnull (n i : Nat) : (replicate n Raw.null).getD i .null = .null := by
    rw [getD_eq_getElem?_getD, getElem?_replicate]
    split <;> rfl
  cases e with
  | packet skb head addrs descs => rfl
  | xdp f d len descs =>
    rcases i with _ | _ | i
    · rfl
    · rfl
    · exact hnull _ i
  | closed n => exact hnull n i

section

variable (hx : ∀ e ∈ es, e.Xdp) (hplaced : Placed 0 es)

include hx hplaced

theorem rawAt_cases (p : Nat) :
    rawAt es p = .null ∨
      (∃ as bs frag dmaAddr pktLen descs, es = as ++ .xdp frag dmaAddr pktLen descs :: bs ∧
        ((p = span as ∧ rawAt es p = .sop frag) ∨ (p = span as + 1 ∧ rawAt es p = .dma dmaAddr))) := by
  rcases lt_or_ge p (span es) with hlt | hge
  · obtain ⟨as, e, bs, i, rfl, rfl, hi⟩ := exists_entry_at hlt
    have hraw := (rawAt_entry hx hplaced hi).trans (e.raws_getD i)
    split at hraw
    · exact .inr ⟨as, bs, _, _, _, _, rfl, .inl ⟨rfl, hraw⟩⟩
    · exact .inr ⟨as, bs, _, _, _, _, rfl, .inr ⟨rfl, hraw⟩⟩
    · exact .inl hraw
  · exact .inl (rawAt_beyond hx hplaced hge)

theorem sop_at (h : rawAt es p = .sop frag) :
    p + 2 ≤ span es ∧ p % 32 + 2 ≤ 32 ∧ ∃ dmaAddr, rawAt es (p + 1) = .dma dmaAddr := by
  rcases rawAt_cases hx hplaced p with hnull | ⟨as, bs, f, d, len, descs, rfl, ⟨rfl, -⟩ | ⟨-, hdma⟩⟩
  · rw [hnull] at h
    cases h
  · obtain ⟨htwo, hblock⟩ := hplaced.at
    have hsize : (Entry.xdp f d len descs).size = descs.length := rfl
    rw [InBlock] at hblock
    refine ⟨?_, by omega, d, ?_⟩
    · rw [span_append, span_cons]
      omega
    · have hat := rawAt_entry (i := 1) hx hplaced (by omega)
      exact hat.trans (Entry.raws_getD _ 1)
  · rw [hdma] at h
    cases h

theorem dma_at (h : rawAt es p = .dma dmaAddr) :
    ∃ q frag, p = q + 1 ∧ rawAt es q = .sop frag := by
  rcases rawAt_cases hx hplaced p with hnull | ⟨as, bs, f, d, len, descs, rfl, ⟨-, hsop⟩ | ⟨rfl, -⟩⟩
  · rw [hnull] at h
    cases h
  · rw [hsop] at h
    cases h
  · have hsize : (Entry.xdp f d len descs).size = descs.length := rfl
    have htwo := hplaced.at.1
    have hat := rawAt_entry (i := 0) hx hplaced (by omega)
    exact ⟨span as, f, rfl, hat.trans (Entry.raws_getD _ 0)⟩

end

end Raws

structure Slotted (j : Nat) (ktxbufs : Nat → Raw) (es : List Entry) (read : Nat) : Prop where
  bufs : ∀ p, read ≤ p → p < read + 2 ^ j → ktxbufs (p % 2 ^ j) = rawAt es p
  aligned : ∀ dmaAddr, rawAt es read ≠ .dma dmaAddr

structure XdpRing (j : Nat) (r : Ring) (read : Nat) : Prop where
  core : Core j (fun _ => []) r read
  xdp : ∀ e ∈ r.log, e.Xdp
  slots : Slotted j r.ktxbufs r.log read

section Place

variable {j read : Nat} {r : Ring}

theorem rawAt_snoc (hx : ∀ e' ∈ es ++ [e], e'.Xdp) (hplaced : Placed 0 (es ++ [e])) :
    rawAt (es ++ [e]) p = if p < span es then rawAt es p else e.raws.getD (p - span es) .null := by
  have hx' : ∀ e' ∈ es, e'.Xdp := fun e' he => hx e' (mem_append_left _ he)
  have hplaced' := (placed_append.mp hplaced).1
  split
  · next hlt => exact rawAt_append _ hx' hplaced' hlt
  next hge =>
  obtain ⟨i, rfl⟩ := Nat.exists_eq_add_of_le (not_lt.mp hge)
  rw [Nat.add_sub_cancel_left]
  rcases lt_or_ge i e.size with hi | hi
  · exact rawAt_entry hx hplaced hi
  have hlen := Entry.raws_length (hx e (mem_append_right _ (mem_singleton_self e))) hplaced.at
  rw [rawAt_beyond hx hplaced (by rw [span_append, span_singleton]; omega), getD_eq_getElem?_getD,
    getElem?_eq_none (by omega)]
  rfl

theorem marks_none (buf : Nat → Raw) (size lo : Nat) (es : List Entry) :
    Marks buf size lo (es.flatMap fun _ => []) := by
  have hnil : (es.flatMap fun _ => []) = ([] : List (Option Raw)) := flatMap_eq_nil_iff.mpr fun _ _ => rfl
  rw [hnil]
  exact fun p x _ hx => (nomatch hx)

theorem XdpRing.close (h : XdpRing j r read) (hj : 5 ≤ j) (hj' : j < 32) (hroom : span r.log + 32 < read + 2 ^ j) :
    XdpRing j (closeBlock j r) read := by
  have hc := h.core
  have hn : dBlockCpl r.wrP = 32 - span r.log % 32 := by rw [hc.wr, dBlockCpl_ofNat]
  have hplaced : (Entry.closed (dBlockCpl r.wrP)).Placed (span r.log) := hn
  have hsize := size_closed (dBlockCpl r.wrP)
  have hcore : Core j (fun _ => []) (closeBlock j r) read := by
    refine hc.append hj hj' hplaced (by omega) (by rw [hsize]; rfl) rfl rfl rfl ?_
    rw [append_nil]
    exact hc.bufs
  have hx : ∀ e ∈ r.log ++ [Entry.closed (dBlockCpl r.wrP)], e.Xdp := by
    intro e he
    rcases mem_append.mp he with he | he
    · exact h.xdp e he
    · exact mem_singleton.mp he ▸ trivial
  have hsame (p : Nat) : rawAt (r.log ++ [Entry.closed (dBlockCpl r.wrP)]) p = rawAt r.log p := by
    rw [rawAt_snoc hx hcore.placed, Entry.raws_getD]
    split
    · rfl
    · next hge => exact (rawAt_beyond h.xdp hc.placed (not_lt.mp hge)).symm
  refine ⟨hcore, hx, fun p hp hp' => ?_, fun d => ?_⟩
  · exact (h.slots.bufs p hp hp').trans (hsame p).symm
  · exact hsame read ▸ h.slots.aligned d

theorem XdpRing.put (h : XdpRing j r read) (hj : 5 ≤ j) (hj' : j < 32) (htwo : 2 ≤ descs.length)
    (hblock : InBlock (span r.log) descs.length) (hroom : span r.log + descs.length < read + 2 ^ j)
    (frag dmaAddr pktLen : Nat) :
    XdpRing j (commit (put j r descs [.sop frag, .dma dmaAddr]) (.xdp frag dmaAddr pktLen descs)) read := by
  have hc := h.core
  have hplaced : (Entry.xdp frag dmaAddr pktLen descs).Placed (span r.log) := ⟨htwo, hblock⟩
  have hcore : Core j (fun _ => []) (commit (Nfdk.put j r descs [.sop frag, .dma dmaAddr])
      (.xdp frag dmaAddr pktLen descs)) read := by
    refine hc.append hj hj' hplaced hroom rfl rfl rfl rfl ?_
    rw [append_nil]
    exact marks_none _ _ _ _
  have hx : ∀ e ∈ r.log ++ [Entry.xdp frag dmaAddr pktLen descs], e.Xdp := by
    intro e he
    rcases mem_append.mp he with he | he
    · exact h.xdp e he
    · exact mem_singleton.mp he ▸ trivial
  have hraw (p : Nat) := rawAt_snoc (p := p) hx hcore.placed
  have hfits := inBlock_fits hj (by omega) hblock
  have hle := hc.le
  have hnext : (span r.log + 1) % 2 ^ j = span r.log % 2 ^ j + 1 := mod_add_of_fits (by omega)
  refine ⟨hcore, hx, fun p hp hp' => ?_, fun d hd => ?_⟩
  · have hbuf : (commit (Nfdk.put j r descs [.sop frag, .dma dmaAddr]) (.xdp frag dmaAddr pktLen descs)).ktxbufs =
        update (update r.ktxbufs (span r.log % 2 ^ j) (.sop frag)) ((span r.log + 1) % 2 ^ j)
          (.dma dmaAddr) := by
      rw [hnext, ← hc.idx_wr hj']
      rfl
    have hne (q : Nat) (hq : span r.log ≤ q) (hq' : q < span r.log + 2) (hpq : p ≠ q) : p % 2 ^ j ≠ q % 2 ^ j := by
      rcases Nat.lt_or_gt_of_ne hpq with hlt | hgt
      · exact mod_ne hlt (by omega)
      · exact (mod_ne hgt (by omega)).symm
    refine (congrFun hbuf _).trans (Eq.trans ?_ (hraw p).symm)
    by_cases hnext : p = span r.log + 1
    · rw [hnext, update_self, if_neg (by omega), Nat.add_sub_cancel_left]
      exact (Entry.raws_getD (.xdp frag dmaAddr pktLen descs) 1).symm
    rw [update_of_ne (hne _ (by omega) (by omega) hnext)]
    by_cases hfirst : p = span r.log
    · rw [hfirst, update_self, if_neg (by omega), Nat.sub_self]
      exact (Entry.raws_getD (.xdp frag dmaAddr pktLen descs) 0).symm
    rw [update_of_ne (hne _ (by omega) (by omega) hfirst), h.slots.bufs p hp hp']
    split
    · rfl
    · obtain ⟨i, rfl⟩ := Nat.exists_eq_add_of_le (show span r.log + 2 ≤ p by omega)
      rw [rawAt_beyond h.xdp hc.placed (by omega), add_assoc, Nat.add_sub_cancel_left, add_comm 2]
      exact (Entry.raws_getD (.xdp frag dmaAddr pktLen descs) (i + 2)).symm
  · have hd' := (hraw read).symm.trans hd
    split at hd'
    · exact h.slots.aligned d hd'
    · rw [show read - span r.log = 0 by omega, Entry.raws_getD] at hd'
      cases hd'

end Place

section Complete

variable {j read : Nat} {r : Ring}

theorem bufsIn_add (es : List Entry) (p m n : Nat) : bufsIn es p (m + n) = bufsIn es p m ++ bufsIn es (p + m) n := by
  rw [bufsIn, ← range'_append_1, flatMap_append]
  rfl

theorem bufsIn_one (es : List Entry) (p : Nat) : bufsIn es p 1 = bufAt es p := List.append_nil _

theorem bufsIn_null (h : rawAt es p = .null) : bufsIn es p 1 = [] := by
  rw [bufsIn_one, bufAt, h]

theorem bufsIn_pair (hsop : rawAt es p = .sop frag) (hdma : rawAt es (p + 1) = .dma dmaAddr) :
    bufsIn es p 2 = [(frag, dmaAddr)] := by
  rw [bufsIn_add es p 1 1, bufsIn_one, bufsIn_one, bufAt, bufAt, hsop, hdma]
  rfl

theorem bufsIn_beyond (hx : ∀ e ∈ es, e.Xdp) (hplaced : Placed 0 es) (h : span es ≤ p) : bufsIn es p n = [] := by
  refine flatMap_eq_nil_iff.mpr fun q hq => ?_
  rw [bufAt, rawAt_beyond hx hplaced (le_trans h (mem_range'_1.mp hq).1)]

section Slotted

variable {es : List Entry} {ktxbufs : Nat → Raw} {p : Nat}

theorem Slotted.skip (h : Slotted j ktxbufs es p) (hx : ∀ e ∈ es, e.Xdp) (hplaced : Placed 0 es)
    (hroom : span es ≤ p + 2 ^ j)
    (hnull : rawAt es p = .null) : Slotted j ktxbufs es (p + 1) := by
  refine ⟨fun q hq hq' => ?_, fun d hd => ?_⟩
  · rcases lt_or_ge q (p + 2 ^ j) with hlt | hge
    · exact h.bufs q (le_of_succ_le hq) hlt
    · obtain rfl : q = p + 2 ^ j := by omega
      rw [add_mod_right, h.bufs p (Nat.le_refl p) (Nat.lt_add_of_pos_right (Nat.two_pow_pos j)), hnull,
        rawAt_beyond hx hplaced hroom]
  · obtain ⟨q, frag, hq, hsop⟩ := dma_at hx hplaced hd
    obtain rfl := succ.inj hq
    rw [hnull] at hsop
    cases hsop

theorem Slotted.reclaim (h : Slotted j ktxbufs es p) (hj : 5 ≤ j) (hx : ∀ e ∈ es, e.Xdp) (hplaced : Placed 0 es)
    (hroom : span es ≤ p + 2 ^ j) (hsop : rawAt es p = .sop frag) :
    ktxbufs (p % 2 ^ j + 1) = rawAt es (p + 1) ∧ Slotted j (write ktxbufs (p % 2 ^ j) [.null, .null]) es (p + 2) := by
  obtain ⟨-, hblock, d, hdma⟩ := sop_at hx hplaced hsop
  have hmod := mod_blocks hj p
  obtain ⟨m, hm⟩ := pow_eq_blocks hj
  have hnext : (p + 1) % 2 ^ j = p % 2 ^ j + 1 := mod_add_of_fits (by omega)
  refine ⟨?_, fun q hq hq' => ?_, fun d' hd => ?_⟩
  · rw [← hnext]
    exact h.bufs (p + 1) (by omega) (by omega)
  · have hwrite : write ktxbufs (p % 2 ^ j) [.null, .null] =
        update (update ktxbufs (p % 2 ^ j) .null) ((p + 1) % 2 ^ j) .null := by
      rw [hnext]
      rfl
    rw [hwrite]
    rcases lt_or_ge q (p + 2 ^ j) with hin | hout
    · rw [update_of_ne (mod_ne (by omega) (by omega)).symm, update_of_ne (mod_ne (by omega) (by omega)).symm]
      exact h.bufs q (by omega) hin
    rw [rawAt_beyond hx hplaced (le_trans hroom hout)]
    rcases Nat.eq_or_lt_of_le hout with heq | hgt
    · have hq0 : q % 2 ^ j = p % 2 ^ j := by rw [← heq, add_mod_right]
      rw [hq0, update_of_ne (mod_ne (lt_succ_self p) (by omega)), update_self]
    · have hq1 : q % 2 ^ j = (p + 1) % 2 ^ j := by
        rw [show q = p + 1 + 2 ^ j by omega, add_mod_right]
      rw [hq1, update_self]
  · obtain ⟨q, frag', hq, hsop'⟩ := dma_at hx hplaced hd
    obtain rfl : q = p + 1 := by omega
    rw [hdma] at hsop'
    cases hsop'

end Slotted

structure Reclaims (j : Nat) (es : List Entry) (read p bound : Nat) (c c' : Recycle) : Prop where
  le : p ≤ read + c'.done
  bound : read + c'.done ≤ bound
  slots : Slotted j c'.ktxbufs es (read + c'.done)
  given : c'.given = c.given ++ bufsIn es p (read + c'.done - p)

theorem placed_take {pos : Nat} (h : Placed pos es) (n : Nat) : Placed pos (es.take n) := by
  rw [← take_append_drop n es] at h
  exact (placed_append.mp h).1

theorem Reclaims.refl (hslots : Slotted j c.ktxbufs es (read + c.done)) (h : read + c.done ≤ bound) :
    Reclaims j es read (read + c.done) bound c c :=
  ⟨le_rfl, h, hslots, by rw [Nat.sub_self]; exact (List.append_nil _).symm⟩

theorem Reclaims.after {c₁ c' : Recycle} (h : Reclaims j es read (p + n) bound c₁ c')
    (hgiven : c₁.given = c.given ++ bufsIn es p n) : Reclaims j es read p bound c c' := by
  have hle := h.le
  refine ⟨by omega, h.bound, h.slots, ?_⟩
  rw [h.given, hgiven, append_assoc, ← bufsIn_add]
  exact congrArg (fun m => c.given ++ bufsIn es p m) (by omega)

theorem xdpCompleteLoop_spec (hj : 5 ≤ j) (hj' : j < 32) (hx : ∀ e ∈ es, e.Xdp) (hplaced : Placed 0 es) (dev : Nat)
    (hroom : span es < read + 2 ^ j) {fuel todo : Nat} (hfuel : todo ≤ fuel)
    (hslots : Slotted j c.ktxbufs es (read + c.done)) (htodo : read + c.done + todo ≤ span (es.take dev)) :
    Reclaims j es read (read + c.done) (span (es.take dev)) c
      (xdpCompleteLoop j (BitVec.ofNat 32 read) fuel todo c) := by
  induction fuel generalizing todo c with
  | zero => exact Reclaims.refl hslots (by omega)
  | succ fuel ih =>
    rw [xdpCompleteLoop]
    by_cases hzero : todo = 0
    · rw [if_pos hzero]
      exact Reclaims.refl hslots (by omega)
    rw [if_neg hzero]
    have hidx : idx j (BitVec.ofNat 32 read + BitVec.ofNat 32 c.done) = (read + c.done) % 2 ^ j := by
      rw [← BitVec.ofNat_add, idx_ofNat (le_of_lt hj')]
    have hraw := hslots.bufs (read + c.done) le_rfl (Nat.lt_add_of_pos_right (Nat.two_pow_pos j))
    simp only [hidx, hraw]
    rcases rawAt_cases hx hplaced (read + c.done) with hnull | ⟨as, bs, f, d, len, descs, -, ⟨-, hsop⟩ | ⟨-, hdma⟩⟩
    · rw [hnull]
      have hskip := hslots.skip hx hplaced (by omega) hnull
      have hrest := ih (c := { c with done := c.done + 1 }) (show todo - 1 ≤ fuel by omega) hskip (by simp only; omega)
      refine Reclaims.after (p := read + c.done) (n := 1) hrest ?_
      rw [bufsIn_null hnull, append_nil]
    · rw [hsop]
      obtain ⟨hsecond, hreclaim⟩ := hslots.reclaim hj hx hplaced (by omega) hsop
      -- the pair lies within what the device has completed, as it completes whole packets
      have hwhole : read + c.done + 2 ≤ span (es.take dev) := by
        have htake := rawAt_append (p := read + c.done) (es.drop dev)
          (fun e he => hx e (mem_of_mem_take he)) (placed_take hplaced dev) (by omega)
        rw [take_append_drop] at htake
        exact (sop_at (fun e he => hx e (mem_of_mem_take he)) (placed_take hplaced dev) (htake.symm.trans hsop)).1
      obtain ⟨-, -, d', hdma⟩ := sop_at hx hplaced hsop
      rw [hsecond, hdma]
      have hrest := ih (c := ⟨c.done + 2, write c.ktxbufs ((read + c.done) % 2 ^ j) [.null, .null],
          c.given ++ [(f, d')]⟩)
        (show todo - 2 ≤ fuel by omega) hreclaim (by simp only; omega)
      refine Reclaims.after (p := read + c.done) (n := 2) hrest ?_
      rw [bufsIn_pair hsop hdma]
    · exact absurd hdma (hslots.aligned d)

structure XdpDev (j : Nat) (r : Ring) (read dev : Nat) : Prop where
  ring : XdpRing j r read
  reported : dev ≤ r.log.length
  reclaimed : read ≤ span (r.log.take dev)
  qcp : r.qcpRdP = BitVec.ofNat 32 (read % 2 ^ j)

def xdpCmpl (j : Nat) (r : Ring) (dev : Nat) : Ptr := BitVec.ofNat 32 (span (r.log.take dev) % 2 ^ j)

theorem span_take_le (es : List Entry) (n : Nat) : span (es.take n) ≤ span es := by
  have h := span_append (es.take n) (es.drop n)
  rw [take_append_drop] at h
  omega

theorem nfpNfdkXdpComplete_spec (hj : 5 ≤ j) (hj' : j < 32) (h : XdpDev j r read dev) {c : Ring × List Buf × Bool}
    (hc : nfpNfdkXdpComplete j r (xdpCmpl j r dev) = c) :
    ∃ read', read ≤ read' ∧ c.1.rdP = r.rdP + BitVec.ofNat 32 (read' - read) ∧ XdpDev j c.1 read' dev ∧
      c.1.log = r.log ∧
      c.1.dataPending = r.dataPending ∧ c.1.wrP = r.wrP ∧ c.2.1 = bufsIn r.log read (read' - read) := by
  subst hc
  unfold nfpNfdkXdpComplete
  split
  · refine ⟨read, le_rfl, ?_, h, rfl, rfl, rfl, ?_⟩
    · rw [Nat.sub_self]
      exact (add_zero _).symm
    · rw [Nat.sub_self]
      rfl
  have hcore := h.ring.core
  have hroom := hcore.room
  have hread := h.reclaimed
  have hle := span_take_le r.log dev
  have htodo : idx j (xdpCmpl j r dev - r.qcpRdP) = span (r.log.take dev) - read := by
    rw [h.qcp, xdpCmpl, idx_sub_mod (le_of_lt hj'), sub_ofNat hread, idx_ofNat (le_of_lt hj'),
      mod_eq_of_lt (by omega)]
  have hspec := xdpCompleteLoop_spec (c := ⟨0, r.ktxbufs, []⟩) hj hj' h.ring.xdp hcore.placed dev hroom
    (Nat.le_refl (min (span (r.log.take dev) - read) 2048)) h.ring.slots (by simp only; omega)
  rw [← hcore.rd] at hspec
  obtain ⟨c, hloop⟩ : ∃ c, xdpCompleteLoop j r.rdP (min (span (r.log.take dev) - read) 2048)
    (min (span (r.log.take dev) - read) 2048) ⟨0, r.ktxbufs, []⟩ = c := ⟨_, rfl⟩
  rw [hloop] at hspec
  simp only [htodo, hloop]
  have hbound := hspec.bound
  have hlt : span r.log < read + c.done + 2 ^ j := by omega
  refine ⟨read + c.done, Nat.le_add_right _ _, by rw [Nat.add_sub_cancel_left],
    ⟨⟨⟨hcore.wr, ?_, le_trans hbound hle, hlt, ?_, ?_, hcore.placed⟩,
    h.ring.xdp, hspec.slots⟩, h.reported, hbound, ?_⟩, trivial, trivial, trivial, ?_⟩
  · simp only [hcore.rd, BitVec.ofNat_add]
  · exact hcore.descs.mono (Nat.le_add_right _ _)
  · exact marks_none _ _ _ _
  · simp only
    rw [h.qcp, ← BitVec.ofNat_add, idx_ofNat (le_of_lt hj'), mod_add_mod]
  · have hgiven := hspec.given
    rw [nil_append, add_zero] at hgiven
    exact hgiven

end Complete

section Send

variable {j read : Nat} {r : Ring}

theorem xdpDescs_length (dmaAddr pktLen : Nat) : (xdpDescs dmaAddr pktLen).length =
    2 + (u32 (pktLen + 2 ^ 32 - 1) - min (u32 (pktLen + 2 ^ 32 - 1)) 0xfff + 16383) / 16384 := by
  rw [xdpDescs, length_append, setEop_length, headDescs, length_cons, dataDescs_length _ _ le_rfl,
    length_singleton]
  omega

theorem xdpDescs_length_eq (dmaAddr : Nat) (hpos : 1 ≤ pktLen) (hlen : pktLen ≤ 65536) :
    (xdpDescs dmaAddr pktLen).length = 1 + nfpNfdkHeadlenToSegs pktLen := by
  rw [xdpDescs, length_append, setEop_length, headDescs_length _ _ hpos (by omega), add_comm]
  rfl

theorem xdpDescs_length_zero (dmaAddr : Nat) : (xdpDescs dmaAddr 0).length = 262146 := by
  rw [xdpDescs_length]
  rfl

def xdpTarget (j : Nat) (r : Ring) (pktLen : Nat) : Ring :=
  if mustClose r (nfpNfdkHeadlenToSegs pktLen) pktLen then closeBlock j r else r

theorem xdpPlace_eq (r : Ring) (rxbuf : Buf) (dmaOff pktLen : Nat)
    (hdescs : xdpDescs (rxbuf.2 + dmaOff) pktLen = descs) :
    xdpPlace j r rxbuf dmaOff pktLen =
      commit (put j (xdpTarget j r pktLen) descs [.sop rxbuf.1, .dma rxbuf.2]) (.xdp rxbuf.1 rxbuf.2 pktLen descs) := by
  simp only [xdpPlace, hdescs]
  rfl

theorem xdpTarget_log (j : Nat) (r : Ring) (pktLen : Nat) :
    (xdpTarget j r pktLen).log = r.log ∨ ∃ n, (xdpTarget j r pktLen).log = r.log ++ [.closed n] := by
  rw [xdpTarget]
  split
  · exact .inr ⟨_, rfl⟩
  · exact .inl rfl

theorem XdpRing.target (h : XdpRing j r read) (hj : 5 ≤ j) (hj' : j < 32) (hroom : span r.log + 64 < read + 2 ^ j)
    (pktLen : Nat) : XdpRing j (xdpTarget j r pktLen) read ∧ span (xdpTarget j r pktLen).log ≤ span r.log + 32 := by
  rw [xdpTarget]
  split
  · refine ⟨h.close hj hj' (by omega), ?_⟩
    have hn : dBlockCpl r.wrP = 32 - span r.log % 32 := by rw [h.core.wr, dBlockCpl_ofNat]
    simp only [closeBlock]
    rw [span_append, span_singleton, size_closed]
    omega
  · exact ⟨h, Nat.le_add_right _ _⟩

theorem XdpRing.fits (h : XdpRing j r read) (hlen : pktLen ≤ 65536) :
    InBlock (span (xdpTarget j r pktLen).log) (1 + nfpNfdkHeadlenToSegs pktLen) := by
  have hsegs : nfpNfdkHeadlenToSegs pktLen ≤ 5 := by
    rw [headlenToSegs_eq (by omega)]
    omega
  rw [xdpTarget]
  split
  · have hn : dBlockCpl r.wrP = 32 - span r.log % 32 := by rw [h.core.wr, dBlockCpl_ofNat]
    simp only [closeBlock]
    rw [span_append, span_singleton, size_closed, hn, InBlock]
    omega
  · next hopen =>
    have hcross : ¬crossesBlock r.wrP (nfpNfdkHeadlenToSegs pktLen) = true :=
      fun hx => hopen (by rw [mustClose, hx, Bool.true_or])
    rw [h.core.wr, crossesBlock_ofNat (by omega), not_not] at hcross
    rw [InBlock, hcross]
    exact congrArg (· / 32) (by omega)

theorem XdpRing.placed (h : XdpRing j r read) (hj : 6 ≤ j) (hj' : j < 32) (hroom : span r.log + 64 < read + 2 ^ j)
    (rxbuf : Buf) (dmaOff : Nat) (hpos : 1 ≤ pktLen) (hlen : pktLen ≤ 65536) :
    XdpRing j (xdpPlace j r rxbuf dmaOff pktLen) read := by
  obtain ⟨descs, hdescs⟩ := @exists_eq' _ (xdpDescs (rxbuf.2 + dmaOff) pktLen)
  have hcount := xdpDescs_length_eq (rxbuf.2 + dmaOff) hpos hlen
  rw [hdescs] at hcount
  have hsegs : 1 ≤ nfpNfdkHeadlenToSegs pktLen ∧ nfpNfdkHeadlenToSegs pktLen ≤ 5 := by
    rw [headlenToSegs_eq (by omega)]
    omega
  obtain ⟨ht, hspan⟩ := h.target (le_of_succ_le hj) hj' hroom pktLen
  have hfits := h.fits hlen
  rw [← hcount] at hfits
  rw [xdpPlace_eq r rxbuf dmaOff pktLen hdescs]
  exact ht.put (le_of_succ_le hj) hj' (by omega) hfits (by omega) rxbuf.1 rxbuf.2 pktLen

theorem xdpPlace_log (r : Ring) (rxbuf : Buf) (dmaOff pktLen : Nat) :
    ∃ es descs, (xdpPlace j r rxbuf dmaOff pktLen).log = r.log ++ es ++ [.xdp rxbuf.1 rxbuf.2 pktLen descs] ∧
      descs = xdpDescs (rxbuf.2 + dmaOff) pktLen := by
  have htarget : ∃ es, (xdpTarget j r pktLen).log = r.log ++ es := by
    rcases xdpTarget_log j r pktLen with hsame | ⟨n, hclosed⟩
    · exact ⟨[], hsame.trans (append_nil _).symm⟩
    · exact ⟨[.closed n], hclosed⟩
  obtain ⟨es, hes⟩ := htarget
  obtain ⟨descs, hdescs⟩ := @exists_eq' _ (xdpDescs (rxbuf.2 + dmaOff) pktLen)
  refine ⟨es, descs, ?_, hdescs.symm⟩
  rw [xdpPlace_eq r rxbuf dmaOff pktLen hdescs, ← hes]
  rfl

theorem xdpPlace_ptrs (r : Ring) (rxbuf : Buf) (dmaOff pktLen : Nat) :
    (xdpPlace j r rxbuf dmaOff pktLen).rdP = r.rdP ∧ (xdpPlace j r rxbuf dmaOff pktLen).qcpRdP = r.qcpRdP := by
  have htarget : (xdpTarget j r pktLen).rdP = r.rdP ∧ (xdpTarget j r pktLen).qcpRdP = r.qcpRdP := by
    rw [xdpTarget]
    split
    · exact ⟨rfl, rfl⟩
    · exact ⟨rfl, rfl⟩
  obtain ⟨descs, hdescs⟩ := @exists_eq' _ (xdpDescs (rxbuf.2 + dmaOff) pktLen)
  rw [xdpPlace_eq r rxbuf dmaOff pktLen hdescs]
  exact htarget

theorem XdpDev.place (h : XdpDev j r read dev) {r' : Ring} (hring : XdpRing j r' read) (hlog : r'.log = r.log ++ es)
    (hqcp : r'.qcpRdP = r.qcpRdP) : XdpDev j r' read dev := by
  have hrep := h.reported
  refine ⟨hring, ?_, ?_, by rw [hqcp, h.qcp]⟩
  · rw [hlog, length_append]
    omega
  · rw [hlog, take_append_of_le_length hrep]
    exact h.reclaimed

theorem XdpDev.advance (h : XdpDev j r read dev) (hle : dev + n ≤ r.log.length) : XdpDev j r read (dev + n) := by
  have hsplit := congrArg span (take_add (l := r.log) (i := dev) (j := n))
  rw [span_append] at hsplit
  have hreclaimed := h.reclaimed
  exact ⟨h.ring, hle, by omega, h.qcp⟩

theorem XdpDev.start (ktxds : Nat → Desc) : XdpDev j (.start ktxds fun _ => .null) 0 0 := by
  refine ⟨⟨⟨rfl, rfl, le_rfl, Nat.lt_add_of_pos_right (Nat.two_pow_pos j), ?_, ?_, trivial⟩, ?_, ?_, ?_⟩, le_rfl,
    le_rfl, ?_⟩
  · exact fun p x _ hx => (nomatch hx)
  · exact fun p x _ hx => (nomatch hx)
  · exact fun e he => (not_mem_nil he).elim
  · exact fun p _ _ => rfl
  · exact fun d hd => (nomatch hd)
  · exact congrArg (BitVec.ofNat 32) (zero_mod _).symm

structure Roomed (j k : Nat) (tx : Ring) (rx : Rx.Ring) (read read' dev : Nat) (room : Ring × Rx.Ring × Bool) :
    Prop where
  le : read ≤ read'
  rd : room.1.rdP = tx.rdP + BitVec.ofNat 32 (read' - read)
  dev : XdpDev j room.1 read' dev
  log : room.1.log = tx.log
  data : room.1.dataPending = tx.dataPending
  wr : room.1.wrP = tx.wrP
  rx : room.2.1 = giveAll k rx (bufsIn tx.log read (read' - read))

theorem Roomed.refl {k : Nat} (h : XdpDev j r read dev) (rx : Rx.Ring) (completed : Bool) :
    Roomed j k r rx read read dev (r, rx, completed) := by
  refine ⟨le_rfl, ?_, h, rfl, rfl, rfl, ?_⟩
  · rw [Nat.sub_self]
    exact (add_zero _).symm
  · rw [Nat.sub_self]
    rfl

theorem xdpMakeRoom_spec (hj : 5 ≤ j) (hj' : j < 32) (h : XdpDev j r read dev) (k : Nat) (rx : Rx.Ring)
    (completed : Bool) :
    ∃ read', Roomed j k r rx read read' dev (xdpMakeRoom j k r rx completed (xdpCmpl j r dev)) := by
  rw [xdpMakeRoom]
  split
  · obtain ⟨c, hc⟩ := @exists_eq' _ (nfpNfdkXdpComplete j r (xdpCmpl j r dev))
    obtain ⟨read', hle, hrd, hdev, hlog, hdata, hwr, hgiven⟩ := nfpNfdkXdpComplete_spec hj hj' h hc
    rw [hc]
    exact ⟨read', hle, hrd, hdev, hlog, hdata, hwr, congrArg (giveAll k rx) hgiven⟩
  · exact ⟨read, Roomed.refl h rx completed⟩

end Send

end NfpDriver.Nfdk
