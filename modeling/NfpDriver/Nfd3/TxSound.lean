import NfpDriver.Nfd3.Tx

namespace NfpDriver.Nfd3

open Runs Slots Function BitVec List

variable {addrs : List Nat} {i done n head : Nat} {sent : List Packet} {d : Done} {e h : Entry} {skb : Skb}
  {log : List Entry} {g r : Gather} {u : Unwind} {dmas : List (Option Nat)} {st' : St}

section Entries

variable {skb : Skb} {p : Packet} {e : Entry}

theorem fragEntries_length (skb : Skb) (f : Nat) (addrs : List Nat) :
    (fragEntries skb f addrs).length = addrs.length := by
  induction addrs generalizing f with
  | nil => rfl
  | cons a addrs ih => exact congrArg (· + 1) (ih (f + 1))

theorem fragEntries_append (skb : Skb) (f : Nat) (as bs : List Nat) :
    fragEntries skb f (as ++ bs) = fragEntries skb f as ++ fragEntries skb (f + as.length) bs := by
  induction as generalizing f with
  | nil => rfl
  | cons a as ih =>
    rw [List.cons_append, fragEntries, ih, fragEntries, List.length_cons, add_right_comm, add_assoc, List.cons_append]

theorem fragEntries_get {f : Nat} (h : (fragEntries skb f addrs)[i]? = some e) :
    e.skb = some skb ∧ e.fidx = ((f + i : Nat) : Int) := by
  induction addrs generalizing f i with
  | nil => cases h
  | cons a addrs ih =>
    cases i with
    | zero =>
      cases h
      exact ⟨rfl, rfl⟩
    | succ i =>
      obtain ⟨hskb, hf⟩ := ih (f := f + 1) (i := i) h
      exact ⟨hskb, by rw [hf]; omega⟩

theorem entries_get (h : p.entries[i]? = some e) : e.skb = some p.skb ∧ e.fidx = (i : Int) - 1 := by
  cases i with
  | zero =>
    cases h
    exact ⟨rfl, rfl⟩
  | succ i =>
    obtain ⟨hskb, hf⟩ := fragEntries_get (f := 0) (i := i) h
    exact ⟨hskb, by rw [hf]; omega⟩

theorem entries_length (p : Packet) : p.entries.length = p.frags.length + 1 :=
  congrArg (· + 1) (fragEntries_length p.skb 0 p.frags)

theorem finished_zero (sent : List Packet) : finished 0 sent = [] := by
  cases sent with
  | nil => rfl
  | cons p rest =>
    rw [finished, if_neg]
    rw [entries_length]
    omega

theorem finished_succ (hwf : ∀ p ∈ sent, p.frags.length = p.skb.frags.length)
    (h : (sent.flatMap Packet.entries)[done]? = some e) :
    ∃ skb, e.skb = some skb ∧
      finished (done + 1) sent = finished done sent ++ if e.fidx = (skb.frags.length : Int) - 1 then [skb] else [] := by
  induction sent generalizing done with
  | nil => cases h
  | cons p rest ih =>
    have hp := hwf p mem_cons_self
    have hlen := entries_length p
    rw [flatMap_cons] at h
    rcases lt_or_ge done p.entries.length with hlt | hge
    · rw [List.getElem?_append_left hlt] at h
      obtain ⟨hskb, hf⟩ := entries_get h
      refine ⟨p.skb, hskb, ?_⟩
      rw [finished, finished, if_neg (not_le.mpr hlt), nil_append]
      by_cases hlast : done + 1 = p.entries.length
      · rw [if_pos (le_of_eq hlast.symm), hlast, Nat.sub_self, finished_zero, if_pos (by omega)]
      · rw [if_neg (by omega), if_neg (by omega)]
    · rw [List.getElem?_append_right hge] at h
      obtain ⟨skb, hskb, hfin⟩ := ih (fun q hq => hwf q (mem_cons_of_mem p hq)) h
      refine ⟨skb, hskb, ?_⟩
      rw [finished, finished, if_pos (Nat.le_succ_of_le hge), if_pos hge, Nat.succ_sub hge, hfin, List.cons_append]

theorem finished_append (h : done ≤ (sent.flatMap Packet.entries).length) (p : Packet) :
    finished done (sent ++ [p]) = finished done sent := by
  induction sent generalizing done with
  | nil =>
    obtain rfl : done = 0 := Nat.le_zero.mp h
    exact finished_zero [p]
  | cons q rest ih =>
    rw [flatMap_cons, length_append] at h
    rw [List.cons_append, finished, finished]
    split
    · rw [ih (by omega)]
    · rfl

end Entries

def views (txbufs : Nat → TxBuf) (i : Nat) : Entry := (txbufs i).view

theorem views_update (txbufs : Nat → TxBuf) (i : Nat) (b : TxBuf) :
    views (update txbufs i b) = update (views txbufs) i b.view :=
  (comp_update TxBuf.view txbufs i b)

structure Core (k : Nat) (st : St) (pkts bytes : BitVec 32) : Prop where
  wr : st.wrP = BitVec.ofNat 32 st.log.length
  rd : st.rdP = BitVec.ofNat 32 st.done
  le : st.done ≤ st.log.length
  room : st.log.length < st.done + 2 ^ k
  window : Window (views st.txbufs) (2 ^ k) st.done st.log
  wf : ∀ p ∈ st.sent, p.frags.length = p.skb.frags.length
  unmapped : (st.unmaps ++ (st.log.drop st.done).map Entry.mapping).Perm st.maps
  consumed : st.consumed = finished st.done st.sent
  bytes : st.completedBytes + bytes + ((st.log.drop st.done).map (·.realLen)).sum = st.sentBytes
  pkts : st.completedPkts + pkts + ((st.log.drop st.done).map (·.pktCnt)).sum = st.sentPkts

structure Kept (st st' : St) : Prop where
  log : st'.log = st.log
  sent : st'.sent = st.sent
  qcpRdP : st'.qcpRdP = st.qcpRdP
  wrPtrAdd : st'.wrPtrAdd = st.wrPtrAdd
  qcpWr : st'.qcpWr = st.qcpWr
  qcpRd : st'.qcpRd = st.qcpRd
  devDone : st'.devDone = st.devDone

section Complete

variable {k : Nat}

theorem completeOne_eq (hview : (d.st.txbufs (idx k d.st.rdP)).view = e) (hskb : e.skb = some skb) :
    completeOne k d =
      { st := { d.st with
          rdP := d.st.rdP + 1
          done := d.st.done + 1
          txbufs := update d.st.txbufs (idx k d.st.rdP) (clearBuf (d.st.txbufs (idx k d.st.rdP)))
          unmaps := d.st.unmaps ++ [e.mapping]
          consumed := d.st.consumed ++ if e.fidx = (skb.frags.length : Int) - 1 then [skb] else [] }
        pkts := d.pkts + e.pktCnt
        bytes := d.bytes + e.realLen } := by
  subst hview
  obtain ⟨b, hb⟩ := @exists_eq' _ (d.st.txbufs (idx k d.st.rdP))
  rw [hb] at hskb
  have hs : b.skb = some skb := hskb
  simp only [completeOne, hb, hs, Entry.mapping, TxBuf.view]
  by_cases hf : b.fidx = -1
  · simp only [if_pos hf]
  · simp only [if_neg hf, add_zero]

theorem drop_eq_cons (h : log[n]? = some e) : log.drop n = e :: log.drop (n + 1) := by
  obtain ⟨hlt, rfl⟩ := List.getElem?_eq_some_iff.mp h
  exact List.drop_eq_getElem_cons hlt

theorem completeOne_core (hk : k ≤ 32) (h : Core k d.st d.pkts d.bytes) (hlt : d.st.done < d.st.log.length) :
    Core k (completeOne k d).st (completeOne k d).pkts (completeOne k d).bytes ∧ Kept d.st (completeOne k d).st ∧
      (completeOne k d).st.done = d.st.done + 1 := by
  obtain ⟨e, he⟩ : ∃ e, d.st.log[d.st.done]? = some e := ⟨_, List.getElem?_eq_getElem hlt⟩
  have hidx : idx k d.st.rdP = d.st.done % 2 ^ k := by rw [h.rd, idx_ofNat hk]
  have hview : (d.st.txbufs (idx k d.st.rdP)).view = e := by
    rw [hidx]
    exact h.window d.st.done e le_rfl he
  obtain ⟨skb, hskb, hfin⟩ := finished_succ h.wf he
  have hdrop := drop_eq_cons he
  have hun := h.unmapped
  have hbytes := h.bytes
  have hpkts := h.pkts
  rw [hdrop, map_cons] at hun hbytes hpkts
  rw [sum_cons, ← BitVec.add_assoc, BitVec.add_assoc d.st.completedBytes] at hbytes
  rw [sum_cons, ← BitVec.add_assoc, BitVec.add_assoc d.st.completedPkts] at hpkts
  rw [completeOne_eq hview hskb]
  refine ⟨⟨h.wr, ?_, hlt, ?_, ?_, h.wf, ?_, ?_, hbytes, hpkts⟩, ⟨rfl, rfl, rfl, rfl, rfl, rfl, rfl⟩, rfl⟩
  · rw [h.rd]
    exact (ofNat_add d.st.done 1).symm
  · exact lt_of_lt_of_le h.room (Nat.add_le_add_right (Nat.le_succ d.st.done) _)
  · rw [hidx, views_update]
    exact (h.window.mono (Nat.le_succ _)).behind (Nat.lt_succ_self _) (le_of_lt h.room) _
  · rw [List.append_assoc]
    exact hun
  · rw [h.consumed]
    exact hfin.symm

theorem completeLoop_core (hk : k ≤ 32) (todo : Nat) (h : Core k d.st d.pkts d.bytes)
    (hle : d.st.done + todo ≤ d.st.log.length) {r : Done} (hr : completeLoop k todo d = r) :
    Core k r.st r.pkts r.bytes ∧ Kept d.st r.st ∧ r.st.done = d.st.done + todo := by
  induction todo generalizing d with
  | zero =>
    obtain rfl := hr
    exact ⟨h, ⟨rfl, rfl, rfl, rfl, rfl, rfl, rfl⟩, rfl⟩
  | succ todo ih =>
    obtain ⟨hcore, hkept, hdone⟩ := completeOne_core hk h (by omega)
    obtain ⟨hcore', hkept', hdone'⟩ := ih hcore (by rw [hdone, hkept.log]; omega) hr
    refine ⟨hcore', ?_, by omega⟩
    exact ⟨hkept'.log.trans hkept.log, hkept'.sent.trans hkept.sent, hkept'.qcpRdP.trans hkept.qcpRdP,
      hkept'.wrPtrAdd.trans hkept.wrPtrAdd, hkept'.qcpWr.trans hkept.qcpWr, hkept'.qcpRd.trans hkept.qcpRd,
      hkept'.devDone.trans hkept.devDone⟩

end Complete

section Gather

variable {k lo : Nat} {skb : Skb}

theorem fragEntries_snoc (skb : Skb) (addrs : List Nat) (a : Nat) :
    fragEntries skb 0 (addrs ++ [a]) = fragEntries skb 0 addrs ++ [⟨some skb, a, addrs.length, 0, 0⟩] := by
  rw [fragEntries_append, zero_add]
  rfl

structure Gathered (k lo : Nat) (skb : Skb) (log : List Entry) (h : Entry) (g : Gather) (addrs : List Nat) : Prop where
  f : g.f = addrs.length
  wrIdx : g.wrIdx = (log.length + addrs.length) % 2 ^ k
  window : Window (views g.txbufs) (2 ^ k) lo (log ++ h :: fragEntries skb 0 addrs)
  mapped : g.mapped = (h :: fragEntries skb 0 addrs).map Entry.mapping

theorem next_mod (n m : Nat) : (n % m + 1) % m = (n + 1) % m := Nat.mod_add_mod n m 1

theorem Gathered.push (hg : Gathered k lo skb log h g addrs) (hfit : log.length + addrs.length + 1 < lo + 2 ^ k)
    {fsize : Nat} (hsize : skb.frags[addrs.length]? = some fsize) (a : Nat) :
    Gathered k lo skb log h
      { txbufs := update g.txbufs ((g.wrIdx + 1) &&& (2 ^ k - 1))
          { g.txbufs ((g.wrIdx + 1) &&& (2 ^ k - 1)) with skb := some skb, dmaAddr := a, fidx := g.f }
        wrIdx := (g.wrIdx + 1) &&& (2 ^ k - 1)
        f := g.f + 1
        mapped := g.mapped ++ [(a, fsize)]
        ok := g.ok } (addrs ++ [a]) := by
  have hlen : (log ++ h :: fragEntries skb 0 addrs).length = log.length + addrs.length + 1 := by
    rw [length_append, List.length_cons, fragEntries_length, add_assoc]
  have hidx : (g.wrIdx + 1) &&& (2 ^ k - 1) = (log ++ h :: fragEntries skb 0 addrs).length % 2 ^ k := by
    rw [Nat.and_two_pow_sub_one_eq_mod, hg.wrIdx, next_mod, hlen]
  have hentries : log ++ h :: fragEntries skb 0 (addrs ++ [a]) =
      (log ++ h :: fragEntries skb 0 addrs) ++ [⟨some skb, a, addrs.length, 0, 0⟩] := by
    rw [fragEntries_snoc, List.append_assoc, List.cons_append]
  refine ⟨?_, ?_, ?_, ?_⟩
  · rw [length_append, hg.f]
    rfl
  · rw [hidx, hlen, length_append]
    rfl
  · have hneg : ((addrs.length : Nat) : Int) ≠ -1 := by omega
    rw [hentries, hidx, views_update, hg.f]
    have hw := hg.window.push (hlen ▸ hfit) ⟨some skb, a, addrs.length, 0, 0⟩
    simpa only [TxBuf.view, if_neg hneg] using hw
  · have hneg : ((addrs.length : Nat) : Int) ≠ -1 := by omega
    rw [fragEntries_snoc, ← List.cons_append, List.map_append, hg.mapped]
    simp [Entry.mapping, Int.toNat_natCast, List.getD_eq_getElem?_getD, hsize]

theorem gather_spec (dmas : List (Option Nat)) (hg : Gathered k lo skb log h g addrs)
    (hlen : addrs.length + dmas.length = skb.frags.length) (hok : g.ok = true)
    (hfit : log.length + skb.frags.length < lo + 2 ^ k)
    (hr : gather k skb g ((skb.frags.drop addrs.length).zip dmas) = r) :
    ∃ addrs', Gathered k lo skb log h r addrs' ∧ addrs'.length ≤ skb.frags.length ∧
      (r.ok = true → addrs' = addrs ++ dmas.map (·.getD 0)) := by
  induction dmas generalizing g addrs with
  | nil =>
    rw [zip_nil_right] at hr
    obtain rfl := hr
    exact ⟨addrs, hg, by omega, fun _ => (append_nil addrs).symm⟩
  | cons dma dmas ih =>
    rw [List.length_cons] at hlen
    have hlt : addrs.length < skb.frags.length := by omega
    rw [List.drop_eq_getElem_cons hlt, zip_cons_cons] at hr
    cases dma with
    | none =>
      obtain rfl := hr
      exact ⟨addrs, { hg with }, by omega, Bool.noConfusion⟩
    | some a =>
      have hpush := hg.push (by omega) (List.getElem?_eq_getElem hlt) a
      have hl : (addrs ++ [a]).length = addrs.length + 1 := length_append
      obtain ⟨addrs', hg', hle', hall⟩ := ih hpush (by omega) hok (by rw [hl]; exact hr)
      refine ⟨addrs', hg', hle', fun h => ?_⟩
      rw [hall h, List.append_assoc]
      rfl

structure Unwinding (k lo : Nat) (skb : Skb) (log : List Entry) (h : Entry) (u : Unwind) (addrs : List Nat) : Prop where
  wrIdx : u.wrIdx = (log.length + addrs.length) % 2 ^ k
  window : Window (views u.txbufs) (2 ^ k) lo (log ++ h :: fragEntries skb 0 addrs)

theorem pred_mod {m : Nat} (hm : 0 < m) : (if (n + 1) % m = 0 then m - 1 else (n + 1) % m - 1) = n % m := by
  have hn : n % m < m := Nat.mod_lt n hm
  have h := Nat.mod_add_mod n m 1
  rcases lt_or_ge (n % m + 1) m with hlt | hge
  · rw [Nat.mod_eq_of_lt hlt] at h
    rw [← h, if_neg (Nat.succ_ne_zero _)]
    rfl
  · have heq : n % m + 1 = m := by omega
    rw [heq, Nat.mod_self] at h
    rw [if_pos h.symm]
    omega

theorem unwindFrags_spec (hlo : lo ≤ log.length) (f : Nat) (hu : Unwinding k lo skb log h u addrs)
    (hf : f = addrs.length) (hfit : log.length + addrs.length < lo + 2 ^ k) {r : Unwind}
    (hr : unwindFrags k skb f u = r) :
    Unwinding k lo skb log h r [] ∧
      r.unmapped = u.unmapped ++ ((fragEntries skb 0 addrs).map Entry.mapping).reverse := by
  induction f generalizing u addrs with
  | zero =>
    obtain rfl := eq_nil_of_length_eq_zero hf.symm
    obtain rfl := hr
    exact ⟨hu, (append_nil _).symm⟩
  | succ f ih =>
    obtain ⟨as, a, has⟩ := (eq_nil_or_concat addrs).resolve_left (by rintro rfl; cases hf)
    rw [concat_eq_append] at has
    subst has
    have hl : (as ++ [a]).length = as.length + 1 := length_append
    obtain rfl : f = as.length := Nat.succ.inj (hf.trans hl)
    have hlen : (log ++ h :: fragEntries skb 0 as).length = log.length + as.length + 1 := by
      rw [length_append, List.length_cons, fragEntries_length, add_assoc]
    have hw := hu.window
    rw [fragEntries_snoc, ← List.cons_append, ← List.append_assoc] at hw
    have hidx : u.wrIdx = (log.length + as.length + 1) % 2 ^ k := by rw [hu.wrIdx, hl, add_assoc]
    have hbuf : (u.txbufs u.wrIdx).view = ⟨some skb, a, as.length, 0, 0⟩ := by
      rw [hidx]
      refine hw _ _ (by omega) ?_
      rw [List.getElem?_append_right (le_of_eq hlen), hlen, Nat.sub_self]
      rfl
    have hstep : Unwinding k lo skb log h
        { txbufs := update u.txbufs u.wrIdx (clearBuf (u.txbufs u.wrIdx))
          wrIdx := if u.wrIdx = 0 then 2 ^ k - 1 else u.wrIdx - 1
          unmapped := u.unmapped ++ [((u.txbufs u.wrIdx).dmaAddr, skb.frags.getD as.length 0)] } as := by
      refine ⟨?_, ?_⟩
      · simp only [hidx]
        exact pred_mod (Nat.two_pow_pos k)
      · rw [views_update, hidx]
        exact hw.left.ahead (le_of_eq hlen) (by omega) _
    obtain ⟨hr1, hr2⟩ := ih hstep rfl (by omega) hr
    refine ⟨hr1, hr2.trans ?_⟩
    have haddr : (u.txbufs u.wrIdx).dmaAddr = a := congrArg Entry.dmaAddr hbuf
    rw [fragEntries_snoc, List.map_append, List.reverse_append, haddr, List.append_assoc]
    simp [Entry.mapping, Int.toNat_natCast]

theorem errUnmap_spec (hlo : lo ≤ log.length) {dmaAddr : Nat} (hh : h.mapping = (dmaAddr, skb.headlen))
    (hhaddr : h.dmaAddr = dmaAddr) (hu : Unwinding k lo skb log h u addrs)
    (hfit : log.length + addrs.length < lo + 2 ^ k) :
    Window (views (errUnmap k skb addrs.length u).txbufs) (2 ^ k) lo log ∧
      (errUnmap k skb addrs.length u).unmapped =
        u.unmapped ++ ((h :: fragEntries skb 0 addrs).map Entry.mapping).reverse := by
  obtain ⟨r, hr⟩ := @exists_eq' _ (unwindFrags k skb addrs.length u)
  obtain ⟨hun, hmapped⟩ := unwindFrags_spec hlo addrs.length hu rfl hfit hr
  rw [errUnmap, hr]
  have hidx : r.wrIdx = log.length % 2 ^ k := hun.wrIdx
  have hbuf : (r.txbufs r.wrIdx).view = h := by
    rw [hidx]
    refine hun.window _ _ hlo ?_
    rw [List.getElem?_append_right le_rfl, Nat.sub_self]
    rfl
  refine ⟨?_, ?_⟩
  · simp only [views_update, hidx]
    exact hun.window.left.ahead le_rfl (by omega) _
  · have haddr : (r.txbufs r.wrIdx).dmaAddr = dmaAddr := (congrArg Entry.dmaAddr hbuf).trans hhaddr
    simp [haddr, hmapped, reverse_cons, hh]

end Gather

theorem readTxCmpl_ofNat (txrwb : Bool) (n : Nat) :
    nfpNetReadTxCmpl txrwb (BitVec.ofNat 32 n) = BitVec.ofNat 32 (n % 2 ^ if txrwb then 32 else 18) := by
  cases txrwb with
  | true =>
    refine eq_of_toNat_eq ?_
    rw [toNat_ofNat]
    exact (Nat.mod_mod n (2 ^ 32)).symm
  | false =>
    refine eq_of_toNat_eq ?_
    have hmask := idx_ofNat (w := 32) (k := 18) (by decide) n
    rw [toNat_ofNat, Nat.mod_eq_of_lt (by simp only [Bool.false_eq_true, if_false]; omega)]
    exact hmask

theorem todo_eq {k m n : Nat} (hk : k ≤ 18) (txrwb : Bool) :
    idx k (nfpNetReadTxCmpl txrwb (BitVec.ofNat 32 m) - nfpNetReadTxCmpl txrwb (BitVec.ofNat 32 n)) =
      idx k (BitVec.ofNat 32 m - BitVec.ofNat 32 n) := by
  have hdvd : 2 ^ k ∣ 2 ^ if txrwb then 32 else 18 := Nat.pow_dvd_pow 2 (by cases txrwb <;> simp <;> omega)
  rw [readTxCmpl_ofNat, readTxCmpl_ofNat, ← idx_sub_mod (by omega), Nat.mod_mod_of_dvd _ hdvd,
    Nat.mod_mod_of_dvd _ hdvd, idx_sub_mod (by omega)]

structure Inv (k : Nat) (txrwb : Bool) (st : St) : Prop where
  core : Core k st 0 0
  qcpRdP : st.qcpRdP = nfpNetReadTxCmpl txrwb (BitVec.ofNat 32 st.done)
  qcpRd : st.qcpRd = BitVec.ofNat 32 st.devDone
  announced : ∃ told, st.qcpWr = BitVec.ofNat 32 told ∧ told + st.wrPtrAdd.toNat = st.log.length ∧ st.devDone ≤ told
  completed : st.done ≤ st.devDone

section Steps

variable {k maxSkbFrags : Nat} {txrwb : Bool} {st : St}

theorem Inv.ring (hi : Inv k txrwb st) (hk : k < 32) : (st.wrP - st.rdP).toNat = st.log.length - st.done := by
  have hpow : 2 ^ k ≤ 2 ^ 32 := Nat.pow_le_pow_right (by decide) (le_of_lt hk)
  have hroom := hi.core.room
  rw [hi.core.wr, hi.core.rd, toNat_sub_ofNat hi.core.le (by omega)]

theorem Inv.sound (hk : k < 32) (hi : Inv k txrwb st) : Sound k st := by
  have hring := hi.ring hk
  have hcore := hi.core
  have hle := hcore.le
  have hroom := hcore.room
  refine ⟨by omega, by omega, fun i hlt => ?_, hcore.unmapped, hcore.consumed, hi.completed, ?_, ?_⟩
  · have hidx : idx k (st.rdP + BitVec.ofNat 32 i) = (st.done + i) % 2 ^ k := by
      rw [hcore.rd, ← ofNat_add, idx_ofNat (le_of_lt hk)]
    have hin : st.done + i < st.log.length := by omega
    rw [hidx, List.getElem?_eq_getElem hin]
    exact congrArg some (hcore.window _ _ (Nat.le_add_right _ _) (List.getElem?_eq_getElem hin)).symm
  · have h := hcore.bytes
    rw [add_zero] at h
    exact h
  · have h := hcore.pkts
    rw [add_zero] at h
    exact h

theorem inv_start (k : Nat) (txrwb : Bool) (txbufs : Nat → TxBuf) : Inv k txrwb (start txbufs) := by
  refine ⟨⟨rfl, rfl, le_rfl, ?_, fun p x _ hx => (nomatch hx), fun p hp =>
    (not_mem_nil hp).elim, .refl _, rfl, rfl, rfl⟩,
    show (0 : Ptr) = nfpNetReadTxCmpl txrwb 0 by cases txrwb <;> decide, rfl, ⟨0, rfl, rfl, le_rfl⟩, le_rfl⟩
  exact Nat.lt_add_of_pos_right (Nat.two_pow_pos k)

theorem Inv.flush (hi : Inv k txrwb st) : Inv k txrwb (nfpNetTxXmitMoreFlush st) := by
  obtain ⟨told, hq, hadd, hdev⟩ := hi.announced
  have hc := hi.core
  refine ⟨{ hc with }, hi.qcpRdP, hi.qcpRd,
    ⟨st.log.length, ?_, rfl, hdev.trans (hadd ▸ Nat.le_add_right told _)⟩, hi.completed⟩
  rw [nfpNetTxXmitMoreFlush, hq, ← hadd, ofNat_add, ofNat_toNat, setWidth_eq]

theorem Inv.drop (hi : Inv k txrwb st) (skb : Skb) : Inv k txrwb { st with dropped := st.dropped ++ [skb] } := by
  have hc := hi.core
  exact ⟨{ hc with }, hi.qcpRdP, hi.qcpRd,
    hi.announced, hi.completed⟩

theorem Inv.errFlush (hi : Inv k txrwb st) (skb : Skb) : Inv k txrwb (errFlush st skb) := (hi.drop skb).flush

theorem not_full (hi : Inv k txrwb st) (hk : k < 32) {dcnt : Nat} (hcnt : dcnt ≤ 2 ^ k)
    (h : ¬nfpNetTxFull k st dcnt = true) :
    st.log.length + dcnt < st.done + 2 ^ k := by
  have hlt : 2 ^ k < dcnt + 2 ^ 32 := lt_of_lt_of_le (Nat.pow_lt_pow_right (by decide) hk) (Nat.le_add_left _ _)
  rw [nfpNetTxFull, decide_eq_true_eq, hi.ring hk, toNat_sub_ofNat hcnt hlt] at h
  omega

theorem Inv.gathered (hi : Inv k txrwb st) (hk : k < 32) (head : Nat) (hdmas : dmas.length = skb.frags.length)
    (hfit : st.log.length + skb.frags.length < st.done + 2 ^ k)
    (hr : gather k skb ⟨update st.txbufs (idx k st.wrP) (headBuf skb head), idx k st.wrP, 0, [(head, skb.headlen)],
      true⟩
      (skb.frags.zip dmas) = r) :
    ∃ addrs, Gathered k st.done skb st.log (headBuf skb head).view r addrs ∧ addrs.length ≤ skb.frags.length ∧
      (r.ok = true → addrs = dmas.map (·.getD 0)) := by
  have hidx : idx k st.wrP = st.log.length % 2 ^ k := by rw [hi.core.wr, idx_ofNat (le_of_lt hk)]
  have hg : Gathered k st.done skb st.log (headBuf skb head).view
      ⟨update st.txbufs (idx k st.wrP) (headBuf skb head), idx k st.wrP, 0, [(head, skb.headlen)], true⟩ [] := by
    refine ⟨rfl, hidx, ?_, rfl⟩
    rw [views_update, hidx]
    exact hi.core.window.push (by omega) _
  exact gather_spec dmas hg (by rw [length_nil, zero_add, hdmas]) rfl hfit hr

theorem fragEntries_sums (skb : Skb) (f : Nat) (addrs : List Nat) :
    ((fragEntries skb f addrs).map (·.realLen)).sum = 0 ∧ ((fragEntries skb f addrs).map (·.pktCnt)).sum = 0 := by
  induction addrs generalizing f with
  | nil => exact ⟨rfl, rfl⟩
  | cons a addrs ih =>
    obtain ⟨hbytes, hpkts⟩ := ih (f + 1)
    rw [fragEntries, map_cons, map_cons, sum_cons, sum_cons, hbytes, hpkts]
    exact ⟨rfl, rfl⟩

theorem entries_sums (p : Packet) :
    (p.entries.map (·.realLen)).sum = p.skb.realLen ∧ (p.entries.map (·.pktCnt)).sum = p.skb.pktCnt.setWidth 32 := by
  obtain ⟨hbytes, hpkts⟩ := fragEntries_sums p.skb 0 p.frags
  rw [Packet.entries, map_cons, map_cons, sum_cons, sum_cons, hbytes, hpkts, add_zero, add_zero]
  exact ⟨rfl, rfl⟩

theorem Inv.accept (hi : Inv k txrwb st) (hk : k < 32)
    (hg : Gathered k st.done skb st.log (headBuf skb head).view g addrs)
    (hlen : addrs.length = skb.frags.length) (hfit : st.log.length + (skb.frags.length + 1) < st.done + 2 ^ k)
    (hst : st' = { st with
      txbufs := g.txbufs
      wrP := st.wrP + BitVec.ofNat 32 (skb.frags.length + 1)
      wrPtrAdd := st.wrPtrAdd + BitVec.ofNat 32 (skb.frags.length + 1)
      maps := st.maps ++ g.mapped
      sent := st.sent ++ [⟨skb, head, addrs⟩]
      sentBytes := st.sentBytes + skb.realLen
      sentPkts := st.sentPkts + skb.pktCnt.setWidth 32 }) : Inv k txrwb st' := by
  obtain ⟨told, hq, hadd, hdev⟩ := hi.announced
  have hc := hi.core
  have hle := hc.le
  have hcompleted := hi.completed
  have hpow : 2 ^ k < 2 ^ 32 := Nat.pow_lt_pow_right (by decide) hk
  obtain ⟨hbytes, hpkts⟩ := entries_sums ⟨skb, head, addrs⟩
  have hlog : st'.log = st.log ++ Packet.entries ⟨skb, head, addrs⟩ := by
    rw [hst, St.log, flatMap_append, flatMap_singleton]
    rfl
  have hloglen : st'.log.length = st.log.length + (skb.frags.length + 1) := by
    rw [hlog, length_append, entries_length, hlen]
  have hdone : st'.done = st.done := by rw [hst]
  have hdrop : st'.log.drop st'.done = st.log.drop st.done ++ Packet.entries ⟨skb, head, addrs⟩ := by
    rw [hlog, hdone, drop_append_of_le_length hle]
  have hwrap : (st.wrPtrAdd + BitVec.ofNat 32 (skb.frags.length + 1)).toNat = st.wrPtrAdd.toNat +
      (skb.frags.length + 1) := by
    rw [toNat_add, toNat_ofNat, Nat.add_mod_mod, Nat.mod_eq_of_lt (by omega)]
  refine ⟨⟨?_, ?_, ?_, ?_, ?_, ?_, ?_, ?_, ?_, ?_⟩, ?_, ?_, ⟨told, ?_, ?_, ?_⟩, ?_⟩
  · rw [hloglen, ofNat_add, ← hc.wr, hst]
  · rw [hdone, ← hc.rd, hst]
  · omega
  · omega
  · rw [hlog, hdone, hst]
    exact hg.window
  · intro p hp
    rw [hst] at hp
    rcases mem_append.mp hp with hp | hp
    · exact hc.wf p hp
    · obtain rfl := mem_singleton.mp hp
      exact hlen
  · rw [hdrop, List.map_append, ← List.append_assoc, hst]
    simp only [hg.mapped]
    exact hc.unmapped.append_right _
  · rw [hdone, hst]
    exact hc.consumed.trans (finished_append hle _).symm
  · rw [hdrop, List.map_append, sum_append, hbytes, ← add_assoc, hst]
    exact congrArg (· + skb.realLen) hc.bytes
  · rw [hdrop, List.map_append, sum_append, hpkts, ← add_assoc, hst]
    exact congrArg (· + skb.pktCnt.setWidth 32) hc.pkts
  · rw [hst]
    exact hi.qcpRdP
  · rw [hst]
    exact hi.qcpRd
  · rw [hst]
    exact hq
  · rw [hloglen, hst]
    simp only [hwrap]
    omega
  · rw [hst]
    exact hdev
  · rw [hst]
    exact hi.completed

theorem Inv.refuse (hi : Inv k txrwb st) (hg : Gathered k st.done skb st.log (headBuf skb head).view g addrs)
    (hfit : st.log.length + addrs.length < st.done + 2 ^ k) (hu : errUnmap k skb g.f ⟨g.txbufs, g.wrIdx, []⟩ = u) :
    Inv k txrwb { st with txbufs := u.txbufs, maps := st.maps ++ g.mapped, unmaps := st.unmaps ++ u.unmapped } := by
  have hc := hi.core
  obtain ⟨hwindow, hun⟩ := errUnmap_spec (u := ⟨g.txbufs, g.wrIdx, []⟩) hc.le rfl rfl { hg with } hfit
  rw [← hg.f, hu] at hwindow hun
  refine ⟨⟨hc.wr, hc.rd, hc.le, hc.room, hwindow, hc.wf, ?_, hc.consumed, hc.bytes, hc.pkts⟩, hi.qcpRdP, hi.qcpRd,
    hi.announced, hi.completed⟩
  simp only [hun, hg.mapped, nil_append]
  refine ((perm_append_comm.append_right _).trans ?_).trans
    ((hc.unmapped.append_right _).trans ((reverse_perm _).append_left _))
  rw [List.append_assoc]
  exact List.perm_append_comm

section

variable (hi : Inv k txrwb st) (hk : k < 32)

include hi hk

theorem Inv.sendMapped (head : Nat) (hdmas : dmas.length = skb.frags.length)
    (hfit : st.log.length + (skb.frags.length + 1) < st.done + 2 ^ k) (flush : Bool) :
    Inv k txrwb (sendMapped k st skb head dmas flush) := by
  obtain ⟨g, hr⟩ : ∃ g, gather k skb
      ⟨update st.txbufs (idx k st.wrP) (headBuf skb head), idx k st.wrP, 0, [(head, skb.headlen)], true⟩
      (skb.frags.zip dmas) = g := ⟨_, rfl⟩
  obtain ⟨addrs, hg, hle, hall⟩ := hi.gathered hk head hdmas (by omega) hr
  simp only [Nfd3.sendMapped, hr]
  split
  · next hok =>
    obtain rfl := hall hok
    have hacc := hi.accept hk hg (by rw [length_map, hdmas]) hfit rfl
    cases flush with
    | false => exact hacc
    | true => exact hacc.flush
  · exact (hi.refuse hg (by omega) rfl).errFlush skb

theorem Inv.tx (hcnt : maxSkbFrags < 2 ^ k) {prep : Option Skb} {dma : Dma}
    (hfrags : skb.frags.length ≤ maxSkbFrags) (hprep : prepares skb prep = true)
    (hdma : ∀ skb' ∈ prep, dma.frags.length = skb'.frags.length) (flush : Bool) :
    Inv k txrwb (nfpNfd3Tx k st skb prep dma flush) := by
  unfold nfpNfd3Tx
  split
  · exact hi.flush
  next hfull =>
  have hfit := not_full hi hk (by omega) hfull
  cases prep with
  | none => exact hi.errFlush skb
  | some skb' =>
    have hle : skb'.frags.length ≤ skb.frags.length := by
      rcases Bool.or_eq_true_iff.mp hprep with heq | hnil
      · rw [of_decide_eq_true heq]
      · rw [of_decide_eq_true hnil]
        exact Nat.zero_le _
    obtain ⟨head, frags⟩ := dma
    cases head with
    | none => exact hi.errFlush skb'
    | some head => exact hi.sendMapped hk head (hdma skb' rfl) (by omega) flush

theorem Inv.complete (hk' : k ≤ 18) : Inv k txrwb (nfpNfd3TxComplete k txrwb st) := by
  obtain ⟨told, hq, hadd, hdev⟩ := hi.announced
  have hc := hi.core
  have hroom := hc.room
  have hcompleted := hi.completed
  rw [nfpNfd3TxComplete]
  split
  · exact hi
  split
  · exact hi
  have htodo : idx k (nfpNetReadTxCmpl txrwb st.qcpRd - st.qcpRdP) = st.devDone - st.done := by
    rw [hi.qcpRd, hi.qcpRdP, todo_eq hk', sub_ofNat hcompleted, idx_ofNat (le_of_lt hk), Nat.mod_eq_of_lt (by omega)]
  obtain ⟨r, hr⟩ := @exists_eq' _
    (completeLoop k (idx k (nfpNetReadTxCmpl txrwb st.qcpRd - st.qcpRdP)) ⟨st, 0, 0⟩)
  obtain ⟨hcore, hkept, hdone⟩ := completeLoop_core (le_of_lt hk) _ (d := ⟨st, 0, 0⟩) hc
      (by rw [htodo]; simp only; omega) hr
  have hdone : r.st.done = st.devDone := by rw [hdone, htodo]; simp only; omega
  simp only [hr]
  refine ⟨⟨hcore.wr, hcore.rd, hcore.le, hcore.room, hcore.window, hcore.wf, hcore.unmapped, hcore.consumed, ?_, ?_⟩,
    ?_, ?_,
    ⟨told, ?_, ?_, ?_⟩, ?_⟩
  · exact (congrArg (· + _) (add_zero _)).trans hcore.bytes
  · exact (congrArg (· + _) (add_zero _)).trans hcore.pkts
  · rw [hdone, ← hi.qcpRd]
  · simp only [hkept.qcpRd, hkept.devDone]
    exact hi.qcpRd
  · exact hkept.qcpWr.trans hq
  · exact (congrArg (fun p : Ptr => told + p.toNat) hkept.wrPtrAdd).trans (hadd.trans (congrArg length hkept.log.symm))
  · simp only [hkept.devDone]
    exact hdev
  · simp only [hdone, hkept.devDone]
    exact le_rfl

theorem Inv.advance (hn : n ≤ (st.qcpWr - st.qcpRd).toNat) :
    Inv k txrwb { st with qcpRd := st.qcpRd + BitVec.ofNat 32 n, devDone := st.devDone + n } := by
  obtain ⟨told, hq, hadd, hdev⟩ := hi.announced
  have hc := hi.core
  have hroom := hc.room
  have hcompleted := hi.completed
  have hpow : 2 ^ k < 2 ^ 32 := Nat.pow_lt_pow_right (by decide) hk
  rw [hq, hi.qcpRd, toNat_sub_ofNat hdev (by omega)] at hn
  refine ⟨{ hc with }, hi.qcpRdP, ?_,
    ⟨told, hq, hadd, ?_⟩, ?_⟩
  · rw [hi.qcpRd, ofNat_add]
  · simp only
    omega
  · simp only
    omega

end

theorem inv_step (hk : k ≤ 18) (hcnt : maxSkbFrags < 2 ^ k) (hi : Inv k txrwb st) {a : Action}
    (h : step k maxSkbFrags txrwb st a = some st') : Inv k txrwb st' := by
  cases a with
  | tx skb prep dma flush =>
    obtain ⟨⟨hfrags, hprep, hdma⟩, heq⟩ := Option.ite_none_right_eq_some.mp h
    cases heq
    exact hi.tx (by omega) hcnt hfrags hprep hdma flush
  | complete =>
    cases h
    exact hi.complete (by omega) hk
  | advance n =>
    obtain ⟨hn, heq⟩ := Option.ite_none_right_eq_some.mp h
    cases heq
    exact hi.advance (by omega) hn

end Steps

def emptyBuf : TxBuf := ⟨none, 0, -2, 0, 0⟩

def twoFrags : Skb := ⟨0, 64, [100, 200], none⟩

def sendTwoFrags : Action := .tx twoFrags (some twoFrags) ⟨some 4096, [some 8192, some 12288]⟩ true

end NfpDriver.Nfd3
