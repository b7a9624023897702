import NfpDriver.Nfdk.Ring

namespace NfpDriver.Nfdk

open Slots List

def span (es : List Entry) : Nat := (es.map Entry.size).sum

def flat (es : List Entry) : List Desc := es.flatMap Entry.descs

def InBlock (pos n : Nat) : Prop := pos / 32 = (pos + n - 1) / 32

def Entry.Placed (pos : Nat) : Entry → Prop
  | .closed nopSlots => nopSlots = 32 - pos % 32
  | .packet _ _ _ descs => 2 ≤ descs.length ∧ InBlock pos descs.length
  | .xdp _ _ _ descs => 2 ≤ descs.length ∧ InBlock pos descs.length

def Placed : Nat → List Entry → Prop
  | _, [] => True
  | pos, e :: es => e.Placed pos ∧ Placed (pos + e.size) es

variable {e : Entry} {pos k n m : Nat} {as bs : List Entry}

section Positions

theorem span_append (as bs : List Entry) : span (as ++ bs) = span as + span bs := by
  rw [span, map_append, sum_append]
  rfl

theorem span_cons (e : Entry) (es : List Entry) : span (e :: es) = e.size + span es := rfl

theorem span_singleton (e : Entry) : span [e] = e.size := add_zero _

theorem flat_length (es : List Entry) : (flat es).length = span es := List.length_flatMap

theorem size_closed (n : Nat) : (Entry.closed n).size = n := List.length_replicate

theorem Entry.Placed.inBlock (h : e.Placed pos) : 1 ≤ e.size ∧ InBlock pos e.size := by
  cases e with
  | packet | xdp => exact ⟨Nat.le_of_succ_le h.1, h.2⟩
  | closed n =>
    have hn : n = 32 - pos % 32 := h
    rw [size_closed, InBlock]
    omega

theorem placed_append : Placed pos (as ++ bs) ↔ Placed pos as ∧ Placed (pos + span as) bs := by
  induction as generalizing pos with
  | nil => exact ⟨fun h => ⟨trivial, h⟩, And.right⟩
  | cons a as ih => rw [cons_append, Placed, Placed, ih, span_cons, add_assoc, and_assoc]

theorem Placed.at (h : Placed pos (as ++ e :: bs)) : e.Placed (pos + span as) :=
  (placed_append.mp h).2.1

theorem pow_eq_blocks (hk : 5 ≤ k) : ∃ m, 2 ^ k = 32 * m :=
  ⟨2 ^ (k - 5), by rw [show (32 : Nat) = 2 ^ 5 from rfl, ← Nat.pow_add, Nat.add_sub_cancel' hk]⟩

theorem mod_blocks (hk : 5 ≤ k) (n : Nat) : n % 2 ^ k % 32 = n % 32 := by
  obtain ⟨m, hm⟩ := pow_eq_blocks hk
  rw [hm]
  exact Nat.mod_mod_of_dvd n (Nat.dvd_mul_right 32 m)

theorem inBlock_fits (hk : 5 ≤ k) (hn : 1 ≤ n) (h : InBlock pos n) : pos % 2 ^ k + n ≤ 2 ^ k := by
  obtain ⟨m, hm⟩ := pow_eq_blocks hk
  have hr := mod_blocks hk pos
  rw [InBlock] at h
  omega

theorem ofNat_mod_blocks (n : Nat) : (BitVec.ofNat 32 n).toNat % 32 = n % 32 := by
  exact mod_blocks (by decide) n

theorem dBlockCpl_ofNat (n : Nat) : dBlockCpl (BitVec.ofNat 32 n) = 32 - n % 32 := by
  rw [dBlockCpl, ofNat_mod_blocks]

theorem crossesBlock_ofNat (hm : m < 2 ^ 31) : crossesBlock (BitVec.ofNat 32 n) m = true ↔ n / 32 ≠ (n + m) / 32 := by
  rw [crossesBlock, ← BitVec.ofNat_add, decide_eq_true_eq, BitVec.toNat_ofNat, BitVec.toNat_ofNat, roundDown, roundDown]
  omega

theorem overflows_ofNat (hk : 5 ≤ k) (hk' : k ≤ 32) {r : Ring} (hr : r.wrP = BitVec.ofNat 32 n) (h : InBlock n m)
    (hm : 1 ≤ m) : overflows k r m = false := by
  have hmod := mod_blocks hk n
  rw [overflows, hr, idx_ofNat hk', decide_eq_false_iff_not, not_not, roundDown, roundDown]
  rw [InBlock] at h
  omega

end Positions

structure Core (k : Nat) (marks : Entry → List (Option Raw)) (r : Ring) (read : Nat) : Prop where
  wr : r.wrP = BitVec.ofNat 32 (span r.log)
  rd : r.rdP = BitVec.ofNat 32 read
  le : read ≤ span r.log
  room : span r.log < read + 2 ^ k
  descs : Window r.ktxds (2 ^ k) read (flat r.log)
  bufs : Marks r.ktxbufs (2 ^ k) read (r.log.flatMap marks)
  placed : Placed 0 r.log

section Core

variable {k read : Nat} {marks : Entry → List (Option Raw)} {r : Ring}

theorem Core.ring (hc : Core k marks r read) (hk : k < 32) : (r.wrP - r.rdP).toNat = span r.log - read := by
  have hpow : 2 ^ k ≤ 2 ^ 32 := Nat.pow_le_pow_right (by decide) (le_of_lt hk)
  have hroom := hc.room
  rw [hc.wr, hc.rd, toNat_sub_ofNat hc.le (by omega)]

theorem Core.not_full (hc : Core k marks r read) (hk : 6 ≤ k) (hk' : k < 32) (h : ¬nfpNetTxFull k r 64 = true) :
    span r.log + 64 < read + 2 ^ k := by
  have h64 : 64 ≤ 2 ^ k := (show 64 ≤ 2 ^ 6 by decide).trans (Nat.pow_le_pow_right (by decide) hk)
  have hlt : 2 ^ k < 64 + 2 ^ 32 := lt_of_lt_of_le (Nat.pow_lt_pow_right (by decide) hk') (Nat.le_add_left _ _)
  rw [nfpNetTxFull, decide_eq_true_eq, hc.ring hk', toNat_sub_ofNat h64 hlt] at h
  omega

theorem Core.idx_wr (hc : Core k marks r read) (hk : k < 32) : idx k r.wrP = span r.log % 2 ^ k := by
  rw [hc.wr, idx_ofNat (le_of_lt hk)]

theorem marks_length (hmarks : ∀ e, (marks e).length = e.size) (es : List Entry) :
    (es.flatMap marks).length = span es := by
  rw [length_flatMap, span]
  exact congrArg (fun f => (es.map f).sum) (funext hmarks)

theorem Core.append (hc : Core k marks r read) (hk : 5 ≤ k) (hk' : k < 32) {r' : Ring}
    (hplaced : e.Placed (span r.log)) (hroom : span r.log + e.size < read + 2 ^ k)
    (hwr : r'.wrP = r.wrP + BitVec.ofNat 32 e.size) (hrd : r'.rdP = r.rdP) (hlog : r'.log = r.log ++ [e])
    (hdescs : r'.ktxds = write r.ktxds (idx k r.wrP) e.descs)
    (hbufs : Marks r'.ktxbufs (2 ^ k) read (r.log.flatMap marks ++ marks e)) : Core k marks r' read := by
  obtain ⟨hpos, hblock⟩ := hplaced.inBlock
  have hspan : span r'.log = span r.log + e.size := by rw [hlog, span_append, span_singleton]
  have hle := hc.le
  have hfits := inBlock_fits hk hpos hblock
  refine ⟨?_, by rw [hrd, hc.rd], by omega, by omega, ?_, ?_, ?_⟩
  · rw [hwr, hspan, hc.wr, BitVec.ofNat_add]
  · have hflat : flat r'.log = flat r.log ++ e.descs := by
      rw [hlog, flat, flatMap_append, flatMap_singleton]
      rfl
    rw [hflat, hdescs, hc.idx_wr hk', ← flat_length]
    refine hc.descs.write ?_ ?_
    · rw [flat_length]
      exact hfits
    · rw [flat_length]
      exact le_of_lt hroom
  · rw [hlog, flatMap_append, flatMap_singleton]
    exact hbufs
  · rw [hlog]
    exact placed_append.mpr ⟨hc.placed, by rw [zero_add]; exact hplaced, trivial⟩

end Core

end NfpDriver.Nfdk
