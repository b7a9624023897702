import NfpDriver.Mbox.Msg

namespace NfpDriver.Mbox

open List

inductive TlvType where
  | unknown
  | endTlv
  | msg
  | msgNosup
  | resv
  deriving DecidableEq, Repr

def TlvType.code : TlvType → BitVec 16
  | .unknown => 0
  | .endTlv => 1
  | .msg => 2
  | .msgNosup => 3
  | .resv => 4

def tlvWord (type : TlvType) (len : Nat) : BitVec 32 := type.code ++ BitVec.ofNat 16 len

def be32 (b0 b1 b2 b3 : BitVec 8) : BitVec 32 := b0 ++ b1 ++ b2 ++ b3

def dataWords : List (BitVec 8) → List (BitVec 32)
  | b0 :: b1 :: b2 :: b3 :: rest => be32 b0 b1 b2 b3 :: dataWords rest
  | [b0, b1, b2] => [be32 b0 b1 b2 0]
  | [b0, b1] => [be32 b0 b1 0 0]
  | [b0] => [be32 b0 0 0 0]
  | [] => []

inductive Item where
  | word (off : Nat) (value : BitVec 32)
  | reserved (off len : Nat)
  deriving DecidableEq, Repr

def Item.start : Item → Nat
  | .word off _ => off
  | .reserved off _ => off

def Item.stop : Item → Nat
  | .word off _ => off + 4
  | .reserved off len => off + len

def writeWords (off : Nat) : List (BitVec 32) → List Item
  | [] => []
  | w :: ws => .word off w :: writeWords (off + 4) ws

def reserve (m : Msg) : Int := s32 (s32 m.cb.maxLen - roundUp4 m.skb.len)

def copyInMsg (off : Nat) (m : Msg) : List Item × Nat :=
  let words := dataWords m.skb.data
  let off' := off + 4 + 4 * words.length
  let items := .word off (tlvWord .msg m.skb.len) :: writeWords (off + 4) words
  if reserve m > 0 then
    (items ++ [.word off' (tlvWord .resv (reserve m).toNat), .reserved (off' + 4) (reserve m).toNat],
      off' + 4 + (reserve m).toNat)
  else (items, off')

def copyInFrom (off : Nat) : List Msg → List Item
  | [] => [.word off (tlvWord .endTlv 0)]
  | m :: ms => (copyInMsg off m).1 ++ copyInFrom (copyInMsg off m).2 ms

def nfpCcmMboxCopyIn (caps : MboxCaps) (batch : List Msg) : List Item :=
  copyInFrom (caps.mboxOff + mboxSimpleVal) batch

def takeBatch (space : Int) (cnt : Nat) : List Msg → List Msg
  | [] => []
  | m :: rest =>
    let space := s32 (space - (4 + s32 m.cb.maxLen))
    if space < 0 then []
    else if cnt + 1 = batchLimit then [m]
    else m :: takeBatch space (cnt + 1) rest

def runQueueBatch (caps : MboxCaps) : List Msg → List Msg
  | [] => []
  | m :: rest =>
    let space := s32 (s32 (caps.mboxLen - mboxSimpleVal) - 4)
    m :: takeBatch (s32 (space - (4 + s32 m.cb.maxLen))) 1 rest

def Item.Inside (caps : MboxCaps) (i : Item) : Prop :=
  caps.mboxOff ≤ i.start ∧ i.stop ≤ caps.mboxOff + caps.mboxLen

theorem dataWords_length (data : List (BitVec 8)) : (dataWords data).length = (data.length + 3) / 4 := by
  induction data using dataWords.induct with
  | case1 b0 b1 b2 b3 rest ih =>
    simp only [dataWords, length_cons, ih]
    omega
  | case2 | case3 | case4 | case5 => simp [dataWords]

def msgSize (m : Msg) : Nat :=
  4 + roundUp4 m.skb.len + if reserve m > 0 then 4 + (reserve m).toNat else 0

theorem copyInMsg_next (off : Nat) (m : Msg) : (copyInMsg off m).2 = off + msgSize m := by
  have hlen := roundUp4_of_lt m.skb.len_lt
  simp only [copyInMsg, msgSize, dataWords_length]
  rw [show m.skb.len = m.skb.data.length from rfl, hlen]
  split
  · simp only
    omega
  · simp only
    omega

variable {i : Item} {off : Nat} {m : Msg} {queue : List Msg}

theorem writeWords_within {ws : List (BitVec 32)} (h : i ∈ writeWords off ws) :
    off ≤ i.start ∧ i.stop ≤ off + 4 * ws.length := by
  induction ws generalizing off with
  | nil => cases h
  | cons w ws ih =>
    rw [writeWords, mem_cons] at h
    rw [length_cons]
    rcases h with rfl | h
    · simp only [Item.start, Item.stop]
      omega
    · have := ih h
      omega

theorem copyInMsg_within (h : i ∈ (copyInMsg off m).1) : off ≤ i.start ∧ i.stop ≤ (copyInMsg off m).2 := by
  have hwords : ∀ {i}, i ∈ writeWords (off + 4) (dataWords m.skb.data) →
      off ≤ i.start ∧ i.stop ≤ off + 4 + 4 * (dataWords m.skb.data).length := by
    intro i hi
    have := writeWords_within hi
    omega
  simp only [copyInMsg] at h ⊢
  split at h
  · simp only [cons_append, mem_cons, mem_append, not_mem_nil, or_false] at h
    rw [if_pos ‹_›]
    rcases h with rfl | h | rfl | rfl
    · simp only [Item.start, Item.stop]
      omega
    · have := hwords h
      omega
    · simp only [Item.start, Item.stop]
      omega
    · simp only [Item.start, Item.stop]
      omega
  · rw [if_neg ‹_›]
    rcases mem_cons.mp h with rfl | h
    · simp only [Item.start, Item.stop]
      omega
    · exact hwords h

def batchSize (batch : List Msg) : Nat := (batch.map msgSize).sum

theorem copyInFrom_within {batch : List Msg} (h : i ∈ copyInFrom off batch) :
    off ≤ i.start ∧ i.stop ≤ off + batchSize batch + 4 := by
  induction batch generalizing off with
  | nil =>
    rw [copyInFrom, mem_singleton] at h
    rw [h]
    simp only [Item.start, Item.stop]
    omega
  | cons m ms ih =>
    have hsize : batchSize (m :: ms) = msgSize m + batchSize ms := by simp [batchSize]
    rw [copyInFrom, mem_append] at h
    rcases h with h | h
    · have := copyInMsg_within h
      rw [copyInMsg_next] at this
      omega
    · have := ih h
      rw [copyInMsg_next] at this
      omega

theorem copyInFrom_end (off : Nat) (batch : List Msg) :
    .word (off + batchSize batch) (tlvWord .endTlv 0) ∈ copyInFrom off batch := by
  induction batch generalizing off with
  | nil => exact mem_singleton.mpr rfl
  | cons m ms ih =>
    have hsize : off + batchSize (m :: ms) = (copyInMsg off m).2 + batchSize ms := by
      rw [copyInMsg_next]
      simp only [batchSize, map_cons, sum_cons]
      omega
    rw [copyInFrom, hsize]
    exact mem_append_right _ (ih _)

theorem copyIn_inside_iff_size (caps : MboxCaps) (batch : List Msg) :
    (∀ i ∈ nfpCcmMboxCopyIn caps batch, i.Inside caps) ↔ 12 + batchSize batch ≤ caps.mboxLen := by
  constructor
  · intro h
    have := (h _ (copyInFrom_end _ batch)).2
    simp only [Item.stop, mboxSimpleVal] at this
    omega
  · intro h i hi
    have := copyInFrom_within hi
    simp only [mboxSimpleVal] at this
    exact ⟨by omega, by omega⟩

def needsReserve (m : Msg) : Bool := roundUp4 m.skb.len < m.cb.maxLen

def claimed (batch : List Msg) : Nat := (batch.map fun m => 4 + m.cb.maxLen).sum

def accounted (batch : List Msg) : Nat := 12 + claimed batch

theorem claimed_cons (m : Msg) (ms : List Msg) : claimed (m :: ms) = 4 + m.cb.maxLen + claimed ms := by
  simp [claimed]

section Accounting

variable {caps : MboxCaps} (hl : 16 ≤ caps.mboxLen)

include hl

theorem Accepted.maxLen_le (h : Accepted caps m) : m.cb.maxLen + 16 ≤ caps.mboxLen :=
  le_trans (Nat.add_le_add_right h.fits.2 16) (maxMsg_of_le hl)

theorem Accepted.s32_maxLen (h : Accepted caps m) : s32 m.cb.maxLen = m.cb.maxLen := by
  have hm := h.maxLen_le hl
  have hlt := caps.len_lt
  exact s32_of_range (by omega) (by omega)

theorem msgSize_eq (h : Accepted caps m) : msgSize m = 4 + m.cb.maxLen + if needsReserve m then 4 else 0 := by
  have hm := h.maxLen_le hl
  have hlt := caps.len_lt
  have hle := h.fits.1
  have hr : reserve m = m.cb.maxLen - roundUp4 m.skb.len := by
    rw [reserve, h.s32_maxLen hl]
    exact s32_of_range (by omega) (by omega)
  rw [msgSize, hr, needsReserve]
  by_cases hlt : roundUp4 m.skb.len < m.cb.maxLen
  · rw [if_pos (by omega), decide_eq_true hlt, if_pos rfl]
    omega
  · rw [if_neg (by omega), decide_eq_false hlt, if_neg Bool.false_ne_true]
    omega

theorem batchSize_eq (batch : List Msg) (h : ∀ m ∈ batch, Accepted caps m) :
    12 + batchSize batch = accounted batch + 4 * (batch.countP needsReserve) := by
  induction batch with
  | nil => rfl
  | cons m ms ih =>
    have hm := msgSize_eq hl (h m mem_cons_self)
    have hms := ih fun k hk => h k (mem_cons_of_mem m hk)
    simp only [accounted] at hms ⊢
    simp only [batchSize, map_cons, sum_cons, countP_cons, claimed_cons, hm] at hms ⊢
    split <;> omega

theorem takeBatch_claimed (h : ∀ m ∈ queue, Accepted caps m) (space : Int) (cnt : Nat) (hs0 : 0 ≤ space)
    (hs1 : space < 2 ^ 31) : (claimed (takeBatch space cnt queue) : Int) ≤ space := by
  induction queue generalizing space cnt with
  | nil => simpa [takeBatch, claimed] using hs0
  | cons m rest ih =>
    have hacc := h m mem_cons_self
    have hm := hacc.maxLen_le hl
    have hlt := caps.len_lt
    have hspace : s32 (space - (4 + s32 m.cb.maxLen)) = space - (4 + m.cb.maxLen) := by
      rw [hacc.s32_maxLen hl]
      exact s32_of_range (by omega) (by omega)
    simp only [takeBatch, hspace]
    split
    · exact hs0
    split
    · rw [claimed_cons]
      simp only [claimed, map_nil, sum_nil]
      omega
    · have := ih (fun k hk => h k (mem_cons_of_mem m hk)) (space - (4 + m.cb.maxLen)) (cnt + 1)
        (by omega) (by omega)
      rw [claimed_cons]
      omega

theorem runQueueBatch_accounted (h : ∀ m ∈ queue, Accepted caps m) :
    accounted (runQueueBatch caps queue) ≤ caps.mboxLen := by
  cases queue with
  | nil =>
    simp only [runQueueBatch, accounted, claimed, map_nil, sum_nil]
    omega
  | cons m rest =>
    have hacc := h m mem_cons_self
    have hm := hacc.maxLen_le hl
    have hlt := caps.len_lt
    have h1 : s32 (caps.mboxLen - mboxSimpleVal) = caps.mboxLen - 8 :=
      s32_of_range (by simp only [mboxSimpleVal]; omega) (by simp only [mboxSimpleVal]; omega)
    have h2 : s32 (s32 (s32 (caps.mboxLen - mboxSimpleVal) - 4) - (4 + s32 m.cb.maxLen)) =
        caps.mboxLen - 8 - 4 - (4 + m.cb.maxLen) := by
      rw [h1, hacc.s32_maxLen hl, s32_of_range (x := caps.mboxLen - 8 - 4) (by omega) (by omega)]
      exact s32_of_range (by omega) (by omega)
    have ht := takeBatch_claimed hl (fun k hk => h k (mem_cons_of_mem m hk))
      (caps.mboxLen - 8 - 4 - (4 + m.cb.maxLen)) 1 (by omega) (by omega)
    simp only [runQueueBatch, h2, accounted, claimed_cons]
    omega

end Accounting

theorem takeBatch_sub {space : Int} {cnt : Nat} (h : m ∈ takeBatch space cnt queue) : m ∈ queue := by
  induction queue generalizing space cnt with
  | nil => exact h
  | cons k rest ih =>
    simp only [takeBatch] at h
    split at h
    · cases h
    split at h
    · rw [mem_singleton] at h
      exact h ▸ mem_cons_self
    · rcases mem_cons.mp h with rfl | h
      · exact mem_cons_self
      · exact mem_cons_of_mem k (ih h)

theorem runQueueBatch_sub {caps : MboxCaps} (h : m ∈ runQueueBatch caps queue) : m ∈ queue := by
  cases queue with
  | nil => exact h
  | cons k rest =>
    rcases mem_cons.mp h with rfl | h
    · exact mem_cons_self
    · exact mem_cons_of_mem k (takeBatch_sub h)

theorem runQueueBatch_single (caps : MboxCaps) (m : Msg) : runQueueBatch caps [m] = [m] := rfl

theorem batch_inside_iff (caps : MboxCaps) (queue batch : List Msg) (hne : queue ≠ [])
    (hacc : ∀ m ∈ queue, Accepted caps m)
    (hb : batch = runQueueBatch caps queue ∨ ∃ m, queue = [m] ∧ batch = [m]) :
    (∀ i ∈ nfpCcmMboxCopyIn caps batch, i.Inside caps) ↔
      16 ≤ caps.mboxLen ∧ 4 * batch.countP needsReserve ≤ caps.mboxLen - accounted batch := by
  have hbatch : batch = runQueueBatch caps queue := by
    rcases hb with hb | ⟨m, rfl, rfl⟩
    · exact hb
    · exact (runQueueBatch_single caps m).symm
  have hsize : 4 ≤ batchSize batch := by
    obtain ⟨m, rest, rfl⟩ := exists_cons_of_ne_nil hne
    rw [hbatch, runQueueBatch]
    simp only [batchSize, map_cons, sum_cons, msgSize]
    omega
  rw [copyIn_inside_iff_size]
  by_cases hl : 16 ≤ caps.mboxLen
  · have heq := batchSize_eq hl batch fun m hm => hacc m (runQueueBatch_sub (hbatch ▸ hm))
    have hle := runQueueBatch_accounted hl hacc
    rw [← hbatch] at hle
    constructor
    · intro h
      exact ⟨hl, by omega⟩
    · rintro ⟨-, h⟩
      omega
  · constructor
    · intro h
      omega
    · rintro ⟨h, -⟩
      exact absurd h hl

def defaultCaps : MboxCaps := { MboxCaps.reset with cmsgTypes := BitVec.allOnes 32 }

def oneWord : Skb := ⟨[10, 1, 0, 0], by decide⟩

def knownReply : Msg := ⟨oneWord, ⟨.queued, none, 4, 4, false⟩⟩

theorem defaultCaps_maxMsg : nfpCcmMboxMaxMsg defaultCaps = 488 := by decide +kernel

theorem defaultCaps_types : defaultCaps.cmsgTypes.getLsbD 10 = true := by decide

theorem knownReply_accepted : Accepted defaultCaps knownReply :=
  ⟨10, 4, 4, 4, none, .inl (by
    simp [nfpCcmMboxMsgPrepare, defaultCaps_maxMsg, defaultCaps_types, roundUp4, knownReply, oneWord, Skb.len,
      nfpCcmMboxMsgInit])⟩

def longReply : Msg := ⟨oneWord, ⟨.queued, none, 12, 9, false⟩⟩

theorem longReply_accepted : Accepted defaultCaps longReply :=
  ⟨10, 4, 9, 9, none, .inl (by
    simp [nfpCcmMboxMsgPrepare, defaultCaps_maxMsg, defaultCaps_types, roundUp4, longReply, oneWord, Skb.len,
      nfpCcmMboxMsgInit])⟩

theorem knownReply_inside : [longReply, knownReply, longReply].countP needsReserve = 2 ∧
    ∀ i ∈ nfpCcmMboxCopyIn defaultCaps [longReply, knownReply, longReply], i.Inside defaultCaps := by
  have hacc : ∀ m ∈ [longReply, knownReply, longReply], Accepted defaultCaps m := by
    simp only [mem_cons, not_mem_nil, or_false, forall_eq_or_imp, forall_eq]
    exact ⟨longReply_accepted, knownReply_accepted, longReply_accepted⟩
  refine ⟨by decide, ?_⟩
  exact (batch_inside_iff defaultCaps _ _ (cons_ne_nil _ _) hacc (.inl rfl)).mpr ⟨by decide, by decide⟩

def unknownReply : Msg := ⟨oneWord, ⟨.queued, none, 488, 0, false⟩⟩

theorem unknownReply_overruns :
    nfpCcmMboxMsgPrepare defaultCaps oneWord 10 4 0 0 none = .ok unknownReply ∧
      .word (defaultCaps.mboxOff + defaultCaps.mboxLen) (tlvWord .endTlv 0) ∈
        nfpCcmMboxCopyIn defaultCaps (runQueueBatch defaultCaps [unknownReply]) :=
  ⟨by
    simp [nfpCcmMboxMsgPrepare, defaultCaps_maxMsg, defaultCaps_types, roundUp4, unknownReply, oneWord, Skb.len,
      nfpCcmMboxMsgInit],
    by decide +kernel⟩

end NfpDriver.Mbox
