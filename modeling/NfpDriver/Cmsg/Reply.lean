import NfpDriver.Library.Bytes
import NfpDriver.Maps.Cache

namespace NfpDriver.Cmsg

open Octets MapCache List Nat

structure MapConfig where
  cmsgKeySz : BitVec 32
  cmsgValSz : BitVec 32
  keySize : BitVec 32
  valueSize : BitVec 32
  key_pos : 0 < keySize.toNat

-- the length of a received control message is the 16-bit data length of its descriptor
structure RxSkb where
  data : Bytes
  len_lt : data.length < 2 ^ 16

def RxSkb.len (skb : RxSkb) : BitVec 32 := BitVec.ofNat 32 skb.data.length

def RxSkb.rc (skb : RxSkb) : BitVec 32 := readBe32 skb.data 4

def RxSkb.count (skb : RxSkb) : BitVec 32 := readBe32 skb.data 8

variable (cfg : MapConfig)

def cmsgMapReplySize (n : BitVec 32) : BitVec 32 :=
  BitVec.ofNat 32 cmsgReplyMapOpSize + (cfg.cmsgKeySz + cfg.cmsgValSz) * n

def replyKey (n : BitVec 32) : Region :=
  ⟨cmsgReplyMapOpSize + (cfg.cmsgKeySz * n + cfg.cmsgValSz * n).toNat, cfg.keySize.toNat⟩

def replyVal (n : BitVec 32) : Region :=
  ⟨cmsgReplyMapOpSize + (cfg.cmsgKeySz * (n + 1) + cfg.cmsgValSz * n).toNat, cfg.valueSize.toNat⟩

def copiesKey (op : Op) : Bool := op = .getfirst || op = .getnext

def copiesValue (op : Op) : Bool := op = .lookup

def RxSkb.err (skb : RxSkb) : Int := nfpBpfCtrlRcToErrno skb.rc.toNat

def RxSkb.replyEntries (skb : RxSkb) : BitVec 32 := skb.count + if skb.err ≠ 0 then 1 else 0

def RxSkb.finalErr (skb : RxSkb) (nEntries : Nat) : Int := if nEntries > 1 ∧ skb.count ≠ 0 then 0 else skb.err

def entryOpReads (op : Op) (nEntries : Nat) (skb : RxSkb) : Except Int (List Region) :=
  if skb.len.toNat < cmsgReplyMapOpSize then .error eio
  else if skb.finalErr nEntries ≠ 0 then .error (skb.finalErr nEntries)
  else if skb.len ≠ cmsgMapReplySize cfg skb.replyEntries then .error eio
  else
    .ok ((if copiesKey op then [replyKey cfg 0] else []) ++ if copiesValue op then [replyVal cfg 0] else [])

def keyMatches (mem : Nat → BitVec 8) (key : Nat → BitVec 8) (r : Region) : Bool :=
  (List.range r.size).all fun j => mem (r.off + j) = key j

def cacheGetReads (op : Op) (mem key : Nat → BitVec 8) (count : BitVec 32) : Nat → BitVec 32 → List Region
  | 0, _ => []
  | left + 1, i =>
    replyKey cfg i ::
      if keyMatches mem key (replyKey cfg i) = false then cacheGetReads op mem key count left (i + 1)
      else if op = .lookup then [replyVal cfg i]
      else if op = .getnext then if i + 1 = count then [] else [replyKey cfg (i + 1)]
      else []

def EntryInside (skb : RxSkb) (i : BitVec 32) : Prop :=
  (replyKey cfg i).Inside skb.data.length ∧ (replyVal cfg i).Inside skb.data.length

def ReplyInside (op : Op) (nEntries : Nat) (skb : RxSkb) : Prop :=
  ∀ reads, entryOpReads cfg op nEntries skb = .ok reads →
    (∀ r ∈ reads, r.Inside skb.data.length) ∧
      (nfpBpfCtrlOpCacheFill op = true → ∀ i < skb.count, EntryInside cfg skb i)

variable {cfg}

variable {op : Op} {skb : RxSkb} {nEntries : Nat} {reads : List Region}

theorem cacheGetReads_inside {mem key : Nat → BitVec 8} (h : ∀ i < skb.count, EntryInside cfg skb i) {left : Nat}
    {i : BitVec 32} (hi : i.toNat + left = skb.count.toNat) :
    ∀ r ∈ cacheGetReads cfg op mem key skb.count left i, r.Inside skb.data.length := by
  induction left generalizing i with
  | zero => exact fun r hr => nomatch hr
  | succ left ih =>
    have hlt : i < skb.count := BitVec.lt_def.mpr (by omega)
    have hnext : (i + 1).toNat = i.toNat + 1 := by
      exact mod_eq_of_lt (show i.toNat + 1 < 2 ^ 32 by omega)
    intro r hr
    rw [cacheGetReads, mem_cons] at hr
    rcases hr with rfl | hr
    · exact (h i hlt).1
    split at hr
    · exact ih (by omega) r hr
    split at hr
    · rw [mem_singleton.mp hr]
      exact (h i hlt).2
    split at hr
    · split at hr
      · cases hr
      next hne =>
      rw [mem_singleton.mp hr]
      refine (h (i + 1) (BitVec.lt_def.mpr ?_)).1
      have : (i + 1).toNat ≠ skb.count.toNat := fun he => hne (BitVec.eq_of_toNat_eq he)
      omega
    · cases hr

def MapConfig.entrySz (cfg : MapConfig) : Nat := (cfg.cmsgKeySz + cfg.cmsgValSz).toNat

theorem replyKey_off (i : BitVec 32) :
    replyKey cfg i = ⟨cmsgReplyMapOpSize + cfg.entrySz * i.toNat % 2 ^ 32, cfg.keySize.toNat⟩ := by
  rw [replyKey, ← BitVec.add_mul, BitVec.toNat_mul]
  rfl

theorem replyVal_off (i : BitVec 32) :
    replyVal cfg i =
      ⟨cmsgReplyMapOpSize + (cfg.cmsgKeySz.toNat + cfg.entrySz * i.toNat) % 2 ^ 32, cfg.valueSize.toNat⟩ := by
  have hsum : cfg.cmsgKeySz * (i + 1) + cfg.cmsgValSz * i = cfg.cmsgKeySz + (cfg.cmsgKeySz + cfg.cmsgValSz) * i := by
    rw [BitVec.mul_add, show cfg.cmsgKeySz * 1 = cfg.cmsgKeySz from BitVec.mul_one _, BitVec.add_mul]
    ac_rfl
  rw [replyVal, hsum, BitVec.toNat_add, BitVec.toNat_mul, add_mod_mod]
  rfl

-- the extra entry of a reply that reports an error
def RxSkb.errEntry (skb : RxSkb) : Nat := if skb.err ≠ 0 then 1 else 0

def productBytes (cfg : MapConfig) (skb : RxSkb) : Nat := cfg.entrySz * (skb.count.toNat + skb.errEntry) % 2 ^ 32

-- what the computed size leaves from the start of the last good entry on
def lastRoom (cfg : MapConfig) (skb : RxSkb) : Nat := cfg.entrySz * (1 + skb.errEntry) % 2 ^ 32

def MapConfig.ValueFits (cfg : MapConfig) (room : Nat) : Prop :=
  cfg.valueSize = 0 ∨ cfg.cmsgKeySz.toNat + cfg.valueSize.toNat ≤ room

def Whole (cfg : MapConfig) (op : Op) (skb : RxSkb) : Prop :=
  match op with
  | .lookup =>
    cfg.valueSize = 0 ∨
      1 ≤ skb.count.toNat ∧ cfg.cmsgKeySz.toNat + cfg.valueSize.toNat ≤ productBytes cfg skb
  | .getfirst | .getnext =>
    1 ≤ skb.count.toNat ∧ cfg.entrySz * (skb.count.toNat - 1) + lastRoom cfg skb < 2 ^ 32 ∧
      cfg.keySize.toNat ≤ lastRoom cfg skb ∧ cfg.ValueFits (lastRoom cfg skb)
  | .update | .delete => True

-- an entry size that wraps puts the second key behind the message, so from then on nothing wraps
theorem keys_span {e k c len : Nat} (he : e < 2 ^ 32) (hlen : len < 2 ^ 16)
    (h : ∀ i < c, cmsgReplyMapOpSize + e * i % 2 ^ 32 + k ≤ len) :
    ∀ i < c, cmsgReplyMapOpSize + e * i + k ≤ len := by
  intro i hi
  induction i with
  | zero => exact h 0 hi
  | succ i ih =>
    have hone := h 1 (by omega)
    have hthis := h (i + 1) hi
    rwa [mod_eq_of_lt (by rw [mul_succ]; omega)] at hthis

theorem entries_inside_iff (hc : 1 ≤ skb.count.toNat) :
    (∀ i < skb.count, EntryInside cfg skb i) ↔
      cmsgReplyMapOpSize + cfg.entrySz * (skb.count.toNat - 1) + cfg.keySize.toNat ≤ skb.data.length ∧
        (cfg.valueSize = 0 ∨
          cmsgReplyMapOpSize + cfg.entrySz * (skb.count.toNat - 1) + cfg.cmsgKeySz.toNat + cfg.valueSize.toNat ≤
            skb.data.length) := by
  have hlen := skb.len_lt
  have hkey := cfg.key_pos
  have he : cfg.entrySz < 2 ^ 32 := BitVec.isLt _
  have hcount := skb.count.isLt
  have entry (i : BitVec 32) : EntryInside cfg skb i ↔
      cmsgReplyMapOpSize + cfg.entrySz * i.toNat % 2 ^ 32 + cfg.keySize.toNat ≤ skb.data.length ∧
        (cfg.valueSize.toNat = 0 ∨
          cmsgReplyMapOpSize + (cfg.cmsgKeySz.toNat + cfg.entrySz * i.toNat) % 2 ^ 32 + cfg.valueSize.toNat ≤
            skb.data.length) := by
    rw [EntryInside, replyKey_off, replyVal_off, inside_mk, inside_mk, or_iff_right (by omega)]
  have hzero : cfg.valueSize = 0 ↔ cfg.valueSize.toNat = 0 := BitVec.toNat_inj.symm
  rw [hzero]
  constructor
  · intro h
    have hat (i : Nat) (hi : i < skb.count.toNat) := (entry (BitVec.ofNat 32 i)).mp
      (h _ (by rw [BitVec.lt_def, BitVec.toNat_ofNat, mod_eq_of_lt (hi.trans hcount)]; exact hi))
    have hnat (i : Nat) (hi : i < skb.count.toNat) : (BitVec.ofNat 32 i).toNat = i := by
      rw [BitVec.toNat_ofNat, mod_eq_of_lt (hi.trans hcount)]
    have hlast := keys_span he hlen (fun i hi => by simpa only [hnat i hi] using (hat i hi).1)
      (skb.count.toNat - 1) (by omega)
    refine ⟨hlast, ?_⟩
    rcases Nat.eq_zero_or_pos cfg.valueSize.toNat with hv | hv
    · exact .inl hv
    have hfirst := (hat 0 (by omega)).2.resolve_left (by omega)
    have hend := (hat (skb.count.toNat - 1) (by omega)).2.resolve_left (by omega)
    have hk := cfg.cmsgKeySz.isLt
    rw [hnat 0 (by omega), mul_zero, add_zero, mod_eq_of_lt hk] at hfirst
    rw [hnat _ (by omega), mod_eq_of_lt (by omega)] at hend
    exact .inr (by omega)
  · rintro ⟨hk, hv⟩ i hi
    have hle : cfg.entrySz * i.toNat ≤ cfg.entrySz * (skb.count.toNat - 1) :=
      Nat.mul_le_mul_left _ (le_sub_one_of_lt (BitVec.lt_def.mp hi))
    rw [entry, mod_eq_of_lt (by omega)]
    refine ⟨by omega, hv.imp_right fun hv => ?_⟩
    omega

theorem replyEntries_product : cfg.entrySz * skb.replyEntries.toNat % 2 ^ 32 = productBytes cfg skb := by
  have hentries : skb.replyEntries.toNat = (skb.count.toNat + skb.errEntry) % 2 ^ 32 := by
    rw [RxSkb.replyEntries, RxSkb.errEntry, BitVec.toNat_add]
    split <;> rfl
  rw [hentries, mul_mod_mod, productBytes]

theorem entryOpReads_accepted (h : entryOpReads cfg op nEntries skb = .ok reads) :
    reads = (if copiesKey op then [replyKey cfg 0] else []) ++ (if copiesValue op then [replyVal cfg 0] else []) ∧
      skb.data.length = cmsgReplyMapOpSize + productBytes cfg skb ∧ (skb.count = 0 → productBytes cfg skb = 0) := by
  rw [entryOpReads] at h
  split at h
  · cases h
  next hlong =>
  split at h
  · cases h
  next herr =>
  split at h
  · cases h
  next hsize =>
  rw [not_not] at herr hsize
  have hlen := skb.len_lt
  have hval := congrArg BitVec.toNat hsize
  rw [RxSkb.len, BitVec.toNat_ofNat, mod_eq_of_lt (by omega), cmsgMapReplySize, BitVec.toNat_add, BitVec.toNat_mul,
    show (cfg.cmsgKeySz + cfg.cmsgValSz).toNat = cfg.entrySz from rfl, replyEntries_product, BitVec.toNat_ofNat] at hval
  rw [RxSkb.len, BitVec.toNat_ofNat, mod_eq_of_lt (by omega)] at hlong
  have hproduct : productBytes cfg skb < 2 ^ 32 := mod_lt _ (by decide)
  refine ⟨(Except.ok.inj h).symm, by omega, fun hzero => ?_⟩
  rw [RxSkb.finalErr, if_neg fun hc => hc.2 hzero] at herr
  rw [productBytes, RxSkb.errEntry, herr, hzero]
  exact congrArg (· % 2 ^ 32) (mul_zero _)

theorem first_value_inside (hlen : skb.data.length = cmsgReplyMapOpSize + productBytes cfg skb)
    (hempty : skb.count = 0 → productBytes cfg skb = 0) :
    (replyVal cfg 0).Inside skb.data.length ↔ Whole cfg .lookup skb := by
  have hzero : cfg.valueSize = 0 ↔ cfg.valueSize.toNat = 0 := BitVec.toNat_inj.symm
  have hoff : (cfg.cmsgKeySz.toNat + cfg.entrySz * (0 : BitVec 32).toNat) % 2 ^ 32 = cfg.cmsgKeySz.toNat :=
    mod_eq_of_lt cfg.cmsgKeySz.isLt
  rw [replyVal_off, inside_mk, hoff, Whole, hzero, hlen]
  refine or_congr_right' fun hpos => ⟨fun hin => ⟨?_, by omega⟩, fun ⟨_, hfits⟩ => by omega⟩
  by_contra hc
  have hnone : skb.count = 0 := BitVec.eq_of_toNat_eq (by simpa using hc)
  have := hempty hnone
  omega

theorem fill_reads_inside (hreads : entryOpReads cfg op nEntries skb = .ok reads) (hkey : copiesKey op = true)
    (hval : copiesValue op = false) :
    ((∀ r ∈ reads, r.Inside skb.data.length) ∧ ∀ i < skb.count, EntryInside cfg skb i) ↔
      1 ≤ skb.count.toNat ∧ ∀ i < skb.count, EntryInside cfg skb i := by
  obtain ⟨rfl, hlen, hempty⟩ := entryOpReads_accepted hreads
  simp only [hkey, hval, if_true, Bool.false_eq_true, if_false, append_nil, mem_singleton, forall_eq]
  constructor
  · rintro ⟨hfirst, hall⟩
    refine ⟨?_, hall⟩
    by_contra hc
    have hzero : skb.count = 0 := BitVec.eq_of_toNat_eq (by simpa using hc)
    rw [replyKey_off, inside_mk, hlen, hempty hzero] at hfirst
    have := cfg.key_pos
    omega
  · rintro ⟨hc, hall⟩
    exact ⟨(hall 0 (BitVec.lt_def.mpr hc)).1, hall⟩

-- a start of the last entry inside the message leaves no way for the rest of the product to wrap
theorem last_entry_inside (hlen : skb.data.length = cmsgReplyMapOpSize + productBytes cfg skb)
    (hc : 1 ≤ skb.count.toNat) :
    (∀ i < skb.count, EntryInside cfg skb i) ↔
      cfg.entrySz * (skb.count.toNat - 1) + lastRoom cfg skb < 2 ^ 32 ∧ cfg.keySize.toNat ≤ lastRoom cfg skb ∧
        cfg.ValueFits (lastRoom cfg skb) := by
  have hshort := skb.len_lt
  have hkey := cfg.key_pos
  have hroom : lastRoom cfg skb < 2 ^ 32 := mod_lt _ (by decide)
  have hproduct : productBytes cfg skb = (cfg.entrySz * (skb.count.toNat - 1) + lastRoom cfg skb) % 2 ^ 32 := by
    rw [productBytes, lastRoom, add_mod_mod, ← Nat.mul_add]
    congr 2
    omega
  rw [entries_inside_iff hc, MapConfig.ValueFits, hlen]
  generalize cfg.entrySz * (skb.count.toNat - 1) = start at *
  constructor
  · rintro ⟨hk, hv⟩
    have hwhole : start + lastRoom cfg skb < 2 ^ 32 := by omega
    rw [mod_eq_of_lt hwhole] at hproduct
    exact ⟨hwhole, by omega, hv.imp_right fun hv => by omega⟩
  · rintro ⟨hwhole, hk, hv⟩
    rw [mod_eq_of_lt hwhole] at hproduct
    exact ⟨by omega, hv.imp_right fun hv => by omega⟩

theorem accepted_inside_iff (hreads : entryOpReads cfg op nEntries skb = .ok reads) :
    ((∀ r ∈ reads, r.Inside skb.data.length) ∧
      (nfpBpfCtrlOpCacheFill op = true → ∀ i < skb.count, EntryInside cfg skb i)) ↔ Whole cfg op skb := by
  obtain ⟨hlist, hlen, hempty⟩ := entryOpReads_accepted hreads
  have fill (hkey : copiesKey op = true) (hval : copiesValue op = false) :=
    (fill_reads_inside hreads hkey hval).trans (and_congr_right fun hc => last_entry_inside hlen hc)
  cases op with
  | lookup =>
    rw [hlist, ← first_value_inside hlen hempty]
    exact ⟨fun h => h.1 _ (mem_singleton.mpr rfl),
      fun h => ⟨fun r hr => mem_singleton.mp hr ▸ h, fun hf => nomatch hf⟩⟩
  | getfirst | getnext =>
    refine ⟨fun h => (fill rfl rfl).mp ⟨h.1, h.2 rfl⟩, fun h => ?_⟩
    obtain ⟨hin, hall⟩ := (fill rfl rfl).mpr h
    exact ⟨hin, fun _ => hall⟩
  | update | delete =>
    rw [hlist]
    exact ⟨fun _ => trivial, fun _ => ⟨fun r hr => (nomatch hr), fun hf => nomatch hf⟩⟩

theorem reply_inside_iff (cfg : MapConfig) (op : Op) (nEntries : Nat) (skb : RxSkb) :
    (ReplyInside cfg op nEntries skb ↔
      ((∃ reads, entryOpReads cfg op nEntries skb = .ok reads) → Whole cfg op skb)) ∧
    (ReplyInside cfg op nEntries skb → (∃ reads, entryOpReads cfg op nEntries skb = .ok reads) →
      nfpBpfCtrlOpCacheFill op = true → ∀ (later : Op) (mem key : Nat → BitVec 8),
        ∀ r ∈ cacheGetReads cfg later mem key skb.count skb.count.toNat 0, r.Inside skb.data.length) := by
  refine ⟨⟨?_, ?_⟩, ?_⟩
  · rintro h ⟨reads, hreads⟩
    exact (accepted_inside_iff hreads).mp (h reads hreads)
  · intro h reads hreads
    exact (accepted_inside_iff hreads).mpr (h ⟨reads, hreads⟩)
  · rintro h ⟨reads, hreads⟩ hfill later mem key
    exact cacheGetReads_inside ((h reads hreads).2 hfill) (Nat.zero_add _)

def wordMap : MapConfig := ⟨64, 64, 4, 8, by decide⟩

def emptySuccess : RxSkb := ⟨[0x83, 1, 0, 0, 0, 0, 0, 0, 0, 0, 0, 0, 0, 0, 0, 0], by decide⟩

theorem empty_success_read_outside : ¬ ReplyInside wordMap .lookup 1 emptySuccess := by
  intro h
  have hin := (h [⟨80, 8⟩] (by decide)).1 ⟨80, 8⟩ (mem_singleton.mpr rfl)
  exact absurd (hin 0 (by decide)) (by decide)

end NfpDriver.Cmsg
