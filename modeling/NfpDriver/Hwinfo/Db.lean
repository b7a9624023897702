import Mathlib.Data.BitVec
import NfpDriver.Library.CString
import NfpDriver.Library.Loop

namespace NfpDriver.Hwinfo

open CString Option

def einval : Int := 22

def sizeMin : Nat := 0x100

def version2 : BitVec 32 := 0x48490200

def versionUpdating : BitVec 32 := 1

def dataOff : Nat := 16

def le32 (b : Buffer) (p : Nat) : BitVec 32 :=
  (b.byte (p + 3)).append ((b.byte (p + 2)).append ((b.byte (p + 1)).append (b.byte p)))

inductive Acquire where
  | found (pageSize : BitVec 32)
  | enoent
  | failed

structure Attempt where
  resource : Acquire
  memory : Bool
  readRet : BitVec 32
  contents : Nat → Byte
  startTime : Nat
  interrupted : Bool

def cppSize (a : Attempt) : Option (BitVec 64) :=
  match a.resource with
  | .found pageSize =>
    let size := pageSize.setWidth 64 <<< 8
    if size.toNat < sizeMin then none else some size
  | .enoent => some 0xe000
  | .failed => none

-- the allocation has one byte more than the table, it is set to NUL once the version has been checked
def hwinfoTryFetch (a : Attempt) : Option Buffer :=
  (cppSize a).bind fun size =>
    if ¬a.memory then none
    else if a.readRet.signExtend 64 ≠ size then none
    else
      let db : Buffer := ⟨size.toNat + 1, a.contents⟩
      if le32 db 0 &&& versionUpdating ≠ 0 then none
      else if le32 db 0 ≠ version2 then none
      else some { db with byte := fun i => if i = size.toNat then 0 else db.byte i }

def fetchStep (attempts : Nat → Attempt) (waitUntil : Nat) (i : Nat) : Option Buffer ⊕ Nat :=
  match hwinfoTryFetch (attempts i) with
  | some db => .inl (some db)
  | none => if (attempts i).interrupted ∨ waitUntil < (attempts i).startTime then .inl none else .inr (i + 1)

-- in the walk, the validation and the lookup `none` is a read outside the buffer
def hwinfoDbWalk (db : Buffer) (fin key : Nat) : Option Int :=
  if hkey : key < db.len then
    if db.byte key = 0 ∨ fin ≤ key then some 0
    else
      (cstr db key).bind fun k =>
        let val := key + k.length + 1
        if fin ≤ val then some (-einval)
        else (cstr db val).bind fun v =>
          if fin < val + v.length + 1 then some (-einval) else hwinfoDbWalk db fin (val + v.length + 1)
  else none
termination_by db.len - key

section Crc

variable (crc32Be : BitVec 32 → List Byte → BitVec 32)

def crc32PosixEnd (crc : BitVec 32) (totalLen : Nat) : BitVec 32 :=
  if totalLen = 0 then ~~~crc
  else crc32PosixEnd (crc32Be crc [BitVec.ofNat 8 (totalLen % 256)]) (totalLen / 256)
termination_by totalLen

def crc32Posix (buff : List Byte) : BitVec 32 := crc32PosixEnd crc32Be (crc32Be 0 buff) buff.length

def hwinfoDbValidate (db : Buffer) (len : BitVec 32) : Option Int :=
  let size := le32 db 4
  if size > len then some (-einval)
  else
    let size := size - 4
    if db.len < size.toNat + 4 then none
    else if crc32Posix crc32Be ((List.range size.toNat).map db.byte) ≠ le32 db size.toNat then some (-einval)
    else hwinfoDbWalk db (dataOff + size.toNat) dataOff

end Crc

def lookupFrom (db : Buffer) (fin : Nat) (lookup : List Byte) (key : Nat) : Option (Option Nat) :=
  if hkey : key < db.len then
    if db.byte key = 0 ∨ fin ≤ key then some none
    else
      (cstr db key).bind fun k =>
        let val := key + k.length + 1
        if k = lookup then some (some val)
        else (cstr db val).bind fun v => lookupFrom db fin lookup (val + v.length + 1)
  else none
termination_by db.len - key

-- where both loops stop: the size counts from the start of the table, `hwinfo->data` lies behind its header
def walkEnd (db : Buffer) : Nat := dataOff + (le32 db 4).toNat - 4

def nfpHwinfoLookup (db : Buffer) (lookup : List Byte) : Option (Option Nat) :=
  lookupFrom db (walkEnd db) lookup dataOff

-- the CRC word, the last of the `size` bytes
def declaredEnd (db : Buffer) : Nat := (le32 db 4).toNat - 4

def firstValue (ps : List Pair) (lookup : List Byte) : Option Nat :=
  (ps.find? fun p => p.key = lookup).map Pair.valueAt

def Stops (db : Buffer) (fin e : Nat) : Prop := e < db.len ∧ (db.byte e = 0 ∨ fin ≤ e)

structure Decomposed (db : Buffer) (ps : List Pair) (e : Nat) : Prop where
  pairs : Pairs db dataOff ps e
  inside : ps = [] ∨ e ≤ declaredEnd db
  stop : Stops db (walkEnd db) e

structure TableSound (crc32Be : BitVec 32 → List Byte → BitVec 32) (db : Buffer) : Prop where
  reads : ∃ err, hwinfoDbValidate crc32Be db (BitVec.ofNat 32 (db.len - 1)) = some err
  accepted : hwinfoDbValidate crc32Be db (BitVec.ofNat 32 (db.len - 1)) = some 0 →
    ∃ ps e, Decomposed db ps e ∧ ∀ lookup, nfpHwinfoLookup db lookup = some (firstValue ps lookup)

def Sound (crc32Be : BitVec 32 → List Byte → BitVec 32) (attempts : Nat → Attempt) (waitUntil : Nat) : Prop :=
  ∃ r, Loop.Returns (fetchStep attempts waitUntil) 0 r ∧ ∀ db, r = some db → TableSound crc32Be db

def Overflows (db : Buffer) (fin e : Nat) : Prop :=
  e < fin ∧ db.byte e ≠ 0 ∧ ∃ key, cstr db e = some key ∧
    (fin ≤ e + key.length + 1 ∨
      ∃ value, cstr db (e + key.length + 1) = some value ∧ fin < e + key.length + 1 + value.length + 1)

def WellFormed (db : Buffer) : Prop :=
  ∃ ps e, Decomposed db ps e ∨ Pairs db dataOff ps e ∧ Overflows db (walkEnd db) e

def WellSized (crc32Be : BitVec 32 → List Byte → BitVec 32) (db : Buffer) : Prop :=
  (le32 db 4).toNat < db.len → 4 ≤ (le32 db 4).toNat ∧
    (crc32Posix crc32Be ((List.range ((le32 db 4).toNat - 4)).map db.byte) = le32 db ((le32 db 4).toNat - 4) →
      WellFormed db)

variable {ps : List Pair} {db : Buffer} {a : Attempt}

section Walk

variable {db : Buffer} {fin key e : Nat}

theorem cstr_byte {k : List Byte} (hk : cstr db key = some k) (hne : k ≠ []) : key < db.len ∧ db.byte key ≠ 0 := by
  have hlt : key < db.len := lt_of_le_of_lt (Nat.le_add_right _ _) (cstr_bound hk)
  exact ⟨hlt, fun h0 => hne (some.inj (hk.symm.trans (cstr_zero hlt h0)))⟩

theorem walk_cons {k v : List Byte} (hk : cstr db key = some k) (hne : k ≠ [])
    (hv : cstr db (key + k.length + 1) = some v) (hfin : key + k.length + 1 + v.length + 1 ≤ fin) :
    hwinfoDbWalk db fin key = hwinfoDbWalk db fin (key + k.length + 1 + v.length + 1) := by
  obtain ⟨hlt, h0⟩ := cstr_byte hk hne
  rw [hwinfoDbWalk, dif_pos hlt, if_neg (not_or.mpr ⟨h0, by omega⟩), hk, bind_some, if_neg (by omega), hv, bind_some,
    if_neg (by omega)]

theorem walk_stops (hps : Pairs db key ps e) (hle : e ≤ fin) (hstop : Stops db fin e) :
    hwinfoDbWalk db fin key = some 0 := by
  induction hps with
  | nil p => rw [hwinfoDbWalk, dif_pos hstop.1, if_pos hstop.2]
  | cons hk hne hv hps ih =>
    have hpe := hps.le
    rw [walk_cons hk hne hv (by omega)]
    exact ih hle hstop

theorem walk_overflows (hps : Pairs db key ps e) (hover : Overflows db fin e) :
    hwinfoDbWalk db fin key = some (-einval) := by
  induction hps with
  | nil p =>
    obtain ⟨hlt, h0, k, hk, hend⟩ := hover
    have hbound := cstr_bound hk
    rw [hwinfoDbWalk, dif_pos (by omega), if_neg (not_or.mpr ⟨h0, not_le.mpr hlt⟩), hk, bind_some]
    by_cases hval : fin ≤ p + k.length + 1
    · rw [if_pos hval]
    · obtain ⟨v, hv, hfin⟩ := hend.resolve_left hval
      rw [if_neg hval, hv, bind_some, if_pos hfin]
  | cons hk hne hv hps ih =>
    have hpe := hps.le
    have hlt := hover.1
    rw [walk_cons hk hne hv (by omega)]
    exact ih hover

theorem walk_ends {err : Int} (hle : key ≤ fin) (h : hwinfoDbWalk db fin key = some err) :
    ∃ ps e, Pairs db key ps e ∧ (err = 0 ∨ Overflows db fin e) := by
  induction hn : db.len - key using Nat.strongRecOn generalizing key with
  | ind n ih =>
    rw [hwinfoDbWalk] at h
    by_cases hk : key < db.len
    · rw [dif_pos hk] at h
      by_cases hstop : db.byte key = 0 ∨ fin ≤ key
      · rw [if_pos hstop] at h
        exact ⟨[], key, .nil key, .inl (some.inj h).symm⟩
      rw [if_neg hstop] at h
      rw [not_or, not_le] at hstop
      obtain ⟨k, hck, h⟩ := bind_eq_some_iff.mp h
      have hne : k ≠ [] := fun heq => cstr_ne_nil hk hstop.1 (heq ▸ hck)
      by_cases hval : fin ≤ key + k.length + 1
      · exact ⟨[], key, .nil key, .inr ⟨hstop.2, hstop.1, k, hck, .inl hval⟩⟩
      rw [if_neg hval] at h
      obtain ⟨v, hcv, h⟩ := bind_eq_some_iff.mp h
      by_cases hover : fin < key + k.length + 1 + v.length + 1
      · exact ⟨[], key, .nil key, .inr ⟨hstop.2, hstop.1, k, hck, .inr ⟨v, hcv, hover⟩⟩⟩
      rw [if_neg hover] at h
      obtain ⟨ps, e, hps, he⟩ := ih _ (by omega) (not_lt.mp hover) h rfl
      exact ⟨_, e, .cons hck hne hcv hps, he⟩
    · rw [dif_neg hk] at h
      cases h

end Walk

theorem lookup_first {fin key e : Nat} (hps : Pairs db key ps e) (hle : e ≤ fin) (hstop : Stops db fin e)
    (lookup : List Byte) : lookupFrom db fin lookup key = some (firstValue ps lookup) := by
  induction hps with
  | nil p =>
    rw [lookupFrom, dif_pos hstop.1, if_pos hstop.2]
    rfl
  | @cons p e k v ps hck hne hcv hps ih =>
    have hpe := hps.le
    obtain ⟨hlt, h0⟩ := cstr_byte hck hne
    rw [lookupFrom, dif_pos hlt, if_neg (not_or.mpr ⟨h0, by omega⟩), hck, bind_some, firstValue, List.find?_cons]
    by_cases hkey : k = lookup
    · rw [if_pos hkey]
      simp [hkey]
    · rw [if_neg hkey, hcv, bind_some, ih hle hstop]
      simp [hkey, firstValue]

theorem Decomposed.le {e : Nat} (h : Decomposed db ps e) (h4 : 4 ≤ (le32 db 4).toNat) : e ≤ walkEnd db := by
  rw [walkEnd]
  rcases h.inside with rfl | hle
  · cases h.pairs
    omega
  · rw [declaredEnd] at hle
    omega

structure Fetched (db : Buffer) : Prop where
  min : sizeMin < db.len
  max : db.len ≤ 2 ^ 31

theorem cppSize_range {size : BitVec 64} (h : cppSize a = some size) : sizeMin ≤ size.toNat ∧ size.toNat < 2 ^ 40 := by
  rw [cppSize] at h
  split at h
  · next pageSize _ =>
    dsimp only at h
    split at h
    · cases h
    next hmin =>
    cases h
    refine ⟨not_lt.mp hmin, ?_⟩
    rw [BitVec.toNat_shiftLeft, BitVec.toNat_setWidth, Nat.shiftLeft_eq]
    exact lt_of_le_of_lt (Nat.mod_le _ _) (by omega)
  · cases h
    decide
  · cases h

-- a negative result of the read never compares equal to the size of a resource
theorem signExtend_range {x : BitVec 32} (h : (x.signExtend 64).toNat < 2 ^ 40) : (x.signExtend 64).toNat < 2 ^ 31 := by
  rw [BitVec.toNat_signExtend] at h ⊢
  rw [BitVec.toNat_setWidth, Nat.mod_eq_of_lt (by omega)] at h ⊢
  rw [BitVec.msb_eq_decide] at h ⊢
  by_cases hm : 2 ^ (32 - 1) ≤ x.toNat
  · simp only [hm, decide_true, if_true] at h
    omega
  · simp only [hm, decide_false] at h ⊢
    simp only [Bool.false_eq_true, if_false]
    omega

theorem tryFetch_fetched (h : hwinfoTryFetch a = some db) : Fetched db := by
  obtain ⟨size, hs, h⟩ := bind_eq_some_iff.mp h
  obtain ⟨hmin, hmax⟩ := cppSize_range hs
  split at h
  · cases h
  split at h
  · cases h
  next hret =>
  have hlt : size.toNat < 2 ^ 31 := by
    rw [not_not] at hret
    rw [← hret] at hmax ⊢
    exact signExtend_range hmax
  dsimp only at h
  split at h
  · cases h
  split at h
  · cases h
  cases h
  exact ⟨Nat.lt_succ_of_le hmin, hlt⟩

section Validate

variable {crc32Be : BitVec 32 → List Byte → BitVec 32} {db : Buffer} (hdb : Fetched db)

include hdb

theorem validate_large (h : db.len ≤ (le32 db 4).toNat) :
    hwinfoDbValidate crc32Be db (BitVec.ofNat 32 (db.len - 1)) = some (-einval) := by
  have hmin := hdb.min
  refine if_pos (BitVec.lt_def.mpr ?_)
  rw [BitVec.toNat_ofNat, Nat.mod_eq_of_lt (by omega)]
  omega

theorem validate_small (h : (le32 db 4).toNat < 4) :
    hwinfoDbValidate crc32Be db (BitVec.ofNat 32 (db.len - 1)) = none := by
  have hmin : 256 < db.len := hdb.min
  have hmax := hdb.max
  have hle : ¬le32 db 4 > BitVec.ofNat 32 (db.len - 1) := by
    refine fun hgt => ?_
    have := BitVec.lt_def.mp hgt
    rw [BitVec.toNat_ofNat, Nat.mod_eq_of_lt (by omega)] at this
    omega
  have hwrap : db.len < (le32 db 4 - 4).toNat + 4 := by
    change db.len < (2 ^ 32 - 4 + (le32 db 4).toNat) % 2 ^ 32 + 4
    omega
  rw [hwinfoDbValidate]
  rw [if_neg hle, if_pos hwrap]

theorem validate_sized (h4 : 4 ≤ (le32 db 4).toNat) (hlt : (le32 db 4).toNat < db.len) :
    hwinfoDbValidate crc32Be db (BitVec.ofNat 32 (db.len - 1)) =
      if crc32Posix crc32Be ((List.range ((le32 db 4).toNat - 4)).map db.byte) ≠ le32 db ((le32 db 4).toNat - 4) then
        some (-einval)
      else hwinfoDbWalk db (walkEnd db) dataOff := by
  have hmax := hdb.max
  have hle : ¬le32 db 4 > BitVec.ofNat 32 (db.len - 1) := by
    refine fun hgt => ?_
    have := BitVec.lt_def.mp hgt
    rw [BitVec.toNat_ofNat, Nat.mod_eq_of_lt (by omega)] at this
    omega
  have hsub : (le32 db 4 - 4).toNat = (le32 db 4).toNat - 4 := BitVec.toNat_sub_of_le (BitVec.le_def.mpr h4)
  have hend : dataOff + ((le32 db 4).toNat - 4) = walkEnd db := by
    rw [walkEnd]
    omega
  rw [hwinfoDbValidate]
  dsimp only
  rw [if_neg hle, hsub, if_neg (by omega), hend]

theorem wellFormed_of_sound (h : TableSound crc32Be db) : WellSized crc32Be db := by
  intro hlt
  obtain ⟨err, herr⟩ := h.reads
  have h4 : 4 ≤ (le32 db 4).toNat := by
    by_contra h4
    rw [validate_small hdb (not_le.mp h4)] at herr
    cases herr
  refine ⟨h4, fun hcrc => ?_⟩
  rw [validate_sized hdb h4 hlt, if_neg (not_not.mpr hcrc)] at herr
  obtain ⟨ps, e, hps, rfl | hover⟩ := walk_ends (by rw [walkEnd]; omega) herr
  · obtain ⟨ps, e, hdec, -⟩ := h.accepted (by rw [validate_sized hdb h4 hlt, if_neg (not_not.mpr hcrc), herr])
    exact ⟨ps, e, .inl hdec⟩
  · exact ⟨ps, e, .inr ⟨hps, hover⟩⟩

theorem sound_of_wellFormed (h : WellSized crc32Be db) : TableSound crc32Be db := by
  by_cases hlt : (le32 db 4).toNat < db.len
  · obtain ⟨h4, hform⟩ := h hlt
    by_cases hcrc : crc32Posix crc32Be ((List.range ((le32 db 4).toNat - 4)).map db.byte) =
        le32 db ((le32 db 4).toNat - 4)
    · have hwalk : hwinfoDbValidate crc32Be db _ = _ := validate_sized hdb h4 hlt
      rw [if_neg (not_not.mpr hcrc)] at hwalk
      obtain ⟨ps, e, hdec | ⟨hps, hover⟩⟩ := hform hcrc
      · have hle := hdec.le h4
        rw [walk_stops hdec.pairs hle hdec.stop] at hwalk
        exact ⟨⟨0, hwalk⟩, fun _ => ⟨ps, e, hdec, lookup_first hdec.pairs hle hdec.stop⟩⟩
      · rw [walk_overflows hps hover] at hwalk
        exact ⟨⟨_, hwalk⟩, fun h0 => nomatch hwalk.symm.trans h0⟩
    · have hrej : hwinfoDbValidate crc32Be db _ = _ := validate_sized hdb h4 hlt
      rw [if_pos hcrc] at hrej
      exact ⟨⟨_, hrej⟩, fun h0 => nomatch hrej.symm.trans h0⟩
  · have hrej : hwinfoDbValidate crc32Be db _ = _ := validate_large hdb (not_lt.mp hlt)
    exact ⟨⟨_, hrej⟩, fun h0 => nomatch hrej.symm.trans h0⟩

end Validate

section Fetch

variable {attempts : Nat → Attempt} {waitUntil : Nat}

theorem fetch_terminates (hclock : ∃ i, waitUntil < (attempts i).startTime) :
    ∃ r, Loop.Returns (fetchStep attempts waitUntil) 0 r := by
  obtain ⟨last, hlast⟩ := hclock
  refine Loop.terminates (fun i => i ≤ last) (fun i => last - i) (fun i j hi h => ?_) (Nat.zero_le last)
  rw [fetchStep] at h
  split at h
  · cases h
  split at h
  · cases h
  next hgo =>
  cases h
  have hne : i ≠ last := fun heq => hgo (.inr (heq ▸ hlast))
  omega

theorem fetch_fetched {i : Nat} (h : Loop.Returns (fetchStep attempts waitUntil) i (some db)) : Fetched db := by
  obtain ⟨n, hn⟩ := h
  induction n generalizing i with
  | zero => cases hn
  | succ n ih =>
    rw [Loop.exec, fetchStep] at hn
    cases hf : hwinfoTryFetch (attempts i) with
    | some db' =>
      rw [hf] at hn
      cases hn
      exact tryFetch_fetched hf
    | none =>
      rw [hf] at hn
      split_ifs at hn with hstop
      · cases hn
      · exact ih hn

end Fetch

section Tables

variable (fields : List Byte)

-- a version 2 header, then the rest of the table
def table (i : Nat) : Byte := ([0, 2, 0x49, 0x48] ++ fields).getD i 0

def fetchTable (i : Nat) : Attempt := ⟨.found 1, true, 256, table fields, i, false⟩

def tableDb : Buffer := ⟨257, fun i => if i = 256 then 0 else table fields i⟩

theorem fetchTable_returns (waitUntil : Nat) :
    Loop.Returns (fetchStep (fetchTable fields) waitUntil) 0 (some (tableDb fields)) := by
  have hver : le32 ⟨257, table fields⟩ 0 = version2 := by
    change (0x48 : Byte).append ((0x49 : Byte).append ((2 : Byte).append (0 : Byte))) = version2
    decide
  have hfetch : hwinfoTryFetch (fetchTable fields 0) = some (tableDb fields) := by
    change (if le32 ⟨257, table fields⟩ 0 &&& versionUpdating ≠ 0 then none
      else if le32 ⟨257, table fields⟩ 0 ≠ version2 then none else _) = _
    rw [hver, if_neg (by decide), if_neg (fun h => h rfl)]
    rfl
  exact (Loop.returns_inl (by rw [fetchStep, hfetch])).mpr rfl

end Tables

def crcBit (crc : BitVec 32) : BitVec 32 := crc <<< 1 ^^^ if crc.msb then 0x04c11db7 else 0

-- the kernel's crc32_be, bit by bit
def crc32Be (crc : BitVec 32) (buf : List Byte) : BitVec 32 :=
  buf.foldl (fun crc byte => Nat.repeat crcBit 8 (crc ^^^ (byte.setWidth 32).shiftLeft 24)) crc

-- size, limit and reserved word, the pair k=v, padding, CRC
def onePair : List Byte :=
  [28, 0, 0, 0, 0, 1, 0, 0, 0, 0, 0, 0, 0x6b, 0, 0x76, 0, 0, 0, 0, 0, 0xcd, 0xf4, 0xa5, 0xa5]

theorem onePair_decomposed : Decomposed (tableDb onePair) [⟨[0x6b], [0x76], 18⟩] 20 := by
  have str (p : Nat) (c : Byte) (hp : p + 1 < 257) (hc : (tableDb onePair).byte p = c) (hne : c ≠ 0)
      (h0 : (tableDb onePair).byte (p + 1) = 0) : cstr (tableDb onePair) p = some [c] := by
    rw [cstr, if_pos (show p < (tableDb onePair).len from Nat.lt_of_succ_lt hp), hc, if_neg hne, cstr_zero hp h0]
    rfl
  have hk := str 16 0x6b (by decide) rfl (by decide) rfl
  have hv := str 18 0x76 (by decide) rfl (by decide) rfl
  exact ⟨.cons hk (by decide) hv (.nil 20), .inr (by decide), by decide, .inl rfl⟩

set_option maxRecDepth 20000 in
theorem onePair_crc : crc32Posix crc32Be ((List.range 24).map (tableDb onePair).byte) = le32 (tableDb onePair) 24 := by
  rw [crc32Posix, crc32PosixEnd, if_neg (by decide), crc32PosixEnd, if_pos (by decide)]
  decide

theorem onePair_accepted : hwinfoDbValidate crc32Be (tableDb onePair) 256 = some 0 := by
  have hfetched : Fetched (tableDb onePair) := ⟨by decide, by decide⟩
  have hval : hwinfoDbValidate crc32Be (tableDb onePair) 256 = _ := validate_sized hfetched (by decide) (by decide)
  rw [hval, show (le32 (tableDb onePair) 4).toNat - 4 = 24 by decide, if_neg (not_not.mpr onePair_crc)]
  exact walk_stops onePair_decomposed.pairs (onePair_decomposed.le (by decide)) onePair_decomposed.stop

end NfpDriver.Hwinfo
