import NfpDriver.Library.Bytes
import NfpDriver.Library.Loop

namespace NfpDriver.BpfCaps

open Octets Loop

abbrev einval : Int := -22
abbrev urRegImmMax : Nat := 0xff

structure AdjustHead where
  flags : BitVec 32
  offMin : BitVec 32
  offMax : BitVec 32
  guaranteedSub : BitVec 32
  guaranteedAdd : BitVec 32
  deriving DecidableEq, Repr

structure MapCaps where
  types : BitVec 32
  maxMaps : BitVec 32
  maxElems : BitVec 32
  maxKeySz : BitVec 32
  maxValSz : BitVec 32
  maxElemSz : BitVec 32
  deriving DecidableEq, Repr

structure AppBpf where
  mapLookup : BitVec 32
  mapUpdate : BitVec 32
  mapDelete : BitVec 32
  perfEventOutput : BitVec 32
  adjustHead : AdjustHead
  maps : MapCaps
  pseudoRandom : Bool
  queueSelect : Bool
  adjustTail : Bool
  cmsgMultiEnt : Bool
  abiVersion : BitVec 32
  deriving DecidableEq, Repr

def initCapabilities : AppBpf where
  mapLookup := 0
  mapUpdate := 0
  mapDelete := 0
  perfEventOutput := 0
  adjustHead := ⟨0, 0, 0, 0, 0⟩
  maps := ⟨0, 0, 0, 0, 0, 0⟩
  pseudoRandom := false
  queueSelect := false
  adjustTail := false
  cmsgMultiEnt := false
  abiVersion := 2

inductive CapType where
  | func
  | adjustHead
  | maps
  | random
  | queueSelect
  | adjustTail
  | abiVersion
  | cmsgMultiEnt
  | unknown
  deriving DecidableEq, Repr

def capType (x : BitVec 32) : CapType :=
  match x.toNat with
  | 1 => .func
  | 2 => .adjustHead
  | 3 => .maps
  | 4 => .random
  | 5 => .queueSelect
  | 6 => .adjustTail
  | 7 => .abiVersion
  | 8 => .cmsgMultiEnt
  | _ => .unknown

variable (area : Bytes)

def capFunc (bpf : AppBpf) (value : Nat) (length : BitVec 32) : Int × AppBpf :=
  if length.toNat < 8 then (einval, bpf)
  else
    let addr := readLe32 area (value + 4)
    match (readLe32 area value).toNat with
    | 1 => (0, { bpf with mapLookup := addr })
    | 2 => (0, { bpf with mapUpdate := addr })
    | 3 => (0, { bpf with mapDelete := addr })
    | 25 => (0, { bpf with perfEventOutput := addr })
    | _ => (0, bpf)

def readAdjustHead (value : Nat) : AdjustHead :=
  ⟨readLe32 area value, readLe32 area (value + 4), readLe32 area (value + 8), readLe32 area (value + 12),
    readLe32 area (value + 16)⟩

def capAdjustHead (bpf : AppBpf) (value : Nat) (length : BitVec 32) : Int × AppBpf :=
  if length.toNat < 20 then (einval, bpf)
  else
    let head := readAdjustHead area value
    if head.offMax.toInt < head.offMin.toInt then (einval, { bpf with adjustHead := head })
    else if urRegImmMax < head.offMin.toNat ∨ urRegImmMax < head.offMax.toNat then
      (0, { bpf with adjustHead := ⟨0, 0, 0, 0, 0⟩ })
    else (0, { bpf with adjustHead := head })

def capMaps (bpf : AppBpf) (value : Nat) (length : BitVec 32) : Int × AppBpf :=
  if length.toNat < 24 then (einval, bpf)
  else
    (0, { bpf with maps := ⟨readLe32 area value, readLe32 area (value + 4), readLe32 area (value + 8),
      readLe32 area (value + 12), readLe32 area (value + 16), readLe32 area (value + 20)⟩ })

def capAbiVersion (bpf : AppBpf) (value : Nat) (length : BitVec 32) : Int × AppBpf :=
  if length.toNat < 4 then (einval, bpf)
  else
    let version := readLe32 area value
    (0, { bpf with abiVersion := if version.toNat < 2 ∨ 3 < version.toNat then 0 else version })

def parseCap (bpf : AppBpf) (type : CapType) (value : Nat) (length : BitVec 32) : Int × AppBpf :=
  match type with
  | .func => capFunc area bpf value length
  | .adjustHead => capAdjustHead area bpf value length
  | .maps => capMaps area bpf value length
  | .random => (0, { bpf with pseudoRandom := true })
  | .queueSelect => (0, { bpf with queueSelect := true })
  | .adjustTail => (0, { bpf with adjustTail := true })
  | .abiVersion => capAbiVersion area bpf value length
  | .cmsgMultiEnt => (0, { bpf with cmsgMultiEnt := true })
  | .unknown => (0, bpf)

structure Parse where
  mem : Nat
  bpf : AppBpf
  deriving DecidableEq, Repr

def Parse.type (s : Parse) : CapType := capType (readLe32 area s.mem)

def Parse.length (s : Parse) : BitVec 32 := readLe32 area (s.mem + 4)

def parseStep (s : Parse) : (Int × AppBpf) ⊕ Parse :=
  if s.mem + 8 ≤ area.length then
    let mem := s.mem + (8 + s.length area).toNat
    if area.length < mem then .inl (einval, s.bpf)
    else
      let res := parseCap area s.bpf (s.type area) (s.mem + 8) (s.length area)
      if res.1 ≠ 0 then .inl (einval, res.2) else .inr ⟨mem, res.2⟩
  else .inl (if s.mem ≠ area.length then einval else 0, s.bpf)

-- words of the value that the parser of a type reads
def capWords (type : CapType) (value : Nat) (length : BitVec 32) : List Region :=
  match type with
  | .func =>
    if length.toNat < 8 then []
    else if (readLe32 area value).toNat ∈ [1, 2, 3, 25] then [⟨value, 4⟩, ⟨value + 4, 4⟩] else [⟨value, 4⟩]
  | .adjustHead => if length.toNat < 20 then [] else [⟨value, 20⟩]
  | .maps => if length.toNat < 24 then [] else [⟨value, 24⟩]
  | .abiVersion => if length.toNat < 4 then [] else [⟨value, 4⟩]
  | _ => []

def parseReads (s : Parse) : List Region :=
  if s.mem + 8 ≤ area.length then
    ⟨s.mem, 8⟩ ::
      if area.length < s.mem + (8 + s.length area).toNat then []
      else capWords area (s.type area) (s.mem + 8) (s.length area)
  else []

-- the symbol is mapped with a minimum size of one header
def nfpBpfParseCapabilities (bpf : AppBpf) (r : Int) : Prop :=
  if area.length < 8 then r = einval else ∃ bpf', Returns (parseStep area) ⟨0, bpf⟩ (r, bpf')

def capOk (type : CapType) (value : Nat) (length : BitVec 32) : Prop :=
  match type with
  | .func => 8 ≤ length.toNat
  | .adjustHead => 20 ≤ length.toNat ∧ (readLe32 area (value + 4)).toInt ≤ (readLe32 area (value + 8)).toInt
  | .maps => 24 ≤ length.toNat
  | .abiVersion => 4 ≤ length.toNat
  | _ => True

theorem einval_ne {bpf : AppBpf} : (einval, bpf).1 ≠ 0 := show einval ≠ 0 by decide

variable {length : BitVec 32} {type : CapType} {value : Nat} {r : Region}

theorem parseCap_ok {area : Bytes} {bpf : AppBpf} :
    (parseCap area bpf type value length).1 = 0 ↔ capOk area type value length := by
  cases type with
  | func =>
    simp only [parseCap, capFunc, capOk]
    split
    case isTrue h => exact iff_of_false einval_ne (by omega)
    case isFalse h =>
      refine iff_of_true ?_ (by omega)
      split <;> rfl
  | adjustHead =>
    simp only [parseCap, capAdjustHead, capOk]
    split
    case isTrue h => exact iff_of_false einval_ne (by omega)
    case isFalse h =>
      split
      case isTrue hlt => exact iff_of_false einval_ne fun hok => not_lt.mpr hok.2 hlt
      case isFalse hle =>
        refine iff_of_true ?_ ⟨by omega, not_lt.mp hle⟩
        split <;> rfl
  | maps =>
    simp only [parseCap, capMaps, capOk]
    split
    case isTrue h => exact iff_of_false einval_ne (by omega)
    case isFalse h => exact iff_of_true rfl (by omega)
  | abiVersion =>
    simp only [parseCap, capAbiVersion, capOk]
    split
    case isTrue h => exact iff_of_false einval_ne (by omega)
    case isFalse h => exact iff_of_true rfl (by omega)
  | random | queueSelect | adjustTail | cmsgMultiEnt | unknown => exact iff_of_true rfl trivial

inductive Tlvs : Nat → Prop
  | done : Tlvs area.length
  | tlv {o : Nat} (fits : o + 8 + (readLe32 area (o + 4)).toNat ≤ area.length)
      (ok : capOk area (capType (readLe32 area o)) (o + 8) (readLe32 area (o + 4)))
      (rest : Tlvs (o + 8 + (readLe32 area (o + 4)).toNat)) : Tlvs o

theorem tlvs_iff {area : Bytes} {o : Nat} :
    Tlvs area o ↔ o = area.length ∨
      (o + 8 + (readLe32 area (o + 4)).toNat ≤ area.length ∧
        capOk area (capType (readLe32 area o)) (o + 8) (readLe32 area (o + 4)) ∧
        Tlvs area (o + 8 + (readLe32 area (o + 4)).toNat)) := by
  constructor
  · intro h
    cases h with
    | done => exact .inl rfl
    | tlv fits ok rest => exact .inr ⟨fits, ok, rest⟩
  · rintro (rfl | ⟨fits, ok, rest⟩)
    · exact .done
    · exact .tlv fits ok rest

structure CapsSound (bpf : AppBpf) : Prop where
  terminates : ∃ r, nfpBpfParseCapabilities area bpf r
  inside : 8 ≤ area.length → ∀ s, Reaches (parseStep area) ⟨0, bpf⟩ s → ∀ r ∈ parseReads area s, r.Inside area.length
  accepts : nfpBpfParseCapabilities area bpf 0 ↔ 8 ≤ area.length ∧ Tlvs area 0

variable {area : Bytes} {s t : Parse} {bpf : AppBpf}

structure Parse.Passes (area : Bytes) (s : Parse) (next : Nat) : Prop where
  fits : next ≤ area.length
  ok : capOk area (s.type area) (s.mem + 8) (s.length area)

theorem parseStep_inr (h : parseStep area s = .inr t) :
    s.mem + 8 ≤ area.length ∧ t.mem = s.mem + (8 + s.length area).toNat ∧ s.Passes area t.mem := by
  rw [parseStep] at h
  split at h
  case isFalse => cases h
  case isTrue hmem =>
    dsimp only at h
    split at h
    case isTrue => cases h
    case isFalse hfits =>
      split at h
      case isTrue => cases h
      case isFalse hok =>
        cases h
        exact ⟨hmem, rfl, not_lt.mp hfits, parseCap_ok.mp (Decidable.not_not.mp hok)⟩

theorem parseStep_next (hmem : s.mem + 8 ≤ area.length) (h : s.Passes area (s.mem + (8 + s.length area).toNat)) :
    ∃ bpf, parseStep area s = .inr ⟨s.mem + (8 + s.length area).toNat, bpf⟩ := by
  rw [parseStep, if_pos hmem]
  rw [if_neg (not_lt.mpr h.fits), if_neg (Decidable.not_not.mpr (parseCap_ok.mpr h.ok))]
  exact ⟨_, rfl⟩

theorem parseStep_inl {r : Int × AppBpf} (h : parseStep area s = .inl r) (hmem : s.mem + 8 ≤ area.length) :
    r.1 ≠ 0 ∧ ¬ s.Passes area (s.mem + (8 + s.length area).toNat) := by
  refine ⟨?_, fun hp => ?_⟩
  · rw [parseStep, if_pos hmem] at h
    dsimp only at h
    split at h
    · cases h
      exact einval_ne
    split at h
    · cases h
      exact einval_ne
    · cases h
  · obtain ⟨bpf, hn⟩ := parseStep_next hmem hp
    exact nomatch hn.symm.trans h

theorem parseStep_end (hmem : area.length < s.mem + 8) :
    parseStep area s = .inl (if s.mem ≠ area.length then einval else 0, s.bpf) := by
  rw [parseStep, if_neg (not_le.mpr hmem)]

abbrev lengthWrap : Nat := 2 ^ 32 - 8

theorem advance_toNat (h : length.toNat < lengthWrap) : (8 + length).toNat = 8 + length.toNat := by
  have hlt : length.toNat < 2 ^ 32 - 8 := h
  exact Nat.mod_eq_of_lt (by change 8 + length.toNat < 2 ^ 32; omega)

theorem capWords_inside (hfits : value + length.toNat ≤ area.length) (hr : r ∈ capWords area type value length) :
    r.Inside area.length := by
  rw [Region.inside_iff]
  cases type with
  | func =>
    rw [capWords] at hr
    split at hr
    · cases hr
    split at hr
    · rcases List.mem_pair.mp hr with rfl | rfl <;> exact .inr (by simp only; omega)
    · rw [List.mem_singleton] at hr
      subst hr
      exact .inr (by simp only; omega)
  | adjustHead | maps | abiVersion =>
    rw [capWords] at hr
    split at hr
    · cases hr
    · rw [List.mem_singleton] at hr
      subst hr
      exact .inr (by simp only; omega)
  | random | queueSelect | adjustTail | cmsgMultiEnt | unknown => cases hr

section Plain

variable (hplain : ∀ s, Reaches (parseStep area) ⟨0, bpf⟩ s → s.mem + 8 ≤ area.length →
    (s.length area).toNat < lengthWrap)

include hplain

theorem reaches_advance (hs : Reaches (parseStep area) ⟨0, bpf⟩ s) (h : parseStep area s = .inr t) :
    t.mem = s.mem + 8 + (s.length area).toNat ∧ t.mem ≤ area.length := by
  obtain ⟨hmem, ht, hp⟩ := parseStep_inr h
  rw [advance_toNat (hplain s hs hmem)] at ht
  exact ⟨by omega, hp.fits⟩

theorem parse_terminates : ∃ r, Returns (parseStep area) ⟨0, bpf⟩ r := by
  refine Loop.terminates (Reaches (parseStep area) ⟨0, bpf⟩) (fun s => area.length - s.mem) ?_ .refl
  intro s t hs h
  obtain ⟨ht, hle⟩ := reaches_advance hplain hs h
  exact ⟨.next hs h, by omega⟩

theorem parseReads_inside (hs : Reaches (parseStep area) ⟨0, bpf⟩ s) (hr : r ∈ parseReads area s) :
    r.Inside area.length := by
  rw [parseReads] at hr
  split at hr
  case isFalse => cases hr
  case isTrue hmem =>
    rcases List.mem_cons.mp hr with rfl | hr
    · exact Region.inside_iff.mpr (.inr hmem)
    split at hr
    case isTrue => cases hr
    case isFalse hfits =>
      rw [advance_toNat (hplain s hs hmem)] at hfits
      exact capWords_inside (by omega) hr

theorem returns_zero_iff (hs : Reaches (parseStep area) ⟨0, bpf⟩ s) :
    (∃ bpf', Returns (parseStep area) s (0, bpf')) ↔ Tlvs area s.mem := by
  induction hn : area.length - s.mem using Nat.strongRecOn generalizing s with
  | ind n ih =>
    rcases Nat.lt_or_ge area.length (s.mem + 8) with hend | hmem
    · simp only [returns_inl (parseStep_end hend)]
      constructor
      · rintro ⟨bpf', h⟩
        have heq : s.mem = area.length := by
          by_contra hne
          rw [if_pos hne] at h
          exact nomatch (Prod.mk.inj h).1
        exact heq ▸ .done
      · intro h
        have heq : s.mem = area.length := by
          rcases tlvs_iff.mp h with heq | ⟨fits, -, -⟩
          · exact heq
          · omega
        exact ⟨s.bpf, by rw [if_neg (not_not.mpr heq)]⟩
    · have hlen := advance_toNat (hplain s hs hmem)
      cases h : parseStep area s with
      | inl r =>
        obtain ⟨hr, hno⟩ := parseStep_inl h hmem
        simp only [returns_inl h]
        refine iff_of_false ?_ ?_
        · rintro ⟨bpf', rfl⟩
          exact hr rfl
        · intro htlv
          rcases tlvs_iff.mp htlv with heq | ⟨fits, ok, -⟩
          · omega
          · exact hno ⟨by rw [hlen]; exact Nat.add_assoc .. ▸ fits, ok⟩
      | inr t =>
        obtain ⟨-, -, hp⟩ := parseStep_inr h
        obtain ⟨ht, hle⟩ := reaches_advance hplain hs h
        simp only [returns_inr h]
        rw [ih (area.length - t.mem) (by omega) (.next hs h) rfl]
        constructor
        · intro hrest
          exact .tlv (ht ▸ hle) hp.ok (ht ▸ hrest)
        · intro htlv
          rcases tlvs_iff.mp htlv with heq | ⟨-, -, rest⟩
          · omega
          · exact ht ▸ rest

theorem caps_sound : CapsSound area bpf := by
  rcases lt_or_ge area.length 8 with hsmall | hbig
  · refine ⟨⟨einval, by rw [nfpBpfParseCapabilities, if_pos hsmall]⟩, fun h => absurd hsmall (by omega), ?_⟩
    rw [nfpBpfParseCapabilities, if_pos hsmall]
    exact iff_of_false (by decide) fun h => absurd hsmall (by omega)
  have hrun : ∀ r, nfpBpfParseCapabilities area bpf r ↔ ∃ bpf', Returns (parseStep area) ⟨0, bpf⟩ (r, bpf') := by
    intro r
    rw [nfpBpfParseCapabilities, if_neg (not_lt.mpr hbig)]
  refine ⟨?_, fun _ s hs r => parseReads_inside hplain hs, ?_⟩
  · obtain ⟨⟨r, bpf'⟩, h⟩ := parse_terminates hplain
    exact ⟨r, (hrun r).mpr ⟨bpf', h⟩⟩
  · rw [hrun, returns_zero_iff hplain .refl]
    exact ⟨fun h => ⟨hbig, h⟩, And.right⟩

end Plain

def mapsHeader (k : Fin 8) : Bytes := [3, 0, 0, 0, 0xf8 + BitVec.ofNat 8 k, 0xff, 0xff, 0xff]

theorem mapsHeader_length (k : Fin 8) : readLe32 (mapsHeader k) 4 = BitVec.ofNat 32 (lengthWrap + k) := by
  decide +revert

theorem mapsHeader_reads (k : Fin 8) : (⟨8, 24⟩ : Region) ∈ parseReads (mapsHeader k) ⟨0, initCapabilities⟩ := by
  decide +revert

theorem mapsHeader_unsound (k : Fin 8) : ¬ CapsSound (mapsHeader k) initCapabilities := by
  intro h
  have hin := h.inside (Nat.le_refl 8) ⟨0, initCapabilities⟩ .refl ⟨8, 24⟩ (mapsHeader_reads k)
  exact lt_irrefl 8 (hin 0 (by decide))

theorem caps_sound_iff (lengths : Set (BitVec 32)) :
    (∀ area bpf, (∀ s, Reaches (parseStep area) ⟨0, bpf⟩ s → s.mem + 8 ≤ area.length → s.length area ∈ lengths) →
      CapsSound area bpf) ↔
    ∀ length ∈ lengths, length.toNat < lengthWrap := by
  constructor
  · intro h length hmem
    by_contra hlong
    have hge : 2 ^ 32 - 8 ≤ length.toNat := not_lt.mp hlong
    refine mapsHeader_unsound ⟨length.toNat - lengthWrap, by change _ - (2 ^ 32 - 8) < 8; omega⟩
      (h _ initCapabilities fun s _ hs => ?_)
    have hz : s.mem = 0 := by
      have : s.mem + 8 ≤ 8 := hs
      omega
    rw [Parse.length, hz, mapsHeader_length]
    convert hmem
    apply BitVec.eq_of_toNat_eq
    rw [BitVec.toNat_ofNat]
    change (2 ^ 32 - 8 + (length.toNat - (2 ^ 32 - 8))) % 2 ^ 32 = _
    omega
  · intro hshort area bpf h
    exact caps_sound fun s hs hmem => hshort _ (h s hs hmem)

theorem wrapped_length_never_returns : ¬ ∃ r,
    nfpBpfParseCapabilities [9, 0, 0, 0, 0xf8, 0xff, 0xff, 0xff] initCapabilities r := by
  rintro ⟨r, bpf', h⟩
  exact not_returns_self (by decide) h

end NfpDriver.BpfCaps
