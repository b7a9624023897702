import NfpDriver.Library.Bytes
import NfpDriver.Library.Loop

namespace NfpDriver.TlvCaps

open Octets Loop

abbrev einval : Int := -22
abbrev tlvBase : Nat := 0x58
abbrev barSz : Nat := 32 * 1024

structure Caps where
  meFreqMhz : BitVec 32
  mboxOff : Nat
  mboxLen : Nat
  reprCap : BitVec 32
  mboxCmsgTypes : BitVec 32
  cryptoOps : BitVec 32
  cryptoEnableOff : Nat
  vnicStatsOff : Nat
  vnicStatsCnt : Nat
  tlsResyncSs : Bool
  deriving DecidableEq, Repr

def capsReset : Caps where
  meFreqMhz := 1200
  mboxOff := 0x1800
  mboxLen := 0x1F8
  reprCap := 0
  mboxCmsgTypes := 0
  cryptoOps := 0
  cryptoEnableOff := 0
  vnicStatsOff := 0
  vnicStatsCnt := 0
  tlsResyncSs := false

inductive TlvType where
  | unknown
  | reserved
  | stop
  | meFreq
  | mbox
  | experimental0
  | experimental1
  | reprCap
  | mboxCmsgTypes
  | cryptoOps
  | vnicStats
  | cryptoOpsRxScan
  | other
  deriving DecidableEq, Repr

def headerRequired (hdr : BitVec 32) : Bool := (hdr &&& 0x80000000#32) >>> 31 ≠ 0

def headerType (hdr : BitVec 32) : TlvType :=
  match ((hdr &&& 0x7fff0000#32) >>> 16).toNat with
  | 0 => .unknown
  | 1 => .reserved
  | 2 => .stop
  | 3 => .meFreq
  | 4 => .mbox
  | 5 => .experimental0
  | 6 => .experimental1
  | 7 => .reprCap
  | 10 => .mboxCmsgTypes
  | 11 => .cryptoOps
  | 12 => .vnicStats
  | 13 => .cryptoOpsRxScan
  | _ => .other

def headerLength (hdr : BitVec 32) : Nat := (hdr &&& 0x0000ffff#32).toNat

section Parse

variable (readl : Nat → BitVec 32)

def parseCryptoOps (caps : Caps) (data length : Nat) (rxStreamScan : Bool) : Option Caps :=
  if caps.tlsResyncSs ∧ ¬ rxStreamScan then some caps
  else if length < 32 then none
  else some { caps with cryptoOps := readl data, cryptoEnableOff := data + 16, tlsResyncSs := rxStreamScan }

def parseValue (caps : Caps) (type : TlvType) (required : Bool) (data length : Nat) : Option Caps :=
  match type with
  | .unknown => none
  | .reserved => some caps
  -- an END TLV with a value; an empty one ends the walk before
  | .stop => none
  | .meFreq => if length ≠ 4 then none else some { caps with meFreqMhz := readl data }
  | .mbox =>
    if length = 0 then some { caps with mboxOff := 0, mboxLen := 0 }
    else some { caps with mboxOff := data, mboxLen := length }
  | .experimental0 => some caps
  | .experimental1 => some caps
  | .reprCap => if length < 4 then none else some { caps with reprCap := readl data }
  | .mboxCmsgTypes => if 4 ≤ length then some { caps with mboxCmsgTypes := readl data } else some caps
  | .cryptoOps => parseCryptoOps readl caps data length false
  | .vnicStats =>
    if data % 8 ≠ 0 then some caps else some { caps with vnicStatsOff := data, vnicStatsCnt := length / 10 }
  | .cryptoOpsRxScan => parseCryptoOps readl caps data length true
  | .other => if required then none else some caps

structure Parse where
  data : Nat
  caps : Caps
  deriving DecidableEq, Repr

def Parse.type (s : Parse) : TlvType := headerType (readl s.data)

def Parse.required (s : Parse) : Bool := headerRequired (readl s.data)

def Parse.length (s : Parse) : Nat := headerLength (readl s.data)

def parseStep (s : Parse) : (Int × Caps) ⊕ Parse :=
  let data := s.data + 4
  let length := s.length readl
  if length % 4 ≠ 0 then .inl (einval, s.caps)
  else if barSz < data + length then .inl (einval, s.caps)
  else if s.type readl = .stop ∧ length = 0 then .inl (0, s.caps)
  else
    match parseValue readl s.caps (s.type readl) (s.required readl) data length with
    | none => .inl (einval, s.caps)
    | some caps => if barSz < data + length + 4 then .inl (einval, caps) else .inr ⟨data + length, caps⟩

def nfpNetTlvCapsParse (r : Int × Caps) : Prop :=
  if readl tlvBase = 0 then r = (0, capsReset) else Returns (parseStep readl) ⟨tlvBase, capsReset⟩ r

-- the word of the value that is read, if any
def valueWord (caps : Caps) (type : TlvType) (data length : Nat) : List Nat :=
  match type with
  | .meFreq => if length ≠ 4 then [] else [data]
  | .reprCap => if length < 4 then [] else [data]
  | .mboxCmsgTypes => if 4 ≤ length then [data] else []
  | .cryptoOps => if caps.tlsResyncSs then [] else if length < 32 then [] else [data]
  | .cryptoOpsRxScan => if length < 32 then [] else [data]
  | _ => []

def parseReads (s : Parse) : List Nat :=
  s.data ::
    if (s.length readl) % 4 ≠ 0 ∨ barSz < s.data + 4 + s.length readl then []
    else valueWord s.caps (s.type readl) (s.data + 4) (s.length readl)

-- scan: a CRYPTO_OPS_RX_SCAN TLV came before, which makes a legacy CRYPTO_OPS TLV ignored
def typeCheck (scan : Bool) (type : TlvType) (required : Bool) (length : Nat) : Prop :=
  match type with
  | .unknown => False
  | .stop => False
  | .meFreq => length = 4
  | .reprCap => 4 ≤ length
  | .cryptoOps => scan ∨ 32 ≤ length
  | .cryptoOpsRxScan => 32 ≤ length
  | .other => ¬ required
  | _ => True

inductive Chain : Bool → Nat → Prop
  | last {scan : Bool} {o : Nat} (inside : o + 4 ≤ barSz) (stop : headerType (readl o) = .stop)
      (empty : headerLength (readl o) = 0) : Chain scan o
  | tlv {scan : Bool} {o : Nat} (inside : o + 4 + headerLength (readl o) ≤ barSz)
      (words : headerLength (readl o) % 4 = 0)
      (check : typeCheck scan (headerType (readl o)) (headerRequired (readl o)) (headerLength (readl o)))
      (rest : Chain (scan || headerType (readl o) = .cryptoOpsRxScan) (o + 4 + headerLength (readl o))) :
      Chain scan o

def Caps.regions (caps : Caps) : List Region :=
  [⟨caps.mboxOff, caps.mboxLen⟩, ⟨caps.cryptoEnableOff, 16⟩,
    ⟨caps.vnicStatsOff, (2 * caps.vnicStatsCnt + 7) / 8 * 8 + 8 * caps.vnicStatsCnt⟩]

structure TlvSound : Prop where
  terminates : ∃ r, nfpNetTlvCapsParse readl r
  inside : ∀ s, Reaches (parseStep readl) ⟨tlvBase, capsReset⟩ s → ∀ o ∈ parseReads readl s, tlvBase ≤ o ∧ o + 4 ≤ barSz
  accepts : (∃ caps, nfpNetTlvCapsParse readl (0, caps)) ↔ readl tlvBase = 0 ∨ Chain readl false tlvBase
  recorded : ∀ caps, nfpNetTlvCapsParse readl (0, caps) → ∀ r ∈ caps.regions, r.Inside barSz

end Parse

variable {readl : Nat → BitVec 32} {s t : Parse} {caps caps' : Caps}

variable {data length last o : Nat} {rx required scan : Bool} {type : TlvType}

theorem parseCryptoOps_check :
    (∃ caps', parseCryptoOps readl caps data length rx = some caps') ↔
      (caps.tlsResyncSs = true ∧ rx = false) ∨ 32 ≤ length := by
  rw [parseCryptoOps]
  split
  case isTrue hign => exact iff_of_true ⟨_, rfl⟩ (.inl ⟨hign.1, by simpa using hign.2⟩)
  case isFalse huse =>
    split
    case isTrue hlen =>
      refine iff_of_false (fun ⟨_, h⟩ => nomatch h) ?_
      rintro (⟨hss, rfl⟩ | hge)
      · exact huse ⟨hss, by simp⟩
      · omega
    case isFalse hlen => exact iff_of_true ⟨_, rfl⟩ (.inr (not_lt.mp hlen))

theorem parseValue_check :
    (∃ caps', parseValue readl caps type required data length = some caps') ↔
      typeCheck caps.tlsResyncSs type required length := by
  cases type with
  | unknown | stop => exact iff_of_false (fun ⟨_, h⟩ => nomatch h) id
  | reserved | experimental0 | experimental1 => exact iff_of_true ⟨_, rfl⟩ trivial
  | meFreq =>
    simp only [parseValue, typeCheck]
    split
    case isTrue hlen => exact iff_of_false (fun ⟨_, h⟩ => nomatch h) hlen
    case isFalse hlen => exact iff_of_true ⟨_, rfl⟩ (Decidable.not_not.mp hlen)
  | reprCap =>
    simp only [parseValue, typeCheck]
    split
    case isTrue hlen => exact iff_of_false (fun ⟨_, h⟩ => nomatch h) (not_le.mpr hlen)
    case isFalse hlen => exact iff_of_true ⟨_, rfl⟩ (not_lt.mp hlen)
  | mbox | mboxCmsgTypes | vnicStats =>
    simp only [parseValue, typeCheck]
    split <;> exact iff_of_true ⟨_, rfl⟩ trivial
  | cryptoOps => simp only [parseValue, parseCryptoOps_check, typeCheck, and_true]
  | cryptoOpsRxScan => simp only [parseValue, parseCryptoOps_check, typeCheck, Bool.true_eq_false, and_false, false_or]
  | other =>
    simp only [parseValue, typeCheck]
    split
    case isTrue hreq => exact iff_of_false (fun ⟨_, h⟩ => nomatch h) (not_not.mpr hreq)
    case isFalse hreq => exact iff_of_true ⟨_, rfl⟩ hreq

def Caps.statsEnd (caps : Caps) : Nat :=
  caps.vnicStatsOff + ((2 * caps.vnicStatsCnt + 7) / 8 * 8 + 8 * caps.vnicStatsCnt)

structure Caps.Within (caps : Caps) (last : Nat) : Prop where
  mbox : caps.mboxOff + caps.mboxLen ≤ barSz
  crypto : caps.cryptoEnableOff + 16 ≤ barSz
  stats : caps.statsEnd ≤ last

theorem Caps.Within.mono {last' : Nat} (h : caps.Within last) (hle : last ≤ last') : caps.Within last' :=
  ⟨h.mbox, h.crypto, le_trans h.stats hle⟩

-- the padding between ids and values takes at most the header behind the TLV
theorem stats_fit (h : length % 4 = 0) :
    data + ((2 * (length / 10) + 7) / 8 * 8 + 8 * (length / 10)) ≤ data + length + 4 := by
  omega

theorem parseCryptoOps_keeps (h : parseCryptoOps readl caps data length rx = some caps') (hin : data + length ≤ barSz)
    (hw : caps.Within last) : caps'.Within last ∧ caps'.tlsResyncSs = (caps.tlsResyncSs || rx) := by
  rw [parseCryptoOps] at h
  split at h
  case isTrue hign =>
    cases h
    exact ⟨hw, by rw [hign.1, Bool.true_or]⟩
  case isFalse huse =>
    split at h
    case isTrue => cases h
    case isFalse hlen =>
      cases h
      refine ⟨⟨hw.mbox, ?_, hw.stats⟩, ?_⟩
      · change data + 16 + 16 ≤ barSz
        omega
      · cases rx with
        | true => exact (Bool.or_true _).symm
        | false =>
          have hss : caps.tlsResyncSs = false := by simpa using huse
          rw [hss]
          rfl

theorem parseValue_keeps (h : parseValue readl caps type required data length = some caps')
    (hin : data + length ≤ barSz) (hwords : length % 4 = 0) (hw : caps.Within data) :
    caps'.Within (data + length + 4) ∧ caps'.tlsResyncSs = (caps.tlsResyncSs || type = .cryptoOpsRxScan) := by
  have hkeep : caps.Within (data + length + 4) := hw.mono (by omega)
  have hss : caps.tlsResyncSs = (caps.tlsResyncSs || false) := (Bool.or_false _).symm
  cases type with
  | unknown | stop => cases h
  | reserved | experimental0 | experimental1 =>
    cases h
    exact ⟨hkeep, hss⟩
  | meFreq | reprCap | other =>
    rw [parseValue] at h
    split at h
    · cases h
    · cases h
      exact ⟨{ hkeep with }, hss⟩
  | mbox =>
    rw [parseValue] at h
    split at h
    · cases h
      exact ⟨⟨Nat.zero_le _, hkeep.crypto, hkeep.stats⟩, hss⟩
    · cases h
      exact ⟨⟨hin, hkeep.crypto, hkeep.stats⟩, hss⟩
  | mboxCmsgTypes =>
    rw [parseValue] at h
    split at h
    · cases h
      exact ⟨{ hkeep with }, hss⟩
    · cases h
      exact ⟨hkeep, hss⟩
  | vnicStats =>
    rw [parseValue] at h
    split at h
    · cases h
      exact ⟨hkeep, hss⟩
    · cases h
      exact ⟨⟨hkeep.mbox, hkeep.crypto, stats_fit hwords⟩, hss⟩
  | cryptoOps | cryptoOpsRxScan => exact parseCryptoOps_keeps h hin hkeep

structure Parse.Ok (s : Parse) : Prop where
  base : tlvBase ≤ s.data
  room : s.data + 4 ≤ barSz
  within : s.caps.Within (s.data + 4)

structure Parse.Moves (readl : Nat → BitVec 32) (s t : Parse) : Prop where
  words : s.length readl % 4 = 0
  inside : s.data + 4 + s.length readl + 4 ≤ barSz
  data : t.data = s.data + 4 + s.length readl
  value : parseValue readl s.caps (s.type readl) (s.required readl) (s.data + 4) (s.length readl) = some t.caps

theorem parseStep_inr (h : parseStep readl s = .inr t) : s.Moves readl t := by
  rw [parseStep] at h
  split at h
  case isTrue => cases h
  case isFalse hwords =>
    split at h
    case isTrue => cases h
    case isFalse hin =>
      split at h
      case isTrue => cases h
      case isFalse =>
        split at h
        case h_1 => cases h
        case h_2 caps hv =>
          split at h
          case isTrue => cases h
          case isFalse hroom =>
            cases h
            exact ⟨Decidable.not_not.mp hwords, not_lt.mp hroom, rfl, hv⟩

def Parse.Last (readl : Nat → BitVec 32) (s : Parse) : Prop := s.type readl = .stop ∧ s.length readl = 0

theorem parseStep_moves (h : s.Moves readl t) : parseStep readl s = .inr t := by
  have hnot : ¬ (s.type readl = .stop ∧ s.length readl = 0) := by
    rintro ⟨hstop, -⟩
    have hv := h.value
    rw [hstop] at hv
    cases hv
  have hin := h.inside
  rw [parseStep]
  rw [if_neg (Decidable.not_not.mpr h.words), if_neg (by omega), if_neg hnot, h.value]
  dsimp only
  rw [if_neg (by omega), ← h.data]

theorem parseStep_last (hroom : s.data + 4 ≤ barSz) (h : s.Last readl) : parseStep readl s = .inl (0, s.caps) := by
  rw [parseStep, if_neg (by rw [h.2]; decide), if_neg (by rw [h.2]; omega)]
  exact if_pos h

theorem parseStep_inl {r : Int × Caps} (h : parseStep readl s = .inl r) (hr : r.1 = 0) :
    s.Last readl ∧ r.2 = s.caps := by
  have herr : ∀ caps, (.inl (einval, caps) : (Int × Caps) ⊕ Parse) ≠ .inl r := by
    intro caps he
    cases he
    cases hr
  rw [parseStep] at h
  split at h
  case isTrue => exact absurd h (herr _)
  case isFalse =>
    split at h
    case isTrue => exact absurd h (herr _)
    case isFalse =>
      split at h
      case isTrue hlast =>
        cases h
        exact ⟨hlast, rfl⟩
      case isFalse =>
        split at h
        case h_1 => exact absurd h (herr _)
        case h_2 =>
          split at h
          case isTrue => exact absurd h (herr _)
          case isFalse => cases h

theorem Parse.Moves.ok (h : s.Moves readl t) (hs : s.Ok) : t.Ok := by
  obtain ⟨hw, -⟩ := parseValue_keeps h.value (by have := h.inside; omega) h.words hs.within
  exact ⟨by have := hs.base; rw [h.data]; omega, h.data ▸ h.inside, h.data ▸ hw⟩

theorem parseStep_keeps (hs : s.Ok) (h : parseStep readl s = .inr t) : t.Ok := (parseStep_inr h).ok hs

theorem start_ok : (⟨tlvBase, capsReset⟩ : Parse).Ok := ⟨le_rfl, by decide, by decide, by decide, by decide⟩

theorem reaches_ok (h : Reaches (parseStep readl) ⟨tlvBase, capsReset⟩ s) : s.Ok :=
  h.inv Parse.Ok (fun _ _ => parseStep_keeps) start_ok

theorem parse_terminates (hs : s.Ok) : ∃ r, Returns (parseStep readl) s r := by
  refine Loop.terminates Parse.Ok (fun s => barSz - s.data) ?_ hs
  intro s t hs h
  have hm := parseStep_inr h
  have hin := hm.inside
  exact ⟨hm.ok hs, by rw [hm.data]; omega⟩

theorem valueWord_inside (ho : o ∈ valueWord caps type data length) : o = data ∧ 4 ≤ length := by
  cases type with
  | meFreq | reprCap | cryptoOpsRxScan =>
    rw [valueWord] at ho
    split at ho
    · cases ho
    · exact ⟨List.mem_singleton.mp ho, by omega⟩
  | mboxCmsgTypes =>
    rw [valueWord] at ho
    split at ho
    · exact ⟨List.mem_singleton.mp ho, by omega⟩
    · cases ho
  | cryptoOps =>
    rw [valueWord] at ho
    split at ho
    · cases ho
    · split at ho
      · cases ho
      · exact ⟨List.mem_singleton.mp ho, by omega⟩
  | unknown | reserved | stop | mbox | experimental0 | experimental1 | vnicStats | other => cases ho

theorem parseReads_inside (hs : s.Ok) (ho : o ∈ parseReads readl s) : tlvBase ≤ o ∧ o + 4 ≤ barSz := by
  have hbase := hs.base
  rcases List.mem_cons.mp ho with rfl | ho
  · exact ⟨hbase, hs.room⟩
  split at ho
  · cases ho
  · obtain ⟨rfl, hlen⟩ := valueWord_inside ho
    exact ⟨by omega, by omega⟩

theorem chain_iff :
    Chain readl scan o ↔
      (o + 4 ≤ barSz ∧ headerType (readl o) = .stop ∧ headerLength (readl o) = 0) ∨
      (o + 4 + headerLength (readl o) ≤ barSz ∧ headerLength (readl o) % 4 = 0 ∧
        typeCheck scan (headerType (readl o)) (headerRequired (readl o)) (headerLength (readl o)) ∧
        Chain readl (scan || headerType (readl o) = .cryptoOpsRxScan) (o + 4 + headerLength (readl o))) := by
  constructor
  · intro h
    cases h with
    | last inside stop empty => exact .inl ⟨inside, stop, empty⟩
    | tlv inside words check rest => exact .inr ⟨inside, words, check, rest⟩
  · rintro (⟨inside, stop, empty⟩ | ⟨inside, words, check, rest⟩)
    · exact .last inside stop empty
    · exact .tlv inside words check rest

theorem Chain.room (h : Chain readl scan o) : o + 4 ≤ barSz := by
  cases h with
  | last inside => exact inside
  | tlv inside => omega

theorem chain_last (hs : s.Ok) (h : s.Last readl) : Chain readl s.caps.tlsResyncSs s.data := .last hs.room h.1 h.2

theorem chain_moves_iff (hs : s.Ok) (h : s.Moves readl t) :
    Chain readl t.caps.tlsResyncSs t.data ↔ Chain readl s.caps.tlsResyncSs s.data := by
  have hin := h.inside
  obtain ⟨-, hscan⟩ := parseValue_keeps h.value (by omega) h.words hs.within
  have hcheck := parseValue_check.mp ⟨_, h.value⟩
  rw [hscan, h.data]
  constructor
  · intro hrest
    exact .tlv (by change s.data + 4 + s.length readl ≤ barSz; omega) h.words hcheck hrest
  · intro hc
    rcases chain_iff.mp hc with ⟨-, hstop, -⟩ | ⟨-, -, -, hrest⟩
    · have hstop' : s.type readl = .stop := hstop
      rw [hstop'] at hcheck
      exact hcheck.elim
    · exact hrest

theorem chain_stuck (h : ∀ t, ¬ s.Moves readl t) (hc : Chain readl s.caps.tlsResyncSs s.data) : s.Last readl := by
  rcases chain_iff.mp hc with ⟨-, hstop, hempty⟩ | ⟨-, hwords, hcheck, hrest⟩
  · exact ⟨hstop, hempty⟩
  · obtain ⟨caps, hv⟩ := parseValue_check.mpr hcheck
    exact absurd ⟨hwords, hrest.room, rfl, hv⟩ (h ⟨s.data + 4 + s.length readl, caps⟩)

theorem returns_zero_iff (hs : s.Ok) :
    (∃ caps, Returns (parseStep readl) s (0, caps)) ↔ Chain readl s.caps.tlsResyncSs s.data := by
  induction hn : barSz - s.data using Nat.strongRecOn generalizing s with
  | ind n ih =>
    cases h : parseStep readl s with
    | inl r =>
      simp only [returns_inl h]
      constructor
      · rintro ⟨caps, rfl⟩
        exact chain_last hs (parseStep_inl h rfl).1
      · intro hc
        have hlast : s.Last readl := chain_stuck (fun t hm => nomatch (parseStep_moves hm).symm.trans h) hc
        exact ⟨s.caps, Sum.inl.inj ((parseStep_last hs.room hlast).symm.trans h)⟩
    | inr t =>
      have hm := parseStep_inr h
      have hin := hm.inside
      simp only [returns_inr h]
      rw [ih (barSz - t.data) (by rw [hm.data]; omega) (hm.ok hs) rfl]
      exact chain_moves_iff hs hm

theorem returns_zero_within (hs : s.Ok) (h : Returns (parseStep readl) s (0, caps)) : caps.Within barSz := by
  obtain ⟨n, hn⟩ := h
  induction n generalizing s with
  | zero => cases hn
  | succ n ih =>
    rw [exec] at hn
    split at hn
    case h_1 r h =>
      cases hn
      obtain ⟨-, rfl⟩ : _ ∧ caps = s.caps := parseStep_inl h rfl
      exact hs.within.mono hs.room
    case h_2 t h => exact ih (parseStep_keeps hs h) hn

theorem Caps.Within.regions_inside (h : caps.Within barSz) {r : Region} (hr : r ∈ caps.regions) : r.Inside barSz := by
  rw [Region.inside_iff]
  simp only [Caps.regions, List.mem_cons, List.not_mem_nil, or_false] at hr
  rcases hr with rfl | rfl | rfl
  · exact .inr h.mbox
  · exact .inr h.crypto
  · exact .inr h.stats

theorem tlvCapsParse_sound (readl : Nat → BitVec 32) : TlvSound readl := by
  have hin : ∀ s, Reaches (parseStep readl) ⟨tlvBase, capsReset⟩ s → ∀ o ∈ parseReads readl s, tlvBase ≤ o ∧
      o + 4 ≤ barSz :=
    fun s hs o ho => parseReads_inside (reaches_ok hs) ho
  by_cases hz : readl tlvBase = 0
  · have hrun : ∀ r, nfpNetTlvCapsParse readl r ↔ r = (0, capsReset) := by
      intro r
      rw [nfpNetTlvCapsParse, if_pos hz]
    refine ⟨⟨_, (hrun _).mpr rfl⟩, hin, iff_of_true ⟨_, (hrun _).mpr rfl⟩ (.inl hz), ?_⟩
    intro caps h r hr
    cases (hrun _).mp h
    exact (start_ok.within.mono (by decide)).regions_inside hr
  · have hrun : ∀ r, nfpNetTlvCapsParse readl r ↔ Returns (parseStep readl) ⟨tlvBase, capsReset⟩ r := by
      intro r
      rw [nfpNetTlvCapsParse, if_neg hz]
    refine ⟨?_, hin, ?_, ?_⟩
    · obtain ⟨r, h⟩ := parse_terminates start_ok
      exact ⟨r, (hrun r).mpr h⟩
    · simp only [hrun, returns_zero_iff start_ok]
      exact ⟨.inr, fun h => h.resolve_left hz⟩
    · intro caps h r hr
      exact (returns_zero_within start_ok ((hrun _).mp h)).regions_inside hr

end NfpDriver.TlvCaps
