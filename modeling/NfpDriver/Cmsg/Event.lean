import NfpDriver.Library.Bytes

namespace NfpDriver.Cmsg

open Octets

abbrev eventEinval : Int := -22
abbrev intMax : Nat := 2 ^ 31 - 1
abbrev nfpCcmAbiVersion : BitVec 8 := 1
abbrev sizeofBpfEvent : Nat := 24

structure BpfEvent where
  ver : BitVec 8
  cpuId : BitVec 32
  mapPtr : BitVec 64
  dataSize : BitVec 32
  pktSize : BitVec 32
  deriving DecidableEq, Repr

def BpfEvent.ofBytes (data : Bytes) : BpfEvent where
  ver := byteAt data 1
  cpuId := readBe32 data 4
  mapPtr := readBe32 data 8 ++ readBe32 data 12
  dataSize := readBe32 data 16
  pktSize := readBe32 data 20

structure EventOutput where
  mapId : BitVec 32
  cpuId : BitVec 32
  record : Region
  packet : Region
  deriving DecidableEq, Repr

def roundUpFour (x : BitVec 32) : BitVec 32 := ((x - 1) ||| 3) + 1

def nfpBpfEventOutput (mapsNeutral : BitVec 32 → Bool) (data : Bytes) : Except Int EventOutput :=
  let len := data.length
  if len < sizeofBpfEvent then .error eventEinval
  else
    let cbe := BpfEvent.ofBytes data
    let pktSize := cbe.pktSize.toNat
    let dataSize := cbe.dataSize.toNat
    let mapId := cbe.mapPtr.setWidth 32
    if pktSize + dataSize > intMax ∨ len < sizeofBpfEvent + pktSize + dataSize then .error eventEinval
    else if cbe.ver ≠ nfpCcmAbiVersion then .error eventEinval
    else if mapsNeutral mapId = false ∨ cbe.mapPtr.toNat > 2 ^ 32 - 1 then .error eventEinval
    else .ok {
      mapId := mapId
      cpuId := cbe.cpuId
      record := ⟨sizeofBpfEvent + (roundUpFour cbe.pktSize).toNat, dataSize⟩
      packet := ⟨sizeofBpfEvent, pktSize⟩ }

theorem or_three (n : Nat) : n ||| 3 = n / 4 * 4 + 3 := by
  have hlow : n % 4 ||| 3 = 3 := by
    have hlt : n % 4 < 4 := Nat.mod_lt n (by decide)
    generalize n % 4 = r at hlt
    revert r
    decide
  have hsplit : n = 2 ^ 2 * (n / 4) ||| n % 4 := by
    rw [← Nat.two_pow_add_eq_or_of_lt (Nat.mod_lt n (by decide))]
    exact (Nat.div_add_mod n 4).symm
  calc
    n ||| 3 = (2 ^ 2 * (n / 4) ||| n % 4) ||| 3 := by rw [← hsplit]
    _ = 2 ^ 2 * (n / 4) ||| 3 := by rw [Nat.or_assoc, hlow]
    _ = n / 4 * 4 + 3 := by
      rw [← Nat.two_pow_add_eq_or_of_lt (show 3 < 2 ^ 2 by decide)]
      omega

theorem roundUpFour_toNat {x : BitVec 32} (h : x.toNat ≤ intMax) : (roundUpFour x).toNat = (x.toNat + 3) / 4 * 4 := by
  have hor : ((x - 1) ||| 3).toNat = (x - 1).toNat / 4 * 4 + 3 := by
    exact or_three _
  have hsub : (x - 1).toNat = (x.toNat + (2 ^ 32 - 1)) % 2 ^ 32 := by
    rw [BitVec.toNat_sub, Nat.add_comm]
    rfl
  change x.toNat ≤ 2 ^ 31 - 1 at h
  rw [roundUpFour, BitVec.toNat_add, hor, hsub]
  change ((x.toNat + (2 ^ 32 - 1)) % 2 ^ 32 / 4 * 4 + 3 + 1) % 2 ^ 32 = _
  omega

-- what is checked of a header, whatever the length of the message behind it
structure Addressed (mapsNeutral : BitVec 32 → Bool) (cbe : BpfEvent) : Prop where
  sum : cbe.pktSize.toNat + cbe.dataSize.toNat ≤ intMax
  version : cbe.ver = nfpCcmAbiVersion
  known : mapsNeutral (cbe.mapPtr.setWidth 32) = true
  mapId : cbe.mapPtr.toNat ≤ 2 ^ 32 - 1

variable {mapsNeutral : BitVec 32 → Bool}

theorem eventOutput_ok {data : Bytes} {out : EventOutput} :
    nfpBpfEventOutput mapsNeutral data = .ok out ↔
      Addressed mapsNeutral (BpfEvent.ofBytes data) ∧
      sizeofBpfEvent + (BpfEvent.ofBytes data).pktSize.toNat + (BpfEvent.ofBytes data).dataSize.toNat ≤ data.length ∧
      out = ⟨(BpfEvent.ofBytes data).mapPtr.setWidth 32, (BpfEvent.ofBytes data).cpuId,
        ⟨sizeofBpfEvent + (roundUpFour (BpfEvent.ofBytes data).pktSize).toNat, (BpfEvent.ofBytes data).dataSize.toNat⟩,
        ⟨sizeofBpfEvent, (BpfEvent.ofBytes data).pktSize.toNat⟩⟩ := by
  constructor
  · intro h
    rw [nfpBpfEventOutput] at h
    split at h
    · cases h
    simp only at h
    split at h
    · cases h
    next hlen =>
    split at h
    · cases h
    next hver =>
    split at h
    · cases h
    next hmap =>
    cases h
    push Not at hlen hver hmap
    exact ⟨⟨hlen.1, hver, Bool.eq_true_of_not_eq_false hmap.1, hmap.2⟩, hlen.2, rfl⟩
  · rintro ⟨ha, hlen, rfl⟩
    have hmap : ¬(mapsNeutral ((BpfEvent.ofBytes data).mapPtr.setWidth 32) = false ∨
        (BpfEvent.ofBytes data).mapPtr.toNat > 2 ^ 32 - 1) := by
      rw [ha.known]
      exact not_or.mpr ⟨Bool.noConfusion, not_lt.mpr ha.mapId⟩
    rw [nfpBpfEventOutput, if_neg (by omega), if_neg (by have := ha.sum; omega), if_neg (not_not.mpr ha.version),
      if_neg hmap]

def EventInside (mapsNeutral : BitVec 32 → Bool) (data : Bytes) : Prop :=
  ∀ out, nfpBpfEventOutput mapsNeutral data = .ok out →
    out.packet.Inside data.length ∧ out.record.Inside data.length

theorem eventInside_iff {data : Bytes} :
    EventInside mapsNeutral data ↔
      (Addressed mapsNeutral (BpfEvent.ofBytes data) →
        sizeofBpfEvent + (BpfEvent.ofBytes data).pktSize.toNat + (BpfEvent.ofBytes data).dataSize.toNat ≤ data.length →
        (BpfEvent.ofBytes data).dataSize.toNat = 0 ∨
          sizeofBpfEvent + ((BpfEvent.ofBytes data).pktSize.toNat + 3) / 4 * 4 +
            (BpfEvent.ofBytes data).dataSize.toNat ≤
            data.length) := by
  constructor
  · intro h ha hlen
    have hin := (h _ (eventOutput_ok.mpr ⟨ha, hlen, rfl⟩)).2
    rwa [inside_mk, roundUpFour_toNat (by have := ha.sum; omega)] at hin
  · intro h out hout
    obtain ⟨ha, hlen, rfl⟩ := eventOutput_ok.mp hout
    rw [inside_mk, inside_mk, roundUpFour_toNat (by have := ha.sum; omega)]
    exact ⟨.inr (by omega), h ha hlen⟩

theorem ofBytes_append {hdr : Bytes} (h : hdr.length = sizeofBpfEvent) (payload : Bytes) :
    BpfEvent.ofBytes (hdr ++ payload) = BpfEvent.ofBytes hdr := by
  replace h : hdr.length = 24 := h
  rw [BpfEvent.ofBytes, BpfEvent.ofBytes, byteAt_append (by omega), readBe32_append (by omega),
    readBe32_append (by omega),
    readBe32_append (by omega), readBe32_append (by omega), readBe32_append (by omega)]

-- the shortest message with the sizes of its header decides: a longer one is read inside as soon as this one is
theorem event_inside_iff (mapsNeutral : BitVec 32 → Bool) (hdr : Bytes) (hlen : hdr.length = sizeofBpfEvent) :
    (∀ payload, EventInside mapsNeutral (hdr ++ payload)) ↔
      (Addressed mapsNeutral (BpfEvent.ofBytes hdr) →
        4 ∣ (BpfEvent.ofBytes hdr).pktSize.toNat ∨ (BpfEvent.ofBytes hdr).dataSize = 0) := by
  simp only [eventInside_iff, ofBytes_append hlen, List.length_append, hlen]
  constructor
  · intro h ha
    have hshort := h (List.replicate ((BpfEvent.ofBytes hdr).pktSize.toNat + (BpfEvent.ofBytes hdr).dataSize.toNat) 0)
        ha
    rw [List.length_replicate] at hshort
    rcases hshort (by omega) with hz | hle
    · exact .inr (BitVec.eq_of_toNat_eq hz)
    · exact .inl (by omega)
  · intro h payload ha hle
    rcases h ha with hdvd | hz
    · exact .inr (by omega)
    · exact .inl (congrArg BitVec.toNat hz)

-- version 1, map 7, `n` bytes of packet and one byte of data
def eventHeader (n : BitVec 8) : Bytes := [0, 1, 0, 0, 0, 0, 0, 0, 0, 0, 0, 0, 0, 0, 0, 7, 0, 0, 0, 1, 0, 0, 0, n]

theorem aligned_event_read_inside : Addressed (fun _ => true) (BpfEvent.ofBytes (eventHeader 4)) ∧
    ∀ payload, EventInside (fun _ => true) (eventHeader 4 ++ payload) :=
  ⟨⟨by decide, by decide, rfl, by decide⟩, (event_inside_iff _ (eventHeader 4) rfl).mpr fun _ => .inl (by decide)⟩

theorem short_event_read_outside : ¬ EventInside (fun _ => true) (eventHeader 1 ++ [0xaa, 0xbb]) := by
  intro h
  have hout := (h ⟨7, 0, ⟨28, 1⟩, ⟨24, 1⟩⟩ (by decide)).2
  exact absurd (hout 0 Nat.one_pos) (by decide)

end NfpDriver.Cmsg
