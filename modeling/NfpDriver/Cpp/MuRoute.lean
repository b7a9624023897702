import NfpDriver.Cpp.Route

namespace NfpDriver.Cpp

open Fields BitVec

def muIslandLsb (addr40 : Bool) : Nat := if addr40 then 32 else 24

def muIdxLsb (addr40 : Bool) : Nat := if addr40 then 37 else 29

def muLocality (addr40 : Bool) (addr : Word) : Word := addr >>> nfpCppatMuLocalityLsb addr40 &&& 3

def muSelect (addr : Word) (mode idx : Nat) (isld1 isld0 : CInt) : CInt :=
  let isld := if addr &&& bitUll idx ≠ 0 then isld1 else isld0
  match mode with
  | 2 => isld &&& ~~~1 ||| (addr >>> (idx - 1) &&& 1).setWidth 32
  | 3 => isld &&& ~~~3 ||| (addr >>> (idx - 2) &&& 3).setWidth 32
  | _ => isld

def muIsland (addr : Word) (mode : Nat) (addr40 : Bool) (isld1 isld0 : CInt) : CInt :=
  if muLocality addr40 addr = muLocalityDirect ∨ mode = 0 then (addr >>> muIslandLsb addr40 &&& 0x3f).setWidth 32
  else muSelect addr mode (muIdxLsb addr40) isld1 isld0

def Emu (dest : CInt) : Prop := 24 ≤ dest.toNat ∧ dest.toNat ≤ 26

structure MuEncoded (addr : Word) (dest : CInt) (mode : Nat) (addr40 : Bool) (isld1 isld0 : CInt) (a : Word) :
    Prop where
  island : muIsland a mode addr40 isld1 isld0 = dest
  direct : mode = 3 → ¬Emu dest → muLocality addr40 a = muLocalityDirect
  same : SameOutside (muIslandLsb addr40 + 7) (muIslandLsb addr40) a addr

def MuRouted (addr : Word) (dest : CInt) (mode : Nat) (addr40 : Bool) (isld1 isld0 : CInt) : Prop :=
  ∀ a, nfpEncodeMu addr dest mode addr40 isld1 isld0 = .ok a → MuEncoded addr dest mode addr40 isld1 isld0 a

variable {a addr : Word} {h l : Nat}

section Locality

variable {addr40 : Bool}

-- the index bit is the top bit of the island field and the locality field lies right above it
theorem mu_layout (addr40 : Bool) :
    nfpCppatMuLocalityLsb addr40 = muIslandLsb addr40 + 6 ∧ muIdxLsb addr40 = muIslandLsb addr40 + 5 ∧
      24 ≤ muIslandLsb addr40 ∧ muIslandLsb addr40 ≤ 32 := by
  cases addr40 <;> decide

theorem and_three_eq_two (x : Word) : x &&& 3 = muLocalityDirect ↔ x.getLsbD 0 = false ∧ x.getLsbD 1 = true := by
  have hmask : (3 : Word) = genmaskUll 1 0 := by decide
  constructor
  · intro h
    have hbit (k : Nat) (hk : k ≤ 1) : x.getLsbD k = (muLocalityDirect).getLsbD k := by
      rw [← h, hmask, getLsbD_and, getLsbD_genmaskUll (by decide)]
      simp [hk]
    exact ⟨hbit 0 (by decide), hbit 1 (by decide)⟩
  · rintro ⟨h0, h1⟩
    refine eq_of_getLsbD_eq fun k hk => ?_
    rw [hmask, getLsbD_and, getLsbD_genmaskUll (by decide)]
    match k with
    | 0 => rw [h0]; rfl
    | 1 => rw [h1]; rfl
    | k + 2 =>
      rw [decide_eq_false (by omega), Bool.and_false, show muLocalityDirect = BitVec.ofNat 64 2 from rfl,
        getLsbD_ofNat, Nat.testBit_lt_two_pow, Bool.and_false]
      exact lt_of_lt_of_le (by decide) (Nat.pow_le_pow_right Nat.two_pos (Nat.le_add_left 2 k))

theorem muLocality_direct :
    muLocality addr40 a = muLocalityDirect ↔
      a.getLsbD (muIslandLsb addr40 + 6) = false ∧ a.getLsbD (muIslandLsb addr40 + 7) = true := by
  rw [muLocality, and_three_eq_two, getLsbD_ushiftRight, getLsbD_ushiftRight, (mu_layout addr40).1]

theorem muLocality_same (hs : SameOutside h l a addr) (hh : h ≤ muIslandLsb addr40 + 5) :
    muLocality addr40 a = muLocalityDirect ↔ muLocality addr40 addr = muLocalityDirect := by
  rw [muLocality_direct, muLocality_direct, hs _ (.inr (by omega)), hs _ (.inr (by omega))]

theorem SameOutside.widen {h' l' : Nat} (hs : SameOutside h l a addr) (hh : h ≤ h') (hl : l' ≤ l) :
    SameOutside h' l' a addr :=
  fun k hk => hs k (by omega)

end Locality

section Encode

variable {addr : Word} {dest : CInt} {mode : Nat} {addr40 : Bool} {isld1 isld0 : CInt}

theorem direct_encoded {x : Word} (hd : dest.toNat < 64) (hx : muLocality addr40 x = muLocalityDirect ∨ mode = 0)
    (hs : SameOutside (muIslandLsb addr40 + 7) (muIslandLsb addr40) x addr) (hmode : mode = 3 → ¬Emu dest →
      muLocality addr40 x = muLocalityDirect) :
    MuEncoded addr dest mode addr40 isld1 isld0 (setIsland x dest (muIslandLsb addr40)) := by
  obtain ⟨-, -, -, hle⟩ := mu_layout addr40
  have hsame := setIsland_sameOutside (show muIslandLsb addr40 + 5 < 64 by omega) x dest
  have hloc := muLocality_same hsame le_rfl
  refine ⟨?_, fun hm he => hloc.mpr (hmode hm he), fun k hk => ?_⟩
  · rw [muIsland, if_pos (hx.imp_left hloc.mpr)]
    exact setIsland_field (by omega) x hd
  · rw [hsame k (by omega)]
    exact hs k hk

theorem selected_encoded (h0 : mode ≠ 0) (hda : muLocality addr40 addr ≠ muLocalityDirect)
    (hemu : mode = 3 → Emu dest) (hs : SameOutside (muIdxLsb addr40) l a addr) (hl : muIslandLsb addr40 ≤ l)
    (hsel : muSelect a mode (muIdxLsb addr40) isld1 isld0 = dest) : MuEncoded addr dest mode addr40 isld1 isld0 a := by
  obtain ⟨-, hidx, -, -⟩ := mu_layout addr40
  have hloc := muLocality_same hs (le_of_eq hidx)
  refine ⟨?_, fun hm he => absurd (hemu hm) he, hs.widen (by omega) hl⟩
  rw [muIsland, if_neg (not_or.mpr ⟨mt hloc.mp hda, h0⟩), hsel]

theorem select_masked (a : Word) (idx : Nat) (mask f : CInt) :
    (if a &&& bitUll idx ≠ 0 then isld1 else isld0) &&& mask ||| f =
      if a &&& bitUll idx ≠ 0 then isld1 &&& mask ||| f else isld0 &&& mask ||| f := by
  split <;> rfl

theorem outside_iff (h0 : 0 < dest.toNat) (hd : dest.toNat < 64) :
    dest.toInt > 0 ∧ (dest.toInt < 24 ∨ dest.toInt > 26) ↔ ¬Emu dest := by
  rw [toInt_eq_toNat_of_lt (by omega), Emu]
  omega

theorem getLsbD_forceDirect (addr : Word) (k : Nat) :
    (addr ||| muLocalityDirect <<< nfpCppatMuLocalityLsb addr40).getLsbD k =
      (addr.getLsbD k || decide (k = muIslandLsb addr40 + 7)) := by
  have hbit : muLocalityDirect <<< nfpCppatMuLocalityLsb addr40 = bitUll (muIslandLsb addr40 + 7) := by
    cases addr40 <;> decide
  obtain ⟨-, -, -, hle⟩ := mu_layout addr40
  rw [hbit, getLsbD_or, getLsbD_bitUll (by omega)]

theorem forceDirect_direct :
    muLocality addr40 (addr ||| muLocalityDirect <<< nfpCppatMuLocalityLsb addr40) = muLocalityDirect ↔
      addr.getLsbD (muIslandLsb addr40 + 6) = false := by
  rw [muLocality_direct, getLsbD_forceDirect, getLsbD_forceDirect]
  simp

theorem forceDirect_same :
    SameOutside (muIslandLsb addr40 + 7) (muIslandLsb addr40)
      (addr ||| muLocalityDirect <<< nfpCppatMuLocalityLsb addr40) addr := by
  intro k hk
  rw [getLsbD_forceDirect, decide_eq_false (by omega), Bool.or_false]

theorem encodeMu_three (hemu : ¬Emu dest) (h0 : 0 < dest.toNat) (hd : dest.toNat < 64) :
    nfpEncodeMu addr dest 3 addr40 isld1 isld0 =
      .ok (setIsland (addr ||| muLocalityDirect <<< nfpCppatMuLocalityLsb addr40) dest (muIslandLsb addr40)) :=
  if_pos ((outside_iff h0 hd).mpr hemu)

theorem encodeMu_encoded (hm : mode < 4) (h0 : 0 < dest.toNat) (hd : dest.toNat < 64)
    (hbit : mode = 3 → ¬Emu dest → addr.getLsbD (muIslandLsb addr40 + 6) = false)
    (h : nfpEncodeMu addr dest mode addr40 isld1 isld0 = .ok a) : MuEncoded addr dest mode addr40 isld1 isld0 a := by
  have hidx : muIdxLsb addr40 < 64 ∧ 2 < muIdxLsb addr40 ∧ muIslandLsb addr40 + 2 ≤ muIdxLsb addr40 := by
    cases addr40 <;> decide
  have hrefl : SameOutside (muIslandLsb addr40 + 7) (muIslandLsb addr40) addr addr := fun _ _ => rfl
  match mode, hm with
  | 0, _ =>
    cases h
    exact direct_encoded hd (.inr rfl) hrefl (nomatch ·)
  | 1, _ =>
    change (if muLocality addr40 addr = muLocalityDirect then _ else _) = _ at h
    split at h
    · next hda =>
      cases h
      exact direct_encoded hd (.inl hda) hrefl (nomatch ·)
    · next hda =>
      obtain ⟨hsel, hsame⟩ := selectIsland_route hidx.1 h
      exact selected_encoded (by decide) hda (nomatch ·) hsame (by omega) hsel
  | 2, _ =>
    change (if muLocality addr40 addr = muLocalityDirect then _ else _) = _ at h
    split at h
    · next hda =>
      cases h
      exact direct_encoded hd (.inl hda) hrefl (nomatch ·)
    · next hda =>
      obtain ⟨hsel, hsame⟩ := search_routes hidx.1 hidx.2.1 (d := 1) (m := 1) (by decide) (by decide) (by decide) h
      exact selected_encoded (by decide) hda (nomatch ·) hsame (by omega) ((select_masked ..).trans hsel)
  | 3, _ =>
    by_cases hemu : Emu dest
    · have hout : ¬(dest.toInt > 0 ∧ (dest.toInt < 24 ∨ dest.toInt > 26)) := fun ho => (outside_iff h0 hd).mp ho hemu
      have h : (if muLocality addr40 addr = muLocalityDirect then _ else _) = _ := (if_neg hout).symm.trans h
      split at h
      · next hda =>
        cases h
        exact direct_encoded hd (.inl hda) hrefl fun _ he => absurd hemu he
      · next hda =>
        obtain ⟨hsel, hsame⟩ := search_routes hidx.1 hidx.2.1 (d := 2) (m := 3) (by decide) (by decide) (by decide) h
        exact selected_encoded (by decide) hda (fun _ => hemu) hsame (by omega) ((select_masked ..).trans hsel)
    · cases (encodeMu_three hemu h0 hd).symm.trans h
      have hdir := forceDirect_direct.mpr (hbit rfl hemu)
      exact direct_encoded hd (.inl hdir) forceDirect_same fun _ _ => hdir

end Encode

theorem mu_routing_iff (addr : Word) (dest : CInt) (mode : Nat) (addr40 : Bool) (isld1 isld0 : CInt) (hm : mode < 4)
    (h0 : 0 < dest.toNat) (hd : dest.toNat < 64) :
    MuRouted addr dest mode addr40 isld1 isld0 ↔
      (mode = 3 → ¬Emu dest → addr.getLsbD (nfpCppatMuLocalityLsb addr40) = false) := by
  rw [(mu_layout addr40).1]
  constructor
  · rintro h rfl hemu
    have hdir := (h _ (encodeMu_three hemu h0 hd)).direct rfl hemu
    have hle := (mu_layout addr40).2.2.2
    rw [muLocality_same (setIsland_sameOutside (by omega) _ dest) le_rfl] at hdir
    exact forceDirect_direct.mp hdir
  · exact fun hbit a ha => encodeMu_encoded hm h0 hd hbit ha

theorem mode3_island32_routed :
    MuRouted 0x8000001000 32 3 true 24 28 ∧
      nfpEncodeMu 0x8000001000 32 3 true 24 28 = .ok 0xa000001000 :=
  ⟨(mu_routing_iff 0x8000001000 32 3 true 24 28 (by decide) (by decide) (by decide)).mpr
    fun _ _ => by decide, by decide⟩

theorem mode3_locality_kept :
    nfpEncodeMu 0x4000001000 32 3 true 24 28 = .ok 0xe000001000 ∧ muIsland 0xe000001000 3 true 24 28 = 24 ∧
      ¬MuRouted 0x4000001000 32 3 true 24 28 := by
  have henc : nfpEncodeMu 0x4000001000 32 3 true 24 28 = .ok 0xe000001000 := by decide
  have hisl : muIsland 0xe000001000 3 true 24 28 = 24 := by decide
  refine ⟨henc, hisl, fun h => ?_⟩
  exact absurd ((h _ henc).island.symm.trans hisl) (by decide)

end NfpDriver.Cpp
