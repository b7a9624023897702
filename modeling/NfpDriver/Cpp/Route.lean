import NfpDriver.Cpp.Target

namespace NfpDriver.Cpp

open Fields

def idxLsb (addr40 : Bool) : Nat := if addr40 then 39 else 31

def routeMsb (mode : Nat) (addr40 : Bool) : Nat :=
  match mode with
  | 0 => if addr40 then 39 else 31
  | _ => idxLsb addr40

def routeLsb (mode : Nat) (addr40 : Bool) : Nat :=
  match mode with
  | 0 => if addr40 then 34 else 26
  | 1 => idxLsb addr40
  | 2 => idxLsb addr40 - 1
  | _ => idxLsb addr40 - 2

def SameOutside (h l : Nat) (x y : Word) : Prop := ∀ k, k < l ∨ h < k → x.getLsbD k = y.getLsbD k

variable {lsb idx mode : Nat} {dest isld0 isld1 : CInt} {a addr : Word}

theorem getLsbD_setIsland (hl : lsb + 5 < 64) (addr : Word) (dest : CInt) (k : Nat) :
    (setIsland addr dest lsb).getLsbD k =
      if lsb ≤ k ∧ k ≤ lsb + 5 then (dest.signExtend 64).getLsbD (k - lsb) else addr.getLsbD k := by
  simp only [setIsland, BitVec.getLsbD_or, BitVec.getLsbD_and, BitVec.getLsbD_not, getLsbD_genmaskUll hl,
    BitVec.getLsbD_shiftLeft]
  split
  · next h => simp [h, show k < 64 by omega, show ¬k < lsb by omega]
  next h =>
  by_cases hk : k < 64
  · simp [h, hk]
  · simp [h, hk, BitVec.getLsbD_of_ge _ _ (le_of_not_gt hk)]

theorem setIsland_sameOutside (hl : lsb + 5 < 64) (addr : Word) (dest : CInt) :
    SameOutside (lsb + 5) lsb (setIsland addr dest lsb) addr := by
  intro k hk
  rw [getLsbD_setIsland hl, if_neg (by omega)]

theorem setIsland_field (hl : lsb + 5 < 64) (addr : Word) (hd : dest.toNat < 64) :
    (setIsland addr dest lsb >>> lsb &&& 0x3f).setWidth 32 = dest := by
  have hmask : (0x3f : Word) = genmaskUll 5 0 := by decide
  refine BitVec.eq_of_getLsbD_eq fun k hk => ?_
  rw [hmask, BitVec.getLsbD_setWidth, BitVec.getLsbD_and, BitVec.getLsbD_ushiftRight, getLsbD_setIsland hl,
    getLsbD_genmaskUll (by decide)]
  by_cases h5 : k ≤ 5
  · rw [if_pos (by omega), BitVec.getLsbD_signExtend]
    simp [hk, h5, show k < 64 by omega]
  have hlow : dest.getLsbD k = false := by
    rw [BitVec.getLsbD, Nat.testBit_lt_two_pow]
    exact lt_of_lt_of_le hd (Nat.pow_le_pow_right Nat.two_pos (show 6 ≤ k by omega))
  rw [hlow]
  simp [h5]

theorem selectIsland_route (hi : idx < 64) (h : selectIsland addr dest isld1 isld0 idx = .ok a) :
    (if a &&& bitUll idx ≠ 0 then isld1 else isld0) = dest ∧ SameOutside idx idx a addr := by
  have hsame : ∀ k, k < idx ∨ idx < k → decide (k = idx) = false := fun k hk => decide_eq_false (by omega)
  rw [selectIsland] at h
  split at h
  · next hd =>
    obtain rfl := Except.ok.inj h
    constructor
    · rw [if_neg, hd]
      rw [and_bitUll_ne_zero hi, BitVec.getLsbD_and, BitVec.getLsbD_not, getLsbD_bitUll hi]
      simp
    · intro k hk
      rw [BitVec.getLsbD_and, BitVec.getLsbD_not, getLsbD_bitUll hi, hsame k hk]
      by_cases h64 : k < 64
      · simp [h64]
      · simp [BitVec.getLsbD_of_ge _ _ (le_of_not_gt h64)]
  split at h
  · next hd =>
    obtain rfl := Except.ok.inj h
    constructor
    · rw [if_pos, hd]
      rw [and_bitUll_ne_zero hi, BitVec.getLsbD_or, getLsbD_bitUll hi]
      simp
    · intro k hk
      rw [BitVec.getLsbD_or, getLsbD_bitUll hi, hsame k hk, Bool.or_false]
  · cases h

def placed (addr : Word) (i v iid idx : Nat) : Word :=
  addr &&& ~~~genmaskUll idx iid ||| BitVec.ofNat 64 i <<< idx ||| BitVec.ofNat 64 v <<< iid

theorem testBit_ge {v n k : Nat} (hv : v < 2 ^ n) (hk : n ≤ k) : v.testBit k = false :=
  Nat.testBit_lt_two_pow (lt_of_lt_of_le hv (Nat.pow_le_pow_right Nat.two_pos hk))

section Search

variable {idx iid : Nat} (hi : idx < 64) (hl : iid ≤ idx) {i v : Nat} (h2 : i < 2) (hv : v < 2 ^ (idx - iid))

include hi hl h2 hv

theorem getLsbD_placed (addr : Word) (k : Nat) :
    (placed addr i v iid idx).getLsbD k =
      if k < iid ∨ idx < k then addr.getLsbD k else if k = idx then decide (i = 1) else v.testBit (k - iid) := by
  simp only [placed, BitVec.getLsbD_or, BitVec.getLsbD_and, BitVec.getLsbD_not, getLsbD_genmaskUll hi,
    BitVec.getLsbD_shiftLeft, BitVec.getLsbD_ofNat]
  by_cases hk : k < 64
  · rcases lt_trichotomy k idx with hlt | rfl | hgt
    · by_cases hlow : k < iid
      · simp [hk, hlt, hlow, show ¬iid ≤ k by omega]
      · simp [hk, hlt, hlow, show iid ≤ k by omega, show ¬idx < k by omega, show k ≤ idx by omega,
          show k ≠ idx by omega, show k - iid < 64 by omega]
    · have htop : v.testBit (k - iid) = false := testBit_ge hv le_rfl
      have hbit : i.testBit 0 = decide (i = 1) := by
        rcases (show i = 0 ∨ i = 1 by omega) with rfl | rfl <;> rfl
      simp [hk, hl, htop, hbit, show ¬k < iid by omega]
    · have hvk : v.testBit (k - iid) = false := testBit_ge hv (by omega)
      have hik : i.testBit (k - idx) = false := testBit_ge (n := 1) h2 (by omega)
      simp [hk, hgt, hvk, hik, show ¬k ≤ idx by omega]
  · rw [if_pos (by omega)]
    simp [hk, BitVec.getLsbD_of_ge _ _ (le_of_not_gt hk)]

theorem placed_idx (addr : Word) : placed addr i v iid idx &&& bitUll idx ≠ 0 ↔ i = 1 := by
  rw [and_bitUll_ne_zero hi, getLsbD_placed hi hl h2 hv, if_neg (by omega), if_pos rfl, decide_eq_true_eq]

theorem placed_iid (addr : Word) (hlt : iid < idx) :
    (placed addr i v iid idx >>> iid &&& genmaskUll (idx - iid - 1) 0).setWidth 32 = BitVec.ofNat 32 v := by
  refine BitVec.eq_of_getLsbD_eq fun k hk => ?_
  rw [BitVec.getLsbD_setWidth, BitVec.getLsbD_and, BitVec.getLsbD_ushiftRight, getLsbD_placed hi hl h2 hv,
    getLsbD_genmaskUll (by omega), BitVec.getLsbD_ofNat]
  by_cases hkm : k ≤ idx - iid - 1
  · simp [hk, hkm, show ¬idx < iid + k by omega, show ¬iid + k = idx by omega]
  · simp [hkm, testBit_ge hv (show idx - iid ≤ k by omega)]

theorem placed_sameOutside (addr : Word) : SameOutside idx iid (placed addr i v iid idx) addr := by
  intro k hk
  rw [getLsbD_placed hi hl h2 hv, if_pos hk]

end Search

theorem search_ok {iid vMax : Nat} (h : nfpEncodeBasicSearch addr dest isld0 isld1 iid idx vMax = .ok a) :
    ∃ i v, i < 2 ∧ v < vMax ∧ dest = (if i = 0 then isld0 else isld1) ||| BitVec.ofNat 32 v ∧
      a = placed addr i v iid idx := by
  rw [nfpEncodeBasicSearch] at h
  split at h
  · cases h
  next i v hf =>
  have hp := List.find?_some hf
  have hm := List.mem_of_find?_eq_some hf
  simp only [searchOrder, List.mem_flatMap, List.mem_map, List.mem_range, Prod.mk.injEq] at hm
  obtain ⟨i', hi', v', hv', rfl, rfl⟩ := hm
  exact ⟨i', v', hi', hv', of_decide_eq_true hp, (Except.ok.inj h).symm⟩

theorem search_routes {mask : CInt} (hidx : idx < 64) (h2 : 2 < idx) {m : Word} {d : Nat} (hd : 0 < d) (hle : d ≤ 2)
    (hm : m = genmaskUll (d - 1) 0)
    (h : nfpEncodeBasicSearch addr dest (isld0 &&& mask) (isld1 &&& mask) (idx - d) idx (2 ^ d) = .ok a) :
    (if a &&& bitUll idx ≠ 0 then isld1 &&& mask ||| (a >>> (idx - d) &&& m).setWidth 32
      else isld0 &&& mask ||| (a >>> (idx - d) &&& m).setWidth 32) = dest ∧
    SameOutside idx (idx - d) a addr := by
  obtain ⟨i, v, hi, hv, hdest, rfl⟩ := search_ok h
  have hsub : idx - (idx - d) = d := by omega
  have hv' : v < 2 ^ (idx - (idx - d)) := by rwa [hsub]
  have hfield := placed_iid hidx (Nat.sub_le _ d) hi hv' addr (by omega)
  rw [hsub] at hfield
  refine ⟨?_, placed_sameOutside hidx (Nat.sub_le _ d) hi hv' addr⟩
  rw [hm, hfield, hdest]
  by_cases h1 : i = 1
  · rw [if_pos ((placed_idx hidx (Nat.sub_le _ d) hi hv' addr).mpr h1), if_neg (by omega)]
  · rw [if_neg (mt (placed_idx hidx (Nat.sub_le _ d) hi hv' addr).mp h1), if_pos (by omega)]

def Routed (addr : Word) (dest cppTgt : CInt) (mode : Nat) (addr40 : Bool) (isld1 isld0 : CInt) : Prop :=
  (∀ a, nfpCppatAddrEncode addr dest cppTgt mode addr40 isld1 isld0 = .ok a →
    nfpDecodeBasic a cppTgt mode addr40 isld1 isld0 = .ok dest ∧
      SameOutside (routeMsb mode addr40) (routeLsb mode addr40) a addr) ∧
  (cppTgt = targetQdr ∧ addr40 = false →
    ((∃ a, nfpCppatAddrEncode addr dest cppTgt mode addr40 isld1 isld0 = .ok a) ↔
      nfpDecodeBasic addr cppTgt mode addr40 isld1 isld0 = .ok dest))

section Encode

variable {addr : Word} {dest cppTgt : CInt} {addr40 : Bool} {isld1 isld0 : CInt} (hb : Basic cppTgt)

include hb

theorem Basic.decodable : ¬(cppTgt = targetMu ∨ cppTgt = targetCtXpb) := by
  rcases hb with rfl | rfl | rfl | rfl | rfl | rfl | rfl <;> decide

theorem encode_basic_eq (mode : Nat) :
    nfpCppatAddrEncode addr dest cppTgt mode addr40 isld1 isld0 =
      nfpEncodeBasic addr dest cppTgt mode addr40 isld1 isld0 := by
  rw [nfpCppatAddrEncode, if_pos hb]

theorem encode_routes (hm : mode < 4) (hd : dest.toNat < 64) (hq : ¬(cppTgt = targetQdr ∧ !addr40))
    (h : nfpCppatAddrEncode addr dest cppTgt mode addr40 isld1 isld0 = .ok a) :
    nfpDecodeBasic a cppTgt mode addr40 isld1 isld0 = .ok dest ∧
      SameOutside (routeMsb mode addr40) (routeLsb mode addr40) a addr := by
  rw [encode_basic_eq hb] at h
  unfold nfpEncodeBasic at h
  unfold nfpDecodeBasic
  rw [if_neg hb.decodable] at h ⊢
  have hidx : idxLsb addr40 < 64 ∧ 2 < idxLsb addr40 := by cases addr40 <;> decide
  match mode, hm with
  | 0, _ =>
    simp only [if_neg hq] at h
    obtain rfl := Except.ok.inj h
    have hlsb : (if addr40 then 34 else 26) + 5 < 64 := by cases addr40 <;> decide
    have hmsb : (if addr40 then 34 else 26) + 5 = routeMsb 0 addr40 := by cases addr40 <;> rfl
    exact ⟨congrArg _ (setIsland_field hlsb addr hd), hmsb ▸ setIsland_sameOutside hlsb addr dest⟩
  | 1, _ =>
    simp only [if_neg hq] at h
    obtain ⟨hsel, hsame⟩ := selectIsland_route hidx.1 h
    exact ⟨congrArg _ hsel, hsame⟩
  | 2, _ =>
    simp only [if_neg hq] at h
    obtain ⟨hsel, hsame⟩ := search_routes hidx.1 hidx.2 (d := 1) (m := 1) (by decide) (by decide) (by decide) h
    exact ⟨congrArg _ hsel, hsame⟩
  | 3, _ =>
    simp only [if_neg hq] at h
    obtain ⟨hsel, hsame⟩ := search_routes hidx.1 hidx.2 (d := 2) (m := 3) (by decide) (by decide) (by decide) h
    exact ⟨congrArg _ hsel, hsame⟩

end Encode

theorem decode_total (addr : Word) {cppTgt : CInt} (hc : ¬(cppTgt = targetMu ∨ cppTgt = targetCtXpb)) (hm : mode < 4)
    (addr40 : Bool) (isld1 isld0 : CInt) : ∃ v, nfpDecodeBasic addr cppTgt mode addr40 isld1 isld0 = .ok v := by
  unfold nfpDecodeBasic
  rw [if_neg hc]
  match mode, hm with
  | 0, _ => exact ⟨_, rfl⟩
  | 1, _ => exact ⟨_, rfl⟩
  | 2, _ => exact ⟨_, rfl⟩
  | 3, _ => exact ⟨_, rfl⟩

theorem decode_congr (addr : Word) {t t' : CInt} (ht : ¬(t = targetMu ∨ t = targetCtXpb))
    (ht' : ¬(t' = targetMu ∨ t' = targetCtXpb)) (mode : Nat) (addr40 : Bool) (isld1 isld0 : CInt) :
    nfpDecodeBasic addr t mode addr40 isld1 isld0 = nfpDecodeBasic addr t' mode addr40 isld1 isld0 := by
  unfold nfpDecodeBasic
  rw [if_neg ht, if_neg ht']

section Qdr

variable {addr : Word} {dest isld1 isld0 : CInt} {mode : Nat} (hm : mode < 4)

include hm

theorem encode_qdr_eq :
    nfpCppatAddrEncode addr dest targetQdr mode false isld1 isld0 =
      nfpEncodeBasicQdr addr targetQdr dest mode false isld1 isld0 := by
  have hb : Basic targetQdr := by decide
  rw [encode_basic_eq hb]
  unfold nfpEncodeBasic
  rw [if_neg hb.decodable]
  match mode, hm with
  | 0, _ => exact if_pos ⟨rfl, rfl⟩
  | 1, _ => exact if_pos ⟨rfl, rfl⟩
  | 2, _ => exact if_pos ⟨rfl, rfl⟩
  | 3, _ => exact if_pos ⟨rfl, rfl⟩

theorem encode_qdr_ok :
    nfpCppatAddrEncode addr dest targetQdr mode false isld1 isld0 = .ok a ↔
      a = addr ∧ ¬(dest = targetMu ∨ dest = targetCtXpb) ∧
        nfpDecodeBasic addr targetQdr mode false isld1 isld0 = .ok targetQdr := by
  rw [encode_qdr_eq hm, nfpEncodeBasicQdr]
  by_cases hd : dest = targetMu ∨ dest = targetCtXpb
  · have herr : nfpDecodeBasic addr dest mode false isld1 isld0 = .error .einval := by
      unfold nfpDecodeBasic
      rw [if_pos hd]
    rw [herr]
    exact ⟨fun h => absurd h (by simp), fun h => absurd hd h.2.1⟩
  have hq : ¬(targetQdr = targetMu ∨ targetQdr = targetCtXpb) := by decide
  rw [decode_congr addr hd hq]
  obtain ⟨v, hv⟩ := decode_total addr hq hm false isld1 isld0
  rw [hv]
  simp only
  split
  · next hne => exact ⟨fun h => absurd h (by simp), fun h => absurd (Except.ok.inj h.2.2).symm hne.2⟩
  next heq =>
  have hvq : v = targetQdr := by
    by_contra hne
    exact heq ⟨by decide, fun h => hne h.symm⟩
  exact ⟨fun h => ⟨(Except.ok.inj h).symm, hd, congrArg _ hvq⟩, fun h => congrArg _ h.1.symm⟩

theorem routed_qdr_iff :
    Routed addr dest targetQdr mode false isld1 isld0 ↔
      (dest = targetQdr ∨ nfpDecodeBasic addr targetQdr mode false isld1 isld0 ≠ .ok dest ∧
          (nfpDecodeBasic addr targetQdr mode false isld1 isld0 ≠ .ok targetQdr ∨
            dest = targetMu ∨ dest = targetCtXpb)) := by
  have hex : (∃ a, nfpCppatAddrEncode addr dest targetQdr mode false isld1 isld0 = .ok a) ↔
      ¬(dest = targetMu ∨ dest = targetCtXpb) ∧
        nfpDecodeBasic addr targetQdr mode false isld1 isld0 = .ok targetQdr := by
    constructor
    · rintro ⟨a, ha⟩
      exact ((encode_qdr_ok hm).mp ha).2
    · exact fun h => ⟨addr, (encode_qdr_ok hm).mpr ⟨rfl, h⟩⟩
  rw [Routed, hex]
  constructor
  · rintro ⟨-, h⟩
    have hiff := h ⟨rfl, rfl⟩
    by_cases hd : dest = targetQdr
    · exact .inl hd
    refine .inr ⟨fun hdec => ?_, ?_⟩
    · have hq := (hiff.mpr hdec).2
      exact hd (Except.ok.inj (hdec.symm.trans hq))
    · by_contra hn
      obtain ⟨hq, hmu⟩ := not_or.mp hn
      have hdec := hiff.mp ⟨hmu, not_not.mp hq⟩
      exact hd (Except.ok.inj (hdec.symm.trans (not_not.mp hq)))
  · intro h
    have hiff : (¬(dest = targetMu ∨ dest = targetCtXpb) ∧
        nfpDecodeBasic addr targetQdr mode false isld1 isld0 = .ok targetQdr) ↔
        nfpDecodeBasic addr targetQdr mode false isld1 isld0 = .ok dest := by
      rcases h with rfl | ⟨h1, h2⟩
      · exact ⟨And.right, fun h => ⟨by decide, h⟩⟩
      · exact ⟨fun h => absurd h.2 (h2.resolve_right h.1), fun h => absurd h h1⟩
    refine ⟨fun a ha => ?_, fun _ => hiff⟩
    obtain ⟨rfl, hok⟩ := (encode_qdr_ok hm).mp ha
    exact ⟨hiff.mp hok, fun _ _ => rfl⟩

end Qdr

theorem island_routing_iff (addr : Word) (dest cppTgt : CInt) (mode : Nat) (addr40 : Bool) (isld1 isld0 : CInt)
    (hb : Basic cppTgt) (hm : mode < 4) (hd : dest.toNat < 64) :
    Routed addr dest cppTgt mode addr40 isld1 isld0 ↔
      (cppTgt ≠ targetQdr ∨ addr40 = true ∨ dest = targetQdr ∨
        nfpDecodeBasic addr targetQdr mode false isld1 isld0 ≠ .ok dest ∧
          (nfpDecodeBasic addr targetQdr mode false isld1 isld0 ≠ .ok targetQdr ∨
            dest = targetMu ∨ dest = targetCtXpb)) := by
  by_cases hq : cppTgt = targetQdr ∧ addr40 = false
  · obtain ⟨rfl, rfl⟩ := hq
    rw [routed_qdr_iff hm]
    simp
  have hroute : Routed addr dest cppTgt mode addr40 isld1 isld0 :=
    ⟨fun a ha => encode_routes hb hm hd (by simpa using hq) ha, fun h => absurd h hq⟩
  refine ⟨fun _ => ?_, fun _ => hroute⟩
  rcases not_and_or.mp hq with h | h
  · exact .inl h
  · exact .inr (.inl (Bool.eq_true_of_not_eq_false h))

theorem targetCpp_routes {id : BitVec 32} {table : Nat → BitVec 32} {id' : BitVec 32}
    (h : nfpTargetCpp id addr (some table) = .ok (id', a)) (hi : id &&& 0xff ≠ 0) (hd : (id &&& 0xff).toNat < 64)
    (hb : Basic (id >>> 24 &&& 0x1f)) (hq : id >>> 24 &&& 0x1f ≠ targetQdr)
    (hm : (table (id >>> 24 &&& 0x1f).toNat >>> 13 &&& 7).toNat < 4) :
    nfpDecodeBasic a (id >>> 24 &&& 0x1f) (table (id >>> 24 &&& 0x1f).toNat >>> 13 &&& 7).toNat
      (table (id >>> 24 &&& 0x1f).toNat >>> 12 &&& 1 = 1) (table (id >>> 24 &&& 0x1f).toNat >>> 6 &&& 0x3f)
      (table (id >>> 24 &&& 0x1f).toNat &&& 0x3f) = .ok (id &&& 0xff) := by
  simp only [nfpTargetCpp] at h
  split at h
  · cases h
  split at h
  · cases h
  · next henc =>
    obtain rfl := (Prod.mk.inj (Except.ok.inj h)).2
    exact (encode_routes hb hm hd (fun hc => hq hc.1) henc).1

theorem clsEntry_routed : nfpDecodeBasic 0xd234567890 targetCls 2 true 24 48 = .ok 25 := by
  have h : nfpTargetCpp 0x0f000019 0x1234567890 (some fun _ => 0x5630) = .ok (0x0f000000, 0xd234567890) := by decide
  exact targetCpp_routes h (by decide) (by decide) (by decide) (by decide) (by decide)

theorem clsMode2_routed :
    Routed 0x1234567890 25 targetCls 2 true 24 48 ∧
      nfpCppatAddrEncode 0x1234567890 25 targetCls 2 true 24 48 = .ok 0xd234567890 :=
  ⟨(island_routing_iff 0x1234567890 25 targetCls 2 true 24 48 (by decide) (by decide)
    (by decide)).mpr (.inl (by decide)), by decide⟩

theorem qdrMode1_misrouted :
    nfpDecodeBasic 0x80000000 targetQdr 1 false 40 36 = .ok 40 ∧
      nfpCppatAddrEncode 0x80000000 40 targetQdr 1 false 40 36 = .error .einval ∧
      ¬Routed 0x80000000 40 targetQdr 1 false 40 36 := by
  have hdec : nfpDecodeBasic 0x80000000 targetQdr 1 false 40 36 = .ok 40 := by decide
  have henc : nfpCppatAddrEncode 0x80000000 40 targetQdr 1 false 40 36 = .error .einval := by decide
  refine ⟨hdec, henc, fun h => ?_⟩
  obtain ⟨a, ha⟩ := (h.2 ⟨rfl, rfl⟩).mpr hdec
  exact absurd (henc.symm.trans ha) (by simp)

end NfpDriver.Cpp
