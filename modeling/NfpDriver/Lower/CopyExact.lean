import NfpDriver.Lower.CopyReload

namespace NfpDriver.Lower

open Asm Adder Jit Bpf Machine Engine

def storeInsn (p : Prog) (m : Meta) : Insn := (metaAt p.insns (m.pairedSt.getD 0)).insn

structure Gathered (p : Prog) (m : Meta) (len : Nat) : Prop where
  src : m.insn.srcReg ≤ 9
  dst : m.insn.dstReg ≤ 9
  store : (storeInsn p m).dstReg ≤ 9
  total : m.ldstGatherLen.natAbs = len
  width : bpfLdstBytes m.insn ∣ len
  pairs : 2 * bpfLdstBytes m.insn ≤ len
  most : len ≤ 128

variable {len : Nat} {m : Meta} {p : Prog} {off : BitVec 16}

theorem Gathered.pos (hg : Gathered p m len) : 0 < len := by
  have := bpfLdstBytes_pos m.insn
  have := hg.pairs
  omega

theorem memcpy_code (htotal : m.ldstGatherLen.natAbs = len) :
    (nfpCppMemcpy p m).code = readSource m len ++ movXfers (BitVec.ofNat 8 ((len + 3) / 4)).toNat ++
      cppWriteBack (storeInsn p m) len (BitVec.ofNat 8 ((len + 3) / 4)) ++
      cppReload m.insn len (lastXfer m (BitVec.ofNat 8 ((len + 3) / 4))) := by
  rw [← htotal]
  rfl

theorem does_memcpy (hg : Gathered p m len) (e : Engine) :
    ∃ e', Does (nfpCppMemcpy p m).code e e' ∧
      e'.mem32 = written e.mem32 (e.core.a (gpr (storeInsn p m).dstReg)) (storeInsn p m).off (loadedByte m e) len ∧
      Holding e' (gpr m.insn.dstReg) (leValue (loadedByte m e) (reloadIndex m len) (bpfLdstBytes m.insn)) := by
  have hmost := hg.most
  have hn : (BitVec.ofNat 8 ((len + 3) / 4)).toNat = (len + 3) / 4 := by
    rw [BitVec.toNat_ofNat]
    omega
  obtain ⟨e1, h1, hl⟩ := does_readSource hg.src hg.pos hmost e
  obtain ⟨e2, h2, hm, hout⟩ := does_movXfers (show (len + 3) / 4 ≤ 32 by omega) e1
  have hbytes : ∀ j < 4 * ((len + 3) / 4), e2.outByte 0 j = loadedByte m e j := by
    intro j hj
    rw [outByte, zero_add, hout _ (by omega), hl.lane _ (by omega) _ (by omega)]
    congr 1
    omega
  obtain ⟨e3, h3, hs⟩ := does_writeBack hg.store hg.pos hmost hbytes
  have hwords : Words e3 ((len + 3) / 4) (loadedByte m e) :=
    ⟨fun i hi => by rw [hs.ext, hm.ext]; exact hl.word i hi, fun i hi j hj =>
      by rw [hs.ext, hm.ext]; exact hl.lane i hi j hj⟩
  obtain ⟨e4, h4, hmem, hhold⟩ := does_reload hmost hg.pairs hg.dst hg.width hwords
  refine ⟨e4, ?_, ?_, hhold⟩
  · rw [memcpy_code hg.total, hn]
    exact ((h1.append h2).append h3).append h4
  · rw [hmem, hs.mem32, hm.mem32, hl.mem32, hm.a, hl.a _ (far_gpr hg.store).lowTemp]

def sourceByte (m : Meta) (e : Engine) (j : Nat) : BitVec 8 :=
  if isWide m then
    e.mem40 ((pairA e.core (gpr m.insn.srcReg)).setWidth 40 + m.insn.off.signExtend 40 + BitVec.ofNat 40 j)
  else e.mem32 (e.core.a (gpr m.insn.srcReg) + m.insn.off.signExtend 32 + BitVec.ofNat 32 j)

def Banked (m : Meta) (e : Engine) : Prop := pairA e.core (gpr m.insn.srcReg) = pairB e.core (gpr m.insn.srcReg)

theorem sext_toNat {w : Nat} (hw : 16 ≤ w) :
    (off.signExtend w).toNat = off.toNat + if off.msb then 2 ^ w - 2 ^ 16 else 0 := by
  rw [BitVec.toNat_signExtend, BitVec.toNat_setWidth, Nat.mod_eq_of_lt]
  exact off.isLt.trans_le (Nat.pow_le_pow_right (by decide) hw)

theorem loadedByte_eq {e : Engine} (hb : Banked m e) (hoff : isWide m → m.insn.off.msb = false) :
    loadedByte m e = sourceByte m e := by
  funext j
  rw [loadedByte, sourceByte]
  split
  · next hw =>
    have hhigh := congrArg hi hb
    rw [hi_pairA, hi_pairB] at hhigh
    have hsext : (sext16 m.insn.off).setWidth 40 = m.insn.off.signExtend 40 := by
      apply BitVec.eq_of_toNat_eq
      rw [BitVec.toNat_setWidth, sext16, sext_toNat (by decide), sext_toNat (by decide), hoff hw]
      simp only [Bool.false_eq_true, if_false, add_zero]
      omega
    rw [hsext, pairA, hhigh]
  · rfl

theorem nonneg_iff (off : BitVec 16) : 0 ≤ off.toInt ↔ off.msb = false := by
  rw [BitVec.msb_eq_toInt, decide_eq_false_iff_not, Int.not_lt]

def memEngine (mem32 : BitVec 32 → BitVec 8) (mem40 : BitVec 40 → BitVec 8) : Engine :=
  { flatEngine 0 0 with mem32 := mem32, mem40 := mem40 }

theorem memEngine_banked (m : Meta) (mem32 : BitVec 32 → BitVec 8) (mem40 : BitVec 40 → BitVec 8) :
    Banked m (memEngine mem32 mem40) := rfl

theorem memEngine_base (mem32 : BitVec 32 → BitVec 8) (mem40 : BitVec 40 → BitVec 8) (g : BitVec 16) :
    (pairA (memEngine mem32 mem40).core g).setWidth 40 = 0 := by
  change ((0 : BitVec 32) ++ (0 : BitVec 32)).setWidth 40 = 0
  decide

theorem wide_misses (hw : isWide m) (hneg : m.insn.off.msb = true) {k : Nat} (hk : k < 2 ^ 31) {j : Nat}
    (hj : j < 2 ^ 31) (mem32 : BitVec 32 → BitVec 8) :
    loadedByte m (memEngine mem32 fun a => if a = m.insn.off.signExtend 40 + BitVec.ofNat 40 k then 1 else 0) j =
      0 := by
  have hne : (0 : BitVec 40) + (sext16 m.insn.off).setWidth 40 + BitVec.ofNat 40 j ≠
      m.insn.off.signExtend 40 + BitVec.ofNat 40 k := by
    intro hc
    have hn := congrArg BitVec.toNat hc
    rw [BitVec.toNat_add, BitVec.toNat_add, BitVec.toNat_add, BitVec.toNat_setWidth, sext16, sext_toNat (by decide),
      sext_toNat (by decide), hneg, BitVec.toNat_ofNat, BitVec.toNat_ofNat] at hn
    change (((0 + (m.insn.off.toNat + (2 ^ 32 - 2 ^ 16)) % 2 ^ 40) % 2 ^ 40 + j % 2 ^ 40) % 2 ^ 40) =
      (m.insn.off.toNat + (2 ^ 40 - 2 ^ 16) + k % 2 ^ 40) % 2 ^ 40 at hn
    omega
  rw [loadedByte, if_pos hw]
  refine if_neg ?_
  rw [← memEngine_base mem32 (fun a => if a = m.insn.off.signExtend 40 + BitVec.ofNat 40 k then 1 else 0)
    (gpr m.insn.srcReg)] at hne
  exact hne

theorem source_hits (hw : isWide m) (k : Nat) (mem32 : BitVec 32 → BitVec 8) :
    sourceByte m (memEngine mem32 fun a => if a = m.insn.off.signExtend 40 + BitVec.ofNat 40 k then 1 else 0) k =
      1 := by
  rw [sourceByte, if_pos hw]
  refine if_pos ?_
  rw [memEngine_base]
  exact congrArg (· + BitVec.ofNat 40 k) (BitVec.zero_add _)

def destination (p : Prog) (m : Meta) (e : Engine) : BitVec 32 :=
  e.core.a (gpr (storeInsn p m).dstReg) + (storeInsn p m).off.signExtend 32

def Copies (p : Prog) (m : Meta) (len : Nat) : Prop :=
  ∀ e, Banked m e → ∃ e', Does (nfpCppMemcpy p m).code e e' ∧
    ∀ a, e'.mem32 a = if (a - destination p m e).toNat < len then sourceByte m e (a - destination p m e).toNat
      else e.mem32 a

def tailStart (len : Nat) : Nat := 4 * ((len + 3) / 4 - 1)

def tailFits (off : BitVec 16) (len : Nat) : Prop := 0 ≤ off.toInt + tailStart len ∧ off.toInt + tailStart len ≤ 255

section Tail

variable {off : BitVec 16} {len : Nat} (h0 : 0 < len) (hmax : len ≤ 128)

include h0 hmax

theorem newOff_toNat : (newOff off ((len + 3) / 4)).toNat = (off.toNat + tailStart len) % 256 := by
  rw [newOff, tailStart, BitVec.toNat_add, BitVec.toNat_mul, xferNum_pred h0 hmax, BitVec.toNat_setWidth,
    show (4 : BitVec 8).toNat = 4 from rfl]
  omega

theorem tail_gap :
    ∃ q < 2 ^ 24, (((newOff off ((len + 3) / 4)).setWidth 32 : BitVec 32) -
      (off.signExtend 32 + BitVec.ofNat 32 (tailStart len))).toNat = 256 * q ∧ (q = 0 ↔ tailFits off len) := by
  have hnew := @newOff_toNat off len h0 hmax
  have hlt := off.isLt
  have ht : tailStart len ≤ 124 := by
    rw [tailStart]
    omega
  have hsub : (((newOff off ((len + 3) / 4)).setWidth 32 : BitVec 32) -
      (off.signExtend 32 + BitVec.ofNat 32 (tailStart len))).toNat =
      (2 ^ 32 - (off.toNat + (if off.msb then 2 ^ 32 - 2 ^ 16 else 0) + tailStart len) % 2 ^ 32 +
        (off.toNat + tailStart len) % 256) % 2 ^ 32 := by
    rw [BitVec.toNat_sub, BitVec.toNat_add, BitVec.toNat_setWidth, sext_toNat (by decide), BitVec.toNat_ofNat, hnew]
    omega
  rw [hsub, tailFits, BitVec.toInt_eq_msb_cond]
  generalize tailStart len = t at *
  generalize off.toNat = x at *
  cases off.msb with
  | false =>
    simp only [Bool.false_eq_true, if_false]
    refine ⟨(2 ^ 32 - (x + t) % 2 ^ 32 + (x + t) % 256) % 2 ^ 32 / 256, by omega, by omega, ?_⟩
    omega
  | true =>
    simp only [if_true]
    refine ⟨(2 ^ 32 - (x + (2 ^ 32 - 2 ^ 16) + t) % 2 ^ 32 + (x + t) % 256) % 2 ^ 32 / 256, by omega, by omega, ?_⟩
    omega

end Tail

theorem written_exact {mem : BitVec 32 → BitVec 8} {base : BitVec 32} {bytes : Nat → BitVec 8} (h0 : 0 < len)
    (hmax : len ≤ 128) (hfit : len ≤ 40 ∨ len % 4 = 0 ∨ tailFits off len) :
    written mem base off bytes len = writeBytes mem (base + sext16 off) bytes len := by
  rw [written]
  by_cases hone : len ≤ 40 ∨ len % 4 = 0
  · rw [if_pos hone]
  rw [if_neg hone]
  have htail : tailFits off len := by
    rcases hfit with h | h | h
    · exact absurd (.inl h) hone
    · exact absurd (.inr h) hone
    · exact h
  obtain ⟨q, -, hgap, hq⟩ := @tail_gap off len h0 hmax
  rw [hq.mpr htail, mul_zero] at hgap
  have hnew : (newOff off ((len + 3) / 4)).setWidth 32 = sext16 off + BitVec.ofNat 32 (tailStart len) :=
    sub_eq_zero.mp (BitVec.eq_of_toNat_eq hgap)
  simp only [hnew, ← BitVec.add_assoc]
  change writeBytes (writeBytes mem (base + sext16 off) bytes (tailStart len)) _ (fun j =>
    bytes (tailStart len + j)) _ = _
  rw [writeBytes_add]
  congr 1
  rw [tailStart]
  omega

theorem copies_of_fits (hg : Gathered p m len) (hoff : isWide m → 0 ≤ m.insn.off.toInt)
    (hfit : len ≤ 40 ∨ len % 4 = 0 ∨ tailFits (storeInsn p m).off len) : Copies p m len := by
  intro e hb
  obtain ⟨e', hdoes, hmem, -⟩ := does_memcpy hg e
  refine ⟨e', hdoes, fun a => ?_⟩
  have hmost := hg.most
  rw [hmem, written_exact hg.pos hmost hfit, loadedByte_eq hb fun hw => (nonneg_iff _).mp (hoff hw),
    writeBytes_apply _ _ _ (by omega)]
  rfl

section Necessary

variable {p : Prog} {m : Meta} {len : Nat} (hg : Gathered p m len) (h : Copies p m len)

include hg h

theorem Copies.memory (e : Engine) (hb : Banked m e) (a : BitVec 32) :
    written e.mem32 (e.core.a (gpr (storeInsn p m).dstReg)) (storeInsn p m).off (loadedByte m e) len a =
      if (a - destination p m e).toNat < len then sourceByte m e (a - destination p m e).toNat else e.mem32 a := by
  obtain ⟨e1, hdoes, hmem, -⟩ := does_memcpy hg e
  obtain ⟨e2, hdoes', hcopy⟩ := h e hb
  rw [← hmem, Does.unique hdoes hdoes', hcopy]

theorem copies_nonneg (hw : isWide m) : 0 ≤ m.insn.off.toInt := by
  by_contra hneg
  have hmsb : m.insn.off.msb = true := by
    rw [nonneg_iff, Bool.not_eq_false] at hneg
    exact hneg
  obtain ⟨e, he⟩ : ∃ e, memEngine (fun _ => 0) (fun a =>
      if a = m.insn.off.signExtend 40 + BitVec.ofNat 40 0 then 1 else 0)
      = e := ⟨_, rfl⟩
  have hmem := h.memory hg e (by rw [← he]; exact memEngine_banked ..) (destination p m e)
  have hmost := hg.most
  have hload : ∀ j < 2 ^ 31, loadedByte m e j = 0 := fun j hj => by
    rw [← he]
    exact wide_misses hw hmsb (by decide) hj _
  rw [BitVec.sub_self, show (0#32).toNat = 0 from rfl, if_pos hg.pos, ← he, source_hits hw] at hmem
  have hzero : ∀ {mem : BitVec 32 → BitVec 8} {a : BitVec 32} {src : Nat → BitVec 8} {n : Nat}, n ≤ 128 →
      (∀ x, mem x = 0) → (∀ j < n, src j = 0) → ∀ x, writeBytes mem a src n x = 0 := by
    intro mem a src n hn hm hs x
    rw [writeBytes_apply _ _ _ (by omega)]
    split
    · next hlt => exact hs _ hlt
    · exact hm x
  rw [he] at hmem
  have hmem0 : ∀ x, e.mem32 x = 0 := by
    intro x
    rw [← he]
    rfl
  have hall : written e.mem32 (e.core.a (gpr (storeInsn p m).dstReg)) (storeInsn p m).off (loadedByte m e) len
      (destination p m e) = 0 := by
    rw [written]
    split
    · exact hzero hmost hmem0 (fun j hj => hload j (by omega)) _
    · exact hzero (by omega) (hzero (by omega) hmem0 fun j hj => hload j (by omega)) (fun j hj => hload _ (by omega)) _
  rw [hall] at hmem
  cases hmem

theorem copies_fits : len ≤ 40 ∨ len % 4 = 0 ∨ tailFits (storeInsn p m).off len := by
  by_contra hno
  rw [not_or, not_or] at hno
  obtain ⟨h40, h4, hfit⟩ := hno
  have hmost := hg.most
  have hpos := hg.pos
  have ht : tailStart len + len % 4 = len ∧ tailStart len ≤ 124 := by
    rw [tailStart]
    omega
  obtain ⟨st, hst⟩ := @exists_eq' _ ((storeInsn p m).off)
  rw [hst] at hfit
  obtain ⟨q, hq24, hgap, hq⟩ := @tail_gap st len hpos hmost
  have hq1 : 1 ≤ q := Nat.pos_of_ne_zero fun hc => hfit (hq.mp hc)
  obtain ⟨wrong, hwrong⟩ : ∃ a : BitVec 32, (newOff st ((len + 3) / 4)).setWidth 32 = a := ⟨_, rfl⟩
  obtain ⟨e, he⟩ := @exists_eq' _ (memEngine (fun a => if a = wrong then 1 else 0) (fun _ => 0))
  obtain ⟨dest, hdest⟩ : ∃ d : BitVec 32, st.signExtend 32 = d := ⟨_, rfl⟩
  obtain ⟨right, hright⟩ : ∃ a : BitVec 32, dest + BitVec.ofNat 32 (tailStart len) = a := ⟨_, rfl⟩
  rw [hwrong, hdest, hright] at hgap
  have hb : Banked m e := by rw [← he]; exact memEngine_banked ..
  have hd : destination p m e = dest := by
    rw [destination, hst, hdest, ← he]
    exact BitVec.zero_add _
  have htn : (BitVec.ofNat 32 (tailStart len)).toNat = tailStart len := by
    rw [BitVec.toNat_ofNat]
    omega
  have hout : (wrong - dest).toNat = 256 * q + tailStart len := by
    have hsplit : wrong - dest = (wrong - right) + BitVec.ofNat 32 (tailStart len) := by
      rw [← hright]
      ring
    rw [hsplit, BitVec.toNat_add, hgap, htn]
    omega
  have hin : (right - dest).toNat = tailStart len := by
    rw [← hright, add_sub_cancel_left, htn]
  have hback : (right - wrong).toNat = 2 ^ 32 - 256 * q := by
    rw [← neg_sub, BitVec.toNat_neg, hgap]
    omega
  have hwritten : ∀ a, written e.mem32 (e.core.a (gpr (storeInsn p m).dstReg)) (storeInsn p m).off
      (loadedByte m e) len a =
      if (a - wrong).toNat < len % 4 then loadedByte m e (tailStart len + (a - wrong).toNat)
      else if (a - dest).toNat < tailStart len then loadedByte m e (a - dest).toNat else e.mem32 a := by
    intro a
    have hbase : e.core.a (gpr (storeInsn p m).dstReg) = 0#32 := by rw [← he]; rfl
    rw [written, if_neg (by omega), hst, hbase]
    simp only [BitVec.zero_add, hwrong, sext16, hdest]
    rw [writeBytes_apply _ _ _ (by omega), writeBytes_apply _ _ _ (by omega)]
    rfl
  have hmem : ∀ a, e.mem32 a = if a = wrong then 1 else 0 := by
    intro a
    rw [← he]
    rfl
  have hat := h.memory hg e hb wrong
  rw [hwritten, hd, hout, BitVec.sub_self, show (0#32).toNat = 0 from rfl, if_pos (by omega), if_neg (by omega), hmem,
    if_pos rfl, add_zero] at hat
  have hnarrow : ¬isWide m := by
    intro hw
    rw [loadedByte, if_pos hw, ← he] at hat
    cases hat
  have hat' := h.memory hg e hb right
  have hne : right ≠ wrong := by
    rintro rfl
    rw [BitVec.sub_self] at hback
    omega
  rw [hwritten, hd, hin, hback, if_neg (by omega), if_neg (lt_irrefl _), hmem, if_neg hne, if_pos (by omega),
    ← loadedByte_eq hb fun hw => absurd hw hnarrow, hat] at hat'
  exact absurd hat' (by decide)

end Necessary

theorem memcpy_copies_iff (p : Prog) (m : Meta) (len : Nat) (hg : Gathered p m len) :
    Copies p m len ↔ (m.ptr.type = .ptrToMapValue → 0 ≤ m.insn.off.toInt) ∧
      (len ≤ 40 ∨ len % 4 = 0 ∨ 0 ≤ (storeInsn p m).off.toInt + tailStart len ∧
        (storeInsn p m).off.toInt + tailStart len ≤ 255) :=
  ⟨fun h => ⟨copies_nonneg hg h, copies_fits hg h⟩, fun h => copies_of_fits hg h.1 h.2⟩

def gatherMeta (code : BitVec 8) (off : BitVec 16) (len : Int) : Meta :=
  { Meta.zero ⟨code, 3, 1, off, 0⟩ 0 with pairedSt := some 1, ldstGatherLen := len }

def gatherProg (code : BitVec 8) (loadOff storeOff : BitVec 16) (len : Int) : Prog :=
  { (default : Prog) with insns := [gatherMeta code loadOff len, Meta.zero ⟨0x73, 2, 3, storeOff, 0⟩ 1] }

theorem memcpy_copies_41_bytes : Copies (gatherProg 0x71 0 0 41) (gatherMeta 0x71 0 41) 41 :=
  (memcpy_copies_iff (gatherProg 0x71 0 0 41) (gatherMeta 0x71 0 41) 41
    ⟨by decide, by decide, by decide, by decide, by decide, by decide, by decide⟩).mpr
      ⟨fun _ => by decide, .inr (.inr (by decide))⟩

theorem memcpy_tail_lands_at_24 :
    ∃ e', Does (nfpCppMemcpy (gatherProg 0x71 0 240 41) (gatherMeta 0x71 0 41)).code
      (memEngine (fun a => if a = 40 then 1 else 0) fun _ => 0) e' ∧ e'.mem32 24 = 1 ∧ e'.mem32 280 = 0 :=
  ⟨_, ⟨rfl, rfl⟩, rfl, rfl⟩

end NfpDriver.Lower
