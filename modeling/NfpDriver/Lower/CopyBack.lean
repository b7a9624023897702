import NfpDriver.Lower.Copy

namespace NfpDriver.Lower

open Asm Adder Jit Bpf Machine Engine BitVec

theorem outByte_from (e : Engine) (first j : Nat) : e.outByte first j = e.outByte 0 (4 * first + j) := by
  rw [outByte, outByte, show 0 + (4 * first + j) / 4 = first + j / 4 by omega,
    show (4 * first + j) % 4 = j % 4 by omega]

structure Stored (e e' : Engine) (mem : BitVec 32 → BitVec 8) : Prop where
  a : ∀ r ≠ staticRegImm, e'.core.a r = e.core.a r
  b : ∀ r ≠ staticRegImm, e'.core.b r = e.core.b r
  ext : e'.core.ext = e.core.ext
  xferOut : e'.xferOut = e.xferOut
  mem32 : e'.mem32 = mem

variable {e e' e'' : Engine} {mem : BitVec 32 → BitVec 8} {indir : Bool} {k : Nat} {size : BitVec 8}
  {bytes : Nat → BitVec 8}

theorem stored_of_quiet (h : Quiet e e') (h' : Stored e' e'' mem) : Stored e e'' mem where
  a r hr := (h'.a r hr).trans (h.a r hr)
  b r hr := (h'.b r hr).trans (h.b r hr)
  ext := h'.ext.trans h.ext
  xferOut := h'.xferOut.trans h.xferOut
  mem32 := h'.mem32

theorem Stored.trans {mem' : BitVec 32 → BitVec 8} (h : Stored e e' mem) (h' : Stored e' e'' mem') :
    Stored e e'' mem' where
  a r hr := (h'.a r hr).trans (h.a r hr)
  b r hr := (h'.b r hr).trans (h.b r hr)
  ext := h'.ext.trans h.ext
  xferOut := h'.xferOut.trans h.xferOut
  mem32 := h'.mem32

section Store

variable {g : BitVec 16} (hg : Far g) {o : Swreg} (ho : CmdOff o) {e : Engine} {off : BitVec 32}
  (hv : e.core.src o = off) {bytes : Nat → BitVec 8} {n : Nat} (hout : ∀ j < 4 * n, e.outByte 0 j = bytes j)
  {size : BitVec 8} {k : Nat}

include hg ho hv hout

theorem does_store8 (xfer : BitVec 8) (hk : cmdCount indir size e.prevAlu = k) (hfit : 4 * xfer.toNat + k ≤ 4 * n) :
    ∃ e', Does (emitCmdAny .write8Swap .b32 xfer (regA g) o size .swap indir) e e' ∧
      Stored e e' (writeBytes e.mem32 (e.core.a g + off) (fun j => bytes (4 * xfer.toNat + j)) k) := by
  refine ⟨_, does_write8 hg.low ho xfer size indir e, fun _ _ => rfl, fun _ _ => rfl, rfl, rfl, ?_⟩
  rw [hk, hv]
  refine writeBytes_congr fun j hj => ?_
  rw [outByte_from, hout _ (by omega)]

theorem does_store32 (hk : cmdCount indir size e.prevAlu = k) (hfit : k ≤ n) :
    ∃ e', Does (emitCmdAny .write32Swap .b32 0 (regA g) o size .swap indir) e e' ∧
      Stored e e' (writeBytes e.mem32 (e.core.a g + off) bytes (4 * k)) := by
  refine ⟨_, does_write32 hg.low ho 0 size indir e, fun _ _ => rfl, fun _ _ => rfl, rfl, rfl, ?_⟩
  rw [hk, hv]
  exact writeBytes_congr fun j hj => hout j (by omega)

end Store

def newOff (off : BitVec 16) (n : Nat) : BitVec 8 := off.setWidth 8 + (BitVec.ofNat 8 n - 1) * 4

def written (mem : BitVec 32 → BitVec 8) (base : BitVec 32) (off : BitVec 16) (bytes : Nat → BitVec 8) (len : Nat) :
    BitVec 32 → BitVec 8 :=
  if len ≤ 40 ∨ len % 4 = 0 then writeBytes mem (base + sext16 off) bytes len
  else
    let n := (len + 3) / 4
    writeBytes (writeBytes mem (base + sext16 off) bytes (4 * (n - 1))) (base + (newOff off n).setWidth 32)
      (fun j => bytes (4 * (n - 1) + j)) (len % 4)

theorem byte_pred (h0 : 0 < k) (h : k ≤ 128) : (BitVec.ofNat 8 k - 1).toNat = k - 1 := by
  rw [toNat_sub, toNat_ofNat, show (1 : BitVec 8).toNat = 1 from rfl]
  omega

theorem count_direct (h : size.toNat = k - 1) (h0 : 0 < k) (hk : k ≤ 8) (prev : BitVec 32) :
    cmdCount false size prev = k := by
  rw [cmdCount_direct (show size.toNat ≤ 7 by omega), h]
  omega

theorem does_lengthened {v : BitVec 8} (h : v.toNat = k - 1) (h0 : 0 < k) (hk : k ≤ 32) (e : Engine) :
    ∃ e', Does (setPrevAluLen v) e e' ∧ Quiet e e' ∧ e'.core = e.core ∧ ∀ size, cmdCount true size e'.prevAlu = k := by
  have hle : v ≤ 0x1f := show v.toNat ≤ 31 by omega
  refine ⟨_, does_setPrevAluLen hle e, ⟨fun _ _ => rfl, fun _ _ => rfl, rfl, rfl, rfl, rfl⟩, rfl, fun size => ?_⟩
  rw [cmdCount_override hle, h]
  omega

structure Ready (e : Engine) (o : Swreg) (off : BitVec 32) (n : Nat) (bytes : Nat → BitVec 8) : Prop where
  cmdOff : CmdOff o
  value : e.core.src o = off
  out : ∀ j < 4 * n, e.outByte 0 j = bytes j

theorem outByte_congr (h : e'.xferOut = e.xferOut) (first j : Nat) : e'.outByte first j = e.outByte first j := by
  rw [outByte, outByte, h]

theorem does_offset (off : BitVec 32) {n : Nat} (hout : ∀ j < 4 * n, e.outByte 0 j = bytes j) :
    ∃ e', Does (reLoadImmAny off immB).1 e e' ∧ Quiet e e' ∧ Ready e' (reLoadImmAny off immB).2 off n bytes := by
  obtain ⟨e', h, hq, ho, hv⟩ := does_reLoad off e
  exact ⟨e', h, hq, ho, hv, fun j hj => (outByte_congr hq.xferOut 0 j).trans (hout j hj)⟩

section Classes

variable {st : Insn} (hdst : st.dstReg ≤ 9) {len : Nat} {o : Swreg} {bytes : Nat → BitVec 8} {e : Engine}
  (hr : Ready e o (sext16 st.off) ((len + 3) / 4) bytes)

include hdst hr

theorem does_bytes (hk : cmdCount indir size e.prevAlu = len) :
    ∃ e', Does (emitCmdAny .write8Swap .b32 0 (regA (gpr st.dstReg)) o size .swap indir) e e' ∧
      Stored e e' (writeBytes e.mem32 (e.core.a (gpr st.dstReg) + sext16 st.off) bytes len) := by
  obtain ⟨e', h, hs⟩ := does_store8 (far_gpr hdst) hr.cmdOff hr.value hr.out 0 hk
    (show 4 * (0 : BitVec 8).toNat + len ≤ _ by change 4 * 0 + len ≤ _; omega)
  refine ⟨e', h, ?_⟩
  convert hs using 4
  exact (zero_add _).symm

theorem does_words (hk : cmdCount indir size e.prevAlu = k) (hfit : k ≤ (len + 3) / 4) :
    ∃ e', Does (emitCmdAny .write32Swap .b32 0 (regA (gpr st.dstReg)) o size .swap indir) e e' ∧
      Stored e e' (writeBytes e.mem32 (e.core.a (gpr st.dstReg) + sext16 st.off) bytes (4 * k)) :=
  does_store32 (far_gpr hdst) hr.cmdOff hr.value hr.out hk hfit

omit hdst in
theorem Ready.after (hq : Quiet e e') (hcore : e'.core = e.core) : Ready e' o (sext16 st.off) ((len + 3) / 4) bytes :=
  ⟨hr.cmdOff, by rw [hcore]; exact hr.value, fun j hj => (outByte_congr hq.xferOut 0 j).trans (hr.out j hj)⟩

theorem does_tail (hs : Stored e e' mem) (off : BitVec 32) (first k : Nat) (hfirst : first ≤ 32)
    (hfit : 4 * first + k ≤ 4 * ((len + 3) / 4)) (h0 : 0 < k) (hk : k ≤ 8) (hsize : size.toNat = k - 1) :
    ∃ e'', Does ((reLoadImmAny off immB).1 ++
        emitCmdAny .write8Swap .b32 (BitVec.ofNat 8 first) (regA (gpr st.dstReg))
          (reLoadImmAny off immB).2 size .swap false)
        e' e'' ∧
      Stored e e'' (writeBytes mem (e.core.a (gpr st.dstReg) + off) (fun j => bytes (4 * first + j)) k) := by
  have hbase := (far_gpr hdst).lowTemp
  obtain ⟨e1, h1, hq1, hr1⟩ := does_offset off
    (show ∀ j < 4 * ((len + 3) / 4), e'.outByte 0 j = bytes j from fun j hj =>
      (outByte_congr hs.xferOut 0 j).trans (hr.out j hj))
  have hf : (BitVec.ofNat 8 first).toNat = first := by
    rw [toNat_ofNat]
    omega
  obtain ⟨e2, h2, hs2⟩ := does_store8 (far_gpr hdst) hr1.cmdOff hr1.value hr1.out (BitVec.ofNat 8 first)
    (count_direct hsize h0 hk _) (by rw [hf]; exact hfit)
  rw [hq1.mem32, hs.mem32, hq1.a _ hbase, hs.a _ hbase, hf] at hs2
  exact ⟨e2, h1.append h2, hs.trans (stored_of_quiet hq1 hs2)⟩

end Classes

theorem does_writeBack {st : Insn} (hdst : st.dstReg ≤ 9) {len : Nat} (h0 : 0 < len) (hmax : len ≤ 128)
    (hout : ∀ j < 4 * ((len + 3) / 4), e.outByte 0 j = bytes j) :
    ∃ e', Does (cppWriteBack st len (BitVec.ofNat 8 ((len + 3) / 4))) e e' ∧
      Stored e e' (written e.mem32 (e.core.a (gpr st.dstReg)) st.off bytes len) := by
  have hbase := (far_gpr hdst).lowTemp
  have hlen8 := byte_pred h0 hmax
  have hxfer := xferNum_pred h0 hmax
  obtain ⟨e1, h1, hq1, hr1⟩ := does_offset (sext16 st.off) hout
  have hmem : ∀ {e' mem}, Stored e1 e' mem → Stored e e' mem := fun hs => stored_of_quiet hq1 hs
  rw [written, ← hq1.mem32, ← hq1.a _ hbase]
  simp only [cppWriteBack]
  by_cases h8 : len ≤ 8
  · rw [if_pos h8, if_pos (.inl (by omega))]
    obtain ⟨e2, h2, hs2⟩ := does_bytes hdst hr1 (count_direct hlen8 h0 h8 _)
    exact ⟨e2, h1.append h2, hmem hs2⟩
  rw [if_neg h8]
  by_cases hw : len ≤ 32 ∧ len % 4 = 0
  · rw [if_pos hw, if_pos (.inr hw.2)]
    obtain ⟨e2, h2, hs2⟩ := does_words hdst hr1 (count_direct hxfer (by omega) (by omega) _) (le_refl _)
    rw [show 4 * ((len + 3) / 4) = len by omega] at hs2
    exact ⟨e2, h1.append h2, hmem hs2⟩
  rw [if_neg hw]
  by_cases h32 : len ≤ 32
  · rw [if_pos h32, if_pos (.inl (by omega))]
    obtain ⟨e2, h2, hq2, hcore, hcount⟩ := does_lengthened hlen8 h0 h32 e1
    obtain ⟨e3, h3, hs3⟩ := does_bytes hdst (hr1.after hq2 hcore) (hcount _)
    rw [hq2.mem32, hq2.a _ hbase] at hs3
    exact ⟨e3, h1.append (h2.append h3), hmem (stored_of_quiet hq2 hs3)⟩
  rw [if_neg h32]
  by_cases h4 : len % 4 = 0
  · rw [if_pos h4, if_pos (.inr h4)]
    obtain ⟨e2, h2, hq2, hcore, hcount⟩ := does_lengthened hxfer (by omega) (by omega) e1
    obtain ⟨e3, h3, hs3⟩ := does_words hdst (hr1.after hq2 hcore) (hcount _) (le_refl _)
    rw [hq2.mem32, hq2.a _ hbase, show 4 * ((len + 3) / 4) = len by omega] at hs3
    exact ⟨e3, h1.append (h2.append h3), hmem (stored_of_quiet hq2 hs3)⟩
  rw [if_neg h4]
  by_cases h40 : len ≤ 40
  · rw [if_pos h40, if_pos (.inl h40)]
    obtain ⟨e2, h2, hs2⟩ := does_words hdst hr1 (k := 8)
      (count_direct (show (7 : BitVec 8).toNat = 8 - 1 from rfl) (by decide) (by decide) _) (by omega)
    have hsize : (BitVec.ofNat 8 len - 33).toNat = len - 32 - 1 := by
      rw [toNat_sub, toNat_ofNat, show (33 : BitVec 8).toNat = 33 from rfl]
      omega
    obtain ⟨e3, h3, hs3⟩ := does_tail hdst hr1 hs2 (sext16 st.off + 32) 8 (len - 32) (by decide)
      (by omega) (by omega) (by omega) hsize
    rw [← BitVec.add_assoc] at hs3
    have hjoin := writeBytes_add e1.mem32 (e1.core.a (gpr st.dstReg) + sext16 st.off) bytes 32 (len - 32)
    rw [show 32 + (len - 32) = len by omega] at hjoin
    rw [← hjoin]
    refine ⟨e3, ?_, hmem hs3⟩
    have hall := h1.append (h2.append h3)
    simp only [List.append_assoc] at hall ⊢
    exact hall
  · rw [if_neg h40, if_neg (by omega)]
    have hwords : (BitVec.ofNat 8 ((len + 3) / 4) - 2).toNat = (len + 3) / 4 - 1 - 1 := by
      rw [toNat_sub, toNat_ofNat, show (2 : BitVec 8).toNat = 2 from rfl]
      omega
    have hfirst : BitVec.ofNat 8 ((len + 3) / 4) - 1 = BitVec.ofNat 8 ((len + 3) / 4 - 1) := by
      apply eq_of_toNat_eq
      rw [hxfer, toNat_ofNat]
      omega
    have hsize : ((BitVec.ofNat 8 len &&& 3) - 1).toNat = len % 4 - 1 := by
      have hmod : (BitVec.ofNat 8 len &&& 3).toNat = len % 4 := by
        rw [toNat_and, toNat_ofNat, show (3 : BitVec 8).toNat = 2 ^ 2 - 1 from rfl, Nat.and_two_pow_sub_one_eq_mod]
        omega
      rw [toNat_sub, hmod, show (1 : BitVec 8).toNat = 1 from rfl]
      omega
    obtain ⟨e2, h2, hq2, hcore, hcount⟩ := does_lengthened hwords (by omega) (by omega) e1
    have hr2 := hr1.after hq2 hcore
    obtain ⟨e3, h3, hs3⟩ := does_words hdst hr2 (hcount _) (by omega)
    obtain ⟨e4, h₄, hs4⟩ := does_tail hdst hr2 hs3 ((newOff st.off ((len + 3) / 4)).setWidth 32)
      ((len + 3) / 4 - 1) (len % 4) (by omega) (by omega) (by omega) (by omega) hsize
    rw [hq2.mem32, hq2.a _ hbase] at hs4
    rw [← hfirst] at h₄
    refine ⟨e4, ?_, hmem (stored_of_quiet hq2 hs4)⟩
    have hall := h1.append ((h2.append h3).append h₄)
    simp only [List.append_assoc] at hall ⊢
    exact hall

end NfpDriver.Lower
