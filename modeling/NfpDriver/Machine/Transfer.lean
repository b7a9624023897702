import NfpDriver.Machine.Straight
import NfpDriver.Jit.Mem

namespace NfpDriver.Machine

open Asm Adder Jit Function BitVec

variable {n j w i : Nat}

variable (mem : BitVec 32 → BitVec 8) (a : BitVec 32) (src : Nat → BitVec 8)

theorem writeBytes_apply (hn : n ≤ 2 ^ 32) (x : BitVec 32) :
    writeBytes mem a src n x = if (x - a).toNat < n then src (x - a).toNat else mem x := by
  induction n with
  | zero => rfl
  | succ n ih =>
    rw [writeBytes]
    by_cases hx : x = a + BitVec.ofNat 32 n
    · have hsub : (x - a).toNat = n := by
        rw [hx, BitVec.add_comm, BitVec.add_sub_cancel, toNat_ofNat, Nat.mod_eq_of_lt (by omega)]
      rw [hx, update_self, ← hx, hsub, if_pos (Nat.lt_succ_self n)]
    have hsub : (x - a).toNat ≠ n := by
      intro h
      apply hx
      rw [← h, ofNat_toNat, setWidth_eq, BitVec.add_comm, BitVec.sub_add_cancel]
    rw [update_of_ne hx, ih (by omega)]
    by_cases hlt : (x - a).toNat < n
    · rw [if_pos hlt, if_pos (by omega)]
    · rw [if_neg hlt, if_neg (by omega)]

theorem writeBytes_congr {mem : BitVec 32 → BitVec 8} {a : BitVec 32} {src src' : Nat → BitVec 8}
    (h : ∀ j < n, src j = src' j) : writeBytes mem a src n = writeBytes mem a src' n := by
  induction n with
  | zero => rfl
  | succ n ih => rw [writeBytes, writeBytes, ih fun j hj => h j (by omega), h n (by omega)]

theorem writeBytes_add (n k : Nat) :
    writeBytes (writeBytes mem a src n) (a + BitVec.ofNat 32 n) (fun j => src (n + j)) k =
      writeBytes mem a src (n + k) := by
  induction k with
  | zero => rfl
  | succ k ih =>
    rw [writeBytes, ih, ← add_assoc, writeBytes, BitVec.add_assoc, ← ofNat_add]

theorem laneOf_wordAt (mem : BitVec w → BitVec 8) (a : BitVec w) (hj : j < 4) :
    laneOf (wordAt mem a) j = mem (a + BitVec.ofNat w j) := by
  apply eq_of_getLsbD_eq
  intro i hi
  have hbits : (laneOf (wordAt mem a) j).getLsbD i = (wordAt mem a).getLsbD (8 * j + i) := by
    rw [laneOf, getLsbD_setWidth, getLsbD_ushiftRight]
    simp [hi]
  rw [hbits, wordAt, getLsbD_append, getLsbD_append, getLsbD_append]
  obtain rfl | rfl | rfl | rfl : j = 0 ∨ j = 1 ∨ j = 2 ∨ j = 3 := by omega
  · rw [if_pos (by omega), Nat.mul_zero, Nat.zero_add, BitVec.add_zero]
  · rw [if_neg (by omega), if_pos (by omega), show 8 * 1 + i - 8 = i by omega]
    rfl
  · rw [if_neg (by omega), if_neg (by omega), if_pos (by omega), show 8 * 2 + i - 8 - 8 = i by omega]
    rfl
  · rw [if_neg (by omega), if_neg (by omega), if_neg (by omega), show 8 * 3 + i - 8 - 8 - 8 = i by omega]
    rfl

def inXfr (i : Nat) : BitVec 16 := urRegXfr ||| BitVec.ofNat 16 i

def inXfrRe (i : Nat) : BitVec 16 := reRegXfr ||| BitVec.ofNat 16 i

theorem xfr_apart (hi : i < 32) (hj : j < 32) (hne : i ≠ j) : inXfr i ≠ inXfr j ∧ inXfrRe i ≠ inXfrRe j := by
  have hall : ∀ i j : Fin 32, i ≠ j → inXfr i ≠ inXfr j ∧ inXfrRe i ≠ inXfrRe j := by decide
  exact hall ⟨i, hi⟩ ⟨j, hj⟩ fun h => hne (congrArg Fin.val h)

theorem xfr_banks (hi : i < 32) (hj : j < 32) : inXfr i ≠ inXfrRe j := by
  have hall : ∀ i j : Fin 32, inXfr i ≠ inXfrRe j := by decide
  exact hall ⟨i, hi⟩ ⟨j, hj⟩

theorem readXfers_at (mem : BitVec w → BitVec 8) (a : BitVec w) (ext : BitVec 16 → BitVec 32) (hn : n ≤ 32)
    (hi : i < n) :
    readXfers mem a 0 n ext (inXfr i) = wordAt mem (a + BitVec.ofNat w (4 * i)) ∧
      readXfers mem a 0 n ext (inXfrRe i) = wordAt mem (a + BitVec.ofNat w (4 * i)) := by
  induction n with
  | zero => omega
  | succ n ih =>
    have hstep : readXfers mem a 0 (n + 1) ext =
        update (update (readXfers mem a 0 n ext) (inXfr n)
          (wordAt mem (a + BitVec.ofNat w (4 * n)))) (inXfrRe n) (wordAt mem (a + BitVec.ofNat w (4 * n))) := by
      rw [readXfers, zero_add]
      rfl
    have hb := xfr_banks (show i < 32 by omega) (show n < 32 by omega)
    have hb' := xfr_banks (show n < 32 by omega) (show i < 32 by omega)
    rw [hstep]
    rcases eq_or_ne i n with rfl | hin
    · rw [update_of_ne hb, update_self, update_self]
      exact ⟨rfl, rfl⟩
    · obtain ⟨h1, h2⟩ := xfr_apart (show i < 32 by omega) (show n < 32 by omega) hin
      rw [update_of_ne hb, update_of_ne h1, update_of_ne h2, update_of_ne hb'.symm]
      exact ih (by omega) (by omega)

namespace Engine

structure Quiet (e e' : Engine) : Prop where
  a : ∀ r ≠ staticRegImm, e'.core.a r = e.core.a r
  b : ∀ r ≠ staticRegImm, e'.core.b r = e.core.b r
  ext : e'.core.ext = e.core.ext
  xferOut : e'.xferOut = e.xferOut
  mem32 : e'.mem32 = e.mem32
  mem40 : e'.mem40 = e.mem40

theorem Quiet.refl (e : Engine) : Quiet e e := ⟨fun _ _ => rfl, fun _ _ => rfl, rfl, rfl, rfl, rfl⟩

variable {dst o : Swreg} {v : BitVec 8}

theorem Quiet.trans {e e' e'' : Engine} (h : Quiet e e') (h' : Quiet e' e'') : Quiet e e'' where
  a r hr := (h'.a r hr).trans (h.a r hr)
  b r hr := (h'.b r hr).trans (h.b r hr)
  ext := h'.ext.trans h.ext
  xferOut := h'.xferOut.trans h.xferOut
  mem32 := h'.mem32.trans h.mem32
  mem40 := h'.mem40.trans h.mem40

theorem quiet_put (st : State) (x : BitVec 32) (hd : dst = immA ∨ dst = immB ∨ dst = regNone) :
    (∀ r ≠ staticRegImm, (st.put dst x).a r = st.a r) ∧ (∀ r ≠ staticRegImm, (st.put dst x).b r = st.b r) ∧
      (st.put dst x).ext = st.ext := by
  rcases hd with rfl | rfl | rfl
  · exact ⟨fun r hr => update_of_ne hr _ _, fun _ _ => rfl, rfl⟩
  · exact ⟨fun _ _ => rfl, fun r hr => update_of_ne hr _ _, rfl⟩
  · exact ⟨fun _ _ => rfl, fun _ _ => rfl, rfl⟩

theorem quiet_immed (e : Engine) (x : BitVec 32) : Quiet e (e.immedDone immB x) :=
  have h := quiet_put e.core x (.inr (.inl rfl))
  ⟨h.1, h.2.1, h.2.2, rfl, rfl, rfl⟩

theorem quiet_alu (e : Engine) (hd : dst = immA ∨ dst = immB ∨ dst = regNone) (op : AluOp) (x y a : BitVec 32) :
    Quiet e (e.aluDone dst op x y a) :=
  have h := quiet_put (e.core.setFlags (aluResult op x y e.core.c)) (aluResult op x y e.core.c).sum hd
  ⟨h.1, h.2.1, h.2.2, rfl, rfl, rfl⟩

inductive CmdOff : Swreg → Prop where
  | imm {n : BitVec 16} (h : n ≤ 0x7f) : CmdOff (regImm n)
  | reg {r : BitVec 16} (h : r < 0x20) : CmdOff (regB r)

theorem CmdOff.operand (h : CmdOff o) : Operand o ∧ o.type ≠ .gprA := by
  cases h with
  | imm h => exact ⟨.imm (BitVec.le_trans h (show (0x7f : BitVec 16) ≤ 0xff by decide)), RegKind.noConfusion⟩
  | reg h => exact ⟨.b (re_encoding h).2.2.2.2, RegKind.noConfusion⟩

theorem reImm_value {n : BitVec 16} (h : n ≤ 0x7f) :
    nfpSwregToRereg (regImm n) false false = (reRegImmEncode n, false) ∧
      isReImm ((reRegImmEncode n).setWidth 8) = true ∧
      reImmValue ((reRegImmEncode n).setWidth 8) false = n.setWidth 32 := by
  have hall : ∀ k : Fin 128, nfpSwregToRereg (regImm (BitVec.ofNat 16 k)) false false =
      (reRegImmEncode (BitVec.ofNat 16 k), false) ∧
      isReImm ((reRegImmEncode (BitVec.ofNat 16 k)).setWidth 8) = true ∧
      reImmValue ((reRegImmEncode (BitVec.ofNat 16 k)).setWidth 8) false = (BitVec.ofNat 16 k).setWidth 32 := by decide
  have hk : n.toNat < 128 := Nat.lt_succ_of_le h
  simpa using hall ⟨n.toNat, hk⟩

theorem ops_emitCmd {g : BitVec 16} (hg : g < 0x20) (ho : CmdOff o) (tgt : CmdTgt) (mode : CmdMode)
    (xfer size : BitVec 8) (ctx : CmdCtx) (indir : Bool) :
    ∃ areg breg, emitCmdAny tgt mode xfer (regA g) o size ctx indir =
        [.push (.cmd tgt mode xfer areg breg size ctx indir) .none] ∧
      ∀ st : State, st.readRe st.a areg false = st.a g ∧ st.readRe st.b breg false = st.src o := by
  cases ho with
  | imm h =>
    rename_i n
    obtain ⟨he, hi, hv⟩ := reImm_value h
    refine ⟨g.setWidth 8, (reRegImmEncode n).setWidth 8, ?_, fun st => ⟨readRe_gpr hg false, ?_⟩⟩
    · simp [emitCmdAny, swregToRestricted, rereg_regA hg, he]
    · rw [State.readRe, if_pos hi, hv]
      rfl
  | reg h =>
    rename_i r
    refine ⟨g.setWidth 8, r.setWidth 8, ?_, fun st => ⟨readRe_gpr hg false, readRe_gpr h false⟩⟩
    simp [emitCmdAny, swregToRestricted, rereg_regA hg, rereg_regB h]

def withExt (e : Engine) (ext : BitVec 16 → BitVec 32) : Engine := { e with core := { e.core with ext := ext } }

def withMem (e : Engine) (mem : BitVec 32 → BitVec 8) : Engine := { e with mem32 := mem }

section Commands

variable {g : BitVec 16} (hg : g < 0x20) {o : Swreg} (ho : CmdOff o) (xfer size : BitVec 8) (indir : Bool) (e : Engine)

include hg ho

theorem does_cmd {tgt : CmdTgt} {mode : CmdMode} {e' : Engine}
    (h : ∀ areg breg, e.core.readRe e.core.a areg false = e.core.a g →
      e.core.readRe e.core.b breg false = e.core.src o →
      e.execCmd tgt mode xfer areg breg size indir = some e') :
    Does (emitCmdAny tgt mode xfer (regA g) o size .swap indir) e e' := by
  obtain ⟨areg, breg, hcode, hread⟩ := ops_emitCmd hg ho tgt mode xfer size .swap indir
  have hops : ops (emitCmdAny tgt mode xfer (regA g) o size .swap indir) =
      [.cmd tgt mode xfer areg breg size .swap indir] := by rw [hcode]; rfl
  exact does_single hops (by rw [hcode]; rfl) (h areg breg (hread e.core).1 (hread e.core).2)

theorem does_read32 :
    Does (emitCmdAny .read32Swap .b32 xfer (regA g) o size .swap indir) e
      (e.withExt (readXfers e.mem32 (e.core.a g + e.core.src o) xfer.toNat (cmdCount indir size e.prevAlu)
        e.core.ext)) :=
  does_cmd hg ho xfer size indir e fun areg breg h1 h2 => by rw [execCmd, h1, h2]; rfl

theorem does_read40 :
    Does (emitCmdAny .read32Swap .b40Ba xfer (regA g) o size .swap indir) e
      (e.withExt (readXfers e.mem40 ((e.core.src o ++ e.core.a g).setWidth 40) xfer.toNat
        (cmdCount indir size e.prevAlu) e.core.ext)) :=
  does_cmd hg ho xfer size indir e fun areg breg h1 h2 => by
    rw [execCmd, h1, h2]
    · rfl
    · exact CmdMode.noConfusion

theorem does_write32 :
    Does (emitCmdAny .write32Swap .b32 xfer (regA g) o size .swap indir) e
      (e.withMem (writeBytes e.mem32 (e.core.a g + e.core.src o) (e.outByte xfer.toNat)
        (4 * cmdCount indir size e.prevAlu))) :=
  does_cmd hg ho xfer size indir e fun areg breg h1 h2 => by rw [execCmd, h1, h2]; rfl

theorem does_write8 :
    Does (emitCmdAny .write8Swap .b32 xfer (regA g) o size .swap indir) e
      (e.withMem (writeBytes e.mem32 (e.core.a g + e.core.src o) (e.outByte xfer.toNat)
        (cmdCount indir size e.prevAlu))) :=
  does_cmd hg ho xfer size indir e fun areg breg h1 h2 => by rw [execCmd, h1, h2]; rfl

end Commands

theorem does_immedNone (imm : BitVec 16) (e : Engine) :
    Does (emitImmed regNone imm .all false .b0) e { e with prevAlu := imm.setWidth 32 } := by
  have hreg := imm_encoding (byte_le imm)
  have hunreg : ∀ b, nfpSwregToUnreg (regImm (imm &&& 0xff)) b = urRegImm ||| (imm &&& 0xff) := fun b =>
    unreg_imm (byte_le imm)
  have hops : ops (emitImmed regNone imm .all false .b0) =
      [.immed urRegNoDst (urRegImm ||| (imm &&& 0xff)) (imm >>> 8) .all false .b0 false false false] := by
    simp only [emitImmed, emitImmedRelo, swregToUnrestricted, hunreg]
    rfl
  have hval : ∀ old, immedValue old imm .all false .b0 = imm.setWidth 32 := fun old => shiftLeft_zero _
  refine does_single hops (emitImmed_length ..) ?_
  simp only [exec, Machine.exec, execImmed_fst (byte_le imm), Option.map_some, immedResult, hreg, if_true, imm_bytes,
    hval]
  rfl

theorem overrideLen (hv : v ≤ 0x1f) :
    packImmed (cmdOveLen ||| cmdOvLen v) = some ((cmdOveLen ||| cmdOvLen v).setWidth 16, .b0) ∧
      ((cmdOveLen ||| cmdOvLen v).setWidth 16).setWidth 32 = cmdOveLen ||| cmdOvLen v ∧
      ((cmdOveLen ||| cmdOvLen v) &&& cmdCount.cmdOveLenBit != 0) = true ∧
      (((cmdOveLen ||| cmdOvLen v) >>> 8) &&& 0x1f).toNat = v.toNat := by
  have hall : ∀ k : Fin 32,
      packImmed (cmdOveLen ||| cmdOvLen (BitVec.ofNat 8 k)) =
        some ((cmdOveLen ||| cmdOvLen (BitVec.ofNat 8 k)).setWidth 16, .b0) ∧
      ((cmdOveLen ||| cmdOvLen (BitVec.ofNat 8 k)).setWidth 16).setWidth 32 = cmdOveLen |||
        cmdOvLen (BitVec.ofNat 8 k) ∧
      ((cmdOveLen ||| cmdOvLen (BitVec.ofNat 8 k)) &&& cmdCount.cmdOveLenBit != 0) = true ∧
      (((cmdOveLen ||| cmdOvLen (BitVec.ofNat 8 k)) >>> 8) &&& 0x1f).toNat = (BitVec.ofNat 8 k).toNat := by decide
  have hk : v.toNat < 32 := Nat.lt_succ_of_le hv
  have := hall ⟨v.toNat, hk⟩
  simpa only [ofNat_toNat, setWidth_eq] using this

theorem does_setPrevAluLen (hv : v ≤ 0x1f) (e : Engine) :
    Does (setPrevAluLen v) e { e with prevAlu := cmdOveLen ||| cmdOvLen v } := by
  obtain ⟨hpack, hwide, -, -⟩ := overrideLen hv
  have h := does_immedNone ((cmdOveLen ||| cmdOvLen v).setWidth 16) e
  rw [hwide] at h
  rw [setPrevAluLen, wrpImmed, hpack]
  exact h

theorem cmdCount_override (hv : v ≤ 0x1f) (size : BitVec 8) :
    cmdCount true size (cmdOveLen ||| cmdOvLen v) = v.toNat + 1 := by
  obtain ⟨-, -, hbit, hlen⟩ := overrideLen hv
  rw [cmdCount, Bool.true_and, hbit, if_pos rfl, hlen]

theorem cmdCount_direct {size : BitVec 8} (h : size ≤ 7) (prev : BitVec 32) :
    cmdCount false size prev = size.toNat + 1 := by
  have hall : ∀ k : Fin 8, (BitVec.ofNat 8 k &&& 7).toNat = (k : Nat) := by decide
  have hk : size.toNat < 8 := Nat.lt_succ_of_le h
  have := hall ⟨size.toNat, hk⟩
  simp only [ofNat_toNat, setWidth_eq] at this
  rw [cmdCount, Bool.false_and, if_neg Bool.false_ne_true, this]

theorem does_reLoad (imm : BitVec 32) (e : Engine) :
    ∃ e', Does (reLoadImmAny imm immB).1 e e' ∧ Quiet e e' ∧ CmdOff (reLoadImmAny imm immB).2 ∧
      e'.core.src (reLoadImmAny imm immB).2 = imm := by
  rw [reLoadImmAny]
  split
  · next h =>
    have hle : imm.toNat ≤ 127 := h
    refine ⟨e, .nil e, .refl e, .imm ?_, ?_⟩
    · rw [le_def, toNat_setWidth]
      exact (Nat.mod_le _ _).trans hle
    · rw [src_regImm]
      apply eq_of_toNat_eq
      rw [toNat_setWidth, toNat_setWidth]
      omega
  · refine ⟨_, does_wrpImmed (.b (by decide)) imm e, quiet_immed e imm, .reg (by decide), ?_⟩
    exact update_self staticRegImm imm e.core.b

theorem xfr_encoding (hi : i < 32) :
    (∀ b, nfpSwregToUnreg (regXfer (BitVec.ofNat 16 i)) b = inXfr i) ∧ isUrImm (inXfr i) = false ∧
      ¬inXfr i < gprCount ∧ isXfer (inXfr i) = true ∧ xferIdx (inXfr i) = BitVec.ofNat 16 i := by
  have hall : ∀ k : Fin 32, (∀ b, nfpSwregToUnreg (regXfer (BitVec.ofNat 16 k)) b = inXfr k) ∧
      isUrImm (inXfr k) = false ∧ ¬inXfr k < gprCount ∧ isXfer (inXfr k) = true ∧
      xferIdx (inXfr k) = BitVec.ofNat 16 k := by decide
  exact hall ⟨i, hi⟩

structure Moved (e e' : Engine) : Prop where
  a : e'.core.a = e.core.a
  b : e'.core.b = e.core.b
  ext : e'.core.ext = e.core.ext
  mem32 : e'.mem32 = e.mem32
  mem40 : e'.mem40 = e.mem40

theorem does_movXfer (hi : i < 32) (e : Engine) :
    ∃ e', Does (wrpMov (regXfer (BitVec.ofNat 16 i)) (regXfer (BitVec.ofNat 16 i))) e e' ∧ Moved e e' ∧
      e'.xferOut = update e.xferOut (BitVec.ofNat 16 i) (e.core.ext (inXfr i)) := by
  obtain ⟨hun, himm, hgpr, hx, hidx⟩ := xfr_encoding hi
  have hops : ops (wrpMov (regXfer (BitVec.ofNat 16 i)) (regXfer (BitVec.ofNat 16 i))) =
      [.alu (inXfr i) .a 0 .none (inXfr i) false false false false] := by
    simp [wrpMov, emitAlu, swregToUnrestricted, hun]
    rfl
  have hread : e.core.readB (inXfr i) = e.core.ext (inXfr i) := by
    rw [State.readB, himm, if_neg Bool.false_ne_true, if_neg hgpr]
  refine ⟨_, does_single hops (emitAlu_length ..) rfl, ?_, ?_⟩
  · simp only [retire, hx, if_true, State.write, himm, Bool.false_eq_true, if_false, hgpr]
    exact ⟨rfl, rfl, rfl, rfl, rfl⟩
  · simp only [retire, hx, if_true, hidx, State.write, himm, Bool.false_eq_true, if_false, hgpr, update_self,
      hread]
    rfl

theorem does_movXfers (hn : n ≤ 32) (e : Engine) :
    ∃ e', Does (movXfers n) e e' ∧ Moved e e' ∧ ∀ i < n, e'.xferOut (BitVec.ofNat 16 i) = e.core.ext (inXfr i) := by
  induction n with
  | zero => exact ⟨e, .nil e, ⟨rfl, rfl, rfl, rfl, rfl⟩, fun i hi => absurd hi (Nat.not_lt_zero i)⟩
  | succ n ih =>
    obtain ⟨e1, h1, hm1, hout⟩ := ih (by omega)
    obtain ⟨e2, h2, hm2, hup⟩ := does_movXfer (show n < 32 by omega) e1
    refine ⟨e2, ?_, ⟨?_, ?_, ?_, ?_, ?_⟩, ?_⟩
    · rw [movXfers, List.range_succ, List.flatMap_append, List.flatMap_singleton]
      exact h1.append h2
    · rw [hm2.a, hm1.a]
    · rw [hm2.b, hm1.b]
    · rw [hm2.ext, hm1.ext]
    · rw [hm2.mem32, hm1.mem32]
    · rw [hm2.mem40, hm1.mem40]
    · intro i hi
      rw [hup, hm1.ext]
      by_cases hin : i = n
      · rw [hin, update_self]
      have hne : BitVec.ofNat 16 i ≠ BitVec.ofNat 16 n := by
        intro hc
        have := congrArg BitVec.toNat hc
        rw [toNat_ofNat, toNat_ofNat] at this
        omega
      rw [update_of_ne hne]
      exact hout i (by omega)

end Engine

end NfpDriver.Machine
