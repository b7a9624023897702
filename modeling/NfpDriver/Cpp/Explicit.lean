import NfpDriver.Cpp.Target
import NfpDriver.Library.Loop

namespace NfpDriver.Cpp

open Fields BitVec

namespace Explicit

def einval : CInt := 22

def ebusy : CInt := 16

abbrev actionRw : BitVec 32 := 32

def nfpBytemask (width : Nat) (addr : Word) : BitVec 8 :=
  if width = 8 then 0xff
  else if width = 4 then 0x0f <<< (addr &&& 4).toNat
  else if width = 2 then 0x03 <<< (addr &&& 6).toNat
  else if width = 1 then 0x01 <<< (addr &&& 7).toNat
  else 0

-- one executed command with the slice of the buffer it is paired with
structure Command where
  cppId : BitVec 32
  addr : Word
  len : BitVec 8
  byteMask : BitVec 8
  tmp : Word
  bytes : Word
  deriving DecidableEq

structure Result where
  ret : CInt
  commands : List Command

structure Env where
  acquired : Bool
  doRet : Nat → CInt
  moveRet : Nat → CInt

structure State where
  i : CInt
  addr : Word
  tmp : Word
  incr : CInt
  len : BitVec 8
  byteMask : BitVec 8
  commands : List Command

def sext (x : CInt) : Word := x.signExtend 64

def cmdLen (incr : CInt) (width : Nat) : BitVec 8 := (incr.sdiv (BitVec.ofNat 32 width) - 1).setWidth 8

section Transfer

variable (write : Bool) (env : Env) (cppId : BitVec 32) (len : Word) (width : Nat)

def retarget (s : State) : State :=
  if sext (s.i + s.incr) > len then
    let incr := (len - sext s.i).setWidth 32
    { s with incr, len := cmdLen incr width, byteMask := 0xff }
  else s

def command (s : State) : Command := ⟨cppId, s.addr, s.len, s.byteMask, s.tmp, sext s.incr⟩

def advance (s : State) : State :=
  { s with i := s.i + s.incr, addr := s.addr + sext s.incr, tmp := s.tmp + sext s.incr,
           commands := s.commands ++ [command cppId s] }

-- a read executes the command and then fetches its data, a write stores the data first
def step (s : State) : Result ⊕ State :=
  if sext s.i < len then
    let s := retarget len width s
    let n := s.commands.length
    if write then
      if (env.moveRet n).toInt < 0 then .inl ⟨env.moveRet n, s.commands⟩
      else if (env.doRet n).toInt < 0 then .inl ⟨env.doRet n, s.commands ++ [command cppId s]⟩
      else .inr (advance cppId s)
    else
      if (env.doRet n).toInt < 0 then .inl ⟨env.doRet n, s.commands ++ [command cppId s]⟩
      else if (env.moveRet n).toInt < 0 then .inl ⟨env.moveRet n, s.commands ++ [command cppId s]⟩
      else .inr (advance cppId s)
  else .inl ⟨len.setWidth 32, s.commands⟩

def minInt (x y : CInt) : CInt := if x.toInt < y.toInt then x else y

def setup (addr : Word) : State :=
  let incr := minInt (minInt (BitVec.ofNat 32 (16 * width)) 128) (len.setWidth 32)
  ⟨0, addr, 0, incr, cmdLen incr width, nfpBytemask width addr, []⟩

-- `NFP_CPP_ACTION_RW` becomes action 0 for a read and 1 for a write
def translate : BitVec 32 :=
  if cppId >>> 8 &&& 0xff = actionRw then
    nfpCppId (cppId >>> 24 &&& 0x1f) (if write then 1 else 0) (cppId >>> 16 &&& 0xff)
  else cppId

def transfer (fuel : Nat) (addr : Word) : Option Result :=
  if len &&& sext (BitVec.ofNat 32 width - 1) ≠ 0 then some ⟨-einval, []⟩
  else if ¬env.acquired then some ⟨-ebusy, []⟩
  else Loop.exec (step write env (translate write cppId) len width) fuel (setup len width addr)

end Transfer

def nfpCppExplicitRead (env : Env) (cppId : BitVec 32) (addr len : Word) (widthRead fuel : Nat) : Option Result :=
  transfer false env cppId len widthRead fuel addr

def nfpCppExplicitWrite (env : Env) (cppId : BitVec 32) (addr len : Word) (widthWrite fuel : Nat) : Option Result :=
  transfer true env cppId len widthWrite fuel addr

def NoFault (env : Env) : Prop := env.acquired ∧ ∀ n, 0 ≤ (env.doRet n).toInt ∧ 0 ≤ (env.moveRet n).toInt

def Width (width : Nat) : Prop := width = 1 ∨ width = 2 ∨ width = 4 ∨ width = 8

structure CommandOk (width : Nat) (addr : Word) (off : Nat) (c : Command) : Prop where
  addr_eq : c.addr = addr + BitVec.ofNat 64 off
  tmp_eq : c.tmp = BitVec.ofNat 64 off
  bytes_pos : 0 < c.bytes.toNat
  len_eq : (c.len.toNat + 1) * width = c.bytes.toNat
  len_le : c.len.toNat ≤ 15
  mask_eq : c.byteMask = nfpBytemask width c.addr

def Covers (width : Nat) (addr : Word) (len : Nat) : Nat → List Command → Prop
  | off, [] => off = len
  | off, c :: cs => CommandOk width addr off c ∧ Covers width addr len (off + c.bytes.toNat) cs

structure Complete (width : Nat) (addr len : Word) (r : Result) : Prop where
  ret_eq : r.ret.toInt = len.toNat
  covers : Covers width addr len.toNat 0 r.commands

variable {width j : Nat}

section Ints

variable {j c : Nat}

theorem sext_ofNat (h : j < 2 ^ 31) : sext (BitVec.ofNat 32 j) = BitVec.ofNat 64 j := by
  refine eq_of_toNat_eq ?_
  have hm : (BitVec.ofNat 32 j).msb = false := by
    rw [msb_eq_decide, toNat_ofNat, Nat.mod_eq_of_lt (by omega)]
    exact decide_eq_false (by omega)
  rw [sext, toNat_signExtend, hm, toNat_setWidth, toNat_ofNat, toNat_ofNat]
  simp only [Bool.false_eq_true, if_false]
  omega

theorem sext_ofNat_large (h : 2 ^ 31 ≤ j) (h' : j < 2 ^ 32) : 2 ^ 63 ≤ (sext (BitVec.ofNat 32 j)).toNat := by
  have hm : (BitVec.ofNat 32 j).msb = true := by
    rw [msb_eq_decide, toNat_ofNat, Nat.mod_eq_of_lt h']
    exact decide_eq_true (by omega)
  rw [sext, toNat_signExtend, hm, toNat_setWidth, toNat_ofNat]
  simp only [if_true]
  omega

theorem cmdLen_ofNat (hw : Width width) (h0 : width ≤ c) (hc : c ≤ 128) :
    cmdLen (BitVec.ofNat 32 c) width = BitVec.ofNat 8 (c / width - 1) := by
  have hm (x : Nat) (hx : x ≤ 128) : (BitVec.ofNat 32 x).msb = false := by
    rw [msb_eq_decide, toNat_ofNat, Nat.mod_eq_of_lt (by omega)]
    exact decide_eq_false (by omega)
  have hw1 : 1 ≤ width := by rcases hw with rfl | rfl | rfl | rfl <;> decide
  have hdiv : 1 ≤ c / width := (Nat.le_div_iff_mul_le hw1).mpr (by omega)
  refine eq_of_toNat_eq ?_
  rw [cmdLen, sdiv_eq, hm c hc, hm width (by omega)]
  rw [toNat_setWidth, toNat_sub, udiv_eq, toNat_udiv, toNat_ofNat, toNat_ofNat,
    toNat_ofNat, Nat.mod_eq_of_lt (by omega : c < 2 ^ 32), Nat.mod_eq_of_lt (by omega : width < 2 ^ 32)]
  change (2 ^ 32 - 1 + c / width) % 2 ^ 32 % 2 ^ 8 = _
  omega

end Ints

section Mask

variable {width : Nat} {addr : Word}

theorem and_seven_add (hj : 8 ∣ j) : (addr + BitVec.ofNat 64 j) &&& 7 = addr &&& 7 := by
  refine eq_of_toNat_eq ?_
  rw [toNat_and, toNat_and, show (7 : Word).toNat = 2 ^ 3 - 1 from rfl, Nat.and_two_pow_sub_one_eq_mod,
    Nat.and_two_pow_sub_one_eq_mod, toNat_add, toNat_ofNat]
  omega

theorem nfpBytemask_add (hj : 8 ∣ j) : nfpBytemask width (addr + BitVec.ofNat 64 j) = nfpBytemask width addr := by
  have h (m : Word) (hm : 7 &&& m = m) : (addr + BitVec.ofNat 64 j) &&& m = addr &&& m := by
    rw [← hm, ← BitVec.and_assoc, ← BitVec.and_assoc, and_seven_add hj]
  rw [nfpBytemask, nfpBytemask, h 4 (by decide), h 6 (by decide), h 7 (by decide)]

theorem shifted_ne_full (m : BitVec 8) (hm : m &&& 0x80 = 0) (n : Nat) : m <<< n ≠ 0xff := by
  intro h
  have h0 := congrArg (·.getLsbD 0) h
  cases n with
  | zero =>
    rw [shiftLeft_zero] at h
    rw [h] at hm
    cases hm
  | succ n =>
    simp at h0

theorem nfpBytemask_full (hw : Width width) : 0xff = nfpBytemask width addr ↔ width = 8 := by
  rcases hw with rfl | rfl | rfl | rfl
  · exact iff_of_false (fun h => shifted_ne_full 0x01 (by decide) _ h.symm) (by decide)
  · exact iff_of_false (fun h => shifted_ne_full 0x03 (by decide) _ h.symm) (by decide)
  · exact iff_of_false (fun h => shifted_ne_full 0x0f (by decide) _ h.symm) (by decide)
  · exact iff_of_true rfl rfl

end Mask

def chunk (cppId : BitVec 32) (addr : Word) (j c : Nat) (lenField mask : BitVec 8) : Command :=
  ⟨cppId, addr + BitVec.ofNat 64 j, lenField, mask, BitVec.ofNat 64 j, BitVec.ofNat 64 c⟩

section Steps

variable {write : Bool} {env : Env} {cppId : BitVec 32} {len : Word} {width : Nat} {addr : Word} {j c : Nat}
  {lenField mask : BitVec 8} {commands : List Command}

def stateAt (addr : Word) (j : Nat) (incr : CInt) (lenField mask : BitVec 8) (commands : List Command) : State :=
  ⟨BitVec.ofNat 32 j, addr + BitVec.ofNat 64 j, BitVec.ofNat 64 j, incr, lenField, mask, commands⟩

theorem step_next (henv : NoFault env) {s : State} (h : sext s.i < len) :
    step write env cppId len width s = .inr (advance cppId (retarget len width s)) := by
  obtain ⟨t, ht⟩ := @exists_eq' _ (retarget len width s)
  obtain ⟨hdo, hmove⟩ := henv.2 t.commands.length
  rw [step, if_pos h, ht]
  simp only [if_neg (Int.not_lt.mpr hdo), if_neg (Int.not_lt.mpr hmove), ite_self]

theorem advance_stateAt (hc : c < 2 ^ 31) :
    advance cppId (stateAt addr j (BitVec.ofNat 32 c) lenField mask commands) =
      stateAt addr (j + c) (BitVec.ofNat 32 c) lenField mask (commands ++ [chunk cppId addr j c lenField mask]) := by
  simp only [advance, command, stateAt, chunk, sext_ofNat hc, ofNat_add, BitVec.add_assoc]

theorem lt_len_iff (hj : j < 2 ^ 31) : sext (BitVec.ofNat 32 j) < len ↔ j < len.toNat := by
  rw [sext_ofNat hj, lt_def, toNat_ofNat, Nat.mod_eq_of_lt (by omega)]

variable (hlen : len.toNat < 2 ^ 31)

include hlen

theorem step_done : step write env cppId len width (stateAt addr len.toNat (BitVec.ofNat 32 c) lenField mask commands) =
    .inl ⟨len.setWidth 32, commands⟩ :=
  if_neg fun h => lt_irrefl _ ((lt_len_iff hlen).mp h)

theorem over_iff (hj : j < len.toNat) (hc : c ≤ 128) :
    sext (BitVec.ofNat 32 j + BitVec.ofNat 32 c) > len ↔ len.toNat < j + c := by
  rw [← ofNat_add, gt_iff_lt, lt_def]
  -- near the top of the range the sum wraps to a negative int, which compares as a huge size
  by_cases hsum : j + c < 2 ^ 31
  · rw [sext_ofNat hsum, toNat_ofNat, Nat.mod_eq_of_lt (by omega)]
  · have := sext_ofNat_large (not_lt.mp hsum) (by omega)
    omega

theorem step_full (henv : NoFault env) (hc0 : 0 < c) (hc : c ≤ 128) (hj : j + c ≤ len.toNat) :
    step write env cppId len width (stateAt addr j (BitVec.ofNat 32 c) lenField mask commands) =
      .inr (stateAt addr (j + c) (BitVec.ofNat 32 c) lenField mask (commands ++
        [chunk cppId addr j c lenField mask])) := by
  have hlt : sext (stateAt addr j (BitVec.ofNat 32 c) lenField mask commands).i < len :=
    (lt_len_iff (by omega)).mpr (by omega)
  have hre : retarget len width (stateAt addr j (BitVec.ofNat 32 c) lenField mask commands) =
      stateAt addr j (BitVec.ofNat 32 c) lenField mask commands :=
    if_neg fun h => not_lt.mpr hj ((over_iff hlen (by omega) hc).mp h)
  rw [step_next henv hlt, hre, advance_stateAt (by omega)]

theorem step_short (henv : NoFault env) (hw : Width width) (hdvd : width ∣ len.toNat - j) (hc : c ≤ 128)
    (hj : j < len.toNat) (hover : len.toNat < j + c) :
    ∃ t, step write env cppId len width (stateAt addr j (BitVec.ofNat 32 c) lenField mask commands) = .inr t ∧
      step write env cppId len width t = .inl ⟨len.setWidth 32, commands ++
        [chunk cppId addr j (len.toNat - j) (BitVec.ofNat 8 ((len.toNat - j) / width - 1)) 0xff]⟩ := by
  have hlt : sext (stateAt addr j (BitVec.ofNat 32 c) lenField mask commands).i < len :=
    (lt_len_iff (by omega)).mpr hj
  have hincr : (len - sext (BitVec.ofNat 32 j)).setWidth 32 = BitVec.ofNat 32 (len.toNat - j) := by
    refine eq_of_toNat_eq ?_
    rw [sext_ofNat (by omega), toNat_setWidth, toNat_sub, toNat_ofNat, toNat_ofNat]
    omega
  have hfield := cmdLen_ofNat (c := len.toNat - j) hw (Nat.le_of_dvd (by omega) hdvd) (by omega)
  have hre : retarget len width (stateAt addr j (BitVec.ofNat 32 c) lenField mask commands) =
      stateAt addr j (BitVec.ofNat 32 (len.toNat - j))
        (BitVec.ofNat 8 ((len.toNat - j) / width - 1)) 0xff commands := by
    refine (if_pos ((over_iff hlen hj hc).mpr hover)).trans ?_
    simp only [stateAt, hincr, hfield]
  refine ⟨_, step_next henv hlt, ?_⟩
  rw [hre, advance_stateAt (by omega), show j + (len.toNat - j) = len.toNat by omega]
  exact step_done hlen

end Steps

theorem command_ok (hw : Width width) (cppId : BitVec 32) (addr : Word) (j : Nat) {c : Nat} {mask : BitVec 8}
    (hc0 : 0 < c) (hc : c ≤ 16 * width) (hdvd : width ∣ c) :
    CommandOk width addr j (chunk cppId addr j c (BitVec.ofNat 8 (c / width - 1)) mask) ↔
      mask = nfpBytemask width (addr + BitVec.ofNat 64 j) := by
  have hw0 : 0 < width ∧ width ≤ 8 := by rcases hw with rfl | rfl | rfl | rfl <;> decide
  obtain ⟨q, rfl⟩ := hdvd
  have hq : 0 < q := Nat.pos_of_mul_pos_left hc0
  have hq16 : q ≤ 16 := Nat.le_of_mul_le_mul_left (by rwa [mul_comm 16] at hc) hw0.1
  have hlen : (BitVec.ofNat 8 (width * q / width - 1)).toNat = q - 1 := by
    rw [Nat.mul_div_cancel_left q hw0.1, toNat_ofNat, Nat.mod_eq_of_lt (by omega)]
  have hbytes : (BitVec.ofNat 64 (width * q)).toNat = width * q := by
    rw [toNat_ofNat, Nat.mod_eq_of_lt (by omega)]
  refine ⟨fun h => h.mask_eq, fun h => ⟨rfl, rfl, ?_, ?_, ?_, h⟩⟩
  · exact hbytes.symm ▸ hc0
  · rw [chunk, hlen, hbytes, Nat.sub_add_cancel hq, mul_comm]
  · rw [chunk, hlen]
    omega

section Run

variable {env : Env} {len : Word} {width : Nat} (addr : Word) {c : Nat}

structure Plan (len : Word) (width c : Nat) : Prop where
  len_lt : len.toNat < 2 ^ 31
  width_ok : Width width
  pos : 0 < c
  le : c ≤ 16 * width
  dvd_chunk : width ∣ c
  dvd_len : width ∣ len.toNat
  aligned : 8 ∣ c ∨ c = len.toNat

theorem Plan.mask (h : Plan len width c) (hj : c ∣ j) (hlt : j < len.toNat) :
    nfpBytemask width addr = nfpBytemask width (addr + BitVec.ofNat 64 j) := by
  refine (nfpBytemask_add ?_).symm
  rcases h.aligned with h8 | rfl
  · exact Nat.dvd_trans h8 hj
  · rw [Nat.eq_zero_of_dvd_of_lt hj hlt]
    exact Nat.dvd_zero 8

theorem run_covers (write : Bool) (cppId : BitVec 32) (h : Plan len width c) (henv : NoFault env) (hj : c ∣ j)
    (hle : j ≤ len.toNat) (commands : List Command) :
    ∃ suffix, Loop.Returns (step write env cppId len width)
        (stateAt addr j (BitVec.ofNat 32 c) (BitVec.ofNat 8 (c / width - 1)) (nfpBytemask width addr) commands)
        ⟨len.setWidth 32, commands ++ suffix⟩ ∧
      (Covers width addr len.toNat j suffix ↔ width = 8 ∨ c ∣ len.toNat - j) := by
  have hw8 : width ≤ 8 := by rcases h.width_ok with rfl | rfl | rfl | rfl <;> decide
  have hc := h.le
  have hpos := h.pos
  induction hn : len.toNat - j using Nat.strongRecOn generalizing j commands with
  | ind n ih =>
    rcases Nat.eq_or_lt_of_le hle with rfl | hlt
    · refine ⟨[], ?_, iff_of_true rfl (.inr ?_)⟩
      · rw [List.append_nil]
        exact (Loop.returns_inl (step_done h.len_lt)).mpr rfl
      · rw [← hn, Nat.sub_self]
        exact Nat.dvd_zero c
    have hbytes (m : Nat) (hm : m ≤ c) (mask lenField : BitVec 8) :
        (chunk cppId addr j m lenField mask).bytes.toNat = m := by
      rw [chunk, toNat_ofNat, Nat.mod_eq_of_lt (by omega)]
    by_cases hfull : j + c ≤ len.toNat
    · obtain ⟨suffix, hret, hcov⟩ := ih (len.toNat - (j + c)) (by omega) (Nat.dvd_add hj (Nat.dvd_refl c)) hfull
        (commands ++ [chunk cppId addr j c (BitVec.ofNat 8 (c / width - 1)) (nfpBytemask width addr)]) rfl
      refine ⟨chunk cppId addr j c (BitVec.ofNat 8 (c / width - 1)) (nfpBytemask width addr) :: suffix,
        (Loop.returns_inr (step_full h.len_lt henv hpos (by omega) hfull)).mpr ?_, ?_⟩
      · rwa [List.append_assoc, List.singleton_append] at hret
      · have hok := (command_ok h.width_ok cppId addr j hpos hc h.dvd_chunk).mpr (h.mask addr hj hlt)
        rw [Covers, hbytes c (Nat.le_refl c), and_iff_right hok, hcov, ← hn,
          show len.toNat - j = len.toNat - (j + c) + c by omega, Nat.dvd_add_self_right]
    · have hdvd : width ∣ len.toNat - j := Nat.dvd_sub h.dvd_len (Nat.dvd_trans h.dvd_chunk hj)
      obtain ⟨t, hstep, hdone⟩ := step_short h.len_lt henv h.width_ok hdvd (by omega) hlt (not_le.mp hfull)
      refine ⟨[chunk cppId addr j (len.toNat - j) (BitVec.ofNat 8 ((len.toNat - j) / width - 1)) 0xff],
        (Loop.returns_inr hstep).mpr ((Loop.returns_inl hdone).mpr rfl), ?_⟩
      have hnot : ¬c ∣ n := fun hd => by
        have := Nat.le_of_dvd (by omega) hd
        omega
      rw [Covers, Covers, hbytes _ (by omega), command_ok h.width_ok cppId addr j (by omega) (by omega) hdvd,
        nfpBytemask_full h.width_ok, or_iff_left hnot, and_iff_left (show j + (len.toNat - j) = len.toNat by omega)]

end Run

theorem minInt_ofNat {x y : Nat} (hx : x < 2 ^ 31) (hy : y < 2 ^ 31) :
    minInt (BitVec.ofNat 32 x) (BitVec.ofNat 32 y) = BitVec.ofNat 32 (min x y) := by
  have htoInt (z : Nat) (hz : z < 2 ^ 31) : (BitVec.ofNat 32 z).toInt = z := by
    rw [toInt_ofNat', Int.bmod_eq_of_le (by omega) (by omega)]
  rw [minInt, htoInt x hx, htoInt y hy]
  by_cases h : x < y
  · rw [if_pos (Int.ofNat_lt.mpr h), min_eq_left (le_of_lt h)]
  · rw [if_neg (mt Int.ofNat_lt.mp h), min_eq_right (not_lt.mp h)]

theorem setup_eq {len : Word} (addr : Word) (hw : Width width) (hlen : len.toNat < 2 ^ 31) (hdvd : width ∣ len.toNat)
    (hpos : 0 < len.toNat) :
    setup len width addr = stateAt addr 0 (BitVec.ofNat 32 (min (16 * width) len.toNat))
      (BitVec.ofNat 8 (min (16 * width) len.toNat / width - 1)) (nfpBytemask width addr) [] := by
  have hw8 : 0 < width ∧ width ≤ 8 := by rcases hw with rfl | rfl | rfl | rfl <;> decide
  have hle : width ≤ len.toNat := Nat.le_of_dvd hpos hdvd
  have hset : len.setWidth 32 = BitVec.ofNat 32 len.toNat := eq_of_toNat_eq (by simp)
  have hincr : minInt (minInt (BitVec.ofNat 32 (16 * width)) 128) (len.setWidth 32) =
      BitVec.ofNat 32 (min (16 * width) len.toNat) := by
    rw [show (128 : CInt) = BitVec.ofNat 32 128 from rfl, hset, minInt_ofNat (by omega) (by decide),
      minInt_ofNat (by omega) hlen, min_eq_left (show 16 * width ≤ 128 by omega)]
  rw [setup, hincr, cmdLen_ofNat hw (by omega) (by omega), stateAt, BitVec.add_zero]
  rfl

section Complete

variable (write : Bool) {env : Env} (cppId : BitVec 32) (addr : Word) {len : Word} {width : Nat} (hw : Width width)
  (hdvd : width ∣ len.toNat) (henv : NoFault env)

include hw hdvd henv

theorem transfer_loop (fuel : Nat) :
    transfer write env cppId len width fuel addr =
      Loop.exec (step write env (translate write cppId) len width) fuel (setup len width addr) := by
  obtain ⟨k, rfl, hk⟩ : ∃ k, width = 2 ^ k ∧ (sext (BitVec.ofNat 32 width - 1)).toNat = 2 ^ k - 1 := by
    rcases hw with rfl | rfl | rfl | rfl
    · exact ⟨0, rfl, by decide⟩
    · exact ⟨1, rfl, by decide⟩
    · exact ⟨2, rfl, by decide⟩
    · exact ⟨3, rfl, by decide⟩
  have hmask : len &&& sext (BitVec.ofNat 32 (2 ^ k) - 1) = 0 := by
    refine eq_of_toNat_eq ?_
    rw [toNat_and, hk, Nat.and_two_pow_sub_one_eq_mod]
    exact Nat.mod_eq_zero_of_dvd hdvd
  rw [transfer, if_neg (not_not.mpr hmask), if_neg (not_not.mpr henv.1)]

theorem transfer_covers (hlen : len.toNat < 2 ^ 31) :
    ∃ commands, Loop.Returns (step write env cppId len width) (setup len width addr) ⟨len.setWidth 32, commands⟩ ∧
      (Covers width addr len.toNat 0 commands ↔ width = 8 ∨ len.toNat ≤ 16 * width ∨ 16 * width ∣ len.toNat) := by
  rcases Nat.eq_zero_or_pos len.toNat with h0 | hpos
  · have hnot : ¬sext (setup len width addr).i < len := fun h => by
      have := lt_def.mp h
      omega
    have hstep : step write env cppId len width (setup len width addr) = .inl ⟨len.setWidth 32, []⟩ := if_neg hnot
    exact ⟨[], (Loop.returns_inl hstep).mpr rfl, iff_of_true h0.symm (by omega)⟩
  have hw0 : 0 < width := by rcases hw with rfl | rfl | rfl | rfl <;> decide
  have hplan : Plan len width (min (16 * width) len.toNat) := by
    refine ⟨hlen, hw, by omega, min_le_left _ _, ?_, hdvd, ?_⟩
    · rcases le_total (16 * width) len.toNat with h | h
      · rw [min_eq_left h]
        exact Nat.dvd_mul_left width 16
      · rwa [min_eq_right h]
    · rcases le_total (16 * width) len.toNat with h | h
      · rw [min_eq_left h]
        exact .inl (Nat.dvd_trans (by decide) (Nat.dvd_mul_right 16 width))
      · exact .inr (min_eq_right h)
  obtain ⟨suffix, hret, hcov⟩ := run_covers addr write cppId hplan henv (Nat.dvd_zero _) (Nat.zero_le _) []
  refine ⟨suffix, setup_eq addr hw hlen hdvd hpos ▸ hret, hcov.trans ?_⟩
  rw [Nat.sub_zero]
  refine or_congr_right ?_
  rcases le_total (16 * width) len.toNat with h | h
  · rw [min_eq_left h]
    refine ⟨.inr, fun hor => hor.elim (fun hle => ?_) id⟩
    rw [le_antisymm hle h]
  · rw [min_eq_right h]
    exact iff_of_true (Nat.dvd_refl _) (.inl h)

theorem transfer_complete_iff :
    (∃ fuel r, transfer write env cppId len width fuel addr = some r ∧ Complete width addr len r) ↔
      len.toNat < 2 ^ 31 ∧ (width = 8 ∨ len.toNat ≤ 16 * width ∨ 16 * width ∣ len.toNat) := by
  simp only [transfer_loop write cppId addr hw hdvd henv]
  constructor
  · rintro ⟨fuel, r, hr, hc⟩
    have hlen : len.toNat < 2 ^ 31 := by
      have := hc.ret_eq
      have := toInt_lt (x := r.ret)
      omega
    obtain ⟨commands, hret, hcov⟩ := transfer_covers write (translate write cppId) addr hw hdvd henv hlen
    cases hret.unique ⟨fuel, hr⟩
    exact ⟨hlen, hcov.mp hc.covers⟩
  · rintro ⟨hlen, hcond⟩
    obtain ⟨commands, ⟨fuel, hret⟩, hcov⟩ := transfer_covers write (translate write cppId) addr hw hdvd henv hlen
    refine ⟨fuel, _, hret, ?_, hcov.mpr hcond⟩
    rw [toInt_eq_toNat_of_lt, toNat_setWidth, Nat.mod_eq_of_lt (by omega)]
    rw [toNat_setWidth, Nat.mod_eq_of_lt (by omega)]
    omega

end Complete

theorem explicit_exact_iff (env : Env) (cppId : BitVec 32) (addr len : Word) (width : Nat) (hw : Width width)
    (hdvd : width ∣ len.toNat) (henv : NoFault env) :
    ((∃ fuel r, nfpCppExplicitRead env cppId addr len width fuel = some r ∧ Complete width addr len r) ↔
      len.toNat < 2 ^ 31 ∧ (width = 8 ∨ len.toNat ≤ 16 * width ∨ 16 * width ∣ len.toNat)) ∧
    ((∃ fuel r, nfpCppExplicitWrite env cppId addr len width fuel = some r ∧ Complete width addr len r) ↔
      len.toNat < 2 ^ 31 ∧ (width = 8 ∨ len.toNat ≤ 16 * width ∨ 16 * width ∣ len.toNat)) :=
  ⟨transfer_complete_iff false cppId addr hw hdvd henv, transfer_complete_iff true cppId addr hw hdvd henv⟩

def quietEnv : Env := ⟨true, fun _ => 0, fun _ => 0⟩

theorem quietEnv_noFault : NoFault quietEnv := ⟨rfl, fun _ => ⟨Int.le_refl 0, Int.le_refl 0⟩⟩

theorem width_four : Width 4 := .inr (.inr (.inl rfl))

theorem two_chunks_exact :
    ∃ fuel r, nfpCppExplicitRead quietEnv 0x07000000 0x1000 128 4 fuel = some r ∧ Complete 4 0x1000 128 r :=
  (explicit_exact_iff quietEnv 0x07000000 0x1000 128 4 width_four (by decide) quietEnv_noFault).1.mpr
    ⟨by decide, .inr (.inr (by decide))⟩

theorem short_chunk_full_mask :
    ¬∃ fuel r, nfpCppExplicitRead quietEnv 0x07000000 0x1000 68 4 fuel = some r ∧ Complete 4 0x1000 68 r := by
  intro h
  obtain ⟨-, h⟩ := (transfer_complete_iff false _ _ width_four (by decide) quietEnv_noFault).mp h
  exact absurd h (by decide)

end Explicit

end NfpDriver.Cpp
