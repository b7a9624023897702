import NfpDriver.Cpp.Target

namespace NfpDriver.Cpp

open Fields BitVec

inductive RtsymType where
  | none
  | object
  | function
  | abs
  | unknown (type : Nat)
  deriving DecidableEq, Repr

structure Rtsym where
  type : RtsymType
  addr : Word
  size : Word
  target : CInt
  domain : CInt

abbrev rtsymTargetEmuCache : CInt := -7

def enxio : Int := 6

def einval : Int := 22

def nfpRtsymSize (sym : Rtsym) : Word :=
  match sym.type with
  | .none => 0
  | .abs => 8
  | .object | .function | .unknown _ => sym.size

def nfpCppIslandId (target action token island : BitVec 32) : BitVec 32 :=
  nfpCppId target action token ||| (island &&& 0xff)

def directAddr (addr40 : Bool) (addr : Word) : Word :=
  addr &&& ~~~((3 : Word) <<< nfpCppatMuLocalityLsb addr40) ||| muLocalityDirect <<< nfpCppatMuLocalityLsb addr40

def nfpRtsymToDest (addr40 : Bool) (sym : Rtsym) (action token : BitVec 8) (off : Word) :
    Except Int (BitVec 32 × Word) :=
  if sym.type ≠ .object then .error (-einval)
  else if sym.target = rtsymTargetEmuCache then
    .ok (nfpCppIslandId targetMu (action.setWidth 32) (token.setWidth 32) sym.domain,
      directAddr addr40 (sym.addr + off))
  else if sym.target.toInt < 0 then .error (-einval)
  else .ok (nfpCppIslandId sym.target (action.setWidth 32) (token.setWidth 32) sym.domain, sym.addr + off)

-- what an accessor does: fail, answer from the symbol's own address field, or go to the device
inductive Outcome where
  | error (err : Int)
  | value (bytes : List (BitVec 8))
  | device (cppId : BitVec 32) (addr : Word) (len : Nat)

def le64 (x : Word) : List (BitVec 8) := (List.range 8).map fun i => (x >>> (8 * i)).setWidth 8

def transfer (len : Nat) : Except Int (BitVec 32 × Word) → Outcome
  | .error err => .error err
  | .ok dest => .device dest.1 dest.2 len

section Accessors

variable (addr40 : Bool) (sym : Rtsym) (action token : BitVec 8) (off : Word)

def blockLen (len : Word) : Nat := min len.toNat (nfpRtsymSize sym - off).toNat

def rtsymWord (width : Nat) : Outcome :=
  if off + BitVec.ofNat 64 width > nfpRtsymSize sym then .error (-enxio)
  else transfer width (nfpRtsymToDest addr40 sym action token off)

def nfpRtsymRead (len : Word) : Outcome :=
  if off > nfpRtsymSize sym then .error (-enxio)
  else if sym.type = .abs then .value (((le64 sym.addr).drop off.toNat).take (blockLen sym off len))
  else transfer (blockLen sym off len) (nfpRtsymToDest addr40 sym action token off)

def nfpRtsymReadl : Outcome := rtsymWord addr40 sym action token off 4

def nfpRtsymReadq : Outcome :=
  if off + 8 > nfpRtsymSize sym then .error (-enxio)
  else if sym.type = .abs then .value (le64 sym.addr)
  else transfer 8 (nfpRtsymToDest addr40 sym action token off)

def nfpRtsymWrite (len : Word) : Outcome :=
  if off > nfpRtsymSize sym then .error (-enxio)
  else transfer (blockLen sym off len) (nfpRtsymToDest addr40 sym action token off)

def nfpRtsymWritel : Outcome := rtsymWord addr40 sym action token off 4

def nfpRtsymWriteq : Outcome := rtsymWord addr40 sym action token off 8

end Accessors

inductive Accessor where
  | read (len : Word)
  | readl
  | readq
  | write (len : Word)
  | writel
  | writeq

namespace Accessor

def call (addr40 : Bool) (sym : Rtsym) (action token : BitVec 8) (off : Word) : Accessor → Outcome
  | .read len => nfpRtsymRead addr40 sym action token off len
  | .readl => nfpRtsymReadl addr40 sym action token off
  | .readq => nfpRtsymReadq addr40 sym action token off
  | .write len => nfpRtsymWrite addr40 sym action token off len
  | .writel => nfpRtsymWritel addr40 sym action token off
  | .writeq => nfpRtsymWriteq addr40 sym action token off

def width : Accessor → Option Nat
  | .read _ | .write _ => none
  | .readl | .writel => some 4
  | .readq | .writeq => some 8

def amount (sym : Rtsym) (off : Word) : Accessor → Nat
  | .read len | .write len => min len.toNat ((nfpRtsymSize sym).toNat - off.toNat)
  | .readl | .writel => 4
  | .readq | .writeq => 8

def Passes (sym : Rtsym) (off : Word) (acc : Accessor) : Prop :=
  match acc.width with
  | none => off ≤ nfpRtsymSize sym
  | some width => off + BitVec.ofNat 64 width ≤ nfpRtsymSize sym

end Accessor

def symbolAddr (addr40 : Bool) (sym : Rtsym) (i : Nat) : Word :=
  if sym.target = rtsymTargetEmuCache then directAddr addr40 (sym.addr + BitVec.ofNat 64 i)
  else sym.addr + BitVec.ofNat 64 i

def Confined (addr40 : Bool) (sym : Rtsym) (off : Word) (n : Nat) : Outcome → Prop
  | .error err => err < 0
  | .value bytes => bytes.length = n
  | .device _ addr len => len = n ∧ ∀ i < len,
    off.toNat + i < (nfpRtsymSize sym).toNat ∧ addr + BitVec.ofNat 64 i = symbolAddr addr40 sym (off.toNat + i)

def Issued (sym : Rtsym) (off : Word) (acc : Accessor) : Prop :=
  sym.type = .object ∧ (sym.target = rtsymTargetEmuCache ∨ 0 ≤ sym.target.toInt) ∧ acc.Passes sym off

def NoWrap (off : Word) (acc : Accessor) : Prop := ∀ width, acc.width = some width → off.toNat + width < 2 ^ 64

def NoCross (addr40 : Bool) (sym : Rtsym) (off : Word) (n : Nat) : Prop :=
  (sym.addr + off).toNat % 2 ^ nfpCppatMuLocalityLsb addr40 + n ≤ 2 ^ nfpCppatMuLocalityLsb addr40

variable {i : Nat} {x : Word} {acc : Accessor}

section Direct

variable {addr40 : Bool}

theorem lsb_cases (addr40 : Bool) : nfpCppatMuLocalityLsb addr40 = 30 ∨ nfpCppatMuLocalityLsb addr40 = 38 := by
  cases addr40
  · exact .inl rfl
  · exact .inr rfl

theorem getLsbD_small {c : Nat} (hc : c < 4) (k : Nat) : (BitVec.ofNat 64 c).getLsbD (k + 2) = false := by
  rw [getLsbD_ofNat, Nat.testBit_lt_two_pow, Bool.and_false]
  exact lt_of_lt_of_le hc (Nat.pow_le_pow_right Nat.two_pos (Nat.le_add_left 2 k))

theorem getLsbD_directAddr (addr40 : Bool) (x : Word) {k : Nat} (hk : k < 64) :
    (directAddr addr40 x).getLsbD k =
      if k = nfpCppatMuLocalityLsb addr40 then false
      else if k = nfpCppatMuLocalityLsb addr40 + 1 then true else x.getLsbD k := by
  obtain ⟨l, hl⟩ := @exists_eq' _ (nfpCppatMuLocalityLsb addr40)
  simp only [directAddr, hl, getLsbD_or, getLsbD_and, getLsbD_not, getLsbD_shiftLeft, hk, decide_true, Bool.true_and]
  rcases lt_or_ge k l with hlt | hge
  · simp [hlt, show k ≠ l by omega, show k ≠ l + 1 by omega]
  obtain ⟨m, rfl⟩ := Nat.exists_eq_add_of_le hge
  rw [Nat.add_sub_cancel_left]
  match m with
  | 0 | 1 => simp
  | m + 2 =>
    rw [show (3 : Word) = BitVec.ofNat 64 3 from rfl, show muLocalityDirect = BitVec.ofNat 64 2 from rfl,
      getLsbD_small (by decide), getLsbD_small (by decide)]
    simp

theorem directAddr_toNat (addr40 : Bool) (x : Word) :
    (directAddr addr40 x).toNat = 2 ^ (nfpCppatMuLocalityLsb addr40 + 2) *
      (x.toNat / 2 ^ (nfpCppatMuLocalityLsb addr40 + 2)) +
      (2 ^ nfpCppatMuLocalityLsb addr40 * 2 + x.toNat % 2 ^ nfpCppatMuLocalityLsb addr40) := by
  have hbit (k : Nat) (hk : k < 64) := getLsbD_directAddr addr40 x hk
  have hl62 : nfpCppatMuLocalityLsb addr40 + 2 ≤ 64 := by
    have := lsb_cases addr40
    omega
  obtain ⟨l, hl⟩ := @exists_eq' _ (nfpCppatMuLocalityLsb addr40)
  rw [hl] at hbit hl62 ⊢
  have hlow : x.toNat % 2 ^ l < 2 ^ l := Nat.mod_lt _ (Nat.two_pow_pos l)
  have hmid : 2 ^ l * 2 + x.toNat % 2 ^ l < 2 ^ (l + 2) := by
    rw [Nat.pow_add]
    omega
  refine Nat.eq_of_testBit_eq fun k => ?_
  rw [Nat.testBit_two_pow_mul_add _ hmid, Nat.testBit_two_pow_mul_add _ hlow, Nat.testBit_mod_two_pow,
    Nat.testBit_div_two_pow, testBit_toNat, testBit_toNat]
  by_cases hk : k < 64
  · rw [hbit k hk]
    rcases lt_or_ge k l with hlt | hge
    · simp [hlt, show k ≠ l by omega, show k ≠ l + 1 by omega, show k < l + 2 by omega]
    obtain ⟨m, rfl⟩ := Nat.exists_eq_add_of_le hge
    rw [Nat.add_sub_cancel_left]
    match m with
    | 0 => simp
    | 1 =>
      rw [if_neg (by omega), if_pos rfl, if_pos (by omega), if_neg (by omega)]
      rfl
    | m + 2 =>
      rw [if_neg (by omega), if_neg (by omega), if_neg (by omega), testBit_toNat,
        show l + (m + 2) - (l + 2) + (l + 2) = l + (m + 2) by omega]
  · rw [if_neg (by omega), show k - (l + 2) + (l + 2) = k by omega]
    rw [getLsbD_of_ge _ _ (le_of_not_gt hk), testBit_toNat, getLsbD_of_ge _ _ (le_of_not_gt hk)]

theorem toNat_add_lt (h : x.toNat + i < 2 ^ 64) : (x + BitVec.ofNat 64 i).toNat = x.toNat + i := by
  rw [toNat_add, toNat_ofNat, Nat.add_mod_mod, Nat.mod_eq_of_lt h]

theorem directAddr_add (h : x.toNat % 2 ^ nfpCppatMuLocalityLsb addr40 + i < 2 ^ nfpCppatMuLocalityLsb addr40) :
    directAddr addr40 x + BitVec.ofNat 64 i = directAddr addr40 (x + BitVec.ofNat 64 i) := by
  have hd := directAddr_toNat addr40 x
  have hxi := directAddr_toNat addr40 (x + BitVec.ofNat 64 i)
  refine eq_of_toNat_eq ?_
  rcases lsb_cases addr40 with hl | hl
  all_goals
    simp only [hl, Nat.reduceAdd, Nat.reducePow] at h hd hxi
    rw [toNat_add_lt (by omega)] at hxi
    rw [toNat_add_lt (by omega)]
    omega

theorem directAddr_cross {y : Word}
    (h : x.toNat % 2 ^ nfpCppatMuLocalityLsb addr40 + i = 2 ^ nfpCppatMuLocalityLsb addr40) :
    directAddr addr40 x + BitVec.ofNat 64 i ≠ directAddr addr40 y := by
  intro heq
  have hd := directAddr_toNat addr40 x
  have hdy := directAddr_toNat addr40 y
  have heq := congrArg BitVec.toNat heq
  rcases lsb_cases addr40 with hl | hl
  all_goals
    simp only [hl, Nat.reduceAdd, Nat.reducePow] at h hd hdy
    rw [toNat_add_lt (by omega)] at heq
    omega

end Direct

def destAddr (addr40 : Bool) (sym : Rtsym) (off : Word) : Word :=
  if sym.target = rtsymTargetEmuCache then directAddr addr40 (sym.addr + off) else sym.addr + off

section Call

variable {addr40 : Bool} {sym : Rtsym} {action token : BitVec 8} {off : Word}

theorem toDest_object (addr40 : Bool) (action token : BitVec 8) (off : Word) (hobj : sym.type = .object)
    (ht : sym.target = rtsymTargetEmuCache ∨ 0 ≤ sym.target.toInt) :
    ∃ id, nfpRtsymToDest addr40 sym action token off = .ok (id, destAddr addr40 sym off) := by
  rw [nfpRtsymToDest, if_neg (not_not.mpr hobj), destAddr]
  by_cases hemu : sym.target = rtsymTargetEmuCache
  · rw [if_pos hemu, if_pos hemu]
    exact ⟨_, rfl⟩
  · rw [if_neg hemu, if_neg hemu, if_neg (Int.not_lt.mpr (ht.resolve_left hemu))]
    exact ⟨_, rfl⟩

theorem toDest_error (h : ¬(sym.type = .object ∧ (sym.target = rtsymTargetEmuCache ∨ 0 ≤ sym.target.toInt))) :
    nfpRtsymToDest addr40 sym action token off = .error (-einval) := by
  rw [nfpRtsymToDest]
  by_cases hobj : sym.type = .object
  · have ht := not_or.mp fun ht => h ⟨hobj, ht⟩
    rw [if_neg (not_not.mpr hobj), if_neg ht.1, if_pos (Int.not_le.mp ht.2)]
  · rw [if_pos hobj]

theorem blockLen_amount (len : Word) (h : off ≤ nfpRtsymSize sym) :
    blockLen sym off len = min len.toNat ((nfpRtsymSize sym).toNat - off.toNat) := by
  rw [blockLen, toNat_sub_of_le h]

theorem readAbs_length (len : Word) (habs : sym.type = .abs) (h : off ≤ nfpRtsymSize sym) :
    (((le64 sym.addr).drop off.toNat).take (blockLen sym off len)).length =
      min len.toNat ((nfpRtsymSize sym).toNat - off.toNat) := by
  have hsize : nfpRtsymSize sym = 8 := by rw [nfpRtsymSize, habs]
  rw [blockLen_amount len h, List.length_take, List.length_drop, hsize]
  change min _ (8 - off.toNat) = _
  rw [show (8 : Word).toNat = 8 from rfl]
  omega

inductive Served (addr40 : Bool) (sym : Rtsym) (off : Word) (acc : Accessor) (out : Outcome) : Prop
  | failed (err : Int) (herr : err < 0) (hout : out = .error err) (hno : ¬Issued sym off acc)
  | local (bytes : List (BitVec 8)) (hlen : bytes.length = acc.amount sym off) (hout : out = .value bytes)
    (hno : ¬Issued sym off acc)
  | issued (id : BitVec 32) (hout : out = .device id (destAddr addr40 sym off) (acc.amount sym off))
    (his : Issued sym off acc)

theorem served_transfer (acc : Accessor) (hp : acc.Passes sym off) :
    Served addr40 sym off acc (transfer (acc.amount sym off) (nfpRtsymToDest addr40 sym action token off)) := by
  by_cases h : sym.type = .object ∧ (sym.target = rtsymTargetEmuCache ∨ 0 ≤ sym.target.toInt)
  · obtain ⟨id, hid⟩ := toDest_object addr40 action token off h.1 h.2
    exact .issued id (by rw [hid, transfer]) ⟨h.1, h.2, hp⟩
  · exact .failed (-einval) (by decide) (by rw [toDest_error h, transfer]) fun his => h ⟨his.1, his.2.1⟩

theorem served_rejected (hp : ¬acc.Passes sym off) : Served addr40 sym off acc (.error (-enxio)) :=
  .failed (-enxio) (by decide) rfl fun his => hp his.2.2

theorem served_abs {bytes : List (BitVec 8)} (habs : sym.type = .abs) (hlen : bytes.length = acc.amount sym off) :
    Served addr40 sym off acc (.value bytes) :=
  .local bytes hlen rfl fun his => nomatch habs.symm.trans his.1

theorem served_word {width : Nat} (hw : acc.width = some width) (hn : acc.amount sym off = width) :
    Served addr40 sym off acc (rtsymWord addr40 sym action token off width) := by
  have hp : acc.Passes sym off ↔ ¬off + BitVec.ofNat 64 width > nfpRtsymSize sym := by
    rw [Accessor.Passes, hw]
    exact BitVec.not_lt.symm
  rw [rtsymWord]
  split_ifs with h
  · exact served_rejected fun h' => hp.mp h' h
  · exact hn ▸ served_transfer acc (hp.mpr h)

theorem served_call (addr40 : Bool) (sym : Rtsym) (action token : BitVec 8) (off : Word) (acc : Accessor) :
    Served addr40 sym off acc (acc.call addr40 sym action token off) := by
  cases acc with
  | readl | writel | writeq => exact served_word rfl rfl
  | readq =>
    rw [Accessor.call, nfpRtsymReadq]
    split_ifs with h habs
    · exact served_rejected (BitVec.not_le.mpr h)
    · exact served_abs habs rfl
    · exact served_transfer .readq (BitVec.not_lt.mp h)
  | read len =>
    rw [Accessor.call, nfpRtsymRead]
    split_ifs with h habs
    · exact served_rejected (BitVec.not_le.mpr h)
    · exact served_abs habs (readAbs_length len habs (BitVec.not_lt.mp h))
    · rw [blockLen_amount len (BitVec.not_lt.mp h)]
      exact served_transfer (.read len) (BitVec.not_lt.mp h)
  | write len =>
    rw [Accessor.call, nfpRtsymWrite]
    split_ifs with h
    · exact served_rejected (BitVec.not_le.mpr h)
    · rw [blockLen_amount len (BitVec.not_lt.mp h)]
      exact served_transfer (.write len) (BitVec.not_lt.mp h)

end Call

section Inside

variable {addr40 : Bool} {sym : Rtsym} {off : Word}

theorem symbolAddr_off (i : Nat) :
    symbolAddr addr40 sym (off.toNat + i) =
      if sym.target = rtsymTargetEmuCache then directAddr addr40 (sym.addr + off + BitVec.ofNat 64 i)
      else sym.addr + off + BitVec.ofNat 64 i := by
  have h : sym.addr + BitVec.ofNat 64 (off.toNat + i) = sym.addr + off + BitVec.ofNat 64 i := by
    rw [ofNat_add, ofNat_toNat, setWidth_eq, BitVec.add_assoc]
  rw [symbolAddr, h]

theorem dest_inside_iff {n : Nat} (hn : off.toNat + n ≤ (nfpRtsymSize sym).toNat) :
    (∀ i < n, off.toNat + i < (nfpRtsymSize sym).toNat ∧
      destAddr addr40 sym off + BitVec.ofNat 64 i = symbolAddr addr40 sym (off.toNat + i)) ↔
      (sym.target = rtsymTargetEmuCache → NoCross addr40 sym off n) := by
  constructor
  · intro h hemu
    by_contra hcross
    rw [NoCross, not_le] at hcross
    have hi := (h (2 ^ nfpCppatMuLocalityLsb addr40 - (sym.addr + off).toNat % 2 ^ nfpCppatMuLocalityLsb addr40)
      (by omega)).2
    rw [symbolAddr_off, destAddr, if_pos hemu, if_pos hemu] at hi
    exact directAddr_cross (by omega) hi
  · intro h i hi
    refine ⟨by omega, ?_⟩
    rw [symbolAddr_off, destAddr]
    split_ifs with hemu
    · have := h hemu
      rw [NoCross] at this
      exact directAddr_add (by omega)
    · rfl

theorem amount_inside (hp : acc.Passes sym off) (hw : NoWrap off acc) :
    off.toNat + acc.amount sym off ≤ (nfpRtsymSize sym).toNat := by
  have hword (width : Nat) (hwidth : acc.width = some width) (h : off + BitVec.ofNat 64 width ≤ nfpRtsymSize sym) :
      off.toNat + width ≤ (nfpRtsymSize sym).toNat := by
    have h := le_def.mp h
    rwa [toNat_add_lt (hw width hwidth)] at h
  cases acc with
  | read len | write len =>
    have h : off.toNat ≤ (nfpRtsymSize sym).toNat := le_def.mp hp
    rw [Accessor.amount]
    omega
  | readl | writel => exact hword 4 rfl hp
  | readq | writeq => exact hword 8 rfl hp

theorem noWrap_of_inside (h : ∀ i < acc.amount sym off, off.toNat + i < (nfpRtsymSize sym).toNat) : NoWrap off acc := by
  intro width hw
  cases acc with
  | read len | write len => cases hw
  | readl | writel =>
    cases hw
    have := h 3 (show 3 < 4 by decide)
    omega
  | readq | writeq =>
    cases hw
    have := h 7 (show 7 < 8 by decide)
    omega

end Inside

theorem rtsym_confined_iff (addr40 : Bool) (sym : Rtsym) (action token : BitVec 8) (off : Word) (acc : Accessor) :
    Confined addr40 sym off (acc.amount sym off) (acc.call addr40 sym action token off) ↔
      (Issued sym off acc →
        NoWrap off acc ∧ (sym.target = rtsymTargetEmuCache → NoCross addr40 sym off (acc.amount sym off))) := by
  rcases served_call addr40 sym action token off acc with
    ⟨err, herr, hout, hno⟩ | ⟨bytes, hlen, hout, hno⟩ | ⟨id, hout, his⟩
  · rw [hout]
    exact iff_of_true herr fun h => absurd h hno
  · rw [hout]
    exact iff_of_true hlen fun h => absurd h hno
  · rw [hout]
    constructor
    · rintro ⟨-, hin⟩ -
      have hw := noWrap_of_inside fun i hi => (hin i hi).1
      exact ⟨hw, (dest_inside_iff (amount_inside his.2.2 hw)).mp hin⟩
    · intro h
      obtain ⟨hw, hcross⟩ := h his
      exact ⟨rfl, (dest_inside_iff (amount_inside his.2.2 hw)).mpr hcross⟩

def ctmSymbol : Rtsym := ⟨.object, 0x1000, 16, 7, 32⟩

theorem readl_below_symbol : ¬Confined false ctmSymbol (-4) 4 (nfpRtsymReadl false ctmSymbol 32 0 (-4)) := by
  rintro ⟨-, h⟩
  exact absurd (h 0 (by decide)).1 (by decide)

end NfpDriver.Cpp
