import NfpDriver.Library.Fields

namespace NfpDriver.Cpp

open Fields

inductive Errno where
  | einval
  | enodev
  deriving DecidableEq, Repr

abbrev CInt := BitVec 32

abbrev targetNbi : CInt := 1
abbrev targetQdr : CInt := 2
abbrev targetIla : CInt := 6
abbrev targetMu : CInt := 7
abbrev targetPcie : CInt := 9
abbrev targetArm : CInt := 10
abbrev targetCrypto : CInt := 12
abbrev targetCtXpb : CInt := 14
abbrev targetCls : CInt := 15

def nfpDecodeBasic (addr : Word) (cppTgt : CInt) (mode : Nat) (addr40 : Bool) (isld1 isld0 : CInt) :
    Except Errno CInt :=
  if cppTgt = targetMu ∨ cppTgt = targetCtXpb then .error .einval
  else
    match mode with
    | 0 =>
      let iidLsb := if addr40 then 34 else 26
      .ok ((addr >>> iidLsb &&& 0x3f).setWidth 32)
    | 1 =>
      let idxLsb := if addr40 then 39 else 31
      .ok (if addr &&& bitUll idxLsb ≠ 0 then isld1 else isld0)
    | 2 =>
      let isld0 := isld0 &&& ~~~1
      let isld1 := isld1 &&& ~~~1
      let idxLsb := if addr40 then 39 else 31
      let iidLsb := idxLsb - 1
      .ok (if addr &&& bitUll idxLsb ≠ 0 then isld1 ||| (addr >>> iidLsb &&& 1).setWidth 32
        else isld0 ||| (addr >>> iidLsb &&& 1).setWidth 32)
    | 3 =>
      let isld0 := isld0 &&& ~~~3
      let isld1 := isld1 &&& ~~~3
      let idxLsb := if addr40 then 39 else 31
      let iidLsb := idxLsb - 2
      .ok (if addr &&& bitUll idxLsb ≠ 0 then isld1 ||| (addr >>> iidLsb &&& 3).setWidth 32
        else isld0 ||| (addr >>> iidLsb &&& 3).setWidth 32)
    | _ => .error .einval

def nfpEncodeBasicQdr (addr : Word) (destIsland cppTgt : CInt) (mode : Nat) (addr40 : Bool) (isld1 isld0 : CInt) :
    Except Errno Word :=
  match nfpDecodeBasic addr cppTgt mode addr40 isld1 isld0 with
  | .error err => .error err
  | .ok v => if destIsland ≠ -1 ∧ destIsland ≠ v then .error .einval else .ok addr

def searchOrder (vMax : Nat) : List (Nat × Nat) :=
  (List.range 2).flatMap fun i => (List.range vMax).map fun v => (i, v)

def nfpEncodeBasicSearch (addr : Word) (destIsland isld0 isld1 : CInt) (iidLsb idxLsb vMax : Nat) :
    Except Errno Word :=
  match (searchOrder vMax).find? fun p =>
      destIsland = (if p.1 = 0 then isld0 else isld1) ||| BitVec.ofNat 32 p.2 with
  | none => .error .enodev
  | some (i, v) =>
    .ok (addr &&& ~~~genmaskUll idxLsb iidLsb ||| BitVec.ofNat 64 i <<< idxLsb ||| BitVec.ofNat 64 v <<< iidLsb)

def setIsland (addr : Word) (destIsland : CInt) (iidLsb : Nat) : Word :=
  let v64 := genmaskUll (iidLsb + 5) iidLsb
  addr &&& ~~~v64 ||| (destIsland.signExtend 64 <<< iidLsb &&& v64)

def selectIsland (addr : Word) (destIsland isld1 isld0 : CInt) (idxLsb : Nat) : Except Errno Word :=
  if destIsland = isld0 then .ok (addr &&& ~~~bitUll idxLsb)
  else if destIsland = isld1 then .ok (addr ||| bitUll idxLsb)
  else .error .enodev

def nfpEncodeBasic (addr : Word) (destIsland cppTgt : CInt) (mode : Nat) (addr40 : Bool) (isld1 isld0 : CInt) :
    Except Errno Word :=
  if cppTgt = targetMu ∨ cppTgt = targetCtXpb then .error .einval
  else
    match mode with
    | 0 =>
      if cppTgt = targetQdr ∧ !addr40 then nfpEncodeBasicQdr addr cppTgt destIsland mode addr40 isld1 isld0
      else .ok (setIsland addr destIsland (if addr40 then 34 else 26))
    | 1 =>
      if cppTgt = targetQdr ∧ !addr40 then nfpEncodeBasicQdr addr cppTgt destIsland mode addr40 isld1 isld0
      else selectIsland addr destIsland isld1 isld0 (if addr40 then 39 else 31)
    | 2 =>
      if cppTgt = targetQdr ∧ !addr40 then nfpEncodeBasicQdr addr cppTgt destIsland mode addr40 isld1 isld0
      else
        let idxLsb := if addr40 then 39 else 31
        nfpEncodeBasicSearch addr destIsland (isld0 &&& ~~~1) (isld1 &&& ~~~1) (idxLsb - 1) idxLsb 2
    | 3 =>
      if cppTgt = targetQdr ∧ !addr40 then nfpEncodeBasicQdr addr cppTgt destIsland mode addr40 isld1 isld0
      else
        let idxLsb := if addr40 then 39 else 31
        nfpEncodeBasicSearch addr destIsland (isld0 &&& ~~~3) (isld1 &&& ~~~3) (idxLsb - 2) idxLsb 4
    | _ => .error .einval

abbrev muLocalityDirect : Word := 2

def nfpCppatMuLocalityLsb (addr40 : Bool) : Nat := if addr40 then 38 else 30

def nfpEncodeMu (addr : Word) (destIsland : CInt) (mode : Nat) (addr40 : Bool) (isld1 isld0 : CInt) :
    Except Errno Word :=
  let localityLsb := nfpCppatMuLocalityLsb addr40
  let da := addr >>> localityLsb &&& 3 = muLocalityDirect
  let direct (addr : Word) : Except Errno Word := .ok (setIsland addr destIsland (if addr40 then 32 else 24))
  let idxLsb := if addr40 then 37 else 29
  match mode with
  | 0 => direct addr
  | 1 => if da then direct addr else selectIsland addr destIsland isld1 isld0 idxLsb
  | 2 =>
    if da then direct addr
    else nfpEncodeBasicSearch addr destIsland (isld0 &&& ~~~1) (isld1 &&& ~~~1) (idxLsb - 1) idxLsb 2
  | 3 =>
    if destIsland.toInt > 0 ∧ (destIsland.toInt < 24 ∨ destIsland.toInt > 26) then
      direct (addr ||| muLocalityDirect <<< localityLsb)
    else if da then direct addr
    else nfpEncodeBasicSearch addr destIsland (isld0 &&& ~~~3) (isld1 &&& ~~~3) (idxLsb - 2) idxLsb 4
  | _ => .error .einval

def Basic (cppTgt : CInt) : Prop :=
  cppTgt = targetNbi ∨ cppTgt = targetQdr ∨ cppTgt = targetIla ∨ cppTgt = targetPcie ∨ cppTgt = targetArm ∨
    cppTgt = targetCrypto ∨ cppTgt = targetCls

instance (cppTgt : CInt) : Decidable (Basic cppTgt) :=
  inferInstanceAs (Decidable (_ ∨ _ ∨ _ ∨ _ ∨ _ ∨ _ ∨ _))

def nfpCppatAddrEncode (addr : Word) (destIsland cppTgt : CInt) (mode : Nat) (addr40 : Bool) (isld1 isld0 : CInt) :
    Except Errno Word :=
  if Basic cppTgt then nfpEncodeBasic addr destIsland cppTgt mode addr40 isld1 isld0
  else if cppTgt = targetMu then nfpEncodeMu addr destIsland mode addr40 isld1 isld0
  else if cppTgt = targetCtXpb then
    if mode ≠ 1 ∨ addr40 then .error .einval else .ok (setIsland addr destIsland 24)
  else .error .einval

def nfpCppId (target action token : BitVec 32) : BitVec 32 :=
  (target &&& 0x7f) <<< 24 ||| (token &&& 0xff) <<< 16 ||| (action &&& 0xff) <<< 8

def nfpTargetCpp (cppIslandId : BitVec 32) (cppIslandAddress : Word) (imbTable : Option (Nat → BitVec 32)) :
    Except Errno (BitVec 32 × Word) :=
  let island := cppIslandId &&& 0xff
  let target := cppIslandId >>> 24 &&& 0x1f
  if target.toNat ≥ 16 then .error .einval
  else if island = 0 then .ok (cppIslandId, cppIslandAddress)
  else
    match imbTable with
    | none => .error .einval
    | some table =>
      let imb := table target.toNat
      match nfpCppatAddrEncode cppIslandAddress island target (imb >>> 13 &&& 7).toNat
          (imb >>> 12 &&& 1 = 1) (imb >>> 6 &&& 0x3f) (imb &&& 0x3f) with
      | .error err => .error err
      | .ok addr => .ok (nfpCppId target (cppIslandId >>> 8 &&& 0xff) (cppIslandId >>> 16 &&& 0xff), addr)

end NfpDriver.Cpp
