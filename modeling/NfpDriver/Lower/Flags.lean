import NfpDriver.Machine.Wrap
import NfpDriver.Bpf.Semantics

namespace NfpDriver.Lower

open Asm Adder Jit Bpf Machine

def pairA (st : State) (r : BitVec 16) : BitVec 64 := st.a (r + 1) ++ st.a r

def pairB (st : State) (r : BitVec 16) : BitVec 64 := st.b (r + 1) ++ st.b r

variable (h s : BitVec 32) (v x : BitVec 64) (l : BitVec 32) (y : BitVec 64)

theorem lo_append : lo (h ++ l) = l := by
  apply BitVec.eq_of_toNat_eq
  rw [lo_toNat, BitVec.toNat_append, ← Nat.shiftLeft_add_eq_or_of_lt l.isLt, Nat.shiftLeft_eq]
  omega

theorem hi_append : hi (h ++ l) = h := by
  apply BitVec.eq_of_toNat_eq
  rw [hi_toNat, BitVec.toNat_append, ← Nat.shiftLeft_add_eq_or_of_lt l.isLt, Nat.shiftLeft_eq]
  omega

@[simp] theorem lo_pairA (st : State) (r : BitVec 16) : lo (pairA st r) = st.a r := lo_append _ _
@[simp] theorem hi_pairA (st : State) (r : BitVec 16) : hi (pairA st r) = st.a (r + 1) := hi_append _ _
@[simp] theorem lo_pairB (st : State) (r : BitVec 16) : lo (pairB st r) = st.b r := lo_append _ _
@[simp] theorem hi_pairB (st : State) (r : BitVec 16) : hi (pairB st r) = st.b (r + 1) := hi_append _ _

@[simp] theorem hi_zext : hi (s.setWidth 64) = 0 := by
  apply BitVec.eq_of_toNat_eq
  rw [hi_toNat, BitVec.toNat_setWidth, show BitVec.toNat (0 : BitVec 32) = 0 from rfl]
  omega

@[simp] theorem lo_zext : lo (s.setWidth 64) = s := by
  apply BitVec.eq_of_toNat_eq
  rw [lo_toNat, BitVec.toNat_setWidth]
  omega

theorem lo_not : lo (~~~v) = ~~~lo v := by
  ext i hi
  simp only [lo, BitVec.getElem_extractLsb', BitVec.getLsbD_not, BitVec.getElem_not]
  simp [show i < 64 by omega]

theorem hi_not : hi (~~~v) = ~~~hi v := by
  ext i hi
  simp only [Adder.hi, BitVec.getElem_extractLsb', BitVec.getLsbD_not, BitVec.getElem_not]
  simp [show 32 + i < 64 by omega]

theorem lo_and : lo (x &&& y) = lo x &&& lo y := BitVec.extractLsb'_and

theorem hi_and : hi (x &&& y) = hi x &&& hi y := BitVec.extractLsb'_and

theorem lo_or : lo (x ||| y) = lo x ||| lo y := BitVec.extractLsb'_or

theorem hi_or : hi (x ||| y) = hi x ||| hi y := BitVec.extractLsb'_or

theorem lo_xor : lo (x ^^^ y) = lo x ^^^ lo y := BitVec.extractLsb'_xor

theorem hi_xor : hi (x ^^^ y) = hi x ^^^ hi y := BitVec.extractLsb'_xor

def cmpTest (mask : BrMask) {w : Nat} (x y : BitVec w) : Bool :=
  match mask with
  | .blo => x.ult y
  | .bhs => !x.ult y
  | .blt => x.slt y
  | .bge => !x.slt y
  | _ => false

abbrev cmpMasks : List BrMask := [.blo, .bhs, .blt, .bge]

variable {mask : BrMask} {st : State}

theorem test_of_flags {w : Nat} {x y : BitVec w} (hc : st.c = !x.ult y) (hnv : (st.n != st.v) = x.slt y)
    (hm : mask ∈ cmpMasks) : st.test mask = cmpTest mask x y := by
  have heq : (st.n == st.v) = !x.slt y := by
    rw [← hnv, bne, Bool.not_not]
  simp only [List.mem_cons, List.not_mem_nil, or_false] at hm
  rcases hm with rfl | rfl | rfl | rfl <;> simp only [State.test, cmpTest, hc, hnv, heq, Bool.not_not]

theorem test_sub (st : State) (x y : BitVec 32) (hm : mask ∈ cmpMasks) :
    (st.aluTo regNone .sub x y).test mask = cmpTest mask x y :=
  test_of_flags (sub_carry x y) (sub_less (by decide) x y) hm

theorem test_subC {x y : BitVec 64} (hc : st.c = (adc (lo x) (~~~lo y) true).carry) (hm : mask ∈ cmpMasks) :
    (st.aluTo regNone .subC (hi x) (hi y)).test mask = cmpTest mask x y := by
  have hsum := (adc_halves_sum x (~~~y) true).2
  have hcar := adc_halves_carry x (~~~y) true
  have hov := adc_halves_overflow x (~~~y) true
  rw [hi_not, lo_not] at hsum hcar hov
  apply test_of_flags _ _ hm
  · rw [← sub_carry, ← hcar, ← hc]
    rfl
  · rw [← sub_less (by decide) x y, ← hi_msb, hsum, ← hov, ← hc]
    rfl

end NfpDriver.Lower
