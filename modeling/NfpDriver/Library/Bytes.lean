import Mathlib.Data.BitVec
import Mathlib.Tactic.Common

namespace Octets

abbrev Bytes : Type := List (BitVec 8)

def byteAt (bs : Bytes) (i : Nat) : BitVec 8 := bs.getD i 0

def readBe32 (bs : Bytes) (off : Nat) : BitVec 32 :=
  byteAt bs off ++ byteAt bs (off + 1) ++ byteAt bs (off + 2) ++ byteAt bs (off + 3)

def readLe32 (bs : Bytes) (off : Nat) : BitVec 32 :=
  byteAt bs (off + 3) ++ byteAt bs (off + 2) ++ byteAt bs (off + 1) ++ byteAt bs off

structure Region where
  off : Nat
  size : Nat
  deriving DecidableEq, Repr

def Region.Inside (r : Region) (len : Nat) : Prop := ∀ j < r.size, r.off + j < len

theorem Region.inside_iff {r : Region} {len : Nat} : r.Inside len ↔ r.size = 0 ∨ r.off + r.size ≤ len := by
  constructor
  · intro h
    rcases Nat.eq_zero_or_pos r.size with hz | hpos
    · exact .inl hz
    · have hlast := h (r.size - 1) (Nat.sub_lt hpos Nat.one_pos)
      exact .inr (by omega)
  · rintro (hz | hle) j hj
    · omega
    · omega

theorem inside_mk {off size len : Nat} : (Region.mk off size).Inside len ↔ size = 0 ∨ off + size ≤ len :=
  Region.inside_iff

theorem byteAt_append {bs cs : Bytes} {i : Nat} (h : i < bs.length) : byteAt (bs ++ cs) i = byteAt bs i := by
  rw [byteAt, byteAt, List.getD_eq_getElem?_getD, List.getD_eq_getElem?_getD, List.getElem?_append_left h]

theorem readBe32_append {bs cs : Bytes} {off : Nat} (h : off + 4 ≤ bs.length) :
    readBe32 (bs ++ cs) off = readBe32 bs off := by
  rw [readBe32, readBe32, byteAt_append (by omega), byteAt_append (by omega), byteAt_append (by omega),
    byteAt_append (by omega)]

end Octets
