import Mathlib.Data.Nat.Bitwise
import Mathlib.Data.List.Basic
import Mathlib.Logic.Function.Basic

namespace Circ

open List Nat

variable {α : Type}

structure Buf (α : Type) where
  head : Nat
  tail : Nat
  buf : Nat → α

@[irreducible] def circCnt (head tail size : Nat) : Nat := (head + 2 ^ 32 - tail) % 2 ^ 32 &&& (size - 1)

def circSpace (head tail size : Nat) : Nat := circCnt tail (head + 1) size

def Buf.push (size : Nat) (b : Buf α) (x : α) : Buf α :=
  { b with buf := Function.update b.buf b.head x, head := (b.head + 1) &&& (size - 1) }

def Buf.pop (size : Nat) (b : Buf α) (freed : α) : α × Buf α :=
  (b.buf b.tail, { b with buf := Function.update b.buf b.tail freed, tail := (b.tail + 1) &&& (size - 1) })

def window (size tail : Nat) (buf : Nat → α) (n : Nat) : List α :=
  (List.range n).map fun i => buf ((tail + i) % size)

def Buf.contents (size : Nat) (b : Buf α) : List α := window size b.tail b.buf (circCnt b.head b.tail size)

structure Buf.WF (size : Nat) (b : Buf α) : Prop where
  pow : ∃ k ≤ 32, size = 2 ^ k
  head : b.head < size
  tail : b.tail < size

theorem and_pred_eq_mod {size : Nat} (h : ∃ k ≤ 32, size = 2 ^ k) (x : Nat) : x &&& (size - 1) = x % size := by
  obtain ⟨k, -, rfl⟩ := h
  exact and_two_pow_sub_one_eq_mod x k

theorem add_mod_eq {size x i : Nat} (hx : x < size) (hi : i ≤ size) :
    (x + i) % size = if x + i < size then x + i else x + i - size := by
  split
  · next h => exact mod_eq_of_lt h
  · rw [mod_eq_sub_mod (by omega), mod_eq_of_lt (by omega)]

theorem circCnt_eq {size head tail : Nat} (h : ∃ k ≤ 32, size = 2 ^ k) (hh : head < size) (ht : tail ≤ size) :
    circCnt head tail size = (head + size - tail) % size := by
  rw [circCnt, and_pred_eq_mod h]
  obtain ⟨k, hk, rfl⟩ := h
  have hpow : 2 ^ 32 = 2 ^ k * 2 ^ (32 - k) := by rw [← Nat.pow_add, Nat.add_sub_cancel' hk]
  obtain ⟨m, hm⟩ := exists_eq_succ_of_ne_zero (Nat.two_pow_pos (32 - k)).ne'
  rw [mod_mod_of_dvd _ ⟨_, hpow⟩, hpow, hm, mul_succ,
    show head + (2 ^ k * m + 2 ^ k) - tail = head + 2 ^ k - tail + 2 ^ k * m by omega, add_mul_mod_self_left]

theorem Buf.length_contents (size : Nat) (b : Buf α) : (b.contents size).length = circCnt b.head b.tail size := by
  rw [Buf.contents, window, length_map, length_range]

section WF

variable {size : Nat} {b : Buf α} (h : b.WF size)

include h

theorem Buf.WF.size_pos : 0 < size := lt_of_le_of_lt (Nat.zero_le _) h.head

theorem Buf.WF.cnt_eq : circCnt b.head b.tail size = if b.tail ≤ b.head then b.head - b.tail
    else b.head + size - b.tail := by
  have h1 := h.head
  have h2 := h.tail
  rw [circCnt_eq h.pow h1 (le_of_lt h2)]
  split
  · rw [show b.head + size - b.tail = b.head - b.tail + size by omega, add_mod_right, mod_eq_of_lt (by omega)]
  · rw [mod_eq_of_lt (by omega)]

theorem Buf.WF.length_lt : (b.contents size).length < size := by
  have h1 := h.head
  rw [Buf.length_contents, h.cnt_eq]
  split <;> omega

theorem Buf.WF.space_eq : circSpace b.head b.tail size = size - 1 - (b.contents size).length := by
  have h1 := h.head
  have h2 := h.tail
  rw [circSpace, circCnt_eq h.pow h2 (by omega), Buf.length_contents, h.cnt_eq]
  split
  · rw [mod_eq_of_lt (by omega)]
    omega
  · rw [show b.tail + size - (b.head + 1) = b.tail - (b.head + 1) + size by omega, add_mod_right,
      mod_eq_of_lt (by omega)]
    omega

variable (freed x : α)

theorem Buf.WF.push : (b.push size x).WF size where
  pow := h.pow
  head := by
    rw [Buf.push, and_pred_eq_mod h.pow]
    exact mod_lt _ h.size_pos
  tail := h.tail

theorem Buf.WF.pop : (b.pop size freed).2.WF size where
  pow := h.pow
  head := h.head
  tail := by
    rw [Buf.pop, and_pred_eq_mod h.pow]
    exact mod_lt _ h.size_pos

theorem Buf.WF.slot_cnt : (b.tail + circCnt b.head b.tail size) % size = b.head := by
  have h1 := h.head
  have h2 := h.tail
  have hcnt := h.cnt_eq
  have hlt := h.length_lt
  rw [Buf.length_contents] at hlt
  rw [add_mod_eq h2 (le_of_lt hlt)]
  split at hcnt <;> split <;> omega

theorem Buf.WF.slot_ne_head {i : Nat} (hi : i < circCnt b.head b.tail size) : (b.tail + i) % size ≠ b.head := by
  have h2 := h.tail
  have hcnt := h.cnt_eq
  have hlt := h.length_lt
  rw [Buf.length_contents] at hlt
  rw [add_mod_eq h2 (by omega)]
  split at hcnt <;> split <;> omega

theorem Buf.WF.cnt_push (hs : circSpace b.head b.tail size ≠ 0) :
    circCnt (b.push size x).head (b.push size x).tail size = circCnt b.head b.tail size + 1 := by
  have h1 := h.head
  have h2 := h.tail
  have hpos := h.size_pos
  rw [h.space_eq, Buf.length_contents] at hs
  have hcnt := h.cnt_eq
  have hcnt' := (h.push x).cnt_eq
  have hhead : (b.push size x).head = if b.head + 1 < size then b.head + 1 else b.head + 1 - size := by
    rw [← add_mod_eq h1 hpos]
    exact and_pred_eq_mod h.pow _
  have htail : (b.push size x).tail = b.tail := rfl
  rw [hcnt', hhead, htail]
  split at hcnt <;> split <;> split <;> omega

theorem Buf.WF.contents_push (hs : circSpace b.head b.tail size ≠ 0) :
    (b.push size x).contents size = b.contents size ++ [x] := by
  rw [Buf.contents, h.cnt_push x hs, Buf.contents, window, window, range_succ, map_append]
  congr 1
  · refine map_congr_left fun i hi => ?_
    exact Function.update_of_ne (h.slot_ne_head (mem_range.mp hi)) _ _
  · rw [map_singleton, Buf.push, h.slot_cnt]
    exact congrArg List.singleton (Function.update_self b.head x b.buf)

theorem Buf.WF.cnt_pop (hne : b.head ≠ b.tail) :
    circCnt b.head b.tail size = circCnt (b.pop size freed).2.head (b.pop size freed).2.tail size + 1 := by
  have h1 := h.head
  have h2 := h.tail
  have hpos := h.size_pos
  have hcnt := h.cnt_eq
  have hcnt' := (h.pop freed).cnt_eq
  have htail : (b.pop size freed).2.tail = if b.tail + 1 < size then b.tail + 1 else b.tail + 1 - size := by
    rw [← add_mod_eq h2 hpos]
    exact and_pred_eq_mod h.pow _
  have hhead : (b.pop size freed).2.head = b.head := rfl
  rw [hcnt', htail, hhead]
  split at hcnt <;> split <;> split <;> omega

theorem Buf.WF.contents_pop (hne : b.head ≠ b.tail) :
    b.contents size = (b.pop size freed).1 :: (b.pop size freed).2.contents size := by
  have h2 := h.tail
  have hlt := h.length_lt
  rw [Buf.length_contents, h.cnt_pop freed hne] at hlt
  rw [Buf.contents, h.cnt_pop freed hne, window, range_succ_eq_map, map_cons, add_zero, mod_eq_of_lt h2, map_map]
  congr 1
  refine map_congr_left fun i hi => ?_
  have hi := mem_range.mp hi
  have hslot : ((b.pop size freed).2.tail + i) % size = (b.tail + (i + 1)) % size := by
    rw [Buf.pop, and_pred_eq_mod h.pow, mod_add_mod, add_assoc, add_comm 1 i]
  rw [hslot, Function.comp_apply, succ_eq_add_one]
  refine (Function.update_of_ne ?_ _ _).symm
  rw [add_mod_eq h2 (by omega)]
  split <;> omega

theorem Buf.WF.contents_eq_nil (heq : b.head = b.tail) : b.contents size = [] := by
  rw [← length_eq_zero_iff, Buf.length_contents, h.cnt_eq, if_pos heq.ge, heq, Nat.sub_self]

end WF

end Circ
