import Mathlib.Tactic.Common

namespace CString

abbrev Byte := BitVec 8

structure Buffer where
  len : Nat
  byte : Nat → Byte

-- `none` is a read outside the buffer
def cstr (b : Buffer) (p : Nat) : Option (List Byte) :=
  if p < b.len then
    if b.byte p = 0 then some [] else (cstr b (p + 1)).map (b.byte p :: ·)
  else none
termination_by b.len - p

structure Pair where
  key : List Byte
  value : List Byte
  valueAt : Nat

inductive Pairs (b : Buffer) : Nat → List Pair → Nat → Prop
  | nil (p : Nat) : Pairs b p [] p
  | cons {p e : Nat} {key value : List Byte} {ps : List Pair} (hk : cstr b p = some key) (hne : key ≠ [])
    (hv : cstr b (p + key.length + 1) = some value) (hps : Pairs b (p + key.length + 1 + value.length + 1) ps e) :
    Pairs b p (⟨key, value, p + key.length + 1⟩ :: ps) e

variable {b : Buffer} {p e : Nat} {s : List Byte} {ps : List Pair}

theorem cstr_bound (h : cstr b p = some s) : p + s.length < b.len := by
  induction s generalizing p with
  | nil =>
    rw [cstr] at h
    split at h
    · assumption
    · cases h
  | cons c s ih =>
    rw [cstr] at h
    split at h
    · split at h
      · cases h
      obtain ⟨s', hs', heq⟩ := Option.map_eq_some_iff.mp h
      cases heq
      have := ih hs'
      rw [List.length_cons]
      omega
    · cases h

theorem cstr_zero (hp : p < b.len) (h0 : b.byte p = 0) : cstr b p = some [] := by
  rw [cstr, if_pos hp, if_pos h0]

theorem cstr_ne_nil (hp : p < b.len) (h0 : b.byte p ≠ 0) : cstr b p ≠ some [] := by
  rw [cstr, if_pos hp, if_neg h0]
  intro h
  obtain ⟨s, -, hs⟩ := Option.map_eq_some_iff.mp h
  cases hs

theorem Pairs.le (h : Pairs b p ps e) : p ≤ e := by
  induction h with
  | nil => exact Nat.le_refl _
  | cons _ _ _ _ ih => omega

end CString
