import Mathlib.Algebra.BigOperators.Group.List.Basic
import Mathlib.Algebra.Ring.Nat

namespace Records

variable {α : Type}

abbrev Memory (α : Type) : Type := Nat → Option (α × Nat)

def write (m : Memory α) (off n : Nat) (a : α) : Memory α := fun x =>
  if off ≤ x ∧ x < off + n then some (a, x - off) else m x

def move (m : Memory α) (n len : Nat) : Memory α := fun x =>
  if n ≤ x ∧ x < n + len then m (x - n) else m x

variable {a : α} {i n off x : Nat} {as : List α}

theorem write_at {m : Memory α} (h : i < n) : write m off n a (off + i) = some (a, i) := by
  rw [write, if_pos ⟨Nat.le_add_right off i, Nat.add_lt_add_left h off⟩, Nat.add_sub_cancel_left]

theorem write_below {m : Memory α} (h : x < off) : write m off n a x = m x :=
  if_neg fun hx => absurd hx.1 (Nat.not_le_of_lt h)

theorem write_above {m : Memory α} (h : off + n ≤ x) : write m off n a x = m x :=
  if_neg fun hx => absurd hx.2 (Nat.not_lt_of_le h)

theorem move_at {m : Memory α} {len : Nat} (h : x < len) : move m n len (n + x) = m x := by
  rw [move, if_pos ⟨Nat.le_add_right n x, Nat.add_lt_add_left h n⟩, Nat.add_sub_cancel_left]

section

variable (size : α → Nat)

def total (as : List α) : Nat := (as.map size).sum

def Holds (m : Memory α) : Nat → List α → Prop
  | _, [] => True
  | off, a :: as => (∀ i < size a, m (off + i) = some (a, i)) ∧ Holds m (off + size a) as

def Torn (m : Memory α) (n : Nat) : Prop :=
  ∃ x a i b j, x + 1 < n ∧ m x = some (a, i) ∧ m (x + 1) = some (b, j + 1) ∧ a ≠ b

end

variable {size : α → Nat} {m m' : Memory α}

@[simp] theorem total_nil : total size [] = 0 := rfl

@[simp] theorem total_cons (a : α) (as : List α) : total size (a :: as) = size a + total size as := by
  rfl

@[simp] theorem total_append (as bs : List α) : total size (as ++ bs) = total size as + total size bs := by
  rw [total, List.map_append, List.sum_append]
  rfl

theorem holds_append {bs : List α} :
    Holds size m off (as ++ bs) ↔ Holds size m off as ∧ Holds size m (off + total size as) bs := by
  induction as generalizing off with
  | nil => simp only [List.nil_append, total_nil, add_zero, Holds, true_and]
  | cons a as ih => rw [List.cons_append, Holds, Holds, ih, total_cons, add_assoc, and_assoc]

theorem Holds.shift {off' : Nat} (h : Holds size m off as) (hm : ∀ x < total size as, m' (off' + x) = m (off + x)) :
    Holds size m' off' as := by
  induction as generalizing off off' with
  | nil => trivial
  | cons a as ih =>
    refine ⟨fun i hi => ?_, ih h.2 fun x hx => ?_⟩
    · rw [hm i (Nat.lt_add_right _ hi)]
      exact h.1 i hi
    · rw [add_assoc, add_assoc]
      exact hm (size a + x) (Nat.add_lt_add_left hx _)

theorem Holds.first (h : Holds size m off as) (hpos : 0 < total size as) : ∃ b, m off = some (b, 0) := by
  induction as generalizing off with
  | nil => exact absurd hpos (lt_irrefl 0)
  | cons a as ih =>
    rcases Nat.eq_zero_or_pos (size a) with ha | ha
    · rw [total_cons, ha, zero_add] at hpos
      rw [Holds, ha, add_zero] at h
      exact ih h.2 hpos
    · exact ⟨a, h.1 0 ha⟩

theorem Holds.next {b : α} {j : Nat} (h : Holds size m off as) (ho : off ≤ x) (hx : x + 1 < off + total size as)
    (ha : m x = some (a, i)) (hb : m (x + 1) = some (b, j + 1)) : a = b := by
  induction as generalizing off with
  | nil =>
    rw [total_nil, add_zero] at hx
    omega
  | cons c as ih =>
    rw [total_cons] at hx
    rcases lt_or_ge x (off + size c) with hc | hc
    · have hac := h.1 (x - off) (by omega)
      rw [Nat.add_sub_cancel' ho, ha] at hac
      rcases lt_or_ge (x + 1) (off + size c) with hc' | hc'
      · have hbc := h.1 (x + 1 - off) (by omega)
        rw [Nat.add_sub_cancel' (by omega), hb] at hbc
        simp only [Option.some.injEq, Prod.mk.injEq] at hac hbc
        rw [hac.1, hbc.1]
      · -- the byte after the last one of a record is the first byte of a later one
        obtain ⟨d, hd⟩ := h.2.first (by omega)
        rw [show off + size c = x + 1 by omega, hb] at hd
        simp at hd
    · exact ih h.2 hc (by omega)

theorem Holds.not_torn (h : Holds size m 0 as) : ¬ Torn m (total size as) := by
  rintro ⟨x, a, i, b, j, hx, ha, hb, hne⟩
  exact hne (h.next (Nat.zero_le x) (by omega) ha hb)

theorem Torn.shift {n' k : Nat} (h : Torn m n) (hn : k + n ≤ n') (hm : ∀ x < n, m' (k + x) = m x) : Torn m' n' := by
  obtain ⟨x, a, i, b, j, hx, ha, hb, hne⟩ := h
  refine ⟨k + x, a, i, b, j, by omega, ?_, ?_, hne⟩
  · rw [hm x (by omega)]
    exact ha
  · rw [add_assoc, hm (x + 1) hx]
    exact hb

end Records
