import Mathlib.Algebra.BigOperators.Group.List.Basic
import Mathlib.Algebra.Ring.Nat

namespace Layout

variable {α : Type}

def total (ps : List (α × Nat)) : Nat := (ps.map Prod.snd).sum

def place : List (α × Nat) → Nat → List (α × Nat)
  | [], _ => []
  | (a, n) :: ps, off => (a, off) :: place ps (off + n)

def opt (c : Bool) (a : α) (n : Nat) : List (α × Nat) := if c then [(a, n)] else []

@[simp] theorem total_cons (p : α × Nat) (ps : List (α × Nat)) : total (p :: ps) = p.2 + total ps := by
  rfl

@[simp] theorem total_append (ps qs : List (α × Nat)) : total (ps ++ qs) = total ps + total qs := by
  rw [total, List.map_append, List.sum_append]
  rfl

theorem place_append (ps qs : List (α × Nat)) (off : Nat) :
    place (ps ++ qs) off = place ps off ++ place qs (off + total ps) := by
  induction ps generalizing off with
  | nil => rfl
  | cons p ps ih => rw [List.cons_append, place, ih, place, List.cons_append, total_cons, Nat.add_assoc]

def put (c : Bool) (a : α) (n : Nat) (st : Nat × List (α × Nat)) : Nat × List (α × Nat) :=
  if c then (st.1 + n, st.2 ++ [(a, st.1)]) else st

theorem put_place (c : Bool) (a : α) (n : Nat) (ps : List (α × Nat)) :
    put c a n (total ps, place ps 0) = (total (ps ++ opt c a n), place (ps ++ opt c a n) 0) := by
  cases c with
  | false => simp [put, opt]
  | true =>
    rw [put, if_pos rfl, opt, if_pos rfl, place_append, total_append, Nat.zero_add]
    rfl

end Layout
