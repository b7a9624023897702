import NfpDriver.Machine.Straight

namespace NfpDriver.Machine

open Asm Adder Jit List

namespace Engine

variable {base pc : Nat} {code rest : List Op} {e e' : Engine} {op : Op}

theorem step_exec (hcode : code.drop (pc - base) = op :: rest) (h : e.exec op = some e') :
    step code base pc e = some (pc + 1, e') := by
  cases op with
  | br | brBit => exact absurd h (by simp [exec])
  | _ => simp [step, hcode, h]

theorem go_stop (code : List Op) (base n : Nat) (e : Engine) : go code base n (base + code.length) e = some e := by
  cases n <;> simp [go]

theorem go_step (hpc : base ≤ pc) (hcode : code.drop (pc - base) = op :: rest) {pc' : Nat}
    (h : step code base pc e = some (pc', e')) (n : Nat) : go code base (n + 1) pc e = go code base n pc' e' := by
  have hlt : pc - base < code.length := by
    by_contra hc
    rw [drop_of_length_le (by omega)] at hcode
    cases hcode
  rw [go, if_neg (by omega), if_neg (by omega), h]
  rfl

theorem go_execs (l : List Op) (hpc : base ≤ pc) (hcode : code.drop (pc - base) = l ++ rest) (h : execs l e = some e')
    (n : Nat) : go code base (l.length + n) pc e = go code base n (pc + l.length) e' := by
  induction l generalizing pc e with
  | nil =>
    rw [Option.some.inj h, length_nil, zero_add, add_zero]
  | cons op l ih =>
    obtain ⟨e1, h1, h2⟩ := Option.bind_eq_some_iff.mp h
    have hdrop : code.drop (pc + 1 - base) = l ++ rest := by
      rw [show pc + 1 - base = pc - base + 1 by omega, ← tail_drop, hcode]
      rfl
    rw [length_cons, show l.length + 1 + n = l.length + n + 1 by omega,
      go_step hpc hcode (step_exec hcode h1), ih (by omega) hdrop h2]
    congr 1
    omega

theorem runBlock_execs {l : List Op} (h : execs l e = some e') (base : Nat) : runBlock l base e = some e' := by
  have hcode : l.drop (base - base) = l ++ [] := by simp
  have hgo := go_execs l (le_refl base) hcode h 0
  rw [add_zero, go_stop] at hgo
  exact hgo

section Branches

variable (areg breg tgt fin : BitVec 16) (ev : BrEvPip) (css : Fields.Word) (first second other : List Op)

def branches : List Op :=
  .brBit areg breg tgt 0 true false :: (first ++ (.br .unc ev css fin 2 :: (second ++ other)))

theorem branches_length :
    (branches areg breg tgt fin ev css first second other).length =
      first.length + second.length + other.length + 2 := by
  simp only [branches, length_cons, length_append]
  omega

variable {areg breg tgt fin ev css first second other} {base : Nat} {e e' : Engine}
  (hlen : second.length = 2)

include hlen

theorem runBlock_set (htgt : tgt.toNat = base + (first.length + 4)) (hset : e.bitSet areg breg = true)
    (h : execs other e = some e') :
    runBlock (branches areg breg tgt fin ev css first second other) base e = some e' := by
  obtain ⟨code, hcode⟩ := @exists_eq' _ (branches areg breg tgt fin ev css first second other)
  have hsize := branches_length areg breg tgt fin ev css first second other
  have hhead : code.drop (base - base) = .brBit areg breg tgt 0 true false ::
      (first ++ (.br .unc ev css fin 2 :: (second ++ other))) := by
    rw [← hcode, Nat.sub_self]
    rfl
  have hstep : step code base base e = some (tgt.toNat, e) := by
    simp only [step, hhead, hset, if_true]
    rfl
  have hother : code.drop (tgt.toNat - base) = other ++ [] := by
    rw [htgt, Nat.add_sub_cancel_left, append_nil, ← hcode, branches, drop_succ_cons,
      drop_append, drop_of_length_le (by omega), nil_append,
      show first.length + 3 - first.length = 2 + 1 by omega, drop_succ_cons, drop_append, ← hlen,
      drop_length, nil_append, Nat.sub_self, drop_zero]
  rw [hcode] at hsize ⊢
  rw [runBlock, show code.length = other.length + (first.length + 3) + 1 by omega, go_step (le_refl base) hhead hstep,
    go_execs other (by omega) hother h, show tgt.toNat + other.length = base + code.length by omega, go_stop]

theorem runBlock_clear (hfin : fin.toNat = base + (first.length + 4 + other.length))
    (hset : e.bitSet areg breg = false) (h : execs (first ++ second) e = some e') :
    runBlock (branches areg breg tgt fin ev css first second other) base e = some e' := by
  obtain ⟨code, hcode⟩ := @exists_eq' _ (branches areg breg tgt fin ev css first second other)
  have hsize := branches_length areg breg tgt fin ev css first second other
  rw [execs_append] at h
  obtain ⟨e1, h1, h2⟩ := Option.bind_eq_some_iff.mp h
  have hhead : code.drop (base - base) = .brBit areg breg tgt 0 true false ::
      (first ++ (.br .unc ev css fin 2 :: (second ++ other))) := by
    rw [← hcode, Nat.sub_self]
    rfl
  have hstep : step code base base e = some (base + 1, e) := by
    simp only [step, hhead, hset, Bool.false_eq_true, if_false]
  have hfirst : code.drop (base + 1 - base) = first ++ (.br .unc ev css fin 2 :: (second ++ other)) := by
    rw [Nat.add_sub_cancel_left, ← hcode, branches, drop_succ_cons, drop_zero]
  have hjump : code.drop (base + 1 + first.length - base) = .br .unc ev css fin 2 :: (second ++ other) := by
    rw [show base + 1 + first.length - base = first.length + 1 by omega, ← hcode, branches, drop_succ_cons,
      drop_append, drop_length, nil_append, Nat.sub_self, drop_zero]
  have hstep2 : step code base (base + 1 + first.length) e1 = some (fin.toNat, e') := by
    have htake : (second ++ other).take 2 = second := by
      rw [← hlen]
      exact take_left
    simp [step, hjump, State.test, htake, h2]
  rw [hcode] at hsize ⊢
  rw [runBlock, show code.length = first.length + (other.length + 2 + 1) + 1 by omega,
    go_step (le_refl base) hhead hstep, go_execs first (by omega) hfirst h1,
    go_step (by omega) hjump hstep2, show fin.toNat = base + code.length by omega, go_stop]

end Branches

end Engine

end NfpDriver.Machine
