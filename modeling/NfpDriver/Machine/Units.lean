import NfpDriver.Machine.Wrap

namespace NfpDriver.Machine

open Asm Adder Jit

variable {g : BitVec 16} {l r dst : Swreg} {step : MulStep} {type : MulType} {u : MulUnit}

theorem re_encoding (h : g < 0x20) :
    g &&& 0xff = g ∧ isReImm (g.setWidth 8) = false ∧ g.setWidth 8 < reGprCount ∧
      (g.setWidth 8).setWidth 16 = g ∧ g < gprCount := by
  have hall : ∀ k : Fin 32, BitVec.ofNat 16 k &&& 0xff = BitVec.ofNat 16 k ∧
      isReImm ((BitVec.ofNat 16 k).setWidth 8) = false ∧ (BitVec.ofNat 16 k).setWidth 8 < reGprCount ∧
      ((BitVec.ofNat 16 k).setWidth 8).setWidth 16 = BitVec.ofNat 16 k ∧ BitVec.ofNat 16 k < gprCount := by
    decide
  have hk : g.toNat < 32 := h
  simpa using hall ⟨g.toNat, hk⟩

theorem rereg_gpr {s : Swreg} {d i : Bool} (ht : s.type = .gprA ∨ s.type = .gprB ∨ s.type = .gprBoth)
    (h : s.id < 0x20) : nfpSwregToRereg s d i = (s.id, false) := by
  rcases ht with ht | ht | ht <;> simp only [nfpSwregToRereg, ht, Swreg.value, (re_encoding h).1]

section

variable {g : BitVec 16} (h : g < 0x20) (d i : Bool)

include h

theorem rereg_regA : nfpSwregToRereg (regA g) d i = (g, false) :=
  rereg_gpr (.inl rfl) h

theorem rereg_regB : nfpSwregToRereg (regB g) d i = (g, false) :=
  rereg_gpr (.inr (.inl rfl)) h

theorem rereg_regBoth : nfpSwregToRereg (regBoth g) d i = (g, false) :=
  rereg_gpr (.inr (.inr rfl)) h

end

theorem rereg_regNone (i : Bool) : nfpSwregToRereg regNone false i = (0, false) := rfl

theorem readRe_gpr {st : State} {bank : BitVec 16 → BitVec 32} (h : g < 0x20) (i : Bool) :
    st.readRe bank (g.setWidth 8) i = bank g := by
  obtain ⟨-, h1, h2, h3, -⟩ := re_encoding h
  simp only [State.readRe, h1, h2, h3, Bool.false_eq_true, if_false, if_true]

section LdField

variable {g s : BitVec 16} (hg : g < 0x20) (hs : s < 0x20) (mask : BitVec 8) (sc : ShfSc) (shift : BitVec 8)
  (zero : Bool) (st : State) {x : BitVec 32}

include hg hs

theorem runs_ldField_regB (hx : shiftSrc sc shift (st.b s) = some x) :
    Runs (emitLdFieldAny (regBoth g) mask (regB s) sc shift zero) st
      (st.put (regBoth g) (fieldValue (st.a g) mask zero x)) := by
  intro rest
  have hops : ops (emitLdFieldAny (regBoth g) mask (regB s) sc shift zero) =
      [.ldField sc (g.setWidth 8) mask (s.setWidth 8) shift false zero false true false false] := by
    simp [emitLdFieldAny, swregToRestricted, rereg_regBoth hg, rereg_regB hs]
  rw [hops]
  apply run_cons rfl
  simp only [exec, State.execLdField, Bool.false_eq_true, if_false, readRe_gpr hg, readRe_gpr hs, hx,
    Option.map_some, (re_encoding hg).2.2.2.1, (write_gpr (re_encoding hg).2.2.2.2 _).1]
  rfl

theorem runs_ldField_regA (hx : shiftSrc sc shift (st.a s) = some x) :
    Runs (emitLdFieldAny (regBoth g) mask (regA s) sc shift zero) st
      (st.put (regBoth g) (fieldValue (st.b g) mask zero x)) := by
  intro rest
  have hops : ops (emitLdFieldAny (regBoth g) mask (regA s) sc shift zero) =
      [.ldField sc (s.setWidth 8) mask (g.setWidth 8) shift false zero true true false false] := by
    simp [emitLdFieldAny, swregToRestricted, rereg_regBoth hg, rereg_regA hs]
  rw [hops]
  apply run_cons rfl
  simp only [exec, State.execLdField, if_true, readRe_gpr hg, readRe_gpr hs, hx,
    Option.map_some, (re_encoding hg).2.2.2.1, (write_gpr (re_encoding hg).2.2.2.2 _).1]
  rfl

end LdField

section Mul

variable (st : State)

section

variable (hl : Operand l) (hr : Operand r) (hne : l.type ≠ r.type)

include hl hr hne

theorem emitMul_operands (hs : ¬(type = .start ∧ step ≠ .none)) (hlast : ¬(step = .last ∨ step = .last2)) :
    ops (emitMul l type step r) =
      [.mul .a (aReg l r) type step (bReg l r) (l.type = .gprB ∨ r.type = .gprA) false false false] := by
  rw [emitMul, if_neg hs, if_neg hlast, unrestricted_ok .none (absurd · hne)]
  simp only [hl.lmextn.1, hr.lmextn.1, Bool.or_self, ops_push, ops_nil]
  rfl

theorem runs_mul_start :
    Runs (emitMul l .start .none r) st { st with mul := ⟨st.src l, st.src r, .start, 0⟩ } := by
  intro rest
  rw [emitMul_operands hl hr hne (fun h => h.2 rfl) (by decide)]
  apply run_cons rfl
  simp only [exec, State.execMul, operands_read hl hr hne]

def MulStep.before : MulStep → Nat
  | .step1 => 0
  | .step2 => 1
  | .step3 => 2
  | .step4 => 3
  | _ => 0

def stepValid (type : MulType) (step : MulStep) : Prop :=
  type = .step16x16 ∧ (step = .step1 ∨ step = .step2) ∨
    type = .step32x32 ∧ (step = .step1 ∨ step = .step2 ∨ step = .step3 ∨ step = .step4)

theorem runs_mul_step (type : MulType) (step : MulStep)
    (hv : stepValid type step) (hu : st.mul.next type (MulStep.before step) = some u) :
    Runs (emitMul l type step r) st { st with mul := u } := by
  intro rest
  have hs : ¬(type = .start ∧ step ≠ .none) ∧ ¬(step = .last ∨ step = .last2) := by
    rcases hv with ⟨rfl, rfl | rfl⟩ | ⟨rfl, rfl | rfl | rfl | rfl⟩ <;> decide
  rw [emitMul_operands hl hr hne hs.1 hs.2]
  apply run_cons rfl
  have hmap := congrArg (Option.map fun u => { st with mul := u }) hu
  rcases hv with ⟨rfl, rfl | rfl⟩ | ⟨rfl, rfl | rfl | rfl | rfl⟩ <;> exact hmap

end

theorem emitMul_result (hd : Dest dst) (hs : ¬(type = .start ∧ step ≠ .none)) (hlast : step = .last ∨ step = .last2) :
    ops (emitMul dst type step regNone) = [.mul (if dst.type = .gprB then .b else .a)
      (nfpSwregToUnreg dst true) type step 0 false (dst.type = .gprBoth) false false] := by
  rw [emitMul, if_neg hs, if_pos hlast, unrestricted_ok hd (fun _ => rfl)]
  simp only [hd.lmextn.1, ops_push, ops_nil]
  rfl

theorem runs_mul_last (hd : Dest dst) (ht : type = .step16x16 ∨ type = .step32x32)
    (hu : st.mul.next type (if type = .step16x16 then 2 else 4) = some u) :
    Runs (emitMul dst type .last regNone) st ({ st with mul := u }.put dst (lo u.product)) := by
  intro rest
  have hs : ¬(type = .start ∧ MulStep.last ≠ .none) := by rcases ht with rfl | rfl <;> decide
  rw [emitMul_result hd hs (.inl rfl)]
  apply run_cons rfl
  have hmap := congrArg (Option.map fun u => { st with mul := u }.put dst (lo u.product)) hu
  rcases ht with rfl | rfl <;> simpa only [exec, State.execMul, write_dest hd, Option.map_some] using hmap

theorem runs_mul_last2 (hd : Dest dst) (hu : st.mul.next .step32x32 5 = some u) :
    Runs (emitMul dst .step32x32 .last2 regNone) st ({ st with mul := u }.put dst (hi u.product)) := by
  intro rest
  rw [emitMul_result hd (by decide) (.inr rfl)]
  apply run_cons rfl
  have hmap := congrArg (Option.map fun u => { st with mul := u }.put dst (hi u.product)) hu
  simpa only [exec, State.execMul, write_dest hd, Option.map_some] using hmap

def State.withMul (st : State) (l r : BitVec 32) (type : MulType) (done : Nat) : State :=
  { st with mul := ⟨l, r, type, done⟩ }

variable {l r : Swreg} (hl : Operand l) (hr : Operand r) (hne : l.type ≠ r.type)

include hl hr hne

theorem runs_mul16 (hd : Dest dst) :
    Runs (wrpMulU16 dst l r) st ((st.withMul (st.src l) (st.src r) .step16x16 3).put dst
      (lo (((st.src l &&& 0xffff).setWidth 64) * ((st.src r &&& 0xffff).setWidth 64)))) := by
  have h0 := runs_mul_start st hl hr hne
  have h1 := runs_mul_step (st.withMul (st.src l) (st.src r) .start 0) hl hr hne .step16x16 .step1
    (.inl ⟨rfl, .inl rfl⟩) rfl
  have h2 := runs_mul_step (st.withMul (st.src l) (st.src r) .step16x16 1) hl hr hne .step16x16 .step2
    (.inl ⟨rfl, .inr rfl⟩) rfl
  have h3 := runs_mul_last (st.withMul (st.src l) (st.src r) .step16x16 2) hd (.inl rfl) rfl
  exact ((h0.append h1).append h2).append h3

theorem runs_mul32 (hd : Dest dst) :
    Runs (emitMul l .start .none r ++ emitMul l .step32x32 .step1 r ++ emitMul l .step32x32 .step2 r ++
      emitMul l .step32x32 .step3 r ++ emitMul l .step32x32 .step4 r ++ emitMul dst .step32x32 .last regNone) st
      ((st.withMul (st.src l) (st.src r) .step32x32 5).put dst
        (lo ((st.src l).setWidth 64 * (st.src r).setWidth 64))) := by
  have h0 := runs_mul_start st hl hr hne
  have h1 := runs_mul_step (st.withMul (st.src l) (st.src r) .start 0) hl hr hne .step32x32 .step1
    (.inr ⟨rfl, .inl rfl⟩) rfl
  have h2 := runs_mul_step (st.withMul (st.src l) (st.src r) .step32x32 1) hl hr hne .step32x32 .step2
    (.inr ⟨rfl, .inr (.inl rfl)⟩) rfl
  have h3 := runs_mul_step (st.withMul (st.src l) (st.src r) .step32x32 2) hl hr hne .step32x32 .step3
    (.inr ⟨rfl, .inr (.inr (.inl rfl))⟩) rfl
  have h4 := runs_mul_step (st.withMul (st.src l) (st.src r) .step32x32 3) hl hr hne .step32x32 .step4
    (.inr ⟨rfl, .inr (.inr (.inr rfl))⟩) rfl
  have h5 := runs_mul_last (st.withMul (st.src l) (st.src r) .step32x32 4) hd (.inr rfl) rfl
  exact ((((h0.append h1).append h2).append h3).append h4).append h5

end Mul

theorem runs_mul_high (hd : Dest dst) (st : State) {x y : BitVec 32} (hm : st.mul = ⟨x, y, .step32x32, 5⟩) :
    Runs (emitMul dst .step32x32 .last2 regNone) st
      ((st.withMul x y .step32x32 6).put dst (hi (x.setWidth 64 * y.setWidth 64))) :=
  runs_mul_last2 st hd (by rw [hm]; rfl)

end NfpDriver.Machine
