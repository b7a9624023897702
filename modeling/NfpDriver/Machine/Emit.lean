import NfpDriver.Machine.Exec
import NfpDriver.Jit.Emit

namespace NfpDriver.Machine

open Asm Adder Jit Function

def State.src (st : State) (s : Swreg) : BitVec 32 :=
  match s.type with
  | .gprA => st.a s.id
  | .gprB => st.b s.id
  | _ => s.id.setWidth 32

def State.put (st : State) (dst : Swreg) (x : BitVec 32) : State :=
  match dst.type with
  | .gprA => st.setA dst.id x
  | .gprB => st.setB dst.id x
  | .gprBoth => (st.setA dst.id x).setB dst.id x
  | _ => st

inductive Operand : Swreg → Prop where
  | a {r : BitVec 16} (h : r < gprCount) : Operand (regA r)
  | b {r : BitVec 16} (h : r < gprCount) : Operand (regB r)
  | imm {x : BitVec 16} (h : x ≤ 0xff) : Operand (regImm x)

inductive Dest : Swreg → Prop where
  | a {r : BitVec 16} (h : r < gprCount) : Dest (regA r)
  | b {r : BitVec 16} (h : r < gprCount) : Dest (regB r)
  | both {r : BitVec 16} (h : r < gprCount) : Dest (regBoth r)
  | none : Dest regNone

section Kinds

variable (r : BitVec 16)

@[simp] theorem regA_type : (regA r).type = .gprA := rfl
@[simp] theorem regB_type : (regB r).type = .gprB := rfl
@[simp] theorem regBoth_type : (regBoth r).type = .gprBoth := rfl
@[simp] theorem regImm_type : (regImm r).type = .imm := rfl
@[simp] theorem regXfer_type : (regXfer r).type = .xfer := rfl
@[simp] theorem regNone_type : regNone.type = .none := rfl

@[simp] theorem regA_lmextn : (regA r).lmextn = false := rfl
@[simp] theorem regB_lmextn : (regB r).lmextn = false := rfl
@[simp] theorem regBoth_lmextn : (regBoth r).lmextn = false := rfl
@[simp] theorem regImm_lmextn : (regImm r).lmextn = false := rfl
@[simp] theorem regXfer_lmextn : (regXfer r).lmextn = false := rfl
@[simp] theorem regNone_lmextn : regNone.lmextn = false := rfl

end Kinds

section Put

variable (st : State) (r : BitVec 16) (x : BitVec 32) (res : Result 32)

@[simp] theorem src_regA : st.src (regA r) = st.a r := rfl
@[simp] theorem src_regB : st.src (regB r) = st.b r := rfl
@[simp] theorem src_regImm : st.src (regImm r) = r.setWidth 32 := rfl

@[simp] theorem put_regA_a : (st.put (regA r) x).a = update st.a r x := rfl
@[simp] theorem put_regA_b : (st.put (regA r) x).b = st.b := rfl
@[simp] theorem put_regB_a : (st.put (regB r) x).a = st.a := rfl
@[simp] theorem put_regB_b : (st.put (regB r) x).b = update st.b r x := rfl
@[simp] theorem put_regBoth_a : (st.put (regBoth r) x).a = update st.a r x := rfl
@[simp] theorem put_regBoth_b : (st.put (regBoth r) x).b = update st.b r x := rfl

@[simp] theorem setFlags_c : (st.setFlags res).c = res.carry := rfl
@[simp] theorem setFlags_z : (st.setFlags res).z = (res.sum == 0) := rfl

theorem put_flags (dst : Swreg) :
    (st.put dst x).z = st.z ∧ (st.put dst x).n = st.n ∧ (st.put dst x).c = st.c ∧
      (st.put dst x).v = st.v ∧ (st.put dst x).mul = st.mul := by
  obtain ⟨type, _, _, _, _⟩ := dst
  cases type <;> exact ⟨rfl, rfl, rfl, rfl, rfl⟩

@[simp] theorem put_z (dst : Swreg) : (st.put dst x).z = st.z := (put_flags st x dst).1
@[simp] theorem put_n (dst : Swreg) : (st.put dst x).n = st.n := (put_flags st x dst).2.1
@[simp] theorem put_c (dst : Swreg) : (st.put dst x).c = st.c := (put_flags st x dst).2.2.1
@[simp] theorem put_mul (dst : Swreg) : (st.put dst x).mul = st.mul := (put_flags st x dst).2.2.2.2

end Put

variable {r x : BitVec 16} {d : Bool} {s dst l : Swreg} {st st' : State} {c : Code}

theorem gpr_encoding (h : r < gprCount) : r &&& 0xff = r ∧ isUrImm r = false := by
  have hall : ∀ k : Fin 128, BitVec.ofNat 16 k &&& 0xff = BitVec.ofNat 16 k ∧
      isUrImm (BitVec.ofNat 16 k) = false := by decide
  have hk : r.toNat < 128 := h
  simpa using hall ⟨r.toNat, hk⟩

theorem imm_encoding (h : x ≤ 0xff) :
    x &&& 0xff = x ∧ x &&& 0xff00 = 0 ∧ isUrImm (urRegImm ||| x) = true ∧
      (urRegImm ||| x) &&& 0xff = x := by
  have hall : ∀ k : Fin 256, BitVec.ofNat 16 k &&& 0xff = BitVec.ofNat 16 k ∧
      BitVec.ofNat 16 k &&& 0xff00 = 0 ∧
      isUrImm (urRegImm ||| BitVec.ofNat 16 k) = true ∧
      (urRegImm ||| BitVec.ofNat 16 k) &&& 0xff = BitVec.ofNat 16 k := by decide +kernel
  have hk : x.toNat < 256 := Nat.lt_succ_of_le h
  simpa using hall ⟨x.toNat, hk⟩

theorem unreg_gpr (ht : s.type = .gprA ∨ s.type = .gprB ∨ s.type = .gprBoth) (h : s.id < gprCount) :
    nfpSwregToUnreg s d = s.id := by
  rcases ht with ht | ht | ht <;> simp only [nfpSwregToUnreg, ht, Swreg.value, gpr_encoding h]

theorem unreg_imm (h : x ≤ 0xff) : nfpSwregToUnreg (regImm x) d = urRegImm ||| x := by
  have hx : x &&& 0xff = x := (imm_encoding h).1
  have hz : x &&& ~~~0xff = 0 := (imm_encoding h).2.1
  simp only [nfpSwregToUnreg, regImm, encSwreg, Swreg.value, hx, hz, urRegImmEncode, ne_eq, not_true_eq_false, if_false]

theorem readA_gpr (h : r < gprCount) : st.readA r = st.a r := by
  simp only [State.readA, (gpr_encoding h).2, h, Bool.false_eq_true, if_false, if_true]

theorem readB_gpr (h : r < gprCount) : st.readB r = st.b r := by
  simp only [State.readB, (gpr_encoding h).2, h, Bool.false_eq_true, if_false, if_true]

theorem read_imm (h : x ≤ 0xff) :
    st.readA (urRegImm ||| x) = x.setWidth 32 ∧ st.readB (urRegImm ||| x) = x.setWidth 32 := by
  simp only [State.readA, State.readB, imm_encoding h, if_true, and_self]

theorem write_gpr (h : r < gprCount) (x : BitVec 32) :
    (∀ ab, st.write r ab true x = (st.setA r x).setB r x) ∧ st.write r .a false x = st.setA r x ∧
      st.write r .b false x = st.setB r x := by
  simp only [State.write, (gpr_encoding h).2, if_pos h, Bool.false_eq_true, if_false, if_true, implies_true, and_self]

theorem write_dest (hd : Dest dst) (x : BitVec 32) :
    st.write (nfpSwregToUnreg dst true) (if dst.type = .gprB then .b else .a) (dst.type = .gprBoth) x =
      st.put dst x := by
  cases hd with
  | a h =>
    rw [unreg_gpr (.inl rfl) h]
    exact (write_gpr h x).2.1
  | b h =>
    rw [unreg_gpr (.inr (.inl rfl)) h]
    exact (write_gpr h x).2.2
  | both h =>
    rw [unreg_gpr (.inr (.inr rfl)) h]
    exact (write_gpr h x).1 _
  | none => rfl

theorem Dest.lmextn (hd : Dest dst) : dst.lmextn = false ∧ dst.type ≠ .imm := by
  cases hd <;> exact ⟨rfl, RegKind.noConfusion⟩

theorem Operand.lmextn (h : Operand s) : s.lmextn = false ∧ s.type ≠ .none := by
  cases h <;> exact ⟨rfl, RegKind.noConfusion⟩

def aReg (l r : Swreg) : BitVec 16 :=
  if l.type = .gprB ∨ r.type = .gprA then nfpSwregToUnreg r false else nfpSwregToUnreg l false

def bReg (l r : Swreg) : BitVec 16 :=
  if l.type = .gprB ∨ r.type = .gprA then nfpSwregToUnreg l false else nfpSwregToUnreg r false

theorem unrestricted_ok {r : Swreg} (hd : Dest dst) (hne : l.type = r.type → l.type = .none) :
    swregToUnrestricted dst l r = .ok {
      dstAb := if dst.type = .gprB then .b else .a
      dst := nfpSwregToUnreg dst true
      areg := aReg l r
      breg := bReg l r
      swap := l.type = .gprB ∨ r.type = .gprA
      wrBoth := dst.type = .gprBoth
      dstLmextn := dst.lmextn
      srcLmextn := l.lmextn || r.lmextn } := by
  rw [swregToUnrestricted, if_neg hd.lmextn.2, if_neg (fun h => h.2 (hne h.1))]
  rfl

theorem operand_readA (h : Operand s) (hb : s.type ≠ .gprB) (st : State) :
    st.readA (nfpSwregToUnreg s false) = st.src s := by
  cases h with
  | a h => rw [unreg_gpr (.inl rfl) h]; exact readA_gpr h
  | b h => exact absurd rfl hb
  | imm h => rw [unreg_imm h]; exact (read_imm h).1

theorem operand_readB (h : Operand s) (ha : s.type ≠ .gprA) (st : State) :
    st.readB (nfpSwregToUnreg s false) = st.src s := by
  cases h with
  | a h => exact absurd rfl ha
  | b h => rw [unreg_gpr (.inr (.inl rfl)) h]; exact readB_gpr h
  | imm h => rw [unreg_imm h]; exact (read_imm h).2

def State.aluTo (st : State) (dst : Swreg) (op : AluOp) (l r : BitVec 32) : State :=
  (st.setFlags (aluResult op l r st.c)).put dst (aluResult op l r st.c).sum

section AluTo

variable (st : State) (r : BitVec 16) (op : AluOp) (x y : BitVec 32)

@[simp] theorem aluTo_regA_a :
    (st.aluTo (regA r) op x y).a = update st.a r (aluResult op x y st.c).sum := rfl
@[simp] theorem aluTo_regA_b : (st.aluTo (regA r) op x y).b = st.b := rfl
@[simp] theorem aluTo_regB_a : (st.aluTo (regB r) op x y).a = st.a := rfl
@[simp] theorem aluTo_regB_b :
    (st.aluTo (regB r) op x y).b = update st.b r (aluResult op x y st.c).sum := rfl
@[simp] theorem aluTo_regBoth_a :
    (st.aluTo (regBoth r) op x y).a = update st.a r (aluResult op x y st.c).sum := rfl
@[simp] theorem aluTo_regBoth_b :
    (st.aluTo (regBoth r) op x y).b = update st.b r (aluResult op x y st.c).sum := rfl
@[simp] theorem aluTo_none_a : (st.aluTo regNone op x y).a = st.a := rfl
@[simp] theorem aluTo_none_b : (st.aluTo regNone op x y).b = st.b := rfl

@[simp] theorem aluTo_z (dst : Swreg) : (st.aluTo dst op x y).z = ((aluResult op x y st.c).sum == 0) := by
  rw [State.aluTo, put_z, setFlags_z]

@[simp] theorem aluTo_c (dst : Swreg) : (st.aluTo dst op x y).c = (aluResult op x y st.c).carry := by
  rw [State.aluTo, put_c, setFlags_c]

end AluTo

theorem run_cons {op : Op} (hb : op.isBr = false) (h : exec op st = some st') (rest : List Op) :
    run (op :: rest) st = run rest st' := by
  rw [run, h]
  · rfl
  · intro mask e css addr hop
    rw [hop] at hb
    cases hb

theorem run_alu (hd : Dest dst) (op : AluOp) (areg breg : BitVec 16) (swap : Bool) (rest : List Op) :
    run (.alu (nfpSwregToUnreg dst true) (if dst.type = .gprB then .b else .a) areg op breg swap
      (dst.type = .gprBoth) false false :: rest) st =
      run rest (st.aluTo dst op (if swap then st.readB breg else st.readA areg)
        (if swap then st.readA areg else st.readB breg)) := by
  apply run_cons rfl
  simp only [exec, write_dest hd, State.aluTo]

def Runs (code : Code) (st st' : State) : Prop := ∀ rest, run (ops code ++ rest) st = run rest st'

theorem Runs.nil (st : State) : Runs [] st st := fun _ => rfl

theorem Runs.append {d : Code} {st'' : State} (h : Runs c st st') (h' : Runs d st' st'') : Runs (c ++ d) st st'' := by
  intro rest
  rw [ops_append, List.append_assoc, h, h']

theorem Runs.run_eq (h : Runs c st st') : run (ops c) st = some (false, st') := by
  have := h []
  rwa [List.append_nil] at this

theorem operands_read {r : Swreg} (hl : Operand l) (hr : Operand r) (hne : l.type ≠ r.type) (st : State) :
    (if decide (l.type = .gprB ∨ r.type = .gprA) = true then st.readB (bReg l r) else st.readA (aReg l r)) = st.src l ∧
      (if decide (l.type = .gprB ∨ r.type = .gprA) = true then st.readA (aReg l r) else st.readB (bReg l r)) =
        st.src r := by
  rw [aReg, bReg]
  by_cases h : l.type = .gprB ∨ r.type = .gprA
  · have h1 : l.type ≠ .gprA := by
      rcases h with h | h
      · exact fun h' => RegKind.noConfusion (h.symm.trans h')
      · exact fun h' => hne (h'.trans h.symm)
    have h2 : r.type ≠ .gprB := by
      rcases h with h | h
      · exact fun h' => hne (h.trans h'.symm)
      · exact fun h' => RegKind.noConfusion (h.symm.trans h')
    simp [h, operand_readB hl h1, operand_readA hr h2]
  · have h1 : l.type ≠ .gprB := fun h' => h (.inl h')
    have h2 : r.type ≠ .gprA := fun h' => h (.inr h')
    simp [h, operand_readA hl h1, operand_readB hr h2]

theorem unary_read {r : Swreg} (hr : Operand r) (st : State) :
    (if decide (regNone.type = .gprB ∨ r.type = .gprA) = true then st.readA (aReg regNone r)
      else st.readB (bReg regNone r)) = st.src r := by
  rw [aReg, bReg]
  by_cases h : r.type = .gprA
  · have hb : r.type ≠ .gprB := fun h' => RegKind.noConfusion (h.symm.trans h')
    simp only [h, or_true, decide_true, if_true, operand_readA hr hb]
  have hn : ¬(regNone.type = .gprB ∨ r.type = .gprA) := by
    rintro (h' | h')
    · exact RegKind.noConfusion h'
    · exact h h'
  simp only [hn, decide_false, Bool.false_eq_true, if_false, operand_readB hr h]

theorem ops_emitAlu {r : Swreg} (hd : Dest dst) (hl : l.lmextn = false) (hr : Operand r) (hne : l.type ≠ r.type)
    (op : AluOp) :
    ops (emitAlu dst l op r) = [.alu (nfpSwregToUnreg dst true) (if dst.type = .gprB then .b else .a) (aReg l r) op
      (bReg l r) (l.type = .gprB ∨ r.type = .gprA) (dst.type = .gprBoth) false false] := by
  simp [emitAlu, unrestricted_ok hd (absurd · hne), hd.lmextn.1, hl, hr.lmextn.1]

theorem runs_emitAlu {r : Swreg} (hd : Dest dst) (hl : Operand l) (hr : Operand r) (hne : l.type ≠ r.type)
    (op : AluOp) (st : State) : Runs (emitAlu dst l op r) st (st.aluTo dst op (st.src l) (st.src r)) := by
  intro rest
  obtain ⟨h1, h2⟩ := operands_read hl hr hne st
  rw [ops_emitAlu hd hl.lmextn.1 hr hne, List.singleton_append, run_alu hd, h1, h2]

theorem runs_emitAlu_unary {r : Swreg} (hd : Dest dst) (hr : Operand r) {op : AluOp} (hop : op = .none ∨ op = .not)
    (st : State) : Runs (emitAlu dst regNone op r) st (st.aluTo dst op 0 (st.src r)) := by
  intro rest
  have hne : regNone.type ≠ r.type := hr.lmextn.2.symm
  have hl : ∀ x y z : BitVec 32, aluResult op x y st.c = aluResult op z y st.c := by
    rcases hop with rfl | rfl <;> exact fun _ _ _ => rfl
  have hto : ∀ x y, st.aluTo dst op x y = st.aluTo dst op 0 y := by
    intro x y
    simp only [State.aluTo, hl x y 0]
  rw [ops_emitAlu hd rfl hr hne, List.singleton_append, run_alu hd, hto, unary_read hr]

def taken (c : Code) (st : State) : Option Bool := (run (ops c) st).map Prod.fst

theorem run_emitBr (mask : BrMask) (off : BitVec 16) (st : State) (rest : List Op) :
    run (ops (emitBr mask off 0) ++ rest) st = if st.test mask then some (true, st) else run rest st := by
  have h : ¬(mask = .unc ∧ (0 : BitVec 8) > 2) := fun h => absurd h.2 (by decide)
  rw [emitBr, emitBrRelo, if_neg h]
  rfl

theorem taken_branch (h : Runs c st st') (mask : BrMask) (off : BitVec 16) :
    taken (c ++ emitBr mask off 0) st = some (st'.test mask) := by
  rw [taken, ops_append, h, ← List.append_nil (ops (emitBr mask off 0)), run_emitBr]
  cases st'.test mask <;> rfl

theorem taken_branch_append {d : Code} (h : Runs c st st') (mask : BrMask) (off : BitVec 16) :
    taken (c ++ emitBr mask off 0 ++ d) st = if st'.test mask then some true else taken d st' := by
  rw [taken, ops_append, ops_append, List.append_assoc, h, run_emitBr]
  cases st'.test mask <;> rfl

end NfpDriver.Machine
