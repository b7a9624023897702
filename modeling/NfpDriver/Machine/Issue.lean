import NfpDriver.Machine.Block
import NfpDriver.Machine.Transfer

namespace NfpDriver.Machine

open Asm Adder Jit List

def isPlain : Op → Bool
  | .cmd .. => false
  | .br .. => false
  | .brBit .. => false
  | _ => true

def isNear : Op → Bool
  | .cmd _ mode .. => mode == .b32
  | op => isPlain op

structure Plain (c : Code) : Prop where
  each : ∀ op ∈ ops c, isPlain op = true

structure Near (c : Code) : Prop where
  each : ∀ op ∈ ops c, isNear op = true

variable {op : Op} {c d : Code}

theorem isNear_of_isPlain (h : isPlain op = true) : isNear op = true := by
  cases op with
  | cmd => cases h
  | _ => exact h

theorem Plain.near (h : Plain c) : Near c := ⟨fun op hop => isNear_of_isPlain (h.each op hop)⟩

theorem Plain.nil : Plain [] := ⟨fun _ h => absurd h List.not_mem_nil⟩

theorem Plain.append (h : Plain c) (h' : Plain d) : Plain (c ++ d) where
  each op hop := by
    rw [ops_append] at hop
    exact (mem_append.mp hop).elim (h.each op) (h'.each op)

theorem Near.append (h : Near c) (h' : Near d) : Near (c ++ d) where
  each op hop := by
    rw [ops_append] at hop
    exact (mem_append.mp hop).elim (h.each op) (h'.each op)

theorem Near.flatMap {α : Type} (l : List α) {f : α → Code} (h : ∀ x, Near (f x)) : Near (l.flatMap f) := by
  induction l with
  | nil => exact Plain.nil.near
  | cons x l ih =>
    exact (h x).append ih

theorem Near.push (h : isNear op = true) (r : Relo) : Near [.push op r] where
  each op' hop := by rw [List.mem_singleton.mp hop, h]

theorem Plain.push (h : isPlain op = true) (r : Relo) : Plain [.push op r] where
  each op' hop := by rw [List.mem_singleton.mp hop, h]

theorem Plain.fault (e : Errno) : Plain [.fault e] := ⟨fun _ h => absurd h List.not_mem_nil⟩

variable (dst : Swreg) (imm : BitVec 32) (tmp src : Swreg)

theorem plain_emitAlu (l : Swreg) (op : AluOp) (r : Swreg) : Plain (emitAlu dst l op r) := by
  rw [emitAlu]
  split
  · exact .fault _
  · exact .push rfl _

theorem plain_wrpMov : Plain (wrpMov dst src) := plain_emitAlu ..

theorem plain_emitImmed (imm : BitVec 16) (width : ImmedWidth) (invert : Bool) (shift : ImmedShift) :
    Plain (emitImmed dst imm width invert shift) := by
  rw [emitImmed, emitImmedRelo]
  split
  · exact .fault _
  · split
    · exact .fault _
    · exact .push rfl _

theorem plain_wrpImmed : Plain (wrpImmed dst imm) := by
  rw [wrpImmed]
  split
  · exact plain_emitImmed ..
  · split
    · exact plain_emitImmed ..
    · exact (plain_emitImmed ..).append (plain_emitImmed ..)

theorem plain_emitLdFieldAny (bmask : BitVec 8) (src : Swreg) (sc : ShfSc) (shift : BitVec 8) (zero : Bool) :
    Plain (emitLdFieldAny dst bmask src sc shift zero) := by
  rw [emitLdFieldAny]
  split
  · exact .fault _
  · exact .push rfl _

theorem plain_wrpRegOrSubpart (fieldLen offset : BitVec 8) : Plain (wrpRegOrSubpart dst src fieldLen offset) :=
  plain_emitLdFieldAny ..

theorem wrpImmed_length : (wrpImmed dst imm).length ≤ 2 := by
  have := wrpImmed_count dst imm
  omega

theorem plain_urLoadImmAny : Plain (urLoadImmAny imm tmp).1 := by
  rw [urLoadImmAny]
  split
  · exact .nil
  · exact plain_wrpImmed ..

theorem plain_reLoadImmAny : Plain (reLoadImmAny imm tmp).1 := by
  rw [reLoadImmAny]
  split
  · exact .nil
  · exact plain_wrpImmed ..

theorem plain_wrpZext (m : Bpf.Meta) (dst : BitVec 16) : Plain (wrpZext m dst) := by
  rw [wrpZext]
  split
  · exact plain_wrpImmed ..
  · exact .nil

theorem near_emitCmdAny (op : CmdTgt) (xfer : BitVec 8) (l r : Swreg) (size : BitVec 8) (ctx : CmdCtx) (indir : Bool) :
    Near (emitCmdAny op .b32 xfer l r size ctx indir) := by
  rw [emitCmdAny]
  split
  · exact (Plain.fault _).near
  split
  · exact (Plain.fault _).near
  · split
    · exact (Plain.fault _).near
    · exact .push rfl _

namespace Engine

theorem Does.ops_length {e e' : Engine} (h : Does c e e') : (ops c).length = c.length := by
  have hclean := h.clean
  clear h
  induction c with
  | nil => rfl
  | cons f c ih =>
    cases f with
    | push op r => exact congrArg (· + 1) (ih hclean)
    | fault e => cases hclean

def cmdAddress (e : Engine) (mode : CmdMode) (areg breg : BitVec 8) : BitVec 40 :=
  cmdAddr40 mode (e.core.readRe e.core.a areg false) (e.core.readRe e.core.b breg false)

-- the 40-bit addresses a run puts on the bus; a command without a register result leaves the engine as it is
def issued (code : List Op) (base : Nat) : Nat → Nat → Engine → List (BitVec 40)
  | 0, _, _ => []
  | n + 1, pc, e =>
    match code.drop (pc - base) with
    | .cmd tgt mode xfer areg breg size _ indir :: _ =>
      (if mode = .b32 then [] else [e.cmdAddress mode areg breg]) ++
        issued code base n (pc + 1) ((e.execCmd tgt mode xfer areg breg size indir).getD e)
    | _ =>
      match e.step code base pc with
      | some (pc, e) => issued code base n pc e
      | none => []

def addresses (code : List Op) (base : Nat) (e : Engine) : List (BitVec 40) := issued code base code.length base e

structure At (code : List Op) (base pc : Nat) (rest : List Op) : Prop where
  le : base ≤ pc
  here : code.drop (pc - base) = rest

variable {code rest : List Op} {base pc : Nat} {addr : BitVec 16} {css : Fields.Word} {defer : BitVec 8} {ev : BrEvPip}
  {mask : BrMask}

theorem At.start (h : code = rest) (base : Nat) : At code base base rest :=
  ⟨le_refl base, by rw [Nat.sub_self, List.drop_zero, h]⟩

theorem At.skip (l : List Op) (h : At code base pc (l ++ rest)) : At code base (pc + l.length) rest where
  le := Nat.le_add_right_of_le h.le
  here := by
    rw [Nat.sub_add_comm h.le, ← drop_drop, h.here, drop_left]

theorem At.next (h : At code base pc (op :: rest)) : At code base (pc + 1) rest :=
  At.skip [op] h

def Issues (code : List Op) (base pc : Nat) (e : Engine) (as : List (BitVec 40)) : Prop :=
  ∀ n, code.length ≤ n + (pc - base) → issued code base n pc e = as

section Issues

variable {code rest : List Op} {base pc : Nat} {e e' : Engine} {as : List (BitVec 40)}

theorem Issues.addresses (h : Issues code base base e as) : addresses code base e = as :=
  h code.length (Nat.le_add_right ..)

theorem At.fuel (h : At code base pc (op :: rest)) {n : Nat} (hn : code.length ≤ n + (pc - base)) :
    ∃ k, n = k + 1 ∧ code.length ≤ k + (pc + 1 - base) := by
  have hlt : pc - base < code.length := by
    have := congrArg length h.here
    rw [length_drop, length_cons] at this
    omega
  have := h.le
  exact ⟨n - 1, by omega, by omega⟩

theorem issues_cmd {tgt : CmdTgt} {mode : CmdMode} {xfer areg breg size : BitVec 8} {ctx : CmdCtx} {indir : Bool}
    (hat : At code base pc (.cmd tgt mode xfer areg breg size ctx indir :: rest)) (hmode : mode ≠ .b32)
    (h : Issues code base (pc + 1) ((e.execCmd tgt mode xfer areg breg size indir).getD e) as) :
    Issues code base pc e (e.cmdAddress mode areg breg :: as) := by
  intro n hn
  obtain ⟨k, rfl, hk⟩ := hat.fuel hn
  rw [issued, hat.here]
  dsimp only
  rw [if_neg hmode, h k hk]
  rfl

theorem issues_step (hat : At code base pc (op :: rest)) (hop : ∀ t m x a b s c i, op ≠ .cmd t m x a b s c i)
    {pc' : Nat} (hlt : pc < pc') (hstep : step code base pc e = some (pc', e')) (h : Issues code base pc' e' as) :
    Issues code base pc e as := by
  intro n hn
  obtain ⟨k, rfl, hk⟩ := hat.fuel hn
  rw [issued, hat.here]
  cases op with
  | cmd t m x a b s c i => exact absurd rfl (hop t m x a b s c i)
  | _ =>
    rw [hstep]
    exact h k (by omega)

theorem issues_execs {l : List Op} (hat : At code base pc (l ++ rest)) (hl : ∀ op ∈ l, isPlain op = true)
    (hexec : execs l e = some e') (h : Issues code base (pc + l.length) e' as) : Issues code base pc e as := by
  induction l generalizing pc e with
  | nil =>
    cases hexec
    exact h
  | cons op l ih =>
    obtain ⟨e₁, h₁, h₂⟩ := Option.bind_eq_some_iff.mp hexec
    have hop := hl op (mem_cons_self ..)
    refine issues_step hat ?_ (Nat.lt_succ_self pc) (step_exec hat.here h₁) ?_
    · rintro t m x a b s c i rfl
      cases hop
    · refine ih hat.next (fun op hop => hl op (mem_cons_of_mem _ hop)) h₂ ?_
      rw [length_cons] at h
      rwa [Nat.succ_add]

theorem issues_does (hat : At code base pc (ops c ++ rest)) (hc : Plain c) (hd : Does c e e')
    (h : Issues code base (pc + (ops c).length) e' as) : Issues code base pc e as :=
  issues_execs hat hc.each hd.runs h

theorem issues_taken (hat : At code base pc (.br mask ev css addr defer :: rest)) (ht : e.core.test mask = true)
    (hexec : execs (rest.take defer.toNat) e = some e') {tgt : Nat} (haddr : addr.toNat = tgt) (hlt : pc < tgt)
    (h : Issues code base tgt e' as) : Issues code base pc e as := by
  refine issues_step hat (fun _ _ _ _ _ _ _ _ => Op.noConfusion) hlt ?_ h
  rw [step, hat.here]
  dsimp only
  rw [if_pos ht, hexec, ← haddr]
  rfl

theorem issues_fall (hat : At code base pc (.br mask ev css addr defer :: rest)) (ht : e.core.test mask = false)
    (h : Issues code base (pc + 1) e as) : Issues code base pc e as := by
  refine issues_step hat (fun _ _ _ _ _ _ _ _ => Op.noConfusion) (Nat.lt_succ_self pc) ?_ h
  rw [step, hat.here]
  dsimp only
  rw [if_neg (Bool.eq_false_iff.mp ht)]

theorem issued_near (hat : At code base pc rest) (h : ∀ op ∈ rest, isNear op = true) (n : Nat) :
    issued code base n pc e = [] := by
  induction n generalizing pc e rest with
  | zero => rfl
  | succ n ih =>
    cases rest with
    | nil => rw [issued, step, hat.here]
    | cons op rest =>
      have hrest : ∀ e', issued code base n (pc + 1) e' = [] := fun e' =>
        ih hat.next (fun op hop => h op (mem_cons_of_mem _ hop))
      have hop := h op (mem_cons_self ..)
      rw [issued, hat.here]
      cases op with
      | cmd tgt mode xfer areg breg size ctx indir =>
        dsimp only
        rw [if_pos (beq_iff_eq.mp hop), hrest, append_nil]
      | br | brBit => cases hop
      | _ =>
        rw [step, hat.here]
        dsimp only
        cases exec _ e with
        | none => rfl
        | some e' => exact hrest e'

theorem issues_near (hat : At code base pc (ops c)) (h : Near c) : Issues code base pc e [] :=
  fun n _ => issued_near hat h.each n

theorem issues_command {g : BitVec 16} (hg : g < 0x20) {o : Swreg} (ho : CmdOff o) (tgt : CmdTgt) (xfer size : BitVec 8)
    (ctx : CmdCtx) (indir : Bool)
    (hat : At code base pc (ops (emitCmdAny tgt .b40Ba xfer (regA g) o size ctx indir) ++ rest))
    (h : ∀ e', Issues code base (pc + 1) e' as) :
    Issues code base pc e ((e.core.src o ++ e.core.a g).setWidth 40 :: as) := by
  obtain ⟨areg, breg, hcode, hread⟩ := ops_emitCmd hg ho tgt .b40Ba xfer size ctx indir
  rw [hcode] at hat
  have := issues_cmd (e := e) hat CmdMode.noConfusion (h _)
  rw [cmdAddress, (hread e.core).1, (hread e.core).2] at this
  exact this

end Issues

end Engine

end NfpDriver.Machine
