import Mathlib.Data.BitVec
import Mathlib.Logic.Relation
import Mathlib.Logic.Function.Basic

namespace NfpDriver.Mutex

open BitVec

inductive Errno where
  | eperm
  | eacces
  | ebusy
  | einval
  | e2big
  deriving DecidableEq, Repr

inductive Op where
  | trylock
  | unlock
  deriving DecidableEq, Repr

inductive Pc where
  | idle
  | tryKey
  | trySet
  | tryWrite
  | unlockKey
  | unlockRead
  | unlockWrite
  deriving DecidableEq, Repr

def nfpMutexLocked (interface : BitVec 16) : BitVec 32 := interface ++ 0x000f#16

def nfpMutexUnlocked (interface : BitVec 16) : BitVec 32 := interface ++ 0x0000#16

def nfpMutexIsLocked (val : BitVec 32) : Bool := val &&& 0xffff = 0x000f

def nfpMutexIsUnlocked (val : BitVec 32) : Bool := val &&& 0xffff = 0

abbrev depthMax : BitVec 16 := 0xffff

structure Handle where
  interface : BitVec 16
  key : BitVec 32

structure St (H : Type) where
  word : BitVec 32
  key : BitVec 32
  depth : H → BitVec 16
  pc : H → Pc
  log : List (H × Op × Option Errno)

section Model

variable {H : Type} [DecidableEq H] (handle : H → Handle)

def St.goto (st : St H) (h : H) (pc : Pc) : St H := { st with pc := Function.update st.pc h pc }

def St.ret (st : St H) (h : H) (op : Op) (err : Option Errno) : St H :=
  { st with pc := Function.update st.pc h .idle, log := st.log ++ [(h, op, err)] }

def St.setDepth (st : St H) (h : H) (depth : BitVec 16) : St H :=
  { st with depth := Function.update st.depth h depth }

def nfpCppMutexTrylock (st : St H) (h : H) : St H :=
  if 0 < st.depth h then
    if st.depth h = depthMax then st.ret h .trylock (some .e2big)
    else (st.setDepth h (st.depth h + 1)).ret h .trylock none
  else st.goto h .tryKey

def nfpCppMutexUnlock (st : St H) (h : H) : St H :=
  if 1 < st.depth h then (st.setDepth h (st.depth h - 1)).ret h .unlock none else st.goto h .unlockKey

def command (st : St H) (h : H) : Option (St H) :=
  match st.pc h with
  | .idle => none
  | .tryKey =>
    some (if st.key ≠ (handle h).key then st.ret h .trylock (some .eperm) else st.goto h .trySet)
  | .trySet =>
    let tmp := st.word
    let st := { st with word := st.word ||| 0xf }
    some (if nfpMutexIsUnlocked tmp then st.goto h .tryWrite
      else st.ret h .trylock (some (if nfpMutexIsLocked tmp then .ebusy else .einval)))
  | .tryWrite =>
    let st := { st with word := nfpMutexLocked (handle h).interface }
    some ((st.setDepth h 1).ret h .trylock none)
  | .unlockKey =>
    some (if st.key ≠ (handle h).key then st.ret h .unlock (some .eperm) else st.goto h .unlockRead)
  | .unlockRead =>
    some (if st.word ≠ nfpMutexLocked (handle h).interface then st.ret h .unlock (some .eacces)
      else st.goto h .unlockWrite)
  | .unlockWrite =>
    let st := { st with word := nfpMutexUnlocked (handle h).interface }
    some ((st.setDepth h 0).ret h .unlock none)

inductive Action (H : Type) where
  | trylock (h : H)
  | unlock (h : H)
  | command (h : H)

def apply (st : St H) : Action H → Option (St H)
  | .trylock h => if st.pc h = .idle then some (nfpCppMutexTrylock st h) else none
  | .unlock h => if st.pc h = .idle ∧ 0 < st.depth h then some (nfpCppMutexUnlock st h) else none
  | .command h => command handle st h

def Step (st st' : St H) : Prop := ∃ a, apply handle st a = some st'

def init (word key : BitVec 32) : St H := ⟨word, key, fun _ => 0, fun _ => .idle, []⟩

def Reachable (word key : BitVec 32) (st : St H) : Prop := Relation.ReflTransGen (Step handle) (init word key) st

end Model

theorem and_low (w : BitVec 32) : w &&& 0xffff = (w.setWidth 16).setWidth 32 := by
  have hmask : (0xffff : BitVec 32) = (BitVec.allOnes 16).setWidth 32 := by decide
  refine eq_of_getLsbD_eq fun i hi => ?_
  rw [hmask, getLsbD_and, getLsbD_setWidth, getLsbD_setWidth, getLsbD_setWidth,
    getLsbD_allOnes, Bool.and_comm, Bool.and_assoc]

theorem low_append (a b : BitVec 16) : (a ++ b) &&& 0xffff = (b.setWidth 32 : BitVec 32) := by
  have hlow : (a ++ b).setWidth 16 = b := by
    refine eq_of_getLsbD_eq fun i hi => ?_
    rw [getLsbD_setWidth, getLsbD_append, if_pos hi, decide_eq_true hi, Bool.true_and]
  rw [and_low, hlow]

theorem isLocked_locked (interface : BitVec 16) : nfpMutexIsLocked (nfpMutexLocked interface) = true :=
  decide_eq_true (low_append interface 0x000f#16)

theorem isUnlocked_unlocked (interface : BitVec 16) : nfpMutexIsUnlocked (nfpMutexUnlocked interface) = true :=
  decide_eq_true (low_append interface 0x0000#16)

variable {w : BitVec 32}

theorem isLocked_set (h : nfpMutexIsUnlocked w = true) : nfpMutexIsLocked (w ||| 0xf) = true := by
  have hdist : (w ||| 0xf) &&& 0xffff = (w &&& 0xffff) ||| (0xf &&& 0xffff) := by
    refine eq_of_getLsbD_eq fun i _ => ?_
    simp only [getLsbD_or, getLsbD_and, Bool.and_or_distrib_right]
  rw [nfpMutexIsLocked, hdist, of_decide_eq_true h]
  decide

theorem set_locked (h : nfpMutexIsLocked w = true) : w ||| 0xf = w := by
  have hlow : w &&& 0xffff = 0x000f := of_decide_eq_true h
  rw [show (0xf : BitVec 32) = 0x000f from rfl, ← hlow]
  refine eq_of_getLsbD_eq fun i _ => ?_
  simp only [getLsbD_or, getLsbD_and]
  cases w.getLsbD i <;> rfl

theorem not_unlocked (h : nfpMutexIsLocked w = true) : nfpMutexIsUnlocked w = false := by
  rw [nfpMutexIsUnlocked, of_decide_eq_true h]
  decide

end NfpDriver.Mutex
