import Mathlib.Data.BitVec
import Mathlib.Data.List.Nodup
import NfpDriver.Library.Runs

namespace NfpDriver.Tags

open Runs BitVec

abbrev Tag := BitVec 16

abbrev eio : Int := -5
abbrev eagain : Int := -11
abbrev etimedout : Int := -110
abbrev nfpCcmTagAllocSpan : Nat := 65535 / 4
abbrev nfpCcmHdrSize : Nat := 4

structure Skb where
  tag : Tag
  type : BitVec 8
  len : Nat
  req : Nat
  deriving DecidableEq, Repr

structure Ccm where
  tagAllocator : Tag → Bool
  tagAllocNext : Tag
  tagAllocLast : Tag
  replies : List Skb
  allocWarned : Bool
  freeWarned : Bool
  -- how often each bit was set and cleared
  allocs : Tag → Nat
  frees : Tag → Nat

def nfpCcmInit : Ccm := ⟨fun _ => false, 0, 0, [], false, false, fun _ => 0, fun _ => 0⟩

def nfpCcmAllTagsBusy (c : Ccm) : Bool := (c.tagAllocNext - c.tagAllocLast).toNat > nfpCcmTagAllocSpan

def nfpCcmAllocTag (c : Ccm) : Ccm × Except Int Tag :=
  if nfpCcmAllTagsBusy c then (c, .error eagain)
  else
    ({ c with
        allocWarned := c.allocWarned || c.tagAllocator c.tagAllocNext
        allocs := Function.update c.allocs c.tagAllocNext (c.allocs c.tagAllocNext + 1)
        tagAllocator := Function.update c.tagAllocator c.tagAllocNext true
        tagAllocNext := c.tagAllocNext + 1 }, .ok c.tagAllocNext)

def advanceLast (bits : Tag → Bool) (next : Tag) : Nat → Tag → Tag
  | 0, last => last
  | fuel + 1, last => if bits last = false ∧ last ≠ next then advanceLast bits next fuel (last + 1) else last

def nfpCcmFreeTag (c : Ccm) (tag : Tag) : Ccm :=
  let bits := Function.update c.tagAllocator tag false
  { c with
    freeWarned := c.freeWarned || !c.tagAllocator tag
    frees := Function.update c.frees tag (c.frees tag + 1)
    tagAllocator := bits
    tagAllocLast := advanceLast bits c.tagAllocNext (2 ^ 16) c.tagAllocLast }

def nfpCcmReply (c : Ccm) (tag : Tag) : Ccm × Option Skb :=
  match c.replies.find? fun skb => skb.tag = tag with
  | none => (c, none)
  | some skb => ({ nfpCcmFreeTag c tag with replies := c.replies.eraseP fun skb => skb.tag = tag }, some skb)

def nfpCcmReplyDropTag (c : Ccm) (tag : Tag) : Ccm × Option Skb :=
  match nfpCcmReply c tag with
  | (c', none) => (nfpCcmFreeTag c' tag, none)
  | (c', some skb) => (c', some skb)

def nfpCcmRx (c : Ccm) (skb : Skb) : Ccm :=
  if skb.len < nfpCcmHdrSize then c
  else if c.tagAllocator skb.tag = false then c
  else { c with replies := c.replies ++ [skb] }

inductive Result where
  | skb (skb : Skb)
  | err (err : Int)
  deriving DecidableEq, Repr

inductive Pc where
  | polling (i : Nat)
  | waiting
  | dropping (err : Int)
  | done (result : Result)
  deriving DecidableEq, Repr

def Pc.active : Pc → Bool
  | .done _ => false
  | _ => true

structure Call where
  tag : Tag
  type : BitVec 8
  replySize : Nat
  pc : Pc
  got : Option Skb
  answered : Bool

def ccmReplyType (type : BitVec 8) : BitVec 8 := 0x80 ||| type

def checkReply (call : Call) (skb : Skb) : Result :=
  if skb.type ≠ ccmReplyType call.type then .err eio
  else if call.replySize ≠ 0 ∧ skb.len ≠ call.replySize then .err eio
  else .skb skb

def Call.receive (call : Call) (skb : Skb) : Call :=
  { call with pc := .done (checkReply call skb), got := some skb }

def Call.drop (call : Call) (err : Int) (skb : Option Skb) : Call :=
  { call with
    pc := .done (if err < 0 then .err err else
      match skb with
      | none => .err etimedout
      | some skb => checkReply call skb)
    got := skb }

structure St where
  ccm : Ccm
  issued : Nat
  calls : Nat → Call

inductive Action where
  | issue (type : BitVec 8) (replySize : Nat)
  | poll (k : Nat)
  | wait (k : Nat)
  | stop (k : Nat) (err : Int)
  | drop (k : Nat)
  | rx (k : Nat) (type : BitVec 8) (len : Nat)
  deriving DecidableEq, Repr

def start : St := ⟨nfpCcmInit, 0, fun _ => ⟨0, 0, 0, .waiting, none, false⟩⟩

def St.set (st : St) (ccm : Ccm) (k : Nat) (call : Call) : St := ⟨ccm, st.issued, Function.update st.calls k call⟩

def step (st : St) : Action → Option St
  | .issue type replySize =>
    match nfpCcmAllocTag st.ccm with
    | (_, .error _) => some st
    | (ccm, .ok tag) =>
      some ⟨ccm, st.issued + 1,
        Function.update st.calls st.issued ⟨tag, type, replySize, .polling 0, none, false⟩⟩
  | .poll k =>
    if k < st.issued then
      match (st.calls k).pc with
      | .polling i =>
        match nfpCcmReply st.ccm (st.calls k).tag with
        | (ccm, some skb) => some (st.set ccm k ((st.calls k).receive skb))
        | (ccm, none) =>
          some (st.set ccm k { st.calls k with pc := if i + 1 < 50 then .polling (i + 1) else .waiting })
      | _ => none
    else none
  | .wait k =>
    if k < st.issued ∧ (st.calls k).pc = .waiting then
      match nfpCcmReply st.ccm (st.calls k).tag with
      | (ccm, some skb) => some (st.set ccm k ((st.calls k).receive skb))
      | (ccm, none) => some (st.set ccm k (st.calls k))
    else none
  | .stop k err =>
    if k < st.issued ∧ (st.calls k).pc = .waiting ∧ err ≤ 0 then
      some (st.set st.ccm k { st.calls k with pc := .dropping err })
    else none
  | .drop k =>
    if k < st.issued then
      match (st.calls k).pc with
      | .dropping err =>
        match nfpCcmReplyDropTag st.ccm (st.calls k).tag with
        | (ccm, skb) => some (st.set ccm k ((st.calls k).drop err skb))
      | _ => none
    else none
  | .rx k type len =>
    if k < st.issued ∧ (st.calls k).answered = false then
      some (st.set (nfpCcmRx st.ccm ⟨(st.calls k).tag, type, len, k⟩) k { st.calls k with answered := true })
    else none

section Serial

theorem ofNat_inj {j k : Nat} (h : BitVec.ofNat 16 j = BitVec.ofNat 16 k) (h1 : j < k + 65536) (h2 : k < j + 65536) :
    j = k := by
  have h := congrArg BitVec.toNat h
  simp only [toNat_ofNat] at h
  omega

theorem ofNat_sub_toNat {L N : Nat} (h : L ≤ N) (h' : N < L + 65536) :
    (BitVec.ofNat 16 N - BitVec.ofNat 16 L).toNat = N - L := by
  simp only [toNat_sub, toNat_ofNat]
  omega

theorem ofNat_succ (n : Nat) : BitVec.ofNat 16 n + 1 = BitVec.ofNat 16 (n + 1) := by
  apply eq_of_toNat_eq
  simp only [toNat_add, toNat_ofNat, show (1 : BitVec 16).toNat = 1 from rfl]
  omega

end Serial

theorem advanceLast_spec (bits : Tag → Bool) {N : Nat} (fuel : Nat) {L : Nat} (hle : L ≤ N) (hN : N < L + 65536)
    (hfuel : N ≤ L + fuel) :
    ∃ L', L ≤ L' ∧ L' ≤ N ∧ advanceLast bits (BitVec.ofNat 16 N) fuel (BitVec.ofNat 16 L) = BitVec.ofNat 16 L' ∧
      (∀ j, L ≤ j → j < L' → bits (BitVec.ofNat 16 j) = false) ∧ (L' = N ∨ bits (BitVec.ofNat 16 L') = true) := by
  induction fuel generalizing L with
  | zero => exact ⟨L, le_rfl, hle, rfl, fun j h1 h2 => by omega, .inl (by omega)⟩
  | succ fuel ih =>
    rw [advanceLast]
    split
    · next h =>
      have hne : L ≠ N := fun heq => h.2 (heq ▸ rfl)
      rw [ofNat_succ]
      obtain ⟨L', h1, h2, heq, hclear, hstop⟩ := ih (L := L + 1) (by omega) (by omega) (by omega)
      refine ⟨L', by omega, h2, heq, fun j hj hj' => ?_, hstop⟩
      rcases Nat.eq_or_lt_of_le hj with rfl | hj
      · exact h.1
      · exact hclear j hj hj'
    · next h =>
      refine ⟨L, le_rfl, hle, rfl, fun j h1 h2 => by omega, ?_⟩
      by_cases heq : L = N
      · exact .inl heq
      · right
        by_contra hbit
        refine h ⟨by simpa using hbit, fun hc => heq (ofNat_inj hc (by omega) (by omega))⟩

end NfpDriver.Tags
