import Mathlib.Data.BitVec
import Mathlib.Tactic.Ring

namespace NfpDriver.Mbox

abbrev mboxSimpleVal : Nat := 8
abbrev batchLimit : Nat := 64
abbrev maxQlen : Nat := 1024

inductive CmsgState where
  | queued
  | next
  | busy
  | replyFound
  | done
  deriving DecidableEq, Repr

inductive Err where
  | einval
  | emsgsize
  | enomem
  | ebusy
  | eio
  | enoent
  | etimedout
  deriving DecidableEq, Repr

structure MboxCaps where
  mboxOff : Nat
  mboxLen : Nat
  cmsgTypes : BitVec 32
  len_lt : mboxLen < 2 ^ 31

def MboxCaps.reset : MboxCaps := ⟨0x1800, 0x1f8, 0, by decide⟩

structure Skb where
  data : List (BitVec 8)
  len_lt : data.length < 2 ^ 31

def Skb.len (skb : Skb) : Nat := skb.data.length

structure Cb where
  state : CmsgState
  err : Option Err
  maxLen : Nat
  expReply : Nat
  posted : Bool

structure Msg where
  skb : Skb
  cb : Cb

def roundDown4 (x : Nat) : Nat := x / 4 * 4

def roundUp4 (x : Nat) : Nat := (x + 3) / 4 * 4 % 2 ^ 32

def s32 (x : Int) : Int := (BitVec.ofInt 32 x).toInt

def nfpCcmMboxMaxMsg (caps : MboxCaps) : Nat :=
  (roundDown4 caps.mboxLen + 2 ^ 32 - mboxSimpleVal - 4 * 2) % 2 ^ 32

def nfpCcmMboxMsgInit (skb : Skb) (expReply maxLen : Nat) : Msg :=
  ⟨skb, ⟨.queued, none, maxLen, expReply, false⟩⟩

def nfpCcmMboxMarkPosted (m : Msg) : Msg := { m with cb := { m.cb with posted := true } }

def nfpCcmMboxMsgPrepare (caps : MboxCaps) (skb : Skb) (type room : Nat) (replySize maxReplySize : BitVec 32)
    (expandHead : Option Err) : Except Err Msg :=
  let mboxMax := nfpCcmMboxMaxMsg caps
  if caps.cmsgTypes.getLsbD type = false then .error .einval
  else
    let maxReply := roundUp4 (if maxReplySize = 0 then mboxMax else maxReplySize.toNat)
    match if maxReply > room then expandHead else none with
    | some err => .error err
    | none =>
      let maxLen := max maxReply (roundUp4 skb.len)
      if maxLen > mboxMax then .error .emsgsize
      else .ok (nfpCcmMboxMsgInit skb replySize.toNat maxLen)

def Accepted (caps : MboxCaps) (m : Msg) : Prop :=
  ∃ type room replySize maxReplySize expandHead,
    nfpCcmMboxMsgPrepare caps m.skb type room replySize maxReplySize expandHead = .ok m ∨
      ∃ m₀, nfpCcmMboxMsgPrepare caps m.skb type room replySize maxReplySize expandHead = .ok m₀ ∧
        m = nfpCcmMboxMarkPosted m₀

variable {caps : MboxCaps} {expandHead : Option Err} {m : Msg} {maxReplySize replySize : BitVec 32} {room type : Nat}
  {skb : Skb}

section

variable (h : nfpCcmMboxMsgPrepare caps skb type room replySize maxReplySize expandHead = .ok m)

include h

theorem prepare_ok :
    roundUp4 skb.len ≤ m.cb.maxLen ∧ m.cb.maxLen ≤ nfpCcmMboxMaxMsg caps := by
  unfold nfpCcmMboxMsgPrepare at h
  simp only at h
  generalize roundUp4 (if maxReplySize = 0 then nfpCcmMboxMaxMsg caps else maxReplySize.toNat) = maxReply at h
  split at h
  · cases h
  split at h
  · cases h
  split at h
  · cases h
  · next hle =>
    obtain rfl := Except.ok.inj h
    exact ⟨le_max_right _ _, Nat.not_lt.mp hle⟩

theorem prepare_cb :
    m.cb.state = .queued ∧ m.cb.posted = false := by
  unfold nfpCcmMboxMsgPrepare at h
  simp only at h
  generalize roundUp4 (if maxReplySize = 0 then nfpCcmMboxMaxMsg caps else maxReplySize.toNat) = maxReply at h
  split at h
  · cases h
  split at h
  · cases h
  split at h
  · cases h
  · obtain rfl := Except.ok.inj h
    exact ⟨rfl, rfl⟩

end

theorem Accepted.fits (h : Accepted caps m) :
    roundUp4 m.skb.len ≤ m.cb.maxLen ∧ m.cb.maxLen ≤ nfpCcmMboxMaxMsg caps := by
  obtain ⟨type, room, replySize, maxReplySize, expandHead, h | ⟨m₀, h, rfl⟩⟩ := h
  · exact prepare_ok h
  · have hfits := prepare_ok h
    exact hfits

theorem roundUp4_of_lt {x : Nat} (h : x < 2 ^ 31) : roundUp4 x = (x + 3) / 4 * 4 := by
  rw [roundUp4, Nat.mod_eq_of_lt (by omega)]

theorem s32_of_range {x : Int} (h1 : -2 ^ 31 ≤ x) (h2 : x < 2 ^ 31) : s32 x = x := by
  rw [s32, BitVec.toInt_ofInt]
  exact Int.bmod_eq_of_le (by omega) (by omega)

theorem maxMsg_of_le (h : 16 ≤ caps.mboxLen) : nfpCcmMboxMaxMsg caps + 16 ≤ caps.mboxLen := by
  simp only [nfpCcmMboxMaxMsg, roundDown4, mboxSimpleVal]
  omega

end NfpDriver.Mbox
