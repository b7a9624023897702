import NfpDriver.Library.Bytes
import NfpDriver.Library.Loop
import NfpDriver.Mbox.Queue

namespace NfpDriver.Mbox

open Octets Loop Function List Option

section Model

variable (caps : MboxCaps) (readl : Nat → BitVec 32)

def dataOff (d : Nat) : Nat := caps.mboxOff + mboxSimpleVal + d

def tlvAt (d : Nat) : Tlv where
  hdr := readl (dataOff caps d)
  word := readl (dataOff caps d + 4)
  body := fun k => (readl (dataOff caps d + 4 + k / 4 * 4)).extractLsb' (24 - 8 * (k % 4)) 8

structure Walk where
  st : St
  data : Nat

def walkStep (last : Id) (w : Walk) : St ⊕ Walk :=
  match copyOutTlv caps w.st last w.data (tlvAt caps readl w.data) with
  | (st, .parsing data) => .inr ⟨st, data⟩
  | (st, _) => .inl st

def nfpCcmMboxCopyOut (st : St) (last : Id) (st' : St) : Prop :=
  ∃ parsed, Returns (walkStep caps readl last) ⟨st, 0⟩ parsed ∧ st' = dequeueBatch last copyOutDone parsed

def Tlv.HasMsg (t : Tlv) (d : Nat) : Prop :=
  d + 4 + t.length ≤ caps.mboxLen ∧ (t.type = TlvType.code .msg ∨ t.type = TlvType.code .msgNosup) ∧ 4 ≤ t.length

instance (t : Tlv) (d : Nat) : Decidable (t.HasMsg caps d) := inferInstanceAs (Decidable (_ ∧ _ ∧ _))

def Tlv.Answers (t : Tlv) (m : Msg) (hdr : Hdr) : Prop :=
  t.type ≠ TlvType.code .msgNosup ∧ t.msgType = ccmReply hdr.type ∧
    (m.cb.expReply = 0 ∨ t.length = m.cb.expReply) ∧ t.length ≤ m.cb.maxLen

instance (t : Tlv) (m : Msg) (hdr : Hdr) : Decidable (t.Answers m hdr) := inferInstanceAs (Decidable (_ ∧ _ ∧ _ ∧ _))

-- the message the reply is copied into, if it is
def copied (last : Id) (w : Walk) : Option Id :=
  let t := tlvAt caps readl w.data
  if t.HasMsg caps w.data then
    (nfpCcmMboxFindReq w.st t.msgTag last w.st.queue).filter fun i =>
      t.Answers (w.st.msg i) (w.st.hdr i) ∧ ¬ (w.st.msg i).cb.posted
  else none

def replyWords (t : Tlv) : Nat := (t.length + 3) / 4

def copyOutReads (last : Id) (w : Walk) : List Region :=
  let t := tlvAt caps readl w.data
  let off := dataOff caps w.data
  ⟨off, 4⟩ ::
    if t.HasMsg caps w.data then
      ⟨off + 4, 4⟩ ::
        match copied caps readl last w with
        | some _ => (List.range' 1 (replyWords t - 1)).map fun k => ⟨off + 4 + k * 4, 4⟩
        | none => []
    else []

def copyOutStores (last : Id) (w : Walk) : List (Id × Region) :=
  match copied caps readl last w with
  | some i => (List.range (replyWords (tlvAt caps readl w.data))).map fun k => (i, ⟨k * 4, 4⟩)
  | none => []

def InMailbox (r : Region) : Prop := caps.mboxOff ≤ r.off ∧ r.off + r.size ≤ caps.mboxOff + caps.mboxLen

-- what nfp_ccm_mbox_msg_prepare and the selection of the batch leave
structure Sent (st : St) (last : Id) (batch rest : List Id) : Prop where
  queue : drain last st.queue = some (batch, rest)
  prepared : ∀ i ∈ batch, ∃ m, Accepted caps m ∧ (st.msg i).cb = { m.cb with state := (st.msg i).cb.state }
  unanswered : ∀ i ∈ batch, (st.msg i).cb.state ≠ .replyFound

def Seen (st : St) (last i : Id) : Prop :=
  ∃ w, Reaches (walkStep caps readl last) ⟨st, 0⟩ w ∧
    (tlvAt caps readl w.data).type = TlvType.code .msg ∧
    (tlvAt caps readl w.data).msgTag = (st.hdr i).tag ∧
    (tlvAt caps readl w.data).msgType = ccmReply (st.hdr i).type ∧
    ((st.msg i).cb.expReply ≠ 0 → (tlvAt caps readl w.data).length = (st.msg i).cb.expReply)

structure CopyOutSound (st : St) (last : Id) (batch : List Id) : Prop where
  terminates : ∃ st', nfpCcmMboxCopyOut caps readl st last st' ∧ st'.oops = st.oops
  reads : ∀ w, Reaches (walkStep caps readl last) ⟨st, 0⟩ w → ∀ r ∈ copyOutReads caps readl last w, InMailbox caps r
  stores : ∀ w, Reaches (walkStep caps readl last) ⟨st, 0⟩ w → ∀ p ∈ copyOutStores caps readl last w,
    p.2.Inside (st.msg p.1).cb.maxLen
  completed : ∀ st', nfpCcmMboxCopyOut caps readl st last st' → ∀ i ∈ batch, (st'.msg i).cb.err = none →
    Seen caps readl st last i

def tlvEnd (d : Nat) : Nat := d + 4 + roundUp4 (tlvAt caps readl d).length

-- where the n-th TLV of the contents begins, whatever the driver makes of it
def tlvStart : Nat → Nat
  | 0 => 0
  | n + 1 => tlvEnd caps readl (tlvStart n)

def request (st : St) (batch : List Id) (t : Tlv) : Option Id := batch.find? fun i => (st.hdr i).tag = t.msgTag

def PassedOver (st : St) (batch : List Id) (t : Tlv) : Prop :=
  t.type = TlvType.code .resv ∨
    (t.type = TlvType.code .msg ∨ t.type = TlvType.code .msgNosup) ∧ 4 ≤ t.length ∧ (request st batch t).isSome

def Delivered (st : St) (batch : List Id) (t : Tlv) : Prop :=
  ∃ i, request st batch t = some i ∧ t.Answers (st.msg i) (st.hdr i) ∧ ¬ (st.msg i).cb.posted

-- the driver's end lies the simple header behind the mailbox
structure TlvFits (st : St) (batch : List Id) (d : Nat) : Prop where
  next : PassedOver st batch (tlvAt caps readl d) →
    mboxSimpleVal + tlvEnd caps readl d + 4 ≤ caps.mboxLen ∨ caps.mboxLen < tlvEnd caps readl d + 4
  word : (tlvAt caps readl d).HasMsg caps d → mboxSimpleVal + d + 4 + 4 ≤ caps.mboxLen
  reply : (tlvAt caps readl d).HasMsg caps d → Delivered st batch (tlvAt caps readl d) →
    mboxSimpleVal + tlvEnd caps readl d ≤ caps.mboxLen

def FirstPassed (st : St) (batch : List Id) (n : Nat) : Prop := ∀ j < n,
  PassedOver st batch (tlvAt caps readl (tlvStart caps readl j)) ∧
    mboxSimpleVal + tlvStart caps readl (j + 1) + 4 ≤ caps.mboxLen

structure MailboxFits (st : St) (batch : List Id) : Prop where
  first : mboxSimpleVal + 4 ≤ caps.mboxLen
  tlvs : ∀ n, FirstPassed caps readl st batch n → TlvFits caps readl st batch (tlvStart caps readl n)

end Model

variable {caps : MboxCaps} {readl : Nat → BitVec 32} {st st' st₀ : St} {last i : Id} {w w' : Walk} {t : Tlv}

theorem Tlv.length_lt (t : Tlv) : t.length < 2 ^ 16 := (t.hdr.extractLsb' 0 16).isLt

theorem Tlv.roundUp4_length (t : Tlv) : roundUp4 t.length = (t.length + 3) / 4 * 4 := by
  have hlt := t.length_lt
  exact roundUp4_of_lt (by omega)

theorem copied_answers (h : copied caps readl last w = some i) :
    (tlvAt caps readl w.data).Answers (w.st.msg i) (w.st.hdr i) := by
  rw [copied] at h
  split at h
  case isTrue => exact (of_decide_eq_true (filter_eq_some_iff.mp h).2).1
  case isFalse => cases h

variable {d : Nat} {m : Msg} {q batch rest : List Id} {tag : BitVec 16}

theorem inMailbox_data {off k : Nat} (h : off = dataOff caps d) (n : Nat) :
    InMailbox caps ⟨off + n, k⟩ ↔ mboxSimpleVal + d + n + k ≤ caps.mboxLen := by
  simp only [InMailbox, h, dataOff]
  constructor <;> intro h <;> omega

theorem reads_inside_iff :
    (∀ r ∈ copyOutReads caps readl last w, InMailbox caps r) ↔
      mboxSimpleVal + w.data + 4 ≤ caps.mboxLen ∧
        ((tlvAt caps readl w.data).HasMsg caps w.data → mboxSimpleVal + w.data + 4 + 4 ≤ caps.mboxLen ∧
          ((copied caps readl last w).isSome → mboxSimpleVal + tlvEnd caps readl w.data ≤ caps.mboxLen)) := by
  have hhdr : InMailbox caps ⟨dataOff caps w.data, 4⟩ ↔ mboxSimpleVal + w.data + 4 ≤ caps.mboxLen :=
    inMailbox_data rfl 0
  have hword : InMailbox caps ⟨dataOff caps w.data + 4, 4⟩ ↔ mboxSimpleVal + w.data + 4 + 4 ≤ caps.mboxLen :=
    inMailbox_data rfl 4
  have hrest : ∀ k, InMailbox caps ⟨dataOff caps w.data + 4 + k * 4, 4⟩ ↔
      mboxSimpleVal + w.data + (4 + k * 4) + 4 ≤ caps.mboxLen := by
    intro k
    rw [add_assoc (dataOff caps w.data)]
    exact inMailbox_data rfl (4 + k * 4)
  simp only [copyOutReads, forall_mem_cons, hhdr]
  refine and_congr_right fun _ => ?_
  split
  case isFalse hm => exact iff_of_true (fun r hr => (nomatch hr)) fun h => absurd h hm
  case isTrue hm =>
    simp only [forall_mem_cons, hword, forall_prop_of_true hm]
    refine and_congr_right fun hin => ?_
    cases hc : copied caps readl last w with
    | none => exact iff_of_true (fun r hr => (nomatch hr)) fun h => nomatch h
    | some i =>
      simp only [List.forall_mem_map, List.mem_range'_1, hrest, tlvEnd, Tlv.roundUp4_length, replyWords, isSome_some,
        forall_true_left]
      obtain ⟨-, -, hlen⟩ := hm
      constructor
      · intro hall
        rcases lt_or_ge 4 (tlvAt caps readl w.data).length with hlong | hshort
        · have hlast := hall (((tlvAt caps readl w.data).length + 3) / 4 - 1) ⟨by omega, by omega⟩
          omega
        · omega
      · intro h k hk
        omega

theorem roundUp4_aligned (x : Nat) : roundUp4 x % 4 = 0 := by
  rw [roundUp4]
  omega

theorem prepare_aligned {skb : Skb} {type room : Nat} {replySize maxReplySize : BitVec 32} {expandHead : Option Err}
    (h : nfpCcmMboxMsgPrepare caps skb type room replySize maxReplySize expandHead = .ok m) : m.cb.maxLen % 4 = 0 := by
  simp only [nfpCcmMboxMsgPrepare] at h
  have hreply := roundUp4_aligned (if maxReplySize = 0 then nfpCcmMboxMaxMsg caps else maxReplySize.toNat)
  have hlen := roundUp4_aligned skb.len
  generalize roundUp4 (if maxReplySize = 0 then nfpCcmMboxMaxMsg caps else maxReplySize.toNat) = maxReply at h hreply
  split at h
  · cases h
  split at h
  · cases h
  split at h
  · cases h
  · cases h
    change max maxReply (roundUp4 skb.len) % 4 = 0
    omega

theorem Accepted.aligned (h : Accepted caps m) : m.cb.maxLen % 4 = 0 := by
  obtain ⟨type, room, replySize, maxReplySize, expandHead, h | ⟨m0, h, rfl⟩⟩ := h
  · exact prepare_aligned h
  · exact prepare_aligned (m := m0) h

structure Kept (st₀ st : St) : Prop where
  queue : st.queue = st₀.queue
  oops : st.oops = st₀.oops
  tag : ∀ i, (st.hdr i).tag = (st₀.hdr i).tag
  type : ∀ i, ccmReply (st.hdr i).type = ccmReply (st₀.hdr i).type
  maxLen : ∀ i, (st.msg i).cb.maxLen = (st₀.msg i).cb.maxLen
  expReply : ∀ i, (st.msg i).cb.expReply = (st₀.msg i).cb.expReply
  posted : ∀ i, (st.msg i).cb.posted = (st₀.msg i).cb.posted

theorem Kept.refl (st : St) : Kept st st :=
  ⟨rfl, rfl, fun _ => rfl, fun _ => rfl, fun _ => rfl, fun _ => rfl, fun _ => rfl⟩

theorem Kept.trans (h : Kept st₀ st) (h' : Kept st st') : Kept st₀ st' where
  queue := h'.queue.trans h.queue
  oops := h'.oops.trans h.oops
  tag i := (h'.tag i).trans (h.tag i)
  type i := (h'.type i).trans (h.type i)
  maxLen i := (h'.maxLen i).trans (h.maxLen i)
  expReply i := (h'.expReply i).trans (h.expReply i)
  posted i := (h'.posted i).trans (h.posted i)

theorem ccmReply_idem (x : BitVec 8) : ccmReply (ccmReply x) = ccmReply x := by
  rw [ccmReply, ccmReply, ← BitVec.or_assoc, BitVec.or_self]

theorem kept_setMsg (hm : m.cb.maxLen = (st.msg i).cb.maxLen) (he : m.cb.expReply = (st.msg i).cb.expReply)
    (hp : m.cb.posted = (st.msg i).cb.posted) : Kept st (st.setMsg i m) := by
  refine ⟨rfl, rfl, fun _ => rfl, fun _ => rfl, fun j => ?_, fun j => ?_, fun j => ?_⟩
  all_goals
    rcases eq_or_ne j i with rfl | hj
    · simp [St.setMsg, hm, he, hp]
    · simp only [St.setMsg, update_of_ne hj]

theorem findReq_tag (h : nfpCcmMboxFindReq st tag last q = some i) : (st.hdr i).tag = tag := by
  induction q with
  | nil => cases h
  | cons j q ih =>
    rw [nfpCcmMboxFindReq] at h
    split at h
    case isTrue htag => exact some.inj h ▸ htag
    case isFalse =>
      split at h
      case isTrue => cases h
      case isFalse => exact ih h

theorem findReq_eq (hd : drain last q = some (batch, rest)) :
    nfpCcmMboxFindReq st tag last q = batch.find? fun i => (st.hdr i).tag = tag := by
  induction q generalizing batch with
  | nil => cases hd
  | cons j q ih =>
    rw [drain] at hd
    rw [nfpCcmMboxFindReq]
    split at hd
    case isTrue hj =>
      cases hd
      rw [find?_cons, find?_nil, if_pos hj]
      by_cases htag : (st.hdr j).tag = tag
      · rw [if_pos htag, decide_eq_true htag]
      · rw [if_neg htag, decide_eq_false htag]
    case isFalse hj =>
      obtain ⟨⟨b, r⟩, hq, hb⟩ := map_eq_some_iff.mp hd
      cases hb
      rw [find?_cons, if_neg hj, ih hq]
      by_cases htag : (st.hdr j).tag = tag
      · rw [if_pos htag, decide_eq_true htag]
      · rw [if_neg htag, decide_eq_false htag]

theorem replyTo_rejected (h : ¬ t.Answers (st.msg i) (st.hdr i)) :
    replyTo st i t = st.setMsg i ((st.msg i).setErr .eio) := by
  simp only [replyTo]
  split
  · rfl
  case isFalse h1 =>
    split
    · rfl
    case isFalse h2 =>
      split
      · rfl
      case isFalse h3 =>
        split
        · rfl
        case isFalse h4 =>
          refine absurd ⟨h1, not_not.mp h2, ?_, not_lt.mp h4⟩ h
          by_cases hz : (st.msg i).cb.expReply = 0
          · exact .inl hz
          · exact .inr (not_not.mp fun hne => h3 ⟨hz, hne⟩)

theorem replyTo_answered (h : t.Answers (st.msg i) (st.hdr i)) :
    replyTo st i t =
      let st := if (st.msg i).cb.posted then st
        else { st.setMsg i { st.msg i with skb := t.data } with hdr := update st.hdr i ⟨t.msgType, t.msgTag⟩ }
      { st.setMsg i ((st.msg i).setState .replyFound) with replied := update st.replied i true } := by
  obtain ⟨htype, hmsg, hexp, hlen⟩ := h
  have hexp' : ¬ ((st.msg i).cb.expReply ≠ 0 ∧ t.length ≠ (st.msg i).cb.expReply) := by
    rintro ⟨hz, hne⟩
    rcases hexp with hz' | heq
    · exact hz hz'
    · exact hne heq
  simp only [replyTo]
  rw [if_neg htype, if_neg (not_not.mpr hmsg), if_neg hexp', if_neg (not_lt.mpr hlen)]

theorem kept_answered (htag : (st.hdr i).tag = t.msgTag) (h : t.Answers (st.msg i) (st.hdr i)) :
    Kept st (replyTo st i t) := by
  rw [replyTo_answered h]
  by_cases hp : (st.msg i).cb.posted
  · simp only [if_pos hp]
    have hk : Kept st (st.setMsg i ((st.msg i).setState .replyFound)) := kept_setMsg rfl rfl rfl
    exact ⟨hk.queue, hk.oops, hk.tag, hk.type, hk.maxLen, hk.expReply, hk.posted⟩
  simp only [if_neg hp]
  have hk : Kept st (st.setMsg i ((Msg.mk t.data (st.msg i).cb).setState .replyFound)) :=
    kept_setMsg rfl rfl rfl
  refine ⟨rfl, rfl, fun j => ?_, fun j => ?_, ?_, ?_, ?_⟩
  · rcases eq_or_ne j i with rfl | hj
    · simp [St.setMsg, htag]
    · simp only [St.setMsg, update_of_ne hj]
  · rcases eq_or_ne j i with rfl | hj
    · simp [St.setMsg, h.2.1, ccmReply_idem]
    · simp only [St.setMsg, update_of_ne hj]
  · simpa [St.setMsg] using hk.maxLen
  · simpa [St.setMsg] using hk.expReply
  · simpa [St.setMsg] using hk.posted

theorem kept_replyTo (htag : (st.hdr i).tag = t.msgTag) : Kept st (replyTo st i t) := by
  by_cases h : t.Answers (st.msg i) (st.hdr i)
  · exact kept_answered htag h
  · rw [replyTo_rejected h]
    exact kept_setMsg rfl rfl rfl

theorem replyTo_state {j : Id} (h : ((replyTo st i t).msg j).cb.state = .replyFound) :
    (st.msg j).cb.state = .replyFound ∨ (j = i ∧ t.Answers (st.msg i) (st.hdr i)) := by
  by_cases ha : t.Answers (st.msg i) (st.hdr i)
  · by_cases hj : j = i
    · exact .inr ⟨hj, ha⟩
    rw [replyTo_answered ha] at h
    left
    by_cases hp : (st.msg i).cb.posted
    · simpa only [if_pos hp, St.setMsg, update_of_ne hj] using h
    · simpa only [if_neg hp, St.setMsg, update_of_ne hj] using h
  · rw [replyTo_rejected ha] at h
    left
    rcases eq_or_ne j i with rfl | hj
    · simpa only [St.setMsg, update_self, Msg.setErr] using h
    · simpa only [St.setMsg, update_of_ne hj] using h

theorem copyOutTlv_effect (caps : MboxCaps) (st : St) (last : Id) (t : Tlv) (d : Nat) :
    (copyOutTlv caps st last d t).1 = st ∨
      ∃ i, t.HasMsg caps d ∧ nfpCcmMboxFindReq st t.msgTag last st.queue = some i ∧
        (copyOutTlv caps st last d t).1 = replyTo st i t := by
  simp only [copyOutTlv]
  split
  · exact .inl rfl
  case isFalse hfits =>
    split
    · exact .inl rfl
    split
    · exact .inl rfl
    split
    · exact .inl rfl
    case isFalse htype =>
      split
      · exact .inl rfl
      case isFalse hlen =>
        split
        · exact .inl rfl
        case h_2 i hfind =>
          exact .inr ⟨i, ⟨not_lt.mp hfits, by tauto, not_lt.mp hlen⟩, hfind, rfl⟩

theorem copyOutTlv_parsing {d' : Nat} :
    (copyOutTlv caps st last d t).2 = .parsing d' ↔
      (t.type = TlvType.code .resv ∨ (t.type = TlvType.code .msg ∨ t.type = TlvType.code .msgNosup) ∧
        4 ≤ t.length ∧ (nfpCcmMboxFindReq st t.msgTag last st.queue).isSome) ∧
      d' = d + 4 + roundUp4 t.length ∧ d' + 4 ≤ caps.mboxLen := by
  have hround := t.roundUp4_length
  have hphase : (if d + 4 + roundUp4 t.length + 4 > caps.mboxLen then Phase.parsed
      else .parsing (d + 4 + roundUp4 t.length)) = .parsing d' ↔
      d' = d + 4 + roundUp4 t.length ∧ d' + 4 ≤ caps.mboxLen := by
    split
    case isTrue hover => exact iff_of_false (fun h => nomatch h) fun h => by omega
    case isFalse hfits =>
      rw [Phase.parsing.injEq]
      exact ⟨fun h => ⟨h.symm, by omega⟩, fun h => h.1.symm⟩
  simp only [copyOutTlv]
  split
  case isTrue hover => exact iff_of_false (fun h => nomatch h) fun h => by omega
  split
  case isTrue hend =>
    refine iff_of_false (fun h => nomatch h) fun h => ?_
    rcases h.1 with hresv | ⟨hmsg | hnosup, -⟩
    · exact absurd (hend.symm.trans hresv) (by decide)
    · exact absurd (hend.symm.trans hmsg) (by decide)
    · exact absurd (hend.symm.trans hnosup) (by decide)
  split
  case isTrue hresv => exact hphase.trans ⟨fun h => ⟨.inl hresv, h⟩, fun h => h.2⟩
  case isFalse hresv =>
    split
    case isTrue hother =>
      refine iff_of_false (fun h => nomatch h) fun h => ?_
      have := h.1.resolve_left hresv
      tauto
    case isFalse hmsg =>
      split
      case isTrue hshort =>
        refine iff_of_false (fun h => nomatch h) fun h => ?_
        have := (h.1.resolve_left hresv).2.1
        omega
      case isFalse hlong =>
        cases nfpCcmMboxFindReq st t.msgTag last st.queue with
        | none => exact iff_of_false (fun h => nomatch h) fun h => nomatch (h.1.resolve_left hresv).2.2
        | some i => exact hphase.trans ⟨fun h => ⟨.inr ⟨by tauto, by omega, rfl⟩, h⟩, fun h => h.2⟩

theorem walkStep_inr (h : walkStep caps readl last w = .inr w') :
    w'.st = (copyOutTlv caps w.st last w.data (tlvAt caps readl w.data)).1 ∧ w'.data = tlvEnd caps readl w.data ∧
      w'.data + 4 ≤ caps.mboxLen := by
  rw [walkStep] at h
  split at h
  case h_1 st d heq =>
    cases h
    exact ⟨(congrArg Prod.fst heq).symm, (copyOutTlv_parsing.mp (congrArg Prod.snd heq)).2⟩
  case h_2 => cases h

theorem walkStep_inl (h : walkStep caps readl last w = .inl st) :
    st = (copyOutTlv caps w.st last w.data (tlvAt caps readl w.data)).1 := by
  rw [walkStep] at h
  split at h
  case h_1 => cases h
  case h_2 heq =>
    cases h
    exact (congrArg Prod.fst heq).symm

theorem walk_terminates (caps : MboxCaps) (readl : Nat → BitVec 32) (last : Id) (w : Walk) :
    ∃ st, Returns (walkStep caps readl last) w st := by
  refine Loop.terminates (fun _ => True) (fun w => caps.mboxLen - w.data) ?_ trivial
  intro w w' _ h
  obtain ⟨-, hdata, hle⟩ := walkStep_inr h
  rw [tlvEnd] at hdata
  exact ⟨trivial, by omega⟩

structure Walked (caps : MboxCaps) (readl : Nat → BitVec 32) (last : Id) (st₀ st : St) : Prop where
  kept : Kept st₀ st
  seen : ∀ i, (st.msg i).cb.state = .replyFound → (st₀.msg i).cb.state = .replyFound ∨ Seen caps readl st₀ last i

theorem Tlv.HasMsg.type_msg (h : t.HasMsg caps d) (hn : t.type ≠ TlvType.code .msgNosup) :
    t.type = TlvType.code .msg := h.2.1.resolve_right hn

theorem Walked.step (hr : Reaches (walkStep caps readl last) ⟨st₀, 0⟩ w) (hw : Walked caps readl last st₀ w.st) :
    Walked caps readl last st₀ (copyOutTlv caps w.st last w.data (tlvAt caps readl w.data)).1 := by
  rcases copyOutTlv_effect caps w.st last (tlvAt caps readl w.data) w.data with hsame | ⟨i, hmsg, hfind, hreply⟩
  · rw [hsame]
    exact hw
  rw [hreply]
  have htag := findReq_tag hfind
  refine ⟨hw.kept.trans (kept_replyTo htag), fun j hj => ?_⟩
  rcases replyTo_state hj with hold | ⟨rfl, hn, htype, hexp, -⟩
  · exact hw.seen j hold
  refine .inr ⟨w, hr, hmsg.type_msg hn, ?_, ?_, fun hz => ?_⟩
  · rw [← htag, hw.kept.tag]
  · rw [htype, hw.kept.type]
  · rw [hw.kept.expReply] at hexp
    exact hexp.resolve_left hz

theorem walked_reaches (h : Reaches (walkStep caps readl last) ⟨st₀, 0⟩ w) : Walked caps readl last st₀ w.st := by
  induction h with
  | refl => exact ⟨Kept.refl st₀, fun _ => .inl⟩
  | next hr hs ih =>
    rw [(walkStep_inr hs).1]
    exact ih.step hr

theorem walked_returns (hr : Reaches (walkStep caps readl last) ⟨st₀, 0⟩ w) {n : Nat}
    (h : exec (walkStep caps readl last) n w = some st) : Walked caps readl last st₀ st := by
  induction n generalizing w with
  | zero => cases h
  | succ n ih =>
    rw [exec] at h
    split at h
    case h_1 r hs =>
      cases h
      rw [walkStep_inl hs]
      exact (walked_reaches hr).step hr
    case h_2 w' hs => exact ih (.next hr hs) h

theorem stores_inside {p : Id × Region} (hal : ∀ i, copied caps readl last w = some i → (w.st.msg i).cb.maxLen % 4 = 0)
    (hp : p ∈ copyOutStores caps readl last w) : p.2.Inside (w.st.msg p.1).cb.maxLen := by
  rw [copyOutStores] at hp
  split at hp
  case h_2 => cases hp
  case h_1 i hc =>
    obtain ⟨k, hk, rfl⟩ := mem_map.mp hp
    have hlen := (copied_answers hc).2.2.2
    have haligned := hal i hc
    have hk' : k < ((tlvAt caps readl w.data).length + 3) / 4 := mem_range.mp hk
    exact Region.inside_iff.mpr (.inr (by simp only; omega))

theorem Kept.request (hk : Kept st₀ st) (hd : drain last st₀.queue = some (batch, rest)) :
    nfpCcmMboxFindReq st t.msgTag last st.queue = request st₀ batch t := by
  rw [findReq_eq (hk.queue ▸ hd)]
  simp only [Mbox.request, hk.tag]

theorem Kept.answers (hk : Kept st₀ st) : t.Answers (st.msg i) (st.hdr i) ↔ t.Answers (st₀.msg i) (st₀.hdr i) := by
  simp only [Tlv.Answers, hk.type, hk.expReply, hk.maxLen]

theorem Kept.copied_isSome (hk : Kept st₀ w.st) (hd : drain last st₀.queue = some (batch, rest)) :
    (copied caps readl last w).isSome ↔
      (tlvAt caps readl w.data).HasMsg caps w.data ∧ Delivered st₀ batch (tlvAt caps readl w.data) := by
  simp only [copied, hk.request hd, hk.answers, hk.posted]
  split
  case isFalse hm => exact iff_of_false (fun h => nomatch h) fun h => hm h.1
  case isTrue hm =>
    simp only [Delivered, hm, true_and, isSome_iff_exists, filter_eq_some_iff, decide_eq_true_eq]

theorem copied_mem (hd : drain last w.st.queue = some (batch, rest)) (h : copied caps readl last w = some i) :
    i ∈ batch := by
  rw [copied] at h
  split at h
  case isTrue =>
    have hfind := (filter_eq_some_iff.mp h).1
    rw [findReq_eq hd] at hfind
    exact mem_of_find?_eq_some hfind
  case isFalse => cases h

section Chain

variable (hd : drain last st₀.queue = some (batch, rest))

include hd

theorem walkStep_passed (hk : Kept st₀ w.st) :
    (∃ w', walkStep caps readl last w = .inr w') ↔
      PassedOver st₀ batch (tlvAt caps readl w.data) ∧ tlvEnd caps readl w.data + 4 ≤ caps.mboxLen := by
  have hparsing (d' : Nat) : (copyOutTlv caps w.st last w.data (tlvAt caps readl w.data)).2 = .parsing d' ↔
      PassedOver st₀ batch (tlvAt caps readl w.data) ∧ d' = tlvEnd caps readl w.data ∧ d' + 4 ≤ caps.mboxLen := by
    rw [copyOutTlv_parsing, hk.request hd]
    exact Iff.rfl
  constructor
  · rintro ⟨w', h⟩
    rw [walkStep] at h
    split at h
    case h_1 d heq =>
      obtain ⟨hpassed, rfl, hle⟩ := (hparsing d).mp (congrArg Prod.snd heq)
      exact ⟨hpassed, hle⟩
    case h_2 => cases h
  · rintro ⟨hpassed, hle⟩
    have hnext := (hparsing _).mpr ⟨hpassed, rfl, hle⟩
    rw [walkStep]
    cases hout : copyOutTlv caps w.st last w.data (tlvAt caps readl w.data) with
    | mk st phase =>
      rw [hout] at hnext
      cases hnext
      exact ⟨_, rfl⟩

theorem reaches_tlv (hf : MailboxFits caps readl st₀ batch) (hr : Reaches (walkStep caps readl last) ⟨st₀, 0⟩ w) :
    ∃ n, w.data = tlvStart caps readl n ∧ FirstPassed caps readl st₀ batch n := by
  induction hr with
  | refl => exact ⟨0, rfl, fun j hj => absurd hj (by omega)⟩
  | @next w w' hr hs ih =>
    obtain ⟨n, hw, hfirst⟩ := ih
    obtain ⟨hpassed, hle⟩ := (walkStep_passed hd (walked_reaches hr).kept).mp ⟨w', hs⟩
    refine ⟨n + 1, (walkStep_inr hs).2.1.trans (congrArg _ hw), fun j hj => ?_⟩
    rcases Nat.lt_succ_iff_lt_or_eq.mp hj with hj | rfl
    · exact hfirst j hj
    · rw [hw] at hpassed hle
      exact ⟨hpassed, ((hf.tlvs j hfirst).next hpassed).resolve_right (by omega)⟩

theorem tlv_reached {n : Nat} (hfirst : FirstPassed caps readl st₀ batch n) :
    ∃ w, Reaches (walkStep caps readl last) ⟨st₀, 0⟩ w ∧ w.data = tlvStart caps readl n := by
  induction n with
  | zero => exact ⟨_, .refl, rfl⟩
  | succ n ih =>
    obtain ⟨w, hr, hw⟩ := ih fun j hj => hfirst j (by omega)
    obtain ⟨hpassed, hle⟩ := hfirst n (by omega)
    rw [← hw] at hpassed
    rw [tlvStart, ← hw] at hle ⊢
    obtain ⟨w', hs⟩ := (walkStep_passed hd (walked_reaches hr).kept).mpr ⟨hpassed, by omega⟩
    exact ⟨w', .next hr hs, (walkStep_inr hs).2.1⟩

theorem reads_fit_iff :
    (∀ w, Reaches (walkStep caps readl last) ⟨st₀, 0⟩ w → ∀ r ∈ copyOutReads caps readl last w, InMailbox caps r) ↔
      MailboxFits caps readl st₀ batch := by
  constructor
  · intro hin
    refine ⟨(reads_inside_iff.mp (hin _ .refl)).1, fun n hfirst => ?_⟩
    obtain ⟨w, hr, hw⟩ := tlv_reached hd hfirst
    have hkept := (walked_reaches hr).kept
    obtain ⟨-, hmsg⟩ := reads_inside_iff.mp (hin w hr)
    rw [← hw]
    refine ⟨fun hpassed => ?_, fun h => (hmsg h).1, fun h hdel => (hmsg h).2 ((hkept.copied_isSome hd).mpr ⟨h, hdel⟩)⟩
    by_cases hle : tlvEnd caps readl w.data + 4 ≤ caps.mboxLen
    · obtain ⟨w', hs⟩ := (walkStep_passed hd hkept).mpr ⟨hpassed, hle⟩
      have hnext := (reads_inside_iff.mp (hin w' (.next hr hs))).1
      rw [(walkStep_inr hs).2.1] at hnext
      exact .inl hnext
    · exact .inr (by omega)
  · intro hf w hr
    obtain ⟨n, hw, hfirst⟩ := reaches_tlv hd hf hr
    have hfits := hf.tlvs n hfirst
    rw [← hw] at hfits
    refine reads_inside_iff.mpr ⟨?_, fun h => ⟨hfits.word h, fun hc => ?_⟩⟩
    · cases n with
      | zero =>
        rw [hw]
        exact hf.first
      | succ n =>
        rw [hw]
        exact (hfirst n (by omega)).2
    · exact hfits.reply h (((walked_reaches hr).kept.copied_isSome hd).mp hc).2

end Chain

theorem markNext_err (st : St) (i : Id) : ((nfpCcmMboxMarkNextRunner st).msg i).cb.err = (st.msg i).cb.err := by
  rw [nfpCcmMboxMarkNextRunner]
  split
  · rfl
  case h_2 j q hq =>
    have hset : ((st.setMsg j ((st.msg j).setState .next)).msg i).cb.err = (st.msg i).cb.err := by
      rcases eq_or_ne i j with rfl | hi
      · simp [St.setMsg, Msg.setState]
      · simp only [St.setMsg, update_of_ne hi]
    dsimp only
    split
    · exact hset
    · exact hset

theorem markNext_oops (st : St) : (nfpCcmMboxMarkNextRunner st).oops = st.oops := by
  rw [nfpCcmMboxMarkNextRunner]
  split
  · rfl
  · dsimp only
    split <;> rfl

theorem dequeueBatch_completed (hd : drain last st.queue = some (batch, rest)) (hi : i ∈ batch)
    (h : ((dequeueBatch last copyOutDone st).msg i).cb.err = none) : (st.msg i).cb.state = .replyFound := by
  rw [dequeueBatch, hd] at h
  rw [markNext_err] at h
  by_contra hne
  simp [St.mapMsgs, if_pos hi, copyOutDone, hne, Msg.setErr, Msg.setState] at h

theorem dequeueBatch_oops {f : Msg → Msg} (hd : drain last st.queue = some (batch, rest)) :
    (dequeueBatch last f st).oops = st.oops := by
  rw [dequeueBatch, hd]
  rw [markNext_oops]
  rfl

def oneWaiting : St :=
  { init with queue := [0], msg := fun _ => knownReply.setState .next, hdr := fun _ => ⟨10, 1⟩ }

theorem oneWaiting_sent : Sent defaultCaps oneWaiting 0 [0] [] :=
  ⟨rfl, fun _ _ => ⟨knownReply, knownReply_accepted, rfl⟩, fun _ _ h => nomatch h⟩

-- the reply to the request, reserved space, END
def replied (off : Nat) : BitVec 32 :=
  if off = dataOff defaultCaps 0 then tlvWord .msg 4
  else if off = dataOff defaultCaps 4 then 0x8a010001
  else if off = dataOff defaultCaps 8 then tlvWord .resv 16
  else tlvWord .endTlv 0

instance (st : St) (batch : List Id) (t : Tlv) : Decidable (PassedOver st batch t) :=
  inferInstanceAs (Decidable (_ ∨ _ ∧ _ ∧ _))

def resvToEnd (off : Nat) : BitVec 32 := if off = dataOff defaultCaps 0 then tlvWord .resv 492 else tlvWord .endTlv 0

end NfpDriver.Mbox
