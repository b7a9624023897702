import NfpDriver.Ccm.Tags

namespace NfpDriver.Tags

open Runs Function List Option Nat

structure Sound (st : St) : Prop where
  alloc : st.ccm.allocWarned = false
  window : ∀ t, st.ccm.tagAllocator t = true →
    (t - st.ccm.tagAllocLast).toNat < (st.ccm.tagAllocNext - st.ccm.tagAllocLast).toNat
  size : (st.ccm.tagAllocNext - st.ccm.tagAllocLast).toNat ≤ 16384
  free : st.ccm.freeWarned = false
  held : ∀ t, st.ccm.tagAllocator t = true ↔ ∃ k < st.issued, (st.calls k).pc.active = true ∧ (st.calls k).tag = t
  holder : ∀ j < st.issued, ∀ k < st.issued, (st.calls j).pc.active = true → (st.calls k).pc.active = true →
    (st.calls j).tag = (st.calls k).tag → j = k
  once : ∀ t, st.ccm.allocs t = st.ccm.frees t + if st.ccm.tagAllocator t then 1 else 0

structure Matched (st : St) : Prop where
  replies : ∀ skb ∈ st.ccm.replies, st.ccm.tagAllocator skb.tag = true
  own : ∀ k < st.issued, ∀ skb, (st.calls k).got = some skb → skb.req = k

def Timely (st : St) : Action → Prop
  | .rx k _ _ => st.issued ≤ k + 65536
  | _ => True

structure Moves (call call' : Call) : Prop where
  tag : call'.tag = call.tag
  active : call'.pc.active = call.pc.active
  got : call'.got = call.got

structure Finishes (call call' : Call) (got : Option Skb) : Prop where
  tag : call'.tag = call.tag
  active : call'.pc.active = false
  got : call'.got = got
  answered : call'.answered = call.answered

inductive Transition (st : St) : Action → St → Prop where
  | busy {a : Action} : Transition st a st
  | issue {a : Action} {call : Call} (free : nfpCcmAllTagsBusy st.ccm = false) (tag : call.tag = st.ccm.tagAllocNext)
    (active : call.pc.active = true) (got : call.got = none) (answered : call.answered = false) :
    Transition st a ⟨{ st.ccm with
        allocWarned := st.ccm.allocWarned || st.ccm.tagAllocator st.ccm.tagAllocNext
        allocs := Function.update st.ccm.allocs st.ccm.tagAllocNext (st.ccm.allocs st.ccm.tagAllocNext + 1)
        tagAllocator := Function.update st.ccm.tagAllocator st.ccm.tagAllocNext true
        tagAllocNext := st.ccm.tagAllocNext + 1 }, st.issued + 1, Function.update st.calls st.issued call⟩
  | move {a : Action} {k : Nat} {call : Call} (hk : k < st.issued) (hm : Moves (st.calls k) call)
    (answered : call.answered = (st.calls k).answered) : Transition st a (st.set st.ccm k call)
  | take {a : Action} {k : Nat} {call : Call} {skb : Skb} (hk : k < st.issued) (active : (st.calls k).pc.active = true)
    (mem : st.ccm.replies.find? (fun skb => skb.tag = (st.calls k).tag) = some skb)
    (hf : Finishes (st.calls k) call (some skb)) :
    Transition st a (st.set { nfpCcmFreeTag st.ccm (st.calls k).tag with
      replies := st.ccm.replies.eraseP fun skb => skb.tag = (st.calls k).tag } k call)
  | giveUp {a : Action} {k : Nat} {call : Call} (hk : k < st.issued) (active : (st.calls k).pc.active = true)
    (mem : st.ccm.replies.find? (fun skb => skb.tag = (st.calls k).tag) = none)
    (hf : Finishes (st.calls k) call none) : Transition st a (st.set (nfpCcmFreeTag st.ccm (st.calls k).tag) k call)
  | rx {k : Nat} {type : BitVec 8} {len : Nat} (hk : k < st.issued) (fresh : (st.calls k).answered = false) :
    Transition st (.rx k type len)
      (st.set (nfpCcmRx st.ccm ⟨(st.calls k).tag, type, len, k⟩) k { st.calls k with answered := true })

variable {a : Action} {k L len i : Nat} {st st' : St} {call : Call} {ccm : Ccm} {got : Option Skb} {skb : Skb}

theorem reply_transition (call : Call) (hk : k < st.issued) (active : (st.calls k).pc.active = true)
    (hm : Moves (st.calls k) call) (answered : call.answered = (st.calls k).answered)
    (h : (match nfpCcmReply st.ccm (st.calls k).tag with
      | (ccm, some skb) => some (st.set ccm k ((st.calls k).receive skb))
      | (ccm, none) => some (st.set ccm k call)) = some st') : Transition st a st' := by
  rw [nfpCcmReply] at h
  cases hr : st.ccm.replies.find? fun skb => skb.tag = (st.calls k).tag with
  | none =>
    rw [hr] at h
    cases h
    exact .move hk hm answered
  | some skb =>
    rw [hr] at h
    cases h
    exact .take hk active hr ⟨rfl, rfl, rfl, rfl⟩

theorem step_transition (h : step st a = some st') : Transition st a st' := by
  cases a with
  | issue type replySize =>
    rw [step, nfpCcmAllocTag] at h
    cases hb : nfpCcmAllTagsBusy st.ccm with
    | true =>
      rw [hb, if_pos rfl] at h
      cases h
      exact .busy
    | false =>
      rw [hb, if_neg Bool.false_ne_true] at h
      cases h
      exact .issue hb rfl rfl rfl rfl
  | poll k =>
    obtain ⟨hk, h⟩ := ite_none_right_eq_some.mp h
    cases hpc : (st.calls k).pc with
    | polling i =>
      rw [hpc] at h
      refine reply_transition { st.calls k with pc := if i + 1 < 50 then .polling (i + 1) else .waiting } hk
        (by rw [hpc]; rfl) ⟨rfl, ?_, rfl⟩ rfl h
      rw [hpc]
      split <;> rfl
    | waiting | dropping | done =>
      rw [hpc] at h
      cases h
  | wait k =>
    obtain ⟨⟨hk, hpc⟩, h⟩ := ite_none_right_eq_some.mp h
    exact reply_transition (st.calls k) hk (by rw [hpc]; rfl) ⟨rfl, rfl, rfl⟩ rfl h
  | stop k err =>
    obtain ⟨⟨hk, hpc, -⟩, h⟩ := ite_none_right_eq_some.mp h
    cases h
    exact .move hk ⟨rfl, by rw [hpc]; rfl, rfl⟩ rfl
  | drop k =>
    obtain ⟨hk, h⟩ := ite_none_right_eq_some.mp h
    cases hpc : (st.calls k).pc with
    | dropping err =>
      rw [hpc, nfpCcmReplyDropTag, nfpCcmReply] at h
      have hactive : (st.calls k).pc.active = true := by
        rw [hpc]
        rfl
      cases hr : st.ccm.replies.find? fun skb => skb.tag = (st.calls k).tag with
      | none =>
        rw [hr] at h
        cases h
        exact .giveUp hk hactive hr ⟨rfl, rfl, rfl, rfl⟩
      | some skb =>
        rw [hr] at h
        cases h
        exact .take hk hactive hr ⟨rfl, rfl, rfl, rfl⟩
    | waiting | polling | done =>
      rw [hpc] at h
      cases h
  | rx k type len =>
    obtain ⟨⟨hk, hfresh⟩, h⟩ := ite_none_right_eq_some.mp h
    cases h
    exact .rx hk hfresh

structure Window (L : Nat) (st : St) : Prop where
  le : L ≤ st.issued
  size : st.issued ≤ L + 16384
  next : st.ccm.tagAllocNext = BitVec.ofNat 16 st.issued
  last : st.ccm.tagAllocLast = BitVec.ofNat 16 L
  tag : ∀ k < st.issued, (st.calls k).tag = BitVec.ofNat 16 k
  active : ∀ k < st.issued, (st.calls k).pc.active = true → L ≤ k
  bits : ∀ t, st.ccm.tagAllocator t = true ↔ ∃ k < st.issued, (st.calls k).pc.active = true ∧ t = BitVec.ofNat 16 k
  alloc : st.ccm.allocWarned = false
  free : st.ccm.freeWarned = false
  once : ∀ t, st.ccm.allocs t = st.ccm.frees t + if st.ccm.tagAllocator t then 1 else 0

section Window

variable {L : Nat} {st : St} (h : Window L st)

include h

theorem Window.tag_inj {j : Nat} (hj : L ≤ j) (hj' : j ≤ st.issued) (hk : L ≤ k) (hk' : k ≤ st.issued)
    (heq : BitVec.ofNat 16 j = BitVec.ofNat 16 k) : j = k := by
  have := h.size
  exact ofNat_inj heq (by omega) (by omega)

theorem Window.sound : Sound st where
  alloc := h.alloc
  window t ht := by
    have hle := h.le
    have hsize := h.size
    obtain ⟨k, hk, hact, rfl⟩ := (h.bits t).mp ht
    have hLk := h.active k hk hact
    rw [h.last, h.next, ofNat_sub_toNat hLk (by omega), ofNat_sub_toNat hle (by omega)]
    omega
  size := by
    have hsize := h.size
    rw [h.last, h.next, ofNat_sub_toNat h.le (by omega)]
    omega
  free := h.free
  held t := by
    rw [h.bits]
    exact exists_congr fun k => and_congr_right fun hk => and_congr_right fun _ => by rw [h.tag k hk, eq_comm]
  holder j hj k hk hactj hactk heq := by
    rw [h.tag j hj, h.tag k hk] at heq
    exact h.tag_inj (h.active j hj hactj) (le_of_lt hj) (h.active k hk hactk) (le_of_lt hk) heq
  once := h.once

theorem Window.issue (hb : nfpCcmAllTagsBusy st.ccm = false) (tag : call.tag = st.ccm.tagAllocNext)
    (active : call.pc.active = true) :
    Window L ⟨{ st.ccm with
      allocWarned := st.ccm.allocWarned || st.ccm.tagAllocator st.ccm.tagAllocNext
      allocs := update st.ccm.allocs st.ccm.tagAllocNext (st.ccm.allocs st.ccm.tagAllocNext + 1)
      tagAllocator := update st.ccm.tagAllocator st.ccm.tagAllocNext true
      tagAllocNext := st.ccm.tagAllocNext + 1 }, st.issued + 1, update st.calls st.issued call⟩ := by
  have hle := h.le
  have hsize := h.size
  have hused : st.issued - L ≤ 16383 := by
    rw [nfpCcmAllTagsBusy, h.last, h.next, ofNat_sub_toNat hle (by omega)] at hb
    simpa using hb
  have hfresh : st.ccm.tagAllocator st.ccm.tagAllocNext = false := by
    rw [← Bool.not_eq_true, h.bits]
    rintro ⟨k, hk, hact, heq⟩
    rw [h.next] at heq
    have := h.tag_inj hle (Nat.le_refl _) (h.active k hk hact) (Nat.le_of_lt hk) heq
    omega
  have hold {k : Nat} (hk : k < st.issued + 1) (hne : k ≠ st.issued) : k < st.issued := by omega
  constructor
  · simp only
    omega
  · simp only
    omega
  · simp only [h.next]
    exact ofNat_succ _
  · exact h.last
  · refine (forall_update_iff st.calls fun k c => k < st.issued + 1 → c.tag = BitVec.ofNat 16 k).mpr
      ⟨fun _ => tag.trans h.next, fun k hne hk => h.tag k (hold hk hne)⟩
  · refine (forall_update_iff st.calls fun k c => k < st.issued + 1 → c.pc.active = true → L ≤ k).mpr
      ⟨fun _ _ => hle, fun k hne hk => h.active k (hold hk hne)⟩
  · intro t
    by_cases ht : t = st.ccm.tagAllocNext
    · simp only [ht, update_self, true_iff]
      exact ⟨st.issued, lt_succ_self _, by rw [update_self]; exact active, h.next⟩
    simp only [update_of_ne ht, h.bits]
    constructor
    · rintro ⟨k, hk, hact, heq⟩
      exact ⟨k, lt_succ_of_lt hk, by rw [update_of_ne (Nat.ne_of_lt hk)]; exact hact, heq⟩
    · rintro ⟨k, hk, hact, rfl⟩
      have hne : k ≠ st.issued := by
        rintro rfl
        exact ht h.next.symm
      rw [update_of_ne hne] at hact
      exact ⟨k, hold hk hne, hact, rfl⟩
  · simp [h.alloc, hfresh]
  · exact h.free
  · intro t
    have honce := h.once t
    by_cases ht : t = st.ccm.tagAllocNext
    · rw [ht, hfresh] at honce
      simp only [ht, update_self, if_true]
      exact congrArg (· + 1) honce
    · simp only [update_of_ne ht]
      exact honce

theorem Window.move (hm : Moves (st.calls k) call) (hnext : ccm.tagAllocNext = st.ccm.tagAllocNext)
    (hlast : ccm.tagAllocLast = st.ccm.tagAllocLast) (hbits : ccm.tagAllocator = st.ccm.tagAllocator)
    (halloc : ccm.allocWarned = st.ccm.allocWarned) (hfree : ccm.freeWarned = st.ccm.freeWarned)
    (hallocs : ccm.allocs = st.ccm.allocs) (hfrees : ccm.frees = st.ccm.frees) : Window L (st.set ccm k call) := by
  have hsame := (forall_update_iff st.calls fun j c => Moves (st.calls j) c).mpr ⟨hm, fun _ _ => ⟨rfl, rfl, rfl⟩⟩
  constructor
  · exact h.le
  · exact h.size
  · exact hnext.trans h.next
  · exact hlast.trans h.last
  · exact fun j hj => (hsame j).tag.trans (h.tag j hj)
  · exact fun j hj hact => h.active j hj ((hsame j).active.symm.trans hact)
  · intro t
    simp only [St.set, hbits, h.bits, (hsame _).active]
  · exact halloc.trans h.alloc
  · exact hfree.trans h.free
  · intro t
    simp only [St.set, hallocs, hfrees, hbits]
    exact h.once t

theorem Window.finish (hk : k < st.issued) (hact : (st.calls k).pc.active = true)
    (hf : Finishes (st.calls k) call got) (replies : List Skb) :
    ∃ L', Window L' (st.set { nfpCcmFreeTag st.ccm (st.calls k).tag with replies := replies } k call) := by
  have hle := h.le
  have hsize := h.size
  have htag := h.tag k hk
  have hLk := h.active k hk hact
  have hbit : st.ccm.tagAllocator (BitVec.ofNat 16 k) = true := (h.bits _).mpr ⟨k, hk, hact, rfl⟩
  obtain ⟨L', h1, h2, hlast, hclear, -⟩ :=
    advanceLast_spec (update st.ccm.tagAllocator (BitVec.ofNat 16 k) false) (2 ^ 16) hle
      (by omega : st.issued < L + 65536) (by omega)
  have hother {j : Nat} (hj : j < st.issued) (hact' : (update st.calls k call j).pc.active = true) :
      j ≠ k ∧ (st.calls j).pc.active = true := by
    have hne : j ≠ k := by
      rintro rfl
      rw [update_self, hf.active] at hact'
      exact Bool.false_ne_true hact'
    rw [update_of_ne hne] at hact'
    exact ⟨hne, hact'⟩
  have hbits (t : Tag) : update st.ccm.tagAllocator (BitVec.ofNat 16 k) false t = true ↔
      ∃ j < st.issued, (update st.calls k call j).pc.active = true ∧ t = BitVec.ofNat 16 j := by
    constructor
    · intro ht
      have hne : t ≠ BitVec.ofNat 16 k := by
        rintro rfl
        rw [update_self] at ht
        exact Bool.false_ne_true ht
      rw [update_of_ne hne] at ht
      obtain ⟨j, hj, hactj, rfl⟩ := (h.bits t).mp ht
      have hjk : j ≠ k := fun heq => hne (heq ▸ rfl)
      exact ⟨j, hj, by rw [update_of_ne hjk]; exact hactj, rfl⟩
    · rintro ⟨j, hj, hact', rfl⟩
      obtain ⟨hne, hactj⟩ := hother hj hact'
      have hLj := h.active j hj hactj
      have htne : BitVec.ofNat 16 j ≠ BitVec.ofNat 16 k := fun heq =>
        hne (h.tag_inj hLj (le_of_lt hj) hLk (le_of_lt hk) heq)
      rw [update_of_ne htne]
      exact (h.bits _).mpr ⟨j, hj, hactj, rfl⟩
  refine ⟨L', h2, by simp only [St.set]; omega, h.next, ?_, ?_, ?_, ?_, h.alloc, ?_, ?_⟩
  · simp only [St.set, nfpCcmFreeTag, htag, h.last, h.next]
    exact hlast
  · refine (forall_update_iff st.calls fun j c => j < st.issued → c.tag = BitVec.ofNat 16 j).mpr
      ⟨fun _ => ?_, fun j _ => h.tag j⟩
    exact hf.tag.trans htag
  · intro j hj hact'
    by_contra hlt
    have hset := (hbits (BitVec.ofNat 16 j)).mpr ⟨j, hj, hact', rfl⟩
    rw [hclear j (h.active j hj (hother hj hact').2) (by omega)] at hset
    exact Bool.false_ne_true hset
  · intro t
    simp only [St.set, nfpCcmFreeTag, htag]
    exact hbits t
  · simp only [St.set, nfpCcmFreeTag, htag, h.free, hbit]
    rfl
  · intro t
    have honce := h.once t
    by_cases ht : t = BitVec.ofNat 16 k
    · rw [ht, hbit] at honce
      simp only [St.set, nfpCcmFreeTag, htag, ht, update_self]
      exact honce
    · simp only [St.set, nfpCcmFreeTag, htag, update_of_ne ht]
      exact honce

end Window

theorem rx_frame (c : Ccm) (skb : Skb) : nfpCcmRx c skb = { c with replies := (nfpCcmRx c skb).replies } := by
  rw [nfpCcmRx]
  split
  · rfl
  split <;> rfl

theorem window_step (h : Window L st) (hs : step st a = some st') : ∃ L', Window L' st' := by
  cases step_transition hs with
  | busy => exact ⟨L, h⟩
  | issue free tag active got answered => exact ⟨L, h.issue free tag active⟩
  | move hk hm answered => exact ⟨L, h.move hm rfl rfl rfl rfl rfl rfl rfl⟩
  | take hk active _ hf | giveUp hk active _ hf => exact h.finish hk active hf _
  | @rx k type len hk fresh =>
    have hm : Moves (st.calls k) { st.calls k with answered := true } := ⟨rfl, rfl, rfl⟩
    rw [rx_frame]
    exact ⟨L, h.move hm rfl rfl rfl rfl rfl rfl rfl⟩

theorem window_start : Window 0 start := by
  refine ⟨le_rfl, Nat.zero_le _, rfl, rfl, ?_, ?_, fun t => ?_, rfl, rfl, fun _ => rfl⟩
  · exact fun k hk => absurd hk (Nat.not_lt_zero _)
  · exact fun k hk => absurd hk (Nat.not_lt_zero _)
  · exact ⟨Bool.noConfusion, fun ⟨k, hk, _⟩ => absurd hk (Nat.not_lt_zero _)⟩

structure Owned (st : St) : Prop where
  tag : ∀ skb ∈ st.ccm.replies, skb.tag = BitVec.ofNat 16 skb.req
  live : ∀ skb ∈ st.ccm.replies, skb.req < st.issued ∧ (st.calls skb.req).pc.active = true
  answered : ∀ skb ∈ st.ccm.replies, (st.calls skb.req).answered = true
  nodup : (st.ccm.replies.map Skb.req).Nodup
  own : ∀ k < st.issued, ∀ skb, (st.calls k).got = some skb → skb.req = k

theorem Owned.matched (hw : Window L st) (h : Owned st) : Matched st where
  replies skb hs := (hw.bits _).mpr ⟨skb.req, (h.live skb hs).1, (h.live skb hs).2, h.tag skb hs⟩
  own := h.own

section Owned

variable {L : Nat} {st : St} (h : Owned st)

include h

theorem Owned.issue (got : call.got = none) (hr : ccm.replies = st.ccm.replies) :
    Owned ⟨ccm, st.issued + 1, update st.calls st.issued call⟩ := by
  have hold {skb : Skb} (hs : skb ∈ st.ccm.replies) : skb.req ≠ st.issued := Nat.ne_of_lt (h.live skb hs).1
  constructor
  · simp only [hr]
    exact h.tag
  · simp only [hr]
    intro skb hs
    rw [update_of_ne (hold hs)]
    exact ⟨lt_succ_of_lt (h.live skb hs).1, (h.live skb hs).2⟩
  · simp only [hr]
    intro skb hs
    rw [update_of_ne (hold hs)]
    exact h.answered skb hs
  · simp only [hr]
    exact h.nodup
  · intro k hk skb hg
    by_cases hne : k = st.issued
    · simp only [hne, update_self, got] at hg
      cases hg
    · simp only [update_of_ne hne] at hg
      exact h.own k (Nat.lt_of_le_of_ne (le_of_lt_succ hk) hne) skb hg

theorem Owned.found (hw : Window L st) (hk : k < st.issued) (hact : (st.calls k).pc.active = true)
    (hs : skb ∈ st.ccm.replies) (ht : skb.tag = (st.calls k).tag) : skb.req = k := by
  obtain ⟨hreq, hreq'⟩ := h.live skb hs
  rw [h.tag skb hs, hw.tag k hk] at ht
  exact hw.tag_inj (hw.active _ hreq hreq') (le_of_lt hreq) (hw.active k hk hact) (le_of_lt hk) ht

theorem Owned.finish (hf : Finishes (st.calls k) call got) (hgot : ∀ skb, got = some skb → skb.req = k)
    (hsub : ccm.replies.Sublist st.ccm.replies) (hgone : ∀ skb ∈ ccm.replies, skb.req ≠ k) :
    Owned (st.set ccm k call) := by
  constructor
  · exact fun skb hs => h.tag skb (hsub.subset hs)
  · intro skb hs
    simp only [St.set, update_of_ne (hgone skb hs)]
    exact h.live skb (hsub.subset hs)
  · intro skb hs
    simp only [St.set, update_of_ne (hgone skb hs)]
    exact h.answered skb (hsub.subset hs)
  · exact (hsub.map _).nodup h.nodup
  · refine (forall_update_iff st.calls fun j c => j < st.issued → ∀ skb, c.got = some skb → skb.req = j).mpr
      ⟨fun _ skb hg => ?_, fun j _ => h.own j⟩
    exact hgot skb (hf.got.symm.trans hg)

theorem Owned.erased (hfind : st.ccm.replies.find? (fun skb => skb.tag = (st.calls k).tag) = some skb)
    (hreq : skb.req = k) :
    skb ∈ st.ccm.replies ∧ skb.tag = (st.calls k).tag ∧
      ∀ s ∈ st.ccm.replies.eraseP fun skb => skb.tag = (st.calls k).tag, s.req ≠ k := by
  obtain ⟨hp, as, bs, heq, hall⟩ := find?_eq_some_iff_append.mp hfind
  have herase : (st.ccm.replies.eraseP fun skb => skb.tag = (st.calls k).tag) = as ++ bs := by
    rw [heq, eraseP_append_right _ fun b hb => by simpa using hall b hb, eraseP_cons, hp]
    rfl
  refine ⟨heq ▸ by simp, of_decide_eq_true hp, fun s hs hsk => ?_⟩
  have hnd := h.nodup
  rw [herase] at hs
  rw [heq, map_append, map_cons, nodup_middle, nodup_cons, ← map_append] at hnd
  exact hnd.1 (mem_map.mpr ⟨s, hs, hsk.trans hreq.symm⟩)

theorem Owned.move (hm : Moves (st.calls k) call) (answered : (st.calls k).answered = true → call.answered = true) :
    Owned (st.set st.ccm k call) := by
  have hsame := (forall_update_iff st.calls fun j c => Moves (st.calls j) c ∧
    ((st.calls j).answered = true → c.answered = true)).mpr ⟨⟨hm, answered⟩, fun _ _ => ⟨⟨rfl, rfl, rfl⟩, id⟩⟩
  constructor
  · exact h.tag
  · exact fun skb hs => ⟨(h.live skb hs).1, (hsame _).1.active.trans (h.live skb hs).2⟩
  · exact fun skb hs => (hsame _).2 (h.answered skb hs)
  · exact h.nodup
  · exact fun j hj skb hg => h.own j hj skb ((hsame j).1.got.symm.trans hg)

theorem Owned.rx (hw : Window L st) {type : BitVec 8} (hk : k < st.issued) (fresh : (st.calls k).answered = false)
    (ht : st.issued ≤ k + 65536) :
    Owned (st.set (nfpCcmRx st.ccm ⟨(st.calls k).tag, type, len, k⟩) k { st.calls k with answered := true }) := by
  have hmove : Owned (st.set st.ccm k { st.calls k with answered := true }) :=
    h.move ⟨rfl, rfl, rfl⟩ fun _ => rfl
  rw [nfpCcmRx]
  split
  · exact hmove
  split
  · exact hmove
  next hbit =>
  have hlive : (st.calls k).pc.active = true := by
    rw [Bool.not_eq_false, hw.tag k hk] at hbit
    obtain ⟨j, hj, hact, heq⟩ := (hw.bits _).mp hbit
    have hsize := hw.size
    have hLj := hw.active j hj hact
    rwa [ofNat_inj heq (by omega) (by omega)]
  constructor
  · intro skb hs
    rcases mem_append.mp hs with hs | hs
    · exact h.tag skb hs
    · rw [mem_singleton.mp hs]
      exact hw.tag k hk
  · intro skb hs
    rcases mem_append.mp hs with hs | hs
    · exact hmove.live skb hs
    · rw [mem_singleton.mp hs]
      simp only [St.set, update_self]
      exact ⟨hk, hlive⟩
  · intro skb hs
    rcases mem_append.mp hs with hs | hs
    · exact hmove.answered skb hs
    · rw [mem_singleton.mp hs]
      simp [St.set]
  · simp only [St.set, map_append, map_cons, map_nil]
    refine (nodup_middle.mpr ?_)
    rw [append_nil, nodup_cons]
    refine ⟨fun hmem => ?_, h.nodup⟩
    obtain ⟨skb, hs, heq⟩ := mem_map.mp hmem
    have := h.answered skb hs
    rw [heq, fresh] at this
    exact Bool.false_ne_true this
  · exact hmove.own

end Owned

theorem owned_step (hw : Window L st) (h : Owned st) (ht : Timely st a) (hs : step st a = some st') : Owned st' := by
  cases step_transition hs with
  | busy => exact h
  | issue free tag active got answered => exact h.issue got rfl
  | move hk hm answered => exact h.move hm fun ha => answered.trans ha
  | @take _ k call skb hk active mem hf =>
    have hskb := find?_some mem
    have hreq := h.found hw hk active (mem_of_find?_eq_some mem) (of_decide_eq_true hskb)
    refine h.finish hf (fun s hs => ?_) eraseP_sublist (h.erased mem hreq).2.2
    rw [← some.inj hs]
    exact hreq
  | @giveUp _ k call hk active mem hf =>
    refine h.finish hf (fun s hs => absurd hs (some_ne_none s).symm) (Sublist.refl _) fun s hs heq => ?_
    refine find?_eq_none.mp mem s hs (decide_eq_true ?_)
    rw [h.tag s hs, heq, hw.tag k hk]
  | rx hk fresh => exact h.rx hw hk fresh ht

theorem owned_start : Owned start := by
  refine ⟨?_, ?_, ?_, nodup_nil, fun k hk => absurd hk (Nat.not_lt_zero _)⟩ <;>
    exact fun skb hs => absurd hs not_mem_nil

structure Inv (st : St) : Prop where
  window : ∃ L, Window L st
  owned : Owned st

theorem inv_step (hi : Inv st) (ht : Timely st a) (hs : step st a = some st') : Inv st' := by
  obtain ⟨L, hw⟩ := hi.window
  exact ⟨window_step hw hs, owned_step hw hi.owned ht hs⟩

theorem ccm_replies_matched (as : List Action) :
    Always step Sound start as ∧ (Guarded step Timely start as → Always step Matched start as) := by
  constructor
  · refine always_of_invariant (I := fun st => ∃ L, Window L st) (fun s a s' hw hs => ?_) (fun s hw => ?_)
      ⟨0, window_start⟩ as
    · obtain ⟨L, hw⟩ := hw
      exact window_step hw hs
    · obtain ⟨L, hw⟩ := hw
      exact hw.sound
  · refine always_of_guarded (I := Inv) (fun s a s' hi ht hs => inv_step hi ht hs) (fun s hi => ?_)
      ⟨⟨0, window_start⟩, owned_start⟩
    obtain ⟨L, hw⟩ := hi.window
    exact hi.owned.matched hw

theorem promptReply_matched :
    Guarded step Timely start [.issue 1 0, .rx 0 0x81 4, .poll 0] ∧
      Always step Matched start [.issue 1 0, .rx 0 0x81 4, .poll 0] := by
  have hg : Guarded step Timely start [.issue 1 0, .rx 0 0x81 4, .poll 0] := by
    refine ⟨trivial, fun s hs => ⟨?_, fun _ _ => ⟨trivial, fun _ _ => trivial⟩⟩⟩
    have hissued : s.issued = 1 := by
      rw [← some.inj hs]
      rfl
    rw [Timely, hissued]
    decide
  exact ⟨hg, (ccm_replies_matched _).2 hg⟩

section Late

structure Alone (n : Nat) (held : Bool) (pc : Pc) (st : St) : Prop where
  issued : st.issued = n + 1
  bits : st.ccm.tagAllocator = Function.update (fun _ => false) (BitVec.ofNat 16 n) held
  next : st.ccm.tagAllocNext = BitVec.ofNat 16 (n + 1)
  last : st.ccm.tagAllocLast = BitVec.ofNat 16 (if held then n else n + 1)
  replies : st.ccm.replies = []
  tag : ∀ k ≤ n, (st.calls k).tag = BitVec.ofNat 16 k
  fresh : ∀ k ≤ n, (st.calls k).answered = false
  pc : (st.calls n).pc = pc

variable {n : Nat} {st : St}

theorem Alone.set {held : Bool} {pc : Pc} (h : Alone n held pc st) (call : Call) (tag : call.tag = (st.calls n).tag)
    (answered : call.answered = (st.calls n).answered) : Alone n held call.pc (st.set st.ccm n call) := by
  have hsame := (forall_update_iff st.calls fun k c =>
    c.tag = (st.calls k).tag ∧ c.answered = (st.calls k).answered).mpr ⟨⟨tag, answered⟩, fun _ _ => ⟨rfl, rfl⟩⟩
  refine ⟨h.issued, h.bits, h.next, h.last, h.replies, fun k hk => ?_, fun k hk => ?_, ?_⟩
  · exact (hsame k).1.trans (h.tag k hk)
  · exact (hsame k).2.trans (h.fresh k hk)
  · simp [St.set]

theorem Alone.poll (h : Alone n true (.polling i) st) :
    ∃ st', step st (.poll n) = some st' ∧ Alone n true (if i + 1 < 50 then .polling (i + 1) else .waiting) st' := by
  have hs : step st (.poll n) =
      some (st.set st.ccm n { st.calls n with pc := if i + 1 < 50 then .polling (i + 1) else .waiting }) := by
    rw [step, if_pos (by rw [h.issued]; exact lt_succ_self n), h.pc, nfpCcmReply, h.replies]
    rfl
  exact ⟨_, hs, h.set { st.calls n with pc := if i + 1 < 50 then .polling (i + 1) else .waiting } rfl rfl⟩

theorem Alone.polls (m : Nat) (hi : i + m = 49) (h : Alone n true (.polling i) st) :
    ∃ as st', run step st as = some st' ∧ Alone n true .waiting st' := by
  induction m generalizing i st with
  | zero =>
    obtain ⟨st', hs, h'⟩ := h.poll
    rw [if_neg (by omega)] at h'
    exact ⟨[.poll n], st', run_cons.mpr ⟨st', hs, rfl⟩, h'⟩
  | succ m ih =>
    obtain ⟨st', hs, h'⟩ := h.poll
    rw [if_pos (by omega)] at h'
    obtain ⟨as, t, hr, ht⟩ := ih (i := i + 1) (by omega) h'
    exact ⟨.poll n :: as, t, run_cons.mpr ⟨st', hs, hr⟩, ht⟩

theorem Alone.stop (h : Alone n true .waiting st) :
    ∃ st', step st (.stop n 0) = some st' ∧ Alone n true (.dropping 0) st' := by
  have hn : n < st.issued := h.issued ▸ lt_succ_self n
  have hs : step st (.stop n 0) = some (st.set st.ccm n { st.calls n with pc := .dropping 0 }) := by
    rw [step, if_pos ⟨hn, h.pc, Int.le_refl 0⟩]
  exact ⟨_, hs, h.set { st.calls n with pc := .dropping 0 } rfl rfl⟩

theorem Alone.drop (h : Alone n true (.dropping 0) st) :
    ∃ st', step st (.drop n) = some st' ∧ Alone n false (.done (.err etimedout)) st' := by
  have hn : n < st.issued := h.issued ▸ lt_succ_self n
  have hc : nfpCcmReplyDropTag st.ccm (st.calls n).tag = (nfpCcmFreeTag st.ccm (st.calls n).tag, none) := by
    rw [nfpCcmReplyDropTag, nfpCcmReply, h.replies]
    rfl
  have hs : step st (.drop n) =
      some (st.set (nfpCcmFreeTag st.ccm (st.calls n).tag) n ((st.calls n).drop 0 none)) := by
    rw [step, if_pos hn, h.pc, hc]
  have hset := h.set ((st.calls n).drop 0 none) rfl rfl
  have hbits : update st.ccm.tagAllocator (st.calls n).tag false = fun _ => false := by
    rw [h.bits, h.tag n le_rfl, update_idem]
    exact update_eq_self (BitVec.ofNat 16 n) fun _ => false
  obtain ⟨L, hL, hN, heq, -, hstop⟩ :=
    advanceLast_spec (fun _ => false) (N := n + 1) (2 ^ 16) (L := n) (le_succ n) (by omega) (by omega)
  refine ⟨_, hs, hset.issued, ?_, h.next, ?_, h.replies, hset.tag, hset.fresh, hset.pc⟩
  · simp only [St.set, nfpCcmFreeTag, hbits]
    exact (update_eq_self (BitVec.ofNat 16 n) fun _ => false).symm
  · rcases hstop with rfl | hbit
    · simp only [St.set, nfpCcmFreeTag, hbits, h.next, h.last, if_true]
      exact heq
    · cases hbit

theorem alone_issue (issued : st.issued = n) (bits : st.ccm.tagAllocator = fun _ => false)
    (next : st.ccm.tagAllocNext = BitVec.ofNat 16 n) (last : st.ccm.tagAllocLast = BitVec.ofNat 16 n)
    (replies : st.ccm.replies = []) (tag : ∀ k < n, (st.calls k).tag = BitVec.ofNat 16 k)
    (fresh : ∀ k < n, (st.calls k).answered = false) :
    ∃ st', step st (.issue 0 0) = some st' ∧ Alone n true (.polling 0) st' := by
  have hbusy : ¬nfpCcmAllTagsBusy st.ccm = true := by
    rw [nfpCcmAllTagsBusy, next, last, ofNat_sub_toNat (Nat.le_refl n) (by omega)]
    simp
  have hs := show step st (.issue 0 0) = _ by rw [step, nfpCcmAllocTag, if_neg hbusy]
  refine ⟨_, hs, congrArg (· + 1) issued, ?_, ?_, last, replies, fun k hk => ?_, fun k hk => ?_, ?_⟩
  · simp only [bits, next]
  · simp only [next]
    exact ofNat_succ n
  · rcases Nat.eq_or_lt_of_le hk with rfl | hk
    · simp [issued, next]
    · simp only [issued, update_of_ne (Nat.ne_of_lt hk), tag k hk]
  · rcases Nat.eq_or_lt_of_le hk with rfl | hk
    · simp [issued]
    · simp only [issued, update_of_ne (Nat.ne_of_lt hk), fresh k hk]
  · simp [issued]

theorem Alone.round (h : Alone n true (.polling 0) st) :
    ∃ as st', run step st as = some st' ∧ Alone (n + 1) true (.polling 0) st' := by
  obtain ⟨as, s1, hr1, h1⟩ := h.polls 49 rfl
  obtain ⟨s2, hs2, h2⟩ := h1.stop
  obtain ⟨s3, hs3, h3⟩ := h2.drop
  have hbits : s3.ccm.tagAllocator = fun _ => false :=
    h3.bits.trans (update_eq_self (BitVec.ofNat 16 n) fun _ => false)
  obtain ⟨s4, hs4, h4⟩ := alone_issue h3.issued hbits h3.next h3.last h3.replies
    (fun k hk => h3.tag k (le_of_lt_succ hk)) (fun k hk => h3.fresh k (le_of_lt_succ hk))
  have hr : run step s1 [.stop n 0, .drop n, .issue 0 0] = some s4 :=
    run_cons.mpr ⟨s2, hs2, run_cons.mpr ⟨s3, hs3, run_cons.mpr ⟨s4, hs4, rfl⟩⟩⟩
  exact ⟨_, s4, run_append hr1 hr, h4⟩

theorem alone_reached (n : Nat) : ∃ as st, run step start as = some st ∧ Alone n true (.polling 0) st := by
  induction n with
  | zero =>
    obtain ⟨st, hs, h⟩ := @alone_issue 0 start rfl rfl rfl rfl rfl (fun k hk => absurd hk (Nat.not_lt_zero k))
      (fun k hk => absurd hk (Nat.not_lt_zero k))
    exact ⟨[.issue 0 0], st, run_cons.mpr ⟨st, hs, rfl⟩, h⟩
  | succ n ih =>
    obtain ⟨as, st, hr, h⟩ := ih
    obtain ⟨bs, st', hr', h'⟩ := h.round
    exact ⟨as ++ bs, st', run_append hr hr', h'⟩

theorem rx_queued (st : St) (type : BitVec 8) (hk : k < st.issued) (hans : (st.calls k).answered = false)
    (hlen : 4 ≤ len) (hbit : st.ccm.tagAllocator (st.calls k).tag = true) :
    step st (.rx k type len) = some (st.set
      { st.ccm with replies := st.ccm.replies ++ [⟨(st.calls k).tag, type, len, k⟩] }
      k { st.calls k with answered := true }) := by
  rw [step, if_pos ⟨hk, hans⟩, nfpCcmRx, if_neg (not_lt.mpr hlen), if_neg (by rw [hbit]; exact Bool.noConfusion)]

theorem Alone.late (hn : 0 < n) (hwrap : BitVec.ofNat 16 0 = BitVec.ofNat 16 n) (h : Alone n true (.polling 0) st) :
    ∃ st', run step st [.rx 0 0x80 4, .rx n 0x80 4, .poll n] = some st' ∧
      ∃ skb ∈ st'.ccm.replies, st'.ccm.tagAllocator skb.tag = false := by
  have hissued : n < st.issued := h.issued ▸ lt_succ_self n
  have htag0 : (st.calls 0).tag = BitVec.ofNat 16 n := (h.tag 0 (Nat.zero_le n)).trans hwrap
  have htag : (st.calls n).tag = BitVec.ofNat 16 n := h.tag n (Nat.le_refl n)
  have hbit : st.ccm.tagAllocator (BitVec.ofNat 16 n) = true := by rw [h.bits, update_self]
  have hs1 := rx_queued st 0x80 (zero_lt_of_lt hissued) (h.fresh 0 (Nat.zero_le n)) (Nat.le_refl 4)
    (htag0 ▸ hbit)
  obtain ⟨s1, h1⟩ : ∃ s1, s1 = st.set { st.ccm with replies := st.ccm.replies ++ [⟨(st.calls 0).tag, 0x80, 4, 0⟩] }
      0 { st.calls 0 with answered := true } := ⟨_, rfl⟩
  rw [← h1] at hs1
  have hcall1 : s1.calls n = st.calls n := by rw [h1]; exact update_of_ne (ne_of_gt hn) _ _
  have hccm1 : s1.ccm = { st.ccm with replies := [⟨BitVec.ofNat 16 n, 0x80, 4, 0⟩] } := by
    rw [h1, St.set, h.replies, htag0]
    rfl
  have hissued1 : s1.issued = st.issued := by rw [h1]; rfl
  have hs2 := rx_queued s1 0x80 (hissued1 ▸ hissued) (hcall1 ▸ h.fresh n (Nat.le_refl n)) (Nat.le_refl 4)
    (by rw [hcall1, hccm1, htag]; exact hbit)
  obtain ⟨s2, h2⟩ : ∃ s2, s2 = s1.set { s1.ccm with replies := s1.ccm.replies ++ [⟨(s1.calls n).tag, 0x80, 4, n⟩] }
      n { s1.calls n with answered := true } := ⟨_, rfl⟩
  rw [← h2] at hs2
  have hcall2 : s2.calls n = { st.calls n with answered := true } := by
    rw [h2, ← hcall1]; exact update_self _ _ _
  have hccm2 : s2.ccm =
      { st.ccm with replies := [⟨BitVec.ofNat 16 n, 0x80, 4, 0⟩, ⟨BitVec.ofNat 16 n, 0x80, 4, n⟩] } := by
    rw [h2, St.set, hccm1, hcall1, htag]
    rfl
  have hissued2 : s2.issued = st.issued := by rw [h2]; exact hissued1
  have hreply : nfpCcmReply s2.ccm (s2.calls n).tag = ({ nfpCcmFreeTag s2.ccm (BitVec.ofNat 16 n) with
      replies := [⟨BitVec.ofNat 16 n, 0x80, 4, n⟩] }, some ⟨BitVec.ofNat 16 n, 0x80, 4, 0⟩) := by
    rw [hcall2]
    simp [nfpCcmReply, htag, hccm2]
  have hs3 : step s2 (.poll n) = some (s2.set { nfpCcmFreeTag s2.ccm (BitVec.ofNat 16 n) with
      replies := [⟨BitVec.ofNat 16 n, 0x80, 4, n⟩] } n ((s2.calls n).receive ⟨BitVec.ofNat 16 n, 0x80, 4, 0⟩)) := by
    have hpc : (s2.calls n).pc = .polling 0 := by rw [hcall2]; exact h.pc
    rw [step, if_pos (hissued2 ▸ hissued), hpc, hreply]
  refine ⟨_, run_cons.mpr ⟨s1, hs1, run_cons.mpr ⟨s2, hs2, run_cons.mpr ⟨_, hs3, rfl⟩⟩⟩,
    ⟨BitVec.ofNat 16 n, 0x80, 4, n⟩, mem_singleton_self _, ?_⟩
  simp [St.set, nfpCcmFreeTag]

theorem lateReply_stranded :
    ∃ as st, run step start as = some st ∧ ∃ skb ∈ st.ccm.replies, st.ccm.tagAllocator skb.tag = false := by
  obtain ⟨as, st, hr, h⟩ := alone_reached 65536
  obtain ⟨st', hr', hskb⟩ := h.late (by decide) (by decide)
  exact ⟨_, st', run_append hr hr', hskb⟩

end Late

end NfpDriver.Tags
