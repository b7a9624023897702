import NfpDriver.Mbox.Handoff

namespace NfpDriver.Mbox

open Function List

variable {i : Id} {m : Msg} {st st' : St} {p : Pc} {type : Nat} {timedOut : Bool}

theorem Mode.append (hm : Mode st) (hne : st.queue ≠ []) (hi : i ∉ st.queue) (hs : m.cb.state = .queued)
    (hq : st'.queue = st.queue ++ [i]) (hmsg : st'.msg = update st.msg i m)
    (hp : st'.runq.pending = st.runq.pending) (hr : ∀ o, runOf st' o = runOf st o) : Mode st' := by
  have hsame : ∀ j ∈ st.queue, st'.msg j = st.msg j := by
    intro j hj
    have hne : j ≠ i := fun h => hi (h ▸ hj)
    rw [hmsg, update_of_ne hne]
  refine hm.reshape hsame (fun h => absurd h hne) (fun h bs rest h1 _ ht => ⟨rest ++ [i], ?_, fun j hj => ?_⟩) hp hr
  · rw [hq, h1, append_assoc]
  · rcases mem_append.mp hj with hj | hj
    · rw [St.state, hsame j (h1 ▸ mem_append_right _ hj)]
      exact ht j hj
    · rw [mem_singleton.mp hj, St.state, hmsg, update_self]
      exact hs

theorem Mode.erase (hm : Mode st) (hi : i ∈ st.queue) (hfirst : st.queue.head? ≠ some i)
    (hprog : (st.msg i).inProgress = false) (hq : st'.queue = st.queue.erase i) (hmsg : st'.msg = st.msg)
    (hp : st'.runq.pending = st.runq.pending) (hr : ∀ o, runOf st' o = runOf st o) : Mode st' := by
  refine hm.reshape (fun j _ => congrFun hmsg j) (fun h => absurd (h ▸ hi) not_mem_nil)
    (fun h bs rest h1 hb ht => ⟨rest.erase i, ?_, fun j hj => ?_⟩) hp hr
  · have hne : i ≠ h := fun he => hfirst (by rw [h1, he]; rfl)
    have hnb : i ∉ bs := fun hib => Bool.noConfusion (hprog.symm.trans (hb i hib))
    rw [hq, h1, erase_append_right _ fun hc => (mem_cons.mp hc).elim hne hnb]
  · rw [St.state, hmsg]
    exact ht j (mem_of_mem_erase hj)

theorem Mode.next_first (hm : Mode st) (hq : i ∈ st.queue) (hs : st.state i = .next) : st.queue.head? = some i := by
  cases hm with
  | empty h1 => exact absurd (h1 ▸ hq) not_mem_nil
  | next h rest h1 _ _ h4 =>
    rw [h1] at hq ⊢
    rcases mem_cons.mp hq with rfl | hr
    · rfl
    · exact CmsgState.noConfusion (hs.symm.trans (h4 i hr))
  | active o r h bs rest _ _ h3 _ _ _ h7 h8 =>
    rw [h3] at hq ⊢
    rcases mem_append.mp hq with hb | hr
    · rcases mem_cons.mp hb with rfl | hb
      · rfl
      · rcases h7 i hb with h | h
        · exact CmsgState.noConfusion (hs.symm.trans h)
        · exact CmsgState.noConfusion (hs.symm.trans h)
    · exact CmsgState.noConfusion (hs.symm.trans (h8 i hr))

theorem Mode.not_shouldRun (hm : Mode st) (hi : i ∈ st.queue) (hfirst : st.queue.head? ≠ some i) :
    (st.msg i).shouldRun = false :=
  decide_eq_false fun h => hfirst (hm.next_first hi h)

def enqueued (st : St) (i : Id) (m : Msg) (type : Nat) : St :=
  { st with
    queue := st.queue ++ [i]
    msg := Function.update st.msg i m
    hdr := Function.update st.hdr i ⟨BitVec.ofNat 8 type, st.tag⟩
    tag := st.tag + 1
    sent := st.sent ++ [i] }

theorem enqueue_cases (st : St) (i : Id) (m : Msg) (type : Nat) (critical : Bool) :
    nfpCcmMboxMsgEnqueue st i m type critical = .error .ebusy ∨
      nfpCcmMboxMsgEnqueue st i m type critical = .ok (enqueued st i m type) := by
  rw [nfpCcmMboxMsgEnqueue]
  split
  · exact .inl rfl
  · exact .inr rfl

theorem startRun_setPc (caps : MboxCaps) (st : St) (i : Id) (p : Pc) :
    startRun caps (st.setPc i p) (.sync i) = startRun caps st (.sync i) := by
  simp only [startRun, setRun, nfpCcmMboxRunQueue, St.setPc, St.mapMsgs, selectBatch, update_idem]
  rfl

section Send

variable {st : St} (hi : Inv st) {i : Id} (hidle : st.pc i = .idle)

include hi hidle

theorem Inv.not_queued : i ∉ st.queue := fun hq =>
  hi.core.idle_not_sent hidle (hi.core.mem_sent.mpr (.inl hq))

theorem Inv.reject (err : Err) : Inv (st.setPc i (.returned (some err))) := by
  refine hi.setPc (by rw [hidle]; rfl) (by rw [hidle]; exact fun h => Pc.noConfusion h) rfl
    Pc.noConfusion ?_ (fun h => by simp at h)
  exact .gone (hi.not_queued hidle) rfl

omit hi in
theorem runOf_enqueued (hp : p.run = none) (hq : st.queue ≠ [] ∨ st.wait.pending = false) (o : Owner) :
    runOf ((enqueued st i m type).setPc i p) o = runOf st o := by
  apply runOf_congr
  · have hrun : (st.pc i).run = none := by rw [hidle]; rfl
    exact run_update hrun hp
  · rfl
  · rfl
  · intro hpend
    rcases hq with hq | hq
    · obtain ⟨h, rest, hcons⟩ := exists_cons_of_ne_nil hq
      simp [enqueued, St.setPc, hcons]
    · rw [hq] at hpend
      cases hpend

theorem Inv.join (hs : m.cb.state = .queued) (hrun : p.run = none)
    (hp : m.cb.posted = true ∧ p = .posted ∨ m.cb.posted = false ∧ p = .waiting) (hne : st.queue ≠ []) :
    Inv ((enqueued st i m type).setPc i p) :=
  ⟨hi.core.enqueue hidle hs hp,
    hi.mode.append hne (hi.not_queued hidle) hs rfl rfl rfl (runOf_enqueued hidle hrun (.inl hne))⟩

omit hidle in
theorem Inv.empty_mode (hq : st.queue = []) : (∀ o, runOf st o = none) ∧ st.runq.pending = false := by
  cases hi.mode with
  | empty _ h2 h3 => exact ⟨h2, h3⟩
  | next h rest h1 => exact absurd (hq.symm.trans h1) (by simp)
  | active o r h bs rest h1 h2 h3 => exact absurd (hq.symm.trans h3) (by simp)

omit hidle in
theorem Inv.empty_wait (hq : st.queue = []) : st.wait.pending = false := by
  have h := (hi.empty_mode hq).1 .inflight
  rw [runOf] at h
  split at h
  · cases h
  · exact Bool.not_eq_true _ ▸ ‹_›

theorem Inv.not_first (hq : st.queue ≠ []) (hq' : st'.queue = st.queue ++ [i]) : nfpCcmMboxIsFirst st' i = false := by
  obtain ⟨h, rest, hcons⟩ := exists_cons_of_ne_nil hq
  have hn := hi.not_queued hidle
  rw [hcons] at hn hq'
  simp only [nfpCcmMboxIsFirst, hq', cons_append, head?_cons, Option.some.injEq, decide_eq_false_iff_not]
  exact fun he => hn (he ▸ mem_cons_self)

theorem inv_communicate (caps : MboxCaps) (hs : m.cb.state = .queued) (hpost : m.cb.posted = false) (type : Nat)
    (critical : Bool) : Inv (communicate caps st i type critical m) := by
  rcases enqueue_cases st i m type critical with he | he
  · rw [communicate, he]
    exact hi.reject hidle .ebusy
  rw [communicate, he]
  simp only
  by_cases hq : st.queue = []
  · obtain ⟨hr, hp⟩ := hi.empty_mode hq
    have hfirst : nfpCcmMboxIsFirst (enqueued st i m type) i = true := by simp [nfpCcmMboxIsFirst, enqueued, hq]
    have hcore : Core ((enqueued st i m type).setPc i .waiting) :=
      hi.core.enqueue hidle hs (.inr ⟨hpost, rfl⟩)
    have hwait := hi.empty_wait hq
    have hmsg : ((enqueued st i m type).setPc i .waiting).msg i = m := by
      simp [enqueued, St.setPc]
    rw [hfirst, if_pos rfl, ← startRun_setPc caps _ i .waiting]
    refine Inv.start_sync hcore caps (h := i) (by simp [enqueued, St.setPc, hq]) (.inl ?_)
      (fun j hj => absurd hj not_mem_nil) (fun o => ?_) hp ?_ (by rw [setPc_self]; rfl)
    · rw [St.state, hmsg, hs]
    · rw [runOf_enqueued hidle rfl (.inr hwait), hr]
    · rw [St.posted, hmsg, hpost]
  · rw [hi.not_first hidle hq rfl, if_neg Bool.false_ne_true]
    exact hi.join hidle hs rfl (.inr ⟨hpost, rfl⟩) hq

theorem inv_post (hs : m.cb.state = .queued) (hpost : m.cb.posted = true) (type : Nat) (trylock : Bool) :
    Inv (post st i type trylock m) := by
  rcases enqueue_cases st i m type false with he | he
  · rw [post, he]
    exact hi.reject hidle .ebusy
  rw [post, he]
  simp only
  by_cases hq : st.queue = []
  · obtain ⟨hr, hp⟩ := hi.empty_mode hq
    have hwait := hi.empty_wait hq
    have hcore : Core ((enqueued st i m type).setPc i .posted) := hi.core.enqueue hidle hs (.inl ⟨hpost, rfl⟩)
    have hqueue : ((enqueued st i m type).setPc i .posted).queue = [i] := by simp [enqueued, St.setPc, hq]
    have hmsg : ((enqueued st i m type).setPc i .posted).msg i = m := by
      simp [enqueued, St.setPc]
    have hrun : ∀ o, runOf ((enqueued st i m type).setPc i .posted) o = none := fun o => by
      rw [runOf_enqueued hidle rfl (.inr hwait), hr]
    have hfirst : nfpCcmMboxIsFirst ((enqueued st i m type).setPc i .posted) i = true := by
      simp [nfpCcmMboxIsFirst, hqueue]
    have hpending : ((enqueued st i m type).setPc i .posted).runq.pending = false := hp
    generalize (enqueued st i m type).setPc i .posted = st1 at *
    rw [hfirst, if_pos rfl]
    have hall : ∀ j ∈ st1.queue, st1.state j = .queued := by
      intro j hj
      rw [hqueue, mem_singleton] at hj
      rw [hj, St.state, hmsg, hs]
    cases trylock with
    | false =>
      exact ⟨hcore.markNext hall, handoff_mode hcore.queue_nodup hall hpending rfl rfl rfl
        fun o => (runOf_markNext st1 o).trans (hrun o)⟩
    | true =>
      refine ⟨hcore.works _ _, .active .inflight ⟨i, .selected⟩ i [] [] ?_ (fun o ho => ?_) hqueue rfl
        (.inr ⟨?_, fun j h => Owner.noConfusion h⟩) (.inl ?_) (fun j hj => absurd hj not_mem_nil)
        (fun j hj => absurd hj not_mem_nil) hpending⟩
      · rw [runOf, if_pos rfl, hqueue]
        rfl
      · rw [← hrun o]
        cases o with
        | inflight => exact absurd rfl ho
        | sync | runq | wait => rfl
      · rwa [← hmsg] at hpost
      · rwa [← hmsg] at hs
  · rw [hi.not_first hidle hq rfl, if_neg Bool.false_ne_true]
    exact hi.join hidle hs rfl (.inl ⟨hpost, rfl⟩) hq

end Send

section Wait

variable {st : St} (hi : Inv st) {i : Id}

include hi

theorem Inv.move (hrun : (st.pc i).run = none) (ha : (st.pc i).attached = true) (hrun' : p.run = none)
    (ha' : p.attached = true) (hpend : (st.pc i).pending = true) (hb : p = .blocked → (st.msg i).inProgress = true)
    (hs : p.signalled = true → st.state i = .done ∨ st.state i = .next) (hl : p = .locking false → st.state i = .next) :
    Inv (st.setPc i p) := by
  refine hi.setPc hrun ?_ hrun' ?_ ⟨fun hq => ?_, (hi.core.thread i).live, fun hn _ => ?_, hb, hs, hl⟩ ?_
  · intro h
    rw [h] at ha
    cases ha
  · intro h
    rw [h] at ha'
    cases ha'
  · rcases (hi.core.thread i).inside hq with h | h
    · rw [h.2] at ha
      cases ha
    · exact .inr ⟨h.1, ha'⟩
  · exact (hi.core.thread i).outside hn hpend
  · intro h
    rw [h] at ha'
    cases ha'

theorem Inv.reap (hrun : (st.pc i).run = none) (hret : st.pc i ≠ .returned (some .etimedout))
    (hd : (st.msg i).cb.state = .done) : Inv (st.setPc i (.returned (st.msg i).cb.err)) := by
  refine hi.setPc hrun hret rfl Pc.noConfusion (.gone (fun hq => (hi.core.thread i).live hq hd) rfl) fun h => ?_
  exact (hi.core.reply i).success hd (Pc.returned.inj h)

theorem inv_wake (hpc : st.pc i = .waiting) : Inv (st.setPc i (.woken !((st.msg i).done || (st.msg i).shouldRun))) := by
  refine hi.move (by rw [hpc]; rfl) (by rw [hpc]; rfl) rfl rfl (by rw [hpc]; rfl) Pc.noConfusion
    (fun h => ?_) Pc.noConfusion
  cases hcond : (st.msg i).done || (st.msg i).shouldRun with
  | false =>
    rw [hcond] at h
    cases h
  | true => exact ((Bool.or_eq_true _ _).mp hcond).imp of_decide_eq_true of_decide_eq_true

theorem inv_check (hpc : st.pc i = .woken timedOut) :
    Inv (st.setPc i (if (st.msg i).done then .returned (st.msg i).cb.err else .locking timedOut)) := by
  split
  · next hd => exact hi.reap (by rw [hpc]; rfl) (by rw [hpc]; exact fun h => Pc.noConfusion h) (of_decide_eq_true hd)
  next hd =>
  have hnext : timedOut = false → st.state i = .next := by
    rintro rfl
    exact ((hi.core.thread i).signalled (by rw [hpc]; rfl)).resolve_left fun h => hd (decide_eq_true h)
  refine hi.move (by rw [hpc]; rfl) (by rw [hpc]; rfl) rfl rfl (by rw [hpc]; rfl) Pc.noConfusion
    (fun h => ?_) fun h => hnext (Pc.locking.inj h)
  cases timedOut with
  | false => exact .inr (hnext rfl)
  | true => cases h

theorem inv_lock (caps : MboxCaps) (hpc : st.pc i = .locking timedOut) : Inv (lockAfterWait caps st i timedOut) := by
  have hatt : (st.pc i).attached = true := by rw [hpc]; rfl
  have hrun : (st.pc i).run = none := by rw [hpc]; rfl
  have hsync : i ∈ st.queue → st.posted i = false := by
    intro hq
    rcases (hi.core.thread i).inside hq with h | h
    · rw [h.2] at hatt
      cases hatt
    · exact h.1
  rw [lockAfterWait]
  split
  · next hfirst =>
    have hhead : st.queue.head? = some i := of_decide_eq_true hfirst
    have hmem : i ∈ st.queue := mem_of_head? hhead
    cases hi.mode with
    | empty h1 => rw [h1] at hhead; cases hhead
    | next h rest h1 h2 h3 h4 h5 =>
      obtain rfl : h = i := by rw [h1] at hhead; exact Option.some.inj hhead
      exact Inv.start_sync hi.core caps h1 (.inr h3) h4 h2 (h5.trans (hsync hmem)) (hsync hmem) hatt
    | active o r h bs rest h1 h2 h3 h4 h5 =>
      obtain rfl : h = i := by rw [h3] at hhead; exact Option.some.inj hhead
      rcases h5 with ⟨-, rfl⟩ | ⟨hp, -⟩
      · rw [runOf, hrun] at h1
        cases h1
      · rw [hsync hmem] at hp
        cases hp
  · next hfirst =>
    have hto : timedOut = true := by
      by_contra hne
      have hnext : st.state i = .next :=
          (hi.core.thread i).ready (hpc.trans (congrArg _ (Bool.eq_false_of_not_eq_true hne)))
      have hmem : i ∈ st.queue := by
        by_contra hn
        exact CmsgState.noConfusion (hnext.symm.trans ((hi.core.thread i).outside hn (by rw [hpc]; rfl)))
      exact hfirst (decide_eq_true (hi.mode.next_first hmem hnext))
    have hwarn : st.warnOn (!timedOut) = st := by rw [hto, St.warnOn, Bool.not_true, Bool.or_false]
    simp only [hwarn]
    split
    · next hprog =>
      exact hi.move hrun hatt rfl rfl (by rw [hpc]; rfl) (fun _ => hprog) Bool.noConfusion
        Pc.noConfusion
    next hprog =>
    have hprog' : (st.msg i).inProgress = false := Bool.not_eq_true _ ▸ hprog
    have hhead : st.queue.head? ≠ some i := fun h => hfirst (decide_eq_true h)
    have hmem : i ∈ st.queue := by
      by_contra hn
      have hd := (hi.core.thread i).outside hn (by rw [hpc]; rfl)
      simp [Msg.inProgress, hd] at hprog'
    have hhd : (st.queue.erase i).headD 0 = st.queue.headD 0 := by
      obtain ⟨h, rest, hq⟩ := exists_cons_of_ne_nil (ne_nil_of_mem hmem)
      have hne : h ≠ i := fun he => hhead (by rw [hq, he]; rfl)
      rw [hq, erase_cons_tail (by simpa using hne)]
      rfl
    rw [nfpCcmMboxUnlink, hi.mode.not_shouldRun hmem hhead]
    exact ⟨hi.core.unlink hmem (hsync hmem), hi.mode.erase hmem hhead hprog' rfl rfl rfl
      (runOf_congr (run_update hrun rfl) rfl rfl fun _ => hhd)⟩

end Wait

end NfpDriver.Mbox
