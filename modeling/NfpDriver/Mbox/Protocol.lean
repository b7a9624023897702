import NfpDriver.Mbox.Runner

namespace NfpDriver.Mbox

open Option

theorem copyOutDone_spec (m : Msg) :
    (copyOutDone m).cb.state = .done ∧ (copyOutDone m).cb.posted = m.cb.posted ∧
      ((copyOutDone m).cb.err = none → m.cb.state = .replyFound) := by
  rw [copyOutDone]
  split
  · exact ⟨rfl, rfl, fun h => absurd h (some_ne_none _)⟩
  · next h => exact ⟨rfl, rfl, fun _ => not_not.mp h⟩

theorem markErr_spec (m : Msg) :
    (markErr m).cb.state = .done ∧ (markErr m).cb.posted = m.cb.posted ∧
      ((markErr m).cb.err = none → m.cb.state = .replyFound) :=
  ⟨rfl, rfl, fun h => absurd h (Option.some_ne_none _)⟩

variable {last i : Id} {st st' : St} {caps : MboxCaps}

theorem not_inflight {o : Owner} {phase : Phase} (hrun : runOf st o = some ⟨last, phase⟩) (hphase : phase ≠ .selected) :
    o ≠ .inflight := by
  rintro rfl
  rw [runOf] at hrun
  split at hrun
  · exact hphase (congrArg Run.phase (some.inj hrun)).symm
  · cases hrun

inductive Transition (caps : MboxCaps) (st : St) : St → Prop where
  | reject (i : Id) (err : Err) (hidle : st.pc i = .idle) : Transition caps st (st.setPc i (.returned (some err)))
  | communicate (i : Id) (type : Nat) (critical : Bool) (m : Msg) (hidle : st.pc i = .idle)
      (hs : m.cb.state = .queued) (hp : m.cb.posted = false) :
        Transition caps st (communicate caps st i type critical m)
  | post (i : Id) (type : Nat) (trylock : Bool) (m : Msg) (hidle : st.pc i = .idle)
      (hs : m.cb.state = .queued) (hp : m.cb.posted = true) : Transition caps st (post st i type trylock m)
  | wake (i : Id) (hpc : st.pc i = .waiting) :
      Transition caps st (st.setPc i (.woken !((st.msg i).done || (st.msg i).shouldRun)))
  | check (i : Id) (timedOut : Bool) (hpc : st.pc i = .woken timedOut) :
      Transition caps st (st.setPc i (if (st.msg i).done then .returned (st.msg i).cb.err else .locking timedOut))
  | lock (i : Id) (timedOut : Bool) (hpc : st.pc i = .locking timedOut) :
      Transition caps st (lockAfterWait caps st i timedOut)
  | unblock (i : Id) (hpc : st.pc i = .blocked) (hd : (st.msg i).done = true) :
      Transition caps st (st.setPc i (.returned (st.msg i).cb.err))
  | skbReturn (i : Id) (hpc : st.pc i = .finished) : Transition caps st (st.setPc i (.returned (st.msg i).cb.err))
  | runqWork (hp : st.runq.pending = true) :
      Transition caps st (runqWork caps { st with runq := { st.runq with pending := false } })
  | waitWork (hp : st.wait.pending = true) :
      Transition caps st (waitWork { st with wait := { st.wait with pending := false } })
  | reconfig (o : Owner) (r : Run) (phase : Phase) (hrun : runOf st o = some r) (ho : o ≠ .inflight) :
      Transition caps st (setRun st ⟨r.last, phase⟩ o)
  | copyOut (o : Owner) (last : Id) (data : Nat) (t : Tlv) (hrun : runOf st o = some ⟨last, .parsing data⟩) :
      Transition caps st
        (setRun (copyOutTlv caps st last data t).1 ⟨last, (copyOutTlv caps st last data t).2⟩ o)
  | finish (o : Owner) (r : Run) (f : Msg → Msg) (hrun : runOf st o = some r) (ho : o ≠ .inflight)
      (hf : f = copyOutDone ∨ f = markErr) : Transition caps st (endRun (dequeueBatch r.last f st) o)

theorem Step.transition (h : Step caps st st') : Transition caps st st' := by
  obtain ⟨a, ha⟩ := h
  cases a with simp only [apply] at ha
  | communicate i skb type room replySize maxReplySize expandHead critical =>
    split at ha
    · next hidle =>
      split at ha
      · exact some.inj ha ▸ .reject i _ hidle
      · next m hm => exact some.inj ha ▸ .communicate i type critical m hidle (prepare_cb hm).1 (prepare_cb hm).2
    · cases ha
  | post i skb type room maxReplySize expandHead trylock =>
    split at ha
    · next hidle =>
      split at ha
      · exact some.inj ha ▸ .reject i _ hidle
      · next m hm => exact some.inj ha ▸ .post i type trylock _ hidle (prepare_cb hm).1 rfl
    · cases ha
  | wake i timeout =>
    split at ha
    · next hpc => exact some.inj ha ▸ .wake i hpc.1
    · cases ha
  | check i =>
    split at ha
    · next hpc => exact some.inj ha ▸ .check i _ hpc
    · cases ha
  | lock i =>
    split at ha
    · next hpc => exact some.inj ha ▸ .lock i _ hpc
    · cases ha
  | unblock i =>
    split at ha
    · next hpc => exact some.inj ha ▸ .unblock i hpc.1 hpc.2
    · cases ha
  | skbReturn i =>
    split at ha
    · next hpc => exact some.inj ha ▸ .skbReturn i hpc
    · cases ha
  | runqWork =>
    split at ha
    · next hw => exact some.inj ha ▸ .runqWork hw.1
    · cases ha
  | waitWork =>
    split at ha
    · next hw => exact some.inj ha ▸ .waitWork hw.1
    · cases ha
  | reconfig o ok =>
    split at ha
    · cases ha
    split at ha
    · next ho _ last hrun => exact some.inj ha ▸ .reconfig o _ _ hrun ho
    · cases ha
  | copyOut o t =>
    split at ha
    · next hrun => exact some.inj ha ▸ .copyOut o _ _ t hrun
    · cases ha
  | finish o =>
    split at ha
    · next hrun => exact some.inj ha ▸ .finish o _ _ hrun (not_inflight hrun (by simp)) (.inl rfl)
    · next hrun => exact some.inj ha ▸ .finish o _ _ hrun (not_inflight hrun (by simp)) (.inr rfl)
    · cases ha

theorem inv_step (hi : Inv st) (h : Step caps st st') : Inv st' := by
  cases h.transition with
  | reject i err hidle => exact hi.reject hidle err
  | communicate i type critical m hidle hs hp => exact inv_communicate hi hidle caps hs hp type critical
  | post i type trylock m hidle hs hp => exact inv_post hi hidle hs hp type trylock
  | wake i hpc => exact inv_wake hi hpc
  | check i timedOut hpc => exact inv_check hi hpc
  | lock i timedOut hpc => exact inv_lock hi caps hpc
  | unblock i hpc hd =>
    exact hi.reap (by rw [hpc]; rfl) (by rw [hpc]; exact fun h => Pc.noConfusion h) (of_decide_eq_true hd)
  | skbReturn i hpc =>
    have hn : i ∉ st.queue := by
      intro hq
      rcases (hi.core.thread i).inside hq with h | h
      · exact Pc.noConfusion (hpc.symm.trans h.2)
      · rw [hpc] at h
        cases h.2
    exact hi.reap (by rw [hpc]; rfl) (by rw [hpc]; exact fun h => Pc.noConfusion h)
      ((hi.core.thread i).outside hn (by rw [hpc]; rfl))
  | runqWork hp => exact inv_runqWork hi caps hp
  | waitWork hp => exact inv_waitWork hi hp
  | reconfig o r phase hrun ho => exact inv_reconfig hi hrun ho phase
  | copyOut o last data t hrun => exact inv_copyOut hi caps hrun t
  | finish o r f hrun ho hf =>
    rcases hf with rfl | rfl
    · exact inv_finish hi hrun ho copyOutDone_spec
    · exact inv_finish hi hrun ho markErr_spec

theorem inv_reachable (h : Reachable caps st) : Inv st := by
  induction h with
  | refl => exact inv_init
  | tail _ hs ih => exact inv_step ih hs

theorem startRun_log (caps : MboxCaps) (st : St) (o : Owner) : (startRun caps st o).log = st.log := by
  cases o <;> rfl

theorem setRun_log (st : St) (r : Run) (o : Owner) : (setRun st r o).log = st.log := by
  cases o <;> rfl

theorem endRun_log (st : St) (o : Owner) : (endRun st o).log = st.log := by
  cases o <;> rfl

theorem markNext_log (st : St) : (nfpCcmMboxMarkNextRunner st).log = st.log := by
  cases hq : st.queue with
  | nil => rw [markNext_nil hq]
  | cons h rest => rw [markNext_cons hq]

theorem replyTo_log (st : St) (i : Id) (t : Tlv) : (replyTo st i t).log = st.log := by
  obtain ⟨msg, replied, hdr, he, -⟩ := replyTo_cases st i t
  rw [he]

theorem copyOutTlv_log (caps : MboxCaps) (st : St) (last : Id) (data : Nat) (t : Tlv) :
    (copyOutTlv caps st last data t).1.log = st.log := by
  rcases copyOutTlv_cases caps st last data t with he | ⟨i, -, he⟩
  · rw [he]
  · rw [he, replyTo_log]

theorem dequeueBatch_owner {f : Msg → Msg} (h : (i, .owner) ∈ (dequeueBatch last f st).log) : (i, .owner) ∈ st.log := by
  rw [dequeueBatch] at h
  split at h
  · exact h
  rw [markNext_log] at h
  rcases List.mem_append.mp h with h | h
  · exact h
  · obtain ⟨j, -, he⟩ := List.mem_map.mp h
    exact Remover.noConfusion (congrArg Prod.snd he)

theorem communicate_log (caps : MboxCaps) (st : St) (i : Id) (type : Nat) (critical : Bool) (m : Msg) :
    (communicate caps st i type critical m).log = st.log := by
  rcases enqueue_cases st i m type critical with he | he
  · rw [communicate, he]
    rfl
  rw [communicate, he]
  simp only
  split
  · exact startRun_log caps _ _
  · rfl

theorem post_log (st : St) (i : Id) (type : Nat) (trylock : Bool) (m : Msg) :
    (post st i type trylock m).log = st.log := by
  rcases enqueue_cases st i m type false with he | he
  · rw [post, he]
    rfl
  rw [post, he]
  simp only
  split
  · split
    · rfl
    · exact markNext_log _
  · rfl

theorem runqWork_log (caps : MboxCaps) (st : St) : (runqWork caps st).log = st.log := by
  rw [runqWork]
  split
  · rfl
  · split
    · exact startRun_log caps st _
    · rfl

theorem waitWork_log (st : St) : (waitWork st).log = st.log := by
  rw [waitWork]
  split
  · rfl
  · split
    · rfl
    · rfl

theorem unlink_owner {j : Id} (h : (j, .owner) ∈ (nfpCcmMboxUnlink st i).log) : (j, .owner) ∈ st.log ∨ j = i := by
  have hlog : (nfpCcmMboxUnlink st i).log = st.log ++ [(i, .owner)] := by
    rw [nfpCcmMboxUnlink]
    split
    · rw [markNext_log]
    · rfl
  rw [hlog] at h
  exact (List.mem_append.mp h).imp id fun h => congrArg Prod.fst (List.mem_singleton.mp h)

theorem step_owner (h : Step caps st st') (hnew : (i, .owner) ∈ st'.log) (hold : (i, .owner) ∉ st.log) :
    ∃ timedOut, st.pc i = .locking timedOut ∧ st.queue.head? ≠ some i ∧ (st.msg i).inProgress = false := by
  have hsame : st'.log ≠ st.log := fun he => hold (he ▸ hnew)
  cases h.transition with
  | communicate j type critical m => exact absurd (communicate_log caps st j type critical m) hsame
  | post j type trylock m => exact absurd (post_log st j type trylock m) hsame
  | runqWork => exact absurd (runqWork_log caps _) hsame
  | waitWork => exact absurd (waitWork_log _) hsame
  | reconfig o r phase => exact absurd (setRun_log st _ o) hsame
  | copyOut o last data t => exact absurd ((setRun_log _ _ o).trans (copyOutTlv_log caps st last data t)) hsame
  | finish o r f =>
    rw [endRun_log] at hnew
    exact absurd (dequeueBatch_owner hnew) hold
  | lock j timedOut hpc =>
    rw [lockAfterWait] at hnew
    split at hnew
    · rw [startRun_log] at hnew
      exact absurd hnew hold
    next hfirst =>
    simp only at hnew
    split at hnew
    · exact absurd hnew hold
    · next hprog =>
      obtain rfl : i = j := (unlink_owner hnew).resolve_left hold
      exact ⟨timedOut, hpc, fun h => hfirst (decide_eq_true h), Bool.eq_false_of_not_eq_true hprog⟩
  | _ => exact absurd rfl hsame

end NfpDriver.Mbox
