import NfpDriver.Mbox.Sender

namespace NfpDriver.Mbox

open Function List

variable {o : Owner} {r : Run} {st : St} {after batch : List Id}

theorem endRun_frame (st : St) (o : Owner) :
    (endRun st o).queue = st.queue ∧ (endRun st o).msg = st.msg ∧ (endRun st o).runq.pending = st.runq.pending := by
  cases o <;> exact ⟨rfl, rfl, rfl⟩

theorem runOf_endRun (st : St) (ho : o ≠ .inflight) (hu : ∀ o', o' ≠ o → runOf st o' = none) (o' : Owner) :
    runOf (endRun st o) o' = none := by
  by_cases h : o' = o
  · rw [h]
    cases o with
    | sync i => rw [endRun, runOf, setPc_self]; rfl
    | runq | wait => rfl
    | inflight => exact absurd rfl ho
  · rw [← hu o' h]
    cases o with
    | sync i => exact runOf_setPc_ne st h _
    | runq | wait => cases o' <;> first | rfl | exact absurd rfl h
    | inflight => exact absurd rfl ho

theorem Mode.of_run (hm : Mode st) (hrun : runOf st o = some r) :
    ∃ h bs rest, (∀ o', o' ≠ o → runOf st o' = none) ∧ st.queue = h :: bs ++ rest ∧
      (h :: bs).getLast (List.cons_ne_nil h bs) = r.last ∧
      (st.posted h = false ∧ o = .sync h ∨ st.posted h = true ∧ ∀ i, o ≠ .sync i) ∧
      (st.state h = .queued ∨ st.state h = .next ∨ st.state h = .replyFound) ∧
      (∀ i ∈ bs, st.state i = .busy ∨ st.state i = .replyFound) ∧
      (∀ i ∈ rest, st.state i = .queued) ∧ st.runq.pending = false := by
  cases hm with
  | empty _ h2 | next _ _ _ h2 => exact absurd ((h2 _).symm.trans hrun) (by simp)
  | active o' r' h bs rest h1 h2 h3 h4 h5 h6 h7 h8 h9 =>
    obtain rfl : o' = o := by
      by_contra hne
      exact absurd ((h2 o fun he => hne he.symm).symm.trans hrun) (by simp)
    obtain rfl : r' = r := Option.some.inj (h1.symm.trans hrun)
    exact ⟨h, bs, rest, h2, h3, h4, h5, h6, h7, h8, h9⟩

theorem Core.setRun (hc : Core st) (hrun : runOf st o = some r) (r' : Run) (hq : ∀ i, o = .sync i → i ∈ st.queue) :
    Core (setRun st r' o) := by
  cases o with
  | sync i =>
    have hmem := hq i rfl
    have hpc : st.pc i = .running r := by
      cases hp : st.pc i <;> simp [runOf, hp, Pc.run] at hrun
      rw [hrun]
    refine hc.setPc (by rw [hpc]; exact fun h => Pc.noConfusion h) Pc.noConfusion
      ⟨fun h => ?_, (hc.thread i).live, fun h => absurd hmem h, Pc.noConfusion,
        Bool.noConfusion, Pc.noConfusion⟩ Pc.noConfusion
    rcases (hc.thread i).inside h with h | h
    · exact Pc.noConfusion (hpc.symm.trans h.2)
    · exact .inr ⟨h.1, rfl⟩
  | runq | wait => exact hc.works _ _
  | inflight => exact hc

theorem replyTo_cases (st : St) (i : Id) (t : Tlv) :
    ∃ msg replied hdr, replyTo st i t = { st with msg := msg, replied := replied, hdr := hdr } ∧
      (∀ j, j ≠ i → msg j = st.msg j ∧ replied j = st.replied j) ∧ (msg i).cb.posted = st.posted i ∧
      ((msg i).cb.state = st.state i ∧ replied i = st.replied i ∨
        (msg i).cb.state = .replyFound ∧ replied i = true) := by
  have herr : ∃ msg replied hdr,
      st.setMsg i ((st.msg i).setErr .eio) = { st with msg := msg, replied := replied, hdr := hdr } ∧
      (∀ j, j ≠ i → msg j = st.msg j ∧ replied j = st.replied j) ∧ (msg i).cb.posted = st.posted i ∧
      ((msg i).cb.state = st.state i ∧ replied i = st.replied i ∨
        (msg i).cb.state = .replyFound ∧ replied i = true) := by
    refine ⟨update st.msg i ((st.msg i).setErr .eio), st.replied, st.hdr, rfl, fun j hj => ?_, ?_, .inl ?_⟩
    · rw [update_of_ne hj]
      exact ⟨rfl, rfl⟩
    · rw [update_self]
      rfl
    · rw [update_self]
      exact ⟨rfl, rfl⟩
  simp only [replyTo]
  split_ifs
  · exact herr
  · exact herr
  · exact herr
  · exact herr
  · refine ⟨_, _, st.hdr, rfl, fun j hj => ?_, ?_, .inr ?_⟩
    · exact ⟨update_of_ne hj _ _, update_of_ne hj _ _⟩
    · simp only [St.setMsg, update_self]
      rfl
    · simp only [St.setMsg, update_self]
      exact ⟨rfl, trivial⟩
  · refine ⟨_, _, _, rfl, fun j hj => ?_, ?_, .inr ?_⟩
    · simp only [St.setMsg, update_of_ne hj]
      exact ⟨trivial, trivial⟩
    · simp only [St.setMsg, update_self]
      rfl
    · simp only [St.setMsg, update_self]
      exact ⟨rfl, trivial⟩

theorem markNext_frame (st : St) :
    (nfpCcmMboxMarkNextRunner st).queue = st.queue ∧ (nfpCcmMboxMarkNextRunner st).pc = st.pc ∧
      ∀ i, i ∉ st.queue → (nfpCcmMboxMarkNextRunner st).msg i = st.msg i := by
  cases hq : st.queue with
  | nil => rw [markNext_nil hq]; exact ⟨hq, rfl, fun _ _ => rfl⟩
  | cons h rest =>
    rw [markNext_cons hq]
    refine ⟨hq, rfl, fun i hi => ?_⟩
    have hne : i ≠ h := fun he => hi (he ▸ mem_cons_self)
    exact update_of_ne hne _ _

theorem Core.endRun (hc : Core st)
    (hs : ∀ i, o = .sync i → i ∉ st.queue ∧ st.state i = .done ∧ st.pc i ≠ .returned (some .etimedout)) :
    Core (endRun st o) := by
  cases o with
  | sync i =>
    obtain ⟨hq, hd, hpc⟩ := hs i rfl
    exact hc.setPc hpc Pc.noConfusion
      ⟨fun h => absurd h hq, fun h => absurd h hq, fun _ _ => hd, Pc.noConfusion,
        Bool.noConfusion, Pc.noConfusion⟩ Pc.noConfusion
  | runq | wait => exact hc.works _ _
  | inflight => exact hc

theorem inv_handoff (hc : Core st) (hall : ∀ i ∈ st.queue, st.state i = .queued) (hp : st.runq.pending = false)
    (ho : o ≠ .inflight) (hu : ∀ o', o' ≠ o → runOf st o' = none)
    (hs : ∀ i, o = .sync i → i ∉ st.queue ∧ st.state i = .done ∧ st.pc i ≠ .returned (some .etimedout)) :
    Inv (endRun (nfpCcmMboxMarkNextRunner st) o) := by
  obtain ⟨hq, hpc, hm⟩ := markNext_frame st
  obtain ⟨hq', hm', hp'⟩ := endRun_frame (nfpCcmMboxMarkNextRunner st) o
  refine ⟨(hc.markNext hall).endRun fun i hi => ?_, handoff_mode hc.queue_nodup hall hp hq' hm' hp' ?_⟩
  · obtain ⟨h1, h2, h3⟩ := hs i hi
    rw [hq, hpc, St.state, hm i h1]
    exact ⟨h1, h2, h3⟩
  · exact runOf_endRun _ ho fun o' h => (runOf_markNext st o').trans (hu o' h)

theorem copyOutTlv_cases (caps : MboxCaps) (st : St) (last : Id) (data : Nat) (t : Tlv) :
    (copyOutTlv caps st last data t).1 = st ∨
      ∃ i, nfpCcmMboxFindReq st t.msgTag last st.queue = some i ∧
        (copyOutTlv caps st last data t).1 = replyTo st i t := by
  simp only [copyOutTlv]
  split
  · exact .inl rfl
  split
  · exact .inl rfl
  split
  · exact .inl rfl
  split
  · exact .inl rfl
  split
  · exact .inl rfl
  split
  · exact .inl rfl
  · next i hfind => exact .inr ⟨i, hfind, rfl⟩

section Runner

variable {st : St} (hi : Inv st)

include hi

theorem inv_runqWork (caps : MboxCaps) (hpend : st.runq.pending = true) :
    Inv (runqWork caps { st with runq := { st.runq with pending := false } }) := by
  cases hi.mode with
  | empty _ _ h3 => cases h3.symm.trans hpend
  | active o r h bs rest _ _ _ _ _ _ _ _ h9 => cases h9.symm.trans hpend
  | next h rest h1 h2 h3 h4 h5 =>
    have hpost : st.posted h = true := h5.symm.trans hpend
    have hrun : (st.msg h).cb.posted = true ∧ (st.msg h).shouldRun = true := ⟨hpost, decide_eq_true h3⟩
    rw [runqWork]
    simp only [h1]
    rw [if_pos hrun, ← h1]
    refine Inv.start_runq (hi.core.works { st.runq with pending := false } st.wait) caps h1 (.inr h3) h4
      (fun o => ?_) rfl hpost
    rw [← h2 o]
    cases o <;> rfl

theorem inv_waitWork (hpend : st.wait.pending = true) :
    Inv (waitWork { st with wait := { st.wait with pending := false } }) := by
  have hin : runOf st .inflight = some ⟨st.queue.headD 0, .selected⟩ := by rw [runOf, if_pos hpend]
  cases hi.mode with
  | empty _ h2 | next _ _ _ h2 => exact absurd ((h2 _).symm.trans hin) (by simp)
  | active o r h bs rest h1 h2 h3 h4 h5 h6 h7 h8 h9 =>
    obtain rfl : o = .inflight := by
      by_contra hne
      exact absurd ((h2 .inflight fun he => hne he.symm).symm.trans hin) (by simp)
    have hpost : st.posted h = true := by
      rcases h5 with ⟨-, he⟩ | ⟨hp, -⟩
      · exact Owner.noConfusion he
      · exact hp
    have hlast : r = ⟨h, .selected⟩ := by
      rw [h1, h3] at hin
      exact Option.some.inj hin
    rw [waitWork]
    simp only [h3, cons_append]
    rw [if_pos (show (st.msg h).cb.posted = true from hpost), ← cons_append, ← h3]
    refine ⟨hi.core.works st.runq _, .active .wait ⟨h, .selected⟩ h bs rest rfl (fun o ho => ?_) h3
      (h4.trans (congrArg Run.last hlast)) (.inr ⟨hpost, fun i h => Owner.noConfusion h⟩) h6 h7 h8 h9⟩
    cases o with
    | wait => exact absurd rfl ho
    | inflight => rfl
    | sync i => exact h2 (.sync i) Owner.noConfusion
    | runq => exact h2 .runq Owner.noConfusion

omit hi in
theorem Core.drain {h : Id} {bs rest : List Id} (hc : Core st) (hq : st.queue = h :: bs ++ rest)
    (hlast : (h :: bs).getLast (List.cons_ne_nil h bs) = r.last) : drain r.last st.queue = some (h :: bs, rest) := by
  have hn := hc.queue_nodup
  rw [hq] at hn ⊢
  rw [← hlast]
  exact drain_append (cons_ne_nil h bs) rest hn.of_append_left

omit hi in
theorem Core.drained {h : Id} {bs rest : List Id} (hc : Core st) (hd : Mbox.drain r.last st.queue = some (batch, after))
    (hq : st.queue = h :: bs ++ rest) (hlast : (h :: bs).getLast (List.cons_ne_nil h bs) = r.last) :
    h :: bs = batch ∧ rest = after :=
  Prod.mk.inj (Option.some.inj ((hc.drain hq hlast).symm.trans hd))

theorem Inv.batch_not_signalled (hrun : runOf st o = some r) (hd : drain r.last st.queue = some (batch, after))
    {i : Id} (hb : i ∈ batch) : ¬(st.pc i).signalled = true := by
  obtain ⟨h, bs, rest, -, h3, h4, h5, -, h7, -⟩ := hi.mode.of_run hrun
  obtain ⟨rfl, rfl⟩ := hi.core.drained hd h3 h4
  intro hs
  rcases mem_cons.mp hb with rfl | hb
  · rcases h5 with ⟨-, rfl⟩ | ⟨hp, -⟩
    · cases hpc : st.pc i with
      | running r => rw [hpc] at hs; cases hs
      | _ => simp [runOf, hpc, Pc.run] at hrun
    · rcases (hi.core.thread i).inside (h3 ▸ mem_cons_self) with h | h
      · rw [h.2] at hs
        cases hs
      · cases hp.symm.trans h.1
  · rcases (hi.core.thread i).signalled hs with hd | hd <;> rcases h7 i hb with h | h <;>
      exact CmsgState.noConfusion (h.symm.trans hd)

theorem Inv.setRun {r' : Run} (hrun : runOf st o = some r) (ho : o ≠ .inflight) (hlast : r'.last = r.last)
    {msg : Id → Msg} {replied : Id → Bool} (hdr : Id → Hdr) (hd : drain r.last st.queue = some (batch, after))
    (hm : ∀ i, msg i = st.msg i ∧ replied i = st.replied i ∨ i ∈ batch ∧ (msg i).cb.posted = st.posted i ∧
        ((msg i).cb.state = st.state i ∧ replied i = st.replied i ∨
          (msg i).cb.state = .replyFound ∧ replied i = true)) :
    Inv (setRun { st with msg := msg, replied := replied, hdr := hdr } r' o) := by
  obtain ⟨h, bs, rest, h2, h3, h4, h5, h6, h7, h8, h9⟩ := hi.mode.of_run hrun
  obtain ⟨rfl, rfl⟩ := hi.core.drained hd h3 h4
  have hn := hi.core.queue_nodup
  rw [h3] at hn
  have hposted : ∀ i, (msg i).cb.posted = st.posted i := by
    intro i
    rcases hm i with ⟨he, -⟩ | ⟨-, he, -⟩
    · rw [he]
      rfl
    · exact he
  have hstate : ∀ i, (msg i).cb.state = st.state i ∨ (msg i).cb.state = .replyFound := by
    intro i
    rcases hm i with ⟨he, -⟩ | ⟨-, -, he | he⟩
    · exact .inl (by rw [he]; rfl)
    · exact .inl he.1
    · exact .inr he.1
  have hrest : ∀ i ∈ rest, msg i = st.msg i := by
    intro i hr
    rcases hm i with ⟨he, -⟩ | ⟨hb, -⟩
    · exact he
    · exact absurd rfl ((nodup_append.mp hn).2.2 i hb i hr)
  have hcore : Core { st with msg := msg, replied := replied, hdr := hdr } := by
    refine hi.core.update msg replied hdr fun i => ?_
    rcases hm i with he | ⟨hb, hp, hs⟩
    · exact .inl he
    have hq : i ∈ st.queue := h3 ▸ mem_append_left rest hb
    have hsig := hi.batch_not_signalled hrun hd hb
    refine .inr ⟨hq, hp, ?_⟩
    rcases hs with ⟨hs, hr⟩ | ⟨hs, hr⟩
    · refine ⟨?_, fun hf => ?_, fun hb => ?_, fun h => absurd h hsig, fun h => hr.trans h⟩
      · rw [hs]
        exact (hi.core.thread i).live hq
      · exact hr.trans ((hi.core.reply i).found (hs.symm.trans hf))
      · have := (hi.core.thread i).blocked hb
        rwa [Msg.inProgress, hs]
    · refine ⟨?_, fun _ => hr, fun _ => ?_, fun h => absurd h hsig, fun _ => hr⟩
      · rw [hs]
        exact CmsgState.noConfusion
      · simp [Msg.inProgress, hs]
  have hrun1 : ∀ o, runOf { st with msg := msg, replied := replied, hdr := hdr } o = runOf st o := fun o => by
    cases o <;> rfl
  refine ⟨hcore.setRun ((hrun1 o).trans hrun) r' fun i hs => ?_, ?_⟩
  · rcases h5 with ⟨-, he⟩ | ⟨-, he⟩
    · obtain rfl := Owner.sync.inj (hs.symm.trans he)
      exact h3 ▸ mem_cons_self
    · exact absurd hs (he i)
  obtain ⟨hqueue, hmsg, hpend⟩ := setRun_frame { st with msg := msg, replied := replied, hdr := hdr } r' o
  refine .active o r' h bs rest (runOf_setRun_self _ _ ho) (fun o' ho' => ?_) (hqueue.trans h3) (h4.trans hlast.symm)
    ?_ ?_ (fun i hb => ?_) (fun i hr => ?_) (hpend.trans h9)
  · rw [runOf_setRun_ne _ _ ho', hrun1, h2 o' ho']
  · rw [St.posted, hmsg, hposted h]
    exact h5
  · rw [St.state, hmsg]
    rcases hstate h with hs | hs
    · rw [hs]
      exact h6
    · exact .inr (.inr hs)
  · rw [St.state, hmsg]
    rcases hstate i with hs | hs
    · rw [hs]
      exact h7 i hb
    · exact .inr hs
  · rw [St.state, hmsg]
    exact (congrArg (·.cb.state) (hrest i hr)).trans (h8 i hr)

theorem inv_reconfig (hrun : runOf st o = some r) (ho : o ≠ .inflight) (phase : Phase) :
    Inv (Mbox.setRun st ⟨r.last, phase⟩ o) := by
  obtain ⟨h, bs, rest, -, hq, hl, -⟩ := hi.mode.of_run hrun
  have hlast : (Run.mk r.last phase).last = r.last := rfl
  exact hi.setRun hrun ho hlast st.hdr (hi.core.drain hq hl) fun i => .inl ⟨rfl, rfl⟩

theorem inv_copyOut (caps : MboxCaps) {last : Id} {data : Nat} (hrun : runOf st o = some ⟨last, .parsing data⟩)
    (t : Tlv) : Inv (Mbox.setRun (copyOutTlv caps st last data t).1 ⟨last, (copyOutTlv caps st last data t).2⟩ o) := by
  have ho : o ≠ .inflight := by
    rintro rfl
    rw [runOf] at hrun
    split at hrun <;> simp at hrun
  obtain ⟨h, bs, rest, -, hq, hlast, -⟩ := hi.mode.of_run hrun
  rcases copyOutTlv_cases caps st last data t with he | ⟨i, hfind, he⟩
  · rw [he]
    exact inv_reconfig hi hrun ho _
  rw [he]
  have hmem : i ∈ h :: bs := by
    rw [hq, show last = _ from hlast.symm] at hfind
    exact findReq_mem (cons_ne_nil h bs) hfind
  obtain ⟨msg, replied, hdr, he, hother, hpost, hstate⟩ := replyTo_cases st i t
  rw [he]
  have hlast' : (Run.mk last (copyOutTlv caps st last data t).2).last = (Run.mk last (.parsing data)).last := rfl
  refine hi.setRun hrun ho hlast' hdr (hi.core.drain hq hlast) fun j => ?_
  by_cases hj : j = i
  · rw [hj]
    exact .inr ⟨hmem, hpost, hstate⟩
  · exact .inl (hother j hj)

theorem inv_finish (hrun : runOf st o = some r) (ho : o ≠ .inflight) {f : Msg → Msg}
    (hf : ∀ m, (f m).cb.state = .done ∧ (f m).cb.posted = m.cb.posted ∧
      ((f m).cb.err = none → m.cb.state = .replyFound)) : Inv (endRun (dequeueBatch r.last f st) o) := by
  obtain ⟨h, bs, rest, h2, h3, h4, h5, h6, h7, h8, h9⟩ := hi.mode.of_run hrun
  have hn := hi.core.queue_nodup
  rw [h3] at hn
  have hd := hi.core.drain h3 h4
  have hpcs : ∀ i ∈ h :: bs, st.pc i ≠ .locking false := fun i hb he =>
    hi.batch_not_signalled hrun hd hb (by rw [he]; rfl)
  have hcore := hi.core.dequeue h3 hpcs hf
  rw [dequeueBatch, hd]
  have hmem : h ∈ h :: bs := mem_cons_self
  have hhead : h ∉ rest := fun hr => (nodup_append.mp hn).2.2 h hmem h hr rfl
  have hall : ∀ i ∈ rest, (st.mapMsgs (h :: bs) f).state i = .queued := by
    intro i hr
    have hnb : i ∉ h :: bs := fun hb => (nodup_append.mp hn).2.2 i hb i hr rfl
    rw [St.state, mapMsgs_not_mem hnb]
    exact h8 i hr
  have hdone : (st.mapMsgs (h :: bs) f).state h = .done := by
    rw [St.state, mapMsgs_mem hmem]
    exact (hf _).1
  refine inv_handoff hcore hall h9 ho (fun o' ho' => ?_) fun i hs => ?_
  · have hnone := h2 o' ho'
    cases o' with
    | inflight =>
      rw [runOf] at hnone ⊢
      split at hnone
      · cases hnone
      · next hw => exact if_neg hw
    | sync | runq | wait => exact hnone
  · rcases h5 with ⟨-, he⟩ | ⟨-, he⟩
    · obtain rfl := Owner.sync.inj (hs.symm.trans he)
      refine ⟨hhead, hdone, fun hret => ?_⟩
      rw [hs, runOf, show st.pc i = _ from hret] at hrun
      exact absurd hrun (by simp [Pc.run])
    · exact absurd hs (he i)

end Runner

end NfpDriver.Mbox
