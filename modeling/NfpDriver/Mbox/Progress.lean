import NfpDriver.Mbox.Protocol
import NfpDriver.Library.Runs

namespace NfpDriver.Mbox

open List Runs

def Shrinks (caps : MboxCaps) (st : St) : Prop :=
  ∃ st', Relation.ReflTransGen (Step caps) st st' ∧ Inv st' ∧ st'.queue.length < st.queue.length

variable {caps : MboxCaps} {st st' : St} {o : Owner} {r : Run} {last h : Id} {timedOut : Bool}

theorem Shrinks.of_step (h : Step caps st st') (hq : st'.queue = st.queue) (hs : Shrinks caps st') :
    Shrinks caps st := by
  obtain ⟨st'', hr, hi, hlt⟩ := hs
  exact ⟨st'', .head h hr, hi, hq ▸ hlt⟩

theorem startRun_queue (caps : MboxCaps) (st : St) (o : Owner) : (startRun caps st o).queue = st.queue := by
  cases o <;> rfl

section Progress

variable (caps : MboxCaps) {st : St} (hi : Inv st)

include hi

theorem shrinks_finish (hrun : runOf st o = some r) (hphase : r.phase = .parsed ∨ r.phase = .failed) :
    Shrinks caps st := by
  obtain ⟨last, phase⟩ := r
  obtain ⟨h, bs, rest, -, hq, hlast, -⟩ := hi.mode.of_run hrun
  have hlen : ∀ f, (endRun (dequeueBatch last f st) o).queue.length < st.queue.length := by
    intro f
    have hrest : (endRun (dequeueBatch last f st) o).queue = rest := by
      rw [(endRun_frame _ o).1, dequeueBatch, show drain last st.queue = _ from hi.core.drain hq hlast]
      exact (markNext_frame _).1
    rw [hrest, hq, length_append, length_cons]
    omega
  rcases hphase with rfl | rfl
  · have hstep : Step caps st (endRun (dequeueBatch last copyOutDone st) o) := ⟨.finish o, by rw [apply, hrun]⟩
    exact ⟨_, .single hstep, inv_step hi hstep, hlen copyOutDone⟩
  · have hstep : Step caps st (endRun (dequeueBatch last markErr st) o) := ⟨.finish o, by rw [apply, hrun]⟩
    exact ⟨_, .single hstep, inv_step hi hstep, hlen markErr⟩

def endTlv : Tlv := ⟨tlvWord .endTlv 0, 0, fun _ => 0⟩

omit hi in
theorem copyOutTlv_end (last : Id) (data : Nat) : copyOutTlv caps st last data endTlv = (st, .parsed) := by
  simp only [copyOutTlv]
  split
  · rfl
  · exact if_pos (by decide)

theorem shrinks_parsing {data : Nat} (hrun : runOf st o = some ⟨last, .parsing data⟩) : Shrinks caps st := by
  have hstep : Step caps st (setRun st ⟨last, .parsed⟩ o) :=
      ⟨.copyOut o endTlv, by rw [apply, hrun]; simp only [copyOutTlv_end]⟩
  refine .of_step hstep (setRun_frame st _ o).1 ?_
  exact shrinks_finish caps (inv_step hi hstep) (runOf_setRun_self st _ (not_inflight hrun (by simp))) (.inl rfl)

theorem shrinks_selected (hrun : runOf st o = some ⟨last, .selected⟩) (ho : o ≠ .inflight) : Shrinks caps st := by
  have hstep : Step caps st (setRun st ⟨last, .failed⟩ o) := ⟨.reconfig o false, by rw [apply, if_neg ho, hrun]; rfl⟩
  refine .of_step hstep (setRun_frame st _ o).1 ?_
  exact shrinks_finish caps (inv_step hi hstep) (runOf_setRun_self st _ ho) (.inr rfl)

theorem shrinks_own (hrun : runOf st o = some r) (ho : o ≠ .inflight) : Shrinks caps st := by
  obtain ⟨last, phase⟩ := r
  cases phase with
  | selected => exact shrinks_selected caps hi hrun ho
  | parsing data => exact shrinks_parsing caps hi hrun
  | parsed => exact shrinks_finish caps hi hrun (.inl rfl)
  | failed => exact shrinks_finish caps hi hrun (.inr rfl)

theorem shrinks_run (hrun : runOf st o = some r) : Shrinks caps st := by
  by_cases ho : o = .inflight
  · subst ho
    have hpend : st.wait.pending = true := by
      rw [runOf] at hrun
      split at hrun
      · assumption
      · cases hrun
    obtain ⟨h, bs, rest, hu, hq, -, hpost, -⟩ := hi.mode.of_run hrun
    have hidle : st.wait.run = none := hu .wait Owner.noConfusion
    have hpost : (st.msg h).cb.posted = true := by
      rcases hpost with ⟨-, he⟩ | ⟨hp, -⟩
      · exact Owner.noConfusion he
      · exact hp
    have hstep : Step caps st (setRun { st with wait := { st.wait with pending := false } } ⟨h, .selected⟩ .wait) := by
      refine ⟨.waitWork, ?_⟩
      rw [apply, if_pos ⟨hpend, hidle⟩, waitWork]
      simp only [hq, cons_append]
      rw [if_pos hpost]
    exact .of_step hstep rfl (shrinks_own caps (inv_step hi hstep) (o := .wait) rfl fun h => Owner.noConfusion h)
  · exact shrinks_own caps hi hrun ho

theorem shrinks_locking (hhead : st.queue.head? = some h) (hpc : st.pc h = .locking timedOut) : Shrinks caps st := by
  have hfirst : nfpCcmMboxIsFirst st h = true := decide_eq_true hhead
  have hstep : Step caps st (startRun caps st (.sync h)) :=
    ⟨.lock h, by rw [apply, hpc]; simp only [lockAfterWait, hfirst, if_true]⟩
  refine .of_step hstep (startRun_queue caps st _) ?_
  exact shrinks_run caps (inv_step hi hstep) (o := .sync h) (runOf_setRun_self _ _ fun h => Owner.noConfusion h)

theorem shrinks_woken (hhead : st.queue.head? = some h) (hpc : st.pc h = .woken timedOut) : Shrinks caps st := by
  have hlive : (st.msg h).done = false := decide_eq_false ((hi.core.thread h).live (mem_of_head? hhead))
  have hstep : Step caps st (st.setPc h (.locking timedOut)) :=
    ⟨.check h, by rw [apply, hpc]; simp only [hlive, Bool.false_eq_true, if_false]⟩
  exact .of_step hstep rfl (shrinks_locking caps (inv_step hi hstep) hhead (setPc_self st h _))

theorem shrinks_waiting (hhead : st.queue.head? = some h) (hpc : st.pc h = .waiting) : Shrinks caps st := by
  have hstep : Step caps st (st.setPc h (.woken !((st.msg h).done || (st.msg h).shouldRun))) :=
    ⟨.wake h true, by rw [apply]; simp only [hpc, Bool.true_or, and_self, if_true]⟩
  exact .of_step hstep rfl (shrinks_woken caps (inv_step hi hstep) hhead (setPc_self st h _))

theorem shrinks (hne : st.queue ≠ []) : Shrinks caps st := by
  cases hm : hi.mode with
  | empty hq => exact absurd hq hne
  | active o r h bs rest hrun => exact shrinks_run caps hi hrun
  | next h rest hq hr hs ht hp =>
    have hhead : st.queue.head? = some h := by rw [hq]; rfl
    rcases (hi.core.thread h).inside (mem_of_head? hhead) with ⟨hpost, -⟩ | ⟨-, hatt⟩
    · have hstep : Step caps st (startRun caps { st with runq := { st.runq with pending := false } } .runq) := by
        refine ⟨.runqWork, ?_⟩
        rw [apply, if_pos ⟨hp.trans hpost, hr .runq⟩, runqWork]
        simp only [hq]
        rw [if_pos ⟨hpost, decide_eq_true hs⟩]
      exact .of_step hstep rfl (shrinks_run caps (inv_step hi hstep) (o := .runq) rfl)
    cases hpc : st.pc h with
    | waiting => exact shrinks_waiting caps hi hhead hpc
    | woken timedOut => exact shrinks_woken caps hi hhead hpc
    | locking timedOut => exact shrinks_locking caps hi hhead hpc
    | blocked =>
      have hprog := (hi.core.thread h).blocked hpc
      simp [Msg.inProgress, show (st.msg h).cb.state = _ from hs] at hprog
    | running r =>
      have hnone := hr (.sync h)
      rw [runOf, hpc] at hnone
      exact absurd hnone (by simp [Pc.run])
    | _ => rw [hpc] at hatt; cases hatt

end Progress

theorem queue_drains (caps : MboxCaps) (hi : Inv st) :
    ∃ st', Relation.ReflTransGen (Step caps) st st' ∧ st'.queue = [] := by
  induction hn : st.queue.length using Nat.strong_induction_on generalizing st with
  | _ n ih =>
    by_cases hq : st.queue = []
    · exact ⟨st, .refl, hq⟩
    · obtain ⟨st1, hr, hi1, hlt⟩ := shrinks caps hi hq
      obtain ⟨st2, hr2, hq2⟩ := ih _ (hn ▸ hlt) hi1 rfl
      exact ⟨st2, hr.trans hr2, hq2⟩

theorem Inv.owner_step (hi : Inv st) (h : Step caps st st') {i : Id} (hnew : (i, .owner) ∈ st'.log)
    (hold : (i, .owner) ∉ st.log) :
    st.pc i = .locking true ∧
      ∀ o r batch rest, runOf st o = some r → drain r.last st.queue = some (batch, rest) → i ∉ batch := by
  obtain ⟨timedOut, hpc, hhead, hprog⟩ := step_owner h hnew hold
  constructor
  · cases timedOut with
    | true => exact hpc
    | false =>
      have hnext := (hi.core.thread i).ready hpc
      have hmem : i ∈ st.queue := by
        by_contra hn
        exact CmsgState.noConfusion (hnext.symm.trans ((hi.core.thread i).outside hn (by rw [hpc]; rfl)))
      exact absurd (hi.mode.next_first hmem hnext) hhead
  · intro o r batch rest hrun hd hb
    obtain ⟨h, bs, rest', -, h3, h4, -, -, h7, -⟩ := hi.mode.of_run hrun
    obtain ⟨rfl, rfl⟩ := hi.core.drained hd h3 h4
    rcases mem_cons.mp hb with rfl | hb
    · exact hhead (by rw [h3]; rfl)
    · rcases h7 i hb with hs | hs <;> simp [Msg.inProgress, show (st.msg i).cb.state = _ from hs] at hprog

theorem Mode.one_runner (hm : Mode st) {o' : Owner} {r' : Run} (h : runOf st o = some r) (h' : runOf st o' = some r') :
    o = o' := by
  obtain ⟨_, _, _, hu, -⟩ := hm.of_run h
  by_contra hne
  exact absurd ((hu o' fun he => hne he.symm).symm.trans h') (by simp)

theorem Mode.runner_or_next (hm : Mode st) (hne : st.queue ≠ []) :
    (∃ o r, runOf st o = some r) ∨ ∃ h rest, st.queue = h :: rest ∧ st.state h = .next := by
  cases hm with
  | empty hq => exact absurd hq hne
  | next h rest hq _ hs => exact .inr ⟨h, rest, hq, hs⟩
  | active o r h bs rest hr => exact .inl ⟨o, r, hr⟩

theorem reachable_of_run {as : List Action} (h : run (apply caps) st as = some st') :
    Relation.ReflTransGen (Step caps) st st' := by
  induction as generalizing st with
  | nil => exact Option.some.inj h ▸ .refl
  | cons a as ih =>
    obtain ⟨st1, hs, hr⟩ := run_cons.mp h
    exact .head ⟨a, hs⟩ (ih hr)

def firstReply : Tlv := ⟨tlvWord .msg 4, 0x8a000000, fun _ => 0⟩

-- the third sender times out, the first one gets its reply and hands the mailbox to the second, which takes the
-- posted message into its batch
def handOff : List Action :=
  [.communicate 0 oneWord 10 4 4 4 none false, .communicate 1 oneWord 10 4 4 4 none false,
    .communicate 2 oneWord 10 4 4 4 none false, .post 3 oneWord 10 4 4 none false, .wake 2 true, .check 2, .lock 2,
    .reconfig (.sync 0) true, .copyOut (.sync 0) firstReply, .copyOut (.sync 0) endTlv, .finish (.sync 0),
    .skbReturn 0, .wake 1 false, .check 1, .lock 1]

end NfpDriver.Mbox
