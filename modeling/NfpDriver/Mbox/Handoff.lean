import NfpDriver.Mbox.Queue

namespace NfpDriver.Mbox

open List

def St.state (st : St) (i : Id) : CmsgState := (st.msg i).cb.state

def St.posted (st : St) (i : Id) : Bool := (st.msg i).cb.posted

theorem setPc_self (st : St) (i : Id) (p : Pc) : (st.setPc i p).pc i = p := by
  simp only [St.setPc, Function.update_self]

variable {i h : Id} {p : Pc} {tag : BitVec 16} {f : Msg → Msg} {rest l ids : List Id} {st st' : St}

theorem setPc_ne (st : St) {j : Id} (h : j ≠ i) (p : Pc) : (st.setPc i p).pc j = st.pc j := by
  simp only [St.setPc, Function.update_of_ne h]

inductive Mode (st : St) : Prop where
  | empty (hq : st.queue = []) (hr : ∀ o, runOf st o = none) (hp : st.runq.pending = false)
  | next (h : Id) (rest : List Id) (hq : st.queue = h :: rest) (hr : ∀ o, runOf st o = none)
      (hs : st.state h = .next) (ht : ∀ i ∈ rest, st.state i = .queued) (hp : st.runq.pending = st.posted h)
  | active (o : Owner) (r : Run) (h : Id) (bs rest : List Id) (hr : runOf st o = some r)
      (hu : ∀ o', o' ≠ o → runOf st o' = none) (hq : st.queue = h :: bs ++ rest)
      (hl : (h :: bs).getLast (List.cons_ne_nil h bs) = r.last)
      (ho : st.posted h = false ∧ o = .sync h ∨ st.posted h = true ∧ ∀ i, o ≠ .sync i)
      (hh : st.state h = .queued ∨ st.state h = .next ∨ st.state h = .replyFound)
      (hb : ∀ i ∈ bs, st.state i = .busy ∨ st.state i = .replyFound)
      (ht : ∀ i ∈ rest, st.state i = .queued) (hp : st.runq.pending = false)

structure ReplyOk (m : Msg) (pc : Pc) (replied : Bool) : Prop where
  found : m.cb.state = .replyFound → replied = true
  success : m.cb.state = .done → m.cb.err = none → replied = true
  returned : pc = .returned none → replied = true

def Pc.attached : Pc → Bool
  | .waiting | .woken _ | .locking _ | .blocked | .running _ => true
  | _ => false

def Pc.pending : Pc → Bool
  | .waiting | .woken _ | .locking _ | .blocked | .finished => true
  | _ => false

def Pc.signalled : Pc → Bool
  | .woken false | .locking false => true
  | _ => false

structure ThreadOk (queued : Prop) (m : Msg) (pc : Pc) : Prop where
  inside : queued → m.cb.posted = true ∧ pc = .posted ∨ m.cb.posted = false ∧ pc.attached = true
  live : queued → m.cb.state ≠ .done
  outside : ¬queued → pc.pending = true → m.cb.state = .done
  blocked : pc = .blocked → m.inProgress = true
  signalled : pc.signalled = true → m.cb.state = .done ∨ m.cb.state = .next
  ready : pc = .locking false → m.cb.state = .next

structure Core (st : St) : Prop where
  perm : (st.queue ++ st.log.map Prod.fst).Perm st.sent
  nodup : st.sent.Nodup
  fresh : ∀ i ∈ st.sent, st.pc i ≠ .idle
  runner : ∀ i, (i, .runner) ∈ st.log → st.state i = .done
  owner : ∀ i, (i, .owner) ∈ st.log → st.pc i = .returned (some .etimedout) ∧ st.posted i = false
  reply : ∀ i, ReplyOk (st.msg i) (st.pc i) (st.replied i)
  thread : ∀ i, ThreadOk (i ∈ st.queue) (st.msg i) (st.pc i)
  safe : st.oops = false ∧ st.warned = false

structure Inv (st : St) : Prop where
  core : Core st
  mode : Mode st

theorem ThreadOk.gone {queued : Prop} {m : Msg} (hn : ¬queued) (hp : p.pending = false) : ThreadOk queued m p where
  inside h := absurd h hn
  live h := absurd h hn
  outside _ h := Bool.noConfusion (hp.symm.trans h)
  blocked h := by cases h; cases hp
  signalled h := by cases p <;> first | cases h | cases hp
  ready h := by cases h; cases hp

theorem inv_init : Inv init where
  core :=
    { perm := .refl _
      nodup := List.nodup_nil
      fresh := fun _ h => absurd h List.not_mem_nil
      runner := fun _ h => absurd h List.not_mem_nil
      owner := fun _ h => absurd h List.not_mem_nil
      reply := fun _ =>
        ⟨CmsgState.noConfusion, CmsgState.noConfusion, Pc.noConfusion⟩
      thread := fun _ => .gone List.not_mem_nil rfl
      safe := ⟨rfl, rfl⟩ }
  mode := .empty rfl (fun o => by cases o <;> rfl) rfl

section Core

variable {st : St} (hc : Core st)

include hc

theorem Core.queue_nodup : st.queue.Nodup :=
  (hc.perm.nodup_iff.mpr hc.nodup).of_append_left

theorem Core.mem_sent : i ∈ st.sent ↔ i ∈ st.queue ∨ ∃ b, (i, b) ∈ st.log := by
  rw [← hc.perm.mem_iff, mem_append, mem_map]
  constructor
  · rintro (hi | ⟨⟨j, b⟩, hj, rfl⟩)
    · exact .inl hi
    · exact .inr ⟨b, hj⟩
  · rintro (hi | ⟨b, hb⟩)
    · exact .inl hi
    · exact .inr ⟨_, hb, rfl⟩

theorem Core.log_not_queued {b : Remover} (hl : (i, b) ∈ st.log) : i ∉ st.queue := by
  intro hq
  have hd := (nodup_append.mp (hc.perm.nodup_iff.mpr hc.nodup)).2.2
  exact hd i hq i (mem_map.mpr ⟨_, hl, rfl⟩) rfl

theorem Core.idle_not_sent (hi : st.pc i = .idle) : i ∉ st.sent :=
  fun hs => hc.fresh i hs hi

theorem Core.setPc (hret : st.pc i ≠ .returned (some .etimedout)) (hidle : p ≠ .idle)
    (ht : ThreadOk (i ∈ st.queue) (st.msg i) p) (hr : p = .returned none → st.replied i = true) :
    Core (st.setPc i p) where
  perm := hc.perm
  nodup := hc.nodup
  fresh := by
    refine (Function.forall_update_iff st.pc fun j q => j ∈ st.sent → q ≠ .idle).mpr ⟨fun _ => hidle, fun j _ => ?_⟩
    exact hc.fresh j
  runner := hc.runner
  owner j hj := by
    have h : j ≠ i := fun h => hret (h ▸ (hc.owner j hj).1)
    rw [setPc_ne st h]
    exact hc.owner j hj
  reply := by
    refine (Function.forall_update_iff st.pc fun j q => ReplyOk (st.msg j) q (st.replied j)).mpr ⟨?_, fun j _ => ?_⟩
    · exact ⟨(hc.reply i).found, (hc.reply i).success, hr⟩
    · exact hc.reply j
  thread := by
    refine (Function.forall_update_iff st.pc fun j q => ThreadOk (j ∈ st.queue) (st.msg j) q).mpr ⟨ht, fun j _ => ?_⟩
    exact hc.thread j
  safe := hc.safe

theorem Core.enqueue (hi : st.pc i = .idle) {m : Msg} (hs : m.cb.state = .queued)
    (hp : m.cb.posted = true ∧ p = .posted ∨ m.cb.posted = false ∧ p = .waiting) {hdr : Id → Hdr} :
    Core { st with
      queue := st.queue ++ [i], msg := Function.update st.msg i m, hdr := hdr, tag := tag, sent := st.sent ++ [i]
      pc := Function.update st.pc i p } := by
  have hns := hc.idle_not_sent hi
  have hlog : ∀ {j b}, (j, b) ∈ st.log → j ≠ i := fun hl h => hns (hc.mem_sent.mpr (.inr ⟨_, h ▸ hl⟩))
  have hp' : p ≠ .idle ∧ p ≠ .blocked ∧ p ≠ .returned none ∧ p.signalled = false := by
    rcases hp with ⟨-, rfl⟩ | ⟨-, rfl⟩
    · decide
    · decide
  refine ⟨?_, ?_, fun j hj => ?_, fun j hj => ?_, fun j hj => ?_, fun j => ?_, fun j => ?_, hc.safe⟩
  · have := hc.perm.append_right [i]
    refine Perm.trans ?_ this
    simp only [append_assoc]
    exact perm_append_comm.append_left _
  · rw [nodup_append]
    exact ⟨hc.nodup, nodup_singleton i, fun a ha b hb hab => hns (mem_singleton.mp hb ▸ hab ▸ ha)⟩
  · by_cases h : j = i
    · simp only [h, Function.update_self]
      exact hp'.1
    simp only [Function.update_of_ne h]
    rcases mem_append.mp hj with hj | hj
    · exact hc.fresh j hj
    · exact absurd (mem_singleton.mp hj) h
  · simp only [St.state, Function.update_of_ne (hlog hj)]
    exact hc.runner j hj
  · simp only [St.posted, Function.update_of_ne (hlog hj)]
    exact hc.owner j hj
  · by_cases h : j = i
    · simp only [h, Function.update_self]
      exact ⟨fun hf => by rw [hs] at hf; exact CmsgState.noConfusion hf,
        fun hf => by rw [hs] at hf; exact CmsgState.noConfusion hf, fun hf => absurd hf hp'.2.2.1⟩
    · simp only [Function.update_of_ne h]
      exact hc.reply j
  · by_cases h : j = i
    · simp only [h, Function.update_self]
      refine ⟨fun _ => hp.imp id fun hp => ⟨hp.1, by rw [hp.2]; rfl⟩, fun _ hf => ?_, fun hn => ?_,
        fun hb => absurd hb hp'.2.1, fun h => absurd (hp'.2.2.2.symm.trans h) Bool.false_ne_true,
        fun h => absurd (hp'.2.2.2.symm.trans (h ▸ rfl)) Bool.false_ne_true⟩
      · rw [hs] at hf
        exact CmsgState.noConfusion hf
      · exact absurd (mem_append_right _ (mem_singleton.mpr rfl)) hn
    · simp only [Function.update_of_ne h]
      have hiff : j ∈ st.queue ++ [i] ↔ j ∈ st.queue := by simp [h]
      rw [hiff]
      exact hc.thread j

theorem Core.update (msg : Id → Msg) (replied : Id → Bool) (hdr : Id → Hdr)
    (h : ∀ i, msg i = st.msg i ∧ replied i = st.replied i ∨
      i ∈ st.queue ∧ (msg i).cb.posted = st.posted i ∧ (msg i).cb.state ≠ .done ∧
        ((msg i).cb.state = .replyFound → replied i = true) ∧ (st.pc i = .blocked → (msg i).inProgress = true) ∧
        ((st.pc i).signalled = true → (msg i).cb.state = .next) ∧ (st.replied i = true → replied i = true)) :
    Core { st with msg := msg, replied := replied, hdr := hdr } where
  perm := hc.perm
  nodup := hc.nodup
  fresh := hc.fresh
  runner i hi := by
    rcases h i with h | h
    · simp only [St.state, h.1]
      exact hc.runner i hi
    · exact absurd h.1 (hc.log_not_queued hi)
  owner i hi := by
    rcases h i with h | h
    · simp only [St.posted, h.1]
      exact hc.owner i hi
    · exact absurd h.1 (hc.log_not_queued hi)
  reply i := by
    rcases h i with h | ⟨-, -, h1, h2, -, -, h3⟩
    · simp only [h.1, h.2]
      exact hc.reply i
    · exact ⟨h2, fun hd => absurd hd h1, fun hr => h3 ((hc.reply i).returned hr)⟩
  thread i := by
    rcases h i with h | ⟨hq, h0, h1, -, h2, h3, -⟩
    · simp only [h.1]
      exact hc.thread i
    refine ⟨fun _ => ?_, fun _ => h1, fun hn => absurd hq hn, h2, fun hs => .inr (h3 hs),
      fun hs => h3 (hs ▸ rfl)⟩
    rw [h0]
    exact (hc.thread i).inside hq
  safe := hc.safe

theorem Core.dequeue {batch : List Id} (hq : st.queue = batch ++ rest) (hpc : ∀ i ∈ batch, st.pc i ≠ .locking false)
    (hf : ∀ m, (f m).cb.state = .done ∧ (f m).cb.posted = m.cb.posted ∧
      ((f m).cb.err = none → m.cb.state = .replyFound)) :
    Core { st.mapMsgs batch f with queue := rest, log := st.log ++ batch.map fun i => (i, .runner) } := by
  have hn := hc.queue_nodup
  rw [hq, nodup_append] at hn
  have hrest : ∀ i ∈ batch, i ∉ rest := fun i hb hr => hn.2.2 i hb i hr rfl
  have hlog : ∀ {i b}, (i, b) ∈ st.log → i ∉ batch := fun hl hb =>
    hc.log_not_queued hl (hq ▸ mem_append_left _ hb)
  refine ⟨?_, hc.nodup, hc.fresh, fun i hi => ?_, fun i hi => ?_, fun i => ?_, fun i => ?_, hc.safe⟩
  · refine Perm.trans ?_ (hq ▸ hc.perm)
    have hmap : (st.log ++ batch.map fun i => (i, Remover.runner)).map Prod.fst = st.log.map Prod.fst ++ batch := by
      simp [Function.comp_def]
    simp only [hmap]
    rw [← append_assoc]
    refine perm_append_comm.trans ?_
    rw [append_assoc]
  · simp only [St.state, St.mapMsgs]
    rcases mem_append.mp hi with hi | hi
    · rw [if_neg (hlog hi)]
      exact hc.runner i hi
    obtain ⟨j, hj, he⟩ := mem_map.mp hi
    obtain rfl := congrArg Prod.fst he
    rw [if_pos hj]
    exact (hf _).1
  · rcases mem_append.mp hi with hi | hi
    · simp only [St.posted, St.mapMsgs]
      rw [if_neg (hlog hi)]
      exact hc.owner i hi
    · obtain ⟨j, -, he⟩ := mem_map.mp hi
      exact Remover.noConfusion (congrArg Prod.snd he)
  · simp only [St.mapMsgs]
    split
    · refine ⟨fun h => ?_, fun _ he => (hc.reply i).found ((hf _).2.2 he), (hc.reply i).returned⟩
      rw [(hf _).1] at h
      exact CmsgState.noConfusion h
    · exact hc.reply i
  · simp only [St.mapMsgs]
    split
    · next hb =>
      refine ⟨fun h => absurd h (hrest i hb), fun h => absurd h (hrest i hb), fun _ _ => (hf _).1, fun _ => ?_,
        fun _ => .inl (hf _).1, fun h => absurd h (hpc i hb)⟩
      simp [Msg.inProgress, (hf _).1]
    · next hb =>
      have hiff : i ∈ rest ↔ i ∈ st.queue := by simp [hq, hb]
      rw [hiff]
      exact hc.thread i

theorem Core.unlink (hi : i ∈ st.queue) (hp : st.posted i = false) :
    Core { st with
      queue := st.queue.erase i, log := st.log ++ [(i, .owner)]
      pc := Function.update st.pc i (.returned (some .etimedout)) } := by
  have hlog : ∀ {j b}, (j, b) ∈ st.log → j ≠ i := fun hl h => hc.log_not_queued hl (h ▸ hi)
  refine ⟨?_, hc.nodup, fun j hj => ?_, fun j hj => ?_, fun j hj => ?_, fun j => ?_, fun j => ?_, hc.safe⟩
  · refine Perm.trans ?_ hc.perm
    simp only [map_append, map_cons, map_nil]
    rw [← append_assoc]
    refine perm_append_comm.trans ?_
    exact (perm_cons_erase hi).symm.append_right _
  · by_cases h : j = i
    · simp only [h, Function.update_self]
      exact Pc.noConfusion
    · simp only [Function.update_of_ne h]
      exact hc.fresh j hj
  · rcases mem_append.mp hj with hj | hj
    · exact hc.runner j hj
    · exact Remover.noConfusion (congrArg Prod.snd (mem_singleton.mp hj))
  · rcases mem_append.mp hj with hj | hj
    · simp only [Function.update_of_ne (hlog hj)]
      exact hc.owner j hj
    · obtain rfl := congrArg Prod.fst (mem_singleton.mp hj)
      simp only [Function.update_self]
      exact ⟨trivial, hp⟩
  · by_cases h : j = i
    · simp only [h, Function.update_self]
      exact ⟨(hc.reply i).found, (hc.reply i).success, fun h => by simp at h⟩
    · simp only [Function.update_of_ne h]
      exact hc.reply j
  · by_cases h : j = i
    · simp only [h, Function.update_self]
      exact .gone (fun h => (hc.queue_nodup.mem_erase_iff.mp h).1 rfl) rfl
    simp only [Function.update_of_ne h]
    have hiff : j ∈ st.queue.erase i ↔ j ∈ st.queue := by simp [hc.queue_nodup.mem_erase_iff, h]
    rw [hiff]
    exact hc.thread j

theorem Core.works (runq wait : Work) : Core { st with runq := runq, wait := wait } :=
  { hc with }

end Core

theorem drain_append (hne : l ≠ []) (rest : List Id) (hn : l.Nodup) :
    drain (l.getLast hne) (l ++ rest) = some (l, rest) := by
  induction l with
  | nil => exact absurd rfl hne
  | cons i l ih =>
    rw [cons_append, drain]
    cases l with
    | nil => simp
    | cons j l =>
      have hi : i ≠ (i :: j :: l).getLast hne := by
        intro hc
        exact (nodup_cons.mp hn).1 (hc ▸ getLast_mem _)
      rw [if_neg hi, getLast_cons_cons, ih (cons_ne_nil j l) (nodup_cons.mp hn).2]
      rfl

theorem findReq_mem (hne : l ≠ []) (h : nfpCcmMboxFindReq st tag (l.getLast hne) (l ++ rest) = some i) : i ∈ l := by
  induction l with
  | nil => exact absurd rfl hne
  | cons j l ih =>
    rw [cons_append, nfpCcmMboxFindReq] at h
    split at h
    · exact Option.some.inj h ▸ mem_cons_self
    split at h
    · cases h
    next hj =>
    cases l with
    | nil => exact absurd rfl hj
    | cons k l =>
      exact mem_cons_of_mem j (ih (cons_ne_nil k l) h)

theorem runOf_congr (hpc : ∀ i, (st'.pc i).run = (st.pc i).run) (hr : st'.runq.run = st.runq.run)
    (hw : st'.wait = st.wait) (hq : st.wait.pending = true → st'.queue.headD 0 = st.queue.headD 0) (o : Owner) :
    runOf st' o = runOf st o := by
  cases o with
  | sync i => exact hpc i
  | runq => exact hr
  | wait => rw [runOf, runOf, hw]
  | inflight =>
    rw [runOf, runOf, hw]
    split
    · next hp => rw [hq hp]
    · rfl

theorem runOf_setPc_ne (st : St) {o : Owner} (ho : o ≠ .sync i) (p : Pc) : runOf (st.setPc i p) o = runOf st o := by
  cases o with
  | sync j =>
    have hne : j ≠ i := fun he => ho (he ▸ rfl)
    rw [runOf, setPc_ne st hne, runOf]
  | runq | wait | inflight => rfl

theorem runOf_setRun_self (st : St) (r : Run) {o : Owner} (ho : o ≠ .inflight) : runOf (setRun st r o) o = some r := by
  cases o with
  | sync i => rw [setRun, runOf, setPc_self]; rfl
  | runq | wait => rfl
  | inflight => exact absurd rfl ho

theorem runOf_setRun_ne (st : St) (r : Run) {o o' : Owner} (ho : o' ≠ o) :
    runOf (setRun st r o) o' = runOf st o' := by
  cases o with
  | sync i => exact runOf_setPc_ne st ho _
  | runq | wait => cases o' <;> first | rfl | exact absurd rfl ho
  | inflight => rfl

theorem setRun_frame (st : St) (r : Run) (o : Owner) :
    (setRun st r o).queue = st.queue ∧ (setRun st r o).msg = st.msg ∧
      (setRun st r o).runq.pending = st.runq.pending := by
  cases o <;> exact ⟨rfl, rfl, rfl⟩

-- the queue may change behind the messages of the running batch only
theorem Mode.reshape (hm : Mode st) (hsame : ∀ i ∈ st.queue, st'.msg i = st.msg i)
    (hnil : st.queue = [] → st'.queue = [])
    (hq : ∀ h bs rest, st.queue = h :: bs ++ rest → (∀ i ∈ bs, (st.msg i).inProgress = true) →
      (∀ i ∈ rest, st.state i = .queued) → ∃ rest', st'.queue = h :: bs ++ rest' ∧ ∀ i ∈ rest', st'.state i = .queued)
    (hp : st'.runq.pending = st.runq.pending) (hr : ∀ o, runOf st' o = runOf st o) : Mode st' := by
  cases hm with
  | empty h1 h2 h3 => exact .empty (hnil h1) (fun o => (hr o).trans (h2 o)) (hp.trans h3)
  | next h rest h1 h2 h3 h4 h5 =>
    have hh := hsame h (h1 ▸ mem_cons_self)
    obtain ⟨rest', hq', ht⟩ := hq h [] rest h1 (fun i hi => absurd hi not_mem_nil) h4
    refine .next h rest' hq' (fun o => (hr o).trans (h2 o)) ?_ ht ?_
    · rwa [St.state, hh]
    · rw [hp, h5, St.posted, St.posted, hh]
  | active o r h bs rest h1 h2 h3 h4 h5 h6 h7 h8 h9 =>
    have hh := hsame h (h3 ▸ mem_cons_self)
    have hbusy : ∀ i ∈ bs, (st.msg i).inProgress = true := by
      intro i hi
      rcases h7 i hi with hs | hs <;> simp [Msg.inProgress, show (st.msg i).cb.state = _ from hs]
    obtain ⟨rest', hq', ht⟩ := hq h bs rest h3 hbusy h8
    refine .active o r h bs rest' ((hr o).trans h1) (fun o' ho => (hr o').trans (h2 o' ho)) hq' h4 ?_ ?_
      (fun i hi => ?_) ht (hp.trans h9)
    · rwa [St.posted, hh]
    · rwa [St.state, hh]
    · rw [St.state, hsame i (h3 ▸ mem_append_left _ (mem_cons_of_mem h hi))]
      exact h7 i hi

theorem Mode.congr (hm : Mode st) (hq : st'.queue = st.queue) (hmsg : st'.msg = st.msg)
    (hp : st'.runq.pending = st.runq.pending) (hr : ∀ o, runOf st' o = runOf st o) : Mode st' := by
  refine hm.reshape (fun i _ => congrFun hmsg i) hq.trans (fun h bs rest h1 _ ht =>
    ⟨rest, hq.trans h1, fun i hi => ?_⟩) hp hr
  rw [St.state, hmsg]
  exact ht i hi

theorem run_update (hrun : (st.pc i).run = none) (hp : p.run = none) (j : Id) :
    (Function.update st.pc i p j).run = (st.pc j).run := by
  by_cases h : j = i
  · rw [h, Function.update_self, hp, hrun]
  · rw [Function.update_of_ne h]

theorem Inv.setPc (hi : Inv st) (hrun : (st.pc i).run = none) (hret : st.pc i ≠ .returned (some .etimedout))
    (hp : p.run = none) (hidle : p ≠ .idle) (ht : ThreadOk (i ∈ st.queue) (st.msg i) p)
    (hr : p = .returned none → st.replied i = true) : Inv (st.setPc i p) where
  core := hi.core.setPc hret hidle ht hr
  mode := by
    exact hi.mode.congr rfl rfl rfl (runOf_congr (run_update hrun hp) rfl rfl fun _ => rfl)

theorem take_batch (caps : MboxCaps) (hq : st.queue = h :: rest) :
    ∃ bs rest', selectBatch caps st = h :: bs ∧ st.queue = h :: bs ++ rest' := by
  obtain ⟨k, hk⟩ : ∃ k, (runQueueBatch caps (st.queue.map st.msg)).length = k + 1 := by
    rw [hq, map_cons, runQueueBatch, length_cons]
    exact ⟨_, rfl⟩
  refine ⟨rest.take k, rest.drop k, ?_, ?_⟩
  · rw [selectBatch, hk, hq, take_succ_cons]
  · rw [hq, cons_append, take_append_drop]

theorem mapMsgs_mem (h : i ∈ ids) : (st.mapMsgs ids f).msg i = f (st.msg i) := if_pos h

theorem mapMsgs_not_mem (h : i ∉ ids) : (st.mapMsgs ids f).msg i = st.msg i := if_neg h

theorem Core.queued_not_signalled (hc : Core st) (hs : st.state i = .queued) : ¬(st.pc i).signalled = true := by
  intro h
  rcases (hc.thread i).signalled h with hd | hd
  · exact CmsgState.noConfusion (hs.symm.trans hd)
  · exact CmsgState.noConfusion (hs.symm.trans hd)

theorem Core.setBusy (hc : Core st) (hs : ∀ i ∈ ids, i ∈ st.queue ∧ st.state i = .queued) :
    Core (st.mapMsgs ids (·.setState .busy)) := by
  refine hc.update _ st.replied st.hdr fun i => ?_
  by_cases hi : i ∈ ids
  · rw [if_pos hi]
    refine .inr ⟨(hs i hi).1, rfl, CmsgState.noConfusion, CmsgState.noConfusion, fun _ => rfl,
      fun h => absurd h (hc.queued_not_signalled (hs i hi).2), id⟩
  · rw [if_neg hi]
    exact .inl ⟨rfl, rfl⟩

section Start

variable {st : St} (hc : Core st) (caps : MboxCaps) {h : Id} {rest : List Id} (hq : st.queue = h :: rest)
  (hh : st.state h = .queued ∨ st.state h = .next) (ht : ∀ i ∈ rest, st.state i = .queued)
  (hr : ∀ o, runOf st o = none) (hp : st.runq.pending = false)

include hc hq hh ht

omit hh in
theorem Core.startBusy : Core (st.mapMsgs (selectBatch caps st).tail (·.setState .busy)) := by
  obtain ⟨bs, rest', hb, hq2⟩ := take_batch caps hq
  refine hc.setBusy fun i hi => ?_
  rw [hb, tail_cons] at hi
  have hrest : rest = bs ++ rest' := by
    rw [hq] at hq2
    exact (cons.inj hq2).2
  have hmem : i ∈ rest := hrest ▸ mem_append_left rest' hi
  exact ⟨hq ▸ mem_cons_of_mem h hmem, ht i hmem⟩

include hr hp

theorem start_mode {o : Owner} (hne : o ≠ .inflight)
    (ho : st.posted h = false ∧ o = .sync h ∨ st.posted h = true ∧ ∀ i, o ≠ .sync i) : Mode (startRun caps st o) := by
  obtain ⟨bs, rest', hb, hq2⟩ := take_batch caps hq
  obtain ⟨hqueue, hm, hpend⟩ := setRun_frame (nfpCcmMboxRunQueue caps st).1 (nfpCcmMboxRunQueue caps st).2 o
  have hn := hc.queue_nodup
  rw [hq2, nodup_append, nodup_cons] at hn
  have hmsg : (startRun caps st o).msg = (st.mapMsgs bs (·.setState .busy)).msg := by
    rw [startRun, hm, nfpCcmMboxRunQueue, hb]
    rfl
  have hh' : (startRun caps st o).msg h = st.msg h := by rw [hmsg, mapMsgs_not_mem hn.1.1]
  refine .active o _ h bs rest' (runOf_setRun_self _ _ hne) (fun o' ho' => ?_) (hqueue.trans hq2) ?_ ?_ ?_
    (fun i hi => ?_) (fun i hi => ?_) (hpend.trans hp)
  · rw [startRun, runOf_setRun_ne _ _ ho', ← hr o']
    cases o' <;> rfl
  · rw [nfpCcmMboxRunQueue, hb, getLastD_eq_getLast?, getLast?_eq_getLast_of_ne_nil (cons_ne_nil h bs)]
    rfl
  · rwa [St.posted, hh']
  · rw [St.state, hh']
    exact hh.imp id .inl
  · rw [St.state, hmsg, mapMsgs_mem hi]
    exact .inl rfl
  · have hni : i ∉ bs := fun hb => hn.2.2 i (mem_cons_of_mem h hb) i hi rfl
    rw [St.state, hmsg, mapMsgs_not_mem hni]
    rw [hq, cons_append] at hq2
    exact ht i ((cons.inj hq2).2 ▸ mem_append_right bs hi)

theorem Inv.start_sync (hpost : st.posted h = false) (hpc : (st.pc h).attached = true) :
    Inv (startRun caps st (.sync h)) := by
  have hmem : h ∈ st.queue := hq ▸ mem_cons_self
  have hc1 := hc.startBusy caps hq ht
  refine ⟨hc1.setPc ?_ Pc.noConfusion ?_ Pc.noConfusion,
    start_mode hc caps hq hh ht hr hp (fun h => Owner.noConfusion h) (.inl ⟨hpost, rfl⟩)⟩
  · intro he
    rw [show st.pc h = _ from he] at hpc
    cases hpc
  · refine ⟨fun _ => ?_, (hc1.thread h).live, fun hn => absurd hmem hn, Pc.noConfusion,
      Bool.noConfusion, Pc.noConfusion⟩
    rcases (hc1.thread h).inside hmem with hpos | hpos
    · rw [show (st.pc h) = _ from hpos.2] at hpc
      cases hpc
    · exact .inr ⟨hpos.1, rfl⟩

theorem Inv.start_runq (hpost : st.posted h = true) : Inv (startRun caps st .runq) :=
  ⟨(hc.startBusy caps hq ht).works _ _, start_mode hc caps hq hh ht hr hp (fun h => Owner.noConfusion h)
    (.inr ⟨hpost, fun _ h => Owner.noConfusion h⟩)⟩

end Start

theorem markNext_nil (hq : st.queue = []) : nfpCcmMboxMarkNextRunner st = st := by
  rw [nfpCcmMboxMarkNextRunner, hq]

theorem markNext_cons (hq : st.queue = h :: rest) :
    nfpCcmMboxMarkNextRunner st =
      { st with
        msg := Function.update st.msg h ((st.msg h).setState .next)
        runq := { st.runq with pending := st.runq.pending || st.posted h } } := by
  rw [nfpCcmMboxMarkNextRunner, hq]
  simp only [St.setMsg, Function.update_self]
  have hpos : ((st.msg h).setState .next).cb.posted = st.posted h := rfl
  rw [hpos]
  cases st.posted h with
  | true => rw [if_pos rfl, Bool.or_true, hq]
  | false => rw [if_neg Bool.false_ne_true, Bool.or_false, hq]

theorem runOf_markNext (st : St) (o : Owner) : runOf (nfpCcmMboxMarkNextRunner st) o = runOf st o := by
  cases hq : st.queue with
  | nil => rw [markNext_nil hq]
  | cons h rest =>
    rw [markNext_cons hq]
    cases o <;> rfl

theorem Core.markNext (hc : Core st) (hall : ∀ i ∈ st.queue, st.state i = .queued) :
    Core (nfpCcmMboxMarkNextRunner st) := by
  cases hq : st.queue with
  | nil => rwa [markNext_nil hq]
  | cons h rest =>
    have hmem : h ∈ st.queue := hq ▸ mem_cons_self
    rw [markNext_cons hq]
    refine (hc.update (Function.update st.msg h ((st.msg h).setState .next)) st.replied st.hdr fun i => ?_).works _ _
    by_cases hi : i = h
    · rw [hi, Function.update_self]
      refine .inr ⟨hmem, rfl, CmsgState.noConfusion, CmsgState.noConfusion, fun hb => ?_,
        fun _ => rfl, id⟩
      have := (hc.thread h).blocked hb
      simp [Msg.inProgress, show (st.msg h).cb.state = _ from hall h hmem] at this
    · rw [Function.update_of_ne hi]
      exact .inl ⟨rfl, rfl⟩

theorem handoff_mode (hn : st.queue.Nodup) (hall : ∀ i ∈ st.queue, st.state i = .queued)
    (hp : st.runq.pending = false) (hq : st'.queue = (nfpCcmMboxMarkNextRunner st).queue)
    (hm : st'.msg = (nfpCcmMboxMarkNextRunner st).msg)
    (hp' : st'.runq.pending = (nfpCcmMboxMarkNextRunner st).runq.pending) (hr : ∀ o, runOf st' o = none) :
    Mode st' := by
  cases hs : st.queue with
  | nil =>
    rw [markNext_nil hs] at hq hp'
    exact .empty (hq.trans hs) hr (hp'.trans hp)
  | cons h rest =>
    rw [markNext_cons hs] at hq hm hp'
    rw [hs, nodup_cons] at hn
    have hmsg : st'.msg h = (st.msg h).setState .next := by rw [hm]; exact Function.update_self _ _ _
    refine .next h rest (hq.trans hs) hr ?_ (fun i hi => ?_) ?_
    · rw [St.state, hmsg]
      rfl
    · have hne : i ≠ h := fun he => hn.1 (he ▸ hi)
      have hsame : st'.msg i = st.msg i := by rw [hm]; exact Function.update_of_ne hne _ _
      rw [St.state, hsame]
      exact hall i (hs ▸ mem_cons_of_mem h hi)
    · rw [hp', hp, Bool.false_or, St.posted, St.posted, hmsg]
      rfl

end NfpDriver.Mbox
