import Mathlib.Data.BitVec
import NfpDriver.Library.Runs

namespace NfpDriver.Reconfig

open Runs BitVec Option Bool

abbrev Word := BitVec 32

abbrev nfpNetCfgUpdateErr : Word := 0x80000000#32
abbrev nfpNetPollTimeout : Nat := 5

inductive Pc where
  | idle
  | deleting (todo : List Word) (kick : Bool)
  | starting (todo : List Word) (kick : Bool)
  | written (todo : List Word) (kick : Bool)
  | waiting (i : Nat) (timedOut : Bool) (deadline : Nat) (todo : List Word) (kick : Bool)
  | sleeping (deadline : Nat) (todo : List Word) (kick : Bool)
  deriving DecidableEq, Repr

def Pc.todo : Pc → List Word
  | .idle => []
  | .deleting todo _ | .starting todo _ | .written todo _ | .waiting _ _ _ todo _ | .sleeping _ todo _ => todo

structure St where
  reg : Word
  posted : Word
  timerActive : Bool
  syncPresent : Bool
  pending : Option Nat
  expires : Nat
  firing : Bool
  now : Nat
  pc : Pc
  deadline : Option Nat
  owed : Word
  premature : Bool
  deriving DecidableEq, Repr

inductive Action where
  | post (update : Word)
  | enter (job : Option Word)
  | delete
  | start
  | await
  | poll
  | wake
  | leave
  | expire
  | handler
  | ack
  | err
  | tick (jiffies : Nat)
  deriving DecidableEq, Repr

def nfpNetReconfigCheckDone (st : St) (lastCheck : Bool) : Bool :=
  if st.reg = 0 then true
  else if st.reg &&& nfpNetCfgUpdateErr ≠ 0 then true
  else lastCheck

def St.expired (st : St) : Bool :=
  match st.deadline with
  | none => false
  | some deadline => deadline ≤ st.now

def St.settled (st : St) : Bool := nfpNetReconfigCheckDone st st.expired

def nfpNetReconfigStart (st : St) (update : Word) : St :=
  { st with
    reg := update
    deadline := none
    owed := st.owed &&& ~~~update
    premature := st.premature || !st.settled }

def nfpNetReconfigStartAsync (hz : Nat) (st : St) (update : Word) : St :=
  let st' := nfpNetReconfigStart { st with posted := 0 } (update ||| st.posted)
  { st' with
    timerActive := true
    pending := some (st.now + nfpNetPollTimeout * hz)
    expires := st.now + nfpNetPollTimeout * hz
    deadline := some (st.now + nfpNetPollTimeout * hz) }

def nfpNetReconfigPost (hz : Nat) (st : St) (update : Word) : St :=
  let st := { st with owed := st.owed ||| update }
  if st.syncPresent then { st with posted := st.posted ||| update }
  else if !st.timerActive || nfpNetReconfigCheckDone st false then nfpNetReconfigStartAsync hz st update
  else { st with posted := st.posted ||| update }

def nfpNetReconfigSyncEnter (st : St) (job : Option Word) : St :=
  let todo := (if st.posted ≠ 0 then [st.posted] else []) ++ job.toList
  { st with
    syncPresent := true
    timerActive := false
    posted := 0
    pc := if st.timerActive then .deleting todo job.isSome else .starting todo job.isSome }

def nfpNetReconfigTimer (hz : Nat) (st : St) : St :=
  let st := { st with timerActive := false, firing := false }
  if st.syncPresent then st
  else if st.posted ≠ 0 then nfpNetReconfigStartAsync hz st 0
  else st

def nfpNetReconfigLeave (hz : Nat) (st : St) (kick : Bool) : St :=
  let st := if kick && st.posted ≠ 0 then nfpNetReconfigStartAsync hz st 0 else st
  { st with syncPresent := false, pc := .idle }

def step (hz : Nat) (st : St) : Action → Option St
  | .post update => some (nfpNetReconfigPost hz st update)
  | .enter job => if st.pc = .idle then some (nfpNetReconfigSyncEnter st job) else none
  | .delete =>
    match st.pc with
    | .deleting todo kick =>
      if st.firing then none
      else some { st with pending := none, pc := .waiting 0 false st.expires todo kick }
    | _ => none
  | .start =>
    match st.pc with
    | .starting (update :: todo) kick => some { nfpNetReconfigStart st update with pc := .written todo kick }
    | _ => none
  | .await =>
    match st.pc with
    | .written todo kick =>
      some { st with
        deadline := some (st.now + hz * nfpNetPollTimeout)
        pc := .waiting 0 false (st.now + hz * nfpNetPollTimeout) todo kick }
    | _ => none
  | .poll =>
    match st.pc with
    | .waiting i timedOut deadline todo kick =>
      if nfpNetReconfigCheckDone st timedOut then some { st with pc := .starting todo kick }
      else if i < 50 then some { st with pc := .waiting (i + 1) false deadline todo kick }
      else some { st with pc := .sleeping deadline todo kick }
    | _ => none
  | .wake =>
    match st.pc with
    | .sleeping deadline todo kick => some { st with pc := .waiting 50 (deadline ≤ st.now) deadline todo kick }
    | _ => none
  | .leave =>
    match st.pc with
    | .starting [] kick => some (nfpNetReconfigLeave hz st kick)
    | _ => none
  | .expire =>
    match st.pending with
    | some expires =>
      if expires ≤ st.now ∧ st.firing = false then some { st with pending := none, firing := true } else none
    | none => none
  | .handler => if st.firing then some (nfpNetReconfigTimer hz st) else none
  | .ack => some { st with reg := 0 }
  | .err => some { st with reg := st.reg ||| nfpNetCfgUpdateErr }
  | .tick jiffies => some { st with now := st.now + jiffies }

def start : St := ⟨0, 0, false, false, none, 0, false, 0, .idle, none, 0, false⟩

structure Sound (st : St) : Prop where
  rewritten : st.premature = false
  parked : st.syncPresent = false → st.timerActive = false → st.posted = 0 ∧ st.owed = 0

def Unraced (st : St) : Action → Prop
  | .post _ => ¬(st.syncPresent = false ∧ st.timerActive = true ∧ nfpNetReconfigCheckDone st false = true ∧
      st.firing = true)
  | .leave => st.pc = .starting [] false → st.posted = 0
  | _ => True

instance (st : St) (a : Action) : Decidable (Unraced st a) :=
  match a with
  | .post _ => inferInstanceAs (Decidable (¬_))
  | .leave => inferInstanceAs (Decidable (_ → _))
  | .enter _ | .delete | .start | .await | .poll | .wake | .expire | .handler | .ack | .err | .tick _ =>
    inferInstanceAs (Decidable True)

structure Armed (st : St) : Prop where
  deadline : st.deadline = some st.expires
  timer : st.pending = some st.expires ∧ st.firing = false ∨ st.pending = none ∧ st.firing = true ∧ st.expires ≤ st.now

structure Quiet (st : St) : Prop where
  pending : st.pending = none
  firing : st.firing = false
  active : st.timerActive = false

inductive Phase (st : St) : Prop where
  | armed (pc : st.pc = .idle) (sync : st.syncPresent = false) (active : st.timerActive = true) (armed : Armed st)
  | parked (pc : st.pc = .idle) (sync : st.syncPresent = false) (quiet : Quiet st) (settled : st.settled = true)
    (posted : st.posted = 0)
  | deleting {todo : List Word} {kick : Bool} (pc : st.pc = .deleting todo kick) (sync : st.syncPresent = true)
    (active : st.timerActive = false) (due : st.deadline = some st.expires)
  | starting {todo : List Word} {kick : Bool} (pc : st.pc = .starting todo kick) (sync : st.syncPresent = true)
    (quiet : Quiet st) (settled : st.settled = true)
  | written {todo : List Word} {kick : Bool} (pc : st.pc = .written todo kick) (sync : st.syncPresent = true)
    (quiet : Quiet st)
  | waiting {i : Nat} {timedOut : Bool} {deadline : Nat} {todo : List Word} {kick : Bool}
    (pc : st.pc = .waiting i timedOut deadline todo kick) (sync : st.syncPresent = true) (quiet : Quiet st)
    (due : st.deadline = some deadline) (late : timedOut = true → deadline ≤ st.now)
  | sleeping {deadline : Nat} {todo : List Word} {kick : Bool} (pc : st.pc = .sleeping deadline todo kick)
    (sync : st.syncPresent = true) (quiet : Quiet st) (due : st.deadline = some deadline)

def Owes (st : St) : Prop :=
  ∀ i, st.owed.getLsbD i = true → st.posted.getLsbD i = true ∨ ∃ word ∈ st.pc.todo, word.getLsbD i = true

structure Inv (st : St) : Prop where
  rewritten : st.premature = false
  phase : Phase st
  owes : Owes st

variable {st : St} {i deadline : Nat} {update : Word} {kick : Bool} {todo : List Word}

theorem checkDone_mono {b : Bool} (h : nfpNetReconfigCheckDone st false = true) :
    nfpNetReconfigCheckDone st b = true := by
  cases b with
  | false => exact h
  | true =>
    rw [nfpNetReconfigCheckDone]
    split
    · rfl
    · split <;> rfl

theorem settled_of_expired (h : st.expired = true) : st.settled = true := by
  rw [St.settled, h, nfpNetReconfigCheckDone]
  split
  · rfl
  · split <;> rfl

theorem expired_of_le {d : Nat} (hd : st.deadline = some d) (h : d ≤ st.now) : st.expired = true := by
  rw [St.expired, hd]
  exact decide_eq_true h

section Steps

variable {hz : Nat} {st st' : St}

theorem Inv.owes_idle (hi : Inv st) (hpc : st.pc = .idle) (h : st.owed.getLsbD i = true) :
    st.posted.getLsbD i = true := by
  rcases hi.owes i h with h | ⟨word, hmem, -⟩
  · exact h
  · rw [hpc] at hmem
    cases hmem

theorem Inv.sound (hi : Inv st) : Sound st := by
  refine ⟨hi.rewritten, fun hsync hactive => ?_⟩
  cases hi.phase with
  | armed pc sync active armed => cases hactive.symm.trans active
  | parked pc sync quiet settled posted =>
    refine ⟨posted, eq_of_getLsbD_eq fun i _ => ?_⟩
    cases hb : st.owed.getLsbD i with
    | false => exact getLsbD_zero.symm
    | true =>
      have h := hi.owes_idle pc hb
      rw [posted] at h
      simp at h
  | deleting _ sync | starting _ sync | written _ sync | waiting _ sync | sleeping _ sync => cases hsync.symm.trans sync

theorem inv_async (hz : Nat) (st : St) (hprem : st.premature = false) (hsettled : st.settled = true)
    (hfiring : st.firing = false)
    (howes : ∀ i, st.owed.getLsbD i = true → update.getLsbD i = true ∨ st.posted.getLsbD i = true) :
    Inv { nfpNetReconfigStartAsync hz st update with syncPresent := false, pc := .idle } := by
  have hset : St.settled { st with posted := 0 } = true := hsettled
  refine ⟨?_, .armed rfl rfl rfl ⟨rfl, .inl ⟨rfl, hfiring⟩⟩, fun i hi => ?_⟩
  · exact or_eq_false_iff.mpr ⟨hprem, by rw [hset]; rfl⟩
  · simp only [nfpNetReconfigStartAsync, nfpNetReconfigStart, getLsbD_and, getLsbD_not, getLsbD_or,
      and_eq_true, not_eq_true', or_eq_false_iff] at hi
    rcases howes i hi.1 with h | h
    · cases h.symm.trans hi.2.2.1
    · cases h.symm.trans hi.2.2.2

theorem async_idle (hz : Nat) (st : St) (update : Word) (hpc : st.pc = .idle) (hsync : st.syncPresent = false) :
    nfpNetReconfigStartAsync hz st update =
      { nfpNetReconfigStartAsync hz st update with syncPresent := false, pc := .idle } := by
  have h1 : (nfpNetReconfigStartAsync hz st update).pc = .idle := hpc
  have h2 : (nfpNetReconfigStartAsync hz st update).syncPresent = false := hsync
  rw [← h1, ← h2]

theorem Inv.merge (hi : Inv st) (update : Word) (hkeep : st.syncPresent = false → st.timerActive = true) :
    Inv { st with owed := st.owed ||| update, posted := st.posted ||| update } := by
  refine ⟨hi.rewritten, ?_, fun i hb => ?_⟩
  · cases hi.phase with
    | armed pc sync active armed => exact .armed pc sync active { armed with }
    | parked pc sync quiet settled posted => cases quiet.active.symm.trans (hkeep sync)
    | deleting pc sync active due => exact .deleting pc sync active due
    | starting pc sync quiet settled =>
      exact .starting pc sync { quiet with } settled
    | written pc sync quiet => exact .written pc sync { quiet with }
    | waiting pc sync quiet due late =>
      exact .waiting pc sync { quiet with } due late
    | sleeping pc sync quiet due =>
      exact .sleeping pc sync { quiet with } due
  · simp only [getLsbD_or, or_eq_true] at hb ⊢
    rcases hb with hb | hb
    · rcases hi.owes i hb with h | h
      · exact .inl (.inl h)
      · exact .inr h
    · exact .inl (.inr hb)

theorem Inv.postNow (hi : Inv st) (update : Word) (hpc : st.pc = .idle) (hsync : st.syncPresent = false)
    (hsettled : st.settled = true) (hfiring : st.firing = false) :
    Inv (nfpNetReconfigStartAsync hz { st with owed := st.owed ||| update } update) := by
  rw [async_idle hz { st with owed := st.owed ||| update } update hpc hsync]
  refine inv_async hz { st with owed := st.owed ||| update } hi.rewritten hsettled hfiring fun i hb => ?_
  rw [getLsbD_or, or_eq_true] at hb
  rcases hb with hb | hb
  · exact .inr (hi.owes_idle hpc hb)
  · exact .inl hb

theorem Inv.post (hi : Inv st) (hc : Unraced st (.post update)) : Inv (nfpNetReconfigPost hz st update) := by
  have hdone : nfpNetReconfigCheckDone { st with owed := st.owed ||| update } false =
      nfpNetReconfigCheckDone st false := rfl
  have hpresent (sync : st.syncPresent = true) : Inv (nfpNetReconfigPost hz st update) := by
    rw [nfpNetReconfigPost, if_pos sync]
    exact hi.merge update fun h => absurd (h.symm.trans sync) Bool.false_ne_true
  cases hi.phase with
  | armed pc sync active armed =>
    rw [nfpNetReconfigPost, if_neg (by rw [sync]; exact Bool.false_ne_true), hdone]
    cases hd : nfpNetReconfigCheckDone st false with
    | true =>
      rw [if_pos (Bool.or_true _)]
      refine hi.postNow update pc sync (checkDone_mono hd) ?_
      cases hf : st.firing with
      | false => rfl
      | true => exact absurd ⟨sync, active, hd, hf⟩ hc
    | false =>
      rw [if_neg (by rw [active]; exact Bool.false_ne_true)]
      exact hi.merge update fun _ => active
  | parked pc sync quiet settled posted =>
    rw [nfpNetReconfigPost, if_neg (by rw [sync]; exact Bool.false_ne_true), if_pos (by rw [quiet.active]; rfl)]
    exact hi.postNow update pc sync settled quiet.firing
  | deleting _ sync | starting _ sync | written _ sync | waiting _ sync | sleeping _ sync => exact hpresent sync

def PhaseAt (st : St) : Pc → Prop
  | .idle => st.timerActive = true ∧ Armed st ∨ Quiet st ∧ st.settled = true
  | .deleting _ _ => st.syncPresent = true ∧ st.timerActive = false ∧ st.deadline = some st.expires
  | .starting _ _ => st.syncPresent = true ∧ Quiet st ∧ st.settled = true
  | .written _ _ => st.syncPresent = true ∧ Quiet st
  | .waiting _ timedOut deadline _ _ =>
    st.syncPresent = true ∧ Quiet st ∧ st.deadline = some deadline ∧ (timedOut = true → deadline ≤ st.now)
  | .sleeping deadline _ _ => st.syncPresent = true ∧ Quiet st ∧ st.deadline = some deadline

theorem Phase.inversion (h : Phase st) {pc : Pc} (hpc : st.pc = pc) : PhaseAt st pc := by
  subst hpc
  cases h with
  | armed pc sync active armed => exact pc ▸ .inl ⟨active, armed⟩
  | parked pc sync quiet settled posted => exact pc ▸ .inr ⟨quiet, settled⟩
  | deleting pc sync active due => exact pc ▸ ⟨sync, active, due⟩
  | starting pc sync quiet settled => exact pc ▸ ⟨sync, quiet, settled⟩
  | written pc sync quiet => exact pc ▸ ⟨sync, quiet⟩
  | waiting pc sync quiet due late => exact pc ▸ ⟨sync, quiet, due, late⟩
  | sleeping pc sync quiet due => exact pc ▸ ⟨sync, quiet, due⟩

section

variable (hi : Inv st)

include hi

theorem Inv.enter (hpc : st.pc = .idle) (job : Option Word) : Inv (nfpNetReconfigSyncEnter st job) := by
  have howes : Owes (nfpNetReconfigSyncEnter st job) := by
    intro i hb
    have hposted := hi.owes_idle hpc hb
    have hne : st.posted ≠ 0 := by
      intro h
      rw [h] at hposted
      simp at hposted
    refine .inr ⟨st.posted, ?_, hposted⟩
    simp only [nfpNetReconfigSyncEnter, if_pos hne]
    split
    · exact List.mem_cons_self
    · exact List.mem_cons_self
  rcases hi.phase.inversion hpc with ⟨active, armed⟩ | ⟨quiet, settled⟩
  · exact ⟨hi.rewritten, .deleting (if_pos active) rfl rfl armed.deadline, howes⟩
  · refine ⟨hi.rewritten, .starting (if_neg ?_) rfl ⟨quiet.pending, quiet.firing, rfl⟩ settled, howes⟩
    rw [quiet.active]
    exact Bool.false_ne_true

theorem Inv.leave (hpc : st.pc = .starting [] kick) (hc : Unraced st .leave) :
    Inv (nfpNetReconfigLeave hz st kick) := by
  have howes : ∀ i, st.owed.getLsbD i = true → (0 : Word).getLsbD i = true ∨ st.posted.getLsbD i = true := by
    intro i hb
    rcases hi.owes i hb with h | ⟨word, hmem, -⟩
    · exact .inr h
    · rw [hpc] at hmem
      cases hmem
  obtain ⟨sync, quiet, settled⟩ := hi.phase.inversion hpc
  have hdone (hposted : st.posted = 0) : Inv { st with syncPresent := false, pc := .idle } := by
    refine ⟨hi.rewritten, .parked rfl rfl { quiet with } settled hposted, fun i hb => ?_⟩
    exact .inl ((howes i hb).resolve_left (by simp))
  rw [nfpNetReconfigLeave]
  split
  · exact inv_async hz st hi.rewritten settled quiet.firing howes
  next h =>
  refine hdone ?_
  cases kick with
  | false => exact hc hpc
  | true => simpa using h

theorem Inv.handler (hfiring : st.firing = true) : Inv (nfpNetReconfigTimer hz st) := by
  cases hi.phase with
  | armed pc sync active armed =>
    rcases armed.timer with ⟨-, h⟩ | ⟨hpending, -, hexp⟩
    · cases h.symm.trans hfiring
    have hsettled : st.settled = true := settled_of_expired (expired_of_le armed.deadline hexp)
    rw [nfpNetReconfigTimer, if_neg (by rw [sync]; exact Bool.false_ne_true)]
    split
    · rw [async_idle hz { st with timerActive := false, firing := false } 0 pc sync]
      exact inv_async hz { st with timerActive := false, firing := false } hi.rewritten hsettled rfl
        fun i hb => .inr (hi.owes_idle pc hb)
    · next h =>
      exact ⟨hi.rewritten, .parked pc sync ⟨hpending, rfl, rfl⟩ hsettled (Decidable.not_not.mp h), hi.owes⟩
  | deleting pc sync active due =>
    rw [nfpNetReconfigTimer, if_pos sync]
    exact ⟨hi.rewritten, .deleting pc sync rfl due, hi.owes⟩
  | parked _ _ quiet | starting _ _ quiet | written _ _ quiet | waiting _ _ quiet | sleeping _ _ quiet =>
    cases hfiring.symm.trans quiet.firing

theorem Inv.environment {reg : Word} {now : Nat} (hnow : st.now ≤ now)
    (hreg : nfpNetReconfigCheckDone st false = true → nfpNetReconfigCheckDone { st with reg := reg } false = true) :
    Inv { st with reg := reg, now := now } := by
  have hsettled (h : st.settled = true) : St.settled { st with reg := reg, now := now } = true := by
    cases hd : nfpNetReconfigCheckDone st false with
    | true => exact checkDone_mono (hreg hd)
    | false =>
      have hexp : st.expired = true := by
        cases he : st.expired with
        | true => rfl
        | false =>
          rw [St.settled, he, hd] at h
          cases h
      refine settled_of_expired ?_
      rw [St.expired] at hexp ⊢
      cases hdl : st.deadline with
      | none =>
        rw [hdl] at hexp
        cases hexp
      | some d =>
        rw [hdl] at hexp
        exact decide_eq_true (le_trans (of_decide_eq_true hexp) hnow)
  refine ⟨hi.rewritten, ?_, hi.owes⟩
  cases hi.phase with
  | armed pc sync active armed =>
    refine .armed pc sync active ⟨armed.deadline, ?_⟩
    rcases armed.timer with h | ⟨h1, h2, h3⟩
    · exact .inl h
    · exact .inr ⟨h1, h2, le_trans h3 hnow⟩
  | parked pc sync quiet settled posted =>
    exact .parked pc sync { quiet with } (hsettled settled) posted
  | deleting pc sync active due => exact .deleting pc sync active due
  | starting pc sync quiet settled =>
    exact .starting pc sync { quiet with } (hsettled settled)
  | written pc sync quiet => exact .written pc sync { quiet with }
  | waiting pc sync quiet due late =>
    exact .waiting pc sync { quiet with } due fun h => le_trans (late h) hnow
  | sleeping pc sync quiet due => exact .sleeping pc sync { quiet with } due

theorem Inv.expire {expires : Nat} (hpending : st.pending = some expires) (hle : expires ≤ st.now) :
    Inv { st with pending := none, firing := true } := by
  refine ⟨hi.rewritten, ?_, hi.owes⟩
  cases hi.phase with
  | armed pc sync active armed =>
    refine .armed pc sync active ⟨armed.deadline, .inr ⟨rfl, rfl, ?_⟩⟩
    rcases armed.timer with ⟨h, -⟩ | ⟨h, -⟩
    · exact some.inj (h.symm.trans hpending) ▸ hle
    · cases h.symm.trans hpending
  | deleting pc sync active due => exact .deleting pc sync active due
  | parked _ _ quiet | starting _ _ quiet | written _ _ quiet | waiting _ _ quiet | sleeping _ _ quiet =>
    cases quiet.pending.symm.trans hpending

theorem Inv.start (hpc : st.pc = .starting (update :: todo) kick) :
    Inv { nfpNetReconfigStart st update with pc := .written todo kick } := by
  obtain ⟨sync, quiet, settled⟩ := hi.phase.inversion hpc
  refine ⟨?_, .written rfl sync { quiet with }, fun i hb => ?_⟩
  · exact or_eq_false_iff.mpr ⟨hi.rewritten, by rw [settled]; rfl⟩
  · simp only [nfpNetReconfigStart, getLsbD_and, getLsbD_not, and_eq_true, not_eq_true'] at hb
    rcases hi.owes i hb.1 with h | ⟨word, hmem, h⟩
    · exact .inl h
    rw [hpc] at hmem
    rcases List.mem_cons.mp hmem with rfl | hmem
    · cases h.symm.trans hb.2.2
    · exact .inr ⟨word, hmem, h⟩

theorem Inv.delete (hpc : st.pc = .deleting todo kick) (hfiring : st.firing = false) :
    Inv { st with pending := none, pc := .waiting 0 false st.expires todo kick } := by
  have howes := hi.owes
  rw [Owes, hpc] at howes
  obtain ⟨sync, active, due⟩ := hi.phase.inversion hpc
  exact ⟨hi.rewritten, .waiting rfl sync ⟨rfl, hfiring, active⟩ due Bool.noConfusion, howes⟩

theorem Inv.await (hpc : st.pc = .written todo kick) (deadline : Nat) :
    Inv { st with deadline := some deadline, pc := .waiting 0 false deadline todo kick } := by
  have howes := hi.owes
  rw [Owes, hpc] at howes
  obtain ⟨sync, quiet⟩ := hi.phase.inversion hpc
  exact ⟨hi.rewritten, .waiting rfl sync { quiet with } rfl
    Bool.noConfusion, howes⟩

theorem Inv.wake (hpc : st.pc = .sleeping deadline todo kick) :
    Inv { st with pc := .waiting 50 (deadline ≤ st.now) deadline todo kick } := by
  have howes := hi.owes
  rw [Owes, hpc] at howes
  obtain ⟨sync, quiet, due⟩ := hi.phase.inversion hpc
  exact ⟨hi.rewritten, .waiting rfl sync { quiet with } due of_decide_eq_true, howes⟩

theorem Inv.poll {timedOut : Bool} (hpc : st.pc = .waiting i timedOut deadline todo kick) :
    (nfpNetReconfigCheckDone st timedOut = true → Inv { st with pc := .starting todo kick }) ∧
      Inv { st with pc := .waiting (i + 1) false deadline todo kick } ∧
        Inv { st with pc := .sleeping deadline todo kick } := by
  have howes := hi.owes
  rw [Owes, hpc] at howes
  obtain ⟨sync, quiet, due, late⟩ := hi.phase.inversion hpc
  refine ⟨fun hd => ⟨hi.rewritten, .starting rfl sync { quiet with } ?_, howes⟩, ?_, ?_⟩
  · cases timedOut with
    | true => exact settled_of_expired (expired_of_le due (late rfl))
    | false => exact checkDone_mono hd
  · exact ⟨hi.rewritten, .waiting rfl sync { quiet with } due
      Bool.noConfusion, howes⟩
  · exact ⟨hi.rewritten, .sleeping rfl sync { quiet with } due, howes⟩

end

theorem or_err_and_err (reg : Word) : (reg ||| nfpNetCfgUpdateErr) &&& nfpNetCfgUpdateErr ≠ 0 := by
  intro h
  have hbit : nfpNetCfgUpdateErr.getLsbD 31 = true := by decide
  have hb := congrArg (getLsbD · 31) h
  simp only [getLsbD_and, getLsbD_or, hbit, Bool.or_true, Bool.and_self] at hb
  cases hb

theorem inv_step {a : Action} (hi : Inv st) (hc : Unraced st a) (h : step hz st a = some st') : Inv st' := by
  cases a with
  | post update => exact some.inj h ▸ hi.post hc
  | enter job =>
    obtain ⟨hpc, hs⟩ := ite_none_right_eq_some.mp h
    exact some.inj hs ▸ hi.enter hpc job
  | delete =>
    simp only [step] at h
    split at h
    · next todo kick hpc =>
      obtain ⟨hf, hs⟩ := ite_none_left_eq_some.mp h
      exact some.inj hs ▸ hi.delete hpc (eq_false_iff.mpr hf)
    · cases h
  | start =>
    simp only [step] at h
    split at h
    · next update todo kick hpc => exact some.inj h ▸ hi.start hpc
    · cases h
  | await =>
    simp only [step] at h
    split at h
    · next todo kick hpc => exact some.inj h ▸ hi.await hpc _
    · cases h
  | poll =>
    simp only [step] at h
    split at h
    · next i timedOut deadline todo kick hpc =>
      obtain ⟨hdone, hmore, hsleep⟩ := hi.poll hpc
      split at h
      · next hd => exact some.inj h ▸ hdone hd
      · split at h
        · exact some.inj h ▸ hmore
        · exact some.inj h ▸ hsleep
    · cases h
  | wake =>
    simp only [step] at h
    split at h
    · next deadline todo kick hpc => exact some.inj h ▸ hi.wake hpc
    · cases h
  | leave =>
    simp only [step] at h
    split at h
    · next kick hpc => exact some.inj h ▸ hi.leave hpc hc
    · cases h
  | expire =>
    simp only [step] at h
    split at h
    · next expires hpending =>
      obtain ⟨he, hs⟩ := ite_none_right_eq_some.mp h
      exact some.inj hs ▸ hi.expire hpending he.1
    · cases h
  | handler =>
    obtain ⟨hf, hs⟩ := ite_none_right_eq_some.mp h
    exact some.inj hs ▸ hi.handler hf
  | ack => exact some.inj h ▸ hi.environment le_rfl fun _ => rfl
  | err =>
    refine some.inj h ▸ hi.environment le_rfl fun _ => ?_
    rw [nfpNetReconfigCheckDone]
    split
    · rfl
    · exact if_pos (or_err_and_err st.reg)
  | tick jiffies => exact some.inj h ▸ hi.environment (Nat.le_add_right _ jiffies) id

theorem inv_start : Inv Reconfig.start :=
  ⟨rfl, .parked rfl rfl ⟨rfl, rfl, rfl⟩ rfl rfl, fun i hb => by simp [Reconfig.start] at hb⟩

end Steps

def Live (st : St) : Action → Prop
  | .post update => update ||| st.posted ≠ 0 ∧ (update ||| st.posted) &&& nfpNetCfgUpdateErr = 0
  | _ => True

section Necessity

variable {hz : Nat} {st : St}

theorem post_now (update : Word) (hsync : st.syncPresent = false)
    (h : st.timerActive = false ∨ nfpNetReconfigCheckDone st false = true) :
    nfpNetReconfigPost hz st update = nfpNetReconfigStartAsync hz { st with owed := st.owed ||| update } update := by
  rw [nfpNetReconfigPost, if_neg (eq_false_iff.mp hsync), if_pos]
  rcases h with h | h
  · exact or_eq_true_iff.mpr (.inl (by rw [h]; rfl))
  · exact or_eq_true_iff.mpr (.inr h)

theorem post_premature (update : Word) (hsync : st.syncPresent = false) (hactive : st.timerActive = false)
    (hsettled : st.settled = false) : (nfpNetReconfigPost hz st update).premature = true := by
  rw [post_now update hsync (.inl hactive)]
  exact or_eq_true_iff.mpr (.inr (congrArg (!·) hsettled))

theorem handler_idle (hsync : st.syncPresent = false) (hposted : st.posted = 0) (hfiring : st.firing = true) :
    step hz st .handler = some { st with timerActive := false, firing := false } := by
  rw [step, if_pos hfiring, nfpNetReconfigTimer, if_neg (eq_false_iff.mp hsync), if_neg (Decidable.not_not.mpr hposted)]

theorem rearmed_premature (hhz : 0 < hz) (hlive : Live st (.post update)) (hsync : st.syncPresent = false)
    (hdone : nfpNetReconfigCheckDone st false = true) (hfiring : st.firing = true) :
    ∃ s, step hz (nfpNetReconfigPost hz st update) .handler = some s ∧ Unraced s (.post 1) ∧
      (nfpNetReconfigPost hz s 1).premature = true := by
  rw [post_now update hsync (.inr hdone)]
  obtain ⟨s, hs⟩ : ∃ s, s = nfpNetReconfigStartAsync hz { st with owed := st.owed ||| update } update := ⟨_, rfl⟩
  rw [← hs]
  have hsy : s.syncPresent = false := by rw [hs]; exact hsync
  refine ⟨_, handler_idle hsy (by rw [hs]; rfl) (by rw [hs]; exact hfiring), fun h => Bool.false_ne_true h.2.1, ?_⟩
  have hexp : St.expired { s with timerActive := false, firing := false } = false := by
    rw [hs]
    refine decide_eq_false (not_le.mpr (Nat.lt_add_of_pos_right ?_))
    exact Nat.mul_pos (by decide) hhz
  refine post_premature 1 hsy rfl ?_
  rw [St.settled, hexp, nfpNetReconfigCheckDone, if_neg (by rw [hs]; exact hlive.1),
    if_neg (Decidable.not_not.mpr (by rw [hs]; exact hlive.2))]

end Necessity

theorem reconfig_sound_iff (hz : Nat) (hhz : 0 < hz) :
    (∀ as, Guarded (step hz) Unraced start as → Always (step hz) Sound start as) ∧
      ∀ as st a st', Guarded (step hz) Unraced start as → run (step hz) start as = some st → Live st a →
        step hz st a = some st' →
        ((∀ bs, Guarded (step hz) Unraced st' bs → Always (step hz) Sound st' bs) ↔ Unraced st a) := by
  have hall {s : St} (hs : Inv s) (bs : List Action) (hg : Guarded (step hz) Unraced s bs) :
      Always (step hz) Inv s bs := always_of_guarded (fun _ _ _ hi hc h => inv_step hi hc h) (fun _ hi => hi) hs hg
  have hsound {s : St} (hs : Inv s) (bs : List Action) (hg : Guarded (step hz) Unraced s bs) :
      Always (step hz) Sound s bs := (hall hs bs hg).imp fun _ hi => hi.sound
  refine ⟨hsound inv_start, fun as st a st' hg hr hlive hstep => ?_⟩
  have hi : Inv st := (hall inv_start as hg).last hr
  constructor
  · intro hafter
    cases a with
    | post update =>
      rintro ⟨hsync, hactive, hdone, hfiring⟩
      cases hstep
      obtain ⟨s, hs, hc, hprem⟩ := rearmed_premature hhz hlive hsync hdone hfiring
      have hg' : Guarded (step hz) Unraced (nfpNetReconfigPost hz st update) [.handler, .post 1] := by
        refine ⟨trivial, fun t ht => ?_⟩
        obtain rfl := some.inj (hs.symm.trans ht)
        exact ⟨hc, fun _ _ => trivial⟩
      have hlast := ((hafter _ hg').2 s hs).2 _ rfl
      cases hlast.rewritten.symm.trans hprem
    | leave =>
      intro hpc
      obtain ⟨-, quiet, -⟩ := hi.phase.inversion hpc
      simp only [step, hpc] at hstep
      cases hstep
      exact ((hafter [] trivial).parked rfl quiet.active).1
    | enter _ | delete | start | await | poll | wake | expire | handler | ack | err | tick _ => trivial
  · exact fun hc => hsound (inv_step hi hc hstep)

theorem postThenSync_sound :
    Always (step 250) Sound start
      [.post 2, .enter (some 4), .delete, .ack, .poll, .start, .post 8, .await, .ack, .poll, .leave] := by
  refine (reconfig_sound_iff 250 (by decide)).1 _ (guarded_cons rfl (by decide) ?_)
  refine guarded_cons rfl trivial (guarded_cons rfl trivial (guarded_cons rfl trivial (guarded_cons rfl trivial ?_)))
  refine guarded_cons rfl trivial (guarded_cons rfl (by decide) (guarded_cons rfl trivial ?_))
  exact guarded_cons rfl trivial (guarded_cons rfl trivial (guarded_cons rfl (by decide) trivial))

theorem postedDuringWait_parked_and_rearmed_overwritten :
    (∃ as st, run (step 250) start as = some st ∧ st.syncPresent = false ∧ st.timerActive = false ∧ st.posted ≠ 0) ∧
      ∃ as st, run (step 250) start as = some st ∧ st.premature = true :=
  ⟨⟨[.enter none, .post 1, .leave], _, rfl, by decide⟩,
    ⟨[.post 2, .tick 1250, .expire, .ack, .post 4, .handler, .post 8], _, rfl, by decide⟩⟩

end NfpDriver.Reconfig
