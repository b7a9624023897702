import Mathlib.Data.List.Infix
import NfpDriver.Library.Runs
import NfpDriver.Nfdk.Ring

namespace NfpDriver.Ctrl

open Runs Nfdk List Option

structure Ops (ρ σ : Type) where
  ctrlTxOne : ρ → σ → Option Nat → ρ × Outcome
  txComplete : ρ → ρ
  advance : ρ → Nat → Option ρ

structure RVec (ρ σ : Type) where
  txRing : ρ
  queue : List σ

structure St (ρ σ : Type) where
  vec : RVec ρ σ
  submitted : List σ

inductive Action (σ : Type) where
  | submit (skb : σ) (dma : Option Nat)
  | advance (n : Nat)
  | poll (dma : σ → Option Nat)

section Machine

variable {ρ σ : Type} (ops : Ops ρ σ) (ok : σ → Bool) (mapped : σ → Nat → Bool)

def ctrlTxOne (v : RVec ρ σ) (skb : σ) (dma : Option Nat) (old : Bool) : RVec ρ σ × Bool :=
  let t := ops.ctrlTxOne v.txRing skb dma
  match t.2 with
  | .busy => (⟨t.1, if old then skb :: v.queue else v.queue ++ [skb]⟩, true)
  | .sent => (⟨t.1, v.queue⟩, false)
  | .dropped => (⟨t.1, v.queue⟩, false)

-- a message that is put back ends the loop, so every round shortens the queue
def ctrlTxQueued (dma : σ → Option Nat) (txRing : ρ) : List σ → RVec ρ σ
  | [] => ⟨txRing, []⟩
  | skb :: queue =>
    let t := ctrlTxOne ops ⟨txRing, queue⟩ skb (dma skb) true
    if t.2 then t.1 else ctrlTxQueued dma t.1.txRing queue

def ctrlPoll (v : RVec ρ σ) (dma : σ → Option Nat) : RVec ρ σ :=
  ctrlTxQueued ops dma (ops.txComplete v.txRing) v.queue

def nfpCtrlTx (v : RVec ρ σ) (skb : σ) (dma : Option Nat) : RVec ρ σ × Bool := ctrlTxOne ops v skb dma false

-- between two calls under the lock the device moves its read pointer over what it was told of
def step (st : St ρ σ) : Action σ → Option (St ρ σ)
  | .submit skb dma =>
    if ok skb ∧ dma.any (mapped skb) then some ⟨(nfpCtrlTx ops st.vec skb dma).1, st.submitted ++ [skb]⟩ else none
  | .advance n => (ops.advance st.vec.txRing n).map fun txRing => { st with vec := { st.vec with txRing } }
  | .poll dma =>
    if ∀ skb ∈ st.vec.queue, (dma skb).any (mapped skb) then some { st with vec := ctrlPoll ops st.vec dma } else none

def start (txRing : ρ) : St ρ σ := ⟨⟨txRing, []⟩, []⟩

def findsSpace (full : ρ → Bool) (st : St ρ σ) : Action σ → Bool
  | .submit _ _ => false
  | .advance _ => false
  | .poll _ => !full (ops.txComplete st.vec.txRing)

def spacePolls (full : ρ → Bool) (st : St ρ σ) : List (Action σ) → Nat
  | [] => 0
  | a :: as => (findsSpace ops full st a).toNat +
      ((step ops ok mapped st a).map fun st' => spacePolls full st' as).getD 0

end Machine

structure Ordered {ρ σ μ : Type} (full : ρ → Bool) (written : ρ → List μ) (image : σ → μ) (st : St ρ σ) : Prop where
  order : written st.vec.txRing ++ st.vec.queue.map image = st.submitted.map image
  backlog : st.vec.queue ≠ [] → full st.vec.txRing = true

def Drains {ρ σ μ : Type} (ops : Ops ρ σ) (ok : σ → Bool) (mapped : σ → Nat → Bool) (full : ρ → Bool)
    (written : ρ → List μ) (image : σ → μ) (st : St ρ σ) : Prop :=
  ∀ as t, run (step ops ok mapped) st as = some t →
    written st.vec.txRing ++ (st.vec.queue.take (spacePolls ops ok mapped full st as)).map image <+:
      written t.vec.txRing

structure Channel {ρ σ μ : Type} (ops : Ops ρ σ) (ok : σ → Bool) (mapped : σ → Nat → Bool) (full : ρ → Bool)
    (Good : ρ → Prop) (written : ρ → List μ) (image : σ → μ) : Prop where
  busy : ∀ r skb dma, ok skb = true → full r = true → ops.ctrlTxOne r skb dma = (r, .busy)
  sent : ∀ r skb head, Good r → ok skb = true → mapped skb head = true → full r = false →
    ∃ r', ops.ctrlTxOne r skb (some head) = (r', .sent) ∧ Good r' ∧ written r' = written r ++ [image skb]
  complete : ∀ r, Good r → Good (ops.txComplete r) ∧ written (ops.txComplete r) = written r
  advance : ∀ r n r', Good r → ops.advance r n = some r' → Good r' ∧ written r' = written r ∧ full r' = full r

section Order

variable {ρ σ μ : Type} {ops : Ops ρ σ} {ok : σ → Bool} {mapped : σ → Nat → Bool} {full : ρ → Bool} {Good : ρ → Prop}
  {written : ρ → List μ} {image : σ → μ}

structure Moves (full : ρ → Bool) (Good : ρ → Prop) (written : ρ → List μ) (image : σ → μ) (v v' : RVec ρ σ)
    (added taken : List σ) : Prop where
  good : Good v'.txRing
  queue : v.queue ++ added = taken ++ v'.queue
  written : written v'.txRing = written v.txRing ++ taken.map image
  backlog : v'.queue ≠ [] → full v'.txRing = true

structure Inv (ok : σ → Bool) (full : ρ → Bool) (Good : ρ → Prop) (written : ρ → List μ) (image : σ → μ)
    (st : St ρ σ) : Prop where
  good : Good st.vec.txRing
  ordered : Ordered full written image st
  queued : ∀ skb ∈ st.vec.queue, ok skb = true

section

variable (hch : Channel ops ok mapped full Good written image)

include hch

theorem ctrlTxOne_busy {v : RVec ρ σ} {skb : σ} (hok : ok skb = true)
    (hfull : full v.txRing = true) (dma : Option Nat) (old : Bool) :
    ctrlTxOne ops v skb dma old = (⟨v.txRing, if old then skb :: v.queue else v.queue ++ [skb]⟩, true) := by
  simp only [ctrlTxOne, hch.busy v.txRing skb dma hok hfull]

theorem ctrlTxOne_sent {v : RVec ρ σ} {skb : σ} (hgood : Good v.txRing) (hok : ok skb = true)
    (hfull : full v.txRing = false) {dma : Option Nat} (hdma : dma.any (mapped skb) = true) (old : Bool) :
    ∃ r', ctrlTxOne ops v skb dma old = (⟨r', v.queue⟩, false) ∧ Good r' ∧
      written r' = written v.txRing ++ [image skb] := by
  cases dma with
  | none => cases hdma
  | some head =>
    obtain ⟨r', hsent, hgood', hwritten⟩ := hch.sent v.txRing skb head hgood hok hdma hfull
    exact ⟨r', by simp only [ctrlTxOne, hsent], hgood', hwritten⟩

theorem ctrlTxQueued_moves {dma : σ → Option Nat} {queue : List σ} (hok : ∀ skb ∈ queue, ok skb = true)
    (hdma : ∀ skb ∈ queue, (dma skb).any (mapped skb) = true) {r : ρ} (hgood : Good r) :
    ∃ taken, Moves full Good written image ⟨r, queue⟩ (ctrlTxQueued ops dma r queue) [] taken ∧
      (full r = false → queue ≠ [] → taken ≠ []) := by
  induction queue generalizing r with
  | nil => exact ⟨[], ⟨hgood, rfl, (append_nil _).symm, fun h => absurd rfl h⟩, fun _ h => absurd rfl h⟩
  | cons skb queue ih =>
    have hhead := hok skb mem_cons_self
    rw [ctrlTxQueued]
    cases hfull : full r with
    | true =>
      rw [ctrlTxOne_busy hch hhead hfull]
      exact ⟨[], ⟨hgood, append_nil _, (append_nil _).symm, fun _ => hfull⟩, nofun⟩
    | false =>
      obtain ⟨r', hsent, hgood', hwritten⟩ :=
        ctrlTxOne_sent (v := ⟨r, queue⟩) hch hgood hhead hfull (hdma skb mem_cons_self) true
      obtain ⟨taken, hmoves, -⟩ := ih (fun x hx => hok x (mem_cons_of_mem _ hx))
        (fun x hx => hdma x (mem_cons_of_mem _ hx)) hgood'
      rw [hsent]
      refine ⟨skb :: taken, ⟨hmoves.good, congrArg (skb :: ·) hmoves.queue, ?_, hmoves.backlog⟩,
        fun _ _ => cons_ne_nil _ _⟩
      exact hmoves.written.trans (by rw [hwritten, append_assoc]; rfl)

theorem step_moves {st st' : St ρ σ} (hi : Inv ok full Good written image st)
    (a : Action σ) (h : step ops ok mapped st a = some st') :
    ∃ added taken, Moves full Good written image st.vec st'.vec added taken ∧
      st'.submitted = st.submitted ++ added ∧ (∀ skb ∈ added, ok skb = true) ∧
      (findsSpace ops full st a = true → st.vec.queue ≠ [] → taken ≠ []) := by
  cases a with
  | submit skb dma =>
    obtain ⟨⟨hok, hdma⟩, heq⟩ := ite_none_right_eq_some.mp h
    cases heq
    rw [nfpCtrlTx]
    have hadded : ∀ x ∈ [skb], ok x = true := fun x hx => mem_singleton.mp hx ▸ hok
    cases hfull : full st.vec.txRing with
    | true =>
      rw [ctrlTxOne_busy hch hok hfull]
      exact ⟨[skb], [], ⟨hi.good, rfl, (append_nil _).symm, fun _ => hfull⟩, rfl, hadded, nofun⟩
    | false =>
      obtain ⟨r', hsent, hgood, hwritten⟩ := ctrlTxOne_sent hch hi.good hok hfull hdma false
      rw [hsent]
      -- a ring with room has no message waiting before this one
      have hempty : st.vec.queue = [] := by
        by_contra hne
        exact Bool.false_ne_true (hfull.symm.trans (hi.ordered.backlog hne))
      refine ⟨[skb], [skb], ⟨hgood, ?_, hwritten, fun hne => absurd hempty hne⟩, rfl, hadded, nofun⟩
      rw [hempty]
      rfl
  | advance n =>
    obtain ⟨r', hadvance, rfl⟩ := map_eq_some_iff.mp h
    obtain ⟨hgood, hwritten, hfull⟩ := hch.advance _ n r' hi.good hadvance
    refine ⟨[], [], ⟨hgood, append_nil _, hwritten.trans (append_nil _).symm, fun hne => ?_⟩, (append_nil _).symm,
      nofun, nofun⟩
    exact hfull.trans (hi.ordered.backlog hne)
  | poll dma =>
    obtain ⟨hdma, heq⟩ := ite_none_right_eq_some.mp h
    cases heq
    obtain ⟨hgood, hwritten⟩ := hch.complete _ hi.good
    obtain ⟨taken, hmoves, hspace⟩ := ctrlTxQueued_moves hch hi.queued hdma hgood
    refine ⟨[], taken, ⟨hmoves.good, hmoves.queue, ?_, hmoves.backlog⟩, (append_nil _).symm, nofun, fun hs => ?_⟩
    · exact hmoves.written.trans (by rw [hwritten])
    · exact hspace (Bool.not_eq_true' _ ▸ hs)

end

theorem Moves.inv {st st' : St ρ σ} (hi : Inv ok full Good written image st) {added taken : List σ}
    (hm : Moves full Good written image st.vec st'.vec added taken) (hsub : st'.submitted = st.submitted ++ added)
    (hadded : ∀ skb ∈ added, ok skb = true) : Inv ok full Good written image st' := by
  refine ⟨hm.good, ⟨?_, hm.backlog⟩, fun skb hskb => ?_⟩
  · calc
      _ = written st.vec.txRing ++ (taken ++ st'.vec.queue).map image := by
        rw [hm.written, map_append, append_assoc]
      _ = st.submitted.map image ++ added.map image := by
        rw [← hm.queue, map_append, ← append_assoc, hi.ordered.order]
      _ = st'.submitted.map image := by rw [hsub, map_append]
  · have hmem : skb ∈ st.vec.queue ++ added := hm.queue ▸ mem_append_right taken hskb
    rcases mem_append.mp hmem with hold | hnew
    · exact hi.queued skb hold
    · exact hadded skb hnew

theorem step_inv (hch : Channel ops ok mapped full Good written image) {st st' : St ρ σ} (a : Action σ)
    (hi : Inv ok full Good written image st) (h : step ops ok mapped st a = some st') :
    Inv ok full Good written image st' := by
  obtain ⟨added, taken, hmoves, hsub, hadded, -⟩ := step_moves hch hi a h
  exact hmoves.inv hi hsub hadded

theorem start_inv (ok : σ → Bool) {txRing : ρ} (hgood : Good txRing) (hempty : written txRing = []) :
    Inv ok full Good written image (start txRing) :=
  ⟨hgood, ⟨by rw [start, hempty]; rfl, fun h => absurd rfl h⟩, nofun⟩

theorem Moves.drained {v v' : RVec ρ σ} {added taken : List σ}
    (hm : Moves full Good written image v v' added taken) {n m : Nat} (hn : v.queue ≠ [] → n ≤ taken.length + m) :
    written v.txRing ++ (v.queue.take n).map image <+: written v'.txRing ++ (v'.queue.take m).map image := by
  rw [hm.written, append_assoc, ← map_append]
  refine prefix_append_right_inj _ |>.mpr (IsPrefix.map image ?_)
  have htake : (v.queue ++ added).take (taken.length + m) = taken ++ v'.queue.take m := by
    rw [hm.queue, take_length_add_append]
  rw [← htake]
  by_cases hempty : v.queue = []
  · rw [hempty, take_nil]
    exact nil_prefix
  · exact (take_prefix_take_left (hn hempty)).trans ((prefix_append _ _).take _)

theorem polls_drain (hch : Channel ops ok mapped full Good written image) {st t : St ρ σ}
    (hi : Inv ok full Good written image st) {as : List (Action σ)} (hr : run (step ops ok mapped) st as = some t) :
    written st.vec.txRing ++ (st.vec.queue.take (spacePolls ops ok mapped full st as)).map image <+:
      written t.vec.txRing := by
  induction as generalizing st with
  | nil =>
    cases hr
    rw [spacePolls, take_zero, map_nil, append_nil]
  | cons a as ih =>
    obtain ⟨st', hs, hr⟩ := run_cons.mp hr
    obtain ⟨added, taken, hmoves, hsub, hadded, hspace⟩ := step_moves hch hi a hs
    refine (hmoves.drained fun hne => ?_).trans (ih (hmoves.inv hi hsub hadded) hr)
    rw [spacePolls, hs, map_some, getD_some]
    refine Nat.add_le_add_right ?_ _
    cases hfind : findsSpace ops full st a with
    | false => exact Nat.zero_le _
    | true => exact length_pos_of_ne_nil (hspace hfind hne)

theorem messages_in_order (hch : Channel ops ok mapped full Good written image) {txRing : ρ} (hgood : Good txRing)
    (hempty : written txRing = []) {as : List (Action σ)} {st : St ρ σ}
    (hr : run (step ops ok mapped) (start txRing) as = some st) :
    Ordered full written image st ∧ Drains ops ok mapped full written image st := by
  have hi : Inv ok full Good written image st :=
    (always_of_invariant (fun _ a _ hi h => step_inv hch a hi h) (fun _ hi => hi)
      (start_inv ok hgood hempty) as).last hr
  exact ⟨hi.ordered, fun _ _ ht => polls_drain hch hi ht⟩

end Order

end NfpDriver.Ctrl
