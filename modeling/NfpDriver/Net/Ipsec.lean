import Mathlib.Logic.Function.Basic
import NfpDriver.Library.Runs

namespace NfpDriver.Ipsec

open Function Runs

def nfpNetIpsecMaxSaCnt : Nat := 16 * 1024

variable {X C : Type}

inductive Msg (C : Type) where
  | addSa (saIdx : Nat) (sa : C)
  | invSa (saIdx : Nat)

-- `tmpList` is what a run of the worker has spliced and not sent yet; `issued` and `sent` are the history
structure State (X C : Type) where
  xaIpsec : Nat → Option X
  offloadHandle : X → Nat
  amsgList : List (Msg C)
  tmpList : List (Msg C)
  firmware : Nat → Option C
  issued : List (Msg C)
  sent : List (Msg C)

def initial : State X C := ⟨fun _ => none, fun _ => 0, [], [], fun _ => none, [], []⟩

def xaAlloc (xa : Nat → Option X) : Option Nat := (List.range' 0 nfpNetIpsecMaxSaCnt).find? fun i => (xa i).isNone

def nfpNetSchedMboxAmsgWork (s : State X C) (msg : Msg C) (kmalloc : Bool) : Bool × State X C :=
  if kmalloc then (true, { s with amsgList := s.amsgList ++ [msg], issued := s.issued ++ [msg] }) else (false, s)

-- `none` is a refusal: the slot is already valid, or already invalid
def nfpNetIpsecCfg (firmware : Nat → Option C) : Msg C → Option (Nat → Option C)
  | .addSa i sa => if (firmware i).isNone then some (update firmware i (some sa)) else none
  | .invSa i => if (firmware i).isSome then some (update firmware i none) else none

variable (sa : X → C)

-- `supported` is the outcome of the checks made before the table is touched
def nfpNetXfrmAddState [DecidableEq X] (s : State X C) (x : X) (supported memory kmalloc : Bool) : State X C :=
  if !supported || !memory then s
  else
    match xaAlloc s.xaIpsec with
    | none => s
    | some saidx =>
      let s := { s with xaIpsec := update s.xaIpsec saidx (some x) }
      match nfpNetSchedMboxAmsgWork s (.addSa saidx (sa x)) kmalloc with
      | (false, s) => { s with xaIpsec := update s.xaIpsec saidx none }
      | (true, s) => { s with offloadHandle := update s.offloadHandle x (saidx + 1) }

def nfpNetXfrmDelState (s : State X C) (x : X) (kmalloc : Bool) : State X C :=
  let s' := (nfpNetSchedMboxAmsgWork s (.invSa (s.offloadHandle x - 1)) kmalloc).2
  { s' with xaIpsec := update s'.xaIpsec (s.offloadHandle x - 1) none }

inductive Op (X : Type) where
  | add (x : X) (supported memory kmalloc : Bool)
  | del (x : X) (kmalloc : Bool)
  | splice
  | send

-- the stack deletes only a state it has added; one run of the worker ends before the next one splices
def step [DecidableEq X] (s : State X C) : Op X → Option (State X C)
  | .add x supported memory kmalloc => some (nfpNetXfrmAddState sa s x supported memory kmalloc)
  | .del x kmalloc =>
    if s.offloadHandle x ≠ 0 ∧ s.xaIpsec (s.offloadHandle x - 1) = some x then some (nfpNetXfrmDelState s x kmalloc)
    else none
  | .splice => if s.tmpList.isEmpty then some { s with tmpList := s.amsgList, amsgList := [] } else none
  | .send =>
    match s.tmpList with
    | [] => none
    | msg :: rest =>
      some { s with
        tmpList := rest, sent := s.sent ++ [msg], firmware := (nfpNetIpsecCfg s.firmware msg).getD s.firmware }

structure Follows (s : State X C) : Prop where
  order : s.sent ++ (s.tmpList ++ s.amsgList) = s.issued
  fresh : ∀ i c, s.tmpList.head? = some (.addSa i c) → s.firmware i = none
  drained : s.tmpList = [] → s.amsgList = [] → s.firmware = Option.map sa ∘ s.xaIpsec
  settles : (s.tmpList ++ s.amsgList).foldlM nfpNetIpsecCfg s.firmware = some (Option.map sa ∘ s.xaIpsec)

def Invalidates : Op X → Prop
  | .del _ kmalloc => kmalloc = true
  | _ => True

variable {sa} {s t : State X C}

theorem Follows.of_settles (horder : s.sent ++ (s.tmpList ++ s.amsgList) = s.issued)
    (h : (s.tmpList ++ s.amsgList).foldlM nfpNetIpsecCfg s.firmware = some (Option.map sa ∘ s.xaIpsec)) :
    Follows sa s := by
  refine ⟨horder, fun i c hc => ?_, fun ht hl => ?_, h⟩
  · obtain ⟨rest, hr⟩ := List.head?_eq_some_iff.mp hc
    rw [hr, List.cons_append, List.foldlM_cons] at h
    obtain ⟨fw, hf, -⟩ := Option.bind_eq_some_iff.mp h
    exact Option.isNone_iff_eq_none.mp (Option.ite_none_right_eq_some.mp hf).1
  · rw [ht, hl] at h
    exact Option.some.inj h

theorem xaAlloc_free {xa : Nat → Option X} {i : Nat} (h : xaAlloc xa = some i) : xa i = none :=
  Option.isNone_iff_eq_none.mp (List.find?_some (p := fun i => (xa i).isNone) h)

theorem Follows.queue (h : Follows sa s) {msg : Msg C} {i : Nat} {o : Option X} {handle : X → Nat}
    (hm : nfpNetIpsecCfg (Option.map sa ∘ s.xaIpsec) msg = some (update (Option.map sa ∘ s.xaIpsec) i (o.map sa))) :
    Follows sa { s with
      xaIpsec := update s.xaIpsec i o, offloadHandle := handle, amsgList := s.amsgList ++ [msg]
      issued := s.issued ++ [msg] } := by
  refine .of_settles ?_ ?_
  · simp only [← h.order, List.append_assoc]
  · simp only [← List.append_assoc, List.foldlM_append, h.settles, Function.comp_update]
    exact (bind_pure _).trans hm

theorem Follows.add [DecidableEq X] (h : Follows sa s) (x : X) (supported memory kmalloc : Bool) :
    Follows sa (nfpNetXfrmAddState sa s x supported memory kmalloc) := by
  rw [nfpNetXfrmAddState]
  split
  · exact h
  split
  · exact h
  next i hi =>
    have hfree := xaAlloc_free hi
    cases kmalloc with
    | false =>
      have hxa : update (update s.xaIpsec i (some x)) i none = s.xaIpsec := by rw [update_idem, ← hfree, update_eq_self]
      exact .of_settles h.order (h.settles.trans (congrArg (fun xa => some (Option.map sa ∘ xa)) hxa.symm))
    | true => exact h.queue (o := some x) (if_pos (by simp [hfree]))

theorem Follows.del (h : Follows sa s) {x : X} (hx : s.xaIpsec (s.offloadHandle x - 1) = some x) (kmalloc : Bool) :
    Follows sa (nfpNetXfrmDelState s x kmalloc) ↔ kmalloc = true := by
  cases kmalloc with
  | true => exact iff_of_true (h.queue (o := none) (if_pos (by simp [hx]))) rfl
  | false =>
    refine iff_of_false (fun ht => ?_) Bool.false_ne_true
    have heq := congrFun (Option.some.inj (h.settles.symm.trans ht.settles)) (s.offloadHandle x - 1)
    simp [nfpNetXfrmDelState, nfpNetSchedMboxAmsgWork, hx] at heq

theorem Follows.step [DecidableEq X] (h : Follows sa s) {op : Op X} (hs : step sa s op = some t) :
    Follows sa t ↔ Invalidates op := by
  cases op with
  | add x supported memory kmalloc =>
    cases hs
    exact iff_of_true (h.add x supported memory kmalloc) trivial
  | del x kmalloc =>
    obtain ⟨hx, hs⟩ := Option.ite_none_right_eq_some.mp hs
    cases hs
    exact h.del hx.2 kmalloc
  | splice =>
    obtain ⟨ht, hs⟩ := Option.ite_none_right_eq_some.mp hs
    cases hs
    have htmp : s.tmpList = [] := List.isEmpty_iff.mp ht
    have horder := h.order
    have hsettles := h.settles
    rw [htmp, List.nil_append] at horder hsettles
    refine iff_of_true (.of_settles ?_ ?_) trivial
    · rw [List.append_nil]
      exact horder
    · rw [List.append_nil]
      exact hsettles
  | send =>
    rw [Ipsec.step] at hs
    split at hs
    · cases hs
    next msg rest htmp =>
      cases hs
      have horder := h.order
      have hsettles := h.settles
      rw [htmp, List.cons_append] at horder hsettles
      rw [List.foldlM_cons] at hsettles
      obtain ⟨fw, hf, hrest⟩ := Option.bind_eq_some_iff.mp hsettles
      refine iff_of_true (.of_settles ?_ ?_) trivial
      · rw [List.append_assoc]
        exact horder
      · rw [hf]
        exact hrest

theorem follows_initial : Follows sa (initial : State X C) := .of_settles rfl rfl

theorem sa_slots_follow_iff [DecidableEq X] (sa : X → C) (ops : List (Op X)) (t : State X C)
    (hr : run (step sa) initial ops = some t) :
    Always (step sa) (Follows sa) initial ops ↔ Guarded (step sa) (fun _ op => Invalidates op) initial ops :=
  always_iff_guarded (fun _ h => h) (fun _ _ _ h hs => h.step hs) (fun _ _ _ _ _ ht => ht) follows_initial hr

def reuse (kmalloc : Bool) : List (Op Bool) :=
  [.add true true true true, .splice, .send, .del true kmalloc, .add false true true true, .splice]

theorem lost_invalidation_reused :
    ∃ s : State Bool Bool, run (step id) initial (reuse false) = some s ∧ s.tmpList.head? = some (.addSa 0 false) ∧
      s.firmware 0 = some true :=
  ⟨_, rfl, rfl, rfl⟩

theorem reuse_follows :
    (∃ s : State Bool Bool, run (step id) initial (reuse true) = some s) ∧
      Always (step id) (Follows (id : Bool → Bool)) initial (reuse true) := by
  have hr : ∃ s : State Bool Bool, run (step id) initial (reuse true) = some s := ⟨_, rfl⟩
  obtain ⟨s, hs⟩ := hr
  refine ⟨⟨s, hs⟩, (sa_slots_follow_iff id (reuse true) s hs).mpr ?_⟩
  exact ⟨trivial, fun _ _ => ⟨trivial, fun _ _ => ⟨trivial, fun _ _ => ⟨rfl, fun _ _ => ⟨trivial, fun _ _ =>
    ⟨trivial, fun _ _ => trivial⟩⟩⟩⟩⟩⟩

end NfpDriver.Ipsec
