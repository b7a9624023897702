import NfpDriver.Library.Runs

namespace NfpDriver.Area

open Runs Option

structure Ops where
  areaAcquire : Bool
  areaRelease : Bool
  deriving DecidableEq, Repr

inductive Callback where
  | acquired
  | released
  deriving DecidableEq, Repr

structure St where
  refcount : Nat
  kref : Int
  destroyed : Bool
  freed : Bool
  outstanding : Nat
  calls : List Callback
  deriving DecidableEq, Repr

def nfpCppAreaAlloc : St := ⟨0, 1, false, false, 0, []⟩

def nfpCppAreaPut (st : St) : St :=
  { st with kref := st.kref - 1, destroyed := st.destroyed || st.kref - 1 = 0 }

def nfpCppAreaGet (st : St) : St := { st with kref := st.kref + 1 }

def nfpCppAreaAcquire (ops : Ops) (st : St) (err : Int) : St × Int :=
  let inc := { st with refcount := st.refcount + 1 }
  if inc.refcount > 1 then (inc, 0)
  else if !ops.areaAcquire then (inc, 0)
  else if err ≠ 0 then (st, err)
  else (nfpCppAreaGet { inc with calls := inc.calls ++ [.acquired] }, 0)

def nfpCppAreaAcquireNonblocking (ops : Ops) (st : St) (err : Int) : St × Int :=
  let inc := { st with refcount := st.refcount + 1 }
  if inc.refcount = 1 ∧ ops.areaAcquire then
    if err < 0 then (st, err) else (nfpCppAreaGet { inc with calls := inc.calls ++ [.acquired] }, 0)
  else (nfpCppAreaGet inc, 0)

def nfpCppAreaRelease (ops : Ops) (st : St) : St :=
  let dec := { st with refcount := st.refcount - 1 }
  nfpCppAreaPut
    (if dec.refcount = 0 ∧ ops.areaRelease then { dec with calls := dec.calls ++ [.released] } else dec)

def nfpCppAreaFree (st : St) : St := nfpCppAreaPut st

inductive Action where
  | acquire (err : Int)
  | acquireNonblocking (err : Int)
  | release
  | free
  deriving DecidableEq, Repr

def granted (r : St × Int) : St := if r.2 = 0 then { r.1 with outstanding := r.1.outstanding + 1 } else r.1

def Alive (st : St) : Prop := st.freed = false ∨ 0 < st.outstanding

instance (st : St) : Decidable (Alive st) := inferInstanceAs (Decidable (_ ∨ _))

def apply (ops : Ops) (st : St) : Action → Option St
  | .acquire err => if Alive st then some (granted (nfpCppAreaAcquire ops st err)) else none
  | .acquireNonblocking err => if Alive st then some (granted (nfpCppAreaAcquireNonblocking ops st err)) else none
  | .release =>
    if 0 < st.outstanding then some { nfpCppAreaRelease ops st with outstanding := st.outstanding - 1 } else none
  | .free => if st.freed = false then some { nfpCppAreaFree st with freed := true } else none

inductive Alternates : List Callback → Bool → Prop where
  | nil : Alternates [] false
  | acquired (l : List Callback) (h : Alternates l false) : Alternates (l ++ [.acquired]) true
  | released (l : List Callback) (h : Alternates l true) : Alternates (l ++ [.released]) false

structure Good (ops : Ops) (st : St) : Prop where
  destroyed : st.destroyed = true ↔ ¬Alive st
  calls : ops.areaAcquire = true → ops.areaRelease = true → Alternates st.calls (decide (0 < st.outstanding))

def Counted (ops : Ops) (st : St) : Action → Prop
  | .acquire _ => st.refcount = 0 ∧ ops.areaAcquire = true
  | _ => True

def Complete (ops : Ops) (as : List Action) : Prop :=
  ∃ st, run (apply ops) nfpCppAreaAlloc as = some st ∧ ¬Alive st

def refs (st : St) : Int := st.outstanding + if st.freed then 0 else 1

theorem alive_iff (st : St) : Alive st ↔ 0 < refs st := by
  rw [Alive, refs]
  cases st.freed with
  | false => exact ⟨fun _ => by simp only [Bool.false_eq_true, if_false]; omega, fun _ => .inl rfl⟩
  | true =>
    simp only [if_true]
    exact ⟨fun h => h.elim Bool.noConfusion fun h => by omega, fun h => .inr (by omega)⟩

structure Inv (ops : Ops) (st : St) : Prop where
  count : st.refcount = st.outstanding
  kref : st.kref = refs st
  good : Good ops st

theorem inv_alloc (ops : Ops) : Inv ops nfpCppAreaAlloc where
  count := rfl
  kref := rfl
  good := ⟨by decide, fun _ _ => .nil⟩

theorem granted_fst (st : St) : granted (st, 0) = { st with outstanding := st.outstanding + 1 } := if_pos rfl

variable {err : Int} {st st' : St} {a : Action} {ops : Ops}

theorem granted_error (st : St) (h : err ≠ 0) : granted (st, err) = st := if_neg h

theorem release_fields (ops : Ops) (st : St) :
    (nfpCppAreaRelease ops st).refcount = st.refcount - 1 ∧ (nfpCppAreaRelease ops st).freed = st.freed ∧
      (nfpCppAreaRelease ops st).kref = st.kref - 1 ∧
      (nfpCppAreaRelease ops st).destroyed = (st.destroyed || decide (st.kref - 1 = 0)) ∧
      (nfpCppAreaRelease ops st).calls =
        if st.refcount - 1 = 0 ∧ ops.areaRelease = true then st.calls ++ [.released] else st.calls := by
  simp only [nfpCppAreaRelease, nfpCppAreaPut]
  split <;> exact ⟨rfl, rfl, rfl, rfl, rfl⟩

theorem refs_release (ops : Ops) (ho : 0 < st.outstanding) :
    refs { nfpCppAreaRelease ops st with outstanding := st.outstanding - 1 } = refs st - 1 := by
  simp only [refs, (release_fields ops st).2.1]
  omega

theorem refs_free (hf : st.freed = false) : refs { nfpCppAreaFree st with freed := true } = refs st - 1 := by
  simp only [refs, nfpCppAreaFree, nfpCppAreaPut, hf, if_true, Bool.false_eq_true, if_false]
  omega

section Step

variable {ops : Ops} {st : St} (hi : Inv ops st)

include hi

theorem Inv.alive_destroyed (ha : Alive st) : st.destroyed = false := by
  rw [← Bool.not_eq_true, hi.good.destroyed]
  exact not_not.mpr ha

theorem Inv.grant (ha : Alive st) {calls : List Callback}
    (hc : ops.areaAcquire = true → ops.areaRelease = true → Alternates calls true) :
    Inv ops { st with
      refcount := st.refcount + 1, kref := st.kref + 1, calls := calls, outstanding := st.outstanding + 1 } where
  count := congrArg (· + 1) hi.count
  kref := by
    have hk := hi.kref
    simp only [refs] at hk ⊢
    omega
  good := by
    constructor
    · simp [hi.alive_destroyed ha, Alive]
    · simpa using hc

theorem Inv.nested (h0 : st.outstanding ≠ 0) (h1 : ops.areaAcquire = true) (h2 : ops.areaRelease = true) :
    Alternates st.calls true := by
  have hc := hi.good.calls h1 h2
  rwa [decide_eq_true (Nat.pos_of_ne_zero h0)] at hc

theorem Inv.first (h0 : st.refcount = 0) (h1 : ops.areaAcquire = true) (h2 : ops.areaRelease = true) :
    Alternates (st.calls ++ [.acquired]) true := by
  have hc := hi.good.calls h1 h2
  rw [← hi.count, h0] at hc
  exact .acquired _ hc

theorem inv_acquire (ha : Alive st) (hc : st.refcount = 0 ∧ ops.areaAcquire = true) :
    Inv ops (granted (nfpCppAreaAcquire ops st err)) := by
  simp only [nfpCppAreaAcquire, hc.1, hc.2]
  split
  · next h => exact absurd h (by decide)
  rw [if_neg (by decide)]
  split
  · next herr =>
    rw [granted_error _ herr]
    exact hi
  · rw [granted_fst]
    have hg := hi.grant ha (hi.first hc.1)
    rw [hc.1] at hg
    exact hg

theorem inv_acquireNonblocking (ha : Alive st) : Inv ops (granted (nfpCppAreaAcquireNonblocking ops st err)) := by
  simp only [nfpCppAreaAcquireNonblocking]
  split
  · next h =>
    split
    · next herr =>
      rw [granted_error _ (by omega)]
      exact hi
    · rw [granted_fst]
      exact hi.grant ha (hi.first (by omega))
  · next h =>
    refine hi.grant ha fun h1 h2 => hi.nested (fun h0 => h ⟨?_, h1⟩) h1 h2
    rw [hi.count, h0]

theorem Inv.drop (ha : Alive st) (hcount : st'.refcount = st'.outstanding) (hrefs : refs st' = refs st - 1)
    (hk : st'.kref = st.kref - 1) (hd : st'.destroyed = (st.destroyed || decide (st.kref - 1 = 0)))
    (hc : ops.areaAcquire = true → ops.areaRelease = true → Alternates st'.calls (decide (0 < st'.outstanding))) :
    Inv ops st' where
  count := hcount
  kref := by rw [hk, hrefs, hi.kref]
  good := by
    refine ⟨?_, hc⟩
    have hpos := (alive_iff st).mp ha
    rw [hd, hi.alive_destroyed ha, Bool.false_or, decide_eq_true_eq, alive_iff, hrefs, hi.kref]
    omega

theorem inv_release (ho : 0 < st.outstanding) :
    Inv ops { nfpCppAreaRelease ops st with outstanding := st.outstanding - 1 } := by
  have hcalls : ∀ h1 : ops.areaAcquire = true, ∀ h2 : ops.areaRelease = true,
      Alternates (if st.refcount - 1 = 0 ∧ ops.areaRelease = true then st.calls ++ [.released] else st.calls)
        (decide (0 < st.outstanding - 1)) := by
    intro h1 h2
    have hheld := hi.nested (by omega) h1 h2
    have hcount := hi.count
    by_cases hlast : st.refcount - 1 = 0
    · rw [if_pos ⟨hlast, h2⟩, decide_eq_false (by omega)]
      exact .released _ hheld
    · rw [if_neg fun h => hlast h.1, decide_eq_true (by omega)]
      exact hheld
  obtain ⟨hr, hf, hk, hd, hcl⟩ := release_fields ops st
  refine hi.drop (.inr ho) ?_ (refs_release ops ho) hk hd fun h1 h2 => by rw [hcl]; exact hcalls h1 h2
  simp only [hr, hi.count]

theorem inv_free (hf : st.freed = false) : Inv ops { nfpCppAreaFree st with freed := true } :=
  hi.drop (.inl hf) hi.count (refs_free hf) rfl rfl hi.good.calls

theorem inv_step (hc : Counted ops st a) (h : apply ops st a = some st') : Inv ops st' := by
  cases a with
  | acquire err =>
    obtain ⟨ha, hs⟩ := ite_none_right_eq_some.mp h
    cases hs
    exact inv_acquire hi ha hc
  | acquireNonblocking err =>
    obtain ⟨ha, hs⟩ := ite_none_right_eq_some.mp h
    cases hs
    exact inv_acquireNonblocking hi ha
  | release =>
    obtain ⟨ho, hs⟩ := ite_none_right_eq_some.mp h
    cases hs
    exact inv_release hi ho
  | free =>
    obtain ⟨hf, hs⟩ := ite_none_right_eq_some.mp h
    cases hs
    exact inv_free hi hf

end Step

structure Leaked (st : St) : Prop where
  behind : st.kref < refs st
  live : st.destroyed = false → 1 ≤ st.kref
  two : 2 ≤ refs st

structure Delta (st st' : St) : Prop where
  behind : st'.kref - refs st' ≤ st.kref - refs st
  live : (st.destroyed = false → 1 ≤ st.kref) → st'.destroyed = false → 1 ≤ st'.kref
  refs : refs st - 1 ≤ refs st'

theorem Delta.put (hk : st'.kref = st.kref - 1) (hd : st'.destroyed = (st.destroyed || decide (st.kref - 1 = 0)))
    (hr : Area.refs st' = Area.refs st - 1) : Delta st st' where
  behind := by omega
  live hl hf := by
    rw [hd, Bool.or_eq_false_iff, decide_eq_false_iff_not] at hf
    have := hl hf.1
    omega
  refs := by omega

theorem Delta.grant (hk : st.kref ≤ st'.kref ∧ st'.kref ≤ st.kref + 1) (hd : st'.destroyed = st.destroyed)
    (hr : Area.refs st' = Area.refs st + 1) : Delta st st' where
  behind := by omega
  live hl hf := by
    have := hl (hd ▸ hf)
    omega
  refs := by omega

theorem Delta.refl (st : St) : Delta st st := ⟨Int.le_refl _, fun h => h, by omega⟩

theorem refs_grant (st : St) (refcount : Nat) (kref : Int) (calls : List Callback) :
    refs { st with refcount := refcount, kref := kref, calls := calls, outstanding := st.outstanding + 1 } =
      refs st + 1 := by
  simp only [refs]
  omega

theorem Delta.get (st : St) (refcount : Nat) (calls : List Callback) :
    Delta st { st with refcount := refcount, kref := st.kref + 1, calls := calls, outstanding := st.outstanding + 1 } :=
  .grant (by constructor <;> simp only <;> omega) rfl (refs_grant st _ _ _)

theorem Delta.uncounted (st : St) (refcount : Nat) :
    Delta st { st with refcount := refcount, outstanding := st.outstanding + 1 } :=
  .grant (by constructor <;> simp only <;> omega) rfl (refs_grant st _ _ _)

theorem delta_acquire (ops : Ops) (st : St) (err : Int) : Delta st (granted (nfpCppAreaAcquire ops st err)) := by
  simp only [nfpCppAreaAcquire]
  split
  · rw [granted_fst]
    exact .uncounted st _
  split
  · rw [granted_fst]
    exact .uncounted st _
  split
  · next herr =>
    rw [granted_error st herr]
    exact .refl st
  · rw [granted_fst]
    exact .get st _ _

theorem delta_acquireNonblocking (ops : Ops) (st : St) (err : Int) :
    Delta st (granted (nfpCppAreaAcquireNonblocking ops st err)) := by
  simp only [nfpCppAreaAcquireNonblocking]
  split
  · split
    · next herr =>
      rw [granted_error st (by omega)]
      exact .refl st
    · rw [granted_fst]
      exact .get st _ _
  · rw [granted_fst]
    exact .get st _ _

theorem delta_step (h : apply ops st a = some st') : Delta st st' := by
  cases a with
  | acquire err =>
    obtain ⟨-, hs⟩ := ite_none_right_eq_some.mp h
    cases hs
    exact delta_acquire ops st err
  | acquireNonblocking err =>
    obtain ⟨-, hs⟩ := ite_none_right_eq_some.mp h
    cases hs
    exact delta_acquireNonblocking ops st err
  | release =>
    obtain ⟨ho, hs⟩ := ite_none_right_eq_some.mp h
    cases hs
    obtain ⟨-, -, hk, hd, -⟩ := release_fields ops st
    exact .put hk hd (refs_release ops ho)
  | free =>
    obtain ⟨hf, hs⟩ := ite_none_right_eq_some.mp h
    cases hs
    exact .put rfl rfl (refs_free hf)

theorem Leaked.step (hl : Leaked st) (hg : Good ops st') (h : apply ops st a = some st') : Leaked st' := by
  have hd := delta_step h
  have hbehind : st'.kref < refs st' := by
    have := hl.behind
    have := hd.behind
    omega
  have hpos : 0 < refs st' := by
    have := hl.two
    have := hd.refs
    omega
  have halive : st'.destroyed = false := by
    rw [← Bool.not_eq_true, hg.destroyed]
    exact not_not.mpr ((alive_iff st').mpr hpos)
  have hkref := hd.live hl.live halive
  exact ⟨hbehind, fun _ => hkref, by omega⟩

theorem Inv.leak (hi : Inv ops st) (hc : ¬Counted ops st a) (h : apply ops st a = some st') : Leaked st' := by
  cases a with
  | acquire err =>
    obtain ⟨ha, hs⟩ := ite_none_right_eq_some.mp h
    cases hs
    have hpos := (alive_iff st).mp ha
    have hkref := hi.kref
    have hgrant := refs_grant st (st.refcount + 1) st.kref st.calls
    have hst : granted (nfpCppAreaAcquire ops st err) =
        { st with refcount := st.refcount + 1, outstanding := st.outstanding + 1 } := by
      simp only [nfpCppAreaAcquire]
      split
      · exact granted_fst _
      next h0 =>
      rw [if_pos ?_]
      · exact granted_fst _
      · rw [Bool.not_eq_true', ← Bool.not_eq_true]
        exact fun hop => hc ⟨by omega, hop⟩
    rw [hst]
    constructor
    · rw [hgrant]
      simp only
      omega
    · intro _
      simp only
      omega
    · omega
  | acquireNonblocking | release | free => exact absurd trivial hc

theorem guarded_of_always {t : St} {as : List Action} (hi : Inv ops st) (ha : Always (apply ops) (Good ops) st as)
    (hr : run (apply ops) st as = some t) (hend : ¬Alive t) : Guarded (apply ops) (Counted ops) st as := by
  induction as generalizing st with
  | nil => trivial
  | cons a as ih =>
    obtain ⟨st', h, hr⟩ := run_cons.mp hr
    by_cases hc : Counted ops st a
    · refine ⟨hc, fun s hs => ?_⟩
      cases some.inj (h.symm.trans hs)
      exact ih (inv_step hi hc h) (ha.2 st' h) hr
    · have hl := run_invariant (fun _ _ _ hl hg h => hl.step hg h) (hi.leak hc h) (ha.2 st' h) hr
      have := hl.two
      rw [alive_iff] at hend
      omega

theorem area_refs_iff (ops : Ops) (as : List Action) :
    (Guarded (apply ops) (Counted ops) nfpCppAreaAlloc as → Always (apply ops) (Good ops) nfpCppAreaAlloc as) ∧
      (Complete ops as → Always (apply ops) (Good ops) nfpCppAreaAlloc as →
        Guarded (apply ops) (Counted ops) nfpCppAreaAlloc as) := by
  constructor
  · exact always_of_guarded (fun _ _ _ hi hc h => inv_step hi hc h) (fun _ hi => hi.good) (inv_alloc ops)
  · rintro ⟨t, hr, hend⟩ ha
    exact guarded_of_always (inv_alloc ops) ha hr hend

theorem nestedNonblocking_balanced :
    Always (apply ⟨true, true⟩) (Good ⟨true, true⟩) nfpCppAreaAlloc
      [.acquire 0, .acquireNonblocking 0, .release, .free, .release] := by
  refine (area_refs_iff _ _).1 ⟨⟨rfl, rfl⟩, fun s hs =>
    ⟨trivial, fun s hs => ⟨trivial, fun s hs => ⟨trivial, fun s hs =>
    ⟨trivial, fun s hs => trivial⟩⟩⟩⟩⟩

theorem nestedAcquire_destroyed_early :
    Complete ⟨true, true⟩ [.acquire 0, .acquire 0, .release, .free, .release] ∧
      run (apply ⟨true, true⟩) nfpCppAreaAlloc [.acquire 0, .acquire 0, .release, .free] =
        some ⟨1, 0, true, true, 1, [.acquired]⟩ ∧
      ¬Always (apply ⟨true, true⟩) (Good ⟨true, true⟩) nfpCppAreaAlloc
        [.acquire 0, .acquire 0, .release, .free, .release] := by
  refine ⟨⟨⟨0, -1, true, true, 0, [.acquired, .released]⟩, by decide, by decide⟩, by decide, fun h => ?_⟩
  have hgood := ((((h.2 _ rfl).2 _ rfl).2 _ rfl).2 _ rfl).head
  exact absurd (hgood.destroyed.mp rfl) (by decide)

end NfpDriver.Area
