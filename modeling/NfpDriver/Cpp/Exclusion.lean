import NfpDriver.Cpp.Mutex

namespace NfpDriver.Mutex

open Function BitVec Option

section Invariant

variable {H : Type} (handle : H → Handle)

def Pc.entering : Pc → Bool
  | .idle | .tryKey | .trySet => true
  | _ => false

def Pc.leaving : Pc → Bool
  | .unlockKey | .unlockRead | .unlockWrite => true
  | _ => false

def Outside (st : St H) (h : H) : Prop := st.depth h = 0 ∧ (st.pc h).entering = true

inductive Mode (st : St H) : Prop where
  | free (hw : nfpMutexIsUnlocked st.word = true) (ho : ∀ h, Outside st h)
  | claimed (o : H) (hw : nfpMutexIsLocked st.word = true) (hp : st.pc o = .tryWrite) (hd : st.depth o = 0)
      (hk : st.key = (handle o).key) (ho : ∀ h, h ≠ o → Outside st h)
  | held (o : H) (hw : st.word = nfpMutexLocked (handle o).interface) (hd : 0 < st.depth o)
      (hp : st.pc o = .idle ∨ st.depth o = 1 ∧ (st.pc o).leaving = true) (hk : st.key = (handle o).key)
      (ho : ∀ h, h ≠ o → Outside st h)

variable [DecidableEq H]

def St.locks (st : St H) (h : H) : Nat := st.log.count (h, .trylock, none)

def St.unlocks (st : St H) (h : H) : Nat := st.log.count (h, .unlock, none)

def Balanced (st : St H) : Prop := ∀ i, (st.depth i).toNat + st.unlocks i = st.locks i

structure Inv (st : St H) : Prop where
  mode : Mode handle st
  balance : Balanced st
  unlocked : ∀ h err, (h, .unlock, err) ∈ st.log → err = none
  marker : ∀ h, st.pc h = .trySet → st.key = (handle h).key

end Invariant

section Frame

variable {H : Type} {handle : H → Handle} {st : St H} {h : H}

theorem Outside.of_same {st' : St H} {i : H} (ho : Outside st i) (hd : st'.depth i = st.depth i)
    (hp : st'.pc i = st.pc i) : Outside st' i := by
  rwa [Outside, hd, hp]

variable [DecidableEq H]

theorem goto_pc_self (pc : Pc) : (st.goto h pc).pc h = pc := by
  simp [St.goto]

theorem goto_pc_ne {i : H} (hne : i ≠ h) (pc : Pc) : (st.goto h pc).pc i = st.pc i := by
  simp only [St.goto, update_of_ne hne]

theorem ret_pc_self (op : Op) (err : Option Errno) : (st.ret h op err).pc h = .idle := by
  simp [St.ret]

theorem ret_pc_ne {i : H} (hne : i ≠ h) (op : Op) (err : Option Errno) : (st.ret h op err).pc i = st.pc i := by
  simp only [St.ret, update_of_ne hne]

theorem setDepth_self (d : BitVec 16) : (st.setDepth h d).depth h = d := by
  simp [St.setDepth]

theorem setDepth_ne {i : H} (hne : i ≠ h) (d : BitVec 16) : (st.setDepth h d).depth i = st.depth i := by
  simp only [St.setDepth, update_of_ne hne]

section

variable {i : H} (ho : Outside st i) (hne : i ≠ h)

include ho hne

theorem Outside.goto_ne (pc : Pc) : Outside (st.goto h pc) i :=
  ho.of_same rfl (goto_pc_ne hne pc)

theorem Outside.ret_ne (op : Op) (err : Option Errno) :
    Outside (st.ret h op err) i :=
  ho.of_same rfl (ret_pc_ne hne op err)

theorem Outside.finish_ne (d : BitVec 16) (op : Op) (err : Option Errno) :
    Outside ((st.setDepth h d).ret h op err) i :=
  ho.of_same (setDepth_ne hne d) (ret_pc_ne hne op err)

end

theorem Mode.outside (hm : Mode handle st) (ho : Outside st h) {st' : St H} (hw : st'.word = st.word)
    (hk : st'.key = st.key) (hd : st'.depth = st.depth) (hp : ∀ i, i ≠ h → st'.pc i = st.pc i)
    (he : (st'.pc h).entering = true) : Mode handle st' := by
  have hh : Outside st' h := ⟨hd ▸ ho.1, he⟩
  have hothers : ∀ i, Outside st i → Outside st' i := by
    intro i hi
    by_cases hih : i = h
    · exact hih ▸ hh
    · exact hi.of_same (congrFun hd i) (hp i hih)
  cases hm with
  | free h1 h2 => exact .free (hw ▸ h1) fun i => hothers i (h2 i)
  | claimed o h1 h2 h3 h4 h5 =>
    have hne : o ≠ h := by
      rintro rfl
      rw [Outside, h2] at ho
      cases ho.2
    exact .claimed o (hw ▸ h1) ((hp o hne).trans h2) (hd ▸ h3) (hk.trans h4) fun i hi => hothers i (h5 i hi)
  | held o h1 h2 h3 h4 h5 =>
    have hne : o ≠ h := by
      rintro rfl
      rw [ho.1] at h2
      cases h2
    refine .held o (hw.trans h1) (hd ▸ h2) ?_ (hk.trans h4) fun i hi => hothers i (h5 i hi)
    rw [hp o hne, hd]
    exact h3

omit [DecidableEq H] in
theorem Mode.entering (hm : Mode handle st) (hp : st.pc h = .tryKey ∨ st.pc h = .trySet) : Outside st h := by
  cases hm with
  | free _ ho => exact ho h
  | claimed o _ hpo _ _ ho =>
    refine ho h ?_
    rintro rfl
    rcases hp with hp | hp <;> exact Pc.noConfusion (hp.symm.trans hpo)
  | held o _ _ hpo _ ho =>
    refine ho h ?_
    rintro rfl
    rcases hp with hp | hp <;> rw [hp] at hpo <;> exact hpo.elim Pc.noConfusion fun h => Bool.noConfusion h.2

theorem Mode.holder (hm : Mode handle st) (hd : 0 < st.depth h) :
    st.word = nfpMutexLocked (handle h).interface ∧ st.key = (handle h).key ∧
      (st.pc h = .idle ∨ st.depth h = 1 ∧ (st.pc h).leaving = true) ∧ ∀ i, i ≠ h → Outside st i := by
  have hout : ¬Outside st h := fun ho => absurd (ho.1 ▸ hd) (by decide)
  cases hm with
  | free _ ho => exact absurd (ho h) hout
  | claimed o _ _ hdo _ ho =>
    by_cases he : h = o
    · rw [he, hdo] at hd
      cases hd
    · exact absurd (ho h he) hout
  | held o hw _ hp hk ho =>
    by_cases he : h = o
    · exact he ▸ ⟨hw, hk, hp, ho⟩
    · exact absurd (ho h he) hout

theorem Mode.claimer (hm : Mode handle st) (hp : st.pc h = .tryWrite) :
    st.depth h = 0 ∧ st.key = (handle h).key ∧ ∀ i, i ≠ h → Outside st i := by
  have hout : ¬Outside st h := fun ho => by
    rw [Outside, hp] at ho
    cases ho.2
  cases hm with
  | free _ ho => exact absurd (ho h) hout
  | claimed o _ _ hd hk ho =>
    by_cases he : h = o
    · exact he ▸ ⟨hd, hk, ho⟩
    · exact absurd (ho h he) hout
  | held o _ _ hpo _ ho =>
    by_cases he : h = o
    · rw [← he, hp] at hpo
      exact hpo.elim Pc.noConfusion fun h => Bool.noConfusion h.2
    · exact absurd (ho h he) hout

theorem Mode.leaving (hm : Mode handle st) (hp : (st.pc h).leaving = true) : st.depth h = 1 := by
  have hout : ¬Outside st h := by
    intro ho
    have he := ho.2
    cases hpc : st.pc h <;> rw [hpc] at hp he <;> first | exact Bool.noConfusion hp | cases he
  cases hm with
  | free _ ho => exact absurd (ho h) hout
  | claimed o _ hpo _ _ ho =>
    by_cases he : h = o
    · rw [he, hpo] at hp
      cases hp
    · exact absurd (ho h he) hout
  | held o _ _ hpo _ ho =>
    by_cases he : h = o
    · rw [← he] at hpo
      rcases hpo with hi | hi
      · rw [hi] at hp
        cases hp
      · exact hi.1
    · exact absurd (ho h he) hout

end Frame

section Balance

variable {H : Type} [DecidableEq H] {s : St H} {h : H}

theorem ret_locks (i : H) (op : Op) (err : Option Errno) :
    (s.ret h op err).locks i = s.locks i + if h = i ∧ op = .trylock ∧ err = none then 1 else 0 := by
  simp [St.locks, St.ret, List.count_append, List.count_singleton]

theorem ret_unlocks (i : H) (op : Op) (err : Option Errno) :
    (s.ret h op err).unlocks i = s.unlocks i + if h = i ∧ op = .unlock ∧ err = none then 1 else 0 := by
  simp [St.unlocks, St.ret, List.count_append, List.count_singleton]

theorem Balanced.fail (hb : Balanced s) (op : Op) (e : Errno) : Balanced (s.ret h op (some e)) := by
  intro i
  rw [ret_locks, ret_unlocks, if_neg (by simp), if_neg (by simp)]
  exact hb i

theorem Balanced.finish (hb : Balanced s) {d : BitVec 16} {op : Op}
    (hd : d.toNat + (if op = .unlock then 1 else 0) = (s.depth h).toNat + if op = .trylock then 1 else 0) :
    Balanced ((s.setDepth h d).ret h op none) := by
  intro i
  rw [ret_locks, ret_unlocks]
  have hi : (s.depth i).toNat + s.unlocks i = s.locks i := hb i
  have hl : (s.setDepth h d).locks i = s.locks i := rfl
  have hu : (s.setDepth h d).unlocks i = s.unlocks i := rfl
  have hdepth : ((s.setDepth h d).ret h op none).depth i = (s.setDepth h d).depth i := rfl
  rw [hdepth, hl, hu]
  rcases eq_or_ne h i with rfl | he
  · rw [setDepth_self]
    simp only [true_and, and_true]
    omega
  · rw [setDepth_ne fun hc => he hc.symm, if_neg fun hc => he hc.1, if_neg fun hc => he hc.1]
    exact hi

end Balance

section Step

variable {H : Type} [DecidableEq H] {handle : H → Handle} {st : St H} {h : H} (hi : Inv handle st)

include hi

theorem Inv.goto {pc : Pc} (hm : Mode handle (st.goto h pc)) (hk : pc = .trySet → st.key = (handle h).key) :
    Inv handle (st.goto h pc) where
  mode := hm
  balance := hi.balance
  unlocked := hi.unlocked
  marker i hpc := by
    rcases eq_or_ne i h with rfl | he
    · exact hk ((goto_pc_self pc).symm.trans hpc)
    · exact hi.marker i ((goto_pc_ne he pc).symm.trans hpc)

theorem Inv.ret (st' : St H) (hk : st'.key = st.key) (hl : st'.log = st.log) (hp : st'.pc = st.pc) {op : Op}
    {err : Option Errno} (hm : Mode handle (st'.ret h op err)) (hb : Balanced (st'.ret h op err))
    (hu : op = .unlock → err = none) : Inv handle (st'.ret h op err) where
  mode := hm
  balance := hb
  unlocked i e he := by
    rcases List.mem_append.mp he with he | he
    · exact hi.unlocked i e (hl ▸ he)
    · obtain ⟨-, rfl, rfl⟩ : i = h ∧ Op.unlock = op ∧ e = err := by simpa using he
      exact hu rfl
  marker i hpc := by
    rcases eq_or_ne i h with rfl | he
    · rw [ret_pc_self] at hpc
      exact Pc.noConfusion hpc
    · rw [ret_pc_ne he, hp] at hpc
      exact hk.trans (hi.marker i hpc)

theorem inv_trylock (hpc : st.pc h = .idle) : Inv handle (nfpCppMutexTrylock st h) := by
  rw [nfpCppMutexTrylock]
  split
  · next hd =>
    obtain ⟨hw, hk, -, ho⟩ := hi.mode.holder hd
    split
    · refine hi.ret st rfl rfl rfl ?_ (hi.balance.fail .trylock .e2big) Op.noConfusion
      exact .held h hw hd (.inl (ret_pc_self _ _)) hk fun i hne => (ho i hne).ret_ne hne _ _
    next hmax =>
    have hlt : (st.depth h).toNat < 0xffff := by
      have hne : (st.depth h).toNat ≠ 0xffff := fun he => hmax (eq_of_toNat_eq he)
      omega
    have hsucc : (st.depth h + 1).toNat = (st.depth h).toNat + 1 := by
      exact Nat.mod_eq_of_lt (by simp; omega)
    refine hi.ret (st.setDepth h (st.depth h + 1)) rfl rfl rfl ?_ (hi.balance.finish hsucc) Op.noConfusion
    refine .held h hw ?_ (.inl (ret_pc_self _ _)) hk fun i hne => (ho i hne).finish_ne hne _ _ _
    have hdepth : ((st.setDepth h (st.depth h + 1)).ret h .trylock none).depth h = st.depth h + 1 := setDepth_self _
    rw [hdepth, lt_def, hsucc]
    exact Nat.succ_pos _
  · next hd =>
    have hout : Outside st h := by
      refine ⟨?_, by rw [hpc]; rfl⟩
      by_contra hne
      exact hd (lt_def.mpr (Nat.pos_of_ne_zero fun h => hne (eq_of_toNat_eq h)))
    exact hi.goto (hi.mode.outside hout rfl rfl rfl (fun i hne => goto_pc_ne hne _) (by rw [goto_pc_self]; rfl))
      Pc.noConfusion

theorem inv_unlock (hd : 0 < st.depth h) : Inv handle (nfpCppMutexUnlock st h) := by
  obtain ⟨hw, hk, -, ho⟩ := hi.mode.holder hd
  rw [nfpCppMutexUnlock]
  split
  · next h1 =>
    have hlt : 1 < (st.depth h).toNat := lt_def.mp h1
    have hpred : (st.depth h - 1).toNat = (st.depth h).toNat - 1 :=
      toNat_sub_of_le (le_def.mpr (Nat.le_of_lt hlt))
    refine hi.ret (st.setDepth h (st.depth h - 1)) rfl rfl rfl ?_ (hi.balance.finish ?_) fun _ => rfl
    · refine .held h hw ?_ (.inl (ret_pc_self _ _)) hk fun i hne => (ho i hne).finish_ne hne _ _ _
      have hdepth : ((st.setDepth h (st.depth h - 1)).ret h .unlock none).depth h = st.depth h - 1 := setDepth_self _
      rw [hdepth, lt_def, hpred]
      exact Nat.sub_pos_of_lt hlt
    · rw [if_pos rfl, if_neg Op.noConfusion, hpred]
      omega
  · next h1 =>
    have hone : st.depth h = 1 := by
      have hge : ¬1 < (st.depth h).toNat := fun hlt => h1 (lt_def.mpr hlt)
      have hpos : 0 < (st.depth h).toNat := lt_def.mp hd
      exact eq_of_toNat_eq (show (st.depth h).toNat = 1 by omega)
    refine hi.goto ?_ Pc.noConfusion
    exact .held h hw hd (.inr ⟨hone, by rw [goto_pc_self]; rfl⟩) hk fun i hne => (ho i hne).goto_ne hne _

theorem inv_leave {pc : Pc} (hp : (st.pc h).leaving = true) (hp' : pc.leaving = true) : Inv handle (st.goto h pc) := by
  have hone := hi.mode.leaving hp
  have hd : 0 < st.depth h := by rw [hone]; decide
  obtain ⟨hw, hk, -, ho⟩ := hi.mode.holder hd
  refine hi.goto ?_ fun h => by rw [h] at hp'; cases hp'
  exact .held h hw hd (.inr ⟨hone, by rw [goto_pc_self]; exact hp'⟩) hk fun i hne => (ho i hne).goto_ne hne _

theorem inv_fail (ho : Outside st h) (e : Errno) : Inv handle (st.ret h .trylock (some e)) := by
  refine hi.ret st rfl rfl rfl ?_ (hi.balance.fail .trylock e) Op.noConfusion
  exact hi.mode.outside ho rfl rfl rfl (fun i hne => ret_pc_ne hne _ _) (by rw [ret_pc_self]; rfl)

theorem inv_set (hpc : st.pc h = .trySet) {st' : St H} (hc : command handle st h = some st') : Inv handle st' := by
  have hout := hi.mode.entering (.inr hpc)
  have hbusy : nfpMutexIsLocked st.word = true → Inv handle st' := by
    intro hl
    have hsame : { st with word := st.word ||| 0xf } = st := by rw [set_locked hl]
    simp only [command, hpc, hsame, not_unlocked hl, Bool.false_eq_true, if_false] at hc
    exact some.inj hc ▸ inv_fail hi hout _
  cases hm : hi.mode with
  | free hw ho =>
    simp only [command, hpc, hw, if_true] at hc
    cases hc
    have hclaim : Mode handle (St.goto { st with word := st.word ||| 0xf } h .tryWrite) :=
      .claimed h (isLocked_set hw) (goto_pc_self _) (ho h).1 (hi.marker h hpc) fun i hne =>
        (ho i).of_same rfl (goto_pc_ne hne _)
    refine ⟨hclaim, hi.balance, hi.unlocked, fun i hi' => ?_⟩
    rcases eq_or_ne i h with rfl | he
    · rw [goto_pc_self] at hi'
      exact Pc.noConfusion hi'
    · exact hi.marker i ((goto_pc_ne he _).symm.trans hi')
  | claimed o hw => exact hbusy hw
  | held o hw => exact hbusy (hw ▸ isLocked_locked _)

theorem inv_write (hpc : st.pc h = .tryWrite) :
    Inv handle ((St.setDepth { st with word := nfpMutexLocked (handle h).interface } h 1).ret h .trylock none) := by
  obtain ⟨hd, hk, ho⟩ := hi.mode.claimer hpc
  have hset : ∀ w : BitVec 32, (St.setDepth { st with word := w } h 1).depth h = 1 := fun w => setDepth_self _
  refine hi.ret (St.setDepth { st with word := nfpMutexLocked (handle h).interface } h 1) rfl rfl rfl ?_ ?_
    Op.noConfusion
  · refine .held h rfl ?_ (.inl (ret_pc_self _ _)) hk fun i hne => ?_
    · rw [show ((St.setDepth _ h 1).ret h .trylock none).depth h = 1 from hset _]
      decide
    · exact (ho i hne).of_same (setDepth_ne hne _) (ret_pc_ne hne _ _)
  · refine Balanced.finish (s := { st with word := nfpMutexLocked (handle h).interface }) hi.balance ?_
    rw [if_neg Op.noConfusion, if_pos rfl, show St.depth _ h = 0 from hd]
    rfl

theorem inv_release (hpc : st.pc h = .unlockWrite) :
    Inv handle ((St.setDepth { st with word := nfpMutexUnlocked (handle h).interface } h 0).ret h .unlock none) := by
  have hone := hi.mode.leaving (h := h) (by rw [hpc]; rfl)
  have hd : 0 < st.depth h := by rw [hone]; decide
  obtain ⟨-, -, -, ho⟩ := hi.mode.holder hd
  refine hi.ret (St.setDepth { st with word := nfpMutexUnlocked (handle h).interface } h 0) rfl rfl rfl ?_ ?_
    fun _ => rfl
  · refine .free (isUnlocked_unlocked _) fun i => ?_
    rcases eq_or_ne i h with rfl | he
    · exact ⟨setDepth_self _, by rw [ret_pc_self]; rfl⟩
    · exact (ho i he).of_same (setDepth_ne he _) (ret_pc_ne he _ _)
  · refine Balanced.finish (s := { st with word := nfpMutexUnlocked (handle h).interface }) hi.balance ?_
    rw [if_pos rfl, if_neg Op.noConfusion, show St.depth _ h = 1 from hone]
    rfl

theorem inv_step {st' : St H} (hs : Step handle st st') : Inv handle st' := by
  obtain ⟨a, ha⟩ := hs
  cases a with
  | trylock h =>
    simp only [apply] at ha
    split at ha
    · next hpc => exact some.inj ha ▸ inv_trylock hi hpc
    · cases ha
  | unlock h =>
    simp only [apply] at ha
    split at ha
    · next hpc => exact some.inj ha ▸ inv_unlock hi hpc.2
    · cases ha
  | command h =>
    rw [apply] at ha
    cases hpc : st.pc h with
    | idle =>
      rw [command, hpc] at ha
      cases ha
    | tryKey =>
      have hout := hi.mode.entering (.inl hpc)
      rw [command, hpc] at ha
      cases ha
      split
      · exact inv_fail hi hout _
      · next hk =>
        refine hi.goto ?_ fun _ => not_not.mp hk
        exact hi.mode.outside hout rfl rfl rfl (fun i hne => goto_pc_ne hne _) (by rw [goto_pc_self]; rfl)
    | trySet => exact inv_set hi hpc ha
    | tryWrite =>
      rw [command, hpc] at ha
      exact some.inj ha ▸ inv_write hi hpc
    | unlockKey =>
      have hone := hi.mode.leaving (h := h) (by rw [hpc]; rfl)
      obtain ⟨-, hk, -⟩ := hi.mode.holder (h := h) (by rw [hone]; decide)
      simp only [command, hpc, hk, ne_eq, not_true_eq_false, if_false] at ha
      exact some.inj ha ▸ inv_leave hi (by rw [hpc]; rfl) rfl
    | unlockRead =>
      have hone := hi.mode.leaving (h := h) (by rw [hpc]; rfl)
      obtain ⟨hw, -⟩ := hi.mode.holder (h := h) (by rw [hone]; decide)
      simp only [command, hpc, hw, ne_eq, not_true_eq_false, if_false] at ha
      exact some.inj ha ▸ inv_leave hi (by rw [hpc]; rfl) rfl
    | unlockWrite =>
      rw [command, hpc] at ha
      exact some.inj ha ▸ inv_release hi hpc

end Step

section Runs

variable {H : Type} [DecidableEq H] {handle : H → Handle} {word key : BitVec 32} {st : St H}

theorem inv_init (hw : nfpMutexIsUnlocked word = true) : Inv (H := H) handle (init word key) where
  mode := .free hw fun _ => ⟨rfl, rfl⟩
  balance _ := rfl
  unlocked _ _ he := absurd he List.not_mem_nil
  marker _ hp := Pc.noConfusion hp

theorem inv_reachable (hw : nfpMutexIsUnlocked word = true) (hr : Reachable handle word key st) : Inv handle st := by
  induction hr with
  | refl => exact inv_init hw
  | tail _ hs ih => exact inv_step ih hs

theorem Mode.one_holder (hm : Mode handle st) {h h' : H} (hd : 0 < st.depth h) (hd' : 0 < st.depth h') : h = h' := by
  obtain ⟨-, -, -, ho⟩ := hm.holder hd
  by_contra hne
  have hz := (ho h' fun he => hne he.symm).1
  rw [hz] at hd'
  exact absurd hd' (by decide)

theorem command_enabled {h : H} (hp : st.pc h ≠ .idle) : ∃ st', apply handle st (.command h) = some st' := by
  rw [apply]
  cases hpc : st.pc h with
  | idle => exact absurd hpc hp
  | _ => exact ⟨_, by rw [command, hpc]⟩

end Runs

theorem mutex_excludes {H : Type} [DecidableEq H] (handle : H → Handle) (word key : BitVec 32)
    (hw : nfpMutexIsUnlocked word = true) (st : St H) (hr : Reachable handle word key st) :
    (∀ h h', 0 < st.depth h → 0 < st.depth h' → h = h') ∧
    (∀ h, (st.depth h).toNat + st.unlocks h = st.locks h ∧ (st.depth h).toNat ≤ depthMax.toNat) ∧
    (∀ h err, (h, .unlock, err) ∈ st.log → err = none) ∧
    (∀ h, 0 < st.depth h → st.word = nfpMutexLocked (handle h).interface ∧ st.key = (handle h).key) ∧
    ∀ h, st.pc h ≠ .idle → ∃ st', apply handle st (.command h) = some st' := by
  have hi := inv_reachable hw hr
  refine ⟨fun h h' => hi.mode.one_holder, fun h => ⟨hi.balance h, ?_⟩, hi.unlocked, fun h hd => ?_,
    fun h => command_enabled⟩
  · exact Nat.le_of_lt_succ (st.depth h).isLt
  · obtain ⟨hword, hkey, -⟩ := hi.mode.holder hd
    exact ⟨hword, hkey⟩

def runActions {H : Type} [DecidableEq H] (handle : H → Handle) (st : St H) (as : List (Action H)) : St H :=
  as.foldl (fun st a => (apply handle st a).getD st) st

theorem reachable_runActions {H : Type} [DecidableEq H] {handle : H → Handle} {word key : BitVec 32} {st : St H}
    (hr : Reachable handle word key st) (as : List (Action H)) :
      Reachable handle word key (runActions handle st as) := by
  induction as generalizing st with
  | nil => exact hr
  | cons a as ih =>
    have hstep : Reachable handle word key ((apply handle st a).getD st) := by
      cases ha : apply handle st a with
      | none => exact hr
      | some st' => exact hr.tail ⟨a, ha⟩
    exact ih hstep

def twoHandles : Bool → Handle
  | true => ⟨0x1234, 7⟩
  | false => ⟨0x5678, 7⟩

def contended : St Bool :=
  runActions twoHandles (init 0 7)
    [.trylock true, .command true, .trylock false, .command true, .command false, .command false, .command true]

theorem contended_excludes :
    contended.depth true = 1 ∧ (false, .trylock, some .ebusy) ∈ contended.log ∧
      contended.word = nfpMutexLocked 0x1234 :=
  have hr : Reachable twoHandles 0 7 contended := reachable_runActions .refl _
  have hd : contended.depth true = 1 := by decide
  ⟨hd, by decide, ((mutex_excludes twoHandles 0 7 (by decide) contended hr).2.2.2.1 true (by rw [hd]; decide)).1⟩

end NfpDriver.Mutex
