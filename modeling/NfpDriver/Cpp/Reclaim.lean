import NfpDriver.Cpp.Exclusion

namespace NfpDriver.Mutex

open BitVec

def nfpMutexOwner (val : BitVec 32) : BitVec 32 := val >>> 16

structure Site where
  target : BitVec 32
  address : BitVec 64

def nfpCppMutexValidate (interface : BitVec 16) (site : Site) : Bool :=
  interface >>> 12 &&& 0xf ≠ 0 ∧ site.address &&& 7 = 0 ∧ site.target = 7

-- `busting` is set from the read that finds the lock to be the caller's until the write that frees it
structure System (H : Type) where
  st : St H
  busting : Bool

section Model

variable {H : Type} [DecidableEq H] (handle : H → Handle) (interface : BitVec 16)

def reclaimRead (site : Site) (st : St H) : System H :=
  ⟨st, nfpCppMutexValidate interface site ∧
    ¬(nfpMutexIsUnlocked st.word ∨ nfpMutexOwner st.word ≠ interface.setWidth 32)⟩

def reclaimWrite (st : St H) : System H := ⟨{ st with word := nfpMutexUnlocked interface }, false⟩

def Action.who : Action H → H
  | .trylock h | .unlock h | .command h => h

inductive Next : System H → System H → Prop where
  | handle {st st' : St H} {busting : Bool} (a : Action H)
    (ha : busting = true → (handle (Action.who a)).interface ≠ interface) (h : apply handle st a = some st') :
    Next ⟨st, busting⟩ ⟨st', busting⟩
  | bust (st : St H) : Next ⟨st, true⟩ (reclaimWrite interface st)

def Quiet (st : St H) : Prop := ∀ h, (handle h).interface = interface → st.depth h = 0 ∧ st.pc h = .idle

structure Safe (s : System H) : Prop where
  spared : s.busting = true → ∀ h, (handle h).interface ≠ interface → s.st.depth h = 0 ∧ s.st.pc h ≠ .tryWrite
  exclusive : ∀ h h', 0 < s.st.depth h → 0 < s.st.depth h' → h = h'

def ReclaimSafe (site : Site) (st : St H) : Prop :=
  ∀ s, Relation.ReflTransGen (Next handle interface) (reclaimRead interface site st) s → Safe handle interface s

-- the word was left locked by a user that is gone, nobody can take it any more
structure Stale (st : St H) : Prop where
  word : nfpMutexIsUnlocked st.word = false
  outside : ∀ h, Outside st h
  balance : Balanced st
  unlocked : ∀ h err, (h, .unlock, err) ∈ st.log → err = none
  marker : ∀ h, st.pc h = .trySet → st.key = (handle h).key

end Model

variable {w key word : BitVec 32}

section Stale

variable {H : Type} [DecidableEq H] {handle : H → Handle} {st : St H} {h : H}

theorem not_unlocked_set (hw : nfpMutexIsUnlocked w = false) : nfpMutexIsUnlocked (w ||| 0xf) = false := by
  refine decide_eq_false fun h0 => of_decide_eq_false hw ?_
  refine eq_of_getLsbD_eq fun i hi => ?_
  have h1 := congrArg (·.getLsbD i) h0
  simp only [getLsbD_and, getLsbD_or] at h1 ⊢
  cases hb : w.getLsbD i
  · simp
  · simpa [hb] using h1

section

variable (hs : Stale handle st)

include hs

theorem Stale.goto {pc : Pc} (hp : pc.entering = true)
    (hk : pc = .trySet → st.key = (handle h).key) : Stale handle (st.goto h pc) where
  word := hs.word
  outside i := by
    rcases eq_or_ne i h with rfl | he
    · exact ⟨(hs.outside i).1, by rwa [goto_pc_self]⟩
    · exact (hs.outside i).goto_ne he pc
  balance := hs.balance
  unlocked := hs.unlocked
  marker i hpc := by
    rcases eq_or_ne i h with rfl | he
    · exact hk ((goto_pc_self pc).symm.trans hpc)
    · exact hs.marker i ((goto_pc_ne he pc).symm.trans hpc)

theorem Stale.fail (err : Errno) : Stale handle (st.ret h .trylock (some err)) where
  word := hs.word
  outside i := by
    rcases eq_or_ne i h with rfl | he
    · exact ⟨(hs.outside i).1, by rw [ret_pc_self]; rfl⟩
    · exact (hs.outside i).ret_ne he _ _
  balance := hs.balance.fail .trylock err
  unlocked i e he := by
    rcases List.mem_append.mp he with he | he
    · exact hs.unlocked i e he
    · cases List.mem_singleton.mp he
  marker i hpc := by
    rcases eq_or_ne i h with rfl | he
    · exact absurd ((ret_pc_self ..).symm.trans hpc) (by decide)
    · exact hs.marker i ((ret_pc_ne he ..).symm.trans hpc)

theorem Stale.setWord (hw : nfpMutexIsUnlocked w = false) : Stale handle { st with word := w } :=
  ⟨hw, hs.outside, hs.balance, hs.unlocked, hs.marker⟩

theorem stale_command {st' : St H} (hc : command handle st h = some st') : Stale handle st' := by
  have hentering := (hs.outside h).2
  cases hpc : st.pc h with
  | idle =>
    rw [command, hpc] at hc
    cases hc
  | tryKey =>
    rw [command, hpc] at hc
    cases hc
    split
    · exact hs.fail _
    · next hk => exact hs.goto rfl fun _ => not_not.mp hk
  | trySet =>
    rw [command, hpc] at hc
    dsimp only at hc
    rw [hs.word] at hc
    cases hc
    exact (hs.setWord (not_unlocked_set hs.word)).fail _
  | tryWrite | unlockKey | unlockRead | unlockWrite =>
    rw [hpc] at hentering
    cases hentering

theorem stale_step {a : Action H} {st' : St H} (ha : apply handle st a = some st') :
    Stale handle st' := by
  cases a with
  | trylock h =>
    rw [apply] at ha
    split at ha
    · cases ha
      rw [nfpCppMutexTrylock, if_neg (by rw [(hs.outside h).1]; decide)]
      exact hs.goto rfl Pc.noConfusion
    · cases ha
  | unlock h =>
    rw [apply] at ha
    split at ha
    · next hd =>
      rw [(hs.outside h).1] at hd
      exact absurd hd.2 (by decide)
    · cases ha
  | command h => exact stale_command hs ha

theorem stale_bust (interface : BitVec 16) :
    Inv handle { st with word := nfpMutexUnlocked interface } where
  mode := .free (isUnlocked_unlocked interface) hs.outside
  balance := hs.balance
  unlocked := hs.unlocked
  marker := hs.marker

end

theorem inv_or_stale (hr : Reachable handle word key st) : Inv handle st ∨ Stale handle st := by
  induction hr with
  | refl =>
    cases hw : nfpMutexIsUnlocked word with
    | true => exact .inl (inv_init hw)
    | false =>
      exact .inr ⟨hw, fun _ => ⟨rfl, rfl⟩, fun _ => rfl, fun _ _ he => absurd he List.not_mem_nil,
        fun _ hp => Pc.noConfusion hp⟩
  | tail _ hstep ih =>
    rcases ih with hi | hs
    · exact .inl (inv_step hi hstep)
    · obtain ⟨a, ha⟩ := hstep
      exact .inr (stale_step hs ha)

end Stale

section Reclaim

variable {H : Type} [DecidableEq H] {handle : H → Handle} {interface : BitVec 16} {site : Site} {st : St H}

structure Guard (handle : H → Handle) (s : System H) : Prop where
  busting : s.busting = true → Stale handle s.st
  rest : s.busting = false → Inv handle s.st ∨ Stale handle s.st

theorem Stale.exclusive (hs : Stale handle st) {h h' : H} (hd : 0 < st.depth h) : h = h' := by
  rw [(hs.outside h).1] at hd
  cases hd

theorem Guard.safe {s : System H} (hg : Guard handle s) : Safe handle interface s where
  spared hb h _ := by
    obtain ⟨hd, hp⟩ := (hg.busting hb).outside h
    refine ⟨hd, fun hpc => ?_⟩
    rw [hpc] at hp
    cases hp
  exclusive h h' hd hd' := by
    cases hb : s.busting with
    | true => exact (hg.busting hb).exclusive hd
    | false =>
      rcases hg.rest hb with hi | hs
      · exact hi.mode.one_holder hd hd'
      · exact hs.exclusive hd

theorem guard_next {s t : System H} (hg : Guard handle s) (hn : Next handle interface s t) : Guard handle t := by
  cases hn with
  | handle a _ ha =>
    refine ⟨fun hb => stale_step (hg.busting hb) ha, fun hb => ?_⟩
    rcases hg.rest hb with hi | hs
    · exact .inl (inv_step hi ⟨a, ha⟩)
    · exact .inr (stale_step hs ha)
  | bust st => exact ⟨(nomatch ·), fun _ => .inl (stale_bust (hg.busting rfl) interface)⟩

omit [DecidableEq H] in
theorem reclaimRead_busting :
    (reclaimRead interface site st).busting = true ↔
      nfpCppMutexValidate interface site = true ∧ nfpMutexIsUnlocked st.word = false ∧
        nfpMutexOwner st.word = interface.setWidth 32 := by
  simp [reclaimRead]

theorem owner_locked (i : BitVec 16) : nfpMutexOwner (nfpMutexLocked i) = i.setWidth 32 := by
  refine eq_of_getLsbD_eq fun k hk => ?_
  rw [nfpMutexOwner, nfpMutexLocked, getLsbD_ushiftRight, getLsbD_append, if_neg (by omega),
    getLsbD_setWidth, Nat.add_sub_cancel_left, decide_eq_true hk, Bool.true_and]

theorem setWidth_inj {i j : BitVec 16} (h : i.setWidth 32 = j.setWidth 32) : i = j := by
  have := congrArg (BitVec.setWidth 16) h
  rwa [setWidth_setWidth_of_le _ (by decide), setWidth_setWidth_of_le _ (by decide), setWidth_eq, setWidth_eq] at this

theorem guard_read (hr : Reachable handle word key st) (hq : Quiet handle interface st)
    (hno : ¬(nfpCppMutexValidate interface site = true ∧ ∃ h, st.pc h = .tryWrite ∧
      nfpMutexOwner st.word = interface.setWidth 32)) : Guard handle (reclaimRead interface site st) := by
  rcases inv_or_stale hr with hi | hs
  · refine ⟨fun hb => ?_, fun _ => .inl hi⟩
    obtain ⟨hv, hlocked, howner⟩ := reclaimRead_busting.mp hb
    exfalso
    cases hi.mode with
    | free hw _ => cases hw.symm.trans hlocked
    | claimed o _ hp _ _ _ => exact hno ⟨hv, o, hp, howner⟩
    | held o hw hd _ _ _ =>
      rw [hw, owner_locked] at howner
      rw [(hq o (setWidth_inj howner)).1] at hd
      cases hd
  · exact ⟨fun _ => hs, fun _ => .inr hs⟩

end Reclaim

theorem reclaim_safe_iff {H : Type} [DecidableEq H] (handle : H → Handle) (interface : BitVec 16) (site : Site)
    (word key : BitVec 32) (st : St H) (hr : Reachable handle word key st) (hq : Quiet handle interface st) :
    ReclaimSafe handle interface site st ↔
      ¬(nfpCppMutexValidate interface site = true ∧ ∃ h, st.pc h = .tryWrite ∧
        nfpMutexOwner st.word = interface.setWidth 32) := by
  constructor
  · rintro hsafe ⟨hv, h, hp, howner⟩
    have hlocked : nfpMutexIsUnlocked st.word = false := by
      rcases inv_or_stale hr with hi | hs
      · cases hi.mode with
        | free _ ho =>
          have := (ho h).2
          rw [hp] at this
          cases this
        | claimed o hw _ _ _ _ => exact not_unlocked hw
        | held o hw _ _ _ _ => exact not_unlocked (hw ▸ isLocked_locked _)
      · exact hs.word
    have hne : (handle h).interface ≠ interface := fun he => absurd ((hq h he).2.symm.trans hp) (by decide)
    exact ((hsafe _ .refl).spared (reclaimRead_busting.mpr ⟨hv, hlocked, howner⟩) h hne).2 hp
  · intro hno s hs
    refine Guard.safe ?_
    induction hs with
    | refl => exact guard_read hr hq hno
    | tail _ hn ih => exact guard_next ih hn

theorem stale_lock_reclaimed :
    Quiet twoHandles 0x1234 (init 0x1234000f 7) ∧
      (reclaimRead 0x1234 ⟨7, 0⟩ (init (H := Bool) 0x1234000f 7)).busting = true ∧
      ReclaimSafe twoHandles 0x1234 ⟨7, 0⟩ (init 0x1234000f 7) := by
  have hq : Quiet twoHandles 0x1234 (init 0x1234000f 7) := fun _ _ => ⟨rfl, rfl⟩
  refine ⟨hq, by decide, (reclaim_safe_iff twoHandles 0x1234 ⟨7, 0⟩ 0x1234000f 7 _ .refl hq).mpr ?_⟩
  rintro ⟨-, h, hp, -⟩
  cases hp

theorem next_runActions {H : Type} [DecidableEq H] {handle : H → Handle} {interface : BitVec 16} (st : St H)
    (as : List (Action H)) :
    Relation.ReflTransGen (Next handle interface) ⟨st, false⟩ ⟨runActions handle st as, false⟩ := by
  induction as generalizing st with
  | nil => exact .refl
  | cons a as ih =>
    rw [runActions, List.foldl_cons]
    cases ha : apply handle st a with
    | none => exact ih st
    | some st' => exact .head (.handle a (nomatch ·) ha) (ih st')

def threeHandles : Fin 3 → Handle
  | 0 => ⟨0x1000, 7⟩
  | 1 => ⟨0x2000, 7⟩
  | 2 => ⟨0x3000, 7⟩

-- handle 0 has locked and unlocked, handle 1 has won the test-and-set and not yet written its id
def halfAcquired : St (Fin 3) :=
  runActions threeHandles (init 0 7) [.trylock 0, .command 0, .command 0, .command 0, .unlock 0, .command 0, .command 0,
    .command 0, .trylock 1, .command 1, .command 1]

theorem reclaim_frees_other :
    Reachable threeHandles 0 7 halfAcquired ∧ ¬ReclaimSafe threeHandles 0x1000 ⟨7, 0⟩ halfAcquired ∧
      ∃ s, Relation.ReflTransGen (Next threeHandles 0x1000) (reclaimRead 0x1000 ⟨7, 0⟩ halfAcquired) s ∧
        s.st.depth 1 = 1 ∧ s.st.depth 2 = 1 := by
  have hread : reclaimRead 0x1000 ⟨7, 0⟩ halfAcquired = ⟨halfAcquired, true⟩ := by
    rfl
  refine ⟨reachable_runActions .refl _, fun h => ?_, ?_⟩
  · exact ((h _ .refl).spared (congrArg System.busting hread) 1 (by decide)).2 (by decide)
  · rw [hread]
    refine ⟨_, .head (.bust halfAcquired)
      (next_runActions _ [.trylock 2, .command 2, .command 2, .command 1, .command 2]),
      ?_, ?_⟩
    · decide
    · decide

end NfpDriver.Mutex
