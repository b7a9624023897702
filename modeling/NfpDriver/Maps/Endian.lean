import Mathlib.Algebra.Ring.Nat
import Mathlib.Data.Set.Basic
import Mathlib.Tactic.Common
import NfpDriver.Library.Runs

namespace NfpDriver.Endian

open List Option

abbrev Byte := BitVec 8

inductive MapUse
  | unused
  | read
  | write
  | atomicCnt
  deriving DecidableEq, Repr

structure WordUse where
  type : MapUse
  nonZeroUpdate : Bool
  deriving DecidableEq, Repr

abbrev UseMap := Nat → WordUse

structure Shape where
  valueSize : Nat
  bigEndian : Bool
  fits : valueSize + 3 < 2 ^ 32

def Shape.words (m : Shape) : Nat := (m.valueSize + 3) / 4

-- cpu_to_be32 moves bytes within their word on a little endian host only
def Shape.mirror (m : Shape) (j : Nat) : Nat := if m.bigEndian then j else j / 4 * 4 + (3 - j % 4)

def byteSwap (m : Shape) (use : UseMap) (value : Nat → Byte) : Nat → Byte := fun j =>
  if j / 4 < m.words ∧ (use (j / 4)).type = .atomicCnt then value (m.mirror j) else value j

def swapNeutral (m : Shape) (value : Nat → Byte) (i : Nat) : Bool :=
  (List.range 4).all fun k => value (m.mirror (4 * i + k)) == value (4 * i + k)

def byteSwapRecord (m : Shape) (use : UseMap) (value : Nat → Byte) : UseMap := fun i =>
  if i < m.words ∧ (use i).type = .unused ∧ swapNeutral m value i = false then { use i with nonZeroUpdate := true }
  else use i

def setUse (use : UseMap) (i : Nat) (w : WordUse) : UseMap := fun k => if k = i then w else use k

def markUsedOne (use : UseMap) (i : Nat) (t : MapUse) : Option UseMap :=
  if (use i).type ≠ .unused ∧ (use i).type ≠ t then none
  else if (use i).nonZeroUpdate ∧ t = .atomicCnt then none
  else some (setUse use i { use i with type := t })

inductive Access
  | load
  | atomic
  deriving DecidableEq, Repr

def Access.use : Access → MapUse
  | .load => .read
  | .atomic => .atomicCnt

structure Visit where
  access : Access
  off : BitVec 32
  size : Nat
  deriving DecidableEq, Repr

def wordsFrom (off : BitVec 32) (size : Nat) : Nat → Nat → List Nat
  | 0, _ => []
  | fuel + 1, i =>
    if i < size then
      (off + BitVec.ofNat 32 i).toNat / 4 :: wordsFrom off size fuel (i + (4 - (off + BitVec.ofNat 32 i).toNat % 4))
    else []

def Visit.words (m : Shape) (v : Visit) : List Nat :=
  if m.valueSize < (v.off + BitVec.ofNat 32 v.size).toNat then [] else wordsFrom v.off v.size v.size 0

def markAll (t : MapUse) : List Nat → UseMap → UseMap
  | [], use => use
  | i :: is, use =>
    match markUsedOne use i t with
    | none => use
    | some use => markAll t is use

def markUsed (m : Shape) (use : UseMap) (v : Visit) : UseMap := markAll v.access.use (v.words m) use

def updateValueOk (zero : Nat → Bool) : List Nat → UseMap → UseMap
  | [], use => use
  | i :: is, use =>
    if zero i then updateValueOk zero is use
    else if (use (i / 4)).type = .atomicCnt then use
    else updateValueOk zero is (setUse use (i / 4) { use (i / 4) with nonZeroUpdate := true })

abbrev Key := List Byte

structure State where
  use : UseMap
  device : Key → Option (Nat → Byte)
  written : Key → Nat → Option Byte

inductive Event
  | update (key : Key) (value : Nat → Byte) (accepted : Bool)
  | lookup (key : Key)
  | visit (v : Visit)
  | valueVisit (zero : Nat → Bool)
  | datapath (key : Key) (value : Nat → Byte) (touched : Nat → Bool)
  | delete (key : Key)

section Model

variable (m : Shape)

def mapUpdateEntry (s : State) (key : Key) (value : Nat → Byte) (accepted : Bool) : State :=
  let swapped := byteSwap m s.use value
  let use := byteSwapRecord m s.use swapped
  if accepted then
    { use
      device := fun k => if k = key then some swapped else s.device k
      written := fun k j => if k = key then some (value j) else s.written k j }
  else { s with use }

def mapLookupEntry (s : State) (key : Key) (behind : Nat → Byte) : Option (Nat → Byte) :=
  (s.device key).map fun entry => byteSwap m s.use fun j => if j < m.valueSize then entry j else behind j

-- the programs change whole words, and may insert or replace an element
def datapath (s : State) (key : Key) (value : Nat → Byte) (touched : Nat → Bool) : State :=
  match s.device key with
  | none =>
    { s with
      device := fun k => if k = key then some value else s.device k
      written := fun k j => if k = key then none else s.written k j }
  | some entry =>
    { s with
      device := fun k => if k = key then some (fun j => if touched (j / 4) then value j else entry j) else s.device k
      written := fun k j => if k = key ∧ touched (j / 4) then none else s.written k j }

def step (s : State) : Event → Option (State)
  | .update key value accepted => some (mapUpdateEntry m s key value accepted)
  | .lookup _ => some s
  | .visit v => some { s with use := markUsed m s.use v }
  | .valueVisit zero => some { s with use := updateValueOk zero (List.range m.valueSize) s.use }
  | .datapath key value touched => some (datapath s key value touched)
  | .delete key =>
    some { s with
      device := fun k => if k = key then none else s.device k
      written := fun k j => if k = key then none else s.written k j }

def fresh (outside : UseMap) : State where
  use := fun i => if i < m.words then ⟨.unused, false⟩ else outside i
  device := fun _ => none
  written := fun _ _ => none

structure Consistent (s : State) : Prop where
  counters : ∀ i < m.words, ¬((s.use i).type = .atomicCnt ∧ (s.use i).nonZeroUpdate)
  returned : ∀ key behind value, mapLookupEntry m s key behind = some value →
    ∀ j < m.valueSize, ∀ b, s.written key j = some b → value j = b

end Model

variable {i : Nat} {v : Visit} {visits : Set Visit}

section Marks

variable {use use' : UseMap} {t : MapUse}

theorem markUsedOne_spec (h : markUsedOne use i t = some use') :
    use' = setUse use i { use i with type := t } ∧ ((use i).type = .unused ∨ (use i).type = t) ∧
      (t = .atomicCnt → (use i).nonZeroUpdate = false) := by
  rw [markUsedOne] at h
  split at h
  · cases h
  next hconflict =>
  split at h
  · cases h
  next hnz =>
  refine ⟨(some.inj h).symm, ?_, fun ht => ?_⟩
  · by_contra hne
    rw [not_or] at hne
    exact hconflict hne
  · by_contra hset
    exact hnz ⟨Bool.eq_true_of_not_eq_false hset, ht⟩

-- marking turns unused words into words of the given use and does nothing else
theorem markAll_spec (ht : t ≠ .unused) (is : List Nat) (use : UseMap) (i : Nat) :
    markAll t is use i = use i ∨ i ∈ is ∧ (use i).type = .unused ∧ markAll t is use i = { use i with type := t } ∧
      (t = .atomicCnt → (use i).nonZeroUpdate = false) := by
  induction is generalizing use with
  | nil => exact .inl rfl
  | cons k is ih =>
    rw [markAll]
    cases hone : markUsedOne use k t with
    | none => exact .inl rfl
    | some use' =>
      dsimp only
      obtain ⟨rfl, htype, hnz⟩ := markUsedOne_spec hone
      rcases eq_or_ne i k with rfl | hik
      · have hset : setUse use i { use i with type := t } i = { use i with type := t } := if_pos rfl
        have hrest : markAll t is (setUse use i { use i with type := t }) i = { use i with type := t } := by
          rcases ih (setUse use i { use i with type := t }) with hsame | ⟨-, hunused, -⟩
          · rw [hsame, hset]
          · rw [hset] at hunused
            exact absurd hunused ht
        rcases htype with hunused | hsame
        · exact .inr ⟨mem_cons_self .., hunused, hrest, hnz⟩
        · refine .inl ?_
          rw [hrest, ← hsame]
      · have hset : setUse use k { use k with type := t } i = use i := if_neg hik
        have := ih (setUse use k { use k with type := t })
        rw [hset] at this
        rcases this with hsame | ⟨hmem, hrest⟩
        · exact .inl hsame
        · exact .inr ⟨mem_cons_of_mem _ hmem, hrest⟩

theorem updateValueOk_spec (zero : Nat → Bool) (is : List Nat) (use : UseMap) (i : Nat) :
    updateValueOk zero is use i = use i ∨
      (use i).type ≠ .atomicCnt ∧ updateValueOk zero is use i = { use i with nonZeroUpdate := true } := by
  induction is generalizing use with
  | nil => exact .inl rfl
  | cons k is ih =>
    rw [updateValueOk]
    split_ifs with hzero hatomic
    · exact ih use
    · exact .inl rfl
    · have := ih (setUse use (k / 4) { use (k / 4) with nonZeroUpdate := true })
      by_cases hik : i = k / 4
      · subst hik
        rw [show setUse use (k / 4) { use (k / 4) with nonZeroUpdate := true } (k / 4) =
          { use (k / 4) with nonZeroUpdate := true } from if_pos rfl] at this
        exact .inr ⟨hatomic, this.elim id (·.2)⟩
      · rwa [show setUse use (k / 4) { use (k / 4) with nonZeroUpdate := true } i = use i from if_neg hik] at this

theorem byteSwapRecord_spec (m : Shape) (use : UseMap) (value : Nat → Byte) (i : Nat) :
    (byteSwapRecord m use value i).type = (use i).type ∧
      ((use i).nonZeroUpdate = true → (byteSwapRecord m use value i).nonZeroUpdate = true) ∧
      ((use i).type ≠ .unused → byteSwapRecord m use value i = use i) := by
  rw [byteSwapRecord]
  split_ifs with h
  · exact ⟨rfl, fun _ => rfl, fun hne => absurd h.2.1 hne⟩
  · exact ⟨rfl, id, fun _ => rfl⟩

end Marks

section Bytes

variable {m : Shape} {use : UseMap} {value : Nat → Byte} {j : Nat}

theorem mirror_div (m : Shape) (j : Nat) : m.mirror j / 4 = j / 4 := by
  rw [Shape.mirror]
  split_ifs
  · rfl
  · omega

theorem mirror_mirror (m : Shape) (j : Nat) : m.mirror (m.mirror j) = j := by
  rw [Shape.mirror, Shape.mirror]
  split_ifs
  · rfl
  · omega

theorem word_lt (hj : j < m.valueSize) : j / 4 < m.words := by
  rw [Shape.words]
  omega

theorem byteSwap_plain (h : (use (j / 4)).type ≠ .atomicCnt) : byteSwap m use value j = value j :=
  if_neg fun hc => h hc.2

theorem byteSwap_atomic (hj : j < m.valueSize) (h : (use (j / 4)).type = .atomicCnt) :
    byteSwap m use value j = value (m.mirror j) :=
  if_pos ⟨word_lt hj, h⟩

theorem swapNeutral_mirror (h : swapNeutral m value (j / 4) = true) : value (m.mirror j) = value j := by
  have := all_eq_true.mp h (j % 4) (mem_range.mpr (Nat.mod_lt j (by decide)))
  rw [Nat.div_add_mod] at this
  exact eq_of_beq this

end Bytes

structure Inv (m : Shape) (s : State) : Prop where
  counters : ∀ i < m.words, ¬((s.use i).type = .atomicCnt ∧ (s.use i).nonZeroUpdate)
  inside : ∀ j < m.valueSize, (s.use (j / 4)).type = .atomicCnt → m.mirror j < m.valueSize
  plain : ∀ key entry, s.device key = some entry → ∀ j < m.valueSize, ∀ b, s.written key j = some b →
    (s.use (j / 4)).type ≠ .atomicCnt → entry j = b
  swapped : ∀ key entry, s.device key = some entry → ∀ j < m.valueSize, ∀ b, s.written key j = some b →
    (s.use (j / 4)).type = .atomicCnt ∨ (s.use (j / 4)).type = .unused ∧ (s.use (j / 4)).nonZeroUpdate = false →
    entry (m.mirror j) = b

section Steps

variable {m : Shape} {s : State}

theorem Inv.consistent (h : Inv m s) : Consistent m s where
  counters := h.counters
  returned := by
    intro key behind value hlookup j hj b hb
    obtain ⟨entry, hentry, rfl⟩ := map_eq_some_iff.mp hlookup
    by_cases hatomic : (s.use (j / 4)).type = .atomicCnt
    · rw [byteSwap_atomic hj hatomic, if_pos (h.inside j hj hatomic)]
      exact h.swapped key entry hentry j hj b hb (.inl hatomic)
    · rw [byteSwap_plain hatomic, if_pos hj]
      exact h.plain key entry hentry j hj b hb hatomic

theorem inv_fresh (m : Shape) (outside : UseMap) : Inv m (fresh m outside) where
  counters := fun i hi h => by
    rw [show (fresh m outside).use i = ⟨.unused, false⟩ from if_pos hi] at h
    exact nomatch h.1
  inside := fun j hj h => by
    rw [show (fresh m outside).use (j / 4) = ⟨.unused, false⟩ from if_pos (word_lt hj)] at h
    cases h
  plain := nofun
  swapped := nofun

-- the use map only: what a visit may do to it keeps every stored byte readable
section

variable (h : Inv m s)

include h

theorem Inv.reuse {use : UseMap} (hcounters : ∀ i < m.words, ¬((use i).type = .atomicCnt ∧ (use i).nonZeroUpdate))
    (hinside : ∀ j < m.valueSize, (use (j / 4)).type = .atomicCnt → m.mirror j < m.valueSize)
    (hplain : ∀ i, (use i).type ≠ .atomicCnt → (s.use i).type ≠ .atomicCnt)
    (hswapped : ∀ i, (use i).type = .atomicCnt ∨ (use i).type = .unused ∧ (use i).nonZeroUpdate = false →
      (s.use i).type = .atomicCnt ∨ (s.use i).type = .unused ∧ (s.use i).nonZeroUpdate = false) :
    Inv m { s with use } where
  counters := hcounters
  inside := hinside
  plain := fun key entry hentry j hj b hb ht => h.plain key entry hentry j hj b hb (hplain _ ht)
  swapped := fun key entry hentry j hj b hb ht => h.swapped key entry hentry j hj b hb (hswapped _ ht)

theorem Inv.record (value : Nat → Byte) : Inv m { s with use := byteSwapRecord m s.use value } := by
  refine h.reuse ?_ ?_ ?_ ?_
  · intro i hi hc
    have hspec := byteSwapRecord_spec m s.use value i
    have hatomic : (s.use i).type = .atomicCnt := hspec.1 ▸ hc.1
    rw [hspec.2.2 (by rw [hatomic]; decide)] at hc
    exact h.counters i hi hc
  · intro j hj hatomic
    rw [(byteSwapRecord_spec m s.use value (j / 4)).1] at hatomic
    exact h.inside j hj hatomic
  · intro i hne
    rwa [(byteSwapRecord_spec m s.use value i).1] at hne
  · intro i hc
    obtain ⟨htype, hkeep, -⟩ := byteSwapRecord_spec m s.use value i
    rw [htype] at hc
    refine hc.imp_right fun ⟨hunused, hnz⟩ => ⟨hunused, ?_⟩
    by_contra hset
    rw [hkeep (Bool.eq_true_of_not_eq_false hset)] at hnz
    cases hnz

theorem Inv.visit (v : Visit)
    (hv : v.access = .atomic → ∀ j < m.valueSize, j / 4 ∈ v.words m → m.mirror j < m.valueSize) :
    Inv m { s with use := markUsed m s.use v } := by
  have hspec := markAll_spec (show v.access.use ≠ .unused by cases v.access <;> decide) (v.words m) s.use
  have huse (hatomic : v.access.use = .atomicCnt) : v.access = .atomic := by
    revert hatomic
    cases v.access <;> decide
  refine h.reuse ?_ ?_ ?_ ?_
  · intro i hi hc
    rw [markUsed] at hc
    rcases hspec i with hsame | ⟨-, -, hnew, hnz⟩
    · rw [hsame] at hc
      exact h.counters i hi hc
    · rw [hnew] at hc
      rw [hnz hc.1] at hc
      exact nomatch hc.2
  · intro j hj hatomic
    rw [markUsed] at hatomic
    rcases hspec (j / 4) with hsame | ⟨hmem, -, hnew, -⟩
    · rw [hsame] at hatomic
      exact h.inside j hj hatomic
    · rw [hnew] at hatomic
      exact hv (huse hatomic) j hj hmem
  · intro i hne
    rw [markUsed] at hne
    rcases hspec i with hsame | ⟨-, hunused, -⟩
    · rwa [hsame] at hne
    · rw [hunused]
      decide
  · intro i hc
    rw [markUsed] at hc
    rcases hspec i with hsame | ⟨-, hunused, hnew, hnz⟩
    · rwa [hsame] at hc
    rw [hnew] at hc
    rcases hc with hatomic | hstill
    · exact .inr ⟨hunused, hnz hatomic⟩
    · exact .inr ⟨hunused, hstill.2⟩

theorem Inv.valueVisit (zero : Nat → Bool) (is : List Nat) :
    Inv m { s with use := updateValueOk zero is s.use } := by
  have hspec := updateValueOk_spec zero is s.use
  have htype (i : Nat) : (updateValueOk zero is s.use i).type = (s.use i).type := by
    rcases hspec i with hsame | ⟨-, hnew⟩
    · rw [hsame]
    · rw [hnew]
  refine h.reuse ?_ ?_ ?_ ?_
  · intro i hi hc
    rcases hspec i with hsame | ⟨hne, -⟩
    · rw [hsame] at hc
      exact h.counters i hi hc
    · rw [htype] at hc
      exact hne hc.1
  · intro j hj hatomic
    rw [htype] at hatomic
    exact h.inside j hj hatomic
  · intro i hne
    rwa [htype] at hne
  · intro i hc
    rw [htype] at hc
    refine hc.imp_right fun ⟨hunused, hnz⟩ => ⟨hunused, ?_⟩
    rcases hspec i with hsame | ⟨-, hnew⟩
    · rwa [hsame] at hnz
    · rw [hnew] at hnz
      cases hnz

theorem Inv.update (key : Key) (value : Nat → Byte) (accepted : Bool) :
    Inv m (mapUpdateEntry m s key value accepted) := by
  have hrec := h.record (byteSwap m s.use value)
  rw [mapUpdateEntry]
  split_ifs
  · refine ⟨hrec.counters, hrec.inside, ?_, ?_⟩
    · intro k entry hentry j hj b hb hne
      dsimp only at hentry hb hne
      split_ifs at hentry hb with hk
      · rw [← some.inj hentry, ← some.inj hb]
        rw [(byteSwapRecord_spec ..).1] at hne
        exact byteSwap_plain hne
      · exact hrec.plain k entry hentry j hj b hb hne
    · intro k entry hentry j hj b hb hc
      dsimp only at hentry hb hc
      split_ifs at hentry hb with hk
      · rw [← some.inj hentry, ← some.inj hb]
        rcases hc with hatomic | ⟨hunused, hnz⟩
        · rw [(byteSwapRecord_spec ..).1] at hatomic
          have hinside := h.inside j hj hatomic
          rw [byteSwap_atomic hinside (by rwa [mirror_div]), mirror_mirror]
        have htype : (s.use (j / 4)).type = .unused := by rwa [(byteSwapRecord_spec ..).1] at hunused
        have hneutral : swapNeutral m (byteSwap m s.use value) (j / 4) = true := by
          by_contra hne
          rw [byteSwapRecord, if_pos ⟨word_lt hj, htype, Bool.eq_false_iff.mpr hne⟩] at hnz
          cases hnz
        rw [swapNeutral_mirror hneutral, byteSwap_plain (by rw [htype]; decide)]
      · exact hrec.swapped k entry hentry j hj b hb hc
  · exact hrec

theorem Inv.datapath (key : Key) (value : Nat → Byte) (touched : Nat → Bool) :
    Inv m (datapath s key value touched) := by
  rw [Endian.datapath]
  split
  · refine ⟨h.counters, h.inside, ?_, ?_⟩
    · intro k entry hentry j hj b hb
      dsimp only at hentry hb
      split_ifs at hentry hb
      exact h.plain k entry hentry j hj b hb
    · intro k entry hentry j hj b hb
      dsimp only at hentry hb
      split_ifs at hentry hb
      exact h.swapped k entry hentry j hj b hb
  next old hold =>
  refine ⟨h.counters, h.inside, ?_, ?_⟩
  · intro k entry hentry j hj b hb hne
    dsimp only at hentry hb
    split_ifs at hb with ht
    rcases eq_or_ne k key with rfl | hk
    · rw [if_pos rfl] at hentry
      rw [← some.inj hentry]
      dsimp only
      rw [if_neg fun htouched => ht ⟨rfl, htouched⟩]
      exact h.plain k old hold j hj b hb hne
    · rw [if_neg hk] at hentry
      exact h.plain k entry hentry j hj b hb hne
  · intro k entry hentry j hj b hb hc
    dsimp only at hentry hb
    split_ifs at hb with ht
    rcases eq_or_ne k key with rfl | hk
    · rw [if_pos rfl] at hentry
      rw [← some.inj hentry]
      dsimp only
      rw [mirror_div, if_neg fun htouched => ht ⟨rfl, htouched⟩]
      exact h.swapped k old hold j hj b hb hc
    · rw [if_neg hk] at hentry
      exact h.swapped k entry hentry j hj b hb hc

theorem Inv.delete (key : Key) :
    Inv m { s with
      device := fun k => if k = key then none else s.device k
      written := fun k j => if k = key then none else s.written k j } := by
  refine ⟨h.counters, h.inside, ?_, ?_⟩
  · intro k entry hentry j hj b hb
    dsimp only at hentry hb
    split_ifs at hentry hb
    exact h.plain k entry hentry j hj b hb
  · intro k entry hentry j hj b hb
    dsimp only at hentry hb
    split_ifs at hentry hb
    exact h.swapped k entry hentry j hj b hb

end

end Steps

section Exact

variable {m : Shape}

def PartialKept (m : Shape) (visits : Set Visit) : Prop :=
  m.bigEndian = true ∨ m.valueSize % 4 = 0 ∨ ∀ v ∈ visits, v.access = .atomic → m.valueSize / 4 ∉ v.words m

theorem PartialKept.mirror_lt (h : PartialKept m visits) (hv : v ∈ visits) (hatomic : v.access = .atomic) {j : Nat}
    (hj : j < m.valueSize) (hmem : j / 4 ∈ v.words m) : m.mirror j < m.valueSize := by
  rw [Shape.mirror]
  split_ifs with hbig
  · exact hj
  rcases h with hbig' | hwhole | hvisits
  · exact absurd hbig' hbig
  · omega
  · have hne : j / 4 ≠ m.valueSize / 4 := fun heq => hvisits v hv hatomic (heq ▸ hmem)
    omega

theorem inv_step (h : PartialKept m visits) (s : State) (e : Event) (s' : State) (hs : Inv m s)
    (he : ∀ v, e = .visit v → v ∈ visits) (hstep : step m s e = some s') : Inv m s' := by
  cases e with
  | update key value accepted => exact some.inj hstep ▸ hs.update key value accepted
  | lookup key => exact some.inj hstep ▸ hs
  | visit v => exact some.inj hstep ▸ hs.visit v fun hatomic _ hj hmem => h.mirror_lt (he v rfl) hatomic hj hmem
  | valueVisit zero => exact some.inj hstep ▸ hs.valueVisit zero _
  | datapath key value touched => exact some.inj hstep ▸ hs.datapath key value touched
  | delete key => exact some.inj hstep ▸ hs.delete key

theorem guarded_visits {events : List Event} (h : ∀ v, Event.visit v ∈ events → v ∈ visits) (s : State) :
    Runs.Guarded (step m) (fun _ e => ∀ v, e = .visit v → v ∈ visits) s events := by
  induction events generalizing s with
  | nil => trivial
  | cons e events ih =>
    exact ⟨fun v hv => h v (hv ▸ mem_cons_self ..), fun s' _ => ih (fun v hv => h v (mem_cons_of_mem _ hv)) s'⟩

theorem markAll_marks {t : MapUse} (ht : t ≠ .unused) (is : List Nat) (use : UseMap)
    (h : ∀ i, (use i).nonZeroUpdate = false ∧ ((use i).type = .unused ∨ (use i).type = t)) (hi : i ∈ is) :
    (markAll t is use i).type = t := by
  induction is generalizing use with
  | nil => cases hi
  | cons k is ih =>
    have hone : markUsedOne use k t = some (setUse use k { use k with type := t }) := by
      rw [markUsedOne, if_neg fun hc => (h k).2.elim hc.1 hc.2, if_neg fun hc => ?_]
      rw [(h k).1] at hc
      exact nomatch hc.1
    rw [markAll, hone]
    dsimp only
    have hset (j : Nat) : (setUse use k { use k with type := t } j).nonZeroUpdate = false ∧
        ((setUse use k { use k with type := t } j).type = .unused ∨
          (setUse use k { use k with type := t } j).type = t) := by
      rw [setUse]
      split_ifs
      · exact ⟨(h k).1, .inr rfl⟩
      · exact h j
    rcases mem_cons.mp hi with rfl | hmem
    · rcases markAll_spec ht is (setUse use i { use i with type := t }) i with hsame | ⟨-, -, hnew, -⟩
      · rw [hsame, setUse, if_pos rfl]
      · rw [hnew]
    · exact ih _ hset hmem

theorem atomic_partial_lost (hlittle : m.bigEndian = false) (hpart : m.valueSize % 4 ≠ 0)
    (hatomic : v.access = .atomic) (hmem : m.valueSize / 4 ∈ v.words m) :
    ¬Runs.Always (step m) (Consistent m) 
      (fresh m fun _ => ⟨.unused, false⟩) [.visit v, .update [] (fun _ => 0) true] := by
  intro h
  have hfirst : m.valueSize / 4 * 4 / 4 = m.valueSize / 4 := Nat.mul_div_cancel _ (by decide)
  have hlt : m.valueSize / 4 * 4 < m.valueSize := by omega
  have hbehind : ¬m.mirror (m.valueSize / 4 * 4) < m.valueSize := by
    rw [Shape.mirror, hlittle]
    simp only [Bool.false_eq_true, if_false]
    omega
  obtain ⟨use, huse⟩ := @exists_eq' _ (markUsed m (fresh m fun _ => ⟨.unused, false⟩).use v)
  have hmark : (use (m.valueSize / 4)).type = .atomicCnt := by
    rw [← huse, markUsed, hatomic]
    refine markAll_marks (by decide) _ _ (fun i => ?_) hmem
    rw [show (fresh m fun _ => ⟨.unused, false⟩).use i = ⟨.unused, false⟩ from ite_self _]
    exact ⟨rfl, .inl rfl⟩
  have hlast := (h.2 _ rfl).2 _ rfl
  have hret := hlast.returned [] (fun _ => 1) _ rfl (m.valueSize / 4 * 4) hlt 0 rfl
  have htype : (byteSwapRecord m use (byteSwap m use fun _ => 0) (m.valueSize / 4 * 4 / 4)).type = .atomicCnt := by
    rw [(byteSwapRecord_spec ..).1, hfirst]
    exact hmark
  have hread : byteSwap m (byteSwapRecord m use (byteSwap m use fun _ => 0))
      (fun j => if j < m.valueSize then byteSwap m use (fun _ => 0) j else 1) (m.valueSize / 4 * 4) = 0 := huse ▸ hret
  rw [byteSwap_atomic hlt htype, if_neg hbehind] at hread
  cases hread

end Exact

theorem endian_consistent_iff (m : Shape) (visits : Set Visit) :
    (∀ (outside : UseMap) (events : List Event), (∀ v, Event.visit v ∈ events → v ∈ visits) →
        Runs.Always (step m) (Consistent m) (fresh m outside) events) ↔ PartialKept m visits := by
  constructor
  · intro h
    by_contra hkept
    rw [PartialKept, not_or, not_or] at hkept
    obtain ⟨hbig, hpart, hvisits⟩ := hkept
    push Not at hvisits
    obtain ⟨v, hv, hatomic, hmem⟩ := hvisits
    refine atomic_partial_lost (Bool.eq_false_iff.mpr hbig) hpart hatomic hmem (h _ _ fun w hw => ?_)
    rcases mem_cons.mp hw with hw | hw
    · exact Event.visit.inj hw ▸ hv
    · exact nomatch mem_singleton.mp hw
  · intro h outside events hevents
    exact Runs.always_of_guarded (inv_step h) (fun _ hs =>
      hs.consistent) (inv_fresh m outside) (guarded_visits hevents _)

def sixBytes : Shape := ⟨6, false, by decide⟩

def crossing : Visit := ⟨.atomic, 2, 4⟩

theorem crossing_counter_lost :
    (crossing.words sixBytes = [0, 1]) ∧
      ((Runs.run (step sixBytes) (fresh sixBytes fun _ => ⟨.unused, false⟩)
          [.visit crossing, .update [] (fun j => BitVec.ofNat 8 (j + 1)) true]).bind fun s =>
        (mapLookupEntry sixBytes s [] fun _ => 0).map fun value =>
          (List.range 6).map value) = some [1, 2, 3, 4, 0, 0] := by
  decide

end NfpDriver.Endian
