import Mathlib.Data.List.Nodup
import Mathlib.Data.List.Pairwise
import NfpDriver.Library.Runs
import NfpDriver.Verifier.Goto

namespace NfpDriver.Verifier

open Bpf Runs BitVec List

abbrev einval : Int := -22

def removed (m : Meta) : Bool := m.hasFlag flagInsnSkipVerifierOpt

def removeLoop (cnt i : BitVec 32) : List Meta → Int × List Meta
  | [] => if i < cnt then (einval, []) else (0, [])
  | m :: ms =>
    if i < cnt then
      let i := if removed m then i - 1 else i
      let r := removeLoop cnt (i + 1) ms
      (r.1, m.addFlag flagInsnSkipVerifierOpt :: r.2)
    else (0, m :: ms)

structure St where
  metas : List Meta
  verifierMeta : Nat
  origIdx : List Nat
  ret : Int

structure Call where
  off : Nat
  cnt : Nat

def nfpBpfOptRemoveInsns (st : St) (c : Call) : St :=
  let p := nfpBpfGotoMeta st.metas st.verifierMeta (BitVec.ofNat 32 (st.origIdx.getD c.off 0))
  let r := removeLoop (BitVec.ofNat 32 c.cnt) 0 (st.metas.drop p)
  { st with metas := st.metas.take p ++ r.2, ret := r.1 }

def step (st : St) (c : Call) : Option St :=
  if c.off < st.origIdx.length ∧ c.off + c.cnt ≤ st.origIdx.length then
    some { nfpBpfOptRemoveInsns st c with origIdx := st.origIdx.take c.off ++ st.origIdx.drop (c.off + c.cnt) }
  else none

def nfpProgPrepare (i : Nat) : List Insn → List Meta
  | [] => []
  | insn :: prog =>
    let m := Meta.zero insn (i % 2 ^ 16)
    (if isMbpfAlu m then { m with uminSrc := BitVec.allOnes 64, uminDst := BitVec.allOnes 64 } else m) ::
      nfpProgPrepare (i + 1) prog

def verified (prog : List Insn) (p : Nat) : St := ⟨nfpProgPrepare 0 prog, p, List.range prog.length, 0⟩

def liveFrom (k : Nat) : List Meta → List Nat
  | [] => []
  | m :: ms => if removed m then liveFrom (k + 1) ms else k :: liveFrom (k + 1) ms

structure Tracks (st : St) : Prop where
  live : liveFrom 0 st.metas = st.origIdx
  ret : st.ret = 0

structure Fresh (st : St) : Prop where
  length : st.metas.length < 2 ^ 31
  verifierMeta : st.verifierMeta < st.metas.length
  n : ∀ k < st.metas.length, (metaAt st.metas k).n = k % 2 ^ 16
  tracks : Tracks st

def Reached (st : St) (c : Call) : Prop :=
  let idx := st.origIdx.getD c.off 0
  let n := st.verifierMeta % 2 ^ 16
  c.cnt = 0 ∨ st.verifierMeta < 2 ^ 16 ∨ min idx (st.metas.length - 1 - idx) < distance n idx ∨
    n ≤ idx ∧ st.metas.length < st.verifierMeta + (idx - n) ∧
      ∀ k, st.verifierMeta + (idx - n) - (st.metas.length + 1) ≤ k → k < idx → removed (metaAt st.metas k) = true

theorem liveFrom_append (k : Nat) (l r : List Meta) :
    liveFrom k (l ++ r) = liveFrom k l ++ liveFrom (k + l.length) r := by
  induction l generalizing k with
  | nil => rfl
  | cons m l ih =>
    simp only [List.cons_append, liveFrom, ih, List.length_cons]
    rw [show k + 1 + l.length = k + (l.length + 1) by omega]
    split <;> rfl

variable {k cnt off idx p len : Nat} {l : List Meta} {prog : List Insn}

theorem le_of_mem_liveFrom {j : Nat} (h : j ∈ liveFrom k l) : k ≤ j ∧ j < k + l.length := by
  induction l generalizing k with
  | nil => exact absurd h (not_mem_nil)
  | cons m l ih =>
    rw [liveFrom] at h
    have hlen : (m :: l).length = l.length + 1 := rfl
    split at h
    · have := ih h
      omega
    rcases mem_cons.mp h with rfl | h
    · omega
    · have := ih h
      omega

theorem liveFrom_length_le (k : Nat) (l : List Meta) : (liveFrom k l).length ≤ l.length := by
  induction l generalizing k with
  | nil => exact le_rfl
  | cons m l ih =>
    have := ih (k + 1)
    rw [liveFrom, List.length_cons]
    split
    · omega
    · rw [List.length_cons]
      omega

theorem liveFrom_sorted (k : Nat) (l : List Meta) : (liveFrom k l).Pairwise (· < ·) := by
  induction l generalizing k with
  | nil => exact .nil
  | cons m l ih =>
    rw [liveFrom]
    split
    · exact ih (k + 1)
    · exact .cons (fun j hj => (le_of_mem_liveFrom hj).1) (ih (k + 1))

theorem liveFrom_nodup (k : Nat) (l : List Meta) : (liveFrom k l).Nodup :=
  (liveFrom_sorted k l).imp fun h => ne_of_lt h

theorem liveFrom_eq_nil : liveFrom k l = [] ↔ ∀ m ∈ l, removed m = true := by
  induction l generalizing k with
  | nil => simp [liveFrom]
  | cons m l ih =>
    rw [liveFrom]
    split
    · next h => simp [ih, h]
    · next h => simp [h]

theorem removed_addFlag (m : Meta) : removed (m.addFlag flagInsnSkipVerifierOpt) = true :=
  m.hasFlag_addFlag (by decide)

section Loop

theorem removeLoop_length (cnt i : BitVec 32) (ms : List Meta) : (removeLoop cnt i ms).2.length = ms.length := by
  induction ms generalizing i with
  | nil =>
    rw [removeLoop]
    split <;> rfl
  | cons m ms ih =>
    rw [removeLoop]
    split
    · exact congrArg (· + 1) (ih _)
    · rfl

theorem removeLoop_n (cnt i : BitVec 32) (ms : List Meta) (k : Nat) :
    (metaAt (removeLoop cnt i ms).2 k).n = (metaAt ms k).n := by
  induction ms generalizing i k with
  | nil =>
    rw [removeLoop]
    split <;> rfl
  | cons m ms ih =>
    rw [removeLoop]
    split
    · cases k with
      | zero => rfl
      | succ k => exact ih _ k
    · rfl

theorem metaAt_append (l r : List Meta) (k : Nat) :
    metaAt (l ++ r) k = if k < l.length then metaAt l k else metaAt r (k - l.length) := by
  simp only [metaAt, List.getD_eq_getElem?_getD, List.getElem?_append]
  split <;> rfl

theorem spliced_n (cnt : BitVec 32) (metas : List Meta) (p k : Nat) :
    (metaAt (metas.take p ++ (removeLoop cnt 0 (metas.drop p)).2) k).n = (metaAt metas k).n := by
  conv_rhs => rw [← take_append_drop p metas]
  rw [metaAt_append, metaAt_append]
  split
  · rfl
  · exact removeLoop_n _ _ _ _

theorem removeLoop_spec (cnt : BitVec 32) {i : BitVec 32} (ms : List Meta) (hi : i.toNat ≤ cnt.toNat) (k : Nat) :
    ((removeLoop cnt i ms).1 = 0 ↔ cnt.toNat - i.toNat ≤ (liveFrom k ms).length) ∧
      ((removeLoop cnt i ms).1 = 0 →
        liveFrom k (removeLoop cnt i ms).2 = (liveFrom k ms).drop (cnt.toNat - i.toNat)) := by
  induction ms generalizing i k with
  | nil =>
    rw [removeLoop]
    split
    · next h =>
      rw [lt_def] at h
      refine ⟨⟨fun h => absurd h (by decide), fun hc => ?_⟩, fun _ => by simp [liveFrom]⟩
      rw [liveFrom, length_nil] at hc
      omega
    · next h =>
      rw [lt_def] at h
      exact ⟨⟨fun _ => by omega, fun _ => rfl⟩, fun _ => by simp [liveFrom]⟩
  | cons m ms ih =>
    rw [removeLoop]
    split
    · next h =>
      rw [lt_def] at h
      simp only [liveFrom, removed_addFlag, if_true]
      split
      · rw [BitVec.sub_add_cancel]
        exact ih hi (k + 1)
      have hs : (i + 1).toNat = i.toNat + 1 := by
        rw [toNat_add, show (1 : BitVec 32).toNat = 1 from rfl, Nat.mod_eq_of_lt (by omega)]
      obtain ⟨h1, h2⟩ := ih (i := i + 1) (by omega) (k + 1)
      rw [hs] at h1 h2
      rw [show cnt.toNat - i.toNat = cnt.toNat - (i.toNat + 1) + 1 by omega, List.length_cons, drop_succ_cons]
      exact ⟨h1.trans (by omega), h2⟩
    · next h =>
      rw [lt_def] at h
      rw [show cnt.toNat - i.toNat = 0 by omega]
      exact ⟨⟨fun _ => Nat.zero_le _, fun _ => rfl⟩, fun _ => rfl⟩

end Loop

theorem splice_eq_iff {α : Type} {A B : List α} (hnd : (A ++ B).Nodup) (hcnt : 0 < cnt)
    (hlen : off + cnt ≤ (A ++ B).length) :
    A ++ B.drop cnt = (A ++ B).take off ++ (A ++ B).drop (off + cnt) ↔ A.length = off := by
  constructor
  · intro h
    have hA : A.length ≤ (A ++ B).length := by simp
    rcases Nat.lt_trichotomy A.length off with hlt | heq | hgt
    · have hget : (A ++ B.drop cnt)[A.length]? = ((A ++ B).take off ++ (A ++ B).drop (off + cnt))[A.length]? := by
        rw [h]
      simp only [List.getElem?_append_right (Nat.le_refl A.length), Nat.sub_self, List.getElem?_drop, add_zero] at hget
      rw [List.getElem?_append_left (by rw [length_take]; omega), List.getElem?_take_of_lt hlt] at hget
      have hB : B[cnt]? = (A ++ B)[A.length + cnt]? := by
        rw [List.getElem?_append_right (by omega), Nat.add_sub_cancel_left]
      have := (List.getElem?_inj (by omega) hnd).mp (hget.symm.trans hB)
      omega
    · exact heq
    · have hget : (A ++ B.drop cnt)[off]? = ((A ++ B).take off ++ (A ++ B).drop (off + cnt))[off]? := by rw [h]
      rw [List.getElem?_append_left hgt, List.getElem?_append_right (by rw [length_take]; omega), length_take,
        min_eq_left (by omega), Nat.sub_self, List.getElem?_drop, add_zero] at hget
      have hB : A[off]? = (A ++ B)[off]? := (List.getElem?_append_left hgt).symm
      have := (List.getElem?_inj (by omega) hnd).mp (hB.symm.trans hget)
      omega
  · rintro rfl
    rw [take_left, drop_append]
    simp

section Call

variable {metas : List Meta} {off : Nat}

theorem metaAt_eq (h : k < metas.length) : metaAt metas k = metas[k] := by
  rw [metaAt, List.getD_eq_getElem?_getD, List.getElem?_eq_getElem h]
  rfl

theorem split_at (h : k < metas.length) : metas = metas.take k ++ metaAt metas k :: metas.drop (k + 1) := by
  rw [metaAt_eq h, ← drop_eq_getElem_cons h, take_append_drop]

theorem live_at (h : (liveFrom 0 metas)[off]? = some idx) :
    idx < metas.length ∧ removed (metaAt metas idx) = false ∧ (liveFrom 0 (metas.take idx)).length = off := by
  have hmem := mem_of_getElem? h
  have hidx : idx < metas.length := by
    have := (le_of_mem_liveFrom hmem).2
    omega
  have hsplit : liveFrom 0 metas =
      liveFrom 0 (metas.take idx) ++ liveFrom idx (metaAt metas idx :: metas.drop (idx + 1)) := by
    conv_lhs => rw [split_at hidx, liveFrom_append, length_take, min_eq_left (by omega), zero_add]
  have hm : removed (metaAt metas idx) = false := by
    rw [← Bool.not_eq_true]
    intro hr
    rw [hsplit, liveFrom, if_pos hr] at hmem
    rcases mem_append.mp hmem with hmem | hmem
    · have := (le_of_mem_liveFrom hmem).2
      rw [length_take] at this
      omega
    · have := (le_of_mem_liveFrom hmem).1
      omega
  refine ⟨hidx, hm, ?_⟩
  rw [liveFrom, if_neg (by rw [hm]; decide)] at hsplit
  have hget : (liveFrom 0 metas)[(liveFrom 0 (metas.take idx)).length]? = some idx := by
    rw [hsplit, List.getElem?_append_right le_rfl, Nat.sub_self]
    rfl
  exact (List.getElem?_inj (List.getElem?_eq_some_iff.mp hget).1 (liveFrom_nodup 0 metas)).mp (hget.trans h.symm)

theorem live_before_iff (h : (liveFrom 0 metas)[off]? = some idx) :
    (liveFrom 0 (metas.take p)).length = off ↔
      p ≤ idx ∧ ∀ k, p ≤ k → k < idx → removed (metaAt metas k) = true := by
  obtain ⟨hidx, hm, hoff⟩ := live_at h
  by_cases hp : p ≤ idx
  · have hsplit : metas.take idx = metas.take p ++ (metas.drop p).take (idx - p) := by
      conv_lhs => rw [show idx = p + (idx - p) by omega, take_add]
    have hlen : (liveFrom 0 (metas.take idx)).length =
        (liveFrom 0 (metas.take p)).length + (liveFrom p ((metas.drop p).take (idx - p))).length := by
      rw [hsplit, liveFrom_append, length_append, length_take, min_eq_left (by omega), zero_add]
    have hseg : (liveFrom p ((metas.drop p).take (idx - p))).length = 0 ↔
        ∀ k, p ≤ k → k < idx → removed (metaAt metas k) = true := by
      rw [length_eq_zero_iff, liveFrom_eq_nil]
      constructor
      · intro hall k hpk hk
        refine hall _ (mem_of_getElem? (i := k - p) ?_)
        rw [List.getElem?_take_of_lt (by omega), List.getElem?_drop, show p + (k - p) = k by omega,
          metaAt_eq (by omega), List.getElem?_eq_getElem]
      · intro hall m hmem
        obtain ⟨i, hi⟩ := mem_iff_getElem?.mp hmem
        rw [List.getElem?_take, List.getElem?_drop] at hi
        split at hi
        · next hlt =>
          have := hall (p + i) (by omega) (by omega)
          rwa [metaAt, List.getD_eq_getElem?_getD, hi] at this
        · cases hi
    rw [← hseg]
    exact ⟨fun h => ⟨hp, by omega⟩, fun h => by omega⟩
  · refine ⟨fun hlen => ?_, fun h => absurd h.1 hp⟩
    have hsplit : metas.take p =
        metas.take idx ++ metaAt metas idx :: (metas.drop (idx + 1)).take (p - (idx + 1)) := by
      conv_lhs => rw [split_at hidx, take_append, length_take, min_eq_left (by omega),
        take_take, min_eq_right (by omega), show p - idx = p - (idx + 1) + 1 by omega, take_succ_cons]
    rw [hsplit, liveFrom_append, liveFrom, if_neg (by rw [hm]; decide), length_append, List.length_cons] at hlen
    omega

theorem goto_reaches_iff (hlen : metas.length < 2 ^ 31) (hp : p < metas.length) (hidx : idx < metas.length)
    (hn : (metaAt metas p).n = p % 2 ^ 16) (P : Nat → Prop) :
    (nfpBpfGotoMeta metas p (BitVec.ofNat 32 idx) ≤ idx ∧
        ∀ k, nfpBpfGotoMeta metas p (BitVec.ofNat 32 idx) ≤ k → k < idx → P k) ↔
      p < 2 ^ 16 ∨ min idx (metas.length - 1 - idx) < distance (p % 2 ^ 16) idx ∨
        p % 2 ^ 16 ≤ idx ∧ metas.length < p + (idx - p % 2 ^ 16) ∧
          ∀ k, p + (idx - p % 2 ^ 16) - (metas.length + 1) ≤ k → k < idx → P k := by
  have hgoto := goto_eq (by omega) hp hidx (by omega)
  rw [hn] at hgoto
  have hexact := goto_exact_iff (by omega) hp hidx (by omega)
  rw [hn, Nat.mod_eq_iff_lt (by decide)] at hexact
  by_cases hcase : p < 2 ^ 16 ∨ min idx (metas.length - 1 - idx) < distance (p % 2 ^ 16) idx
  · rw [hexact.mpr hcase]
    exact iff_of_true ⟨le_rfl, fun k h1 h2 => by omega⟩ (hcase.imp_right .inl)
  obtain ⟨hlow, hrestart⟩ := not_or.mp hcase
  rw [if_neg hrestart] at hgoto
  simp only [hlow, hrestart, false_or]
  by_cases hle : p % 2 ^ 16 ≤ idx
  · rw [if_pos hle] at hgoto
    by_cases hwrap : metas.length < p + (idx - p % 2 ^ 16)
    · rw [Nat.mod_eq_sub_mod (by omega), Nat.mod_eq_of_lt (by omega)] at hgoto
      rw [hgoto]
      exact ⟨fun h => ⟨hle, hwrap, h.2⟩, fun h => ⟨by omega, h.2.2⟩⟩
    · rw [Nat.mod_eq_of_lt (by omega)] at hgoto
      rw [hgoto]
      exact iff_of_false (fun h => by omega) (fun h => hwrap h.2.1)
  · rw [if_neg hle] at hgoto
    rw [hgoto]
    exact iff_of_false (fun h => by omega) (fun h => hle h.1)

end Call

section Run

variable {st st' : St} {c : Call}

theorem step_some (h : c.off < st.origIdx.length ∧ c.off + c.cnt ≤ st.origIdx.length) :
    step st c = some { nfpBpfOptRemoveInsns st c with
      origIdx := st.origIdx.take c.off ++ st.origIdx.drop (c.off + c.cnt) } := if_pos h

theorem step_eq (h : step st c = some st') :
    (c.off < st.origIdx.length ∧ c.off + c.cnt ≤ st.origIdx.length) ∧
      st' = { nfpBpfOptRemoveInsns st c with origIdx := st.origIdx.take c.off ++ st.origIdx.drop (c.off + c.cnt) } := by
  obtain ⟨hc, hs⟩ := Option.ite_none_right_eq_some.mp h
  cases hs
  exact ⟨hc, rfl⟩

theorem remove_tracks_iff (p : Nat) (metas : List Meta) (hcnt : off + cnt ≤ (liveFrom 0 metas).length)
    (hlen : metas.length < 2 ^ 31) :
    ((removeLoop (BitVec.ofNat 32 cnt) 0 (metas.drop p)).1 = 0 ∧
      liveFrom 0 (metas.take p ++ (removeLoop (BitVec.ofNat 32 cnt) 0 (metas.drop p)).2) =
        (liveFrom 0 metas).take off ++ (liveFrom 0 metas).drop (off + cnt)) ↔
      cnt = 0 ∨ (liveFrom 0 (metas.take p)).length = off := by
  have hle := liveFrom_length_le 0 metas
  have hnat : (BitVec.ofNat 32 cnt).toNat = cnt := by
    rw [toNat_ofNat, Nat.mod_eq_of_lt (by omega)]
  have hsplit : liveFrom 0 metas =
      liveFrom 0 (metas.take p) ++ liveFrom (0 + (metas.take p).length) (metas.drop p) := by
    rw [← liveFrom_append, take_append_drop]
  obtain ⟨hret, hlive⟩ := removeLoop_spec (BitVec.ofNat 32 cnt) (i := 0) (metas.drop p) (Nat.zero_le _)
    (0 + (metas.take p).length)
  rw [hnat, show (0 : BitVec 32).toNat = 0 from rfl, Nat.sub_zero] at hret hlive
  rw [liveFrom_append]
  generalize hA : liveFrom 0 (metas.take p) = A at *
  generalize hB : liveFrom (0 + (metas.take p).length) (metas.drop p) = B at *
  have hlength : (liveFrom 0 metas).length = A.length + B.length := by rw [hsplit, length_append]
  have hnd := liveFrom_nodup 0 metas
  rw [hsplit] at hnd ⊢
  rcases Nat.eq_zero_or_pos cnt with rfl | hpos
  · refine iff_of_true ⟨hret.mpr (Nat.zero_le _), ?_⟩ (.inl rfl)
    rw [hlive (hret.mpr (Nat.zero_le _)), drop_zero, add_zero, take_append_drop]
  have hspl := splice_eq_iff hnd hpos (by rw [length_append]; omega : off + cnt ≤ (A ++ B).length)
  constructor
  · rintro ⟨h0, h⟩
    rw [hlive h0] at h
    exact .inr (hspl.mp h)
  · rintro (h | h)
    · omega
    · have h0 := hret.mpr (by omega)
      rw [hlive h0]
      exact ⟨h0, hspl.mpr h⟩

theorem Fresh.tracks_iff (hf : Fresh st) (h : step st c = some st') : Tracks st' ↔ Reached st c := by
  obtain ⟨⟨hoff, hcnt⟩, rfl⟩ := step_eq h
  have hidx : (liveFrom 0 st.metas)[c.off]? = some (st.origIdx.getD c.off 0) := by
    rw [hf.tracks.live, List.getD_eq_getElem?_getD, List.getElem?_eq_getElem hoff]
    rfl
  have hreach := goto_reaches_iff hf.length hf.verifierMeta (live_at hidx).1 (hf.n _ hf.verifierMeta)
    (fun k => removed (metaAt st.metas k) = true)
  rw [← live_before_iff hidx] at hreach
  have hiff := remove_tracks_iff
    (nfpBpfGotoMeta st.metas st.verifierMeta (BitVec.ofNat 32 (st.origIdx.getD c.off 0))) st.metas
    (hf.tracks.live ▸ hcnt) hf.length
  rw [hreach, hf.tracks.live] at hiff
  refine Iff.trans ?_ hiff
  constructor
  · rintro ⟨hlive, hret⟩
    exact ⟨hret, hlive⟩
  · rintro ⟨hret, hlive⟩
    exact ⟨hlive, hret⟩

theorem Fresh.next (hf : Fresh st) (h : step st c = some st') (ht : Tracks st') : Fresh st' := by
  obtain ⟨-, rfl⟩ := step_eq h
  have hlen : (nfpBpfOptRemoveInsns st c).metas.length = st.metas.length := by
    rw [nfpBpfOptRemoveInsns, length_append, removeLoop_length, ← length_append, take_append_drop]
  have hn (k : Nat) : (metaAt (nfpBpfOptRemoveInsns st c).metas k).n = (metaAt st.metas k).n := spliced_n _ st.metas _ k
  constructor
  · exact hlen ▸ hf.length
  · exact Nat.lt_of_lt_of_eq hf.verifierMeta hlen.symm
  · exact fun k hk => (hn k).trans (hf.n k (Nat.lt_of_lt_of_eq hk hlen))
  · exact ht

end Run

theorem remove_insns_tracks_iff {st t : St} (hf : Fresh st) (calls : List Call) (hr : run step st calls = some t) :
    Always step Tracks st calls ↔ Guarded step Reached st calls :=
  always_iff_guarded (fun _ hf => hf.tracks) (fun _ _ _ hf h => hf.tracks_iff h) (fun _ _ _ hf h ht =>
    hf.next h ht) hf hr

section Prepare

theorem nfpProgPrepare_length (i : Nat) (prog : List Insn) : (nfpProgPrepare i prog).length = prog.length := by
  induction prog generalizing i with
  | nil => rfl
  | cons insn prog ih => exact congrArg (· + 1) (ih (i + 1))

theorem nfpProgPrepare_n {i : Nat} (hk : k < prog.length) :
    (metaAt (nfpProgPrepare i prog) k).n = (i + k) % 2 ^ 16 := by
  induction prog generalizing i k with
  | nil => cases hk
  | cons insn prog ih =>
    cases k with
    | zero =>
      simp only [metaAt, nfpProgPrepare, getD_cons_zero]
      split <;> rfl
    | succ k =>
      refine (ih (i := i + 1) (Nat.lt_of_succ_lt_succ hk)).trans ?_
      rw [show i + 1 + k = i + (k + 1) by omega]

theorem nfpProgPrepare_live (i k : Nat) (prog : List Insn) :
    liveFrom k (nfpProgPrepare i prog) = List.range' k prog.length := by
  induction prog generalizing i k with
  | nil => rfl
  | cons insn prog ih =>
    have hm {m : Meta} (h : m.flags = 0) : ¬removed m = true := by
      rw [removed, Meta.hasFlag, h]
      decide
    rw [nfpProgPrepare, liveFrom, if_neg (hm (by split <;> rfl)), ih, List.length_cons, range'_succ]

theorem verified_fresh (hlen : prog.length < 2 ^ 31) (hp : p < prog.length) : Fresh (verified prog p) where
  length := (nfpProgPrepare_length 0 prog).symm ▸ hlen
  verifierMeta := (nfpProgPrepare_length 0 prog).symm ▸ hp
  n k hk := by
    rw [verified, nfpProgPrepare_n (nfpProgPrepare_length 0 prog ▸ hk), zero_add]
  tracks := ⟨(nfpProgPrepare_live 0 0 prog).trans range_eq_range'.symm, rfl⟩

end Prepare

def exitInsn : Insn := ⟨bpfJmp ||| bpfExit, 0, 0, 0, 0⟩

theorem twoRanges_tracked : Always step Tracks (verified (List.replicate 5 exitInsn) 0) [⟨1, 2⟩, ⟨0, 2⟩] := by
  have hf : Fresh (verified (replicate 5 exitInsn) 0) := verified_fresh (by decide) (by decide)
  refine (remove_insns_tracks_iff hf [⟨1, 2⟩, ⟨0, 2⟩] rfl).mpr
    ⟨.inr (.inl (by decide)), fun s hs => ⟨.inr (.inl ?_), fun s hs => trivial⟩⟩
  cases hs
  decide

theorem prepared_goto (hprog : prog.length = len) (hlen : len < 2 ^ 32) (hp : p < len) (hidx : idx < len) :
    nfpBpfGotoMeta (nfpProgPrepare 0 prog) p (BitVec.ofNat 32 idx) =
      if min idx (len - 1 - idx) < distance (p % 2 ^ 16) idx then idx
      else if p % 2 ^ 16 ≤ idx then (p + (idx - p % 2 ^ 16)) % (len + 1)
      else p - (p % 2 ^ 16 - idx) := by
  subst hprog
  have hn : (metaAt (nfpProgPrepare 0 prog) p).n = p % 2 ^ 16 := by
    rw [nfpProgPrepare_n hp, zero_add]
  have hpl := nfpProgPrepare_length 0 prog
  have h := goto_eq (hpl.symm ▸ hlen) (hpl.symm ▸ hp) (hpl.symm ▸ hidx) (hn ▸ Nat.mod_le _ _)
  rwa [hn, hpl] at h

theorem prepared_reached_iff (hprog : prog.length = len) (hoff : off < len) :
    Reached (verified prog p) ⟨off, cnt⟩ ↔
      cnt = 0 ∨ p < 2 ^ 16 ∨ min off (len - 1 - off) < distance (p % 2 ^ 16) off ∨
        p % 2 ^ 16 ≤ off ∧ len < p + (off - p % 2 ^ 16) ∧
          ∀ k, p + (off - p % 2 ^ 16) - (len + 1) ≤ k → k < off →
            removed (metaAt (nfpProgPrepare 0 prog) k) = true := by
  subst hprog
  have hidx : (range prog.length).getD off 0 = off := by
    rw [List.getD_eq_getElem?_getD, List.getElem?_range hoff]
    rfl
  simp only [Reached, verified, hidx, nfpProgPrepare_length]

def longProg : List Insn := List.replicate 65538 exitInsn

theorem longProg_length : longProg.length = 65538 := List.length_replicate

theorem longProg_untracked :
    nfpBpfGotoMeta (nfpProgPrepare 0 longProg) 0 65535 = 65535 ∧
      nfpBpfGotoMeta (nfpProgPrepare 0 longProg) 65535 65536 = 65536 ∧
      nfpBpfGotoMeta (nfpProgPrepare 0 longProg) 65536 1 = 65537 ∧
      ∃ st, step (verified longProg 65536) ⟨1, 1⟩ = some st ∧ ¬Tracks st := by
  refine ⟨(prepared_goto longProg_length (by decide) (by decide) (by decide)).trans (by decide),
    (prepared_goto longProg_length (by decide) (by decide) (by decide)).trans (by decide),
    (prepared_goto longProg_length (by decide) (by decide) (by decide)).trans (by decide), ?_⟩
  have hf : Fresh (verified longProg 65536) :=
    verified_fresh (by rw [longProg_length]; decide) (by rw [longProg_length]; decide)
  have hs := step_some (c := ⟨1, 1⟩) (show 1 < (verified longProg 65536).origIdx.length ∧ 1 + 1 ≤ _ by
    rw [verified, length_range, longProg_length]
    decide)
  refine ⟨_, hs, fun ht => ?_⟩
  have hr := (prepared_reached_iff longProg_length (by decide)).mp ((hf.tracks_iff hs).mp ht)
  revert hr
  decide

theorem goto_finds_iff (prog : List Insn) (p idx : Nat) (hlen : prog.length < 2 ^ 32) (hp : p < prog.length)
    (hidx : idx < prog.length) :
    Finds (nfpProgPrepare 0 prog) p idx ↔
      idx < 2 ^ 16 ∧ (p < 2 ^ 16 ∨ min idx (prog.length - 1 - idx) < distance (p % 2 ^ 16) idx) := by
  have hpl := nfpProgPrepare_length 0 prog
  have hn (k : Nat) (hk : k < prog.length) : (metaAt (nfpProgPrepare 0 prog) k).n = k % 2 ^ 16 := by
    rw [nfpProgPrepare_n hk, zero_add]
  have hle : (metaAt (nfpProgPrepare 0 prog) p).n ≤ p := hn p hp ▸ Nat.mod_le _ _
  have hexact := goto_exact_iff (hpl ▸ hlen) (hpl ▸ hp) (hpl ▸ hidx) hle
  have hcase : p < 2 ^ 16 ↔ (metaAt (nfpProgPrepare 0 prog) p).n = p := by
    rw [hn p hp, Nat.mod_eq_iff_lt (by decide)]
  rw [← hn p hp, hcase, ← hpl, ← hexact]
  constructor
  · intro h
    have hnum := (hn idx hidx).symm.trans h.number
    exact ⟨by omega, h.found⟩
  · rintro ⟨hnum, hfound⟩
    exact ⟨goto_inside (hpl ▸ hlen) (hpl ▸ hp) (hpl ▸ hidx) hle (hexact.mp hfound), hfound,
      (hn idx hidx).trans (Nat.mod_eq_of_lt hnum)⟩

theorem backward_found : Finds (nfpProgPrepare 0 (List.replicate 5 exitInsn)) 3 2 :=
  (goto_finds_iff _ 3 2 (by decide) (by decide) (by decide)).mpr (by decide)

theorem wrapped_number_misses : ¬Finds (nfpProgPrepare 0 longProg) 65536 1 := by
  intro h
  have hgoto : nfpBpfGotoMeta (nfpProgPrepare 0 longProg) 65536 1 = _ :=
    prepared_goto longProg_length (by decide) (by decide) (by decide)
  exact absurd (hgoto.symm.trans h.found) (by decide)

end NfpDriver.Verifier
