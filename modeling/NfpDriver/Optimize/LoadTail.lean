import NfpDriver.Bpf.Meta
import NfpDriver.Library.Halves

namespace NfpDriver.Optimize

open Bpf List

def expMask (past : BitVec 32) (size : BitVec 8) : BitVec 32 :=
  if size = bpfB then 0x000000ff
  else if size = bpfH then 0x0000ffff
  else if size = bpfW then 0xffffffff
  else past

def ldMaskHit (past : BitVec 32) (meta1 meta2 : Meta) : Bool :=
  let insn := meta1.insn
  let next := meta2.insn
  if bpfClass insn.code ≠ bpfLd then false
  else if bpfMode insn.code ≠ bpfAbs ∧ bpfMode insn.code ≠ bpfInd then false
  else if next.code ≠ bpfAlu64 ||| bpfAnd ||| bpfK then false
  else if expMask past (bpfSize insn.code) = 0 then false
  else if expMask past (bpfSize insn.code) ≠ next.imm then false
  else if next.srcReg ≠ 0 ∨ next.dstReg ≠ 0 then false
  else !meta2.hasFlag flagInsnIsJumpDst

def ldShiftHit (meta1 meta2 meta3 : Meta) : Bool :=
  let insn := meta1.insn
  let next1 := meta2.insn
  let next2 := meta3.insn
  if bpfClass insn.code ≠ bpfLd then false
  else if bpfMode insn.code ≠ bpfAbs ∧ bpfMode insn.code ≠ bpfInd then false
  else if bpfSize insn.code ≠ bpfW then false
  else if ¬(next1.code = bpfLsh ||| bpfK ||| bpfAlu64 ∧ next2.code = bpfRsh ||| bpfK ||| bpfAlu64) ∧
      ¬(next1.code = bpfRsh ||| bpfK ||| bpfAlu64 ∧ next2.code = bpfLsh ||| bpfK ||| bpfAlu64) then false
  else if next1.srcReg ≠ 0 ∨ next1.dstReg ≠ 0 ∨ next2.srcReg ≠ 0 ∨ next2.dstReg ≠ 0 then false
  else if next1.imm ≠ 0x20 ∨ next2.imm ≠ 0x20 then false
  else !(meta2.hasFlag flagInsnIsJumpDst || meta3.hasFlag flagInsnIsJumpDst)

def flagSkip (l : List Meta) (k : Nat) : List Meta := l.modify k (Meta.addFlag · flagInsnSkipPrecDependent)

def forEachInsnWalk (hit : List Meta → Nat → Bool) (width : Nat) (l : List Meta) : List Meta :=
  (List.range (l.length - width)).foldl
    (fun l k => if hit l k then (List.range width).foldl (fun l i => flagSkip l (k + 1 + i)) l else l) l

def nfpBpfOptLdMask (past : BitVec 32) : List Meta → List Meta :=
  forEachInsnWalk (fun l k => ldMaskHit past (metaAt l k) (metaAt l (k + 1))) 1

def nfpBpfOptLdShift : List Meta → List Meta :=
  forEachInsnWalk (fun l k => ldShiftHit (metaAt l k) (metaAt l (k + 1)) (metaAt l (k + 2))) 2

def view (m : Meta) : Insn × Bool := (m.insn, m.hasFlag flagInsnIsJumpDst)

structure Flagged (l l' : List Meta) (S : Nat → Prop) : Prop where
  length : l'.length = l.length
  view : ∀ k, view (metaAt l' k) = view (metaAt l k)
  skip : ∀ k, (metaAt l' k).hasFlag flagInsnSkipPrecDependent = true ↔
    (metaAt l k).hasFlag flagInsnSkipPrecDependent = true ∨ S k

theorem view_addFlag (m : Meta) : view (m.addFlag flagInsnSkipPrecDependent) = view m := by
  have h : (m.flags ||| flagInsnSkipPrecDependent) &&& flagInsnIsJumpDst = m.flags &&& flagInsnIsJumpDst := by
    rw [BitVec.and_comm, BitVec.and_or_distrib_left]
    simp [BitVec.and_comm]
  simp only [view, Meta.addFlag, Meta.hasFlag, h]

variable {l : List Meta}

namespace Flagged

theorem refl (l : List Meta) : Flagged l l fun _ => False :=
  ⟨rfl, fun _ => rfl, fun _ => by rw [or_false]⟩

variable {S T : Nat → Prop}

theorem trans {l₁ l₂ l₃ : List Meta} (h : Flagged l₁ l₂ S) (h' : Flagged l₂ l₃ T) : Flagged l₁ l₃ fun k => S k ∨ T k :=
  ⟨h'.length.trans h.length, fun k => (h'.view k).trans (h.view k), fun k => by rw [h'.skip, h.skip, or_assoc]⟩

theorem congr {l' : List Meta} (h : Flagged l l' S) (hst : ∀ k, S k ↔ T k) : Flagged l l' T :=
  ⟨h.length, h.view, fun k => by rw [h.skip, hst]⟩

theorem single {i : Nat} (hi : i < l.length) : Flagged l (flagSkip l i) fun k => k = i := by
  refine ⟨length_modify .., fun k => ?_, fun k => ?_⟩
  · rw [flagSkip, metaAt_modify]
    split
    · exact view_addFlag _
    · rfl
  · rw [flagSkip, metaAt_modify]
    by_cases hk : k = i
    · rw [if_pos ⟨hk, hi⟩, Meta.hasFlag_addFlag _ (by decide)]
      simp [hk]
    · rw [if_neg fun h => hk h.1]
      simp [hk]

theorem range {k w : Nat} (hw : k + w < l.length) :
    Flagged l ((List.range w).foldl (fun l i => flagSkip l (k + 1 + i)) l) fun j => k < j ∧ j ≤ k + w := by
  induction w with
  | zero => exact (refl l).congr fun j => by simp
  | succ w ih =>
    have hprev := ih (by omega)
    rw [range_succ, foldl_append]
    refine (hprev.trans (single (i := k + 1 + w) (by rw [hprev.length]; omega))).congr fun j => ?_
    omega

end Flagged

def Stable (hit : List Meta → Nat → Bool) : Prop :=
  ∀ l l', (∀ k, view (metaAt l' k) = view (metaAt l k)) → hit l' = hit l

theorem walk_flagged {hit : List Meta → Nat → Bool} (hs : Stable hit) (width : Nat) (l : List Meta) :
    Flagged l (forEachInsnWalk hit width l) fun k =>
      ∃ h, h + width < l.length ∧ hit l h = true ∧ h < k ∧ k ≤ h + width := by
  have hall : ∀ n ≤ l.length - width, Flagged l ((range n).foldl
      (fun l k => if hit l k then (range width).foldl (fun l i => flagSkip l (k + 1 + i)) l else l) l)
      fun k => ∃ h < n, hit l h = true ∧ h < k ∧ k ≤ h + width := by
    intro n hn
    induction n with
    | zero => exact (Flagged.refl l).congr fun k => by simp
    | succ n ih =>
      have hprev := ih (by omega)
      rw [range_succ, foldl_append]
      simp only [foldl_cons, foldl_nil]
      rw [hs _ _ hprev.view]
      split
      · next hit' =>
        refine (hprev.trans (Flagged.range (k := n) (by rw [hprev.length]; omega))).congr fun k => ?_
        constructor
        · rintro (⟨h, hlt, hh, hk⟩ | hk)
          · exact ⟨h, by omega, hh, hk⟩
          · exact ⟨n, by omega, hit', hk⟩
        · rintro ⟨h, hlt, hh, hk⟩
          by_cases hn' : h = n
          · exact .inr (hn' ▸ hk)
          · exact .inl ⟨h, by omega, hh, hk⟩
      · next hit' =>
        refine hprev.congr fun k => ⟨fun ⟨h, hlt, hh⟩ => ⟨h, by omega, hh⟩, fun ⟨h, hlt, hh, hk⟩ => ?_⟩
        by_cases hn' : h = n
        · exact absurd (hn' ▸ hh) hit'
        · exact ⟨h, by omega, hh, hk⟩
  refine (hall _ (le_refl _)).congr fun k => ?_
  constructor
  · rintro ⟨h, hlt, hh⟩
    exact ⟨h, by omega, hh⟩
  · rintro ⟨h, hlt, hh⟩
    exact ⟨h, by omega, hh⟩

theorem ldMask_stable (past : BitVec 32) : Stable fun l k => ldMaskHit past (metaAt l k) (metaAt l (k + 1)) := by
  intro l l' hv
  funext k
  have h1 := congrArg Prod.fst (hv k)
  have h2 := congrArg Prod.fst (hv (k + 1))
  have h3 := congrArg Prod.snd (hv (k + 1))
  simp only [view] at h1 h2 h3
  simp only [ldMaskHit, h1, h2, h3]

theorem ldShift_stable : Stable fun l k => ldShiftHit (metaAt l k) (metaAt l (k + 1)) (metaAt l (k + 2)) := by
  intro l l' hv
  funext k
  have h1 := congrArg Prod.fst (hv k)
  have h2 := congrArg Prod.fst (hv (k + 1))
  have h3 := congrArg Prod.snd (hv (k + 1))
  have h4 := congrArg Prod.fst (hv (k + 2))
  have h5 := congrArg Prod.snd (hv (k + 2))
  simp only [view] at h1 h2 h3 h4 h5
  simp only [ldShiftHit, h1, h2, h3, h4, h5]

def maskAt (past : BitVec 32) (l : List Meta) (h : Nat) : Bool :=
  h + 1 < l.length && ldMaskHit past (metaAt l h) (metaAt l (h + 1))

def shiftAt (l : List Meta) (h : Nat) : Bool :=
  h + 2 < l.length && ldShiftHit (metaAt l h) (metaAt l (h + 1)) (metaAt l (h + 2))

def removed (past : BitVec 32) (l : List Meta) : Nat → Bool
  | 0 => false
  | 1 => maskAt past l 0 || shiftAt l 0
  | k + 2 => maskAt past l (k + 1) || shiftAt l (k + 1) || shiftAt l k

theorem removed_iff {past : BitVec 32} {k : Nat} :
    removed past l k = true ↔ ∃ h, maskAt past l h = true ∧ k = h + 1 ∨ shiftAt l h = true ∧
      (k = h + 1 ∨ k = h + 2) := by
  constructor
  · intro hr
    match k, hr with
    | 1, hr =>
      simp only [removed, Bool.or_eq_true] at hr
      rcases hr with hm | hs
      · exact ⟨0, .inl ⟨hm, rfl⟩⟩
      · exact ⟨0, .inr ⟨hs, .inl rfl⟩⟩
    | k + 2, hr =>
      simp only [removed, Bool.or_eq_true] at hr
      rcases hr with (hm | hs) | hs
      · exact ⟨k + 1, .inl ⟨hm, rfl⟩⟩
      · exact ⟨k + 1, .inr ⟨hs, .inl rfl⟩⟩
      · exact ⟨k, .inr ⟨hs, .inr rfl⟩⟩
  · rintro ⟨h, ⟨hm, rfl⟩ | ⟨hs, rfl | rfl⟩⟩
    · cases h <;> simp [removed, hm]
    · cases h <;> simp [removed, hs]
    · simp [removed, hs]

theorem optimised_flag (past : BitVec 32) (l : List Meta) (k : Nat) :
    (metaAt (nfpBpfOptLdShift (nfpBpfOptLdMask past l)) k).hasFlag flagInsnSkipPrecDependent =
      ((metaAt l k).hasFlag flagInsnSkipPrecDependent || removed past l k) := by
  have hmask := walk_flagged (ldMask_stable past) 1 l
  have hshift := walk_flagged ldShift_stable 2 (nfpBpfOptLdMask past l)
  have hboth := hmask.trans hshift
  have hlen : (nfpBpfOptLdMask past l).length = l.length := hmask.length
  have hsame := ldShift_stable _ _ hmask.view
  rw [Bool.eq_iff_iff, Bool.or_eq_true, removed_iff]
  refine (hboth.skip k).trans (or_congr_right ?_)
  rw [hlen]
  change (_ ∨ ∃ h, _ ∧ (fun l k => ldShiftHit (metaAt l k) (metaAt l (k + 1)) (metaAt l (k + 2)))
    (nfpBpfOptLdMask past l) h = true ∧ _) ↔ _
  rw [show (fun l k => ldShiftHit (metaAt l k) (metaAt l (k + 1)) (metaAt l (k + 2))) (nfpBpfOptLdMask past l) =
    (fun l k => ldShiftHit (metaAt l k) (metaAt l (k + 1)) (metaAt l (k + 2))) l from hsame]
  simp only [maskAt, shiftAt, Bool.and_eq_true, decide_eq_true_eq]
  constructor
  · rintro (⟨h, hl, hh, hk⟩ | ⟨h, hl, hh, hk⟩)
    · exact ⟨h, .inl ⟨⟨hl, hh⟩, by omega⟩⟩
    · exact ⟨h, .inr ⟨⟨hl, hh⟩, by omega⟩⟩
  · rintro ⟨h, ⟨⟨hl, hh⟩, hk⟩ | ⟨⟨hl, hh⟩, hk⟩⟩
    · exact .inl ⟨h, hl, hh, by omega⟩
    · exact .inr ⟨h, hl, hh, by omega⟩

end NfpDriver.Optimize
