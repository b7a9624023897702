import NfpDriver.Library.BlockCopy

namespace BlockCopy

open List

def Rises (w : Int) (n : Nat) (f : Nat → Int) : Prop := ∀ i < n, f (i + 1) = f i + w

def Falls (w : Int) (n : Nat) (f : Nat → Int) : Prop := ∀ i < n, f (i + 1) = f i - w

def Walk (w : Int) (n : Nat) (f : Nat → Int) : Prop :=
  ∀ i < n, f (i + 1) = f i + w ∨ f (i + 1) = f i - w

def lowest (f : Nat → Int) : Nat → Int
  | 0 => f 0
  | n + 1 => min (lowest f n) (f (n + 1))

def offsets (f : Nat → Int) (n : Nat) : List Int := (List.range (n + 1)).map f

theorem mem_offsets {f : Nat → Int} {n : Nat} {e : Int} : e ∈ offsets f n ↔ ∃ i ≤ n, e = f i := by
  simp only [offsets, mem_map, mem_range, Nat.lt_succ_iff]
  exact ⟨fun ⟨i, hi, he⟩ => ⟨i, hi, he.symm⟩, fun ⟨i, hi, he⟩ => ⟨i, hi, he.symm⟩⟩

theorem offsets_succ (f : Nat → Int) (n : Nat) : offsets f (n + 1) = offsets f n ++ [f (n + 1)] := by
  simp [offsets, range_succ]

theorem lowest_mem (f : Nat → Int) (n : Nat) : ∃ i ≤ n, lowest f n = f i := by
  induction n with
  | zero => exact ⟨0, le_refl 0, rfl⟩
  | succ n ih =>
    obtain ⟨i, hi, he⟩ := ih
    rcases min_choice (lowest f n) (f (n + 1)) with h | h
    · exact ⟨i, by omega, by rw [lowest, h, he]⟩
    · exact ⟨n + 1, le_refl _, by rw [lowest, h]⟩

variable {w : Int} {n : Nat} {f : Nat → Int}

variable {i : Nat} {d s : Int}

theorem Rises.at (h : Rises w n f) (hi : i ≤ n) : f i = f 0 + (i : Int) * w := by
  induction i with
  | zero => simp
  | succ i ih =>
    rw [h i (by omega), ih (by omega)]
    push_cast
    ring

theorem Falls.at (h : Falls w n f) (hi : i ≤ n) : f i = f 0 - (i : Int) * w := by
  induction i with
  | zero => simp
  | succ i ih =>
    rw [h i (by omega), ih (by omega)]
    push_cast
    ring

theorem Rises.lowest (h : Rises w n f) (hw : 0 ≤ w) : lowest f n = f 0 := by
  induction n with
  | zero => rfl
  | succ n ih =>
    have hn : 0 ≤ ((n + 1 : Nat) : Int) * w := mul_nonneg (by omega) hw
    rw [BlockCopy.lowest, ih (fun i hi => h i (by omega)), h.at (le_refl _)]
    omega

theorem Falls.lowest (h : Falls w n f) (hw : 0 ≤ w) : lowest f n = f 0 - (n : Int) * w := by
  induction n with
  | zero => simp [BlockCopy.lowest]
  | succ n ih =>
    have hn : ((n + 1 : Nat) : Int) * w = (n : Int) * w + w := by push_cast; ring
    rw [BlockCopy.lowest, ih (fun i hi => h i (by omega)), h.at (le_refl _), hn]
    omega

theorem Rises.offsets (h : Rises w n f) : offsets f n = (ladder w (n + 1)).map (f 0 + ·) := by
  simp only [BlockCopy.offsets, ladder, map_map]
  apply map_congr_left
  intro i hi
  exact h.at (Nat.lt_succ_iff.mp (mem_range.mp hi))

theorem Falls.offsets (h : Falls w n f) : offsets f n = ((ladder w (n + 1)).map (- ·)).map (f 0 + ·) := by
  simp only [BlockCopy.offsets, ladder, map_map]
  apply map_congr_left
  intro i hi
  rw [h.at (Nat.lt_succ_iff.mp (mem_range.mp hi))]
  rfl

theorem Walk.span (h : Walk w n f) (hw : 0 ≤ w) {k : Nat} (hi : i + k ≤ n) :
    f (i + k) - f i ≤ (k : Int) * w ∧ f i - f (i + k) ≤ (k : Int) * w := by
  induction k with
  | zero => simp
  | succ k ih =>
    have hk : ((k + 1 : Nat) : Int) * w = (k : Int) * w + w := by push_cast; ring
    rw [hk, ← add_assoc]
    rcases h (i + k) (by omega) with he | he
    · omega
    · omega

theorem Walk.no_rise (h : Walk w (n + 1) f) (hw : 0 ≤ w) (hf : ¬ Rises w (n + 1) f) :
    f (n + 1) - f 0 ≤ (n : Int) * w := by
  simp only [Rises, not_forall] at hf
  obtain ⟨i, hi, hne⟩ := hf
  have hfall := (h i hi).resolve_left hne
  obtain ⟨k, rfl⟩ : ∃ k, n = i + k := ⟨n - i, by omega⟩
  have h1 := (h.span hw (show 0 + i ≤ i + k + 1 by omega)).1
  have h2 := (h.span hw (show (i + 1) + k ≤ i + k + 1 by omega)).1
  rw [zero_add] at h1
  rw [show i + 1 + k = i + k + 1 by omega] at h2
  have hsum : ((i + k : Nat) : Int) * w = (i : Int) * w + (k : Int) * w := by push_cast; ring
  omega

theorem Walk.neg (h : Walk w n f) : Walk w n (fun i => - f i) := fun i hi => by
  rcases h i hi with he | he
  · exact .inr (by simp only [he]; ring)
  · exact .inl (by simp only [he]; ring)

theorem Falls.iff_neg : Falls w n f ↔ Rises w n (fun i => - f i) := by
  simp only [Falls, Rises]
  refine forall₂_congr fun i _ => ⟨fun h => ?_, fun h => ?_⟩
  · rw [h]; ring
  · linarith

theorem Walk.turn (h : Walk w n f) (hw : 0 ≤ w) (hr : ¬ Rises w n f) (hf : ¬ Falls w n f) {j : Nat} (hi : i ≤ n)
    (hj : j ≤ n) : f i - f j + w ≤ (n : Int) * w := by
  obtain ⟨n, rfl⟩ : ∃ m, n = m + 1 := by
    cases n with
    | zero => exact absurd (fun i hi => absurd hi (by omega)) hr
    | succ m => exact ⟨m, rfl⟩
  have hn : ((n + 1 : Nat) : Int) * w = (n : Int) * w + w := by push_cast; ring
  suffices f i - f j ≤ (n : Int) * w by omega
  have hshort : ∀ k ≤ n, (k : Int) * w ≤ (n : Int) * w := fun k hk =>
    mul_le_mul_of_nonneg_right (by omega) hw
  rcases le_total j i with hji | hij
  · obtain ⟨k, rfl⟩ : ∃ k, i = j + k := ⟨i - j, by omega⟩
    have hs := (h.span hw hi).1
    by_cases hk : k ≤ n
    · have := hshort k hk
      omega
    · obtain ⟨rfl, rfl⟩ : j = 0 ∧ k = n + 1 := by omega
      rw [zero_add]
      exact h.no_rise hw hr
  · obtain ⟨k, rfl⟩ : ∃ k, j = i + k := ⟨j - i, by omega⟩
    have hs := (h.span hw hj).2
    by_cases hk : k ≤ n
    · have := hshort k hk
      omega
    obtain ⟨rfl, rfl⟩ : i = 0 ∧ k = n + 1 := by omega
    rw [zero_add]
    have := h.neg.no_rise hw (mt Falls.iff_neg.mpr hf)
    omega

theorem Walk.straight (h : Walk w n f) (hnew : ∀ i, i + 2 ≤ n → f (i + 2) ≠ f i) : Rises w n f ∨ Falls w n f := by
  rcases Nat.eq_zero_or_pos n with rfl | hn
  · exact .inl fun i hi => absurd hi (by omega)
  rcases h 0 hn with hup | hdown
  · left
    intro i hi
    induction i with
    | zero => exact hup
    | succ i ih =>
      refine (h (i + 1) hi).resolve_right fun hback => hnew i hi ?_
      rw [hback, ih (by omega)]
      omega
  · right
    intro i hi
    induction i with
    | zero => exact hdown
    | succ i ih =>
      refine (h (i + 1) hi).resolve_left fun hback => hnew i hi ?_
      rw [hback, ih (by omega)]
      omega

section Bulk

variable {R B : Type} [DecidableEq R]

variable (r q : R)

theorem copies_shift (s d w c : Int) (es : List Int) (m : Memory R B) :
    copies r q s d w (es.map (c + ·)) m = copies r q (s + c) (d + c) w es m := by
  induction es generalizing m with
  | nil => rfl
  | cons e es ih => simp only [map_cons, copies, ih, add_assoc]

def Overlaps (s d w : Int) (n : Nat) (f : Nat → Int) : Prop :=
  Rises w n f ∧ 0 < d - s ∧ d - s < ((n + 1 : Nat) : Int) * w ∨
    Falls w n f ∧ 0 < s - d ∧ s - d < ((n + 1 : Nat) : Int) * w

def BulkSafe (r q : R) (s d w : Int) (n : Nat) (f : Nat → Int) : Prop :=
  r = q ∧ s = d ∨ (Rises w n f ∨ Falls w n f) ∧ ¬ (r = q ∧ 1 ≤ n ∧ Overlaps s d w n f)

theorem blockCopy_self (s w : Int) (m : Memory R B) : blockCopy r r s s w m = m := by
  have h := copies_self r s w [0] m
  rwa [copies, copies, add_zero] at h

theorem rising_bulk (hw : 0 < w) (hr : Rises w n f) (hs : ¬ (r = q ∧ 1 ≤ n ∧ Overlaps s d w n f)) (m : Memory R B) :
    copies r q s d w (offsets f n) m =
      blockCopy r q (s + lowest f n) (d + lowest f n) (((n + 1 : Nat) : Int) * w) m := by
  rw [hr.lowest hw.le]
  rcases Nat.eq_zero_or_pos n with rfl | hn
  · simp [offsets, copies]
  rw [hr.offsets, copies_shift, ascending_bulk r q _ _ w hw.le]
  by_cases hrq : r = q
  · have hov : ¬ (0 < d - s ∧ d - s < ((n + 1 : Nat) : Int) * w) := fun ho =>
      hs ⟨hrq, hn, .inl ⟨hr, ho⟩⟩
    by_cases hd : d ≤ s
    · exact .inr (.inl (by omega))
    · exact .inr (.inr (by omega))
  · exact .inl hrq

theorem falling_bulk (hw : 0 < w) (hf : Falls w n f) (hs : ¬ (r = q ∧ 1 ≤ n ∧ Overlaps s d w n f)) (m : Memory R B) :
    copies r q s d w (offsets f n) m =
      blockCopy r q (s + lowest f n) (d + lowest f n) (((n + 1 : Nat) : Int) * w) m := by
  have hlen : ((n + 1 : Nat) : Int) * w - w = (n : Int) * w := by push_cast; ring
  rw [hf.lowest hw.le]
  rcases Nat.eq_zero_or_pos n with rfl | hn
  · simp [offsets, copies]
  rw [hf.offsets, copies_shift, descending_bulk r q _ _ w hw.le, hlen, add_sub_assoc, add_sub_assoc]
  by_cases hrq : r = q
  · have hov : ¬ (0 < s - d ∧ s - d < ((n + 1 : Nat) : Int) * w) := fun ho =>
      hs ⟨hrq, hn, .inr ⟨hf, ho⟩⟩
    by_cases hd : s ≤ d
    · exact .inr (.inl (by omega))
    · exact .inr (.inr (by omega))
  · exact .inl hrq

theorem turning_hazard (hw : 0 < w) (hk : Walk w n f) (hr : ¬ Rises w n f) (hf : ¬ Falls w n f) (hne : r ≠ q ∨ s ≠ d)
    (a b : B) (hab : a ≠ b) :
    ∃ m : Memory R B, copies r q s d w (offsets f n) m ≠
      blockCopy r q (s + lowest f n) (d + lowest f n) (((n + 1 : Nat) : Int) * w) m := by
  have hlen : ((n + 1 : Nat) : Int) * w = (n : Int) * w + w := by push_cast; ring
  have hpos : 0 ≤ (n : Int) * w := mul_nonneg (by omega) hw.le
  refine overlong_hazard r q (fun e he => ?_) (by omega) hne a b hab
  obtain ⟨i, hi, rfl⟩ := mem_offsets.mp he
  obtain ⟨j, hj, hlow⟩ := lowest_mem f n
  have ht := hk.turn hw.le hr hf hi hj
  omega

theorem overlap_hazard (hw : 0 < w) (hn : 1 ≤ n) (ho : Overlaps s d w n f) (a b : B) (hab : a ≠ b) :
    ∃ m : Memory R B, copies r r s d w (offsets f n) m ≠
      blockCopy r r (s + lowest f n) (d + lowest f n) (((n + 1 : Nat) : Int) * w) m := by
  rcases ho with ⟨hr, hl, hu⟩ | ⟨hf, hl, hu⟩
  · rw [hr.lowest hw.le, hr.offsets]
    simp only [copies_shift]
    exact ascending_hazard r hw (by omega) (by omega) (by omega) a b hab
  · have hlen : ((n + 1 : Nat) : Int) * w - w = (n : Int) * w := by push_cast; ring
    rw [hf.lowest hw.le, hf.offsets]
    simp only [copies_shift, ← hlen, ← add_sub_assoc]
    exact descending_hazard r hw (by omega) (by omega) (by omega) a b hab

theorem bulk_iff [Nontrivial B] (hw : 0 < w) (hk : Walk w n f) :
    (∀ m : Memory R B, copies r q s d w (offsets f n) m =
      blockCopy r q (s + lowest f n) (d + lowest f n) (((n + 1 : Nat) : Int) * w) m) ↔
    BulkSafe r q s d w n f := by
  obtain ⟨a, b, hab⟩ := exists_pair_ne B
  constructor
  · intro h
    by_contra hs
    simp only [BulkSafe, not_or, not_and_or, not_not] at hs
    obtain ⟨hne, hdir | hov⟩ := hs
    · obtain ⟨m, hm⟩ := turning_hazard r q hw hk hdir.1 hdir.2 hne a b hab
      exact hm (h m)
    · obtain ⟨rfl, hn, ho⟩ := hov
      obtain ⟨m, hm⟩ := overlap_hazard r hw hn ho a b hab
      exact hm (h m)
  · rintro (⟨rfl, rfl⟩ | ⟨hr | hf, hs⟩) m
    · rw [copies_self, blockCopy_self]
    · exact rising_bulk r q hw hr hs m
    · exact falling_bulk r q hw hf hs m

end Bulk

end BlockCopy
