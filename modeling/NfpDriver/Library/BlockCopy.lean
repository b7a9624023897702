import Mathlib.Tactic.Ring
import Mathlib.Tactic.Linarith
import Mathlib.Algebra.Order.Ring.Int

namespace BlockCopy

open List

variable {R B : Type} [DecidableEq R]

abbrev Memory (R B : Type) := R → Int → B

def blockCopy (r q : R) (s d w : Int) (m : Memory R B) : Memory R B :=
  fun p x => if p = q ∧ d ≤ x ∧ x < d + w then m r (s + (x - d)) else m p x

def copies (r q : R) (s d w : Int) : List Int → Memory R B → Memory R B
  | [], m => m
  | e :: es, m => copies r q s d w es (blockCopy r q (s + e) (d + e) w m)

variable (r q : R) (m : Memory R B)

theorem copies_append (s d w : Int) (es fs : List Int) (m : Memory R B) :
    copies r q s d w (es ++ fs) m = copies r q s d w fs (copies r q s d w es m) := by
  induction es generalizing m with
  | nil => rfl
  | cons e es ih => exact ih _

variable {d s w x : Int} {n : Nat}

theorem blockCopy_inside (hl : d ≤ x) (hu : x < d + w) : blockCopy r q s d w m q x = m r (s + (x - d)) := by
  simp [blockCopy, hl, hu]

theorem blockCopy_outside (p : R) (m : Memory R B) (h : p ≠ q ∨ x < d ∨ d + w ≤ x) :
    blockCopy r q s d w m p x = m p x := by
  have hn : ¬ (p = q ∧ d ≤ x ∧ x < d + w) := by
    rintro ⟨hp, hl, hu⟩
    rcases h with h | h | h
    · exact h hp
    · omega
    · omega
  simp only [blockCopy, if_neg hn]

theorem copies_outside (es : List Int) (m : Memory R B) (h : ∀ e ∈ es, x < d + e ∨ d + e + w ≤ x) :
    copies r q s d w es m q x = m q x := by
  induction es generalizing m with
  | nil => rfl
  | cons e es ih =>
    rw [copies, ih _ (fun f hf => h f (mem_cons_of_mem _ hf))]
    exact blockCopy_outside r q q m (.inr (h e (mem_cons_self ..)))

def ladder (w : Int) (n : Nat) : List Int := (List.range n).map (fun i : Nat => (i : Int) * w)

theorem ladder_succ (w : Int) (n : Nat) : ladder w (n + 1) = ladder w n ++ [(n : Int) * w] := by
  simp [ladder, range_succ]

theorem mem_ladder {e : Int} : e ∈ ladder w n ↔ ∃ i < n, e = (i : Int) * w := by
  simp only [ladder, mem_map, mem_range]
  exact ⟨fun ⟨i, hi, he⟩ => ⟨i, hi, he.symm⟩, fun ⟨i, hi, he⟩ => ⟨i, hi, he.symm⟩⟩

theorem rung_le (hw : 0 ≤ w) {i : Nat} (h : i < n) : (i : Int) * w + w ≤ (n : Int) * w := by
  have hi : (i : Int) + 1 ≤ n := by omega
  calc (i : Int) * w + w = ((i : Int) + 1) * w := by ring
    _ ≤ (n : Int) * w := mul_le_mul_of_nonneg_right hi hw

def Clear (r q : R) (s d len : Int) : Prop := r ≠ q ∨ d ≤ s ∨ s + len ≤ d

theorem ascending_bulk (s d w : Int) (hw : 0 ≤ w) (n : Nat) (m : Memory R B) (h : Clear r q s d ((n : Int) * w)) :
    copies r q s d w (ladder w n) m = blockCopy r q s d ((n : Int) * w) m := by
  induction n with
  | zero =>
    funext p x
    rw [blockCopy_outside r q p m (by omega)]
    rfl
  | succ n ih =>
    have hs : ((n + 1 : Nat) : Int) * w = (n : Int) * w + w := by push_cast; ring
    have hn : (0 : Int) ≤ (n : Int) * w := mul_nonneg (by omega) hw
    have hc : Clear r q s d ((n : Int) * w) := by
      rcases h with h | h | h
      · exact .inl h
      · exact .inr (.inl h)
      · exact .inr (.inr (by omega))
    rw [ladder_succ, copies_append, ih hc]
    funext p x
    rcases eq_or_ne p q with rfl | hp
    · by_cases hlast : d + (n : Int) * w ≤ x ∧ x < d + (n : Int) * w + w
      · rw [copies, copies, blockCopy_inside r p _ hlast.1 (by omega),
          blockCopy_inside r p m (by omega) (by omega)]
        have ha : s + (n : Int) * w + (x - (d + (n : Int) * w)) = s + (x - d) := by ring
        rw [ha]
        apply blockCopy_outside
        rcases h with h | h | h
        · exact .inl h
        · exact .inr (.inr (by omega))
        · exact .inr (.inl (by omega))
      · rw [copies, copies, blockCopy_outside r p p _ (by omega)]
        by_cases hin : d ≤ x ∧ x < d + (n : Int) * w
        · rw [blockCopy_inside r p m hin.1 hin.2, blockCopy_inside r p m hin.1 (by omega)]
        · rw [blockCopy_outside r p p m (by omega), blockCopy_outside r p p m (by omega)]
    · rw [copies, copies, blockCopy_outside r q p _ (.inl hp), blockCopy_outside r q p m (.inl hp),
        blockCopy_outside r q p m (.inl hp)]

theorem ascending_first (hw : 0 ≤ w) (n : Nat) (hn : 0 < n) (m : Memory R B) (hl : d ≤ x) (hu : x < d + w) :
    copies r r s d w (ladder w n) m r x = m r (s + (x - d)) := by
  obtain ⟨n, rfl⟩ := Nat.exists_eq_succ_of_ne_zero (Nat.pos_iff_ne_zero.mp hn)
  have hlad : ladder w (n + 1) = 0 :: (ladder w n).map (w + ·) := by
    simp only [ladder, range_succ_eq_map, map_cons, map_map]
    congr 1
    · simp
    · apply map_congr_left
      intro i _
      simp only [Function.comp_apply]
      push_cast
      ring
  rw [hlad, copies, copies_outside]
  · rw [blockCopy_inside r r m (by omega) (by omega)]
    congr 1
    ring
  · intro e he
    obtain ⟨f, hf, rfl⟩ := mem_map.mp he
    obtain ⟨i, _, rfl⟩ := mem_ladder.mp hf
    have : (0 : Int) ≤ (i : Int) * w := mul_nonneg (by omega) hw
    omega

theorem ascending_rung (hw : 0 ≤ w) (n k : Nat) (hk : k < n) (m : Memory R B) (hl : d + (k : Int) * w ≤ x)
    (hu : x < d + (k : Int) * w + w) :
    copies r r s d w (ladder w n) m r x =
      copies r r s d w (ladder w k) m r (s + (x - d)) := by
  induction n with
  | zero => omega
  | succ n ih =>
    rw [ladder_succ, copies_append]
    rcases Nat.lt_succ_iff_lt_or_eq.mp hk with hlt | rfl
    · have := rung_le hw hlt
      rw [copies, copies, blockCopy_outside r r r _ (by omega)]
      exact ih hlt
    · rw [copies, copies, blockCopy_inside r r _ hl (by omega)]
      congr 1
      ring

theorem ascending_hazard (hw : 0 < w) (hn : 2 ≤ n) (hd : 0 < d - s) (hu : d - s < (n : Int) * w) (a b : B)
    (hab : a ≠ b) :
    ∃ m : Memory R B,
      copies r r s d w (ladder w n) m ≠ blockCopy r r s d ((n : Int) * w) m := by
  have h2 : w + w ≤ (n : Int) * w := by
    have := mul_le_mul_of_nonneg_right (show (2 : Int) ≤ n by omega) hw.le
    linarith
  obtain ⟨t, ht, htd, hts, htn⟩ : ∃ t : Int, w ≤ t ∧ 0 ≤ t - (d - s) ∧ t - (d - s) < w ∧
      t < (n : Int) * w := by
    by_cases hc : d - s < w
    · exact ⟨w, by omega, by omega, by omega, by omega⟩
    · exact ⟨d - s, by omega, by omega, by omega, by omega⟩
  obtain ⟨k, hkl, hku⟩ : ∃ k : Nat, (k : Int) * w ≤ t ∧ t < (k : Int) * w + w := by
    refine ⟨(t / w).toNat, ?_, ?_⟩
    · rw [Int.toNat_of_nonneg (Int.ediv_nonneg (by omega) (by omega))]
      exact Int.ediv_mul_le t (by omega)
    · rw [Int.toNat_of_nonneg (Int.ediv_nonneg (by omega) (by omega))]
      have := Int.lt_ediv_add_one_mul_self t hw
      linarith [this]
  have hk0 : 0 < k := by
    rcases Nat.eq_zero_or_pos k with rfl | h
    · simp at hku; omega
    · exact h
  have hkn : k < n := by
    by_contra hc
    have := mul_le_mul_of_nonneg_right (show (n : Int) ≤ k by omega) hw.le
    omega
  refine ⟨fun _ x => if x = s + (t - (d - s)) then a else b, ?_⟩
  intro heq
  have hx := congrFun (congrFun heq r) (d + t)
  rw [ascending_rung r hw.le n k hkn _ (by omega) (by omega), blockCopy_inside r r _ (by omega) (by omega)] at hx
  have hread : s + (d + t - d) = d + (t - (d - s)) := by ring
  rw [hread, ascending_first r hw.le k hk0 _ (by omega) (by omega)] at hx
  have h1 : s + (d + (t - (d - s)) - d) = s + (t - (d - s)) := by ring
  rw [h1] at hx
  rw [if_pos rfl, if_neg (by omega)] at hx
  exact hab hx

def mirror (m : Memory R B) : Memory R B := fun p x => m p (-1 - x)

omit [DecidableEq R] in
theorem mirror_mirror : mirror (mirror m) = m := by
  funext p x
  simp [mirror]

theorem mirror_blockCopy (s d w : Int) (m : Memory R B) :
    mirror (blockCopy r q s d w m) = blockCopy r q (-s - w) (-d - w) w (mirror m) := by
  funext p x
  by_cases h : p = q ∧ d ≤ -1 - x ∧ -1 - x < d + w
  · obtain ⟨rfl, hl, hu⟩ := h
    rw [mirror, blockCopy_inside r p m hl hu, blockCopy_inside r p _ (by omega) (by omega), mirror]
    congr 1
    ring
  · have hn : ¬ (p = q ∧ -d - w ≤ x ∧ x < -d - w + w) := by
      rintro ⟨hp, hl, hu⟩
      exact h ⟨hp, by omega, by omega⟩
    simp only [mirror, blockCopy, if_neg h, if_neg hn]

theorem mirror_copies (s d w : Int) (es : List Int) (m : Memory R B) :
    mirror (copies r q s d w es m) =
      copies r q (-s - w) (-d - w) w (es.map (- ·)) (mirror m) := by
  induction es generalizing m with
  | nil => rfl
  | cons e es ih =>
    have hs : -(s + e) - w = -s - w + -e := by ring
    have hd : -(d + e) - w = -d - w + -e := by ring
    simp only [copies, map_cons, ih, mirror_blockCopy, hs, hd]

theorem descending_bulk (s d w : Int) (hw : 0 ≤ w) (n : Nat) (m : Memory R B)
    (h : r ≠ q ∨ s ≤ d ∨ d + (n : Int) * w ≤ s) :
    copies r q s d w ((ladder w n).map (- ·)) m =
      blockCopy r q (s - ((n : Int) * w - w)) (d - ((n : Int) * w - w)) ((n : Int) * w) m := by
  have hc : Clear r q (-s - w) (-d - w) ((n : Int) * w) := by
    rcases h with h | h | h
    · exact .inl h
    · exact .inr (.inl (by omega))
    · exact .inr (.inr (by omega))
  have ha := ascending_bulk r q (-s - w) (-d - w) w hw n (mirror m) hc
  have hm := congrArg mirror ha
  rw [mirror_copies, mirror_blockCopy, mirror_mirror] at hm
  have h1 : -(-s - w) - w = s := by ring
  have h2 : -(-d - w) - w = d := by ring
  have h3 : -(-s - w) - (n : Int) * w = s - ((n : Int) * w - w) := by ring
  have h4 : -(-d - w) - (n : Int) * w = d - ((n : Int) * w - w) := by ring
  rw [h1, h2, h3, h4] at hm
  exact hm

theorem descending_hazard (hw : 0 < w) (hn : 2 ≤ n) (hd : 0 < s - d) (hu : s - d < (n : Int) * w) (a b : B)
    (hab : a ≠ b) :
    ∃ m : Memory R B, copies r r s d w ((ladder w n).map (- ·)) m ≠
      blockCopy r r (s - ((n : Int) * w - w)) (d - ((n : Int) * w - w)) ((n : Int) * w) m := by
  obtain ⟨m, hm⟩ := ascending_hazard (s := -s - w) (d := -d - w) r hw hn (by omega) (by omega) a b hab
  refine ⟨mirror m, fun heq => hm ?_⟩
  have hx := congrArg mirror heq
  rw [mirror_copies, mirror_blockCopy, mirror_mirror] at hx
  have h3 : -(s - ((n : Int) * w - w)) - (n : Int) * w = -s - w := by ring
  have h4 : -(d - ((n : Int) * w - w)) - (n : Int) * w = -d - w := by ring
  have h5 : ((ladder w n).map (- ·)).map (- ·) = ladder w n := by simp
  rw [h3, h4, h5] at hx
  exact hx

theorem overlong_hazard {lo len : Int} {es : List Int} (hes : ∀ e ∈ es, e + w < lo + len) (hlen : 0 < len)
    (hne : r ≠ q ∨ s ≠ d) (a b : B) (hab : a ≠ b) :
    ∃ m : Memory R B, copies r q s d w es m ≠ blockCopy r q (s + lo) (d + lo) len m := by
  refine ⟨fun p x => if p = q ∧ x = d + lo + len - 1 then a else b, fun heq => ?_⟩
  have hx := congrFun (congrFun heq q) (d + lo + len - 1)
  rw [copies_outside r q es _ (fun e he => by have := hes e he; omega),
    blockCopy_inside r q _ (by omega) (by omega), if_pos ⟨rfl, rfl⟩, if_neg] at hx
  · exact hab hx
  · rintro ⟨hr, hs⟩
    rcases hne with h | h
    · exact h hr
    · omega

theorem copies_self (s w : Int) (es : List Int) (m : Memory R B) : copies r r s s w es m = m := by
  have hb (t v : Int) (m : Memory R B) : blockCopy r r t t v m = m := by
    funext p x
    by_cases h : p = r ∧ t ≤ x ∧ x < t + v
    · obtain ⟨rfl, hl, hu⟩ := h
      rw [blockCopy_inside p p m hl hu]
      congr 1
      ring
    · simp only [blockCopy, if_neg h]
  induction es generalizing m with
  | nil => rfl
  | cons e es ih => rw [copies, hb, ih]

end BlockCopy
