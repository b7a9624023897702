import NfpDriver.Flower.Action

namespace NfpDriver.Flower

open Records

structure Grows (s s' : ActState) (k : Nat) : Prop where
  len : k + s.actLen ≤ s'.actLen
  kept : ∀ x < s.actLen, s'.data (k + x) = s.data x
  reach : s.actLen ≤ s.reach → s'.reach = max s.reach s'.actLen

structure Extends (s : ActState) (pre post : List Act) (s' : ActState) :
    Prop extends Grows s s' (total Act.size pre) where
  sum : s'.actLen = total Act.size pre + s.actLen + total Act.size post
  front : Holds Act.size s'.data 0 pre
  back : Holds Act.size s'.data (total Act.size pre + s.actLen) post

structure Bounded (s s' : ActState) : Prop where
  up : s.reach ≤ s'.reach
  cap : s.reach ≤ maxASiz → s'.reach ≤ maxASiz
  stray : s'.stray = s.stray

def Meets (s : ActState) (P : ActState → Prop) : Compiled → Prop
  | .ok s' => P s'
  | .error f => Bounded s f.st

variable {s s' s'' : ActState} {pre post pre' post' : List Act} {a b : Act} {k : Nat}

theorem Bounded.refl (s : ActState) : Bounded s s := ⟨le_rfl, id, rfl⟩

theorem Bounded.trans (h : Bounded s s') (h' : Bounded s' s'') : Bounded s s'' :=
  ⟨h.up.trans h'.up, h'.cap ∘ h.cap, h'.stray.trans h.stray⟩

theorem bounded_memmove {n : Nat} (h : n + s.actLen ≤ maxASiz) : Bounded s (s.memmove n) :=
  ⟨Nat.le_max_left _ _, fun hr => Nat.max_le.mpr ⟨hr, h⟩, rfl⟩

theorem bounded_put {off : Nat} (h : off + a.size ≤ maxASiz) : Bounded s (s.put off a) :=
  ⟨Nat.le_max_left _ _, fun hr => Nat.max_le.mpr ⟨hr, h⟩, rfl⟩

theorem Grows.fits (h : Grows s s' k) (hs : s.actLen ≤ s.reach) : s'.actLen ≤ s'.reach := by
  rw [h.reach hs]
  exact le_max_right _ _

theorem Grows.up (h : Grows s s' k) (hs : s.actLen ≤ s.reach) : s.reach ≤ s'.reach := by
  rw [h.reach hs]
  exact le_max_left _ _

theorem Grows.torn (h : Grows s s' k) (ht : Torn s.data s.actLen) : Torn s'.data s'.actLen := ht.shift h.len h.kept

theorem Extends.of_eq (hd : s'.data = s.data) (hl : s'.actLen = s.actLen) (hr : s'.reach = s.reach) :
    Extends s [] [] s' where
  len := by rw [hl, total_nil, zero_add]
  kept x _ := by rw [hd, total_nil, zero_add]
  reach h := by rw [hr, hl, max_eq_left h]
  sum := by rw [hl, total_nil, zero_add, add_zero]
  front := trivial
  back := trivial

theorem Extends.holds {as : List Act} (h : Extends s pre post s') (hs : Holds Act.size s.data 0 as)
    (hlen : total Act.size as = s.actLen) :
    Holds Act.size s'.data 0 (pre ++ as ++ post) ∧ total Act.size (pre ++ as ++ post) = s'.actLen := by
  refine ⟨?_, by rw [h.sum, total_append, total_append, hlen]⟩
  rw [holds_append, holds_append, zero_add, zero_add, total_append, hlen]
  refine ⟨⟨h.front, hs.shift fun x hx => ?_⟩, h.back⟩
  rw [zero_add]
  exact h.kept x (hlen ▸ hx)

theorem Extends.trans (h : Extends s pre post s') (h' : Extends s' pre' post' s'') :
    Extends s (pre' ++ pre) (post ++ post') s'' where
  len := by
    have := h.len
    have := h'.len
    rw [total_append]
    omega
  kept x hx := by
    rw [total_append, add_assoc, h'.kept _ (by have := h.len; omega)]
    exact h.kept x hx
  reach hs := by
    have hl : s'.actLen ≤ s''.actLen := (Nat.le_add_left _ _).trans h'.len
    rw [h'.reach (h.fits hs), h.reach hs, Nat.max_assoc, max_eq_right hl]
  sum := by
    rw [h'.sum, h.sum, total_append, total_append]
    omega
  front := by
    rw [holds_append, zero_add]
    refine ⟨h'.front, h.front.shift fun x hx => ?_⟩
    rw [h'.kept x (by have := h.len; omega), zero_add]
  back := by
    rw [holds_append, total_append]
    refine ⟨h.back.shift fun x hx => ?_, ?_⟩
    · rw [← h'.kept _ (by rw [h.sum]; omega)]
      congr 1
      omega
    · have hb := h'.back
      rw [h.sum] at hb
      convert hb using 1
      omega

theorem Extends.congr (h : Extends s pre post s') (hd : s''.data = s'.data) (hl : s''.actLen = s'.actLen)
    (hr : s''.reach = s'.reach) : Extends s pre post s'' := by
  have h' := h.trans (Extends.of_eq hd hl hr)
  rwa [List.nil_append, List.append_nil] at h'

theorem extends_put {t : ActState} (hl : t.actLen = s.actLen) (hr : t.reach = max s.reach (s.actLen + a.size))
    (hk : ∀ x < s.actLen, t.data x = s.data x) (hp : ∀ i < a.size, t.data (s.actLen + i) = some (a, i)) :
    Extends s [] [a] (t.advance a.size) where
  len := by
    rw [total_nil, zero_add, ← hl]
    exact Nat.le_add_right _ _
  kept x hx := by
    rw [total_nil, zero_add]
    exact hk x hx
  reach _ := by
    change max t.reach (t.actLen + a.size) = max s.reach (t.actLen + a.size)
    rw [hl, hr, Nat.max_assoc, Nat.max_self]
  sum := by
    change t.actLen + a.size = _
    rw [hl, total_cons, total_nil, zero_add, add_zero]
  front := trivial
  back := by
    rw [total_nil, zero_add]
    exact ⟨hp, trivial⟩

theorem put_kept {x : Nat} (hx : x < s.actLen) : (s.put s.actLen a).data x = s.data x := write_below hx

theorem put_at {i : Nat} (hi : i < a.size) : (s.put s.actLen a).data (s.actLen + i) = some (a, i) := write_at hi

theorem extends_push (s : ActState) (a : Act) : Extends s [] [a] (s.push a) :=
  extends_put rfl rfl (fun _ => put_kept) (fun _ => put_at)

theorem extends_insert (s : ActState) (a : Act) : Extends s [a] [] (((s.memmove a.size).put 0 a).advance a.size) where
  len := by
    rw [total_cons, total_nil, add_zero, add_comm]
    exact le_rfl
  kept x hx := by
    rw [total_cons, total_nil, add_zero]
    have hw : (((s.memmove a.size).put 0 a).advance a.size).data (a.size + x) = (s.memmove a.size).data (a.size + x) :=
      write_above (by omega)
    rw [hw]
    exact move_at hx
  reach _ := by
    change max (max (max s.reach (a.size + s.actLen)) (0 + a.size)) (s.actLen + a.size) =
      max s.reach (s.actLen + a.size)
    omega
  sum := by
    rw [total_cons, total_nil, add_zero, add_zero, add_comm]
    rfl
  front := by
    refine ⟨fun i hi => ?_, trivial⟩
    exact write_at hi
  back := trivial

theorem Extends.replace (h : Extends s [a] post s') (hs : b.size = a.size) : Extends s [b] post (s'.put 0 b) where
  len := by
    have := h.len
    rw [total_cons, total_nil, add_zero] at this ⊢
    rw [hs]
    exact this
  kept x hx := by
    have hk := h.kept x hx
    rw [total_cons, total_nil, add_zero] at hk ⊢
    rw [← hs] at hk
    rw [← hk]
    exact write_above (by omega)
  reach h' := by
    have hl := h.sum
    have hr := h.reach h'
    rw [total_cons, total_nil] at hl
    change max s'.reach (0 + b.size) = max s.reach s'.actLen
    omega
  sum := by
    have := h.sum
    rw [total_cons, total_nil] at this ⊢
    rw [hs]
    exact this
  front := ⟨fun _ hi => write_at hi, trivial⟩
  back := by
    have hb := h.back
    rw [total_cons, total_nil, add_zero] at hb ⊢
    rw [hs]
    exact hb.shift fun x _ => write_above (by omega)

theorem put_advance (s : ActState) (off n : Nat) (a : Act) : (s.put off a).advance n = (s.advance n).put off a := by
  simp only [ActState.put, ActState.advance, ActState.touch, Nat.max_right_comm]

variable {P Q : ActState → Prop} {r : Compiled}

theorem Meets.bind {f : ActState → Compiled} (h : Meets s P r) (hP : ∀ t, P t → Meets s Q (f t)) :
    Meets s Q (r.bind f) := by
  cases r with
  | ok t => exact hP t h
  | error e => exact h

theorem Meets.mono (h : Meets s P r) (hPQ : ∀ t, P t → Q t) : Meets s Q r := by
  cases r with
  | ok t => exact hPQ t h
  | error e => exact h

theorem meets_guard {c : Prop} [Decidable c] {e : Compiled} (he : c → Meets s P e) (hr : ¬ c → Meets s P r) :
    Meets s P (if c then e else r) := by
  split
  · exact he ‹_›
  · exact hr ‹_›

end NfpDriver.Flower
