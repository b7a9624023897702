import Mathlib.Data.List.Basic

namespace Runs

open Option

variable {σ α : Type}

section Defs

variable (step : σ → α → Option σ)

def run (s : σ) : List α → Option σ
  | [] => some s
  | a :: as => (step s a).bind fun s' => run s' as

def Always (P : σ → Prop) (s : σ) : List α → Prop
  | [] => P s
  | a :: as => P s ∧ ∀ s', step s a = some s' → Always P s' as

def Guarded (C : σ → α → Prop) (s : σ) : List α → Prop
  | [] => True
  | a :: as => C s a ∧ ∀ s', step s a = some s' → Guarded C s' as

end Defs

variable {step : σ → α → Option σ} {s : σ} {as : List α}

variable {a : α} {t : σ} {C : σ → α → Prop} {P I : σ → Prop}

theorem run_cons : run step s (a :: as) = some t ↔ ∃ s', step s a = some s' ∧ run step s' as = some t := by
  rw [run, bind_eq_some_iff]

theorem run_append {bs : List α} {u : σ} (h1 : run step s as = some t) (h2 : run step t bs = some u) :
    run step s (as ++ bs) = some u := by
  induction as generalizing s with
  | nil => exact some.inj h1 ▸ h2
  | cons a as ih =>
    obtain ⟨s', hs, hr⟩ := run_cons.mp h1
    exact run_cons.mpr ⟨s', hs, ih hr⟩

theorem run_total (h : ∀ s a, ∃ s', step s a = some s') (s : σ) (as : List α) : ∃ t, run step s as = some t := by
  induction as generalizing s with
  | nil => exact ⟨s, rfl⟩
  | cons a as ih =>
    obtain ⟨s', hs⟩ := h s a
    obtain ⟨t, ht⟩ := ih s'
    exact ⟨t, run_cons.mpr ⟨s', hs, ht⟩⟩

theorem guarded_cons (hs : step s a = some t) (hc : C s a) (hg : Guarded step C t as) : Guarded step C s (a :: as) :=
  ⟨hc, fun _ h => Option.some.inj (hs.symm.trans h) ▸ hg⟩

theorem Guarded.and {D : σ → α → Prop} (hc : Guarded step C s as) (hd : Guarded step D s as) :
    Guarded step (fun s a => C s a ∧ D s a) s as := by
  induction as generalizing s with
  | nil => trivial
  | cons a as ih => exact ⟨⟨hc.1, hd.1⟩, fun s' hs => ih (hc.2 s' hs) (hd.2 s' hs)⟩

theorem Always.head (h : Always step P s as) : P s := by
  cases as with
  | nil => exact h
  | cons a as => exact h.1

theorem Always.last (h : Always step P s as) (hr : run step s as = some t) : P t := by
  induction as generalizing s with
  | nil => exact some.inj hr ▸ h
  | cons a as ih =>
    obtain ⟨s', hs, hr⟩ := run_cons.mp hr
    exact ih (h.2 s' hs) hr

theorem Always.imp {Q : σ → Prop} (hPQ : ∀ s, P s → Q s) (h : Always step P s as) : Always step Q s as := by
  induction as generalizing s with
  | nil => exact hPQ s h
  | cons a as ih => exact ⟨hPQ s h.1, fun s' hs => ih (h.2 s' hs)⟩

theorem always_of_guarded (hstep : ∀ s a s', I s → C s a → step s a = some s' → I s') (hP : ∀ s, I s → P s) (hs : I s)
    (hg : Guarded step C s as) : Always step P s as := by
  induction as generalizing s with
  | nil => exact hP s hs
  | cons a as ih => exact ⟨hP s hs, fun s' h => ih (hstep s a s' hs hg.1 h) (hg.2 s' h)⟩

theorem always_of_invariant (hstep : ∀ s a s', I s → step s a = some s' → I s') (hP : ∀ s, I s → P s) (hs : I s)
    (as : List α) : Always step P s as := by
  induction as generalizing s with
  | nil => exact hP s hs
  | cons a as ih => exact ⟨hP s hs, fun s' h => ih (hstep s a s' hs h)⟩

theorem run_invariant (hstep : ∀ s a s', I s → P s' → step s a = some s' → I s') (hs : I s) (ha : Always step P s as)
    (hr : run step s as = some t) : I t := by
  induction as generalizing s with
  | nil => exact some.inj hr ▸ hs
  | cons a as ih =>
    obtain ⟨s', h, hr⟩ := run_cons.mp hr
    exact ih (hstep s a s' hs (ha.2 s' h).head h) (ha.2 s' h) hr

theorem always_of_run (h : ∀ as, Always step P s as) (hr : run step s as = some t) (bs : List α) :
    Always step P t bs := by
  induction as generalizing s with
  | nil => exact some.inj hr ▸ h bs
  | cons a as ih =>
    obtain ⟨s', hs, hr⟩ := run_cons.mp hr
    exact ih (fun cs => (h (a :: cs)).2 s' hs) hr

theorem always_iff_guarded (hP : ∀ s, I s → P s) (hC : ∀ s a s', I s → step s a = some s' → (P s' ↔ C s a))
    (hI : ∀ s a s', I s → step s a = some s' → P s' → I s') (hs : I s) (hr : run step s as = some t) :
    Always step P s as ↔ Guarded step C s as := by
  induction as generalizing s with
  | nil => exact iff_of_true (hP s hs) trivial
  | cons a as ih =>
    obtain ⟨s', h, hr⟩ := run_cons.mp hr
    constructor
    · rintro ⟨-, ha⟩
      have hP' := (ha s' h).head
      refine ⟨(hC s a s' hs h).mp hP', fun t ht => ?_⟩
      cases some.inj (h.symm.trans ht)
      exact (ih (hI s a s' hs h hP') hr).mp (ha s' h)
    · rintro ⟨hc, hg⟩
      have hP' := (hC s a s' hs h).mpr hc
      refine ⟨hP s hs, fun t ht => ?_⟩
      cases some.inj (h.symm.trans ht)
      exact (ih (hI s a s' hs h hP') hr).mpr (hg s' h)

end Runs
