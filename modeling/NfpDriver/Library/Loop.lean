import Mathlib.Tactic.Common

namespace Loop

variable {σ ρ : Type}

def exec (step : σ → ρ ⊕ σ) : Nat → σ → Option ρ
  | 0, _ => none
  | n + 1, s =>
    match step s with
    | .inl r => some r
    | .inr t => exec step n t

def Returns (step : σ → ρ ⊕ σ) (s : σ) (r : ρ) : Prop := ∃ n, exec step n s = some r

inductive Reaches (step : σ → ρ ⊕ σ) (s : σ) : σ → Prop
  | refl : Reaches step s s
  | next {t u : σ} (h : Reaches step s t) (hs : step t = .inr u) : Reaches step s u

variable {step : σ → ρ ⊕ σ} {s t : σ} {r r' : ρ}

theorem returns_inl (h : step s = .inl r) : Returns step s r' ↔ r' = r := by
  constructor
  · rintro ⟨n, hn⟩
    cases n with
    | zero => cases hn
    | succ n =>
      rw [exec, h] at hn
      exact (Option.some.inj hn).symm
  · rintro rfl
    exact ⟨1, by rw [exec, h]⟩

theorem returns_inr (h : step s = .inr t) : Returns step s r ↔ Returns step t r := by
  constructor
  · rintro ⟨n, hn⟩
    cases n with
    | zero => cases hn
    | succ n =>
      rw [exec, h] at hn
      exact ⟨n, hn⟩
  · rintro ⟨n, hn⟩
    exact ⟨n + 1, by rw [exec, h]; exact hn⟩

theorem Returns.unique (h : Returns step s r) (h' : Returns step s r') : r = r' := by
  obtain ⟨n, hn⟩ := h
  induction n generalizing s with
  | zero => cases hn
  | succ n ih =>
    cases hs : step s with
    | inl r₀ =>
      rw [(returns_inl hs).mp h', (returns_inl hs).mp ⟨n + 1, hn⟩]
    | inr t =>
      rw [exec, hs] at hn
      exact ih ((returns_inr hs).mp h') hn

theorem not_returns_self (h : step s = .inr s) : ¬ Returns step s r := by
  rintro ⟨n, hn⟩
  induction n with
  | zero => cases hn
  | succ n ih =>
    rw [exec, h] at hn
    exact ih hn

theorem Reaches.inv (Inv : σ → Prop) (hstep : ∀ s t, Inv s → step s = .inr t → Inv t) (hs : Inv s)
    (h : Reaches step s t) : Inv t := by
  induction h with
  | refl => exact hs
  | next _ hu ih => exact hstep _ _ ih hu

theorem terminates (Inv : σ → Prop) (size : σ → Nat)
    (hstep : ∀ s t, Inv s → step s = .inr t → Inv t ∧ size t < size s) (hs : Inv s) : ∃ r, Returns step s r := by
  induction hn : size s using Nat.strongRecOn generalizing s with
  | ind n ih =>
    cases h : step s with
    | inl r => exact ⟨r, (returns_inl h).mpr rfl⟩
    | inr t =>
      obtain ⟨ht, hlt⟩ := hstep s t hs h
      obtain ⟨r, hr⟩ := ih (size t) (hn ▸ hlt) ht rfl
      exact ⟨r, (returns_inr h).mpr hr⟩

end Loop
