import NfpDriver.Gather.Invariant

namespace NfpDriver.Gather

open Bpf

variable {l : List Meta} {s : GatherState} {cs : List (Nat × Nat)} {h n : Nat}

theorem Idle.chainBroken_iff (hi : Idle l s) (ha : ∀ k, s.pos ≤ k → metaAt s.insns k = metaAt l k)
    (hp : s.pos + 1 < l.length) : chainBroken s = true ↔ ¬ PairAt l s.pos := by
  simp [chainBroken, hi.prev, hi.head, currPairChainWithPrevious, PairAt, hp, ha s.pos (by omega),
    ha (s.pos + 1) (by omega)]

theorem crossMemAccess_setGatherLen (ld : Insn) (ldMeta stMeta : Meta) (len : Int) :
    crossMemAccess ld (setGatherLen len ldMeta) stMeta = crossMemAccess ld ldMeta stMeta := rfl

theorem Open.chainBroken_iff (ho : Open l s h n)
    (ha : ∀ k, s.pos ≤ k → metaAt s.insns k = metaAt l k) (hp : s.pos + 1 < l.length) :
    chainBroken s = true ↔ ¬ Joins l h n := by
  have hpos := ho.pos
  rw [hpos] at ha hp
  have hld := ha (h + 2 * n + 2) le_rfl
  have hst := ha (h + 2 * n + 2 + 1) (by omega)
  have hlen : ((128 : Int) ≤ chainLen l h n) ↔ ¬ (n + 1) * width l h < 128 := by
    simp only [chainLen]
    omega
  simp only [chainBroken, ho.prev, ho.head, Option.map_some, ho.prev_insns, ho.ld, ho.st, hpos, hld, hst,
    crossMemAccess_setGatherLen, setGatherLen_len, Joins, PairAt, ge_iff_le, hlen, hp, true_and,
    Bool.or_eq_true, Bool.not_eq_true', decide_eq_true_eq, not_and_or, Bool.not_eq_true,
    Bool.not_eq_false, or_assoc]

theorem Idle.skip (hi : Idle l s) (hb : chainBroken s = true) : gatherBody s = { s with pos := s.pos + 1 } := by
  simp only [gatherBody, hb, hi.count, if_true]

theorem Idle.begin (hi : Idle l s) (hb : chainBroken s = false) : gatherBody s =
    ⟨s.insns.modify s.pos (fun m => setGatherLen
      (m.ldstGatherLen + (bpfLdstBytes (metaAt s.insns s.pos).insn : Nat)) m),
      s.pos + 2, some (s.pos, s.pos + 1), some (s.pos, s.pos + 1), 1⟩ := by
  simp [gatherBody, hb, hi.count, hi.head]

theorem Open.drop (ho : Open l s h n) (hb : chainBroken s = true)
    (hp : currPairIsMemcpy (metaAt s.insns s.pos) (metaAt s.insns (s.pos + 1)) = false) :
    gatherBody s = ⟨closeOpen s, s.pos + 1, none, none, 0⟩ := by
  simp [gatherBody, hb, ho.count, hp]

theorem Open.restart (ho : Open l s h n) (hb : chainBroken s = true)
    (hp : currPairIsMemcpy (metaAt s.insns s.pos) (metaAt s.insns (s.pos + 1)) = true) :
    gatherBody s =
      ⟨(closeOpen s).modify s.pos (setGatherLen (bpfLdstBytes (metaAt s.insns s.pos).insn : Nat)),
        s.pos + 2, some (s.pos, s.pos + 1), some (s.pos, s.pos + 1), 1⟩ := by
  simp [gatherBody, hb, ho.count, hp]

theorem Open.grow (ho : Open l s h n) (hb : chainBroken s = false) : gatherBody s =
    ⟨((s.insns.modify s.pos (Meta.addFlag · flagInsnSkipPrecDependent)).modify
        (s.pos + 1) (Meta.addFlag · flagInsnSkipPrecDependent)).modify h
        (fun m => setGatherLen (m.ldstGatherLen + (bpfLdstBytes (metaAt s.insns s.pos).insn : Nat)) m),
      s.pos + 2, some (h, h + 1), some (s.pos, s.pos + 1), n + 2⟩ := by
  simp [gatherBody, hb, ho.count, ho.head]

variable {p : Nat} {insns : List Meta}

theorem PairAt.aligned (hp : PairAt l p) : ∀ q, q + 1 = p + 2 → ¬ PairAt l q := by
  intro q hq
  obtain rfl : q = p + 1 := by omega
  exact hp.not_succ

theorem open_new (hh : Head l s.pos) (hlen : insns.length = l.length)
    (ha : ∀ k, s.pos ≤ k → metaAt insns k = metaAt l k) (f : Meta → Meta)
    (hf : f (metaAt l s.pos) = setGatherLen (width l s.pos : Nat) (metaAt l s.pos)) :
    Open l ⟨insns.modify s.pos f, s.pos + 2, some (s.pos, s.pos + 1), some (s.pos, s.pos + 1), 1⟩
      s.pos 0 where
  head := rfl
  prev := rfl
  count := rfl
  pos := rfl
  isHead := hh
  run := ⟨hh.pairAt, by simp⟩
  ld := by
    have hb := hh.pairAt.1
    rw [metaAt_modify_self (by omega), ha _ le_rfl, hf]
    simp [chainLen]
  st := by rw [metaAt_modify_ne (by omega), ha _ (by omega)]
  tail k h1 h2 := by omega

theorem inv_skip (hv : Inv l s cs none) (hp : ¬ PairAt l s.pos) :
    Inv l { s with pos := s.pos + 1 } cs none where
  done := hv.done.extend (Nat.le_succ _) (fun k hk _ => hv.ahead k hk)
  ahead k hk := hv.ahead k (Nat.le_of_succ_le hk)
  phase := by
    have hi : Idle l s := hv.phase
    exact ⟨hi.head, hi.prev, hi.count, fun q hq => hv.aligned q (by simpa using hq)⟩
  aligned q hq := by
    obtain rfl : q = s.pos := by simpa using hq
    exact hp
  heads h hh hlt := by
    rcases Nat.lt_succ_iff_lt_or_eq.mp hlt with hlt | rfl
    · exact hv.heads h hh hlt
    · exact absurd hh.pairAt hp

theorem heads_new (hp : PairAt l p) (hv : ∀ h, Head l h → h < p → ∃ n, (h, n) ∈ cs) :
    ∀ h, Head l h → h < p + 2 → (∃ n, some (p, 0) = some (h, n)) ∨ ∃ n, (h, n) ∈ cs := by
  intro h hh hlt
  rcases Nat.lt_trichotomy h p with hlo | rfl | hhi
  · exact .inr (hv h hh hlo)
  · exact .inl ⟨0, rfl⟩
  · obtain rfl : h = p + 1 := by omega
    exact absurd hh.pairAt hp.not_succ

theorem inv_begin (hf : Fresh l) (hv : Inv l s cs none) (hp : PairAt l s.pos) :
    Inv l ⟨s.insns.modify s.pos (fun m => setGatherLen
        (m.ldstGatherLen + (bpfLdstBytes (metaAt s.insns s.pos).insn : Nat)) m),
      s.pos + 2, some (s.pos, s.pos + 1), some (s.pos, s.pos + 1), 1⟩ cs (some (s.pos, 0)) where
  done := hv.done.frame (by simp) (fun k hk => metaAt_modify_ne (ne_of_lt hk) _)
  ahead k hk := by
    have hk : s.pos + 2 ≤ k := hk
    rw [metaAt_modify_ne (by omega)]
    exact hv.ahead k (by omega)
  phase := by
    have hi : Idle l s := hv.phase
    refine open_new (.first hp hi.fresh) hv.done.length hv.ahead _ ?_
    simp [(hf s.pos).1, width, hv.ahead s.pos le_rfl]
  aligned := hp.aligned
  heads := heads_new hp (fun h hh hlt => by simpa using hv.heads h hh hlt)

theorem Inv.heads_closed (hv : Inv l s cs (some (h, n))) : ∀ g, Head l g → g < s.pos → ∃ m, (g, m) ∈ (h, n) :: cs := by
  intro g hg hlt
  rcases hv.heads g hg hlt with ⟨m, hm⟩ | ⟨m, hm⟩
  · obtain ⟨rfl, rfl⟩ := Prod.mk.inj (Option.some.inj hm)
    exact ⟨n, by simp⟩
  · exact ⟨m, by simp [hm]⟩

theorem closeOpen_ahead (hv : Inv l s cs (some (h, n))) {k : Nat} (hk : s.pos ≤ k) :
    metaAt (closeOpen s) k = metaAt l k := by
  have ho : Open l s h n := hv.phase
  have hpos := ho.pos
  rw [closeOpen_outside ho (by omega) (by omega) hv.done.length, hv.ahead k hk]

theorem inv_drop (hf : Fresh l) (hv : Inv l s cs (some (h, n))) (hp : ¬ PairAt l s.pos) :
    Inv l ⟨closeOpen s, s.pos + 1, none, none, 0⟩ ((h, n) :: cs) none where
  done := by
    have ho : Open l s h n := hv.phase
    have hj : ¬ Joins l h n := fun hj => hp (ho.pos ▸ hj.1)
    exact (hv.done.close hf ho hj).extend (Nat.le_succ _) (fun k hk _ => closeOpen_ahead hv hk)
  ahead k hk := closeOpen_ahead hv (Nat.le_of_succ_le hk)
  phase := ⟨rfl, rfl, rfl, fun q hq => hv.aligned q (by simpa using hq)⟩
  aligned q hq := by
    obtain rfl : q = s.pos := by simpa using hq
    exact hp
  heads g hg hlt := by
    rcases Nat.lt_succ_iff_lt_or_eq.mp hlt with hlt | rfl
    · exact .inr (hv.heads_closed g hg hlt)
    · exact absurd hg.pairAt hp

theorem inv_restart (hf : Fresh l) (hv : Inv l s cs (some (h, n))) (hp : PairAt l s.pos)
    (hj : ¬ Joins l h n) :
    Inv l ⟨(closeOpen s).modify s.pos (setGatherLen (bpfLdstBytes (metaAt s.insns s.pos).insn : Nat)),
      s.pos + 2, some (s.pos, s.pos + 1), some (s.pos, s.pos + 1), 1⟩ ((h, n) :: cs)
      (some (s.pos, 0)) where
  done := by
    have hc := hv.done.close hf hv.phase hj
    exact hc.frame (by simp) (fun k hk => metaAt_modify_ne (ne_of_lt hk) _)
  ahead k hk := by
    have hk : s.pos + 2 ≤ k := hk
    rw [metaAt_modify_ne (by omega)]
    exact closeOpen_ahead hv (by omega)
  phase := by
    have ho : Open l s h n := hv.phase
    have hhead : Head l s.pos := ho.pos ▸ .next ho.isHead ho.run hj (ho.pos ▸ hp)
    refine open_new hhead ?_ (fun k hk => closeOpen_ahead hv hk) _ ?_
    · rw [closeOpen_length, hv.done.length]
    · simp [width, hv.ahead s.pos le_rfl]
  aligned := hp.aligned
  heads := heads_new hp hv.heads_closed

theorem not_head_of_joins (hv : Inv l s cs (some (h, n))) (hj : Joins l h n) : ¬ Head l s.pos := by
  have ho : Open l s h n := hv.phase
  intro hh
  have hpos := ho.pos
  rcases hh.inv with hq | ⟨g, m, hp, hg, hr, hstop⟩
  · exact hq (h + 2 * n) hpos.symm (ho.run.pair (Nat.le_refl n))
  rcases hv.heads g hg (by omega) with ⟨k, hk⟩ | ⟨k, hk⟩
  · obtain ⟨rfl, rfl⟩ := Prod.mk.inj (Option.some.inj hk)
    obtain rfl : m = n := by omega
    exact hstop hj
  · obtain ⟨hc, hb, -⟩ := hv.done.chains g k hk
    obtain rfl : k = m := hc.unique ⟨hg, hr, hstop⟩
    simp only [bound] at hb
    omega

theorem grown_at (hp : p + 1 < insns.length) (hh : h < p) (f : Meta → Meta) (k : Nat) :
    metaAt (((insns.modify p (Meta.addFlag · flagInsnSkipPrecDependent)).modify
      (p + 1) (Meta.addFlag · flagInsnSkipPrecDependent)).modify h f) k =
    if k = h then f (metaAt insns h)
    else if k = p ∨ k = p + 1 then skipped (metaAt insns k) else metaAt insns k := by
  by_cases h0 : k = h
  · subst h0
    rw [if_pos rfl, metaAt_modify_self (by simp; omega), metaAt_modify_ne (by omega), metaAt_modify_ne (by omega)]
  rw [if_neg h0, metaAt_modify_ne h0]
  by_cases h1 : k = p
  · subst h1
    rw [if_pos (.inl rfl), metaAt_modify_ne (by omega), metaAt_modify_self (by omega)]
    rfl
  · by_cases h2 : k = p + 1
    · subst h2
      rw [if_pos (.inr rfl), metaAt_modify_self (by simpa using hp), metaAt_modify_ne (by omega)]
      rfl
    · rw [if_neg (by omega), metaAt_modify_ne h2, metaAt_modify_ne h1]

theorem inv_grow (hv : Inv l s cs (some (h, n))) (hj : Joins l h n) :
    Inv l ⟨((s.insns.modify s.pos (Meta.addFlag · flagInsnSkipPrecDependent)).modify
        (s.pos + 1) (Meta.addFlag · flagInsnSkipPrecDependent)).modify h
        (fun m => setGatherLen (m.ldstGatherLen + (bpfLdstBytes (metaAt s.insns s.pos).insn : Nat)) m),
      s.pos + 2, some (h, h + 1), some (s.pos, s.pos + 1), n + 2⟩ cs (some (h, n + 1)) := by
  have ho : Open l s h n := hv.phase
  have hpos := ho.pos
  have hpair : PairAt l s.pos := by
    rw [hpos]
    exact hj.1
  have hb : s.pos + 1 < s.insns.length := hv.done.length ▸ hpair.1
  have hrun : Run l h (n + 1) := ⟨ho.run.1, fun i hi => by
    rcases Nat.lt_succ_iff_lt_or_eq.mp hi with hlt | rfl
    · exact ho.run.2 i hlt
    · exact hj⟩
  have hat := grown_at hb (show h < s.pos by omega) (fun m => setGatherLen
    (m.ldstGatherLen + (bpfLdstBytes (metaAt s.insns s.pos).insn : Nat)) m)
  refine ⟨hv.done.frame (by simp) ?_, ?_, ?_, hpair.aligned, ?_⟩
  · intro k hk
    have hk : k < h := hk
    rw [hat, if_neg (by omega), if_neg (by omega)]
  · intro k hk
    have hk : s.pos + 2 ≤ k := hk
    rw [hat, if_neg (by omega), if_neg (by omega)]
    exact hv.ahead k (by omega)
  · refine ⟨rfl, ?_, rfl, ?_, ho.isHead, hrun, ?_, ?_, ?_⟩
    · simp only [hpos, Option.some.injEq, Prod.mk.injEq]
      omega
    · simp only [hpos]
      omega
    · have hw := hrun.width_eq (Nat.le_refl (n + 1))
      rw [show h + 2 * (n + 1) = s.pos by omega, width] at hw
      rw [hat, if_pos rfl, ho.ld, hv.ahead s.pos le_rfl, hw]
      simp only [setGatherLen_len, setGatherLen_twice, chainLen]
      rw [← Nat.cast_add, Nat.succ_mul (n + 1)]
    · rw [hat, if_neg (by omega), if_neg (by omega)]
      exact ho.st
    · intro k h1 h2
      rw [hat, if_neg (by omega)]
      by_cases hk : k = s.pos ∨ k = s.pos + 1
      · rw [if_pos hk, hv.ahead k (by omega)]
      · rw [if_neg hk]
        exact ho.tail k h1 (by omega)
  · intro g hg hlt
    have hlt : g < s.pos + 2 := hlt
    by_cases h0 : g < s.pos
    · refine (hv.heads g hg h0).imp ?_ id
      rintro ⟨m, hm⟩
      obtain ⟨rfl, rfl⟩ := Prod.mk.inj (Option.some.inj hm)
      exact ⟨n + 1, rfl⟩
    · by_cases h1 : g = s.pos
      · exact absurd (h1 ▸ hg) (not_head_of_joins hv hj)
      · obtain rfl : g = s.pos + 1 := by omega
        exact absurd hg.pairAt hpair.not_succ

theorem inv_body {o : Option (Nat × Nat)} (hf : Fresh l) (hv : Inv l s cs o)
    (hp : s.pos + 1 < l.length) :
    (∃ cs' o', Inv l (gatherBody s) cs' o') ∧ ((gatherBody s).pos = s.pos + 1 ∨
      (gatherBody s).pos = s.pos + 2 ∧ PairAt l s.pos) := by
  have hpair : PairAt l s.pos ↔
      currPairIsMemcpy (metaAt s.insns s.pos) (metaAt s.insns (s.pos + 1)) = true := by
    rw [hv.ahead s.pos le_rfl, hv.ahead (s.pos + 1) (Nat.le_succ _), PairAt]
    exact and_iff_right hp
  cases o with
  | none =>
    have hi : Idle l s := hv.phase
    have hb := hi.chainBroken_iff hv.ahead hp
    by_cases hq : PairAt l s.pos
    · rw [hi.begin (by simpa [hq] using hb)]
      exact ⟨⟨cs, _, inv_begin hf hv hq⟩, .inr ⟨rfl, hq⟩⟩
    · rw [hi.skip (hb.mpr hq)]
      exact ⟨⟨cs, _, inv_skip hv hq⟩, .inl rfl⟩
  | some c =>
    obtain ⟨h, n⟩ := c
    have ho : Open l s h n := hv.phase
    have hb := ho.chainBroken_iff hv.ahead hp
    by_cases hj : Joins l h n
    · rw [ho.grow (by simpa [hj] using hb)]
      exact ⟨⟨cs, _, inv_grow hv hj⟩, .inr ⟨rfl, by rw [ho.pos]; exact hj.1⟩⟩
    by_cases hq : PairAt l s.pos
    · rw [ho.restart (hb.mpr hj) (hpair.mp hq)]
      exact ⟨⟨_, _, inv_restart hf hv hq hj⟩, .inr ⟨rfl, hq⟩⟩
    · rw [ho.drop (hb.mpr hj) (by simpa using mt hpair.mpr hq)]
      exact ⟨⟨_, _, inv_drop hf hv hq⟩, .inl rfl⟩

def ReachedEnd (l : List Meta) (p : Nat) : Prop :=
  l.length ≤ p + 1 ∧ ∀ q, q + 2 = l.length → ¬ PairAt l q → p < l.length

theorem inv_run (hf : Fresh l) (i : Nat) :
    (∃ cs o, Inv l (gatherStep^[i] (gatherStart l)) cs o) ∧
      (i ≤ (gatherStep^[i] (gatherStart l)).pos ∨ l.length ≤ (gatherStep^[i] (gatherStart l)).pos + 1) ∧
      ∀ q, q + 2 = l.length → ¬ PairAt l q → (gatherStep^[i] (gatherStart l)).pos < l.length := by
  induction i with
  | zero =>
    refine ⟨⟨[], none, inv_start l⟩, .inl (Nat.zero_le _), fun q hq _ => ?_⟩
    show 0 < l.length
    omega
  | succ i ih =>
    obtain ⟨⟨cs, o, hv⟩, hpos, hend⟩ := ih
    rw [Function.iterate_succ_apply', gatherStep, hv.done.length]
    split
    · rename_i hlt
      obtain ⟨hv', hadv⟩ := inv_body hf hv hlt
      refine ⟨hv', .inl (by omega), fun q hq hp => ?_⟩
      rcases hadv with hadv | ⟨hadv, hpair⟩
      · omega
      · have hne : (gatherStep^[i] (gatherStart l)).pos ≠ q := fun h => hp (h ▸ hpair)
        omega
    · rename_i hge
      exact ⟨⟨cs, o, hv⟩, .inr (by omega), hend⟩

theorem gather_final (hf : Fresh l) :
    ∃ s cs o, s.insns = nfpBpfOptLdstGather l ∧ Inv l s cs o ∧ ReachedEnd l s.pos := by
  obtain ⟨⟨cs, o, hv⟩, hpos, hend⟩ := inv_run hf l.length
  exact ⟨_, cs, o, rfl, hv, by omega, hend⟩

end NfpDriver.Gather
