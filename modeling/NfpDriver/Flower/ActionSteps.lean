import NfpDriver.Flower.ActionGrow

namespace NfpDriver.Flower

open Records

variable {s s' t : ActState} {a : Act}

structure AtEnd (s : ActState) (a : Act) (t : ActState) : Prop where
  len : t.actLen = s.actLen
  reach : t.reach = max s.reach (s.actLen + a.size)
  kept : ∀ x < s.actLen, t.data x = s.data x
  put : ∀ i < a.size, t.data (s.actLen + i) = some (a, i)
  stray : t.stray = s.stray

theorem atEnd_put (s : ActState) (a : Act) : AtEnd s a (s.put s.actLen a) :=
  ⟨rfl, rfl, fun _ => put_kept, fun _ => put_at, rfl⟩

theorem AtEnd.again {b : Act} (h : AtEnd s a t) (hs : b.size = a.size) : AtEnd s b (t.put t.actLen b) where
  len := h.len
  reach := by
    change max t.reach (t.actLen + b.size) = _
    rw [h.reach, h.len, hs, Nat.max_assoc, Nat.max_self]
  kept x hx := by
    rw [put_kept (h.len ▸ hx)]
    exact h.kept x hx
  put i hi := by
    rw [← h.len]
    exact put_at hi
  stray := h.stray

theorem AtEnd.advance (h : AtEnd s a t) : Extends s [] [a] (t.advance a.size) :=
  extends_put h.len h.reach h.kept h.put

structure Added (s : ActState) (n : Nat) (t : ActState) : Prop where
  grows : ∃ pre post, Extends s pre post t
  stray : t.stray = s.stray
  len : t.actLen = s.actLen + n

theorem added_same (hd : t.data = s.data) (hl : t.actLen = s.actLen) (hr : t.reach = s.reach) (hs : t.stray = s.stray) :
    Added s 0 t :=
  ⟨⟨[], [], .of_eq hd hl hr⟩, hs, hl⟩

variable (env : ActEnv) (tun : IpTunnelInfo) (last : Bool) (dev : Option OutDev)

theorem meets_output (h : s.actLen + 8 ≤ maxASiz) :
    Meets s (fun t => ∃ flags port, AtEnd s (.output flags port) t) (nfpFlOutput env last dev s) := by
  have hb : Bounded s (s.put s.actLen (.output 0 0)) := bounded_put h
  have hp := atEnd_put s (.output 0 0)
  have fill (c : Nat) (flags : BitVec 16) (port : BitVec 32) :
      AtEnd s (.output flags port)
        { ({ s.put s.actLen (.output 0 0) with tunOutCnt := c }).put s.actLen (.output flags port) with
          shortcut := port } :=
    let h' := hp.again (b := .output flags port) rfl
    ⟨h'.len, h'.reach, h'.kept, h'.put, h'.stray⟩
  cases dev with
  | none => exact hb
  | some outDev =>
    refine meets_guard (fun _ => meets_guard (fun _ => hb) fun _ => meets_guard (fun _ => hb) fun _ => ?_) fun _ =>
      meets_guard (fun _ => ?_) fun _ =>
        meets_guard (fun _ => meets_guard (fun _ => hb) fun _ => meets_guard (fun _ => hb) fun _ => ?_) fun _ =>
          meets_guard (fun _ => hb) fun _ => meets_guard (fun _ => hb) fun _ => meets_guard (fun _ => hb) fun _ => ?_
    · exact ⟨_, _, fill _ _ _⟩
    · cases outDev.lagOutputId with
      | none => exact hb
      | some gid => exact ⟨_, _, fill s.tunOutCnt _ _⟩
    · exact ⟨0, 0, hp.len, hp.reach, hp.kept, hp.put, hp.stray⟩
    · exact ⟨_, _, fill s.tunOutCnt _ _⟩

theorem preLag_cases (s : ActState) :
    nfpFlPreLag dev s = .ok (s, 0) ∧ dev.any OutDev.lagMaster = false ∨
      (∃ f, nfpFlPreLag dev s = .error f ∧ Bounded s f.st) ∨
      dev.any OutDev.lagMaster = true ∧ ∃ a u, nfpFlPreLag dev s = .ok (u, 8) ∧ u.actLen = s.actLen ∧ Bounded s u ∧
        Extends s [a] [] (u.advance 8) := by
  cases dev with
  | none => exact .inl ⟨rfl, rfl⟩
  | some outDev =>
    rw [nfpFlPreLag]
    split
    · next hm => exact .inl ⟨rfl, hm⟩
    next hm =>
    rw [Bool.not_eq_false] at hm
    split
    · exact .inr (.inl ⟨_, rfl, .refl s⟩)
    have hlen : s.actLen + 8 ≤ maxASiz := by omega
    have hb : Bounded s (s.memmove 8) := bounded_memmove (by omega)
    cases outDev.lagPreAction with
    | error msg => exact .inr (.inl ⟨_, rfl, hb⟩)
    | ok pre =>
      obtain ⟨groupId, ver, inst⟩ := pre
      have hx := extends_insert s (.preLag groupId ver inst)
      have hp : Bounded (s.memmove 8) ((s.memmove 8).put 0 (.preLag groupId ver inst)) :=
        bounded_put (show 0 + 8 ≤ maxASiz by decide)
      exact .inr (.inr ⟨hm, _, _, rfl, rfl, ⟨(hb.trans hp).up, (hb.trans hp).cap, rfl⟩, hx.congr rfl rfl rfl⟩)

def outputLen : Nat := 8 + if env.enableLag && dev.any OutDev.lagMaster then 8 else 0

theorem outputAction_adds : Meets s (Added s (outputLen env dev)) (nfpFlowerOutputAction env last dev s) := by
  refine meets_guard (fun _ => .refl s) fun _ => meets_guard (fun _ => .refl s) fun hlen => ?_
  have hlen : s.actLen + 8 ≤ maxASiz := by omega
  refine (meets_output env last dev hlen).bind fun t ht => ?_
  obtain ⟨flags, port, hp⟩ := ht
  have hx : Extends s [] [.output flags port] (t.advance 8) := hp.advance
  have hlen' : (t.advance 8).actLen = s.actLen + 8 := congrArg (· + 8) hp.len
  have hb : Bounded s (t.advance 8) := by
    refine ⟨?_, fun hr => ?_, hp.stray⟩
    · change _ ≤ max t.reach _
      rw [hp.reach]
      omega
    · change max t.reach (t.advance 8).actLen ≤ _
      rw [hp.reach, hlen']
      exact Nat.max_le.mpr ⟨Nat.max_le.mpr ⟨hr, hlen⟩, hlen⟩
  refine meets_guard (fun hlag => ?_) fun hlag => ⟨⟨[], _, hx.congr rfl rfl rfl⟩, hp.stray, ?_⟩
  · rw [outputLen, hlag, Bool.true_and]
    rcases preLag_cases dev (t.advance 8) with ⟨he, hm⟩ | ⟨f, he, hf⟩ | ⟨hm, a, u, he, hu, hbu, hxu⟩
    · simp only [he, Except.bind, gt_iff_lt, Nat.lt_irrefl, false_and, if_false, hm, Bool.false_eq_true]
      refine ⟨⟨[], _, hx.congr rfl rfl ?_⟩, hp.stray, hlen'⟩
      change max (max t.reach (t.actLen + 8)) (t.actLen + 8) = max t.reach (t.actLen + 8)
      rw [Nat.max_assoc, Nat.max_self]
    · rw [he]
      exact hb.trans hf
    · rw [he, hm]
      refine meets_guard (fun _ => hb.trans hbu) fun _ => ?_
      refine ⟨⟨_, _, (hx.trans hxu).congr rfl rfl rfl⟩, hbu.stray.trans hp.stray, ?_⟩
      change u.actLen + 8 = s.actLen + 16
      rw [hu, hlen']
  · rw [outputLen, Bool.eq_false_of_not_eq_true hlag]
    exact hlen'

theorem sized_adds (a : Act) (msg : String) (shortcut : BitVec 32) :
    Meets s (Added s a.size) (sized a msg shortcut s) :=
  meets_guard (fun _ => .refl s) fun _ => ⟨⟨[], _, (extends_push s a).congr rfl rfl rfl⟩, rfl, rfl⟩

theorem pushMpls_adds (bos : Option (BitVec 1)) (tc : Option (BitVec 3)) (label : BitVec 20) (ttl : BitVec 8)
    (proto : BitVec 16) : Meets s (Added s 8) (nfpFlPushMpls bos tc label ttl proto s) := by
  refine meets_guard (fun _ => .refl s) fun h => ?_
  have hlen : s.actLen + 8 ≤ maxASiz := le_of_not_gt h
  cases bos with
  | none =>
    have hb : Bounded s (s.put s.actLen (.pushMpls 0 0)) := bounded_put hlen
    exact ⟨hb.up, hb.cap, rfl⟩
  | some bos => exact ⟨⟨[], _, (extends_push s _).congr rfl rfl rfl⟩, rfl, rfl⟩

theorem meterAction_adds (meterId : BitVec 32) : Meets s (Added s 8) (nfpFlowerMeterAction env meterId s) :=
  meets_guard (fun _ => .refl s) fun _ => meets_guard (fun _ => .refl s) fun _ => ⟨⟨[], _, extends_push s _⟩, rfl, rfl⟩

abbrev genevePushes (opts : List GeneveOpt) : List Act := (opts.map Act.pushGeneve).reverse

theorem total_genevePushes_cons (opt : GeneveOpt) (opts : List GeneveOpt) :
    total Act.size (genevePushes (opt :: opts)) = total Act.size (genevePushes opts) + (Act.pushGeneve opt).size := by
  rw [genevePushes, List.map_cons, List.reverse_cons, total_append, total_cons, total_nil, add_zero]

theorem geneveScan_total {opts : List GeneveOpt} {cnt tot r : Nat} (h : geneveScan opts cnt tot = .ok r) :
    r = tot + total Act.size (genevePushes opts) := by
  induction opts generalizing cnt tot with
  | nil =>
    rw [geneveScan, Except.ok.injEq] at h
    exact h.symm
  | cons opt opts ih =>
    rw [geneveScan] at h
    split at h
    · cases h
    split at h
    · cases h
    · rw [ih h, total_genevePushes_cons]
      omega

structure Filled (start : Nat) (as : List Act) (s t : ActState) : Prop where
  len : t.actLen = s.actLen
  stray : t.stray = s.stray
  type : t.tunType = s.tunType
  reach : start + total Act.size as ≤ s.reach → t.reach = s.reach
  outside : ∀ x, x < start ∨ start + total Act.size as ≤ x → t.data x = s.data x
  holds : Holds Act.size t.data start as

theorem geneveFill_filled (start : Nat) (opts : List GeneveOpt) (s : ActState) :
    Filled start (genevePushes opts) s (geneveFill start opts (total Act.size (genevePushes opts)) s) := by
  induction opts generalizing s with
  | nil => exact ⟨rfl, rfl, rfl, fun _ => rfl, fun _ _ => rfl, trivial⟩
  | cons opt opts ih =>
    -- the last option is written first, at the far end of the block
    have h := ih (s.put (start + total Act.size (genevePushes opts)) (.pushGeneve opt))
    rw [total_genevePushes_cons, geneveFill, Nat.add_sub_cancel]
    refine ⟨h.len, h.stray, h.type, fun hr => ?_, fun x hx => ?_, ?_⟩
    · rw [total_genevePushes_cons] at hr
      have hmax : (s.put (start + total Act.size (genevePushes opts)) (.pushGeneve opt)).reach = s.reach :=
        max_eq_left (by rw [add_assoc]; exact hr)
      rw [← hmax]
      exact h.reach (by rw [hmax]; omega)
    · rw [total_genevePushes_cons] at hx
      rw [h.outside x (by omega)]
      rcases hx with hx | hx
      · exact write_below (by omega)
      · exact write_above (by omega)
    · change Holds Act.size _ start ((opt :: opts).map Act.pushGeneve).reverse
      rw [List.map_cons, List.reverse_cons, holds_append]
      refine ⟨h.holds, fun i hi => ?_, trivial⟩
      rw [h.outside _ (.inr (Nat.le_add_right _ _))]
      exact write_at hi

theorem Filled.advance {as : List Act} (h : Filled s.actLen as (s.advance (total Act.size as)) t) :
    Extends s [] as t where
  len := by
    rw [h.len, total_nil, zero_add]
    exact Nat.le_add_right _ _
  kept x hx := by
    rw [total_nil, zero_add, h.outside x (.inl hx)]
    rfl
  reach _ := by
    rw [h.reach (le_max_right _ _), h.len]
    rfl
  sum := by
    rw [h.len, total_nil, zero_add]
    rfl
  front := trivial
  back := by
    rw [total_nil, zero_add]
    exact h.holds

def encapLen (tun : IpTunnelInfo) : Nat := 20 + total Act.size (genevePushes tun.opts) + 28

theorem preTunAct_size : (preTunAct tun).size = 20 := by
  rw [preTunAct]
  split <;> rfl

theorem pushGeneveOptions_spec :
    Meets s (fun t => Extends s [] (genevePushes tun.opts) t ∧ t.stray = s.stray ∧ t.tunType = s.tunType ∧
      t.actLen ≤ maxASiz) (nfpFlPushGeneveOptions tun s) := by
  rw [nfpFlPushGeneveOptions]
  cases hg : geneveScan tun.opts 0 0 with
  | error msg => exact .refl s
  | ok tot =>
    refine meets_guard (fun _ => .refl s) fun hlen => ?_
    have htot : tot = total Act.size (genevePushes tun.opts) := by
      rw [geneveScan_total hg, zero_add]
    rw [htot]
    have hf := geneveFill_filled s.actLen tun.opts (s.advance (total Act.size (genevePushes tun.opts)))
    refine ⟨hf.advance, hf.stray, hf.type, ?_⟩
    rw [hf.len, ← htot]
    exact le_of_not_gt hlen

theorem setTun_spec :
    Meets s (fun t => ∃ st, t = (s.put s.actLen (.setTunnel st)).put 0 (preTunAct tun)) (nfpFlSetTun env tun s) :=
  meets_guard (fun _ => .refl s) fun _ => meets_guard (fun _ => .refl s) fun _ =>
    meets_guard (fun _ => .refl s) fun _ =>
    meets_guard (fun _ => .refl s) fun _ => ⟨_, rfl⟩

theorem Meets.weaken {r : Compiled} {P : ActState → Prop} (h : Bounded s t) (hm : Meets t P r) : Meets s P r := by
  cases r with
  | ok u => exact hm
  | error f => exact h.trans hm

theorem Extends.bounded {pre post : List Act} (h : Extends s pre post t) (hs : s.actLen ≤ s.reach)
    (hst : t.stray = s.stray)
    (hlen : t.actLen ≤ maxASiz) : Bounded s t where
  up := h.up hs
  cap hr := by
    rw [h.reach hs]
    exact Nat.max_le.mpr ⟨hr, hlen⟩
  stray := hst

theorem tunnelEncap_adds (rest : List FlowAction) (hs : s.actLen ≤ s.reach) :
    Meets s (Added s (encapLen tun)) (tunnelEncap env tun rest s) := by
  have hb : Bounded s { s with tunType := nfpFlGetTunFromAct env tun rest } := ⟨le_rfl, id, rfl⟩
  refine meets_guard (fun _ => hb) fun _ => meets_guard (fun _ => hb) fun _ => meets_guard (fun _ => hb) fun hlen => ?_
  have hlen : s.actLen + 20 + 28 ≤ maxASiz := le_of_not_gt hlen
  have hx := extends_insert s (.preTunnel 0 0)
  obtain ⟨u, hu⟩ : ∃ u, { (nfpFlPreTunnel { s with tunType := nfpFlGetTunFromAct env tun rest }).advance 20 with
      shortcut := scActNull } = u := ⟨_, rfl⟩
  have hxu : Extends s [.preTunnel 0 0] [] u := by
    rw [← hu]
    exact hx.congr rfl rfl rfl
  have hst : u.stray = s.stray := by
    rw [← hu]
    rfl
  have hul : u.actLen = s.actLen + 20 := by
    rw [← hu]
    rfl
  have hbu : Bounded s u := hxu.bounded hs hst (by omega)
  rw [hu]
  refine ((pushGeneveOptions_spec tun).weaken hbu).bind fun v hv => ?_
  obtain ⟨hxv, hsv, -, hvl⟩ := hv
  have hxv' := hxu.trans hxv
  have hbv : Bounded s v := hxv'.bounded hs (hsv.trans hst) hvl
  refine ((setTun_spec env tun).weaken hbv).bind fun w hw => ?_
  obtain ⟨st, rfl⟩ := hw
  have hfinal : Extends s [preTunAct tun] (genevePushes tun.opts ++ [.setTunnel st])
      (((v.put v.actLen (.setTunnel st)).put 0 (preTunAct tun)).advance 28) := by
    rw [put_advance]
    exact (hxv'.trans (extends_push v (.setTunnel st))).replace (preTunAct_size tun)
  refine ⟨⟨_, _, hfinal⟩, hsv.trans hst, ?_⟩
  rw [hfinal.sum, total_append, total_cons, total_cons, total_nil, preTunAct_size, encapLen]
  change _ + (_ + (28 + 0)) = _
  omega

end NfpDriver.Flower
