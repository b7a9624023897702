import NfpDriver.Flower.ActionSteps

namespace NfpDriver.Flower

open Records Option

inductive Part where
  | eth
  | ipTtlTos
  | ipAddr
  | ip6TcHlFl
  | ip6Src
  | ip6Dst
  | tport
  deriving DecidableEq, Repr

def Part.size : Part → Nat
  | .eth => 28
  | .ipTtlTos => 8
  | .ipAddr => 20
  | .ip6TcHlFl => 16
  | .ip6Src => 36
  | .ip6Dst => 36
  | .tport => 12

def Part.all : List Part := [.eth, .ipTtlTos, .ipAddr, .ip6TcHlFl, .ip6Src, .ip6Dst, .tport]

def strays : FlowAction → Bool
  | .mangle .eth offset _ _ => wraps offset
  | _ => false

def FlowAction.part : FlowAction → Option Part
  | .mangle .eth offset _ _ => if wraps offset then none else some .eth
  | .mangle .ip4 offset _ _ => if offset = 12 ∨ offset = 16 then some .ipAddr else some .ipTtlTos
  | .mangle .ip6 offset _ _ =>
    if offset.toNat < 8 then some .ip6TcHlFl else if offset.toNat < 24 then some .ip6Src else some .ip6Dst
  | .mangle .tcp _ _ _ | .mangle .udp _ _ _ => some .tport
  | _ => none

def FlowAction.size (env : ActEnv) : FlowAction → Nat
  | .redirect dev | .redirectIngress dev | .mirred dev | .mirredIngress dev => outputLen env dev
  | .vlanPop | .mplsPop _ => 4
  | .vlanPush .. | .mplsPush .. | .police _ => 8
  | .tunnelEncap tun => encapLen tun
  | .mplsMangle .. => 12
  | .drop | .tunnelDecap | .mangle .. | .csum _ | .ptype _ | .other => 0

def touches (run : List FlowAction) (q : Part) : Bool := run.any fun act => act.part = some q

def runSize (run : List FlowAction) : Nat := (Part.all.map fun q => if touches run q then q.size else 0).sum

def tearsRun (run : List FlowAction) : Bool := touches run .ip6Src && touches run .ip6Dst && touches run .tport

def extendRun (run : List FlowAction) (act : FlowAction) : List FlowAction := if act.isMangle then act :: run else []

-- the mangles that are committed together, the last one first
def runs (past : Bool) : List FlowAction → List FlowAction → List (List FlowAction)
  | _, [] => []
  | run, act :: rest =>
    if nfpFlCheckMangleEnd act rest past then extendRun run act :: runs past (extendRun run act) rest
    else runs past (extendRun run act) rest

def compiledSize (env : ActEnv) (past : Bool) (run acts : List FlowAction) : Nat :=
  (acts.map (FlowAction.size env)).sum + ((runs past run acts).map runSize).sum

variable {s t : ActState} {env : ActEnv} {past : Bool} {p : PeditActs} {q : Part} {a : Act}

def PeditActs.act (p : PeditActs) : Part → Option Act
  | .eth => p.eth
  | .ipTtlTos => p.ipTtlTos
  | .ipAddr => p.ipAddr
  | .ip6TcHlFl => p.ip6TcHlFl
  | .ip6Src => p.ip6Src
  | .ip6Dst => p.ip6Dst
  | .tport => p.tport

def PeditActs.has (p : PeditActs) (q : Part) : Bool := (p.act q).isSome

theorem act_size (h : p.act q = some a) : a.size = q.size := by
  cases q with
  | tport =>
    obtain ⟨f, -, rfl⟩ := map_eq_some_iff.mp h
    split <;> rfl
  | _ =>
    obtain ⟨f, -, rfl⟩ := map_eq_some_iff.mp h
    rfl

structure Pedited (s : ActState) (stray : Bool) (part : Option Part) (t : ActState) : Prop where
  data : t.data = s.data
  len : t.actLen = s.actLen
  reach : t.reach = s.reach
  stray : t.stray = (s.stray || stray)
  sets : ∀ r, t.setAct.has r = (decide (part = some r) || s.setAct.has r)

theorem pedited_set (hq : (p.act q).isSome = true) (ho : ∀ r, q ≠ r → p.act r = s.setAct.act r) :
    Pedited s false (some q) { s with setAct := p } := by
  refine ⟨rfl, rfl, rfl, (Bool.or_false _).symm, fun r => ?_⟩
  by_cases hr : q = r
  · rw [decide_eq_true (congrArg some hr), Bool.true_or, ← hr]
    exact hq
  · rw [decide_eq_false fun h => hr (some.inj h), Bool.false_or]
    exact congrArg isSome (ho r hr)

theorem setEth_pedits (off mask exact : BitVec 32) :
    Meets s (Pedited s (wraps off) (if wraps off then none else some .eth)) (nfpFlSetEth off mask exact s) := by
  refine meets_guard (fun _ => .refl s) fun _ => meets_guard (fun _ => .refl s) fun _ =>
    meets_guard (fun hw => ?_) fun hw => ?_
  · rw [if_pos hw, hw]
    exact ⟨rfl, rfl, rfl, (Bool.or_true _).symm, fun r => rfl⟩
  · rw [if_neg hw, Bool.eq_false_of_not_eq_true hw]
    exact pedited_set rfl fun r hr => by cases r <;> first | rfl | exact absurd rfl hr

theorem setIp4_pedits (off mask exact : BitVec 32) :
    Meets s (Pedited s false (if off = 12 ∨ off = 16 then some .ipAddr else some .ipTtlTos))
      (nfpFlSetIp4 off mask exact s) := by
  have addr (v : (BitVec 32 × BitVec 32) × (BitVec 32 × BitVec 32)) :
      Pedited s false (some .ipAddr) { s with setAct := { s.setAct with setIpAddr := v } } :=
    pedited_set rfl fun r hr => by cases r <;> first | rfl | exact absurd rfl hr
  have ttlTos (v : (BitVec 8 × BitVec 8) × (BitVec 8 × BitVec 8)) :
      Pedited s false (some .ipTtlTos) { s with setAct := { s.setAct with setIpTtlTos := v } } :=
    pedited_set rfl fun r hr => by cases r <;> first | rfl | exact absurd rfl hr
  refine meets_guard (fun _ => .refl s) fun _ => meets_guard (fun h16 => ?_) fun h16 =>
    meets_guard (fun h12 => ?_) fun h12 => ?_
  · rw [if_pos (.inr h16)]
    exact addr _
  · rw [if_pos (.inl h12)]
    exact addr _
  · rw [if_neg (not_or.mpr ⟨h12, h16⟩)]
    exact meets_guard (fun _ => meets_guard (fun _ => .refl s) fun _ => ttlTos _) fun _ =>
      meets_guard (fun _ => meets_guard (fun _ => .refl s) fun _ => ttlTos _) fun _ => Bounded.refl s

theorem setIp6_pedits (off mask exact : BitVec 32) :
    Meets s (Pedited s false (if off.toNat < 8 then some .ip6TcHlFl else if off.toNat < 24 then some .ip6Src
      else some .ip6Dst)) (nfpFlSetIp6 off mask exact s) := by
  have flow (v : (BitVec 8 × BitVec 8) × (BitVec 32 × BitVec 32)) :
      Pedited s false (some .ip6TcHlFl) { s with setAct := { s.setAct with setIp6TcHlFl := v } } :=
    pedited_set rfl fun r hr => by cases r <;> first | rfl | exact absurd rfl hr
  refine meets_guard (fun _ => .refl s) fun _ => meets_guard (fun h8 => ?_) fun h8 => ?_
  · rw [if_pos h8]
    exact meets_guard (fun _ => meets_guard (fun _ => .refl s) fun _ => flow _) fun _ =>
      meets_guard (fun _ => meets_guard (fun _ => .refl s) fun _ => flow _) fun _ => flow _
  rw [if_neg h8]
  refine meets_guard (fun h24 => ?_) fun h24 => ?_
  · rw [if_pos h24]
    exact pedited_set rfl fun r hr => by cases r <;> first | rfl | exact absurd rfl hr
  · rw [if_neg h24]
    refine meets_guard (fun _ => ?_) fun _ => Bounded.refl s
    exact pedited_set rfl fun r hr => by cases r <;> first | rfl | exact absurd rfl hr

theorem setTport_pedits (tcp : Bool) (off mask exact : BitVec 32) :
    Meets s (Pedited s false (some .tport)) (nfpFlSetTport tcp off mask exact s) :=
  meets_guard (fun _ => .refl s) fun _ => meets_guard (fun _ => .refl s) fun _ =>
    pedited_set rfl fun r hr => by cases r <;> first | rfl | exact absurd rfl hr

theorem pedit_pedits (htype : MangleBase) (offset mask val : BitVec 32) :
    Meets s (Pedited s (strays (.mangle htype offset mask val)) (FlowAction.mangle htype offset mask val).part)
      (nfpFlPedit htype offset mask val s) := by
  cases htype with
  | eth => exact setEth_pedits offset _ val
  | ip4 => exact setIp4_pedits offset _ val
  | ip6 => exact setIp6_pedits offset _ val
  | tcp => exact setTport_pedits true offset _ val
  | udp => exact setTport_pedits false offset _ val
  | unspec => exact .refl s

structure Stepped (env : ActEnv) (s : ActState) (act : FlowAction) (t : ActState) : Prop where
  grows : ∃ pre post, Extends s pre post t
  stray : t.stray = (s.stray || strays act)
  len : t.actLen = s.actLen + act.size env
  sets : act.isMangle = true → ∀ q, t.setAct.has q = (decide (act.part = some q) || s.setAct.has q)

variable {act : FlowAction} {c : Commit}

theorem Added.stepped (h : Added s (act.size env) t) (hst : strays act = false) (hm : act.isMangle = false) :
    Stepped env s act t :=
  ⟨h.grows, by rw [hst, Bool.or_false, h.stray], h.len, fun h => absurd h (by rw [hm]; decide)⟩

theorem loopAction_steps (env : ActEnv) (act : FlowAction) (rest : List FlowAction) (hs : s.actLen ≤ s.reach) :
    Meets s (Stepped env s act) (nfpFlowerLoopAction env act rest s) := by
  have added {r : Compiled} {act : FlowAction} (h : Meets s (Added s (act.size env)) r) (hst : strays act = false)
      (hm : act.isMangle = false) : Meets s (Stepped env s act) r := h.mono fun _ ht => ht.stepped hst hm
  have same {t : ActState} (hd : t.data = s.data) (hl : t.actLen = s.actLen) (hr : t.reach = s.reach)
      (hs : t.stray = s.stray) : Added s 0 t := added_same hd hl hr hs
  cases act with
  | drop => exact added (r := .ok _) (same rfl rfl rfl rfl) rfl rfl
  | redirect dev | redirectIngress dev => exact added (outputAction_adds env true dev) rfl rfl
  | mirred dev | mirredIngress dev => exact added (outputAction_adds env false dev) rfl rfl
  | vlanPop | vlanPush => exact added (sized_adds _ _ _) rfl rfl
  | tunnelEncap tun => exact added (tunnelEncap_adds env tun rest hs) rfl rfl
  | tunnelDecap => exact added (r := .ok _) (same rfl rfl rfl rfl) rfl rfl
  | mangle htype offset mask val =>
    exact (pedit_pedits htype offset mask val).mono fun t ht =>
      ⟨⟨[], [], .of_eq ht.data ht.len ht.reach⟩, ht.stray, ht.len, fun _ => ht.sets⟩
  | csum flags => exact added (meets_guard (fun _ => .refl s) fun _ => same rfl rfl rfl rfl) rfl rfl
  | mplsPush bos tc label ttl proto => exact added (pushMpls_adds bos tc label ttl proto) rfl rfl
  | mplsPop | mplsMangle => exact added (sized_adds _ _ _) rfl rfl
  | ptype host => exact added (meets_guard (fun _ => same rfl rfl rfl rfl) fun _ => Bounded.refl s) rfl rfl
  | police hwIndex => exact added (meets_guard (fun _ => meterAction_adds env hwIndex) fun _ => Bounded.refl s) rfl rfl
  | other => exact Bounded.refl s

def PeditActs.acts (p : PeditActs) : List Act :=
  p.eth.toList ++ p.ipTtlTos.toList ++ p.ipAddr.toList ++ p.ip6TcHlFl.toList ++ p.ip6Src.toList ++ p.ip6Dst.toList ++
    p.tport.toList

def PeditActs.tears (p : PeditActs) : Bool := p.ip6Src.isSome && p.ip6Dst.isSome && p.tport.isSome

structure Laid (s : ActState) (as : List Act) (c : Commit) : Prop extends Extends s [] as c.st where
  next : c.nfpAction + c.actSize = c.st.actLen
  stray : c.st.stray = s.stray

theorem Laid.place {as : List Act} (h : Laid s as c) (oa : Option Act) : Laid s (as ++ oa.toList) (c.place oa) := by
  cases oa with
  | none =>
    rw [toList_none, List.append_nil]
    exact h
  | some a =>
    have hx := h.toExtends.trans (extends_push c.st a)
    have he : (c.place (some a)).st = c.st.push a := by
      rw [ActState.push, ← h.next]
      rfl
    refine ⟨he ▸ hx, ?_, h.stray⟩
    exact congrArg (· + a.size) h.next

def Commit.first (s : ActState) : Commit :=
  ((((Commit.mk s s.actLen 0).place s.setAct.eth).place s.setAct.ipTtlTos).place s.setAct.ipAddr).place
    s.setAct.ip6TcHlFl

def PeditActs.first (p : PeditActs) : List Act :=
  p.eth.toList ++ p.ipTtlTos.toList ++ p.ipAddr.toList ++ p.ip6TcHlFl.toList

theorem first_laid (s : ActState) : Laid s s.setAct.first (Commit.first s) :=
  let start : Laid s [] ⟨s, s.actLen, 0⟩ := ⟨.of_eq rfl rfl rfl, rfl, rfl⟩
  (((start.place _).place _).place _).place _

theorem placeIp6_place {src dst : Option Act} (h : (src.isSome && dst.isSome) = false) :
    c.placeIp6 src dst = (c.place src).place dst := by
  cases src with
  | none => rfl
  | some a =>
    cases dst with
    | none => rfl
    | some b => cases h

theorem placeIp6_st (c : Commit) (src dst : Option Act) : (c.placeIp6 src dst).st = ((c.place src).place dst).st := by
  cases src with
  | none => rfl
  | some a =>
    cases dst with
    | none | some => rfl

theorem commit_extends (ipProto : BitVec 8) (h : s.setAct.tears = false) :
    Extends s [] s.setAct.acts (nfpFlCommitMangle ipProto s) ∧ (nfpFlCommitMangle ipProto s).stray = s.stray := by
  have hl := ((first_laid s).place s.setAct.ip6Src).place s.setAct.ip6Dst
  rw [PeditActs.tears, Bool.and_eq_false_iff] at h
  rcases h with h | h
  · have hl' := hl.place s.setAct.tport
    rw [← placeIp6_place h] at hl'
    exact ⟨hl'.toExtends.congr rfl rfl rfl, hl'.stray⟩
  rw [isSome_eq_false_iff, isNone_iff_eq_none] at h
  have hx : Extends s [] (s.setAct.first ++ s.setAct.ip6Src.toList ++ s.setAct.ip6Dst.toList)
      ((Commit.first s).placeIp6 s.setAct.ip6Src s.setAct.ip6Dst).st := by
    rw [placeIp6_st]
    exact hl.toExtends
  have hst : ((Commit.first s).placeIp6 s.setAct.ip6Src s.setAct.ip6Dst).st.stray = s.stray := by
    rw [placeIp6_st]
    exact hl.stray
  rw [PeditActs.acts, nfpFlCommitMangle, h, toList_none, List.append_nil]
  exact ⟨hx.congr rfl rfl rfl, hst⟩

-- the ports are written over the last action, which leaves its end behind them
theorem Laid.torn {as : List Act} {src dst tp : Act} (hf : Laid s as c) (hsrc : src.size = 36) (hdst : dst.size = 36)
    (htp : tp.size = 12) :
    Torn (write ((c.place (some src)).place (some dst)).st.data (c.st.actLen + dst.size) tp.size tp)
      (c.st.actLen + src.size + dst.size + tp.size) := by
  have hdata : ((c.place (some src)).place (some dst)).st.data (c.st.actLen + src.size + 12) = some (dst, 12) := by
    have hnext : c.nfpAction + c.actSize + src.size = c.st.actLen + src.size := congrArg (· + src.size) hf.next
    rw [← hnext]
    exact write_at (by rw [hdst]; decide)
  rw [hsrc] at hdata
  rw [hdst]
  refine ⟨c.st.actLen + 36 + 11, tp, 11, dst, 11, by omega, write_at (by rw [htp]; decide), ?_, ?_⟩
  · rw [← hdata]
    exact write_above (by rw [htp])
  · intro he
    exact absurd (htp.symm.trans ((congrArg Act.size he).trans hdst)) (by decide)

theorem commit_torn (ipProto : BitVec 8) (h : s.setAct.tears = true) :
    Grows s (nfpFlCommitMangle ipProto s) 0 ∧ (nfpFlCommitMangle ipProto s).stray = s.stray ∧
      (nfpFlCommitMangle ipProto s).actLen = s.actLen + total Act.size s.setAct.acts ∧
      Torn (nfpFlCommitMangle ipProto s).data (nfpFlCommitMangle ipProto s).actLen := by
  rw [PeditActs.tears, Bool.and_eq_true, Bool.and_eq_true] at h
  obtain ⟨src, hsrc⟩ := isSome_iff_exists.mp h.1.1
  obtain ⟨dst, hdst⟩ := isSome_iff_exists.mp h.1.2
  obtain ⟨tp, htp⟩ := isSome_iff_exists.mp h.2
  have hsize1 : src.size = 36 := act_size (q := .ip6Src) hsrc
  have hsize2 : dst.size = 36 := act_size (q := .ip6Dst) hdst
  have hsize3 : tp.size = 12 := act_size (q := .tport) htp
  have hf := first_laid s
  have hl := (hf.place (some src)).place (some dst)
  obtain ⟨c, hc⟩ := @exists_eq' _ (Commit.first s)
  rw [hc] at hf hl
  obtain ⟨u, hu⟩ := @exists_eq' _ (((c.place (some src)).place (some dst)).st)
  have hcommit : nfpFlCommitMangle ipProto s =
      { (u.put (c.st.actLen + dst.size) tp).advance tp.size with
        csumUpdated := s.csumUpdated ||| s.setAct.csum ipProto } := by
    rw [nfpFlCommitMangle, hsrc, hdst, htp, ← hu, ← hf.next, ← hc]
    rfl
  have hx := hl.toExtends
  have hlen : u.actLen = c.st.actLen + src.size + dst.size := by
    rw [← hu]
    rfl
  have hcl : s.actLen ≤ c.st.actLen := by
    have := hf.len
    rwa [total_nil, zero_add] at this
  rw [hu] at hx
  have hsum := hx.sum
  rw [total_nil, zero_add] at hsum
  rw [hsize1, hsize2] at hlen
  rw [hcommit]
  refine ⟨⟨?_, fun x hx' => ?_, fun hr => ?_⟩, ?_, ?_, ?_⟩
  · change 0 + s.actLen ≤ u.actLen + tp.size
    omega
  · have hk := hx.kept x hx'
    rw [total_nil] at hk
    rw [← hk]
    exact write_below (by omega)
  · change max (max u.reach (c.st.actLen + dst.size + tp.size)) (u.actLen + tp.size) = max s.reach (u.actLen + tp.size)
    rw [hx.reach hr, hsize2]
    omega
  · rw [← hl.stray, ← hu]
    rfl
  · change u.actLen + tp.size = _
    have hacts : s.setAct.acts = (s.setAct.first ++ (some src).toList ++ (some dst).toList) ++ [tp] := by
      rw [PeditActs.acts, hsrc, hdst, htp]
      rfl
    rw [hsum, hacts, total_append _ [tp], total_cons, total_nil, add_zero, add_assoc]
  · rw [← hu]
    exact hf.torn hsize1 hsize2 hsize3

theorem commit_grows (ipProto : BitVec 8) (s : ActState) :
    Grows s (nfpFlCommitMangle ipProto s) 0 ∧ (nfpFlCommitMangle ipProto s).stray = s.stray ∧
      (nfpFlCommitMangle ipProto s).actLen = s.actLen + total Act.size s.setAct.acts := by
  rcases Bool.eq_false_or_eq_true s.setAct.tears with ht | ht
  · obtain ⟨hg, hst, hlen, -⟩ := commit_torn ipProto ht
    exact ⟨hg, hst, hlen⟩
  · obtain ⟨hx, hst⟩ := commit_extends ipProto ht
    refine ⟨hx.toGrows, hst, ?_⟩
    rw [hx.sum, total_nil, zero_add]

theorem total_acts (p : PeditActs) :
    total Act.size p.acts = (Part.all.map fun q => total Act.size (p.act q).toList).sum := by
  simp only [PeditActs.acts, PeditActs.act, Part.all, total_append, List.map_cons, List.map_nil, List.sum_cons,
    List.sum_nil, add_zero, add_assoc]

theorem total_act (p : PeditActs) (q : Part) : total Act.size (p.act q).toList = if p.has q then q.size else 0 := by
  rw [PeditActs.has]
  cases h : p.act q with
  | none => rfl
  | some a => exact act_size h

theorem commit_setAct (ipProto : BitVec 8) (s : ActState) : (nfpFlCommitMangle ipProto s).setAct = s.setAct := by
  have hplace (c : Commit) (oa : Option Act) : (c.place oa).st.setAct = c.st.setAct := by
    cases oa <;> rfl
  change ((((((Commit.mk s s.actLen 0).place _).place _).place _).place _).placeIp6 _ _ |>.place _).st.setAct = _
  rw [hplace, placeIp6_st]
  simp only [hplace]

section Run

variable {run rest : List FlowAction} {prev : Bool}

theorem runSize_eq (h : ∀ q, p.has q = touches run q) : total Act.size p.acts = runSize run := by
  rw [total_acts, runSize]
  congr 1
  refine List.map_congr_left fun q _ => ?_
  rw [total_act, h]

theorem tearsRun_eq (h : ∀ q, p.has q = touches run q) : p.tears = tearsRun run := by
  rw [tearsRun, ← h, ← h, ← h]
  rfl

structure Collects (prev : Bool) (run : List FlowAction) (s : ActState) : Prop where
  fresh : prev = false → run = []
  sets : prev = true → ∀ q, s.setAct.has q = touches run q

theorem Collects.start (h : Collects prev run s) (hm : act.isMangle = true) (q : Part) :
    (mangleStart prev act s).setAct.has q = touches run q := by
  rw [mangleStart, nfpFlCheckMangleStart, hm, Bool.true_and]
  cases hp : prev with
  | true => exact h.sets hp q
  | false =>
    rw [h.fresh hp]
    cases q <;> rfl

theorem Stepped.collects (hc : Collects prev run s) (h : Stepped env (mangleStart prev act s) act t) :
    Collects act.isMangle (extendRun run act) t := by
  refine ⟨fun hm => ?_, fun hm q => ?_⟩
  · rw [extendRun, hm]
    rfl
  · rw [h.sets hm, hc.start hm, extendRun, if_pos hm]
    rfl

end Run

def Contained (s : ActState) : Prop := s.reach ≤ maxASiz ∧ s.stray = false

def Listed (s : ActState) : Prop := ∃ as, Holds Act.size s.data 0 as ∧ total Act.size as = s.actLen

theorem Listed.not_torn (h : Listed s) : ¬ Torn s.data s.actLen := by
  obtain ⟨as, hh, hl⟩ := h
  rw [← hl]
  exact hh.not_torn

theorem Extends.listed {pre post : List Act} (h : Extends s pre post t) (hs : Listed s) : Listed t :=
  let ⟨_, hh, hl⟩ := hs
  ⟨_, h.holds hh hl⟩

theorem Bounded.contained (h : Bounded s t) (hs : Contained s) : Contained t := ⟨h.cap hs.1, h.stray.trans hs.2⟩

structure Passed (env : ActEnv) (past : Bool) (run : List FlowAction) (act : FlowAction) (rest : List FlowAction)
    (s t : ActState) : Prop where
  len : t.actLen = s.actLen + (act.size env +
    if nfpFlCheckMangleEnd act rest past then runSize (extendRun run act) else 0)
  reach : t.reach = max s.reach t.actLen
  stray : t.stray = (s.stray || strays act)
  collects : Collects act.isMangle (extendRun run act) t
  torn : Torn s.data s.actLen ∨
    nfpFlCheckMangleEnd act rest past = true ∧ tearsRun (extendRun run act) = true → Torn t.data t.actLen
  listed : (nfpFlCheckMangleEnd act rest past = true → tearsRun (extendRun run act) = false) → Listed s → Listed t

variable {run rest acts : List FlowAction} {prev : Bool}

theorem mangleStart_same (prev : Bool) (act : FlowAction) (s : ActState) :
    (mangleStart prev act s).data = s.data ∧ (mangleStart prev act s).actLen = s.actLen ∧
      (mangleStart prev act s).reach = s.reach ∧ (mangleStart prev act s).stray = s.stray := by
  rw [mangleStart]
  split <;> exact ⟨rfl, rfl, rfl, rfl⟩

theorem Stepped.passed (h : Stepped env (mangleStart prev act s) act t) (hs : s.actLen ≤ s.reach)
    (hc : Collects prev run s) : Passed env past run act rest s (mangleEnd env past act rest t) := by
  obtain ⟨hd, hl, hr, hst⟩ := mangleStart_same prev act s
  obtain ⟨pre, post, hx⟩ := h.grows
  have hcol := h.collects hc
  have hlen := h.len
  have hstray := h.stray
  have hreach := hx.reach (by rwa [hl, hr])
  have htr (ht : Torn s.data s.actLen) : Torn t.data t.actLen := hx.torn (by rwa [hd, hl])
  have hli (hs : Listed s) : Listed t := hx.listed (by rwa [Listed, hd, hl])
  rw [hl] at hlen
  rw [hr] at hreach
  rw [hst] at hstray
  rw [mangleEnd]
  cases he : nfpFlCheckMangleEnd act rest past with
  | false =>
    refine ⟨by rw [he]; exact hlen, hreach, hstray, hcol, fun ht => ?_, fun _ => hli⟩
    rcases ht with ht | ⟨hf, -⟩
    · exact htr ht
    · exact absurd (he.symm.trans hf) Bool.false_ne_true
  | true =>
    have hm : act.isMangle = true := (Bool.and_eq_true_iff.mp he).1
    have hsets := hcol.sets hm
    obtain ⟨hg, hcst, hclen⟩ := commit_grows env.ipProto t
    rw [runSize_eq hsets] at hclen
    have hfits : t.actLen ≤ t.reach := hreach ▸ Nat.le_max_right _ _
    refine ⟨?_, ?_, hcst.trans hstray, ⟨hcol.fresh, fun hm q => ?_⟩, fun ht => ?_, fun ht hls => ?_⟩
    · rw [if_pos rfl, hclen, hlen, he, if_pos rfl, add_assoc]
    · rw [if_pos rfl, hg.reach hfits, hreach, hclen]
      omega
    · rw [if_pos rfl, commit_setAct]
      exact hcol.sets hm q
    · rw [if_pos rfl]
      rcases ht with ht | ⟨-, ht⟩
      · exact hg.torn (htr ht)
      · rw [← tearsRun_eq hsets] at ht
        exact (commit_torn env.ipProto ht).2.2.2
    · rw [if_pos rfl]
      have hwhole : t.setAct.tears = false := (tearsRun_eq hsets).trans (ht he)
      exact (commit_extends env.ipProto hwhole).1.listed (hli hls)

theorem Passed.fits {u : ActState} (h : Passed env past run act rest s u) : u.actLen ≤ u.reach :=
  h.reach ▸ Nat.le_max_right _ _

theorem compiledSize_cons : compiledSize env past run (act :: rest) =
    act.size env + (if nfpFlCheckMangleEnd act rest past then runSize (extendRun run act) else 0) +
      compiledSize env past (extendRun run act) rest := by
  rw [compiledSize, compiledSize, List.map_cons, List.sum_cons, runs]
  split
  · rw [List.map_cons, List.sum_cons]
    omega
  · omega

theorem compileLoop_passes (act : FlowAction) (rest : List FlowAction) (hs : s.actLen ≤ s.reach)
    (hc : Collects prev run s) :
    (∃ f, compileLoop env past prev (act :: rest) s = .error f ∧ Bounded s f.st) ∨
      ∃ u, compileLoop env past prev (act :: rest) s = compileLoop env past act.isMangle rest u ∧
        Passed env past run act rest s u := by
  obtain ⟨-, hl, hr, hst⟩ := mangleStart_same prev act s
  have hstep := loopAction_steps env act rest (show (mangleStart prev act s).actLen ≤ _ by rwa [hl, hr])
  rw [compileLoop]
  cases hloop : nfpFlowerLoopAction env act rest (mangleStart prev act s) with
  | error f =>
    rw [hloop] at hstep
    exact .inl ⟨f, rfl, ⟨hr ▸ hstep.up, hr ▸ hstep.cap, hst ▸ hstep.stray⟩⟩
  | ok t =>
    rw [hloop] at hstep
    exact .inr ⟨_, rfl, hstep.passed hs hc⟩

theorem compileLoop_ok (h : compileLoop env past prev acts s = .ok t) (hs : s.actLen ≤ s.reach)
    (hc : Collects prev run s) : t.actLen = s.actLen + compiledSize env past run acts ∧ t.reach = max s.reach t.actLen ∧
      t.stray = (s.stray || acts.any strays) := by
  induction acts generalizing prev s run with
  | nil =>
    obtain rfl := Except.ok.inj h
    exact ⟨rfl, (max_eq_left hs).symm, (Bool.or_false _).symm⟩
  | cons act rest ih =>
    rcases compileLoop_passes act rest hs hc with ⟨f, hf, -⟩ | ⟨u, hu, hp⟩
    · cases hf.symm.trans h
    obtain ⟨hlen, hreach, hstray⟩ := ih (hu.symm.trans h) hp.fits hp.collects
    refine ⟨?_, ?_, ?_⟩
    · rw [hlen, hp.len, compiledSize_cons, add_assoc]
    · rw [hreach, hp.reach, hlen]
      omega
    · rw [hstray, hp.stray, List.any_cons, Bool.or_assoc]

def Compiled.state : Compiled → ActState
  | .ok s => s
  | .error f => f.st

theorem compileLoop_contained (hs : s.actLen ≤ s.reach) (hc : Collects prev run s) (h : Contained s)
    (hstray : acts.any strays = false) (hlen : s.actLen + compiledSize env past run acts ≤ maxASiz) :
    Contained (compileLoop env past prev acts s).state := by
  induction acts generalizing prev s run with
  | nil => exact h
  | cons act rest ih =>
    rw [List.any_cons, Bool.or_eq_false_iff] at hstray
    rw [compiledSize_cons] at hlen
    rcases compileLoop_passes act rest hs hc with ⟨f, hf, hb⟩ | ⟨u, hu, hp⟩
    · rw [hf]
      exact hb.contained h
    · have hul := hp.len
      rw [hu]
      refine ih hp.fits hp.collects ⟨?_, ?_⟩ hstray.2 (by omega)
      · rw [hp.reach]
        exact Nat.max_le.mpr ⟨h.1, by omega⟩
      · rw [hp.stray, h.2, hstray.1]
        rfl

theorem compileLoop_torn (h : compileLoop env past prev acts s = .ok t) (hs : s.actLen ≤ s.reach)
    (hc : Collects prev run s) (ht : Torn s.data s.actLen) : Torn t.data t.actLen := by
  induction acts generalizing prev s run with
  | nil => exact Except.ok.inj h ▸ ht
  | cons act rest ih =>
    rcases compileLoop_passes act rest hs hc with ⟨f, hf, -⟩ | ⟨u, hu, hp⟩
    · cases hf.symm.trans h
    · exact ih (hu.symm.trans h) hp.fits hp.collects (hp.torn (.inl ht))

theorem compileLoop_listed (h : compileLoop env past prev acts s = .ok t) (hs : s.actLen ≤ s.reach)
    (hc : Collects prev run s) (hl : Listed s) : Listed t ↔ ∀ r ∈ runs past run acts, tearsRun r = false := by
  induction acts generalizing prev s run with
  | nil => exact iff_of_true (Except.ok.inj h ▸ hl) fun r hr => nomatch hr
  | cons act rest ih =>
    rcases compileLoop_passes act rest hs hc with ⟨f, hf, -⟩ | ⟨u, hu, hp⟩
    · cases hf.symm.trans h
    have h := hu.symm.trans h
    rw [runs]
    cases he : nfpFlCheckMangleEnd act rest past with
    | false =>
      rw [if_neg Bool.false_ne_true]
      exact ih h hp.fits hp.collects (hp.listed (fun hf => absurd (he.symm.trans hf) Bool.false_ne_true) hl)
    | true =>
      rw [if_pos rfl, List.forall_mem_cons]
      cases ht : tearsRun (extendRun run act) with
      | false =>
        rw [and_iff_right rfl]
        exact ih h hp.fits hp.collects (hp.listed (fun _ => ht) hl)
      | true =>
        have htorn := compileLoop_torn h hp.fits hp.collects (hp.torn (.inr ⟨he, ht⟩))
        exact iff_of_false (fun hlt => hlt.not_torn htorn) fun hf => Bool.false_ne_true hf.1.symm

theorem Act.lenLw_size (a : Act) : a.lenLw.toNat * 4 = a.size := by
  have h : a.size % 4 = 0 ∧ a.size < 1024 := by
    cases a with
    | pushGeneve opt =>
      change (8 + opt.length.toNat * 4) % 4 = 0 ∧ 8 + opt.length.toNat * 4 < 1024
      omega
    | _ => simp only [Act.size, Nat.reduceMod, Nat.reduceLT, and_self]
  rw [Act.lenLw, BitVec.toNat_ofNat, Nat.shiftRight_eq_div_pow]
  change a.size / 4 % 256 * 4 = a.size
  omega

theorem sum_lenLw (as : List Act) : (as.map fun a => a.lenLw.toNat * 4).sum = total Act.size as := by
  exact congrArg List.sum (List.map_congr_left fun a _ => a.lenLw_size)

def ActionsSound (r : Except Failure CompiledMeta) : Prop :=
  match r with
  | .error f => Contained f.st
  | .ok m =>
    Contained m.st ∧ ∃ as, Holds Act.size m.st.data 0 as ∧ total Act.size as = m.st.actLen ∧
      (as.map fun a => a.lenLw.toNat * 4).sum = m.actLen.toNat

structure ActionsFit (env : ActEnv) (past : Bool) (acts : List FlowAction) : Prop where
  straight : acts.any strays = false
  whole : ∀ run ∈ runs past [] acts, tearsRun run = false
  short : compiledSize env past [] acts < 256

def plainEnv : ActEnv where
  hwStatsOk := true
  configIpv6 := true
  feats := ⟨true, true, true, true, true⟩
  preTunRules := true
  decapV2 := true
  qosMeter := true
  enableLag := false
  inDevIsRepr := true
  ipProto := 6
  meterKnown _ := true
  routeTtl _ := 64

def reprDev : OutDev where
  toNetDevice := ⟨false, false, fun _ => false⟩
  lagMaster := false
  lagOutputId := none
  lagPreAction := .error none
  internalCanOffload := false
  sameParentId := true
  isNfpRepr := true
  portId := 3

def ethMangle : FlowAction := .mangle .eth 0 0xffffff00 0x11

def mangleRuns (n : Nat) : List FlowAction := (List.replicate n [ethMangle, .tunnelDecap]).flatten

theorem ethMangle_sets (rest : List FlowAction) (s : ActState) :
    ∃ f, nfpFlowerLoopAction plainEnv ethMangle rest s = .ok { s with setAct := { s.setAct with setEth := some f } } :=
  ⟨_, rfl⟩

theorem mangleRuns_ok (n : Nat) (s : ActState) (hs : s.actLen ≤ s.reach) :
    ∃ t, compileLoop plainEnv false false (mangleRuns n) s = .ok t ∧ t.actLen = s.actLen + 28 * n ∧
      t.actLen ≤ t.reach := by
  induction n generalizing s with
  | zero => exact ⟨s, rfl, rfl, hs⟩
  | succ n ih =>
    obtain ⟨f, hf⟩ := ethMangle_sets (.tunnelDecap :: mangleRuns n) { s with setAct := {} }
    obtain ⟨u, hu⟩ := @exists_eq' _ ({ s with setAct := { setEth := some f } })
    have hsu : u.actLen ≤ u.reach := by
      rw [← hu]
      exact hs
    obtain ⟨t, ht, hl, hr⟩ := ih (nfpFlCommitMangle 6 u) ((commit_grows 6 u).1.fits hsu)
    refine ⟨t, ?_, ?_, hr⟩
    · rw [← ht, ← hu]
      change compileLoop plainEnv false false (ethMangle :: .tunnelDecap :: mangleRuns n) s = _
      change (nfpFlowerLoopAction plainEnv ethMangle (.tunnelDecap :: mangleRuns n) { s with setAct := {} }).bind _ = _
      rw [hf]
      rfl
    · rw [hl, ← hu]
      change s.actLen + 28 + 28 * n = _
      omega

end NfpDriver.Flower
