import Mathlib.Algebra.Ring.Nat
import NfpDriver.Library.Runs

namespace NfpDriver.FlowSteer

open Function List Runs

abbrev nfpFsMaxEntry : Nat := 1024
abbrev flowRss : BitVec 32 := 0x20000000
abbrev rxClsFlowDisc : BitVec 64 := BitVec.allOnes 64
abbrev enoent : Int := -2
abbrev enomem : Int := -12
abbrev einval : Int := -22
abbrev enospc : Int := -28
abbrev eopnotsupp : Int := -95

inductive Flow where
  | l4 (v6 : Bool) (proto : BitVec 8)
  | ipUser (v6 : Bool)
  | ether
  deriving DecidableEq

-- the flow types of ethtool: TCP, UDP and SCTP over IPv4 and IPv6, the two user flows, and ETHER_FLOW
def flowOf (flowType : BitVec 32) : Option Flow :=
  match (flowType &&& ~~~flowRss).toNat with
  | 0x01 => some (.l4 false 6)
  | 0x02 => some (.l4 false 17)
  | 0x03 => some (.l4 false 132)
  | 0x05 => some (.l4 true 6)
  | 0x06 => some (.l4 true 17)
  | 0x07 => some (.l4 true 132)
  | 0x0d => some (.ipUser false)
  | 0x0e => some (.ipUser true)
  | 0x12 => some .ether
  | _ => none

-- the members of `ethtool_flow_union` that are read, `tos` is also the traffic class
structure FlowUnion where
  ip4src : BitVec 32
  ip4dst : BitVec 32
  ip6src : BitVec 128
  ip6dst : BitVec 128
  psrc : BitVec 16
  pdst : BitVec 16
  tos : BitVec 8
  proto : BitVec 8
  l4FourBytes : BitVec 32
  ipVer : BitVec 8
  hDest : BitVec 48
  hSource : BitVec 48
  hProto : BitVec 16

-- an IPv4 address is the low word of `sip` or `dip`; keys are compared for equal flow types only
structure Key where
  sip : BitVec 128
  dip : BitVec 128
  proto : BitVec 16
  sport : BitVec 16
  dport : BitVec 16
  deriving DecidableEq

structure Entry where
  flowType : BitVec 32
  loc : Nat
  key : Key
  msk : Key
  action : BitVec 64

structure Spec where
  flowType : BitVec 32
  location : Nat
  ringCookie : BitVec 64
  rssContext : BitVec 32
  h : FlowUnion
  m : FlowUnion
  kzalloc : Bool

def FlowUnion.key (u : FlowUnion) : Flow → Key
  | .l4 false _ => ⟨u.ip4src.setWidth 128, u.ip4dst.setWidth 128, 0, u.psrc, u.pdst⟩
  | .l4 true _ => ⟨u.ip6src, u.ip6dst, 0, u.psrc, u.pdst⟩
  | .ipUser false => ⟨u.ip4src.setWidth 128, u.ip4dst.setWidth 128, u.proto.setWidth 16, 0, 0⟩
  | .ipUser true => ⟨u.ip6src, u.ip6dst, u.proto.setWidth 16, 0, 0⟩
  | .ether => ⟨0, 0, u.hProto, 0, 0⟩

def Key.and (a b : Key) : Key :=
  ⟨a.sip &&& b.sip, a.dip &&& b.dip, a.proto &&& b.proto, a.sport &&& b.sport, a.dport &&& b.dport⟩

def nfpNetFsFromEthtool (flow : Flow) (fs : Spec) : Entry :=
  let msk := fs.m.key flow
  let key := (fs.h.key flow).and msk
  match flow with
  | .l4 _ proto =>
    ⟨fs.flowType, fs.location, { key with proto := proto.setWidth 16 }, { msk with proto := 0xff }, fs.ringCookie⟩
  | _ => ⟨fs.flowType, fs.location, key, msk, fs.ringCookie⟩

def unsuppMask (h m : FlowUnion) : Flow → Bool
  | .l4 _ _ => m.tos ≠ 0
  | .ipUser false => m.l4FourBytes ≠ 0 ∨ m.tos ≠ 0 ∨ m.ipVer ≠ 0 ∨ h.ipVer ≠ 1
  | .ipUser true => m.l4FourBytes ≠ 0 ∨ m.tos ≠ 0
  | .ether => h.hProto = 0x0800 ∨ h.hProto = 0x86dd ∨ m.hDest ≠ 0 ∨ m.hSource ≠ 0 ∨ m.hProto ≠ 0xffff

structure IpWords (n : Nat) where
  proto : BitVec 8
  sip : BitVec n
  dip : BitVec n
  sport : BitVec 16
  dport : BitVec 16
  deriving DecidableEq

def Key.words (n : Nat) (k : Key) : IpWords n :=
  ⟨k.proto.setWidth 8, k.sip.setWidth n, k.dip.setWidth n, k.sport, k.dport⟩

-- what a command to the hardware says of a rule; only the IP commands carry the location
inductive Rule where
  | v4 (loc : BitVec 16) (key msk : IpWords 32) (action : BitVec 32)
  | v6 (loc : BitVec 16) (key msk : IpWords 128) (action : BitVec 32)
  | ethtype (l3Proto : BitVec 16) (action : BitVec 32)
  | unset (action : BitVec 32)
  deriving DecidableEq

def nfpNetFsFillAct (entry : Entry) : BitVec 32 :=
  if entry.action = rxClsFlowDisc then 1
  else if entry.flowType &&& flowRss = 0 then (entry.action.setWidth 32 <<< 16 &&& 0x7f0000) ||| 2
  else 0

-- `nfp_net_fs_add_hw` and `nfp_net_fs_del_hw` write the same words behind their opcodes
def Entry.rule (e : Entry) : Rule :=
  match flowOf e.flowType with
  | some (.l4 false _) | some (.ipUser false) =>
    .v4 (BitVec.ofNat 16 e.loc) (e.key.words 32) (e.msk.words 32) (nfpNetFsFillAct e)
  | some (.l4 true _) | some (.ipUser true) =>
    .v6 (BitVec.ofNat 16 e.loc) (e.key.words 128) (e.msk.words 128) (nfpNetFsFillAct e)
  | some .ether => .ethtype e.key.proto (nfpNetFsFillAct e)
  | none => .unset (nfpNetFsFillAct e)

structure Fs where
  list : List Entry
  count : Nat
  hw : Rule → Bool

structure Caps where
  flowSteer : Bool
  numRxRings : Nat

def Same (a b : Entry) : Prop := (a.flowType ^^^ b.flowType) &&& ~~~flowRss = 0 ∧ a.key = b.key ∧ a.msk = b.msk

instance sameDecidable (a b : Entry) : Decidable (Same a b) := inferInstanceAs (Decidable (_ ∧ _))

-- the entries the loop passed, the one it found at the location, and those it did not reach
def walk (loc : Nat) : List Entry → List Entry × Option Entry × List Entry
  | [] => ([], none, [])
  | entry :: l =>
    if entry.loc = loc then ([], some entry, l)
    else if entry.loc > loc then ([], none, entry :: l)
    else (entry :: (walk loc l).1, (walk loc l).2)

inductive Cmd where
  | add (spec : Spec) (delHw addHw : Int)
  | del (location : Nat) (delHw : Int)

def initial : Fs := ⟨[], 0, fun _ => false⟩

def Ordered (l : List Entry) : Prop := l.Pairwise fun a b => a.loc < b.loc ∧ ¬Same a b

structure Agrees (fs : Fs) : Prop where
  ordered : Ordered fs.list
  count : fs.count = fs.list.length
  bound : fs.count ≤ nfpFsMaxEntry
  hardware : ∀ r, fs.hw r = true ↔ ∃ e ∈ fs.list, e.rule = r

def nfpNetFsCheckExisting (l : List Entry) (new : Entry) : Int :=
  match l.find? fun entry => decide (new.loc ≠ entry.loc ∧ Same new entry) with
  | some entry => entry.loc
  | none => -1

def prepare (caps : Caps) (fs : Fs) (spec : Spec) : Except Int Entry :=
  if caps.flowSteer = false then .error eopnotsupp
  else if spec.flowType &&& flowRss ≠ 0 ∧ spec.rssContext ≠ 0 then .error eopnotsupp
  else if spec.location ≥ nfpFsMaxEntry then .error einval
  else if spec.ringCookie ≠ rxClsFlowDisc ∧ spec.ringCookie.toNat ≥ caps.numRxRings then .error einval
  else
    match flowOf spec.flowType with
    | none => .error eopnotsupp
    | some flow =>
      let new := nfpNetFsFromEthtool flow spec
      if unsuppMask spec.h spec.m flow then .error eopnotsupp
      else if spec.kzalloc = false then .error enomem
      else if nfpNetFsCheckExisting fs.list new ≥ 0 then .error einval
      else .ok new

-- `nn->fs.count--` behind a delete command that took effect
def Fs.withdraw (fs : Fs) (entry : Entry) : Fs :=
  ⟨fs.list, (fs.count + 2 ^ 16 - 1) % 2 ^ 16, update fs.hw entry.rule false⟩

def Fs.remove (fs : Fs) (before : List Entry) (entry : Entry) (after : List Entry) : Fs :=
  ⟨before ++ after, (fs.count + 2 ^ 16 - 1) % 2 ^ 16, update fs.hw entry.rule false⟩

def Fs.insert (fs : Fs) (before : List Entry) (new : Entry) (after : List Entry) : Fs :=
  ⟨before ++ new :: after, (fs.count + 1) % 2 ^ 16, update fs.hw new.rule true⟩

-- `delHw` and `addHw` are the results of the two commands, 0 when the command took effect
def nfpNetFsAdd (caps : Caps) (fs : Fs) (spec : Spec) (delHw addHw : Int) : Fs × Int :=
  match prepare caps fs spec with
  | .error err => (fs, err)
  | .ok new =>
    match walk new.loc fs.list with
    | (before, some entry, after) =>
      if delHw ≠ 0 then (fs, delHw)
      else if addHw ≠ 0 then (fs.withdraw entry, addHw)
      else ((fs.remove before entry after).insert before new after, 0)
    | (before, none, after) =>
      if fs.count = nfpFsMaxEntry then (fs, enospc)
      else if addHw ≠ 0 then (fs, addHw)
      else (fs.insert before new after, 0)

def nfpNetFsDel (caps : Caps) (fs : Fs) (location : Nat) (delHw : Int) : Fs × Int :=
  if caps.flowSteer = false then (fs, eopnotsupp)
  else if fs.count = 0 ∨ location ≥ nfpFsMaxEntry then (fs, einval)
  else
    match walk location fs.list with
    | (before, some entry, after) => if delHw ≠ 0 then (fs, delHw) else (fs.remove before entry after, 0)
    | (_, none, _) => (fs, enoent)

def step (caps : Caps) (fs : Fs) : Cmd → Option Fs
  | .add spec delHw addHw => some (nfpNetFsAdd caps fs spec delHw addHw).1
  | .del location delHw => some (nfpNetFsDel caps fs location delHw).1

def Completes (caps : Caps) (fs : Fs) : Cmd → Prop
  | .add spec delHw addHw =>
    ∀ new, prepare caps fs spec = .ok new → (∃ e ∈ fs.list, e.loc = new.loc) → delHw = 0 → addHw = 0
  | .del _ _ => True

theorem Same.symm {a b : Entry} (h : Same a b) : Same b a :=
  ⟨by rw [BitVec.xor_comm]; exact h.1, h.2.1.symm, h.2.2.symm⟩

theorem walk_spec {l : List Entry} (loc : Nat) (hl : Ordered l) :
    l = (walk loc l).1 ++ ((walk loc l).2.1.toList ++ (walk loc l).2.2) ∧ (∀ e ∈ (walk loc l).1, e.loc < loc) ∧
      (∀ e ∈ (walk loc l).2.2, loc < e.loc) ∧ ∀ e ∈ (walk loc l).2.1, e.loc = loc := by
  induction l with
  | nil => simp [walk]
  | cons a l ih =>
    obtain ⟨ha, hl⟩ := pairwise_cons.mp hl
    obtain ⟨h1, h2, h3⟩ := ih hl
    rw [walk]
    split_ifs with heq hgt
    · exact ⟨rfl, by simp, fun e he => heq ▸ (ha e he).1, by simpa using heq⟩
    · exact ⟨rfl, by simp, by simpa using ⟨hgt, fun e he => lt_trans hgt (ha e he).1⟩, by simp⟩
    · exact ⟨congrArg (cons a) h1, by simpa using ⟨by omega, h2⟩, h3⟩

theorem agrees_initial : Agrees initial :=
  ⟨.nil, rfl, Nat.zero_le _, fun _ => iff_of_false Bool.false_ne_true fun ⟨_, h, _⟩ => nomatch h⟩

-- an Ethernet command carries neither the location nor the mask, so its type alone has to tell two rules apart
structure Made (e : Entry) : Prop where
  loc : e.loc < nfpFsMaxEntry
  known : flowOf e.flowType ≠ none
  ether : flowOf e.flowType = some .ether → e.msk = ⟨0, 0, 0xffff, 0, 0⟩ ∧ e.key = ⟨0, 0, e.key.proto, 0, 0⟩

theorem flowOf_ether {t : BitVec 32} (h : flowOf t = some .ether) : t &&& ~~~flowRss = 0x12 := by
  rw [flowOf] at h
  split at h
  case h_9 heq => exact BitVec.eq_of_toNat_eq heq
  all_goals cases h

theorem same_of_ether {a b : Entry} (ha : Made a) (hb : Made b) (hfa : flowOf a.flowType = some .ether)
    (hfb : flowOf b.flowType = some .ether) (hp : a.key.proto = b.key.proto) : Same a b := by
  refine ⟨?_, ?_, (ha.ether hfa).1.trans (hb.ether hfb).1.symm⟩
  · have hxor : (a.flowType ^^^ b.flowType) &&& ~~~flowRss =
        (a.flowType &&& ~~~flowRss) ^^^ (b.flowType &&& ~~~flowRss) := by
      ext i hi
      simp [Bool.and_xor_distrib_right]
    rw [hxor, flowOf_ether hfa, flowOf_ether hfb]
    rfl
  · rw [(ha.ether hfa).2, (hb.ether hfb).2, hp]

def Rule.loc : Rule → Option (BitVec 16)
  | .v4 loc _ _ _ | .v6 loc _ _ _ => some loc
  | .ethtype _ _ | .unset _ => none

theorem rule_loc {e : Entry} (he : Made e) (hne : flowOf e.flowType ≠ some .ether) :
    e.rule.loc = some (BitVec.ofNat 16 e.loc) := by
  rw [Entry.rule]
  split
  · rfl
  · rfl
  · rfl
  · rfl
  · exact absurd ‹_› hne
  · exact absurd ‹_› he.known

theorem rule_ether {e : Entry} (h : flowOf e.flowType = some .ether) :
    e.rule = .ethtype e.key.proto (nfpNetFsFillAct e) := by
  rw [Entry.rule, h]

theorem rule_ne {a b : Entry} (ha : Made a) (hb : Made b) (hloc : a.loc ≠ b.loc) (hs : ¬Same a b) :
    a.rule ≠ b.rule := by
  intro h
  by_cases hfa : flowOf a.flowType = some .ether
  · by_cases hfb : flowOf b.flowType = some .ether
    · rw [rule_ether hfa, rule_ether hfb, Rule.ethtype.injEq] at h
      exact hs (same_of_ether ha hb hfa hfb h.1)
    · exact nomatch (congrArg Rule.loc ((rule_ether hfa).symm.trans h)).trans (rule_loc hb hfb)
  · have hl := (rule_loc ha hfa).symm.trans (congrArg Rule.loc h)
    by_cases hfb : flowOf b.flowType = some .ether
    · rw [rule_ether hfb] at hl
      cases hl
    · have hl := congrArg BitVec.toNat (Option.some.inj (hl.trans (rule_loc hb hfb)))
      rw [BitVec.toNat_ofNat, BitVec.toNat_ofNat, Nat.mod_eq_of_lt (lt_trans ha.loc (by decide)),
        Nat.mod_eq_of_lt (lt_trans hb.loc (by decide))] at hl
      exact hloc hl

variable {caps : Caps} {fs : Fs} {spec : Spec} {new entry : Entry} {before after : List Entry}

theorem prepare_ok (h : prepare caps fs spec = .ok new) :
    Made new ∧ ∀ e ∈ fs.list, e.loc ≠ new.loc → ¬Same new e := by
  obtain ⟨flow, hflow⟩ : ∃ flow, flowOf spec.flowType = some flow := by
    cases hflow : flowOf spec.flowType with
    | some flow => exact ⟨flow, rfl⟩
    | none =>
      simp only [prepare, hflow] at h
      split_ifs at h
  simp only [prepare, hflow] at h
  split_ifs at h with _ _ hloc _ hmask _ hdup
  cases h
  constructor
  · cases flow with
    | ether =>
      refine ⟨not_le.mp hloc, fun hn => (nomatch hflow.symm.trans hn), fun _ => ?_⟩
      simp only [unsuppMask, decide_eq_true_eq, not_or, not_not] at hmask
      obtain ⟨-, -, -, -, hm⟩ := hmask
      simp [nfpNetFsFromEthtool, FlowUnion.key, Key.and, hm]
    | l4 | ipUser =>
      exact ⟨not_le.mp hloc, fun hn => (nomatch hflow.symm.trans hn), fun hn => (nomatch hflow.symm.trans hn)⟩
  · intro e he hne hsame
    rw [nfpNetFsCheckExisting] at hdup
    split at hdup
    · exact absurd (Int.natCast_nonneg _) hdup
    · next hnone => exact find?_eq_none.mp hnone e he (decide_eq_true ⟨hne.symm, hsame⟩)

theorem Agrees.remove (h : Agrees fs) (hm : ∀ e ∈ fs.list, Made e) (hl : fs.list = before ++ entry :: after) :
    Agrees (fs.remove before entry after) := by
  obtain ⟨hord, hcount, hbound, hhw⟩ := h
  rw [hl] at hord hhw hcount hm
  rw [length_append, length_cons] at hcount
  have hmax : nfpFsMaxEntry = 1024 := rfl
  obtain ⟨-, h2, h3⟩ := pairwise_append.mp hord
  have hentry : Made entry := hm entry (mem_append_right _ mem_cons_self)
  have hne (e : Entry) (he : e ∈ before ∨ e ∈ after) : e.rule ≠ entry.rule := by
    rcases he with he | he
    · obtain ⟨hlt, hs⟩ := h3 e he entry mem_cons_self
      exact rule_ne (hm e (mem_append_left _ he)) hentry (ne_of_lt hlt) hs
    · obtain ⟨hlt, hs⟩ := (pairwise_cons.mp h2).1 e he
      exact (rule_ne hentry (hm e (mem_append_right _ (mem_cons_of_mem _ he))) (ne_of_lt hlt) hs).symm
  refine ⟨hord.sublist ((sublist_cons_self _ _).append_left _), ?_, ?_, fun r => ?_⟩
  · simp only [Fs.remove, length_append]
    omega
  · simp only [Fs.remove]
    omega
  · have hr := hhw r
    simp only [Fs.remove, update_apply, mem_append, mem_cons] at hr ⊢
    grind

theorem Agrees.insert (h : Agrees fs) (hfull : fs.count ≠ nfpFsMaxEntry) (hl : fs.list = before ++ after)
    (hb : ∀ e ∈ before, e.loc < new.loc) (ha : ∀ e ∈ after, new.loc < e.loc)
    (hs : ∀ e ∈ fs.list, e.loc ≠ new.loc → ¬Same new e) : Agrees (fs.insert before new after) := by
  obtain ⟨hord, hcount, hbound, hhw⟩ := h
  rw [hl] at hord hhw hs hcount
  obtain ⟨h1, h2, h3⟩ := pairwise_append.mp hord
  rw [length_append] at hcount
  have hmax : nfpFsMaxEntry = 1024 := rfl
  refine ⟨pairwise_append.mpr ⟨h1, pairwise_cons.mpr ⟨fun e he => ⟨ha e he, ?_⟩, h2⟩, fun a hx b hy => ?_⟩, ?_, ?_,
    fun r => ?_⟩
  · exact hs e (mem_append_right _ he) (ne_of_gt (ha e he))
  · rcases mem_cons.mp hy with rfl | hy
    · exact ⟨hb a hx, fun hc => hs a (mem_append_left _ hx) (ne_of_lt (hb a hx)) hc.symm⟩
    · exact h3 a hx b hy
  · simp only [Fs.insert, length_append, length_cons]
    omega
  · simp only [Fs.insert]
    omega
  · have hr := hhw r
    simp only [Fs.insert, update_apply, mem_append, mem_cons] at hr ⊢
    grind

theorem withdraw_list : (fs.withdraw entry).list = fs.list := by
  obtain ⟨list, count, hw⟩ := fs
  dsimp only [Fs.withdraw]

section Add

variable (delHw addHw : Int)

theorem add_found (hp : prepare caps fs spec = .ok new) (hw : walk new.loc fs.list = (before, some entry, after)) :
    nfpNetFsAdd caps fs spec delHw addHw =
      if delHw ≠ 0 then (fs, delHw)
      else if addHw ≠ 0 then (fs.withdraw entry, addHw)
      else ((fs.remove before entry after).insert before new after, 0) := by
  rw [nfpNetFsAdd, hp]
  dsimp only
  rw [hw]

theorem add_free (hp : prepare caps fs spec = .ok new) (hw : walk new.loc fs.list = (before, none, after)) :
    nfpNetFsAdd caps fs spec delHw addHw =
      if fs.count = nfpFsMaxEntry then (fs, enospc)
      else if addHw ≠ 0 then (fs, addHw)
      else (fs.insert before new after, 0) := by
  rw [nfpNetFsAdd, hp]
  dsimp only
  rw [hw]

end Add

theorem Agrees.add (h : Agrees fs) (hm : ∀ e ∈ fs.list, Made e) (delHw addHw : Int) :
    Agrees (nfpNetFsAdd caps fs spec delHw addHw).1 ↔ Completes caps fs (.add spec delHw addHw) := by
  rw [Completes]
  cases hp : prepare caps fs spec with
  | error err =>
    rw [nfpNetFsAdd, hp]
    exact iff_of_true h fun _ hc => nomatch hc
  | ok new =>
    have hspec := walk_spec new.loc h.ordered
    rcases hw : walk new.loc fs.list with ⟨before, o, after⟩
    rw [hw] at hspec
    obtain ⟨hl, hb, ha, ho⟩ := hspec
    have hnew := (prepare_ok hp).2
    cases o with
    | none =>
      have hnone : ¬∃ e ∈ fs.list, e.loc = new.loc := by
        rintro ⟨e, he, hloc⟩
        rw [hl] at he
        rcases mem_append.mp he with he | he
        · exact ne_of_lt (hb e he) hloc
        · exact ne_of_gt (ha e he) hloc
      refine iff_of_true ?_ fun n hn hex => absurd (Except.ok.inj hn ▸ hex) hnone
      rw [add_free delHw addHw hp hw]
      split_ifs with hfull
      · exact h
      · exact h
      · exact h.insert hfull hl hb ha hnew
    | some entry =>
      replace hl : fs.list = before ++ entry :: after := hl
      have hrem := h.remove hm hl
      have hlen := congrArg length hl
      have hex : ∃ e ∈ fs.list, e.loc = new.loc := ⟨entry, hl ▸ mem_append_right _ mem_cons_self, ho entry rfl⟩
      have hc := hrem.count
      have hbound := h.bound
      rw [length_append, length_cons] at hlen
      simp only [Fs.remove, length_append] at hc
      rw [add_found delHw addHw hp hw]
      split_ifs with hd hadd
      · exact iff_of_true h fun _ _ _ h0 => absurd h0 hd
      · -- the rule has left the hardware and the count, but not the list
        refine iff_of_false (fun hc' => ?_) fun hcomp => hadd (hcomp new rfl hex (not_not.mp hd))
        have hc' := hc'.count
        rw [withdraw_list] at hc'
        simp only [Fs.withdraw] at hc'
        omega
      · refine iff_of_true (hrem.insert ?_ rfl hb ha fun e he => hnew e ?_) fun _ _ _ _ => not_not.mp hadd
        · have hcount := h.count
          simp only [Fs.remove]
          omega
        · rw [hl]
          exact ((sublist_cons_self _ _).append_left before).subset he

theorem del_cases (hl : Ordered fs.list) (location : Nat) (delHw : Int) :
    (nfpNetFsDel caps fs location delHw).1 = fs ∨ ∃ before entry after, fs.list = before ++ entry :: after ∧
      (nfpNetFsDel caps fs location delHw).1 = fs.remove before entry after := by
  have hspec := (walk_spec location hl).1
  rw [nfpNetFsDel]
  split
  · exact .inl rfl
  split
  · exact .inl rfl
  rcases hw : walk location fs.list with ⟨before, _ | entry, after⟩
  · exact .inl rfl
  rw [hw] at hspec
  dsimp only
  split
  · exact .inl rfl
  · exact .inr ⟨before, entry, after, hspec, rfl⟩

theorem Agrees.del (h : Agrees fs) (hm : ∀ e ∈ fs.list, Made e) (location : Nat) (delHw : Int) :
    Agrees (nfpNetFsDel caps fs location delHw).1 := by
  rcases @del_cases caps fs h.ordered location delHw with hd | ⟨before, entry, after, hl, hd⟩
  · rw [hd]
    exact h
  · rw [hd]
    exact h.remove hm hl

theorem agrees_step {fs' : Fs} {c : Cmd} (h : Agrees fs ∧ ∀ e ∈ fs.list, Made e) (hs : step caps fs c = some fs') :
    Agrees fs' ↔ Completes caps fs c := by
  cases c with
  | add spec delHw addHw =>
    cases hs
    exact h.1.add h.2 delHw addHw
  | del location delHw =>
    cases hs
    exact iff_of_true (h.1.del h.2 location delHw) trivial

theorem add_mem {e : Entry} {delHw addHw : Int} (hl : Ordered fs.list)
    (he : e ∈ (nfpNetFsAdd caps fs spec delHw addHw).1.list) : e ∈ fs.list ∨ prepare caps fs spec = .ok e := by
  cases hp : prepare caps fs spec with
  | error err =>
    rw [nfpNetFsAdd, hp] at he
    exact .inl he
  | ok new =>
    have hspec := (walk_spec new.loc hl).1
    have hput (hin : e ∈ (walk new.loc fs.list).1 ++ new :: (walk new.loc fs.list).2.2) :
        e ∈ fs.list ∨ (Except.ok new : Except Int Entry) = .ok e := by
      rw [hspec, mem_append, mem_append]
      rcases mem_append.mp hin with hin | hin
      · exact .inl (.inl hin)
      · rcases mem_cons.mp hin with rfl | hin
        · exact .inr rfl
        · exact .inl (.inr (.inr hin))
    rcases hw : walk new.loc fs.list with ⟨before, _ | entry, after⟩
    · rw [hw] at hput
      rw [add_free delHw addHw hp hw] at he
      split_ifs at he
      · exact .inl he
      · exact .inl he
      · exact hput he
    · rw [hw] at hput
      rw [add_found delHw addHw hp hw] at he
      split_ifs at he
      · exact .inl he
      · rw [withdraw_list] at he
        exact .inl he
      · exact hput he

theorem made_step {fs' : Fs} {c : Cmd} (h : Agrees fs ∧ ∀ e ∈ fs.list, Made e) (hs : step caps fs c = some fs') :
    ∀ e ∈ fs'.list, Made e := by
  obtain ⟨h, hm⟩ := h
  intro e he
  cases c with
  | add spec delHw addHw =>
    cases hs
    rcases add_mem h.ordered he with he | hp
    · exact hm e he
    · exact (prepare_ok hp).1
  | del location delHw =>
    cases hs
    rcases @del_cases caps fs h.ordered location delHw with hd | ⟨before, entry, after, hl, hd⟩
    · exact hm e (hd ▸ he)
    · rw [hd] at he
      refine hm e ?_
      rw [hl]
      exact ((sublist_cons_self _ _).append_left before).subset he

theorem flow_rules_agree_iff (caps : Caps) (cmds : List Cmd) :
    Always (step caps) Agrees initial cmds ↔ Guarded (step caps) (Completes caps) initial cmds := by
  have htotal (s : Fs) (c : Cmd) : ∃ s', step caps s c = some s' := by cases c <;> exact ⟨_, rfl⟩
  obtain ⟨t, ht⟩ := run_total htotal initial cmds
  have hstart : Agrees initial ∧ ∀ e ∈ initial.list, Made e := ⟨agrees_initial, fun _ he => nomatch he⟩
  exact always_iff_guarded (fun _ h => h.1) (fun _ _ _ => agrees_step) (fun _ _ _ h hs hP => ⟨hP, made_step h hs⟩)
    hstart ht

def noFields : FlowUnion := ⟨0, 0, 0, 0, 0, 0, 0, 0, 0, 0, 0, 0, 0⟩

-- TCP over IPv4 to port 80, at location 3
def queueRule (queue : BitVec 64) : Spec :=
  ⟨1, 3, queue, 0, { noFields with pdst := 80 }, { noFields with pdst := 0xffff }, true⟩

theorem failed_replacement_kept :
    ¬Always (step ⟨true, 4⟩) Agrees initial [.add (queueRule 0) 0 0, .add (queueRule 1) 0 (-5)] := by
  intro h
  have := (h.last rfl).count
  exact absurd this (by decide)

end NfpDriver.FlowSteer
