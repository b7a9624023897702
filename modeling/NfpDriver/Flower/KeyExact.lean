import NfpDriver.Flower.KeyLayout

namespace NfpDriver.Flower

open Layout List

inductive Tunnel where
  | none
  | gre (ipv6 : Bool)
  | vxlan (ipv6 : Bool)
  | geneve (ipv6 options : Bool)
  deriving DecidableEq, Repr

namespace Tunnel

def type : Tunnel → TunType
  | .none => .none
  | .gre _ => .gre
  | .vxlan _ => .vxlan
  | .geneve .. => .geneve

def isGre : Tunnel → Bool
  | .gre _ => true
  | _ => false

def isVxlan : Tunnel → Bool
  | .vxlan _ => true
  | _ => false

def isGeneve : Tunnel → Bool
  | .geneve .. => true
  | _ => false

def ipv6 : Tunnel → Bool
  | .none => false
  | .gre v6 => v6
  | .vxlan v6 => v6
  | .geneve v6 _ => v6

def options : Tunnel → Bool
  | .geneve _ op => op
  | _ => false

def extended (t : Tunnel) : Bool := t.isGre || t.isGeneve || t.ipv6

def bytes : Tunnel → Nat
  | .none => 0
  | .gre v6 => sizeofExtMeta + if v6 then sizeofIpv6GreTun else sizeofIpv4GreTun
  | .vxlan v6 => if v6 then sizeofExtMeta + sizeofIpv6UdpTun else sizeofIpv4UdpTun
  | .geneve v6 op =>
    sizeofExtMeta + (if v6 then sizeofIpv6UdpTun else sizeofIpv4UdpTun) + if op then sizeofGeneveOptions else 0

end Tunnel

structure Shape where
  mac : Bool
  qinq : Bool
  tunnel : Tunnel
  ip : Option Bool
  tp : Bool
  deriving DecidableEq, Repr

namespace Shape

def ipBytes : Option Bool → Nat
  | none => 0
  | some false => sizeofIpv4
  | some true => sizeofIpv6

def key (s : Shape) : KeyLs where
  keyLayer := ⟨s.qinq || s.tunnel.extended, true, s.mac, s.tp, s.ip = some false, s.ip = some true, s.tunnel.isVxlan⟩
  keyLayerTwo := ⟨s.tunnel.isGre, s.qinq, s.tunnel.isGeneve, s.tunnel.options, s.tunnel.ipv6⟩
  keySize := sizeofMetaTci + sizeofInPort + (if s.mac then sizeofMacMpls else 0) +
    (if s.qinq then sizeofExtMeta + sizeofVlan else 0) + s.tunnel.bytes + ipBytes s.ip +
      if s.tp then sizeofTpPorts else 0

variable {s : Shape}

theorem key_mac (h : s.mac = false) : addMac s.key = key { s with mac := true } := by
  simp only [addMac, key, h, Bool.false_eq_true, if_false, if_true, KeyLs.mk.injEq, true_and]
  omega

theorem key_qinq (h : s.qinq = false) : addQinq s.key = key { s with qinq := true } := by
  simp only [addQinq, addExtMeta, key, h, Bool.false_eq_true, if_false, if_true, KeyLs.mk.injEq, true_and, Bool.true_or]
  omega

theorem key_tp (h : s.tp = false) : addTp s.key = key { s with tp := true } := by
  simp [addTp, key, h]

theorem key_ipv4 (h : s.ip = none) : addIpv4 s.key = key { s with ip := some false } := by
  simp only [addIpv4, key, h, ipBytes, KeyLs.mk.injEq, KeyLayer.mk.injEq, true_and, and_true]
  refine ⟨⟨rfl, rfl⟩, ?_⟩
  omega

theorem key_ipv6 (h : s.ip = none) : addIpv6 s.key = key { s with ip := some true } := by
  simp only [addIpv6, key, h, ipBytes, KeyLs.mk.injEq, KeyLayer.mk.injEq, true_and, and_true]
  refine ⟨⟨rfl, rfl⟩, ?_⟩
  omega

end Shape

open Shape

variable {α : Type} {v6 : Bool} {encOp : Option (BitVec 8)} {tunType : TunType}

variable {x : Except String α}

theorem guard_ok {c : Prop} [Decidable c] {e : String} {b : α} :
    (if c then .error e else x) = .ok b ↔ ¬c ∧ x = .ok b := by
  by_cases hc : c
  · rw [if_pos hc]
    exact ⟨(fun h => nomatch h), fun h => absurd hc h.1⟩
  · rw [if_neg hc]
    exact ⟨fun h => ⟨hc, h⟩, fun h => h.2⟩

theorem bind_ok {β : Type} {f : α → Except String β} {b : β} : (x >>= f) = .ok b ↔ ∃ a, x = .ok a ∧ f a = .ok b := by
  cases x with
  | error e => exact ⟨(fun h => nomatch h), fun ⟨_, h, _⟩ => nomatch h⟩
  | ok a => exact ⟨fun h => ⟨a, rfl, h⟩, fun ⟨_, h, h'⟩ => by cases h; exact h'⟩

section Layers

variable {feats : ExtFeats} {netdev : NetDevice} {rule : FlowRule} {s : Shape} {k' : KeyLs}

theorem startKey_shape (rule : FlowRule) : ∃ m, startKey rule = key ⟨m, false, .none, none, false⟩ := by
  rw [startKey]
  split
  · exact ⟨true, rfl⟩
  · exact ⟨false, rfl⟩

theorem calcVlanLayers_shape (h : calcVlanLayers feats rule s.key = .ok k') : ∃ q, k' = key { s with qinq := q } := by
  rw [calcVlanLayers] at h
  split at h
  · split at h
    · cases h
    split at h
    · next hq =>
      obtain rfl := Except.ok.inj h
      exact ⟨true, key_qinq hq.2⟩
    · exact ⟨s.qinq, (Except.ok.inj h).symm⟩
  · exact ⟨s.qinq, (Except.ok.inj h).symm⟩

theorem calcCvlanLayers_shape (h : calcCvlanLayers feats rule s.key = .ok k') : ∃ q, k' = key { s with qinq := q } := by
  rw [calcCvlanLayers] at h
  split at h
  · split at h
    · cases h
    split at h
    · next hq =>
      obtain rfl := Except.ok.inj h
      exact ⟨true, key_qinq hq⟩
    · exact ⟨s.qinq, (Except.ok.inj h).symm⟩
  · exact ⟨s.qinq, (Except.ok.inj h).symm⟩

theorem calcL3Layers_shape (hip : s.ip = none) (h : calcL3Layers rule s.key = .ok k') :
    ∃ m ip, k' = key { s with mac := m, ip := ip } := by
  have hsame : s = { s with mac := s.mac, ip := none } := by rw [← hip]
  rw [calcL3Layers] at h
  split at h
  · split at h
    · exact ⟨s.mac, some false, (Except.ok.inj h).symm.trans (key_ipv4 hip)⟩
    split at h
    · exact ⟨s.mac, some true, (Except.ok.inj h).symm.trans (key_ipv6 hip)⟩
    split at h
    · cases h
    split at h
    · obtain rfl := Except.ok.inj h
      split
      · next hm => exact ⟨true, none, (key_mac hm).trans (by rw [← hip])⟩
      · exact ⟨s.mac, none, congrArg key hsame⟩
    · split at h
      · exact ⟨s.mac, none, (Except.ok.inj h).symm.trans (congrArg key hsame)⟩
      · cases h
  · split at h
    · cases h
    · exact ⟨s.mac, none, (Except.ok.inj h).symm.trans (congrArg key hsame)⟩

theorem calcL4Layers_shape (htp : s.tp = false) (h : calcL4Layers rule s.key = .ok k') :
    ∃ tp, k' = key { s with tp := tp } := by
  have hk : (if rule.matchKey .basic = true ∧ rule.ipProtoMask ≠ 0 ∧ rule.ipProto ∈ offloadedIpProtos then addTp s.key
      else s.key) = k' := by
    rw [calcL4Layers] at h
    exact (Except.ok.inj ((ite_eq_right_iff.mpr fun hc => by rw [if_pos hc] at h; cases h).symm.trans h))
  rw [← hk]
  split
  · exact ⟨true, key_tp htp⟩
  · exact ⟨s.tp, rfl⟩

theorem calcTcpLayers_shape (h : calcTcpLayers rule s.key = .ok k') : ∃ ip, k' = key { s with ip := ip } := by
  have hsame : ∃ ip, s.key = key { s with ip := ip } := ⟨s.ip, rfl⟩
  rw [calcTcpLayers] at h
  split at h
  · split at h
    · cases h
    split at h
    · cases h
    split at h
    · cases h
    split at h
    · next hno =>
      have hip : s.ip = none := by
        obtain ⟨h4, h6⟩ := hno
        simp only [key, decide_eq_false_iff_not] at h4 h6
        match hs : s.ip with
        | none => rfl
        | some false => exact absurd hs h4
        | some true => exact absurd hs h6
      split at h
      · exact ⟨some false, (Except.ok.inj h).symm.trans (key_ipv4 hip)⟩
      · split at h
        · exact ⟨some true, (Except.ok.inj h).symm.trans (key_ipv6 hip)⟩
        · cases h
    · rwa [← Except.ok.inj h]
  · rwa [← Except.ok.inj h]

theorem key_gre (hs : s.tunnel = .none) (v6 : Bool) :
    addTunAddrs v6 sizeofIpv6GreTun sizeofIpv4GreTun
      { addExtMeta s.key with keyLayerTwo := { (addExtMeta s.key).keyLayerTwo with gre := true } } =
      key { s with tunnel := .gre v6 } := by
  cases v6 with
  | false =>
    simp only [addTunAddrs, addExtMeta, key, hs, Tunnel.bytes, Bool.false_eq_true, if_false, KeyLs.mk.injEq]
    refine ⟨by simp [Tunnel.extended, Tunnel.isGre, Tunnel.isVxlan], rfl, by omega⟩
  | true =>
    simp only [addTunAddrs, addExtMeta, key, hs, Tunnel.bytes, if_true, KeyLs.mk.injEq]
    refine ⟨by simp [Tunnel.extended, Tunnel.isGre, Tunnel.isVxlan], rfl, by omega⟩

theorem key_vxlan (hs : s.tunnel = .none) (v6 : Bool) :
    addTunAddrs v6 sizeofIpv6UdpTun sizeofIpv4UdpTun
      (if v6 then addExtMeta { s.key with keyLayer := { s.key.keyLayer with vxlan := true } }
      else { s.key with keyLayer := { s.key.keyLayer with vxlan := true } }) = key { s with tunnel := .vxlan v6 } := by
  cases v6 with
  | false =>
    simp only [addTunAddrs, key, hs, Tunnel.bytes, Bool.false_eq_true, if_false, KeyLs.mk.injEq]
    refine ⟨by simp [Tunnel.extended, Tunnel.isGre, Tunnel.isGeneve, Tunnel.ipv6, Tunnel.isVxlan], rfl, by omega⟩
  | true =>
    simp only [addTunAddrs, addExtMeta, key, hs, Tunnel.bytes, if_true, KeyLs.mk.injEq]
    refine ⟨by simp [Tunnel.extended, Tunnel.ipv6, Tunnel.isVxlan], rfl, by omega⟩

theorem key_geneve (hs : s.tunnel = .none) (v6 : Bool) :
    addTunAddrs v6 sizeofIpv6UdpTun sizeofIpv4UdpTun
      { addExtMeta s.key with keyLayerTwo := { (addExtMeta s.key).keyLayerTwo with geneve := true } } =
      key { s with tunnel := .geneve v6 false } := by
  cases v6 with
  | false =>
    simp only [addTunAddrs, addExtMeta, key, hs, Tunnel.bytes, Bool.false_eq_true, if_false, KeyLs.mk.injEq]
    refine ⟨by simp [Tunnel.extended, Tunnel.isGeneve, Tunnel.isVxlan], rfl, by omega⟩
  | true =>
    simp only [addTunAddrs, addExtMeta, key, hs, Tunnel.bytes, Bool.false_eq_true, if_false, if_true, KeyLs.mk.injEq]
    refine ⟨by simp [Tunnel.extended, Tunnel.isGeneve, Tunnel.isVxlan], rfl, by omega⟩

theorem calcOptLayer_shape {len : BitVec 8}
    (h : calcOptLayer len v6 (key { s with tunnel := .geneve v6 false }) = .ok k') :
    ∃ op, k' = key { s with tunnel := .geneve v6 op } ∧ (op = true → len.toNat ≤ maxGeneveOptKey) := by
  rw [calcOptLayer] at h
  split at h
  · cases h
  next hno =>
  split at h
  · refine ⟨true, ?_, fun _ => by omega⟩
    rw [← Except.ok.inj h]
    simp only [key, Tunnel.bytes, Bool.false_eq_true, if_false, if_true, KeyLs.mk.injEq]
    exact ⟨rfl, rfl, by omega⟩
  · exact ⟨false, (Except.ok.inj h).symm, fun hc => nomatch hc⟩

structure TunnelOf (rule : FlowRule) (t : Tunnel) (tunType : TunType) : Prop where
  type : t.type = tunType
  options : t.options = true → rule.encOptsLen.toNat ≤ maxGeneveOptKey

theorem calcUdpTunLayer_shape {dst : BitVec 16} (hs : s.tunnel = .none)
    (hop : ∀ len, encOp = some len → len = rule.encOptsLen)
    (h : calcUdpTunLayer feats dst encOp v6 s.key = .ok (k', tunType)) :
    ∃ t, k' = key { s with tunnel := t } ∧ TunnelOf rule t tunType := by
  simp only [calcUdpTunLayer, key_vxlan hs v6, key_geneve hs v6] at h
  by_cases hvx : dst = ianaVxlanUdpPort
  · rw [if_pos hvx, guard_ok] at h
    obtain ⟨rfl, rfl⟩ := Prod.mk.inj (Except.ok.inj h.2)
    exact ⟨.vxlan v6, rfl, rfl, fun hc => nomatch hc⟩
  rw [if_neg hvx] at h
  by_cases hgen : dst = geneveUdpPort
  · rw [if_pos hgen, guard_ok] at h
    cases encOp with
    | none =>
      obtain ⟨rfl, rfl⟩ := Prod.mk.inj (Except.ok.inj h.2)
      exact ⟨.geneve v6 false, rfl, rfl, fun hc => nomatch hc⟩
    | some len =>
      have h := (guard_ok.mp h.2).2
      cases ho : calcOptLayer len v6 (key { s with tunnel := .geneve v6 false }) with
      | error e =>
        rw [ho] at h
        cases h
      | ok k =>
        rw [ho] at h
        obtain ⟨rfl, rfl⟩ := Prod.mk.inj (Except.ok.inj h)
        obtain ⟨op, hk, hlen⟩ := calcOptLayer_shape ho
        rw [hop len rfl] at hlen
        exact ⟨.geneve v6 op, hk, rfl, hlen⟩
  · rw [if_neg hgen] at h
    cases h

theorem calcGreLayer_shape (hs : s.tunnel = .none) (h : calcGreLayer netdev encOp v6 s.key = .ok (k', tunType)) :
    ∃ t, k' = key { s with tunnel := t } ∧ TunnelOf rule t tunType := by
  simp only [calcGreLayer, key_gre hs v6, guard_ok] at h
  obtain ⟨rfl, rfl⟩ := Prod.mk.inj (Except.ok.inj h.2.2)
  exact ⟨.gre v6, rfl, rfl, fun hc => nomatch hc⟩

theorem calcTunLayers_shape (hs : s.tunnel = .none) (h : calcTunLayers feats netdev rule s.key = .ok (k', tunType)) :
    ∃ t, k' = key { s with tunnel := t } ∧ TunnelOf rule t tunType := by
  obtain ⟨encOp, hop⟩ := @exists_eq' _ ((if rule.matchKey .encOpts = true then some rule.encOptsLen else none))
  have hlen : ∀ len, encOp = some len → len = rule.encOptsLen := by
    intro len hl
    rw [hl] at hop
    split at hop
    · exact (Option.some.inj hop).symm
    · cases hop
  simp only [calcTunLayers, hop] at h
  by_cases hctl : rule.matchKey .encControl = true
  · rw [if_pos hctl] at h
    simp only [guard_ok] at h
    obtain ⟨-, -, -, -, -, h⟩ := h
    split at h
    · exact calcGreLayer_shape hs h
    have h := (guard_ok.mp h).2
    split at h
    · cases h
    · next hudp =>
      obtain ⟨rfl, rfl⟩ := Prod.mk.inj (Except.ok.inj (guard_ok.mp h).2)
      exact calcUdpTunLayer_shape hs hlen hudp
  · rw [if_neg hctl] at h
    obtain ⟨rfl, rfl⟩ := Prod.mk.inj (Except.ok.inj h)
    exact ⟨.none, by rw [← hs], rfl, fun hc => nomatch hc⟩

end Layers

theorem calculateKeyLayers_shape {feats : ExtFeats} {netdev : NetDevice} {rule : FlowRule} {k : KeyLs}
    (h : calculateKeyLayers feats netdev rule = .ok (k, tunType)) :
    ∃ s : Shape, k = s.key ∧ TunnelOf rule s.tunnel tunType := by
  rw [calculateKeyLayers, guard_ok, guard_ok] at h
  simp only [bind_ok] at h
  obtain ⟨-, -, k1, h1, k2, h2, ⟨k3, tt⟩, h3, k4, h4, k5, h5, k6, h6, h⟩ := h
  obtain ⟨rfl, rfl⟩ := Prod.mk.inj (Except.ok.inj (guard_ok.mp h).2)
  obtain ⟨m, hstart⟩ := startKey_shape rule
  rw [hstart] at h1
  obtain ⟨q, rfl⟩ := calcVlanLayers_shape h1
  obtain ⟨q', rfl⟩ := calcCvlanLayers_shape h2
  obtain ⟨t, rfl, ht⟩ := calcTunLayers_shape rfl h3
  obtain ⟨m', ip, rfl⟩ := calcL3Layers_shape rfl h4
  obtain ⟨tp, rfl⟩ := calcL4Layers_shape rfl h5
  obtain ⟨ip', rfl⟩ := calcTcpLayers_shape h6
  exact ⟨_, rfl, ht⟩

def frontSteps (rule : FlowRule) (k : KeyLs) (portId : BitVec 32) (ipv6Off : Bool) (tunType : TunType) : List Step :=
  let l := k.keyLayer
  let t := k.keyLayerTwo
  [whole .metaTci sizeofMetaTci none] ++
    given l.extMeta (whole .extMeta sizeofExtMeta none) ++
    [whole .inPort sizeofInPort (compilePort portId tunType)] ++
    given l.mac (whole .macMpls sizeofMacMpls (compileMpls rule)) ++
    given l.tp (whole .l4 sizeofTpPorts none) ++
    given l.ipv4 (whole .ipv4 sizeofIpv4 none) ++
    given l.ipv6 (whole .ipv6 sizeofIpv6 none) ++
    given t.qinq (whole .qinq sizeofVlan none) ++
    given t.gre
      (whole .gre (if t.tunIpv6 then sizeofIpv6GreTun else sizeofIpv4GreTun) (addIpv6Off ipv6Off t.tunIpv6)) ++
    given (l.vxlan || t.geneve)
      (whole .udpTun (if t.tunIpv6 then sizeofIpv6UdpTun else sizeofIpv4UdpTun) (addIpv6Off ipv6Off t.tunIpv6))

def optSteps (rule : FlowRule) (op : Bool) : List Step :=
  given op ⟨.geneveOpt, sizeofGeneveOptions, rule.encOptsMaskLen.toNat, 0, none⟩

section Steps

variable (rule : FlowRule) (s : Shape) (portId : BitVec 32) (ipv6Off : Bool) (tunType : TunType)

theorem options_udp : s.key.keyLayerTwo.geneveOp = true →
    (s.key.keyLayer.vxlan || s.key.keyLayerTwo.geneve) = true := by
  change s.tunnel.options = true → (s.tunnel.isVxlan || s.tunnel.isGeneve) = true
  cases s.tunnel <;> simp [Tunnel.options, Tunnel.isGeneve]

theorem compileSteps_split : compileSteps rule s.key portId ipv6Off tunType =
    frontSteps rule s.key portId ipv6Off tunType ++ optSteps rule s.key.keyLayerTwo.geneveOp := by
  have hnest : ∀ {u op : Bool} {x y : Step}, (op = true → u = true) →
      (if u = true then x :: given op y else []) = given u x ++ given op y := by
    intro u op x y h
    cases u with
    | true => rfl
    | false =>
      rw [Bool.eq_false_iff.mpr fun hop => Bool.false_ne_true (h hop)]
      rfl
  simp only [compileSteps, frontSteps, optSteps]
  rw [hnest (options_udp s)]
  simp

theorem frontSteps_whole : ∀ x ∈ frontSteps rule s.key portId ipv6Off tunType, x.advance = x.size ∧
    x.written = x.size := by
  have hone : ∀ (c : Bool) (y : Step), y.advance = y.size ∧ y.written = y.size →
      ∀ x ∈ given c y, x.advance = x.size ∧ x.written = x.size := by
    intro c y hy x hx
    cases c with
    | false => cases hx
    | true => exact mem_singleton.mp hx ▸ hy
  intro x hx
  simp only [frontSteps, mem_append, mem_singleton] at hx
  rcases hx with (((((((((rfl | hx) | rfl) | hx) | hx) | hx) | hx) | hx) | hx) | hx)
  all_goals first
    | exact ⟨rfl, rfl⟩
    | exact hone _ _ ⟨rfl, rfl⟩ x hx

theorem laidOut_eq : laidOut rule s.key portId ipv6Off tunType = layerParts s.key := by
  have hopt : ∀ (c : Bool) (y : Step), (given c y).map (fun x => (x.layer, x.size)) = opt c y.layer y.size := by
    intro c y
    cases c <;> rfl
  have hport : opt s.key.keyLayer.port Layer.inPort sizeofInPort = [(Layer.inPort, sizeofInPort)] := rfl
  have hmeta : opt true Layer.metaTci sizeofMetaTci = [(Layer.metaTci, sizeofMetaTci)] := rfl
  rw [laidOut, compileSteps_split, layerParts, frontSteps, optSteps]
  simp [hopt, hport, hmeta, whole]

theorem compileSteps_tight : ∀ x ∈ (compileSteps rule s.key portId ipv6Off tunType).dropLast, x.advance = x.size := by
  intro x hx
  rw [compileSteps_split, optSteps, given] at hx
  split at hx
  · rw [dropLast_concat] at hx
    exact (frontSteps_whole rule s portId ipv6Off tunType x hx).1
  · rw [append_nil] at hx
    exact (frontSteps_whole rule s portId ipv6Off tunType x (mem_of_mem_dropLast hx)).1

theorem compileSteps_written (hlen : s.tunnel.options = true → rule.encOptsMaskLen.toNat ≤ maxGeneveOptKey) :
    ∀ x ∈ compileSteps rule s.key portId ipv6Off tunType, x.written ≤ x.size := by
  intro x hx
  rw [compileSteps_split, mem_append, optSteps, given] at hx
  rcases hx with hx | hx
  · exact (frontSteps_whole rule s portId ipv6Off tunType x hx).2.le
  split at hx
  · next hop =>
    obtain rfl := mem_singleton.mp hx
    exact hlen hop
  · cases hx

theorem advance_sum : ((compileSteps rule s.key portId ipv6Off tunType).map Step.advance).sum +
    (if s.tunnel.options then sizeofGeneveOptions else 0) = total (layerParts s.key) := by
  have hfront : ((frontSteps rule s.key portId ipv6Off tunType).map Step.advance).sum =
      total ((frontSteps rule s.key portId ipv6Off tunType).map fun x => (x.layer, x.size)) := by
    rw [total, map_map]
    congr 1
    exact map_congr_left fun x hx => (frontSteps_whole rule s portId ipv6Off tunType x hx).1
  have hback : total ((optSteps rule s.key.keyLayerTwo.geneveOp).map fun x => (x.layer, x.size)) =
      (if s.tunnel.options then sizeofGeneveOptions else 0) ∧
      ((optSteps rule s.key.keyLayerTwo.geneveOp).map Step.advance).sum = 0 := by
    change total (map _ (given s.tunnel.options _)) = _ ∧ (map _ (given s.tunnel.options _)).sum = 0
    cases s.tunnel.options with
    | true | false => exact ⟨rfl, rfl⟩
  rw [← laidOut_eq rule s portId ipv6Off tunType, laidOut, compileSteps_split, map_append, map_append,
    sum_append, total_append, hfront, hback.1, hback.2]
  rfl

theorem compileSteps_fails : (∃ x ∈ compileSteps rule s.key portId ipv6Off tunType, x.fails ≠ none) ↔
    compilePort portId tunType ≠ none ∨ s.mac = true ∧ compileMpls rule ≠ none ∨
      s.tunnel.ipv6 = true ∧ ipv6Off = false := by
  have hif : ∀ {c : Bool} {y : Step}, (∃ x ∈ given c y, x.fails ≠ none) ↔ c = true ∧ y.fails ≠ none := by
    intro c y
    cases c with
    | false | true => simp [given]
  have hnone : (none : Option String) ≠ none ↔ False := iff_of_false (fun h => h rfl) id
  have hoff : ∀ v6 : Bool, addIpv6Off ipv6Off v6 ≠ none ↔ v6 = true ∧ ipv6Off = false := by
    intro v6
    cases v6 <;> cases ipv6Off <;> simp [addIpv6Off]
  have hwhole : ∀ (l : Layer) (n : Nat) (e : Option String), (whole l n e).fails = e := fun _ _ _ => rfl
  have hor : ∀ (xs ys : List Step), (∃ x ∈ xs ++ ys, x.fails ≠ none) ↔
      (∃ x ∈ xs, x.fails ≠ none) ∨ ∃ x ∈ ys, x.fails ≠ none := by
    simp [or_and_right, exists_or]
  have hsingle : ∀ y : Step, (∃ x ∈ [y], x.fails ≠ none) ↔ y.fails ≠ none := by
    simp
  have htun : s.tunnel.ipv6 = true → s.tunnel.isGre = true ∨ (s.tunnel.isVxlan || s.tunnel.isGeneve) = true := by
    cases s.tunnel <;> simp [Tunnel.ipv6, Tunnel.isGre, Tunnel.isVxlan, Tunnel.isGeneve]
  rw [compileSteps_split, hor, frontSteps, optSteps]
  simp only [hor, hif, hsingle, hwhole, hnone, hoff, and_false, false_or, or_false]
  constructor
  · rintro (((hp | hm) | ⟨-, hv⟩) | ⟨-, hv⟩)
    · exact .inl hp
    · exact .inr (.inl hm)
    · exact .inr (.inr hv)
    · exact .inr (.inr hv)
  · rintro (hp | hm | hv)
    · exact .inl (.inl (.inl hp))
    · exact .inl (.inl (.inr hm))
    · rcases htun hv.1 with hg | hu
      · exact .inl (.inr ⟨hg, hv⟩)
      · exact .inr ⟨hu, hv⟩

end Steps

section Sizes

variable (s : Shape)

theorem key_total : s.key.keySize = total (layerParts s.key) +
    if s.qinq = true ∧ s.tunnel.extended = true then sizeofExtMeta else 0 := by
  obtain ⟨m, q, t, ip, tp⟩ := s
  cases t with
  | none => rcases ip with - | (- | -) <;> cases m <;> cases q <;> cases tp <;> rfl
  | gre v6 | vxlan v6 => rcases ip with - | (- | -) <;> cases m <;> cases q <;> cases tp <;> cases v6 <;> rfl
  | geneve v6 op => rcases ip with - | (- | -) <;> cases m <;> cases q <;> cases tp <;> cases v6 <;> cases op <;> rfl

theorem total_limit : total (layerParts s.key) ≤ 4 * keyMaxLw +
    if s.tunnel.options then sizeofGeneveOptions else 0 := by
  obtain ⟨m, q, t, ip, tp⟩ := s
  cases t with
  | none => rcases ip with - | (- | -) <;> cases m <;> cases q <;> cases tp <;> decide
  | gre v6 | vxlan v6 => rcases ip with - | (- | -) <;> cases m <;> cases q <;> cases tp <;> cases v6 <;> decide
  | geneve v6 op =>
    rcases ip with - | (- | -) <;> cases m <;> cases q <;> cases tp <;> cases v6 <;> cases op <;> decide

theorem total_over (hq : ¬(s.qinq = true ∧ s.tunnel.extended = true)) : 4 * keyMaxLw < total (layerParts s.key) ↔
    s.tunnel.options = true ∧ s.tunnel.ipv6 = true ∧ s.ip = some true ∧ (s.mac = true ∨ s.tp = true) := by
  obtain ⟨m, q, t, ip, tp⟩ := s
  cases t with
  | none => rcases ip with - | (- | -) <;> cases m <;> cases q <;> cases tp <;> decide
  | gre v6 | vxlan v6 =>
    revert hq; rcases ip with - | (- | -) <;> cases m <;> cases q <;> cases tp <;> cases v6 <;> decide
  | geneve v6 op =>
    revert hq
    rcases ip with - | (- | -) <;> cases m <;> cases q <;> cases tp <;> cases v6 <;> cases op <;> decide

end Sizes

section Exactness

variable {rule : FlowRule} {s : Shape} {portId : BitVec 32} {ipv6Off : Bool} {tunType : TunType}

theorem compile_placed : (compileFlowMatch rule s.key portId ipv6Off tunType).1 =
    (runSteps (compileSteps rule s.key portId ipv6Off tunType) 0).1 := by
  rw [compileFlowMatch]
  split <;> rfl

-- the cursor never passes the limit, since the options do not move it
theorem compile_error : (∃ e, (compileFlowMatch rule s.key portId ipv6Off tunType).2 = .error e) ↔
    ∃ x ∈ compileSteps rule s.key portId ipv6Off tunType, x.fails ≠ none := by
  rw [compileFlowMatch]
  constructor
  · rintro ⟨e, he⟩
    by_contra hno
    have hok : ∀ x ∈ compileSteps rule s.key portId ipv6Off tunType, x.fails = none := fun x hx => by
      by_contra hc
      exact hno ⟨x, hx, hc⟩
    simp only [runSteps_ok hok] at he
    have hsum := advance_sum rule s portId ipv6Off tunType
    have hlim := total_limit s
    rw [if_neg (by omega)] at he
    cases he
  · intro hf
    obtain ⟨e, he⟩ : ∃ e, (runSteps (compileSteps rule s.key portId ipv6Off tunType) 0).2 = .error e :=
        runSteps_error hf
    simp only [he]
    exact ⟨e, rfl⟩

theorem exact_of (hq : ¬(s.qinq = true ∧ s.tunnel.extended = true))
    (hlen : s.tunnel.options = true → rule.encOptsMaskLen.toNat ≤ maxGeneveOptKey)
    (hover : 4 * keyMaxLw < total (layerParts s.key) → ∃ x ∈ compileSteps rule s.key portId ipv6Off tunType,
      x.fails ≠ none) :
    Exact rule s.key portId ipv6Off tunType := by
  have htotal := key_total s
  rw [if_neg hq, add_zero] at htotal
  have htight := compileSteps_tight rule s portId ipv6Off tunType
  have hlaid := laidOut_eq rule s portId ipv6Off tunType
  refine ⟨?_, fun w hw => ?_, ?_, ?_, ?_, fun h => ?_⟩
  · rw [hlaid]
    exact htotal
  · rw [compile_placed] at hw
    obtain ⟨-, hin, x, hx, hsize, hwr⟩ := runSteps_inside _ _ htight w hw
    rw [← laidOut, hlaid, zero_add, ← htotal] at hin
    rw [← hsize, ← hwr]
    exact ⟨compileSteps_written rule s portId ipv6Off tunType hlen x hx, hsize ▸ hin⟩
  · rw [compile_placed]
    exact runSteps_apart _ _ htight
  · rw [calcKeyLayersSz_eq, hlaid, htotal]
  · rw [compile_placed, laidOut]
    exact runSteps_prefix _ _ htight
  · rw [hlaid] at h
    exact compile_error.mpr (hover h)

end Exactness

theorem key_exact_iff (feats : ExtFeats) (netdev : NetDevice) (rule : FlowRule) (k : KeyLs) (tunType : TunType)
    (portId : BitVec 32) (ipv6Off : Bool) (h : calculateKeyLayers feats netdev rule = .ok (k, tunType))
    (hopts : rule.encOptsMaskLen = rule.encOptsLen) :
    Exact rule k portId ipv6Off tunType ↔
      ¬(k.keyLayerTwo.qinq = true ∧
        (k.keyLayerTwo.gre = true ∨ k.keyLayerTwo.geneve = true ∨ k.keyLayerTwo.tunIpv6 = true)) ∧
      (k.keyLayerTwo.geneveOp = true ∧ k.keyLayerTwo.tunIpv6 = true ∧ k.keyLayer.ipv6 = true ∧
        (k.keyLayer.mac = true ∨ k.keyLayer.tp = true) →
        k.keyLayer.mac = true ∧ rule.matchKey .mpls = true ∧ rule.mplsUsedLses ≠ 1 ∨ ipv6Off = false) := by
  obtain ⟨s, rfl, ht⟩ := calculateKeyLayers_shape h
  have hext : s.tunnel.extended = true ↔ s.key.keyLayerTwo.gre = true ∨ s.key.keyLayerTwo.geneve = true ∨
      s.key.keyLayerTwo.tunIpv6 = true := by
    change _ ↔ s.tunnel.isGre = true ∨ s.tunnel.isGeneve = true ∨ s.tunnel.ipv6 = true
    rw [Tunnel.extended, Bool.or_eq_true, Bool.or_eq_true, or_assoc]
  have hip : s.key.keyLayer.ipv6 = true ↔ s.ip = some true := decide_eq_true_iff
  have hmpls : compileMpls rule ≠ none ↔ rule.matchKey .mpls = true ∧ rule.mplsUsedLses ≠ 1 := by
    rw [compileMpls]
    split <;> simp_all
  have hport : s.tunnel.options = true → compilePort portId tunType = none := by
    intro hop
    rw [compilePort, if_neg]
    rintro ⟨hnone, -⟩
    have htype := ht.type.trans hnone
    revert hop htype
    cases s.tunnel <;> simp [Tunnel.options, Tunnel.type]
  rw [← hext, hip]
  rw [← hmpls]
  constructor
  · intro he
    have hq : ¬(s.qinq = true ∧ s.tunnel.extended = true) := by
      intro hc
      have hsize := he.size
      rw [laidOut_eq, key_total, if_pos hc] at hsize
      change _ + 4 = _ at hsize
      omega
    refine ⟨hq, fun hcase => ?_⟩
    have herr := he.limit (by rw [laidOut_eq]; exact (total_over s hq).mpr hcase)
    rcases (compileSteps_fails ..).mp (compile_error.mp herr) with hp | hm | hv
    · exact absurd (hport hcase.1) hp
    · exact .inl hm
    · exact .inr hv.2
  · rintro ⟨hq, hcase⟩
    refine exact_of hq (fun hop => hopts ▸ ht.options hop) fun hover => ?_
    have hc := (total_over s hq).mp hover
    rw [compileSteps_fails]
    rcases hcase hc with hm | hv
    · exact .inr (.inl hm)
    · exact .inr (.inr ⟨hc.2.1, hv⟩)

def anyNetdev : NetDevice := ⟨false, false, fun _ => true⟩

def tcpRule : FlowRule where
  usedKeys := [.control, .basic, .ipv4Addrs, .ports]
  vlanPriority := 0
  encAddrType := 0
  encAddrTypeMask := 0
  encIpv6DstMask := 0
  encIpv4DstMask := 0
  encPortsDst := 0
  encPortsDstMask := 0
  encOptsLen := 0
  encOptsMaskLen := 0
  nProto := ethPIp
  nProtoMask := 0xffff
  ipProto := 6
  ipProtoMask := 0xff
  tcpFlags := 0
  ctlFlagsMask := 0
  mplsUsedLses := 0

def vlanGeneveRule : FlowRule :=
  { tcpRule with
    usedKeys := [.basic, .vlan, .encControl, .encIpv4Addrs, .encPorts]
    encAddrType := dissectorKeyIpv4Addrs
    encAddrTypeMask := 0xffff
    encIpv4DstMask := BitVec.allOnes 32
    encPortsDst := geneveUdpPort
    encPortsDstMask := 0xffff }

theorem tcp_rule_key_exact :
    Exact tcpRule ⟨⟨false, true, false, true, true, false, false⟩, ⟨false, false, false, false, false⟩,
      24⟩ 1 true .none :=
  (key_exact_iff ⟨true, true, true, true, true⟩ anyNetdev tcpRule
    ⟨⟨false, true, false, true, true, false, false⟩, ⟨false, false, false, false, false⟩, 24⟩ .none 1 true rfl rfl).mpr
      ⟨by decide, fun h => absurd h.1 Bool.false_ne_true⟩

theorem vlan_geneve_counts_ext_meta_twice :
    ∃ k, calculateKeyLayers ⟨true, true, true, true, true⟩ anyNetdev vlanGeneveRule = .ok (k, .geneve) ∧
      k.keySize = 60 ∧ total (laidOut vlanGeneveRule k 1 true .geneve) = 56 ∧ (calcKeyLayersSz k).1 = 56 :=
  ⟨_, rfl, rfl, rfl, rfl⟩

end NfpDriver.Flower
