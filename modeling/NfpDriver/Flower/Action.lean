import NfpDriver.Flower.Key
import NfpDriver.Library.Records

namespace NfpDriver.Flower

open Records

abbrev maxASiz : Nat := 1216
abbrev maxGeneveOptAct : Nat := 32
abbrev maxGeneveOptCnt : Nat := 64
abbrev lwSiz : Nat := 2
abbrev scActDrop : BitVec 32 := 0x80000000
abbrev scActPopv : BitVec 32 := 0x6a000000
abbrev scActNull : BitVec 32 := 0
abbrev outFlagsLast : BitVec 16 := 0x8000
abbrev outFlagsUseTun : BitVec 16 := 0x10
abbrev lagOut : BitVec 32 := 0xc0de0000
abbrev portTypeTun : BitVec 32 := 0x50000000
abbrev preTunIpv6 : BitVec 16 := 1
abbrev tunnelKey : BitVec 16 := 0x04
abbrev supportedUdpTunFlags : BitVec 16 := 0x01 ||| tunnelKey ||| 0x0800
abbrev ipTunnelInfoTx : BitVec 8 := 0x01
abbrev ipTunnelInfoIpv6 : BitVec 8 := 0x02
abbrev ethPTeb : BitVec 16 := 0x6558
abbrev csumIpv4hdr : BitVec 32 := 1
abbrev csumTcp : BitVec 32 := 8
abbrev csumUdp : BitVec 32 := 16

structure GeneveOpt where
  optClass : BitVec 16
  type : BitVec 8
  length : BitVec 5
  optData : List (BitVec 32)
  deriving DecidableEq, Repr

structure SetTun where
  tunId : BitVec 64
  tunTypeIndex : BitVec 32
  tunFlags : BitVec 16
  ttl : BitVec 8
  tos : BitVec 8
  outerVlanTpid : BitVec 16
  outerVlanTci : BitVec 16
  tunLen : BitVec 8
  tunProto : BitVec 16
  deriving DecidableEq, Repr

inductive Act where
  | output (flags : BitVec 16) (port : BitVec 32)
  | pushVlan (tpid tci : BitVec 16)
  | popVlan
  | pushMpls (ethtype : BitVec 16) (lse : BitVec 32)
  | popMpls (ethtype : BitVec 16)
  | setTunnel (tun : SetTun)
  | setEthernet (mask val : BitVec 96)
  | setMpls (lseMask lse : BitVec 32)
  | setIpv4Addrs (srcMask src dstMask dst : BitVec 32)
  | setIpv4TtlTos (ttlMask ttl tosMask tos : BitVec 8)
  | setIpv6Src (mask exact : BitVec 128)
  | setIpv6Dst (mask exact : BitVec 128)
  | setIpv6TcHlFl (hopLimitMask hopLimit : BitVec 8) (labelMask label : BitVec 32)
  | setUdp (mask val : BitVec 32)
  | setTcp (mask val : BitVec 32)
  | preLag (groupId : BitVec 16) (ver : BitVec 24) (inst : BitVec 8)
  | preTunnel (flags : BitVec 16) (dst : BitVec 128)
  | meter (id : BitVec 32)
  | pushGeneve (opt : GeneveOpt)
  deriving DecidableEq, Repr

def Act.size : Act → Nat
  | .output .. => 8
  | .pushVlan .. => 8
  | .popVlan => 4
  | .pushMpls .. => 8
  | .popMpls _ => 4
  | .setTunnel _ => 28
  | .setEthernet .. => 28
  | .setMpls .. => 12
  | .setIpv4Addrs .. => 20
  | .setIpv4TtlTos .. => 8
  | .setIpv6Src .. => 36
  | .setIpv6Dst .. => 36
  | .setIpv6TcHlFl .. => 16
  | .setUdp .. => 12
  | .setTcp .. => 12
  | .preLag .. => 8
  | .preTunnel .. => 20
  | .meter _ => 8
  | .pushGeneve opt => 8 + opt.length.toNat * 4

def Act.lenLw (a : Act) : BitVec 8 := BitVec.ofNat 8 (a.size >>> lwSiz)

structure IpTunnelInfo where
  mode : BitVec 8
  tpDst : BitVec 16
  tunFlags : BitVec 16
  tunId : BitVec 64
  ttl : BitVec 8
  tos : BitVec 8
  ipv4Dst : BitVec 32
  ipv6Dst : BitVec 128
  opts : List GeneveOpt
  deriving DecidableEq, Repr

def IpTunnelInfo.optionsLen (tun : IpTunnelInfo) : Nat := (tun.opts.map fun o => 4 + o.length.toNat * 4).sum

def IpTunnelInfo.isIpv6 (tun : IpTunnelInfo) : Bool := tun.mode &&& ipTunnelInfoIpv6 != 0

structure OutDev extends NetDevice where
  lagMaster : Bool
  lagOutputId : Option (BitVec 32)
  lagPreAction : Except (Option String) (BitVec 16 × BitVec 24 × BitVec 8)
  internalCanOffload : Bool
  sameParentId : Bool
  isNfpRepr : Bool
  portId : BitVec 32

inductive MangleBase where
  | unspec
  | eth
  | ip4
  | ip6
  | tcp
  | udp
  deriving DecidableEq, Repr

inductive FlowAction where
  | drop
  | redirect (dev : Option OutDev)
  | redirectIngress (dev : Option OutDev)
  | mirred (dev : Option OutDev)
  | mirredIngress (dev : Option OutDev)
  | vlanPop
  | vlanPush (proto : BitVec 16) (prio : BitVec 3) (vid : BitVec 12)
  | tunnelEncap (tun : IpTunnelInfo)
  | tunnelDecap
  | mangle (htype : MangleBase) (offset mask val : BitVec 32)
  | csum (flags : BitVec 32)
  | mplsPush (bos : Option (BitVec 1)) (tc : Option (BitVec 3)) (label : BitVec 20) (ttl : BitVec 8) (proto : BitVec 16)
  | mplsPop (proto : BitVec 16)
  | mplsMangle (label : Option (BitVec 20)) (tc : Option (BitVec 3)) (bos : Option (BitVec 1)) (ttl : BitVec 8)
  | ptype (host : Bool)
  | police (hwIndex : BitVec 32)
  | other

def FlowAction.isMangle : FlowAction → Bool
  | .mangle .. => true
  | _ => false

structure ActEnv where
  hwStatsOk : Bool
  configIpv6 : Bool
  feats : ExtFeats
  preTunRules : Bool
  decapV2 : Bool
  qosMeter : Bool
  enableLag : Bool
  inDevIsRepr : Bool
  ipProto : BitVec 8
  meterKnown : BitVec 32 → Bool
  routeTtl : IpTunnelInfo → BitVec 8

structure PeditActs where
  setIp6Dst : Option (BitVec 128 × BitVec 128) := none
  setIp6Src : Option (BitVec 128 × BitVec 128) := none
  setIp6TcHlFl : Option ((BitVec 8 × BitVec 8) × (BitVec 32 × BitVec 32)) := none
  setIpTtlTos : Option ((BitVec 8 × BitVec 8) × (BitVec 8 × BitVec 8)) := none
  setIpAddr : Option ((BitVec 32 × BitVec 32) × (BitVec 32 × BitVec 32)) := none
  setTport : Option (Bool × (BitVec 32 × BitVec 32)) := none
  setEth : Option (BitVec 96 × BitVec 96) := none
  deriving DecidableEq, Repr

structure ActState where
  data : Memory Act := fun _ => none
  actLen : Nat := 0
  reach : Nat := 0
  stray : Bool := false
  shortcut : BitVec 32
  preTunDev : Bool := false
  tunType : TunType := .none
  tunOutCnt : Nat := 0
  outCnt : Nat := 0
  csumUpdated : BitVec 32 := 0
  setAct : PeditActs := {}
  pktHost : Bool := false

structure Failure where
  msg : Option String
  st : ActState

abbrev Compiled : Type := Except Failure ActState

def unsupported (msg : String) (s : ActState) : Compiled := .error ⟨some msg, s⟩

def ActState.touch (s : ActState) (n : Nat) : ActState := { s with reach := max s.reach n }

def ActState.put (s : ActState) (off : Nat) (a : Act) : ActState :=
  { s with data := write s.data off a.size a }.touch (off + a.size)

def ActState.advance (s : ActState) (n : Nat) : ActState :=
  { s with actLen := s.actLen + n }.touch (s.actLen + n)

def ActState.push (s : ActState) (a : Act) : ActState := (s.put s.actLen a).advance a.size

def ActState.memmove (s : ActState) (n : Nat) : ActState :=
  { s with data := move s.data n s.actLen }.touch (n + s.actLen)

def nfpFlPushVlan (proto : BitVec 16) (prio : BitVec 3) (vid : BitVec 12) : Act :=
  .pushVlan proto (prio.setWidth 16 <<< 13 ||| vid.setWidth 16)

def nfpFlSetMpls (label : Option (BitVec 20)) (tc : Option (BitVec 3)) (bos : Option (BitVec 1)) (ttl : BitVec 8) :
    Act :=
  let part {n : Nat} (v : Option (BitVec n)) (shift : Nat) : BitVec 32 × BitVec 32 :=
    match v with
    | none => (0, 0)
    | some x => ((BitVec.allOnes n).setWidth 32 <<< shift, x.setWidth 32 <<< shift)
  let l := part label 12
  let t := part tc 9
  let b := part bos 8
  let h := part (if ttl = 0 then none else some ttl) 0
  .setMpls (l.1 ||| t.1 ||| b.1 ||| h.1) (l.2 ||| t.2 ||| b.2 ||| h.2)

def tunCode : TunType → BitVec 32
  | .none => 0
  | .gre => 1
  | .vxlan => 2
  | .geneve => 4

def nfpFlPreLag (dev : Option OutDev) (s : ActState) : Except Failure (ActState × Nat) :=
  match dev with
  | none => .ok (s, 0)
  | some outDev =>
    if outDev.lagMaster = false then .ok (s, 0)
    else if s.actLen + 8 > maxASiz then
      .error ⟨some "unsupported offload: maximum allowed action list size exceeded at LAG action", s⟩
    else
      match outDev.lagPreAction with
      | .error msg => .error ⟨msg, s.memmove 8⟩
      | .ok (groupId, ver, inst) =>
        .ok ({ (s.memmove 8).put 0 (.preLag groupId ver inst) with shortcut := scActNull }, 8)

def nfpFlOutput (env : ActEnv) (last : Bool) (dev : Option OutDev) (s0 : ActState) : Compiled :=
  let s := s0.put s0.actLen (.output 0 0)
  let flags : BitVec 16 := if last then outFlagsLast else 0
  let fill (s : ActState) (flags : BitVec 16) (port : BitVec 32) : Compiled :=
    .ok { s.put s.actLen (.output flags port) with shortcut := port }
  match dev with
  | none => unsupported "unsupported offload: invalid egress interface for mirred action" s
  | some outDev =>
    if s.tunType ≠ .none then
      if outDev.isTunnelType s.tunType = false then
        unsupported "unsupported offload: egress interface does not match the required tunnel type" s
      else if s.tunOutCnt ≠ 0 then
        unsupported "unsupported offload: cannot offload more than one tunnel mirred output per filter" s
      else fill { s with tunOutCnt := s.tunOutCnt + 1 } (flags ||| outFlagsUseTun) (portTypeTun ||| tunCode s.tunType)
    else if outDev.lagMaster ∧ env.enableLag then
      match outDev.lagOutputId with
      | none => unsupported "invalid entry: cannot find group id for LAG action" s
      | some gid => fill s flags (lagOut ||| gid)
    else if outDev.internalCanOffload then
      if env.preTunRules = false ∧ env.decapV2 = false then
        unsupported "unsupported offload: pre-tunnel rules not supported in loaded firmware" s
      else if s.preTunDev ∨ s.pktHost = false then
        unsupported "unsupported offload: pre-tunnel rules require single egress dev and ptype HOST action" s
      else .ok { s with preTunDev := true }
    else if env.inDevIsRepr ∧ outDev.sameParentId = false then
      unsupported "unsupported offload: ingress and egress interfaces are on different devices" s
    else if outDev.isNfpRepr = false then
      unsupported "unsupported offload: egress interface is not an nfp port" s
    else if outDev.portId = 0 then
      unsupported "unsupported offload: invalid port id for egress interface" s
    else fill s flags outDev.portId

def nfpFlowerOutputAction (env : ActEnv) (last : Bool) (dev : Option OutDev) (s : ActState) : Compiled :=
  if s.csumUpdated ≠ 0 then
    unsupported "unsupported offload: set actions without updating checksums are not supported" s
  else if s.actLen + 8 > maxASiz then
    unsupported "unsupported offload: mirred output increases action list size beyond the allowed maximum" s
  else
    (nfpFlOutput env last dev s).bind fun s =>
      let s := s.advance 8
      if env.enableLag then
        (nfpFlPreLag dev s).bind fun r =>
          if r.2 > 0 ∧ (last = false ∨ r.1.outCnt ≠ 0) then
            unsupported "unsupported offload: LAG action has to be last action in action list" r.1
          else .ok { r.1.advance r.2 with outCnt := r.1.outCnt + 1 }
      else .ok { s with outCnt := s.outCnt + 1 }

def nfpFlowerTunIsGre : List FlowAction → Bool
  | [] => false
  | .redirect dev :: _ => dev.any fun d => d.isGretap || d.isIp6gretap
  | .mirred dev :: _ => dev.any fun d => d.isGretap || d.isIp6gretap
  | _ :: rest => nfpFlowerTunIsGre rest

def nfpFlGetTunFromAct (env : ActEnv) (tun : IpTunnelInfo) (rest : List FlowAction) : TunType :=
  if nfpFlowerTunIsGre rest then .gre
  else if tun.tpDst = ianaVxlanUdpPort then .vxlan
  else if tun.tpDst = geneveUdpPort ∧ env.feats.geneve then .geneve
  else .none

def nfpFlPreTunnel (s : ActState) : ActState := (s.memmove 20).put 0 (.preTunnel 0 0)

def geneveScan : List GeneveOpt → Nat → Nat → Except String Nat
  | [], _, tot => .ok tot
  | opt :: opts, cnt, tot =>
    if cnt + 1 > maxGeneveOptCnt then
      .error "unsupported offload: maximum allowed number of geneve options exceeded"
    else if tot + (Act.pushGeneve opt).size > maxGeneveOptAct then
      .error "unsupported offload: maximum allowed action list size exceeded at push geneve options"
    else geneveScan opts (cnt + 1) (tot + (Act.pushGeneve opt).size)

def geneveFill (start : Nat) : List GeneveOpt → Nat → ActState → ActState
  | [], _, s => s
  | opt :: opts, tot, s =>
    let tot := tot - (Act.pushGeneve opt).size
    geneveFill start opts tot (s.put (start + tot) (.pushGeneve opt))

def nfpFlPushGeneveOptions (tun : IpTunnelInfo) (s : ActState) : Compiled :=
  match geneveScan tun.opts 0 0 with
  | .error msg => unsupported msg s
  | .ok tot =>
    if s.actLen + tot > maxASiz then
      unsupported "unsupported offload: maximum allowed action list size exceeded at push geneve options" s
    else .ok (geneveFill s.actLen tun.opts tot (s.advance tot))

def setTunAct (env : ActEnv) (tun : IpTunnelInfo) (type : TunType) : SetTun where
  tunId := if tun.tunFlags &&& tunnelKey ≠ 0 then tun.tunId else 0
  tunTypeIndex := tunCode type <<< 4
  tunFlags := tun.tunFlags
  ttl := if tun.ttl ≠ 0 then tun.ttl else env.routeTtl tun
  tos := tun.tos
  outerVlanTpid := 0
  outerVlanTci := 0
  tunLen := if type = .geneve then BitVec.ofNat 8 (tun.optionsLen / 4) else 0
  tunProto := if type = .geneve then ethPTeb else 0

def preTunAct (tun : IpTunnelInfo) : Act :=
  if tun.isIpv6 then .preTunnel preTunIpv6 tun.ipv6Dst else .preTunnel 0 (tun.ipv4Dst.setWidth 128 <<< 96)

def nfpFlSetTun (env : ActEnv) (tun : IpTunnelInfo) (s : ActState) : Compiled :=
  if env.configIpv6 = false ∧ tun.isIpv6 then .error ⟨none, s⟩
  else if tun.isIpv6 ∧ env.feats.ipv6Tun = false then .error ⟨none, s⟩
  else if tun.optionsLen ≠ 0 ∧ (s.tunType ≠ .geneve ∨ env.feats.geneveOpt = false) then
    unsupported "unsupported offload: loaded firmware does not support geneve options offload" s
  else if tun.tunFlags &&& ~~~supportedUdpTunFlags ≠ 0 then
    unsupported "unsupported offload: loaded firmware does not support tunnel flag offload" s
  else .ok ((s.put s.actLen (.setTunnel (setTunAct env tun s.tunType))).put 0 (preTunAct tun))

def tunnelEncap (env : ActEnv) (tun : IpTunnelInfo) (rest : List FlowAction) (s : ActState) : Compiled :=
  let s := { s with tunType := nfpFlGetTunFromAct env tun rest }
  if s.tunType = .none then unsupported "unsupported offload: unsupported tunnel type in action list" s
  else if tun.mode &&& ~~~(ipTunnelInfoTx ||| ipTunnelInfoIpv6) ≠ 0 then
    unsupported "unsupported offload: unsupported tunnel flags in action list" s
  else if s.actLen + 20 + 28 > maxASiz then
    unsupported "unsupported offload: maximum allowed action list size exceeded at tunnel encap" s
  else
    (nfpFlPushGeneveOptions tun { (nfpFlPreTunnel s).advance 20 with shortcut := scActNull }).bind fun s =>
      (nfpFlSetTun env tun s).bind fun s => .ok (s.advance 28)

def setField {n : Nat} (old : BitVec n × BitVec n) (mask exact : BitVec n) : BitVec n × BitVec n :=
  (old.1 ||| mask, (old.2 &&& ~~~mask) ||| (exact &&& mask))

def wraps (offset : BitVec 32) : Bool := 12 < offset.toNat

def nfpFlSetEth (off mask exact : BitVec 32) (s : ActState) : Compiled :=
  if 12 < (off + 4).toNat then unsupported "unsupported offload: invalid pedit ethernet action" s
  else if exact &&& ~~~mask ≠ 0 then unsupported "unsupported offload: invalid pedit ethernet action" s
  else
    let at96 (v : BitVec 32) : BitVec 96 := v.setWidth 96 <<< (8 * (8 - off.toNat))
    -- the sum above wraps for the last four offsets, which then address memory far behind the structure
    if wraps off then .ok { s with stray := true }
    else
      let eth := setField (s.setAct.setEth.getD (0, 0)) (at96 mask) (at96 exact)
      .ok { s with setAct := { s.setAct with setEth := eth } }

def nfpFlSetIp4 (off mask exact : BitVec 32) (s : ActState) : Compiled :=
  let addr := s.setAct.setIpAddr.getD ((0, 0), (0, 0))
  let ttlTos := s.setAct.setIpTtlTos.getD ((0, 0), (0, 0))
  if exact &&& ~~~mask ≠ 0 then unsupported "unsupported offload: invalid pedit IPv4 action" s
  else if off = 16 then
    .ok { s with setAct := { s.setAct with setIpAddr := (addr.1, setField addr.2 mask exact) } }
  else if off = 12 then
    .ok { s with setAct := { s.setAct with setIpAddr := (setField addr.1 mask exact, addr.2) } }
  else if off = 8 then
    if mask &&& 0x00ffffff ≠ 0 then unsupported "unsupported offload: invalid pedit IPv4 ttl action" s
    else
      let ttl := setField ttlTos.1 (mask.extractLsb' 24 8) (exact.extractLsb' 24 8)
      .ok { s with setAct := { s.setAct with setIpTtlTos := (ttl, ttlTos.2) } }
  else if off = 0 then
    if mask &&& 0xff00ffff ≠ 0 then unsupported "unsupported offload: invalid pedit IPv4 tos action" s
    else
      let tos := setField ttlTos.2 (mask.extractLsb' 16 8) (exact.extractLsb' 16 8)
      .ok { s with setAct := { s.setAct with setIpTtlTos := (ttlTos.1, tos) } }
  else unsupported "unsupported offload: pedit on unsupported section of IPv4 header" s

def nfpFlSetIp6Helper (old : Option (BitVec 128 × BitVec 128)) (word : Nat) (mask exact : BitVec 32) :
    BitVec 128 × BitVec 128 :=
  let at128 (v : BitVec 32) : BitVec 128 := v.setWidth 128 <<< (32 * (3 - word))
  setField (old.getD (0, 0)) (at128 mask) (at128 exact)

def nfpFlSetIp6HopLimitFlowLabel (off mask exact : BitVec 32) (s : ActState) : Compiled :=
  let old := s.setAct.setIp6TcHlFl.getD ((0, 0), (0, 0))
  if off = 4 then
    if mask &&& 0xffffff00 ≠ 0 then unsupported "unsupported offload: invalid pedit IPv6 hop limit action" s
    else
      let hl := setField old.1 (mask.extractLsb' 0 8) (exact.extractLsb' 0 8)
      .ok { s with setAct := { s.setAct with setIp6TcHlFl := (hl, old.2) } }
  else if off = 0 then
    if mask &&& 0xf0000000 ≠ 0 ∨ exact &&& 0xf0000000 ≠ 0 then
      unsupported "unsupported offload: invalid pedit IPv6 flow info action" s
    else .ok { s with setAct := { s.setAct with setIp6TcHlFl := (old.1, setField old.2 mask exact) } }
  else .ok { s with setAct := { s.setAct with setIp6TcHlFl := old } }

def nfpFlSetIp6 (off mask exact : BitVec 32) (s : ActState) : Compiled :=
  if exact &&& ~~~mask ≠ 0 then unsupported "unsupported offload: invalid pedit IPv6 action" s
  else if off.toNat < 8 then nfpFlSetIp6HopLimitFlowLabel off mask exact s
  else if off.toNat < 24 then
    let src := nfpFlSetIp6Helper s.setAct.setIp6Src ((off.toNat - 8) / 4) mask exact
    .ok { s with setAct := { s.setAct with setIp6Src := src } }
  else if off.toNat < 40 then
    let dst := nfpFlSetIp6Helper s.setAct.setIp6Dst ((off.toNat - 24) / 4) mask exact
    .ok { s with setAct := { s.setAct with setIp6Dst := dst } }
  else unsupported "unsupported offload: pedit on unsupported section of IPv6 header" s

def nfpFlSetTport (tcp : Bool) (off mask exact : BitVec 32) (s : ActState) : Compiled :=
  if off ≠ 0 then unsupported "unsupported offload: pedit on unsupported section of L4 header" s
  else if exact &&& ~~~mask ≠ 0 then unsupported "unsupported offload: invalid pedit L4 action" s
  else
    let old := (s.setAct.setTport.getD (tcp, (0, 0))).2
    .ok { s with setAct := { s.setAct with setTport := (tcp, setField old mask exact) } }

def nfpFlPedit (htype : MangleBase) (offset mask val : BitVec 32) (s : ActState) : Compiled :=
  match htype with
  | .eth => nfpFlSetEth offset (~~~mask) val s
  | .ip4 => nfpFlSetIp4 offset (~~~mask) val s
  | .ip6 => nfpFlSetIp6 offset (~~~mask) val s
  | .tcp => nfpFlSetTport true offset (~~~mask) val s
  | .udp => nfpFlSetTport false offset (~~~mask) val s
  | .unspec => unsupported "unsupported offload: pedit on unsupported header" s

def PeditActs.eth (p : PeditActs) : Option Act := p.setEth.map fun f => .setEthernet f.1 f.2

def PeditActs.ipTtlTos (p : PeditActs) : Option Act :=
  p.setIpTtlTos.map fun f => .setIpv4TtlTos f.1.1 f.1.2 f.2.1 f.2.2

def PeditActs.ipAddr (p : PeditActs) : Option Act :=
  p.setIpAddr.map fun f => .setIpv4Addrs f.1.1 f.1.2 f.2.1 f.2.2

def PeditActs.ip6TcHlFl (p : PeditActs) : Option Act :=
  p.setIp6TcHlFl.map fun f => .setIpv6TcHlFl f.1.1 f.1.2 f.2.1 f.2.2

def PeditActs.ip6Src (p : PeditActs) : Option Act := p.setIp6Src.map fun f => .setIpv6Src f.1 f.2

def PeditActs.ip6Dst (p : PeditActs) : Option Act := p.setIp6Dst.map fun f => .setIpv6Dst f.1 f.2

def PeditActs.tport (p : PeditActs) : Option Act :=
  p.setTport.map fun f => if f.1 then .setTcp f.2.1 f.2.2 else .setUdp f.2.1 f.2.2

def nfpFlCsumL4ToFlag (ipProto : BitVec 8) : BitVec 32 :=
  if ipProto = 0 then csumTcp ||| csumUdp else if ipProto = 6 then csumTcp else if ipProto = 17 then csumUdp else 0

structure Commit where
  st : ActState
  nfpAction : Nat
  actSize : Nat

def Commit.place (c : Commit) : Option Act → Commit
  | none => c
  | some a => ⟨(c.st.put (c.nfpAction + c.actSize) a).advance a.size, c.nfpAction + c.actSize, a.size⟩

def Commit.placeIp6 (c : Commit) : Option Act → Option Act → Commit
  | some src, some dst =>
    let c := c.place (some src)
    ⟨(c.st.put (c.nfpAction + src.size) dst).advance dst.size, c.nfpAction, dst.size⟩
  | src, dst => (c.place src).place dst

def PeditActs.csum (p : PeditActs) (ipProto : BitVec 8) : BitVec 32 :=
  let l4 := nfpFlCsumL4ToFlag ipProto
  (if p.ipTtlTos.isSome then csumIpv4hdr ||| l4 else 0) ||| (if p.ipAddr.isSome then csumIpv4hdr ||| l4 else 0) |||
    (if p.ip6TcHlFl.isSome ∨ p.ip6Src.isSome ∨ p.ip6Dst.isSome ∨ p.tport.isSome then l4 else 0)

def nfpFlCommitMangle (ipProto : BitVec 8) (s : ActState) : ActState :=
  let p := s.setAct
  let c := (((Commit.mk s s.actLen 0).place p.eth).place p.ipTtlTos).place p.ipAddr
  let c := ((c.place p.ip6TcHlFl).placeIp6 p.ip6Src p.ip6Dst).place p.tport
  { c.st with csumUpdated := s.csumUpdated ||| p.csum ipProto }

def sized (a : Act) (msg : String) (shortcut : BitVec 32) (s : ActState) : Compiled :=
  if s.actLen + a.size > maxASiz then unsupported msg s else .ok { s.push a with shortcut := shortcut }

def nfpFlPushMpls (bos : Option (BitVec 1)) (tc : Option (BitVec 3)) (label : BitVec 20) (ttl : BitVec 8)
    (proto : BitVec 16)
    (s : ActState) : Compiled :=
  if s.actLen + 8 > maxASiz then
    unsupported "unsupported offload: maximum allowed action list size exceeded at push MPLS" s
  else
    match bos with
    | none =>
      unsupported "unsupported offload: BOS field must explicitly be set for MPLS push"
        { s.put s.actLen (.pushMpls 0 0) with shortcut := scActNull }
    | some bos =>
      let lse := bos.setWidth 32 <<< 8 ||| (tc.getD 0).setWidth 32 <<< 9 ||| label.setWidth 32 <<< 12 |||
        ttl.setWidth 32
      .ok { s.push (.pushMpls proto lse) with shortcut := scActNull }

def nfpFlowerMeterAction (env : ActEnv) (meterId : BitVec 32) (s : ActState) : Compiled :=
  if s.actLen + 8 > maxASiz then
    unsupported "unsupported offload:meter action size beyond the allowed maximum" s
  else if env.meterKnown meterId = false then
    unsupported "can not offload flow table with unsupported police action." s
  else .ok (s.push (.meter meterId))

def nfpFlowerLoopAction (env : ActEnv) (act : FlowAction) (rest : List FlowAction) (s : ActState) : Compiled :=
  match act with
  | .drop => .ok { s with shortcut := scActDrop }
  | .redirect dev => nfpFlowerOutputAction env true dev s
  | .redirectIngress dev => nfpFlowerOutputAction env true dev s
  | .mirred dev => nfpFlowerOutputAction env false dev s
  | .mirredIngress dev => nfpFlowerOutputAction env false dev s
  | .vlanPop =>
    sized .popVlan "unsupported offload: maximum allowed action list size exceeded at pop vlan" scActPopv s
  | .vlanPush proto prio vid =>
    sized (nfpFlPushVlan proto prio vid) "unsupported offload: maximum allowed action list size exceeded at push vlan"
      scActNull s
  | .tunnelEncap tun => tunnelEncap env tun rest s
  | .tunnelDecap => .ok s
  | .mangle htype offset mask val => nfpFlPedit htype offset mask val s
  | .csum flags =>
    if flags &&& ~~~s.csumUpdated ≠ 0 then
      unsupported "unsupported offload: unsupported csum update action in action list" s
    else .ok { s with csumUpdated := s.csumUpdated &&& ~~~flags }
  | .mplsPush bos tc label ttl proto => nfpFlPushMpls bos tc label ttl proto s
  | .mplsPop proto =>
    sized (.popMpls proto) "unsupported offload: maximum allowed action list size exceeded at pop MPLS" scActNull s
  | .mplsMangle label tc bos ttl =>
    sized (nfpFlSetMpls label tc bos ttl) "unsupported offload: maximum allowed action list size exceeded at set MPLS"
      scActNull s
  | .ptype host => if host then .ok { s with pktHost := true } else .error ⟨none, s⟩
  | .police hwIndex =>
    if env.qosMeter then nfpFlowerMeterAction env hwIndex s
    else unsupported "unsupported offload: unsupported police action in action list" s
  | .other => unsupported "unsupported offload: unsupported action in action list" s

def nfpFlCheckMangleStart (prev : Bool) (act : FlowAction) : Bool := act.isMangle && !prev

-- the entry behind the last one is read as well; `past` says whether a mangle stands there
def nfpFlCheckMangleEnd (act : FlowAction) (rest : List FlowAction) (past : Bool) : Bool :=
  act.isMangle && !(rest.head?.map FlowAction.isMangle).getD past

def mangleStart (prev : Bool) (act : FlowAction) (s : ActState) : ActState :=
  if nfpFlCheckMangleStart prev act then { s with setAct := {} } else s

def mangleEnd (env : ActEnv) (past : Bool) (act : FlowAction) (rest : List FlowAction) (s : ActState) : ActState :=
  if nfpFlCheckMangleEnd act rest past then nfpFlCommitMangle env.ipProto s else s

def compileLoop (env : ActEnv) (past : Bool) : Bool → List FlowAction → ActState → Compiled
  | _, [], s => .ok s
  | prev, act :: rest, s =>
    (nfpFlowerLoopAction env act rest (mangleStart prev act s)).bind fun s =>
      compileLoop env past act.isMangle rest (mangleEnd env past act rest s)

structure CompiledMeta where
  st : ActState
  actLen : BitVec 8

def nfpFlowerCompileAction (env : ActEnv) (past : Bool) (shortcut : BitVec 32) (acts : List FlowAction) :
    Except Failure CompiledMeta :=
  let s : ActState := { shortcut := shortcut }
  if env.hwStatsOk = false then .error ⟨none, s⟩
  else
    (compileLoop env past false acts s).bind fun s =>
      .ok ⟨if acts.length > 1 then { s with shortcut := scActNull } else s, BitVec.ofNat 8 s.actLen⟩

end NfpDriver.Flower
