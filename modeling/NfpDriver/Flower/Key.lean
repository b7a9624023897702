import Mathlib.Data.BitVec

namespace NfpDriver.Flower

inductive DissectorKey where
  | control
  | basic
  | ipv4Addrs
  | ipv6Addrs
  | ports
  | icmp
  | ethAddrs
  | tcp
  | vlan
  | cvlan
  | ip
  | encKeyid
  | encIpv4Addrs
  | encIpv6Addrs
  | encControl
  | encPorts
  | encIp
  | encOpts
  | mpls
  | ct
  | metadata
  | unlisted (n : Nat)
  deriving DecidableEq, Repr

def whitelistDissector : List DissectorKey :=
  [.control, .basic, .ipv4Addrs, .ipv6Addrs, .tcp, .ports, .ethAddrs, .vlan, .cvlan, .encKeyid, .encIpv4Addrs,
    .encIpv6Addrs,
    .encControl, .encPorts, .encOpts, .encIp, .mpls, .ct, .metadata, .ip]

def whitelistTunDissector : List DissectorKey :=
  [.encControl, .encKeyid, .encIpv4Addrs, .encIpv6Addrs, .encOpts, .encPorts, .encIp]

def whitelistTunDissectorR : List DissectorKey := [.encControl, .encIpv4Addrs]

def whitelistTunDissectorV6R : List DissectorKey := [.encControl, .encIpv6Addrs]

inductive TunType where
  | none
  | gre
  | vxlan
  | geneve
  deriving DecidableEq, Repr

structure FlowRule where
  usedKeys : List DissectorKey
  vlanPriority : BitVec 8
  encAddrType : BitVec 16
  encAddrTypeMask : BitVec 16
  encIpv6DstMask : BitVec 128
  encIpv4DstMask : BitVec 32
  encPortsDst : BitVec 16
  encPortsDstMask : BitVec 16
  encOptsLen : BitVec 8
  encOptsMaskLen : BitVec 8
  nProto : BitVec 16
  nProtoMask : BitVec 16
  ipProto : BitVec 8
  ipProtoMask : BitVec 8
  tcpFlags : BitVec 16
  ctlFlagsMask : BitVec 32
  mplsUsedLses : BitVec 8
  deriving Repr

def FlowRule.matchKey (rule : FlowRule) (key : DissectorKey) : Bool := rule.usedKeys.contains key

structure ExtFeats where
  geneve : Bool
  geneveOpt : Bool
  vlanPcp : Bool
  ipv6Tun : Bool
  vlanQinq : Bool
  deriving DecidableEq, Repr

structure NetDevice where
  isGretap : Bool
  isIp6gretap : Bool
  isTunnelType : TunType → Bool

structure KeyLayer where
  extMeta : Bool
  port : Bool
  mac : Bool
  tp : Bool
  ipv4 : Bool
  ipv6 : Bool
  vxlan : Bool
  deriving DecidableEq, Repr

structure KeyLayerTwo where
  gre : Bool
  qinq : Bool
  geneve : Bool
  geneveOp : Bool
  tunIpv6 : Bool
  deriving DecidableEq, Repr

structure KeyLs where
  keyLayer : KeyLayer
  keyLayerTwo : KeyLayerTwo
  keySize : Nat
  deriving DecidableEq, Repr

abbrev sizeofMetaTci : Nat := 4
abbrev sizeofExtMeta : Nat := 4
abbrev sizeofInPort : Nat := 4
abbrev sizeofMacMpls : Nat := 16
abbrev sizeofTpPorts : Nat := 4
abbrev sizeofIpv4 : Nat := 12
abbrev sizeofIpv6 : Nat := 40
abbrev sizeofVlan : Nat := 8
abbrev sizeofIpv4UdpTun : Nat := 20
abbrev sizeofIpv6UdpTun : Nat := 44
abbrev sizeofIpv4GreTun : Nat := 24
abbrev sizeofIpv6GreTun : Nat := 48
abbrev maxGeneveOptKey : Nat := 32
abbrev maxGeneveOptKeyV6 : Nat := 8
abbrev sizeofGeneveOptions : Nat := maxGeneveOptKey

abbrev dissectorKeyIpv4Addrs : BitVec 16 := 2
abbrev dissectorKeyIpv6Addrs : BitVec 16 := 3
abbrev ianaVxlanUdpPort : BitVec 16 := 4789
abbrev geneveUdpPort : BitVec 16 := 6081
abbrev ethPIp : BitVec 16 := 0x0800
abbrev ethPArp : BitVec 16 := 0x0806
abbrev ethP8021q : BitVec 16 := 0x8100
abbrev ethPIpv6 : BitVec 16 := 0x86dd
abbrev ethPMplsUc : BitVec 16 := 0x8847
abbrev ethPMplsMc : BitVec 16 := 0x8848
abbrev tcphdrFin : BitVec 16 := 0x01
abbrev tcphdrSyn : BitVec 16 := 0x02
abbrev tcphdrRst : BitVec 16 := 0x04
abbrev tcphdrPsh : BitVec 16 := 0x08
abbrev tcphdrUrg : BitVec 16 := 0x20

def supportedTcpflags : BitVec 16 := tcphdrFin ||| tcphdrSyn ||| tcphdrRst ||| tcphdrPsh ||| tcphdrUrg
def supportedCtlflags : BitVec 32 := 0x3

def offloadedIpProtos : List (BitVec 8) := [6, 17, 132, 1, 58]

def addExtMeta (k : KeyLs) : KeyLs :=
  { k with keyLayer := { k.keyLayer with extMeta := true }, keySize := k.keySize + sizeofExtMeta }

def addMac (k : KeyLs) : KeyLs :=
  { k with keyLayer := { k.keyLayer with mac := true }, keySize := k.keySize + sizeofMacMpls }

def addTp (k : KeyLs) : KeyLs :=
  { k with keyLayer := { k.keyLayer with tp := true }, keySize := k.keySize + sizeofTpPorts }

def addIpv4 (k : KeyLs) : KeyLs :=
  { k with keyLayer := { k.keyLayer with ipv4 := true }, keySize := k.keySize + sizeofIpv4 }

def addIpv6 (k : KeyLs) : KeyLs :=
  { k with keyLayer := { k.keyLayer with ipv6 := true }, keySize := k.keySize + sizeofIpv6 }

def addQinq (k : KeyLs) : KeyLs :=
  let k := addExtMeta k
  { k with keyLayerTwo := { k.keyLayerTwo with qinq := true }, keySize := k.keySize + sizeofVlan }

def addTunAddrs (ipv6 : Bool) (v6Size v4Size : Nat) (k : KeyLs) : KeyLs :=
  if ipv6 then
    { k with keyLayerTwo := { k.keyLayerTwo with tunIpv6 := true }, keySize := k.keySize + v6Size }
  else { k with keySize := k.keySize + v4Size }

def calcOptLayer (encOptsLen : BitVec 8) (ipv6 : Bool) (k : KeyLs) : Except String KeyLs :=
  if encOptsLen.toNat > maxGeneveOptKey ∨ ipv6 ∧ encOptsLen.toNat > maxGeneveOptKeyV6 then
    .error "unsupported offload: geneve options exceed maximum length"
  else if encOptsLen.toNat > 0 then
    .ok { k with
      keyLayerTwo := { k.keyLayerTwo with geneveOp := true }
      keySize := k.keySize + sizeofGeneveOptions }
  else .ok k

def calcUdpTunLayer (feats : ExtFeats) (dst : BitVec 16) (encOp : Option (BitVec 8)) (ipv6 : Bool) (k : KeyLs) :
    Except String (KeyLs × TunType) :=
  if dst = ianaVxlanUdpPort then
    let k := { k with keyLayer := { k.keyLayer with vxlan := true } }
    let k := addTunAddrs ipv6 sizeofIpv6UdpTun sizeofIpv4UdpTun (if ipv6 then addExtMeta k else k)
    if encOp.isSome then .error "unsupported offload: encap options not supported on vxlan tunnels"
    else .ok (k, .vxlan)
  else if dst = geneveUdpPort then
    if feats.geneve = false then .error "unsupported offload: loaded firmware does not support geneve offload"
    else
      let k := addExtMeta k
      let k := { k with keyLayerTwo := { k.keyLayerTwo with geneve := true } }
      let k := addTunAddrs ipv6 sizeofIpv6UdpTun sizeofIpv4UdpTun k
      match encOp with
      | none => .ok (k, .geneve)
      | some len =>
        if feats.geneveOpt = false then
          .error "unsupported offload: loaded firmware does not support geneve option offload"
        else (calcOptLayer len ipv6 k).map fun k => (k, .geneve)
  else .error "unsupported offload: tunnel type unknown"

def calcGreLayer (netdev : NetDevice) (encOp : Option (BitVec 8)) (ipv6 : Bool) (k : KeyLs) :
    Except String (KeyLs × TunType) :=
  if netdev.isGretap = false ∧ netdev.isIp6gretap = false then
    .error "unsupported offload: an exact match on L4 destination port is required for non-GRE tunnels"
  else
    let k := addExtMeta k
    let k := { k with keyLayerTwo := { k.keyLayerTwo with gre := true } }
    let k := addTunAddrs ipv6 sizeofIpv6GreTun sizeofIpv4GreTun k
    if encOp.isSome then .error "unsupported offload: encap options not supported on GRE tunnels"
    else .ok (k, .gre)

def calcVlanLayers (feats : ExtFeats) (rule : FlowRule) (k : KeyLs) : Except String KeyLs :=
  if rule.matchKey .vlan then
    if feats.vlanPcp = false ∧ rule.vlanPriority ≠ 0 then
      .error "unsupported offload: loaded firmware does not support VLAN PCP offload"
    else if feats.vlanQinq ∧ k.keyLayerTwo.qinq = false then .ok (addQinq k)
    else .ok k
  else .ok k

def calcCvlanLayers (feats : ExtFeats) (rule : FlowRule) (k : KeyLs) : Except String KeyLs :=
  if rule.matchKey .cvlan then
    if feats.vlanQinq = false then
      .error "unsupported offload: loaded firmware does not support VLAN QinQ offload"
    else if k.keyLayerTwo.qinq = false then .ok (addQinq k)
    else .ok k
  else .ok k

def calcTunLayers (feats : ExtFeats) (netdev : NetDevice) (rule : FlowRule) (k : KeyLs) :
    Except String (KeyLs × TunType) :=
  if rule.matchKey .encControl then
    let ipv6Tun : Bool := rule.encAddrType = dissectorKeyIpv6Addrs
    let encOp := if rule.matchKey .encOpts then some rule.encOptsLen else none
    if rule.encAddrTypeMask ≠ 0xffff then
      .error "unsupported offload: wildcarded protocols on tunnels are not supported"
    else if ipv6Tun ∧ feats.ipv6Tun = false then
      .error "unsupported offload: firmware does not support IPv6 tunnels"
    else if ¬ipv6Tun ∧ rule.encAddrType ≠ dissectorKeyIpv4Addrs then
      .error "unsupported offload: tunnel address type not IPv4 or IPv6"
    else if ipv6Tun ∧ rule.encIpv6DstMask ≠ BitVec.allOnes 128 then
      .error "unsupported offload: only an exact match IPv6 destination address is supported"
    else if ¬ipv6Tun ∧ rule.encIpv4DstMask ≠ BitVec.allOnes 32 then
      .error "unsupported offload: only an exact match IPv4 destination address is supported"
    else if rule.matchKey .encPorts = false then calcGreLayer netdev encOp ipv6Tun k
    else if rule.encPortsDstMask ≠ 0xffff then
      .error "unsupported offload: only an exact match L4 destination port is supported"
    else
      match calcUdpTunLayer feats rule.encPortsDst encOp ipv6Tun k with
      | .error e => .error e
      | .ok (k, tunType) =>
        if netdev.isTunnelType tunType = false then
          .error "unsupported offload: ingress netdev does not match the expected tunnel type"
        else .ok (k, tunType)
  else .ok (k, .none)

def checkHigherThanL3 (rule : FlowRule) : Bool := rule.matchKey .ports || rule.matchKey .icmp

def checkHigherThanMac (rule : FlowRule) : Bool :=
  rule.matchKey .ipv4Addrs || rule.matchKey .ipv6Addrs || rule.matchKey .ports || rule.matchKey .icmp

def calcL3Layers (rule : FlowRule) (k : KeyLs) : Except String KeyLs :=
  if rule.matchKey .basic ∧ rule.nProtoMask ≠ 0 then
    if rule.nProto = ethPIp then .ok (addIpv4 k)
    else if rule.nProto = ethPIpv6 then .ok (addIpv6 k)
    else if rule.nProto = ethPArp then .error "unsupported offload: ARP not supported"
    else if rule.nProto = ethPMplsUc ∨ rule.nProto = ethPMplsMc then
      .ok (if k.keyLayer.mac = false then addMac k else k)
    else if rule.nProto = ethP8021q then .ok k
    else .error "unsupported offload: match on given EtherType is not supported"
  else if checkHigherThanMac rule then
    .error "unsupported offload: cannot match above L2 without specified EtherType"
  else .ok k

def calcL4Layers (rule : FlowRule) (k : KeyLs) : Except String KeyLs :=
  let k := if rule.matchKey .basic ∧ rule.ipProtoMask ≠ 0 ∧ rule.ipProto ∈ offloadedIpProtos then addTp k else k
  if k.keyLayer.tp = false ∧ checkHigherThanL3 rule then
    .error "unsupported offload: cannot match on L4 information without specified IP protocol type"
  else .ok k

def calcTcpLayers (rule : FlowRule) (k : KeyLs) : Except String KeyLs :=
  if rule.matchKey .tcp then
    if rule.tcpFlags &&& ~~~supportedTcpflags ≠ 0 then
      .error "unsupported offload: no match support for selected TCP flags"
    else if rule.tcpFlags &&& (tcphdrPsh ||| tcphdrUrg) ≠ 0 ∧
        rule.tcpFlags &&& (tcphdrFin ||| tcphdrSyn ||| tcphdrRst) = 0 then
      .error "unsupported offload: PSH and URG is only supported when used with FIN, SYN or RST"
    else if rule.matchKey .basic = false then
      .error "unsupported offload: match on TCP flags requires a match on L3 protocol"
    else if k.keyLayer.ipv4 = false ∧ k.keyLayer.ipv6 = false then
      if rule.nProto = ethPIp then .ok (addIpv4 k)
      else if rule.nProto = ethPIpv6 then .ok (addIpv6 k)
      else .error "unsupported offload: match on TCP flags requires a match on IPv4/IPv6"
    else .ok k
  else .ok k

def usedAny (rule : FlowRule) (keys : List DissectorKey) : Bool := rule.usedKeys.any keys.contains

def usedAll (rule : FlowRule) (keys : List DissectorKey) : Bool := keys.all rule.usedKeys.contains

def startKey (rule : FlowRule) : KeyLs :=
  let k : KeyLs :=
    ⟨⟨false, true, false, false, false, false, false⟩, ⟨false, false, false, false, false⟩,
      sizeofMetaTci + sizeofInPort⟩
  if rule.matchKey .ethAddrs || rule.matchKey .mpls then addMac k else k

def calculateKeyLayers (feats : ExtFeats) (netdev : NetDevice) (rule : FlowRule) : Except String (KeyLs × TunType) :=
  if rule.usedKeys.any fun key => !whitelistDissector.contains key then
    .error "unsupported offload: match not supported"
  else if usedAny rule whitelistTunDissector && !usedAll rule whitelistTunDissectorV6R &&
      !usedAll rule whitelistTunDissectorR then
    .error "unsupported offload: tunnel match not supported"
  else do
    let k ← calcVlanLayers feats rule (startKey rule)
    let k ← calcCvlanLayers feats rule k
    let (k, tunType) ← calcTunLayers feats netdev rule k
    let k ← calcL3Layers rule k
    let k ← calcL4Layers rule k
    let k ← calcTcpLayers rule k
    if rule.matchKey .control && rule.ctlFlagsMask &&& ~~~supportedCtlflags != 0 then
      .error "Unsupported match on control.flags"
    else .ok (k, tunType)

end NfpDriver.Flower
