import NfpDriver.Asm.Ecc
import NfpDriver.Caps.Bpf
import NfpDriver.Caps.Tlv
import NfpDriver.Ccm.Match
import NfpDriver.Cmsg.Event
import NfpDriver.Cmsg.Reply
import NfpDriver.Cpp.Area
import NfpDriver.Cpp.Exclusion
import NfpDriver.Cpp.Explicit
import NfpDriver.Cpp.MuRoute
import NfpDriver.Cpp.Reclaim
import NfpDriver.Cpp.Route
import NfpDriver.Cpp.Rtsym
import NfpDriver.Ctrl.Order
import NfpDriver.Flower.ActionExact
import NfpDriver.Flower.KeyExact
import NfpDriver.Flower.MaskIds
import NfpDriver.Flower.Metadata
import NfpDriver.Flower.Qos
import NfpDriver.Flower.StatsIds
import NfpDriver.Gather.Soundness
import NfpDriver.Hwinfo.Db
import NfpDriver.Lower.CopyKept
import NfpDriver.Lower.MapAddress
import NfpDriver.Lower.NegAddSub
import NfpDriver.Lower.ShiftExact
import NfpDriver.Maps.Coherence
import NfpDriver.Maps.Endian
import NfpDriver.Maps.Neutral
import NfpDriver.Mbox.CopyOut
import NfpDriver.Mbox.Progress
import NfpDriver.Net.FlowSteer
import NfpDriver.Net.Ipsec
import NfpDriver.Net.Reconfig
import NfpDriver.Nfd3.TxSound
import NfpDriver.Nfdk.Unwind
import NfpDriver.Nfdk.XdpLimits
import NfpDriver.Optimize.LoadExact
import NfpDriver.Optimize.PktCache
import NfpDriver.Rx.Ctrl
import NfpDriver.Rx.Nfdk
import NfpDriver.Verifier.AdjustHead
import NfpDriver.Verifier.Remove
