import NfpDriver.Ctrl.Nfd3
import NfpDriver.Ctrl.Nfdk

namespace NfpDriver.Ctrl

open Runs

def nfd3Msg (uid len : Nat) : Nfd3.Msg := ⟨⟨uid, len, [], none⟩, 8⟩

def nfdkMsg (len : Nat) (hpos : 1 ≤ len) (hlen : 8 + len < 2 ^ 31) : NfpDriver.Nfdk.Skb :=
  ⟨0, 8, len, [], none, hpos, NfpDriver.Nfdk.Skb.fragless, hlen⟩

def nfd3Start : St Nfd3.TxRing Nfd3.Msg :=
    start (Nfd3.start (fun _ => NfpDriver.Nfd3.emptyBuf) fun _ => ⟨0, 0, 0, 0, 0, 0, 0, 0⟩)

def nfdkStart : St Nfdk.TxRing NfpDriver.Nfdk.Skb := start (Nfdk.start (fun _ => .nop) fun _ => .null)

-- the second message finds a ring of two slots full, and the poll after the device has read the first sends it
def queuedThenPolled : List (Action Nfd3.Msg) :=
  [.submit (nfd3Msg 0 100) (some 4096), .submit (nfd3Msg 1 200) (some 8192), .advance 1, .poll fun _ => some 8192]

def sendLinear (len : Nat) (hpos : 1 ≤ len) (hlen : 8 + len < 2 ^ 31) : List (Action NfpDriver.Nfdk.Skb) :=
  [.submit (nfdkMsg len hpos hlen) (some 4096)]

end NfpDriver.Ctrl
