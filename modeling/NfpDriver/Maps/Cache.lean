import Mathlib.Data.BitVec
import Mathlib.Data.Fintype.Card
import Mathlib.Algebra.BigOperators.Group.Finset.Piecewise
import NfpDriver.Library.Runs

namespace NfpDriver.MapCache

open Runs

abbrev enoent : Int := -2
abbrev eio : Int := -5
abbrev e2big : Int := -7
abbrev enomem : Int := -12
abbrev eexist : Int := -17
abbrev einval : Int := -22
abbrev ebadfd : Int := -77
abbrev eopnotsupp : Int := -95
abbrev cmsgReplyMapOpSize : Nat := 16
abbrev nfpBpfMapCacheTimeNs : BitVec 64 := 250 * 1000

def nfpBpfCmsgMapReplySize (keySz valSz n : Nat) : Nat := (cmsgReplyMapOpSize + (keySz + valSz) * n) % 2 ^ 32

structure App where
  cmsgKeySz : Nat
  cmsgValSz : Nat
  cmsgCacheCnt : Nat
  pos : 0 < cmsgCacheCnt

inductive Op where
  | lookup
  | getfirst
  | getnext
  | update
  | delete
  deriving DecidableEq, Repr

def nfpBpfCtrlOpCacheInvalidate (op : Op) : Bool := op = .update || op = .delete

def nfpBpfCtrlOpCacheCapable (op : Op) : Bool := op = .lookup || op = .getnext

def nfpBpfCtrlOpCacheFill (op : Op) : Bool := op = .getfirst || op = .getnext

section Model

variable {Key Value Tbl : Type}

structure Entry (Key Value : Type) where
  key : Key
  value : Value
  deriving DecidableEq, Repr

structure Reply (Key Value : Type) where
  len : Nat
  rc : Nat
  entries : List (Entry Key Value)
  deriving DecidableEq, Repr

inductive Request (Key Value : Type) where
  | lookup (key : Key)
  | getfirst
  | getnext (key : Key)
  | update (key : Key) (value : Value) (flags : BitVec 64)
  | delete (key : Key)
  deriving DecidableEq, Repr

def Request.op : Request Key Value → Op
  | .lookup _ => .lookup
  | .getfirst => .getfirst
  | .getnext _ => .getnext
  | .update _ _ _ => .update
  | .delete _ => .delete

def Request.key : Request Key Value → Option Key
  | .getfirst => none
  | .lookup key | .getnext key | .update key _ _ | .delete key => some key

def Request.flags : Request Key Value → BitVec 64
  | .update _ _ flags => flags
  | _ => 0

structure Out (Key Value : Type) where
  outKey : Option Key
  outValue : Option Value
  deriving DecidableEq, Repr

structure NfpBpfMap (Key Value : Type) where
  cacheBlockers : BitVec 32
  cacheGen : BitVec 32
  cacheTo : BitVec 64
  cache : Option (Reply Key Value)

structure Firmware (Tbl Key Value : Type) where
  lookup : Tbl → Key → Option Value
  next : Tbl → Option Key → Option Key

variable [DecidableEq Key] [DecidableEq Value]

def Firmware.chain (fw : Firmware Tbl Key Value) (table : Tbl) : Option Key → List (Entry Key Value) → Bool
  | _, [] => true
  | start, e :: rest =>
    fw.next table start = some e.key && fw.lookup table e.key = some e.value && fw.chain table (some e.key) rest

def Firmware.answers (fw : Firmware Tbl Key Value) (table : Tbl) (reply : Reply Key Value) : Request Key Value → Bool
  | .lookup key => reply.entries.all fun e => fw.lookup table key = some e.value
  | .getfirst => fw.chain table none reply.entries
  | .getnext key => fw.chain table (some key) reply.entries
  | .update _ _ _ | .delete _ => true

def cacheSearch (op : Op) (key : Key) : List (Entry Key Value) → Option (Out Key Value)
  | [] => none
  | e :: rest =>
    if e.key ≠ key then cacheSearch op key rest
    else if op = .getnext then rest.head?.map fun e => ⟨some e.key, none⟩
    else some ⟨none, if op = .lookup then some e.value else none⟩

def nfpBpfCtrlOpCacheGet (app : App) (map : NfpBpfMap Key Value) (req : Request Key Value) (now : BitVec 64) :
    NfpBpfMap Key Value × Nat × Out Key Value :=
  let nEntries := if nfpBpfCtrlOpCacheFill req.op then app.cmsgCacheCnt else 1
  let nEntries := if map.cacheBlockers ≠ 0 then 1 else nEntries
  if nfpBpfCtrlOpCacheInvalidate req.op then
    ({ map with cacheBlockers := map.cacheBlockers + 1, cache := none }, nEntries, ⟨none, none⟩)
  else if !nfpBpfCtrlOpCacheCapable req.op then (map, nEntries, ⟨none, none⟩)
  else
    match map.cache with
    | none => (map, nEntries, ⟨none, none⟩)
    | some reply =>
      if map.cacheTo < now then ({ map with cache := none }, nEntries, ⟨none, none⟩)
      else
        match req.key.bind fun key => cacheSearch req.op key reply.entries with
        | none => (map, nEntries, ⟨none, none⟩)
        | some out => (map, 0, out)

def nfpBpfCtrlOpCachePut (map : NfpBpfMap Key Value) (op : Op) (skb : Option (Reply Key Value)) (cacheGen : BitVec 32)
    (now : BitVec 64) : NfpBpfMap Key Value :=
  let blocker := nfpBpfCtrlOpCacheInvalidate op
  let filler := nfpBpfCtrlOpCacheFill op
  if blocker || filler then
    let expires := if filler then now + nfpBpfMapCacheTimeNs else 0
    let map :=
      if blocker then { map with cacheBlockers := map.cacheBlockers - 1, cacheGen := map.cacheGen + 1 } else map
    if filler && map.cacheBlockers = 0 && map.cacheGen = cacheGen then { map with cacheTo := expires, cache := skb }
    else map
  else map

def nfpBpfCtrlRcToErrno (rc : Nat) : Int :=
  [0, ebadfd, enoent, einval, eio, eexist, enomem, e2big].getD rc eio

def checkReply (app : App) (nEntries : Nat) (reply : Reply Key Value) : Except Int (Out Key Value) :=
  if reply.len < cmsgReplyMapOpSize then .error eio
  else
    let count := reply.entries.length
    let err := nfpBpfCtrlRcToErrno reply.rc
    let replyEntries := count + if err ≠ 0 then 1 else 0
    let err := if nEntries > 1 ∧ count ≠ 0 then 0 else err
    if err ≠ 0 then .error err
    else if reply.len ≠ nfpBpfCmsgMapReplySize app.cmsgKeySz app.cmsgValSz replyEntries then .error eio
    else .ok ⟨reply.entries.head?.map (·.key), reply.entries.head?.map (·.value)⟩

structure Flight (Key Value : Type) where
  req : Request Key Value
  cacheGen : BitVec 32
  nEntries : Nat
  skb : Option (Reply Key Value)
  since : Nat

inductive Task (Key Value : Type) where
  | idle
  | flight (f : Flight Key Value)
  | done (err : Int) (out : Out Key Value)

def Task.blocks : Task Key Value → Bool
  | .flight f => nfpBpfCtrlOpCacheInvalidate f.req.op
  | _ => false

structure St (Key Value Tbl : Type) (n : Nat) where
  map : NfpBpfMap Key Value
  table : Tbl
  tasks : Fin n → Task Key Value
  completed : Nat
  -- requests the firmware holds although their callers have timed out or were interrupted
  abandoned : List (Request Key Value)

variable {n : Nat}

def start (table : Tbl) : St Key Value Tbl n := ⟨⟨0, 0, 0, none⟩, table, fun _ => .idle, 0, []⟩

def St.inFlight (st : St Key Value Tbl n) : Nat := (Finset.univ.filter fun t => (st.tasks t).blocks = true).card

def St.set (st : St Key Value Tbl n) (map : NfpBpfMap Key Value) (t : Fin n) (task : Task Key Value) :
    St Key Value Tbl n :=
  { st with map := map, tasks := Function.update st.tasks t task }

inductive Action (Key Value Tbl : Type) (n : Nat) where
  | call (t : Fin n) (req : Request Key Value) (now : BitVec 64)
  | serve (t : Fin n) (reply : Reply Key Value) (table : Tbl)
  | finish (t : Fin n) (now : BitVec 64)
  | fail (t : Fin n) (err : Int) (sent : Bool) (now : BitVec 64)
  | serveAbandoned (i : Nat) (table : Tbl)

def St.put (st : St Key Value Tbl n) (t : Fin n) (f : Flight Key Value) (skb : Option (Reply Key Value))
    (now : BitVec 64) (task : Task Key Value) : St Key Value Tbl n :=
  { st.set (nfpBpfCtrlOpCachePut st.map f.req.op skb f.cacheGen now) t task with
    completed := st.completed + if nfpBpfCtrlOpCacheInvalidate f.req.op then 1 else 0 }

def step (app : App) (fw : Firmware Tbl Key Value) (st : St Key Value Tbl n) :
    Action Key Value Tbl n → Option (St Key Value Tbl n)
  | .call t req now =>
    match st.tasks t with
    | .flight _ => none
    | _ =>
      if req.flags >>> 32 ≠ 0 then some (st.set st.map t (.done eopnotsupp ⟨none, none⟩))
      else
        match nfpBpfCtrlOpCacheGet app st.map req now with
        | (map, 0, out) => some (st.set map t (.done 0 out))
        | (map, nEntries, _) =>
          some (st.set map t (.flight ⟨req, st.map.cacheGen, nEntries, none, st.completed⟩))
  | .serve t reply table =>
    match st.tasks t with
    | .flight f =>
      if f.skb = none ∧ fw.answers st.table reply f.req = true then
        some { st.set st.map t (.flight { f with skb := some reply }) with
          table := if nfpBpfCtrlOpCacheInvalidate f.req.op then table else st.table }
      else none
    | _ => none
  | .finish t now =>
    match st.tasks t with
    | .flight f =>
      f.skb.map fun reply =>
        match checkReply app f.nEntries reply with
        | .ok out => st.put t f (some reply) now (.done 0 out)
        | .error err => st.put t f none now (.done err ⟨none, none⟩)
    | _ => none
  | .fail t err sent now =>
    match st.tasks t with
    | .flight f =>
      some { st.put t f none now (.done err ⟨none, none⟩) with
        abandoned := if sent && f.skb.isNone then st.abandoned ++ [f.req] else st.abandoned }
    | _ => none
  -- the reply finds no waiter any more and is dropped
  | .serveAbandoned i table =>
    st.abandoned[i]?.map fun req =>
      { st with
        table := if nfpBpfCtrlOpCacheInvalidate req.op then table else st.table
        abandoned := st.abandoned.eraseIdx i }

end Model

end NfpDriver.MapCache
