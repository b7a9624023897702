import NfpDriver.Mbox.Batch

namespace NfpDriver.Mbox

abbrev Id := Nat

structure Hdr where
  type : BitVec 8
  tag : BitVec 16
  deriving DecidableEq, Repr

inductive Phase where
  | selected
  | parsing (data : Nat)
  | parsed
  | failed
  deriving DecidableEq, Repr

structure Run where
  last : Id
  phase : Phase
  deriving DecidableEq, Repr

inductive Pc where
  | idle
  | waiting
  | woken (timedOut : Bool)
  | locking (timedOut : Bool)
  | blocked
  | running (r : Run)
  | finished
  | posted
  | returned (err : Option Err)
  deriving DecidableEq, Repr

structure Work where
  pending : Bool
  run : Option Run
  deriving DecidableEq, Repr

inductive Remover where
  | runner
  | owner
  deriving DecidableEq, Repr

structure St where
  queue : List Id
  msg : Id → Msg
  hdr : Id → Hdr
  pc : Id → Pc
  runq : Work
  wait : Work
  tag : BitVec 16
  sent : List Id
  log : List (Id × Remover)
  replied : Id → Bool
  oops : Bool
  warned : Bool

def init : St where
  queue := []
  msg := fun _ => ⟨⟨[], by decide⟩, ⟨.queued, none, 0, 0, false⟩⟩
  hdr := fun _ => ⟨0, 0⟩
  pc := fun _ => .idle
  runq := ⟨false, none⟩
  wait := ⟨false, none⟩
  tag := 0
  sent := []
  log := []
  replied := fun _ => false
  oops := false
  warned := false

def Msg.setState (m : Msg) (s : CmsgState) : Msg := { m with cb := { m.cb with state := s } }

def Msg.setErr (m : Msg) (e : Err) : Msg := { m with cb := { m.cb with err := some e } }

def Msg.done (m : Msg) : Bool := m.cb.state = .done

def Msg.inProgress (m : Msg) : Bool := m.cb.state ≠ .queued ∧ m.cb.state ≠ .next

def Msg.shouldRun (m : Msg) : Bool := m.cb.state = .next

def St.setPc (st : St) (i : Id) (pc : Pc) : St := { st with pc := Function.update st.pc i pc }

def St.setMsg (st : St) (i : Id) (m : Msg) : St := { st with msg := Function.update st.msg i m }

def St.mapMsgs (st : St) (ids : List Id) (f : Msg → Msg) : St :=
  { st with msg := fun i => if i ∈ ids then f (st.msg i) else st.msg i }

def nfpCcmMboxIsFirst (st : St) (i : Id) : Bool := st.queue.head? = some i

def nfpCcmMboxMarkNextRunner (st : St) : St :=
  match st.queue with
  | [] => st
  | h :: _ =>
    let st := st.setMsg h ((st.msg h).setState .next)
    if (st.msg h).cb.posted then { st with runq := { st.runq with pending := true } } else st

def selectBatch (caps : MboxCaps) (st : St) : List Id :=
  st.queue.take (runQueueBatch caps (st.queue.map st.msg)).length

def nfpCcmMboxRunQueue (caps : MboxCaps) (st : St) : St × Run :=
  let batch := selectBatch caps st
  (st.mapMsgs batch.tail (·.setState .busy), ⟨batch.getLastD 0, .selected⟩)

def drain (last : Id) : List Id → Option (List Id × List Id)
  | [] => none
  | i :: q => if i = last then some ([i], q) else (drain last q).map fun p => (i :: p.1, p.2)

def dequeueBatch (last : Id) (f : Msg → Msg) (st : St) : St :=
  match drain last st.queue with
  | none => { st with oops := true }
  | some (batch, rest) =>
    nfpCcmMboxMarkNextRunner
      { st.mapMsgs batch f with queue := rest, log := st.log ++ batch.map fun i => (i, .runner) }

def copyOutDone (m : Msg) : Msg :=
  (if m.cb.state ≠ .replyFound then m.setErr .enoent else m).setState .done

def markErr (m : Msg) : Msg := (m.setErr .eio).setState .done

def nfpCcmMboxUnlink (st : St) (i : Id) : St :=
  let wasFirst := (st.msg i).shouldRun
  let st := { st with queue := st.queue.erase i, log := st.log ++ [(i, .owner)] }
  if wasFirst then nfpCcmMboxMarkNextRunner st else st

def nfpCcmMboxMsgEnqueue (st : St) (i : Id) (m : Msg) (type : Nat) (critical : Bool) : Except Err St :=
  if !critical ∧ st.queue.length ≥ maxQlen then .error .ebusy
  else .ok
    { st with
      queue := st.queue ++ [i]
      msg := Function.update st.msg i m
      hdr := Function.update st.hdr i ⟨BitVec.ofNat 8 type, st.tag⟩
      tag := st.tag + 1
      sent := st.sent ++ [i] }

def nfpCcmMboxFindReq (st : St) (tag : BitVec 16) (last : Id) : List Id → Option Id
  | [] => none
  | i :: q =>
    if (st.hdr i).tag = tag then some i
    else if i = last then none
    else nfpCcmMboxFindReq st tag last q

structure Tlv where
  hdr : BitVec 32
  word : BitVec 32
  body : Nat → BitVec 8

def Tlv.type (t : Tlv) : BitVec 16 := t.hdr.extractLsb' 16 16

def Tlv.length (t : Tlv) : Nat := (t.hdr.extractLsb' 0 16).toNat

def Tlv.msgType (t : Tlv) : BitVec 8 := t.word.extractLsb' 24 8

def Tlv.msgTag (t : Tlv) : BitVec 16 := t.word.extractLsb' 0 16

def Tlv.data (t : Tlv) : Skb where
  data := (List.range t.length).map fun k =>
    if k < 4 then t.word.extractLsb' (24 - 8 * k) 8 else t.body k
  len_lt := by
    have := (t.hdr.extractLsb' 0 16).isLt
    simp only [List.length_map, List.length_range, Tlv.length]
    omega

def ccmReply (type : BitVec 8) : BitVec 8 := 0x80 ||| type

def replyTo (st : St) (i : Id) (t : Tlv) : St :=
  let m := st.msg i
  if t.type = TlvType.code .msgNosup then st.setMsg i (m.setErr .eio)
  else if t.msgType ≠ ccmReply (st.hdr i).type then st.setMsg i (m.setErr .eio)
  else if m.cb.expReply ≠ 0 ∧ t.length ≠ m.cb.expReply then st.setMsg i (m.setErr .eio)
  else if t.length > m.cb.maxLen then st.setMsg i (m.setErr .eio)
  else
    let st :=
      if m.cb.posted then st
      else { st.setMsg i { m with skb := t.data } with hdr := Function.update st.hdr i ⟨t.msgType, t.msgTag⟩ }
    { st.setMsg i ((st.msg i).setState .replyFound) with replied := Function.update st.replied i true }

def copyOutTlv (caps : MboxCaps) (st : St) (last : Id) (data : Nat) (t : Tlv) : St × Phase :=
  let next := data + 4 + roundUp4 t.length
  let phase := if next + 4 > caps.mboxLen then Phase.parsed else .parsing next
  if data + 4 + t.length > caps.mboxLen then (st, .parsed)
  else if t.type = TlvType.code .endTlv then (st, .parsed)
  else if t.type = TlvType.code .resv then (st, phase)
  else if t.type ≠ TlvType.code .msg ∧ t.type ≠ TlvType.code .msgNosup then (st, .parsed)
  else if t.length < 4 then (st, .parsed)
  else
    match nfpCcmMboxFindReq st t.msgTag last st.queue with
    | none => (st, .parsed)
    | some i => (replyTo st i t, phase)

inductive Owner where
  | sync (i : Id)
  | runq
  | wait
  | inflight
  deriving DecidableEq, Repr

def Pc.run : Pc → Option Run
  | .running r => some r
  | _ => none

def runOf (st : St) : Owner → Option Run
  | .sync i => (st.pc i).run
  | .runq => st.runq.run
  | .wait => st.wait.run
  | .inflight => if st.wait.pending then some ⟨st.queue.headD 0, .selected⟩ else none

def setRun (st : St) (r : Run) : Owner → St
  | .sync i => st.setPc i (.running r)
  | .runq => { st with runq := { st.runq with run := some r } }
  | .wait => { st with wait := { st.wait with run := some r } }
  | .inflight => st

def endRun (st : St) : Owner → St
  | .sync i => st.setPc i .finished
  | .runq => { st with runq := { st.runq with run := none } }
  | .wait => { st with wait := { st.wait with run := none } }
  | .inflight => st

def startRun (caps : MboxCaps) (st : St) (o : Owner) : St :=
  setRun (nfpCcmMboxRunQueue caps st).1 (nfpCcmMboxRunQueue caps st).2 o

def communicate (caps : MboxCaps) (st : St) (i : Id) (type : Nat) (critical : Bool) (m : Msg) : St :=
  match nfpCcmMboxMsgEnqueue st i m type critical with
  | .error err => st.setPc i (.returned (some err))
  | .ok st => if nfpCcmMboxIsFirst st i then startRun caps st (.sync i) else st.setPc i .waiting

def St.warnOn (st : St) (cond : Bool) : St := { st with warned := st.warned || cond }

def lockAfterWait (caps : MboxCaps) (st : St) (i : Id) (timedOut : Bool) : St :=
  if nfpCcmMboxIsFirst st i then startRun caps st (.sync i)
  else
    let st := st.warnOn !timedOut
    if (st.msg i).inProgress then st.setPc i .blocked
    else (nfpCcmMboxUnlink st i).setPc i (.returned (some .etimedout))

def post (st : St) (i : Id) (type : Nat) (trylock : Bool) (m : Msg) : St :=
  match nfpCcmMboxMsgEnqueue st i m type false with
  | .error err => st.setPc i (.returned (some err))
  | .ok st =>
    let st := st.setPc i .posted
    if nfpCcmMboxIsFirst st i then
      if trylock then { st with wait := { st.wait with pending := true } } else nfpCcmMboxMarkNextRunner st
    else st

def runqWork (caps : MboxCaps) (st : St) : St :=
  match st.queue with
  | [] => st.warnOn true
  | h :: _ =>
    if (st.msg h).cb.posted ∧ (st.msg h).shouldRun then startRun caps st .runq else st.warnOn true

def waitWork (st : St) : St :=
  match st.queue with
  | [] => st.warnOn true
  | h :: _ => if (st.msg h).cb.posted then setRun st ⟨h, .selected⟩ .wait else st.warnOn true

inductive Action where
  | communicate (i : Id) (skb : Skb) (type room : Nat) (replySize maxReplySize : BitVec 32)
      (expandHead : Option Err) (critical : Bool)
  | post (i : Id) (skb : Skb) (type room : Nat) (maxReplySize : BitVec 32) (expandHead : Option Err)
      (trylock : Bool)
  | wake (i : Id) (timeout : Bool)
  | check (i : Id)
  | lock (i : Id)
  | unblock (i : Id)
  | skbReturn (i : Id)
  | runqWork
  | waitWork
  | reconfig (o : Owner) (ok : Bool)
  | copyOut (o : Owner) (t : Tlv)
  | finish (o : Owner)

def apply (caps : MboxCaps) (st : St) : Action → Option St
  | .communicate i skb type room replySize maxReplySize expandHead critical =>
    if st.pc i = .idle then
      match nfpCcmMboxMsgPrepare caps skb type room replySize maxReplySize expandHead with
      | .error err => some (st.setPc i (.returned (some err)))
      | .ok m => some (communicate caps st i type critical m)
    else none
  | .post i skb type room maxReplySize expandHead trylock =>
    if st.pc i = .idle then
      match nfpCcmMboxMsgPrepare caps skb type room 0 maxReplySize expandHead with
      | .error err => some (st.setPc i (.returned (some err)))
      | .ok m => some (post st i type trylock (nfpCcmMboxMarkPosted m))
    else none
  | .wake i timeout =>
    let cond := (st.msg i).done || (st.msg i).shouldRun
    if st.pc i = .waiting ∧ (timeout || cond) then some (st.setPc i (.woken !cond)) else none
  | .check i =>
    match st.pc i with
    | .woken timedOut =>
      some (st.setPc i (if (st.msg i).done then .returned (st.msg i).cb.err else .locking timedOut))
    | _ => none
  | .lock i =>
    match st.pc i with
    | .locking timedOut => some (lockAfterWait caps st i timedOut)
    | _ => none
  | .unblock i =>
    if st.pc i = .blocked ∧ (st.msg i).done then some (st.setPc i (.returned (st.msg i).cb.err)) else none
  | .skbReturn i =>
    if st.pc i = .finished then some (st.setPc i (.returned (st.msg i).cb.err)) else none
  | .runqWork =>
    if st.runq.pending ∧ st.runq.run = none then
      some (runqWork caps { st with runq := { st.runq with pending := false } })
    else none
  | .waitWork =>
    if st.wait.pending ∧ st.wait.run = none then
      some (waitWork { st with wait := { st.wait with pending := false } })
    else none
  | .reconfig o ok =>
    if o = .inflight then none
    else match runOf st o with
      | some ⟨last, .selected⟩ => some (setRun st ⟨last, if ok then .parsing 0 else .failed⟩ o)
      | _ => none
  | .copyOut o t =>
    match runOf st o with
    | some ⟨last, .parsing data⟩ =>
      let p := copyOutTlv caps st last data t
      some (setRun p.1 ⟨last, p.2⟩ o)
    | _ => none
  | .finish o =>
    match runOf st o with
    | some ⟨last, .parsed⟩ => some (endRun (dequeueBatch last copyOutDone st) o)
    | some ⟨last, .failed⟩ => some (endRun (dequeueBatch last markErr st) o)
    | _ => none

def Step (caps : MboxCaps) (st st' : St) : Prop := ∃ a, apply caps st a = some st'

def Reachable (caps : MboxCaps) (st : St) : Prop := Relation.ReflTransGen (Step caps) init st

end NfpDriver.Mbox
