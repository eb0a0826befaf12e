import Mathlib.Algebra.Group.Nat.Defs
import Mathlib.Data.List.Basic

/-! # The io_uring transport poller

The poller of `uring_poller.rs` with its slot pool. A send takes a slot, points it at the caller's
bytes and pushes a submission entry that names the slot; the kernel follows these pointers when the
ring is submitted. A poll harvests completion entries into a fixed batch and then dispatches them:
receives go to the callback and hand their buffer back, sends free their slot.

Data pointers are values of a type `P`, which the kernel resolves at submission. What the `io_uring`
crate decides about a completion (its flags, the layout of a received message) is a parameter,
**`UringApi`**. -/

namespace AeronRs

/-- `PollError`, and `panicked` for a call that does not return, at an index out of bounds. -/
inductive PollError
  | ringFull
  | noSendSlot
  | notRegistered
  | os (errno : Int)
  | panicked
  deriving DecidableEq, Repr

/-- `sockaddr_storage`. -/
structure SockAddr where
  family : Nat
  bytes : List UInt8
  deriving DecidableEq, Repr

/-- `addr_storage_len`: the length of an IPv4 or IPv6 socket address, zero for other families. -/
def addrStorageLen (addr : SockAddr) : Nat :=
  if addr.family = 2 then 16 else if addr.family = 10 then 28 else 0

/-! ## Send slots -/

inductive SlotState
  | free
  | inFlight
  deriving DecidableEq, Repr

/-- `SendSlot`: the message header that a submission entry points to. `iov` is the data pointer and
`name` the slot's own copy of the destination, if there is one. -/
structure SendSlot (P : Type) where
  iov : Option P
  name : Option SockAddr
  state : SlotState

def SendSlot.new {P : Type} : SendSlot P := ⟨none, none, .free⟩

def SendSlot.prepareSend {P : Type} (_ : SendSlot P) (data : P) (dest : Option SockAddr) :
    SendSlot P :=
  ⟨some data, dest, .inFlight⟩

/-- `SlotPool`, its send half (the poller allocates no receive slots). The free list is a stack, the
next slot first. -/
structure SlotPool (P : Type) where
  sendSlots : List (SendSlot P)
  sendFree : List Nat

namespace SlotPool

variable {P : Type}

/-- `SlotPool::new`. The free list has 16-bit indices. -/
def new (maxSend : Nat) : SlotPool P :=
  ⟨List.replicate maxSend SendSlot.new, (List.range maxSend).reverse.map (· % 2 ^ 16)⟩

def allocSend (pool : SlotPool P) : Option (Nat × SlotPool P) :=
  match pool.sendFree with
  | [] => none
  | idx :: rest => some (idx, { pool with sendFree := rest })

def modifySlot (pool : SlotPool P) (idx : Nat) (f : SendSlot P → SendSlot P) : SlotPool P :=
  { pool with sendSlots := pool.sendSlots.modify idx f }

/-- `free_send`: the slot is marked free and pushed. -/
def freeSend (pool : SlotPool P) (idx : Nat) : SlotPool P :=
  { sendSlots := pool.sendSlots.modify idx fun slot => { slot with state := .free }
    sendFree := idx :: pool.sendFree }

def sendAvailable (pool : SlotPool P) : Nat := pool.sendFree.length

end SlotPool

/-! ## The rings -/

/-- `UserData`: what identifies an operation in its completion. -/
structure UserData where
  transportIdx : Nat
  op : Nat
  slotIdx : Nat
  deriving DecidableEq, Repr

def opRecv : Nat := 1

def opSend : Nat := 2

/-- `UserData::encode`, with 16, 8 and 16 bits for its fields. -/
def UserData.encode (ud : UserData) : Nat :=
  (ud.transportIdx <<< 48) ||| (ud.op <<< 40) ||| (ud.slotIdx <<< 24)

/-- The fields of a 64-bit `user_data`. -/
def UserData.decode (raw : Nat) : UserData :=
  ⟨(raw >>> 48) % 2 ^ 16, (raw >>> 40) % 2 ^ 8, (raw >>> 24) % 2 ^ 16⟩

/-- A submission entry. -/
inductive Sqe
  | recvMsgMulti (fd userData : Nat)
  | sendMsg (fd slotIdx userData : Nat)
  deriving DecidableEq, Repr

/-- A completion entry. -/
structure Cqe where
  userData : Nat
  result : Int
  flags : Nat
  deriving DecidableEq, Repr

/-- `RecvMsgOut`: a received message as the crate parses it out of a provided buffer. -/
structure RecvMsgOut where
  nameData : List UInt8
  payloadData : List UInt8
  incomingNameLen : Nat

/-- What the `io_uring` crate computes: the buffer that a completion's flags select, whether a
multishot operation goes on, and the message in a buffer. -/
structure UringApi where
  bufferSelect : Nat → Option Nat
  more : Nat → Bool
  parse : List UInt8 → Option RecvMsgOut

/-- `BufRingPool`: `ring` is the buffer id at each ring entry, `buffers` what the kernel has written
to each buffer. -/
structure BufRing where
  mask : Nat
  bufSize : Nat
  ring : Nat → Nat
  localTail : Nat
  tail : Nat
  buffers : Nat → List UInt8

namespace BufRing

def bufData (b : BufRing) (bid len : Nat) : List UInt8 :=
  if b.mask < bid then [] else (b.buffers bid).take (min len b.bufSize)

def returnBufLocal (b : BufRing) (bid : Nat) : BufRing :=
  if b.mask < bid then b
  else
    { b with
      ring := fun i => if i = b.localTail &&& b.mask then bid else b.ring i
      localTail := (b.localTail + 1) % 2 ^ 16 }

def publishTail (b : BufRing) : BufRing := { b with tail := b.localTail }

end BufRing

structure TransportEntry where
  recvFd : Nat
  sendFd : Nat
  dispatchClientd : Nat
  destinationClientd : Nat
  multishotActive : Bool
  active : Bool
  deriving DecidableEq, Repr

/-- `UringTransportPoller`. The submission queue holds what was pushed and not yet submitted; the
completion queue and the overflow counter are written by the kernel. -/
structure UringPoller (P : Type) where
  sqEntries : Nat
  sq : List Sqe
  cq : List Cqe
  overflow : Nat
  bufRing : BufRing
  pool : SlotPool P
  transports : List TransportEntry

/-- A datagram as the kernel takes it from a submission entry. -/
structure Datagram where
  fd : Nat
  dest : Option SockAddr
  bytes : List UInt8
  deriving DecidableEq, Repr

namespace UringPoller

variable {P : Type}

/-- `submission().push`. -/
def push (p : UringPoller P) (sqe : Sqe) : Except PollError (UringPoller P) :=
  if p.sq.length < p.sqEntries then .ok { p with sq := p.sq ++ [sqe] } else .error .ringFull

/-- Set `multishot_active` of a transport. -/
def setMultishotActive (p : UringPoller P) (transportIdx : Nat) (active : Bool) : UringPoller P :=
  { p with
    transports := p.transports.modify transportIdx
      (fun entry => { entry with multishotActive := active }) }

def submitMultishotRecv (p : UringPoller P) (transportIdx : Nat) :
    UringPoller P × Except PollError Unit :=
  match p.transports[transportIdx]? with
  | none => (p, .error .panicked)
  | some entry =>
      if entry.active = false then (p, .ok ())
      else
        let ud := UserData.encode ⟨transportIdx, opRecv, 0⟩
        match p.push (.recvMsgMulti entry.recvFd ud) with
        | .error e => (p, .error e)
        | .ok p => (p.setMultishotActive transportIdx true, .ok ())

/-- `submit_send_sqe`. An inactive transport is reported as success. -/
def submitSendSqe (p : UringPoller P) (transportIdx slotIdx : Nat) (data : P)
    (dest : Option SockAddr) : UringPoller P × Except PollError Unit :=
  match p.transports[transportIdx]? with
  | none => (p, .error .panicked)
  | some entry =>
      if entry.active = false then (p, .ok ())
      else
        let p := { p with
          pool := p.pool.modifySlot slotIdx (fun slot => slot.prepareSend data dest) }
        let ud := UserData.encode ⟨transportIdx, opSend, slotIdx⟩
        match p.push (.sendMsg entry.sendFd slotIdx ud) with
        | .error e => (p, .error e)
        | .ok p => (p, .ok ())

/-- `submit_send`. The index is cut to 16 bits. -/
def submitSend (p : UringPoller P) (transportIdx : Nat) (data : P) (dest : Option SockAddr) :
    UringPoller P × Except PollError Unit :=
  match p.pool.allocSend with
  | none => (p, .error .noSendSlot)
  | some (slotIdx, pool) => submitSendSqe { p with pool } (transportIdx % 2 ^ 16) slotIdx data dest

/-- The datagram of a submission entry: the kernel follows the slot to the bytes. -/
def datagramOf (resolve : P → List UInt8) (p : UringPoller P) : Sqe → Option Datagram
  | .recvMsgMulti _ _ => none
  | .sendMsg fd slotIdx _ =>
      (p.pool.sendSlots[slotIdx]?).map fun slot =>
        ⟨fd, slot.name, (slot.iov.map resolve).getD []⟩

/-- `flush`: the ring is submitted, and the kernel reads what the entries point to now. -/
def flush (resolve : P → List UInt8) (p : UringPoller P) : UringPoller P × List Datagram :=
  ({ p with sq := [] }, p.sq.filterMap (p.datagramOf resolve))

def recoverLeakedSendSlots (p : UringPoller P) : UringPoller P :=
  (List.range p.pool.sendSlots.length).foldl (fun p i =>
    if (p.pool.sendSlots[i]?).map SendSlot.state = some .inFlight then
      { p with pool := p.pool.freeSend i }
    else p) p

end UringPoller

/-! ## Polling -/

structure PollResult where
  bytesReceived : Int
  bytesSent : Int
  messagesReceived : Nat
  sendCompletions : Nat
  recvErrors : Nat
  sendErrors : Nat
  cqOverflows : Nat
  deriving DecidableEq, Repr

/-- `RecvMessage`: what the callback is given. -/
structure RecvMessage where
  transportIdx : Nat
  dispatchClientd : Nat
  destinationClientd : Nat
  data : List UInt8
  sourceAddr : List UInt8
  sourceAddrLen : Nat
  deriving DecidableEq, Repr

/-- What a dispatch does beyond its counters. -/
inductive PollEvent
  | callback (msg : RecvMessage)
  | bufReturned (bid : Nat)
  | slotFreed (slotIdx : Nat)
  deriving DecidableEq, Repr

/-- The local state of a poll: the poller, the result so far, the two flags and the events. -/
structure PollState (P : Type) where
  poller : UringPoller P
  result : PollResult
  bufsReturned : Bool
  needsSubmit : Bool
  events : List PollEvent

def cqeBatchSize : Nat := 256

/-- The harvest loop over the completion queue: each round takes the next entry off the queue and
stores it while the batch has room. The result is the batch and what is left in the queue. -/
def harvest : List Cqe → Nat → List Cqe × List Cqe
  | [], _ => ([], [])
  | cqe :: cq, count =>
      if count < cqeBatchSize then
        let rest := harvest cq (count + 1)
        (cqe :: rest.1, rest.2)
      else ([], cq)   -- the entry that ends the loop is already off the queue

namespace PollState

variable {P : Type}

/-- A receive error is counted unless it is `EAGAIN`, `EINTR` or `ECANCELED`. -/
def countRecvError (st : PollState P) (ret : Int) : PollState P :=
  if -ret ≠ 11 ∧ -ret ≠ 4 ∧ -ret ≠ 125 then
    { st with result.recvErrors := st.result.recvErrors + 1 }
  else st

/-- A received buffer: the message, if it parses, goes to the callback. -/
def deliver (api : UringApi) (st : PollState P) (tidx bufId : Nat) (ret : Int)
    (entry : TransportEntry) : PollState P :=
  match api.parse (st.poller.bufRing.bufData bufId ret.toNat) with
  | none => st
  | some out =>
      let msg : RecvMessage :=
        { transportIdx := tidx
          dispatchClientd := entry.dispatchClientd
          destinationClientd := entry.destinationClientd
          data := out.payloadData
          sourceAddr := out.nameData.take 128 ++ List.replicate (128 - out.nameData.length) 0
          sourceAddrLen := out.incomingNameLen }
      { st with
        result.bytesReceived := st.result.bytesReceived + out.payloadData.length
        result.messagesReceived := st.result.messagesReceived + 1
        events := st.events ++ [.callback msg] }

/-- The buffer of a completion goes back to the ring, to be published once at the end. -/
def returnBuf (st : PollState P) (bufId : Nat) : PollState P :=
  { st with
    poller.bufRing := st.poller.bufRing.returnBufLocal bufId
    bufsReturned := true
    events := st.events ++
      if st.poller.bufRing.mask < bufId then [] else [.bufReturned bufId] }

/-- A multishot receive that has ended is submitted again. -/
def rearm (st : PollState P) (tidx : Nat) : PollState P :=
  { st with
    poller := ((st.poller.setMultishotActive tidx false).submitMultishotRecv tidx).1
    needsSubmit := true }

def activeTransport (st : PollState P) (tidx : Nat) : Option TransportEntry :=
  st.poller.transports[tidx]?.filter fun entry => entry.active

/-- A completion with a buffer, before the buffer goes back. -/
def receive (api : UringApi) (st : PollState P) (tidx bufId : Nat) (ret : Int)
    (active : Option TransportEntry) : PollState P :=
  match active with
  | some entry =>
      if 0 < ret then st.deliver api tidx bufId ret entry
      else if ret < 0 then st.countRecvError ret else st
  | none => if ret < 0 then st.countRecvError ret else st

/-- A receive completion, with or without a buffer. -/
def consume (api : UringApi) (st : PollState P) (tidx : Nat) (cqe : Cqe)
    (active : Option TransportEntry) : PollState P :=
  match api.bufferSelect cqe.flags with
  | some bufId => (st.receive api tidx bufId cqe.result active).returnBuf bufId
  | none => if cqe.result < 0 then st.countRecvError cqe.result else st

/-- The `OP_RECV` arm of the dispatch loop. -/
def dispatchRecv (api : UringApi) (st : PollState P) (tidx : Nat) (cqe : Cqe) : PollState P :=
  let active := st.activeTransport tidx
  if api.more cqe.flags = false ∧ active.isSome then (st.consume api tidx cqe active).rearm tidx
  else st.consume api tidx cqe active

/-- The `OP_SEND` arm of the dispatch loop. -/
def dispatchSend (st : PollState P) (slotIdx : Nat) (cqe : Cqe) : PollState P :=
  let result :=
    if 0 ≤ cqe.result then
      { st.result with
        bytesSent := st.result.bytesSent + cqe.result
        sendCompletions := st.result.sendCompletions + 1 }
    else { st.result with sendErrors := st.result.sendErrors + 1 }
  { st with
    result
    poller.pool := st.poller.pool.freeSend slotIdx
    events := st.events ++ [.slotFreed slotIdx] }

/-- One round of the dispatch loop. -/
def dispatch (api : UringApi) (st : PollState P) (cqe : Cqe) : PollState P :=
  let ud := UserData.decode cqe.userData
  if ud.op = opRecv then st.dispatchRecv api ud.transportIdx cqe
  else if ud.op = opSend then st.dispatchSend ud.slotIdx cqe
  else st

/-- The poller after the dispatch loop: the returned buffers are published, and after an overflow
the slots still in flight are recovered. -/
def settle (st : PollState P) : UringPoller P :=
  let poller := if st.bufsReturned then { st.poller with bufRing := st.poller.bufRing.publishTail }
    else st.poller
  if 0 < st.result.cqOverflows then poller.recoverLeakedSendSlots else poller

end PollState

namespace UringPoller

variable {P : Type}

/-- The poll up to the end of the dispatch loop. -/
def pollDispatch (api : UringApi) (p : UringPoller P) : PollState P :=
  let batch := harvest p.cq 0
  batch.1.foldl (PollState.dispatch api)
    ⟨{ p with cq := batch.2 }, ⟨0, 0, 0, 0, 0, 0, p.overflow⟩, false, false, []⟩

/-- `poll_recv`: the poller, the result and the events. `submitErrno` is the error with which the
kernel answers a submission, if it does. -/
def pollRecv (api : UringApi) (p : UringPoller P) (submitErrno : Option Int) :
    UringPoller P × Except PollError PollResult × List PollEvent :=
  let st := p.pollDispatch api
  if st.needsSubmit then
    match submitErrno with
    | some errno => (st.settle, .error (.os errno), st.events)
    | none => ({ st.settle with sq := [] }, .ok st.result, st.events)
  else (st.settle, .ok st.result, st.events)

end UringPoller

end AeronRs
