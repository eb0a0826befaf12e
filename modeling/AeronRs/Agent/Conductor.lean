import AeronRs.Cnc.Broadcast
import AeronRs.Cnc.Command
import AeronRs.Cnc.RingQueue

/-! # The conductor

The agent of `conductor.rs`. A cycle drains the ring of client commands into an array of 32 entries of
at most 512 bytes and then processes the entries. Adding or removing a publication or a subscription
becomes a command in the queue to the sender or the receiver agent, and adding one is answered over
the broadcast buffer.

What a handler does to the outside is its list of **`ConductorEvent`**s: the commands that were really
stored in a queue, and the responses that were really broadcast. -/

namespace AeronRs

open Runs

/-! ## Commands to the agents -/

inductive SenderCommand
  | addPublication (correlationId : BitVec 64)
      (streamId sessionId initialTermId termLength mtu : BitVec 32)
  | removePublication (correlationId registrationId : BitVec 64)
  deriving DecidableEq

inductive ReceiverCommand
  | addSubscription (correlationId : BitVec 64) (streamId : BitVec 32)
  | removeSubscription (correlationId registrationId : BitVec 64)
  deriving DecidableEq

def internalCmdAddPub : BitVec 32 := 1

def internalCmdRemovePub : BitVec 32 := 2

def internalCmdAddSub : BitVec 32 := 1

def internalCmdRemoveSub : BitVec 32 := 2

/-- `encode_sender_cmd`: the type and the bytes written to the buffer. -/
def encodeSenderCmd : SenderCommand → Message
  | .addPublication correlationId streamId sessionId initialTermId termLength mtu =>
      ⟨internalCmdAddPub, encodeI64 correlationId ++ (encodeI32 streamId ++ (encodeI32 sessionId ++
        (encodeI32 initialTermId ++ (encodeI32 termLength ++ encodeI32 mtu))))⟩
  | .removePublication correlationId registrationId =>
      ⟨internalCmdRemovePub, encodeI64 correlationId ++ encodeI64 registrationId⟩

def decodeSenderCmd (msg : Message) : Option SenderCommand :=
  if msg.msgType = internalCmdAddPub ∧ 28 ≤ msg.payload.length then
    some (.addPublication (fieldI64 msg.payload 0) (fieldI32 msg.payload 8) (fieldI32 msg.payload 12)
      (fieldI32 msg.payload 16) (fieldI32 msg.payload 20) (fieldI32 msg.payload 24))
  else if msg.msgType = internalCmdRemovePub ∧ 16 ≤ msg.payload.length then
    some (.removePublication (fieldI64 msg.payload 0) (fieldI64 msg.payload 8))
  else none

/-- `encode_receiver_cmd`: the type and the bytes written to the buffer. -/
def encodeReceiverCmd : ReceiverCommand → Message
  | .addSubscription correlationId streamId =>
      ⟨internalCmdAddSub, encodeI64 correlationId ++ encodeI32 streamId⟩
  | .removeSubscription correlationId registrationId =>
      ⟨internalCmdRemoveSub, encodeI64 correlationId ++ encodeI64 registrationId⟩

def decodeReceiverCmd (msg : Message) : Option ReceiverCommand :=
  if msg.msgType = internalCmdAddSub ∧ 12 ≤ msg.payload.length then
    some (.addSubscription (fieldI64 msg.payload 0) (fieldI32 msg.payload 8))
  else if msg.msgType = internalCmdRemoveSub ∧ 16 ≤ msg.payload.length then
    some (.removeSubscription (fieldI64 msg.payload 0) (fieldI64 msg.payload 8))
  else none

/-! ## The agent -/

def internalQueueCapacity : Nat := 4096

def maxClients : Nat := 64

structure ClientEntry where
  clientId : BitVec 64
  lastKeepaliveNs : Int
  active : Bool
  deriving DecidableEq, Repr

/-- `ConductorAgent`: the two buffers shared with the clients, the two queues to the agents, the
counters, and the entries of the client table in use. -/
structure Conductor where
  toDriver : RingBuffer
  toClients : BroadcastTransmitter
  toSender : RingBuffer
  toReceiver : RingBuffer
  nextRegistrationId : BitVec 64
  nextSessionId : BitVec 32
  clients : List ClientEntry

/-- A call of `process_command`, with the message that it is given, or what its handler does to the
outside. A response about a subscription is listed with the stream of the command that it answers, which
it does not carry. -/
inductive ConductorEvent
  | processed (msg : Message)
  | senderStored (cmd : SenderCommand)
  | receiverStored (cmd : ReceiverCommand)
  | publicationReady (rsp : PublicationReady)
  | subscriptionReady (streamId : BitVec 32) (rsp : SubscriptionReady)
  deriving DecidableEq

/-- The length of the scratch buffer for responses. -/
def scratchLength : Nat := 512

def newQueue : RingBuffer where
  capacity := internalQueueCapacity
  capacity_ge := by decide
  capacity_pow := by decide
  size_lt := by decide
  data := fun _ => 0
  head := 0
  tail := 0

theorem newQueue_eq : RingBuffer.new internalQueueCapacity (by decide) = .ok newQueue := rfl

/-- `ConductorAgent::new` over the buffers shared with the clients. -/
def Conductor.new (toDriver : RingBuffer) (toClients : BroadcastTransmitter) : Conductor where
  toDriver
  toClients
  toSender := newQueue
  toReceiver := newQueue
  nextRegistrationId := 1
  nextSessionId := 1
  clients := []

/-- The loop of `touch_client` over the entries in use: the first active one of the client is
refreshed; a new client is appended while the table has room. -/
def touchClients (clientId : BitVec 64) (nowNs : Int) : List ClientEntry → Nat → List ClientEntry
  | [], count => if count < maxClients then [⟨clientId, nowNs, true⟩] else []
  | entry :: entries, count =>
      if entry.active = true ∧ entry.clientId = clientId then
        { entry with lastKeepaliveNs := nowNs } :: entries
      else entry :: touchClients clientId nowNs entries (count + 1)

namespace Conductor

def touchClient (c : Conductor) (clientId : BitVec 64) (nowNs : Int) : Conductor :=
  { c with clients := touchClients clientId nowNs c.clients 0 }

/-- A command written to the queue of the sender; an error is ignored. -/
def sendToSender (c : Conductor) (cmd : SenderCommand) : Conductor × List ConductorEvent :=
  match c.toSender.write (encodeSenderCmd cmd) with
  | (toSender, .ok ()) => ({ c with toSender }, [.senderStored cmd])
  | (toSender, .error _) => ({ c with toSender }, [])

/-- A command written to the queue of the receiver; an error is ignored. -/
def sendToReceiver (c : Conductor) (cmd : ReceiverCommand) : Conductor × List ConductorEvent :=
  match c.toReceiver.write (encodeReceiverCmd cmd) with
  | (toReceiver, .ok ()) => ({ c with toReceiver }, [.receiverStored cmd])
  | (toReceiver, .error _) => ({ c with toReceiver }, [])

/-- A response to the clients, encoded in the scratch buffer; an error is ignored. -/
def respond (c : Conductor) (msgType : BitVec 32) (bytes : Option (List UInt8))
    (event : ConductorEvent) : Conductor × List ConductorEvent :=
  match bytes with
  | none => (c, [])
  | some payload =>
      match c.toClients.transmit ⟨msgType, payload⟩ with
      | (toClients, .ok ()) => ({ c with toClients }, [event])
      | (toClients, .error _) => ({ c with toClients }, [])

def addPublicationCmd (c : Conductor) (cmd : AddPublication) : SenderCommand :=
  .addPublication cmd.correlationId cmd.streamId c.nextSessionId 0 (64 * 1024) 1408

def handleAddPublication (c : Conductor) (cmd : AddPublication) (nowNs : Int) :
    Conductor × List ConductorEvent :=
  let senderCmd := c.addPublicationCmd cmd
  let rsp : PublicationReady :=
    { correlationId := cmd.correlationId
      registrationId := c.nextRegistrationId
      sessionId := c.nextSessionId
      streamId := cmd.streamId
      positionLimitCounterId := 0
      channelStatusIndicatorId := 0 }
  let c := c.touchClient cmd.clientId nowNs
  let c := { c with
    nextRegistrationId := c.nextRegistrationId + 1
    nextSessionId := c.nextSessionId + 1 }
  let stored := c.sendToSender senderCmd
  let ready := stored.1.respond rspPublicationReady (rsp.encode scratchLength) (.publicationReady rsp)
  (ready.1, stored.2 ++ ready.2)

def handleRemovePublication (c : Conductor) (cmd : RemovePublication) :
    Conductor × List ConductorEvent :=
  c.sendToSender (.removePublication cmd.correlationId cmd.registrationId)

def handleAddSubscription (c : Conductor) (cmd : AddSubscription) (nowNs : Int) :
    Conductor × List ConductorEvent :=
  let c := c.touchClient cmd.clientId nowNs
  let stored := c.sendToReceiver (.addSubscription cmd.correlationId cmd.streamId)
  let rsp : SubscriptionReady :=
    { correlationId := cmd.correlationId, channelStatusIndicatorId := 0 }
  let ready := stored.1.respond rspSubscriptionReady (rsp.encode scratchLength)
    (.subscriptionReady cmd.streamId rsp)
  (ready.1, stored.2 ++ ready.2)

def handleRemoveSubscription (c : Conductor) (cmd : RemoveSubscription) :
    Conductor × List ConductorEvent :=
  c.sendToReceiver (.removeSubscription cmd.correlationId cmd.registrationId)

/-- The body of `process_command`. A payload that does not decode and an unknown type are ignored. -/
def handleCommand (c : Conductor) (msg : Message) (nowNs : Int) :
    Conductor × List ConductorEvent :=
  if msg.msgType = cmdAddPublication then
    match ChannelCommand.decode msg.payload with
    | some cmd => c.handleAddPublication cmd nowNs
    | none => (c, [])
  else if msg.msgType = cmdRemovePublication then
    match RegistrationCommand.decode msg.payload with
    | some cmd => c.handleRemovePublication cmd
    | none => (c, [])
  else if msg.msgType = cmdAddSubscription then
    match ChannelCommand.decode msg.payload with
    | some cmd => c.handleAddSubscription cmd nowNs
    | none => (c, [])
  else if msg.msgType = cmdRemoveSubscription then
    match RegistrationCommand.decode msg.payload with
    | some cmd => c.handleRemoveSubscription cmd
    | none => (c, [])
  else if msg.msgType = cmdClientKeepalive then
    match ClientKeepalive.decode msg.payload with
    | some cmd => (c.touchClient cmd.clientId nowNs, [])
    | none => (c, [])
  else if msg.msgType = cmdClientClose then (c, [])   -- left to the liveness timeout
  else (c, [])

/-- `process_command`: the call, and what its body does. -/
def processCommand (c : Conductor) (msg : Message) (nowNs : Int) :
    Conductor × List ConductorEvent :=
  let handled := c.handleCommand msg nowNs
  (handled.1, .processed msg :: handled.2)

/-! ## A cycle -/

def maxCmdsPerCycle : Nat := 32

/-- The length of an entry of the staging array. -/
def stagedLength : Nat := 512

/-- What an entry of the staging array keeps of a message. -/
def stagedEntry (msg : Message) : Message :=
  ⟨msg.msgType, msg.payload.take (min msg.payload.length stagedLength)⟩

/-- The callback that `do_work` gives to `read`, with the entries staged so far. -/
def stage (staged : List Message) (msg : Message) : List Message :=
  if staged.length < maxCmdsPerCycle then staged ++ [stagedEntry msg] else staged

/-- The first half of `do_work`: the ring is read, and the entries are staged. The result has the
messages that the ring handed out and the staged entries. -/
def collect (c : Conductor) : Option (Conductor × List Message × List Message) :=
  c.toDriver.read.map fun r => ({ c with toDriver := r.2 }, r.1, r.1.foldl stage [])

/-- The second half of `do_work`: `process_command` is called with each of the staged entries. -/
def processAll (nowNs : Int) : Conductor → List Message → Conductor × List ConductorEvent
  | c, [] => (c, [])
  | c, msg :: msgs =>
      let processed := c.processCommand msg nowNs
      let rest := processAll nowNs processed.1 msgs
      (rest.1, processed.2 ++ rest.2)

/-! ## What the handlers leave alone -/

@[simp] theorem touchClient_toDriver (c : Conductor) (clientId : BitVec 64) (nowNs : Int) :
    (c.touchClient clientId nowNs).toDriver = c.toDriver := rfl

@[simp] theorem sendToSender_toDriver (c : Conductor) (cmd : SenderCommand) :
    (c.sendToSender cmd).1.toDriver = c.toDriver := by
  unfold sendToSender
  split <;> rfl

@[simp] theorem sendToReceiver_toDriver (c : Conductor) (cmd : ReceiverCommand) :
    (c.sendToReceiver cmd).1.toDriver = c.toDriver := by
  unfold sendToReceiver
  split <;> rfl

@[simp] theorem respond_toDriver (c : Conductor) (msgType : BitVec 32) (bytes : Option (List UInt8))
    (event : ConductorEvent) : (c.respond msgType bytes event).1.toDriver = c.toDriver := by
  unfold respond
  split
  · rfl
  · split <;> rfl

/-- **Processing a command** leaves the ring of client commands alone. -/
@[simp] theorem processCommand_toDriver (c : Conductor) (msg : Message) (nowNs : Int) :
    (c.processCommand msg nowNs).1.toDriver = c.toDriver := by
  unfold processCommand handleCommand handleAddPublication handleRemovePublication handleAddSubscription
    handleRemoveSubscription
  repeat' split
  all_goals simp

@[simp] theorem processAll_toDriver (nowNs : Int) (c : Conductor) (msgs : List Message) :
    (processAll nowNs c msgs).1.toDriver = c.toDriver := by
  induction msgs generalizing c with
  | nil => rfl
  | cons msg msgs ih => simp only [processAll, ih, processCommand_toDriver]

end Conductor

end AeronRs
