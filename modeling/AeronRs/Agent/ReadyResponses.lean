import AeronRs.Agent.CommandCodec

/-! # Responses that say ready

The conductor answers an `AddPublication` with `PublicationReady` and an `AddSubscription` with
`SubscriptionReady`, after it has written a command into the queue of the sender or the receiver and
whatever became of that write. Here clients write, the conductor takes its cycles command by command,
and the agents poll their queues, in any order.

* **`Carries`** says that a queue holds stored commands for a reader: what was polled and what a poll
  would return are the stored ones.
* **`ReadyRun.Answered`** is the property: the responses are matched by stored commands.
* **`ReadyRun.HasRoom`** is the condition: a command to add finds room in the queue it goes to. -/

namespace AeronRs

open Runs

/-! ## The commands to the agents -/

/-- **A command to the sender** is decoded as it was encoded. -/
theorem decodeSenderCmd_encode (cmd : SenderCommand) :
    decodeSenderCmd (encodeSenderCmd cmd) = some cmd :=
  decodeSenderCmd_eq_some_iff.mpr ⟨rfl, List.prefix_rfl⟩

/-- **A command to the receiver** is decoded as it was encoded. -/
theorem decodeReceiverCmd_encode (cmd : ReceiverCommand) :
    decodeReceiverCmd (encodeReceiverCmd cmd) = some cmd :=
  decodeReceiverCmd_eq_some_iff.mpr ⟨rfl, List.prefix_rfl⟩

theorem encodeSenderCmd_type (cmd : SenderCommand) : 1 ≤ (encodeSenderCmd cmd).msgType.toInt := by
  cases cmd with
  | addPublication => exact (by decide : 1 ≤ internalCmdAddPub.toInt)
  | removePublication => exact (by decide : 1 ≤ internalCmdRemovePub.toInt)

theorem encodeReceiverCmd_type (cmd : ReceiverCommand) :
    1 ≤ (encodeReceiverCmd cmd).msgType.toInt := by
  cases cmd with
  | addSubscription => exact (by decide : 1 ≤ internalCmdAddSub.toInt)
  | removeSubscription => exact (by decide : 1 ≤ internalCmdRemoveSub.toInt)

theorem encodeSenderCmd_length_le (cmd : SenderCommand) :
    (encodeSenderCmd cmd).payload.length ≤ 28 := by
  cases cmd <;> simp [encodeSenderCmd]

theorem encodeReceiverCmd_length_le (cmd : ReceiverCommand) :
    (encodeReceiverCmd cmd).payload.length ≤ 28 := by
  cases cmd <;> simp [encodeReceiverCmd]

/-! ## A queue of commands -/

section Queue

variable {κ : Type} {encode : κ → Message} {decode : Message → Option κ}

/-- **A queue that carries commands** to the agent that polls it. -/
def Carries (encode : κ → Message) (decode : Message → Option κ) (rb : RingBuffer)
    (stored polled : List κ) : Prop :=
  ∃ q : QueueRun, QueueRun.Inv internalQueueCapacity q ∧ q.rb = rb ∧
    q.accepted = stored.map encode ∧ polled = q.delivered.filterMap decode

theorem Carries.new : Carries encode decode newQueue [] [] :=
  ⟨QueueRun.start newQueue, QueueRun.inv_start newQueue_eq, rfl, rfl, rfl⟩

theorem internalQueueCapacity_le : internalQueueCapacity ≤ 2 ^ 30 := by decide

variable {rb : RingBuffer} {stored polled : List κ}

/-- **A write** stores the command, or fails and stores nothing. -/
theorem Carries.write (h : Carries encode decode rb stored polled) {cmd : κ}
    (htype : 1 ≤ (encode cmd).msgType.toInt) :
    Carries encode decode (rb.write (encode cmd)).1
      (stored ++ if (rb.write (encode cmd)).2 = .ok () then [cmd] else []) polled := by
  obtain ⟨q, hinv, rfl, haccepted, hpolled⟩ := h
  have hstep := QueueRun.inv_step internalQueueCapacity_le (a := .write (encode cmd)) hinv htype
  refine ⟨_, hstep, ?_⟩
  simp only [QueueRun.step]
  obtain ⟨rb, result⟩ := q.rb.write (encode cmd)
  cases result with
  | ok _ => exact ⟨rfl, by simp [haccepted], hpolled⟩
  | error e => exact ⟨rfl, by simp [haccepted], hpolled⟩

/-- **A write that finds room** succeeds. -/
theorem Carries.write_ok (h : Carries encode decode rb stored polled) {msg : Message}
    (hlen : msg.payload.length ≤ 28) (hroom : rb.roomFor msg ≤ rb.freeBytes) :
    (rb.write msg).2 = .ok () := by
  obtain ⟨q, ⟨hcapacity, s, hrefines⟩, rfl, -⟩ := h
  obtain ⟨passed, live, H, T, hinv⟩ := hrefines.holds
  have hring := hinv.ring
  rw [hrefines.rb] at hring
  have hfits : ¬ q.rb.capacity < msg.payload.length + recordHeaderLength := by
    have hheader : recordHeaderLength = 8 := rfl
    have hvalue : internalQueueCapacity = 4096 := rfl
    omega
  rw [QueueRun.write_eq hring, if_neg hfits, if_neg (Nat.not_lt.mpr hroom)]

/-- **A poll** returns what was stored and not polled before. -/
theorem Carries.read (h : Carries encode decode rb stored polled)
    (hround : ∀ cmd, decode (encode cmd) = some cmd) :
    ∃ rest rb', rb.read = some (rest, rb') ∧ polled ++ rest.filterMap decode = stored ∧
      Carries encode decode rb' stored (polled ++ rest.filterMap decode) := by
  obtain ⟨q, hinv, rfl, haccepted, rfl⟩ := h
  have hstep := QueueRun.inv_step internalQueueCapacity_le (a := .read) hinv trivial
  obtain ⟨-, s, hrefines⟩ := hinv
  obtain ⟨rest, rb', hread, hfifo, -⟩ := hrefines.read
  have hdecoded : (stored.map encode).filterMap decode = stored := by
    rw [List.filterMap_map]
    exact (List.filterMap_congr fun cmd _ => hround cmd).trans (List.filterMap_some)
  simp only [QueueRun.step, hread] at hstep
  refine ⟨rest, rb', hread, ?_, _, hstep, rfl, haccepted, ?_⟩
  · rw [← List.filterMap_append, hfifo, haccepted, hdecoded]
  · rw [List.filterMap_append]

end Queue

/-! ## Runs -/

/-- A write by a client, a part of a cycle of the conductor, or a poll by an agent. -/
inductive ReadyAction
  | clientWrite (msg : Message)
  | collect
  | process (nowNs : Int)
  | senderPoll
  | receiverPoll

/-- A conductor with the staged entries of its cycle, its events, and what the agents have polled. -/
structure ReadyRun where
  conductor : Conductor
  staged : List Message
  events : List ConductorEvent
  polledSender : List SenderCommand
  polledReceiver : List ReceiverCommand

/-- What names a publication in a command and in its response: correlation, stream and session. -/
def publicationKey : SenderCommand → Option (BitVec 64 × BitVec 32 × BitVec 32)
  | .addPublication correlationId streamId sessionId _ _ _ => some (correlationId, streamId, sessionId)
  | .removePublication _ _ => none

/-- What names a subscription in a command and in its response: correlation and stream. -/
def subscriptionKey : ReceiverCommand → Option (BitVec 64 × BitVec 32)
  | .addSubscription correlationId streamId => some (correlationId, streamId)
  | .removeSubscription _ _ => none

namespace ConductorEvent

def sender? : ConductorEvent → Option SenderCommand
  | .senderStored cmd => some cmd
  | _ => none

def receiver? : ConductorEvent → Option ReceiverCommand
  | .receiverStored cmd => some cmd
  | _ => none

def readyPublication? : ConductorEvent → Option (BitVec 64 × BitVec 32 × BitVec 32)
  | .publicationReady rsp => some (rsp.correlationId, rsp.streamId, rsp.sessionId)
  | _ => none

def readySubscription? : ConductorEvent → Option (BitVec 64 × BitVec 32)
  | .subscriptionReady streamId rsp => some (rsp.correlationId, streamId)
  | _ => none

end ConductorEvent

def addPublication? (msg : Message) : Option AddPublication :=
  if msg.msgType = cmdAddPublication then ChannelCommand.decode msg.payload else none

def addSubscription? (msg : Message) : Option AddSubscription :=
  if msg.msgType = cmdAddSubscription then ChannelCommand.decode msg.payload else none

namespace ReadyRun

/-- A conductor over some buffers shared with the clients, before the run. -/
def start (toDriver : RingBuffer) (toClients : BroadcastTransmitter) : ReadyRun :=
  ⟨.new toDriver toClients, [], [], [], []⟩

/-- One step. A cycle begins when the entries of the last one are processed. -/
def step (s : ReadyRun) : ReadyAction → ReadyRun
  | .clientWrite msg =>
      { s with conductor :=
        { s.conductor with toDriver := (s.conductor.toDriver.write msg).1 } }
  | .collect =>
      match s.staged, s.conductor.collect with
      | [], some (conductor, _, staged) => { s with conductor, staged }
      | _, _ => s
  | .process nowNs =>
      match s.staged with
      | [] => s
      | msg :: staged =>
          { s with
            conductor := (s.conductor.processCommand msg nowNs).1
            staged
            events := s.events ++ (s.conductor.processCommand msg nowNs).2 }
  | .senderPoll =>
      match s.conductor.toSender.read with
      | none => s
      | some (msgs, toSender) =>
          { s with
            conductor := { s.conductor with toSender }
            polledSender := s.polledSender ++ msgs.filterMap decodeSenderCmd }
  | .receiverPoll =>
      match s.conductor.toReceiver.read with
      | none => s
      | some (msgs, toReceiver) =>
          { s with
            conductor := { s.conductor with toReceiver }
            polledReceiver := s.polledReceiver ++ msgs.filterMap decodeReceiverCmd }

def storedSender (s : ReadyRun) : List SenderCommand := s.events.filterMap ConductorEvent.sender?

def storedReceiver (s : ReadyRun) : List ReceiverCommand :=
  s.events.filterMap ConductorEvent.receiver?

/-- The publications announced are, in order and one to one, among those stored for the sender, and so
are the subscriptions. -/
def Matched (s : ReadyRun) : Prop :=
  (s.events.filterMap ConductorEvent.readyPublication?).Sublist
      (s.storedSender.filterMap publicationKey) ∧
    (s.events.filterMap ConductorEvent.readySubscription?).Sublist
      (s.storedReceiver.filterMap subscriptionKey)

/-- **Answered truthfully.** Every response has its own stored command, and every stored command has
been returned by a poll or is returned by the next one. -/
def Answered (s : ReadyRun) : Prop :=
  s.Matched ∧
    (∃ rest rb, s.conductor.toSender.read = some (rest, rb) ∧
      s.polledSender ++ rest.filterMap decodeSenderCmd = s.storedSender) ∧
    ∃ rest rb, s.conductor.toReceiver.read = some (rest, rb) ∧
      s.polledReceiver ++ rest.filterMap decodeReceiverCmd = s.storedReceiver

/-- **The condition**: the queue has room for the command of the message that is processed, if that
message adds a publication or a subscription. -/
def HasRoom (s : ReadyRun) : ReadyAction → Prop
  | .process _ => ∀ msg ∈ s.staged.head?,
      (∀ cmd ∈ addPublication? msg,
        s.conductor.toSender.roomFor (encodeSenderCmd (s.conductor.addPublicationCmd cmd)) ≤
          s.conductor.toSender.freeBytes) ∧
      ∀ cmd ∈ addSubscription? msg,
        s.conductor.toReceiver.roomFor
            (encodeReceiverCmd (.addSubscription cmd.correlationId cmd.streamId)) ≤
          s.conductor.toReceiver.freeBytes
  | _ => True

instance (s : ReadyRun) : (a : ReadyAction) → Decidable (s.HasRoom a)
  | .process _ =>
      inferInstanceAs (Decidable (∀ msg ∈ s.staged.head?,
        (∀ cmd ∈ addPublication? msg,
          s.conductor.toSender.roomFor (encodeSenderCmd (s.conductor.addPublicationCmd cmd)) ≤
            s.conductor.toSender.freeBytes) ∧
        ∀ cmd ∈ addSubscription? msg,
          s.conductor.toReceiver.roomFor
              (encodeReceiverCmd (.addSubscription cmd.correlationId cmd.streamId)) ≤
            s.conductor.toReceiver.freeBytes))
  | .clientWrite _ | .collect | .senderPoll | .receiverPoll => inferInstanceAs (Decidable True)

end ReadyRun

/-! ## What processing a command does to the queues -/

namespace Conductor

/-- The event of a command that was written to the queue of the sender, if it was stored. -/
def senderEvents (c : Conductor) (cmd : SenderCommand) : List ConductorEvent :=
  if (c.toSender.write (encodeSenderCmd cmd)).2 = .ok () then [.senderStored cmd] else []

/-- The event of a command that was written to the queue of the receiver, if it was stored. -/
def receiverEvents (c : Conductor) (cmd : ReceiverCommand) : List ConductorEvent :=
  if (c.toReceiver.write (encodeReceiverCmd cmd)).2 = .ok () then [.receiverStored cmd] else []

theorem sendToSender_eq (c : Conductor) (cmd : SenderCommand) :
    c.sendToSender cmd =
      ({ c with toSender := (c.toSender.write (encodeSenderCmd cmd)).1 }, c.senderEvents cmd) := by
  unfold sendToSender senderEvents
  obtain ⟨rb, result⟩ := c.toSender.write (encodeSenderCmd cmd)
  cases result <;> simp

theorem sendToReceiver_eq (c : Conductor) (cmd : ReceiverCommand) :
    c.sendToReceiver cmd =
      ({ c with toReceiver := (c.toReceiver.write (encodeReceiverCmd cmd)).1 },
        c.receiverEvents cmd) := by
  unfold sendToReceiver receiverEvents
  obtain ⟨rb, result⟩ := c.toReceiver.write (encodeReceiverCmd cmd)
  cases result <;> simp

/-- **A response** leaves the queues alone, and is broadcast once or not at all. -/
theorem respond_spec (c : Conductor) (msgType : BitVec 32) (bytes : Option (List UInt8))
    (event : ConductorEvent) :
    (c.respond msgType bytes event).1.toSender = c.toSender ∧
      (c.respond msgType bytes event).1.toReceiver = c.toReceiver ∧
      ((c.respond msgType bytes event).2 = [] ∨ (c.respond msgType bytes event).2 = [event]) := by
  unfold respond
  cases bytes with
  | none => exact ⟨rfl, rfl, .inl rfl⟩
  | some payload =>
      dsimp only
      obtain ⟨tx, result⟩ := c.toClients.transmit ⟨msgType, payload⟩
      cases result with
      | ok _ => exact ⟨rfl, rfl, .inr rfl⟩
      | error e => exact ⟨rfl, rfl, .inl rfl⟩

/-- **Everything that processing a message can do** to the queues: nothing, one write for the sender,
or one write for the receiver; with a response only if the message adds what the command adds. -/
inductive Handled (c : Conductor) (msg : Message) : Conductor × List ConductorEvent → Prop
  | ignored {c' : Conductor} (hsender : c'.toSender = c.toSender)
      (hreceiver : c'.toReceiver = c.toReceiver) : Handled c msg (c', [])
  | sender {c' : Conductor} (cmd : SenderCommand) (ready : List ConductorEvent)
      (hsender : c'.toSender = (c.toSender.write (encodeSenderCmd cmd)).1)
      (hreceiver : c'.toReceiver = c.toReceiver)
      (hready : ready = [] ∨ ∃ add ∈ addPublication? msg, cmd = c.addPublicationCmd add ∧
        ∃ rsp : PublicationReady, ready = [.publicationReady rsp] ∧
          publicationKey cmd = some (rsp.correlationId, rsp.streamId, rsp.sessionId)) :
      Handled c msg (c', c.senderEvents cmd ++ ready)
  | receiver {c' : Conductor} (cmd : ReceiverCommand) (ready : List ConductorEvent)
      (hsender : c'.toSender = c.toSender)
      (hreceiver : c'.toReceiver = (c.toReceiver.write (encodeReceiverCmd cmd)).1)
      (hready : ready = [] ∨ ∃ add ∈ addSubscription? msg,
        cmd = .addSubscription add.correlationId add.streamId ∧
        ∃ rsp : SubscriptionReady, ready = [.subscriptionReady add.streamId rsp] ∧
          rsp.correlationId = add.correlationId) :
      Handled c msg (c', c.receiverEvents cmd ++ ready)

theorem handleAddPublication_handled (c : Conductor) {msg : Message} {cmd : AddPublication}
    (hmsg : cmd ∈ addPublication? msg) (nowNs : Int) :
    Handled c msg (c.handleAddPublication cmd nowNs) := by
  unfold handleAddPublication
  simp only [sendToSender_eq]
  set stored : Conductor := { c.touchClient cmd.clientId nowNs with
    nextRegistrationId := c.nextRegistrationId + 1
    nextSessionId := c.nextSessionId + 1
    toSender := (c.toSender.write (encodeSenderCmd (c.addPublicationCmd cmd))).1 }
  set rsp : PublicationReady :=
    ⟨cmd.correlationId, c.nextRegistrationId, c.nextSessionId, cmd.streamId, 0, 0⟩
  obtain ⟨hsender, hreceiver, hready⟩ :=
    stored.respond_spec rspPublicationReady (rsp.encode scratchLength) (.publicationReady rsp)
  refine .sender (c.addPublicationCmd cmd) _ hsender hreceiver ?_
  exact hready.imp id fun h => ⟨cmd, hmsg, rfl, rsp, h, rfl⟩

theorem handleAddSubscription_handled (c : Conductor) {msg : Message} {cmd : AddSubscription}
    (hmsg : cmd ∈ addSubscription? msg) (nowNs : Int) :
    Handled c msg (c.handleAddSubscription cmd nowNs) := by
  unfold handleAddSubscription
  simp only [sendToReceiver_eq]
  set add : ReceiverCommand := .addSubscription cmd.correlationId cmd.streamId
  set stored : Conductor := { c.touchClient cmd.clientId nowNs with
    toReceiver := (c.toReceiver.write (encodeReceiverCmd add)).1 }
  set rsp : SubscriptionReady := ⟨cmd.correlationId, 0⟩
  obtain ⟨hsender, hreceiver, hready⟩ :=
    stored.respond_spec rspSubscriptionReady (rsp.encode scratchLength)
      (.subscriptionReady cmd.streamId rsp)
  refine .receiver add _ hsender hreceiver ?_
  exact hready.imp id fun h => ⟨cmd, hmsg, rfl, rsp, h, rfl⟩

/-- **Processing a message** is one of these. -/
theorem handleCommand_handled (c : Conductor) (msg : Message) (nowNs : Int) :
    Handled c msg (c.handleCommand msg nowNs) := by
  have hignored : Handled c msg (c, []) := .ignored rfl rfl
  unfold handleCommand
  by_cases h1 : msg.msgType = cmdAddPublication
  · rw [if_pos h1]
    cases hdecode : ChannelCommand.decode msg.payload with
    | none => exact hignored
    | some cmd =>
        exact c.handleAddPublication_handled (by rw [addPublication?, if_pos h1, hdecode]; rfl) nowNs
  rw [if_neg h1]
  by_cases h2 : msg.msgType = cmdRemovePublication
  · rw [if_pos h2]
    cases RegistrationCommand.decode msg.payload with
    | none => exact hignored
    | some cmd =>
        simp only [handleRemovePublication, sendToSender_eq]
        rw [← List.append_nil (c.senderEvents _)]
        exact .sender _ [] rfl rfl (.inl rfl)
  rw [if_neg h2]
  by_cases h3 : msg.msgType = cmdAddSubscription
  · rw [if_pos h3]
    cases hdecode : ChannelCommand.decode msg.payload with
    | none => exact hignored
    | some cmd =>
        exact c.handleAddSubscription_handled (by rw [addSubscription?, if_pos h3, hdecode]; rfl)
          nowNs
  rw [if_neg h3]
  by_cases h4 : msg.msgType = cmdRemoveSubscription
  · rw [if_pos h4]
    cases RegistrationCommand.decode msg.payload with
    | none => exact hignored
    | some cmd =>
        simp only [handleRemoveSubscription, sendToReceiver_eq]
        rw [← List.append_nil (c.receiverEvents _)]
        exact .receiver _ [] rfl rfl (.inl rfl)
  rw [if_neg h4]
  -- a keepalive, a client that closes, or an unknown type: the queues stay as they are
  by_cases h5 : msg.msgType = cmdClientKeepalive
  · rw [if_pos h5]
    cases ClientKeepalive.decode msg.payload with
    | none => exact hignored
    | some cmd => exact .ignored rfl rfl
  rw [if_neg h5, ite_self]
  exact hignored

end Conductor

/-! ## The invariant -/

namespace ReadyRun

/-- What holds on a run: the responses are matched, and both queues carry their commands. -/
structure Inv (s : ReadyRun) : Prop where
  matched : s.Matched
  sender : Carries encodeSenderCmd decodeSenderCmd s.conductor.toSender s.storedSender
    s.polledSender
  receiver : Carries encodeReceiverCmd decodeReceiverCmd s.conductor.toReceiver s.storedReceiver
    s.polledReceiver

theorem inv_start (toDriver : RingBuffer) (toClients : BroadcastTransmitter) :
    Inv (start toDriver toClients) :=
  ⟨⟨.slnil, .slnil⟩, .new, .new⟩

variable {s : ReadyRun}

theorem filterMap_senderEvents (c : Conductor) (cmd : SenderCommand) :
    (c.senderEvents cmd).filterMap ConductorEvent.sender? =
        (if (c.toSender.write (encodeSenderCmd cmd)).2 = .ok () then [cmd] else []) ∧
      (c.senderEvents cmd).filterMap ConductorEvent.receiver? = [] ∧
      (c.senderEvents cmd).filterMap ConductorEvent.readyPublication? = [] ∧
      (c.senderEvents cmd).filterMap ConductorEvent.readySubscription? = [] := by
  unfold Conductor.senderEvents
  split <;> exact ⟨rfl, rfl, rfl, rfl⟩

theorem filterMap_receiverEvents (c : Conductor) (cmd : ReceiverCommand) :
    (c.receiverEvents cmd).filterMap ConductorEvent.receiver? =
        (if (c.toReceiver.write (encodeReceiverCmd cmd)).2 = .ok () then [cmd] else []) ∧
      (c.receiverEvents cmd).filterMap ConductorEvent.sender? = [] ∧
      (c.receiverEvents cmd).filterMap ConductorEvent.readyPublication? = [] ∧
      (c.receiverEvents cmd).filterMap ConductorEvent.readySubscription? = [] := by
  unfold Conductor.receiverEvents
  split <;> exact ⟨rfl, rfl, rfl, rfl⟩

/-- **The events of a call** keep the invariant if the responses among them answer commands among them
and the queues carry those commands. -/
theorem Inv.extend (h : Inv s) {c : Conductor} {msg : Message} {staged : List Message}
    {es : List ConductorEvent}
    (hpubs : (es.filterMap ConductorEvent.readyPublication?).Sublist
      ((es.filterMap ConductorEvent.sender?).filterMap publicationKey))
    (hsubs : (es.filterMap ConductorEvent.readySubscription?).Sublist
      ((es.filterMap ConductorEvent.receiver?).filterMap subscriptionKey))
    (hsender : Carries encodeSenderCmd decodeSenderCmd c.toSender
      (s.storedSender ++ es.filterMap ConductorEvent.sender?) s.polledSender)
    (hreceiver : Carries encodeReceiverCmd decodeReceiverCmd c.toReceiver
      (s.storedReceiver ++ es.filterMap ConductorEvent.receiver?) s.polledReceiver) :
    Inv { s with conductor := c, staged, events := s.events ++ .processed msg :: es } := by
  refine ⟨⟨?_, ?_⟩, ?_, ?_⟩ <;> simp only [storedSender, storedReceiver, List.filterMap_append]
  · exact h.matched.1.append hpubs
  · exact h.matched.2.append hsubs
  · exact hsender
  · exact hreceiver

/-- **Processing a message** keeps the invariant if a command to add finds room. -/
theorem Inv.process (h : Inv s) {msg : Message} {staged : List Message}
    {r : Conductor × List ConductorEvent} (hhandled : s.conductor.Handled msg r)
    (hpub : ∀ cmd ∈ addPublication? msg,
      s.conductor.toSender.roomFor (encodeSenderCmd (s.conductor.addPublicationCmd cmd)) ≤
        s.conductor.toSender.freeBytes)
    (hsub : ∀ cmd ∈ addSubscription? msg,
      s.conductor.toReceiver.roomFor
          (encodeReceiverCmd (.addSubscription cmd.correlationId cmd.streamId)) ≤
        s.conductor.toReceiver.freeBytes) :
    Inv { s with conductor := r.1, staged, events := s.events ++ .processed msg :: r.2 } := by
  have hsender := h.sender
  have hreceiver := h.receiver
  cases hhandled with
  | ignored hs hr =>
      rw [← hs] at hsender
      rw [← hr] at hreceiver
      refine h.extend .slnil .slnil ?_ ?_ <;> rw [List.filterMap_nil, List.append_nil] <;>
        assumption
  | sender cmd ready hs hr hready =>
      obtain ⟨hstored, hother, hnopub, hnosub⟩ := filterMap_senderEvents s.conductor cmd
      have hwrite := hsender.write (encodeSenderCmd_type cmd)
      rw [← hs, ← hstored] at hwrite
      rw [← hr] at hreceiver
      rcases hready with rfl | ⟨add, hadd, hcmd, rsp, rfl, hkey⟩
      · refine h.extend ?_ ?_ ?_ ?_ <;>
          simp only [List.append_nil, hother, hnopub, hnosub, List.nil_sublist] <;> assumption
      -- the response goes with the command that the queue has taken
      · have hok : (s.conductor.toSender.write (encodeSenderCmd cmd)).2 = .ok () :=
          hsender.write_ok (encodeSenderCmd_length_le cmd) (hcmd ▸ hpub add hadd)
        rw [if_pos hok] at hstored
        rw [hstored] at hwrite
        refine h.extend ?_ ?_ ?_ ?_ <;>
          simp only [List.filterMap_append, hstored, hother, hnopub, hnosub, List.filterMap_cons,
            List.filterMap_nil, ConductorEvent.sender?, ConductorEvent.receiver?,
            ConductorEvent.readyPublication?, ConductorEvent.readySubscription?, List.append_nil,
            List.nil_append, hkey]
        · exact List.Sublist.refl _
        · exact .slnil
        · exact hwrite
        · exact hreceiver
  | receiver cmd ready hs hr hready =>
      obtain ⟨hstored, hother, hnopub, hnosub⟩ := filterMap_receiverEvents s.conductor cmd
      have hwrite := hreceiver.write (encodeReceiverCmd_type cmd)
      rw [← hr, ← hstored] at hwrite
      rw [← hs] at hsender
      rcases hready with rfl | ⟨add, hadd, rfl, rsp, rfl, hkey⟩
      · refine h.extend ?_ ?_ ?_ ?_ <;>
          simp only [List.append_nil, hother, hnopub, hnosub, List.nil_sublist] <;> assumption
      · have hok := hreceiver.write_ok (encodeReceiverCmd_length_le _) (hsub add hadd)
        rw [if_pos hok] at hstored
        rw [hstored] at hwrite
        refine h.extend ?_ ?_ ?_ ?_ <;>
          simp only [List.filterMap_append, hstored, hother, hnopub, hnosub, List.filterMap_cons,
            List.filterMap_nil, ConductorEvent.sender?, ConductorEvent.receiver?,
            ConductorEvent.readyPublication?, ConductorEvent.readySubscription?, List.append_nil,
            List.nil_append, subscriptionKey, hkey]
        · exact .slnil
        · exact List.Sublist.refl _
        · exact hsender
        · exact hwrite

/-- **One step.** -/
theorem inv_step {a : ReadyAction} (h : Inv s) (hroom : s.HasRoom a) : Inv (step s a) := by
  cases a with
  | clientWrite msg => exact ⟨h.matched, h.sender, h.receiver⟩
  | collect =>
      simp only [step, Conductor.collect]
      cases s.staged with
      | cons msg staged => exact h
      | nil =>
          cases s.conductor.toDriver.read with
          | none => exact h
          | some r => exact ⟨h.matched, h.sender, h.receiver⟩
  | process nowNs =>
      simp only [HasRoom] at hroom
      simp only [step]
      cases hstaged : s.staged with
      | nil => exact h
      | cons msg staged =>
          rw [hstaged] at hroom
          obtain ⟨hpub, hsub⟩ := hroom msg rfl
          exact h.process (s.conductor.handleCommand_handled msg nowNs) hpub hsub
  | senderPoll =>
      obtain ⟨rest, rb, hread, -, hcarries⟩ := h.sender.read decodeSenderCmd_encode
      simp only [step, hread]
      exact ⟨h.matched, hcarries, h.receiver⟩
  | receiverPoll =>
      obtain ⟨rest, rb, hread, -, hcarries⟩ := h.receiver.read decodeReceiverCmd_encode
      simp only [step, hread]
      exact ⟨h.matched, h.sender, hcarries⟩

/-- **A client is told ready only for what was set up**, as long as every command to add finds room in
its queue: after any run of client writes, cycles and polls that meets the condition, each response
broadcast has its own stored command with the same correlation, stream and session, and each stored
command was polled or is returned by the next poll. -/
theorem ready_only_for_stored (toDriver : RingBuffer) (toClients : BroadcastTransmitter)
    (as : List ReadyAction) (hroom : Meets HasRoom step (start toDriver toClients) as) :
    (run step (start toDriver toClients) as).Answered := by
  have hinv : Inv (run step (start toDriver toClients) as) :=
    run_invariant (fun _ _ => inv_step) (inv_start toDriver toClients) hroom
  obtain ⟨rest, rb, hread, hpolled, -⟩ := hinv.sender.read decodeSenderCmd_encode
  obtain ⟨rest', rb', hread', hpolled', -⟩ := hinv.receiver.read decodeReceiverCmd_encode
  exact ⟨hinv.matched, ⟨rest, rb, hread, hpolled⟩, rest', rb', hread', hpolled'⟩

/-- A ring of 512 bytes for client commands. -/
def toDriver512 : RingBuffer where
  capacity := 512
  capacity_ge := by decide
  capacity_pow := by decide
  size_lt := by decide
  data := fun _ => 0
  head := 0
  tail := 0

def toClients64 : BroadcastTransmitter where
  toDataRegion := .zeroed64
  tail := 0
  latest := 0

/-- An `AddPublication` of client 100 for stream 10, with an empty channel. -/
def addPublicationMessage (correlationId : BitVec 64) : Message :=
  ⟨cmdAddPublication, ChannelCommand.encode ⟨correlationId, 100, 10, 0, List.replicate 256 0⟩⟩

def removePublicationMessage : Message :=
  ⟨cmdRemovePublication, encodeI64 1 ++ encodeI64 100 ++ encodeI64 1⟩

/-- A client's message goes through a cycle of its own. -/
def throughCycle (msg : Message) : List ReadyAction := [.clientWrite msg, .collect, .process 0]

theorem ready_only_for_stored_polled :
    Meets HasRoom step (start toDriver512 toClients64)
        (throughCycle (addPublicationMessage 1) ++ [.senderPoll]) ∧
      (run step (start toDriver512 toClients64)
        (throughCycle (addPublicationMessage 1) ++ [.senderPoll])).Answered ∧
      (run step (start toDriver512 toClients64)
        (throughCycle (addPublicationMessage 1) ++ [.senderPoll])).polledSender =
          [.addPublication 1 10 1 0 65536 1408] := by
  have hroom : Meets HasRoom step (start toDriver512 toClients64)
      (throughCycle (addPublicationMessage 1) ++ [.senderPoll]) := by decide +kernel
  exact ⟨hroom, ready_only_for_stored _ _ _ hroom, by decide +kernel⟩

/-- The queue of the sender is filled by 128 commands that it does not poll, then a publication is
added. -/
def fullQueueRun : ReadyRun :=
  run step (start toDriver512 toClients64)
    ((List.replicate 128 (throughCycle removePublicationMessage)).flatten ++
      throughCycle (addPublicationMessage 1))

/-- **Ready without a publication**: the client gets session 1 for stream 10, and no command to add a
publication is stored. -/
theorem ready_without_stored_command :
    fullQueueRun.events.filterMap ConductorEvent.readyPublication? = [(1, 10, 1)] ∧
      fullQueueRun.storedSender.filterMap publicationKey = [] ∧ ¬ fullQueueRun.Answered := by
  -- one evaluation of the run for both
  obtain ⟨hready, hstored⟩ :
      fullQueueRun.events.filterMap ConductorEvent.readyPublication? = [(1, 10, 1)] ∧
        fullQueueRun.storedSender.filterMap publicationKey = [] := by
    decide +kernel
  refine ⟨hready, hstored, fun ⟨⟨hpubs, _⟩, _⟩ => ?_⟩
  rw [hready, hstored] at hpubs
  cases hpubs

end ReadyRun

end AeronRs
