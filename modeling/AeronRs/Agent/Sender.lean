import AeronRs.Media.ChannelEndpoints
import AeronRs.Media.ConcurrentPublication

/-! # The sender agent

The agent of `sender.rs`. A cycle of **`doSend`** makes one pass over each publication, in round-robin
order, and then submits the ring. A pass sends the control messages that are due (`controlPhase`)
and then scans the log for committed frames and sends those that are not pads (`scanPhase`). How far
a scan may go is computed once, before it starts, by `scanLimit`: a number of bytes.

Every send is noted as a **`SendEvent`** with its result, which the source discards. -/

namespace AeronRs

/-- The memory that a submission of the sender points to: a scratch buffer of an endpoint, or a
slice of a publication's log. -/
inductive SendPtr
  | scratch (endpointIdx : Nat) (buf : SendBuf)
  | log (pubIdx addr len : Nat)
  deriving DecidableEq, Repr

/-- `PublicationEntry`, for a publication of either kind. -/
structure PublicationEntry where
  publication : Publication
  endpointIdx : Nat
  destAddr : Option SockAddr
  needsSetup : Bool
  timeOfLastSendNs : Int
  timeOfLastSetupNs : Int
  senderLimit : Int
  timeOfLastRttmNs : Int
  lastRttNs : Int

namespace PublicationEntry

/-- The entry that `add_publication` and `add_concurrent_publication` push. -/
def new (publication : Publication) (endpointIdx : Nat) : PublicationEntry where
  publication
  endpointIdx
  destAddr := none
  needsSetup := true
  timeOfLastSendNs := 0
  timeOfLastSetupNs := 0
  senderLimit := publication.toNetwork.termLength
  timeOfLastRttmNs := 0
  lastRttNs := 0

def sessionId (e : PublicationEntry) : BitVec 32 := e.publication.toNetwork.sessionId

def streamId (e : PublicationEntry) : BitVec 32 := e.publication.toNetwork.streamId

def initialTermId (e : PublicationEntry) : BitVec 32 := e.publication.toNetwork.initialTermId

def termLength (e : PublicationEntry) : Nat := e.publication.toNetwork.termLength

def mtu (e : PublicationEntry) : Nat := e.publication.toNetwork.mtu

def senderPosition (e : PublicationEntry) : Int := e.publication.toNetwork.senderPosition

def pubPosition (e : PublicationEntry) : Int := e.publication.toNetwork.pubPosition

/-- `active_term_id`: the term of the write cursor, or of the published position if the cursor is on
another thread. -/
def activeTermId (e : PublicationEntry) : BitVec 32 :=
  match e.publication with
  | .network p => p.activeTermId
  | .concurrent c => SenderPublication.activeTermIdApprox c.inner

def termOffset (e : PublicationEntry) : Nat :=
  match e.publication with
  | .network p => p.termOffset
  | .concurrent c => SenderPublication.termOffsetApprox c.inner

/-- `update_sender_limit_from_sm`. The bound on the step is `i64::MAX >> 1`. -/
def updateSenderLimitFromSm (e : PublicationEntry) (consumptionTermId consumptionTermOffset
    receiverWindow : BitVec 32) : PublicationEntry :=
  let consumptionPosition :=
    e.publication.toNetwork.computePosition consumptionTermId consumptionTermOffset.toNat
  let proposed := wrapI64 (consumptionPosition + receiverWindow.toInt)
  let diff := wrapI64 (proposed - e.senderLimit)
  if 0 < diff ∧ diff < 2 ^ 62 - 1 then { e with senderLimit := proposed } else e

/-- What `process_sm_and_nak` does to a publication for one status message. -/
def onStatusMessage (e : PublicationEntry) (sm : StatusMessage) : PublicationEntry :=
  if e.sessionId = sm.sessionId ∧ e.streamId = sm.streamId then
    { e with needsSetup := false }.updateSenderLimitFromSm sm.consumptionTermId
      sm.consumptionTermOffset sm.receiverWindow
  else e

/-- `update_rtt`. A sample is taken if it is positive and below `i64::MAX >> 1`. -/
def updateRtt (e : PublicationEntry) (sampleNs : Int) : PublicationEntry :=
  if sampleNs ≤ 0 ∨ 2 ^ 62 - 1 ≤ sampleNs then e
  else if e.lastRttNs = 0 then { e with lastRttNs := sampleNs }
  else { e with lastRttNs := e.lastRttNs - (e.lastRttNs >>> (3 : Nat)) + (sampleNs >>> (3 : Nat)) }

/-- The sample that `process_sm_and_nak` computes from an RTTM reply. -/
def rttSample (nowNs : Int) (rttm : RttmHeader) : Int :=
  wrapI64 (wrapI64 (nowNs - rttm.echoTimestamp.toInt) - rttm.receptionDelta.toInt)

/-- What `process_sm_and_nak` does to a publication for one RTTM reply. -/
def onRttmReply (e : PublicationEntry) (nowNs : Int) (rttm : RttmHeader) : PublicationEntry :=
  if e.sessionId = rttm.sessionId ∧ e.streamId = rttm.streamId then
    e.updateRtt (rttSample nowNs rttm)
  else e

def setupMessage (e : PublicationEntry) : ControlMessage :=
  .setup (setupHeader e.sessionId e.streamId e.initialTermId e.activeTermId
    (BitVec.ofNat 32 e.termOffset) (BitVec.ofNat 32 e.termLength) (BitVec.ofNat 32 e.mtu) 0)

def heartbeatMessage (e : PublicationEntry) : ControlMessage :=
  .heartbeat (heartbeatHeader e.sessionId e.streamId e.activeTermId (BitVec.ofNat 32 e.termOffset))

def rttmMessage (e : PublicationEntry) (nowNs : Int) : ControlMessage :=
  .rttm (rttmRequest e.sessionId e.streamId (BitVec.ofInt 64 nowNs))

/-- The scan limit before the send slots are considered: the window or the committed data, whichever
is less, as a `u32`. -/
def available (e : PublicationEntry) : Nat :=
  let windowAvail := wrapI64 (e.senderLimit - e.senderPosition)
  let dataAvail := wrapI64 (e.pubPosition - e.senderPosition)
  let available := if windowAvail ≤ 0 ∨ dataAvail ≤ 0 then 0 else min windowAvail dataAvail
  if 2 ^ 32 - 1 < available then 2 ^ 32 - 1 else available.toNat

/-- The limit that a pass gives to `sender_scan` when `sendSlots` slots are free. The product
saturates at `u64::MAX`. -/
def scanLimit (e : PublicationEntry) (sendSlots : Nat) : Nat :=
  let slotLimit := min (sendSlots * e.mtu) (2 ^ 64 - 1)
  if slotLimit < e.available then slotLimit else e.available

theorem scanLimit_le (e : PublicationEntry) (sendSlots : Nat) :
    e.scanLimit sendSlots ≤ e.available := by
  unfold scanLimit
  dsimp only
  split_ifs <;> omega

end PublicationEntry

structure SenderAgent where
  poller : UringPoller SendPtr
  endpoints : List SendChannelEndpoint
  publications : List PublicationEntry
  roundRobinIndex : Nat
  heartbeatIntervalNs : Int
  rttmIntervalNs : Int

/-- A send that a pass makes, with what it returned. -/
inductive SendEvent
  | control (pubIdx endpointIdx : Nat) (msg : ControlMessage) (dest : Option SockAddr)
      (result : Except PollError Unit)
  | data (pubIdx endpointIdx addr : Nat) (bytes : List UInt8) (dest : Option SockAddr)
      (result : Except PollError Unit)

/-- The local state of a cycle. -/
structure SendState where
  agent : SenderAgent
  events : List SendEvent
  totalBytes : Int

namespace SenderAgent

/-- What a pointer reads in the memory of the agent. -/
def resolve (s : SenderAgent) : SendPtr → List UInt8
  | .scratch endpointIdx buf => ((s.endpoints[endpointIdx]?).map fun ep => ep.scratch buf).getD []
  | .log pubIdx addr len =>
      ((s.publications[pubIdx]?).map fun e =>
        e.publication.toNetwork.rawLog.buffer.read addr len).getD []

def modifyPublication (s : SenderAgent) (idx : Nat) (f : PublicationEntry → PublicationEntry) :
    SenderAgent :=
  { s with publications := s.publications.modify idx f }

end SenderAgent

namespace SendState

/-- Make one control send through the endpoint of a publication. An endpoint index out of bounds,
where the source would stop, does not occur: it comes from `add_endpoint`. -/
def control (st : SendState) (pubIdx : Nat) (e : PublicationEntry) (msg : ControlMessage)
    (send : SendChannelEndpoint → UringPoller SendPtr →
      SendChannelEndpoint × UringPoller SendPtr × Except PollError Unit) : SendState :=
  match st.agent.endpoints[e.endpointIdx]? with
  | none => st
  | some ep =>
      let r := send ep st.agent.poller
      { st with
        agent := { st.agent with
          endpoints := st.agent.endpoints.set e.endpointIdx r.1
          poller := r.2.1 }
        events := st.events ++ [.control pubIdx e.endpointIdx msg e.destAddr r.2.2] }

def setupPhase (nowNs : Int) (pubIdx : Nat) (e : PublicationEntry) (st : SendState) : SendState :=
  if e.needsSetup = true ∧ st.agent.heartbeatIntervalNs < wrapI64 (nowNs - e.timeOfLastSetupNs) then
    let st := st.control pubIdx e e.setupMessage fun ep poller =>
      ep.sendSetup (.scratch e.endpointIdx) poller e.sessionId e.streamId e.initialTermId
        e.activeTermId (BitVec.ofNat 32 e.termOffset) (BitVec.ofNat 32 e.termLength)
        (BitVec.ofNat 32 e.mtu) 0 e.destAddr
    { st with agent := st.agent.modifyPublication pubIdx fun e =>
        { e with timeOfLastSetupNs := nowNs } }
  else st

def heartbeatPhase (nowNs : Int) (pubIdx : Nat) (e : PublicationEntry) (st : SendState) :
    SendState :=
  if st.agent.heartbeatIntervalNs < wrapI64 (nowNs - e.timeOfLastSendNs) then
    let st := st.control pubIdx e e.heartbeatMessage fun ep poller =>
      ep.sendHeartbeat (.scratch e.endpointIdx) poller e.sessionId e.streamId e.activeTermId
        (BitVec.ofNat 32 e.termOffset) e.destAddr
    { st with agent := st.agent.modifyPublication pubIdx fun e =>
        { e with timeOfLastSendNs := nowNs } }
  else st

/-- The RTT measurement phase of a pass. -/
def rttmPhase (nowNs : Int) (pubIdx : Nat) (e : PublicationEntry) (st : SendState) : SendState :=
  if st.agent.rttmIntervalNs < wrapI64 (nowNs - e.timeOfLastRttmNs) then
    let st := st.control pubIdx e (e.rttmMessage nowNs) fun ep poller =>
      ep.sendRttm (.scratch e.endpointIdx) poller e.sessionId e.streamId (BitVec.ofInt 64 nowNs)
        e.destAddr
    { st with agent := st.agent.modifyPublication pubIdx fun e =>
        { e with timeOfLastRttmNs := nowNs } }
  else st

/-- The control messages of a pass. The fields of the entry are those copied at its start. -/
def controlPhase (nowNs : Int) (pubIdx : Nat) (e : PublicationEntry) (st : SendState) : SendState :=
  rttmPhase nowNs pubIdx e (heartbeatPhase nowNs pubIdx e (setupPhase nowNs pubIdx e st))

def sendFrame (pubIdx : Nat) (e : PublicationEntry) (ep : SendChannelEndpoint) (base : Nat)
    (st : SendState) (frame : Nat × List UInt8) : SendState :=
  let r := ep.sendData st.agent.poller (.log pubIdx (base + frame.1) frame.2.length) e.destAddr
  { st with
    agent := { st.agent with poller := r.1 }
    events := st.events ++ [.data pubIdx e.endpointIdx (base + frame.1) frame.2 e.destAddr r.2] }

/-- What the scan does with a frame: pads are only scanned over. -/
def emit (pubIdx : Nat) (e : PublicationEntry) (ep : SendChannelEndpoint) (base : Nat)
    (st : SendState) (frame : Nat × List UInt8) : SendState :=
  if 8 ≤ frame.2.length ∧ frameTypeOf frame.2 = frameTypePad then st
  else sendFrame pubIdx e ep base st frame

/-- The end of a scan: the scanned publication is in place, and the bytes are counted. -/
def finishScan (nowNs : Int) (pubIdx : Nat) (publication : Publication) (scanned : Nat)
    (st : SendState) : SendState :=
  { st with
    agent := st.agent.modifyPublication pubIdx fun e =>
      { e with
        publication
        timeOfLastSendNs := if 0 < scanned then nowNs else e.timeOfLastSendNs }
    totalBytes := (st.totalBytes + (BitVec.ofNat 32 scanned).toInt).bmod (2 ^ 32) }

def scanPhase (nowNs : Int) (pubIdx : Nat) (st : SendState) : SendState :=
  match st.agent.publications[pubIdx]? with
  | none => st
  | some e =>
      match st.agent.endpoints[e.endpointIdx]? with
      | none => st
      | some ep =>
          let limit := e.scanLimit st.agent.poller.pool.sendAvailable
          if 0 < limit then
            let scan := e.publication.senderScan limit
            finishScan nowNs pubIdx scan.1 scan.2.2
              (scan.2.1.foldl (emit pubIdx e ep e.publication.toNetwork.senderBase) st)
          else st

/-- One pass of `do_send` over a publication. -/
def pass (nowNs : Int) (st : SendState) (pubIdx : Nat) : SendState :=
  match st.agent.publications[pubIdx]? with
  | none => st
  | some e => scanPhase nowNs pubIdx (controlPhase nowNs pubIdx e st)

end SendState

/-- What a cycle leaves: the agent, its return value, the sends it made and the datagrams that the
kernel took from the ring. -/
structure SendResult where
  agent : SenderAgent
  totalBytes : Int
  events : List SendEvent
  datagrams : List Datagram

namespace SenderAgent

/-- The publication with which a cycle starts. -/
def startIndex (s : SenderAgent) : Nat :=
  if s.publications.length ≤ s.roundRobinIndex then 0 else s.roundRobinIndex

/-- The order of the passes: from the start to the end of the list, then from its beginning. -/
def passOrder (s : SenderAgent) : List Nat :=
  List.range' s.startIndex (s.publications.length - s.startIndex) ++ List.range s.startIndex

def beginSend (s : SenderAgent) : SendState :=
  ⟨{ s with roundRobinIndex := s.startIndex + 1 }, [], 0⟩

def doSend (s : SenderAgent) (nowNs : Int) : SendResult :=
  if s.publications = [] then ⟨s, 0, [], []⟩
  else
    let st := s.passOrder.foldl (SendState.pass nowNs) s.beginSend
    let flushed := st.agent.poller.flush st.agent.resolve
    ⟨{ st.agent with poller := flushed.1 }, st.totalBytes, st.events, flushed.2⟩

end SenderAgent

end AeronRs
