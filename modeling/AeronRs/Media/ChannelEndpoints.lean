import AeronRs.Frame
import AeronRs.Lib.Scratch
import AeronRs.Media.Submissions

/-! # Channel endpoints

The control messages of `receive_channel_endpoint.rs` and `send_channel_endpoint.rs`. An endpoint
has one scratch buffer for each kind of message. It writes a message to its buffer and submits the
address of the buffer, so a second message of the kind written before the ring is submitted replaces
the first in both submissions. -/

namespace AeronRs

variable {P : Type}

/-! ## Receive endpoints -/

structure PendingSm where
  destAddr : SockAddr
  sessionId : BitVec 32
  streamId : BitVec 32
  consumptionTermId : BitVec 32
  consumptionTermOffset : BitVec 32
  receiverWindow : BitVec 32
  receiverId : BitVec 64
  deriving DecidableEq, Repr

structure PendingNak where
  destAddr : SockAddr
  sessionId : BitVec 32
  streamId : BitVec 32
  activeTermId : BitVec 32
  termOffset : BitVec 32
  length : BitVec 32
  deriving DecidableEq, Repr

structure PendingRttm where
  destAddr : SockAddr
  sessionId : BitVec 32
  streamId : BitVec 32
  echoTimestamp : BitVec 64
  receiverId : BitVec 64
  deriving DecidableEq, Repr

/-- The status message that `send_pending` builds. -/
def PendingSm.frame (pending : PendingSm) : StatusMessage where
  frameHeader := ⟨BitVec.ofNat 32 smTotalLength, currentVersion, 0, frameTypeSm⟩
  sessionId := pending.sessionId
  streamId := pending.streamId
  consumptionTermId := pending.consumptionTermId
  consumptionTermOffset := pending.consumptionTermOffset
  receiverWindow := pending.receiverWindow
  receiverId := pending.receiverId

/-- The NAK that `send_pending` builds. -/
def PendingNak.frame (pending : PendingNak) : NakHeader where
  frameHeader := ⟨BitVec.ofNat 32 nakTotalLength, currentVersion, 0, frameTypeNak⟩
  sessionId := pending.sessionId
  streamId := pending.streamId
  activeTermId := pending.activeTermId
  termOffset := pending.termOffset
  length := pending.length

/-- The RTTM reply that `send_pending` builds. -/
def PendingRttm.frame (pending : PendingRttm) : RttmHeader where
  frameHeader := ⟨BitVec.ofNat 32 rttmTotalLength, currentVersion, rttmFlagReply, frameTypeRttm⟩
  sessionId := pending.sessionId
  streamId := pending.streamId
  echoTimestamp := pending.echoTimestamp
  receptionDelta := 0
  receiverId := pending.receiverId

/-- The scratch buffers of a receive endpoint: `sm_buf`, `nak_buf` and `rttm_buf`. -/
inductive ReceiveBuf
  | sm
  | nak
  | rttm
  deriving DecidableEq, Repr

/-- `ReceiveChannelEndpoint`. A pending list is the filled part of its array. -/
structure ReceiveChannelEndpoint where
  transportIdx : Option Nat
  receiverId : BitVec 64
  pendingSms : List PendingSm
  pendingNaks : List PendingNak
  pendingRttms : List PendingRttm
  scratch : ReceiveBuf → List UInt8

def maxPendingSm : Nat := 64

def maxPendingNak : Nat := 64

def maxPendingRttm : Nat := 16

/-- Append to a pending array, dropping what does not fit. -/
def queuePending {α : Type} (capacity : Nat) (pending : List α) (msg : α) : List α :=
  if pending.length < capacity then pending ++ [msg] else pending

namespace ReceiveChannelEndpoint

def queueSm (ep : ReceiveChannelEndpoint) (sm : PendingSm) : ReceiveChannelEndpoint :=
  { ep with pendingSms := queuePending maxPendingSm ep.pendingSms sm }

def queueNak (ep : ReceiveChannelEndpoint) (nak : PendingNak) : ReceiveChannelEndpoint :=
  { ep with pendingNaks := queuePending maxPendingNak ep.pendingNaks nak }

def queueRttm (ep : ReceiveChannelEndpoint) (rttm : PendingRttm) : ReceiveChannelEndpoint :=
  { ep with pendingRttms := queuePending maxPendingRttm ep.pendingRttms rttm }

/-- One of the three loops of `send_pending`: each message is written to the scratch buffer `buf`,
whose address is submitted; the first error ends the loop. Messages are given by their bytes and
destination. The result counts the messages sent. -/
def sendEach (addr : ReceiveBuf → P) (buf : ReceiveBuf) (transportIdx : Nat) :
    List (List UInt8 × SockAddr) → (ReceiveBuf → List UInt8) → UringPoller P →
      ((ReceiveBuf → List UInt8) × UringPoller P) × Except PollError Nat
  | [], scratch, poller => ((scratch, poller), .ok 0)
  | (bytes, dest) :: rest, scratch, poller =>
      let scratch := Function.update scratch buf bytes
      match poller.submitSend transportIdx (addr buf) (some dest) with
      | (poller, .error e) => ((scratch, poller), .error e)
      | (poller, .ok ()) =>
          let r := sendEach addr buf transportIdx rest scratch poller
          (r.1, r.2.map (· + 1))

/-- The pending status messages as bytes and destination. -/
def smMessages (ep : ReceiveChannelEndpoint) : List (List UInt8 × SockAddr) :=
  ep.pendingSms.map fun pending => (pending.frame.encode, pending.destAddr)

/-- The pending NAKs as bytes and destination. -/
def nakMessages (ep : ReceiveChannelEndpoint) : List (List UInt8 × SockAddr) :=
  ep.pendingNaks.map fun pending => (pending.frame.encode, pending.destAddr)

/-- The pending RTTM replies as bytes and destination. -/
def rttmMessages (ep : ReceiveChannelEndpoint) : List (List UInt8 × SockAddr) :=
  ep.pendingRttms.map fun pending => (pending.frame.encode, pending.destAddr)

/-- `send_pending`. `addr` gives the addresses of the endpoint's scratch buffers. An array is
emptied when all of it was sent; an error leaves it and the later ones as they are. -/
def sendPending (addr : ReceiveBuf → P) (ep : ReceiveChannelEndpoint) (poller : UringPoller P) :
    ReceiveChannelEndpoint × UringPoller P × Except PollError Nat :=
  match ep.transportIdx with
  | none => (ep, poller, .error .notRegistered)
  | some idx =>
      match sendEach addr .sm idx ep.smMessages ep.scratch poller with
      | ((scratch, poller), .error e) => ({ ep with scratch }, poller, .error e)
      | ((scratch, poller), .ok sms) =>
          match sendEach addr .nak idx ep.nakMessages scratch poller with
          | ((scratch, poller), .error e) => ({ ep with scratch, pendingSms := [] }, poller, .error e)
          | ((scratch, poller), .ok naks) =>
              match sendEach addr .rttm idx ep.rttmMessages scratch poller with
              | ((scratch, poller), .error e) =>
                  ({ ep with scratch, pendingSms := [], pendingNaks := [] }, poller, .error e)
              | ((scratch, poller), .ok rttms) =>
                  ({ ep with scratch, pendingSms := [], pendingNaks := [], pendingRttms := [] },
                    poller, .ok (sms + naks + rttms))

/-- All pending messages in the order in which they are sent, with the buffer each is written
to. -/
def messages (ep : ReceiveChannelEndpoint) : List (ReceiveBuf × List UInt8 × SockAddr) :=
  ep.smMessages.map (.sm, ·) ++ ep.nakMessages.map (.nak, ·) ++ ep.rttmMessages.map (.rttm, ·)

/-- **One loop with room** sends every message, and leaves the last one in the buffer. -/
theorem sendEach_spec (addr : ReceiveBuf → P) (buf : ReceiveBuf) {transportIdx fd : Nat}
    (msgs : List (List UInt8 × SockAddr)) (scratch : ReceiveBuf → List UInt8)
    {p : UringPoller P} {n : Nat} (hroom : HasRoom p (msgs.length + n))
    (hactive : ActiveTransport p transportIdx fd) :
    ∃ p', sendEach addr buf transportIdx msgs scratch p =
        ((written scratch (msgs.map fun msg => (buf, msg.1)), p'), .ok msgs.length) ∧
      HasRoom p' n ∧ ActiveTransport p' transportIdx fd ∧
      ∀ before sends, Submitted before p sends →
        Submitted before p' (sends ++ msgs.map fun msg => ⟨fd, addr buf, some msg.2⟩) := by
  induction msgs generalizing scratch p with
  | nil =>
      refine ⟨p, rfl, by simpa using hroom, hactive, ?_⟩
      intro before sends h
      simpa using h
  | cons msg msgs ih =>
      obtain ⟨bytes, dest⟩ := msg
      have hroom' : HasRoom p (msgs.length + n + 1) := by
        rw [List.length_cons, Nat.add_right_comm] at hroom
        exact hroom
      obtain ⟨hok, hnext, htransports, hsubmitted⟩ :=
        submitSend_spec hroom' hactive (addr buf) (some dest)
      have hactive' : ActiveTransport (p.submitSend transportIdx (addr buf) (some dest)).1
          transportIdx fd := by
        unfold ActiveTransport
        rw [htransports]
        exact hactive
      -- the rest of the loop starts from the buffer as this message left it
      obtain ⟨p', heach, hroom'', hactive'', hrest⟩ :=
        ih (Function.update scratch buf bytes) hnext hactive'
      refine ⟨p', ?_, hroom'', hactive'', ?_⟩
      · have hpair : p.submitSend transportIdx (addr buf) (some dest) =
            ((p.submitSend transportIdx (addr buf) (some dest)).1, .ok ()) := Prod.ext rfl hok
        rw [sendEach, hpair]
        simp only [heach]
        rfl
      · intro before sends h
        have := hrest before _ (hsubmitted before sends h)
        rwa [List.append_assoc] at this

/-- **`send_pending` with room** sends every pending message, in order, and empties the queues. -/
theorem sendPending_spec (addr : ReceiveBuf → P) {ep : ReceiveChannelEndpoint}
    {p : UringPoller P} {transportIdx fd : Nat} (hreg : ep.transportIdx = some transportIdx)
    (hactive : ActiveTransport p transportIdx fd) (hroom : HasRoom p ep.messages.length) :
    ∃ p', ep.sendPending addr p =
        ({ ep with
            scratch := written ep.scratch (ep.messages.map fun msg => (msg.1, msg.2.1))
            pendingSms := [], pendingNaks := [], pendingRttms := [] },
          p', .ok ep.messages.length) ∧
      Submitted p.sq p' (ep.messages.map fun msg => ⟨fd, addr msg.1, some msg.2.2⟩) := by
  have hlen : ep.messages.length =
      ep.smMessages.length + (ep.nakMessages.length + (ep.rttmMessages.length + 0)) := by
    simp only [messages, List.length_append, List.length_map]
    omega
  rw [hlen] at hroom
  -- the three loops, each with the poller and the buffers that the one before it leaves
  obtain ⟨p₁, h₁, hroom₁, hactive₁, hsub₁⟩ :=
    sendEach_spec addr .sm ep.smMessages ep.scratch hroom hactive
  obtain ⟨p₂, h₂, hroom₂, hactive₂, hsub₂⟩ :=
    sendEach_spec addr .nak ep.nakMessages
      (written ep.scratch (ep.smMessages.map fun msg => (.sm, msg.1))) hroom₁ hactive₁
  obtain ⟨p₃, h₃, -, -, hsub₃⟩ :=
    sendEach_spec addr .rttm ep.rttmMessages
      (written (written ep.scratch (ep.smMessages.map fun msg => (.sm, msg.1)))
        (ep.nakMessages.map fun msg => (.nak, msg.1))) hroom₂ hactive₂
  refine ⟨p₃, ?_, ?_⟩
  · rw [sendPending, hreg]
    simp only [h₁, h₂, h₃]
    simp only [messages, List.map_append, List.map_map, written_append, Function.comp_def,
      List.length_append, List.length_map]
  · have := hsub₃ _ _ (hsub₂ _ _ (hsub₁ _ _ (submitted_nil p)))
    simpa only [messages, List.map_append, List.map_map, Function.comp_def, List.nil_append,
      List.append_assoc] using this

/-- Any two pending messages of one kind are the same frame; they may differ in destination. -/
structure SameByKind (ep : ReceiveChannelEndpoint) : Prop where
  sms : ∀ a ∈ ep.pendingSms, ∀ b ∈ ep.pendingSms, a.frame = b.frame
  naks : ∀ a ∈ ep.pendingNaks, ∀ b ∈ ep.pendingNaks, a.frame = b.frame
  rttms : ∀ a ∈ ep.pendingRttms, ∀ b ∈ ep.pendingRttms, a.frame = b.frame

theorem sameByKind_iff (ep : ReceiveChannelEndpoint) :
    ep.SameByKind ↔ ∀ a ∈ ep.messages.map (fun msg => (msg.1, msg.2.1)),
      ∀ b ∈ ep.messages.map (fun msg => (msg.1, msg.2.1)), a.1 = b.1 → a.2 = b.2 := by
  have hmem : ∀ e : ReceiveBuf × List UInt8,
      e ∈ ep.messages.map (fun msg => (msg.1, msg.2.1)) ↔
        (∃ sm ∈ ep.pendingSms, (.sm, sm.frame.encode) = e) ∨
        (∃ nak ∈ ep.pendingNaks, (.nak, nak.frame.encode) = e) ∨
        ∃ rttm ∈ ep.pendingRttms, (.rttm, rttm.frame.encode) = e := by
    intro e
    simp [messages, smMessages, nakMessages, rttmMessages]
  constructor
  · rintro ⟨hsms, hnaks, hrttms⟩ a ha b hb hkey
    rw [hmem] at ha hb
    rcases ha with ⟨x, hx, rfl⟩ | ⟨x, hx, rfl⟩ | ⟨x, hx, rfl⟩ <;>
      rcases hb with ⟨y, hy, rfl⟩ | ⟨y, hy, rfl⟩ | ⟨y, hy, rfl⟩ <;>
      first | (simp at hkey; done) | skip
    · exact congrArg StatusMessage.encode (hsms x hx y hy)
    · exact congrArg NakHeader.encode (hnaks x hx y hy)
    · exact congrArg RttmHeader.encode (hrttms x hx y hy)
  · intro h
    refine ⟨fun a ha b hb => ?_, fun a ha b hb => ?_, fun a ha b hb => ?_⟩
    · exact StatusMessage.encode_inj.mp (h _ ((hmem _).mpr (.inl ⟨a, ha, rfl⟩)) _
        ((hmem _).mpr (.inl ⟨b, hb, rfl⟩)) rfl)
    · exact NakHeader.encode_inj.mp (h _ ((hmem _).mpr (.inr (.inl ⟨a, ha, rfl⟩))) _
        ((hmem _).mpr (.inr (.inl ⟨b, hb, rfl⟩))) rfl)
    · exact RttmHeader.encode_inj.mp (h _ ((hmem _).mpr (.inr (.inr ⟨a, ha, rfl⟩))) _
        ((hmem _).mpr (.inr (.inr ⟨b, hb, rfl⟩))) rfl)

/-- **Each queued message goes out as itself exactly when the messages of a kind are the same.** The
kernel reads the scratch buffers as they are at the flush. -/
theorem sendPending_flush_iff (addr : ReceiveBuf → P) {ep : ReceiveChannelEndpoint}
    {p : UringPoller P} {transportIdx fd : Nat} (hreg : ep.transportIdx = some transportIdx)
    (hactive : ActiveTransport p transportIdx fd) (hroom : HasRoom p ep.messages.length)
    (resolve : P → List UInt8)
    (hresolve : ∀ buf, resolve (addr buf) = (ep.sendPending addr p).1.scratch buf) :
    ((ep.sendPending addr p).2.1.flush resolve).2 =
        p.sq.filterMap ((ep.sendPending addr p).2.1.datagramOf resolve) ++
          ep.messages.map (fun msg => ⟨fd, some msg.2.2, msg.2.1⟩) ↔
      ep.SameByKind := by
  obtain ⟨p', hsend, hsubmitted⟩ := sendPending_spec addr hreg hactive hroom
  rw [hsend] at hresolve ⊢
  dsimp only at hresolve ⊢
  rw [hsubmitted.flush_eq resolve, List.append_right_inj, List.map_map, List.map_inj_left,
    sameByKind_iff, ← readBack_iff ep.scratch]
  simp only [Function.comp_apply, Datagram.mk.injEq, true_and, hresolve, List.forall_mem_map]

end ReceiveChannelEndpoint

/-! ## Send endpoints -/

/-- The scratch buffers of a send endpoint: `setup_buf`, `heartbeat_buf` and `rttm_buf`. -/
inductive SendBuf
  | setup
  | heartbeat
  | rttm
  deriving DecidableEq, Repr

/-- A control message of a send endpoint. -/
inductive ControlMessage
  | setup (header : SetupHeader)
  | heartbeat (header : DataHeader)
  | rttm (header : RttmHeader)
  deriving DecidableEq, Repr

namespace ControlMessage

/-- The buffer that a message is written to. -/
def buf : ControlMessage → SendBuf
  | setup _ => .setup
  | heartbeat _ => .heartbeat
  | rttm _ => .rttm

def encode : ControlMessage → List UInt8
  | setup header => header.encode
  | heartbeat header => header.encode
  | rttm header => header.encode

/-- Messages in one buffer are told apart by their bytes. -/
theorem encode_inj {a b : ControlMessage} (h : a.buf = b.buf) : a.encode = b.encode ↔ a = b := by
  cases a <;> cases b <;> simp only [buf, reduceCtorEq] at h
  · rw [setup.injEq]
    exact SetupHeader.encode_inj
  · rw [heartbeat.injEq]
    exact DataHeader.encode_inj
  · rw [rttm.injEq]
    exact RttmHeader.encode_inj

end ControlMessage

/-- `SendChannelEndpoint`, its sending half. -/
structure SendChannelEndpoint where
  transportIdx : Option Nat
  scratch : SendBuf → List UInt8

/-- The header that `send_heartbeat` builds. -/
def heartbeatHeader (sessionId streamId termId termOffset : BitVec 32) : DataHeader where
  frameHeader := ⟨BitVec.ofNat 32 dataHeaderLength, currentVersion, dataFlagUnfragmented,
    frameTypeHeartbeat⟩
  termOffset
  sessionId
  streamId
  termId
  reservedValue := 0

/-- The header that `send_setup` builds. -/
def setupHeader (sessionId streamId initialTermId activeTermId termOffset termLength mtu ttl :
    BitVec 32) : SetupHeader where
  frameHeader := ⟨BitVec.ofNat 32 setupTotalLength, currentVersion, 0, frameTypeSetup⟩
  termOffset
  sessionId
  streamId
  initialTermId
  activeTermId
  termLength
  mtu
  ttl

/-- The header that `send_rttm` builds: a request. -/
def rttmRequest (sessionId streamId : BitVec 32) (echoTimestampNs : BitVec 64) : RttmHeader where
  frameHeader := ⟨BitVec.ofNat 32 rttmTotalLength, currentVersion, 0, frameTypeRttm⟩
  sessionId
  streamId
  echoTimestamp := echoTimestampNs
  receptionDelta := 0
  receiverId := 0

namespace SendChannelEndpoint

/-- `send_data`: the bytes are submitted by their address. -/
def sendData (ep : SendChannelEndpoint) (poller : UringPoller P) (data : P)
    (dest : Option SockAddr) : UringPoller P × Except PollError Unit :=
  match ep.transportIdx with
  | none => (poller, .error .notRegistered)
  | some idx => poller.submitSend idx data dest

/-- The common part of the control sends: the message is written to the scratch buffer of its kind,
and the address of the buffer is submitted. -/
def sendControl (addr : SendBuf → P) (ep : SendChannelEndpoint) (poller : UringPoller P)
    (msg : ControlMessage) (dest : Option SockAddr) :
    SendChannelEndpoint × UringPoller P × Except PollError Unit :=
  let ep := { ep with scratch := Function.update ep.scratch msg.buf msg.encode }
  (ep, ep.sendData poller (addr msg.buf) dest)

def sendHeartbeat (addr : SendBuf → P) (ep : SendChannelEndpoint) (poller : UringPoller P)
    (sessionId streamId termId termOffset : BitVec 32) (dest : Option SockAddr) :
    SendChannelEndpoint × UringPoller P × Except PollError Unit :=
  ep.sendControl addr poller (.heartbeat (heartbeatHeader sessionId streamId termId termOffset)) dest

def sendSetup (addr : SendBuf → P) (ep : SendChannelEndpoint) (poller : UringPoller P)
    (sessionId streamId initialTermId activeTermId termOffset termLength mtu ttl : BitVec 32)
    (dest : Option SockAddr) : SendChannelEndpoint × UringPoller P × Except PollError Unit :=
  ep.sendControl addr poller (.setup (setupHeader sessionId streamId initialTermId activeTermId
    termOffset termLength mtu ttl)) dest

def sendRttm (addr : SendBuf → P) (ep : SendChannelEndpoint) (poller : UringPoller P)
    (sessionId streamId : BitVec 32) (echoTimestampNs : BitVec 64) (dest : Option SockAddr) :
    SendChannelEndpoint × UringPoller P × Except PollError Unit :=
  ep.sendControl addr poller (.rttm (rttmRequest sessionId streamId echoTimestampNs)) dest

end SendChannelEndpoint

end AeronRs
