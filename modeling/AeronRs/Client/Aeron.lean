import AeronRs.Agent.Conductor
import AeronRs.Client.SubscriptionBridge
import AeronRs.Media.ConcurrentPublication
import AeronRs.Media.UdpChannel

/-! # The client

The client of `aeron.rs` inside the process of the driver. Adding a publication parses the channel,
creates the shared log, opens a socket and hands the sender's half to the sender agent over a bridge;
only then is the conductor told, and what becomes of that command is ignored. Adding a subscription
hands an endpoint to the receiver agent, and its command has to be written.

What the standard library and the system answer is a **`Net`**. The handles keep the channel in 256
bytes, of which `channel` makes a text without a check. -/

namespace AeronRs

inductive ClientError
  | driverNotRunning
  | timeout
  | registrationFailed
  | channelInvalid
  | maxPublicationsReached
  | maxSubscriptionsReached
  | invalidParams
  | cncError
  | transportError
  deriving DecidableEq, Repr

/-! ## Bridges to the agents -/

/-- A slot of `PublicationBridge` and of `RecvEndpointBridge`. -/
structure TransferSlot (α : Type) where
  state : BridgeState
  data : Option α

def TransferSlot.new {α : Type} : TransferSlot α := ⟨.empty, none⟩

/-- `deposit` of `PublicationBridge` and of `RecvEndpointBridge`. -/
def transfer {α : Type} : List (TransferSlot α) → α → List (TransferSlot α) × Bool
  | [], _ => ([], false)
  | slot :: slots, item =>
      if slot.state = .empty then (⟨.filled, some item⟩ :: slots, true)
      else (slot :: (transfer slots item).1, (transfer slots item).2)

theorem transfer_eq_true_iff {α : Type} {slots : List (TransferSlot α)} {item : α} :
    (transfer slots item).2 = true ↔ ∃ slot ∈ slots, slot.state = .empty := by
  induction slots with
  | nil => simp [transfer]
  | cons slot slots ih =>
      rw [transfer]
      split_ifs with hempty
      · simp [hempty]
      · simp [hempty, ih]

def bridgeCapacity : Nat := 32

def recvEndpointBridgeCapacity : Nat := 16

/-- `PendingPublication`, with the pair whose sender's half it is. -/
structure PendingPublication where
  senderPub : PublicationPair
  endpoint : SendChannelEndpoint
  destAddr : SockAddr

def SendChannelEndpoint.new : SendChannelEndpoint where
  transportIdx := none
  scratch
    | .heartbeat => List.replicate dataHeaderLength 0
    | .setup => List.replicate setupTotalLength 0
    | .rttm => List.replicate rttmTotalLength 0

def ReceiveChannelEndpoint.new (receiverId : BitVec 64) : ReceiveChannelEndpoint where
  transportIdx := none
  receiverId
  pendingSms := []
  pendingNaks := []
  pendingRttms := []
  scratch
    | .sm => List.replicate smTotalLength 0
    | .nak => List.replicate nakTotalLength 0
    | .rttm => List.replicate rttmTotalLength 0

/-- The bytes of a number, the most significant first. -/
def bigEndian (count n : Nat) : List UInt8 :=
  (List.range count).map fun i => UInt8.ofNat (n >>> (8 * (count - 1 - i)))

/-- `sockaddr_to_storage`: the bytes are those behind the family. Flow and scope of an address are not
copied. -/
def sockaddrToStorage : SocketAddr → SockAddr
  | .v4 octets port => ⟨2, zeroPadded 126 (bigEndian 2 port.toNat ++ bigEndian 4 octets.toNat)⟩
  | .v6 octets port _ _ =>
      ⟨10, zeroPadded 126 (bigEndian 2 port.toNat ++ bigEndian 4 0 ++ bigEndian 16 octets.toNat)⟩

/-! ## Handles -/

/-- The length of `channel_uri_buf`. -/
def channelUriBufLength : Nat := 256

/-- `Publication`, with the pair whose publisher's half it is. -/
structure ClientPublication where
  inner : PublicationPair
  registrationId : BitVec 64
  channelUriBuf : List UInt8
  channelUriLen : Nat

def ClientPublication.new (inner : PublicationPair) (registrationId : BitVec 64) (channel : String) :
    ClientPublication :=
  let len := min channel.utf8ByteSize channelUriBufLength
  ⟨inner, registrationId, zeroPadded channelUriBufLength ((utf8 channel).take len), len⟩

/-- `Publication::channel`. The bytes are taken for UTF-8 without a check; `some none` stands for bytes
that are not, on which the program has no defined behaviour. -/
def ClientPublication.channel (p : ClientPublication) : Option (Option String) :=
  (sliceTo p.channelUriBuf p.channelUriLen).map fromUtf8

/-- `Subscription`, with what its polls change beside the rest. -/
structure ClientSubscription (ι : Type) where
  registrationId : BitVec 64
  channelUriBuf : List UInt8
  channelUriLen : Nat
  polled : Subscription ι

def ClientSubscription.new {ι : Type} (registrationId : BitVec 64) (streamId : BitVec 32)
    (channel : String) : ClientSubscription ι :=
  let len := min channel.utf8ByteSize channelUriBufLength
  ⟨registrationId, zeroPadded channelUriBufLength ((utf8 channel).take len), len, ⟨streamId, []⟩⟩

def ClientSubscription.channel {ι : Type} (s : ClientSubscription ι) : Option (Option String) :=
  (sliceTo s.channelUriBuf s.channelUriLen).map fromUtf8

/-! ## The client -/

/-- What a client sets in the `DriverContext` for a transport. -/
structure TransportContext where
  socketRcvbuf : Nat
  socketSndbuf : Nat
  multicastTtl : Nat
  mtuLength : Nat
  termBufferLength : Nat

/-- **The outside of a client**: how addresses are read, and whether `UdpChannelTransport::open`
succeeds for a channel, a local and a remote address. -/
structure Net extends Resolver where
  opens : UdpChannel → SocketAddr → SocketAddr → TransportContext → Bool

/-- `Aeron`. The ring to the conductor and the bridges are shared with the driver. -/
structure Aeron where
  toDriver : RingBuffer
  clientId : BitVec 64
  nextCorrelationId : BitVec 64
  nextSessionId : BitVec 32
  pubBridge : List (TransferSlot PendingPublication)
  recvEndpointBridge : List (TransferSlot ReceiveChannelEndpoint)
  socketRcvbuf : Nat
  socketSndbuf : Nat
  multicastTtl : Nat
  termLength : Nat
  mtu : Nat

namespace Aeron

def transportCtx (client : Aeron) : TransportContext where
  socketRcvbuf := client.socketRcvbuf
  socketSndbuf := client.socketSndbuf
  multicastTtl := client.multicastTtl
  mtuLength := client.mtu
  termBufferLength := client.termLength

/-- A command encoded in a buffer of its length and written to the conductor. -/
def sendCommand (client : Aeron) (msgType : BitVec 32) (cmd : Option ChannelCommand)
    (encode : ChannelCommand → Nat → Option (List UInt8)) : Aeron × Except ClientError Unit :=
  match cmd with
  | none => (client, .error .channelInvalid)
  | some cmd =>
      match encode cmd channelCommandLength with
      | none => (client, .error .invalidParams)
      | some buf =>
          match client.toDriver.write ⟨msgType, buf⟩ with
          | (toDriver, .error _) => ({ client with toDriver }, .error .registrationFailed)
          | (toDriver, .ok ()) => ({ client with toDriver }, .ok ())

def sendAddPublication (client : Aeron) (correlationId : BitVec 64) (streamId : BitVec 32)
    (channel : String) : Aeron × Except ClientError Unit :=
  client.sendCommand cmdAddPublication
    (ChannelCommand.fromChannel correlationId client.clientId streamId channel)
    AddPublication.encode

def addPublication (net : Net) (client : Aeron) (channel : String) (streamId : BitVec 32) :
    Aeron × Except ClientError ClientPublication :=
  match UdpChannel.parse net.toResolver channel with
  | .error _ => (client, .error .channelInvalid)
  | .ok udpChannel =>
      let correlationId := client.nextCorrelationId
      let sessionId := client.nextSessionId
      let client := { client with
        nextCorrelationId := correlationId + 1
        nextSessionId := sessionId + 1 }
      match newConcurrent sessionId streamId 0 client.termLength client.mtu with
      | none => (client, .error .invalidParams)
      | some pair =>
          let localAddr := udpChannel.remoteData.unspecified
          if net.opens udpChannel localAddr udpChannel.remoteData client.transportCtx = true then
            match transfer client.pubBridge
                ⟨pair, .new, sockaddrToStorage udpChannel.remoteData⟩ with
            | (_, false) => (client, .error .maxPublicationsReached)
            | (pubBridge, true) =>
                -- the conductor keeps books only, and whether it was told is ignored
                (({ client with pubBridge }.sendAddPublication correlationId streamId channel).1,
                  .ok (.new pair correlationId channel))
          else (client, .error .transportError)

/-- `add_subscription`. The endpoint binds to the address of the channel. -/
def addSubscription {ι : Type} (net : Net) (client : Aeron) (channel : String)
    (streamId : BitVec 32) : Aeron × Except ClientError (ClientSubscription ι) :=
  let correlationId := client.nextCorrelationId
  let client := { client with nextCorrelationId := correlationId + 1 }
  match UdpChannel.parse net.toResolver channel with
  | .error _ => (client, .error .channelInvalid)
  | .ok udpChannel =>
      if net.opens udpChannel udpChannel.remoteData udpChannel.remoteData client.transportCtx = true
      then
        match transfer client.recvEndpointBridge (.new correlationId) with
        | (_, false) => (client, .error .maxSubscriptionsReached)
        | (recvEndpointBridge, true) =>
            let client := { client with recvEndpointBridge }
            let sent := client.sendCommand cmdAddSubscription
              (ChannelCommand.fromChannel correlationId client.clientId streamId channel)
              AddSubscription.encode
            (sent.1, sent.2.map fun _ => .new correlationId streamId channel)
      else (client, .error .transportError)

/-- **When a publication is added**: the channel is accepted, the parameters of the log are, the
transport opens, and the bridge has an empty slot. The command to the conductor plays no part. -/
theorem addPublication_eq_ok_iff {net : Net} {client : Aeron} {channel : String}
    {streamId : BitVec 32} {publication : ClientPublication} :
    (addPublication net client channel streamId).2 = .ok publication ↔
      ∃ udpChannel pair, UdpChannel.parse net.toResolver channel = .ok udpChannel ∧
        newConcurrent client.nextSessionId streamId 0 client.termLength client.mtu = some pair ∧
        net.opens udpChannel udpChannel.remoteData.unspecified udpChannel.remoteData
          client.transportCtx = true ∧
        (∃ slot ∈ client.pubBridge, slot.state = .empty) ∧
        publication = .new pair client.nextCorrelationId channel := by
  unfold addPublication
  constructor
  · intro h
    split at h
    · cases h
    · rename_i udpChannel hparse
      dsimp only at h
      split at h
      · cases h
      · rename_i pair hpair
        split_ifs at h with hopens
        split at h
        · cases h
        · rename_i pubBridge htransfer
          exact ⟨udpChannel, pair, hparse, hpair, hopens,
            transfer_eq_true_iff.mp (congrArg Prod.snd htransfer), (Except.ok.inj h).symm⟩
  · rintro ⟨udpChannel, pair, hparse, hpair, hopens, hslot, rfl⟩
    have htransfer : ∀ item, transfer client.pubBridge item =
        ((transfer client.pubBridge item).1, true) := fun item =>
      Prod.ext rfl (transfer_eq_true_iff.mpr hslot)
    rw [hparse]
    dsimp only
    rw [hpair]
    dsimp only
    split_ifs with hopened
    · rw [htransfer]
    · exact absurd hopens hopened

end Aeron

end AeronRs
