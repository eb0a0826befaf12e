import AeronRs.Agent.CommandCodec
import AeronRs.Client.Aeron

/-! # Texts in fixed-size fields

`OperationError::from_message`, `Publication::new` and `Subscription::new` copy at most 256 bytes of a
text. A cut after 256 bytes may go through a character, and what is left is then not UTF-8:
`error_str` has no text, and `channel` takes the bytes for one anyway.

* **`CutsBetween`** is the condition: the text fits, or a character ends at byte 256.
* A subscription is safe: its command carries the channel, and is refused for one that does not fit
  (`addSubscription_channel`). -/

namespace AeronRs

/-- **What a field reads back** of a text: its first bytes, if they are a text. -/
theorem read_cut (length : Nat) (text : String) :
    (sliceTo (zeroPadded length ((utf8 text).take (min text.utf8ByteSize length)))
      (min text.utf8ByteSize length)).map fromUtf8 = some (fromUtf8 ((utf8 text).take length)) := by
  have htake : (utf8 text).take (min text.utf8ByteSize length) = (utf8 text).take length := by
    rw [← utf8_length, List.take_eq_take_iff]
    omega
  have hlen : ((utf8 text).take length).length = min text.utf8ByteSize length := by
    rw [List.length_take, utf8_length, Nat.min_comm]
  rw [htake, ← hlen, sliceTo_zeroPadded (List.length_take_le _ _), Option.map_some]

/-! ## Errors -/

/-- The text that arrives with an error, whatever buffer the error is written to. -/
def ErrorCarries (r : OperationError) (text : Option String) : Prop :=
  ∀ bufLen, operationErrorLength ≤ bufLen → ∃ bytes, r.encode bufLen = some bytes ∧
    ∀ rest, ∃ r', OperationError.decode (bytes ++ rest) = some r' ∧ r'.errorStr = some text

theorem ErrorCarries.unique {r : OperationError} {text text' : Option String}
    (h : ErrorCarries r text) (h' : ErrorCarries r text') : text = text' := by
  obtain ⟨bytes, hbytes, hread⟩ := h _ (Nat.le_refl _)
  obtain ⟨bytes', hbytes', hread'⟩ := h' _ (Nat.le_refl _)
  obtain rfl := Option.some.inj (hbytes.symm.trans hbytes')
  obtain ⟨r₁, hr₁, htext⟩ := hread []
  obtain ⟨r₂, hr₂, htext'⟩ := hread' []
  obtain rfl := Option.some.inj (hr₁.symm.trans hr₂)
  exact Option.some.inj (htext.symm.trans htext')

theorem OperationError.fromMessage_valid (correlationId : BitVec 64) (errorCode : BitVec 32)
    (msg : String) : (fromMessage correlationId errorCode msg).Valid := by
  refine ⟨zeroPadded_length ?_, Nat.min_le_right _ _⟩
  exact (List.length_take_le _ _).trans (Nat.min_le_right _ _)

/-- **The error with a message** carries the first 256 bytes of the message. -/
theorem OperationError.fromMessage_carries (correlationId : BitVec 64) (errorCode : BitVec 32)
    (msg : String) :
    ErrorCarries (fromMessage correlationId errorCode msg)
      (fromUtf8 ((utf8 msg).take maxErrorMsgLength)) := by
  intro bufLen hle
  have hvalid := fromMessage_valid correlationId errorCode msg
  obtain ⟨bytes, -, hwrites⟩ := OperationError.exactCodec.writes _ hvalid
  have hwritten := (hwrites bufLen).trans (if_neg (by omega))
  exact ⟨bytes, hwritten, fun rest =>
    ⟨_, OperationError.exactCodec.decode_append hvalid hwritten rest, read_cut _ msg⟩⟩

/-! ## Handles -/

/-- **The channel of a publication** is read from the first 256 bytes. -/
theorem ClientPublication.channel_new (inner : PublicationPair) (registrationId : BitVec 64)
    (channel : String) : (ClientPublication.new inner registrationId channel).channel =
      some (fromUtf8 ((utf8 channel).take channelUriBufLength)) := read_cut _ channel

namespace Aeron

variable {net : Net} {client : Aeron} {channel : String} {streamId : BitVec 32}

theorem addPublication_channel {publication : ClientPublication}
    (h : (addPublication net client channel streamId).2 = .ok publication) :
    publication.channel = some (fromUtf8 ((utf8 channel).take channelUriBufLength)) := by
  obtain ⟨_, pair, -, -, -, -, rfl⟩ := addPublication_eq_ok_iff.mp h
  exact ClientPublication.channel_new pair _ channel

theorem fits_of_sendCommand {msgType : BitVec 32} {correlationId clientId : BitVec 64}
    {encode : ChannelCommand → Nat → Option (List UInt8)}
    (h : (client.sendCommand msgType
      (ChannelCommand.fromChannel correlationId clientId streamId channel) encode).2 = .ok ()) :
    channel.utf8ByteSize ≤ maxChannelUriLength := by
  by_contra hlong
  rw [ChannelCommand.fromChannel, if_pos (Nat.not_le.mp hlong)] at h
  cases h

/-- **The channel of a subscription that was added** is the channel. -/
theorem addSubscription_channel {ι : Type} {subscription : ClientSubscription ι}
    (h : (addSubscription net client channel streamId).2 = .ok subscription) :
    subscription.channel = some (some channel) := by
  unfold addSubscription at h
  dsimp only at h
  split at h
  · cases h
  · split_ifs at h
    split at h
    · cases h
    · -- the command was sent, so the channel fits
      cases hsent : (sendCommand _ cmdAddSubscription _ AddSubscription.encode).2 with
      | error e =>
          rw [hsent] at h
          cases h
      | ok =>
          rw [hsent] at h
          have hfits := fits_of_sendCommand hsent
          obtain rfl := Except.ok.inj h
          refine (read_cut channelUriBufLength channel).trans ?_
          rw [List.take_of_length_le (by rw [utf8_length]; exact hfits), fromUtf8_utf8]

end Aeron

/-! ## All texts -/

/-- **Fixed-size fields hold valid text** exactly if the cut does not go through a character: an error
with the message `s` and every publication that was added for the channel `s` read back the same prefix
of `s`. -/
theorem text_fields_hold_iff (s : String) :
    ((∃ p, KeptOf 256 s p ∧
        (∀ correlationId errorCode,
          ErrorCarries (.fromMessage correlationId errorCode s) (some p)) ∧
        ∀ net client streamId publication,
          (Aeron.addPublication net client s streamId).2 = .ok publication →
            publication.channel = some (some p)) ↔ CutsBetween 256 s) ∧
    ∀ net client streamId publication,
      (Aeron.addPublication net client s streamId).2 = .ok publication →
        ((∃ p, KeptOf 256 s p ∧ publication.channel = some (some p)) ↔ CutsBetween 256 s) := by
  rw [← exists_fromUtf8_cut_iff]
  refine ⟨⟨?_, ?_⟩, fun net client streamId publication hadded => ?_⟩
  · rintro ⟨p, -, herror, -⟩
    exact ⟨p, (OperationError.fromMessage_carries 0 0 s).unique (herror 0 0)⟩
  · rintro ⟨p, hp⟩
    refine ⟨p, keptOf_of_fromUtf8 hp, fun correlationId errorCode => ?_,
      fun net client streamId publication hadded => ?_⟩
    · have hcarries := OperationError.fromMessage_carries correlationId errorCode s
      rwa [show maxErrorMsgLength = 256 from rfl, hp] at hcarries
    · exact (Aeron.addPublication_channel hadded).trans (congrArg some hp)
  · rw [Aeron.addPublication_channel hadded]
    constructor
    · rintro ⟨p, -, hp⟩
      exact ⟨p, Option.some.inj hp⟩
    · rintro ⟨p, hp⟩
      exact ⟨p, keptOf_of_fromUtf8 hp, congrArg some hp⟩

/-- The characters of a URI of 257 bytes that ends in a character of two bytes. -/
def straddlingChars : List Char :=
  "aeron:udp?endpoint=127.0.0.1:40123|alias=".toList ++ List.replicate 214 'x' ++ ['é']

def straddlingUri : String := String.ofList straddlingChars

/-- A system that knows one address and opens every transport. -/
def loopbackNet : Net where
  parseSocketAddr text :=
    if text = "127.0.0.1:40123".toList then some (.v4 0x7f000001 40123) else none
  parseIpAddr _ := none
  toSocketAddrs _ := .error "unknown host"
  opens _ _ _ _ := true

theorem straddlingUri_accepted :
    ∃ channel, UdpChannel.parse loopbackNet.toResolver straddlingUri = .ok channel := by
  have hchars : straddlingUri.toList = straddlingChars := String.toList_ofList
  rw [UdpChannel.exists_parse_eq_ok_iff, UdpChannel.paramsOf, hchars]
  refine ⟨by decide +kernel,
    ⟨"127.0.0.1:40123".toList, .v4 0x7f000001 40123, by decide +kernel, by decide +kernel⟩,
    fun control hcontrol => ?_⟩
  have hnone : (UdpChannel.parseParams (straddlingChars.drop UdpChannel.scheme.length)).get
      "control" = none := by decide +kernel
  rw [hnone] at hcontrol
  cases hcontrol

def connectedClient : Aeron where
  toDriver := newQueue
  clientId := 0x12345678
  nextCorrelationId := 1
  nextSessionId := 1
  pubBridge := List.replicate bridgeCapacity .new
  recvEndpointBridge := List.replicate recvEndpointBridgeCapacity .new
  socketRcvbuf := 0
  socketSndbuf := 0
  multicastTtl := 0
  termLength := 65536
  mtu := 1408

/-- **A message and a channel that are cut inside a character**: the error arrives without a text, and
the publication is added with a channel that is not UTF-8. -/
theorem straddling_uri_is_no_text :
    ErrorCarries (.fromMessage 1 2 straddlingUri) none ∧
      ∃ publication, (Aeron.addPublication loopbackNet connectedClient straddlingUri 10).2 =
        .ok publication ∧ publication.channel = some none := by
  have hcut : fromUtf8 ((utf8 straddlingUri).take 256) = none := by
    rw [← Option.not_isSome_iff_eq_none, Option.isSome_iff_exists, exists_fromUtf8_cut_iff]
    exact not_cutsBetween (by decide +kernel) (by decide +kernel)
  have hcarries := OperationError.fromMessage_carries 1 2 straddlingUri
  rw [show maxErrorMsgLength = 256 from rfl, hcut] at hcarries
  obtain ⟨udpChannel, hparse⟩ := straddlingUri_accepted
  obtain ⟨pair, hpair⟩ : ∃ pair, newConcurrent 1 10 0 65536 1408 = some pair :=
    Option.isSome_iff_exists.mp (by decide +kernel)
  have hadded : (Aeron.addPublication loopbackNet connectedClient straddlingUri 10).2 =
      .ok (.new pair 1 straddlingUri) :=
    Aeron.addPublication_eq_ok_iff.mpr ⟨udpChannel, pair, hparse, hpair, rfl,
      ⟨.new, List.mem_replicate.mpr ⟨by decide, rfl⟩, rfl⟩, rfl⟩
  exact ⟨hcarries, _, hadded, (Aeron.addPublication_channel hadded).trans (congrArg some hcut)⟩

end AeronRs
