import AeronRs.Agent.Conductor
import AeronRs.Lib.Codec

/-! # The command codec

Every message between clients and the conductor is an **`ExactCodec`**: a value is written if the
buffer is long enough and read back whatever is behind it, and a buffer is accepted exactly if it
starts with the encoding of a value. A length field is stored as a signed word and read back as an
unsigned 64-bit number, so a negative one is very large and refused; what is accepted has a length of
at most 256, and reading its text stays inside the buffer.

The commands to the agents carry their type beside the bytes; `decodeSenderCmd_eq_some_iff` and
`decodeReceiverCmd_eq_some_iff` say the same of them. -/

namespace AeronRs

/-! ## Messages without a text -/

theorem RegistrationCommand.exactCodec :
    ExactCodec (fun _ => True) registrationCommandLength
      (fun c => encodeTo registrationCommandLength (RegistrationCommand.encode c))
      RegistrationCommand.decode := by
  refine ExactCodec.of_plain_fields RegistrationCommand.encode
    (fun buf => ⟨fieldI64 buf 0, fieldI64 buf 8, fieldI64 buf 16⟩)
    (fun _ _ => rfl) (fun _ => rfl) ?_ ?_ ?_
  · simp [RegistrationCommand.encode, registrationCommandLength]
  · intro c rest
    simp only [RegistrationCommand.encode, List.append_assoc, fieldI64_head, fieldI64_skip]
  · intro buf hle
    simp only [registrationCommandLength] at hle
    simp (disch := omega) only [RegistrationCommand.encode, encodeI64_fieldI64, List.drop_zero,
      ← List.take_add, registrationCommandLength]

theorem ClientKeepalive.exactCodec :
    ExactCodec (fun _ => True) clientKeepaliveLength ClientKeepalive.encode ClientKeepalive.decode := by
  refine ExactCodec.of_plain_fields (fun c => encodeI64 c.correlationId ++ encodeI64 c.clientId)
    (fun buf => ⟨fieldI64 buf 0, fieldI64 buf 8⟩) (fun _ _ => rfl) (fun _ => rfl) ?_ ?_ ?_
  · simp [clientKeepaliveLength]
  · intro c rest
    simp only [List.append_assoc, fieldI64_head, fieldI64_skip]
  · intro buf hle
    simp only [clientKeepaliveLength] at hle
    simp (disch := omega) only [encodeI64_fieldI64, List.drop_zero, ← List.take_add,
      clientKeepaliveLength]

theorem PublicationReady.exactCodec :
    ExactCodec (fun _ => True) publicationReadyLength PublicationReady.encode
      PublicationReady.decode := by
  refine ExactCodec.of_plain_fields
    (fun r => encodeI64 r.correlationId ++ encodeI64 r.registrationId ++ encodeI32 r.sessionId ++
      encodeI32 r.streamId ++ encodeI32 r.positionLimitCounterId ++
      encodeI32 r.channelStatusIndicatorId)
    (fun buf => ⟨fieldI64 buf 0, fieldI64 buf 8, fieldI32 buf 16, fieldI32 buf 20, fieldI32 buf 24,
      fieldI32 buf 28⟩)
    (fun _ _ => rfl) (fun _ => rfl) ?_ ?_ ?_
  · simp [publicationReadyLength]
  · intro r rest
    simp only [List.append_assoc, fieldI64_head, fieldI64_skip, fieldI32_skip64, fieldI32_encodeI32,
      fieldI32_head]
  · intro buf hle
    simp only [publicationReadyLength] at hle
    simp (disch := omega) only [encodeI64_fieldI64, encodeI32_fieldI32, List.drop_zero,
      ← List.take_add, publicationReadyLength]

theorem SubscriptionReady.exactCodec :
    ExactCodec (fun _ => True) subscriptionReadyLength SubscriptionReady.encode
      SubscriptionReady.decode := by
  refine ExactCodec.of_plain_fields
    (fun r => encodeI64 r.correlationId ++ encodeI32 r.channelStatusIndicatorId)
    (fun buf => ⟨fieldI64 buf 0, fieldI32 buf 8⟩) (fun _ _ => rfl) (fun _ => rfl) ?_ ?_ ?_
  · simp [subscriptionReadyLength]
  · intro r rest
    simp only [List.append_assoc, fieldI64_head, fieldI32_skip64, fieldI32_head]
  · intro buf hle
    simp only [subscriptionReadyLength] at hle
    simp (disch := omega) only [encodeI64_fieldI64, encodeI32_fieldI32, List.drop_zero,
      ← List.take_add, subscriptionReadyLength]

/-! ## Messages with a text -/

/-- The values of the source's type whose length is one of a text. -/
def ChannelCommand.Valid (c : ChannelCommand) : Prop :=
  c.channelUri.length = maxChannelUriLength ∧ c.channelUriLen ≤ maxChannelUriLength

theorem ChannelCommand.exactCodec :
    ExactCodec ChannelCommand.Valid channelCommandLength
      (fun c => encodeTo channelCommandLength (ChannelCommand.encode c)) ChannelCommand.decode := by
  have hmax : maxChannelUriLength = 256 := rfl
  have hlength : channelCommandLength = 280 := rfl
  refine ExactCodec.of_fields ChannelCommand.encode
    (fun buf => ⟨fieldI64 buf 0, fieldI64 buf 8, fieldI32 buf 16,
      ((fieldI32 buf 20).signExtend 64).toNat, (buf.drop 24).take maxChannelUriLength⟩)
    (fun _ _ => rfl) ?_ ?_ ?_ ?_
  · intro buf c
    simp only [ChannelCommand.decode, ChannelCommand.Valid, List.length_take, List.length_drop]
    split_ifs with hshort hlong
    · simp; omega
    · simp; omega
    · rw [Option.some.injEq]
      exact ⟨fun h => ⟨by omega, ⟨by omega, by omega⟩, h⟩, fun h => h.2.2⟩
  · rintro c ⟨huri, -⟩
    simp only [ChannelCommand.encode, List.length_append, encodeI64_length, encodeI32_length, huri,
      channelCommandLength]
  · rintro c rest ⟨huri, hlen⟩
    have htext : ((c.encode ++ rest).drop 24).take maxChannelUriLength = c.channelUri := by
      rw [ChannelCommand.encode, List.append_assoc, List.drop_left' (by simp), List.take_left' huri]
    rw [htext]
    simp only [ChannelCommand.encode, List.append_assoc, fieldI64_head, fieldI64_skip,
      fieldI32_skip64, fieldI32_encodeI32, fieldI32_head,
      toNat_signExtend_ofNat (show c.channelUriLen < 2 ^ 31 by omega)]
  · rintro buf hle -
    simp only [channelCommandLength] at hle
    simp (disch := omega) only [ChannelCommand.encode, ofNat_toNat_signExtend, encodeI64_fieldI64,
      encodeI32_fieldI32, List.drop_zero, ← List.take_add, channelCommandLength]

/-- The values of the source's type whose length is one of a message. -/
def OperationError.Valid (r : OperationError) : Prop :=
  r.errorMsg.length = maxErrorMsgLength ∧ r.errorMsgLen ≤ maxErrorMsgLength

theorem OperationError.exactCodec :
    ExactCodec OperationError.Valid operationErrorLength OperationError.encode
      OperationError.decode := by
  have hmax : maxErrorMsgLength = 256 := rfl
  have hlength : operationErrorLength = 272 := rfl
  refine ExactCodec.of_fields
    (fun r => encodeI64 r.correlationId ++ encodeI32 r.errorCode ++
      encodeI32 (BitVec.ofNat 32 r.errorMsgLen) ++ r.errorMsg)
    (fun buf => ⟨fieldI64 buf 0, fieldI32 buf 8, ((fieldI32 buf 12).signExtend 64).toNat,
      (buf.drop 16).take maxErrorMsgLength⟩)
    (fun _ _ => rfl) ?_ ?_ ?_ ?_
  · intro buf r
    simp only [OperationError.decode, OperationError.Valid, List.length_take, List.length_drop]
    split_ifs with hshort hlong
    · simp; omega
    · simp; omega
    · rw [Option.some.injEq]
      exact ⟨fun h => ⟨by omega, ⟨by omega, by omega⟩, h⟩, fun h => h.2.2⟩
  · rintro r ⟨hmsg, -⟩
    simp only [List.length_append, encodeI64_length, encodeI32_length, hmsg, operationErrorLength]
  · rintro r rest ⟨hmsg, hlen⟩
    have htext : ((encodeI64 r.correlationId ++ encodeI32 r.errorCode ++
        encodeI32 (BitVec.ofNat 32 r.errorMsgLen) ++ r.errorMsg ++ rest).drop 16).take
          maxErrorMsgLength = r.errorMsg := by
      rw [List.append_assoc, List.drop_left' (by simp), List.take_left' hmsg]
    rw [htext]
    simp only [List.append_assoc, fieldI64_head, fieldI32_skip64, fieldI32_encodeI32, fieldI32_head,
      toNat_signExtend_ofNat (show r.errorMsgLen < 2 ^ 31 by omega)]
  · rintro buf hle -
    simp only [operationErrorLength] at hle
    simp (disch := omega) only [ofNat_toNat_signExtend, encodeI64_fieldI64, encodeI32_fieldI32,
      List.drop_zero, ← List.take_add, operationErrorLength]

/-! ## Texts -/

theorem zeroPadded_length {length : Nat} {bytes : List UInt8} (h : bytes.length ≤ length) :
    (zeroPadded length bytes).length = length := by
  rw [zeroPadded, List.length_append, List.length_replicate]
  omega

/-- What was copied to the front is sliced out again. -/
theorem sliceTo_zeroPadded {length : Nat} {bytes : List UInt8} (h : bytes.length ≤ length) :
    sliceTo (zeroPadded length bytes) bytes.length = some bytes := by
  rw [sliceTo, if_pos (by rw [zeroPadded_length h]; exact h), zeroPadded, List.take_left]

/-- **The text of a command from a channel** is the channel. -/
theorem ChannelCommand.fromChannel_eq_some {correlationId clientId : BitVec 64}
    {streamId : BitVec 32} {channel : String} (h : channel.utf8ByteSize ≤ maxChannelUriLength) :
    ∃ c, fromChannel correlationId clientId streamId channel = some c ∧ c.Valid ∧
      c.channelStr = some (some channel) := by
  rw [← utf8_length] at h
  refine ⟨_, if_neg (by rw [← utf8_length]; omega), ⟨zeroPadded_length h, ?_⟩, ?_⟩
  · rw [← utf8_length]
    exact h
  · rw [channelStr, ← utf8_length, sliceTo_zeroPadded h, Option.map_some, fromUtf8_utf8]

/-- A text that is not longer than its buffer is read without leaving the buffer. -/
theorem ChannelCommand.Valid.exists_channelStr {c : ChannelCommand} (h : c.Valid) :
    ∃ text, c.channelStr = some text := by
  rw [channelStr, sliceTo, h.1, if_pos h.2]
  exact ⟨_, rfl⟩

/-- **A channel travels** in a command: one that is too long is refused by `from_channel`, and any other
one is the text of the command that is read from what was written for it. -/
structure CarriesChannel (encode : ChannelCommand → Nat → Option (List UInt8))
    (decode : List UInt8 → Option ChannelCommand) : Prop where
  refused : ∀ correlationId clientId streamId channel,
    maxChannelUriLength < channel.utf8ByteSize →
      ChannelCommand.fromChannel correlationId clientId streamId channel = none
  carried : ∀ correlationId clientId streamId channel,
    channel.utf8ByteSize ≤ maxChannelUriLength →
      ∃ c, ChannelCommand.fromChannel correlationId clientId streamId channel = some c ∧
        ∀ bufLen, channelCommandLength ≤ bufLen → ∃ bytes, encode c bufLen = some bytes ∧
          ∀ rest, ∃ c', decode (bytes ++ rest) = some c' ∧ c'.channelStr = some (some channel)

theorem ExactCodec.carriesChannel {encode : ChannelCommand → Nat → Option (List UInt8)}
    {decode : List UInt8 → Option ChannelCommand}
    (h : ExactCodec ChannelCommand.Valid channelCommandLength encode decode) :
    CarriesChannel encode decode := by
  refine ⟨fun _ _ _ _ hlong => if_pos hlong, fun _ _ _ _ hfits => ?_⟩
  obtain ⟨c, hc, hvalid, htext⟩ := ChannelCommand.fromChannel_eq_some hfits
  refine ⟨c, hc, fun bufLen hle => ?_⟩
  obtain ⟨bytes, -, hwrites⟩ := h.writes c hvalid
  have hwritten : encode c bufLen = some bytes := by rw [hwrites, if_neg (by omega)]
  exact ⟨bytes, hwritten, fun rest => ⟨c, h.decode_append hvalid hwritten rest, htext⟩⟩

theorem OperationError.Valid.exists_errorStr {r : OperationError} (h : r.Valid) :
    ∃ text, r.errorStr = some text := by
  rw [errorStr, sliceTo, h.1, if_pos h.2]
  exact ⟨_, rfl⟩

/-! ## Commands to the agents -/

/-- **A command to the sender** is read from a message exactly if the message has its type and starts
with its bytes. -/
theorem decodeSenderCmd_eq_some_iff {msg : Message} {cmd : SenderCommand} :
    decodeSenderCmd msg = some cmd ↔ msg.msgType = (encodeSenderCmd cmd).msgType ∧
      (encodeSenderCmd cmd).payload <+: msg.payload := by
  constructor
  · intro h
    simp only [decodeSenderCmd] at h
    split_ifs at h with hadd hremove
    · obtain ⟨htype, hlen⟩ := hadd
      obtain rfl := Option.some.inj h
      refine ⟨htype, ?_⟩
      simp (disch := omega) only [encodeSenderCmd, encodeI64_fieldI64, encodeI32_fieldI32,
        List.drop_zero, ← List.append_assoc, ← List.take_add]
      exact List.take_prefix _ _
    · obtain ⟨htype, hlen⟩ := hremove
      obtain rfl := Option.some.inj h
      refine ⟨htype, ?_⟩
      simp (disch := omega) only [encodeSenderCmd, encodeI64_fieldI64, List.drop_zero,
        ← List.take_add]
      exact List.take_prefix _ _
  · rintro ⟨htype, rest, hrest⟩
    cases cmd with
    | addPublication =>
        rw [decodeSenderCmd, ← hrest, htype, if_pos ⟨rfl, by simp [encodeSenderCmd]; omega⟩]
        simp only [encodeSenderCmd, List.append_assoc, fieldI64_head, fieldI32_skip64,
          fieldI32_encodeI32, fieldI32_head]
    | removePublication =>
        have hother : ¬ internalCmdRemovePub = internalCmdAddPub := by decide
        rw [decodeSenderCmd, ← hrest, htype, if_neg fun h => hother h.1,
          if_pos ⟨rfl, by simp [encodeSenderCmd]; omega⟩]
        simp only [encodeSenderCmd, List.append_assoc, fieldI64_head, fieldI64_skip]

/-- **A command to the receiver** is read from a message exactly if the message has its type and
starts with its bytes. -/
theorem decodeReceiverCmd_eq_some_iff {msg : Message} {cmd : ReceiverCommand} :
    decodeReceiverCmd msg = some cmd ↔ msg.msgType = (encodeReceiverCmd cmd).msgType ∧
      (encodeReceiverCmd cmd).payload <+: msg.payload := by
  constructor
  · intro h
    simp only [decodeReceiverCmd] at h
    split_ifs at h with hadd hremove
    · obtain ⟨htype, hlen⟩ := hadd
      obtain rfl := Option.some.inj h
      refine ⟨htype, ?_⟩
      simp (disch := omega) only [encodeReceiverCmd, encodeI64_fieldI64, encodeI32_fieldI32,
        List.drop_zero, ← List.take_add]
      exact List.take_prefix _ _
    · obtain ⟨htype, hlen⟩ := hremove
      obtain rfl := Option.some.inj h
      refine ⟨htype, ?_⟩
      simp (disch := omega) only [encodeReceiverCmd, encodeI64_fieldI64, List.drop_zero,
        ← List.take_add]
      exact List.take_prefix _ _
  · rintro ⟨htype, rest, hrest⟩
    cases cmd with
    | addSubscription =>
        rw [decodeReceiverCmd, ← hrest, htype, if_pos ⟨rfl, by simp [encodeReceiverCmd]; omega⟩]
        simp only [encodeReceiverCmd, List.append_assoc, fieldI64_head, fieldI32_skip64,
          fieldI32_head]
    | removeSubscription =>
        have hother : ¬ internalCmdRemoveSub = internalCmdAddSub := by decide
        rw [decodeReceiverCmd, ← hrest, htype, if_neg fun h => hother h.1,
          if_pos ⟨rfl, by simp [encodeReceiverCmd]; omega⟩]
        simp only [encodeReceiverCmd, List.append_assoc, fieldI64_head, fieldI64_skip]

/-! ## All of them -/

/-- **The command codec is exact.** Every message is read back as it was written, and read only from a
buffer that starts with its encoding. The length of a text that was read is at most 256, so the text is
read without leaving its buffer. -/
theorem command_codec_exact :
    (ExactCodec ChannelCommand.Valid channelCommandLength AddPublication.encode
        AddPublication.decode ∧
      ExactCodec ChannelCommand.Valid channelCommandLength AddSubscription.encode
        AddSubscription.decode ∧
      ExactCodec (fun _ => True) registrationCommandLength RemovePublication.encode
        RemovePublication.decode ∧
      ExactCodec (fun _ => True) registrationCommandLength RemoveSubscription.encode
        RemoveSubscription.decode ∧
      ExactCodec (fun _ => True) clientKeepaliveLength ClientKeepalive.encode
        ClientKeepalive.decode ∧
      ExactCodec (fun _ => True) publicationReadyLength PublicationReady.encode
        PublicationReady.decode ∧
      ExactCodec (fun _ => True) subscriptionReadyLength SubscriptionReady.encode
        SubscriptionReady.decode ∧
      ExactCodec OperationError.Valid operationErrorLength OperationError.encode
        OperationError.decode) ∧
    (∀ msg cmd, decodeSenderCmd msg = some cmd ↔ msg.msgType = (encodeSenderCmd cmd).msgType ∧
      (encodeSenderCmd cmd).payload <+: msg.payload) ∧
    (∀ msg cmd, decodeReceiverCmd msg = some cmd ↔ msg.msgType = (encodeReceiverCmd cmd).msgType ∧
      (encodeReceiverCmd cmd).payload <+: msg.payload) ∧
    (∀ buf c, AddPublication.decode buf = some c ∨ AddSubscription.decode buf = some c →
      c.channelUriLen ≤ maxChannelUriLength ∧ ∃ text, c.channelStr = some text) ∧
    (∀ buf r, OperationError.decode buf = some r →
      r.errorMsgLen ≤ maxErrorMsgLength ∧ ∃ text, r.errorStr = some text) ∧
    CarriesChannel AddPublication.encode AddPublication.decode ∧
    CarriesChannel AddSubscription.encode AddSubscription.decode := by
  have hchannel := ChannelCommand.exactCodec
  have hregistration := RegistrationCommand.exactCodec
  refine ⟨⟨hchannel, hchannel, hregistration, hregistration, ClientKeepalive.exactCodec,
    PublicationReady.exactCodec, SubscriptionReady.exactCodec, OperationError.exactCodec⟩,
    fun _ _ => decodeSenderCmd_eq_some_iff, fun _ _ => decodeReceiverCmd_eq_some_iff,
    fun buf c hdecode => ?_, fun buf r hdecode => ?_, hchannel.carriesChannel,
    hchannel.carriesChannel⟩
  · have hvalid : c.Valid := hdecode.elim hchannel.valid_of_decode hchannel.valid_of_decode
    exact ⟨hvalid.2, hvalid.exists_channelStr⟩
  · have hvalid : r.Valid := OperationError.exactCodec.valid_of_decode hdecode
    exact ⟨hvalid.2, hvalid.exists_errorStr⟩

end AeronRs
