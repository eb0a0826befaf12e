import AeronRs.Lib.Utf8
import AeronRs.Media.Datagrams

/-! # Commands and responses

The messages of `command.rs` between clients and the conductor. Every field is little-endian at a fixed
place. The two commands that name a channel have one layout, and so have the two that name a
registration. A text, the channel or the message of an error, is kept in 256 bytes beside its
length. -/

namespace AeronRs

def cmdAddPublication : BitVec 32 := 1

def cmdRemovePublication : BitVec 32 := 2

def cmdAddSubscription : BitVec 32 := 3

def cmdRemoveSubscription : BitVec 32 := 4

def cmdClientKeepalive : BitVec 32 := 5

def cmdClientClose : BitVec 32 := 6

def rspPublicationReady : BitVec 32 := 101

def rspSubscriptionReady : BitVec 32 := 102

def maxChannelUriLength : Nat := 256

/-! ## Buffers -/

/-- An `encode` into a buffer of some length: the bytes written, if they fit. -/
def encodeTo (length : Nat) (bytes : List UInt8) (bufLen : Nat) : Option (List UInt8) :=
  if bufLen < length then none else some bytes

/-- `buf[..len]`, where a program stops if the buffer is shorter. -/
def sliceTo (buf : List UInt8) (len : Nat) : Option (List UInt8) :=
  if len ≤ buf.length then some (buf.take len) else none

/-- A buffer of zeros to whose front bytes were copied. -/
def zeroPadded (length : Nat) (bytes : List UInt8) : List UInt8 :=
  bytes ++ List.replicate (length - bytes.length) 0

/-! ## Commands -/

/-- The fields of `AddPublication` and `AddSubscription`. -/
structure ChannelCommand where
  correlationId : BitVec 64
  clientId : BitVec 64
  streamId : BitVec 32
  channelUriLen : Nat
  channelUri : List UInt8
  deriving DecidableEq, Repr

/-- `ADD_PUBLICATION_LENGTH` and `ADD_SUBSCRIPTION_LENGTH`. -/
def channelCommandLength : Nat := 8 + 8 + 4 + 4 + maxChannelUriLength

namespace ChannelCommand

/-- `encode` into a buffer that is large enough: the bytes written. -/
def encode (c : ChannelCommand) : List UInt8 :=
  encodeI64 c.correlationId ++ encodeI64 c.clientId ++ encodeI32 c.streamId ++
    encodeI32 (BitVec.ofNat 32 c.channelUriLen) ++ c.channelUri

/-- `decode`. A negative length field becomes a very large number and is refused. -/
def decode (buf : List UInt8) : Option ChannelCommand :=
  if buf.length < channelCommandLength then none
  else
    let channelUriLen := ((fieldI32 buf 20).signExtend 64).toNat
    if maxChannelUriLength < channelUriLen then none
    else some ⟨fieldI64 buf 0, fieldI64 buf 8, fieldI32 buf 16, channelUriLen,
      (buf.drop 24).take maxChannelUriLength⟩

/-- `channel_str`: `none` if the slice is out of range, and `some none` if it is not UTF-8. -/
def channelStr (c : ChannelCommand) : Option (Option String) :=
  (sliceTo c.channelUri c.channelUriLen).map fromUtf8

def fromChannel (correlationId clientId : BitVec 64) (streamId : BitVec 32) (channel : String) :
    Option ChannelCommand :=
  if maxChannelUriLength < channel.utf8ByteSize then none
  else some ⟨correlationId, clientId, streamId, channel.utf8ByteSize,
    zeroPadded maxChannelUriLength (utf8 channel)⟩

end ChannelCommand

abbrev AddPublication := ChannelCommand

def AddPublication.encode (c : AddPublication) (bufLen : Nat) : Option (List UInt8) :=
  encodeTo channelCommandLength (ChannelCommand.encode c) bufLen

def AddPublication.decode (buf : List UInt8) : Option AddPublication := ChannelCommand.decode buf

abbrev AddSubscription := ChannelCommand

def AddSubscription.encode (c : AddSubscription) (bufLen : Nat) : Option (List UInt8) :=
  encodeTo channelCommandLength (ChannelCommand.encode c) bufLen

def AddSubscription.decode (buf : List UInt8) : Option AddSubscription := ChannelCommand.decode buf

/-- The fields of `RemovePublication` and `RemoveSubscription`. -/
structure RegistrationCommand where
  correlationId : BitVec 64
  clientId : BitVec 64
  registrationId : BitVec 64
  deriving DecidableEq, Repr

/-- `REMOVE_PUBLICATION_LENGTH` and `REMOVE_SUBSCRIPTION_LENGTH`. -/
def registrationCommandLength : Nat := 8 + 8 + 8

/-- `encode`: the bytes written. -/
def RegistrationCommand.encode (c : RegistrationCommand) : List UInt8 :=
  encodeI64 c.correlationId ++ encodeI64 c.clientId ++ encodeI64 c.registrationId

def RegistrationCommand.decode (buf : List UInt8) : Option RegistrationCommand :=
  if buf.length < registrationCommandLength then none
  else some ⟨fieldI64 buf 0, fieldI64 buf 8, fieldI64 buf 16⟩

abbrev RemovePublication := RegistrationCommand

def RemovePublication.encode (c : RemovePublication) (bufLen : Nat) : Option (List UInt8) :=
  encodeTo registrationCommandLength (RegistrationCommand.encode c) bufLen

def RemovePublication.decode (buf : List UInt8) : Option RemovePublication :=
  RegistrationCommand.decode buf

abbrev RemoveSubscription := RegistrationCommand

def RemoveSubscription.encode (c : RemoveSubscription) (bufLen : Nat) : Option (List UInt8) :=
  encodeTo registrationCommandLength (RegistrationCommand.encode c) bufLen

def RemoveSubscription.decode (buf : List UInt8) : Option RemoveSubscription :=
  RegistrationCommand.decode buf

structure ClientKeepalive where
  correlationId : BitVec 64
  clientId : BitVec 64
  deriving DecidableEq, Repr

def clientKeepaliveLength : Nat := 8 + 8

def ClientKeepalive.encode (c : ClientKeepalive) (bufLen : Nat) : Option (List UInt8) :=
  encodeTo clientKeepaliveLength (encodeI64 c.correlationId ++ encodeI64 c.clientId) bufLen

def ClientKeepalive.decode (buf : List UInt8) : Option ClientKeepalive :=
  if buf.length < clientKeepaliveLength then none else some ⟨fieldI64 buf 0, fieldI64 buf 8⟩

/-! ## Responses -/

structure PublicationReady where
  correlationId : BitVec 64
  registrationId : BitVec 64
  sessionId : BitVec 32
  streamId : BitVec 32
  positionLimitCounterId : BitVec 32
  channelStatusIndicatorId : BitVec 32
  deriving DecidableEq, Repr

def publicationReadyLength : Nat := 8 + 8 + 4 + 4 + 4 + 4

/-- `PublicationReady::encode` into a buffer of some length: the bytes written, if they fit. -/
def PublicationReady.encode (r : PublicationReady) (bufLen : Nat) : Option (List UInt8) :=
  if bufLen < publicationReadyLength then none
  else some (encodeI64 r.correlationId ++ encodeI64 r.registrationId ++ encodeI32 r.sessionId ++
    encodeI32 r.streamId ++ encodeI32 r.positionLimitCounterId ++
    encodeI32 r.channelStatusIndicatorId)

def PublicationReady.decode (buf : List UInt8) : Option PublicationReady :=
  if buf.length < publicationReadyLength then none
  else some ⟨fieldI64 buf 0, fieldI64 buf 8, fieldI32 buf 16, fieldI32 buf 20, fieldI32 buf 24,
    fieldI32 buf 28⟩

structure SubscriptionReady where
  correlationId : BitVec 64
  channelStatusIndicatorId : BitVec 32
  deriving DecidableEq, Repr

def subscriptionReadyLength : Nat := 8 + 4

/-- `SubscriptionReady::encode` into a buffer of some length: the bytes written, if they fit. -/
def SubscriptionReady.encode (r : SubscriptionReady) (bufLen : Nat) : Option (List UInt8) :=
  if bufLen < subscriptionReadyLength then none
  else some (encodeI64 r.correlationId ++ encodeI32 r.channelStatusIndicatorId)

def SubscriptionReady.decode (buf : List UInt8) : Option SubscriptionReady :=
  if buf.length < subscriptionReadyLength then none else some ⟨fieldI64 buf 0, fieldI32 buf 8⟩

def maxErrorMsgLength : Nat := 256

structure OperationError where
  correlationId : BitVec 64
  errorCode : BitVec 32
  errorMsgLen : Nat
  errorMsg : List UInt8
  deriving DecidableEq, Repr

def operationErrorLength : Nat := 8 + 4 + 4 + maxErrorMsgLength

namespace OperationError

def encode (r : OperationError) (bufLen : Nat) : Option (List UInt8) :=
  encodeTo operationErrorLength (encodeI64 r.correlationId ++ encodeI32 r.errorCode ++
    encodeI32 (BitVec.ofNat 32 r.errorMsgLen) ++ r.errorMsg) bufLen

/-- `OperationError::decode`. A negative length field becomes a very large number and is refused. -/
def decode (buf : List UInt8) : Option OperationError :=
  if buf.length < operationErrorLength then none
  else
    let errorMsgLen := ((fieldI32 buf 12).signExtend 64).toNat
    if maxErrorMsgLength < errorMsgLen then none
    else some ⟨fieldI64 buf 0, fieldI32 buf 8, errorMsgLen, (buf.drop 16).take maxErrorMsgLength⟩

/-- `error_str`: `none` if the slice is out of range, and `some none` if it is not UTF-8. -/
def errorStr (r : OperationError) : Option (Option String) :=
  (sliceTo r.errorMsg r.errorMsgLen).map fromUtf8

/-- `from_message`. The message is cut after 256 bytes. -/
def fromMessage (correlationId : BitVec 64) (errorCode : BitVec 32) (msg : String) :
    OperationError :=
  let len := min msg.utf8ByteSize maxErrorMsgLength
  ⟨correlationId, errorCode, len, zeroPadded maxErrorMsgLength ((utf8 msg).take len)⟩

end OperationError

end AeronRs
