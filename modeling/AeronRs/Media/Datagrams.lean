import AeronRs.Media.ChannelEndpoints
import AeronRs.Media.TermBuffer

/-! # Datagrams of the receive endpoint

How `on_message` reads a datagram: the frame type decides which header it is parsed as, and a data or
pad frame is handed to `on_data` with the part of the datagram that its length field covers. A
**`ReceivedFrame`** is what arrives there: any header at all, and a payload that a signed 32-bit
length has cut. -/

namespace AeronRs

/-! ## Fields -/

def fieldI32 (buf : List UInt8) (at_ : Nat) : BitVec 32 :=
  BitVec.ofNat 32 (ofLE ((buf.drop at_).take 4))

def fieldI64 (buf : List UInt8) (at_ : Nat) : BitVec 64 :=
  BitVec.ofNat 64 (ofLE ((buf.drop at_).take 8))

def fieldU16 (buf : List UInt8) (at_ : Nat) : BitVec 16 :=
  BitVec.ofNat 16 (ofLE ((buf.drop at_).take 2))

def FrameHeader.ofBytes (buf : List UInt8) : FrameHeader :=
  ⟨fieldI32 buf 0, buf.getD 4 0, buf.getD 5 0, fieldU16 buf 6⟩

def FrameHeader.parse (buf : List UInt8) : Option FrameHeader :=
  if buf.length < frameHeaderLength then none else some (.ofBytes buf)

def DataHeader.parse (buf : List UInt8) : Option DataHeader :=
  if buf.length < dataHeaderLength then none
  else some ⟨.ofBytes buf, fieldI32 buf 8, fieldI32 buf 12, fieldI32 buf 16, fieldI32 buf 20,
    fieldI64 buf 24⟩

theorem fieldI32_head (x : BitVec 32) (rest : List UInt8) :
    fieldI32 (encodeI32 x ++ rest) 0 = x := by
  rw [fieldI32, List.drop_zero, List.take_left' (encodeI32_length x), ofLE_encodeI32]

theorem fieldI32_skip {pre : List UInt8} {n : Nat} (hpre : pre.length = n) (rest : List UInt8)
    (k : Nat) : fieldI32 (pre ++ rest) (k + n) = fieldI32 rest k := by
  rw [fieldI32, fieldI32, ← hpre, Nat.add_comm, List.drop_length_add_append]

theorem fieldI32_encodeI32 (x : BitVec 32) (rest : List UInt8) (k : Nat) :
    fieldI32 (encodeI32 x ++ rest) (k + 4) = fieldI32 rest k :=
  fieldI32_skip (encodeI32_length x) rest k

theorem fieldI64_head (x : BitVec 64) (rest : List UInt8) :
    fieldI64 (encodeI64 x ++ rest) 0 = x := by
  rw [fieldI64, List.drop_zero, List.take_left' (by simp), encodeI64, ofLE_toLE,
    show (256 : Nat) ^ 8 = 2 ^ 64 by norm_num, Nat.mod_eq_of_lt x.isLt, BitVec.ofNat_toNat,
    BitVec.setWidth_eq]

theorem fieldI64_skip (x : BitVec 64) (rest : List UInt8) (k : Nat) :
    fieldI64 (encodeI64 x ++ rest) (k + 8) = fieldI64 rest k := by
  have hlen : (encodeI64 x).length = 8 := by simp
  rw [fieldI64, fieldI64, ← hlen, Nat.add_comm, List.drop_length_add_append]

theorem fieldI32_skip64 (x : BitVec 64) (rest : List UInt8) (k : Nat) :
    fieldI32 (encodeI64 x ++ rest) (k + 8) = fieldI32 rest k :=
  fieldI32_skip (by simp) rest k

/-- **A field writes back the bytes that it was read from.** -/
theorem encodeI32_fieldI32 {buf : List UInt8} {at_ : Nat} (h : at_ + 4 ≤ buf.length) :
    encodeI32 (fieldI32 buf at_) = (buf.drop at_).take 4 := by
  have hlen : ((buf.drop at_).take 4).length = 4 := by
    rw [List.length_take, List.length_drop]
    omega
  have hlt := ofLE_lt ((buf.drop at_).take 4)
  rw [hlen, show (256 : Nat) ^ 4 = 2 ^ 32 by norm_num] at hlt
  rw [encodeI32, fieldI32, BitVec.toNat_ofNat, Nat.mod_eq_of_lt hlt]
  exact toLE_ofLE hlen

theorem encodeI64_fieldI64 {buf : List UInt8} {at_ : Nat} (h : at_ + 8 ≤ buf.length) :
    encodeI64 (fieldI64 buf at_) = (buf.drop at_).take 8 := by
  have hlen : ((buf.drop at_).take 8).length = 8 := by
    rw [List.length_take, List.length_drop]
    omega
  have hlt := ofLE_lt ((buf.drop at_).take 8)
  rw [hlen, show (256 : Nat) ^ 8 = 2 ^ 64 by norm_num] at hlt
  rw [encodeI64, fieldI64, BitVec.toNat_ofNat, Nat.mod_eq_of_lt hlt]
  exact toLE_ofLE hlen

theorem FrameHeader.ofBytes_encode (h : FrameHeader) (rest : List UInt8) :
    FrameHeader.ofBytes (h.encode ++ rest) = h := by
  have htype : BitVec.ofNat 16 (ofLE (toLE 2 h.frameType.toNat)) = h.frameType := by
    rw [ofLE_toLE, show (256 : Nat) ^ 2 = 2 ^ 16 by norm_num, Nat.mod_eq_of_lt h.frameType.isLt,
      BitVec.ofNat_toNat, BitVec.setWidth_eq]
  obtain ⟨frameLength, version, flags, frameType⟩ := h
  simp only [FrameHeader.ofBytes, FrameHeader.encode, List.append_assoc, FrameHeader.mk.injEq]
  refine ⟨fieldI32_head _ _, ?_, ?_, ?_⟩
  · rw [List.getD_append_right _ _ _ _ (by simp)]
    simp
  · rw [List.getD_append_right _ _ _ _ (by simp)]
    simp
  · rw [fieldU16, ← List.append_assoc, List.drop_left' (by simp), List.take_left' (by simp)]
    exact htype

/-- **A written data header is read back.** -/
theorem DataHeader.parse_encode (h : DataHeader) (tail : List UInt8) :
    DataHeader.parse (h.encode ++ tail) = some h := by
  have hlen : ¬ (h.encode ++ tail).length < dataHeaderLength := by
    rw [List.length_append, DataHeader.encode_length, dataHeaderLength]
    omega
  have hreserved : fieldI64 (h.encode ++ tail) 24 = h.reservedValue := by
    have hword : BitVec.ofNat 64 (ofLE (encodeI64 h.reservedValue)) = h.reservedValue := by
      rw [encodeI64, ofLE_toLE, show (256 : Nat) ^ 8 = 2 ^ 64 by norm_num,
        Nat.mod_eq_of_lt h.reservedValue.isLt, BitVec.ofNat_toNat, BitVec.setWidth_eq]
    rw [fieldI64, DataHeader.encode, List.append_assoc, List.drop_left' (by simp),
      List.take_left' (by simp), hword]
  have hskip := fieldI32_skip h.frameHeader.encode_length
  rw [DataHeader.parse, if_neg hlen, hreserved]
  simp only [DataHeader.encode, List.append_assoc, FrameHeader.ofBytes_encode, hskip,
    fieldI32_encodeI32, fieldI32_head]

def SetupHeader.parse (buf : List UInt8) : Option SetupHeader :=
  if buf.length < setupTotalLength then none
  else some ⟨.ofBytes buf, fieldI32 buf 8, fieldI32 buf 12, fieldI32 buf 16, fieldI32 buf 20,
    fieldI32 buf 24, fieldI32 buf 28, fieldI32 buf 32, fieldI32 buf 36⟩

def RttmHeader.parse (buf : List UInt8) : Option RttmHeader :=
  if buf.length < rttmTotalLength then none
  else some ⟨.ofBytes buf, fieldI32 buf 8, fieldI32 buf 12, fieldI64 buf 16, fieldI64 buf 24,
    fieldI64 buf 32⟩

/-- `DataHeader::payload`: what the length field covers behind the header, or nothing if it is
negative, too small or beyond the datagram. -/
def DataHeader.payload (h : DataHeader) (buf : List UInt8) : List UInt8 :=
  let frameLen := h.frameHeader.frameLength.toInt
  if dataHeaderLength < frameLen ∧ frameLen ≤ buf.length then
    (buf.drop dataHeaderLength).take (frameLen.toNat - dataHeaderLength)
  else []

theorem DataHeader.payload_lt (h : DataHeader) (buf : List UInt8) :
    32 + (h.payload buf).length < 2 ^ 31 := by
  have hlt := @BitVec.toInt_lt 32 h.frameHeader.frameLength
  have hheader : dataHeaderLength = 32 := rfl
  unfold payload
  dsimp only
  split_ifs
  · rw [List.length_take, List.length_drop]
    omega
  · simp

/-- **A written payload is read back.** -/
theorem DataHeader.payload_encode {h : DataHeader} {payload : List UInt8}
    (hlength : h.frameHeader.frameLength = BitVec.ofNat 32 (32 + payload.length))
    (hlt : 32 + payload.length < 2 ^ 31) : h.payload (h.encode ++ payload) = payload := by
  have hheader : dataHeaderLength = 32 := rfl
  have htotal : (h.encode ++ payload).length = 32 + payload.length := by
    rw [List.length_append, DataHeader.encode_length]
  unfold DataHeader.payload
  rw [hlength, toInt_ofNat_of_lt hlt, htotal]
  dsimp only
  split_ifs with hsome
  · rw [hheader, List.drop_left' h.encode_length, Int.toNat_natCast, Nat.add_sub_cancel_left,
      List.take_length]
  · -- the header alone
    have hempty : payload.length = 0 := by
      push_cast at hsome
      omega
    exact (List.length_eq_zero_iff.mp hempty).symm

inductive FrameType
  | pad
  | data
  | nak
  | statusMessage
  | error
  | setup
  | rttm
  | resolution
  | heartbeat
  | unknown (value : BitVec 16)
  deriving DecidableEq

def FrameType.ofField (value : BitVec 16) : FrameType :=
  if value = frameTypePad then pad
  else if value = frameTypeData then data
  else if value = frameTypeNak then nak
  else if value = frameTypeSm then statusMessage
  else if value = 0x0004 then error
  else if value = frameTypeSetup then setup
  else if value = frameTypeRttm then rttm
  else if value = 0x0007 then resolution
  else if value = frameTypeHeartbeat then heartbeat
  else unknown value

/-! ## Dispatch -/

/-- **A data or pad frame as `on_data` is given it.** -/
structure ReceivedFrame where
  header : DataHeader
  payload : List UInt8
  payload_lt : 32 + payload.length < 2 ^ 31
  deriving DecidableEq

namespace ReceivedFrame

def termId (f : ReceivedFrame) : BitVec 32 := f.header.termId

/-- The offset of a frame, as the signed field that it is. -/
def termOffset (f : ReceivedFrame) : Int := f.header.termOffset.toInt

/-- The bytes that a frame takes up in a term. -/
def alignedLength (f : ReceivedFrame) : Nat := alignFrameLength (32 + f.payload.length)

theorem alignedLength_bounds (f : ReceivedFrame) :
    32 ≤ f.alignedLength ∧ 32 + f.payload.length ≤ f.alignedLength ∧ f.alignedLength ≤ 2 ^ 31 := by
  have hlt := f.payload_lt
  have hle := le_alignFrameLength (32 + f.payload.length)
  unfold alignedLength
  refine ⟨by omega, hle, ?_⟩
  unfold alignFrameLength
  omega

theorem toNat_termOffset {f : ReceivedFrame} (h : 0 ≤ f.termOffset) :
    f.termOffset = f.header.termOffset.toNat ∧ f.header.termOffset.toNat < 2 ^ 31 := by
  have hlt := f.header.termOffset.isLt
  unfold termOffset at h ⊢
  rw [BitVec.toInt_eq_toNat_cond] at h ⊢
  split_ifs at h ⊢ <;> omega

end ReceivedFrame

inductive HandlerCall
  | onData (frame : ReceivedFrame)
  | onSetup (setup : SetupHeader)

/-- `on_message`: the endpoint afterwards, the call to the handler and whether the message was
handled. -/
def ReceiveChannelEndpoint.onMessage (ep : ReceiveChannelEndpoint) (data : List UInt8)
    (source : SockAddr) : ReceiveChannelEndpoint × Option HandlerCall × Bool :=
  match FrameHeader.parse data with
  | none => (ep, none, false)
  | some hdr =>
      match FrameType.ofField hdr.frameType with
      | .data | .pad =>
          match DataHeader.parse data with
          | some dh => (ep, some (.onData ⟨dh, dh.payload data, dh.payload_lt data⟩), true)
          | none => (ep, none, false)
      | .setup =>
          match SetupHeader.parse data with
          | some setup => (ep, some (.onSetup setup), true)
          | none => (ep, none, false)
      | .rttm =>
          match RttmHeader.parse data with
          | some rttm =>
              -- a reply is not echoed again
              if rttm.frameHeader.flags &&& rttmFlagReply = 0 then
                (ep.queueRttm ⟨source, rttm.sessionId, rttm.streamId, rttm.echoTimestamp,
                  ep.receiverId⟩, none, true)
              else (ep, none, true)
          | none => (ep, none, true)
      | _ => (ep, none, false)

/-- **A data frame's datagram** is handed to `on_data` with its header and its payload. -/
theorem ReceiveChannelEndpoint.onMessage_data {h : DataHeader} {payload : List UInt8}
    (htype : h.frameHeader.frameType = frameTypeData)
    (hlength : h.frameHeader.frameLength = BitVec.ofNat 32 (32 + payload.length))
    (hlt : 32 + payload.length < 2 ^ 31) (ep : ReceiveChannelEndpoint) (source : SockAddr) :
    (ep.onMessage (h.encode ++ payload) source).2.1 = some (.onData ⟨h, payload, hlt⟩) := by
  have hparse : FrameHeader.parse (h.encode ++ payload) = some h.frameHeader := by
    have hlen : ¬ (h.encode ++ payload).length < frameHeaderLength := by
      rw [List.length_append, DataHeader.encode_length, frameHeaderLength]
      omega
    rw [FrameHeader.parse, if_neg hlen]
    simp only [DataHeader.encode, List.append_assoc, FrameHeader.ofBytes_encode]
  have hfield : FrameType.ofField h.frameHeader.frameType = .data := by
    rw [htype]
    rfl
  unfold onMessage
  simp only [hparse, hfield, DataHeader.parse_encode, DataHeader.payload_encode hlength hlt]

end AeronRs
