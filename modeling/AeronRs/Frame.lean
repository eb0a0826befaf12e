import AeronRs.Lib.ByteStore
import Mathlib.Tactic.NormNum

/-! # Wire frames

The packed little-endian headers of `frame.rs` and their byte encodings. A header's `encode` is the
memory image of the `repr(C, packed)` struct, which is what the source copies into buffers. Data and
pad frames are a 32-byte `DataHeader` followed by the payload; status messages, NAKs, setups and RTT
measurements are headers only. -/

namespace AeronRs

/-! ## Constants -/

def frameHeaderLength : Nat := 8

def dataHeaderLength : Nat := 32

def smTotalLength : Nat := 36

def nakTotalLength : Nat := 28

def setupTotalLength : Nat := 40

def rttmTotalLength : Nat := 40

def currentVersion : UInt8 := 0

def frameTypePad : BitVec 16 := 0x0000

def frameTypeData : BitVec 16 := 0x0001

def frameTypeNak : BitVec 16 := 0x0002

def frameTypeSm : BitVec 16 := 0x0003

def frameTypeSetup : BitVec 16 := 0x0005

def frameTypeRttm : BitVec 16 := 0x0006

def frameTypeHeartbeat : BitVec 16 := 0x0008

/-- `DATA_FLAG_BEGIN | DATA_FLAG_END`: an unfragmented message. -/
def dataFlagUnfragmented : UInt8 := 0x80 ||| 0x40

def rttmFlagReply : UInt8 := 0x80

/-! ## Headers -/

/-- `FrameHeader`: the common first eight bytes. -/
structure FrameHeader where
  frameLength : BitVec 32
  version : UInt8
  flags : UInt8
  frameType : BitVec 16
  deriving DecidableEq, Repr

/-- `DataHeader`: the header of data, pad and heartbeat frames. -/
structure DataHeader where
  frameHeader : FrameHeader
  termOffset : BitVec 32
  sessionId : BitVec 32
  streamId : BitVec 32
  termId : BitVec 32
  reservedValue : BitVec 64
  deriving DecidableEq, Repr

structure StatusMessage where
  frameHeader : FrameHeader
  sessionId : BitVec 32
  streamId : BitVec 32
  consumptionTermId : BitVec 32
  consumptionTermOffset : BitVec 32
  receiverWindow : BitVec 32
  receiverId : BitVec 64
  deriving DecidableEq, Repr

structure NakHeader where
  frameHeader : FrameHeader
  sessionId : BitVec 32
  streamId : BitVec 32
  activeTermId : BitVec 32
  termOffset : BitVec 32
  length : BitVec 32
  deriving DecidableEq, Repr

structure SetupHeader where
  frameHeader : FrameHeader
  termOffset : BitVec 32
  sessionId : BitVec 32
  streamId : BitVec 32
  initialTermId : BitVec 32
  activeTermId : BitVec 32
  termLength : BitVec 32
  mtu : BitVec 32
  ttl : BitVec 32
  deriving DecidableEq, Repr

structure RttmHeader where
  frameHeader : FrameHeader
  sessionId : BitVec 32
  streamId : BitVec 32
  echoTimestamp : BitVec 64
  receptionDelta : BitVec 64
  receiverId : BitVec 64
  deriving DecidableEq, Repr

/-! ## Encodings -/

def encodeI32 (x : BitVec 32) : List UInt8 := toLE 4 x.toNat

def encodeI64 (x : BitVec 64) : List UInt8 := toLE 8 x.toNat

def FrameHeader.encode (h : FrameHeader) : List UInt8 :=
  encodeI32 h.frameLength ++ [h.version, h.flags] ++ toLE 2 h.frameType.toNat

def DataHeader.encode (h : DataHeader) : List UInt8 :=
  h.frameHeader.encode ++ encodeI32 h.termOffset ++ encodeI32 h.sessionId ++ encodeI32 h.streamId
    ++ encodeI32 h.termId ++ encodeI64 h.reservedValue

def StatusMessage.encode (h : StatusMessage) : List UInt8 :=
  h.frameHeader.encode ++ encodeI32 h.sessionId ++ encodeI32 h.streamId
    ++ encodeI32 h.consumptionTermId ++ encodeI32 h.consumptionTermOffset
    ++ encodeI32 h.receiverWindow ++ encodeI64 h.receiverId

def NakHeader.encode (h : NakHeader) : List UInt8 :=
  h.frameHeader.encode ++ encodeI32 h.sessionId ++ encodeI32 h.streamId
    ++ encodeI32 h.activeTermId ++ encodeI32 h.termOffset ++ encodeI32 h.length

def SetupHeader.encode (h : SetupHeader) : List UInt8 :=
  h.frameHeader.encode ++ encodeI32 h.termOffset ++ encodeI32 h.sessionId ++ encodeI32 h.streamId
    ++ encodeI32 h.initialTermId ++ encodeI32 h.activeTermId ++ encodeI32 h.termLength
    ++ encodeI32 h.mtu ++ encodeI32 h.ttl

/-- The memory image of an RTT measurement frame. -/
def RttmHeader.encode (h : RttmHeader) : List UInt8 :=
  h.frameHeader.encode ++ encodeI32 h.sessionId ++ encodeI32 h.streamId
    ++ encodeI64 h.echoTimestamp ++ encodeI64 h.receptionDelta ++ encodeI64 h.receiverId

@[simp] theorem encodeI32_length (x : BitVec 32) : (encodeI32 x).length = 4 := toLE_length _ _

@[simp] theorem encodeI64_length (x : BitVec 64) : (encodeI64 x).length = 8 := toLE_length _ _

@[simp] theorem FrameHeader.encode_length (h : FrameHeader) : h.encode.length = 8 := by
  simp [FrameHeader.encode]

@[simp] theorem DataHeader.encode_length (h : DataHeader) : h.encode.length = 32 := by
  simp [DataHeader.encode]

theorem ofLE_encodeI32 (x : BitVec 32) : BitVec.ofNat 32 (ofLE (encodeI32 x)) = x := by
  rw [encodeI32, ofLE_toLE, show (256 : Nat) ^ 4 = 2 ^ 32 by norm_num,
    Nat.mod_eq_of_lt x.isLt, BitVec.ofNat_toNat, BitVec.setWidth_eq]

theorem encodeI32_inj {x y : BitVec 32} (h : encodeI32 x = encodeI32 y) : x = y := by
  rw [← ofLE_encodeI32 x, ← ofLE_encodeI32 y, h]

theorem encodeI64_inj {x y : BitVec 64} (h : encodeI64 x = encodeI64 y) : x = y := by
  have hx : x.toNat < 256 ^ 8 := by simpa using x.isLt
  have hy : y.toNat < 256 ^ 8 := by simpa using y.isLt
  exact BitVec.eq_of_toNat_eq (toLE_inj hx hy h)

/-! ## Encodings determine their headers -/

theorem append_encodeI32_inj {xs ys : List UInt8} {x y : BitVec 32} :
    xs ++ encodeI32 x = ys ++ encodeI32 y ↔ xs = ys ∧ x = y := by
  constructor
  · intro h
    obtain ⟨hxs, hx⟩ := List.append_inj' h (by simp)
    exact ⟨hxs, encodeI32_inj hx⟩
  · rintro ⟨rfl, rfl⟩
    rfl

theorem append_encodeI64_inj {xs ys : List UInt8} {x y : BitVec 64} :
    xs ++ encodeI64 x = ys ++ encodeI64 y ↔ xs = ys ∧ x = y := by
  constructor
  · intro h
    obtain ⟨hxs, hx⟩ := List.append_inj' h (by simp)
    exact ⟨hxs, encodeI64_inj hx⟩
  · rintro ⟨rfl, rfl⟩
    rfl

theorem FrameHeader.encode_inj {a b : FrameHeader} : a.encode = b.encode ↔ a = b := by
  constructor
  · intro h
    obtain ⟨hfront, htype⟩ := List.append_inj' h (by simp)
    obtain ⟨hlen, hbytes⟩ := List.append_inj hfront (by simp)
    have htype' : a.frameType = b.frameType :=
      BitVec.eq_of_toNat_eq (toLE_inj (by simpa using a.frameType.isLt)
        (by simpa using b.frameType.isLt) htype)
    have hlen' := encodeI32_inj hlen
    cases a
    cases b
    simp_all
  · rintro rfl
    rfl

theorem DataHeader.encode_inj {a b : DataHeader} : a.encode = b.encode ↔ a = b := by
  cases a
  cases b
  simp only [DataHeader.encode, append_encodeI32_inj, append_encodeI64_inj, FrameHeader.encode_inj,
    DataHeader.mk.injEq, and_assoc]

theorem StatusMessage.encode_inj {a b : StatusMessage} : a.encode = b.encode ↔ a = b := by
  cases a
  cases b
  simp only [StatusMessage.encode, append_encodeI32_inj, append_encodeI64_inj, FrameHeader.encode_inj,
    StatusMessage.mk.injEq, and_assoc]

theorem NakHeader.encode_inj {a b : NakHeader} : a.encode = b.encode ↔ a = b := by
  cases a
  cases b
  simp only [NakHeader.encode, append_encodeI32_inj, FrameHeader.encode_inj, NakHeader.mk.injEq,
    and_assoc]

theorem SetupHeader.encode_inj {a b : SetupHeader} : a.encode = b.encode ↔ a = b := by
  cases a
  cases b
  simp only [SetupHeader.encode, append_encodeI32_inj, FrameHeader.encode_inj, SetupHeader.mk.injEq,
    and_assoc]

theorem RttmHeader.encode_inj {a b : RttmHeader} : a.encode = b.encode ↔ a = b := by
  cases a
  cases b
  simp only [RttmHeader.encode, append_encodeI32_inj, append_encodeI64_inj, FrameHeader.encode_inj,
    RttmHeader.mk.injEq, and_assoc]

/-! ## Reading fields back from a buffer -/

/-- `i32::from_le_bytes` of the four bytes at an address. -/
def ByteStore.readI32 (m : ByteStore) (a : Nat) : BitVec 32 := BitVec.ofNat 32 (ofLE (m.read a 4))

/-- `u16::from_le_bytes` of the two bytes at an address. -/
def ByteStore.readU16 (m : ByteStore) (a : Nat) : BitVec 16 := BitVec.ofNat 16 (ofLE (m.read a 2))

/-- `u16::from_le_bytes([data[6], data[7]])`: the frame type of a frame slice. -/
def frameTypeOf (data : List UInt8) : BitVec 16 := BitVec.ofNat 16 (ofLE ((data.drop 6).take 2))

/-- A data header is its length field followed by 28 more bytes. -/
theorem DataHeader.encode_split (h : DataHeader) :
    ∃ rest, rest.length = 28 ∧
      ∀ fl, DataHeader.encode
        ⟨⟨fl, h.frameHeader.version, h.frameHeader.flags, h.frameHeader.frameType⟩, h.termOffset,
          h.sessionId, h.streamId, h.termId, h.reservedValue⟩ = encodeI32 fl ++ rest := by
  refine ⟨[h.frameHeader.version, h.frameHeader.flags] ++ toLE 2 h.frameHeader.frameType.toNat
    ++ encodeI32 h.termOffset ++ encodeI32 h.sessionId ++ encodeI32 h.streamId
    ++ encodeI32 h.termId ++ encodeI64 h.reservedValue, by simp, fun fl => ?_⟩
  simp only [DataHeader.encode, FrameHeader.encode, List.append_assoc]

/-- **The length word of a stored frame.** Where a buffer holds a data header, the word at its start
is its `frameLength`. -/
theorem readI32_of_header {m : ByteStore} {a : Nat} {h : DataHeader}
    (hm : m.read a 32 = h.encode) : m.readI32 a = h.frameHeader.frameLength := by
  obtain ⟨rest, hrest, hsplit⟩ := h.encode_split
  have henc : h.encode = encodeI32 h.frameHeader.frameLength ++ rest := hsplit _
  have hread : m.read a 4 = encodeI32 h.frameHeader.frameLength := by
    rw [← ByteStore.read_take m a 32 4 (by norm_num), hm, henc,
      List.take_left' (encodeI32_length _)]
  rw [ByteStore.readI32, hread, ofLE_encodeI32]

/-- The type field of a frame slice that starts with a data header. -/
theorem frameTypeOf_header (h : DataHeader) (tail : List UInt8) :
    frameTypeOf (h.encode ++ tail) = h.frameHeader.frameType := by
  have hdrop : ((h.encode ++ tail).drop 6).take 2 = toLE 2 h.frameHeader.frameType.toNat := by
    simp only [DataHeader.encode, FrameHeader.encode, List.append_assoc]
    rw [← List.append_assoc (encodeI32 _) [_, _], List.drop_left' (by simp),
      List.take_left' (by simp)]
  rw [frameTypeOf, hdrop, ofLE_toLE, show (256 : Nat) ^ 2 = 2 ^ 16 by norm_num,
    Nat.mod_eq_of_lt h.frameHeader.frameType.isLt, BitVec.ofNat_toNat, BitVec.setWidth_eq]

/-- The term offset and the term id of a frame slice that starts with a data header. -/
theorem DataHeader.position_fields (h : DataHeader) (tail : List UInt8) :
    ((h.encode ++ tail).drop 8).take 4 = encodeI32 h.termOffset ∧
      ((h.encode ++ tail).drop 20).take 4 = encodeI32 h.termId := by
  constructor
  · simp only [DataHeader.encode, List.append_assoc]
    rw [List.drop_left' (by simp), List.take_left' (by simp)]
  · have hsplit : h.encode ++ tail =
        (h.frameHeader.encode ++ encodeI32 h.termOffset ++ encodeI32 h.sessionId
          ++ encodeI32 h.streamId) ++ (encodeI32 h.termId ++ (encodeI64 h.reservedValue ++ tail)) := by
      simp only [DataHeader.encode, List.append_assoc]
    rw [hsplit, List.drop_left' (by simp), List.take_left' (by simp)]

theorem readU16_of_header {m : ByteStore} {a : Nat} {h : DataHeader}
    (hm : m.read a 32 = h.encode) : m.readU16 (a + 6) = h.frameHeader.frameType := by
  have hread : m.read (a + 6) 2 = (h.encode.drop 6).take 2 := by
    rw [← hm, ByteStore.read_drop m a 32 6 (by norm_num),
      ByteStore.read_take _ _ _ 2 (by norm_num)]
  have := frameTypeOf_header h []
  rw [List.append_nil, frameTypeOf, ← hread] at this
  exact this

theorem readI32_eq_zero {m : ByteStore} {a : Nat} (h : ∀ i < 4, m (a + i) = 0) :
    m.readI32 a = 0 := by
  have : ofLE (m.read a 4) = 0 := by
    refine ofLE_eq_zero fun b hb => ?_
    simp only [ByteStore.read, List.mem_map, List.mem_range] at hb
    obtain ⟨i, hi, rfl⟩ := hb
    exact h i hi
  rw [ByteStore.readI32, this]
  rfl

end AeronRs
