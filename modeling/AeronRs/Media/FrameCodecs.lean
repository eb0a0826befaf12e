import AeronRs.Lib.Codec
import AeronRs.Media.Datagrams

/-! # The codecs of the wire headers

The packed headers of `frame.rs` as **`ExactCodec`**s: a header is written into a buffer that is long
enough and read back whatever is behind it, and a buffer parses exactly if it starts with the bytes
of a header. No header has an invalid value; the length field, the version and the type are read and
not checked. -/

namespace AeronRs

/-- The `write` of a header into a buffer, which a debug build asserts to be long enough: the bytes at
the front of the buffer afterwards. -/
def writeHeader (length : Nat) (bytes : List UInt8) (bufLen : Nat) : Option (List UInt8) :=
  if bufLen < length then none else some bytes

def FrameHeader.write (h : FrameHeader) : Nat → Option (List UInt8) :=
  writeHeader frameHeaderLength h.encode

def StatusMessage.write (h : StatusMessage) : Nat → Option (List UInt8) :=
  writeHeader smTotalLength h.encode

def NakHeader.write (h : NakHeader) : Nat → Option (List UInt8) := writeHeader nakTotalLength h.encode

def SetupHeader.write (h : SetupHeader) : Nat → Option (List UInt8) :=
  writeHeader setupTotalLength h.encode

def RttmHeader.write (h : RttmHeader) : Nat → Option (List UInt8) :=
  writeHeader rttmTotalLength h.encode

def StatusMessage.parse (buf : List UInt8) : Option StatusMessage :=
  if buf.length < smTotalLength then none
  else some ⟨.ofBytes buf, fieldI32 buf 8, fieldI32 buf 12, fieldI32 buf 16, fieldI32 buf 20,
    fieldI32 buf 24, fieldI64 buf 28⟩

def NakHeader.parse (buf : List UInt8) : Option NakHeader :=
  if buf.length < nakTotalLength then none
  else some ⟨.ofBytes buf, fieldI32 buf 8, fieldI32 buf 12, fieldI32 buf 16, fieldI32 buf 20,
    fieldI32 buf 24⟩

def classifyFrame (buf : List UInt8) : Option FrameType :=
  (FrameHeader.parse buf).map fun hdr => .ofField hdr.frameType

/-! ## The common header -/

/-- A byte of a buffer writes back as itself. -/
theorem getD_eq_take_drop {buf : List UInt8} {n : Nat} (h : n < buf.length) :
    [buf.getD n 0] = (buf.drop n).take 1 := by
  rw [List.drop_eq_getElem_cons h, List.take_succ_cons, List.take_zero, List.getD_eq_getElem _ _ h]

theorem toLE_fieldU16 {buf : List UInt8} {at_ : Nat} (h : at_ + 2 ≤ buf.length) :
    toLE 2 (fieldU16 buf at_).toNat = (buf.drop at_).take 2 := by
  have hlen : ((buf.drop at_).take 2).length = 2 := by
    rw [List.length_take, List.length_drop]
    omega
  have hlt := ofLE_lt ((buf.drop at_).take 2)
  rw [hlen, show (256 : Nat) ^ 2 = 2 ^ 16 by norm_num] at hlt
  rw [fieldU16, BitVec.toNat_ofNat, Nat.mod_eq_of_lt hlt]
  exact toLE_ofLE hlen

/-- **The common header writes back the bytes that it was read from.** -/
theorem FrameHeader.encode_ofBytes {buf : List UInt8} (h : 8 ≤ buf.length) :
    (FrameHeader.ofBytes buf).encode = buf.take 8 := by
  have hversion : [buf.getD 4 0] = (buf.drop 4).take 1 := getD_eq_take_drop (by omega)
  have hflags : [buf.getD 5 0] = (buf.drop 5).take 1 := getD_eq_take_drop (by omega)
  have hlength : encodeI32 (fieldI32 buf 0) = (buf.drop 0).take 4 := encodeI32_fieldI32 (by omega)
  have htype : toLE 2 (fieldU16 buf 6).toNat = (buf.drop 6).take 2 := toLE_fieldU16 (by omega)
  simp only [FrameHeader.ofBytes, FrameHeader.encode, hlength, htype, List.drop_zero]
  rw [← List.singleton_append, hversion, hflags]
  simp only [← List.append_assoc, ← List.take_add]

theorem FrameHeader.parse_encode (h : FrameHeader) (rest : List UInt8) :
    FrameHeader.parse (h.encode ++ rest) = some h := by
  rw [FrameHeader.parse, if_neg (by simp [frameHeaderLength]), FrameHeader.ofBytes_encode]

/-! ## The codecs -/

theorem FrameHeader.exactCodec :
    ExactCodec (fun _ => True) frameHeaderLength FrameHeader.write FrameHeader.parse :=
  ExactCodec.of_plain_fields FrameHeader.encode FrameHeader.ofBytes (fun _ _ => rfl) (fun _ => rfl)
    FrameHeader.encode_length FrameHeader.ofBytes_encode fun _ => FrameHeader.encode_ofBytes

attribute [simp] FrameHeader.ofBytes_encode fieldI32_head fieldI32_encodeI32 fieldI64_head fieldI64_skip

@[simp] theorem fieldI32_behind (h : FrameHeader) (rest : List UInt8) (k : Nat) :
    fieldI32 (h.encode ++ rest) (k + 8) = fieldI32 rest k :=
  fieldI32_skip h.encode_length rest k

@[simp] theorem fieldI64_behind (h : FrameHeader) (rest : List UInt8) (k : Nat) :
    fieldI64 (h.encode ++ rest) (k + 8) = fieldI64 rest k := by
  rw [fieldI64, fieldI64, ← h.encode_length, Nat.add_comm, List.drop_length_add_append]

@[simp] theorem fieldI64_skip32 (x : BitVec 32) (rest : List UInt8) (k : Nat) :
    fieldI64 (encodeI32 x ++ rest) (k + 4) = fieldI64 rest k := by
  rw [fieldI64, fieldI64, ← encodeI32_length x, Nat.add_comm, List.drop_length_add_append]

/-- A data header has no `write` of its own; it is copied into a scratch or term buffer. -/
theorem DataHeader.exactCodec :
    ExactCodec (fun _ => True) dataHeaderLength
      (fun h => writeHeader dataHeaderLength (DataHeader.encode h)) DataHeader.parse := by
  refine ExactCodec.of_plain_fields DataHeader.encode _ (fun _ _ => rfl) (fun _ => rfl)
    DataHeader.encode_length (by simp [DataHeader.encode]) fun buf hle => ?_
  simp only [dataHeaderLength] at hle
  simp (disch := omega) only [DataHeader.encode, FrameHeader.encode_ofBytes, encodeI64_fieldI64,
    encodeI32_fieldI32, ← List.take_add, dataHeaderLength]

theorem StatusMessage.exactCodec :
    ExactCodec (fun _ => True) smTotalLength StatusMessage.write StatusMessage.parse := by
  refine ExactCodec.of_plain_fields StatusMessage.encode _ (fun _ _ => rfl) (fun _ => rfl)
    (by simp [StatusMessage.encode, smTotalLength]) (by simp [StatusMessage.encode]) fun buf hle => ?_
  simp only [smTotalLength] at hle
  simp (disch := omega) only [StatusMessage.encode, FrameHeader.encode_ofBytes, encodeI64_fieldI64,
    encodeI32_fieldI32, ← List.take_add, smTotalLength]

theorem NakHeader.exactCodec :
    ExactCodec (fun _ => True) nakTotalLength NakHeader.write NakHeader.parse := by
  refine ExactCodec.of_plain_fields NakHeader.encode _ (fun _ _ => rfl) (fun _ => rfl)
    (by simp [NakHeader.encode, nakTotalLength]) (by simp [NakHeader.encode]) fun buf hle => ?_
  simp only [nakTotalLength] at hle
  simp (disch := omega) only [NakHeader.encode, FrameHeader.encode_ofBytes, encodeI32_fieldI32,
    ← List.take_add, nakTotalLength]

theorem SetupHeader.exactCodec :
    ExactCodec (fun _ => True) setupTotalLength SetupHeader.write SetupHeader.parse := by
  refine ExactCodec.of_plain_fields SetupHeader.encode _ (fun _ _ => rfl) (fun _ => rfl)
    (by simp [SetupHeader.encode, setupTotalLength]) (by simp [SetupHeader.encode]) fun buf hle => ?_
  simp only [setupTotalLength] at hle
  simp (disch := omega) only [SetupHeader.encode, FrameHeader.encode_ofBytes, encodeI32_fieldI32,
    ← List.take_add, setupTotalLength]

theorem RttmHeader.exactCodec :
    ExactCodec (fun _ => True) rttmTotalLength RttmHeader.write RttmHeader.parse := by
  refine ExactCodec.of_plain_fields RttmHeader.encode _ (fun _ _ => rfl) (fun _ => rfl)
    (by simp [RttmHeader.encode, rttmTotalLength]) (by simp [RttmHeader.encode]) fun buf hle => ?_
  simp only [rttmTotalLength] at hle
  simp (disch := omega) only [RttmHeader.encode, FrameHeader.encode_ofBytes, encodeI64_fieldI64,
    encodeI32_fieldI32, ← List.take_add, rttmTotalLength]

/-- **Every header of the wire format is an exact codec.** -/
theorem wire_headers_exact :
    ExactCodec (fun _ => True) frameHeaderLength FrameHeader.write FrameHeader.parse ∧
      ExactCodec (fun _ => True) dataHeaderLength
        (fun h => writeHeader dataHeaderLength (DataHeader.encode h)) DataHeader.parse ∧
      ExactCodec (fun _ => True) smTotalLength StatusMessage.write StatusMessage.parse ∧
      ExactCodec (fun _ => True) nakTotalLength NakHeader.write NakHeader.parse ∧
      ExactCodec (fun _ => True) setupTotalLength SetupHeader.write SetupHeader.parse ∧
      ExactCodec (fun _ => True) rttmTotalLength RttmHeader.write RttmHeader.parse :=
  ⟨FrameHeader.exactCodec, DataHeader.exactCodec, StatusMessage.exactCodec, NakHeader.exactCodec,
    SetupHeader.exactCodec, RttmHeader.exactCodec⟩

/-! ## Setup frames -/

theorem SetupHeader.parse_encode (h : SetupHeader) : SetupHeader.parse h.encode = some h := by
  have hread := SetupHeader.exactCodec.decode_append (a := h) trivial (if_neg (Nat.lt_irrefl _)) []
  rwa [List.append_nil] at hread

theorem SetupHeader.parse_frameHeader (h : SetupHeader) :
    FrameHeader.parse h.encode = some h.frameHeader := by
  simp only [SetupHeader.encode, List.append_assoc, FrameHeader.parse_encode]

end AeronRs
