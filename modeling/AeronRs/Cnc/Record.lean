import AeronRs.Lib.RecordRing
import AeronRs.Media.TermBuffer

/-! # Records of the command-and-control buffers

The ring buffer of `ring_buffer.rs` and the broadcast buffer of `broadcast.rs` share their layout: a
data region of a power-of-two capacity that holds 32-byte aligned records, each a header of two words
(type and length) and a payload. Where a record would run over the end of the region, a **padding**
record fills the rest and the record goes to the start. -/

namespace AeronRs

variable {index C : Nat} {m : ByteStore} {msg : Message} {r : Record}

def recordHeaderLength : Nat := 8

def recordAlignment : Nat := 32

/-- `align_record`: the rounding of `align_frame_length`. -/
def alignRecord (len : Nat) : Nat := alignFrameLength len

def msgTypePadding : BitVec 32 := -1

/-- `TRAILER_LENGTH`: the positions behind the data region. -/
def trailerLength : Nat := 128

def requiredBufferSize (capacity : Nat) : Nat := capacity + trailerLength

theorem le_alignRecord (len : Nat) : len ≤ alignRecord len := le_alignFrameLength len

theorem alignRecord_dvd (len : Nat) : 32 ∣ alignRecord len := alignFrameLength_dvd len

theorem alignRecord_of_dvd {len : Nat} (h : 32 ∣ len) : alignRecord len = len :=
  alignFrameLength_of_dvd h

/-- Rounding up stays below a multiple of the alignment. -/
theorem alignRecord_le {len n : Nat} (h : len ≤ n) (hn : 32 ∣ n) : alignRecord len ≤ n := by
  rw [alignRecord, alignFrameLength]
  omega

/-- The data region of a buffer. The buffer is an object of the required size, so that size is below
`2 ^ 63`. -/
structure DataRegion where
  capacity : Nat
  capacity_ge : recordAlignment ≤ capacity
  capacity_pow : isPowerOfTwo capacity = true
  size_lt : requiredBufferSize capacity < 2 ^ 63
  data : ByteStore

def DataRegion.zeroed (capacity : Nat)
    (h : recordAlignment ≤ capacity ∧ isPowerOfTwo capacity = true)
    (hsize : requiredBufferSize capacity < 2 ^ 63) : DataRegion :=
  ⟨capacity, h.1, h.2, hsize, fun _ => 0⟩

def DataRegion.zeroed64 : DataRegion := .zeroed 64 (by decide) (by decide)

def DataRegion.zeroed128 : DataRegion := .zeroed 128 (by decide) (by decide)

theorem DataRegion.capacity_dvd (d : DataRegion) : 32 ∣ d.capacity := by
  obtain ⟨k, hk⟩ := exists_of_isPowerOfTwo d.capacity_pow
  have hge : 2 ^ 5 ≤ 2 ^ k := hk ▸ d.capacity_ge
  rw [hk, show 32 = 2 ^ 5 by norm_num]
  exact Nat.pow_dvd_pow 2 ((Nat.pow_le_pow_iff_right (by norm_num)).mp hge)

theorem DataRegion.capacity_lt (d : DataRegion) : d.capacity < 2 ^ 63 := by
  have := d.size_lt
  rw [requiredBufferSize] at this
  omega

/-- A message as the handler of a reader gets it. -/
structure Message where
  msgType : BitVec 32
  payload : List UInt8
  deriving DecidableEq, Repr

/-- What a record holds: a message, or the padding in front of the wrap. -/
inductive RecordBody
  | padding (len : Nat)
  | message (msg : Message)
  deriving DecidableEq

namespace RecordBody

def msgType : RecordBody → BitVec 32
  | padding _ => msgTypePadding
  | message msg => msg.msgType

def recordLength : RecordBody → Nat
  | padding len => len
  | message msg => msg.payload.length + recordHeaderLength

def length (b : RecordBody) : Nat := alignRecord b.recordLength

def message? : RecordBody → Option Message
  | padding _ => none
  | message msg => some msg

@[simp] theorem msgType_padding (len : Nat) : (padding len).msgType = msgTypePadding := rfl

@[simp] theorem msgType_message (msg : Message) : (message msg).msgType = msg.msgType := rfl

@[simp] theorem recordLength_padding (len : Nat) : (padding len).recordLength = len := rfl

@[simp] theorem recordLength_message (msg : Message) :
    (message msg).recordLength = msg.payload.length + recordHeaderLength := rfl

@[simp] theorem message?_padding (len : Nat) : (padding len).message? = none := rfl

@[simp] theorem message?_message (msg : Message) : (message msg).message? = some msg := rfl

end RecordBody

/-- A record at an address of the data region. -/
structure Record where
  address : Nat
  body : RecordBody
  deriving DecidableEq

def Record.length (r : Record) : Nat := r.body.length

theorem Record.length_message (h : r.body = .message msg) :
    r.length = alignRecord (msg.payload.length + recordHeaderLength) := by
  rw [Record.length, h]
  rfl

theorem Record.message_le_length (h : r.body = .message msg) :
    msg.payload.length + recordHeaderLength ≤ r.length := by
  rw [Record.length_message h]
  exact le_alignRecord _

/-- The messages of a list of records, without the padding. -/
def messagesOf (rs : List Record) : List Message := rs.filterMap fun r => r.body.message?

theorem messagesOf_append (rs rs' : List Record) :
    messagesOf (rs ++ rs') = messagesOf rs ++ messagesOf rs' := List.filterMap_append ..

theorem messagesOf_getLast? {rs : List Record} (hr : rs.getLast? = some r)
    (hmsg : r.body = .message msg) :
    (messagesOf rs).getLast? = some msg := by
  obtain ⟨init, rfl⟩ := List.getLast?_eq_some_iff.mp hr
  rw [messagesOf_append, List.getLast?_append]
  simp [messagesOf, hmsg]

/-! ## Placing a message

A message at a position whose record does not fit in front of the end of the region is preceded by
padding up to that end. -/

/-- The records that a message becomes at an index of a region of `C` bytes. -/
def placed (C index : Nat) (msg : Message) : List Record :=
  if C - index < (RecordBody.message msg).length then
    [⟨index, .padding (C - index)⟩, ⟨0, .message msg⟩]
  else [⟨index, .message msg⟩]

/-- The bytes that these records take. -/
def placedLength (C index : Nat) (msg : Message) : Nat :=
  if C - index < (RecordBody.message msg).length then C - index + (RecordBody.message msg).length
  else (RecordBody.message msg).length

@[simp] theorem messagesOf_placed (C index : Nat) (msg : Message) :
    messagesOf (placed C index msg) = [msg] := by
  unfold placed
  split <;> rfl

theorem getLast?_placed (rs : List Record) (C index : Nat) (msg : Message) :
    ∃ address, (rs ++ placed C index msg).getLast? = some ⟨address, .message msg⟩ := by
  unfold placed
  split
  · exact ⟨0, by simp [List.getLast?_append]⟩
  · exact ⟨index, by simp⟩

theorem message_length_dvd (msg : Message) : 32 ∣ (RecordBody.message msg).length :=
  alignRecord_dvd _

theorem message_length_pos (msg : Message) : 32 ≤ (RecordBody.message msg).length := by
  have hge : msg.payload.length + recordHeaderLength ≤ (RecordBody.message msg).length :=
    le_alignRecord _
  have hheader : recordHeaderLength = 8 := rfl
  exact Nat.le_of_dvd (by omega) (message_length_dvd msg)

theorem placedLength_dvd (hC : 32 ∣ C) (hindex : 32 ∣ index) (msg : Message) :
    32 ∣ placedLength C index msg := by
  have := message_length_dvd msg
  unfold placedLength
  split <;> omega

/-- The records of a placed message are long enough for a header. -/
theorem placed_length (hC : 32 ∣ C) (hindex : 32 ∣ index) (hlt : index < C)
    (hr : r ∈ placed C index msg) : 32 ≤ r.length := by
  have hmsg := message_length_pos msg
  unfold placed at hr
  split_ifs at hr
  · rcases List.mem_cons.mp hr with rfl | hr
    · have : (⟨index, .padding (C - index)⟩ : Record).length = C - index :=
        alignRecord_of_dvd (show 32 ∣ C - index by omega)
      omega
    · obtain rfl := List.mem_singleton.mp hr
      exact hmsg
  · obtain rfl := List.mem_singleton.mp hr
    exact hmsg

theorem placed_message {msg' : Message} (hr : r ∈ placed C index msg)
    (hbody : r.body = .message msg') : msg' = msg := by
  unfold placed at hr
  split_ifs at hr
  · rcases List.mem_cons.mp hr with rfl | hr
    · cases hbody
    · obtain rfl := List.mem_singleton.mp hr
      exact (RecordBody.message.inj hbody).symm
  · obtain rfl := List.mem_singleton.mp hr
    exact (RecordBody.message.inj hbody).symm

/-- **A placed message lies behind the position that it is placed at**, if the region is large enough
for its record. -/
theorem laid_placed {T : Nat} (hC : 32 ∣ C) (hpos : 0 < C) (hT : 32 ∣ T)
    (hfits : (RecordBody.message msg).length ≤ C) :
    Laid C Record.address Record.length T (placed C (T % C) msg)
      (T + placedLength C (T % C) msg) := by
  have hlen := message_length_pos msg
  have hmod := Nat.mod_lt T hpos
  have hTmod : 32 ∣ T % C := (Nat.dvd_mod_iff hC).mpr hT
  have hmessage : ∀ a, (⟨a, .message msg⟩ : Record).length = (RecordBody.message msg).length :=
    fun _ => rfl
  unfold placed placedLength
  by_cases hwrap : C - T % C < (RecordBody.message msg).length
  · have hpad : (⟨T % C, .padding (C - T % C)⟩ : Record).length = C - T % C :=
      alignRecord_of_dvd (show 32 ∣ C - T % C by omega)
    -- the padding ends at a multiple of the capacity
    have hend : (T + (C - T % C)) % C = 0 := by
      have hdiv := Nat.div_add_mod T C
      have : T + (C - T % C) = C * (T / C + 1) := by
        rw [Nat.mul_succ]
        omega
      rw [this, Nat.mul_mod_right]
    rw [if_pos hwrap, if_pos hwrap]
    simp only [laid_cons, laid_nil, hpad, hmessage, hend]
    exact ⟨trivial, by omega, by omega, trivial, by omega, by omega, by omega⟩
  · rw [if_neg hwrap, if_neg hwrap]
    simp only [laid_cons, laid_nil, hmessage]
    exact ⟨trivial, by omega, by omega, trivial⟩

/-! ## Positions

Positions are 64-bit counters that only grow; an index is a position masked with the capacity. -/

/-- `(position as usize) & mask`. -/
def indexOf (capacity : Nat) (position : BitVec 64) : Nat := position.toNat &&& (capacity - 1)

/-- **The index of a position** is the position modulo the capacity, also after the counter has
wrapped. -/
theorem indexOf_ofNat {capacity : Nat} (hpow : isPowerOfTwo capacity = true)
    (hlt : capacity < 2 ^ 64) (p : Nat) : indexOf capacity (BitVec.ofNat 64 p) = p % capacity := by
  obtain ⟨k, rfl⟩ := exists_of_isPowerOfTwo hpow
  have hk : k ≤ 64 := by
    by_contra hk
    exact absurd hlt (Nat.not_lt.mpr (Nat.pow_le_pow_right (by norm_num) (by omega)))
  rw [indexOf, BitVec.toNat_ofNat, Nat.and_two_pow_sub_one_eq_mod,
    Nat.mod_mod_of_dvd _ (Nat.pow_dvd_pow 2 hk)]

/-- The signed difference of two counters less than `2 ^ 63` apart. -/
theorem toInt_sub_ofNat {a b : Nat} (h : a ≤ b) (hlt : b - a < 2 ^ 63) :
    (BitVec.ofNat 64 b - BitVec.ofNat 64 a).toInt = ((b - a : Nat) : Int) := by
  have hsub : BitVec.ofNat 64 b - BitVec.ofNat 64 a = BitVec.ofNat 64 (b - a) := by
    rw [BitVec.sub_eq_iff_eq_add, ← BitVec.ofNat_add, Nat.sub_add_cancel h]
  rw [hsub, BitVec.toInt_eq_toNat_of_lt (by rw [BitVec.toNat_ofNat]; omega), BitVec.toNat_ofNat,
    Nat.mod_eq_of_lt (by omega)]

/-- Counters less than a whole turn apart are told apart. -/
theorem ofNat_eq_ofNat_iff {a b : Nat} (h : a ≤ b) (hlt : b - a < 2 ^ 64) :
    BitVec.ofNat 64 a = BitVec.ofNat 64 b ↔ a = b := by
  constructor
  · intro heq
    have hmod : a % 2 ^ 64 = b % 2 ^ 64 := by
      simpa only [BitVec.toNat_ofNat] using congrArg BitVec.toNat heq
    have hd := Nat.eq_zero_of_dvd_of_lt ((Nat.modEq_iff_dvd' h).mp hmod) hlt
    omega
  · rintro rfl
    rfl

/-! ## Records in memory

The two buffers have the words of the header in different orders. -/

/-- `read_i32(..) as usize`: a negative word becomes a very large number. -/
def readLength (m : ByteStore) (a : Nat) : Nat := ((m.readI32 a).signExtend 64).toNat

/-- A length word that is not negative is read as it was written. -/
theorem readLength_eq {a n : Nat} (h : m.readI32 a = BitVec.ofNat 32 n) (hn : n < 2 ^ 31) :
    readLength m a = n := by
  have hmsb : (BitVec.ofNat 32 n).msb = false := by
    rw [BitVec.msb_eq_false_iff_two_mul_lt, BitVec.toNat_ofNat]
    omega
  rw [readLength, h, BitVec.signExtend_eq_setWidth_of_msb_false hmsb, BitVec.toNat_setWidth,
    BitVec.toNat_ofNat]
  omega

/-- The region holds a record: its two words, at their places in the header, and the payload of a
message. -/
structure RecordStored (typeAt lengthAt : Nat) (m : ByteStore) (r : Record) : Prop where
  msgType : m.readI32 (r.address + typeAt) = r.body.msgType
  length : m.readI32 (r.address + lengthAt) = BitVec.ofNat 32 r.body.recordLength
  payload : ∀ msg, r.body = .message msg →
    m.read (r.address + recordHeaderLength) msg.payload.length = msg.payload

/-- A record that a reader takes for what it is: a message does not have the type of padding, and the
length fits its word. -/
structure Readable (r : Record) : Prop where
  ne_padding : ∀ msg, r.body = .message msg → msg.msgType ≠ msgTypePadding
  lt : r.body.recordLength < 2 ^ 31

/-- **What a reader finds at a message**: a type other than that of padding, a record with room for
its payload, and the payload. -/
theorem RecordStored.message {typeAt lengthAt : Nat} (h : RecordStored typeAt lengthAt m r)
    (hread : Readable r) (hbody : r.body = .message msg) :
    (RecordBody.message msg).msgType ≠ msgTypePadding ∧
      recordHeaderLength ≤ (RecordBody.message msg).recordLength ∧
      (RecordBody.message msg).recordLength ≤ r.length ∧
      m.read (r.address + recordHeaderLength)
        ((RecordBody.message msg).recordLength - recordHeaderLength) = msg.payload := by
  refine ⟨hread.ne_padding msg hbody, Nat.le_add_left .., Record.message_le_length hbody, ?_⟩
  rw [RecordBody.recordLength_message, Nat.add_sub_cancel, h.payload msg hbody]

/-- A record stays stored when the bytes that it takes up do not change. -/
theorem RecordStored.congr {typeAt lengthAt : Nat} {m' : ByteStore}
    (h : RecordStored typeAt lengthAt m r) (htype : typeAt ≤ 4) (hlength : lengthAt ≤ 4)
    (hlen : recordHeaderLength ≤ r.length)
    (hbytes : ∀ a n, r.address ≤ a → a + n ≤ r.address + r.length → m'.read a n = m.read a n) :
    RecordStored typeAt lengthAt m' r := by
  have hheader : recordHeaderLength = 8 := rfl
  refine ⟨?_, ?_, fun msg hmsg => ?_⟩
  · rw [← h.msgType, ByteStore.readI32, ByteStore.readI32, hbytes _ _ (by omega) (by omega)]
  · rw [← h.length, ByteStore.readI32, ByteStore.readI32, hbytes _ _ (by omega) (by omega)]
  · have hge := Record.message_le_length hmsg
    rw [hbytes _ _ (by omega) (by omega), h.payload msg hmsg]

end AeronRs
