import AeronRs.Cnc.Record

/-! # The command ring

The ring buffer of `ring_buffer.rs`, over which clients send commands to the conductor and the
conductor to its agents. A producer **claims** room by moving the tail and then writes its record
with a few stores, the type word last; the reader walks from head to tail, takes a zero type word for
a record that is not written yet, and zeroes the type word of each record that it has passed.

A `write` that nothing interrupts is a claim followed by all stores of the claimed records. -/

namespace AeronRs

inductive RingBufferError
  | invalidCapacity
  | bufferTooSmall
  | messageTooLarge
  | full
  deriving DecidableEq, Repr

/-- `MpscRingBuffer` with the memory behind it: the data region and the two positions of the
trailer. -/
structure RingBuffer extends DataRegion where
  head : BitVec 64
  tail : BitVec 64

namespace RingBuffer

/-- `MpscRingBuffer::new` over zeroed memory of the required size. -/
def new (capacity : Nat) (hsize : requiredBufferSize capacity < 2 ^ 63) :
    Except RingBufferError RingBuffer :=
  if h : recordAlignment ≤ capacity ∧ isPowerOfTwo capacity = true then
    .ok ⟨.zeroed capacity h hsize, 0, 0⟩
  else .error .invalidCapacity

/-- The ring over another content of its data region. -/
def withData (rb : RingBuffer) (data : ByteStore) : RingBuffer := { rb with data }

def size (rb : RingBuffer) : Nat := (rb.tail - rb.head).toNat

def maxMessageLength (rb : RingBuffer) : Nat := rb.capacity - recordHeaderLength

/-! ## Writing -/

structure Store where
  address : Nat
  bytes : List UInt8
  deriving DecidableEq

/-- The data region after a store. -/
def Store.apply (m : ByteStore) (st : Store) : ByteStore := m.write st.address st.bytes

/-- The stores that write a record, in program order. A message ends with its type word; padding
starts with it. -/
def stores (r : Record) : List Store :=
  match r.body with
  | .padding len =>
      [⟨r.address, encodeI32 msgTypePadding⟩, ⟨r.address + 4, encodeI32 (BitVec.ofNat 32 len)⟩]
  | .message msg =>
      let recordLength := msg.payload.length + recordHeaderLength
      [⟨r.address + recordLength, List.replicate (alignRecord recordLength - recordLength) 0⟩,
        ⟨r.address + recordHeaderLength, msg.payload⟩,
        ⟨r.address + 4, encodeI32 (BitVec.ofNat 32 recordLength)⟩,
        ⟨r.address, encodeI32 msg.msgType⟩]

/-- What a successful exchange of the tail claims: the index it starts at, the padding if the record
has to wrap, and the tail it leaves. -/
structure Claim where
  tailIndex : Nat
  padLength : Option Nat
  newTail : BitVec 64
  deriving DecidableEq

/-- The loop of `write` up to the exchange of the tail, with the positions as they are. -/
def claim (rb : RingBuffer) (payloadLength : Nat) : Except RingBufferError Claim :=
  let recordLength := payloadLength + recordHeaderLength
  if rb.capacity < recordLength then .error .messageTooLarge
  else
    let alignedLength := alignRecord recordLength
    let available : Int := rb.capacity - (rb.tail - rb.head).toInt
    if available < alignedLength then .error .full
    else
      let tailIndex := indexOf rb.capacity rb.tail
      let contiguous := rb.capacity - tailIndex
      if contiguous < alignedLength then
        let totalNeeded := contiguous + alignedLength
        if available < totalNeeded then .error .full
        else .ok ⟨tailIndex, some contiguous, rb.tail + BitVec.ofNat 64 totalNeeded⟩
      else .ok ⟨tailIndex, none, rb.tail + BitVec.ofNat 64 alignedLength⟩

/-- The records of a claim: padding up to the end of the region, if there is any, and the message. -/
def Claim.records (c : Claim) (msg : Message) : List Record :=
  match c.padLength with
  | none => [⟨c.tailIndex, .message msg⟩]
  | some len => [⟨c.tailIndex, .padding len⟩, ⟨0, .message msg⟩]

def write (rb : RingBuffer) (msg : Message) : RingBuffer × Except RingBufferError Unit :=
  match rb.claim msg.payload.length with
  | .error e => (rb, .error e)
  | .ok c =>
      ({ rb with
          tail := c.newTail
          data := ((c.records msg).flatMap stores).foldl Store.apply rb.data }, .ok ())

/-! ## Reading -/

/-- The loop of `read`: the messages, the data region and the position it stops at. No result stands
for a payload that is not inside the data region. -/
def readLoop (capacity : Nat) (tail : BitVec 64) :
    Nat → ByteStore → BitVec 64 → Option (List Message × ByteStore × BitVec 64)
  | 0, _, _ => none
  | fuel + 1, m, current =>
      if current = tail then some ([], m, current)
      else
        let index := indexOf capacity current
        let msgType := m.readI32 index
        let recordLength := readLength m (index + 4)
        if msgType = 0 then some ([], m, current)   -- not committed yet
        else
          let rest := readLoop capacity tail fuel (m.write index (encodeI32 0))
            (current + BitVec.ofNat 64 (alignRecord recordLength))
          if msgType = msgTypePadding then rest
          else if recordLength < recordHeaderLength ∨ capacity < index + recordLength then none
          else
            let payload := m.read (index + recordHeaderLength) (recordLength - recordHeaderLength)
            rest.map fun r => (⟨msgType, payload⟩ :: r.1, r.2)

/-- `read`: the messages given to the handler, in order. Each round zeroes the type word of one
32-byte aligned index and the loop ends at a zero type word, so the rounds are at most one more than
there are such indices. -/
def read (rb : RingBuffer) : Option (List Message × RingBuffer) :=
  if rb.head = rb.tail then some ([], rb)
  else
    (readLoop rb.capacity rb.tail (rb.capacity / 32 + 1) rb.data rb.head).map fun r =>
      (r.1, { rb with data := r.2.1, head := r.2.2 })

theorem write_capacity (rb : RingBuffer) (msg : Message) :
    (rb.write msg).1.capacity = rb.capacity := by
  unfold RingBuffer.write
  split <;> rfl

theorem read_capacity {rb rb' : RingBuffer} {msgs : List Message}
    (h : rb.read = some (msgs, rb')) : rb'.capacity = rb.capacity := by
  unfold RingBuffer.read at h
  split_ifs at h
  · obtain ⟨-, rfl⟩ := Prod.mk.inj (Option.some.inj h)
    rfl
  · obtain ⟨r, -, heq⟩ := Option.map_eq_some_iff.mp h
    obtain ⟨-, rfl⟩ := Prod.mk.inj heq
    rfl

/-! ## What a claim takes -/

def freeBytes (rb : RingBuffer) : Nat := rb.capacity - rb.size

/-- The bytes that a message takes: its record, and the padding if the record does not fit in front
of the end of the region. -/
def roomFor (rb : RingBuffer) (msg : Message) : Nat :=
  placedLength rb.capacity (indexOf rb.capacity rb.tail) msg

/-- What a claim that succeeds takes. -/
def claimed (rb : RingBuffer) (msg : Message) : Claim where
  tailIndex := indexOf rb.capacity rb.tail
  padLength :=
    if rb.capacity - indexOf rb.capacity rb.tail < (RecordBody.message msg).length then
      some (rb.capacity - indexOf rb.capacity rb.tail)
    else none
  newTail := rb.tail + BitVec.ofNat 64 (rb.roomFor msg)

theorem claimed_records (rb : RingBuffer) (msg : Message) :
    (rb.claimed msg).records msg = placed rb.capacity (indexOf rb.capacity rb.tail) msg := by
  unfold claimed Claim.records placed
  split_ifs <;> rfl

/-- **The positions without wrapping.** Everything before `H` has been read and everything before `T`
claimed, at most one turn of the ring apart. -/
structure At (rb : RingBuffer) (H T : Nat) : Prop where
  head : rb.head = BitVec.ofNat 64 H
  tail : rb.tail = BitVec.ofNat 64 T
  le : H ≤ T
  turn : T ≤ H + rb.capacity
  aligned : 32 ∣ T

namespace At

variable {rb : RingBuffer} {H T : Nat}

theorem index_tail (h : At rb H T) : indexOf rb.capacity rb.tail = T % rb.capacity := by
  have := rb.capacity_lt
  rw [h.tail, indexOf_ofNat rb.capacity_pow (by omega)]

theorem toInt_sub (h : At rb H T) : (rb.tail - rb.head).toInt = ((T - H : Nat) : Int) := by
  have := rb.capacity_lt
  have := h.turn
  rw [h.tail, h.head, toInt_sub_ofNat h.le (by omega)]

theorem size_eq (h : At rb H T) : rb.size = T - H := by
  have := rb.capacity_lt
  have := h.turn
  have hsub : rb.tail - rb.head = BitVec.ofNat 64 (T - H) := by
    rw [h.tail, h.head, BitVec.sub_eq_iff_eq_add, ← BitVec.ofNat_add, Nat.sub_add_cancel h.le]
  rw [size, hsub, BitVec.toNat_ofNat, Nat.mod_eq_of_lt (by omega)]

/-- **The outcome of a claim**, with its two tests for room in one: what it claims are the records of
the message at the tail. -/
theorem claim_eq (h : At rb H T) (msg : Message) :
    rb.claim msg.payload.length =
      if rb.capacity < msg.payload.length + recordHeaderLength then .error .messageTooLarge
      else if rb.freeBytes < rb.roomFor msg then .error .full
      else .ok (rb.claimed msg) := by
  have hle := h.le
  have hturn := h.turn
  have havail : (rb.capacity : Int) - (rb.tail - rb.head).toInt = (rb.freeBytes : Int) := by
    rw [h.toInt_sub, freeBytes, h.size_eq]
    omega
  have hlen : alignRecord (msg.payload.length + recordHeaderLength) =
    (RecordBody.message msg).length := rfl
  by_cases hlarge : rb.capacity < msg.payload.length + recordHeaderLength
  · simp only [claim, if_pos hlarge]
  simp only [claim, if_neg hlarge, havail, roomFor, placedLength, claimed, hlen, Int.ofNat_lt]
  by_cases hwrap : rb.capacity - indexOf rb.capacity rb.tail < (RecordBody.message msg).length
  · simp only [if_pos hwrap]
    by_cases hfull : rb.freeBytes < (RecordBody.message msg).length
    · rw [if_pos hfull, if_pos (by omega)]
    · rw [if_neg hfull]
  · simp only [if_neg hwrap]

/-- **A claim lays its records behind the last one**, within the same turn of the ring. -/
theorem laid_claimed (h : At rb H T) {msg : Message}
    (hlarge : msg.payload.length + recordHeaderLength ≤ rb.capacity) :
    Laid rb.capacity Record.address Record.length T ((rb.claimed msg).records msg)
      (T + rb.roomFor msg) := by
  have hpos := rb.capacity_ge
  rw [claimed_records, roomFor, h.index_tail]
  exact laid_placed rb.capacity_dvd (by rw [recordAlignment] at hpos; omega) h.aligned
    (alignRecord_le hlarge rb.capacity_dvd)

theorem claimed_tail (h : At rb H T) {msg : Message} (hroom : rb.roomFor msg ≤ rb.freeBytes) :
    At { rb with tail := (rb.claimed msg).newTail } H (T + rb.roomFor msg) where
  head := h.head
  tail := by rw [claimed, h.tail, BitVec.ofNat_add]
  le := by have := h.le; omega
  turn := by
    have hle := h.le
    have hturn := h.turn
    rw [freeBytes, h.size_eq] at hroom
    dsimp only
    omega
  aligned := by
    have hindex : 32 ∣ T % rb.capacity := (Nat.dvd_mod_iff rb.capacity_dvd).mpr h.aligned
    rw [roomFor, h.index_tail]
    exact Nat.dvd_add h.aligned (placedLength_dvd rb.capacity_dvd hindex msg)

end At

/-! ## Claims in an empty ring -/

/-- **A claim in an empty ring.** The record has to fit between the tail and the end of the data
region, or, with padding up to the end, between the start of the region and the tail. -/
theorem claim_ok_iff_of_empty {rb : RingBuffer} (hempty : rb.head = rb.tail) {payloadLength : Nat}
    (hlarge : payloadLength + recordHeaderLength ≤ rb.capacity) :
    (∃ c, rb.claim payloadLength = .ok c) ↔
      alignRecord (payloadLength + recordHeaderLength) ≤
          rb.capacity - indexOf rb.capacity rb.tail ∨
        alignRecord (payloadLength + recordHeaderLength) ≤ indexOf rb.capacity rb.tail := by
  have hpos := rb.capacity_ge
  have hindex : indexOf rb.capacity rb.tail < rb.capacity :=
    lt_of_le_of_lt Nat.and_le_right (by rw [recordAlignment] at hpos; omega)
  have haligned : alignRecord (payloadLength + recordHeaderLength) ≤ rb.capacity :=
    alignRecord_le hlarge rb.capacity_dvd
  have hused : (rb.tail - rb.head).toInt = 0 := by
    rw [hempty, BitVec.sub_self]
    rfl
  simp only [claim, if_neg (Nat.not_lt.mpr hlarge), hused]
  -- the record alone always has room, so the first test for room passes
  rw [if_neg (by omega)]
  by_cases hwrap :
      rb.capacity - indexOf rb.capacity rb.tail < alignRecord (payloadLength + recordHeaderLength)
  · rw [if_pos hwrap]
    by_cases hroom : alignRecord (payloadLength + recordHeaderLength) ≤ indexOf rb.capacity rb.tail
    · rw [if_neg (by omega)]
      exact iff_of_true ⟨_, rfl⟩ (.inr hroom)
    · rw [if_pos (by omega)]
      exact iff_of_false nofun (by omega)
  · rw [if_neg hwrap]
    exact iff_of_true ⟨_, rfl⟩ (.inl (not_lt.mp hwrap))

theorem write_ok_iff (rb : RingBuffer) (msg : Message) :
    (rb.write msg).2 = .ok () ↔ ∃ c, rb.claim msg.payload.length = .ok c := by
  unfold write
  cases rb.claim msg.payload.length with
  | error e => exact iff_of_false nofun nofun
  | ok c => exact iff_of_true rfl ⟨c, rfl⟩

/-! ## What a read finds -/

/-- The region after the type words of some records were zeroed. -/
def clear (m : ByteStore) (rs : List Record) : ByteStore :=
  rs.foldl (fun m r => m.write r.address (encodeI32 0)) m

@[simp] theorem clear_cons (m : ByteStore) (r : Record) (rs : List Record) :
    clear m (r :: rs) = clear (m.write r.address (encodeI32 0)) rs := rfl

/-- Clearing leaves alone what does not meet the cleared records. -/
theorem read_clear_of_apart {m : ByteStore} {rs : List Record} {a n : Nat}
    (h : ∀ r ∈ rs, RangesApart r.address 4 a n) : (clear m rs).read a n = m.read a n := by
  induction rs generalizing m with
  | nil => rfl
  | cons r rs ih =>
      rw [clear_cons, ih fun r' hr' => h r' (List.mem_cons_of_mem r hr')]
      refine m.read_write_disjoint ?_
      rw [encodeI32_length]
      exact (h r List.mem_cons_self).symm

/-- A stored record stays stored when the type word of another one is zeroed. -/
theorem stored_clear_other {m : ByteStore} {r r' : Record} (h : RecordStored 0 4 m r)
    (hlen : recordHeaderLength ≤ r.length)
    (hapart : RangesApart r'.address 4 r.address r.length) :
    RecordStored 0 4 (m.write r'.address (encodeI32 0)) r := by
  refine h.congr (by omega) (by omega) hlen fun a n hlo hhi => m.read_write_disjoint ?_
  rw [encodeI32_length]
  exact hapart.symm.sub hlo hhi

/-- **One round of a read** at a record that it takes for what it is. -/
theorem readLoop_record {C T a fuel : Nat} {m : ByteStore} {r : Record}
    (hpow : isPowerOfTwo C = true) (hC : C < 2 ^ 63) (haddr : r.address = a % C)
    (hin : a % C + r.length ≤ C) (hlt : a < T) (hturn : T ≤ a + C) (hstored : RecordStored 0 4 m r)
    (hread : Readable r) (hzero : r.body.msgType ≠ 0) :
    readLoop C (BitVec.ofNat 64 T) (fuel + 1) m (BitVec.ofNat 64 a) =
      (readLoop C (BitVec.ofNat 64 T) fuel (m.write r.address (encodeI32 0))
        (BitVec.ofNat 64 (a + r.length))).map fun next =>
          (r.body.message?.toList ++ next.1, next.2) := by
  have hne : BitVec.ofNat 64 a ≠ BitVec.ofNat 64 T := fun heq => by
    have := (ofNat_eq_ofNat_iff (by omega) (by omega)).mp heq
    omega
  have hindex : indexOf C (BitVec.ofNat 64 a) = r.address := by
    rw [indexOf_ofNat hpow (by omega), haddr]
  have htype : m.readI32 r.address = r.body.msgType := hstored.msgType
  have hlength := readLength_eq hstored.length hread.lt
  have hnext : BitVec.ofNat 64 a + BitVec.ofNat 64 (alignRecord r.body.recordLength) =
      BitVec.ofNat 64 (a + r.length) := (BitVec.ofNat_add ..).symm
  rw [readLoop, if_neg hne]
  simp only [hindex, htype, hlength, hnext, if_neg hzero]
  cases hbody : r.body with
  | padding len =>
      rw [RecordBody.msgType_padding, if_pos rfl]
      simp
  | message msg =>
      obtain ⟨hmessage, hheader, hroom, hpayload⟩ := hstored.message hread hbody
      rw [if_neg hmessage, if_neg (by omega), hpayload]
      rfl

/-- **A whole read.** It passes the records that it takes for what they are and stops at the tail or
at a zero type word behind them. -/
theorem readLoop_laid {C T a b fuel : Nat} {m : ByteStore} {rs : List Record}
    (hpow : isPowerOfTwo C = true) (hC : C < 2 ^ 63)
    (hlaid : Laid C Record.address Record.length a rs b) (hbT : b ≤ T) (hturn : T ≤ a + C)
    (hrs : ∀ r ∈ rs, recordHeaderLength ≤ r.length ∧ RecordStored 0 4 m r ∧ Readable r ∧
      r.body.msgType ≠ 0)
    (hstop : b = T ∨ b + 4 ≤ T ∧ m.readI32 (b % C) = 0) (hfuel : rs.length < fuel) :
    readLoop C (BitVec.ofNat 64 T) fuel m (BitVec.ofNat 64 a) =
      some (messagesOf rs, clear m rs, BitVec.ofNat 64 b) := by
  induction rs generalizing a m fuel with
  | nil =>
      obtain rfl : a = b := hlaid
      obtain ⟨fuel, rfl⟩ : ∃ f, fuel = f + 1 := ⟨fuel - 1, by omega⟩
      rw [readLoop]
      by_cases heq : a = T
      · rw [if_pos (by rw [heq])]
        rfl
      · obtain ⟨h4, hzero⟩ := hstop.resolve_left heq
        rw [if_neg fun h => heq ((ofNat_eq_ofNat_iff (by omega) (by omega)).mp h)]
        simp only [indexOf_ofNat hpow (show C < 2 ^ 64 by omega), hzero, if_true]
        rfl
  | cons r rs ih =>
      obtain ⟨haddr, hpos, hin, hrest⟩ := hlaid
      obtain ⟨hlen, hstored, hread, hzero⟩ := hrs r List.mem_cons_self
      have hheader : recordHeaderLength = 8 := rfl
      have hab := hrest.le
      obtain ⟨fuel, rfl⟩ : ∃ f, fuel = f + 1 := ⟨fuel - 1, by omega⟩
      rw [readLoop_record hpow hC haddr hin (by omega) hturn hstored hread hzero]
      -- zeroing the type word leaves the records behind it and the stop alone
      have hrs' : ∀ r' ∈ rs, recordHeaderLength ≤ r'.length ∧
          RecordStored 0 4 (m.write r.address (encodeI32 0)) r' ∧ Readable r' ∧
            r'.body.msgType ≠ 0 := by
        intro r' hr'
        obtain ⟨hlen', hstored', hread'⟩ := hrs r' (List.mem_cons_of_mem r hr')
        obtain ⟨p, hlo, hhi, haddr', -, hpos'⟩ := hrest.mem hr'
        refine ⟨hlen', stored_clear_other hstored' hlen' ?_, hread'⟩
        rw [haddr, haddr']
        exact rangesApart_mod hpos' (by omega) (by omega)
      have hstop' : b = T ∨ b + 4 ≤ T ∧
          (m.write r.address (encodeI32 0)).readI32 (b % C) = 0 := by
        refine hstop.imp id fun ⟨h4, hzero⟩ => ⟨h4, ?_⟩
        rw [← hzero, ByteStore.readI32, ByteStore.readI32, m.read_write_disjoint]
        rw [encodeI32_length, haddr]
        exact (rangesApart_mod (by omega) (by omega) (by omega)).symm
      rw [ih hrest (by omega) hrs' hstop' (by simpa using hfuel)]
      cases hbody : r.body with
      | padding len => simp [messagesOf, hbody]
      | message msg => simp [messagesOf, hbody]

/-- **A read of a ring** delivers the messages of the records that it passes, zeroes their type words
and moves the head behind them. -/
theorem At.read_eq {rb : RingBuffer} {H T b : Nat} (h : At rb H T) {rs : List Record}
    (hlaid : Laid rb.capacity Record.address Record.length H rs b) (hbT : b ≤ T)
    (hrs : ∀ r ∈ rs, 32 ≤ r.length ∧ RecordStored 0 4 rb.data r ∧ Readable r ∧ r.body.msgType ≠ 0)
    (hstop : b = T ∨ b + 4 ≤ T ∧ rb.data.readI32 (b % rb.capacity) = 0) :
    rb.read = some (messagesOf rs,
      { rb with data := clear rb.data rs, head := BitVec.ofNat 64 b }) := by
  have hC := rb.capacity_lt
  have hturn := h.turn
  have hle := h.le
  unfold RingBuffer.read
  by_cases heq : rb.head = rb.tail
  · -- an empty ring has no records
    rw [h.head, h.tail, ofNat_eq_ofNat_iff hle (by omega)] at heq
    obtain rfl : b = H := by have := hlaid.le; omega
    obtain rfl := hlaid.eq_nil
    rw [if_pos (by rw [h.head, h.tail, heq]), ← h.head]
    rfl
  · have hcount := hlaid.length_mul_le fun r hr => (hrs r hr).1
    have hfuel : rs.length < rb.capacity / 32 + 1 := by omega
    have hloop := readLoop_laid rb.capacity_pow hC hlaid hbT hturn
      (fun r hr => ⟨le_trans (by decide) (hrs r hr).1, (hrs r hr).2⟩) hstop hfuel
    rw [if_neg heq, h.tail, h.head, hloop]
    rfl

end RingBuffer

end AeronRs
