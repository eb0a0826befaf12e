import AeronRs.Media.LogRecord
import AeronRs.Media.ConcurrentPublication
import AeronRs.Lib.Runs

/-! # What a publication keeps

The abstract side of a publication is a **`StreamLog`**: the records that the sender has passed, the
records that it still has to send up to the published position, and the pads behind that position.
**`Represents`** relates a publication to it: the records tile the stream up to the write cursor,
those not yet sent are stored in the partitions, and the rest of the active term is zero.

Appending and scanning always keep the relation. A rotation zeroes the partition that held the term
four back, so it keeps the relation when the sender has already left that term. -/

namespace AeronRs

namespace NetworkPublication

/-- What the frames of a publication say about their stream. -/
def ids (p : NetworkPublication) : StreamIds :=
  ⟨p.initialTermId, p.sessionId, p.streamId, p.termLength⟩

@[simp] theorem ids_termLength (p : NetworkPublication) : p.ids.termLength = p.termLength := rfl

@[simp] theorem padAndRotate_ids (p : NetworkPublication) : p.padAndRotate.ids = p.ids := by
  simp only [ids, padAndRotate_termLength]
  rfl

/-- The byte that the partitions hold at a stream position. -/
def byteAt (p : NetworkPublication) (q : Nat) : UInt8 :=
  p.rawLog.buffer (slotOf 4 p.termLength q)

/-- The number of rotations so far, modulo `2 ^ 32`. -/
def termCount (p : NetworkPublication) : Nat := (p.activeTermId - p.initialTermId).toNat

end NetworkPublication

/-! ## The write cursor -/

/-- **The write cursor of a publication** is in term `n`, and the rest of that term is zero. -/
structure AtCursor (p : NetworkPublication) (n : Nat) : Prop where
  termCount_lt : n < 2 ^ 31
  active : p.activeTermId = p.initialTermId + BitVec.ofNat 32 n
  offset_le : p.termOffset ≤ p.termLength
  offset_dvd : 32 ∣ p.termOffset
  zero : ∀ q, n * p.termLength + p.termOffset ≤ q → q < n * p.termLength + p.termLength →
    p.byteAt q = 0

/-- The pad that covers the rest of the active term, if there is a rest. -/
def padRecords (p : NetworkPublication) (n : Nat) : List LogRecord :=
  if p.termOffset < p.termLength then
    [.pad (n * p.termLength + p.termOffset) (p.termLength - p.termOffset)]
  else []

def padded (p : NetworkPublication) (n : Nat) : ByteStore :=
  if p.termOffset < p.termLength then
    p.rawLog.buffer.write (slotOf 4 p.termLength (n * p.termLength + p.termOffset))
      (RawLog.padHeader (p.termLength - p.termOffset) p.termOffset).encode
  else p.rawLog.buffer

/-- The pad changes nothing outside its own header. -/
theorem padded_of_outside {p : NetworkPublication} {n q : Nat}
    (hq : q < n * p.termLength + p.termLength) (hwin : n * p.termLength ≤ q + 3 * p.termLength)
    (hout : q < n * p.termLength + p.termOffset ∨ n * p.termLength + p.termOffset + 32 ≤ q)
    (hdvd : 32 ∣ p.termOffset) :
    padded p n (slotOf 4 p.termLength q) = p.byteAt q := by
  unfold padded
  split_ifs with hroom
  · have hT : 32 ∣ p.termLength := p.rawLog.termLength_dvd
    have hmod := (term_offset_of_lt n hroom).2
    have hlen := DataHeader.encode_length
      (RawLog.padHeader (p.termLength - p.termOffset) p.termOffset)
    exact ByteStore.write_slotOf_of_outside _ (by rw [hlen, hmod]; omega) (by rwa [hlen])
      (by rw [hlen]; omega) (by omega)
  · rfl

namespace AtCursor

variable {p : NetworkPublication} {n : Nat} {payload : List UInt8}

theorem termCount_eq (h : AtCursor p n) : p.termCount = n := by
  have hlt := h.termCount_lt
  rw [NetworkPublication.termCount, h.active, BitVec.add_comm, BitVec.add_sub_cancel,
    BitVec.toNat_ofNat, Nat.mod_eq_of_lt (by omega)]

theorem partition_eq (h : AtCursor p n) :
    partitionIndex p.activeTermId p.initialTermId = n % 4 := by
  rw [h.active, partitionIndex_add]

theorem base_eq (h : AtCursor p n) (hroom : p.termOffset < p.termLength) :
    partitionIndex p.activeTermId p.initialTermId * p.termLength + p.termOffset =
      slotOf 4 p.termLength (n * p.termLength + p.termOffset) := by
  rw [h.partition_eq, slotOf_term 4 _ _ hroom]

/-! ### Appending -/

/-- An offer of realistic size that fits moves the offset by the aligned frame. -/
theorem offsetAfter_eq (h : AtCursor p n)
    (hsize : alignFrameLength (32 + payload.length) < 2 ^ 31) :
    p.offsetAfter payload = p.termOffset + alignFrameLength (32 + payload.length) := by
  have hT : p.termLength ≤ 2 ^ 31 := p.rawLog.termLength_le
  have := h.offset_le
  rw [NetworkPublication.offsetAfter, Nat.mod_eq_of_lt (by omega)]

/-- A frame that is appended ends within the term. -/
theorem offsetAfter_le (hfit : ¬ p.Rotates payload) (hadmits : p.Admits payload) :
    p.offsetAfter payload ≤ p.termLength := by
  by_contra hlt
  exact hfit ⟨hadmits, by omega⟩

theorem data_fits (h : AtCursor p n) (hsize : alignFrameLength (32 + payload.length) < 2 ^ 31)
    (hfit : ¬ p.Rotates payload) (hadmits : p.Admits payload) :
    p.termOffset < p.termLength ∧
      (LogRecord.data (n * p.termLength + p.termOffset) payload).Fits p.termLength := by
  have hle := le_alignFrameLength (32 + payload.length)
  have hoff := h.offsetAfter_eq hsize
  have hin := offsetAfter_le hfit hadmits
  have hroom : p.termOffset < p.termLength := by omega
  have hmod := (term_offset_of_lt n hroom).2
  refine ⟨hroom, ?_, Nat.le_add_right 32 _, ?_⟩
  · simp only [LogRecord.start, LogRecord.length, LogRecord.frameLength, hmod]
    omega
  · simp only [LogRecord.frameLength]
    omega

theorem append_buffer (h : AtCursor p n) (hroom : p.termOffset < p.termLength) :
    (p.append payload).rawLog.buffer = p.rawLog.buffer.write
      (slotOf 4 p.termLength (n * p.termLength + p.termOffset))
      ((LogRecord.data (n * p.termLength + p.termOffset) payload).frame p.ids) := by
  have hheader : p.dataHeader payload.length =
      (LogRecord.data (n * p.termLength + p.termOffset) payload).header p.ids := by
    obtain ⟨hdiv, hmod⟩ := term_offset_of_lt n hroom
    simp only [NetworkPublication.dataHeader, LogRecord.header, NetworkPublication.ids, hmod, hdiv,
      h.active]
  have hw := ByteStore.write_write_append p.rawLog.buffer
    (slotOf 4 p.termLength (n * p.termLength + p.termOffset))
    (p.dataHeader payload.length).encode payload
  rw [DataHeader.encode_length] at hw
  rw [LogRecord.frame, ← hheader, LogRecord.body, ← hw, ← h.base_eq hroom]
  rfl

/-- **An append keeps what is stored at other positions of the last four terms.** -/
theorem append_byteAt (h : AtCursor p n) (hsize : alignFrameLength (32 + payload.length) < 2 ^ 31)
    (hfit : ¬ p.Rotates payload) (hadmits : p.Admits payload) {q : Nat}
    (hlo : n * p.termLength ≤ q + 3 * p.termLength) (hhi : q < n * p.termLength + p.termLength)
    (hout : q < n * p.termLength + p.termOffset ∨
      n * p.termLength + p.termOffset + (32 + payload.length) ≤ q) :
    (p.append payload).byteAt q = p.byteAt q := by
  have hle := le_alignFrameLength (32 + payload.length)
  have hoff := h.offsetAfter_eq hsize
  have hin := offsetAfter_le hfit hadmits
  have hroom := (h.data_fits hsize hfit hadmits).1
  have hlen : ((LogRecord.data (n * p.termLength + p.termOffset) payload).frame p.ids).length =
      32 + payload.length := LogRecord.frame_length p.ids (Nat.le_add_right 32 _)
  rw [NetworkPublication.byteAt, h.append_buffer hroom]
  have hmod := (term_offset_of_lt n hroom).2
  exact ByteStore.write_slotOf_of_outside _ (by rw [hlen, hmod]; omega) (by rw [hlen]; exact hout)
    (by rw [hlen]; omega) (by omega)

theorem append_stored (h : AtCursor p n) (hroom : p.termOffset < p.termLength) :
    (LogRecord.data (n * p.termLength + p.termOffset) payload).Stored p.ids
      (p.append payload).rawLog.buffer := by
  have hread := ByteStore.read_write_same p.rawLog.buffer
    (slotOf 4 p.termLength (n * p.termLength + p.termOffset))
    ((LogRecord.data (n * p.termLength + p.termOffset) payload).frame p.ids)
  rw [LogRecord.frame_length p.ids (Nat.le_add_right 32 _), ← h.append_buffer hroom] at hread
  exact hread

theorem append_pubPosition (h : AtCursor p n)
    (hsize : alignFrameLength (32 + payload.length) < 2 ^ 31) :
    (p.append payload).pubPosition = ((n * p.termLength + p.termOffset +
      alignFrameLength (32 + payload.length) : Nat) : Int) := by
  rw [NetworkPublication.append, NetworkPublication.computePosition, h.active,
    toInt_add_sub_base _ h.termCount_lt, h.offsetAfter_eq hsize]
  push_cast
  ring

theorem append (h : AtCursor p n) (hsize : alignFrameLength (32 + payload.length) < 2 ^ 31)
    (hfit : ¬ p.Rotates payload) (hadmits : p.Admits payload) : AtCursor (p.append payload) n := by
  have hoff := h.offsetAfter_eq hsize
  have hle := le_alignFrameLength (32 + payload.length)
  refine ⟨h.termCount_lt, h.active, offsetAfter_le hfit hadmits, ?_, fun q hlo hhi => ?_⟩
  · rw [show (p.append payload).termOffset = _ from hoff]
    exact Nat.dvd_add h.offset_dvd (alignFrameLength_dvd _)
  · have hlo' : n * p.termLength + p.offsetAfter payload ≤ q := hlo
    rw [h.append_byteAt hsize hfit hadmits (by omega) hhi (Or.inr (by omega))]
    exact h.zero q (by omega) hhi

/-! ### Rotating -/

/-- **A rotation** writes the pad and zeroes the partition of the next term. -/
theorem padAndRotate_buffer (h : AtCursor p n) :
    p.padAndRotate.rawLog.buffer =
      (padded p n).fill ((n + 1) % 4 * p.termLength) p.termLength := by
  have hnext : partitionIndex (p.activeTermId + 1) p.initialTermId = (n + 1) % 4 := by
    rw [h.active, BitVec.add_assoc, ← partitionIndex_add p.initialTermId (n + 1), BitVec.ofNat_add]
    rfl
  have hidx : ¬ partitionCount ≤ (n + 1) % 4 := by rw [partitionCount]; omega
  have hidx' : ¬ partitionCount ≤ n % 4 := by rw [partitionCount]; omega
  have hheader : dataHeaderLength = 32 := rfl
  have hT : p.rawLog.termLength = p.termLength := rfl
  have hdvd := p.rawLog.termLength_dvd
  have hoff := h.offset_dvd
  have hpad : (p.rawLog.writePadFrame (n % 4) p.termOffset).buffer = padded p n := by
    unfold RawLog.writePadFrame padded
    rw [if_neg hidx']
    by_cases hroom : p.termOffset < p.termLength
    · rw [if_neg (by omega), if_neg (by omega), if_pos hroom, slotOf_term 4 _ _ hroom]
      rfl
    · rw [if_pos (by omega), if_neg hroom]
  unfold NetworkPublication.padAndRotate NetworkPublication.rotateTerm RawLog.cleanPartition
  simp only [hnext, h.partition_eq, if_neg hidx, RawLog.withBuffer_buffer, hpad,
    RawLog.writePadFrame_termLength, hT]

/-- Zeroing the next term's partition leaves the active term and the two before it alone. -/
theorem padAndRotate_byteAt (h : AtCursor p n) {q : Nat}
    (hlo : n * p.termLength ≤ q + 2 * p.termLength) (hhi : q < n * p.termLength + p.termLength) :
    p.padAndRotate.byteAt q = padded p n (slotOf 4 p.termLength q) := by
  have hsucc : (n + 1) * p.termLength = n * p.termLength + p.termLength := Nat.succ_mul _ _
  have hbuf : p.padAndRotate.byteAt q =
      (padded p n).fill ((n + 1) % 4 * p.termLength) p.termLength (slotOf 4 p.termLength q) := by
    rw [← h.padAndRotate_buffer, NetworkPublication.byteAt, p.padAndRotate_termLength]
  rw [hbuf, ByteStore.fill_slotOf_of_outside _ (Or.inl (by omega)) (by omega) (by omega)]

/-- The pad record is stored where the pad was written: its body is what was zero already. -/
theorem padded_stored (h : AtCursor p n) (hroom : p.termOffset < p.termLength) :
    (LogRecord.pad (n * p.termLength + p.termOffset) (p.termLength - p.termOffset)).Stored p.ids
      (padded p n) := by
  have hT : 32 ∣ p.termLength := p.rawLog.termLength_dvd
  have hdvd := h.offset_dvd
  obtain ⟨d, hd⟩ : ∃ d, p.termLength - p.termOffset = 32 + d := ⟨_, (Nat.add_sub_of_le (by omega)).symm⟩
  have hmod := (term_offset_of_lt n hroom).2
  rw [LogRecord.Stored, LogRecord.frameLength, LogRecord.start, hd, ByteStore.read_append,
    LogRecord.frame, LogRecord.header, LogRecord.body, p.ids_termLength, hmod]
  congr 1
  · have hread := ByteStore.read_write_same p.rawLog.buffer
      (slotOf 4 p.termLength (n * p.termLength + p.termOffset))
      (RawLog.padHeader (p.termLength - p.termOffset) p.termOffset).encode
    rw [DataHeader.encode_length, hd] at hread
    rw [padded, if_pos hroom, hd, hread]
  · rw [Nat.add_sub_cancel_left, ByteStore.read, List.eq_replicate_iff]
    refine ⟨by simp, fun b hb => ?_⟩
    obtain ⟨i, hi, rfl⟩ := List.mem_map.mp hb
    have hi' : i < d := List.mem_range.mp hi
    have haddr : slotOf 4 p.termLength (n * p.termLength + p.termOffset) + 32 + i =
        slotOf 4 p.termLength (n * p.termLength + p.termOffset + (32 + i)) := by
      rw [slotOf_add 4 _ _ (32 + i) (by omega), Nat.add_assoc]
    rw [haddr, padded_of_outside (by omega) (by omega) (Or.inr (by omega)) hdvd]
    exact h.zero _ (by omega) (by omega)

theorem tiles_padRecords (h : AtCursor p n) (hpad : p.termLength - p.termOffset < 2 ^ 31) :
    Tiles p.termLength (n * p.termLength + p.termOffset) (padRecords p n)
      (n * p.termLength + p.termLength) := by
  have hT : 32 ∣ p.termLength := p.rawLog.termLength_dvd
  have hdvd := h.offset_dvd
  have hoff := h.offset_le
  unfold padRecords
  split_ifs with hroom
  · have hmod := (term_offset_of_lt n hroom).2
    have hlen : (LogRecord.pad (n * p.termLength + p.termOffset)
        (p.termLength - p.termOffset)).length = p.termLength - p.termOffset :=
      alignFrameLength_of_dvd (Nat.dvd_sub hT hdvd)
    refine ⟨rfl, ⟨?_, ?_, hpad⟩, ?_⟩
    · rw [hlen, LogRecord.start, hmod]
      omega
    · rw [LogRecord.frameLength]
      omega
    · rw [hlen, tiles_nil]
      omega
  · rw [tiles_nil]
    omega

/-- **A record of the active term or one of the two before it is still stored after a rotation**, and
so is the pad. -/
theorem padAndRotate_stored (h : AtCursor p n) {r : LogRecord} (hf : r.Fits p.termLength)
    (hold : r ∈ padRecords p n ∨ r.Stored p.ids p.rawLog.buffer ∧
      r.start + r.length ≤ n * p.termLength + p.termOffset)
    (hlo : n * p.termLength ≤ r.start + 2 * p.termLength)
    (hhi : r.start + r.length ≤ n * p.termLength + p.termLength) :
    r.Stored p.padAndRotate.ids p.padAndRotate.rawLog.buffer := by
  rw [p.padAndRotate_ids]
  have hpadded : r.Stored p.ids (padded p n) := by
    rcases hold with hnew | ⟨hstored, hend⟩
    · unfold padRecords at hnew
      split_ifs at hnew with hroom
      · obtain rfl := List.mem_singleton.mp hnew
        exact h.padded_stored hroom
      · exact absurd hnew List.not_mem_nil
    · exact hstored.congr hf fun q hq₁ hq₂ =>
        padded_of_outside (by omega) (by omega) (Or.inl (by omega)) h.offset_dvd
  refine hpadded.congr hf fun q hq₁ hq₂ => ?_
  have hbyte := h.padAndRotate_byteAt (q := q) (by omega) (by omega)
  rwa [NetworkPublication.byteAt, p.padAndRotate_termLength] at hbyte

/-- A rotation moves the cursor to the beginning of the next term. -/
theorem padAndRotate (h : AtCursor p n) (hnext : n + 1 < 2 ^ 31) :
    AtCursor p.padAndRotate (n + 1) := by
  refine ⟨hnext, ?_, Nat.zero_le _, Nat.dvd_zero _, fun q hlo hhi => ?_⟩
  · rw [show p.padAndRotate.activeTermId = p.activeTermId + 1 from rfl, h.active,
      BitVec.add_assoc, BitVec.ofNat_add]
    rfl
  · rw [p.padAndRotate_termLength] at hlo hhi
    rw [NetworkPublication.byteAt, h.padAndRotate_buffer, p.padAndRotate_termLength]
    obtain ⟨i, hi⟩ := Nat.exists_eq_add_of_le (le_trans (Nat.le_add_right _ _) hlo)
    rw [hi, slotOf_term 4 _ _ (by omega)]
    exact ByteStore.fill_of_inside _ _ _ (by omega) (by omega)

end AtCursor

theorem atCursor_new {sessionId streamId initialTermId : BitVec 32} {termLength mtu : Nat}
    {p : NetworkPublication}
    (h : NetworkPublication.new sessionId streamId initialTermId termLength mtu = some p) :
    AtCursor p 0 ∧ p.termOffset = 0 ∧ p.senderPosition = 0 ∧ p.pubPosition = 0 := by
  unfold NetworkPublication.new RawLog.new at h
  split_ifs at h
  · obtain rfl := Option.some.inj h
    exact ⟨⟨by norm_num, by simp, Nat.zero_le _, Nat.dvd_zero _, fun _ _ _ => rfl⟩, rfl, rfl, rfl⟩
  · simp at h

/-! ## The stream of a publication -/

/-- **The stream of a publication**: records sent, records still to send up to the published
position, and pads behind it. -/
structure StreamLog where
  sent : List LogRecord
  pending : List LogRecord
  tail : List LogRecord

/-- **Representation.** A publication in term `n` with sender position `s` and published position
`e` holds the stream log `l`. -/
structure Represents (p : NetworkPublication) (l : StreamLog) (n s e : Nat) : Prop where
  termCount_lt : n < 2 ^ 31
  active : p.activeTermId = p.initialTermId + BitVec.ofNat 32 n
  offset_le : p.termOffset ≤ p.termLength
  offset_dvd : 32 ∣ p.termOffset
  sender : p.senderPosition = s
  pub : p.pubPosition = e
  tiles_sent : Tiles p.termLength 0 l.sent s
  tiles_pending : Tiles p.termLength s l.pending e
  tiles_tail : Tiles p.termLength e l.tail (n * p.termLength + p.termOffset)
  tail_pads : ∀ r ∈ l.tail, r.isData = false
  window : n * p.termLength ≤ s + 3 * p.termLength
  stored : ∀ r ∈ l.pending ++ l.tail, r.Stored p.ids p.rawLog.buffer
  zero : ∀ q, n * p.termLength + p.termOffset ≤ q → q < n * p.termLength + p.termLength →
    p.byteAt q = 0

namespace Represents

variable {p : NetworkPublication} {l : StreamLog} {n s e : Nat} {payload : List UInt8}

theorem atCursor (h : Represents p l n s e) : AtCursor p n :=
  ⟨h.termCount_lt, h.active, h.offset_le, h.offset_dvd, h.zero⟩

theorem le (h : Represents p l n s e) : s ≤ e ∧ e ≤ n * p.termLength + p.termOffset := by
  have h₁ := h.tiles_pending.eq_add_total
  have h₂ := h.tiles_tail.eq_add_total
  omega

theorem tiles_unsent (h : Represents p l n s e) :
    Tiles p.termLength s (l.pending ++ l.tail) (n * p.termLength + p.termOffset) :=
  tiles_append.mpr ⟨e, h.tiles_pending, h.tiles_tail⟩

end Represents

theorem represents_new {sessionId streamId initialTermId : BitVec 32} {termLength mtu : Nat}
    {p : NetworkPublication}
    (h : NetworkPublication.new sessionId streamId initialTermId termLength mtu = some p) :
    Represents p ⟨[], [], []⟩ 0 0 0 := by
  obtain ⟨hcursor, hoffset, hsender, hpub⟩ := atCursor_new h
  exact ⟨hcursor.termCount_lt, hcursor.active, hcursor.offset_le, hcursor.offset_dvd, hsender, hpub,
    rfl, rfl, by rw [tiles_nil, hoffset, Nat.zero_mul], by simp, by omega, by simp, hcursor.zero⟩

section Offer

variable {p : NetworkPublication} {l : StreamLog} {n s e : Nat} {payload : List UInt8}

/-- **An append extends the stream.** What was pending, the pads behind it and the new record are
now pending. -/
theorem Represents.append (h : Represents p l n s e)
    (hsize : alignFrameLength (32 + payload.length) < 2 ^ 31) (hfit : ¬ p.Rotates payload)
    (hadmits : p.Admits payload) :
    Represents (p.append payload)
      ⟨l.sent, l.pending ++ l.tail ++ [.data (n * p.termLength + p.termOffset) payload], []⟩ n s
      (n * p.termLength + p.termOffset + alignFrameLength (32 + payload.length)) := by
  have hoff := h.atCursor.offsetAfter_eq hsize
  have hwin := h.window
  obtain ⟨hroom, hfits⟩ := h.atCursor.data_fits hsize hfit hadmits
  obtain ⟨hcount, hactive, hle, hdvd, hzero⟩ := h.atCursor.append hsize hfit hadmits
  refine ⟨hcount, hactive, hle, hdvd, h.sender, h.atCursor.append_pubPosition hsize, h.tiles_sent,
    tiles_append.mpr ⟨_, h.tiles_unsent, rfl, hfits, rfl⟩, ?_, by simp, h.window, ?_, hzero⟩
  · rw [tiles_nil, show (p.append payload).termOffset = _ from hoff, Nat.add_assoc]
    rfl
  · rw [List.append_nil]
    intro r hr
    rcases List.mem_append.mp hr with hold | hnew
    · obtain ⟨hf, hlo, hhi⟩ := h.tiles_unsent.mem hold
      exact (h.stored r hold).congr hf fun q hq₁ hq₂ =>
        h.atCursor.append_byteAt hsize hfit hadmits (by omega) (by omega) (Or.inl (by omega))
    · obtain rfl := List.mem_singleton.mp hnew
      exact h.atCursor.append_stored hroom

/-- **A rotation keeps the stream** when the sender is within two terms of the active term: the pads
grow by the rest of the term, and the next term is empty. -/
theorem Represents.padAndRotate (h : Represents p l n s e) (hnext : n + 1 < 2 ^ 31)
    (hclear : n * p.termLength ≤ s + 2 * p.termLength)
    (hpad : p.termLength - p.termOffset < 2 ^ 31) :
    Represents p.padAndRotate ⟨l.sent, l.pending, l.tail ++ padRecords p n⟩ (n + 1) s e := by
  have hsucc : (n + 1) * p.termLength = n * p.termLength + p.termLength := Nat.succ_mul _ _
  have htiles := h.atCursor.tiles_padRecords hpad
  obtain ⟨hcount, hactive, hle, hdvd, hzero⟩ := h.atCursor.padAndRotate hnext
  refine ⟨hcount, hactive, hle, hdvd, h.sender, h.pub, ?_, ?_, ?_, fun r hr => ?_, ?_, fun r hr => ?_,
    hzero⟩
  · rw [p.padAndRotate_termLength]
    exact h.tiles_sent
  · rw [p.padAndRotate_termLength]
    exact h.tiles_pending
  · rw [p.padAndRotate_termLength, hsucc]
    exact tiles_append.mpr ⟨_, h.tiles_tail, htiles⟩
  · rcases List.mem_append.mp hr with hold | hnew
    · exact h.tail_pads r hold
    · unfold padRecords at hnew
      split_ifs at hnew
      · obtain rfl := List.mem_singleton.mp hnew
        rfl
      · exact absurd hnew List.not_mem_nil
  · rw [p.padAndRotate_termLength]
    omega
  · -- the partition that is zeroed held the term four before the next, all of which is sent
    rw [← List.append_assoc] at hr
    obtain ⟨hf, hlo, hhi⟩ := (tiles_append.mpr ⟨_, h.tiles_unsent, htiles⟩).mem hr
    refine h.atCursor.padAndRotate_stored hf ?_ (by omega) hhi
    rcases List.mem_append.mp hr with hold | hnew
    · exact .inr ⟨h.stored r hold, (h.tiles_unsent.mem hold).2.2⟩
    · exact .inl hnew

end Offer

/-! ## Scanning -/

section Scan

theorem Tiles.start_lt_of_taken {T a b budget : Nat} {rs : List LogRecord} (h : Tiles T a rs b)
    {r : LogRecord} (hr : r ∈ takeBudget LogRecord.length budget rs) : r.start < a + budget := by
  rw [h.takeBudget_eq_filter] at hr
  simpa using (List.mem_filter.mp hr).2

theorem NetworkPublication.sender_place {p : NetworkPublication} {s : Nat}
    (hs : p.senderPosition = s) :
    p.senderTermOffset = s % p.termLength ∧
      partitionIndex p.senderTermId p.initialTermId = s / p.termLength % 4 := by
  obtain ⟨k, hk, hle, -⟩ := p.rawLog.exists_termLength
  have hT : p.termLength = 2 ^ k := hk
  constructor
  · rw [senderTermOffset, termLengthMask, hs, hT, landI64_natCast s k (by omega)]
  · rw [senderTermId, positionBitsToShift, hs, hT, trailingZeros_two_pow (by omega),
      natCast_shiftRight, BitVec.ofInt_natCast, partitionIndex_add]

/-- The scan of a publication whose sender is at stream position `s` reads the partition of that
position's term. -/
theorem NetworkPublication.senderScan_eq {p : NetworkPublication} {s : Nat}
    (hs : p.senderPosition = s) (limit : Nat) :
    p.senderTermOffset = s % p.termLength ∧
    p.senderScan limit =
      ({ p with senderPosition := (s : Int) + (scanLoop p.rawLog.buffer
          (s / p.termLength % 4 * p.termLength) p.termLength
          (min limit (p.termLength - s % p.termLength)) p.termLength (s % p.termLength) 0).2 },
        scanLoop p.rawLog.buffer (s / p.termLength % 4 * p.termLength) p.termLength
          (min limit (p.termLength - s % p.termLength)) p.termLength (s % p.termLength) 0) := by
  obtain ⟨hoff, hidx⟩ := sender_place hs
  have hlt : ¬ partitionCount ≤ s / p.termLength % 4 := by rw [partitionCount]; omega
  have hmin : (if limit < p.termLength - s % p.termLength then limit
      else p.termLength - s % p.termLength) = min limit (p.termLength - s % p.termLength) := by
    split_ifs <;> omega
  refine ⟨hoff, ?_⟩
  unfold senderScan RawLog.scanFrames
  simp only [hoff, hidx, hmin, if_neg hlt, hs]
  rfl

/-- **The sender moves on** over the first of its pending records. -/
theorem Represents.advance {p : NetworkPublication} {l : StreamLog} {n s e : Nat}
    (h : Represents p l n s e) {taken rest : List LogRecord} (hpending : l.pending = taken ++ rest) :
    Represents { p with senderPosition := (s : Int) + total LogRecord.length taken }
      ⟨l.sent ++ taken, rest, l.tail⟩ n (s + total LogRecord.length taken) e := by
  have htiles := h.tiles_pending
  rw [hpending] at htiles
  obtain ⟨b, htiles_taken, htiles_rest⟩ := tiles_append.mp htiles
  obtain rfl := htiles_taken.eq_add_total
  exact
    { termCount_lt := h.termCount_lt
      active := h.active
      offset_le := h.offset_le
      offset_dvd := h.offset_dvd
      sender := by push_cast; rfl
      pub := h.pub
      tiles_sent := tiles_append.mpr ⟨s, h.tiles_sent, htiles_taken⟩
      tiles_pending := htiles_rest
      tiles_tail := h.tiles_tail
      tail_pads := h.tail_pads
      window := le_trans h.window (by
        show s + 3 * p.termLength ≤ s + _ + 3 * p.termLength
        omega)
      stored := fun r hr => h.stored r (by
        rw [hpending, List.append_assoc]
        exact List.mem_append_right _ hr)
      zero := h.zero }

/-- **A scan moves records from pending to sent**: those of the sender's term that start below the
limit. -/
theorem Represents.senderScan {p : NetworkPublication} {l : StreamLog} {n s e : Nat}
    (h : Represents p l n s e) {limit : Nat} (hlimit : limit ≤ e - s) :
    ∃ taken rest, l.pending = taken ++ rest ∧
      (∀ r ∈ taken, r.start / p.termLength = s / p.termLength) ∧
      (p.senderScan limit).2.1 = taken.map (fun r => (r.start % p.termLength, r.frame p.ids)) ∧
      Represents (p.senderScan limit).1 ⟨l.sent ++ taken, rest, l.tail⟩ n
        (s + total LogRecord.length taken) e := by
  have hpos : 0 < p.termLength := p.rawLog.termLength_pos
  have hmod := Nat.mod_lt s hpos
  have hsplit : s / p.termLength * p.termLength + s % p.termLength = s := Nat.div_add_mod' s _
  set budget := min limit (p.termLength - s % p.termLength) with hbudget
  obtain ⟨rest, hpending, -⟩ := takeBudget_split LogRecord.length budget l.pending
  set taken := takeBudget LogRecord.length budget l.pending with htaken
  have hscan : scanLoop p.rawLog.buffer (s / p.termLength % 4 * p.termLength) p.termLength budget
      p.termLength (s % p.termLength) 0 =
      (taken.map (fun r => (r.start % p.termLength, r.frame p.ids)),
        total LogRecord.length taken) := by
    have hstart : Tiles p.ids.termLength (s / p.termLength * p.ids.termLength + s % p.termLength)
        l.pending e := by
      rw [p.ids_termLength, hsplit]
      exact h.tiles_pending
    have hloop : scanLoop p.rawLog.buffer (s / p.termLength % 4 * p.ids.termLength)
        p.ids.termLength budget p.termLength (s % p.termLength) 0 = _ :=
      scanLoop_stored hstart (fun r hr => h.stored r (List.mem_append_left _ hr))
        (by rw [p.ids_termLength]; omega) (by rw [p.ids_termLength]; omega)
        (by rw [p.ids_termLength]; omega)
    simpa using hloop
  have heq := (NetworkPublication.senderScan_eq h.sender limit).2
  rw [← hbudget, hscan] at heq
  obtain ⟨b, htiles_taken, -⟩ := tiles_append.mp (hpending ▸ h.tiles_pending)
  refine ⟨taken, rest, hpending, fun r hr => ?_, by rw [heq], by rw [heq]; exact h.advance hpending⟩
  -- a taken record starts between the sender's position and the end of its term
  have hlt := h.tiles_pending.start_lt_of_taken hr
  obtain ⟨-, hge, -⟩ := htiles_taken.mem hr
  exact Nat.div_eq_of_lt_le (by omega) (by rw [Nat.succ_mul]; omega)

end Scan

end AeronRs
