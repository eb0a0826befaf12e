import AeronRs.Frame
import AeronRs.Lib.Budget
import AeronRs.Lib.MachineInt

/-! # Term buffers

The raw log of `term_buffer.rs`: one buffer of four equal partitions, each holding one term. A frame
starts at a 32-byte aligned offset of its partition, its first word is its length, and a zero word
means that nothing is committed there.

The scan loop is cut in two: **`frameAt`** is the decision at one position (is a frame committed
here, and how long is it), **`scanLoop`** walks by it. `scanLoop_eq_takeBudget` is the one fact that
later modules use of a scan: it takes, from the frames that **`walk`** lists, those that start below
the byte limit. -/

namespace AeronRs

def partitionCount : Nat := 4

def alignFrameLength (len : Nat) : Nat := (len + 31) / 32 * 32

theorem le_alignFrameLength (len : Nat) : len ≤ alignFrameLength len := by
  rw [alignFrameLength]; omega

theorem alignFrameLength_dvd (len : Nat) : 32 ∣ alignFrameLength len := Nat.dvd_mul_left 32 _

theorem alignFrameLength_of_dvd {len : Nat} (h : 32 ∣ len) : alignFrameLength len = len := by
  rw [alignFrameLength]; omega

def partitionIndex (termId initialTermId : BitVec 32) : Nat := (termId - initialTermId).toNat &&& 3

/-- The `n`-th term after the initial one lies in partition `n % 4`. -/
theorem partitionIndex_add (i : BitVec 32) (n : Nat) :
    partitionIndex (i + BitVec.ofNat 32 n) i = n % 4 := by
  have hsub : i + BitVec.ofNat 32 n - i = BitVec.ofNat 32 n := by
    rw [BitVec.add_comm, BitVec.add_sub_cancel]
  rw [partitionIndex, hsub, BitVec.toNat_ofNat, show (3 : Nat) = 2 ^ 2 - 1 by norm_num,
    Nat.and_two_pow_sub_one_eq_mod]
  omega

theorem partitionIndex_add_ofInt (i : BitVec 32) (z : Int) :
    partitionIndex (i + BitVec.ofInt 32 z) i = (z % 4).toNat := by
  have hword : BitVec.ofInt 32 z = BitVec.ofNat 32 (z % 2 ^ 32).toNat := by
    apply BitVec.eq_of_toNat_eq
    rw [BitVec.toNat_ofInt, BitVec.toNat_ofNat]
    omega
  rw [hword, partitionIndex_add]
  omega

theorem partitionIndex_lt (t i : BitVec 32) : partitionIndex t i < partitionCount := by
  rw [partitionIndex, show (3 : Nat) = 2 ^ 2 - 1 by norm_num, Nat.and_two_pow_sub_one_eq_mod]
  exact Nat.mod_lt _ (by norm_num)

inductive AppendError
  | termFull
  | invalidPartition
  deriving DecidableEq, Repr

/-- `RawLog` and `SharedLogBuffer`: the bytes of four partitions of a term length that the
constructor has accepted. -/
structure RawLog where
  buffer : ByteStore
  termLength : Nat
  termLength_ge : 32 ≤ termLength
  termLength_lt : termLength < 2 ^ 32
  termLength_pow : isPowerOfTwo termLength = true

namespace RawLog

/-- `RawLog::new` and `SharedLogBuffer::new`, for a `u32` term length. -/
def new (termLength : Nat) : Option RawLog :=
  if h : 32 ≤ termLength ∧ termLength < 2 ^ 32 ∧ isPowerOfTwo termLength = true then
    some ⟨fun _ => 0, termLength, h.1, h.2.1, h.2.2⟩
  else none

def withBuffer (log : RawLog) (m : ByteStore) : RawLog := { log with buffer := m }

def of128 (buffer : ByteStore) : RawLog := ⟨buffer, 128, by decide, by decide, by decide⟩

@[simp] theorem withBuffer_buffer (log : RawLog) (m : ByteStore) :
    (log.withBuffer m).buffer = m := rfl

/-- An accepted term length is a power of two that 32 divides, at most `2 ^ 31`. -/
theorem exists_termLength (log : RawLog) :
    ∃ k, log.termLength = 2 ^ k ∧ k ≤ 31 ∧ 32 ∣ log.termLength := by
  obtain ⟨k, hk⟩ := exists_of_isPowerOfTwo log.termLength_pow
  have hlo : 5 ≤ k := by
    by_contra hlt
    have := Nat.pow_lt_pow_right (show 1 < 2 by norm_num) (show k < 5 by omega)
    have := log.termLength_ge
    omega
  have hhi : k < 32 := by
    rw [← Nat.pow_lt_pow_iff_right (show 1 < 2 by norm_num), ← hk]
    exact log.termLength_lt
  refine ⟨k, hk, by omega, ?_⟩
  rw [hk, show (32 : Nat) = 2 ^ 5 by norm_num]
  exact Nat.pow_dvd_pow 2 hlo

theorem termLength_pos (log : RawLog) : 0 < log.termLength := by
  have := log.termLength_ge; omega

theorem termLength_dvd (log : RawLog) : 32 ∣ log.termLength := by
  obtain ⟨k, -, -, h⟩ := log.exists_termLength
  exact h

theorem termLength_le (log : RawLog) : log.termLength ≤ 2 ^ 31 := by
  obtain ⟨k, hk, hle, -⟩ := log.exists_termLength
  rw [hk]
  exact Nat.pow_le_pow_right (by norm_num) hle

/-- `append_frame`. The sum `term_offset + aligned_len as u32` is a wrapping one. -/
def appendFrame (log : RawLog) (partitionIdx termOffset : Nat) (header : DataHeader)
    (payload : List UInt8) : Except AppendError (RawLog × Nat) :=
  if partitionCount ≤ partitionIdx then .error .invalidPartition
  else
    let newOffset := (termOffset + alignFrameLength (32 + payload.length)) % 2 ^ 32
    if log.termLength < newOffset then .error .termFull
    else
      let base := partitionIdx * log.termLength + termOffset
      .ok (log.withBuffer ((log.buffer.write base header.encode).write (base + 32) payload),
        newOffset)

theorem appendFrame_of_full (log : RawLog) {partitionIdx termOffset : Nat} (header : DataHeader)
    {payload : List UInt8} (hidx : partitionIdx < partitionCount)
    (h : log.termLength < (termOffset + alignFrameLength (32 + payload.length)) % 2 ^ 32) :
    log.appendFrame partitionIdx termOffset header payload = .error .termFull := by
  rw [appendFrame, if_neg (by omega)]
  simp only [if_pos h]

theorem appendFrame_of_fits (log : RawLog) {partitionIdx termOffset : Nat} (header : DataHeader)
    {payload : List UInt8} (hidx : partitionIdx < partitionCount)
    (h : ¬ log.termLength < (termOffset + alignFrameLength (32 + payload.length)) % 2 ^ 32) :
    log.appendFrame partitionIdx termOffset header payload =
      .ok (log.withBuffer ((log.buffer.write (partitionIdx * log.termLength + termOffset)
        header.encode).write (partitionIdx * log.termLength + termOffset + 32) payload),
        (termOffset + alignFrameLength (32 + payload.length)) % 2 ^ 32) := by
  rw [appendFrame, if_neg (by omega)]
  simp only [if_neg h]

def cleanPartition (log : RawLog) (partitionIdx : Nat) : RawLog :=
  if partitionCount ≤ partitionIdx then log
  else log.withBuffer (log.buffer.fill (partitionIdx * log.termLength) log.termLength)

@[simp] theorem cleanPartition_termLength (log : RawLog) (partitionIdx : Nat) :
    (log.cleanPartition partitionIdx).termLength = log.termLength := by
  unfold cleanPartition
  split_ifs <;> rfl

/-- The header that covers the unused tail of a term. -/
def padHeader (remaining termOffset : Nat) : DataHeader where
  frameHeader := ⟨BitVec.ofNat 32 remaining, currentVersion, 0, frameTypePad⟩
  termOffset := BitVec.ofNat 32 termOffset
  sessionId := 0
  streamId := 0
  termId := 0
  reservedValue := 0

def writePadFrame (log : RawLog) (partitionIdx termOffset : Nat) : RawLog :=
  if partitionCount ≤ partitionIdx then log
  else if log.termLength ≤ termOffset then log
  else if log.termLength - termOffset < dataHeaderLength then log
  else
    log.withBuffer (log.buffer.write (partitionIdx * log.termLength + termOffset)
      (padHeader (log.termLength - termOffset) termOffset).encode)

@[simp] theorem writePadFrame_termLength (log : RawLog) (partitionIdx termOffset : Nat) :
    (log.writePadFrame partitionIdx termOffset).termLength = log.termLength := by
  unfold writePadFrame
  split_ifs <;> rfl

end RawLog

/-! ## Scanning -/

/-- The decision of a scan at offset `pos` of the partition at `base`: the length of the frame
committed there, or `none` where the loop stops. -/
def frameAt (m : ByteStore) (base tl pos : Nat) : Option Nat :=
  if tl - pos < 4 then none
  else
    let frameLength := m.readI32 (base + pos)
    if frameLength.toInt ≤ 0 then none
    else if frameLength.toNat < dataHeaderLength then none
    else if tl < pos + alignFrameLength frameLength.toNat then none
    else some frameLength.toNat

/-- The loop of `scan_frames`, `sender_scan` and `scan_term_at`: the emitted offsets and slices, and
the bytes scanned. Every round moves `pos` on, so `tl - pos` rounds are enough. -/
def scanLoop (m : ByteStore) (base tl limit : Nat) :
    Nat → Nat → Nat → List (Nat × List UInt8) × Nat
  | 0, _, scanned => ([], scanned)
  | fuel + 1, pos, scanned =>
      if pos < tl ∧ scanned < limit then
        match frameAt m base tl pos with
        | none => ([], scanned)
        | some len =>
            let rest := scanLoop m base tl limit fuel (pos + alignFrameLength len)
              (scanned + alignFrameLength len)
            ((pos, m.read (base + pos) len) :: rest.1, rest.2)
      else ([], scanned)

def RawLog.scanFrames (log : RawLog) (partitionIdx offset limit : Nat) :
    List (Nat × List UInt8) × Nat :=
  if partitionCount ≤ partitionIdx then ([], 0)
  else scanLoop log.buffer (partitionIdx * log.termLength) log.termLength limit log.termLength
    offset 0

/-- The committed frames of a partition from offset `pos` on, up to the first position where a scan
stops. -/
def walk (m : ByteStore) (base tl : Nat) : Nat → Nat → List (Nat × List UInt8)
  | 0, _ => []
  | fuel + 1, pos =>
      if pos < tl then
        match frameAt m base tl pos with
        | none => []
        | some len => (pos, m.read (base + pos) len) :: walk m base tl fuel (pos + alignFrameLength len)
      else []

/-- The bytes a scanned frame takes up in the log. -/
def slotLength (f : Nat × List UInt8) : Nat := alignFrameLength f.2.length

/-- **What a committed frame is.** -/
theorem frameAt_eq_some {m : ByteStore} {base tl pos len : Nat} :
    frameAt m base tl pos = some len ↔
      4 ≤ tl - pos ∧ (m.readI32 (base + pos)).toNat = len ∧ 32 ≤ len ∧ len < 2 ^ 31 ∧
        pos + alignFrameLength len ≤ tl := by
  have hsigned : (m.readI32 (base + pos)).toInt ≤ 0 ↔
      (m.readI32 (base + pos)).toNat = 0 ∨ 2 ^ 31 ≤ (m.readI32 (base + pos)).toNat := by
    have := (m.readI32 (base + pos)).isLt
    rw [BitVec.toInt_eq_toNat_cond]
    split <;> omega
  have hheader : dataHeaderLength = 32 := rfl
  unfold frameAt
  simp only [hsigned]
  constructor
  · intro h
    split_ifs at h with h₁ h₂ h₃ h₄
    obtain rfl := Option.some.inj h
    omega
  · rintro ⟨h₁, rfl, h₂, h₃, h₄⟩
    rw [if_neg (by omega), if_neg (by omega), if_neg (by omega), if_neg (by omega)]

/-- A committed frame moves the scan on by at least one header. -/
theorem le_alignFrameLength_of_frameAt {m : ByteStore} {base tl pos len : Nat}
    (h : frameAt m base tl pos = some len) :
    32 ≤ alignFrameLength len ∧ pos + alignFrameLength len ≤ tl := by
  obtain ⟨-, -, hlen, -, hfit⟩ := frameAt_eq_some.mp h
  exact ⟨le_trans hlen (le_alignFrameLength len), hfit⟩

/-- **A scan takes the walked frames that start below its limit.** -/
theorem scanLoop_eq_takeBudget (m : ByteStore) (base tl limit fuel pos scanned : Nat) :
    scanLoop m base tl limit fuel pos scanned =
      (takeBudget slotLength (limit - scanned) (walk m base tl fuel pos),
        scanned + total slotLength (takeBudget slotLength (limit - scanned)
          (walk m base tl fuel pos))) := by
  induction fuel generalizing pos scanned with
  | zero => simp [scanLoop, walk]
  | succ fuel ih =>
      rw [scanLoop, walk]
      by_cases hpos : pos < tl
      · by_cases hlim : scanned < limit
        · rw [if_pos ⟨hpos, hlim⟩, if_pos hpos]
          cases hf : frameAt m base tl pos with
          | none => simp
          | some len =>
              have hw : slotLength (pos, m.read (base + pos) len) = alignFrameLength len := by
                rw [slotLength, ByteStore.read_length]
              simp only [ih]
              rw [takeBudget_cons_of_pos _ (by omega), total_cons, hw, Nat.sub_add_eq,
                Nat.add_assoc]
        · obtain h0 : limit - scanned = 0 := by omega
          rw [if_neg (by omega), h0]
          simp
      · rw [if_neg (by omega), if_neg hpos]
        simp

/-- The walked frames fit the rest of their term, and none is empty. -/
theorem walk_total_le (m : ByteStore) (base tl fuel pos : Nat) :
    total slotLength (walk m base tl fuel pos) ≤ tl - pos ∧
      ∀ f ∈ walk m base tl fuel pos, 0 < slotLength f := by
  induction fuel generalizing pos with
  | zero => simp [walk]
  | succ fuel ih =>
      rw [walk]
      split_ifs with hpos
      · cases hf : frameAt m base tl pos with
        | none => simp
        | some len =>
            obtain ⟨hlen, hfit⟩ := le_alignFrameLength_of_frameAt hf
            obtain ⟨htotal, hall⟩ := ih (pos + alignFrameLength len)
            have hw : slotLength (pos, m.read (base + pos) len) = alignFrameLength len := by
              rw [slotLength, ByteStore.read_length]
            refine ⟨?_, ?_⟩
            · rw [total_cons, hw]
              omega
            · intro f hmem
              rcases List.mem_cons.mp hmem with rfl | hrest
              · rw [hw]
                omega
              · exact hall f hrest
      · simp

/-- A walked frame lies between the start of the walk and the end of the term. -/
theorem bounds_of_mem_walk {m : ByteStore} {base tl fuel pos : Nat} {f : Nat × List UInt8}
    (h : f ∈ walk m base tl fuel pos) : pos ≤ f.1 ∧ f.1 + slotLength f ≤ tl := by
  induction fuel generalizing pos with
  | zero => simp [walk] at h
  | succ fuel ih =>
      rw [walk] at h
      split_ifs at h with hpos
      · cases hf : frameAt m base tl pos with
        | none => simp [hf] at h
        | some len =>
            obtain ⟨hlen, hfit⟩ := le_alignFrameLength_of_frameAt hf
            simp only [hf] at h
            rcases List.mem_cons.mp h with rfl | hrest
            · rw [slotLength, ByteStore.read_length]
              exact ⟨Nat.le_refl _, hfit⟩
            · obtain ⟨hlo, hhi⟩ := ih hrest
              exact ⟨by omega, hhi⟩
      · cases h

/-- A walked frame is what its place in the buffer holds. -/
theorem read_of_mem_walk {m : ByteStore} {base tl fuel pos : Nat} {f : Nat × List UInt8}
    (h : f ∈ walk m base tl fuel pos) : m.read (base + f.1) f.2.length = f.2 := by
  induction fuel generalizing pos with
  | zero => simp [walk] at h
  | succ fuel ih =>
      rw [walk] at h
      split_ifs at h with hpos
      · cases hf : frameAt m base tl pos with
        | none => simp [hf] at h
        | some len =>
            simp only [hf] at h
            rcases List.mem_cons.mp h with rfl | hrest
            · rw [ByteStore.read_length]
            · exact ih hrest
      · cases h

end AeronRs
