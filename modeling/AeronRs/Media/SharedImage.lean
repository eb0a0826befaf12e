import AeronRs.Media.ConcurrentPublication

/-! # Shared images

The image of `shared_image.rs`: the receiver appends frames wherever they belong in the four
partitions, and the subscriber polls them in order of their positions. The subscriber decides by the
length word at its position whether a frame is there; where there is none and the receiver has
written further on, it skips forward to the next non-zero length word of the term.

Each handle keeps a local copy of the position that it alone writes; **`SharedImage`** holds both
handles with the proof that the copies agree with the shared positions. -/

namespace AeronRs

def frameAlignment : Nat := 32

/-- `ImageInner`: what both handles share. -/
structure ImageInner where
  log : RawLog
  receiverPosition : Int
  subscriberPosition : Int
  sessionId : BitVec 32
  streamId : BitVec 32
  initialTermId : BitVec 32

/-- `ReceiverImage`: the receiver's own state. -/
structure ReceiverImage where
  receiverPositionLocal : Int

/-- `SubscriberImage`: the subscriber's own state. -/
structure SubscriberImage where
  subscriberPositionLocal : Int

/-- A fragment that a poll hands to its handler, with the position at which it was read. -/
structure Fragment where
  position : Int
  payload : List UInt8
  sessionId : BitVec 32
  streamId : BitVec 32
  deriving DecidableEq, Repr

namespace ImageInner

def termLengthMask (inner : ImageInner) : Nat := inner.log.termLength - 1

def positionBitsToShift (inner : ImageInner) : Nat := trailingZeros 32 inner.log.termLength

def withBuffer (inner : ImageInner) (m : ByteStore) : ImageInner :=
  { inner with log := inner.log.withBuffer m }

end ImageInner

namespace ReceiverImage

/-- The three stores of `append_frame` at an address: the header with length zero, the payload, and
the length word that commits the frame. -/
def storeFrame (m : ByteStore) (base : Nat) (header : DataHeader) (payload : List UInt8) :
    ByteStore :=
  let uncommitted : DataHeader := { header with frameHeader.frameLength := 0 }
  atomicFrameLengthStore ((m.write base uncommitted.encode).write (base + dataHeaderLength) payload)
    base (BitVec.ofNat 32 (dataHeaderLength + payload.length))

/-- `append_frame`. The sum `term_offset + aligned_len` is a 32-bit one. -/
def appendFrame (inner : ImageInner) (partitionIdx termOffset : Nat) (header : DataHeader)
    (payload : List UInt8) : Except AppendError (ImageInner × Nat) :=
  if partitionCount ≤ partitionIdx then .error .invalidPartition
  else
    let newOffset := (termOffset + alignFrameLength (dataHeaderLength + payload.length)) % 2 ^ 32
    if inner.log.termLength < newOffset then .error .termFull
    else
      let base := partitionIdx * inner.log.termLength + termOffset
      .ok (inner.withBuffer (storeFrame inner.log.buffer base header payload), newOffset)

def advanceReceiverPosition (inner : ImageInner) (newPos : Int) : ImageInner × ReceiverImage :=
  ({ inner with receiverPosition := newPos }, ⟨newPos⟩)

def checkBackPressure (inner : ImageInner) (r : ReceiverImage) : Bool :=
  let maxAhead : Int := inner.log.termLength * (partitionCount - 1)
  decide (maxAhead ≤ wrapI64 (r.receiverPositionLocal - inner.subscriberPosition))

def cleanPartition (inner : ImageInner) (partitionIdx : Nat) : ImageInner :=
  { inner with log := inner.log.cleanPartition partitionIdx }

/-- An append that succeeds stores the frame, and moves no position. -/
theorem appendFrame_eq_ok {inner inner' : ImageInner} {partitionIdx termOffset newOffset : Nat}
    {header : DataHeader} {payload : List UInt8} :
    appendFrame inner partitionIdx termOffset header payload = .ok (inner', newOffset) ↔
      partitionIdx < partitionCount ∧ newOffset ≤ inner.log.termLength ∧
        newOffset = (termOffset + alignFrameLength (32 + payload.length)) % 2 ^ 32 ∧
        inner' = inner.withBuffer (storeFrame inner.log.buffer
          (partitionIdx * inner.log.termLength + termOffset) header payload) := by
  have hheader : dataHeaderLength = 32 := rfl
  unfold appendFrame
  constructor
  · intro h
    dsimp only at h
    split_ifs at h with hidx hfull
    obtain ⟨rfl, rfl⟩ := Prod.mk.inj (Except.ok.inj h)
    exact ⟨by omega, by omega, rfl, rfl⟩
  · rintro ⟨hidx, hfit, rfl, rfl⟩
    rw [if_neg (by omega)]
    exact if_neg (Nat.not_lt.mpr hfit)

/-- **A stored frame** is its header, with the length of the frame, and its payload. -/
theorem storeFrame_eq (m : ByteStore) (base : Nat) (header : DataHeader) (payload : List UInt8) :
    storeFrame m base header payload =
      m.write base (DataHeader.encode { header with
        frameHeader.frameLength := BitVec.ofNat 32 (32 + payload.length) } ++ payload) := by
  have happend := ByteStore.write_write_append m base (DataHeader.encode { header with
    frameHeader.frameLength := BitVec.ofNat 32 (32 + payload.length) }) payload
  rw [DataHeader.encode_length] at happend
  rw [← happend]
  exact commit_eq_write m base { header with frameHeader.frameLength := 0 }
    (BitVec.ofNat 32 (32 + payload.length)) payload rfl

end ReceiverImage

/-! ## Polling -/

/-- The inner loop of a gap skip: from `skip` on in steps of the frame alignment, up to a positive
length word or the end of the term. -/
def skipLoop (m : ByteStore) (base tl pos : Nat) : Nat → Nat → Nat
  | 0, skip => skip
  | fuel + 1, skip =>
      if pos + skip < tl then
        if 0 < (m.readI32 (base + (pos + skip))).toInt then skip
        else skipLoop m base tl pos fuel (skip + frameAlignment)
      else skip

/-- The bytes that a poll skips at a gap, clamped to the end of the term. -/
def gapSkip (m : ByteStore) (base tl pos : Nat) : Nat :=
  let skip := skipLoop m base tl pos tl frameAlignment
  if tl < pos + skip then tl - pos else skip

theorem le_skipLoop (m : ByteStore) (base tl pos fuel skip : Nat) :
    skip ≤ skipLoop m base tl pos fuel skip := by
  induction fuel generalizing skip with
  | zero => exact Nat.le_refl _
  | succ fuel ih =>
      rw [skipLoop]
      split_ifs
      · exact Nat.le_refl _
      · exact Nat.le_trans (Nat.le_add_right _ _) (ih _)
      · exact Nat.le_refl _

theorem gapSkip_pos (m : ByteStore) (base : Nat) {tl pos : Nat} (h : pos < tl) :
    0 < gapSkip m base tl pos := by
  have hle := le_skipLoop m base tl pos tl frameAlignment
  have halign : frameAlignment = 32 := rfl
  rw [gapSkip]
  split_ifs
  · omega
  · omega

/-- The loop of `poll_fragments`: the offsets and payloads delivered, and the bytes scanned. Every
round but the last moves `pos` on, so `tl` rounds are enough. -/
def pollLoop (m : ByteStore) (base tl : Nat) (recvPos subPos limit : Int) :
    Nat → Nat → Nat → Nat → List (Nat × List UInt8) × Nat
  | 0, _, _, scanned => ([], scanned)
  | fuel + 1, pos, fragments, scanned =>
      if pos < tl ∧ (fragments : Int) < limit then
        if tl - pos < 4 then ([], scanned)
        else
          let frameLength := m.readI32 (base + pos)
          if frameLength.toInt ≤ 0 then
            -- nothing is committed here: the end of the data, or a gap
            if recvPos ≤ subPos + scanned then ([], scanned)
            else
              let skip := gapSkip m base tl pos
              pollLoop m base tl recvPos subPos limit fuel (pos + skip) fragments (scanned + skip)
          else if frameLength.toNat < dataHeaderLength then ([], scanned)
          else
            let alignedLen := alignFrameLength frameLength.toNat
            if tl < pos + alignedLen then ([], scanned)
            else if m.readU16 (base + pos + 6) = frameTypePad then
              pollLoop m base tl recvPos subPos limit fuel (pos + alignedLen) fragments
                (scanned + alignedLen)
            else
              let payload := m.read (base + pos + dataHeaderLength)
                (frameLength.toNat - dataHeaderLength)
              let rest := pollLoop m base tl recvPos subPos limit fuel (pos + alignedLen)
                (fragments + 1) (scanned + alignedLen)
              ((pos, payload) :: rest.1, rest.2)
      else ([], scanned)

/-- A poll ends where nothing is committed and nothing was received further on. -/
theorem pollLoop_uncommitted {m : ByteStore} {base tl pos scanned : Nat} {recvPos subPos : Int}
    (hword : (m.readI32 (base + pos)).toInt ≤ 0) (hrecv : recvPos ≤ subPos + scanned) (limit : Int)
    (fuel fragments : Nat) :
    pollLoop m base tl recvPos subPos limit fuel pos fragments scanned = ([], scanned) := by
  cases fuel with
  | zero => rfl
  | succ fuel =>
      rw [pollLoop]
      simp only [if_pos hword, if_pos hrecv, ite_self]

/-! ## What a poll depends on -/

section Congr

variable {m m' : ByteStore} {base base' tl : Nat}

/-- Words inside the partition agree if its bytes do. -/
theorem readI32_congr (h : ∀ o < tl, m (base + o) = m' (base' + o)) {pos : Nat}
    (hpos : pos + 4 ≤ tl) : m.readI32 (base + pos) = m'.readI32 (base' + pos) := by
  unfold ByteStore.readI32
  rw [ByteStore.read_congr fun i hi => ?_]
  rw [Nat.add_assoc, Nat.add_assoc]
  exact h (pos + i) (by omega)

theorem skipLoop_congr (h : ∀ o < tl, m (base + o) = m' (base' + o)) (htl : 32 ∣ tl)
    {pos skip : Nat} (hpos : 32 ∣ pos) (hskip : 32 ∣ skip) (fuel : Nat) :
    skipLoop m base tl pos fuel skip = skipLoop m' base' tl pos fuel skip ∧
      32 ∣ skipLoop m base tl pos fuel skip := by
  induction fuel generalizing skip with
  | zero => exact ⟨rfl, hskip⟩
  | succ fuel ih =>
      have halign : frameAlignment = 32 := rfl
      rw [skipLoop, skipLoop]
      by_cases hroom : pos + skip < tl
      · rw [if_pos hroom, if_pos hroom, readI32_congr h (show pos + skip + 4 ≤ tl by omega)]
        split_ifs
        · exact ⟨rfl, hskip⟩
        · exact ih (by omega)
      · rw [if_neg hroom, if_neg hroom]
        exact ⟨rfl, hskip⟩

theorem gapSkip_congr (h : ∀ o < tl, m (base + o) = m' (base' + o)) (htl : 32 ∣ tl) {pos : Nat}
    (hpos : 32 ∣ pos) :
    gapSkip m base tl pos = gapSkip m' base' tl pos ∧ 32 ∣ gapSkip m base tl pos := by
  obtain ⟨heq, hdvd⟩ := skipLoop_congr h htl hpos (Nat.dvd_refl 32) tl
  have halign : frameAlignment = 32 := rfl
  unfold gapSkip
  rw [halign, heq]
  rw [heq] at hdvd
  refine ⟨rfl, ?_⟩
  dsimp only
  split_ifs <;> omega

/-- **A poll reads only its partition.** -/
theorem pollLoop_congr (h : ∀ o < tl, m (base + o) = m' (base' + o)) (htl : 32 ∣ tl)
    (recvPos subPos limit : Int) (fuel : Nat) {pos : Nat} (hpos : 32 ∣ pos)
    (fragments scanned : Nat) :
    pollLoop m base tl recvPos subPos limit fuel pos fragments scanned =
      pollLoop m' base' tl recvPos subPos limit fuel pos fragments scanned := by
  induction fuel generalizing pos fragments scanned with
  | zero => rfl
  | succ fuel ih =>
      rw [pollLoop, pollLoop]
      by_cases hgo : pos < tl ∧ (fragments : Int) < limit
      swap
      · rw [if_neg hgo, if_neg hgo]
      -- offsets are aligned, so a header that starts in the partition ends in it
      have hroom : pos + 32 ≤ tl := by omega
      obtain ⟨hskip, hdvd⟩ := gapSkip_congr h htl hpos
      rw [if_pos hgo, if_pos hgo, readI32_congr h (show pos + 4 ≤ tl by omega), hskip]
      rw [hskip] at hdvd
      have htype : m.readU16 (base + pos + 6) = m'.readU16 (base' + pos + 6) := by
        unfold ByteStore.readU16
        rw [ByteStore.read_congr fun i hi => ?_]
        simp only [Nat.add_assoc]
        exact h (pos + (6 + i)) (by omega)
      -- both loops have read the same length word
      generalize m'.readI32 (base' + pos) = frameLength
      dsimp only
      have halign := alignFrameLength_dvd frameLength.toNat
      have hlen := le_alignFrameLength frameLength.toNat
      rw [ih (Nat.dvd_add hpos hdvd), ih (Nat.dvd_add hpos halign), ih (Nat.dvd_add hpos halign),
        htype]
      by_cases hfit : tl < pos + alignFrameLength frameLength.toNat
      · simp only [if_pos hfit]
      · have hpayload : m.read (base + pos + dataHeaderLength)
            (frameLength.toNat - dataHeaderLength) =
            m'.read (base' + pos + dataHeaderLength) (frameLength.toNat - dataHeaderLength) := by
          apply ByteStore.read_congr
          intro i hi
          have hheader : dataHeaderLength = 32 := rfl
          simp only [Nat.add_assoc]
          exact h (pos + (dataHeaderLength + i)) (by omega)
        rw [hpayload]

end Congr

namespace SubscriberImage

def termId (inner : ImageInner) (s : SubscriberImage) : BitVec 32 :=
  inner.initialTermId + BitVec.ofInt 32 (s.subscriberPositionLocal >>> inner.positionBitsToShift)

def termOffset (inner : ImageInner) (s : SubscriberImage) : Nat :=
  landI64 s.subscriberPositionLocal inner.termLengthMask

/-- **The partition and the offset of a position.** -/
theorem place_eq (inner : ImageInner) (position : Int) :
    partitionIndex (termId inner ⟨position⟩) inner.initialTermId =
        (position / inner.log.termLength % 4).toNat ∧
      termOffset inner ⟨position⟩ = (position % inner.log.termLength).toNat := by
  obtain ⟨k, hk⟩ := exists_of_isPowerOfTwo inner.log.termLength_pow
  have hk32 : k ≤ 32 := by
    have hlt := inner.log.termLength_lt
    rw [hk] at hlt
    exact Nat.le_of_lt ((Nat.pow_lt_pow_iff_right (by decide)).mp hlt)
  have hcast : ((2 ^ k : Nat) : Int) = 2 ^ k := by
    push_cast
    rfl
  constructor
  · unfold termId ImageInner.positionBitsToShift
    rw [hk, trailingZeros_two_pow hk32, partitionIndex_add_ofInt, Int.shiftRight_eq_div_pow]
  · unfold termOffset ImageInner.termLengthMask
    rw [hk, landI64_two_pow _ (by omega), hcast]

/-- What the loop of a poll reads. -/
def scan (inner : ImageInner) (s : SubscriberImage) (limit : Int) : List (Nat × List UInt8) × Nat :=
  let partIdx := partitionIndex (s.termId inner) inner.initialTermId
  pollLoop inner.log.buffer (partIdx * inner.log.termLength) inner.log.termLength
    inner.receiverPosition s.subscriberPositionLocal limit inner.log.termLength
    (s.termOffset inner) 0 0

/-- `poll_fragments`: the state afterwards and the fragments handed to the handler, whose number is
the return value. -/
def pollFragments (inner : ImageInner) (s : SubscriberImage) (limit : Int) :
    (ImageInner × SubscriberImage) × List Fragment :=
  if limit ≤ 0 then ((inner, s), [])
  else
    let r := s.scan inner limit
    let fragments := r.1.map fun f =>
      ⟨s.subscriberPositionLocal - s.termOffset inner + f.1, f.2, inner.sessionId, inner.streamId⟩
    if 0 < r.2 then
      let position := s.subscriberPositionLocal + r.2
      (({ inner with subscriberPosition := position }, ⟨position⟩), fragments)
    else ((inner, s), fragments)

end SubscriberImage

/-- **Both handles of an image over the shared state**, each local position equal to the shared one
that its handle writes. -/
@[ext]
structure SharedImage where
  inner : ImageInner
  receiver : ReceiverImage
  subscriber : SubscriberImage
  receiver_sync : inner.receiverPosition = receiver.receiverPositionLocal
  subscriber_sync : inner.subscriberPosition = subscriber.subscriberPositionLocal

/-- **A poll with a positive limit** moves the subscriber by the bytes scanned. -/
theorem SubscriberImage.pollFragments_of_pos {inner : ImageInner} {s : SubscriberImage} {limit : Int}
    (hpos : 0 < limit) (hsync : inner.subscriberPosition = s.subscriberPositionLocal) :
    pollFragments inner s limit =
      (({ inner with subscriberPosition := s.subscriberPositionLocal + (s.scan inner limit).2 },
        ⟨s.subscriberPositionLocal + (s.scan inner limit).2⟩),
        (s.scan inner limit).1.map fun f =>
          ⟨s.subscriberPositionLocal - s.termOffset inner + f.1, f.2, inner.sessionId,
            inner.streamId⟩) := by
  unfold pollFragments
  rw [if_neg (by omega)]
  dsimp only
  by_cases hscan : 0 < (s.scan inner limit).2
  · rw [if_pos hscan]
  · obtain hzero : (s.scan inner limit).2 = 0 := by omega
    rw [if_neg hscan, hzero, Nat.cast_zero, add_zero]
    obtain ⟨position⟩ := s
    subst hsync
    rfl

theorem SubscriberImage.pollFragments_of_nonpos {inner : ImageInner} {s : SubscriberImage}
    {limit : Int} (h : limit ≤ 0) : pollFragments inner s limit = ((inner, s), []) := if_pos h

/-- A poll moves no position but the subscriber's, and keeps its copy in step. -/
theorem SubscriberImage.pollFragments_sync (inner : ImageInner) (s : SubscriberImage) (limit : Int)
    (h : inner.subscriberPosition = s.subscriberPositionLocal) :
    (pollFragments inner s limit).1.1.receiverPosition = inner.receiverPosition ∧
      (pollFragments inner s limit).1.1.subscriberPosition =
        (pollFragments inner s limit).1.2.subscriberPositionLocal := by
  unfold pollFragments
  split_ifs
  · exact ⟨rfl, h⟩
  · dsimp only
    split_ifs
    · exact ⟨rfl, rfl⟩
    · exact ⟨rfl, h⟩

namespace SharedImage

def newSharedImage (sessionId streamId initialTermId activeTermId : BitVec 32) (termLength : Nat)
    (initialTermOffset : BitVec 32) : Option SharedImage :=
  (RawLog.new termLength).map fun log =>
    let initialPosition :=
      (activeTermId - initialTermId).toInt * termLength + initialTermOffset.toInt
    { inner := ⟨log, initialPosition, initialPosition, sessionId, streamId, initialTermId⟩
      receiver := ⟨initialPosition⟩
      subscriber := ⟨initialPosition⟩
      receiver_sync := rfl
      subscriber_sync := rfl }

def poll (image : SharedImage) (limit : Int) : SharedImage × List Fragment :=
  let r := image.subscriber.pollFragments image.inner limit
  have hsync := image.subscriber.pollFragments_sync image.inner limit image.subscriber_sync
  (⟨r.1.1, image.receiver, r.1.2, hsync.1.trans image.receiver_sync, hsync.2⟩, r.2)

end SharedImage

end AeronRs
