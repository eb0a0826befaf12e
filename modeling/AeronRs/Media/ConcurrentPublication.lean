import AeronRs.Media.NetworkPublication

/-! # Concurrent publications

The publication of `concurrent_publication.rs`, split into a publisher handle and a sender view over
shared state. The publisher commits a frame in three stores: the header with a zero length, the
payload, and the length word.

Each handle keeps a local copy of the one position that it alone writes. **`PublicationPair`** holds
both handles with the proof that the copies agree with the shared positions, and is mapped by
**`toNetwork`** to a local publication: at the granularity of whole calls the two kinds do the same
(`toNetwork_offer`, `toNetwork_senderScan`). -/

namespace AeronRs

/-- `PublicationInner`: what both handles share. -/
structure PublicationInner where
  log : RawLog
  pubPosition : Int
  senderPosition : Int
  initialTermId : BitVec 32
  sessionId : BitVec 32
  streamId : BitVec 32
  mtu : Nat

/-- `ConcurrentPublication`: the publisher's own state. -/
structure ConcurrentPublication where
  activeTermId : BitVec 32
  termOffset : Nat
  pubPositionLocal : Int

/-- `SenderPublication`: the sender's own state. -/
structure SenderPublication where
  senderPositionLocal : Int

namespace PublicationInner

def maxPayloadLength (inner : PublicationInner) : Nat := inner.mtu - dataHeaderLength

def termLengthMask (inner : PublicationInner) : Nat := inner.log.termLength - 1

def positionBitsToShift (inner : PublicationInner) : Nat := trailingZeros 32 inner.log.termLength

end PublicationInner

def atomicFrameLengthStore (m : ByteStore) (offset : Nat) (value : BitVec 32) : ByteStore :=
  m.write offset (encodeI32 value)

namespace ConcurrentPublication

def computePosition (inner : PublicationInner) (termId : BitVec 32) (termOffset : Nat) : Int :=
  (termId - inner.initialTermId).toInt * inner.log.termLength + termOffset

def rotateTerm (inner : PublicationInner) (c : ConcurrentPublication) :
    PublicationInner × ConcurrentPublication :=
  let activeTermId := c.activeTermId + 1
  ({ inner with log := inner.log.cleanPartition (partitionIndex activeTermId inner.initialTermId) },
    { c with activeTermId, termOffset := 0 })

/-- The pad that `offer` commits at the unused tail: bytes 4 to 32 of its header, then the length.
The write offset never exceeds the term length, so the subtraction is exact. -/
def commitPad (inner : PublicationInner) (c : ConcurrentPublication) : RawLog :=
  let remaining := inner.log.termLength - c.termOffset
  if dataHeaderLength ≤ remaining then
    let padBase := partitionIndex c.activeTermId inner.initialTermId * inner.log.termLength
      + c.termOffset
    let m := inner.log.buffer.write (padBase + 4)
      ((RawLog.padHeader remaining c.termOffset).encode.drop 4)
    inner.log.withBuffer (atomicFrameLengthStore m padBase (BitVec.ofNat 32 remaining))
  else inner.log

/-- The header that `offer` writes before the frame is committed: its length is zero. -/
def uncommittedHeader (inner : PublicationInner) (c : ConcurrentPublication) : DataHeader where
  frameHeader := ⟨0, currentVersion, dataFlagUnfragmented, frameTypeData⟩
  termOffset := BitVec.ofNat 32 c.termOffset
  sessionId := inner.sessionId
  streamId := inner.streamId
  termId := c.activeTermId
  reservedValue := 0

def offer (inner : PublicationInner) (c : ConcurrentPublication) (payload : List UInt8) :
    (PublicationInner × ConcurrentPublication) × Except OfferError Int :=
  if inner.maxPayloadLength < payload.length then ((inner, c), .error .payloadTooLarge)
  else if (inner.log.termLength : Int) * (partitionCount - 1) ≤
      wrapI64 (c.pubPositionLocal - inner.senderPosition) then ((inner, c), .error .backPressured)
  else
    let newOffset := (c.termOffset + alignFrameLength (32 + payload.length)) % 2 ^ 32
    if inner.log.termLength < newOffset then
      (rotateTerm { inner with log := commitPad inner c } c, .error .adminAction)
    else
      let base := partitionIndex c.activeTermId inner.initialTermId * inner.log.termLength
        + c.termOffset
      let m := (inner.log.buffer.write base (uncommittedHeader inner c).encode).write (base + 32)
        payload
      let log := inner.log.withBuffer
        (atomicFrameLengthStore m base (BitVec.ofNat 32 (32 + payload.length)))
      let pubPosition := computePosition inner c.activeTermId newOffset
      (({ inner with log, pubPosition },
        { c with termOffset := newOffset, pubPositionLocal := pubPosition }), .ok pubPosition)

end ConcurrentPublication

namespace SenderPublication

def atomicFrameLengthLoad (m : ByteStore) (offset : Nat) : BitVec 32 := m.readI32 offset

/-- The loop of `sender_scan`, which `scan_term_at` repeats. -/
def termLoop (inner : PublicationInner) (partBase limit : Nat) :
    Nat → Nat → Nat → List (Nat × List UInt8) × Nat
  | 0, _, scanned => ([], scanned)
  | fuel + 1, pos, scanned =>
      if pos < inner.log.termLength ∧ scanned < limit then
        if inner.log.termLength - pos < 4 then ([], scanned)
        else
          let frameLength := atomicFrameLengthLoad inner.log.buffer (partBase + pos)
          if frameLength.toInt ≤ 0 then ([], scanned)
          else if frameLength.toNat < dataHeaderLength then ([], scanned)
          else
            let alignedLen := alignFrameLength frameLength.toNat
            if inner.log.termLength < pos + alignedLen then ([], scanned)
            else
              let rest := termLoop inner partBase limit fuel (pos + alignedLen)
                (scanned + alignedLen)
              ((pos, inner.log.buffer.read (partBase + pos) frameLength.toNat) :: rest.1, rest.2)
      else ([], scanned)

/-- **The sender's loop is the one of the raw log.** -/
theorem termLoop_eq (inner : PublicationInner) (partBase limit fuel pos scanned : Nat) :
    termLoop inner partBase limit fuel pos scanned =
      scanLoop inner.log.buffer partBase inner.log.termLength limit fuel pos scanned := by
  induction fuel generalizing pos scanned with
  | zero => rfl
  | succ fuel ih =>
      rw [termLoop, scanLoop]
      by_cases hgo : pos < inner.log.termLength ∧ scanned < limit
      · rw [if_pos hgo, if_pos hgo]
        unfold frameAt atomicFrameLengthLoad
        dsimp only
        -- the loop stops for the same reasons, in the same order
        split_ifs with hroom hword hheader hfit
        · rfl
        · rfl
        · rfl
        · rfl
        · simp only [ih]
      · rw [if_neg hgo, if_neg hgo]

/-- What `sender_scan` reads, from the sender's position to the limit or the end of its term. -/
def scan (inner : PublicationInner) (s : SenderPublication) (limit : Nat) :
    List (Nat × List UInt8) × Nat :=
  let termId := inner.initialTermId
    + BitVec.ofInt 32 (s.senderPositionLocal >>> inner.positionBitsToShift)
  let termOffset := landI64 s.senderPositionLocal inner.termLengthMask
  let partIdx := partitionIndex termId inner.initialTermId
  let remainingInTerm := inner.log.termLength - termOffset
  let effectiveLimit := if limit < remainingInTerm then limit else remainingInTerm
  termLoop inner (partIdx * inner.log.termLength) effectiveLimit inner.log.termLength termOffset 0

/-- `sender_scan`: the shared and own state afterwards, the emitted frames and the bytes scanned. -/
def senderScan (inner : PublicationInner) (s : SenderPublication) (limit : Nat) :
    (PublicationInner × SenderPublication) × List (Nat × List UInt8) × Nat :=
  if 0 < (scan inner s limit).2 then
    let senderPosition := s.senderPositionLocal + (scan inner s limit).2
    (({ inner with senderPosition }, { senderPositionLocal := senderPosition }),
      scan inner s limit)
  else ((inner, s), scan inner s limit)

def scanTermAt (inner : PublicationInner) (partitionIdx offset limit : Nat) :
    List (Nat × List UInt8) × Nat :=
  if partitionCount ≤ partitionIdx then ([], 0)
  else termLoop inner (partitionIdx * inner.log.termLength) limit inner.log.termLength offset 0

theorem scanTermAt_eq (inner : PublicationInner) (partitionIdx offset limit : Nat) :
    scanTermAt inner partitionIdx offset limit = inner.log.scanFrames partitionIdx offset limit := by
  unfold scanTermAt RawLog.scanFrames
  rw [termLoop_eq]

def activeTermIdApprox (inner : PublicationInner) : BitVec 32 :=
  inner.initialTermId + BitVec.ofInt 32 (inner.pubPosition >>> inner.positionBitsToShift)

def termOffsetApprox (inner : PublicationInner) : Nat :=
  landI64 inner.pubPosition inner.termLengthMask

end SenderPublication

/-! ## The pair -/

/-- **A publisher and a sender over one shared state**, each local position equal to the shared one
that its handle writes. -/
structure PublicationPair where
  inner : PublicationInner
  publisher : ConcurrentPublication
  sender : SenderPublication
  pub_sync : inner.pubPosition = publisher.pubPositionLocal
  sender_sync : inner.senderPosition = sender.senderPositionLocal

def newConcurrent (sessionId streamId initialTermId : BitVec 32) (termLength mtu : Nat) :
    Option PublicationPair :=
  if mtu < dataHeaderLength then none
  else
    (RawLog.new termLength).map fun log =>
      { inner := ⟨log, 0, 0, initialTermId, sessionId, streamId, mtu⟩
        publisher := { activeTermId := initialTermId, termOffset := 0, pubPositionLocal := 0 }
        sender := { senderPositionLocal := 0 }
        pub_sync := rfl
        sender_sync := rfl }

/-- The publisher's `offer` never touches the sender's position and keeps its own copy in step. -/
theorem ConcurrentPublication.offer_sync (inner : PublicationInner) (c : ConcurrentPublication)
    (payload : List UInt8) (h : inner.pubPosition = c.pubPositionLocal) :
    (offer inner c payload).1.1.pubPosition = (offer inner c payload).1.2.pubPositionLocal ∧
      (offer inner c payload).1.1.senderPosition = inner.senderPosition := by
  unfold offer
  split_ifs
  · exact ⟨h, rfl⟩
  · exact ⟨h, rfl⟩
  · dsimp only
    split_ifs
    · exact ⟨h, rfl⟩
    · exact ⟨rfl, rfl⟩

/-- The sender's scan never touches the published position and keeps its own copy in step. -/
theorem SenderPublication.senderScan_sync (inner : PublicationInner) (s : SenderPublication)
    (limit : Nat) (h : inner.senderPosition = s.senderPositionLocal) :
    (senderScan inner s limit).1.1.senderPosition =
        (senderScan inner s limit).1.2.senderPositionLocal ∧
      (senderScan inner s limit).1.1.pubPosition = inner.pubPosition := by
  unfold senderScan
  split_ifs
  · exact ⟨rfl, rfl⟩
  · exact ⟨h, rfl⟩

namespace PublicationPair

def offer (c : PublicationPair) (payload : List UInt8) : PublicationPair × Except OfferError Int :=
  let r := ConcurrentPublication.offer c.inner c.publisher payload
  have hsync := ConcurrentPublication.offer_sync c.inner c.publisher payload c.pub_sync
  (⟨r.1.1, r.1.2, c.sender, hsync.1, hsync.2.trans c.sender_sync⟩, r.2)

def senderScan (c : PublicationPair) (limit : Nat) :
    PublicationPair × List (Nat × List UInt8) × Nat :=
  let r := SenderPublication.senderScan c.inner c.sender limit
  have hsync := SenderPublication.senderScan_sync c.inner c.sender limit c.sender_sync
  (⟨r.1.1, c.publisher, r.1.2, hsync.2.trans c.pub_sync, hsync.1⟩, r.2)

/-- The local publication with the same log, cursor and positions. -/
def toNetwork (c : PublicationPair) : NetworkPublication where
  rawLog := c.inner.log
  initialTermId := c.inner.initialTermId
  activeTermId := c.publisher.activeTermId
  termOffset := c.publisher.termOffset
  pubPosition := c.inner.pubPosition
  senderPosition := c.inner.senderPosition
  sessionId := c.inner.sessionId
  streamId := c.inner.streamId
  mtu := c.inner.mtu

end PublicationPair

/-! ## The two kinds agree -/

/-- **Commit by the length word.** Header with length zero, payload, then the length word leaves the
same bytes as a header with that length and the payload. -/
theorem commit_eq_write (m : ByteStore) (base : Nat) (h : DataHeader) (fl : BitVec 32)
    (payload : List UInt8) (h0 : h.frameHeader.frameLength = 0) :
    atomicFrameLengthStore ((m.write base h.encode).write (base + 32) payload) base fl =
      (m.write base (DataHeader.encode { h with frameHeader.frameLength := fl })).write (base + 32)
        payload := by
  obtain ⟨rest, hrest, hsplit⟩ := h.encode_split
  have henc : h.encode = encodeI32 0 ++ rest := by
    rw [← hsplit 0, ← h0]
  have hfl : DataHeader.encode { h with frameHeader.frameLength := fl } = encodeI32 fl ++ rest :=
    hsplit fl
  have hlen : ∀ x : BitVec 32, (encodeI32 x ++ rest).length = 32 := fun x => by simp [hrest]
  have happend : ∀ x : BitVec 32, (m.write base (encodeI32 x ++ rest)).write (base + 32) payload =
      m.write base (encodeI32 x ++ (rest ++ payload)) := fun x => by
    have hw := ByteStore.write_write_append m base (encodeI32 x ++ rest) payload
    rwa [hlen x, List.append_assoc] at hw
  rw [atomicFrameLengthStore, henc, hfl, happend, happend,
    ByteStore.write_replace_head _ _ _ (by simp)]

theorem ConcurrentPublication.commitPad_eq (inner : PublicationInner) (c : ConcurrentPublication) :
    commitPad inner c =
      inner.log.writePadFrame (partitionIndex c.activeTermId inner.initialTermId) c.termOffset := by
  have hidx : ¬ partitionCount ≤ partitionIndex c.activeTermId inner.initialTermId :=
    Nat.not_le.mpr (partitionIndex_lt _ _)
  have hheader : dataHeaderLength = 32 := rfl
  by_cases hrem : dataHeaderLength ≤ inner.log.termLength - c.termOffset
  · have hoff : ¬ inner.log.termLength ≤ c.termOffset := by omega
    simp only [commitPad, RawLog.writePadFrame, if_pos hrem, if_neg hidx, if_neg hoff,
      if_neg (Nat.not_lt.mpr hrem)]
    obtain ⟨rest, -, hsplit⟩ := (RawLog.padHeader (inner.log.termLength - c.termOffset)
      c.termOffset).encode_split
    have henc : (RawLog.padHeader (inner.log.termLength - c.termOffset) c.termOffset).encode = _ :=
      hsplit (BitVec.ofNat 32 (inner.log.termLength - c.termOffset))
    have hw := ByteStore.write_tail_head inner.log.buffer
      (partitionIndex c.activeTermId inner.initialTermId * inner.log.termLength + c.termOffset)
      (encodeI32 (BitVec.ofNat 32 (inner.log.termLength - c.termOffset))) rest
    rw [encodeI32_length] at hw
    rw [henc, List.drop_left' (encodeI32_length _), atomicFrameLengthStore, hw]
  · simp only [commitPad, RawLog.writePadFrame, if_neg hrem, if_neg hidx,
      if_pos (Nat.not_le.mp hrem), ite_self]

namespace PublicationPair

/-- **An offer is the same on both kinds.** -/
theorem toNetwork_offer (c : PublicationPair) (payload : List UInt8) :
    ((c.offer payload).1.toNetwork, (c.offer payload).2) = c.toNetwork.offer payload := by
  unfold PublicationPair.offer ConcurrentPublication.offer
  by_cases hlen : c.inner.maxPayloadLength < payload.length
  · have hlen' : c.toNetwork.maxPayloadLength < payload.length := hlen
    simp only [NetworkPublication.offer, if_pos hlen, if_pos hlen']
  have hback : wrapI64 (c.publisher.pubPositionLocal - c.inner.senderPosition) =
      wrapI64 (c.toNetwork.pubPosition - c.toNetwork.senderPosition) := by
    rw [← c.pub_sync]
    rfl
  by_cases hbp : (c.inner.log.termLength : Int) * (partitionCount - 1) ≤
      wrapI64 (c.publisher.pubPositionLocal - c.inner.senderPosition)
  · have hlen' : ¬ c.toNetwork.maxPayloadLength < payload.length := hlen
    have hbp' : (c.toNetwork.termLength : Int) * (partitionCount - 1) ≤
        wrapI64 (c.toNetwork.pubPosition - c.toNetwork.senderPosition) := hback ▸ hbp
    simp only [NetworkPublication.offer, if_neg hlen, if_pos hbp, if_neg hlen', if_pos hbp']
  have hadmits : c.toNetwork.Admits payload :=
    ⟨Nat.not_lt.mp hlen, by rw [← hback]; exact Int.not_le.mp hbp⟩
  by_cases hfull : c.inner.log.termLength <
      (c.publisher.termOffset + alignFrameLength (32 + payload.length)) % 2 ^ 32
  · rw [NetworkPublication.offer_of_rotates ⟨hadmits, hfull⟩]
    simp only [if_neg hlen, if_neg hbp, if_pos hfull, ConcurrentPublication.commitPad_eq]
    rfl
  · rw [NetworkPublication.offer_of_fits hadmits fun h => hfull h.2]
    -- the publisher commits with the length word: three stores that amount to one write
    have hcommit := commit_eq_write c.inner.log.buffer
      (partitionIndex c.publisher.activeTermId c.inner.initialTermId * c.inner.log.termLength
        + c.publisher.termOffset)
      (ConcurrentPublication.uncommittedHeader c.inner c.publisher)
      (BitVec.ofNat 32 (32 + payload.length)) payload rfl
    simp only [if_neg hlen, if_neg hbp, if_neg hfull, hcommit]
    rfl

/-- **A scan is the same on both kinds.** -/
theorem toNetwork_senderScan (c : PublicationPair) (limit : Nat) :
    ((c.senderScan limit).1.toNetwork, (c.senderScan limit).2) = c.toNetwork.senderScan limit := by
  have hidx : ¬ partitionCount ≤
      partitionIndex c.toNetwork.senderTermId c.toNetwork.initialTermId :=
    Nat.not_le.mpr (partitionIndex_lt _ _)
  have hscan : c.toNetwork.senderScan limit =
      ({ c.toNetwork with senderPosition := c.toNetwork.senderPosition
          + (SenderPublication.scan c.inner c.sender limit).2 },
        SenderPublication.scan c.inner c.sender limit) := by
    simp only [NetworkPublication.senderScan, RawLog.scanFrames, if_neg hidx,
      SenderPublication.scan, SenderPublication.termLoop_eq, ← c.sender_sync]
    rfl
  rw [hscan]
  unfold PublicationPair.senderScan SenderPublication.senderScan
  by_cases hpos : 0 < (SenderPublication.scan c.inner c.sender limit).2
  · simp only [if_pos hpos, ← c.sender_sync]
    rfl
  · have hzero : (SenderPublication.scan c.inner c.sender limit).2 = 0 := by omega
    simp only [hzero, Nat.cast_zero, add_zero]
    rfl

end PublicationPair

/-! ## Publications of either kind -/

/-- A publication as the sender dispatches on it: single-threaded or cross-thread. -/
inductive Publication
  | network (p : NetworkPublication)
  | concurrent (c : PublicationPair)

namespace Publication

/-- `NetworkPublication::new` or `new_concurrent`. -/
def create (crossThread : Bool) (sessionId streamId initialTermId : BitVec 32)
    (termLength mtu : Nat) : Option Publication :=
  if crossThread then
    (newConcurrent sessionId streamId initialTermId termLength mtu).map .concurrent
  else (NetworkPublication.new sessionId streamId initialTermId termLength mtu).map .network

def offer : Publication → List UInt8 → Publication × Except OfferError Int
  | network p, payload => (network (p.offer payload).1, (p.offer payload).2)
  | concurrent c, payload => (concurrent (c.offer payload).1, (c.offer payload).2)

def senderScan : Publication → Nat → Publication × List (Nat × List UInt8) × Nat
  | network p, limit => (network (p.senderScan limit).1, (p.senderScan limit).2)
  | concurrent c, limit => (concurrent (c.senderScan limit).1, (c.senderScan limit).2)

/-- The local publication that does the same, call by call. -/
def toNetwork : Publication → NetworkPublication
  | network p => p
  | concurrent c => c.toNetwork

theorem toNetwork_offer (p : Publication) (payload : List UInt8) :
    ((p.offer payload).1.toNetwork, (p.offer payload).2) = p.toNetwork.offer payload := by
  cases p with
  | network p => rfl
  | concurrent c => exact c.toNetwork_offer payload

theorem toNetwork_senderScan (p : Publication) (limit : Nat) :
    ((p.senderScan limit).1.toNetwork, (p.senderScan limit).2) = p.toNetwork.senderScan limit := by
  cases p with
  | network p => rfl
  | concurrent c => exact c.toNetwork_senderScan limit

/-- A new publication of either kind is a new local publication. -/
theorem toNetwork_create {crossThread : Bool} {sessionId streamId initialTermId : BitVec 32}
    {termLength mtu : Nat} {p : Publication}
    (h : create crossThread sessionId streamId initialTermId termLength mtu = some p) :
    NetworkPublication.new sessionId streamId initialTermId termLength mtu = some p.toNetwork := by
  unfold create at h
  cases crossThread with
  | false =>
      rw [if_neg Bool.false_ne_true] at h
      obtain ⟨p', hp', rfl⟩ := Option.map_eq_some_iff.mp h
      exact hp'
  | true =>
      rw [if_pos rfl] at h
      obtain ⟨c, hc, rfl⟩ := Option.map_eq_some_iff.mp h
      unfold newConcurrent at hc
      unfold NetworkPublication.new
      split_ifs at hc ⊢
      obtain ⟨log, hlog, rfl⟩ := Option.map_eq_some_iff.mp hc
      rw [hlog]
      rfl

end Publication

end AeronRs
