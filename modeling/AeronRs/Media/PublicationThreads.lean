import AeronRs.Media.PublicationRun

/-! # The two threads of a publication

`offer` runs on the publisher's thread, `do_send` on the sender's. Here every store of **`offer`** (the
header with length zero, the payload, the length word, the published position; or the pad, its length
word and the next partition) is a step of its own, and so is every round of the loop of
**`sender_scan`**, the store of the sender's position behind it and the flush with which `do_send`
ends. A frame that a round emits is submitted as a pointer into the log; the kernel reads its bytes at
the flush.

**`Offering`** and **`Scanning`** say how far the two threads are. When a thread is left alone for the
length of a call, its steps are the call: `iterate_storeNext` for `offer`, `iterate_scanNext` for the
loop of `sender_scan`. -/

namespace AeronRs

/-! ## The steps of `offer` -/

/-- How far the publisher is in `offer`: what it stores next. -/
inductive Offering
  | idle
  | header (payload : List UInt8)
  | payload (payload : List UInt8)
  | commit (payload : List UInt8)
  | publish (payload : List UInt8)
  | padHeader
  | padCommit
  | rotate
  deriving DecidableEq

namespace PublicationPair

def withBuffer (c : PublicationPair) (m : ByteStore) : PublicationPair :=
  ⟨{ c.inner with log := c.inner.log.withBuffer m }, c.publisher, c.sender, c.pub_sync,
    c.sender_sync⟩

def cursorBase (c : PublicationPair) : Nat :=
  partitionIndex c.publisher.activeTermId c.inner.initialTermId * c.inner.log.termLength +
    c.publisher.termOffset

def remaining (c : PublicationPair) : Nat := c.inner.log.termLength - c.publisher.termOffset

/-- The first store of a frame: the header with length zero. -/
def storeHeader (c : PublicationPair) : PublicationPair :=
  c.withBuffer (c.inner.log.buffer.write c.cursorBase
    (ConcurrentPublication.uncommittedHeader c.inner c.publisher).encode)

/-- The second store of a frame: the payload. -/
def storePayload (c : PublicationPair) (payload : List UInt8) : PublicationPair :=
  c.withBuffer (c.inner.log.buffer.write (c.cursorBase + 32) payload)

/-- The store of a length word, with which a frame or a pad is committed. -/
def storeLength (c : PublicationPair) (length : Nat) : PublicationPair :=
  c.withBuffer (atomicFrameLengthStore c.inner.log.buffer c.cursorBase (BitVec.ofNat 32 length))

def storePosition (c : PublicationPair) (payload : List UInt8) : PublicationPair :=
  let newOffset := (c.publisher.termOffset + alignFrameLength (32 + payload.length)) % 2 ^ 32
  let pubPosition :=
    ConcurrentPublication.computePosition c.inner c.publisher.activeTermId newOffset
  ⟨{ c.inner with pubPosition },
    { c.publisher with termOffset := newOffset, pubPositionLocal := pubPosition }, c.sender, rfl,
    c.sender_sync⟩

/-- The first store of a pad: its header, without the length word. -/
def storePadHeader (c : PublicationPair) : PublicationPair :=
  c.withBuffer (c.inner.log.buffer.write (c.cursorBase + 4)
    ((RawLog.padHeader c.remaining c.publisher.termOffset).encode.drop 4))

/-- The last store of a rotation: the next partition is zeroed. -/
def storeRotation (c : PublicationPair) : PublicationPair :=
  let rotated := ConcurrentPublication.rotateTerm c.inner c.publisher
  ⟨rotated.1, rotated.2, c.sender, c.pub_sync, c.sender_sync⟩

/-- The tests of `offer`, among them that of the sender's position. -/
def beginOffer (c : PublicationPair) (payload : List UInt8) : Offering :=
  if c.inner.maxPayloadLength < payload.length then .idle
  else if (c.inner.log.termLength : Int) * (partitionCount - 1) ≤
      wrapI64 (c.publisher.pubPositionLocal - c.inner.senderPosition) then .idle
  else if c.inner.log.termLength <
      (c.publisher.termOffset + alignFrameLength (32 + payload.length)) % 2 ^ 32 then
    if dataHeaderLength ≤ c.remaining then .padHeader else .rotate
  else .header payload

def storeNext : PublicationPair × Offering → PublicationPair × Offering
  | (c, .idle) => (c, .idle)
  | (c, .header payload) => (c.storeHeader, .payload payload)
  | (c, .payload payload) => (c.storePayload payload, .commit payload)
  | (c, .commit payload) => (c.storeLength (32 + payload.length), .publish payload)
  | (c, .publish payload) => (c.storePosition payload, .idle)
  | (c, .padHeader) => (c.storePadHeader, .padCommit)
  | (c, .padCommit) => (c.storeLength c.remaining, .rotate)
  | (c, .rotate) => (c.storeRotation, .idle)

/-- What the publisher has stored when it is at a certain point of `offer`. -/
def partway (c : PublicationPair) : Offering → PublicationPair
  | .idle => c
  | .header _ => c
  | .payload _ => c.storeHeader
  | .commit payload => c.storeHeader.storePayload payload
  | .publish payload => (c.storeHeader.storePayload payload).storeLength (32 + payload.length)
  | .padHeader => c
  | .padCommit => c.storePadHeader
  | .rotate =>
      if dataHeaderLength ≤ c.remaining then c.storePadHeader.storeLength c.remaining else c

theorem toNetwork_storePosition (c : PublicationPair) (payload : List UInt8) :
    ((c.partway (.publish payload)).storePosition payload).toNetwork =
      c.toNetwork.append payload := by
  have hcommit := commit_eq_write c.inner.log.buffer c.cursorBase
    (ConcurrentPublication.uncommittedHeader c.inner c.publisher)
    (BitVec.ofNat 32 (32 + payload.length)) payload rfl
  have hlog : (c.partway (.publish payload)).inner.log = c.inner.log.withBuffer
      (atomicFrameLengthStore ((c.inner.log.buffer.write c.cursorBase
        (ConcurrentPublication.uncommittedHeader c.inner c.publisher).encode).write
          (c.cursorBase + 32) payload) c.cursorBase (BitVec.ofNat 32 (32 + payload.length))) := rfl
  rw [hcommit] at hlog
  unfold storePosition toNetwork
  dsimp only
  rw [hlog]
  rfl

theorem partway_rotate_log (c : PublicationPair) :
    (c.partway .rotate).inner.log = ConcurrentPublication.commitPad c.inner c.publisher := by
  unfold partway ConcurrentPublication.commitPad
  by_cases hroom : dataHeaderLength ≤ c.remaining
  · have hroom' : dataHeaderLength ≤ c.inner.log.termLength - c.publisher.termOffset := hroom
    simp only [if_pos hroom, if_pos hroom']
    rfl
  · have hroom' : ¬ dataHeaderLength ≤ c.inner.log.termLength - c.publisher.termOffset := hroom
    simp only [if_neg hroom, if_neg hroom']

theorem toNetwork_storeRotation (c : PublicationPair) :
    (c.partway .rotate).storeRotation.toNetwork = c.toNetwork.padAndRotate := by
  have hlog : (c.partway .rotate).inner.log = c.toNetwork.rawLog.writePadFrame
      (partitionIndex c.toNetwork.activeTermId c.toNetwork.initialTermId) c.toNetwork.termOffset :=
    c.partway_rotate_log.trans (ConcurrentPublication.commitPad_eq c.inner c.publisher)
  rw [NetworkPublication.padAndRotate, ← hlog]
  unfold partway
  split_ifs
  · rfl
  · rfl

/-- **What the tests of `offer` decide**: nothing is stored, a frame, or a pad and a rotation. -/
theorem beginOffer_cases (c : PublicationPair) (payload : List UInt8) :
    (¬ c.toNetwork.Admits payload ∧ c.beginOffer payload = .idle) ∨
    (c.toNetwork.Admits payload ∧ ¬ c.toNetwork.Rotates payload ∧
      c.beginOffer payload = .header payload) ∨
    (c.toNetwork.Rotates payload ∧
      c.beginOffer payload = if dataHeaderLength ≤ c.remaining then .padHeader else .rotate) := by
  have hback : wrapI64 (c.publisher.pubPositionLocal - c.inner.senderPosition) =
      wrapI64 (c.toNetwork.pubPosition - c.toNetwork.senderPosition) := by
    rw [← c.pub_sync]
    rfl
  unfold beginOffer
  by_cases hlen : c.inner.maxPayloadLength < payload.length
  · rw [if_pos hlen]
    exact .inl ⟨fun h => absurd h.1 (Nat.not_le.mpr hlen), rfl⟩
  rw [if_neg hlen, hback]
  by_cases hbp : (c.inner.log.termLength : Int) * (partitionCount - 1) ≤
      wrapI64 (c.toNetwork.pubPosition - c.toNetwork.senderPosition)
  · rw [if_pos hbp]
    exact .inl ⟨fun h => absurd h.2 (Int.not_lt.mpr hbp), rfl⟩
  have hadmits : c.toNetwork.Admits payload := ⟨Nat.not_lt.mp hlen, Int.not_le.mp hbp⟩
  rw [if_neg hbp]
  by_cases hfull : c.inner.log.termLength <
      (c.publisher.termOffset + alignFrameLength (32 + payload.length)) % 2 ^ 32
  · rw [if_pos hfull]
    exact .inr (.inr ⟨⟨hadmits, hfull⟩, rfl⟩)
  · rw [if_neg hfull]
    exact .inr (.inl ⟨hadmits, fun h => hfull h.2, rfl⟩)

/-- **Left alone, the publisher makes the call**: after at most four stores the offer is complete. -/
theorem iterate_storeNext (c : PublicationPair) (payload : List UInt8) :
    (storeNext^[4] (c, c.beginOffer payload)).1.toNetwork = (c.offer payload).1.toNetwork ∧
      (storeNext^[4] (c, c.beginOffer payload)).2 = .idle := by
  have hcall : (c.offer payload).1.toNetwork = (c.toNetwork.offer payload).1 :=
    congrArg Prod.fst (c.toNetwork_offer payload)
  rw [hcall]
  rcases c.beginOffer_cases payload with ⟨hno, hnext⟩ | ⟨hadmits, hfit, hnext⟩ | ⟨hrot, hnext⟩
  · rw [hnext]
    rcases c.toNetwork.offer_cases payload with ⟨-, heq, -⟩ | ⟨hadmits, -⟩ | ⟨hrot, -⟩
    · exact ⟨heq.symm, rfl⟩
    · exact absurd hadmits hno
    · exact absurd hrot.1 hno
  · rw [hnext, NetworkPublication.offer_of_fits hadmits hfit]
    exact ⟨c.toNetwork_storePosition payload, rfl⟩
  · rw [hnext, NetworkPublication.offer_of_rotates hrot, ← c.toNetwork_storeRotation]
    unfold partway
    split_ifs
    · exact ⟨rfl, rfl⟩
    · exact ⟨rfl, rfl⟩

end PublicationPair

/-! ## The steps of `sender_scan` -/

/-- The local variables of the loop of `sender_scan`. -/
structure ScanCursor where
  partBase : Nat
  pos : Nat
  scanned : Nat
  limit : Nat

/-- How far the sender is in `sender_scan`: in its loop, or behind it. -/
inductive Scanning
  | idle
  | looping (k : ScanCursor)
  | ended (scanned : Nat)

namespace PublicationPair

/-- `sender_scan` before its loop. -/
def scanStart (c : PublicationPair) (limit : Nat) : ScanCursor :=
  let termId := c.inner.initialTermId +
    BitVec.ofInt 32 (c.sender.senderPositionLocal >>> c.inner.positionBitsToShift)
  let termOffset := landI64 c.sender.senderPositionLocal c.inner.termLengthMask
  let remainingInTerm := c.inner.log.termLength - termOffset
  { partBase := partitionIndex termId c.inner.initialTermId * c.inner.log.termLength
    pos := termOffset
    scanned := 0
    limit := if limit < remainingInTerm then limit else remainingInTerm }

/-- A round of the loop: the frame that it emits, with its address, if it does not end the loop. -/
def scanRound (c : PublicationPair) (k : ScanCursor) : Scanning × List (Nat × List UInt8) :=
  if k.pos < c.inner.log.termLength ∧ k.scanned < k.limit then
    match frameAt c.inner.log.buffer k.partBase c.inner.log.termLength k.pos with
    | none => (.ended k.scanned, [])
    | some len =>
        (.looping { k with
          pos := k.pos + alignFrameLength len
          scanned := k.scanned + alignFrameLength len },
        [(k.partBase + k.pos, c.inner.log.buffer.read (k.partBase + k.pos) len)])
  else (.ended k.scanned, [])

def scanNext (c : PublicationPair) :
    Scanning × List (Nat × List UInt8) → Scanning × List (Nat × List UInt8)
  | (.looping k, emitted) => ((c.scanRound k).1, emitted ++ (c.scanRound k).2)
  | (s, emitted) => (s, emitted)

def senderAt (c : PublicationPair) (senderPosition : Int) : PublicationPair :=
  ⟨{ c.inner with senderPosition }, c.publisher, { senderPositionLocal := senderPosition },
    c.pub_sync, rfl⟩

/-- The store of the sender's position behind the loop. -/
def storeSenderPosition (c : PublicationPair) (scanned : Nat) : PublicationPair :=
  if 0 < scanned then c.senderAt (c.sender.senderPositionLocal + scanned) else c

theorem iterate_scanNext_ended (c : PublicationPair) (n scanned : Nat)
    (emitted : List (Nat × List UInt8)) :
    c.scanNext^[n] (.ended scanned, emitted) = (.ended scanned, emitted) := by
  induction n with
  | zero => rfl
  | succ n ih => exact ih

/-- **Left alone, the sender goes through its loop**: the frames are those of the scan. -/
theorem iterate_scanNext (c : PublicationPair) (k : ScanCursor) (emitted : List (Nat × List UInt8))
    {fuel : Nat} (hfuel : c.inner.log.termLength - k.pos ≤ fuel) :
    let scan := scanLoop c.inner.log.buffer k.partBase c.inner.log.termLength k.limit fuel k.pos
      k.scanned
    c.scanNext^[fuel + 1] (.looping k, emitted) =
      (.ended scan.2, emitted ++ scan.1.map fun f => (k.partBase + f.1, f.2)) := by
  induction fuel generalizing k emitted with
  | zero =>
      have hround : c.scanRound k = (.ended k.scanned, []) := if_neg (by omega)
      simp [scanNext, hround, scanLoop]
  | succ fuel ih =>
      rw [Function.iterate_succ_apply, scanLoop]
      by_cases hgo : k.pos < c.inner.log.termLength ∧ k.scanned < k.limit
      · rw [if_pos hgo]
        cases hframe : frameAt c.inner.log.buffer k.partBase c.inner.log.termLength k.pos with
        | none =>
            have hround : c.scanRound k = (.ended k.scanned, []) := by
              rw [scanRound, if_pos hgo, hframe]
            rw [scanNext, hround, List.append_nil]
            simpa using c.iterate_scanNext_ended (fuel + 1) k.scanned emitted
        | some len =>
            have hround : c.scanRound k =
                (.looping { k with
                  pos := k.pos + alignFrameLength len
                  scanned := k.scanned + alignFrameLength len },
                [(k.partBase + k.pos, c.inner.log.buffer.read (k.partBase + k.pos) len)]) := by
              rw [scanRound, if_pos hgo, hframe]
            obtain ⟨hlen, -⟩ := le_alignFrameLength_of_frameAt hframe
            rw [scanNext, hround, ih _ _ (by dsimp only; omega)]
            simp
      · have hround : c.scanRound k = (.ended k.scanned, []) := if_neg hgo
        rw [if_neg hgo, scanNext, hround, List.append_nil]
        simpa using c.iterate_scanNext_ended (fuel + 1) k.scanned emitted

/-- **Left alone, the sender makes the call**: it emits the frames of `sender_scan` and stores its
position. -/
theorem senderScan_eq_rounds (c : PublicationPair) (limit : Nat) :
    c.scanNext^[c.inner.log.termLength + 1] (.looping (c.scanStart limit), []) =
        (.ended (c.senderScan limit).2.2, (c.senderScan limit).2.1.map fun f =>
          ((c.scanStart limit).partBase + f.1, f.2)) ∧
      (c.storeSenderPosition (c.senderScan limit).2.2).toNetwork =
        (c.senderScan limit).1.toNetwork := by
  have hscan : (c.senderScan limit).2 = SenderPublication.scan c.inner c.sender limit := by
    unfold senderScan SenderPublication.senderScan
    dsimp only
    split_ifs
    · rfl
    · rfl
  refine ⟨?_, ?_⟩
  · rw [c.iterate_scanNext _ _ (Nat.sub_le _ _), hscan, List.nil_append]
    simp only [SenderPublication.scan, SenderPublication.termLoop_eq]
    rfl
  · rw [hscan]
    unfold storeSenderPosition senderScan SenderPublication.senderScan toNetwork
    dsimp only
    split_ifs
    · rfl
    · rfl

end PublicationPair

/-! ## Both threads -/

/-- One step of either thread: `offer` is called, it makes its next store; `sender_scan` is called, it
takes its next round or stores the sender's position; `do_send` flushes. -/
inductive FlushAction
  | offer (payload : List UInt8)
  | store
  | beginScan (limit : Nat)
  | scan
  | flush

/-- **A publication between two threads**, with the frames that are submitted and not yet flushed
(their addresses in the log, and the bytes that were scanned there), the sender's position at the last
flush, and the datagrams: the bytes that the kernel read, with those that had been scanned. -/
structure PublicationThreads where
  pair : PublicationPair
  offering : Offering
  scanning : Scanning
  submitted : List (Nat × List UInt8)
  flushed : Int
  datagrams : List (List UInt8 × List UInt8)

namespace PublicationThreads

/-- A publication with no call under way and nothing submitted. -/
def start (c : PublicationPair) : PublicationThreads :=
  ⟨c, .idle, .idle, [], c.inner.senderPosition, []⟩

def network (s : PublicationThreads) : NetworkPublication := s.pair.toNetwork

def buffer (s : PublicationThreads) : ByteStore := s.pair.inner.log.buffer

/-- `offer` is called, unless a call is under way. -/
def offer (s : PublicationThreads) (payload : List UInt8) : PublicationThreads :=
  match s.offering with
  | .idle => { s with offering := s.pair.beginOffer payload }
  | _ => s

def store (s : PublicationThreads) : PublicationThreads :=
  let next := PublicationPair.storeNext (s.pair, s.offering)
  { s with pair := next.1, offering := next.2 }

/-- `sender_scan` is called, unless a call is under way. -/
def beginScan (s : PublicationThreads) (limit : Nat) : PublicationThreads :=
  match s.scanning with
  | .idle => { s with scanning := .looping (s.pair.scanStart limit) }
  | _ => s

/-- The next round of `sender_scan`, or the store behind its loop. The callback of `do_send` submits
what is not a pad. -/
def scan (s : PublicationThreads) : PublicationThreads :=
  match s.scanning with
  | .idle => s
  | .looping k =>
      let round := s.pair.scanRound k
      { s with
        scanning := round.1
        submitted := s.submitted ++ round.2.filter fun f => frameTypeOf f.2 != frameTypePad }
  | .ended scanned =>
      { s with pair := s.pair.storeSenderPosition scanned, scanning := .idle }

/-- The flush of `do_send`: the kernel reads what was submitted. -/
def flush (s : PublicationThreads) : PublicationThreads :=
  match s.scanning with
  | .idle =>
      { s with
        submitted := []
        flushed := s.network.senderPosition
        datagrams := s.datagrams ++
          s.submitted.map fun f => (s.buffer.read f.1 f.2.length, f.2) }
  | _ => s

def step (s : PublicationThreads) : FlushAction → PublicationThreads
  | .offer payload => s.offer payload
  | .store => s.store
  | .beginScan limit => s.beginScan limit
  | .scan => s.scan
  | .flush => s.flush

end PublicationThreads

end AeronRs
