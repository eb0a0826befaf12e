import AeronRs.Media.ChannelEndpoints
import AeronRs.Media.LogRecord
import AeronRs.Media.SharedImage

/-! # Images of the receiver agent

What `receiver.rs` does with the data and setup frames of one image. **`onData`** notes a gap,
rotates the image if the frame is of a later term, and appends the frame unless its term is too far
behind; the offsets and the receiver's position then only move forward. **`onSetup`** creates the
image. The table in which the agent looks images up is not part of this file. -/

namespace AeronRs

def maxPendingNaksPerCycle : Nat := 64

def i32HalfMax : Int := 2 ^ 30 - 1

def i64HalfMax : Int := 2 ^ 62 - 1

/-- `ImageEntry`, the fields that are read. -/
structure ImageEntry where
  sessionId : BitVec 32
  streamId : BitVec 32
  sourceAddr : SockAddr
  initialTermId : BitVec 32
  activeTermId : BitVec 32
  termLength : Nat
  consumptionTermId : BitVec 32
  consumptionTermOffset : BitVec 32
  receiverWindow : BitVec 32
  expectedTermOffset : BitVec 32
  timeOfLastSmNs : Int
  timeOfLastNakNs : Int
  smPending : Bool
  active : Bool

/-- `InlineHandler`, apart from the images. The NAK queue is the filled part of its array. -/
structure InlineHandler where
  nowNs : Int
  nakDelayNs : Int
  nakQueue : List PendingNak
  sendSmOnData : Bool
  receiverWindowOverride : Option (BitVec 32)

/-- One image of the receiver: its entry and its handles. -/
structure ImageState where
  entry : ImageEntry
  image : SharedImage

namespace ImageEntry

/-- The gap test of `on_data`: a frame of the active term beyond the expected offset. -/
def HasGap (img : ImageEntry) (header : DataHeader) : Prop :=
  0 < (header.termOffset - img.expectedTermOffset).toInt ∧
    (header.termOffset - img.expectedTermOffset).toInt < i32HalfMax ∧
    header.termId = img.activeTermId

instance (img : ImageEntry) (header : DataHeader) : Decidable (img.HasGap header) :=
  inferInstanceAs (Decidable (_ ∧ _ ∧ _))

/-- The NAK for the gap before a frame. -/
def gapNak (img : ImageEntry) (header : DataHeader) : PendingNak where
  destAddr := img.sourceAddr
  sessionId := header.sessionId
  streamId := header.streamId
  activeTermId := img.activeTermId
  termOffset := img.expectedTermOffset
  length := header.termOffset - img.expectedTermOffset

/-- Gap detection: at most one NAK for each delay. -/
def noteGap (handler : InlineHandler) (img : ImageEntry) (header : DataHeader) :
    ImageEntry × InlineHandler :=
  let sinceLast := wrapI64 (handler.nowNs - img.timeOfLastNakNs)
  if img.HasGap header ∧ 0 ≤ sinceLast ∧ handler.nakDelayNs ≤ sinceLast then
    ({ img with timeOfLastNakNs := handler.nowNs },
      { handler with
        nakQueue := queuePending maxPendingNaksPerCycle handler.nakQueue (img.gapNak header) })
  else (img, handler)

/-- Gap detection changes nothing of an entry but the time of the last NAK. -/
theorem noteGap_fst (handler : InlineHandler) (img : ImageEntry) (header : DataHeader) :
    (img.noteGap handler header).1 =
      { img with timeOfLastNakNs := (img.noteGap handler header).1.timeOfLastNakNs } := by
  unfold noteGap
  dsimp only
  split_ifs <;> rfl

/-- The frame is of a later term than the active one. -/
def IsAhead (img : ImageEntry) (termId : BitVec 32) : Prop :=
  0 < (termId - img.activeTermId).toInt ∧ (termId - img.activeTermId).toInt < i32HalfMax

instance (img : ImageEntry) (termId : BitVec 32) : Decidable (img.IsAhead termId) :=
  inferInstanceAs (Decidable (_ ∧ _))

/-- Clean the partitions of the next `steps` terms. -/
def cleanTerms (img : ImageEntry) (inner : ImageInner) (steps : Nat) : ImageInner :=
  (List.range' 1 steps).foldl (fun inner s =>
    ReceiverImage.cleanPartition inner
      (partitionIndex (img.activeTermId + BitVec.ofNat 32 s) img.initialTermId)) inner

def rotate (img : ImageEntry) (inner : ImageInner) (termId : BitVec 32) :
    ImageEntry × ImageInner :=
  if img.IsAhead termId then
    ({ img with
        activeTermId := termId
        consumptionTermId := termId
        consumptionTermOffset := 0
        expectedTermOffset := 0 },
      img.cleanTerms inner (min (termId - img.activeTermId).toNat partitionCount))
  else (img, inner)

/-- An offset that only moves forward. -/
def advanceOffset (offset alignedEnd : BitVec 32) : BitVec 32 :=
  if 0 < (alignedEnd - offset).toInt ∧ (alignedEnd - offset).toInt < i32HalfMax then alignedEnd
  else offset

/-- The entry after a frame of a term was appended up to an offset. -/
def noteAppended (handler : InlineHandler) (img : ImageEntry) (termId : BitVec 32)
    (newOffset : Nat) : ImageEntry :=
  let alignedEnd := BitVec.ofNat 32 newOffset
  { img with
    consumptionTermOffset :=
      if termId = img.consumptionTermId then advanceOffset img.consumptionTermOffset alignedEnd
      else img.consumptionTermOffset
    expectedTermOffset :=
      if termId = img.activeTermId then advanceOffset img.expectedTermOffset alignedEnd
      else img.expectedTermOffset
    smPending := img.smPending || handler.sendSmOnData }

/-- The status message that `send_control_messages` queues for an image. -/
def statusMessage (img : ImageEntry) (receiverId : BitVec 64) : PendingSm where
  destAddr := img.sourceAddr
  sessionId := img.sessionId
  streamId := img.streamId
  consumptionTermId := img.consumptionTermId
  consumptionTermOffset := img.consumptionTermOffset
  receiverWindow := img.receiverWindow
  receiverId

end ImageEntry

namespace ReceiverImage

/-- The receiver's position only moves forward. -/
def advanceTo (inner : ImageInner) (r : ReceiverImage) (newPos : Int) : ImageInner × ReceiverImage :=
  let advance := wrapI64 (newPos - r.receiverPositionLocal)
  if 0 < advance ∧ advance < i64HalfMax then advanceReceiverPosition inner newPos else (inner, r)

/-- Moving the receiver's position leaves the log alone. -/
@[simp] theorem advanceTo_log (inner : ImageInner) (r : ReceiverImage) (newPos : Int) :
    (advanceTo inner r newPos).1.log = inner.log := by
  unfold advanceTo
  dsimp only
  split_ifs <;> rfl

/-- **The receiver's position** moves to a greater one, if both are within half the range. -/
theorem advanceTo_receiverPosition {inner : ImageInner} {r : ReceiverImage} {newPos : Int}
    (hsync : inner.receiverPosition = r.receiverPositionLocal)
    (hnear : |newPos - inner.receiverPosition| < i64HalfMax) :
    (advanceTo inner r newPos).1.receiverPosition = max newPos inner.receiverPosition := by
  unfold i64HalfMax at hnear
  rw [abs_lt] at hnear
  unfold advanceTo i64HalfMax
  rw [← hsync, wrapI64_of_range (by omega) (by omega)]
  dsimp only
  split_ifs with hforward
  · change newPos = _
    omega
  · change inner.receiverPosition = _
    omega

/-- Moving the receiver on moves nothing else, and keeps its copy in step. -/
theorem advanceTo_sync {inner : ImageInner} {r : ReceiverImage} (newPos : Int)
    (h : inner.receiverPosition = r.receiverPositionLocal) :
    (advanceTo inner r newPos).1.receiverPosition = (advanceTo inner r newPos).2.receiverPositionLocal ∧
      (advanceTo inner r newPos).1.subscriberPosition = inner.subscriberPosition := by
  rw [advanceTo]
  split_ifs
  · exact ⟨rfl, rfl⟩
  · exact ⟨h, rfl⟩

/-- The last part of `on_data`: reject the frame if its term is too far behind, otherwise append
it. -/
def store (handler : InlineHandler) (img : ImageEntry) (inner : ImageInner) (r : ReceiverImage)
    (header : DataHeader) (payload : List UInt8) : ImageEntry × ImageInner × ReceiverImage :=
  if partitionCount ≤ (img.activeTermId - header.termId).toNat then (img, inner, r)
  else
    let pidx := partitionIndex header.termId img.initialTermId
    match appendFrame inner pidx header.termOffset.toNat header payload with
    | .error _ => (img, inner, r)
    | .ok (inner, newOffset) =>
        let newPos :=
          (header.termId - img.initialTermId).toInt * img.termLength + (newOffset : Int)
        (img.noteAppended handler header.termId newOffset, advanceTo inner r newPos)

/-- A frame that is too old or does not fit is not stored. -/
theorem store_of_rejected {img : ImageEntry} {inner : ImageInner} {header : DataHeader}
    {payload : List UInt8} (handler : InlineHandler) (r : ReceiverImage)
    (h : (img.activeTermId - header.termId).toNat < partitionCount → inner.log.termLength <
      (header.termOffset.toNat + alignFrameLength (32 + payload.length)) % 2 ^ 32) :
    store handler img inner r header payload = (img, inner, r) := by
  unfold store
  split_ifs with hold
  · rfl
  · have happend : appendFrame inner (partitionIndex header.termId img.initialTermId)
        header.termOffset.toNat header payload = .error .termFull := by
      unfold appendFrame
      rw [if_neg (Nat.not_le.mpr (partitionIndex_lt _ _))]
      exact if_pos (h (Nat.not_le.mp hold))
    dsimp only
    rw [happend]

/-- **A frame of the last four terms that fits is stored.** -/
theorem store_of_fits {img : ImageEntry} {inner : ImageInner} {header : DataHeader}
    {payload : List UInt8} (handler : InlineHandler) (r : ReceiverImage)
    (hbehind : (img.activeTermId - header.termId).toNat < partitionCount)
    (hfits : (header.termOffset.toNat + alignFrameLength (32 + payload.length)) % 2 ^ 32 ≤
      inner.log.termLength) :
    store handler img inner r header payload =
      (img.noteAppended handler header.termId
          ((header.termOffset.toNat + alignFrameLength (32 + payload.length)) % 2 ^ 32),
        advanceTo (inner.withBuffer (storeFrame inner.log.buffer
          (partitionIndex header.termId img.initialTermId * inner.log.termLength +
            header.termOffset.toNat) header payload)) r
          ((header.termId - img.initialTermId).toInt * img.termLength +
            (((header.termOffset.toNat + alignFrameLength (32 + payload.length)) % 2 ^ 32 : Nat) :
              Int))) := by
  have happend := appendFrame_eq_ok.mpr ⟨partitionIndex_lt header.termId img.initialTermId, hfits,
    rfl, (rfl : inner.withBuffer (storeFrame inner.log.buffer
      (partitionIndex header.termId img.initialTermId * inner.log.termLength +
        header.termOffset.toNat) header payload) = _)⟩
  unfold store
  rw [if_neg (Nat.not_le.mpr hbehind)]
  dsimp only
  rw [happend]

/-- Storing a frame moves no position but the receiver's, and keeps its copy in step. -/
theorem store_sync (handler : InlineHandler) (img : ImageEntry) (inner : ImageInner)
    (r : ReceiverImage) (header : DataHeader) (payload : List UInt8)
    (h : inner.receiverPosition = r.receiverPositionLocal) :
    (store handler img inner r header payload).2.1.receiverPosition =
        (store handler img inner r header payload).2.2.receiverPositionLocal ∧
      (store handler img inner r header payload).2.1.subscriberPosition =
        inner.subscriberPosition := by
  unfold store
  split_ifs
  · exact ⟨h, rfl⟩
  · dsimp only
    split
    · exact ⟨h, rfl⟩
    · next inner' newOffset happend =>
        obtain ⟨-, -, -, rfl⟩ := appendFrame_eq_ok.mp happend
        exact advanceTo_sync _ h

end ReceiverImage

theorem ImageEntry.rotate_positions (img : ImageEntry) (inner : ImageInner) (termId : BitVec 32) :
    (img.rotate inner termId).2.receiverPosition = inner.receiverPosition ∧
      (img.rotate inner termId).2.subscriberPosition = inner.subscriberPosition := by
  unfold rotate cleanTerms
  split_ifs
  · generalize List.range' 1 _ = terms
    dsimp only
    induction terms generalizing inner with
    | nil => exact ⟨rfl, rfl⟩
    | cons s terms ih => exact ih _
  · exact ⟨rfl, rfl⟩

/-- The stream that a setup frame announces. -/
def SetupHeader.ids (setup : SetupHeader) : StreamIds where
  initialTermId := setup.initialTermId
  sessionId := setup.sessionId
  streamId := setup.streamId
  termLength := setup.termLength.toNat

/-- The number of the term that a setup frame gives as the active one. -/
def SetupHeader.activeTerm (setup : SetupHeader) : Nat :=
  (setup.activeTermId - setup.initialTermId).toNat

/-- The stream position that a setup frame gives. -/
def SetupHeader.position (setup : SetupHeader) : Nat :=
  setup.activeTerm * setup.ids.termLength + setup.termOffset.toNat

namespace ImageState

/-- The entry and the receiver's side of the image after `on_data`. -/
def received (handler : InlineHandler) (s : ImageState) (header : DataHeader)
    (payload : List UInt8) : ImageEntry × ImageInner × ReceiverImage :=
  let noted := s.entry.noteGap handler header
  let rotated := noted.1.rotate s.image.inner header.termId
  ReceiverImage.store handler rotated.1 rotated.2 s.image.receiver header payload

theorem received_sync (handler : InlineHandler) (s : ImageState) (header : DataHeader)
    (payload : List UInt8) :
    (s.received handler header payload).2.1.receiverPosition =
        (s.received handler header payload).2.2.receiverPositionLocal ∧
      (s.received handler header payload).2.1.subscriberPosition =
        s.image.subscriber.subscriberPositionLocal := by
  have hrotate := (s.entry.noteGap handler header).1.rotate_positions s.image.inner header.termId
  have hstore := ReceiverImage.store_sync handler
    ((s.entry.noteGap handler header).1.rotate s.image.inner header.termId).1
    ((s.entry.noteGap handler header).1.rotate s.image.inner header.termId).2 s.image.receiver header
    payload (hrotate.1.trans s.image.receiver_sync)
  exact ⟨hstore.1, hstore.2.trans (hrotate.2.trans s.image.subscriber_sync)⟩

/-- `on_data`, for the image that the frame belongs to. -/
def onData (handler : InlineHandler) (s : ImageState) (header : DataHeader) (payload : List UInt8) :
    ImageState × InlineHandler :=
  let r := s.received handler header payload
  have hsync := s.received_sync handler header payload
  (⟨r.1, r.2.1, r.2.2, s.image.subscriber, hsync.1, hsync.2⟩,
    (s.entry.noteGap handler header).2)

@[simp] theorem onData_entry (handler : InlineHandler) (s : ImageState) (header : DataHeader)
    (payload : List UInt8) :
    (s.onData handler header payload).1.entry = (s.received handler header payload).1 := rfl

@[simp] theorem onData_inner (handler : InlineHandler) (s : ImageState) (header : DataHeader)
    (payload : List UInt8) :
    (s.onData handler header payload).1.image.inner = (s.received handler header payload).2.1 := rfl

/-- Whether `on_data` stores the frame: its term is not too far behind and it fits. -/
def stores (handler : InlineHandler) (s : ImageState) (header : DataHeader) (payload : List UInt8) :
    Bool :=
  let noted := s.entry.noteGap handler header
  let rotated := noted.1.rotate s.image.inner header.termId
  decide ((rotated.1.activeTermId - header.termId).toNat < partitionCount) &&
    (ReceiverImage.appendFrame rotated.2 (partitionIndex header.termId rotated.1.initialTermId)
      header.termOffset.toNat header payload).isOk

/-- `on_setup`, for a session and stream that have no image yet, below the maximum number of
images. -/
def onSetup (handler : InlineHandler) (setup : SetupHeader) (source : SockAddr) :
    Option ImageState :=
  if setup.termLength.toInt < 32 ∨ isPowerOfTwo setup.termLength.toNat = false then none
  else
    (SharedImage.newSharedImage setup.sessionId setup.streamId setup.initialTermId
      setup.activeTermId setup.termLength.toNat setup.termOffset).map fun image =>
      { entry :=
          { sessionId := setup.sessionId
            streamId := setup.streamId
            sourceAddr := source
            initialTermId := setup.initialTermId
            activeTermId := setup.activeTermId
            termLength := setup.termLength.toNat
            consumptionTermId := setup.activeTermId
            consumptionTermOffset := setup.termOffset
            receiverWindow :=
              handler.receiverWindowOverride.getD (BitVec.ofInt 32 (setup.termLength.toInt / 2))
            expectedTermOffset := setup.termOffset
            timeOfLastSmNs := 0
            timeOfLastNakNs := 0
            smPending := false
            active := true }
        image }

/-- **A setup frame is valid** exactly if its term length is a power of two and, as a signed word, at
least the length of a header. -/
theorem onSetup_isSome_iff {handler : InlineHandler} {setup : SetupHeader} {source : SockAddr} :
    (onSetup handler setup source).isSome = true ↔
      32 ≤ setup.termLength.toInt ∧ isPowerOfTwo setup.termLength.toNat = true := by
  have hlt := setup.termLength.isLt
  unfold onSetup SharedImage.newSharedImage RawLog.new
  split_ifs with hinvalid hlog
  · rcases hinvalid with hshort | hpow
    · simp [Int.not_le.mpr hshort]
    · simp [hpow]
  · rw [not_or, Bool.not_eq_false] at hinvalid
    exact iff_of_true rfl ⟨by omega, hinvalid.2⟩
  · rw [not_or, Bool.not_eq_false] at hinvalid
    have hnat := toNat_eq_toInt (w := setup.termLength) (by omega)
    exact absurd ⟨by omega, hlt, hinvalid.2⟩ hlog

/-- `poll_fragments`, by the subscriber of the image. -/
def poll (s : ImageState) (limit : Int) : ImageState × List Fragment :=
  (⟨s.entry, (s.image.poll limit).1⟩, (s.image.poll limit).2)

end ImageState

end AeronRs
