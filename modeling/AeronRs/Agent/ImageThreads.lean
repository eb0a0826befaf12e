import AeronRs.Agent.ImageDelivery

/-! # The two threads of an image

`on_data` and `poll_fragments` run on different threads, and what one of them stores the other may
load in between. Here every store of **`append_frame`** (the header with length zero, the payload, the
length word that commits the frame) and every load of **`poll_fragments`** (a length word, the
receiver's position, a type, a payload) is a step of its own, and a run is any interleaving.

**`Appending`** and **`Polling`** say how far the two threads are. When a thread is left alone for the
length of a call, its steps are the call: `run_stores` for `on_data`, `exists_run_loads` for
`poll_fragments`, and **`calls_run_as_steps`** for any sequence of calls. -/

namespace AeronRs

open Runs

/-! ## The steps of `on_data` -/

/-- How far the receiver is in `on_data`: what it stores next. -/
inductive Appending (T : Nat)
  | idle
  | header (handler : InlineHandler) (f : StreamFrame T)
  | payload (handler : InlineHandler) (f : StreamFrame T)
  | commit (handler : InlineHandler) (f : StreamFrame T)
  | advance (handler : InlineHandler) (f : StreamFrame T)

namespace SharedImage

def withBuffer (image : SharedImage) (m : ByteStore) : SharedImage :=
  ⟨image.inner.withBuffer m, image.receiver, image.subscriber, image.receiver_sync,
    image.subscriber_sync⟩

end SharedImage

namespace ImageState

/-- `on_data` before it appends: the gap is noted and the image is rotated. -/
def prepare (handler : InlineHandler) (s : ImageState) (header : DataHeader) : ImageState :=
  let noted := s.entry.noteGap handler header
  let rotated := noted.1.rotate s.image.inner header.termId
  have hpositions := noted.1.rotate_positions s.image.inner header.termId
  ⟨rotated.1, rotated.2, s.image.receiver, s.image.subscriber,
    hpositions.1.trans s.image.receiver_sync, hpositions.2.trans s.image.subscriber_sync⟩

/-- The address at which `append_frame` stores a frame. -/
def frameBase (s : ImageState) (header : DataHeader) : Nat :=
  partitionIndex header.termId s.entry.initialTermId * s.image.inner.log.termLength +
    header.termOffset.toNat

def withBuffer (s : ImageState) (m : ByteStore) : ImageState := ⟨s.entry, s.image.withBuffer m⟩

/-- The first store of `append_frame`: the header with length zero. -/
def storeHeader (s : ImageState) (header : DataHeader) : ImageState :=
  let uncommitted : DataHeader := { header with frameHeader.frameLength := 0 }
  s.withBuffer (s.image.inner.log.buffer.write (s.frameBase header) uncommitted.encode)

/-- The second store of `append_frame`: the payload. -/
def storePayload (s : ImageState) (header : DataHeader) (payload : List UInt8) : ImageState :=
  s.withBuffer (s.image.inner.log.buffer.write (s.frameBase header + dataHeaderLength) payload)

/-- The third store of `append_frame`: the length word. -/
def storeLength (s : ImageState) (header : DataHeader) (payload : List UInt8) : ImageState :=
  s.withBuffer (atomicFrameLengthStore s.image.inner.log.buffer (s.frameBase header)
    (BitVec.ofNat 32 (dataHeaderLength + payload.length)))

/-- `on_data` after it has appended: the offsets and the receiver's position move on. -/
def appended (handler : InlineHandler) (s : ImageState) (header : DataHeader)
    (payload : List UInt8) : ImageState :=
  let newOffset : Nat :=
    (header.termOffset.toNat + alignFrameLength (dataHeaderLength + payload.length)) % 2 ^ 32
  let newPos :=
    (header.termId - s.entry.initialTermId).toInt * s.entry.termLength + (newOffset : Int)
  let r := ReceiverImage.advanceTo s.image.inner s.image.receiver newPos
  have hsync := ReceiverImage.advanceTo_sync newPos s.image.receiver_sync
  ⟨s.entry.noteAppended handler header.termId newOffset, r.1, r.2, s.image.subscriber, hsync.1,
    hsync.2.trans s.image.subscriber_sync⟩

/-- The last store of `poll_fragments`: the subscriber's position. -/
def scanned (s : ImageState) (bytesScanned : Nat) : ImageState :=
  if 0 < bytesScanned then
    let position := s.image.subscriber.subscriberPositionLocal + bytesScanned
    ⟨s.entry, { s.image.inner with subscriberPosition := position }, s.image.receiver, ⟨position⟩,
      s.image.receiver_sync, rfl⟩
  else s

/-- The end of a poll moves the subscriber and nothing else. -/
theorem scanned_spec (s : ImageState) (n : Nat) :
    (s.scanned n).entry = s.entry ∧
      (s.scanned n).image.inner =
        { s.image.inner with subscriberPosition := (s.scanned n).image.inner.subscriberPosition } ∧
      (s.scanned n).image.subscriber.subscriberPositionLocal =
        s.image.subscriber.subscriberPositionLocal + n := by
  rw [scanned]
  split_ifs with hpos
  · exact ⟨rfl, rfl, rfl⟩
  · obtain rfl : n = 0 := Nat.eq_zero_of_not_pos hpos
    exact ⟨rfl, rfl, (Int.add_zero _).symm⟩

end ImageState

/-! ## The steps of `poll_fragments` -/

/-- The local variables of a poll. -/
structure PollCursor where
  limit : Int
  pos : Nat
  fragments : Nat
  scanned : Nat

/-- A number of bytes further on. -/
def PollCursor.forward (c : PollCursor) (n : Nat) : PollCursor :=
  { c with pos := c.pos + n, scanned := c.scanned + n }

/-- How far the subscriber is in `poll_fragments`: at the top of the loop, at the test for a gap, in
the search behind a gap, before it reads the type or the payload of a frame of a certain length, or
behind the loop. -/
inductive Polling
  | idle
  | top (c : PollCursor)
  | gapTest (c : PollCursor)
  | skip (c : PollCursor) (skip : Nat)
  | frameType (c : PollCursor) (frameLength : BitVec 32)
  | payload (c : PollCursor) (frameLength : BitVec 32)
  | finish (c : PollCursor)

/-- One step of either thread: `on_data` is called, it makes its next store, `poll_fragments` is
called, it makes its next load. -/
inductive ThreadAction (T : Nat)
  | data (handler : InlineHandler) (f : StreamFrame T)
  | store
  | poll (limit : Int)
  | load

/-- **An image between two threads**, with the frames that were committed, the latest first, and the
fragments that were delivered, in order. -/
structure ImageThreads (ids : StreamIds) where
  state : ImageState
  appending : Appending ids.termLength
  polling : Polling
  committed : List (StreamFrame ids.termLength)
  delivered : List Fragment

namespace ImageThreads

variable {ids : StreamIds}

/-- A new image, with no call under way. -/
def start (ids : StreamIds) (state : ImageState) : ImageThreads ids := ⟨state, .idle, .idle, [], []⟩

def buffer (s : ImageThreads ids) : ByteStore := s.state.image.inner.log.buffer

def subscriberPosition (s : ImageThreads ids) : Int :=
  s.state.image.subscriber.subscriberPositionLocal

def partBase (s : ImageThreads ids) : Nat :=
  partitionIndex (s.state.image.subscriber.termId s.state.image.inner)
    s.state.image.inner.initialTermId * s.state.image.inner.log.termLength

/-- `on_data` is called, unless a call is under way. -/
def data (s : ImageThreads ids) (handler : InlineHandler) (f : StreamFrame ids.termLength) :
    ImageThreads ids :=
  match s.appending with
  | .idle =>
      { s with
        state := s.state.prepare handler (f.header ids)
        appending :=
          if s.state.stores handler (f.header ids) f.payload then .header handler f else .idle }
  | _ => s

/-- The next store of `on_data`. -/
def store (s : ImageThreads ids) : ImageThreads ids :=
  match s.appending with
  | .idle => s
  | .header handler f =>
      { s with state := s.state.storeHeader (f.header ids), appending := .payload handler f }
  | .payload handler f =>
      { s with
        state := s.state.storePayload (f.header ids) f.payload
        appending := .commit handler f }
  | .commit handler f =>
      { s with
        state := s.state.storeLength (f.header ids) f.payload
        appending := .advance handler f
        committed := f :: s.committed }
  | .advance handler f =>
      { s with
        state := s.state.appended handler (f.header ids) f.payload
        appending := .idle }

/-- `poll_fragments` is called, unless a call is under way. -/
def poll (s : ImageThreads ids) (limit : Int) : ImageThreads ids :=
  match s.polling with
  | .idle =>
      if limit ≤ 0 then s
      else
        { s with polling := .top ⟨limit, s.state.image.subscriber.termOffset s.state.image.inner, 0, 0⟩ }
  | _ => s

/-- The top of the loop: the length word is loaded, if the loop goes on. -/
def atTop (s : ImageThreads ids) (c : PollCursor) : ImageThreads ids :=
  let tl := s.state.image.inner.log.termLength
  if c.pos < tl ∧ (c.fragments : Int) < c.limit then
    if tl - c.pos < 4 then { s with polling := .finish c }
    else
      let frameLength := s.buffer.readI32 (s.partBase + c.pos)
      if frameLength.toInt ≤ 0 then { s with polling := .gapTest c }
      else if frameLength.toNat < dataHeaderLength then { s with polling := .finish c }
      else if tl < c.pos + alignFrameLength frameLength.toNat then { s with polling := .finish c }
      else { s with polling := .frameType c frameLength }
  else { s with polling := .finish c }

/-- The test for a gap: the receiver's position is loaded. -/
def atGapTest (s : ImageThreads ids) (c : PollCursor) : ImageThreads ids :=
  if s.state.image.inner.receiverPosition ≤ s.subscriberPosition + c.scanned then
    { s with polling := .finish c }
  else { s with polling := .skip c frameAlignment }

/-- The search behind a gap: the next length word is loaded, or the end of the term is reached and the
skip is clamped to it. -/
def atSkip (s : ImageThreads ids) (c : PollCursor) (skip : Nat) : ImageThreads ids :=
  let tl := s.state.image.inner.log.termLength
  if c.pos + skip < tl then
    if 0 < (s.buffer.readI32 (s.partBase + (c.pos + skip))).toInt then
      { s with polling := .top (c.forward skip) }
    else { s with polling := .skip c (skip + frameAlignment) }
  else { s with polling := .top (c.forward (if tl < c.pos + skip then tl - c.pos else skip)) }

/-- The type of a frame is loaded; a pad is passed over. -/
def atFrameType (s : ImageThreads ids) (c : PollCursor) (frameLength : BitVec 32) :
    ImageThreads ids :=
  if s.buffer.readU16 (s.partBase + c.pos + 6) = frameTypePad then
    { s with polling := .top (c.forward (alignFrameLength frameLength.toNat)) }
  else { s with polling := .payload c frameLength }

/-- The payload of a frame is loaded and handed out. -/
def atPayload (s : ImageThreads ids) (c : PollCursor) (frameLength : BitVec 32) :
    ImageThreads ids :=
  let payload := s.buffer.read (s.partBase + c.pos + dataHeaderLength)
    (frameLength.toNat - dataHeaderLength)
  { s with
    polling := .top { c.forward (alignFrameLength frameLength.toNat) with
      fragments := c.fragments + 1 }
    delivered := s.delivered ++ [⟨s.subscriberPosition + c.scanned, payload,
      s.state.image.inner.sessionId, s.state.image.inner.streamId⟩] }

/-- The next load of `poll_fragments`, or the store of the subscriber's position behind its loop. -/
def load (s : ImageThreads ids) : ImageThreads ids :=
  match s.polling with
  | .idle => s
  | .top c => s.atTop c
  | .gapTest c => s.atGapTest c
  | .skip c skip => s.atSkip c skip
  | .frameType c frameLength => s.atFrameType c frameLength
  | .payload c frameLength => s.atPayload c frameLength
  | .finish c => { s with state := s.state.scanned c.scanned, polling := .idle }

def step (s : ImageThreads ids) : ThreadAction ids.termLength → ImageThreads ids
  | .data handler f => s.data handler f
  | .store => s.store
  | .poll limit => s.poll limit
  | .load => s.load

/-- A call of `on_data` leaves the subscriber's side as it is. -/
theorem data_subscriber (s : ImageThreads ids) (handler : InlineHandler)
    (f : StreamFrame ids.termLength) :
    (s.data handler f).subscriberPosition = s.subscriberPosition ∧
      (s.data handler f).polling = s.polling ∧ (s.data handler f).delivered = s.delivered ∧
      (s.data handler f).committed = s.committed := by
  obtain ⟨state, appending, polling, committed, delivered⟩ := s
  cases appending with
  | _ => exact ⟨rfl, rfl, rfl, rfl⟩

theorem store_subscriber (s : ImageThreads ids) :
    s.store.subscriberPosition = s.subscriberPosition ∧ s.store.polling = s.polling ∧
      s.store.delivered = s.delivered ∧ s.committed ⊆ s.store.committed := by
  obtain ⟨state, appending, polling, committed, delivered⟩ := s
  cases appending with
  | commit handler f => exact ⟨rfl, rfl, rfl, List.subset_cons_self f committed⟩
  | _ => exact ⟨rfl, rfl, rfl, List.Subset.refl _⟩

/-! ### What a load leads to -/

section Loads

variable {s : ImageThreads ids} {c : PollCursor} {skip : Nat}

theorem atTop_of_end
    (h : ¬ (c.pos < s.state.image.inner.log.termLength ∧ (c.fragments : Int) < c.limit)) :
    s.atTop c = { s with polling := .finish c } := if_neg h

theorem atTop_of_gap (hgo : c.pos < s.state.image.inner.log.termLength ∧ (c.fragments : Int) < c.limit)
    (hroom : c.pos + 4 ≤ s.state.image.inner.log.termLength)
    (hword : (s.buffer.readI32 (s.partBase + c.pos)).toInt ≤ 0) :
    s.atTop c = { s with polling := .gapTest c } := by
  rw [atTop, if_pos hgo, if_neg (by omega)]
  exact if_pos hword

/-- A length word that is positive and fits is that of a frame. -/
theorem atTop_of_frame
    (hgo : c.pos < s.state.image.inner.log.termLength ∧ (c.fragments : Int) < c.limit)
    {frameLength : BitVec 32} (hword : s.buffer.readI32 (s.partBase + c.pos) = frameLength)
    (hpos : 0 < frameLength.toInt) (hlen : dataHeaderLength ≤ frameLength.toNat)
    (hfits : c.pos + alignFrameLength frameLength.toNat ≤ s.state.image.inner.log.termLength) :
    s.atTop c = { s with polling := .frameType c frameLength } := by
  have halign := le_alignFrameLength frameLength.toNat
  have hheader : dataHeaderLength = 32 := rfl
  rw [atTop, if_pos hgo, if_neg (by omega), hword]
  dsimp only
  rw [if_neg (Int.not_le.mpr hpos), if_neg (Nat.not_lt.mpr hlen)]
  exact if_neg (Nat.not_lt.mpr hfits)

/-- The search behind a gap ends at a positive length word. -/
theorem atSkip_of_word (hroom : c.pos + skip < s.state.image.inner.log.termLength)
    (hword : 0 < (s.buffer.readI32 (s.partBase + (c.pos + skip))).toInt) :
    s.atSkip c skip = { s with polling := .top (c.forward skip) } :=
  (if_pos hroom).trans (if_pos hword)

theorem atSkip_of_gap (hroom : c.pos + skip < s.state.image.inner.log.termLength)
    (hword : ¬ 0 < (s.buffer.readI32 (s.partBase + (c.pos + skip))).toInt) :
    s.atSkip c skip = { s with polling := .skip c (skip + frameAlignment) } :=
  (if_pos hroom).trans (if_neg hword)

theorem atSkip_of_end (hend : c.pos + skip = s.state.image.inner.log.termLength) :
    s.atSkip c skip = { s with polling := .top (c.forward skip) } := by
  rw [atSkip, if_neg (by omega), if_neg (by omega)]

end Loads

/-! ## A call that is left alone -/

end ImageThreads

namespace ImageState

variable {handler : InlineHandler} {payload : List UInt8} {header : DataHeader}

/-- `on_data` is known by the entry and the receiver's side that it leaves. -/
theorem onData_eq {s s' : ImageState} (hsubscriber : s'.image.subscriber = s.image.subscriber)
    (h : s.received handler header payload = (s'.entry, s'.image.inner, s'.image.receiver)) :
    (s.onData handler header payload).1 = s' := by
  obtain ⟨entry, image⟩ := s'
  refine congrArg₂ ImageState.mk (congrArg Prod.fst h) (SharedImage.ext ?_ ?_ hsubscriber.symm)
  · exact congrArg (fun r => r.2.1) h
  · exact congrArg (fun r => r.2.2) h

/-- `poll_fragments` is known by the subscriber's side that it leaves and the fragments. -/
theorem poll_eq {s s' : ImageState} {limit : Int} {ds : List Fragment} (hentry : s'.entry = s.entry)
    (hreceiver : s'.image.receiver = s.image.receiver)
    (h : s.image.subscriber.pollFragments s.image.inner limit =
      ((s'.image.inner, s'.image.subscriber), ds)) : s.poll limit = (s', ds) := by
  obtain ⟨entry, image⟩ := s'
  refine Prod.ext (congrArg₂ ImageState.mk hentry.symm (SharedImage.ext ?_ hreceiver.symm ?_)) ?_
  · exact congrArg (fun r => r.1.1) h
  · exact congrArg (fun r => r.1.2) h
  · exact congrArg (fun r => r.2) h

/-- A poll hands out what its loop reads and then stores the position. -/
theorem poll_of_pos (s : ImageState) {limit : Int} (h : 0 < limit) :
    s.poll limit = (s.scanned (s.image.subscriber.scan s.image.inner limit).2,
      (s.image.subscriber.scan s.image.inner limit).1.map fun f =>
        ⟨s.image.subscriber.subscriberPositionLocal -
            s.image.subscriber.termOffset s.image.inner + f.1, f.2, s.image.inner.sessionId,
          s.image.inner.streamId⟩) := by
  rw [scanned]
  by_cases hscan : 0 < (s.image.subscriber.scan s.image.inner limit).2
  · rw [if_pos hscan]
    refine poll_eq rfl rfl ?_
    rw [SubscriberImage.pollFragments, if_neg (Int.not_le.mpr h)]
    exact if_pos hscan
  · rw [if_neg hscan]
    refine poll_eq rfl rfl ?_
    rw [SubscriberImage.pollFragments, if_neg (Int.not_le.mpr h)]
    exact if_neg hscan

/-- A frame that is stored goes through the steps of `on_data`. -/
theorem onData_of_stores {s : ImageState} (h : s.stores handler header payload = true) :
    (s.onData handler header payload).1 =
      ((((s.prepare handler header).storeHeader header).storePayload header payload).storeLength
        header payload).appended handler header payload := by
  rw [stores, Bool.and_eq_true, decide_eq_true_eq] at h
  obtain ⟨hnear, hok⟩ := h
  refine onData_eq rfl ?_
  rw [received, ReceiverImage.store, if_neg (Nat.not_le.mpr hnear)]
  dsimp only
  split
  · next happend =>
      rw [happend] at hok
      cases hok
  · next inner newOffset happend =>
      obtain ⟨-, -, rfl, rfl⟩ := ReceiverImage.appendFrame_eq_ok.mp happend
      rfl

theorem onData_of_not_stores {s : ImageState} (h : s.stores handler header payload = false) :
    (s.onData handler header payload).1 = s.prepare handler header := by
  rw [stores, Bool.and_eq_false_iff, decide_eq_false_iff_not] at h
  refine onData_eq rfl ?_
  rw [received, ReceiverImage.store]
  split_ifs with hfar
  · rfl
  · have hnot := h.resolve_left (not_not.mpr (Nat.not_le.mp hfar))
    dsimp only at hnot ⊢
    split
    · rfl
    · next inner newOffset happend =>
        rw [happend] at hnot
        cases hnot

end ImageState

namespace ImageThreads

variable {ids : StreamIds}

/-- **`on_data` alone.** A call with its stores and nothing in between is `on_data`. -/
theorem run_stores {s : ImageThreads ids} (hidle : s.appending = .idle) (handler : InlineHandler)
    (f : StreamFrame ids.termLength) :
    run step s [.data handler f, .store, .store, .store, .store] =
      { s with
        state := (s.state.onData handler (f.header ids) f.payload).1
        committed := if s.state.stores handler (f.header ids) f.payload then f :: s.committed
          else s.committed } := by
  obtain ⟨state, appending, polling, committed, delivered⟩ := s
  obtain rfl : appending = .idle := hidle
  cases hstores : state.stores handler (f.header ids) f.payload with
  | true =>
      rw [ImageState.onData_of_stores hstores]
      simp [step, data, store, hstores]
  | false =>
      rw [ImageState.onData_of_not_stores hstores]
      simp [step, data, store, hstores]

/-- Loads alone lead from one state to another. -/
def Loads (s s' : ImageThreads ids) : Prop := ∃ n, run step s (List.replicate n .load) = s'

theorem Loads.refl (s : ImageThreads ids) : s.Loads s := ⟨0, rfl⟩

theorem Loads.head {s s' : ImageThreads ids} (h : s.load.Loads s') : s.Loads s' := by
  obtain ⟨n, hn⟩ := h
  exact ⟨n + 1, hn⟩

theorem Loads.trans {s s' s'' : ImageThreads ids} (h : s.Loads s') (h' : s'.Loads s'') :
    s.Loads s'' := by
  obtain ⟨n, rfl⟩ := h
  obtain ⟨k, rfl⟩ := h'
  exact ⟨n + k, by rw [List.replicate_add, run_append]⟩

/-- The search behind a gap is `skipLoop`. -/
theorem loads_skip (s : ImageThreads ids) (c : PollCursor) {skip fuel : Nat}
    (hfuel : s.state.image.inner.log.termLength ≤ c.pos + skip + frameAlignment * fuel) :
    Loads { s with polling := .skip c skip } { s with polling := .top (c.forward
      (if s.state.image.inner.log.termLength <
          c.pos + skipLoop s.buffer s.partBase s.state.image.inner.log.termLength c.pos fuel skip then
        s.state.image.inner.log.termLength - c.pos
      else skipLoop s.buffer s.partBase s.state.image.inner.log.termLength c.pos fuel skip)) } := by
  induction fuel generalizing skip with
  | zero =>
      have hload : load { s with polling := .skip c skip } = _ := if_neg (by dsimp only; omega)
      rw [skipLoop]
      exact .head (hload ▸ .refl _)
  | succ fuel ih =>
      rw [skipLoop]
      by_cases hroom : c.pos + skip < s.state.image.inner.log.termLength
      · rw [if_pos hroom]
        by_cases hword : 0 < (s.buffer.readI32 (s.partBase + (c.pos + skip))).toInt
        · have hload : load { s with polling := .skip c skip } = _ := atSkip_of_word hroom hword
          rw [if_pos hword, if_neg (by omega)]
          exact .head (hload ▸ .refl _)
        · have hload : load { s with polling := .skip c skip } = _ := atSkip_of_gap hroom hword
          rw [if_neg hword]
          exact .head (hload ▸ ih (by rw [Nat.mul_succ] at hfuel; omega))
      · have hload : load { s with polling := .skip c skip } = _ := if_neg hroom
        rw [if_neg hroom]
        exact .head (hload ▸ .refl _)

/-- A round at a gap that the receiver has passed moves on by the gap skip. -/
theorem loads_gap (s : ImageThreads ids) {c : PollCursor}
    (hgo : c.pos < s.state.image.inner.log.termLength ∧ (c.fragments : Int) < c.limit)
    (hroom : c.pos + 4 ≤ s.state.image.inner.log.termLength)
    (hword : (s.buffer.readI32 (s.partBase + c.pos)).toInt ≤ 0)
    (hpassed : ¬ s.state.image.inner.receiverPosition ≤ s.subscriberPosition + c.scanned) :
    Loads { s with polling := .top c } { s with polling := .top (c.forward
      (gapSkip s.buffer s.partBase s.state.image.inner.log.termLength c.pos)) } := by
  have htop : load { s with polling := .top c } = { s with polling := .gapTest c } :=
    atTop_of_gap hgo hroom hword
  have hgap : load { s with polling := .gapTest c } = { s with polling := .skip c frameAlignment } :=
    if_neg hpassed
  have hskip := @loads_skip _ s c frameAlignment s.state.image.inner.log.termLength (by
    unfold frameAlignment
    omega)
  exact .head (htop ▸ .head (hgap ▸ hskip))

/-- A fragment with the position at which a poll reads it. -/
def fragmentAt (s : ImageThreads ids) (off : Nat) (f : Nat × List UInt8) : Fragment :=
  ⟨s.subscriberPosition - off + f.1, f.2, s.state.image.inner.sessionId,
    s.state.image.inner.streamId⟩

/-- A round at a frame that fits hands it out, unless it is a pad, and moves on behind it. -/
theorem loads_frame (s : ImageThreads ids) {c : PollCursor} {off : Nat}
    (hoff : c.pos = off + c.scanned)
    (hgo : c.pos < s.state.image.inner.log.termLength ∧ (c.fragments : Int) < c.limit)
    {frameLength : BitVec 32} (hword : s.buffer.readI32 (s.partBase + c.pos) = frameLength)
    (hpos : 0 < frameLength.toInt) (hlen : dataHeaderLength ≤ frameLength.toNat)
    (hfits : c.pos + alignFrameLength frameLength.toNat ≤ s.state.image.inner.log.termLength) :
    Loads { s with polling := .top c }
      (if s.buffer.readU16 (s.partBase + c.pos + 6) = frameTypePad then
        { s with polling := .top (c.forward (alignFrameLength frameLength.toNat)) }
      else
        { s with
          polling := .top { c.forward (alignFrameLength frameLength.toNat) with
            fragments := c.fragments + 1 }
          delivered := s.delivered ++ [s.fragmentAt off (c.pos,
            s.buffer.read (s.partBase + c.pos + dataHeaderLength)
              (frameLength.toNat - dataHeaderLength))] }) := by
  have htop : load { s with polling := .top c } = { s with polling := .frameType c frameLength } :=
    atTop_of_frame hgo hword hpos hlen hfits
  by_cases hpad : s.buffer.readU16 (s.partBase + c.pos + 6) = frameTypePad
  · have htype : load { s with polling := .frameType c frameLength } = _ := if_pos hpad
    rw [if_pos hpad]
    exact .head (htop ▸ .head (htype ▸ .refl _))
  · have htype : load { s with polling := .frameType c frameLength } =
        { s with polling := .payload c frameLength } := if_neg hpad
    have hposition : s.subscriberPosition + c.scanned = s.subscriberPosition - off + c.pos := by
      omega
    rw [if_neg hpad, fragmentAt, ← hposition]
    exact .head (htop ▸ .head (htype ▸ .head (.refl _)))

theorem loads_top (s : ImageThreads ids) (c : PollCursor) {off fuel : Nat}
    (hoff : c.pos = off + c.scanned)
    (hfuel : s.state.image.inner.log.termLength ≤ c.pos + fuel) :
    let r := pollLoop s.buffer s.partBase s.state.image.inner.log.termLength
      s.state.image.inner.receiverPosition s.subscriberPosition c.limit fuel c.pos c.fragments
      c.scanned
    ∃ c' : PollCursor, c'.scanned = r.2 ∧
      Loads { s with polling := .top c } { s with
        polling := .finish c'
        delivered := s.delivered ++ r.1.map (s.fragmentAt off) } := by
  -- a load that ends the loop
  have hstop : ∀ {s : ImageThreads ids} {c : PollCursor},
      load { s with polling := .top c } = { s with polling := .finish c } →
      Loads { s with polling := .top c }
        { s with polling := .finish c, delivered := s.delivered ++ [] } := fun h => by
    rw [List.append_nil]
    exact .head (h ▸ .refl _)
  induction fuel generalizing s c with
  | zero =>
      rw [pollLoop]
      exact ⟨c, rfl, hstop (if_neg (by dsimp only; omega))⟩
  | succ fuel ih =>
      set tl := s.state.image.inner.log.termLength with htl
      rw [pollLoop]
      by_cases hgo : c.pos < tl ∧ (c.fragments : Int) < c.limit
      swap
      · rw [if_neg hgo]
        exact ⟨c, rfl, hstop (if_neg hgo)⟩
      have hload : load { s with polling := .top c } = _ := if_pos hgo
      rw [if_pos hgo]
      by_cases hroom : tl - c.pos < 4
      · rw [if_pos hroom]
        exact ⟨c, rfl, hstop (hload.trans (if_pos hroom))⟩
      replace hload := hload.trans (if_neg hroom)
      rw [if_neg hroom]
      dsimp only
      by_cases hword : (s.buffer.readI32 (s.partBase + c.pos)).toInt ≤ 0
      · rw [if_pos hword]
        by_cases hrecv : s.state.image.inner.receiverPosition ≤ s.subscriberPosition + c.scanned
        · have hgap : load { s with polling := .gapTest c } = { s with polling := .finish c } :=
            if_pos hrecv
          replace hload := hload.trans (if_pos hword)
          rw [if_pos hrecv, List.map_nil, List.append_nil]
          exact ⟨c, rfl, .head (hload ▸ .head (hgap ▸ .refl _))⟩
        · rw [if_neg hrecv]
          have hround := s.loads_gap hgo (by omega) hword hrecv
          have hpos := gapSkip_pos s.buffer s.partBase hgo.1
          obtain ⟨c', hscanned, hrest⟩ :=
            ih s (c.forward (gapSkip s.buffer s.partBase tl c.pos)) (by
              change c.pos + _ = off + (c.scanned + _)
              omega) (by
              change tl ≤ c.pos + _ + fuel
              omega)
          exact ⟨c', hscanned, hround.trans hrest⟩
      · replace hload := hload.trans (if_neg hword)
        rw [if_neg hword]
        by_cases hsmall : (s.buffer.readI32 (s.partBase + c.pos)).toNat < dataHeaderLength
        · rw [if_pos hsmall]
          exact ⟨c, rfl, hstop (hload.trans (if_pos hsmall))⟩
        replace hload := hload.trans (if_neg hsmall)
        rw [if_neg hsmall]
        by_cases hbeyond :
            tl < c.pos + alignFrameLength (s.buffer.readI32 (s.partBase + c.pos)).toNat
        · rw [if_pos hbeyond]
          exact ⟨c, rfl, hstop (hload.trans (if_pos hbeyond))⟩
        rw [if_neg hbeyond]
        have hround := s.loads_frame hoff hgo rfl (Int.not_le.mp hword) (Nat.not_lt.mp hsmall)
          (Nat.not_lt.mp hbeyond)
        have hlen := le_alignFrameLength (s.buffer.readI32 (s.partBase + c.pos)).toNat
        have hheader : dataHeaderLength = 32 := rfl
        have hnext : c.pos + alignFrameLength (s.buffer.readI32 (s.partBase + c.pos)).toNat =
            off + (c.scanned + alignFrameLength (s.buffer.readI32 (s.partBase + c.pos)).toNat) := by
          omega
        have hleft : tl ≤
            c.pos + alignFrameLength (s.buffer.readI32 (s.partBase + c.pos)).toNat + fuel := by
          omega
        by_cases hpad : s.buffer.readU16 (s.partBase + c.pos + 6) = frameTypePad
        · rw [if_pos hpad] at hround ⊢
          obtain ⟨c', hscanned, hrest⟩ := ih s
            (c.forward (alignFrameLength (s.buffer.readI32 (s.partBase + c.pos)).toNat)) hnext hleft
          exact ⟨c', hscanned, hround.trans hrest⟩
        · rw [if_neg hpad] at hround ⊢
          obtain ⟨c', hscanned, hrest⟩ := ih
            { s with delivered := s.delivered ++ [s.fragmentAt off (c.pos,
                s.buffer.read (s.partBase + c.pos + dataHeaderLength)
                  ((s.buffer.readI32 (s.partBase + c.pos)).toNat - dataHeaderLength))] }
            { c.forward (alignFrameLength (s.buffer.readI32 (s.partBase + c.pos)).toNat) with
              fragments := c.fragments + 1 } hnext hleft
          rw [List.map_cons, List.append_cons]
          exact ⟨c', hscanned, hround.trans hrest⟩

/-- **`poll_fragments` alone.** A call with its loads and nothing in between is `poll_fragments`. -/
theorem exists_run_loads {s : ImageThreads ids} (hidle : s.polling = .idle) (limit : Int) :
    ∃ n, run step s (.poll limit :: List.replicate n .load) =
      { s with
        state := (s.state.poll limit).1
        delivered := s.delivered ++ (s.state.poll limit).2 } := by
  obtain ⟨state, appending, polling, committed, delivered⟩ := s
  obtain rfl : polling = .idle := hidle
  by_cases hlimit : limit ≤ 0
  · have hpoll : state.poll limit = (state, []) :=
      ImageState.poll_eq rfl rfl (SubscriberImage.pollFragments_of_nonpos hlimit)
    refine ⟨0, ?_⟩
    rw [hpoll, List.append_nil]
    exact if_pos hlimit
  · have hstart : poll ⟨state, appending, .idle, committed, delivered⟩ limit = _ := if_neg hlimit
    obtain ⟨c, hscanned, n, hloads⟩ := loads_top ⟨state, appending, .idle, committed, delivered⟩
      ⟨limit, state.image.subscriber.termOffset state.image.inner, 0, 0⟩ (Nat.add_zero _).symm
      (Nat.le_add_left state.image.inner.log.termLength _)
    refine ⟨n + 1, ?_⟩
    rw [run_cons, step, hstart, List.replicate_succ', run_append, hloads,
      state.poll_of_pos (Int.not_le.mp hlimit)]
    change (⟨state.scanned c.scanned, _, _, _, _⟩ : ImageThreads ids) = _
    rw [hscanned]
    rfl

def between (r : ImageRun ids) : ImageThreads ids := ⟨r.state, .idle, .idle, r.accepted, r.delivered⟩

def callSteps {T : Nat} : ImageAction T → Nat → List (ThreadAction T)
  | .data handler f, _ => [.data handler f, .store, .store, .store, .store]
  | .poll limit, n => .poll limit :: List.replicate n .load

/-- **Whole calls are runs of the two threads.** Whatever calls of `on_data` and `poll_fragments` an
image has, the stores and loads of one call after the other take it to the same state, with the same
frames committed and the same fragments delivered. -/
theorem calls_run_as_steps (r : ImageRun ids) (as : List (ImageAction ids.termLength)) :
    ∃ ns, ns.length = as.length ∧ run step (between r) (List.zipWith callSteps as ns).flatten =
      between (run ImageRun.step r as) := by
  induction as generalizing r with
  | nil => exact ⟨[], rfl, rfl⟩
  | cons a as ih =>
      have hcall : ∃ n, run step (between r) (callSteps a n) = between (r.step a) := by
        cases a with
        | data handler f => exact ⟨0, run_stores rfl handler f⟩
        | poll limit => exact @exists_run_loads _ (between r) rfl limit
      obtain ⟨n, hcall⟩ := hcall
      obtain ⟨ns, hlength, hrest⟩ := ih (r.step a)
      refine ⟨n :: ns, congrArg (· + 1) hlength, ?_⟩
      rw [List.zipWith_cons_cons, List.flatten_cons, run_append, hcall, hrest, run_cons]

end ImageThreads

end AeronRs
