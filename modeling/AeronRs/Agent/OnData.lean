import AeronRs.Agent.ImageRun
import AeronRs.Media.Datagrams

/-! # Data frames of any origin

What `on_data` does with a frame that a network peer has made up: any term id, any offset, any
payload. It notes a gap and rotates before it knows whether the frame will be stored, and it takes the
signed offset for an unsigned one. `rejected_unaffected_iff` says which rejected frames leave the
image and the NAK queue as they were, `wellPlaced_iff` which stored frames lie where their header
says. -/

namespace AeronRs

/-! ## The parts of a call -/

namespace ImageEntry

/-- A NAK is queued for the gap before a frame: there is a gap, the delay has passed and the queue has
room. -/
def Reports (handler : InlineHandler) (img : ImageEntry) (header : DataHeader) : Prop :=
  img.HasGap header ∧ 0 ≤ wrapI64 (handler.nowNs - img.timeOfLastNakNs) ∧
    handler.nakDelayNs ≤ wrapI64 (handler.nowNs - img.timeOfLastNakNs) ∧
    handler.nakQueue.length < maxPendingNaksPerCycle

instance (handler : InlineHandler) (img : ImageEntry) (header : DataHeader) :
    Decidable (img.Reports handler header) :=
  inferInstanceAs (Decidable (_ ∧ _ ∧ _ ∧ _))

/-- **The NAK queue after gap detection.** -/
theorem noteGap_nakQueue (handler : InlineHandler) (img : ImageEntry) (header : DataHeader) :
    (img.noteGap handler header).2.nakQueue =
      if img.Reports handler header then handler.nakQueue ++ [img.gapNak header]
      else handler.nakQueue := by
  unfold noteGap
  dsimp only
  by_cases hgap : img.HasGap header ∧ 0 ≤ wrapI64 (handler.nowNs - img.timeOfLastNakNs) ∧
      handler.nakDelayNs ≤ wrapI64 (handler.nowNs - img.timeOfLastNakNs)
  · rw [if_pos hgap]
    by_cases hroom : handler.nakQueue.length < maxPendingNaksPerCycle
    · rw [if_pos (show img.Reports handler header from ⟨hgap.1, hgap.2.1, hgap.2.2, hroom⟩)]
      exact if_pos hroom
    · rw [if_neg fun h : img.Reports handler header => hroom h.2.2.2]
      exact if_neg hroom
  · rw [if_neg hgap,
      if_neg fun h : img.Reports handler header => hgap ⟨h.1, h.2.1, h.2.2.1⟩]

theorem IsAhead.ne {img : ImageEntry} {termId : BitVec 32} (h : img.IsAhead termId) :
    termId ≠ img.activeTermId := by
  rintro rfl
  have := h.1
  rw [BitVec.sub_self] at this
  exact absurd this (by decide)

/-- Gap detection is not seen by the rotation test. -/
theorem noteGap_isAhead (handler : InlineHandler) (img : ImageEntry) (header : DataHeader)
    (termId : BitVec 32) :
    (img.noteGap handler header).1.IsAhead termId ↔ img.IsAhead termId := by
  unfold IsAhead
  rw [img.noteGap_fst handler header]

end ImageEntry

namespace ImageState

variable {handler : InlineHandler} {payload : List UInt8} {header : DataHeader}

/-- The entry and the shared state when `on_data` has noted the gap and rotated. -/
def rotated (handler : InlineHandler) (s : ImageState) (header : DataHeader) :
    ImageEntry × ImageInner :=
  (s.entry.noteGap handler header).1.rotate s.image.inner header.termId

theorem rotated_of_not_isAhead {s : ImageState} (h : ¬ s.entry.IsAhead header.termId) :
    s.rotated handler header = ((s.entry.noteGap handler header).1, s.image.inner) :=
  if_neg (mt (s.entry.noteGap_isAhead handler header header.termId).mp h)

/-- **The entry when the rotation is done.** -/
theorem rotated_fst (handler : InlineHandler) (s : ImageState) (header : DataHeader) :
    (s.rotated handler header).1 =
      { s.entry with
        timeOfLastNakNs := (s.entry.noteGap handler header).1.timeOfLastNakNs
        activeTermId :=
          if s.entry.IsAhead header.termId then header.termId else s.entry.activeTermId
        consumptionTermId :=
          if s.entry.IsAhead header.termId then header.termId else s.entry.consumptionTermId
        consumptionTermOffset :=
          if s.entry.IsAhead header.termId then 0 else s.entry.consumptionTermOffset
        expectedTermOffset :=
          if s.entry.IsAhead header.termId then 0 else s.entry.expectedTermOffset } := by
  by_cases hahead : s.entry.IsAhead header.termId
  · have hnoted := (s.entry.noteGap_isAhead handler header header.termId).mpr hahead
    rw [rotated, ImageEntry.rotate, if_pos hnoted, s.entry.noteGap_fst handler header]
    simp only [if_pos hahead]
  · rw [rotated_of_not_isAhead hahead, s.entry.noteGap_fst handler header]
    simp only [if_neg hahead]

theorem rotated_activeTermId (handler : InlineHandler) (s : ImageState) (header : DataHeader) :
    (s.rotated handler header).1.activeTermId =
      if s.entry.IsAhead header.termId then header.termId else s.entry.activeTermId := by
  rw [rotated_fst]

theorem rotated_initialTermId (handler : InlineHandler) (s : ImageState) (header : DataHeader) :
    (s.rotated handler header).1.initialTermId = s.entry.initialTermId := by
  rw [rotated_fst]

theorem rotated_entryLength (handler : InlineHandler) (s : ImageState) (header : DataHeader) :
    (s.rotated handler header).1.termLength = s.entry.termLength := by
  rw [rotated_fst]

theorem rotated_expectedTermOffset (handler : InlineHandler) (s : ImageState) (header : DataHeader) :
    (s.rotated handler header).1.expectedTermOffset =
      if s.entry.IsAhead header.termId then 0 else s.entry.expectedTermOffset := by
  rw [rotated_fst]

theorem rotated_termLength (handler : InlineHandler) (s : ImageState) (header : DataHeader) :
    (s.rotated handler header).2.log.termLength = s.image.inner.log.termLength := by
  unfold rotated ImageEntry.rotate ImageEntry.cleanTerms
  split_ifs
  · generalize List.range' 1 _ = terms
    dsimp only
    generalize s.image.inner = inner
    induction terms generalizing inner with
    | nil => rfl
    | cons t terms ih => exact (ih _).trans (RawLog.cleanPartition_termLength _ _)
  · rfl

/-- The term of a frame is ahead of the active one, or less than four terms behind it. -/
def InReach (s : ImageState) (termId : BitVec 32) : Prop :=
  s.entry.IsAhead termId ∨ (s.entry.activeTermId - termId).toNat < partitionCount

instance (s : ImageState) (termId : BitVec 32) : Decidable (s.InReach termId) :=
  inferInstanceAs (Decidable (_ ∨ _))

/-- The 32-bit sum of offset and length passes the test of `append_frame`. -/
def FitsWord (s : ImageState) (header : DataHeader) (payload : List UInt8) : Prop :=
  (header.termOffset.toNat + alignFrameLength (32 + payload.length)) % 2 ^ 32 ≤
    s.image.inner.log.termLength

instance (s : ImageState) (header : DataHeader) (payload : List UInt8) :
    Decidable (s.FitsWord header payload) :=
  inferInstanceAs (Decidable (_ ≤ _))

/-- After the rotation a term is too old exactly if it is out of reach. -/
theorem rotated_behind_iff (handler : InlineHandler) (s : ImageState) (header : DataHeader) :
    ((s.rotated handler header).1.activeTermId - header.termId).toNat < partitionCount ↔
      s.InReach header.termId := by
  rw [rotated_activeTermId]
  by_cases hahead : s.entry.IsAhead header.termId
  · rw [if_pos hahead, BitVec.sub_self]
    exact iff_of_true (by decide) (.inl hahead)
  · rw [if_neg hahead]
    exact ⟨.inr, fun h => h.resolve_left hahead⟩

/-- **What is stored**: a frame in reach that fits. -/
theorem stores_iff (handler : InlineHandler) (s : ImageState) (header : DataHeader)
    (payload : List UInt8) :
    s.stores handler header payload = true ↔
      s.InReach header.termId ∧ s.FitsWord header payload := by
  unfold stores
  rw [Bool.and_eq_true_iff, decide_eq_true_iff]
  refine and_congr (s.rotated_behind_iff handler header) ?_
  have hlen : ((s.entry.noteGap handler header).1.rotate s.image.inner
      header.termId).2.log.termLength = s.image.inner.log.termLength :=
    s.rotated_termLength handler header
  unfold FitsWord ReceiverImage.appendFrame
  rw [if_neg (Nat.not_le.mpr (partitionIndex_lt _ _)), hlen]
  dsimp only
  rw [show dataHeaderLength = 32 from rfl]
  split_ifs with hfull
  · exact iff_of_false Bool.false_ne_true (by omega)
  · exact iff_of_true rfl (by omega)

/-- **A frame that is not stored** leaves what the rotation has made. -/
theorem received_of_rejected {s : ImageState} (h : s.stores handler header payload = false) :
    s.received handler header payload =
      ((s.rotated handler header).1, (s.rotated handler header).2, s.image.receiver) := by
  rw [← Bool.not_eq_true, stores_iff, not_and] at h
  refine ReceiverImage.store_of_rejected handler s.image.receiver fun hbehind => ?_
  have hlen := s.rotated_termLength handler header
  have hfull := Nat.not_le.mp (h ((s.rotated_behind_iff handler header).mp hbehind))
  exact hlen.trans_lt hfull

/-- **A frame that is stored** is written at its place in the log that the rotation has left. -/
theorem received_of_stored {s : ImageState} (h : s.stores handler header payload = true) :
    s.received handler header payload =
      ((s.rotated handler header).1.noteAppended handler header.termId
          ((header.termOffset.toNat + alignFrameLength (32 + payload.length)) % 2 ^ 32),
        ReceiverImage.advanceTo ((s.rotated handler header).2.withBuffer
          (ReceiverImage.storeFrame (s.rotated handler header).2.log.buffer
            (partitionIndex header.termId s.entry.initialTermId * s.image.inner.log.termLength +
              header.termOffset.toNat) header payload)) s.image.receiver
          ((header.termId - s.entry.initialTermId).toInt * s.entry.termLength +
            (((header.termOffset.toNat + alignFrameLength (32 + payload.length)) % 2 ^ 32 : Nat) :
              Int))) := by
  obtain ⟨hreach, hfits⟩ := (s.stores_iff handler header payload).mp h
  have hlen := s.rotated_termLength handler header
  have hstore := ReceiverImage.store_of_fits handler s.image.receiver
    ((s.rotated_behind_iff handler header).mpr hreach) (le_of_le_of_eq hfits hlen.symm)
  rw [rotated_initialTermId, hlen, rotated_entryLength] at hstore
  exact hstore

theorem buffer_of_stored {s : ImageState} (h : s.stores handler header payload = true) :
    (s.onData handler header payload).1.image.inner.log.buffer =
      ReceiverImage.storeFrame (s.rotated handler header).2.log.buffer
        (partitionIndex header.termId s.entry.initialTermId * s.image.inner.log.termLength +
          header.termOffset.toNat) header payload := by
  rw [onData_inner, received_of_stored h, ReceiverImage.advanceTo_log]
  rfl

theorem receiverPosition_of_stored {handler : InlineHandler} {s : ImageState} {header : DataHeader}
    {payload : List UInt8} (h : s.stores handler header payload = true) {newPos : Int}
    (hpos : newPos = (header.termId - s.entry.initialTermId).toInt * s.entry.termLength +
      (((header.termOffset.toNat + alignFrameLength (32 + payload.length)) % 2 ^ 32 : Nat) : Int))
    (hnear : |newPos - s.image.inner.receiverPosition| < i64HalfMax) :
    (s.onData handler header payload).1.image.inner.receiverPosition =
      max newPos s.image.inner.receiverPosition := by
  have hrotated : (s.rotated handler header).2.receiverPosition = s.image.inner.receiverPosition :=
    ((s.entry.noteGap handler header).1.rotate_positions s.image.inner header.termId).1
  rw [onData_inner, received_of_stored h, ← hpos, ← hrotated]
  rw [← hrotated] at hnear
  exact ReceiverImage.advanceTo_receiverPosition (hrotated.trans s.image.receiver_sync) hnear

/-! ## Rejected frames -/

/-- **A call has no effect** on the log, the terms and offsets of the entry, the receiver's position
and the NAK queue. -/
def Unaffected (handler : InlineHandler) (s : ImageState) (header : DataHeader)
    (payload : List UInt8) : Prop :=
  let r := s.onData handler header payload
  (∀ a < partitionCount * s.image.inner.log.termLength,
      r.1.image.inner.log.buffer a = s.image.inner.log.buffer a) ∧
    r.1.entry.activeTermId = s.entry.activeTermId ∧
    r.1.entry.expectedTermOffset = s.entry.expectedTermOffset ∧
    r.1.entry.consumptionTermId = s.entry.consumptionTermId ∧
    r.1.entry.consumptionTermOffset = s.entry.consumptionTermOffset ∧
    r.1.image.inner.receiverPosition = s.image.inner.receiverPosition ∧
    r.2.nakQueue = handler.nakQueue

instance (handler : InlineHandler) (s : ImageState) (header : DataHeader) (payload : List UInt8) :
    Decidable (s.Unaffected handler header payload) :=
  inferInstanceAs (Decidable ((∀ a < _, _) ∧ _ ∧ _ ∧ _ ∧ _ ∧ _ ∧ _))

/-- **A rejected frame has no effect exactly if it is not of a later term and its gap is not
reported**: `on_data` queues the NAK and rotates before the frame is found not to fit. -/
theorem rejected_unaffected_iff {handler : InlineHandler} {s : ImageState} {header : DataHeader}
    {payload : List UInt8} (hrejected : s.stores handler header payload = false) :
    s.Unaffected handler header payload ↔
      ¬ s.entry.IsAhead header.termId ∧ ¬ s.entry.Reports handler header := by
  have hreceived := received_of_rejected hrejected
  have hqueue : (s.onData handler header payload).2.nakQueue = handler.nakQueue ↔
      ¬ s.entry.Reports handler header := by
    change (s.entry.noteGap handler header).2.nakQueue = _ ↔ _
    rw [s.entry.noteGap_nakQueue handler header]
    split_ifs with hreports
    · exact iff_of_false (by simp) (not_not.mpr hreports)
    · exact iff_of_true rfl hreports
  constructor
  · rintro ⟨-, hactive, -, -, -, -, hsame⟩
    refine ⟨fun hahead => ?_, hqueue.mp hsame⟩
    -- the rotation has changed the active term
    rw [onData_entry, hreceived, rotated_activeTermId, if_pos hahead] at hactive
    exact hahead.ne hactive
  · rintro ⟨hahead, hreports⟩
    rw [rotated_of_not_isAhead hahead] at hreceived
    have hentry : (s.onData handler header payload).1.entry =
        (s.entry.noteGap handler header).1 := by
      rw [onData_entry, hreceived]
    have hinner : (s.onData handler header payload).1.image.inner = s.image.inner := by
      rw [onData_inner, hreceived]
    refine ⟨fun a _ => by rw [hinner], ?_, ?_, ?_, ?_, by rw [hinner], hqueue.mpr hreports⟩ <;>
      rw [hentry, s.entry.noteGap_fst handler header]

def smallHeader (termId termOffset : BitVec 32) : DataHeader :=
  ⟨⟨32, currentVersion, dataFlagUnfragmented, frameTypeData⟩, termOffset, 7, 1, termId, 0⟩

/-- A frame of four terms ago is rejected without an effect. -/
theorem rejected_unaffected_old :
    ImageRun.smallImage.Unaffected ImageRun.quietHandler (smallHeader 1 0) [] :=
  (rejected_unaffected_iff (by decide +kernel)).mpr (by decide +kernel)

/-- **Rejected frames have effects.** Behind the end of the active term a frame does not fit, and a
NAK is queued; behind the end of the next term it does not fit either, and the image rotates. -/
theorem rejected_frames_affect :
    (ImageRun.smallImage.stores ImageRun.quietHandler (smallHeader 5 64) [] = false ∧
      ¬ ImageRun.smallImage.Unaffected ImageRun.quietHandler (smallHeader 5 64) [] ∧
      (ImageRun.smallImage.onData ImageRun.quietHandler (smallHeader 5 64) []).2.nakQueue =
        [⟨⟨2, []⟩, 7, 1, 5, 0, 64⟩]) ∧
    (ImageRun.smallImage.stores ImageRun.quietHandler (smallHeader 6 64) [] = false ∧
      ¬ ImageRun.smallImage.Unaffected ImageRun.quietHandler (smallHeader 6 64) [] ∧
      (ImageRun.smallImage.onData ImageRun.quietHandler
        (smallHeader 6 64) []).1.entry.activeTermId = 6) := by
  decide +kernel

/-! ## Stored frames -/

/-- **A frame lies where its header says**: if it is stored, its offset is aligned and it fits its
term, and nothing but its bytes is written; otherwise nothing is. The log before the write is the one
after the rotation of the same call, which zeroes the partitions of the terms up to a later one. -/
def WellPlaced (handler : InlineHandler) (s : ImageState) (f : ReceivedFrame) : Prop :=
  let before := (s.rotated handler f.header).2.log.buffer
  let after := (s.onData handler f.header f.payload).1.image.inner.log.buffer
  let termLength := s.image.inner.log.termLength
  let base : Int := partitionIndex f.termId s.entry.initialTermId * termLength + f.termOffset
  (s.stores handler f.header f.payload = true →
    0 ≤ f.termOffset ∧ 32 ∣ f.termOffset ∧ f.termOffset + f.alignedLength ≤ termLength ∧
      ∀ a < partitionCount * termLength, after a ≠ before a →
        base ≤ a ∧ a < base + 32 + f.payload.length) ∧
  (s.stores handler f.header f.payload = false →
    ∀ a < partitionCount * termLength, after a = before a)

instance (handler : InlineHandler) (s : ImageState) (f : ReceivedFrame) :
    Decidable (s.WellPlaced handler f) :=
  inferInstanceAs (Decidable ((_ → _ ∧ _ ∧ _ ∧ ∀ a < _, _) ∧ (_ → ∀ a < _, _)))

def Aligned (f : ReceivedFrame) : Prop := 0 ≤ f.termOffset ∧ 32 ∣ f.termOffset

instance (f : ReceivedFrame) : Decidable (Aligned f) := inferInstanceAs (Decidable (_ ∧ _))

/-- **A frame is well placed exactly if its offset is aligned and not negative**, or it is out of
reach, or the 32-bit sum of its offset and length exceeds the term. This is for every datagram that
`on_message` hands to `on_data`. -/
theorem wellPlaced_iff (ep : ReceiveChannelEndpoint) (data : List UInt8) (source : SockAddr)
    (handler : InlineHandler) (s : ImageState) :
    ∀ f, (ep.onMessage data source).2.1 = some (.onData f) →
      (s.WellPlaced handler f ↔
        Aligned f ∨ ¬ s.InReach f.termId ∨ ¬ s.FitsWord f.header f.payload) := by
  intro f _
  have hstores := s.stores_iff handler f.header f.payload
  constructor
  · intro h
    by_cases hstored : s.stores handler f.header f.payload = true
    · obtain ⟨hnonneg, hdvd, -⟩ := h.1 hstored
      exact .inl ⟨hnonneg, hdvd⟩
    · rw [hstores, not_and_or] at hstored
      exact .inr hstored
  · intro h
    refine ⟨fun hstored => ?_, fun hrejected a _ => ?_⟩
    · obtain ⟨hreach, hfits⟩ := hstores.mp hstored
      obtain ⟨hnonneg, hdvd⟩ : Aligned f :=
        h.resolve_right fun h => h.elim (· hreach) (· hfits)
      -- the offset is the unsigned one, and the sum does not wrap
      obtain ⟨hoffset, hlt⟩ := ReceivedFrame.toNat_termOffset hnonneg
      have hlength := f.alignedLength_bounds
      unfold FitsWord at hfits
      rw [show alignFrameLength (32 + f.payload.length) = f.alignedLength from rfl,
        Nat.mod_eq_of_lt (by omega)] at hfits
      refine ⟨hnonneg, hdvd, by rw [hoffset]; exact_mod_cast hfits, fun a _ hchanged => ?_⟩
      rw [buffer_of_stored hstored, ReceiverImage.storeFrame_eq] at hchanged
      rw [hoffset]
      by_contra hout
      refine hchanged (ByteStore.write_of_outside _ _ _ ?_)
      rw [List.length_append, DataHeader.encode_length]
      unfold ReceivedFrame.termId at hout
      push_cast [not_and_or] at hout
      omega
    · rw [onData_inner, received_of_rejected hrejected]

def smallReceived (termId termOffset : BitVec 32) : ReceivedFrame :=
  ⟨smallHeader termId termOffset, [], by decide⟩

/-- The datagram of a header-only frame, at an endpoint with nothing pending. -/
def smallMessage (termId termOffset : BitVec 32) : Option HandlerCall :=
  ((⟨none, 1, [], [], [], fun _ => []⟩ : ReceiveChannelEndpoint).onMessage
    (smallHeader termId termOffset).encode ⟨2, []⟩).2.1

/-- The second half of the active term. -/
theorem wellPlaced_second_half :
    ImageRun.smallImage.WellPlaced ImageRun.quietHandler (smallReceived 5 32) :=
  (wellPlaced_iff ⟨none, 1, [], [], [], fun _ => []⟩ (smallHeader 5 32).encode ⟨2, []⟩
    ImageRun.quietHandler ImageRun.smallImage (smallReceived 5 32) rfl).mpr (by decide +kernel)

/-- **Misplaced frames are stored.** An offset of -32 and a length of 32 sum up to zero in 32 bits:
the frame passes the test and is written almost four gigabytes behind its partition. An offset of 4 is
stored as well, across the place of a frame. -/
theorem misplaced_frames_stored :
    (smallMessage 5 (-32) = some (.onData (smallReceived 5 (-32))) ∧
      ImageRun.smallImage.stores ImageRun.quietHandler (smallHeader 5 (-32)) [] = true ∧
      ¬ ImageRun.smallImage.WellPlaced ImageRun.quietHandler (smallReceived 5 (-32)) ∧
      (ImageRun.smallImage.onData ImageRun.quietHandler
        (smallHeader 5 (-32)) []).1.image.inner.log.buffer 4294967264 = 32) ∧
    (smallMessage 5 4 = some (.onData (smallReceived 5 4)) ∧
      ImageRun.smallImage.stores ImageRun.quietHandler (smallHeader 5 4) [] = true ∧
      ¬ ImageRun.smallImage.WellPlaced ImageRun.quietHandler (smallReceived 5 4)) :=
  ⟨⟨rfl, by decide +kernel⟩, rfl, by decide +kernel⟩

end ImageState

end AeronRs
