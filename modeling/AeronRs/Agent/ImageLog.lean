import AeronRs.Agent.Receiver
import AeronRs.Lib.RingWindow
import AeronRs.Media.StreamFrames

/-! # The log of an image

**`Holds`** relates an image to the frames it has accepted: its four partitions hold the last four
terms, up to the active one, of the memory that these frames fill. One lemma for each part of
`on_data` says how it is kept: rotating cleans the partitions of the new terms, storing writes the
frame. `onData_cases` puts them together for a frame of the stream. -/

namespace AeronRs

/-- The first position of the four terms that end with term `A`. -/
def windowStart (T A : Nat) : Nat := (A + 1) * T - 4 * T

/-- The terms from which an image with active term `A` accepts frames. -/
def Accepts (A t : Nat) : Prop := A < t + 4 ∧ t < A + (2 ^ 30 - 1)

instance (A t : Nat) : Decidable (Accepts A t) := inferInstanceAs (Decidable (_ ∧ _))

/-- **The image holds the accepted frames** `G` of its last four terms, of which `A` is the active
one. -/
structure Holds (ids : StreamIds) (img : ImageEntry) (inner : ImageInner) (A : Nat)
    (G : List (StreamFrame ids.termLength)) : Prop where
  logLength : inner.log.termLength = ids.termLength
  entryLength : img.termLength = ids.termLength
  entryInitial : img.initialTermId = ids.initialTermId
  innerInitial : inner.initialTermId = ids.initialTermId
  innerStream : inner.sessionId = ids.sessionId ∧ inner.streamId = ids.streamId
  active : img.activeTermId = ids.initialTermId + BitVec.ofNat 32 A
  active_lt : A < 2 ^ 31
  termLength_le : ids.termLength ≤ 2 ^ 30
  term_le : ∀ g ∈ G, g.term ≤ A
  mirrors : Mirrors 4 ids.termLength (windowStart ids.termLength A) ((A + 1) * ids.termLength)
    inner.log.buffer (streamStore ids G)

namespace Holds

variable {ids : StreamIds} {img : ImageEntry} {inner : ImageInner} {A : Nat}
  {G : List (StreamFrame ids.termLength)}

theorem termLength_pos (h : Holds ids img inner A G) : 0 < ids.termLength := by
  rw [← h.logLength]
  exact inner.log.termLength_pos

theorem termLength_dvd (h : Holds ids img inner A G) : 32 ∣ ids.termLength := by
  rw [← h.logLength]
  exact inner.log.termLength_dvd

theorem activeTerm_eq (h : Holds ids img inner A G) :
    (img.activeTermId - img.initialTermId).toNat = A := by
  have hA := h.active_lt
  rw [h.active, h.entryInitial, BitVec.add_comm, BitVec.add_sub_cancel, BitVec.toNat_ofNat,
    Nat.mod_eq_of_lt (by omega)]

/-- The accepted frames end before the term after the active one. -/
theorem stop_le (h : Holds ids img inner A G) {g : StreamFrame ids.termLength} (hg : g ∈ G) :
    g.stop ≤ (A + 1) * ids.termLength :=
  g.stop_le_of_term_le (h.term_le g hg)

theorem streamStore_zero (h : Holds ids img inner A G) {q : Nat} (hq : (A + 1) * ids.termLength ≤ q) :
    streamStore ids G q = 0 := by
  apply streamStore_eq_zero
  intro g hg
  have hstop := h.stop_le hg
  have hlen := g.length_ge
  unfold StreamFrame.stop at hstop
  exact .inr (by omega)

theorem noteGap (h : Holds ids img inner A G) (handler : InlineHandler) (header : DataHeader) :
    Holds ids (img.noteGap handler header).1 inner A G := by
  rw [img.noteGap_fst handler header]
  exact { h with }

end Holds

/-! ## Rotation -/

theorem cleanPartition_eq {ids : StreamIds} {inner : ImageInner}
    (hlen : inner.log.termLength = ids.termLength) (k : Nat) :
    ReceiverImage.cleanPartition inner
        (partitionIndex (ids.initialTermId + BitVec.ofNat 32 k) ids.initialTermId) =
      inner.withBuffer (inner.log.buffer.fill (k % 4 * ids.termLength) ids.termLength) := by
  have hlt : ¬ partitionCount ≤ k % 4 := by
    unfold partitionCount
    omega
  rw [partitionIndex_add, ReceiverImage.cleanPartition, RawLog.cleanPartition, if_neg hlt, hlen]
  rfl

namespace Holds

variable {ids : StreamIds} {img : ImageEntry} {inner : ImageInner} {A : Nat}
  {G : List (StreamFrame ids.termLength)}

/-- **Cleaning the next terms** moves the window on. -/
theorem cleanTerms (h : Holds ids img inner A G) (steps : Nat) :
    ∃ m, img.cleanTerms inner steps = inner.withBuffer m ∧
      Mirrors 4 ids.termLength (windowStart ids.termLength (A + steps))
        ((A + steps + 1) * ids.termLength) m (streamStore ids G) := by
  induction steps with
  | zero => exact ⟨inner.log.buffer, rfl, h.mirrors⟩
  | succ steps ih =>
      obtain ⟨m, hclean, hmirrors⟩ := ih
      have hterm : img.activeTermId + BitVec.ofNat 32 (1 + steps) =
          ids.initialTermId + BitVec.ofNat 32 (A + steps + 1) := by
        rw [h.active, BitVec.add_assoc, ← BitVec.ofNat_add, show A + (1 + steps) = A + steps + 1 by
          omega]
      refine ⟨m.fill ((A + steps + 1) % 4 * ids.termLength) ids.termLength, ?_, ?_⟩
      · unfold ImageEntry.cleanTerms at hclean ⊢
        rw [List.range'_1_concat, List.foldl_append, hclean, List.foldl_cons, List.foldl_nil, hterm,
          h.entryInitial]
        exact @cleanPartition_eq ids (inner.withBuffer m) h.logLength (A + steps + 1)
      · have hnext : (A + (steps + 1) + 1) * ids.termLength =
            (A + steps + 1) * ids.termLength + ids.termLength := by
          rw [← Nat.add_assoc, Nat.succ_mul]
        unfold windowStart at hmirrors ⊢
        rw [hnext]
        refine hmirrors.fill (by omega) (by omega) fun q hq _ => h.streamStore_zero ?_
        have := Nat.mul_le_mul_right ids.termLength (show A + 1 ≤ A + steps + 1 by omega)
        omega

theorem isAhead_iff (h : Holds ids img inner A G) {t : Nat} (ht : t < 2 ^ 31) :
    img.IsAhead (ids.initialTermId + BitVec.ofNat 32 t) ↔ A < t ∧ t < A + (2 ^ 30 - 1) := by
  unfold ImageEntry.IsAhead i32HalfMax
  rw [h.active, toInt_add_sub_add ids.initialTermId ht h.active_lt]
  omega

/-- **Rotating** to a later term, or staying in the active one. -/
theorem rotate (h : Holds ids img inner A G) {t : Nat} (ht : t < 2 ^ 31)
    (hahead : t < A + (2 ^ 30 - 1)) :
    Holds ids (img.rotate inner (ids.initialTermId + BitVec.ofNat 32 t)).1
      (img.rotate inner (ids.initialTermId + BitVec.ofNat 32 t)).2 (max A t) G := by
  unfold ImageEntry.rotate
  by_cases hlater : A < t
  · have hisAhead := (h.isAhead_iff ht).mpr ⟨hlater, hahead⟩
    -- the terms between are cleaned one by one, at most four of them
    have hsteps : (ids.initialTermId + BitVec.ofNat 32 t - img.activeTermId).toNat = t - A := by
      rw [h.active, toNat_add_sub_add _ (by omega) (by have := h.active_lt; omega),
        if_pos (by omega)]
    obtain ⟨m, hclean, hmirrors⟩ := h.cleanTerms (min (t - A) partitionCount)
    rw [if_pos hisAhead, hsteps, hclean, Nat.max_eq_right (by omega)]
    refine ⟨h.logLength, h.entryLength, h.entryInitial, h.innerInitial, h.innerStream, rfl, ht,
      h.termLength_le, fun g hg => Nat.le_trans (h.term_le g hg) (by omega), ?_⟩
    have hcount : partitionCount = 4 := rfl
    by_cases hfew : t - A ≤ 4
    · rw [hcount, Nat.min_eq_left hfew, Nat.add_sub_cancel' (by omega)] at hmirrors
      exact hmirrors
    · -- all four partitions are clean, whichever terms they are for
      rw [hcount, Nat.min_eq_right (by omega)] at hmirrors
      have hstart : windowStart ids.termLength (A + 4) = (A + 1) * ids.termLength := by
        unfold windowStart
        rw [← Nat.sub_mul]
        congr 1
      have hend : (A + 4 + 1) * ids.termLength = (A + 1) * ids.termLength + ids.termLength * 4 := by
        ring
      rw [hstart, hend] at hmirrors
      have hT := h.termLength_pos
      refine hmirrors.shift (by omega) (fun q hq => h.streamStore_zero hq) ?_
      unfold windowStart
      rw [← Nat.sub_mul]
      exact Nat.mul_le_mul_right _ (by omega)
  · rw [if_neg fun hisAhead => hlater ((h.isAhead_iff ht).mp hisAhead).1,
      Nat.max_eq_left (by omega)]
    exact h

/-! ## Storing -/

/-- A frame of one of the last four terms lies in the window. -/
theorem windowStart_le {T A : Nat} {f : StreamFrame T} (hlo : A < f.term + 4) :
    windowStart T A ≤ f.start := by
  have hterm := Nat.mul_le_mul_right T (show A + 1 - 4 ≤ f.term by omega)
  have hstart := f.term_bounds.1
  unfold windowStart
  rw [← Nat.sub_mul]
  omega

/-- **What the image holds of a frame** of its last four terms is the frame. -/
theorem read_eq (h : Holds ids img inner A G) (hapart : FramesApart G)
    {g : StreamFrame ids.termLength} (hg : g ∈ G) (hlo : A < g.term + 4) :
    inner.log.buffer.read (slotOf 4 ids.termLength g.start) (32 + g.payload.length) =
      g.bytes ids := by
  have hstop := h.stop_le hg
  have hlen := g.length_ge
  have hfit : g.start % ids.termLength + g.length ≤ ids.termLength := g.inTerm
  unfold StreamFrame.stop at hstop
  rw [h.mirrors.read_eq (windowStart_le hlo) (by omega) (by omega), streamStore_read hapart hg]

/-- The test for stale data: the frame is of one of the last four terms. -/
theorem behind_lt_iff (h : Holds ids img inner A G) {f : StreamFrame ids.termLength}
    (hterm : f.term < 2 ^ 31) :
    (img.activeTermId - (f.header ids).termId).toNat < partitionCount ↔
      A < f.term + 4 ∧ f.term ≤ A := by
  have hA := h.active_lt
  have hid : (f.header ids).termId = ids.initialTermId + BitVec.ofNat 32 f.term := rfl
  rw [h.active, hid, toNat_add_sub_add _ (by omega) (by omega)]
  unfold partitionCount
  split_ifs <;> omega

theorem termOffset_eq (h : Holds ids img inner A G) (f : StreamFrame ids.termLength) :
    (f.header ids).termOffset.toNat = f.start % ids.termLength := by
  have hT := h.termLength_le
  have hmod := Nat.mod_lt f.start h.termLength_pos
  change (BitVec.ofNat 32 (f.start % ids.termLength)).toNat = _
  rw [BitVec.toNat_ofNat, Nat.mod_eq_of_lt (by omega)]

theorem partitionIndex_eq (h : Holds ids img inner A G) (f : StreamFrame ids.termLength) :
    partitionIndex (f.header ids).termId img.initialTermId = f.term % 4 := by
  rw [h.entryInitial]
  exact partitionIndex_add ids.initialTermId f.term

theorem frameBase_eq (h : Holds ids img inner A G) (f : StreamFrame ids.termLength) :
    partitionIndex (f.header ids).termId img.initialTermId * inner.log.termLength +
      (f.header ids).termOffset.toNat = slotOf 4 ids.termLength f.start := by
  rw [h.partitionIndex_eq f, h.termOffset_eq f, h.logLength]
  rfl

/-- The offset after a frame, which is computed as a 32-bit sum. -/
theorem newOffset_eq (h : Holds ids img inner A G) (f : StreamFrame ids.termLength) :
    ((f.header ids).termOffset.toNat + alignFrameLength (dataHeaderLength + f.payload.length)) %
      2 ^ 32 = f.start % ids.termLength + f.length := by
  have hT := h.termLength_le
  have hfit : f.start % ids.termLength + f.length ≤ ids.termLength := f.inTerm
  rw [h.termOffset_eq f]
  exact Nat.mod_eq_of_lt (show f.start % ids.termLength + f.length < 2 ^ 32 by omega)

/-- **A frame of the last four terms is written** at its place. -/
theorem append_eq (h : Holds ids img inner A G) (f : StreamFrame ids.termLength) :
    ReceiverImage.appendFrame inner (partitionIndex (f.header ids).termId img.initialTermId)
        (f.header ids).termOffset.toNat (f.header ids) f.payload =
      .ok (inner.withBuffer (inner.log.buffer.write (slotOf 4 ids.termLength f.start) (f.bytes ids)),
        f.start % ids.termLength + f.length) := by
  refine ReceiverImage.appendFrame_eq_ok.mpr ⟨?_, ?_, ?_, ?_⟩
  · rw [h.partitionIndex_eq f]
    exact Nat.mod_lt _ (by decide)
  · rw [h.logLength]
    exact f.inTerm
  · exact (h.newOffset_eq f).symm
  · rw [ReceiverImage.storeFrame_eq, h.frameBase_eq f]
    rfl

/-- What `on_data` computes as the end of a frame is its end. -/
theorem newPos_eq (h : Holds ids img inner A G) {f : StreamFrame ids.termLength}
    (hterm : f.term < 2 ^ 31) :
    ((f.header ids).termId - img.initialTermId).toInt * (img.termLength : Int) +
      ((f.start % ids.termLength + f.length : Nat) : Int) = f.stop := by
  have hid : (f.header ids).termId = ids.initialTermId + BitVec.ofNat 32 f.term := rfl
  have hdiv := Nat.div_add_mod' f.start ids.termLength
  rw [h.entryInitial, h.entryLength, hid, toInt_add_sub_base _ hterm, ← Nat.cast_mul,
    ← Nat.cast_add, StreamFrame.term, ← Nat.add_assoc, hdiv]
  rfl

theorem store_eq (h : Holds ids img inner A G) {f : StreamFrame ids.termLength}
    (hlo : A < f.term + 4) (hhi : f.term ≤ A) (handler : InlineHandler) (r : ReceiverImage) :
    ReceiverImage.store handler img inner r (f.header ids) f.payload =
      (img.noteAppended handler (f.header ids).termId (f.start % ids.termLength + f.length),
        ReceiverImage.advanceTo
          (inner.withBuffer (inner.log.buffer.write (slotOf 4 ids.termLength f.start) (f.bytes ids)))
          r f.stop) := by
  have hterm : f.term < 2 ^ 31 := Nat.lt_of_le_of_lt hhi h.active_lt
  have hnear := (h.behind_lt_iff hterm).mpr ⟨hlo, hhi⟩
  unfold ReceiverImage.store
  rw [if_neg (Nat.not_le.mpr hnear)]
  simp only [h.append_eq f, h.newPos_eq hterm]

/-- A frame of an older term, or too far ahead, is rejected. -/
theorem store_rejected (h : Holds ids img inner A G) {f : StreamFrame ids.termLength}
    (hterm : f.term < 2 ^ 31) (hout : ¬ (A < f.term + 4 ∧ f.term ≤ A)) (handler : InlineHandler)
    (r : ReceiverImage) :
    ReceiverImage.store handler img inner r (f.header ids) f.payload = (img, inner, r) := by
  have hfar := mt (h.behind_lt_iff hterm).mp hout
  unfold ReceiverImage.store
  rw [if_pos (Nat.not_lt.mp hfar)]

/-- A frame that is written is added to those that the image holds. -/
theorem write (h : Holds ids img inner A G) {f : StreamFrame ids.termLength}
    (hlo : A < f.term + 4) (hhi : f.term ≤ A) :
    Holds ids img
      (inner.withBuffer (inner.log.buffer.write (slotOf 4 ids.termLength f.start) (f.bytes ids))) A
      (f :: G) := by
  have hstop := f.stop_le_of_term_le hhi
  have hlen := f.length_ge
  have hinTerm : f.start % ids.termLength + f.length ≤ ids.termLength := f.inTerm
  have hmirrors : Mirrors 4 ids.termLength (windowStart ids.termLength A)
      ((A + 1) * ids.termLength)
      (inner.log.buffer.write (slotOf 4 ids.termLength f.start) (f.bytes ids))
      (streamStore ids (f :: G)) := by
    unfold StreamFrame.stop at hstop
    refine h.mirrors.write ?_ ?_ (windowStart_le hlo) ?_
    · unfold windowStart
      omega
    · rw [f.bytes_length]
      omega
    · rw [f.bytes_length]
      omega
  exact ⟨h.logLength, h.entryLength, h.entryInitial, h.innerInitial, h.innerStream, h.active,
    h.active_lt, h.termLength_le, List.forall_mem_cons.mpr ⟨hhi, h.term_le⟩, hmirrors⟩

theorem advanceTo (h : Holds ids img inner A G) (r : ReceiverImage) (newPos : Int) :
    Holds ids img (ReceiverImage.advanceTo inner r newPos).1 A G := by
  rw [ReceiverImage.advanceTo]
  split_ifs
  · exact { h with }
  · exact h

/-- **The receiver's position** after a frame is the greater of what it was and the end of
the frame. -/
theorem advanceTo_receiverPosition (h : Holds ids img inner A G) {f : StreamFrame ids.termLength}
    (hterm : f.term < 2 ^ 31) {r : ReceiverImage}
    (hsync : inner.receiverPosition = r.receiverPositionLocal) {recv : Nat}
    (hrecv : inner.receiverPosition = recv) (hle : recv ≤ (A + 1) * ids.termLength) :
    (ReceiverImage.advanceTo inner r f.stop).1.receiverPosition = ((max recv f.stop : Nat) : Int) := by
  -- both positions are far from the bounds of the 64-bit comparison
  have hT := h.termLength_le
  have hrange : recv ≤ 2 ^ 31 * 2 ^ 30 :=
    Nat.le_trans hle (Nat.mul_le_mul h.active_lt hT)
  have hstop : f.stop ≤ 2 ^ 31 * 2 ^ 30 :=
    Nat.le_trans (f.stop_le_of_term_le (Nat.le_refl _)) (Nat.mul_le_mul hterm hT)
  have hnear : |(f.stop : Int) - inner.receiverPosition| < i64HalfMax := by
    rw [hrecv, i64HalfMax, abs_lt]
    omega
  rw [ReceiverImage.advanceTo_receiverPosition hsync hnear, hrecv, max_comm, Nat.cast_max]

/-- **Storing a frame** adds it to those that the image holds. -/
theorem store (h : Holds ids img inner A G) {f : StreamFrame ids.termLength}
    (hlo : A < f.term + 4) (hhi : f.term ≤ A) (handler : InlineHandler) (r : ReceiverImage) :
    Holds ids (ReceiverImage.store handler img inner r (f.header ids) f.payload).1
      (ReceiverImage.store handler img inner r (f.header ids) f.payload).2.1 A (f :: G) := by
  have hmoved := (h.write hlo hhi).advanceTo r f.stop
  rw [h.store_eq hlo hhi handler r]
  exact { hmoved with }

/-! ## Data frames -/

variable {s : ImageState}

/-- **An accepted frame** is added to what the image holds, and its term is active if it is the
latest. -/
theorem onData (h : Holds ids s.entry s.image.inner A G) {f : StreamFrame ids.termLength}
    (hterm : f.term < 2 ^ 31) (haccepts : Accepts A f.term) (handler : InlineHandler) :
    Holds ids (s.onData handler (f.header ids) f.payload).1.entry
      (s.onData handler (f.header ids) f.payload).1.image.inner (max A f.term) (f :: G) := by
  have hrotated := (h.noteGap handler (f.header ids)).rotate hterm haccepts.2
  exact hrotated.store (by have := haccepts.1; omega) (Nat.le_max_right _ _) handler
    s.image.receiver

/-- A frame that is too old or too far ahead rotates nothing. -/
theorem rotate_rejected (h : Holds ids img inner A G) {t : Nat} (ht : t < 2 ^ 31)
    (hnot : ¬ Accepts A t) :
    img.rotate inner (ids.initialTermId + BitVec.ofNat 32 t) = (img, inner) := by
  unfold ImageEntry.rotate
  refine if_neg fun hisAhead => hnot ?_
  have := (h.isAhead_iff ht).mp hisAhead
  exact ⟨by omega, this.2⟩

/-- **A rejected frame** leaves the image as it is, but for a noted time. -/
theorem onData_rejected (h : Holds ids s.entry s.image.inner A G)
    {f : StreamFrame ids.termLength} (hterm : f.term < 2 ^ 31) (hnot : ¬ Accepts A f.term)
    (handler : InlineHandler) :
    (s.onData handler (f.header ids) f.payload).1.entry =
        (s.entry.noteGap handler (f.header ids)).1 ∧
      (s.onData handler (f.header ids) f.payload).1.image = s.image := by
  have hnoted := h.noteGap handler (f.header ids)
  have hrotate : (s.entry.noteGap handler (f.header ids)).1.rotate s.image.inner
      (f.header ids).termId = _ := hnoted.rotate_rejected hterm hnot
  have hstore := hnoted.store_rejected hterm (by unfold Accepts at hnot; omega) handler
    s.image.receiver
  have hreceived : s.received handler (f.header ids) f.payload =
      ((s.entry.noteGap handler (f.header ids)).1, s.image.inner, s.image.receiver) := by
    unfold ImageState.received
    dsimp only
    rw [hrotate, hstore]
  refine ⟨congrArg Prod.fst hreceived, SharedImage.ext ?_ ?_ rfl⟩
  · exact congrArg (fun r => r.2.1) hreceived
  · exact congrArg (fun r => r.2.2) hreceived

theorem stores_iff (h : Holds ids s.entry s.image.inner A G) {f : StreamFrame ids.termLength}
    (hterm : f.term < 2 ^ 31) (handler : InlineHandler) :
    s.stores handler (f.header ids) f.payload = true ↔ Accepts A f.term := by
  have hnoted := h.noteGap handler (f.header ids)
  unfold ImageState.stores
  by_cases haccepts : Accepts A f.term
  · have hrotated := hnoted.rotate hterm haccepts.2
    refine iff_of_true (Bool.and_eq_true_iff.mpr ⟨decide_eq_true ?_, ?_⟩) haccepts
    · exact (hrotated.behind_lt_iff hterm).mpr ⟨by have := haccepts.1; omega, Nat.le_max_right _ _⟩
    · exact congrArg Except.isOk (hrotated.append_eq f)
  · have hrotate : (s.entry.noteGap handler (f.header ids)).1.rotate s.image.inner
        (f.header ids).termId = _ := hnoted.rotate_rejected hterm haccepts
    refine iff_of_false (fun hstores => ?_) haccepts
    dsimp only at hstores
    rw [hrotate, Bool.and_eq_true, decide_eq_true_eq] at hstores
    have := (hnoted.behind_lt_iff hterm).mp hstores.1
    unfold Accepts at haccepts
    omega

/-- **What a frame does**: it is accepted, and the image holds one more frame, or it leaves the image
as it is, but for a noted time. -/
theorem onData_cases (h : Holds ids s.entry s.image.inner A G) {f : StreamFrame ids.termLength}
    (hterm : f.term < 2 ^ 31) (handler : InlineHandler) :
    (Accepts A f.term ∧ s.stores handler (f.header ids) f.payload = true ∧
      Holds ids (s.onData handler (f.header ids) f.payload).1.entry
        (s.onData handler (f.header ids) f.payload).1.image.inner (max A f.term) (f :: G)) ∨
    (¬ Accepts A f.term ∧ s.stores handler (f.header ids) f.payload = false ∧
      (s.onData handler (f.header ids) f.payload).1.entry =
        (s.entry.noteGap handler (f.header ids)).1 ∧
      (s.onData handler (f.header ids) f.payload).1.image = s.image ∧
      Holds ids (s.onData handler (f.header ids) f.payload).1.entry
        (s.onData handler (f.header ids) f.payload).1.image.inner A G) := by
  by_cases haccepts : Accepts A f.term
  · exact .inl ⟨haccepts, (h.stores_iff hterm handler).mpr haccepts, h.onData hterm haccepts handler⟩
  · obtain ⟨hentry, himage⟩ := h.onData_rejected hterm haccepts handler
    refine .inr ⟨haccepts, Bool.eq_false_iff.mpr (mt (h.stores_iff hterm handler).mp haccepts),
      hentry, himage, ?_⟩
    rw [hentry, himage]
    exact h.noteGap handler (f.header ids)

end Holds

end AeronRs
