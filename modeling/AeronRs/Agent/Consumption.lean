import AeronRs.Agent.ImageRun

/-! # The consumption position of an image

What an image reports in its status messages: the term of the latest frame and the offset in it up to
which frames have arrived. **`Consumes`** says that it is never behind an accepted frame. The offset
only moves by steps of less than half the range of a 32-bit number; **`Noticed`** is the condition
that the end of a frame is within that range. -/

namespace AeronRs

namespace ImageEntry

theorem advanceOffset_toNat_eq {offset : BitVec 32} {alignedEnd : Nat}
    (hoffset : offset.toNat < 2 ^ 31) (hend : alignedEnd ≤ 2 ^ 30) :
    (advanceOffset offset (BitVec.ofNat 32 alignedEnd)).toNat =
      if offset.toNat < alignedEnd ∧ alignedEnd < offset.toNat + (2 ^ 30 - 1) then alignedEnd
      else offset.toNat := by
  have hdiff : (BitVec.ofNat 32 alignedEnd - offset).toInt = (alignedEnd : Int) - offset.toNat := by
    have hcast := @toInt_ofNat_sub_ofNat alignedEnd offset.toNat (by omega) (by omega)
    rwa [BitVec.ofNat_toNat, BitVec.setWidth_eq] at hcast
  unfold advanceOffset i32HalfMax
  rw [hdiff]
  by_cases hforward : offset.toNat < alignedEnd ∧ alignedEnd < offset.toNat + (2 ^ 30 - 1)
  · rw [if_pos hforward, if_pos (by omega), BitVec.toNat_ofNat, Nat.mod_eq_of_lt (by omega)]
  · rw [if_neg hforward, if_neg (by omega)]

/-- An offset moves to the end of a frame that is within half the range. -/
theorem advanceOffset_toNat {offset : BitVec 32} {alignedEnd : Nat} (hoffset : offset.toNat ≤ 2 ^ 30)
    (hend : alignedEnd ≤ 2 ^ 30) (hnear : alignedEnd < offset.toNat + (2 ^ 30 - 1)) :
    (advanceOffset offset (BitVec.ofNat 32 alignedEnd)).toNat = max offset.toNat alignedEnd := by
  rw [advanceOffset_toNat_eq (by omega) hend]
  split_ifs <;> omega

/-- Gap detection leaves the consumption position and the window alone. -/
theorem noteGap_consumption (handler : InlineHandler) (img : ImageEntry) (header : DataHeader) :
    (img.noteGap handler header).1.consumptionTermId = img.consumptionTermId ∧
      (img.noteGap handler header).1.consumptionTermOffset = img.consumptionTermOffset ∧
      (img.noteGap handler header).1.receiverWindow = img.receiverWindow ∧
      (img.noteGap handler header).1.sessionId = img.sessionId ∧
      (img.noteGap handler header).1.streamId = img.streamId := by
  rw [img.noteGap_fst handler header]
  exact ⟨rfl, rfl, rfl, rfl, rfl⟩

end ImageEntry

/-- **The consumption position covers the accepted frames** `G`, of which the latest are of term `A`,
the window is half a term, and the entry is the one of the stream. -/
structure Consumes (ids : StreamIds) (img : ImageEntry) (A : Nat)
    (G : List (StreamFrame ids.termLength)) : Prop where
  term : img.consumptionTermId = ids.initialTermId + BitVec.ofNat 32 A
  offset_le : img.consumptionTermOffset.toNat ≤ ids.termLength
  covers : ∀ g ∈ G, g.stop ≤ A * ids.termLength + img.consumptionTermOffset.toNat
  window : img.receiverWindow.toInt = (ids.termLength : Int) / 2
  stream : img.sessionId = ids.sessionId ∧ img.streamId = ids.streamId

/-- The end of a frame is within half the range of the offset from which it advances: the consumption
offset in its own term, zero in a later one. -/
def Noticed (ids : StreamIds) (img : ImageEntry) (f : StreamFrame ids.termLength) : Prop :=
  f.start % ids.termLength + f.length < 2 ^ 30 - 1 ∨
    (f.header ids).termId = img.consumptionTermId ∧
      f.start % ids.termLength + f.length < img.consumptionTermOffset.toNat + (2 ^ 30 - 1)

instance (ids : StreamIds) (img : ImageEntry) (f : StreamFrame ids.termLength) :
    Decidable (Noticed ids img f) :=
  inferInstanceAs (Decidable (_ ∨ _ ∧ _))

namespace Consumes

variable {ids : StreamIds} {img : ImageEntry} {inner : ImageInner} {A : Nat}
  {G : List (StreamFrame ids.termLength)} {f : StreamFrame ids.termLength}

theorem noteGap (h : Consumes ids img A G) (handler : InlineHandler) (header : DataHeader) :
    Consumes ids (img.noteGap handler header).1 A G := by
  obtain ⟨hterm, hoffset, hwindow, hsession, hstream⟩ := img.noteGap_consumption handler header
  exact ⟨hterm.trans h.term, by rw [hoffset]; exact h.offset_le,
    by rw [hoffset]; exact h.covers, by rw [hwindow]; exact h.window,
    hsession.trans h.stream.1, hstream.trans h.stream.2⟩

theorem rotate (h : Consumes ids img A G) (hholds : Holds ids img inner A G) {t : Nat}
    (ht : t < 2 ^ 31) (hahead : t < A + (2 ^ 30 - 1)) :
    Consumes ids (img.rotate inner (ids.initialTermId + BitVec.ofNat 32 t)).1 (max A t) G := by
  unfold ImageEntry.rotate
  by_cases hlater : A < t
  · rw [if_pos ((hholds.isAhead_iff ht).mpr ⟨hlater, hahead⟩), Nat.max_eq_right (by omega)]
    refine ⟨rfl, Nat.zero_le _, fun g hg => ?_, h.window, h.stream⟩
    exact Nat.le_trans (hholds.stop_le hg)
      (Nat.le_trans (Nat.mul_le_mul_right _ hlater) (Nat.le_add_right _ _))
  · rw [if_neg fun hisAhead => hlater ((hholds.isAhead_iff ht).mp hisAhead).1,
      Nat.max_eq_left (by omega)]
    exact h

/-- A frame is of the consumption term exactly if it is of the latest term. -/
theorem termId_eq_iff (h : Consumes ids img A G) (hA : A < 2 ^ 31) (hterm : f.term < 2 ^ 31) :
    (f.header ids).termId = img.consumptionTermId ↔ f.term = A := by
  have hid : (f.header ids).termId = ids.initialTermId + BitVec.ofNat 32 f.term := rfl
  rw [hid, h.term, add_ofNat_inj _ (by omega) (by omega)]

/-- **Noting an appended frame** moves the offset to its end if it is of the latest term. -/
theorem noteAppended (h : Consumes ids img A G) (hholds : Holds ids img inner A G)
    (hterm : f.term ≤ A) (hnoticed : f.term = A →
      f.start % ids.termLength + f.length < img.consumptionTermOffset.toNat + (2 ^ 30 - 1))
    (handler : InlineHandler) :
    Consumes ids (img.noteAppended handler (f.header ids).termId
      (f.start % ids.termLength + f.length)) A (f :: G) := by
  have hT := hholds.termLength_le
  have hactive := hholds.active_lt
  have hfit : f.start % ids.termLength + f.length ≤ ids.termLength := f.inTerm
  have hoffset := h.offset_le
  have hsame := h.termId_eq_iff (f := f) hactive (Nat.lt_of_le_of_lt hterm hactive)
  by_cases heq : f.term = A
  · -- a frame of the latest term moves the offset, since its end is noticed
    have hadvanced : (img.noteAppended handler (f.header ids).termId
        (f.start % ids.termLength + f.length)).consumptionTermOffset.toNat =
        max img.consumptionTermOffset.toNat (f.start % ids.termLength + f.length) := by
      unfold ImageEntry.noteAppended
      dsimp only
      rw [if_pos (hsame.mpr heq)]
      exact ImageEntry.advanceOffset_toNat (by omega) (by omega) (hnoticed heq)
    have hstop : f.stop = A * ids.termLength + (f.start % ids.termLength + f.length) := by
      have hdiv := Nat.div_add_mod' f.start ids.termLength
      rw [← heq, StreamFrame.stop, StreamFrame.term]
      omega
    refine ⟨h.term, by rw [hadvanced]; omega, ?_, h.window, h.stream⟩
    rw [hadvanced]
    intro g hg
    rcases List.mem_cons.mp hg with rfl | hold
    · omega
    · have := h.covers g hold
      omega
  · -- a frame of an earlier term ends before the latest one
    have hkept : (img.noteAppended handler (f.header ids).termId
        (f.start % ids.termLength + f.length)).consumptionTermOffset =
        img.consumptionTermOffset := if_neg (mt hsame.mp heq)
    refine ⟨h.term, by rw [hkept]; exact hoffset, ?_, h.window, h.stream⟩
    rw [hkept]
    intro g hg
    rcases List.mem_cons.mp hg with rfl | hold
    · have hbound := g.stop_le_of_term_le (Nat.le_refl _)
      have hmul := Nat.mul_le_mul_right ids.termLength (show g.term + 1 ≤ A by omega)
      omega
    · exact h.covers g hold

/-- **An accepted frame is covered.** -/
theorem onData {s : ImageState} (h : Consumes ids s.entry A G)
    (hholds : Holds ids s.entry s.image.inner A G) (hterm : f.term < 2 ^ 31)
    (haccepts : Accepts A f.term) (hnoticed : Noticed ids s.entry f) (handler : InlineHandler) :
    Consumes ids (s.onData handler (f.header ids) f.payload).1.entry (max A f.term) (f :: G) := by
  have hnoted := h.noteGap handler (f.header ids)
  have hnotedHolds := hholds.noteGap handler (f.header ids)
  have hrotated := hnoted.rotate hnotedHolds hterm haccepts.2
  have hrotatedHolds := hnotedHolds.rotate hterm haccepts.2
  rw [ImageState.onData_entry, ImageState.received]
  refine (congrArg (fun r => Consumes ids r.1 _ _) (hrotatedHolds.store_eq
    (by have := haccepts.1; omega) (Nat.le_max_right _ _) handler s.image.receiver)).mpr ?_
  refine hrotated.noteAppended hrotatedHolds (Nat.le_max_right _ _) (fun _ => ?_) handler
  rcases hnoticed with hnear | ⟨hsame, hnear⟩
  · omega
  · -- a frame of the consumption term does not rotate
    have heq := (h.termId_eq_iff hholds.active_lt hterm).mp hsame
    have hstays : ¬ (s.entry.noteGap handler (f.header ids)).1.IsAhead
        (ids.initialTermId + BitVec.ofNat 32 f.term) := by
      rw [hnotedHolds.isAhead_iff hterm]
      omega
    unfold ImageEntry.rotate
    rw [if_neg hstays, (s.entry.noteGap_consumption handler (f.header ids)).2.1]
    exact hnear

/-- A new image starts at the position of its setup frame, with the default window. -/
theorem onSetup {handler : InlineHandler} {setup : SetupHeader} {source : SockAddr} {s : ImageState}
    (hsetup : ImageState.onSetup handler setup source = some s)
    (hdefault : handler.receiverWindowOverride = none)
    (hoffset : setup.termOffset.toNat ≤ setup.ids.termLength) :
    Consumes setup.ids s.entry setup.activeTerm [] := by
  obtain ⟨hle, -, -, -, -, -, -, -, -, -, hterm, hoff, -⟩ := ImageRun.onSetup_spec hsetup
  have hentry : s.entry.receiverWindow = BitVec.ofInt 32 (setup.termLength.toInt / 2) ∧
      s.entry.sessionId = setup.sessionId ∧ s.entry.streamId = setup.streamId := by
    unfold ImageState.onSetup at hsetup
    split_ifs at hsetup
    obtain ⟨image, -, rfl⟩ := Option.map_eq_some_iff.mp hsetup
    rw [hdefault]
    exact ⟨rfl, rfl, rfl⟩
  have hlength : setup.termLength.toInt = (setup.ids.termLength : Int) :=
    BitVec.toInt_eq_toNat_of_lt (by omega)
  refine ⟨?_, by rw [hoff]; exact hoffset, by simp, ?_, hentry.2⟩
  · rw [hterm, SetupHeader.activeTerm, BitVec.ofNat_toNat, BitVec.setWidth_eq, BitVec.add_comm]
    exact (BitVec.sub_add_cancel _ _).symm
  · have hT : setup.ids.termLength ≤ 2 ^ 30 := hle
    rw [hentry.1, hlength]
    have hcast : (setup.ids.termLength : Int) / 2 = ((setup.ids.termLength / 2 : Nat) : Int) := by
      omega
    rw [hcast, BitVec.ofInt_natCast, toInt_ofNat_of_lt (by omega)]

end Consumes

end AeronRs
