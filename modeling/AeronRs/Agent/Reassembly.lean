import AeronRs.Agent.GapReports
import Mathlib.Order.Bounds.Basic

/-! # Reassembly in any order

An image that a setup frame has created receives the frames of up to four terms, from the active one
on. Whatever the order in which they arrive, and however often, the image ends in the same state:
**`Assembled`** describes it by the set of frames that have arrived, as greatest elements of sets and
as the bytes of the log. One call adds its frame to the set, and two images that are assembled of the
same set agree. -/

namespace AeronRs

open Runs

/-! ## Where frames belong -/

namespace SetupHeader

variable (setup : SetupHeader)

def termOf (f : ReceivedFrame) : Nat := (f.termId - setup.activeTermId).toNat

def entryOffset (k : Nat) : Int := if k = 0 then setup.termOffset.toInt else 0

/-- The receiver's position in a new image. -/
def startPosition : Int :=
  (setup.activeTermId - setup.initialTermId).toInt * (setup.termLength.toNat : Int) +
    setup.termOffset.toInt

/-- The receiver's position behind a frame. -/
def endOf (f : ReceivedFrame) : Int :=
  (f.termId - setup.initialTermId).toInt * (setup.termLength.toNat : Int) + f.stop

def placeOf (f : ReceivedFrame) : Nat :=
  partitionIndex f.termId setup.initialTermId * setup.termLength.toNat + f.header.termOffset.toNat

theorem termId_eq (f : ReceivedFrame) :
    f.termId = setup.activeTermId + BitVec.ofNat 32 (setup.termOf f) := by
  rw [termOf, BitVec.ofNat_toNat, BitVec.setWidth_eq, add_sub_cancel]

theorem partitionIndex_eq (f : ReceivedFrame) :
    partitionIndex f.termId setup.initialTermId =
      ((setup.activeTermId - setup.initialTermId).toNat + setup.termOf f) % 4 := by
  conv_lhs => rw [setup.termId_eq f]
  exact partitionIndex_add_word _ _ _

/-- A position in a term of at most `2 ^ 29` bytes is far from the bounds of the 64-bit comparison. -/
theorem position_bounds (w : BitVec 32) {T : Nat} (hT : T ≤ 2 ^ 29) {o : Int} (ho : 0 ≤ o)
    (hle : o ≤ T) : -2 ^ 60 ≤ w.toInt * T + o ∧ w.toInt * T + o ≤ 2 ^ 60 := by
  have hlo := Int.mul_le_mul_of_nonneg_right (@BitVec.le_toInt 32 w) (Int.natCast_nonneg T)
  have hhi := Int.mul_le_mul_of_nonneg_right (Int.le_sub_one_of_lt (@BitVec.toInt_lt 32 w))
    (Int.natCast_nonneg T)
  omega

end SetupHeader

/-- **Frames that fit together**: of the four terms from the active one on, each inside its term, and
no two of them at the same place. -/
structure FrameSet (setup : SetupHeader) where
  frames : List ReceivedFrame
  offset_nonneg : ∀ f ∈ frames, 0 ≤ f.termOffset
  fits : ∀ f ∈ frames, f.stop ≤ setup.termLength.toNat
  near : ∀ f ∈ frames, setup.termOf f < 4
  apart : ∀ f ∈ frames, ∀ g ∈ frames, f ≠ g → f.termId = g.termId →
    f.termOffset + f.bytes.length ≤ g.termOffset ∨ g.termOffset + g.bytes.length ≤ f.termOffset

namespace FrameSet

variable {setup : SetupHeader} (F : FrameSet setup) {f g : ReceivedFrame}

/-- A frame inside its term, in natural numbers. -/
theorem stop_eq (hf : f ∈ F.frames) :
    f.termOffset = f.header.termOffset.toNat ∧
      f.stop = ((f.header.termOffset.toNat + f.alignedLength : Nat) : Int) ∧
      f.header.termOffset.toNat + f.alignedLength ≤ setup.termLength.toNat ∧
      f.bytes.length ≤ f.alignedLength ∧ 32 ≤ f.alignedLength := by
  obtain ⟨hoffset, -⟩ := ReceivedFrame.toNat_termOffset (F.offset_nonneg f hf)
  have hfits := F.fits f hf
  have hbounds := f.alignedLength_bounds
  rw [f.bytes_length]
  unfold ReceivedFrame.stop at hfits ⊢
  omega

/-- **No two frames share a place in the log.** -/
theorem place_apart (hf : f ∈ F.frames) (hg : g ∈ F.frames) (hne : f ≠ g) :
    setup.placeOf f + f.bytes.length ≤ setup.placeOf g ∨
      setup.placeOf g + g.bytes.length ≤ setup.placeOf f := by
  obtain ⟨hfo, -, hfT, hfb, -⟩ := F.stop_eq hf
  obtain ⟨hgo, -, hgT, hgb, -⟩ := F.stop_eq hg
  by_cases hterm : f.termId = g.termId
  · have hapart := F.apart f hf g hg hne hterm
    unfold SetupHeader.placeOf
    rw [hterm]
    omega
  · -- frames of different terms are in different partitions
    have hother : setup.termOf f ≠ setup.termOf g := fun h =>
      hterm (by rw [setup.termId_eq f, setup.termId_eq g, h])
    have hfnear := F.near f hf
    have hgnear := F.near g hg
    have hindex : partitionIndex f.termId setup.initialTermId ≠
        partitionIndex g.termId setup.initialTermId := by
      rw [setup.partitionIndex_eq f, setup.partitionIndex_eq g]
      omega
    unfold SetupHeader.placeOf
    rcases Nat.lt_or_gt_of_ne hindex with hlt | hlt
    · have hmul := Nat.mul_le_mul_right setup.termLength.toNat (Nat.succ_le_of_lt hlt)
      rw [Nat.succ_mul] at hmul
      omega
    · have hmul := Nat.mul_le_mul_right setup.termLength.toNat (Nat.succ_le_of_lt hlt)
      rw [Nat.succ_mul] at hmul
      omega

end FrameSet

/-! ## The assembled image -/

/-- **The state that a set of frames makes.** The active term is the latest one, the expected offset
is the greatest end of a frame in it, the receiver's position is the greatest end of all; the log
holds every frame, and zeros elsewhere. -/
structure Assembled (setup : SetupHeader) (G : Set ReceivedFrame) (s : ImageState) (A : Nat) :
    Prop where
  initial : s.entry.initialTermId = setup.initialTermId
  entryLength : s.entry.termLength = setup.termLength.toNat
  logLength : s.image.inner.log.termLength = setup.termLength.toNat
  active : s.entry.activeTermId = setup.activeTermId + BitVec.ofNat 32 A
  latest : IsGreatest (insert 0 (setup.termOf '' G)) A
  inStep : s.entry.consumptionTermId = s.entry.activeTermId ∧
    s.entry.consumptionTermOffset = s.entry.expectedTermOffset
  expected : IsGreatest (insert (setup.entryOffset A)
    (ReceivedFrame.stop '' {g | g ∈ G ∧ setup.termOf g = A})) (s.entry.expectedTermOffset.toNat : Int)
  position : IsGreatest (insert setup.startPosition (setup.endOf '' G))
    s.image.inner.receiverPosition
  intact : ∀ g ∈ G, s.image.inner.log.buffer.read (setup.placeOf g) g.bytes.length = g.bytes
  empty : ∀ a, (∀ g ∈ G, a < setup.placeOf g ∨ setup.placeOf g + g.bytes.length ≤ a) →
    s.image.inner.log.buffer a = 0

/-- **What reassembly is about**: the log, the terms and offsets of the entry and the receiver's
position. NAKs and times are left out. -/
structure SameAssembly (s t : ImageState) : Prop where
  buffer : s.image.inner.log.buffer = t.image.inner.log.buffer
  activeTermId : s.entry.activeTermId = t.entry.activeTermId
  expectedTermOffset : s.entry.expectedTermOffset = t.entry.expectedTermOffset
  consumptionTermId : s.entry.consumptionTermId = t.entry.consumptionTermId
  consumptionTermOffset : s.entry.consumptionTermOffset = t.entry.consumptionTermOffset
  receiverPosition : s.image.inner.receiverPosition = t.image.inner.receiverPosition

theorem ImageState.inStep_onData (handler : InlineHandler) (s : ImageState) (header : DataHeader)
    (payload : List UInt8)
    (h : s.entry.consumptionTermId = s.entry.activeTermId ∧
      s.entry.consumptionTermOffset = s.entry.expectedTermOffset) :
    (s.onData handler header payload).1.entry.consumptionTermId =
        (s.onData handler header payload).1.entry.activeTermId ∧
      (s.onData handler header payload).1.entry.consumptionTermOffset =
        (s.onData handler header payload).1.entry.expectedTermOffset := by
  have hrotated : (s.rotated handler header).1.consumptionTermId =
        (s.rotated handler header).1.activeTermId ∧
      (s.rotated handler header).1.consumptionTermOffset =
        (s.rotated handler header).1.expectedTermOffset := by
    rw [rotated_fst]
    dsimp only
    rw [h.1, h.2]
    exact ⟨rfl, rfl⟩
  rw [onData_entry]
  cases hstored : s.stores handler header payload with
  | true =>
      rw [received_of_stored hstored]
      unfold ImageEntry.noteAppended
      dsimp only
      rw [hrotated.1, hrotated.2]
      exact ⟨rfl, rfl⟩
  | false =>
      rw [received_of_rejected hstored]
      exact hrotated

namespace Assembled

variable {setup : SetupHeader} {G : Set ReceivedFrame} {s t : ImageState} {A B : Nat}

/-- **A set of frames makes one state.** -/
theorem unique (h : Assembled setup G s A) (h' : Assembled setup G t B) : SameAssembly s t := by
  obtain rfl : A = B := h.latest.unique h'.latest
  have hactive : s.entry.activeTermId = t.entry.activeTermId := h.active.trans h'.active.symm
  have hexpected : s.entry.expectedTermOffset = t.entry.expectedTermOffset :=
    BitVec.eq_of_toNat_eq (Int.ofNat.inj (h.expected.unique h'.expected))
  refine ⟨?_, hactive, hexpected, ?_, ?_, h.position.unique h'.position⟩
  · funext a
    by_cases hcover : ∃ g ∈ G, setup.placeOf g ≤ a ∧ a < setup.placeOf g + g.bytes.length
    · obtain ⟨g, hg, hlo, hhi⟩ := hcover
      obtain ⟨i, rfl⟩ := Nat.exists_eq_add_of_le hlo
      exact ByteStore.eq_of_read_eq ((h.intact g hg).trans (h'.intact g hg).symm) (by omega)
    · have hfree : ∀ g ∈ G, a < setup.placeOf g ∨ setup.placeOf g + g.bytes.length ≤ a := by
        intro g hg
        by_contra hin
        exact hcover ⟨g, hg, by omega⟩
      rw [h.empty a hfree, h'.empty a hfree]
  · rw [h.inStep.1, h'.inStep.1, hactive]
  · rw [h.inStep.2, h'.inStep.2, hexpected]

theorem onSetup {handler : InlineHandler} {source : SockAddr} {image : ImageState}
    (hsetup : ImageState.onSetup handler setup source = some image)
    (hoffset : 0 ≤ setup.termOffset.toInt) : Assembled setup ∅ image 0 := by
  obtain ⟨-, hlog, hbuffer, -, -, hposition, -, hlength, hinitial, hactive, hterm, hconsumed,
    hexpected⟩ := ImageRun.onSetup_spec hsetup
  refine ⟨hinitial, hlength, hlog, ?_, ?_, ⟨hterm.trans hactive.symm, hconsumed.trans hexpected.symm⟩,
    ?_, ?_, by simp, fun a _ => by rw [hbuffer]⟩
  · rw [hactive]
    exact (BitVec.add_zero _).symm
  · simp
  · rw [hexpected, toNat_eq_toInt hoffset]
    simp [SetupHeader.entryOffset]
  · rw [hposition]
    simp [SetupHeader.startPosition]

/-! ### One more frame -/

variable {f : ReceivedFrame} (F : FrameSet setup)

theorem active_lt (h : Assembled setup G s A) (hG : ∀ g ∈ G, g ∈ F.frames) : A < 4 := by
  rcases h.latest.1 with rfl | ⟨g, hg, rfl⟩
  · decide
  · exact F.near g (hG g hg)

theorem termOf_le (h : Assembled setup G s A) {g : ReceivedFrame} (hg : g ∈ G) :
    setup.termOf g ≤ A :=
  h.latest.2 (Set.mem_insert_of_mem _ ⟨g, hg, rfl⟩)

/-- A frame rotates the image exactly if it is of a later term. -/
theorem isAhead_iff (h : Assembled setup G s A) (hA : A < 4) (hnear : setup.termOf f < 4) :
    s.entry.IsAhead f.termId ↔ A < setup.termOf f := by
  unfold ImageEntry.IsAhead i32HalfMax
  rw [h.active, setup.termId_eq f, toInt_add_sub_add _ (by omega) (by omega)]
  omega

theorem activeAfter_eq (h : Assembled setup G s A) (hA : A < 4) (hnear : setup.termOf f < 4) :
    s.entry.activeAfter f.termId =
      setup.activeTermId + BitVec.ofNat 32 (max (setup.termOf f) A) := by
  unfold ImageEntry.activeAfter
  by_cases hlater : A < setup.termOf f
  · rw [if_pos ((h.isAhead_iff hA hnear).mpr hlater), max_eq_left hlater.le]
    exact setup.termId_eq f
  · rw [if_neg (mt (h.isAhead_iff hA hnear).mp hlater), max_eq_right (by omega)]
    exact h.active

/-- A frame is of the active term exactly if none is later. -/
theorem termId_eq_activeAfter_iff (h : Assembled setup G s A) (hA : A < 4)
    (hnear : setup.termOf f < 4) :
    f.termId = s.entry.activeAfter f.termId ↔ A ≤ setup.termOf f := by
  rw [h.activeAfter_eq hA hnear]
  conv_lhs => rw [setup.termId_eq f]
  rw [BitVec.add_right_inj]
  constructor
  · intro heq
    have hnat := congrArg BitVec.toNat heq
    rw [BitVec.toNat_ofNat, BitVec.toNat_ofNat] at hnat
    omega
  · intro hle
    rw [max_eq_left hle]

/-- **Every frame of the set is stored.** -/
theorem stores (h : Assembled setup G s A) (hA : A < 4) (hT : setup.termLength.toNat ≤ 2 ^ 29)
    (hf : f ∈ F.frames) (handler : InlineHandler) :
    s.stores handler f.header f.payload = true := by
  obtain ⟨-, -, hfits, -⟩ := F.stop_eq hf
  have hnear := F.near f hf
  refine (s.stores_iff handler f.header f.payload).mpr ⟨?_, ?_⟩
  · by_cases hlater : A < setup.termOf f
    · exact .inl ((h.isAhead_iff hA hnear).mpr hlater)
    · refine .inr ?_
      rw [h.active, show f.header.termId = _ from setup.termId_eq f,
        toNat_add_sub_add _ (by omega) (by omega), if_pos (by omega)]
      unfold partitionCount
      omega
  · unfold ImageState.FitsWord
    rw [h.logLength, show alignFrameLength (32 + f.payload.length) = f.alignedLength from rfl,
      Nat.mod_eq_of_lt (by omega)]
    exact hfits

/-- **The rotation spares what has arrived**: the partition of a term that is not later than the
active one keeps its term. -/
theorem not_mem_cleanedBy (h : Assembled setup G s A) (hA : A < 4) (hnear : setup.termOf f < 4)
    {g : ReceivedFrame} (hg : g ∈ G) :
    partitionIndex g.termId setup.initialTermId ∉ s.entry.cleanedBy f.termId := by
  have hle := h.termOf_le hg
  have hwindow : ∀ B, A ≤ B → B < 4 → g.termId =
      windowTerm (setup.activeTermId + BitVec.ofNat 32 B) setup.initialTermId
        (partitionIndex g.termId setup.initialTermId) := by
    intro B hAB hB
    refine eq_windowTerm ?_
    rw [show g.termId = _ from setup.termId_eq g, toNat_add_sub_add _ (by omega) (by omega),
      if_pos (by omega)]
    omega
  rw [s.entry.mem_cleanedBy_iff f.termId (partitionIndex_lt _ _), not_not, h.initial,
    h.activeAfter_eq hA hnear, h.active, ← hwindow A le_rfl hA]
  exact (hwindow _ (le_max_right _ _) (max_lt hnear hA)).symm

/-- The bytes of a frame that has arrived, when the rotation for the next one is done. -/
theorem read_rotated (h : Assembled setup G s A) (hA : A < 4) (hnear : setup.termOf f < 4)
    {g : ReceivedFrame} (hg : g ∈ G) (hmem : g ∈ F.frames) (handler : InlineHandler) :
    (s.rotated handler f.header).2.log.buffer.read (setup.placeOf g) g.bytes.length = g.bytes := by
  obtain ⟨-, -, hfits, hlen, -⟩ := F.stop_eq hmem
  rw [← h.intact g hg, ByteStore.read_length]
  refine ByteStore.read_congr fun i hi => ?_
  rw [s.rotated_buffer handler f.header, h.logLength, SetupHeader.placeOf, Nat.add_assoc,
    foldl_cleanCells _ _ _ (by omega)]
  exact if_neg (h.not_mem_cleanedBy hA hnear hg)

/-- Places that no frame covers stay empty. -/
theorem rotated_empty (h : Assembled setup G s A) (hT : 0 < setup.termLength.toNat)
    (handler : InlineHandler) {a : Nat}
    (hfree : ∀ g ∈ G, a < setup.placeOf g ∨ setup.placeOf g + g.bytes.length ≤ a) :
    (s.rotated handler f.header).2.log.buffer a = 0 := by
  have hold := h.empty a hfree
  rw [← Nat.div_add_mod' a setup.termLength.toNat] at hold ⊢
  rw [s.rotated_buffer handler f.header, h.logLength, foldl_cleanCells _ _ _ (Nat.mod_lt _ hT)]
  split_ifs
  · rfl
  · exact hold

/-- **The expected offset after the call.** -/
theorem expected_insert (h : Assembled setup G s A) (hA : A < 4)
    (hT : setup.termLength.toNat ≤ 2 ^ 29) (hG : ∀ g ∈ G, g ∈ F.frames)
    (hoffset : setup.termOffset.toInt ≤ setup.termLength.toNat) (hf : f ∈ F.frames)
    (handler : InlineHandler) :
    IsGreatest (insert (setup.entryOffset (max (setup.termOf f) A))
        (ReceivedFrame.stop '' {g | g ∈ insert f G ∧ setup.termOf g = max (setup.termOf f) A}))
      ((s.onData handler f.header f.payload).1.entry.expectedTermOffset.toNat : Int) := by
  obtain ⟨-, hstop, hfits, -, hlen⟩ := F.stop_eq hf
  have hnear := F.near f hf
  rw [ImageState.expectedTermOffset_of_stored (h.stores F hA hT hf handler),
    s.rotated_expectedTermOffset handler f.header, Nat.mod_eq_of_lt (by omega)]
  rcases Nat.lt_trichotomy (setup.termOf f) A with hlt | heq | hlt
  · -- an earlier term
    have hset : {g | g ∈ insert f G ∧ setup.termOf g = A} = {g | g ∈ G ∧ setup.termOf g = A} := by
      ext g
      constructor
      · rintro ⟨rfl | hg, hterm⟩
        · omega
        · exact ⟨hg, hterm⟩
      · exact fun hg => ⟨.inr hg.1, hg.2⟩
    rw [max_eq_right hlt.le, hset,
      if_neg (mt (h.termId_eq_activeAfter_iff hA hnear).mp (by omega)),
      if_neg (show ¬ s.entry.IsAhead f.header.termId from
        mt (h.isAhead_iff hA hnear).mp (by omega))]
    exact h.expected
  · -- the active term
    have hset : {g | g ∈ insert f G ∧ setup.termOf g = A} =
        insert f {g | g ∈ G ∧ setup.termOf g = A} := by
      ext g
      constructor
      · rintro ⟨rfl | hg, hterm⟩
        · exact .inl rfl
        · exact .inr ⟨hg, hterm⟩
      · rintro (rfl | hg)
        · exact ⟨.inl rfl, heq⟩
        · exact ⟨.inr hg.1, hg.2⟩
    have hle : s.entry.expectedTermOffset.toNat ≤ setup.termLength.toNat := by
      rcases h.expected.1 with hentry | ⟨g, hg, hend⟩
      · unfold SetupHeader.entryOffset at hentry
        split_ifs at hentry <;> omega
      · have := F.fits g (hG g hg.1)
        omega
    rw [heq, max_self, hset, Set.image_insert_eq, Set.insert_comm,
      if_pos ((h.termId_eq_activeAfter_iff hA hnear).mpr (by omega)),
      if_neg (show ¬ s.entry.IsAhead f.header.termId from
        mt (h.isAhead_iff hA hnear).mp (by omega)),
      ImageEntry.advanceOffset_toNat (by omega) (by omega) (by omega), max_comm, Nat.cast_max,
      ← hstop]
    exact h.expected.insert f.stop
  · -- a later term, of which it is the first frame
    have hset : {g | g ∈ insert f G ∧ setup.termOf g = setup.termOf f} = {f} := by
      ext g
      constructor
      · rintro ⟨rfl | hg, hterm⟩
        · rfl
        · have := h.termOf_le hg
          omega
      · rintro rfl
        exact ⟨.inl rfl, rfl⟩
    rw [max_eq_left hlt.le, hset, Set.image_singleton,
      if_pos ((h.termId_eq_activeAfter_iff hA hnear).mpr hlt.le),
      if_pos (show s.entry.IsAhead f.header.termId from (h.isAhead_iff hA hnear).mpr hlt),
      ImageEntry.advanceOffset_toNat (Nat.zero_le _) (by omega) (show _ < 0 + _ by omega),
      Nat.cast_max, ← hstop, SetupHeader.entryOffset, if_neg (by omega)]
    exact isGreatest_pair

/-- **The receiver's position after the call.** -/
theorem position_insert (h : Assembled setup G s A) (hA : A < 4)
    (hT : setup.termLength.toNat ≤ 2 ^ 29) (hG : ∀ g ∈ G, g ∈ F.frames)
    (hlo : 0 ≤ setup.termOffset.toInt) (hhi : setup.termOffset.toInt ≤ setup.termLength.toNat)
    (hf : f ∈ F.frames) (handler : InlineHandler) :
    IsGreatest (insert setup.startPosition (setup.endOf '' insert f G))
      (s.onData handler f.header f.payload).1.image.inner.receiverPosition := by
  -- all positions are far from the bounds of the 64-bit comparison
  have hend : ∀ g ∈ F.frames, -2 ^ 60 ≤ setup.endOf g ∧ setup.endOf g ≤ 2 ^ 60 := by
    intro g hg
    obtain ⟨-, hstop, -⟩ := F.stop_eq hg
    exact SetupHeader.position_bounds _ hT (by omega) (F.fits g hg)
  have hstart := SetupHeader.position_bounds (setup.activeTermId - setup.initialTermId) hT hlo hhi
  have hposition : -2 ^ 60 ≤ s.image.inner.receiverPosition ∧
      s.image.inner.receiverPosition ≤ 2 ^ 60 := by
    rcases h.position.1 with hentry | ⟨g, hg, hat⟩
    · rw [hentry]
      exact hstart
    · rw [← hat]
      exact hend g (hG g hg)
  obtain ⟨-, hstop, hfits, -⟩ := F.stop_eq hf
  have hmoves := @ImageState.receiverPosition_of_stored handler s f.header f.payload
    (h.stores F hA hT hf handler) (setup.endOf f)
    (by rw [h.initial, h.entryLength, Nat.mod_eq_of_lt (by
          rw [show alignFrameLength (32 + f.payload.length) = f.alignedLength from rfl]; omega)]
        exact congrArg (_ + ·) hstop)
    (by rw [abs_lt]
        unfold i64HalfMax
        have := hend f hf
        omega)
  rw [hmoves, Set.image_insert_eq, Set.insert_comm]
  exact h.position.insert _

/-- **Step.** A call adds its frame to the set. -/
theorem onData (h : Assembled setup G s A) (hT : setup.termLength.toNat ≤ 2 ^ 29)
    (hG : ∀ g ∈ G, g ∈ F.frames) (hlo : 0 ≤ setup.termOffset.toInt)
    (hhi : setup.termOffset.toInt ≤ setup.termLength.toNat) (hf : f ∈ F.frames)
    (handler : InlineHandler) :
    Assembled setup (insert f G) (s.onData handler f.header f.payload).1
      (max (setup.termOf f) A) := by
  have hA := h.active_lt F hG
  have hnear := F.near f hf
  have hstored := h.stores F hA hT hf handler
  obtain ⟨-, -, hfits, -, hlen⟩ := F.stop_eq hf
  obtain ⟨hactive, hinitial, hlength⟩ :=
    (PartitionRun.mk s fun _ => (0, none)).step_entry (handler, f)
  have hbuffer : (s.onData handler f.header f.payload).1.image.inner.log.buffer =
      (s.rotated handler f.header).2.log.buffer.write (setup.placeOf f) f.bytes := by
    rw [ImageState.buffer_of_stored hstored, h.initial, h.logLength, ReceiverImage.storeFrame_eq]
    rfl
  refine ⟨hinitial.trans h.initial, ?_, hlength.trans h.logLength,
    hactive.trans (h.activeAfter_eq hA hnear), ?_, s.inStep_onData handler f.header f.payload h.inStep,
    h.expected_insert F hA hT hG hhi hf handler, h.position_insert F hA hT hG hlo hhi hf handler,
    ?_, ?_⟩
  · rw [ImageState.onData_entry, ImageState.received_of_stored hstored]
    exact (s.rotated_entryLength handler f.header).trans h.entryLength
  · rw [Set.image_insert_eq, Set.insert_comm]
    exact h.latest.insert _
  · intro g hg
    rw [hbuffer]
    by_cases heq : g = f
    · -- the frame itself
      rw [heq, ByteStore.read_write_same]
    · -- another one, which lies elsewhere and in no partition that was cleaned
      have hold : g ∈ G := hg.resolve_left heq
      rw [ByteStore.read_write_disjoint _ (F.place_apart (hG g hold) hf heq)]
      exact h.read_rotated F hA hnear hold (hG g hold) handler
  · intro a hfree
    rw [hbuffer, ByteStore.write_of_outside _ _ _ (hfree f (Set.mem_insert f G))]
    exact h.rotated_empty (by omega) handler fun g hg => hfree g (Set.mem_insert_of_mem f hg)

end Assembled

/-! ## Runs -/

namespace ImageState

def arrive (s : ImageState) (a : InlineHandler × ReceivedFrame) : ImageState :=
  (s.onData a.1 a.2.header a.2.payload).1

end ImageState

/-- **Run.** After any arrivals of frames of a set, the image is assembled of those that have
arrived. -/
theorem Assembled.run {setup : SetupHeader} (F : FrameSet setup) {G : Set ReceivedFrame}
    {s : ImageState} {A : Nat} (h : Assembled setup G s A)
    (hT : setup.termLength.toNat ≤ 2 ^ 29) (hG : ∀ g ∈ G, g ∈ F.frames)
    (hlo : 0 ≤ setup.termOffset.toInt) (hhi : setup.termOffset.toInt ≤ setup.termLength.toNat)
    {as : List (InlineHandler × ReceivedFrame)} (has : ∀ f ∈ as.map Prod.snd, f ∈ F.frames) :
    ∃ B, Assembled setup (G ∪ {f | f ∈ as.map Prod.snd}) (Runs.run ImageState.arrive s as) B := by
  induction as generalizing G s A with
  | nil => exact ⟨A, by simpa using h⟩
  | cons a as ih =>
      obtain ⟨hf, has⟩ := List.forall_mem_cons.mp has
      have hG' : ∀ g ∈ insert a.2 G, g ∈ F.frames := by
        rintro g (rfl | hg)
        · exact hf
        · exact hG g hg
      obtain ⟨B, hB⟩ := ih (h.onData F hT hG hlo hhi hf a.1) hG' has
      refine ⟨B, ?_⟩
      have hset : G ∪ {f | f ∈ (a :: as).map Prod.snd} =
          insert a.2 G ∪ {f | f ∈ as.map Prod.snd} := by
        ext g
        simp only [List.map_cons, List.mem_cons, Set.mem_union, Set.mem_ofPred_eq, Set.mem_insert_iff]
        tauto
      rw [hset]
      exact hB

/-- **Reassembly is independent of the order of arrival.** Take any frames that fit together, and any
two sequences of arrivals in which each of them occurs at least once and no other frame does. From the
same new image, both lead to the same log, terms, offsets and position, and every frame is in the
log. -/
theorem reassembly_any_order {handler : InlineHandler} {setup : SetupHeader} {source : SockAddr}
    {image : ImageState} (hsetup : ImageState.onSetup handler setup source = some image)
    (hlo : 0 ≤ setup.termOffset.toInt) (hhi : setup.termOffset.toInt ≤ setup.termLength.toNat)
    (hT : setup.termLength.toNat ≤ 2 ^ 29) (F : FrameSet setup)
    (as bs : List (InlineHandler × ReceivedFrame)) (has : ∀ f, f ∈ as.map Prod.snd ↔ f ∈ F.frames)
    (hbs : ∀ f, f ∈ bs.map Prod.snd ↔ f ∈ F.frames) :
    SameAssembly (run ImageState.arrive image as) (run ImageState.arrive image bs) ∧
      ∀ f ∈ F.frames, (run ImageState.arrive image as).image.inner.log.buffer.read
        (partitionIndex f.termId setup.initialTermId * setup.termLength.toNat +
          f.header.termOffset.toNat) f.bytes.length = f.bytes := by
  have hnew := Assembled.onSetup hsetup hlo
  obtain ⟨A, hA⟩ := hnew.run F hT (by simp) hlo hhi fun f hf => (has f).mp hf
  obtain ⟨B, hB⟩ := hnew.run F hT (by simp) hlo hhi fun f hf => (hbs f).mp hf
  have hset : {f | f ∈ as.map Prod.snd} = {f | f ∈ bs.map Prod.snd} :=
    Set.ext fun f => (has f).trans (hbs f).symm
  rw [← hset] at hB
  exact ⟨hA.unique hB, fun f hf => hA.intact f (.inr ((has f).mpr hf))⟩

/-- Three frames of two terms, with a hole at the start of the second. -/
def smallFrames : FrameSet ImageRun.smallSetup where
  frames := [ImageState.smallReceived 5 0, ImageState.smallReceived 5 32,
    ImageState.smallReceived 6 32]
  offset_nonneg := by decide
  fits := by decide
  near := by decide
  apart := by decide

/-- The frames of two terms in order, and in another order with a duplicate. -/
theorem reassembly_reversed :
    SameAssembly
      (run ImageState.arrive ImageRun.smallImage
        [(ImageRun.quietHandler, ImageState.smallReceived 5 0),
          (ImageRun.quietHandler, ImageState.smallReceived 5 32),
          (ImageRun.quietHandler, ImageState.smallReceived 6 32)])
      (run ImageState.arrive ImageRun.smallImage
        [(ImageRun.quietHandler, ImageState.smallReceived 6 32),
          (ImageRun.quietHandler, ImageState.smallReceived 5 32),
          (ImageRun.quietHandler, ImageState.smallReceived 6 32),
          (ImageRun.quietHandler, ImageState.smallReceived 5 0)]) :=
  (reassembly_any_order (Option.some_get _).symm (by decide) (by decide) (by decide) smallFrames _ _
    (fun f => Iff.rfl) (fun f => by simp [smallFrames]; tauto)).1

end AeronRs
