import AeronRs.Agent.Consumption
import AeronRs.Agent.Partitions

/-! # Which holes are reported

`on_data` compares the offset of a frame with the end of what has arrived of the active term, and
queues a NAK for what lies between. It does so before it rotates: for the frame that enters a later
term the comparison is with the term before, and what is missing at the start of the later term is
never asked for. `hole_reported_iff` says that this is the only hole that goes unreported. -/

namespace AeronRs

open Runs

def ReceivedFrame.stop (f : ReceivedFrame) : Int := f.termOffset + f.alignedLength

/-- The 32-bit sum that `append_frame` tests is the end of the frame, if it is within a term. -/
theorem ReceivedFrame.stop_eq {f : ReceivedFrame} {T : Nat} (hT : T ≤ 2 ^ 30)
    (hfits : (f.header.termOffset.toNat + f.alignedLength) % 2 ^ 32 ≤ T) :
    f.stop = (((f.header.termOffset.toNat + f.alignedLength) % 2 ^ 32 : Nat) : Int) := by
  have hbounds := f.alignedLength_bounds
  have hlt := f.header.termOffset.isLt
  unfold stop termOffset
  rw [BitVec.toInt_eq_toNat_cond]
  split_ifs <;> omega

theorem ImageState.expectedTermOffset_of_stored {s : ImageState} {handler : InlineHandler}
    {f : ReceivedFrame} (hstored : s.stores handler f.header f.payload = true) :
    (s.onData handler f.header f.payload).1.entry.expectedTermOffset =
      if f.termId = s.entry.activeAfter f.termId then
        ImageEntry.advanceOffset (s.rotated handler f.header).1.expectedTermOffset
          (BitVec.ofNat 32 ((f.header.termOffset.toNat + f.alignedLength) % 2 ^ 32))
      else (s.rotated handler f.header).1.expectedTermOffset := by
  have hactive := s.rotated_activeTermId handler f.header
  rw [onData_entry, received_of_stored hstored]
  unfold ImageEntry.noteAppended
  dsimp only
  rw [hactive]
  rfl

/-- An image with the frames that it has accepted into the active term since that was entered, and
the offset at which the term was entered. -/
structure GapRun where
  image : ImageState
  entered : Int
  accepted : List ReceivedFrame

namespace GapRun

/-- A new image enters its first term at the offset of the setup frame. -/
def start (setup : SetupHeader) (image : ImageState) : GapRun := ⟨image, setup.termOffset.toInt, []⟩

/-- The end of all frames accepted in the active term. -/
def reached (s : GapRun) : Int := (s.accepted.map ReceivedFrame.stop).foldr max s.entered

/-- The state of the history when the rotation for a frame is done: a later term is entered at its
beginning. -/
def enter (s : GapRun) (f : ReceivedFrame) : GapRun :=
  if s.image.entry.IsAhead f.termId then { s with entered := 0, accepted := [] } else s

/-- `on_data` stores the frame in what is the active term after the call. -/
def Accepts (s : GapRun) (handler : InlineHandler) (f : ReceivedFrame) : Prop :=
  s.image.stores handler f.header f.payload = true ∧
    f.termId = s.image.entry.activeAfter f.termId

instance (s : GapRun) (handler : InlineHandler) (f : ReceivedFrame) :
    Decidable (s.Accepts handler f) :=
  inferInstanceAs (Decidable (_ ∧ _))

def step (s : GapRun) (a : InlineHandler × ReceivedFrame) : GapRun where
  image := (s.image.onData a.1 a.2.header a.2.payload).1
  entered := (s.enter a.2).entered
  accepted :=
    if s.Accepts a.1 a.2 then a.2 :: (s.enter a.2).accepted else (s.enter a.2).accepted

/-- An offset at or behind which the whole term is in the range of the gap test: any that is not
negative, or one that is near enough to the end of the term. -/
def NearTerm (T : Nat) (offset : BitVec 32) : Prop :=
  0 ≤ offset.toInt ∨ T - offset.toInt < 2 ^ 30 - 1

instance (T : Nat) (offset : BitVec 32) : Decidable (NearTerm T offset) :=
  inferInstanceAs (Decidable (_ ∨ _))

/-- **What the expected offset knows**: it is the end of all frames accepted in the active term, or
this end is out of the range in which it moves, at the very end of a term of the largest length. -/
structure Expects (T : Nat) (expected : BitVec 32) (reached : Int) : Prop where
  le : expected.toInt ≤ reached
  reached_lt : reached < 2 ^ 31
  eq : expected.toInt = reached ∨ 2 ^ 30 - 1 ≤ reached
  near : NearTerm T expected

theorem Expects.advance {T : Nat} {expected : BitVec 32} {reached : Int}
    (h : Expects T expected reached) (hT : T ≤ 2 ^ 30) {alignedEnd : Nat} (hend : alignedEnd ≤ T) :
    Expects T (ImageEntry.advanceOffset expected (BitVec.ofNat 32 alignedEnd))
      (max alignedEnd reached) := by
  obtain ⟨hle, hreached, heq, hnear⟩ := h
  have hend' : (BitVec.ofNat 32 alignedEnd).toInt = alignedEnd := toInt_ofNat_of_lt (by omega)
  unfold NearTerm at hnear
  have hdiff : (BitVec.ofNat 32 alignedEnd - expected).toInt = alignedEnd - expected.toInt := by
    rw [toInt_sub_of_range (by omega) (by omega), hend']
  unfold ImageEntry.advanceOffset i32HalfMax
  rw [hdiff]
  split_ifs with hmoves
  · exact ⟨by omega, by omega, by omega, .inl (by omega)⟩
  · exact ⟨by omega, by omega, by omega, hnear⟩

/-- **The expected offset after a call.** -/
theorem expectedTermOffset_step (s : GapRun) (handler : InlineHandler) (f : ReceivedFrame) :
    (s.step (handler, f)).image.entry.expectedTermOffset =
      if s.Accepts handler f then
        ImageEntry.advanceOffset (s.image.rotated handler f.header).1.expectedTermOffset
          (BitVec.ofNat 32 ((f.header.termOffset.toNat + f.alignedLength) % 2 ^ 32))
      else (s.image.rotated handler f.header).1.expectedTermOffset := by
  change (s.image.onData handler f.header f.payload).1.entry.expectedTermOffset = _
  cases hstored : s.image.stores handler f.header f.payload with
  | true =>
      rw [ImageState.expectedTermOffset_of_stored hstored]
      by_cases hterm : f.termId = s.image.entry.activeAfter f.termId
      · rw [if_pos hterm, if_pos (show s.Accepts handler f from ⟨hstored, hterm⟩)]
      · rw [if_neg hterm, if_neg fun h : s.Accepts handler f => hterm h.2]
  | false =>
      rw [ImageState.onData_entry, ImageState.received_of_rejected hstored,
        if_neg fun h : s.Accepts handler f => by
          rw [h.1] at hstored
          cases hstored]

theorem Expects.enter {T : Nat} {s : GapRun}
    (h : Expects T s.image.entry.expectedTermOffset s.reached) (handler : InlineHandler)
    (f : ReceivedFrame) :
    Expects T (s.image.rotated handler f.header).1.expectedTermOffset (s.enter f).reached := by
  rw [ImageState.rotated_expectedTermOffset]
  unfold GapRun.enter
  by_cases hahead : s.image.entry.IsAhead f.header.termId
  · rw [if_pos hahead, if_pos (show s.image.entry.IsAhead f.termId from hahead)]
    exact ⟨Int.le_refl 0, show (0 : Int) < 2 ^ 31 by decide, .inl rfl, .inl (Int.le_refl 0)⟩
  · rw [if_neg hahead, if_neg (show ¬ s.image.entry.IsAhead f.termId from hahead)]
    exact h

/-- **Step.** -/
theorem Expects.step {T : Nat} {s : GapRun} (hT : T ≤ 2 ^ 30)
    (hlen : s.image.image.inner.log.termLength = T)
    (h : Expects T s.image.entry.expectedTermOffset s.reached) (a : InlineHandler × ReceivedFrame) :
    Expects T (s.step a).image.entry.expectedTermOffset (s.step a).reached := by
  obtain ⟨handler, f⟩ := a
  have hentered := h.enter handler f
  rw [expectedTermOffset_step]
  unfold reached GapRun.step
  dsimp only
  by_cases haccepts : s.Accepts handler f
  · rw [if_pos haccepts, if_pos haccepts, List.map_cons, List.foldr_cons]
    obtain ⟨-, hfits⟩ := (s.image.stores_iff handler f.header f.payload).mp haccepts.1
    unfold ImageState.FitsWord at hfits
    rw [hlen] at hfits
    rw [f.stop_eq hT hfits]
    exact hentered.advance hT hfits
  · rw [if_neg haccepts, if_neg haccepts]
    exact hentered

/-! ## Holes -/

/-- The NAK for what is missing between the end of the accepted frames and a frame, in the active
term after the call. -/
def hole (s : GapRun) (f : ReceivedFrame) : PendingNak where
  destAddr := s.image.entry.sourceAddr
  sessionId := f.header.sessionId
  streamId := f.header.streamId
  activeTermId := f.termId
  termOffset := BitVec.ofInt 32 (s.enter f).reached
  length := BitVec.ofInt 32 (f.termOffset - (s.enter f).reached)

/-- The delay since the last NAK has passed, and there is room for another one. -/
def MayReport (s : GapRun) (handler : InlineHandler) : Prop :=
  0 ≤ wrapI64 (handler.nowNs - s.image.entry.timeOfLastNakNs) ∧
    handler.nakDelayNs ≤ wrapI64 (handler.nowNs - s.image.entry.timeOfLastNakNs) ∧
    handler.nakQueue.length < maxPendingNaksPerCycle

instance (s : GapRun) (handler : InlineHandler) : Decidable (s.MayReport handler) :=
  inferInstanceAs (Decidable (_ ∧ _ ∧ _))

/-- **The hole before a frame of the active term is reported, the one before the frame that enters a
term is not.** -/
theorem Expects.reports {T : Nat} {s : GapRun} (hT : T ≤ 2 ^ 30)
    (hlen : s.image.image.inner.log.termLength = T)
    (h : Expects T s.image.entry.expectedTermOffset s.reached) {handler : InlineHandler}
    {f : ReceivedFrame} (haccepts : s.Accepts handler f) (hmay : s.MayReport handler)
    (hhole : (s.enter f).reached < f.termOffset) :
    (s.image.onData handler f.header f.payload).2.nakQueue = handler.nakQueue ++ [s.hole f] ↔
      ¬ s.image.entry.IsAhead f.termId := by
  change (s.image.entry.noteGap handler f.header).2.nakQueue = _ ↔ _
  rw [s.image.entry.noteGap_nakQueue handler f.header]
  by_cases hahead : s.image.entry.IsAhead f.termId
  · -- the gap test looks for a frame of the term that is left
    have hother : ¬ s.image.entry.Reports handler f.header := fun hreports =>
      hahead.ne hreports.1.2.2
    rw [if_neg hother]
    exact iff_of_false (by simp) (not_not.mpr hahead)
  · have hsame : s.enter f = s := if_neg hahead
    have hactive : f.header.termId = s.image.entry.activeTermId := haccepts.2.trans (if_neg hahead)
    rw [hsame] at hhole
    obtain ⟨hle, -, heq, hnear⟩ := h
    -- the frame fits the term, so the hole is within the range of the gap test
    have hbounds := f.alignedLength_bounds
    obtain ⟨-, hfits⟩ := (s.image.stores_iff handler f.header f.payload).mp haccepts.1
    unfold ImageState.FitsWord at hfits
    rw [hlen] at hfits
    have hstop : f.termOffset + f.alignedLength ≤ T := by
      have heq := f.stop_eq hT hfits
      unfold ReceivedFrame.stop at heq
      rw [heq]
      exact_mod_cast hfits
    have hexpected : s.image.entry.expectedTermOffset.toInt = s.reached := by omega
    have hrange : f.termOffset - s.reached < 2 ^ 30 - 1 := by
      unfold NearTerm at hnear
      omega
    have hgap : (f.header.termOffset - s.image.entry.expectedTermOffset).toInt =
        f.termOffset - s.reached := by
      have hoffset : f.header.termOffset.toInt = f.termOffset := rfl
      rw [toInt_sub_of_range (by omega) (by omega), hoffset, hexpected]
    have hreports : s.image.entry.Reports handler f.header := by
      refine ⟨⟨by omega, ?_, hactive⟩, hmay⟩
      unfold i32HalfMax
      omega
    have hnak : s.image.entry.gapNak f.header = s.hole f := by
      have hfrom : BitVec.ofInt 32 s.reached = s.image.entry.expectedTermOffset := by
        rw [← hexpected, BitVec.ofInt_toInt]
      unfold ImageEntry.gapNak hole
      rw [hsame, hfrom, ← hgap, BitVec.ofInt_toInt]
      congr 1
      exact hactive.symm
    rw [if_pos hreports, hnak]
    exact iff_of_true rfl hahead

/-- **Which holes are reported.** In every state that an image reaches by data frames of any kind,
from a setup frame whose offset is not negative or near enough to the end of the term: when a NAK may be
sent and a frame is accepted into the active term behind the end of all that was accepted there, exactly
this hole is reported, unless the frame is the one that enters the term. -/
theorem hole_reported_iff {handler : InlineHandler} {setup : SetupHeader} {source : SockAddr}
    {image : ImageState} (hsetup : ImageState.onSetup handler setup source = some image)
    (hoffset : NearTerm setup.termLength.toNat setup.termOffset)
    (as : List (InlineHandler × ReceivedFrame)) :
    let s := run step (start setup image) as
    ∀ handler f, s.Accepts handler f → s.MayReport handler → (s.enter f).reached < f.termOffset →
      ((s.image.onData handler f.header f.payload).2.nakQueue = handler.nakQueue ++ [s.hole f] ↔
        ¬ s.image.entry.IsAhead f.termId) := by
  obtain ⟨hle, hlog, -, -, -, -, -, -, -, -, -, -, hexpected⟩ := ImageRun.onSetup_spec hsetup
  have hentered : (start setup image).reached = setup.termOffset.toInt := rfl
  obtain ⟨hlen, hexpects⟩ := @run_invariant _ _ (fun _ _ => True) step
    (fun s => s.image.image.inner.log.termLength = setup.termLength.toNat ∧
      Expects setup.termLength.toNat s.image.entry.expectedTermOffset s.reached)
    (fun s a h _ => ⟨((PartitionRun.mk s.image fun _ => (0, none)).step_entry a).2.2.trans h.1,
      h.2.step hle h.1 a⟩)
    (start setup image)
    ⟨hlog, by rw [hentered, start, hexpected]; exact ⟨le_rfl, BitVec.toInt_lt, .inl rfl, hoffset⟩⟩
    as (meets_of_forall fun _ _ => trivial)
  intro s handler f haccepts hmay hhole
  exact hexpects.reports hle hlen haccepts hmay hhole

/-- A setup frame for terms of 128 bytes, at an offset of the first term. -/
def setupAt (offset : BitVec 32) : SetupHeader :=
  { ImageRun.smallSetup with termLength := 128, termOffset := offset }

def imageAt (offset : BitVec 32) : ImageState :=
  (ImageState.onSetup ImageRun.quietHandler (setupAt offset) ⟨2, []⟩).get
    (ImageState.onSetup_isSome_iff.mpr
      (show 32 ≤ (128 : BitVec 32).toInt ∧ isPowerOfTwo (128 : BitVec 32).toNat = true by decide))

/-- A frame of the second term behind a hole of 32 bytes, after frames of both terms; the first of them
was itself behind a hole, which began before the term. -/
theorem hole_reported_second_term :
    let before := [ImageState.smallReceived 5 32, ImageState.smallReceived 6 0,
      ImageState.smallReceived 5 64]
    let s := run step (start (setupAt (-32)) (imageAt (-32)))
      (before.map (ImageRun.quietHandler, ·))
    (s.image.onData ImageRun.quietHandler (ImageState.smallReceived 6 64).header []).2.nakQueue =
      [⟨⟨2, []⟩, 7, 1, 6, 32, 32⟩] :=
  (hole_reported_iff (Option.some_get _).symm (by decide) _ ImageRun.quietHandler
    (ImageState.smallReceived 6 64) (by decide +kernel) (by decide +kernel)
    (by decide +kernel)).mpr (by decide +kernel)

/-- Further from the term a hole at its beginning is out of the range of the gap test. -/
example :
    let s := start (setupAt (-2 ^ 30)) (imageAt (-2 ^ 30))
    s.Accepts ImageRun.quietHandler (ImageState.smallReceived 5 32) ∧
      (s.image.onData ImageRun.quietHandler (ImageState.smallReceived 5 32).header []).2.nakQueue =
        [] := by
  decide +kernel

/-- **The hole before the frame that enters a term.** The first frame of term 6 that arrives has
offset 32: it is stored, and nothing is reported. -/
theorem hole_at_rotation_unreported :
    let s := start ImageRun.smallSetup ImageRun.smallImage
    let f := ImageState.smallReceived 6 32
    s.Accepts ImageRun.quietHandler f ∧ s.MayReport ImageRun.quietHandler ∧
      (s.enter f).reached = 0 ∧ f.termOffset = 32 ∧
      (s.image.onData ImageRun.quietHandler f.header f.payload).2.nakQueue = [] := by
  decide +kernel

end GapRun

end AeronRs
