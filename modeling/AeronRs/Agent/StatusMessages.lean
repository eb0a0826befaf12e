import AeronRs.Agent.Reassembly

/-! # Status messages

An image tells its sender how far it has consumed the stream: `send_control_messages` queues a status
message with the consumption term and offset when its interval has passed or a frame has asked for
one. **`onData_forward`** says how one data frame, with any header, moves that pair: forward by less
than half the range of term ids, or forward within the term.

Term ids wrap, so the messages are ordered by the number of terms that the image has **entered** since
its setup frame. In that order they never move backwards (`status_messages_forward`), and neither do
their term ids while fewer than `2 ^ 31` terms are entered between two messages. More than that takes
three frames: `status_message_behind`. -/

namespace AeronRs

open Runs

namespace ImageEntry

/-- The status part of `send_control_messages` for one image: the entry afterwards and the message
that goes to `queue_sm`. -/
def takeSm (img : ImageEntry) (nowNs smIntervalNs : Int) (receiverId : BitVec 64) :
    ImageEntry × Option PendingSm :=
  if img.active = false then (img, none)
  else if smIntervalNs < wrapI64 (nowNs - img.timeOfLastSmNs) ∨ img.smPending = true then
    ({ img with timeOfLastSmNs := nowNs, smPending := false }, some (img.statusMessage receiverId))
  else (img, none)

/-- Taking a message changes no position. -/
theorem takeSm_fst (img : ImageEntry) (nowNs smIntervalNs : Int) (receiverId : BitVec 64) :
    (img.takeSm nowNs smIntervalNs receiverId).1 =
      { img with
        timeOfLastSmNs := (img.takeSm nowNs smIntervalNs receiverId).1.timeOfLastSmNs
        smPending := (img.takeSm nowNs smIntervalNs receiverId).1.smPending } := by
  unfold takeSm
  split_ifs <;> rfl

theorem takeSm_eq_some {img : ImageEntry} {nowNs smIntervalNs : Int} {receiverId : BitVec 64}
    {sm : PendingSm} (h : (img.takeSm nowNs smIntervalNs receiverId).2 = some sm) :
    sm = img.statusMessage receiverId := by
  unfold takeSm at h
  split_ifs at h
  exact (Option.some.inj h).symm

/-- The consumption position and the expected one are the same, inside the term. -/
structure InStep (img : ImageEntry) : Prop where
  termId : img.consumptionTermId = img.activeTermId
  offset : img.consumptionTermOffset = img.expectedTermOffset
  nonneg : 0 ≤ img.consumptionTermOffset.toInt
  le : img.consumptionTermOffset.toInt ≤ img.termLength

/-- **Forward.** The wrapping difference of the terms is not negative, and within a term the offset
does not drop. -/
def NotBehind (termId offset termId' offset' : BitVec 32) : Prop :=
  0 ≤ (termId' - termId).toInt ∧ (termId' = termId → offset.toInt ≤ offset'.toInt)

instance (termId offset termId' offset' : BitVec 32) :
    Decidable (NotBehind termId offset termId' offset') := inferInstanceAs (Decidable (_ ∧ (_ → _)))

theorem InStep.toNat_le {img : ImageEntry} (h : img.InStep) :
    img.expectedTermOffset.toNat ≤ img.termLength := by
  have hcast := toNat_eq_toInt h.nonneg
  have hle := h.le
  rw [h.offset] at hcast hle
  omega

/-- An offset that is inside the term as a number is so as a signed word. -/
theorem InStep.of_toNat_le {img : ImageEntry} (htermId : img.consumptionTermId = img.activeTermId)
    (hoffset : img.consumptionTermOffset = img.expectedTermOffset) (hT : img.termLength ≤ 2 ^ 30)
    (hle : img.expectedTermOffset.toNat ≤ img.termLength) : img.InStep := by
  have hcast : img.consumptionTermOffset.toInt = (img.expectedTermOffset.toNat : Int) := by
    rw [hoffset, BitVec.toInt_eq_toNat_of_lt (by omega)]
  exact ⟨htermId, hoffset, by omega, by omega⟩

/-- An offset that moves stays inside the term and does not drop. -/
theorem advanceOffset_bounds {offset : BitVec 32} {alignedEnd T : Nat} (hT : T ≤ 2 ^ 30)
    (hoffset : offset.toNat ≤ T) (hend : alignedEnd ≤ T) :
    offset.toNat ≤ (advanceOffset offset (BitVec.ofNat 32 alignedEnd)).toNat ∧
      (advanceOffset offset (BitVec.ofNat 32 alignedEnd)).toNat ≤ T := by
  rw [advanceOffset_toNat_eq (by omega) (by omega)]
  split_ifs <;> omega

end ImageEntry

namespace ImageState

variable {handler : InlineHandler} {s : ImageState} {header : DataHeader} {payload : List UInt8}

theorem onData_logLength (handler : InlineHandler) (s : ImageState) (header : DataHeader)
    (payload : List UInt8) :
    (s.onData handler header payload).1.image.inner.log.termLength =
      s.image.inner.log.termLength := by
  have hlength := s.rotated_termLength handler header
  rw [onData_inner]
  cases hstored : s.stores handler header payload with
  | true =>
      rw [received_of_stored hstored, ReceiverImage.advanceTo_log]
      exact hlength
  | false =>
      rw [received_of_rejected hstored]
      exact hlength

theorem onData_fixed (handler : InlineHandler) (s : ImageState) (header : DataHeader)
    (payload : List UInt8) :
    (s.onData handler header payload).1.entry.activeTermId =
        (if s.entry.IsAhead header.termId then header.termId else s.entry.activeTermId) ∧
      (s.onData handler header payload).1.entry.termLength = s.entry.termLength ∧
      (s.onData handler header payload).1.entry.sessionId = s.entry.sessionId ∧
      (s.onData handler header payload).1.entry.streamId = s.entry.streamId := by
  have hrotated := s.rotated_fst handler header
  rw [onData_entry]
  cases hstored : s.stores handler header payload with
  | true =>
      rw [received_of_stored hstored, hrotated]
      exact ⟨rfl, rfl, rfl, rfl⟩
  | false =>
      rw [received_of_rejected hstored, hrotated]
      exact ⟨rfl, rfl, rfl, rfl⟩

/-- **The expected offset** starts again at zero in a new term, and otherwise moves forward, inside
the term. -/
theorem onData_expected (hT : s.image.inner.log.termLength ≤ 2 ^ 30)
    (hoffset : s.entry.expectedTermOffset.toNat ≤ s.image.inner.log.termLength) :
    (s.onData handler header payload).1.entry.expectedTermOffset.toNat ≤
        s.image.inner.log.termLength ∧
      (¬ s.entry.IsAhead header.termId → s.entry.expectedTermOffset.toNat ≤
        (s.onData handler header payload).1.entry.expectedTermOffset.toNat) := by
  have hstart := s.rotated_expectedTermOffset handler header
  have hle : (s.rotated handler header).1.expectedTermOffset.toNat ≤
      s.image.inner.log.termLength := by
    rw [hstart]
    split_ifs
    · exact Nat.zero_le _
    · exact hoffset
  have hsame : ¬ s.entry.IsAhead header.termId →
      s.entry.expectedTermOffset = (s.rotated handler header).1.expectedTermOffset := by
    intro hahead
    rw [hstart, if_neg hahead]
  rw [onData_entry]
  -- behind a rotation to offset zero or none, only a stored frame moves the offset, and only forward
  cases hstored : s.stores handler header payload with
  | true =>
      obtain ⟨-, hfits⟩ := (s.stores_iff handler header payload).mp hstored
      have hbounds := ImageEntry.advanceOffset_bounds hT hle hfits
      rw [received_of_stored hstored]
      unfold ImageEntry.noteAppended
      dsimp only
      split_ifs
      · exact ⟨hbounds.2, fun hahead => hsame hahead ▸ hbounds.1⟩
      · exact ⟨hle, fun hahead => (congrArg BitVec.toNat (hsame hahead)).le⟩
  | false =>
      rw [received_of_rejected hstored]
      exact ⟨hle, fun hahead => (congrArg BitVec.toNat (hsame hahead)).le⟩

/-- **One data frame moves the consumption position forward**, whatever its header says: the two
positions stay the same and inside the term, the term moves on by less than half the range, and within
the term the offset does not drop. -/
theorem onData_forward (hT : s.image.inner.log.termLength ≤ 2 ^ 30)
    (hlog : s.image.inner.log.termLength = s.entry.termLength) (h : s.entry.InStep) :
    (s.onData handler header payload).1.entry.InStep ∧
      ((s.onData handler header payload).1.entry.consumptionTermId - s.entry.consumptionTermId).toNat <
        2 ^ 30 ∧
      ImageEntry.NotBehind s.entry.consumptionTermId s.entry.consumptionTermOffset
        (s.onData handler header payload).1.entry.consumptionTermId
        (s.onData handler header payload).1.entry.consumptionTermOffset := by
  obtain ⟨hactive, hlength, -, -⟩ := s.onData_fixed handler header payload
  obtain ⟨hterm, hoffset⟩ := s.inStep_onData handler header payload ⟨h.termId, h.offset⟩
  have hexpected := @onData_expected handler s header payload hT (hlog ▸ h.toNat_le)
  have hinStep : (s.onData handler header payload).1.entry.InStep :=
    .of_toNat_le hterm hoffset (by omega) (by omega)
  rw [h.termId, hterm, hactive]
  by_cases hahead : s.entry.IsAhead header.termId
  · -- a new term, where the offset may be smaller
    have hne := hahead.ne
    rw [if_pos hahead]
    obtain ⟨hpos, hlt⟩ := hahead
    have hcast := toNat_eq_toInt hpos.le
    unfold i32HalfMax at hlt
    exact ⟨hinStep, by omega, hpos.le, fun heq => absurd heq hne⟩
  · rw [if_neg hahead]
    refine ⟨hinStep, by rw [BitVec.sub_self]; decide, by rw [BitVec.sub_self]; decide, fun _ => ?_⟩
    have hle := hexpected.2 hahead
    have hbefore := toNat_eq_toInt h.nonneg
    have hafter := toNat_eq_toInt hinStep.nonneg
    rw [h.offset] at hbefore ⊢
    rw [hoffset] at hafter ⊢
    omega

end ImageState

/-! ## Runs -/

/-- A status message with the number of terms that its image had entered. -/
structure AdvertisedSm where
  entered : Nat
  sm : PendingSm

/-- The stream position of a message, counted from the start of the term of the setup frame. -/
def AdvertisedSm.position (T : Nat) (a : AdvertisedSm) : Int :=
  a.entered * T + a.sm.consumptionTermOffset.toInt

/-- An image with the number of terms entered since its setup frame and the status messages that it
has given to `queue_sm`. -/
structure StatusRun where
  image : ImageState
  entered : Nat
  advertised : List AdvertisedSm

/-- A call of the receiver agent: a data frame, for this image or another, or a round of control
messages. -/
inductive StatusAction
  | data (handler : InlineHandler) (header : DataHeader) (payload : List UInt8)
  | sendControlMessages (nowNs smIntervalNs : Int) (receiverId : BitVec 64)

namespace StatusRun

/-- An image that a setup frame has just created. -/
def start (image : ImageState) : StatusRun := ⟨image, 0, []⟩

def IsFor (image : ImageState) (header : DataHeader) : Prop :=
  header.sessionId = image.entry.sessionId ∧ header.streamId = image.entry.streamId

instance (image : ImageState) (header : DataHeader) : Decidable (IsFor image header) :=
  inferInstanceAs (Decidable (_ ∧ _))

def step (s : StatusRun) : StatusAction → StatusRun
  | .data handler header payload =>
      if IsFor s.image header then
        let image := (s.image.onData handler header payload).1
        { s with
          image
          entered := s.entered +
            (image.entry.consumptionTermId - s.image.entry.consumptionTermId).toNat }
      else s
  | .sendControlMessages nowNs smIntervalNs receiverId =>
      let taken := s.image.entry.takeSm nowNs smIntervalNs receiverId
      { s with
        image := ⟨taken.1, s.image.image⟩
        advertised := s.advertised ++ (taken.2.map fun sm => ⟨s.entered, sm⟩).toList }

/-- **A call moves the consumption position forward**, and keeps it equal to the expected one and
inside the term. -/
def Forward (s : StatusRun) (a : StatusAction) : Prop :=
  (s.step a).image.entry.InStep ∧
    ImageEntry.NotBehind s.image.entry.consumptionTermId s.image.entry.consumptionTermOffset
      (s.step a).image.entry.consumptionTermId (s.step a).image.entry.consumptionTermOffset

/-- **Order of two messages.** The later one has no smaller position, and it is not behind the earlier
one if fewer than `2 ^ 31` terms were entered in between. -/
def Ordered (T : Nat) (a b : AdvertisedSm) : Prop :=
  a.entered ≤ b.entered ∧ a.position T ≤ b.position T ∧
    (b.entered - a.entered < 2 ^ 31 → ImageEntry.NotBehind a.sm.consumptionTermId
      a.sm.consumptionTermOffset b.sm.consumptionTermId b.sm.consumptionTermOffset)

/-- **What a run keeps.** The entered terms give the consumption term, and no message is ahead of the
image. -/
structure Inv (base : BitVec 32) (T : Nat) (s : StatusRun) : Prop where
  length_le : T ≤ 2 ^ 30
  logLength : s.image.image.inner.log.termLength = T
  entryLength : s.image.entry.termLength = T
  inStep : s.image.entry.InStep
  termId : s.image.entry.consumptionTermId = base + BitVec.ofNat 32 s.entered
  advertised : ∀ a ∈ s.advertised, a.sm.consumptionTermId = base + BitVec.ofNat 32 a.entered ∧
    a.sm.consumptionTermOffset.toInt ≤ T ∧ (a.entered < s.entered ∨ a.entered = s.entered ∧
      a.sm.consumptionTermOffset.toInt ≤ s.image.entry.consumptionTermOffset.toInt)
  ordered : s.advertised.Pairwise (Ordered T)

namespace Inv

variable {base : BitVec 32} {T : Nat} {s : StatusRun}

/-- **A data frame** keeps it. -/
theorem data (h : Inv base T s) (handler : InlineHandler) (header : DataHeader)
    (payload : List UInt8) :
    Inv base T (step s (.data handler header payload)) ∧ s.Forward (.data handler header payload) := by
  unfold Forward
  by_cases hfor : IsFor s.image header
  · obtain ⟨hinStep, hlt, hforward⟩ := @ImageState.onData_forward handler s.image header payload
      (h.logLength ▸ h.length_le) (h.logLength.trans h.entryLength.symm) h.inStep
    simp only [step, if_pos hfor]
    refine ⟨⟨h.length_le, ?_, ?_, hinStep, ?_, ?_, h.ordered⟩, hinStep, hforward⟩
    · rw [ImageState.onData_logLength, h.logLength]
    · rw [(s.image.onData_fixed handler header payload).2.1, h.entryLength]
    · rw [BitVec.ofNat_add, ← BitVec.add_assoc, ← h.termId, BitVec.ofNat_toNat, BitVec.setWidth_eq,
        BitVec.add_comm, BitVec.sub_add_cancel]
    · intro a ha
      obtain ⟨hterm, hle, hbehind⟩ := h.advertised a ha
      refine ⟨hterm, hle, ?_⟩
      by_cases hsame : (s.image.onData handler header payload).1.entry.consumptionTermId =
          s.image.entry.consumptionTermId
      · -- the term stays, and the offset has not dropped
        have hoffset := hforward.2 hsame
        rw [hsame, BitVec.sub_self]
        dsimp only
        rcases hbehind with hbefore | ⟨heq, hoff⟩
        · exact .inl (by simpa using hbefore)
        · exact .inr ⟨by simpa using heq, by omega⟩
      · have hpos : 0 < ((s.image.onData handler header payload).1.entry.consumptionTermId -
            s.image.entry.consumptionTermId).toNat := by
          rw [Nat.pos_iff_ne_zero]
          intro hzero
          exact hsame (BitVec.sub_eq_iff_eq_add.mp (BitVec.eq_of_toNat_eq hzero) |>.trans
            (BitVec.zero_add _))
        dsimp only
        exact .inl (by omega)
  · simp only [step, if_neg hfor]
    refine ⟨h, h.inStep, ?_, fun _ => le_refl _⟩
    rw [BitVec.sub_self]
    decide

/-- A message is ordered behind those that are not ahead of the image. -/
theorem ordered_of_mem (h : Inv base T s) {a : AdvertisedSm} (ha : a ∈ s.advertised)
    (receiverId : BitVec 64) :
    Ordered T a ⟨s.entered, s.image.entry.statusMessage receiverId⟩ := by
  obtain ⟨hterm, hle, hbehind⟩ := h.advertised a ha
  have hnonneg := h.inStep.nonneg
  have hsm : (s.image.entry.statusMessage receiverId).consumptionTermId =
      base + BitVec.ofNat 32 s.entered := h.termId
  unfold Ordered AdvertisedSm.position ImageEntry.NotBehind
  dsimp only
  refine ⟨by omega, ?_, fun hnear => ?_⟩
  · -- a whole term lies between messages of different terms
    show a.entered * T + a.sm.consumptionTermOffset.toInt ≤
      s.entered * T + s.image.entry.consumptionTermOffset.toInt
    rcases hbehind with hlt | ⟨heq, hoff⟩
    · have hterms : ((a.entered : Int) + 1) * T ≤ s.entered * T :=
        Int.mul_le_mul_of_nonneg_right (by omega) (by omega)
      rw [Int.add_mul, Int.one_mul] at hterms
      omega
    · rw [heq]
      omega
  · rw [hterm, hsm]
    have hdiff : (base + BitVec.ofNat 32 s.entered - (base + BitVec.ofNat 32 a.entered)).toInt =
        ((s.entered - a.entered : Nat) : Int) := by
      have hsub : BitVec.ofNat 32 s.entered - BitVec.ofNat 32 a.entered =
          BitVec.ofNat 32 (s.entered - a.entered) := by
        rw [BitVec.sub_eq_iff_eq_add, ← BitVec.ofNat_add, Nat.sub_add_cancel (by omega)]
      rw [add_sub_add_left_word, hsub, toInt_ofNat_of_lt hnear]
    refine ⟨by omega, fun heq => ?_⟩
    rw [heq, BitVec.sub_self, BitVec.toInt_zero] at hdiff
    rcases hbehind with hlt | ⟨-, hoff⟩
    · omega
    · exact hoff

/-- **A round of control messages** keeps it. -/
theorem sendControlMessages (h : Inv base T s) (nowNs smIntervalNs : Int) (receiverId : BitVec 64) :
    Inv base T (step s (.sendControlMessages nowNs smIntervalNs receiverId)) ∧
      s.Forward (.sendControlMessages nowNs smIntervalNs receiverId) := by
  have hentry := s.image.entry.takeSm_fst nowNs smIntervalNs receiverId
  have hinStep : (s.image.entry.takeSm nowNs smIntervalNs receiverId).1.InStep := by
    rw [hentry]
    exact ⟨h.inStep.termId, h.inStep.offset, h.inStep.nonneg, h.inStep.le⟩
  have hoffset : (s.image.entry.takeSm nowNs smIntervalNs receiverId).1.consumptionTermOffset =
      s.image.entry.consumptionTermOffset := by rw [hentry]
  have hterm : (s.image.entry.takeSm nowNs smIntervalNs receiverId).1.consumptionTermId =
      s.image.entry.consumptionTermId := by rw [hentry]
  unfold Forward
  simp only [step]
  rw [hoffset, hterm]
  refine ⟨⟨h.length_le, h.logLength, ?_, hinStep, hterm.trans h.termId, ?_, ?_⟩, hinStep, ?_,
    fun _ => le_refl _⟩
  · rw [hentry]
    exact h.entryLength
  · rw [List.forall_mem_append]
    refine ⟨fun a ha => hoffset ▸ h.advertised a ha, fun a ha => ?_⟩
    obtain ⟨sm, hsm, rfl⟩ := Option.map_eq_some_iff.mp (Option.mem_toList.mp ha)
    rw [ImageEntry.takeSm_eq_some hsm]
    have hle := h.inStep.le
    rw [h.entryLength] at hle
    exact ⟨h.termId, hle, .inr ⟨rfl, hoffset.symm ▸ le_refl _⟩⟩
  · -- the new message has the position that all earlier ones are compared with
    rw [List.pairwise_append]
    refine ⟨h.ordered, ?_, fun a ha b hb => ?_⟩
    · cases (s.image.entry.takeSm nowNs smIntervalNs receiverId).2 <;> simp
    · obtain ⟨sm, hsm, rfl⟩ := Option.map_eq_some_iff.mp (Option.mem_toList.mp hb)
      rw [ImageEntry.takeSm_eq_some hsm]
      exact h.ordered_of_mem ha receiverId
  · rw [BitVec.sub_self]
    decide

theorem step (h : Inv base T s) (a : StatusAction) : Inv base T (s.step a) ∧ s.Forward a := by
  cases a with
  | data handler header payload => exact h.data handler header payload
  | sendControlMessages nowNs smIntervalNs receiverId =>
      exact h.sendControlMessages nowNs smIntervalNs receiverId

end Inv

/-- **Status messages move forward.** For an image created by a setup frame with an offset inside the
term and every sequence of data frames, with any headers and payloads, and rounds of control messages:
each call leaves the consumption position equal to the expected one and inside the term, and does not
move it backwards; the term id of each message is that of the setup frame plus the number of terms
entered; and of two messages the later has no smaller position, counted in entered terms, and is not
behind the earlier one in wrapping terms and offset if fewer than `2 ^ 31` terms were entered in
between. -/
theorem status_messages_forward {handler : InlineHandler} {setup : SetupHeader} {source : SockAddr}
    {image : ImageState} (hsetup : ImageState.onSetup handler setup source = some image)
    (hnonneg : 0 ≤ setup.termOffset.toInt) (hle : setup.termOffset.toInt ≤ setup.termLength.toInt)
    (as : List StatusAction) :
    Meets Forward step (start image) as ∧
      (∀ a ∈ (run step (start image) as).advertised,
        a.sm.consumptionTermId = setup.activeTermId + BitVec.ofNat 32 a.entered) ∧
      (run step (start image) as).advertised.Pairwise (Ordered setup.termLength.toNat) := by
  obtain ⟨hT, hlog, -, -, -, -, -, hlength, -, hactive, hterm, hoffset, hexpected⟩ :=
    ImageRun.onSetup_spec hsetup
  have hinv : Inv setup.activeTermId setup.termLength.toNat (start image) := by
    have hcast := toNat_eq_toInt hnonneg
    have hlast := toNat_eq_toInt (hnonneg.trans hle)
    refine ⟨hT, hlog, hlength, ?_, ?_, by simp [start], by simp [start]⟩
    · refine .of_toNat_le (hterm.trans hactive.symm) (hoffset.trans hexpected.symm) ?_ ?_
      · exact hlength.trans_le hT
      · show image.entry.expectedTermOffset.toNat ≤ image.entry.termLength
        rw [hexpected, hlength]
        omega
    · exact hterm.trans (BitVec.add_zero _).symm
  have hlast := @run_invariant _ _ (fun _ _ => True) step (Inv setup.activeTermId
    setup.termLength.toNat) (fun _ a h _ => (h.step a).1) _ hinv as (meets_of_forall fun _ _ => trivial)
  refine ⟨?_, fun a ha => (hlast.advertised a ha).1, hlast.ordered⟩
  exact @meets_of_invariant _ _ (fun _ _ => True) _ _ (Inv setup.activeTermId
    setup.termLength.toNat) (fun _ a h _ => h.step a) _ hinv as (meets_of_forall fun _ _ => trivial)

def frameOfTerm (termId : BitVec 32) : StatusAction :=
  .data ImageRun.quietHandler ⟨⟨32, 0, 0, frameTypeData⟩, 0, 7, 1, termId, 0⟩ []

/-- A round of control messages, long after the last one. -/
def statusRound (nowNs : Int) : StatusAction := .sendControlMessages nowNs 0 1

/-- Two messages with a frame of the next term in between. -/
theorem status_messages_next_term :
    ∃ a b, (run step (start ImageRun.smallImage) [statusRound 1, frameOfTerm 6, statusRound 2]).advertised
        = [a, b] ∧ a.position 64 = 0 ∧ b.position 64 = 96 ∧ Ordered 64 a b := by
  have hsetup : ImageState.onSetup ImageRun.quietHandler ImageRun.smallSetup ⟨2, []⟩ =
      some ImageRun.smallImage := rfl
  obtain ⟨-, -, hpairs⟩ := status_messages_forward hsetup (by decide) (by decide)
    [statusRound 1, frameOfTerm 6, statusRound 2]
  exact ⟨⟨0, ImageRun.smallImage.entry.statusMessage 1⟩,
    ⟨1, { ImageRun.smallImage.entry.statusMessage 1 with
      consumptionTermId := 6, consumptionTermOffset := 32 }⟩, rfl, by decide, by decide,
    (List.pairwise_pair.mp hpairs)⟩

/-- **A status message behind the one before.** Three frames, each the furthest ahead that counts as
ahead, move the image on by more than `2 ^ 31` terms. The second message is then `2 ^ 30 + 6` terms
behind the first, as wrapping term ids are compared. -/
theorem status_message_behind :
    ∃ a b, (run step (start ImageRun.smallImage) [statusRound 1, frameOfTerm (5 + 0x3FFFFFFE),
        frameOfTerm (5 + 0x7FFFFFFC), frameOfTerm (5 + 0xBFFFFFFA), statusRound 2]).advertised = [a, b] ∧
      (b.sm.consumptionTermId - a.sm.consumptionTermId).toInt = - 2 ^ 30 - 6 ∧
      ¬ ImageEntry.NotBehind a.sm.consumptionTermId a.sm.consumptionTermOffset
        b.sm.consumptionTermId b.sm.consumptionTermOffset :=
  ⟨⟨0, ImageRun.smallImage.entry.statusMessage 1⟩,
    ⟨0xBFFFFFFA, { ImageRun.smallImage.entry.statusMessage 1 with
      consumptionTermId := 5 + 0xBFFFFFFA, consumptionTermOffset := 32 }⟩, rfl, by decide, by decide⟩

end StatusRun

end AeronRs
