import AeronRs.Agent.ImageLog
import AeronRs.Lib.Runs

/-! # Runs of an image

Any interleaving of data frames and polls on an image that a setup frame has created. The run keeps
the frames that were accepted and the fragments that were delivered.

`on_data` does not consult the subscriber's position. `unread_data_kept` says when no data frame
destroys what the subscriber has not read: when the receiver never rotates to a term more than three
after the subscriber's. -/

namespace AeronRs

open Runs

inductive ImageAction (T : Nat)
  | data (handler : InlineHandler) (frame : StreamFrame T)
  | poll (limit : Int)

/-- An image with its history: the accepted frames, the latest first, and the fragments delivered, in
order. -/
structure ImageRun (ids : StreamIds) where
  state : ImageState
  accepted : List (StreamFrame ids.termLength)
  delivered : List Fragment

namespace ImageRun

variable {ids : StreamIds}
variable {handler : InlineHandler} {A : Nat} {stream : HonestStream ids.termLength}

def start (ids : StreamIds) (state : ImageState) : ImageRun ids := ⟨state, [], []⟩

def step (s : ImageRun ids) : ImageAction ids.termLength → ImageRun ids
  | .data handler f =>
      { s with
        state := (s.state.onData handler (f.header ids) f.payload).1
        accepted :=
          if s.state.stores handler (f.header ids) f.payload then f :: s.accepted else s.accepted }
  | .poll limit =>
      { s with
        state := (s.state.poll limit).1
        delivered := s.delivered ++ (s.state.poll limit).2 }

def buffer (s : ImageRun ids) : ByteStore := s.state.image.inner.log.buffer

def subscriberPosition (s : ImageRun ids) : Int := s.state.image.inner.subscriberPosition

def receiverPosition (s : ImageRun ids) : Int := s.state.image.inner.receiverPosition

def activeTerm (s : ImageRun ids) : Nat :=
  (s.state.entry.activeTermId - s.state.entry.initialTermId).toNat

/-- **Unread data is kept.** A data frame changes no byte of a committed frame between the
subscriber's and the receiver's position. -/
def KeepsUnread (s : ImageRun ids) (a : ImageAction ids.termLength) : Prop :=
  match a with
  | .data _ _ => ∀ g ∈ s.accepted, s.subscriberPosition ≤ g.start → g.start < s.receiverPosition →
      ∀ i < 32 + g.payload.length,
        (s.step a).buffer (slotOf 4 ids.termLength (g.start + i)) =
          s.buffer (slotOf 4 ids.termLength (g.start + i))
  | .poll _ => True

instance (s : ImageRun ids) (a : ImageAction ids.termLength) : Decidable (s.KeepsUnread a) :=
  match a with
  | .data _ _ => inferInstanceAs (Decidable (∀ g ∈ s.accepted, _ → _ → ∀ i < _, _))
  | .poll _ => isTrue trivial

/-- The frames are those of one publisher, within the range of the term counts. -/
def FromStream (stream : HonestStream ids.termLength) : ImageAction ids.termLength → Prop
  | .data _ f => f ∈ stream.frames ∧ f.term < 2 ^ 31
  | .poll _ => True

instance (stream : HonestStream ids.termLength) (a : ImageAction ids.termLength) :
    Decidable (FromStream stream a) :=
  match a with
  | .data _ f => inferInstanceAs (Decidable (f ∈ stream.frames ∧ f.term < 2 ^ 31))
  | .poll _ => isTrue trivial

/-- The receiver rotates to no term more than three after the subscriber's. -/
def WithinThreeTerms (s : ImageRun ids) : ImageAction ids.termLength → Prop
  | .data _ f => f.term ≤ s.activeTerm ∨ (f.term : Int) ≤ s.subscriberPosition / ids.termLength + 3
  | .poll _ => True

instance (s : ImageRun ids) (a : ImageAction ids.termLength) : Decidable (s.WithinThreeTerms a) :=
  match a with
  | .data _ f => inferInstanceAs (Decidable (f.term ≤ _ ∨ (f.term : Int) ≤ _))
  | .poll _ => isTrue trivial

/-! ## New images -/

/-- What `on_setup` accepts and creates: an empty log of the announced term length, at the announced
position. -/
theorem onSetup_spec {setup : SetupHeader} {source : SockAddr} {s : ImageState}
    (hsetup : ImageState.onSetup handler setup source = some s) :
    setup.termLength.toNat ≤ 2 ^ 30 ∧
      s.image.inner.log.termLength = setup.termLength.toNat ∧
      s.image.inner.log.buffer = (fun _ => 0) ∧
      s.image.inner.initialTermId = setup.initialTermId ∧
      (s.image.inner.sessionId = setup.sessionId ∧ s.image.inner.streamId = setup.streamId) ∧
      s.image.inner.receiverPosition = (setup.activeTermId - setup.initialTermId).toInt *
        (setup.termLength.toNat : Int) + setup.termOffset.toInt ∧
      s.image.inner.subscriberPosition = s.image.inner.receiverPosition ∧
      s.entry.termLength = setup.termLength.toNat ∧
      s.entry.initialTermId = setup.initialTermId ∧ s.entry.activeTermId = setup.activeTermId ∧
      s.entry.consumptionTermId = setup.activeTermId ∧
      s.entry.consumptionTermOffset = setup.termOffset ∧
      s.entry.expectedTermOffset = setup.termOffset := by
  unfold ImageState.onSetup at hsetup
  split_ifs at hsetup with hvalid
  rw [not_or] at hvalid
  obtain ⟨image, himage, rfl⟩ := Option.map_eq_some_iff.mp hsetup
  unfold SharedImage.newSharedImage at himage
  obtain ⟨log, hlog, rfl⟩ := Option.map_eq_some_iff.mp himage
  unfold RawLog.new at hlog
  split_ifs at hlog with hlen
  obtain rfl := Option.some.inj hlog
  refine ⟨?_, rfl, rfl, rfl, ⟨rfl, rfl⟩, rfl, rfl, rfl, rfl, rfl, rfl, rfl, rfl⟩
  -- a power of two that is positive as a signed word
  obtain ⟨k, hk⟩ := exists_of_isPowerOfTwo hlen.2.2
  have hsigned := hvalid.1
  rw [BitVec.toInt_eq_toNat_cond] at hsigned
  have hlt : 2 ^ k < 2 ^ 31 := by
    rw [← hk]
    split_ifs at hsigned <;> omega
  rw [Nat.pow_lt_pow_iff_right (by decide)] at hlt
  rw [hk]
  exact Nat.pow_le_pow_right (by decide) (by omega)

/-- **A new image holds nothing.** -/
theorem holds_onSetup {setup : SetupHeader} {source : SockAddr} {s : ImageState}
    (hsetup : ImageState.onSetup handler setup source = some s)
    (hactive : setup.activeTerm < 2 ^ 31) :
    Holds setup.ids s.entry s.image.inner setup.activeTerm [] := by
  obtain ⟨hle, hlog, hbuffer, hinitial, hstream, -, -, hlen, hentry, hterm, -⟩ :=
    onSetup_spec hsetup
  refine ⟨hlog, hlen, hentry, hinitial, hstream, ?_, hactive, hle, by simp, ?_⟩
  · rw [hterm, SetupHeader.activeTerm, BitVec.ofNat_toNat, BitVec.setWidth_eq]
    rw [BitVec.add_comm]
    exact (BitVec.sub_add_cancel _ _).symm
  · intro q _ _
    rw [hbuffer]
    rfl

/-! ## What one action does -/

/-- What is known of an image along a run: it holds the accepted frames, which are those of the
stream, and those not read yet are among the last four terms. -/
structure Keeps (stream : HonestStream ids.termLength) (s : ImageRun ids) (A : Nat) : Prop where
  holds : Holds ids s.state.entry s.state.image.inner A s.accepted
  accepted : s.accepted ⊆ stream.frames
  unread : ∀ g ∈ s.accepted, s.subscriberPosition ≤ g.start → A < g.term + 4

theorem Keeps.activeTerm_eq {s : ImageRun ids} (h : s.Keeps stream A) :
    s.activeTerm = A := h.holds.activeTerm_eq

/-- A poll does not move the subscriber back and does not touch the log. -/
theorem subscriberPosition_step_poll (s : ImageRun ids) (limit : Int) :
    s.subscriberPosition ≤ (s.step (.poll limit)).subscriberPosition ∧
      (s.step (.poll limit)).state.image.inner =
        { s.state.image.inner with
          subscriberPosition := (s.step (.poll limit)).subscriberPosition } := by
  have hsync := s.state.image.subscriber_sync
  have hinner : (s.step (.poll limit)).state.image.inner =
      (s.state.image.subscriber.pollFragments s.state.image.inner limit).1.1 := rfl
  unfold subscriberPosition
  rw [hinner]
  by_cases hpos : 0 < limit
  · rw [SubscriberImage.pollFragments_of_pos hpos hsync]
    exact ⟨by dsimp only; omega, rfl⟩
  · rw [SubscriberImage.pollFragments_of_nonpos (by omega)]
    exact ⟨le_refl _, rfl⟩

theorem Keeps.poll {s : ImageRun ids} (h : s.Keeps stream A) (limit : Int) :
    (s.step (.poll limit)).Keeps stream A := by
  obtain ⟨hle, hinner⟩ := s.subscriberPosition_step_poll limit
  refine ⟨?_, h.accepted, fun g hg hunread => h.unread g hg (le_trans hle hunread)⟩
  rw [hinner]
  exact { h.holds with }

/-- A data frame that is accepted comes first among the accepted ones. -/
theorem accepted_step_data {s : ImageRun ids} {f : StreamFrame ids.termLength}
    (hstored : s.state.stores handler (f.header ids) f.payload = true) :
    (s.step (.data handler f)).accepted = f :: s.accepted :=
  if_pos hstored

theorem accepted_step_rejected {s : ImageRun ids} {f : StreamFrame ids.termLength}
    (hstored : s.state.stores handler (f.header ids) f.payload = false) :
    (s.step (.data handler f)).accepted = s.accepted :=
  if_neg (Bool.eq_false_iff.mp hstored)

/-- **A data frame within three terms** of the subscriber keeps what is not read. -/
theorem Keeps.data {stream : HonestStream ids.termLength} {s : ImageRun ids} {A : Nat}
    (h : s.Keeps stream A) {handler : InlineHandler} {f : StreamFrame ids.termLength}
    (hstream : FromStream stream (.data handler f)) (hwithin : s.WithinThreeTerms (.data handler f)) :
    (s.step (.data handler f)).Keeps stream (if Accepts A f.term then max A f.term else A) ∧
      s.KeepsUnread (.data handler f) := by
  obtain ⟨hmem, hterm⟩ := hstream
  have hsub : (s.step (.data handler f)).subscriberPosition = s.subscriberPosition :=
    (s.state.received_sync handler (f.header ids) f.payload).2.trans
      s.state.image.subscriber_sync.symm
  rcases h.holds.onData_cases hterm handler with
    ⟨haccepts, hstored, hholds⟩ | ⟨haccepts, hstored, -, himage, hholds⟩
  · have hstep := accepted_step_data hstored
    have hsubset : f :: s.accepted ⊆ stream.frames := List.cons_subset.mpr ⟨hmem, h.accepted⟩
    -- an unread frame is still among the last four terms
    have hunread : ∀ g ∈ s.accepted, s.subscriberPosition ≤ g.start → max A f.term < g.term + 4 := by
      intro g hg hread
      have hold := h.unread g hg hread
      have hterm' : s.subscriberPosition / ids.termLength ≤ (g.term : Int) := by
        rw [StreamFrame.term, Int.natCast_div]
        exact Int.ediv_le_ediv (by exact_mod_cast h.holds.termLength_pos) hread
      rcases hwithin with hle | hle
      · rw [h.activeTerm_eq] at hle
        omega
      · omega
    rw [if_pos haccepts]
    refine ⟨⟨hstep ▸ hholds, hstep ▸ hsubset, ?_⟩, ?_⟩
    · rw [hsub, hstep]
      intro g hg hread
      rcases List.mem_cons.mp hg with rfl | hold
      · have := haccepts.1
        omega
      · exact hunread g hold hread
    · intro g hg hread _ i hi
      -- before and after, the image holds the frame
      have hnew := hholds.read_eq (stream.apart.mono hsubset) (List.mem_cons_of_mem f hg)
        (hunread g hg hread)
      have hold := h.holds.read_eq (stream.apart.mono h.accepted) hg (h.unread g hg hread)
      have hbyte := ByteStore.eq_of_read_eq (hnew.trans hold.symm) hi
      have hfit : g.start % ids.termLength + g.length ≤ ids.termLength := g.inTerm
      have hlen := g.length_ge
      rw [slotOf_add 4 ids.termLength g.start i (by omega)]
      exact hbyte
  · have hstep := accepted_step_rejected hstored
    rw [if_neg haccepts]
    refine ⟨⟨hstep ▸ hholds, hstep ▸ h.accepted, ?_⟩, ?_⟩
    · rw [hsub, hstep]
      exact h.unread
    · intro g _ _ _ i _
      change (s.state.onData handler (f.header ids) f.payload).1.image.inner.log.buffer _ = _
      rw [himage]
      rfl

/-! ## Runs -/

/-- The condition of a run: frames of one stream, and a receiver within three terms of the
subscriber. -/
def Near (stream : HonestStream ids.termLength) (s : ImageRun ids)
    (a : ImageAction ids.termLength) : Prop :=
  FromStream stream a ∧ s.WithinThreeTerms a

instance (stream : HonestStream ids.termLength) (s : ImageRun ids)
    (a : ImageAction ids.termLength) : Decidable (s.Near stream a) :=
  inferInstanceAs (Decidable (_ ∧ _))

/-- **Step.** -/
theorem Keeps.step {stream : HonestStream ids.termLength} {s : ImageRun ids}
    (h : ∃ A, s.Keeps stream A) {a : ImageAction ids.termLength} (hnear : s.Near stream a) :
    (∃ A, (s.step a).Keeps stream A) ∧ s.KeepsUnread a := by
  obtain ⟨A, hkeeps⟩ := h
  cases a with
  | data handler f =>
      obtain ⟨hnext, hunread⟩ := hkeeps.data hnear.1 hnear.2
      exact ⟨⟨_, hnext⟩, hunread⟩
  | poll limit => exact ⟨⟨A, hkeeps.poll limit⟩, trivial⟩

/-- **Data that the subscriber has not read is kept**, in every run of frames of one publisher and
polls in which the receiver rotates to no term more than three after the subscriber's. -/
theorem unread_data_kept {handler : InlineHandler} {setup : SetupHeader} {source : SockAddr}
    {s : ImageState} (hsetup : ImageState.onSetup handler setup source = some s)
    (hactive : setup.activeTerm < 2 ^ 31) (stream : HonestStream setup.ids.termLength)
    (as : List (ImageAction setup.ids.termLength))
    (hrun : Meets (Near stream) step (start setup.ids s) as) :
    Meets KeepsUnread step (start setup.ids s) as := by
  have hkeeps : (start setup.ids s).Keeps stream setup.activeTerm :=
    ⟨holds_onSetup hsetup hactive, List.nil_subset _, fun g hg => by cases hg⟩
  exact @meets_of_invariant _ _ (Near stream) KeepsUnread step (fun s => ∃ A, s.Keeps stream A)
    (fun _ _ h hnear => Keeps.step h hnear) _ ⟨_, hkeeps⟩ as hrun

def smallSetup : SetupHeader where
  frameHeader := ⟨40, currentVersion, 0, frameTypeSetup⟩
  termOffset := 0
  sessionId := 7
  streamId := 1
  initialTermId := 5
  activeTermId := 5
  termLength := 64
  mtu := 1408
  ttl := 0

/-- The handler of a receiver that sends no status message on data. -/
def quietHandler : InlineHandler := ⟨1, 0, [], false, none⟩

theorem aligned_of_64 (t : Nat) : 32 ∣ 64 * t := Dvd.dvd.mul_right (by decide) t

/-- A frame that fills term `t` and carries its number. -/
def smallFrame (t : Nat) : StreamFrame smallSetup.ids.termLength where
  start := 64 * t
  payload := [UInt8.ofNat t]
  aligned := aligned_of_64 t
  inTerm := by
    have hlen : smallSetup.ids.termLength = 64 := rfl
    rw [hlen, Nat.mul_mod_right, List.length_singleton]
    decide

/-- The first frames of a stream of such frames. -/
def smallStream (n : Nat) : HonestStream smallSetup.ids.termLength where
  frames := (List.range n).map smallFrame
  apart := by
    intro f hf g hg
    obtain ⟨a, -, rfl⟩ := List.mem_map.mp hf
    obtain ⟨b, -, rfl⟩ := List.mem_map.mp hg
    have hstop : ∀ t, (smallFrame t).stop = 64 * t + 64 := fun t =>
      congrArg (64 * t + ·) (show alignFrameLength 33 = 64 by decide)
    have hstart : ∀ t, (smallFrame t).start = 64 * t := fun _ => rfl
    rw [hstop, hstart, hstop, hstart]
    rcases Nat.lt_trichotomy a b with hlt | rfl | hlt
    · exact .inr (.inl (by omega))
    · exact .inl rfl
    · exact .inr (.inr (by omega))

def smallImage : ImageState := (ImageState.onSetup quietHandler smallSetup ⟨2, []⟩).get rfl

/-- Five terms, of which the first is read before the fifth arrives. -/
theorem unread_data_kept_polled :
    Meets KeepsUnread step (start smallSetup.ids smallImage)
      [.data quietHandler (smallFrame 0), .data quietHandler (smallFrame 1),
        .data quietHandler (smallFrame 2), .data quietHandler (smallFrame 3), .poll 1,
        .data quietHandler (smallFrame 4)] :=
  unread_data_kept (Option.some_get _).symm (by decide) (smallStream 5) _ (by decide +kernel)

/-- **A rotation destroys unread data.** Five frames, each filling its term, arrive before the
subscriber polls. The fifth, of term 9, rotates to the partition of the first, of term 5, which is at
the subscriber's position, and takes its place. -/
theorem rotation_destroys_unread :
    let s := run step (start smallSetup.ids smallImage)
      [.data quietHandler (smallFrame 0), .data quietHandler (smallFrame 1),
        .data quietHandler (smallFrame 2), .data quietHandler (smallFrame 3)]
    s.subscriberPosition = 0 ∧ s.receiverPosition = 256 ∧
      s.accepted.map StreamFrame.start = [192, 128, 64, 0] ∧
      s.buffer.readI32 20 = 5 ∧
      (s.step (.data quietHandler (smallFrame 4))).buffer.readI32 20 = 9 ∧
      ¬ s.KeepsUnread (.data quietHandler (smallFrame 4)) := by
  decide +kernel

end ImageRun

end AeronRs
