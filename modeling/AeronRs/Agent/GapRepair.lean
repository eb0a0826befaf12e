import AeronRs.Agent.OnData
import AeronRs.Agent.Retransmit

/-! # Repairing a gap

From the NAK that `on_data` queues to the frames that come back: the offset at which an image waits
is inside no frame of the publisher (**`Awaits`**), so the scan that answers the NAK starts at a
frame, and what it finds is stored where it is missing.

The scan goes no further than one `mtu`, while the image asks only once and then waits behind the
gap. `gap_not_repaired` is a gap of two frames of which only the first comes back; `gap_repaired` is
what holds when no frame of the gap starts an `mtu` or more behind its beginning. -/

namespace AeronRs

open Runs

/-! ## The image -/

namespace ImageRun

variable {ids : StreamIds}

def UpTo (bound : Nat) : ImageAction ids.termLength → Prop
  | .data _ f => f.term ≤ bound
  | .poll _ => True

instance (bound : Nat) : DecidablePred (@UpTo ids bound)
  | .data _ f => inferInstanceAs (Decidable (f.term ≤ bound))
  | .poll _ => inferInstanceAs (Decidable True)

/-- **The image waits between frames**: it holds what it has accepted, and the offset it expects next
is inside no frame of the stream. -/
structure Awaits (stream : HonestStream ids.termLength) (s : ImageRun ids) (A : Nat) : Prop where
  holds : Holds ids s.state.entry s.state.image.inner A s.accepted
  accepted : s.accepted ⊆ stream.frames
  expected_le : s.state.entry.expectedTermOffset.toNat ≤ ids.termLength
  boundary : FrameBoundary stream.frames
    (A * ids.termLength + s.state.entry.expectedTermOffset.toNat)

namespace Awaits

variable {stream : HonestStream ids.termLength} {s : ImageRun ids} {A : Nat}

theorem poll (h : s.Awaits stream A) (limit : Int) : (s.step (.poll limit)).Awaits stream A := by
  refine ⟨?_, h.accepted, h.expected_le, h.boundary⟩
  rw [(s.subscriberPosition_step_poll limit).2]
  exact { h.holds with }

/-- The offset that is expected after a frame of the last four terms was accepted: that of before, the
beginning of a later term, or the end of the frame. -/
theorem expected_of_accepted (h : s.Awaits stream A) (handler : InlineHandler)
    {f : StreamFrame ids.termLength} (hterm : f.term < 2 ^ 31) (haccepts : Accepts A f.term) :
    let expected := (s.state.onData handler (f.header ids) f.payload).1.entry.expectedTermOffset
    (f.term ≤ A ∧ expected = s.state.entry.expectedTermOffset) ∨ expected = 0 ∨
      A ≤ f.term ∧ expected.toNat = f.start % ids.termLength + f.length := by
  have hnoted := h.holds.noteGap handler (f.header ids)
  have hrotated := hnoted.rotate hterm haccepts.2
  have hT := h.holds.termLength_le
  have hfit : f.start % ids.termLength + f.length ≤ ids.termLength := f.inTerm
  -- before the frame is noted
  have hbefore : (f.term ≤ A ∧ ((s.state.entry.noteGap handler (f.header ids)).1.rotate
      s.state.image.inner (f.header ids).termId).1.expectedTermOffset =
        s.state.entry.expectedTermOffset) ∨
      ((s.state.entry.noteGap handler (f.header ids)).1.rotate
        s.state.image.inner (f.header ids).termId).1.expectedTermOffset = 0 := by
    by_cases hahead : (s.state.entry.noteGap handler (f.header ids)).1.IsAhead (f.header ids).termId
    · refine .inr ?_
      rw [ImageEntry.rotate, if_pos hahead]
    · refine .inl ⟨?_, ?_⟩
      · by_contra hlater
        exact hahead ((hnoted.isAhead_iff hterm).mpr ⟨by omega, haccepts.2⟩)
      · rw [ImageEntry.rotate, if_neg hahead, s.state.entry.noteGap_fst handler (f.header ids)]
  have hstore := hrotated.store_eq (f := f) (by have := haccepts.1; omega) (Nat.le_max_right _ _)
    handler s.state.image.receiver
  intro expected
  have hexpected : expected = (((s.state.entry.noteGap handler (f.header ids)).1.rotate
      s.state.image.inner (f.header ids).termId).1.noteAppended handler (f.header ids).termId
        (f.start % ids.termLength + f.length)).expectedTermOffset :=
    congrArg (fun r => r.1.expectedTermOffset) hstore
  rw [ImageEntry.noteAppended] at hexpected
  dsimp only at hexpected
  split_ifs at hexpected with hactive
  · rw [ImageEntry.advanceOffset] at hexpected
    split_ifs at hexpected with hforward
    · refine .inr (.inr ⟨?_, ?_⟩)
      · -- the frame is of the active term after the rotation
        have hsame : (f.header ids).termId = ids.initialTermId + BitVec.ofNat 32 (max A f.term) :=
          hactive.trans hrotated.active
        have hA := hrotated.active_lt
        have hid : (f.header ids).termId = ids.initialTermId + BitVec.ofNat 32 f.term := rfl
        rw [hid, add_ofNat_inj _ (by omega) (by omega)] at hsame
        omega
      · rw [hexpected, BitVec.toNat_ofNat, Nat.mod_eq_of_lt (by omega)]
    · rw [hexpected]
      rcases hbefore with hkept | hzero
      · exact .inl hkept
      · exact .inr (.inl hzero)
  · rw [hexpected]
    rcases hbefore with hkept | hzero
    · exact .inl hkept
    · exact .inr (.inl hzero)

/-- **A data frame** leaves the image waiting between frames, in the same term or a later one. -/
theorem data (h : s.Awaits stream A) {handler : InlineHandler} {f : StreamFrame ids.termLength}
    (hstream : FromStream stream (.data handler f)) :
    ∃ A', A ≤ A' ∧ A' ≤ max A f.term ∧ (s.step (.data handler f)).Awaits stream A' ∧
      s.accepted ⊆ (s.step (.data handler f)).accepted ∧
      (Accepts A f.term → f ∈ (s.step (.data handler f)).accepted) := by
  obtain ⟨hmem, hterm⟩ := hstream
  rcases h.holds.onData_cases hterm handler with
    ⟨haccepts, hstored, hholds⟩ | ⟨haccepts, hstored, hentry, -, hholds⟩
  · have hstep := accepted_step_data hstored
    have hfit : f.start % ids.termLength + f.length ≤ ids.termLength := f.inTerm
    -- the expected offset stays, starts anew with a term, or is the end of the frame
    have hexpected := h.expected_of_accepted handler hterm haccepts
    refine ⟨max A f.term, Nat.le_max_left _ _, Nat.le_refl _, ⟨hstep ▸ hholds, ?_, ?_, ?_⟩, ?_, ?_⟩
    · exact hstep ▸ List.cons_subset.mpr ⟨hmem, h.accepted⟩
    · rcases hexpected with ⟨-, hkept⟩ | hzero | ⟨-, hend⟩
      · exact hkept ▸ h.expected_le
      · exact hzero ▸ Nat.zero_le _
      · exact hend ▸ hfit
    · change FrameBoundary stream.frames (max A f.term * ids.termLength +
        (s.state.onData handler (f.header ids) f.payload).1.entry.expectedTermOffset.toNat)
      rcases hexpected with ⟨hle, hkept⟩ | hzero | ⟨hle, hend⟩
      · rw [hkept, Nat.max_eq_left hle]
        exact h.boundary
      · rw [hzero]
        exact fun g _ => g.between_terms (max A f.term)
      · -- the end of the frame is inside no other
        have hstop : max A f.term * ids.termLength + (f.start % ids.termLength + f.length) =
            f.stop := by
          have hdiv := Nat.div_add_mod' f.start ids.termLength
          rw [Nat.max_eq_right hle, StreamFrame.stop, StreamFrame.term]
          omega
        rw [hend, hstop]
        intro g hg
        have hlt := g.start_lt_stop
        have hlt' := f.start_lt_stop
        rcases stream.apart f hmem g hg with rfl | hbefore | hafter
        · exact .inl (Nat.le_refl _)
        · exact .inr hbefore
        · exact .inl (by omega)
    · exact hstep ▸ List.subset_cons_self f s.accepted
    · exact fun _ => hstep ▸ List.mem_cons_self
  · have hstep := accepted_step_rejected hstored
    have hexpected : (s.step (.data handler f)).state.entry.expectedTermOffset =
        s.state.entry.expectedTermOffset := by
      change (s.state.onData handler (f.header ids) f.payload).1.entry.expectedTermOffset = _
      rw [hentry, s.state.entry.noteGap_fst handler (f.header ids)]
    refine ⟨A, Nat.le_refl A, Nat.le_max_left _ _, ⟨hstep ▸ hholds, hstep ▸ h.accepted, ?_, ?_⟩, ?_,
      fun hin => ?_⟩
    · rw [hexpected]
      exact h.expected_le
    · rw [hexpected]
      exact h.boundary
    · exact hstep ▸ List.Subset.refl _
    · exact absurd hin haccepts

/-- **Step.** -/
theorem step (h : s.Awaits stream A) {a : ImageAction ids.termLength}
    (hstream : FromStream stream a) :
    ∃ A', A ≤ A' ∧ (∀ bound, A ≤ bound → UpTo bound a → A' ≤ bound) ∧
      (s.step a).Awaits stream A' ∧ s.accepted ⊆ (s.step a).accepted := by
  cases a with
  | data handler f =>
      obtain ⟨A', hle, hmax, hnext, hsubset, -⟩ := h.data hstream
      refine ⟨A', hle, fun bound hA hf => ?_, hnext, hsubset⟩
      exact Nat.le_trans hmax (Nat.max_le.mpr ⟨hA, hf⟩)
  | poll limit => exact ⟨A, Nat.le_refl A, fun _ hA _ => hA, h.poll limit, List.Subset.refl _⟩

/-- **Run.** The active term grows up to the terms of the frames, and the accepted frames grow. -/
theorem run (h : s.Awaits stream A) {as : List (ImageAction ids.termLength)}
    (hstream : ∀ a ∈ as, FromStream stream a) :
    ∃ A', A ≤ A' ∧ (∀ bound, A ≤ bound → (∀ a ∈ as, UpTo bound a) → A' ≤ bound) ∧
      (Runs.run ImageRun.step s as).Awaits stream A' ∧
      s.accepted ⊆ (Runs.run ImageRun.step s as).accepted := by
  induction as generalizing s A with
  | nil => exact ⟨A, Nat.le_refl A, fun _ hA _ => hA, h, List.Subset.refl _⟩
  | cons a as ih =>
      obtain ⟨A₁, hle₁, hup₁, h₁, hsubset₁⟩ := h.step (hstream a List.mem_cons_self)
      obtain ⟨A₂, hle₂, hup₂, h₂, hsubset₂⟩ := ih h₁ fun b hb =>
        hstream b (List.mem_cons_of_mem a hb)
      refine ⟨A₂, Nat.le_trans hle₁ hle₂, fun bound hA hall => ?_, h₂,
        List.Subset.trans hsubset₁ hsubset₂⟩
      obtain ⟨hhead, htail⟩ := List.forall_mem_cons.mp hall
      exact hup₂ bound (hup₁ bound hA hhead) htail

/-- **A frame of the active term that arrives is in the log** as long as no frame of the fourth term
after it or later arrives. -/
theorem read_of_arrived (h : s.Awaits stream A) {as : List (ImageAction ids.termLength)}
    (hstream : ∀ a ∈ as, FromStream stream a) {handler : InlineHandler}
    {g : StreamFrame ids.termLength} (harrives : .data handler g ∈ as) (hterm : g.term = A)
    (hnear : ∀ a ∈ as, UpTo (A + 3) a) :
    (Runs.run ImageRun.step s as).buffer.read (slotOf 4 ids.termLength g.start)
      (32 + g.payload.length) = g.bytes ids := by
  obtain ⟨pre, post, rfl⟩ := List.append_of_mem harrives
  -- before the frame, the frame, and after it
  have hpre : ∀ a ∈ pre, FromStream stream a := fun a ha => hstream a (List.mem_append_left _ ha)
  have hpost : ∀ a ∈ post, FromStream stream a := fun a ha =>
    hstream a (List.mem_append_right _ (List.mem_cons_of_mem _ ha))
  obtain ⟨hnearPre, hnearPost⟩ := List.forall_mem_append.mp hnear
  obtain ⟨hnearFrame, hnearPost⟩ := List.forall_mem_cons.mp hnearPost
  obtain ⟨A₁, hle₁, hup₁, h₁, -⟩ := h.run hpre
  obtain ⟨A₂, hle₂, hmax₂, h₂, -, hstored⟩ := h₁.data (hstream _ harrives)
  obtain ⟨A₃, hle₃, hup₃, h₃, hsubset⟩ := h₂.run hpost
  have hA₁ : A₁ ≤ A + 3 := hup₁ _ (by omega) hnearPre
  have hA₃ : A₃ ≤ A + 3 := hup₃ _ (by omega) hnearPost
  rw [run_append, run_cons]
  have hmem := hsubset (hstored ⟨by omega, by omega⟩)
  exact h₃.holds.read_eq (stream.apart.mono h₃.accepted) hmem (by omega)

end Awaits

theorem awaits_onSetup {handler : InlineHandler} {setup : SetupHeader} {source : SockAddr}
    {image : ImageState} (hsetup : ImageState.onSetup handler setup source = some image)
    (hactive : setup.activeTerm < 2 ^ 31) (hoffset : setup.termOffset.toNat ≤ setup.ids.termLength)
    {stream : HonestStream setup.ids.termLength}
    (hboundary : FrameBoundary stream.frames setup.position) :
    (start setup.ids image).Awaits stream setup.activeTerm := by
  obtain ⟨-, -, -, -, -, -, -, -, -, -, -, -, hexpected⟩ := onSetup_spec hsetup
  refine ⟨holds_onSetup hsetup hactive, List.nil_subset _, ?_, ?_⟩
  · exact (congrArg BitVec.toNat hexpected).trans_le hoffset
  · change FrameBoundary stream.frames (setup.activeTerm * setup.ids.termLength +
      image.entry.expectedTermOffset.toNat)
    rw [hexpected]
    exact hboundary

end ImageRun

/-! ## The publisher -/

namespace PubRun

/-- The publisher has committed a frame: an offer that returned its end was accepted. -/
def Commits (s : PubRun) {T : Nat} (f : StreamFrame T) : Prop := ((f.stop : Int), f.payload) ∈ s.accepted

instance (s : PubRun) {T : Nat} (f : StreamFrame T) : Decidable (s.Commits f) :=
  inferInstanceAs (Decidable (_ ∈ _))

theorem Commits.run {s : PubRun} {T : Nat} {f : StreamFrame T} (h : s.Commits f)
    (as : List PubAction) : (Runs.run step s as).Commits f := by
  induction as generalizing s with
  | nil => exact h
  | cons a as ih =>
      apply ih
      cases a with
      | offer payload => exact List.mem_append_left _ h
      | scan limit => exact h

variable {ids : StreamIds} {s : PubRun} {rs : List LogRecord} {n : Nat}

theorem Logged.commits_iff (h : s.Logged ids rs n) (f : StreamFrame ids.termLength) :
    s.Commits f ↔ f.record ∈ rs := by
  constructor
  · intro hf
    obtain ⟨start, hr, hpos⟩ := h.exists_record hf
    have hstop : (f.stop : Int) = f.start + alignFrameLength (32 + f.payload.length) := by
      rw [StreamFrame.stop, StreamFrame.length]
      push_cast
      rfl
    rw [StreamFrame.record, show f.start = start by omega]
    exact hr
  · intro hr
    rw [Commits, h.accepted_eq]
    refine List.mem_filterMap.mpr ⟨_, hr, ?_⟩
    rw [StreamFrame.record, acceptedOf, StreamFrame.stop, StreamFrame.length]
    push_cast
    rfl

theorem Logged.term_le (h : s.Logged ids rs n) {f : StreamFrame ids.termLength} (hf : s.Commits f) :
    f.term ≤ n ∧ f.stop ≤ n * ids.termLength + s.network.termOffset := by
  have hT : s.network.termLength = ids.termLength := by rw [← h.ids_eq, s.network.ids_termLength]
  have hr := (h.commits_iff f).mp hf
  obtain ⟨-, -, hstop⟩ := h.published.tiles.mem hr
  rw [hT] at hstop
  exact ⟨h.record_term_le hr, hstop⟩

theorem Logged.exists_frames (h : s.Logged ids rs n) :
    ∃ frames : List (StreamFrame ids.termLength),
      frames.Pairwise (fun f g => f.stop ≤ g.start) ∧
      (∀ f ∈ frames, s.Commits f) ∧
      ∀ r ∈ rs, r.isData = true → ∃ f ∈ frames, f.record = r := by
  have htiles := h.published.tiles
  rw [show s.network.termLength = ids.termLength by rw [← h.ids_eq, s.network.ids_termLength]]
    at htiles
  obtain ⟨-, frames, hmap, hsorted, -⟩ := htiles.exists_frames (Nat.dvd_zero 32)
  refine ⟨frames, hsorted, fun f hf => ?_, fun r hr hdata => ?_⟩
  · have hrec : f.record ∈ frames.map StreamFrame.record := List.mem_map_of_mem hf
    rw [hmap] at hrec
    exact (h.commits_iff f).mpr (List.mem_of_mem_filter hrec)
  · have hrec : r ∈ frames.map StreamFrame.record := by
      rw [hmap]
      exact List.mem_filter.mpr ⟨hr, hdata⟩
    exact List.mem_map.mp hrec

/-- **The committed frames as a stream.** -/
theorem Logged.exists_stream (h : s.Logged ids rs n) :
    ∃ stream : HonestStream ids.termLength, ∀ f, f ∈ stream.frames ↔ s.Commits f := by
  obtain ⟨frames, hsorted, hcommits, hall⟩ := h.exists_frames
  refine ⟨HonestStream.ofSorted frames hsorted, fun f => ⟨hcommits f, fun hf => ?_⟩⟩
  obtain ⟨g, hg, heq⟩ := hall f.record ((h.commits_iff f).mp hf) rfl
  have hsame : g = f := by
    obtain ⟨start, payload, _, _⟩ := g
    obtain ⟨start', payload', _, _⟩ := f
    simp only [StreamFrame.record, LogRecord.data.injEq] at heq
    obtain ⟨rfl, rfl⟩ := heq
    rfl
  exact hsame ▸ hg

/-- **A position before a committed frame of its term is inside no record**, if it is inside no
committed frame: a pad would cover the frame too. -/
theorem Logged.between (h : s.Logged ids rs n) {q : Nat} {f : StreamFrame ids.termLength}
    (hf : s.Commits f) (hterm : f.term * ids.termLength ≤ q) (hlt : q < f.start)
    (hq : ∀ g : StreamFrame ids.termLength, s.Commits g → g.stop ≤ q ∨ q ≤ g.start) :
    Between LogRecord.start LogRecord.stop rs q := by
  intro r hr
  cases hdata : r.isData with
  | true =>
      obtain ⟨frames, -, hcommits, hall⟩ := h.exists_frames
      obtain ⟨g, hg, rfl⟩ := hall r hr hdata
      -- a data record is a committed frame
      exact hq g (hcommits g hg)
  | false =>
      by_contra hinside
      rw [not_or, Nat.not_le, Nat.not_le] at hinside
      obtain ⟨k, hk⟩ := h.published.pads r hr hdata
      rw [show s.network.termLength = ids.termLength by rw [← h.ids_eq, s.network.ids_termLength],
        Nat.mul_comm] at hk
      have hstop := f.term_bounds.2
      have hpos := f.start_lt_stop
      rcases apart_of_pairwise h.published.tiles.pairwise r hr f.record ((h.commits_iff f).mp hf) with
        rfl | hbefore | hafter
      · cases hdata
      · -- the pad ends with a term, after the position and before the frame
        have hbefore' : r.stop ≤ f.start := hbefore
        have hle : k ≤ f.term := by
          apply Nat.le_of_lt_succ
          apply Nat.lt_of_mul_lt_mul_right (a := ids.termLength)
          rw [Nat.succ_mul]
          omega
        have hmul := Nat.mul_le_mul_right ids.termLength hle
        omega
      · have hafter' : f.stop ≤ r.start := hafter
        omega

end PubRun

/-! ## On the way -/

/-- Every data frame of the stream that `on_message` reads from a datagram is handed to the image in
the course of the actions. -/
def ReachesOnData (ids : StreamIds) (datagram : List UInt8)
    (as : List (ImageAction ids.termLength)) : Prop :=
  ∀ (ep : ReceiveChannelEndpoint) (source : SockAddr) (f : ReceivedFrame),
    (ep.onMessage datagram source).2.1 = some (.onData f) →
    f.header.frameHeader.frameType = frameTypeData →
    f.header.sessionId = ids.sessionId → f.header.streamId = ids.streamId →
    ∃ handler g, ImageAction.data handler g ∈ as ∧ g.header ids = f.header ∧ g.payload = f.payload

theorem StreamFrame.eq_of_header {ids : StreamIds} {f g : StreamFrame ids.termLength}
    (hT : ids.termLength ≤ 2 ^ 31) (hf : f.term < 2 ^ 31) (hg : g.term < 2 ^ 31)
    (hheader : f.header ids = g.header ids) (hpayload : f.payload = g.payload) : f = g := by
  have hfit : f.start % ids.termLength + f.length ≤ ids.termLength := f.inTerm
  have hfit' : g.start % ids.termLength + g.length ≤ ids.termLength := g.inTerm
  have hterm : f.term = g.term :=
    (add_ofNat_inj ids.initialTermId (by omega) (by omega)).mp (congrArg DataHeader.termId hheader)
  have hoffset : f.start % ids.termLength = g.start % ids.termLength := by
    have := congrArg (fun h => h.termOffset.toNat) hheader
    simp only [StreamFrame.header, StreamFrame.record, LogRecord.header, BitVec.toNat_ofNat] at this
    rwa [Nat.mod_eq_of_lt (show f.start % ids.termLength < 2 ^ 32 by omega),
      Nat.mod_eq_of_lt (show g.start % ids.termLength < 2 ^ 32 by omega)] at this
  have hstart : f.start = g.start := by
    rw [← Nat.div_add_mod' f.start ids.termLength, ← Nat.div_add_mod' g.start ids.termLength, hoffset]
    exact congrArg (fun t => t * ids.termLength + _) hterm
  obtain ⟨start, payload, _, _⟩ := f
  obtain ⟨start', payload', _, _⟩ := g
  obtain rfl : start = start' := hstart
  obtain rfl : payload = payload' := hpayload
  rfl

theorem StreamFrame.onMessage_bytes {ids : StreamIds} (f : StreamFrame ids.termLength)
    (hlt : 32 + f.payload.length < 2 ^ 31) (ep : ReceiveChannelEndpoint) (source : SockAddr) :
    (ep.onMessage (f.bytes ids) source).2.1 = some (.onData ⟨f.header ids, f.payload, hlt⟩) := by
  have hbytes : f.bytes ids = (f.header ids).encode ++ f.payload := rfl
  rw [hbytes]
  exact ep.onMessage_data rfl rfl hlt source

theorem ReachesOnData.arrives {ids : StreamIds} {f : StreamFrame ids.termLength}
    {as : List (ImageAction ids.termLength)} (h : ReachesOnData ids (f.bytes ids) as)
    (hT : ids.termLength ≤ 2 ^ 30) (hf : f.term < 2 ^ 31)
    (has : ∀ handler g, ImageAction.data handler g ∈ as → g.term < 2 ^ 31) :
    ∃ handler, ImageAction.data handler f ∈ as := by
  have hfit := f.length_le
  have hlen := f.length_ge
  let ep : ReceiveChannelEndpoint := ⟨none, 0, [], [], [], fun _ => []⟩
  obtain ⟨handler, g, hmem, hheader, hpayload⟩ := h ep ⟨0, []⟩ _
    (f.onMessage_bytes (by omega) ep ⟨0, []⟩) rfl rfl rfl
  obtain rfl := StreamFrame.eq_of_header (by omega) (has handler g hmem) hf hheader hpayload
  exact ⟨handler, hmem⟩

/-! ## The gap -/

namespace PendingNak

/-- The stream position at which the range of a NAK starts. -/
def start (ids : StreamIds) (nak : PendingNak) : Nat :=
  (nak.activeTermId - ids.initialTermId).toNat * ids.termLength + nak.termOffset.toNat

def Asks (ids : StreamIds) (nak : PendingNak) {T : Nat} (g : StreamFrame T) : Prop :=
  nak.start ids ≤ g.start ∧ g.start < nak.start ids + nak.length.toNat

instance (ids : StreamIds) (nak : PendingNak) {T : Nat} (g : StreamFrame T) :
    Decidable (nak.Asks ids g) :=
  inferInstanceAs (Decidable (_ ∧ _))

end PendingNak

/-- **The gap before a frame.** The NAK for it asks for what lies between the place where the image
waits and the frame, in the frame's own term. -/
theorem ImageRun.Awaits.gapNak_eq {ids : StreamIds} {stream : HonestStream ids.termLength}
    {s : ImageRun ids} {A : Nat} (h : s.Awaits stream A) {f : StreamFrame ids.termLength}
    (hterm : f.term < 2 ^ 31) (hgap : s.state.entry.HasGap (f.header ids)) :
    let nak := s.state.entry.gapNak (f.header ids)
    f.term = A ∧ nak.activeTermId = ids.initialTermId + BitVec.ofNat 32 A ∧
      nak.start ids = A * ids.termLength + s.state.entry.expectedTermOffset.toNat ∧
      nak.start ids + nak.length.toNat = f.start ∧ nak.start ids < f.start := by
  have hT := h.holds.termLength_le
  have hA := h.holds.active_lt
  have hle := h.expected_le
  have hfit : f.start % ids.termLength + f.length ≤ ids.termLength := f.inTerm
  obtain ⟨hpos, -, hsame⟩ := hgap
  have hactive : f.term = A := by
    have hid : (f.header ids).termId = ids.initialTermId + BitVec.ofNat 32 f.term := rfl
    rw [h.holds.active, hid] at hsame
    exact (add_ofNat_inj _ (by omega) (by omega)).mp hsame
  -- both offsets are small, so the wrapped difference is the difference
  set o := s.state.entry.expectedTermOffset.toNat with ho
  have hdiff : (f.header ids).termOffset - s.state.entry.expectedTermOffset =
      BitVec.ofNat 32 (f.start % ids.termLength) - BitVec.ofNat 32 o := by
    rw [ho, BitVec.ofNat_toNat, BitVec.setWidth_eq]
    rfl
  rw [hdiff, toInt_ofNat_sub_ofNat (by omega) (by omega)] at hpos
  have hlength : ((f.header ids).termOffset - s.state.entry.expectedTermOffset).toNat =
      f.start % ids.termLength - o := by
    rw [hdiff, BitVec.toNat_sub, BitVec.toNat_ofNat, BitVec.toNat_ofNat]
    omega
  have hstart : PendingNak.start ids (s.state.entry.gapNak (f.header ids)) =
      A * ids.termLength + o := by
    unfold PendingNak.start ImageEntry.gapNak
    dsimp only
    rw [h.holds.active, BitVec.add_comm, BitVec.add_sub_cancel, BitVec.toNat_ofNat,
      Nat.mod_eq_of_lt (by omega)]
  have hdiv := Nat.div_add_mod' f.start ids.termLength
  have hterm' : f.start / ids.termLength = A := hactive
  rw [hterm'] at hdiv
  intro nak
  refine ⟨hactive, h.holds.active, hstart, ?_, ?_⟩
  · rw [hstart, show nak.length.toNat = _ from hlength]
    omega
  · rw [hstart]
    omega

/-- **A gap and its repair**: the publisher when the request fires, the image when the frame behind the
gap arrives, what arrives after it, and the sender with its scheduler. -/
structure RepairRun (ids : StreamIds) where
  publisher : PubRun
  image : ImageRun ids
  handler : InlineHandler
  frame : StreamFrame ids.termLength
  after : List (ImageAction ids.termLength)
  agent : SenderAgent
  table : RetransmitHandler
  nowNs : Int

namespace RepairRun

variable {ids : StreamIds}

def nak (r : RepairRun ids) : PendingNak := r.image.state.entry.gapNak (r.frame.header ids)

def final (r : RepairRun ids) : ImageRun ids :=
  run ImageRun.step r.image (.data r.handler r.frame :: r.after)

/-- **The NAK is answered**: it is queued, its request fires, the agent has the publication, whose log
still has the term of the gap, and the datagrams that are sent reach `on_data`. -/
structure Answered (r : RepairRun ids) (e : PublicationEntry) : Prop where
  reports : r.image.state.entry.Reports r.handler (r.frame.header ids)
  fires : r.nak.frame.request ∈ (r.table.processTimeouts r.nowNs).2
  finds : ∃ pubIdx, r.agent.findPublication r.nak.sessionId r.nak.streamId = some (e, pubIdx)
  publication : e.publication = r.publisher.publication
  endpoint : ∃ ep, r.agent.endpoints[e.endpointIdx]? = some ep
  held : ¬ r.publisher.network.Overwritten r.nak.activeTermId
  reaches : ∀ ev ∈ (r.agent.doRetransmit r.table r.nowNs).events,
    ReachesOnData ids ev.bytes r.after

/-- **One answer is enough**: the request is in range, no frame of the gap starts an `mtu` or more
behind its beginning, and no frame more than three terms after it arrives. -/
structure Covered (r : RepairRun ids) (e : PublicationEntry) : Prop where
  inRange : e.InTermBuffer r.nak.frame.request
  short : ∀ g : StreamFrame ids.termLength, r.publisher.Commits g → r.nak.Asks ids g →
    g.start < r.nak.start ids + e.mtu
  near : ∀ a ∈ r.after, ImageRun.UpTo (r.frame.term + 3) a

/-- **The gap is repaired**: the image's log has every frame that the publisher has committed in it. -/
def Repaired (r : RepairRun ids) : Prop :=
  ∀ g : StreamFrame ids.termLength, r.publisher.Commits g → r.nak.Asks ids g →
    r.final.buffer.read (slotOf 4 ids.termLength g.start) (32 + g.payload.length) = g.bytes ids

/-- A committed frame of the gap is among the frames that the sender submits. -/
theorem mem_retransmits {r : RepairRun ids} {stream : HonestStream ids.termLength} {A n : Nat}
    {rs : List LogRecord} (himage : r.image.Awaits stream A) (hlog : r.publisher.Logged ids rs n)
    (hcommits : ∀ g, r.publisher.Commits g → g ∈ stream.frames) (hsent : r.publisher.Commits r.frame)
    {e : PublicationEntry} (hanswered : r.Answered e) (hcovered : r.Covered e)
    {g : StreamFrame ids.termLength} (hg : r.publisher.Commits g) (hasks : r.nak.Asks ids g) :
    g.bytes ids ∈ r.agent.retransmits r.nak.frame.request := by
  obtain ⟨hfterm, hfstop⟩ := hlog.term_le hsent
  have hlt := hlog.published.cursor.termCount_lt
  obtain ⟨hterm, htermId, hstart, hend, hbefore⟩ :=
    himage.gapNak_eq (f := r.frame) (by omega) hanswered.reports.1
  have hnet : e.publication.toNetwork = r.publisher.network := by
    rw [hanswered.publication]
    rfl
  have hheld := mt (hlog.overwritten_iff htermId (by omega)).mpr hanswered.held
  have hbounds := r.frame.term_bounds
  have hpos := r.frame.start_lt_stop
  rw [hterm] at hbounds
  have hq : Between LogRecord.start LogRecord.stop rs (r.nak.start ids) := by
    refine hlog.between hsent ?_ hbefore fun g' hg' => ?_
    · rw [hterm]
      exact Nat.le_trans (Nat.le_add_right _ _) hstart.ge
    · have := himage.boundary g' (hcommits g' hg')
      rwa [← hstart] at this
  have hframes := hlog.retransmitFrames_eq hnet hcovered.inRange htermId (by omega)
    (Nat.lt_of_not_le hheld) (hstart ▸ by omega) (hstart ▸ hq)
  obtain ⟨pubIdx, hfind⟩ := hanswered.finds
  obtain ⟨ep, hep⟩ := hanswered.endpoint
  rw [SenderAgent.retransmits_of_find hfind hep, hframes, List.map_map]
  refine List.mem_map.mpr ⟨g.record, List.mem_filter.mpr ⟨(hlog.commits_iff g).mp hg, ?_⟩, rfl⟩
  -- the frame starts within the limit, which is the length of the gap or the `mtu`
  have hshort := hcovered.short g hg hasks
  obtain ⟨hlo, hhi⟩ := hasks
  have hlimit : g.start < r.nak.start ids + e.retransmitLimit r.nak.frame.request := by
    unfold PublicationEntry.retransmitLimit
    split_ifs
    · exact hhi
    · exact hshort
  refine decide_eq_true ⟨hstart ▸ hlo, ?_, hstart ▸ hlimit⟩
  exact Nat.lt_of_lt_of_le (Nat.lt_trans (hend ▸ hhi) hpos) hbounds.2

/-- **What is answered is stored.** -/
theorem repaired {r : RepairRun ids} {stream : HonestStream ids.termLength} {A n : Nat}
    {rs : List LogRecord} (himage : r.image.Awaits stream A) (hlog : r.publisher.Logged ids rs n)
    (hcommits : ∀ g, r.publisher.Commits g → g ∈ stream.frames) (hsent : r.publisher.Commits r.frame)
    (hstream : ∀ a ∈ ImageAction.data r.handler r.frame :: r.after, ImageRun.FromStream stream a)
    {e : PublicationEntry} (hanswered : r.Answered e) (hcovered : r.Covered e) : r.Repaired := by
  intro g hg hasks
  have hT := himage.holds.termLength_le
  have hlt := hlog.published.cursor.termCount_lt
  have hgterm := (hlog.term_le hg).1
  have hfterm := (hlog.term_le hsent).1
  obtain ⟨hterm, -, hstart, hend, -⟩ :=
    himage.gapNak_eq (f := r.frame) (by omega) hanswered.reports.1
  -- the frame is of the term of the gap
  have hsame : g.term = A := by
    have hbounds := r.frame.term_bounds
    have hpos := r.frame.start_lt_stop
    rw [hterm] at hbounds
    obtain ⟨hlo, hhi⟩ := hasks
    rw [show r.nak.start ids + r.nak.length.toNat = r.frame.start from hend] at hhi
    rw [show r.nak.start ids = _ from hstart] at hlo
    exact Nat.div_eq_of_lt_le (by omega) (by rw [Nat.succ_mul]; omega)
  have hmem := mem_retransmits himage hlog hcommits hsent hanswered hcovered hg hasks
  have hevents : g.bytes ids ∈
      (r.agent.doRetransmit r.table r.nowNs).events.map SendEvent.bytes := by
    rw [r.agent.doRetransmit_events]
    exact List.mem_flatMap.mpr ⟨_, hanswered.fires, hmem⟩
  obtain ⟨ev, hev, hbytes⟩ := List.mem_map.mp hevents
  have hreaches := hanswered.reaches ev hev
  rw [hbytes] at hreaches
  obtain ⟨handler, harrives⟩ := hreaches.arrives hT (by omega) fun handler g' hg' =>
    (hstream _ (List.mem_cons_of_mem _ hg')).2
  refine himage.read_of_arrived hstream (List.mem_cons_of_mem _ harrives) hsame ?_
  rw [← hterm]
  exact List.forall_mem_cons.mpr ⟨Nat.le_add_right _ 3, hcovered.near⟩

end RepairRun

/-- **A gap is repaired**, for every publisher of either kind, every image of its stream that was
created between two of its frames, and every gap before a frame that the image receives: if the NAK
is answered and one answer is enough, the log of the image has every committed frame of the gap. -/
theorem gap_repaired {crossThread : Bool} {sessionId streamId initialTermId : BitVec 32}
    {termLength mtu : Nat} {p : Publication}
    (hnew : Publication.create crossThread sessionId streamId initialTermId termLength mtu = some p)
    {offers later : List PubAction}
    (hsized : Meets PubRun.Sized PubRun.step (PubRun.start p) (offers ++ later))
    {handler : InlineHandler} {setup : SetupHeader} {source : SockAddr} {image : ImageState}
    (hsetup : ImageState.onSetup handler setup source = some image)
    (hids : setup.ids = ⟨initialTermId, sessionId, streamId, termLength⟩)
    (hactive : setup.activeTerm < 2 ^ 31) (hoffset : setup.termOffset.toNat ≤ setup.ids.termLength)
    (hboundary : ∀ g : StreamFrame setup.ids.termLength,
      (run PubRun.step (PubRun.start p) (offers ++ later)).Commits g →
        g.stop ≤ setup.position ∨ setup.position ≤ g.start)
    {before : List (ImageAction setup.ids.termLength)} {r : RepairRun setup.ids}
    (hpublisher : r.publisher = run PubRun.step (PubRun.start p) offers)
    (himage : r.image = run ImageRun.step (ImageRun.start setup.ids image) before)
    (hreceived : ∀ handler g,
      ImageAction.data handler g ∈ before ++ .data r.handler r.frame :: r.after →
        (run PubRun.step (PubRun.start p) (offers ++ later)).Commits g)
    (hsent : r.publisher.Commits r.frame) {e : PublicationEntry} (hanswered : r.Answered e)
    (hcovered : r.Covered e) : r.Repaired := by
  obtain ⟨hearly, -⟩ := meets_append.mp hsized
  obtain ⟨rs, n, hlog⟩ := PubRun.logged_run hnew hearly
  obtain ⟨rs', n', hlog'⟩ := PubRun.logged_run hnew hsized
  rw [← hids] at hlog hlog'
  -- the frames of the whole run, also those offered later, are one honest stream
  obtain ⟨stream, hframes⟩ := hlog'.exists_stream
  have hcommits : ∀ g, r.publisher.Commits g → g ∈ stream.frames := by
    intro g hg
    rw [hframes, run_append]
    rw [hpublisher] at hg
    exact hg.run later
  have hstream : ∀ a ∈ before ++ .data r.handler r.frame :: r.after,
      ImageRun.FromStream stream a := by
    intro a ha
    cases a with
    | data handler g =>
        have hg := hreceived handler g ha
        have hlt := hlog'.published.cursor.termCount_lt
        exact ⟨(hframes g).mpr hg, Nat.lt_of_le_of_lt (hlog'.term_le hg).1 hlt⟩
    | poll limit => trivial
  have hbetween : FrameBoundary stream.frames setup.position := fun g hg =>
    hboundary g ((hframes g).mp hg)
  have hstart := ImageRun.awaits_onSetup hsetup hactive hoffset hbetween
  -- what is known of the image when the gap is noticed
  obtain ⟨A, -, -, hawaits, -⟩ := hstart.run fun a ha => hstream a (List.mem_append_left _ ha)
  rw [← himage] at hawaits
  rw [← hpublisher] at hlog
  exact RepairRun.repaired hawaits hlog hcommits hsent
    (fun a ha => hstream a (List.mem_append_right _ ha)) hanswered hcovered

theorem reachesOnData_bytes {ids : StreamIds} {f : StreamFrame ids.termLength}
    {as : List (ImageAction ids.termLength)} {handler : InlineHandler}
    (hlt : 32 + f.payload.length < 2 ^ 31) (h : ImageAction.data handler f ∈ as) :
    ReachesOnData ids (f.bytes ids) as := by
  intro ep source g hg _ _ _
  have hcall := f.onMessage_bytes hlt ep source
  obtain rfl := HandlerCall.onData.inj (Option.some.inj (hcall.symm.trans hg))
  exact ⟨handler, f, h, rfl, rfl⟩

namespace RepairRun

def setup : SetupHeader := { ImageRun.smallSetup with termLength := 256, mtu := 64 }

/-- The frame at position `64 * i`, with 32 bytes of payload. -/
def frameNo (i : Nat) : StreamFrame setup.ids.termLength where
  start := 64 * i
  payload := List.replicate 32 (UInt8.ofNat i)
  aligned := ImageRun.aligned_of_64 i
  inTerm := by
    have hlen : setup.ids.termLength = 256 := rfl
    have halign : alignFrameLength (32 + 32) = 64 := by decide
    rw [hlen, List.length_replicate, halign]
    omega

/-- The first three of these frames are offered and sent. -/
def threeOffers : List PubAction :=
  [.offer (List.replicate 32 0), .offer (List.replicate 32 1), .offer (List.replicate 32 2),
    .scan 192]

/-- A publication with an `mtu` of one frame. -/
def narrow : Publication := (Publication.create false 7 1 5 256 64).get rfl

/-- A publication with an `mtu` of two frames. -/
def wide : Publication := (Publication.create false 7 1 5 256 128).get rfl

def threeSent (p : Publication) : PubRun := run PubRun.step (PubRun.start p) threeOffers

def newImage : ImageState := (ImageState.onSetup ImageRun.quietHandler setup ⟨2, []⟩).get rfl

/-- The frame that arrives first is number `i`. The NAK for the gap before it goes to the sender and
fires at once, and the frames with the given numbers come back. -/
def firstArrives (p : Publication) (i : Nat) (back : List Nat) : RepairRun setup.ids where
  publisher := threeSent p
  image := ImageRun.start setup.ids newImage
  handler := ImageRun.quietHandler
  frame := frameNo i
  after := back.map fun k => .data ImageRun.quietHandler (frameNo k)
  agent := SenderAgent.ofPublication (threeSent p).publication
  table := ((RetransmitHandler.new 0 0).onNak
    (newImage.entry.gapNak ((frameNo i).header setup.ids)).frame 0).1
  nowNs := 0

theorem answered_firstArrives {p : Publication} {i : Nat} {back : List Nat}
    (hsession : (threeSent p).publication.toNetwork.sessionId = 7)
    (hstream : (threeSent p).publication.toNetwork.streamId = 1)
    (hheld : ¬ (threeSent p).network.Overwritten newImage.entry.activeTermId)
    (hreports : newImage.entry.Reports ImageRun.quietHandler ((frameNo i).header setup.ids))
    (hfires : (firstArrives p i back).nak.frame.request ∈
      ((firstArrives p i back).table.processTimeouts 0).2)
    (hsent : ((firstArrives p i back).agent.doRetransmit
      (firstArrives p i back).table 0).events.map SendEvent.bytes =
        back.map fun k => (frameNo k).bytes setup.ids) :
    (firstArrives p i back).Answered (.new (threeSent p).publication 0) := by
  refine ⟨hreports, hfires, ⟨0, ?_⟩, rfl, ⟨_, rfl⟩, hheld, fun ev hev => ?_⟩
  · exact SenderAgent.findPublication_ofPublication hsession hstream
  · have hbytes : ev.bytes ∈ back.map fun k => (frameNo k).bytes setup.ids :=
      hsent ▸ List.mem_map_of_mem hev
    obtain ⟨k, hk, heq⟩ := List.mem_map.mp hbytes
    rw [← heq]
    exact reachesOnData_bytes (by simp [frameNo]) (List.mem_map_of_mem hk)

/-- The gap before frame number 2 is two frames, which both come back. -/
theorem gap_repaired_two :
    (firstArrives wide 2 [0, 1]).Repaired ∧
      ∀ k < 2, (firstArrives wide 2 [0, 1]).publisher.Commits (frameNo k) ∧
        (firstArrives wide 2 [0, 1]).nak.Asks setup.ids (frameNo k) := by
  have hcovered : (firstArrives wide 2 [0, 1]).Covered (.new (threeSent wide).publication 0) := by
    have hlength : (firstArrives wide 2 [0, 1]).nak.length.toNat = 128 := by decide +kernel
    have hmtu : (PublicationEntry.new (threeSent wide).publication 0).mtu = 128 := by decide +kernel
    refine ⟨by decide +kernel, fun g _ hasks => ?_, by decide +kernel⟩
    rw [hmtu, ← hlength]
    exact hasks.2
  have hanswered := @answered_firstArrives wide 2 [0, 1] (by decide +kernel) (by decide +kernel)
    (by decide +kernel) (by decide +kernel) (by decide +kernel) (by decide +kernel)
  have hsized : Meets PubRun.Sized PubRun.step (PubRun.start wide) (threeOffers ++ []) := by
    decide +kernel
  have hreceived : ∀ handler g, ImageAction.data handler g ∈
      [] ++ ImageAction.data (firstArrives wide 2 [0, 1]).handler
        (firstArrives wide 2 [0, 1]).frame :: (firstArrives wide 2 [0, 1]).after →
        (threeSent wide).Commits g := by
    intro handler g hg
    have hall : ∀ k < 3, (threeSent wide).Commits (frameNo k) := by decide +kernel
    have hframes : (handler = ImageRun.quietHandler ∧ g = frameNo 2) ∨
        (handler = ImageRun.quietHandler ∧ g = frameNo 0) ∨
        (handler = ImageRun.quietHandler ∧ g = frameNo 1) := by
      simpa [firstArrives] using hg
    rcases hframes with ⟨_, rfl⟩ | ⟨_, rfl⟩ | ⟨_, rfl⟩
    · exact hall 2 (by decide)
    · exact hall 0 (by decide)
    · exact hall 1 (by decide)
  refine ⟨?_, by decide +kernel⟩
  exact gap_repaired (Option.some_get _).symm hsized (Option.some_get _).symm rfl (by decide)
    (by decide) (fun g _ => .inr (Nat.zero_le _)) rfl rfl hreceived (by decide +kernel) hanswered
    hcovered

/-- **A gap that is not repaired.** Frame number 2 arrives first, and the NAK asks for the 128 bytes
before it. The scan that answers it stops after one `mtu` of 64 bytes: frame number 0 comes back and
number 1 does not. The image then waits behind frame number 2 and does not ask again. -/
theorem gap_not_repaired :
    let r := firstArrives narrow 2 [0]
    r.Answered (.new (threeSent narrow).publication 0) ∧
      r.nak = ⟨⟨2, []⟩, 7, 1, 5, 0, 128⟩ ∧
      r.publisher.Commits (frameNo 1) ∧ r.nak.Asks setup.ids (frameNo 1) ∧
      r.final.buffer.readI32 64 = 0 ∧
      r.final.state.entry.expectedTermOffset = 192 ∧ ¬ r.Repaired := by
  intro r
  have hcommits : r.publisher.Commits (frameNo 1) := by decide +kernel
  have hasks : r.nak.Asks setup.ids (frameNo 1) := by decide +kernel
  refine ⟨answered_firstArrives (by decide +kernel) (by decide +kernel) (by decide +kernel)
    (by decide +kernel) (by decide +kernel) (by decide +kernel), by decide +kernel, hcommits, hasks,
    by decide +kernel, by decide +kernel, fun hrepaired => ?_⟩
  exact absurd (hrepaired (frameNo 1) hcommits hasks) (by decide +kernel)

end RepairRun

end AeronRs
