import Mathlib.Data.List.Sort
import AeronRs.Agent.GapRepair
import AeronRs.Agent.Handshake
import AeronRs.Media.FrameCodecs

/-! # From the publisher to the subscriber

A publication, the agent that sends it, a network that loses, repeats and reorders datagrams, the
endpoint that reads them, the image of the stream and its subscriber, as one system. What travels is
bytes: the sender's frames are encoded, and a datagram that arrives goes through `on_message`.

* **`PipelineRun`** keeps the offers that were accepted, each with the position that it returned, and
  the fragments that were delivered.
* **`Carries`** is what every step keeps. The image is a run of its own (`Tracks`), started by a setup
  frame of the publication and fed with frames that were sent; the stream of the publication holds the
  accepted offers; and every setup frame names a position at which no record is cut.
* **`delivered_sublist_accepted`** puts these together: what the subscriber sees is a subsequence of
  what was offered. -/

namespace AeronRs

open Runs

def Emission.bytes : Emission → List UInt8
  | setup header => header.encode
  | data bytes => bytes

/-- The datagrams of a publication: the setup and data frames that the poller has taken. Its heartbeats
and RTTM requests reach no image: `on_message` ignores the former and answers the latter itself. -/
def SenderRun.datagrams (i : Nat) (s : SenderRun) : List (List UInt8) :=
  (s.emissions i).map Emission.bytes

/-- A fragment as the offer that published it: the position behind its frame, which `offer` returned,
and its payload. -/
def Fragment.offered (d : Fragment) : Int × List UInt8 :=
  (d.position + alignFrameLength (32 + d.payload.length), d.payload)

theorem ReceiveChannelEndpoint.onMessage_setup (ep : ReceiveChannelEndpoint) (source : SockAddr)
    {setup : SetupHeader} (htype : setup.frameHeader.frameType = frameTypeSetup) :
    (ep.onMessage setup.encode source).2.1 = some (.onSetup setup) := by
  have hfield : FrameType.ofField setup.frameHeader.frameType = .setup := by
    rw [htype]
    rfl
  unfold onMessage
  simp only [setup.parse_frameHeader, hfield, setup.parse_encode]

/-! ## The records of a stream -/

def StreamLog.records (l : StreamLog) : List LogRecord := l.sent ++ (l.pending ++ l.tail)

namespace SenderRun

variable {ids : StreamIds} {i : Nat} {s : SenderRun} {e : PublicationEntry} {l l' : StreamLog}
  {n b pub : Nat} {a : SenderAction} {taken new : List LogRecord}

theorem Advances.records (h : Advances ids i s a e l l' n taken new) :
    l'.records = l.records ++ new := by
  unfold StreamLog.records
  rw [h.sent, List.append_assoc, h.unsent, ← List.append_assoc]

namespace Streams

theorem tiles_records (h : s.Streams ids i e l n b pub) :
    Tiles ids.termLength 0 l.records
      (n * ids.termLength + e.publication.toNetwork.termOffset) := by
  have hsent := h.represents.tiles_sent
  have hunsent := h.represents.tiles_unsent
  rw [h.termLength_eq] at hsent hunsent
  exact tiles_append.mpr ⟨b, hsent, hunsent⟩

/-- **A data frame that was handed over** is a frame of the stream, sent before, whose length is a
positive 32-bit number. -/
theorem exists_sent (h : s.Streams ids i e l n b pub) {bytes : List UInt8}
    (hattempt : .data bytes ∈ s.attempts i) :
    ∃ f : StreamFrame ids.termLength, bytes = f.bytes ids ∧ f.record ∈ l.sent ∧
      f.term < 2 ^ 31 ∧ 32 + f.payload.length < 2 ^ 31 := by
  have hmem : bytes ∈ (s.attempts i).filterMap Emission.dataBytes :=
    Emission.mem_filterMap_dataBytes.mpr hattempt
  rw [h.data] at hmem
  obtain ⟨r, hr, rfl⟩ := List.mem_map.mp hmem
  have htiles := h.represents.tiles_sent
  rw [h.termLength_eq] at htiles
  obtain ⟨-, frames, hframes, -, hbounds⟩ := htiles.exists_frames (Nat.dvd_zero 32)
  rw [← hframes] at hr
  obtain ⟨f, hf, rfl⟩ := List.mem_map.mp hr
  have hsent : f.record ∈ l.sent := by
    have hmem : f.record ∈ l.sent.filter LogRecord.isData := by
      rw [← hframes]
      exact List.mem_map_of_mem hf
    exact List.mem_of_mem_filter hmem
  exact ⟨f, rfl, hsent, h.term_lt (hbounds f hf).2, (htiles.mem hsent).1.lt⟩

end Streams

/-! ## Where setup frames place an image -/

/-- **A setup frame of the stream**: it names a position up to the write cursor at which no record is
cut. -/
structure Placed (ids : StreamIds) (setup : SetupHeader) (records : List LogRecord) (cursor : Nat) :
    Prop where
  type_eq : setup.frameHeader.frameType = frameTypeSetup
  ids_eq : setup.ids = ids
  offset_le : setup.termOffset.toNat ≤ ids.termLength
  offset_dvd : 32 ∣ setup.termOffset.toNat
  position_le : setup.position ≤ cursor
  uncut : ∀ r ∈ records, r.start + r.length ≤ setup.position ∨ setup.position ≤ r.start

/-- A setup frame stays placed when records are added behind the cursor. -/
theorem Placed.grow {setup : SetupHeader} {records : List LogRecord} {cursor cursor' : Nat}
    (h : Placed ids setup records cursor) (hcursor : cursor ≤ cursor')
    (hnew : ∀ r ∈ new, cursor ≤ r.start) : Placed ids setup (records ++ new) cursor' := by
  refine ⟨h.type_eq, h.ids_eq, h.offset_le, h.offset_dvd, Nat.le_trans h.position_le hcursor, ?_⟩
  intro r hr
  rcases List.mem_append.mp hr with hold | hadded
  · exact h.uncut r hold
  · exact .inr (Nat.le_trans h.position_le (hnew r hadded))

/-- **The setup frame of a publication is placed**, at the write cursor or at the published
position. -/
theorem Streams.placed (h : s.Streams ids i e l n b pub) :
    Placed ids e.setupFrame l.records
      (n * ids.termLength + e.publication.toNetwork.termOffset) := by
  obtain ⟨hids, hoffset, hdvd, hplace⟩ := h.setupFrame_place
  have hle := h.represents.le.2
  have hsent := h.represents.tiles_sent
  have hpending := h.represents.tiles_pending
  have htail := h.represents.tiles_tail
  rw [h.termLength_eq] at hle hsent hpending htail
  refine ⟨rfl, hids, hoffset, hdvd, by omega, fun r hr => ?_⟩
  -- the records before the published position end there, the pads behind it start there
  have hsplit : r ∈ l.sent ∨ r ∈ l.pending ∨ r ∈ l.tail := by
    simpa only [StreamLog.records, List.mem_append] using hr
  have hmono := h.represents.le.1
  rcases hsplit with hmem | hmem | hmem
  · have := (hsent.mem hmem).2
    omega
  · have := (hpending.mem hmem).2
    omega
  · have := (htail.mem hmem).2
    omega

/-- A setup frame among what an action hands over is that of the publication. -/
theorem Advances.setup_eq (h : Advances ids i s a e l l' n taken new) {setup : SetupHeader}
    (hattempt : .setup setup ∈ (s.step a).attempts i) :
    .setup setup ∈ s.attempts i ∨ setup = e.setupFrame := by
  rw [h.attempts, List.mem_append, List.mem_append] at hattempt
  rcases hattempt with hold | hdue | hdata
  · exact .inl hold
  · unfold setupsOf PublicationEntry.dueSetup at hdue
    split at hdue
    · split_ifs at hdue with hset
      · exact .inr (Emission.setup.inj (List.mem_singleton.mp hdue))
      · cases hdue
    · cases hdue
  · obtain ⟨r, -, hr⟩ := List.mem_map.mp hdata
    cases hr

end SenderRun

/-! ## The system -/

/-- The state: the sender agent, the offers accepted by the publication, the datagrams that have
arrived, the image, if there is one, and the fragments delivered. -/
structure PipelineRun where
  sender : SenderRun
  accepted : List (Int × List UInt8)
  arrived : List (List UInt8)
  image : Option ImageState
  delivered : List Fragment

/-- What happens: an action of the sender agent, the arrival of a datagram at an endpoint of the
receiver, or a poll of the subscriber. -/
inductive PipelineAction
  | sender (action : SenderAction)
  | arrive (endpoint : ReceiveChannelEndpoint) (handler : InlineHandler) (source : SockAddr)
      (datagram : List UInt8)
  | poll (limit : Int)

namespace PipelineRun

variable {ids : StreamIds} {i : Nat}

/-- An agent before its first cycle, and no image yet. -/
def start (agent : SenderAgent) : PipelineRun := ⟨.start agent, [], [], none, []⟩

/-- A call of `on_message` to its handler. The first setup frame creates the image. -/
def handle (s : PipelineRun) (handler : InlineHandler) (source : SockAddr) :
    HandlerCall → PipelineRun
  | .onSetup setup =>
      if s.image = none then { s with image := ImageState.onSetup handler setup source } else s
  | .onData frame =>
      { s with image := s.image.map fun st => (st.onData handler frame.header frame.payload).1 }

/-- One action. A datagram arrives only if publication `i` has sent it, any number of times. -/
def step (i : Nat) (s : PipelineRun) : PipelineAction → PipelineRun
  | .sender a =>
      { s with sender := s.sender.step a, accepted := s.accepted ++ s.sender.acceptances i a }
  | .arrive endpoint handler source datagram =>
      if datagram ∈ s.sender.datagrams i then
        let s := { s with arrived := s.arrived ++ [datagram] }
        match (endpoint.onMessage datagram source).2.1 with
        | some call => s.handle handler source call
        | none => s
      else s
  | .poll limit =>
      match s.image with
      | some st =>
          { s with image := some (st.poll limit).1, delivered := s.delivered ++ (st.poll limit).2 }
      | none => s

theorem handle_eq (s : PipelineRun) (handler : InlineHandler) (source : SockAddr)
    (call : HandlerCall) : ∃ image, s.handle handler source call = { s with image := image } := by
  cases call with
  | onSetup setup =>
      unfold handle
      split_ifs
      · exact ⟨_, rfl⟩
      · exact ⟨s.image, rfl⟩
  | onData frame => exact ⟨_, rfl⟩

theorem step_arrive_eq {s : PipelineRun} {datagram : List UInt8}
    (h : datagram ∈ s.sender.datagrams i) (endpoint : ReceiveChannelEndpoint)
    (handler : InlineHandler) (source : SockAddr) :
    ∃ image, s.step i (.arrive endpoint handler source datagram) =
      { s with arrived := s.arrived ++ [datagram], image := image } := by
  unfold step
  dsimp only
  rw [if_pos h]
  split
  · obtain ⟨image, himage⟩ := handle_eq { s with arrived := s.arrived ++ [datagram] } handler source _
    exact ⟨image, himage⟩
  · exact ⟨s.image, rfl⟩

/-- A frame's term is at most three after the subscriber's, unless it is no later than the active
term. -/
def WithinThreeTerms (ids : StreamIds) (st : ImageState) (header : DataHeader) : Prop :=
  (header.termId - ids.initialTermId).toNat ≤
      (st.entry.activeTermId - st.entry.initialTermId).toNat ∨
    ((header.termId - ids.initialTermId).toNat : Int) ≤
      st.image.inner.subscriberPosition / ids.termLength + 3

instance (ids : StreamIds) (st : ImageState) (header : DataHeader) :
    Decidable (WithinThreeTerms ids st header) :=
  inferInstanceAs (Decidable (_ ∨ _))

/-- The condition on a call to the handler: an image starts within the range of the term counts, and
the receiver stays within three terms of the subscriber. -/
def ClearCall (ids : StreamIds) (s : PipelineRun) : HandlerCall → Prop
  | .onSetup setup => setup.activeTerm < 2 ^ 31
  | .onData frame => ∀ st ∈ s.image, WithinThreeTerms ids st frame.header

instance (ids : StreamIds) (s : PipelineRun) : (call : HandlerCall) → Decidable (s.ClearCall ids call)
  | .onSetup _ => inferInstanceAs (Decidable (_ < _))
  | .onData _ => inferInstanceAs (Decidable (∀ st ∈ s.image, _))

/-- The condition of a run: offers rotate clear of the sender, calls to the handler are clear, and no
poll finds a frame of four terms ago. -/
def Clear (ids : StreamIds) (i : Nat) (s : PipelineRun) : PipelineAction → Prop
  | .sender a => s.sender.OffersClear i a
  | .arrive endpoint _ source datagram =>
      ∀ call ∈ (endpoint.onMessage datagram source).2.1, s.ClearCall ids call
  | .poll limit => ∀ st ∈ s.image, (ImageRun.start ids st).PollsCommitted (.poll limit)

instance (ids : StreamIds) (i : Nat) (s : PipelineRun) :
    (a : PipelineAction) → Decidable (s.Clear ids i a)
  | .sender _ => inferInstanceAs (Decidable (SenderRun.OffersClear _ _ _))
  | .arrive endpoint _ source datagram =>
      inferInstanceAs (Decidable (∀ call ∈ (endpoint.onMessage datagram source).2.1, _))
  | .poll _ => inferInstanceAs (Decidable (∀ st ∈ s.image, _))

/-! ## What every step keeps -/

/-- The history of an image: the setup frame that created it, and what has happened to it since. -/
abbrev ImageHistory (T : Nat) := Option (SetupHeader × List (ImageAction T))

/-- **The image as a run of its own**: created by a setup frame of the publication, fed with frames
that were sent, and polled. -/
structure Tracks (ids : StreamIds) (i : Nat) (s : PipelineRun) (sent : List LogRecord)
    (setup : SetupHeader) (as : List (ImageAction ids.termLength)) : Prop where
  emitted : .setup setup ∈ s.sender.emissions i
  active : setup.activeTerm < 2 ^ 31
  arrived : ∀ f ∈ ImageRun.arrivals as, f.record ∈ sent
  created : ∃ handler source st, ImageState.onSetup handler setup source = some st ∧
    Meets ImageRun.Paced ImageRun.step (ImageRun.start ids st) as ∧
    s.image = some (run ImageRun.step (ImageRun.start ids st) as).state ∧
    s.delivered = (run ImageRun.step (ImageRun.start ids st) as).delivered

def HasHistory (ids : StreamIds) (i : Nat) (s : PipelineRun) (sent : List LogRecord) :
    ImageHistory ids.termLength → Prop
  | none => s.image = none ∧ s.delivered = []
  | some (setup, as) => s.Tracks ids i sent setup as

/-- **What is known along a run**: the stream of the publication holds the accepted offers, its setup
frames are placed, and the image has the history `x`. -/
structure Carries (ids : StreamIds) (i : Nat) (s : PipelineRun) (e : PublicationEntry)
    (l : StreamLog) (n b pub : Nat) (x : ImageHistory ids.termLength) : Prop where
  streams : s.sender.Streams ids i e l n b pub
  accepted : s.accepted = l.records.filterMap PubRun.acceptedOf
  setups : ∀ setup, .setup setup ∈ s.sender.attempts i →
    SenderRun.Placed ids setup l.records (n * ids.termLength + e.publication.toNetwork.termOffset)
  image : s.HasHistory ids i l.sent x

/-- The history after the arrival of a datagram. -/
inductive Next (ids : StreamIds) :
    ImageHistory ids.termLength → Emission → ImageHistory ids.termLength → Prop
  | created (setup : SetupHeader) : Next ids none (.setup setup) (some (setup, []))
  | refused (handler : InlineHandler) (source : SockAddr) {setup : SetupHeader}
      (h : ImageState.onSetup handler setup source = none) : Next ids none (.setup setup) none
  | repeated (setup setup' : SetupHeader) (as : List (ImageAction ids.termLength)) :
      Next ids (some (setup, as)) (.setup setup') (some (setup, as))
  | ignored (bytes : List UInt8) : Next ids none (.data bytes) none
  | received (setup : SetupHeader) (as : List (ImageAction ids.termLength)) (handler : InlineHandler)
      (f : StreamFrame ids.termLength) :
      Next ids (some (setup, as)) (.data (f.bytes ids)) (some (setup, as ++ [.data handler f]))

theorem Tracks.extend {s : PipelineRun} {sent : List LogRecord} {setup : SetupHeader}
    {as : List (ImageAction ids.termLength)} (h : s.Tracks ids i sent setup as)
    (a : ImageAction ids.termLength) {state : ImageState} {fragments : List Fragment}
    (hsent : ∀ f ∈ ImageRun.arrivals [a], f.record ∈ sent)
    (hpaced : ∀ r : ImageRun ids, s.image = some r.state → r.Paced a)
    (hstep : ∀ r : ImageRun ids, s.image = some r.state →
      (r.step a).state = state ∧ (r.step a).delivered = r.delivered ++ fragments) :
    Tracks ids i { s with image := some state, delivered := s.delivered ++ fragments } sent setup
      (as ++ [a]) := by
  obtain ⟨handler, source, st, hsetup, hmeets, himage, hdelivered⟩ := h.created
  obtain ⟨hstate, hfragments⟩ := hstep _ himage
  refine ⟨h.emitted, h.active, fun f hf => ?_, handler, source, st, hsetup, ?_, ?_, ?_⟩
  · rw [ImageRun.arrivals, List.filterMap_append, List.mem_append] at hf
    exact hf.elim (h.arrived f) (hsent f)
  · exact meets_append.mpr ⟨hmeets, hpaced _ himage, trivial⟩
  · rw [run_append, run_cons, run_nil, hstate]
  · rw [run_append, run_cons, run_nil, hfragments, ← hdelivered]

namespace Carries

variable {s : PipelineRun} {e : PublicationEntry} {l : StreamLog} {n b pub : Nat}
  {x : ImageHistory ids.termLength}

/-- What changes neither the sender nor the offers accepted. -/
theorem withImage (h : s.Carries ids i e l n b pub x) {arrived : List (List UInt8)}
    {image : Option ImageState} {delivered : List Fragment} {x' : ImageHistory ids.termLength}
    (himage : HasHistory ids i ⟨s.sender, s.accepted, arrived, image, delivered⟩ l.sent x') :
    Carries ids i ⟨s.sender, s.accepted, arrived, image, delivered⟩ e l n b pub x' :=
  ⟨h.streams, h.accepted, h.setups, himage⟩

/-- **An action of the sender agent.** -/
theorem sender (h : s.Carries ids i e l n b pub x) {a : SenderAction}
    (hclear : s.Clear ids i (.sender a)) :
    ∃ e' l' n' b' pub' taken new, (s.step i (.sender a)).Carries ids i e' l' n' b' pub' x ∧
      SenderRun.Advances ids i s.sender a e l l' n taken new := by
  obtain ⟨e', l', n', b', pub', taken, new, hnext, hadvances, haccepted⟩ :=
    h.streams.step_accepts hclear
  have hcursor : n * ids.termLength + e.publication.toNetwork.termOffset ≤
      n' * ids.termLength + e'.publication.toNetwork.termOffset := by
    have hend := hnext.tiles_records.eq_add_total
    have hstart := h.streams.tiles_records.eq_add_total
    rw [hadvances.records, total_append] at hend
    omega
  refine ⟨e', l', n', b', pub', taken, new, ⟨hnext, ?_, fun setup hattempt => ?_, ?_⟩, hadvances⟩
  · rw [hadvances.records, List.filterMap_append, ← haccepted, ← h.accepted]
    rfl
  · rw [hadvances.records]
    rcases hadvances.setup_eq hattempt with hold | rfl
    · exact (h.setups setup hold).grow hcursor hadvances.after
    · exact h.streams.placed.grow hcursor hadvances.after
  · cases x with
    | none => exact h.image
    | some history =>
        have htracks : s.Tracks ids i l.sent history.1 history.2 := h.image
        refine ⟨?_, htracks.active, fun f hf => ?_, htracks.created⟩
        · change _ ∈ (s.sender.step a).emissions i
          rw [SenderRun.emissions_step]
          exact List.mem_append_left _ htracks.emitted
        · rw [hadvances.sent]
          exact List.mem_append_left _ (htracks.arrived f hf)

/-- **A setup frame** starts the image, if there is none. -/
theorem setup (h : s.Carries ids i e l n b pub x) {setup : SetupHeader}
    (hemitted : .setup setup ∈ s.sender.emissions i) (hactive : setup.activeTerm < 2 ^ 31)
    (handler : InlineHandler) (source : SockAddr) :
    ∃ x', (s.handle handler source (.onSetup setup)).Carries ids i e l n b pub x' ∧
      Next ids x (.setup setup) x' := by
  unfold handle
  dsimp only
  cases x with
  | none =>
      obtain ⟨hnone, hdelivered⟩ := h.image
      rw [if_pos hnone]
      cases hnew : ImageState.onSetup handler setup source with
      | none => exact ⟨none, h.withImage ⟨rfl, hdelivered⟩, .refused handler source hnew⟩
      | some st =>
          refine ⟨some (setup, []), h.withImage ?_, .created setup⟩
          exact ⟨hemitted, hactive, by simp [ImageRun.arrivals], handler, source, st, hnew, trivial,
            rfl, hdelivered⟩
  | some history =>
      have htracks : s.Tracks ids i l.sent history.1 history.2 := h.image
      obtain ⟨_, _, _, _, _, himage, _⟩ := htracks.created
      rw [if_neg (by rw [himage]; exact Option.some_ne_none _)]
      exact ⟨_, h, .repeated history.1 setup history.2⟩

/-- **A data frame** that was sent is an action of the image. -/
theorem data (h : s.Carries ids i e l n b pub x) {f : StreamFrame ids.termLength}
    (hsent : f.record ∈ l.sent) (hterm : f.term < 2 ^ 31) (hlt : 32 + f.payload.length < 2 ^ 31)
    (hwithin : ∀ st ∈ s.image, WithinThreeTerms ids st (f.header ids)) (handler : InlineHandler)
    (source : SockAddr) :
    ∃ x', (s.handle handler source (.onData ⟨f.header ids, f.payload, hlt⟩)).Carries ids i e l n b
        pub x' ∧ Next ids x (.data (f.bytes ids)) x' := by
  unfold handle
  dsimp only
  cases x with
  | none =>
      obtain ⟨hnone, hdelivered⟩ := h.image
      rw [hnone, Option.map_none]
      exact ⟨none, h.withImage ⟨rfl, hdelivered⟩, .ignored _⟩
  | some history =>
      have htracks : s.Tracks ids i l.sent history.1 history.2 := h.image
      obtain ⟨_, _, st, _, _, himage, _⟩ := htracks.created
      have hid : ((f.header ids).termId - ids.initialTermId).toNat = f.term := by
        change (ids.initialTermId + BitVec.ofNat 32 f.term - ids.initialTermId).toNat = _
        rw [BitVec.add_comm, BitVec.add_sub_cancel, BitVec.toNat_ofNat, Nat.mod_eq_of_lt (by omega)]
      refine ⟨some (history.1, history.2 ++ [.data handler f]), h.withImage ?_,
        .received history.1 history.2 handler f⟩
      rw [himage, Option.map_some, ← List.append_nil s.delivered]
      change Tracks ids i _ l.sent history.1 (history.2 ++ [.data handler f])
      refine htracks.extend (.data handler f) (fun g hg => ?_) (fun r hr => ⟨?_, trivial⟩) fun r hr => ?_
      · obtain rfl := List.mem_singleton.mp hg
        exact hsent
      · have hnear := hwithin r.state hr
        unfold WithinThreeTerms at hnear
        rwa [hid] at hnear
      · obtain heq := Option.some.inj (himage.symm.trans hr)
        rw [heq, List.append_nil]
        exact ⟨rfl, rfl⟩

/-- **The arrival of a datagram** that was sent. -/
theorem arrive (h : s.Carries ids i e l n b pub x) {endpoint : ReceiveChannelEndpoint}
    {handler : InlineHandler} {source : SockAddr} {emission : Emission}
    (hemitted : emission ∈ s.sender.emissions i)
    (hclear : s.Clear ids i (.arrive endpoint handler source emission.bytes)) :
    ∃ x', (s.step i (.arrive endpoint handler source emission.bytes)).Carries ids i e l n b pub x' ∧
      Next ids x emission x' := by
  have hmem : emission.bytes ∈ s.sender.datagrams i := List.mem_map_of_mem hemitted
  have hnoted : Carries ids i { s with arrived := s.arrived ++ [emission.bytes] } e l n b pub x := by
    refine h.withImage ?_
    cases x with
    | none => exact h.image
    | some history =>
        have htracks : s.Tracks ids i l.sent history.1 history.2 := h.image
        exact { htracks with }
  unfold step
  dsimp only
  rw [if_pos hmem]
  cases emission with
  | setup header =>
      have hcall := endpoint.onMessage_setup source
        (h.setups header (SenderRun.mem_attempts hemitted)).type_eq
      simp only [Clear, Emission.bytes, hcall] at hclear ⊢
      have hactive : header.activeTerm < 2 ^ 31 := hclear _ rfl
      exact hnoted.setup hemitted hactive handler source
  | data bytes =>
      obtain ⟨f, rfl, hsent, hterm, hlt⟩ := h.streams.exists_sent (SenderRun.mem_attempts hemitted)
      have hcall := f.onMessage_bytes hlt endpoint source
      simp only [Clear, Emission.bytes, hcall] at hclear ⊢
      have hwithin : ∀ st ∈ s.image, WithinThreeTerms ids st (f.header ids) := hclear _ rfl
      exact hnoted.data hsent hterm hlt hwithin handler source

theorem poll (h : s.Carries ids i e l n b pub x) {limit : Int}
    (hclear : s.Clear ids i (.poll limit)) :
    (s.step i (.poll limit)).Carries ids i e l n b pub
      (x.map fun history => (history.1, history.2 ++ [.poll limit])) := by
  unfold step
  dsimp only
  cases x with
  | none =>
      obtain ⟨hnone, -⟩ := id h.image
      simp only [hnone]
      exact h
  | some history =>
      have htracks : s.Tracks ids i l.sent history.1 history.2 := h.image
      obtain ⟨_, _, st, _, _, himage, _⟩ := htracks.created
      simp only [himage]
      refine h.withImage ?_
      change Tracks ids i _ l.sent history.1 (history.2 ++ [.poll limit])
      refine htracks.extend (.poll limit) (fun f hf => by cases hf)
        (fun r hr => ⟨trivial, hclear r.state hr⟩) fun r hr => ?_
      obtain heq := Option.some.inj (himage.symm.trans hr)
      rw [heq]
      exact ⟨rfl, rfl⟩

/-- **Step.** -/
theorem step (h : s.Carries ids i e l n b pub x) {a : PipelineAction} (hclear : s.Clear ids i a) :
    ∃ e' l' n' b' pub' x', (s.step i a).Carries ids i e' l' n' b' pub' x' := by
  cases a with
  | sender a =>
      obtain ⟨e', l', n', b', pub', _, _, hnext, -⟩ := h.sender hclear
      exact ⟨e', l', n', b', pub', x, hnext⟩
  | arrive endpoint handler source datagram =>
      by_cases hmem : datagram ∈ s.sender.datagrams i
      · obtain ⟨emission, hemitted, rfl⟩ := List.mem_map.mp hmem
        obtain ⟨x', hnext, -⟩ := h.arrive hemitted hclear
        exact ⟨e, l, n, b, pub, x', hnext⟩
      · refine ⟨e, l, n, b, pub, x, ?_⟩
        unfold PipelineRun.step
        dsimp only
        rwa [if_neg hmem]
  | poll limit => exact ⟨e, l, n, b, pub, _, h.poll hclear⟩

end Carries

theorem carries_start {agent : SenderAgent} (h : agent.Initial) {e : PublicationEntry}
    (he : agent.publications[i]? = some e) :
    (start agent).Carries e.publication.toNetwork.ids i e ⟨[], [], []⟩ 0 0 0 none :=
  ⟨SenderRun.streams_start h he, rfl, fun _ hemitted => absurd hemitted List.not_mem_nil, rfl, rfl⟩

/-- **Run.** -/
theorem carries_run {agent : SenderAgent} (h : agent.Initial) {e : PublicationEntry}
    (he : agent.publications[i]? = some e) {as : List PipelineAction}
    (hrun : Meets (Clear e.publication.toNetwork.ids i) (step i) (start agent) as) :
    ∃ e' l n b pub x,
      (run (step i) (start agent) as).Carries e.publication.toNetwork.ids i e' l n b pub x :=
  @run_invariant _ _ (Clear e.publication.toNetwork.ids i) (step i)
    (fun s => ∃ e' l n b pub x, s.Carries e.publication.toNetwork.ids i e' l n b pub x)
    (fun s a hs hclear => by
      obtain ⟨e', l, n, b, pub, x, hcarries⟩ := hs
      exact hcarries.step hclear)
    _ ⟨e, _, 0, 0, 0, none, carries_start h he⟩ as hrun

/-! ## What is sent -/

def offeredFrame (ids : StreamIds) (offer : Int × List UInt8) : List UInt8 :=
  (LogRecord.data (offer.1 - alignFrameLength (32 + offer.2.length)).toNat offer.2).frame ids

theorem map_offeredFrame (ids : StreamIds) (records : List LogRecord) :
    (records.filterMap PubRun.acceptedOf).map (offeredFrame ids) =
      (records.filter LogRecord.isData).map (LogRecord.frame ids) := by
  induction records with
  | nil => rfl
  | cons r records ih =>
      cases r with
      | pad start length => exact ih
      | data start payload =>
          have hstart : ((start : Int) + alignFrameLength (32 + payload.length) -
              alignFrameLength (32 + payload.length)).toNat = start := by omega
          refine congrArg₂ List.cons ?_ ih
          rw [offeredFrame, hstart]

/-- The data frames handed to the poller are the first of the accepted offers. -/
theorem Carries.attempts_prefix {s : PipelineRun} {e : PublicationEntry} {l : StreamLog}
    {n b pub : Nat} {x : ImageHistory ids.termLength} (h : s.Carries ids i e l n b pub x) :
    (s.sender.attempts i).filterMap Emission.dataBytes <+: s.accepted.map (offeredFrame ids) := by
  rw [h.streams.data, h.accepted, map_offeredFrame, StreamLog.records, List.filter_append,
    List.map_append]
  exact List.prefix_append _ _

/-- The send slots cover every scan of publication `i`. -/
def Covered (i : Nat) (s : PipelineRun) : PipelineAction → Prop
  | .sender a => s.sender.Covered i a
  | _ => True

instance (i : Nat) (s : PipelineRun) : (a : PipelineAction) → Decidable (s.Covered i a)
  | .sender _ => inferInstanceAs (Decidable (SenderRun.Covered _ _ _))
  | .arrive .. | .poll _ => isTrue trivial

theorem step_sender_eq (s : PipelineRun) {a : PipelineAction} (h : ∀ act, a ≠ .sender act) :
    (s.step i a).sender = s.sender := by
  cases a with
  | sender act => exact absurd rfl (h act)
  | arrive endpoint handler source datagram =>
      by_cases hmem : datagram ∈ s.sender.datagrams i
      · obtain ⟨image, himage⟩ := step_arrive_eq hmem endpoint handler source
        rw [himage]
      · unfold step
        dsimp only
        rw [if_neg hmem]
  | poll limit =>
      unfold step
      dsimp only
      split <;> rfl

/-- **No data frame is refused** while the slots cover every scan. -/
theorem Carries.allEmitted_step {s : PipelineRun} {e : PublicationEntry} {l : StreamLog}
    {n b pub : Nat} {x : ImageHistory ids.termLength} (h : s.Carries ids i e l n b pub x)
    (hall : s.sender.AllEmitted i) {a : PipelineAction} (hcovered : s.Covered i a) :
    (s.step i a).sender.AllEmitted i := by
  cases a with
  | sender act => exact hall.step h.streams.inv h.streams.entry hcovered
  | arrive | poll =>
      rw [step_sender_eq s (by simp)]
      exact hall

/-- **Accepted offers are sent in order and at most once, and none is skipped while the slots last.**
In every run of a new publication in which rotations find the sender near enough, the data frames that
the poller has taken are a subsequence of the frames of the accepted offers; if besides the send slots
cover every scan, they are a prefix. -/
theorem sent_prefix_accepted {agent : SenderAgent} (h : agent.Initial) {i : Nat}
    {e : PublicationEntry} (he : agent.publications[i]? = some e) (as : List PipelineAction)
    (hrun : Meets (Clear e.publication.toNetwork.ids i) (step i) (start agent) as) :
    (((run (step i) (start agent) as).sender.emissions i).filterMap Emission.dataBytes).Sublist
        ((run (step i) (start agent) as).accepted.map
          (offeredFrame e.publication.toNetwork.ids)) ∧
      (Meets (Covered i) (step i) (start agent) as →
        ((run (step i) (start agent) as).sender.emissions i).filterMap Emission.dataBytes <+:
          (run (step i) (start agent) as).accepted.map
            (offeredFrame e.publication.toNetwork.ids)) := by
  constructor
  · obtain ⟨e', l, n, b, pub, x, hcarries⟩ := carries_run h he hrun
    refine List.Sublist.trans ?_ hcarries.attempts_prefix.sublist
    exact (SenderRun.emissions_sublist i _).filterMap _
  · intro hcovered
    obtain ⟨⟨e', l, n, b, pub, x, hcarries⟩, hall⟩ := @run_invariant _ _ _ (step i)
      (fun s => (∃ e' l n b pub x, s.Carries e.publication.toNetwork.ids i e' l n b pub x) ∧
        s.sender.AllEmitted i)
      (fun s a ⟨⟨_, _, _, _, _, _, hs⟩, hall⟩ hcond =>
        ⟨hs.step hcond.1, hs.allEmitted_step hall hcond.2⟩)
      _ ⟨⟨e, _, 0, 0, 0, none, carries_start h he⟩, SenderRun.allEmitted_start i agent⟩ as
      (meets_and hrun hcovered)
    rw [hall]
    exact hcarries.attempts_prefix

/-! ## What the subscriber sees -/

theorem filterMap_acceptedOf_records {T : Nat} {frames : List (StreamFrame T)}
    {records : List LogRecord} (h : frames.map StreamFrame.record = records.filter LogRecord.isData) :
    records.filterMap PubRun.acceptedOf =
      frames.map fun f => ((f.stop : Int), f.payload) := by
  have hdata : records.filterMap PubRun.acceptedOf =
      (records.filter LogRecord.isData).filterMap PubRun.acceptedOf := by
    rw [List.filterMap_filter]
    refine List.filterMap_congr fun r _ => ?_
    cases r <;> rfl
  rw [hdata, ← h, List.filterMap_map]
  refine List.filterMap_eq_map_iff_forall_eq_some.mpr fun f _ => ?_
  exact congrArg (fun stop : Int => some (stop, f.payload)) (Nat.cast_add f.start f.length).symm

/-- Frames in order that are all among frames in order are a subsequence of them. -/
theorem frames_sublist {T : Nat} {ds frames : List (StreamFrame T)} (hsubset : ds ⊆ frames)
    (hds : ds.Pairwise fun a b => a.stop ≤ b.start)
    (hframes : frames.Pairwise fun a b => a.stop ≤ b.start) : ds.Sublist frames := by
  have hpos : ∀ f : StreamFrame T, f.start < f.stop := StreamFrame.start_lt_stop
  have hnodup : ds.Nodup := hds.imp fun {a b} hle heq => by
    have := hpos a
    rw [heq] at this hle
    omega
  -- two frames are not each behind the other
  have : Std.Antisymm fun a b : StreamFrame T => a.stop ≤ b.start := ⟨fun a b hab hba => by
    have := hpos a
    have := hpos b
    omega⟩
  exact List.sublist_of_subperm_of_pairwise (List.subperm_of_subset hnodup hsubset) hds hframes

/-- **The delivery of an image** that is fed from the stream: the frames delivered, in order. -/
theorem Tracks.delivers {s : PipelineRun} {sent records : List LogRecord} {setup : SetupHeader}
    {as : List (ImageAction ids.termLength)} {cursor : Nat}
    (h : s.Tracks ids i sent setup as) (hplaced : SenderRun.Placed ids setup records cursor)
    (hsent : sent ⊆ records) {stream : HonestStream ids.termLength}
    (hrecords : stream.frames.map StreamFrame.record = records.filter LogRecord.isData)
    (hterm : ∀ f : StreamFrame ids.termLength, f.record ∈ sent → f.term < 2 ^ 31) :
    ∃ r : ImageRun ids, s.delivered = r.delivered ∧
      ∃ A sub recv ds, r.Delivers stream setup.position A sub recv ds := by
  obtain ⟨handler, source, st, hsetup, hpaced, -, hdelivered⟩ := h.created
  -- a frame of the stream is one of its data records
  have hinj : Function.Injective (@StreamFrame.record ids.termLength) := fun f g heq => by
    obtain ⟨hstart, hpayload⟩ := LogRecord.data.inj heq
    cases f
    cases g
    congr
  have hmem : ∀ f : StreamFrame ids.termLength, f ∈ stream.frames ↔ f.record ∈ records := fun f => by
    rw [← List.mem_map_of_injective hinj, hrecords, List.mem_filter]
    exact and_iff_left rfl
  have hstream : Meets (fun s a => ImageRun.Paced s a ∧ ImageRun.FromStream stream a) ImageRun.step
      (ImageRun.start ids st) as := by
    refine meets_and hpaced (meets_of_forall fun a ha => ?_)
    cases a with
    | data handler f =>
        have hf : f.record ∈ sent := h.arrived f (List.mem_filterMap.mpr ⟨_, ha, rfl⟩)
        exact ⟨(hmem f).mpr (hsent hf), hterm f hf⟩
    | poll limit => trivial
  have hboundary : FrameBoundary stream.frames setup.position := fun f hf =>
    hplaced.uncut f.record ((hmem f).mp hf)
  obtain rfl := hplaced.ids_eq
  refine ⟨_, hdelivered, ?_⟩
  exact @run_invariant _ _ _ _
    (fun r => ∃ A sub recv ds, r.Delivers stream setup.position A sub recv ds)
    (fun r a hr hcond => by
      obtain ⟨A, sub, recv, ds, hdelivers⟩ := hr
      obtain ⟨A', sub', recv', ds', hnext, -⟩ :=
        hdelivers.step ⟨⟨hcond.2, hcond.1.1⟩, hcond.1.2⟩
      exact ⟨A', sub', recv', ds', hnext⟩)
    _ ⟨_, _, _, _, (ImageRun.delivers_onSetup hsetup h.active hplaced.offset_le hplaced.offset_dvd
      hboundary).1⟩ as hstream

/-- **The subscriber sees a subsequence of what was offered.** In every run of a new publication, its
sender agent, a network that may lose, repeat and reorder its datagrams, and a subscriber, in which
rotations find the sender near enough, the receiver stays within three terms of the subscriber and no
poll finds a frame of four terms ago: the fragments delivered, each with the position behind it, are
accepted offers with the positions that they returned, in the order of the offers and none twice, and
they carry the session and the stream of the publication. -/
theorem delivered_sublist_accepted {agent : SenderAgent} (h : agent.Initial) {i : Nat}
    {e : PublicationEntry} (he : agent.publications[i]? = some e) (as : List PipelineAction)
    (hrun : Meets (Clear e.publication.toNetwork.ids i) (step i) (start agent) as) :
    ((run (step i) (start agent) as).delivered.map Fragment.offered).Sublist
        (run (step i) (start agent) as).accepted ∧
      ∀ d ∈ (run (step i) (start agent) as).delivered,
        d.sessionId = e.sessionId ∧ d.streamId = e.streamId := by
  obtain ⟨e', l, n, b, pub, x, hcarries⟩ := carries_run h he hrun
  rcases x with - | ⟨setup, history⟩
  · rw [hcarries.image.2]
    exact ⟨List.nil_sublist _, by simp⟩
  · have htracks : Tracks _ i _ l.sent setup history := hcarries.image
    obtain ⟨-, frames, hframes, hsorted, -⟩ :=
      hcarries.streams.tiles_records.exists_frames (Nat.dvd_zero 32)
    obtain ⟨r, hdelivered, A, sub, recv, ds, hdelivers⟩ := @Tracks.delivers _ _ _ _ _ _ _ _ htracks
      (hcarries.setups setup (SenderRun.mem_attempts htracks.emitted)) (List.subset_append_left _ _)
      (.ofSorted frames hsorted) hframes fun f hf =>
        hcarries.streams.term_lt (hcarries.streams.represents.tiles_sent.mem hf).2.2
    rw [hdelivered, hdelivers.delivered, hcarries.accepted,
      filterMap_acceptedOf_records hframes]
    constructor
    · have hsublist := frames_sublist
        (fun f hf => hdelivers.keeps.accepted (hdelivers.accepted f hf).1) hdelivers.ordered hsorted
      rw [List.map_map]
      exact hsublist.map fun f => ((f.stop : Int), f.payload)
    · intro d hd
      obtain ⟨f, -, rfl⟩ := List.mem_map.mp hd
      exact ⟨rfl, rfl⟩

/-- The arrival of a datagram at an endpoint that has nothing to send. -/
def arrival (datagram : List UInt8) : PipelineAction :=
  .arrive ⟨some 0, 1, [], [], [], fun _ => []⟩ ImageRun.quietHandler ⟨2, []⟩ datagram

/-- The setup frame arrives, then the second frame, twice and before the first. The poll in between
skips the gap, so that the first frame is never delivered. -/
def reordered : List PipelineAction :=
  [.sender (.doSend 1000), .sender (.offer 0 [1]), .sender (.offer 0 [2]), .sender (.doSend 1001),
    arrival (SenderRun.firstSetup 0).encode,
    arrival ((LogRecord.data 64 [2]).frame ⟨5, 7, 1, 128⟩), .poll 10,
    arrival ((LogRecord.data 64 [2]).frame ⟨5, 7, 1, 128⟩),
    arrival ((LogRecord.data 0 [1]).frame ⟨5, 7, 1, 128⟩), .poll 1, .sender (.offer 0 [3])]

theorem delivered_sublist_reordered :
    let s := run (step 0) (start SenderAgent.oneNewPublication) reordered
    (s.delivered.map Fragment.offered).Sublist s.accepted ∧
      s.delivered.map Fragment.offered = [(128, [2])] ∧
      s.accepted = [(64, [1]), (128, [2])] :=
  ⟨(delivered_sublist_accepted SenderAgent.oneNewPublication_initial (i := 0) rfl reordered
    (by decide +kernel)).1, by decide +kernel, by decide +kernel⟩

/-- The two frames that were accepted were sent, and none was refused; the third offer was not
accepted. -/
theorem sent_prefix_reordered :
    let s := run (step 0) (start SenderAgent.oneNewPublication) reordered
    (s.sender.emissions 0).filterMap Emission.dataBytes <+:
        s.accepted.map (offeredFrame ⟨5, 7, 1, 128⟩) ∧
      ((s.sender.emissions 0).filterMap Emission.dataBytes).length = 2 :=
  ⟨(sent_prefix_accepted SenderAgent.oneNewPublication_initial (i := 0) rfl reordered
    (by decide +kernel)).2 (by decide +kernel), by decide +kernel⟩

end PipelineRun

end AeronRs
