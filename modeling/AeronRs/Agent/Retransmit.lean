import AeronRs.Agent.SenderControl
import AeronRs.Media.Datagrams
import AeronRs.Media.PublicationKinds
import AeronRs.Media.PublishedLog
import AeronRs.Media.RetransmitHandler

/-! # Retransmission

**`doRetransmit`** of `sender.rs` answers the NAKs whose delay has passed. For each it looks up the
publication, checks the position against the sender's and the published position, and sends the
frames that a scan of the named term finds from the named offset on, pads included, within the length
of the NAK or the `mtu`.

The check takes three terms before the *sender's* position to be still in the log. The partitions
follow the *publisher*, who may be more than a term ahead: `retransmit_other_term` sends a frame of
another term. `from_asked_term_iff` says when that does not happen. -/

namespace AeronRs

open Runs

variable {req : RetransmitRequest}

namespace PublicationEntry

/-- The test of `do_retransmit` that the named position is still in the term buffer. -/
def InTermBuffer (e : PublicationEntry) (req : RetransmitRequest) : Prop :=
  let nakPosition := e.publication.toNetwork.computePosition req.termId req.termOffset.toNat
  let bufferStart := wrapI64 (e.senderPosition - (partitionCount - 1) * e.termLength)
  let fromStart := wrapI64 (nakPosition - bufferStart)
  let range := wrapI64 (e.pubPosition - bufferStart)
  ¬ (fromStart < 0 ∨ range ≤ fromStart)

instance (e : PublicationEntry) (req : RetransmitRequest) : Decidable (e.InTermBuffer req) :=
  inferInstanceAs (Decidable (¬ (_ ∨ _)))

/-- The limit of the scan: the length of the request as a `u32`, or the `mtu`. -/
def retransmitLimit (e : PublicationEntry) (req : RetransmitRequest) : Nat :=
  if req.length.toNat < e.mtu then req.length.toNat else e.mtu

def retransmitScan (e : PublicationEntry) (termId : BitVec 32) (offset limit : Nat) :
    List (Nat × List UInt8) × Nat :=
  let partIdx := partitionIndex termId e.initialTermId
  match e.publication with
  | .network p => p.rawLog.scanFrames partIdx offset limit
  | .concurrent c => SenderPublication.scanTermAt c.inner partIdx offset limit

/-- Both kinds of publication are scanned alike. -/
theorem retransmitScan_eq (e : PublicationEntry) (termId : BitVec 32) (offset limit : Nat) :
    e.retransmitScan termId offset limit = e.publication.toNetwork.rawLog.scanFrames
      (partitionIndex termId e.initialTermId) offset limit := by
  unfold retransmitScan
  cases hp : e.publication with
  | network p => rfl
  | concurrent c => exact SenderPublication.scanTermAt_eq _ _ _ _

/-- The frames that a request is answered with. -/
def retransmitFrames (e : PublicationEntry) (req : RetransmitRequest) : List (Nat × List UInt8) :=
  if e.InTermBuffer req then
    (e.retransmitScan req.termId req.termOffset.toNat (e.retransmitLimit req)).1
  else []

end PublicationEntry

/-- The publication that a request is for, with its index: the first of that session and stream. -/
def SenderAgent.findPublication (s : SenderAgent) (sessionId streamId : BitVec 32) :
    Option (PublicationEntry × Nat) :=
  s.publications.zipIdx.find? fun e => e.1.sessionId = sessionId ∧ e.1.streamId = streamId

/-- The callback of `do_retransmit`. -/
def SendState.onRetransmit (st : SendState) (req : RetransmitRequest) : SendState :=
  match st.agent.findPublication req.sessionId req.streamId with
  | none => st
  | some (e, pubIdx) =>
      match st.agent.endpoints[e.endpointIdx]? with
      | none => st
      | some ep =>
          let base := partitionIndex req.termId e.initialTermId * e.termLength
          (e.retransmitFrames req).foldl (SendState.sendFrame pubIdx e ep base) st

/-- What `do_retransmit` leaves: the agent and the scheduler, its return value, the sends it made and
the datagrams that the kernel took from the ring. -/
structure RetransmitResult where
  agent : SenderAgent
  handler : RetransmitHandler
  workCount : Nat
  events : List SendEvent
  datagrams : List Datagram

namespace SenderAgent

def doRetransmit (s : SenderAgent) (handler : RetransmitHandler) (nowNs : Int) : RetransmitResult :=
  let timeouts := handler.processTimeouts nowNs
  let st := timeouts.2.foldl SendState.onRetransmit ⟨s, [], 0⟩
  let workCount := st.events.length
  if 0 < workCount then
    let flushed := st.agent.poller.flush st.agent.resolve
    ⟨{ st.agent with poller := flushed.1 }, timeouts.1, workCount, st.events, flushed.2⟩
  else ⟨st.agent, timeouts.1, workCount, st.events, []⟩

/-- The frames that an agent submits for a request. -/
def retransmits (s : SenderAgent) (req : RetransmitRequest) : List (List UInt8) :=
  (SendState.onRetransmit ⟨s, [], 0⟩ req).events.map SendEvent.bytes

end SenderAgent

/-! ## What is submitted -/

theorem SendState.map_bytes_zipWith (pubIdx : Nat) (e : PublicationEntry) (base : Nat)
    {frames : List (Nat × List UInt8)} {results : List (Except PollError Unit)}
    (hlen : results.length = frames.length) :
    (List.zipWith (SendState.dataEvent pubIdx e base) frames results).map SendEvent.bytes =
      frames.map Prod.snd := by
  induction frames generalizing results with
  | nil => rfl
  | cons frame frames ih =>
      cases results with
      | nil => cases hlen
      | cons result results =>
          rw [List.zipWith_cons_cons, List.map_cons, ih (Nat.succ.inj hlen)]
          rfl

/-- **Answering a request** touches the poller and the events only, and submits the frames that were
found. -/
theorem SendState.onRetransmit_of_find {st : SendState} {req : RetransmitRequest}
    {e : PublicationEntry} {pubIdx : Nat} {ep : SendChannelEndpoint}
    (hfind : st.agent.findPublication req.sessionId req.streamId = some (e, pubIdx))
    (hep : st.agent.endpoints[e.endpointIdx]? = some ep) :
    ∃ p evs, st.onRetransmit req =
        { st with agent := { st.agent with poller := p }, events := st.events ++ evs } ∧
      evs.map SendEvent.bytes = (e.retransmitFrames req).map Prod.snd := by
  obtain ⟨p, results, hlen, hfold⟩ := SendState.foldl_sendFrame pubIdx e ep
    (partitionIndex req.termId e.initialTermId * e.termLength) (e.retransmitFrames req) st
  refine ⟨p, _, ?_, SendState.map_bytes_zipWith pubIdx e
    (partitionIndex req.termId e.initialTermId * e.termLength) hlen⟩
  simp only [SendState.onRetransmit, hfind, hep, hfold]

theorem SenderAgent.retransmits_of_find {s : SenderAgent} {e : PublicationEntry} {pubIdx : Nat}
    {ep : SendChannelEndpoint}
    (hfind : s.findPublication req.sessionId req.streamId = some (e, pubIdx))
    (hep : s.endpoints[e.endpointIdx]? = some ep) :
    s.retransmits req = (e.retransmitFrames req).map Prod.snd := by
  obtain ⟨p, evs, heq, hbytes⟩ := @SendState.onRetransmit_of_find ⟨s, [], 0⟩ req e pubIdx ep hfind hep
  rw [SenderAgent.retransmits, heq, ← hbytes]
  rfl

/-- A request that is for no publication, or for one without an endpoint, is not answered. -/
theorem SendState.onRetransmit_eq (st : SendState) (req : RetransmitRequest) :
    ∃ p evs, st.onRetransmit req =
        { st with agent := { st.agent with poller := p }, events := st.events ++ evs } ∧
      evs.map SendEvent.bytes = st.agent.retransmits req := by
  cases hfind : st.agent.findPublication req.sessionId req.streamId with
  | none =>
      refine ⟨st.agent.poller, [], ?_, ?_⟩
      · simp [SendState.onRetransmit, hfind]
      · simp [SenderAgent.retransmits, SendState.onRetransmit, hfind]
  | some found =>
      obtain ⟨e, pubIdx⟩ := found
      cases hep : st.agent.endpoints[e.endpointIdx]? with
      | none =>
          refine ⟨st.agent.poller, [], ?_, ?_⟩
          · simp [SendState.onRetransmit, hfind, hep]
          · simp [SenderAgent.retransmits, SendState.onRetransmit, hfind, hep]
      | some ep =>
          obtain ⟨p, evs, heq, hbytes⟩ := SendState.onRetransmit_of_find hfind hep
          exact ⟨p, evs, heq, by rw [hbytes, SenderAgent.retransmits_of_find hfind hep]⟩

theorem SenderAgent.retransmits_poller (s : SenderAgent) (p : UringPoller SendPtr)
    (req : RetransmitRequest) : { s with poller := p }.retransmits req = s.retransmits req := by
  cases hfind : s.findPublication req.sessionId req.streamId with
  | none =>
      have hfind' : { s with poller := p }.findPublication req.sessionId req.streamId = none := hfind
      simp [SenderAgent.retransmits, SendState.onRetransmit, hfind, hfind']
  | some found =>
      obtain ⟨e, pubIdx⟩ := found
      have hfind' : { s with poller := p }.findPublication req.sessionId req.streamId =
        some (e, pubIdx) := hfind
      cases hep : s.endpoints[e.endpointIdx]? with
      | none => simp [SenderAgent.retransmits, SendState.onRetransmit, hfind, hfind', hep]
      | some ep => rw [retransmits_of_find hfind hep, retransmits_of_find hfind' hep]

/-- **`do_retransmit` answers the requests that fire**, one after the other. -/
theorem SenderAgent.doRetransmit_events (s : SenderAgent) (handler : RetransmitHandler)
    (nowNs : Int) :
    (s.doRetransmit handler nowNs).events.map SendEvent.bytes =
      (handler.processTimeouts nowNs).2.flatMap s.retransmits := by
  have hfold : ∀ (reqs : List RetransmitRequest) (st : SendState),
      (reqs.foldl SendState.onRetransmit st).events.map SendEvent.bytes =
        st.events.map SendEvent.bytes ++ reqs.flatMap st.agent.retransmits := by
    intro reqs
    induction reqs with
    | nil => simp
    | cons req reqs ih =>
        intro st
        obtain ⟨p, evs, heq, hbytes⟩ := st.onRetransmit_eq req
        have hagent : { st.agent with poller := p }.retransmits = st.agent.retransmits :=
          funext (st.agent.retransmits_poller p)
        rw [List.foldl_cons, ih, heq, List.map_append, hbytes, hagent, List.flatMap_cons,
          List.append_assoc]
  unfold doRetransmit
  dsimp only
  split_ifs
  · exact hfold _ _
  · exact hfold _ _

/-! ## Which frames are found -/

/-- The request names the start of an accepted offer's frame. -/
def RetransmitRequest.AsksFor (req : RetransmitRequest) (ids : StreamIds)
    (offered : Int × List UInt8) : Prop :=
  let start := (offered.1 - alignFrameLength (32 + offered.2.length)).toNat
  req.termId = ids.initialTermId + BitVec.ofNat 32 (start / ids.termLength) ∧
    req.termOffset = BitVec.ofNat 32 (start % ids.termLength)

instance (req : RetransmitRequest) (ids : StreamIds) (offered : Int × List UInt8) :
    Decidable (req.AsksFor ids offered) :=
  inferInstanceAs (Decidable (_ ∧ _))

/-- The request names a stream position. -/
def RetransmitRequest.StartsAt (req : RetransmitRequest) (ids : StreamIds) (q : Nat) : Prop :=
  req.termId = ids.initialTermId + BitVec.ofNat 32 (q / ids.termLength) ∧
    req.termOffset = BitVec.ofNat 32 (q % ids.termLength)

instance (req : RetransmitRequest) (ids : StreamIds) (q : Nat) : Decidable (req.StartsAt ids q) :=
  inferInstanceAs (Decidable (_ ∧ _))

/-- A data frame of the term that was asked for, from the offset that was asked for on. -/
def RetransmitRequest.Covers (req : RetransmitRequest) (frame : List UInt8) : Prop :=
  ∀ header ∈ DataHeader.parse frame, header.frameHeader.frameType = frameTypeData →
    header.termId = req.termId ∧ req.termOffset.toNat ≤ header.termOffset.toNat

instance (req : RetransmitRequest) (frame : List UInt8) : Decidable (req.Covers frame) :=
  inferInstanceAs (Decidable (∀ header ∈ DataHeader.parse frame, _ → _))

/-- The partition of the named term holds a later one by now. -/
def NetworkPublication.Overwritten (p : NetworkPublication) (termId : BitVec 32) : Prop :=
  4 ≤ (p.activeTermId - termId).toNat

instance (p : NetworkPublication) (termId : BitVec 32) : Decidable (p.Overwritten termId) :=
  inferInstanceAs (Decidable (_ ≤ _))

/-- **The request is answered from the term that it asks for**, or not at all if that is gone. -/
def SenderAgent.FromAskedTerm (s : SenderAgent) (p : NetworkPublication) (req : RetransmitRequest) :
    Prop :=
  (∀ frame ∈ s.retransmits req, req.Covers frame) ∧
    (p.Overwritten req.termId → s.retransmits req = [])

instance (s : SenderAgent) (p : NetworkPublication) (req : RetransmitRequest) :
    Decidable (s.FromAskedTerm p req) :=
  inferInstanceAs (Decidable ((∀ _ ∈ _, _) ∧ (_ → _)))

/-- The range test refuses the request, its term is one of the last four, or there is nothing to
find: the length is zero, or the term that has taken its place has no frame at that offset. -/
def PublicationEntry.FindsOnlyAsked (e : PublicationEntry) (req : RetransmitRequest) : Prop :=
  let p := e.publication.toNetwork
  e.InTermBuffer req → ¬ p.Overwritten req.termId ∨ req.length = 0 ∨
    frameAt p.rawLog.buffer (partitionIndex req.termId p.initialTermId * p.termLength) p.termLength
      req.termOffset.toNat = none

instance (e : PublicationEntry) (req : RetransmitRequest) : Decidable (e.FindsOnlyAsked req) :=
  inferInstanceAs (Decidable (_ → _ ∨ _ ∨ _))

/-- A scan finds nothing exactly when its limit is zero or no frame is committed where it starts. -/
theorem scanFrames_eq_nil_iff (log : RawLog) {idx offset : Nat} (hidx : idx < partitionCount)
    (hoffset : offset < log.termLength) (limit : Nat) :
    (log.scanFrames idx offset limit).1 = [] ↔
      limit = 0 ∨ frameAt log.buffer (idx * log.termLength) log.termLength offset = none := by
  obtain ⟨fuel, hfuel⟩ : ∃ fuel, log.termLength = fuel + 1 := ⟨log.termLength - 1, by omega⟩
  have hwalk : walk log.buffer (idx * log.termLength) log.termLength log.termLength offset = [] ↔
      frameAt log.buffer (idx * log.termLength) log.termLength offset = none := by
    nth_rewrite 3 [hfuel]
    rw [walk, if_pos hoffset]
    cases frameAt log.buffer (idx * log.termLength) log.termLength offset <;> simp
  rw [RawLog.scanFrames, if_neg (Nat.not_le.mpr hidx), scanLoop_eq_takeBudget, Nat.sub_zero, ← hwalk]
  cases limit with
  | zero => simp
  | succ limit =>
      cases walk log.buffer (idx * log.termLength) log.termLength log.termLength offset with
      | nil => simp
      | cons frame frames => simp [takeBudget]

/-- The frame of a record of the named term behind the named offset is what was asked for. -/
theorem RetransmitRequest.covers_frame {ids : StreamIds} {t o : Nat} {r : LogRecord}
    (hT : ids.termLength ≤ 2 ^ 31) (htermId : req.termId = ids.initialTermId + BitVec.ofNat 32 t)
    (hoffset : req.termOffset.toNat = o) (hlo : t * ids.termLength + o ≤ r.start)
    (hhi : r.start < t * ids.termLength + ids.termLength) : req.Covers (r.frame ids) := by
  intro header hparse htype
  rw [LogRecord.frame, DataHeader.parse_encode] at hparse
  obtain rfl := Option.some.inj hparse
  obtain ⟨d, hd⟩ := Nat.exists_eq_add_of_le (Nat.le_trans (Nat.le_add_right _ _) hlo)
  obtain ⟨hdiv, hmod⟩ := term_offset_of_lt t (show d < ids.termLength by omega)
  rw [← hd] at hdiv hmod
  cases r with
  | data start payload =>
      simp only [LogRecord.start] at hdiv hmod hd hlo hhi
      refine ⟨by rw [htermId, LogRecord.header, hdiv], ?_⟩
      rw [hoffset, LogRecord.header, hmod, BitVec.toNat_ofNat, Nat.mod_eq_of_lt (by omega)]
      omega
  | pad start len =>
      have hne : frameTypePad ≠ frameTypeData := by decide
      exact absurd htype hne

namespace PubRun

variable {rs : List LogRecord} {ids : StreamIds}

theorem Logged.record_term_le {s : PubRun} {n : Nat} (h : s.Logged ids rs n) {r : LogRecord}
    (hr : r ∈ rs) : r.start / ids.termLength ≤ n := by
  have hT : ids.termLength = s.network.termLength := by rw [← h.ids_eq, s.network.ids_termLength]
  have hT0 : 0 < ids.termLength := by
    rw [hT]
    exact s.network.rawLog.termLength_pos
  obtain ⟨hfits, -, hstop⟩ := h.published.tiles.mem hr
  have hlen := hfits.length_pos
  have hcursor := h.published.cursor.offset_le
  rw [← hT] at hstop hcursor
  refine Nat.le_of_lt_succ ((Nat.div_lt_iff_lt_mul hT0).mpr ?_)
  rw [Nat.succ_mul]
  omega

theorem Logged.asked {s : PubRun} {n : Nat} (h : s.Logged ids rs n) {offered : Int × List UInt8}
    (hoffered : offered ∈ s.accepted) {req : RetransmitRequest} (hask : req.AsksFor ids offered) :
    ∃ r ∈ rs, req.StartsAt ids r.start := by
  obtain ⟨position, payload⟩ := offered
  -- the accepted position is the end of a record of the log
  obtain ⟨start, hr, hpos⟩ := h.exists_record hoffered
  have hstart : (position - alignFrameLength (32 + payload.length)).toNat = start := by omega
  refine ⟨_, hr, ?_⟩
  simp only [RetransmitRequest.AsksFor, hstart] at hask
  exact hask

/-- The term of a record is overwritten once the publication is four terms ahead of it. -/
theorem Logged.overwritten_iff {s : PubRun} {n t : Nat} (h : s.Logged ids rs n) {termId : BitVec 32}
    (htermId : termId = ids.initialTermId + BitVec.ofNat 32 t) (ht : t ≤ n) :
    s.network.Overwritten termId ↔ t + 4 ≤ n := by
  have hlt := h.published.cursor.termCount_lt
  have hinitial : s.network.initialTermId = ids.initialTermId :=
    congrArg StreamIds.initialTermId h.ids_eq
  rw [NetworkPublication.Overwritten, h.published.cursor.active, hinitial, htermId,
    toNat_add_sub_add _ (by omega) (by omega), if_pos ht]
  omega

/-- **What is found in a term that is still held**: the frames of its records that start within the
limit behind the offset, if the offset is inside no record. -/
theorem Logged.retransmitFrames_eq {s : PubRun} {n t : Nat} (h : s.Logged ids rs n)
    {e : PublicationEntry} (hnet : e.publication.toNetwork = s.network) {req : RetransmitRequest}
    (hrange : e.InTermBuffer req) (htermId : req.termId = ids.initialTermId + BitVec.ofNat 32 t)
    (ht : t ≤ n) (hheld : n < t + 4)
    (hle : t * ids.termLength + req.termOffset.toNat ≤ n * ids.termLength + s.network.termOffset)
    (hq : Between LogRecord.start LogRecord.stop rs (t * ids.termLength + req.termOffset.toNat)) :
    e.retransmitFrames req = (rs.filter fun r =>
      t * ids.termLength + req.termOffset.toNat ≤ r.start ∧
        r.start < t * ids.termLength + ids.termLength ∧
        r.start < t * ids.termLength + req.termOffset.toNat + e.retransmitLimit req).map
      fun r => (r.start % ids.termLength, r.frame ids) := by
  have hT : s.network.termLength = ids.termLength := by rw [← h.ids_eq, s.network.ids_termLength]
  have hinitial : e.initialTermId = ids.initialTermId := by
    rw [PublicationEntry.initialTermId, hnet]
    exact congrArg StreamIds.initialTermId h.ids_eq
  have hscan := h.published.scanFrames_eq ht hheld (by rwa [hT]) (by rwa [hT])
    (e.retransmitLimit req)
  rw [PublicationEntry.retransmitFrames, if_pos hrange, e.retransmitScan_eq, hnet, hinitial, htermId,
    partitionIndex_add, hscan, hT, h.ids_eq]

end PubRun

/-- A request in range finds nothing exactly when its length is zero or no frame is committed at the
place it names. -/
theorem PublicationEntry.retransmitFrames_eq_nil_iff {e : PublicationEntry}
    (hrange : e.InTermBuffer req) (hmtu : 0 < e.mtu)
    (hoffset : req.termOffset.toNat < e.publication.toNetwork.termLength) :
    e.retransmitFrames req = [] ↔ req.length = 0 ∨
      frameAt e.publication.toNetwork.rawLog.buffer
        (partitionIndex req.termId e.publication.toNetwork.initialTermId *
          e.publication.toNetwork.termLength) e.publication.toNetwork.termLength
        req.termOffset.toNat = none := by
  have hlimit : e.retransmitLimit req = 0 ↔ req.length = 0 := by
    rw [← BitVec.toNat_inj, show (0 : BitVec 32).toNat = 0 from rfl]
    unfold retransmitLimit
    split_ifs <;> omega
  rw [retransmitFrames, if_pos hrange, e.retransmitScan_eq,
    scanFrames_eq_nil_iff _ (partitionIndex_lt _ _) hoffset, hlimit]
  rfl

namespace PubRun

/-- **A request at the start of a record**, for the publication of a run. -/
structure AtRecord (ids : StreamIds) (s : PubRun) (rs : List LogRecord) (n : Nat)
    (e : PublicationEntry) (req : RetransmitRequest) (first : LogRecord) : Prop where
  logged : s.Logged ids rs n
  network_eq : e.publication.toNetwork = s.network
  first_mem : first ∈ rs
  startsAt : req.StartsAt ids first.start

namespace AtRecord

variable {ids : StreamIds} {s : PubRun} {rs : List LogRecord} {n : Nat} {e : PublicationEntry}
  {req : RetransmitRequest} {first : LogRecord}

theorem termLength_eq (h : AtRecord ids s rs n e req first) : e.termLength = ids.termLength := by
  rw [PublicationEntry.termLength, h.network_eq, ← h.logged.ids_eq]
  rfl

theorem termLength_pos (h : AtRecord ids s rs n e req first) : 0 < ids.termLength := by
  rw [← h.logged.ids_eq]
  exact s.network.rawLog.termLength_pos

theorem termLength_le (h : AtRecord ids s rs n e req first) : ids.termLength ≤ 2 ^ 31 := by
  rw [← h.logged.ids_eq]
  exact s.network.rawLog.termLength_le

theorem offset_eq (h : AtRecord ids s rs n e req first) :
    req.termOffset.toNat = first.start % ids.termLength := by
  have hmod := Nat.mod_lt first.start h.termLength_pos
  have hle := h.termLength_le
  rw [h.startsAt.2, BitVec.toNat_ofNat, Nat.mod_eq_of_lt (by omega)]

theorem initialTermId_eq (h : AtRecord ids s rs n e req first) :
    e.initialTermId = ids.initialTermId := by
  rw [PublicationEntry.initialTermId, h.network_eq]
  exact congrArg StreamIds.initialTermId h.logged.ids_eq

theorem start_eq (h : AtRecord ids s rs n e req first) :
    first.start / ids.termLength * ids.termLength + req.termOffset.toNat = first.start := by
  rw [h.offset_eq, Nat.div_add_mod']

theorem mtu_ge (h : AtRecord ids s rs n e req first) : dataHeaderLength ≤ e.mtu := by
  rw [PublicationEntry.mtu, h.network_eq]
  exact h.logged.published.mtu_ge

theorem overwritten_iff (h : AtRecord ids s rs n e req first) :
    e.publication.toNetwork.Overwritten req.termId ↔ first.start / ids.termLength + 4 ≤ n := by
  rw [h.network_eq]
  exact h.logged.overwritten_iff h.startsAt.1 (h.logged.record_term_le h.first_mem)

/-- A request in range finds nothing exactly when its length is zero or no frame is committed at the
place it names. -/
theorem frames_eq_nil_iff (h : AtRecord ids s rs n e req first) (hrange : e.InTermBuffer req) :
    e.retransmitFrames req = [] ↔ req.length = 0 ∨
      frameAt e.publication.toNetwork.rawLog.buffer
        (partitionIndex req.termId e.publication.toNetwork.initialTermId *
          e.publication.toNetwork.termLength) e.publication.toNetwork.termLength
        req.termOffset.toNat = none := by
  have hmtu := h.mtu_ge
  have hheader : dataHeaderLength = 32 := rfl
  refine PublicationEntry.retransmitFrames_eq_nil_iff hrange (by omega) ?_
  rw [h.offset_eq, show e.publication.toNetwork.termLength = _ from h.termLength_eq]
  exact Nat.mod_lt _ h.termLength_pos

/-- **From a term that is still held**, only frames of that term are found. -/
theorem covers (h : AtRecord ids s rs n e req first) (hheld : n < first.start / ids.termLength + 4) :
    ∀ frame ∈ e.retransmitFrames req, req.Covers frame.2 := by
  obtain ⟨-, -, hstop⟩ := h.logged.published.tiles.mem h.first_mem
  rw [show s.network.termLength = ids.termLength by
    rw [← h.logged.ids_eq, s.network.ids_termLength]] at hstop
  intro frame hframe
  by_cases hrange : e.InTermBuffer req
  · rw [h.logged.retransmitFrames_eq h.network_eq hrange h.startsAt.1
      (h.logged.record_term_le h.first_mem) hheld (by rw [h.start_eq]; omega)
      (by rw [h.start_eq]; exact h.logged.published.tiles.between_start h.first_mem)] at hframe
    obtain ⟨r, hr, rfl⟩ := List.mem_map.mp hframe
    obtain ⟨hlo, hhi, -⟩ := of_decide_eq_true (List.mem_filter.mp hr).2
    exact req.covers_frame h.termLength_le h.startsAt.1 rfl hlo hhi
  · rw [PublicationEntry.retransmitFrames, if_neg hrange] at hframe
    cases hframe

end AtRecord

end PubRun

def SenderAgent.ofPublication (publication : Publication) : SenderAgent where
  poller := ⟨8, [], [], 0, ⟨0, 2048, fun _ => 0, 0, 0, fun _ => []⟩, .new 8,
    [⟨3, 3, 0, 0, true, true⟩]⟩
  endpoints := [⟨some 0, fun _ => []⟩]
  publications := [.new publication 0]
  roundRobinIndex := 0
  heartbeatIntervalNs := 100
  rttmIntervalNs := 100

theorem SenderAgent.findPublication_ofPublication {publication : Publication}
    {sessionId streamId : BitVec 32} (hsession : publication.toNetwork.sessionId = sessionId)
    (hstream : publication.toNetwork.streamId = streamId) :
    (SenderAgent.ofPublication publication).findPublication sessionId streamId =
      some (.new publication 0, 0) := by
  have hmatch : (PublicationEntry.new publication 0).sessionId = sessionId ∧
      (PublicationEntry.new publication 0).streamId = streamId := ⟨hsession, hstream⟩
  exact List.find?_cons_of_pos (decide_eq_true hmatch)

/-- **A retransmission comes from the term that was asked for**, exactly when its request finds only
that: for every publication of either kind, after every run of offers and scans whose frames and term
count stay below `2 ^ 31`, and every request for the start of an accepted frame. -/
theorem from_asked_term_iff {crossThread : Bool} {sessionId streamId initialTermId : BitVec 32}
    {termLength mtu : Nat} {p : Publication}
    (hnew : Publication.create crossThread sessionId streamId initialTermId termLength mtu = some p)
    (as : List PubAction) (hsized : Meets PubRun.Sized PubRun.step (PubRun.start p) as)
    {s : SenderAgent} {req : RetransmitRequest} {e : PublicationEntry} {pubIdx : Nat}
    {ep : SendChannelEndpoint}
    (hfind : s.findPublication req.sessionId req.streamId = some (e, pubIdx))
    (hpub : e.publication = (run PubRun.step (PubRun.start p) as).publication)
    (hep : s.endpoints[e.endpointIdx]? = some ep) {offered : Int × List UInt8}
    (hoffered : offered ∈ (run PubRun.step (PubRun.start p) as).accepted)
    (hask : req.AsksFor ⟨initialTermId, sessionId, streamId, termLength⟩ offered) :
    s.FromAskedTerm e.publication.toNetwork req ↔ e.FindsOnlyAsked req := by
  obtain ⟨rs, n, hlog⟩ := PubRun.logged_run hnew hsized
  generalize run PubRun.step (PubRun.start p) as = r at hlog hpub hoffered
  obtain ⟨first, hfirst, hat⟩ := hlog.asked hoffered hask
  have hrec : PubRun.AtRecord _ r rs n e req first := ⟨hlog, by rw [hpub]; rfl, hfirst, hat⟩
  rw [SenderAgent.FromAskedTerm, s.retransmits_of_find hfind hep, List.map_eq_nil_iff,
    List.forall_mem_map, PublicationEntry.FindsOnlyAsked]
  by_cases hrange : e.InTermBuffer req
  · by_cases hover : e.publication.toNetwork.Overwritten req.termId
    · -- the partition holds another term, so that only an empty answer will do
      have hnil := hrec.frames_eq_nil_iff hrange
      constructor
      · rintro ⟨-, hempty⟩ -
        exact .inr (hnil.mp (hempty hover))
      · intro hfinds
        have hempty := hnil.mpr ((hfinds hrange).resolve_left (not_not_intro hover))
        exact ⟨by simp [hempty], fun _ => hempty⟩
    · -- the term is still there, and what is found is the record that was asked for
      have hcovers := hrec.covers (Nat.lt_of_not_le (mt hrec.overwritten_iff.mpr hover))
      exact ⟨fun _ _ => .inl hover, fun _ => ⟨hcovers, fun hgone => absurd hgone hover⟩⟩
  · -- a request beyond the buffer is not answered
    have hempty : e.retransmitFrames req = [] := if_neg hrange
    exact ⟨fun _ hin => absurd hin hrange, fun _ => ⟨by simp [hempty], fun _ => hempty⟩⟩

/-- Terms of 128 bytes: two 64-byte frames fill term 0 and are sent, 128-byte frames fill terms 1 and
2, a 64-byte frame opens term 3. -/
def PubRun.fourTerms : List PubAction :=
  [.offer (List.replicate 32 1), .offer (List.replicate 32 2), .scan 128,
    .offer (List.replicate 96 3), .offer (List.replicate 96 3), .offer (List.replicate 96 4),
    .offer (List.replicate 96 4), .offer (List.replicate 32 5), .offer (List.replicate 32 5)]

/-- While the publisher is in term 3, a request for the second frame of term 0 is answered from it. -/
theorem from_asked_term_fourTerms :
    let p := (Publication.create false 7 1 0 128 1408).get rfl
    let s := SenderAgent.ofPublication (run PubRun.step (PubRun.start p) PubRun.fourTerms).publication
    s.FromAskedTerm (run PubRun.step (PubRun.start p) PubRun.fourTerms).network ⟨7, 1, 0, 64, 64⟩ ∧
      (s.retransmits ⟨7, 1, 0, 64, 64⟩).length = 1 :=
  ⟨(from_asked_term_iff (Option.some_get _).symm PubRun.fourTerms (by decide +kernel)
    (SenderAgent.findPublication_ofPublication (by decide +kernel) (by decide +kernel)) rfl rfl
    (show (128, List.replicate 32 2) ∈ _ by decide +kernel) (by decide +kernel)).mpr
      (by decide +kernel), by decide +kernel⟩

/-- **A retransmission from another term.** From there, with the sender at position 128 and 448 bytes
published, one more frame is offered. It does not fit term 3, and its retry goes to term 4, in the
partition of term 0. A request for the first frame of term 0 passes the range test, because its
position is not more than three terms behind the sender, and is answered with the frame of term 4. -/
theorem retransmit_other_term :
    let p := (Publication.create false 7 1 0 128 1408).get rfl
    let offers := PubRun.fourTerms ++ [.offer (List.replicate 96 6), .offer (List.replicate 96 6)]
    let r := run PubRun.step (PubRun.start p) offers
    let s := SenderAgent.ofPublication r.publication
    Meets PubRun.Sized PubRun.step (PubRun.start p) offers ∧
      r.network.senderPosition = 128 ∧ r.network.pubPosition = 640 ∧
      (64, List.replicate 32 1) ∈ r.accepted ∧
      RetransmitRequest.AsksFor ⟨7, 1, 0, 0, 64⟩ ⟨0, 7, 1, 128⟩ (64, List.replicate 32 1) ∧
      (s.retransmits ⟨7, 1, 0, 0, 64⟩).map (fun frame => (DataHeader.parse frame).map
        fun header => (header.termId, header.termOffset)) = [some (4, 0)] ∧
      ¬ s.FromAskedTerm r.network ⟨7, 1, 0, 0, 64⟩ := by
  decide +kernel

end AeronRs
