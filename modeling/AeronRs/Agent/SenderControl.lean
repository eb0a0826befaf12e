import AeronRs.Agent.SenderSlots
import AeronRs.Agent.SenderCycle

/-! # What a cycle of the sender transmits

The kernel reads the bytes of a submission when the ring is submitted, at the end of a cycle. The
invariant **`Sent`** follows the passes of a cycle: the entries on the ring are those of the sends so
far, and the scratch buffers hold what the control sends have written to them, one over the other.
At the flush a control message is read back as it was built exactly when no different message went
through the same buffer. -/

namespace AeronRs

open Runs

/-! ## Sends and their memory -/

namespace SenderAgent

/-- The socket through which an endpoint sends. -/
def fdOf (s : SenderAgent) (endpointIdx : Nat) : Nat :=
  (((s.endpoints[endpointIdx]?).bind SendChannelEndpoint.transportIdx).bind fun transportIdx =>
    (s.poller.transports[transportIdx % 2 ^ 16]?).map TransportEntry.sendFd).getD 0

/-- Every endpoint is registered and its transport is active. -/
def Ready (s : SenderAgent) : Prop :=
  ∀ (i : Nat) ep, s.endpoints[i]? = some ep → ∃ transportIdx,
    ep.transportIdx = some transportIdx ∧ ActiveTransport s.poller transportIdx (s.fdOf i)

def scratchAt (s : SenderAgent) (key : Nat × SendBuf) : List UInt8 :=
  s.resolve (.scratch key.1 key.2)

def logAt (s : SenderAgent) (pubIdx : Nat) : Option RawLog :=
  (s.publications[pubIdx]?).map fun e => e.publication.toNetwork.rawLog

theorem resolve_log (s : SenderAgent) (pubIdx addr len : Nat) :
    s.resolve (.log pubIdx addr len) =
      ((s.logAt pubIdx).map fun log => log.buffer.read addr len).getD [] := by
  unfold logAt resolve
  rw [Option.map_map]
  rfl

/-- A change to a publication that leaves its log alone leaves every log alone. -/
theorem logAt_modifyPublication {s : SenderAgent} {idx : Nat}
    {f : PublicationEntry → PublicationEntry}
    (hf : ∀ e, s.publications[idx]? = some e →
      (f e).publication.toNetwork.rawLog = e.publication.toNetwork.rawLog) (i : Nat) :
    (s.modifyPublication idx f).logAt i = s.logAt i := by
  unfold logAt modifyPublication
  by_cases hi : idx = i
  · subst hi
    rw [List.getElem?_modify_eq]
    cases he : s.publications[idx]? with
    | none => rfl
    | some e => exact congrArg some (hf e he)
  · rw [List.getElem?_modify_ne _ _ hi]

end SenderAgent

namespace SendEvent

/-- The submission that a send makes, given the sockets of the endpoints. -/
def send (fd : Nat → Nat) : SendEvent → Send SendPtr
  | control _ endpointIdx msg dest _ => ⟨fd endpointIdx, .scratch endpointIdx msg.buf, dest⟩
  | data pubIdx endpointIdx addr bytes dest _ =>
      ⟨fd endpointIdx, .log pubIdx addr bytes.length, dest⟩

/-- The bytes that a send is meant to transmit. -/
def bytes : SendEvent → List UInt8
  | control _ _ msg _ _ => msg.encode
  | data _ _ _ bytes _ _ => bytes

/-- The datagram that a send is meant to become. -/
def datagram (fd : Nat → Nat) (ev : SendEvent) : Datagram :=
  ⟨(ev.send fd).fd, (ev.send fd).dest, ev.bytes⟩

def isControl (ev : SendEvent) : Bool := !ev.isFrame

/-- What a control send writes to a scratch buffer. -/
def scratchWrite : SendEvent → Option ((Nat × SendBuf) × List UInt8)
  | control _ endpointIdx msg _ _ => some ((endpointIdx, msg.buf), msg.encode)
  | data .. => none

end SendEvent

/-! ## What a cycle has to send -/

/-- The sends that a pass can make at most: the due messages, and the data frames that the window
and the committed data admit. -/
def PublicationEntry.demand (e : PublicationEntry) (heartbeatIntervalNs rttmIntervalNs nowNs : Int) :
    Nat :=
  (e.dueMessages heartbeatIntervalNs rttmIntervalNs nowNs).length +
    (takeBudget slotLength e.available e.publication.toNetwork.committed).countP SendState.isData

namespace SenderAgent

/-- The sends that the pass over one publication can make at most. -/
def demandAt (s : SenderAgent) (nowNs : Int) (pubIdx : Nat) : Nat :=
  ((s.publications[pubIdx]?).map fun e =>
    e.demand s.heartbeatIntervalNs s.rttmIntervalNs nowNs).getD 0

/-- The control sends of one pass: the messages that are due, each through the endpoint of its
publication. -/
def controlSends (s : SenderAgent) (nowNs : Int) (pubIdx : Nat) : List SendEvent :=
  ((s.publications[pubIdx]?).map fun e =>
    (e.dueMessages s.heartbeatIntervalNs s.rttmIntervalNs nowNs).map fun msg =>
      .control pubIdx e.endpointIdx msg e.destAddr (.ok ())).getD []

theorem mem_controlSends {s : SenderAgent} {nowNs : Int} {pubIdx : Nat} {ev : SendEvent} :
    ev ∈ s.controlSends nowNs pubIdx ↔ ∃ e, s.publications[pubIdx]? = some e ∧
      ∃ msg ∈ e.dueMessages s.heartbeatIntervalNs s.rttmIntervalNs nowNs,
        .control pubIdx e.endpointIdx msg e.destAddr (.ok ()) = ev := by
  unfold controlSends
  cases s.publications[pubIdx]? with
  | none => simp
  | some e => simp

theorem filter_controlSends (s : SenderAgent) (nowNs : Int) (pubIdx : Nat) :
    (s.controlSends nowNs pubIdx).filter SendEvent.isControl = s.controlSends nowNs pubIdx := by
  refine List.filter_eq_self.mpr fun ev hev => ?_
  obtain ⟨e, -, msg, -, rfl⟩ := mem_controlSends.mp hev
  rfl

end SenderAgent

/-! ## The invariant of a cycle -/

/-- **Between the passes of a cycle** that started from `s₀`: there is room for `n` more sends, the
entries of the sends so far are on the ring, the scratch buffers hold what was written to them, and
the logs are untouched. -/
structure Sent (s₀ : SenderAgent) (st : SendState) (n : Nat) : Prop where
  transportIdx : st.agent.endpoints.map SendChannelEndpoint.transportIdx =
    s₀.endpoints.map SendChannelEndpoint.transportIdx
  transports : st.agent.poller.transports = s₀.poller.transports
  room : HasRoom st.agent.poller n
  submitted : Submitted s₀.poller.sq st.agent.poller (st.events.map (SendEvent.send s₀.fdOf))
  scratch : st.agent.scratchAt = written s₀.scratchAt (st.events.filterMap SendEvent.scratchWrite)
  logs : ∀ i, st.agent.logAt i = s₀.logAt i
  frames : ∀ ev ∈ st.events, ev.isFrame = true → s₀.resolve (ev.send s₀.fdOf).data = ev.bytes

namespace Sent

variable {s₀ : SenderAgent} {st : SendState} {n : Nat}
variable {pubIdx : Nat} {nowNs : Int} {e : PublicationEntry} {ep : SendChannelEndpoint}

theorem start (h : HasRoom s₀.poller n) : Sent s₀ s₀.beginSend n :=
  ⟨rfl, rfl, h, submitted_nil s₀.poller, rfl, fun _ => rfl, by simp [SenderAgent.beginSend]⟩

theorem exists_registered (h : Sent s₀ st n) (hready : s₀.Ready) {i : Nat}
    (hep : st.agent.endpoints[i]? = some ep) :
    ∃ transportIdx, ep.transportIdx = some transportIdx ∧
      ActiveTransport st.agent.poller transportIdx (s₀.fdOf i) := by
  have hget := congrArg (·[i]?) h.transportIdx
  simp only [List.getElem?_map, hep, Option.map_some] at hget
  obtain ⟨ep₀, hep₀, htransport⟩ := Option.map_eq_some_iff.mp hget.symm
  obtain ⟨transportIdx, hreg, hactive⟩ := hready i ep₀ hep₀
  refine ⟨transportIdx, htransport.symm.trans hreg, ?_⟩
  unfold ActiveTransport
  rw [h.transports]
  exact hactive

/-- Writing to a scratch buffer of an endpoint is an update of the scratch memory. -/
theorem scratchAt_set {s : SenderAgent} {i : Nat} (hep : s.endpoints[i]? = some ep) (buf : SendBuf)
    (bytes : List UInt8) {p : UringPoller SendPtr} :
    ({ s with
        endpoints := s.endpoints.set i { ep with scratch := Function.update ep.scratch buf bytes }
        poller := p } : SenderAgent).scratchAt =
      Function.update s.scratchAt (i, buf) bytes := by
  have hlt := (List.getElem?_eq_some_iff.mp hep).1
  funext key
  obtain ⟨j, buf'⟩ := key
  simp only [SenderAgent.scratchAt, SenderAgent.resolve, Function.update_apply, Prod.mk.injEq]
  by_cases hij : i = j
  · subst hij
    rw [List.getElem?_set_self hlt]
    by_cases hbuf : buf' = buf
    · simp [hbuf]
    · simp [hbuf, hep]
  · rw [List.getElem?_set_ne hij, if_neg fun h => hij h.1.symm]

/-- **A control send** takes one slot and replaces the contents of one scratch buffer. -/
theorem sendControl (h : Sent s₀ st (n + 1)) (hready : s₀.Ready)
    (hep : st.agent.endpoints[e.endpointIdx]? = some ep) (msg : ControlMessage) :
    Sent s₀ (SendState.sendControl pubIdx e st msg) n ∧
      (SendState.sendControl pubIdx e st msg).events =
        st.events ++ [.control pubIdx e.endpointIdx msg e.destAddr (.ok ())] := by
  obtain ⟨transportIdx, hreg, hactive⟩ := h.exists_registered hready hep
  obtain ⟨hok, hroom, htransports, hsubmitted⟩ := submitSend_spec h.room hactive
    (.scratch e.endpointIdx msg.buf) e.destAddr
  rw [SendState.sendControl_eq hep hreg msg, hok]
  refine ⟨⟨?_, htransports.trans h.transports, hroom, ?_, ?_, h.logs, ?_⟩, rfl⟩
  · refine Eq.trans ?_ h.transportIdx
    exact SendState.map_transportIdx_set hep rfl
  · rw [List.map_append]
    exact hsubmitted _ _ h.submitted
  · -- the new contents shadow whatever the buffer held
    rw [List.filterMap_append, written_append, ← h.scratch]
    exact scratchAt_set hep msg.buf msg.encode
  · intro ev hev hframe
    rcases List.mem_append.mp hev with hold | hnew
    · exact h.frames ev hold hframe
    · obtain rfl := List.mem_singleton.mp hnew
      cases hframe

/-- Noting a time touches no buffer and no log. -/
theorem touch (h : Sent s₀ st n) (pubIdx : Nat) {f : PublicationEntry → PublicationEntry}
    (hf : ∀ e, (f e).timeless = e.timeless) : Sent s₀ (st.touch pubIdx f) n := by
  refine ⟨h.transportIdx, h.transports, h.room, h.submitted, h.scratch, ?_, h.frames⟩
  intro i
  rw [← h.logs i]
  refine SenderAgent.logAt_modifyPublication (fun e _ => ?_) i
  have hpub : (f e).publication = e.publication := congrArg (·.publication) (hf e)
  rw [hpub]

/-- **The control phase of a pass** makes one send for each message that is due. -/
theorem controlPhase {nowNs : Int} {pubIdx : Nat} {e : PublicationEntry} (hready : s₀.Ready)
    (h : Sent s₀ st ((e.dueMessages st.agent.heartbeatIntervalNs st.agent.rttmIntervalNs
      nowNs).length + n))
    (hep : e.endpointIdx < st.agent.endpoints.length) :
    Sent s₀ (SendState.controlPhase nowNs pubIdx e st) n ∧
      (SendState.controlPhase nowNs pubIdx e st).events = st.events ++
        (e.dueMessages st.agent.heartbeatIntervalNs st.agent.rttmIntervalNs nowNs).map fun msg =>
          .control pubIdx e.endpointIdx msg e.destAddr (.ok ()) := by
  -- after some of the messages there is still room for the others
  have hphase := @SendState.controlPhase_induction
    (fun msgs st' => ∀ k, msgs.length + k = (e.dueMessages st.agent.heartbeatIntervalNs
        st.agent.rttmIntervalNs nowNs).length + n →
      Sent s₀ st' k ∧ e.endpointIdx < st'.agent.endpoints.length ∧
        st'.events = st.events ++ msgs.map fun msg =>
          .control pubIdx e.endpointIdx msg e.destAddr (.ok ()))
    nowNs pubIdx e st ?_ ?_ ?_
  · obtain ⟨hsent, -, hevents⟩ := hphase n rfl
    exact ⟨hsent, hevents⟩
  · intro k hk
    rw [List.length_nil, Nat.zero_add] at hk
    subst hk
    exact ⟨h, hep, by simp⟩
  · intro msgs st' msg ih k hk
    rw [List.length_append, List.length_singleton, Nat.add_assoc, Nat.add_comm 1] at hk
    obtain ⟨hsent, hlt, hevents⟩ := ih (k + 1) hk
    obtain ⟨hsent', hevents'⟩ := hsent.sendControl hready (List.getElem?_eq_getElem hlt) msg
    refine ⟨hsent', ?_, ?_⟩
    · have hlen := congrArg List.length (hsent'.transportIdx.trans hsent.transportIdx.symm)
      simp only [List.length_map] at hlen
      rw [hlen]
      exact hlt
    · rw [hevents', hevents, List.map_append, List.append_assoc]
      rfl
  · intro msgs st' f hf ih k hk
    obtain ⟨hsent, hlt, hevents⟩ := ih k hk
    exact ⟨hsent.touch pubIdx hf, hlt, hevents⟩

/-- Less room is enough for fewer sends. -/
theorem mono {k : Nat} (h : Sent s₀ st n) (hk : k ≤ n) : Sent s₀ st k := by
  obtain ⟨hpool, hslots, hentries⟩ := h.room
  exact { h with room := ⟨hpool, by omega, by omega⟩ }

/-- A scanned frame is what the log held when the cycle started. -/
theorem resolve_committed (h : Sent s₀ st n) (he : st.agent.publications[pubIdx]? = some e)
    {frame : Nat × List UInt8} (hframe : frame ∈ e.publication.toNetwork.committed) :
    s₀.resolve (.log pubIdx (e.publication.toNetwork.senderBase + frame.1) frame.2.length) =
      frame.2 := by
  rw [SenderAgent.resolve_log, ← h.logs pubIdx, SenderAgent.logAt, he]
  exact read_of_mem_walk hframe

/-- **The scan of a pass** sends frames of the log, and leaves the log as it is. -/
theorem scan {limit : Nat} {e₁ : PublicationEntry} (hready : s₀.Ready)
    {frames : List (Nat × List UInt8)}
    (h : Sent s₀ st ((frames.filter SendState.isData).length + n))
    (he₁ : st.agent.publications[pubIdx]? = some e₁) (hpub : e₁.publication = e.publication)
    (hep : st.agent.endpoints[e.endpointIdx]? = some ep)
    (hframes : frames ⊆ e.publication.toNetwork.committed) :
    Sent s₀ (SendState.finishScan nowNs pubIdx (e.publication.senderScan limit).1
      (e.publication.senderScan limit).2.2
      (frames.foldl (SendState.emit pubIdx e ep e.publication.toNetwork.senderBase) st)) n := by
  obtain ⟨transportIdx, hreg, hactive⟩ := h.exists_registered hready hep
  obtain ⟨p, hfold, hroom, htransports, hsubmitted⟩ := @SendState.foldl_sendFrame_of_room pubIdx e ep
    e.publication.toNetwork.senderBase transportIdx (s₀.fdOf e.endpointIdx) hreg
    (frames.filter SendState.isData) st n hactive h.room
  rw [SendState.foldl_emit_eq, hfold]
  refine ⟨h.transportIdx, htransports.trans h.transports, hroom, ?_, ?_, ?_, ?_⟩
  · refine (congrArg (Submitted s₀.poller.sq p) ?_).mpr (hsubmitted _ _ h.submitted)
    rw [SendState.finishScan, List.map_append, List.map_map]
    rfl
  · -- a frame writes to no scratch buffer
    have hnone : ((frames.filter SendState.isData).map fun frame => SendState.dataEvent pubIdx e
        e.publication.toNetwork.senderBase frame (.ok ())).filterMap SendEvent.scratchWrite = [] := by
      rw [List.filterMap_map]
      exact List.filterMap_eq_nil_iff.mpr fun _ _ => rfl
    refine h.scratch.trans ?_
    rw [SendState.finishScan, List.filterMap_append, hnone, List.append_nil]
  · intro i
    rw [← h.logs i]
    refine SenderAgent.logAt_modifyPublication (fun e' he' => ?_) i
    obtain rfl : e₁ = e' := Option.some.inj (he₁.symm.trans he')
    -- the scan moves the position of the sender only
    have hscan := congrArg Prod.fst (e.publication.toNetwork_senderScan limit)
    rw [NetworkPublication.senderScan_eq_takeBudget] at hscan
    have hlog := congrArg NetworkPublication.rawLog hscan
    rw [hpub]
    exact hlog
  · intro ev hev hframe
    rcases List.mem_append.mp hev with hold | hnew
    · exact h.frames ev hold hframe
    · obtain ⟨frame, hmem, rfl⟩ := List.mem_map.mp hnew
      have hcommitted := hframes (List.mem_of_mem_filter hmem)
      rw [← hpub] at hcommitted ⊢
      exact h.resolve_committed he₁ hcommitted

/-- **A pass** sends the messages that are due, and frames. -/
theorem pass_of_some (hready : s₀.Ready) (hwired : st.agent.Wired)
    (he : st.agent.publications[pubIdx]? = some e)
    (h : Sent s₀ st (e.demand st.agent.heartbeatIntervalNs st.agent.rttmIntervalNs nowNs + n)) :
    Sent s₀ (SendState.pass nowNs st pubIdx) n ∧
      (SendState.pass nowNs st pubIdx).events.filter SendEvent.isControl =
        st.events.filter SendEvent.isControl ++ st.agent.controlSends nowNs pubIdx := by
  obtain ⟨ep, hep⟩ := SendState.exists_endpoint hwired he
  have hlt : e.endpointIdx < st.agent.endpoints.length := (List.getElem?_eq_some_iff.mp hep).1
  unfold PublicationEntry.demand at h
  rw [Nat.add_assoc] at h
  obtain ⟨hcontrol, hevents⟩ := @Sent.controlPhase s₀ st _ nowNs pubIdx e hready h hlt
  refine ⟨?_, ?_⟩
  · by_cases hlimit : 0 < SendState.passLimit nowNs pubIdx e st
    · -- the scan stays within the demand, however many slots there are
      have hprefix : SendState.passFrames nowNs pubIdx e st <+:
          takeBudget slotLength e.available e.publication.toNetwork.committed := by
        rw [SendState.passFrames_eq]
        exact takeBudget_isPrefix slotLength (e.scanLimit_le _) _
      have hcount : ((SendState.passFrames nowNs pubIdx e st).filter SendState.isData).length ≤ _ :=
        List.countP_eq_length_filter ▸ hprefix.sublist.countP_le
      obtain ⟨ep', hep', -, hpass⟩ := SendState.pass_of_pos he hep hlimit
      obtain ⟨e₁, he₁, htime⟩ :=
        (SendState.controlPhase_frame nowNs pubIdx e st).exists_entry he
      rw [hpass]
      refine Sent.scan hready (hcontrol.mono ?_) he₁ (congrArg (·.publication) htime) hep' ?_
      · exact Nat.add_le_add_right hcount n
      · rw [SendState.passFrames_eq]
        obtain ⟨rest, hsplit, -⟩ := takeBudget_split slotLength
          (SendState.passLimit nowNs pubIdx e st) e.publication.toNetwork.committed
        intro frame hframe
        rw [hsplit]
        exact List.mem_append_left rest hframe
    · rw [SendState.pass_of_zero he hep hlimit]
      exact hcontrol.mono (Nat.le_add_left _ _)
  · -- what the scan adds are frames, so the control sends are those of the control phase
    obtain ⟨results, -, hpass⟩ := (@SendState.pass_spec nowNs pubIdx st e ep he hep).events
    have hsends : st.agent.controlSends nowNs pubIdx = (e.dueMessages st.agent.heartbeatIntervalNs
        st.agent.rttmIntervalNs nowNs).map fun msg =>
          .control pubIdx e.endpointIdx msg e.destAddr (.ok ()) := by
      rw [SenderAgent.controlSends, he]
      rfl
    have hscan : (List.zipWith (SendState.dataEvent pubIdx e e.publication.toNetwork.senderBase)
        ((SendState.passFrames nowNs pubIdx e st).filter SendState.isData) results).filter
          SendEvent.isControl = [] := by
      refine List.filter_eq_nil_iff.mpr fun ev hev => ?_
      simp [SendEvent.isControl, SendState.isFrame_of_mem_zipWith _ _ _ _ _ ev hev]
    rw [hpass, hevents, ← hsends, List.filter_append, List.filter_append, hscan, List.append_nil,
      SenderAgent.filter_controlSends]

theorem pass (pubIdx : Nat) (hready : s₀.Ready) (hwired : st.agent.Wired)
    (h : Sent s₀ st (st.agent.demandAt nowNs pubIdx + n)) :
    Sent s₀ (SendState.pass nowNs st pubIdx) n ∧
      (SendState.pass nowNs st pubIdx).events.filter SendEvent.isControl =
        st.events.filter SendEvent.isControl ++ st.agent.controlSends nowNs pubIdx := by
  cases he : st.agent.publications[pubIdx]? with
  | none =>
      rw [SendState.pass_of_none he, SenderAgent.controlSends, he]
      exact ⟨h.mono (Nat.le_add_left _ _), (List.append_nil _).symm⟩
  | some e =>
      rw [SenderAgent.demandAt, he] at h
      exact pass_of_some hready hwired he h

/-- **The passes of a cycle**, one for each publication of a list without repetitions. -/
theorem passes (hready : s₀.Ready) {order : List Nat} (hnodup : order.Nodup)
    (hwired : st.agent.Wired)
    (hintervals : st.intervals = (s₀.heartbeatIntervalNs, s₀.rttmIntervalNs))
    (hsame : ∀ i ∈ order, st.agent.publications[i]? = s₀.publications[i]?)
    (h : Sent s₀ st ((order.map (s₀.demandAt nowNs)).sum + n)) :
    Sent s₀ (run (SendState.pass nowNs) st order) n ∧
      (run (SendState.pass nowNs) st order).events.filter SendEvent.isControl =
        st.events.filter SendEvent.isControl ++ order.flatMap (s₀.controlSends nowNs) := by
  induction order generalizing st with
  | nil => exact ⟨by simpa using h, by simp⟩
  | cons i order ih =>
      obtain ⟨hi, hnodup'⟩ := List.nodup_cons.mp hnodup
      -- nothing has happened to the publication of this pass yet
      have hown := hsame i List.mem_cons_self
      have hheartbeat : st.agent.heartbeatIntervalNs = s₀.heartbeatIntervalNs :=
        congrArg Prod.fst hintervals
      have hrttm : st.agent.rttmIntervalNs = s₀.rttmIntervalNs := congrArg Prod.snd hintervals
      have hdemand : s₀.demandAt nowNs i = st.agent.demandAt nowNs i := by
        rw [SenderAgent.demandAt, SenderAgent.demandAt, hown, hheartbeat, hrttm]
      have hsends : s₀.controlSends nowNs i = st.agent.controlSends nowNs i := by
        rw [SenderAgent.controlSends, SenderAgent.controlSends, hown, hheartbeat, hrttm]
      rw [List.map_cons, List.sum_cons, Nat.add_assoc, hdemand] at h
      obtain ⟨hsent, hevents⟩ := h.pass i hready hwired
      rw [run_cons, List.flatMap_cons, hsends, ← List.append_assoc, ← hevents]
      refine ih hnodup' (SendState.wired_pass hwired i)
        ((SendState.pass_intervals hwired i).trans hintervals) ?_ hsent
      intro j hj
      have hji : j ≠ i := fun hji => hi (hji ▸ hj)
      rw [SendState.pass_others hwired hji]
      exact hsame j (List.mem_cons_of_mem _ hj)

/-- What a send's pointer reads when the ring is submitted: a frame of the log, or whatever was
written last to its buffer. -/
theorem resolve_iff (h : Sent s₀ st n) :
    (∀ ev ∈ st.events, st.agent.resolve (ev.send s₀.fdOf).data = ev.bytes) ↔
      ∀ a ∈ st.events.filterMap SendEvent.scratchWrite,
        ∀ b ∈ st.events.filterMap SendEvent.scratchWrite, a.1 = b.1 → a.2 = b.2 := by
  rw [← readBack_iff s₀.scratchAt, ← h.scratch]
  constructor
  · intro hread w hw
    obtain ⟨ev, hev, hwrite⟩ := List.mem_filterMap.mp hw
    cases ev with
    | control pubIdx endpointIdx msg dest result =>
        obtain rfl := Option.some.inj hwrite
        exact hread _ hev
    | data => cases hwrite
  · intro hread ev hev
    cases ev with
    | control pubIdx endpointIdx msg dest result =>
        exact hread _ (List.mem_filterMap.mpr ⟨_, hev, rfl⟩)
    | data pubIdx endpointIdx addr bytes dest result =>
        -- the logs are as they were
        have hframe := h.frames _ hev rfl
        rw [← hframe]
        simp only [SendEvent.send, SenderAgent.resolve_log, h.logs]

end Sent

namespace SenderAgent

variable {nowNs : Int}

def cycle (s : SenderAgent) (nowNs : Int) : SendState :=
  run (SendState.pass nowNs) s.beginSend s.passOrder

/-- Any two messages that are due now for the same buffer of the same endpoint are equal. -/
def SameByBuffer (s : SenderAgent) (nowNs : Int) : Prop :=
  ∀ e ∈ s.publications, ∀ e' ∈ s.publications, e.endpointIdx = e'.endpointIdx →
    ∀ msg ∈ e.dueMessages s.heartbeatIntervalNs s.rttmIntervalNs nowNs,
      ∀ msg' ∈ e'.dueMessages s.heartbeatIntervalNs s.rttmIntervalNs nowNs,
        msg.buf = msg'.buf → msg = msg'

instance (s : SenderAgent) (nowNs : Int) : Decidable (s.SameByBuffer nowNs) :=
  inferInstanceAs (Decidable (∀ e ∈ s.publications, ∀ e' ∈ s.publications, _ → _))

theorem mem_scratchWrites {s : SenderAgent} {w : (Nat × SendBuf) × List UInt8} :
    w ∈ (s.passOrder.flatMap (s.controlSends nowNs)).filterMap SendEvent.scratchWrite ↔
      ∃ e ∈ s.publications, ∃ msg ∈ e.dueMessages s.heartbeatIntervalNs s.rttmIntervalNs nowNs,
        ((e.endpointIdx, msg.buf), msg.encode) = w := by
  simp only [List.mem_filterMap, List.mem_flatMap, mem_controlSends]
  constructor
  · rintro ⟨-, ⟨i, -, e, he, msg, hmsg, rfl⟩, hwrite⟩
    exact ⟨e, List.mem_of_getElem? he, msg, hmsg, Option.some.inj hwrite⟩
  · rintro ⟨e, he, msg, hmsg, rfl⟩
    obtain ⟨i, hi⟩ := List.mem_iff_getElem?.mp he
    have hlt := (List.getElem?_eq_some_iff.mp hi).1
    exact ⟨_, ⟨i, mem_passOrder.mpr hlt, e, hi, msg, hmsg, rfl⟩, rfl⟩

theorem sameByBuffer_iff {s : SenderAgent} :
    (∀ a ∈ (s.passOrder.flatMap (s.controlSends nowNs)).filterMap SendEvent.scratchWrite,
      ∀ b ∈ (s.passOrder.flatMap (s.controlSends nowNs)).filterMap SendEvent.scratchWrite,
        a.1 = b.1 → a.2 = b.2) ↔ s.SameByBuffer nowNs := by
  constructor
  · intro h e he e' he' hidx msg hmsg msg' hmsg' hbuf
    refine (ControlMessage.encode_inj hbuf).mp ?_
    exact h _ (mem_scratchWrites.mpr ⟨e, he, msg, hmsg, rfl⟩) _
      (mem_scratchWrites.mpr ⟨e', he', msg', hmsg', rfl⟩) (Prod.ext hidx hbuf)
  · intro h a ha b hb hkey
    obtain ⟨e, he, msg, hmsg, rfl⟩ := mem_scratchWrites.mp ha
    obtain ⟨e', he', msg', hmsg', rfl⟩ := mem_scratchWrites.mp hb
    obtain ⟨hidx, hbuf⟩ := Prod.mk.inj hkey
    exact congrArg ControlMessage.encode (h e he e' he' hidx msg hmsg msg' hmsg' hbuf)

/-- **What a cycle transmits.** Its control sends are the messages that are due, one by one; every
send is transmitted with its own bytes exactly when the messages due for a buffer are the same. -/
theorem doSend_datagrams_iff {s : SenderAgent} (hne : s.publications ≠ []) (hwired : s.Wired)
    (hready : s.Ready) (hroom : HasRoom s.poller (s.passOrder.map (s.demandAt nowNs)).sum) :
    (s.doSend nowNs).events.filter SendEvent.isControl =
        s.passOrder.flatMap (s.controlSends nowNs) ∧
      ((s.doSend nowNs).datagrams =
          s.poller.sq.filterMap
            ((s.cycle nowNs).agent.poller.datagramOf (s.cycle nowNs).agent.resolve) ++
            (s.doSend nowNs).events.map (SendEvent.datagram s.fdOf) ↔
        s.SameByBuffer nowNs) := by
  obtain ⟨hsent, hcontrol⟩ : Sent s (s.cycle nowNs) 0 ∧ (s.cycle nowNs).events.filter
      SendEvent.isControl = s.passOrder.flatMap (s.controlSends nowNs) :=
    (Sent.start hroom).passes hready s.nodup_passOrder hwired rfl fun _ _ => rfl
  -- only control messages go through the scratch buffers
  have hwrites : (s.cycle nowNs).events.filterMap SendEvent.scratchWrite =
      (s.passOrder.flatMap (s.controlSends nowNs)).filterMap SendEvent.scratchWrite := by
    rw [← hcontrol, List.filterMap_filter]
    congr 1
    funext ev
    cases ev <;> rfl
  have hcycle : s.doSend nowNs = ⟨{ (s.cycle nowNs).agent with
      poller := ((s.cycle nowNs).agent.poller.flush (s.cycle nowNs).agent.resolve).1 },
      (s.cycle nowNs).totalBytes, (s.cycle nowNs).events,
      ((s.cycle nowNs).agent.poller.flush (s.cycle nowNs).agent.resolve).2⟩ := if_neg hne
  rw [hcycle]
  refine ⟨hcontrol, ?_⟩
  -- the addresses are read at the flush, so each send is compared with the last write
  rw [hsent.submitted.flush_eq, List.append_right_inj, List.map_map, List.map_inj_left,
    ← sameByBuffer_iff, ← hwrites, ← hsent.resolve_iff]
  simp only [Function.comp_apply, SendEvent.datagram, Datagram.mk.injEq, true_and]

end SenderAgent

/-! ## Control messages and their contents -/

/-- **Control messages go out with their own contents exactly when no buffer is given two different
messages.** For a receive endpoint: `send_pending` and the flush after it. For a sender: a cycle of
`do_send`, whose control sends are the messages due for each publication. -/
theorem controlMessages_transmitted_iff {P : Type} (addr : ReceiveBuf → P)
    {ep : ReceiveChannelEndpoint} {p : UringPoller P} {transportIdx fd : Nat}
    (hreg : ep.transportIdx = some transportIdx) (hactive : ActiveTransport p transportIdx fd)
    (hpending : HasRoom p ep.messages.length) (resolve : P → List UInt8)
    (hresolve : ∀ buf, resolve (addr buf) = (ep.sendPending addr p).1.scratch buf)
    {s : SenderAgent} {nowNs : Int} (hne : s.publications ≠ []) (hwired : s.Wired)
    (hready : s.Ready) (hroom : HasRoom s.poller (s.passOrder.map (s.demandAt nowNs)).sum) :
    (((ep.sendPending addr p).2.1.flush resolve).2 =
        p.sq.filterMap ((ep.sendPending addr p).2.1.datagramOf resolve) ++
          ep.messages.map (fun msg => ⟨fd, some msg.2.2, msg.2.1⟩) ↔
      ep.SameByKind) ∧
    (s.doSend nowNs).events.filter SendEvent.isControl =
      s.passOrder.flatMap (s.controlSends nowNs) ∧
    ((s.doSend nowNs).datagrams =
        s.poller.sq.filterMap
          ((s.cycle nowNs).agent.poller.datagramOf (s.cycle nowNs).agent.resolve) ++
          (s.doSend nowNs).events.map (SendEvent.datagram s.fdOf) ↔
      s.SameByBuffer nowNs) :=
  ⟨ReceiveChannelEndpoint.sendPending_flush_iff addr hreg hactive hpending resolve hresolve,
    SenderAgent.doSend_datagrams_iff hne hwired hready hroom⟩

/-- A poller with one transport and the given number of send slots. -/
def UringPoller.idle (P : Type) (slots : Nat) : UringPoller P :=
  ⟨slots, [], [], 0, ⟨0, 2048, fun _ => 0, 0, 0, fun _ => []⟩, .new slots, [⟨3, 3, 0, 0, true, true⟩]⟩

/-- A receive endpoint with status messages for the given offsets pending. -/
def ReceiveChannelEndpoint.pendingAt (offsets : List (BitVec 32)) : ReceiveChannelEndpoint where
  transportIdx := some 0
  receiverId := 9
  pendingSms := offsets.map fun offset => ⟨⟨2, []⟩, 7, 1, 5, offset, 64, 9⟩
  pendingNaks := []
  pendingRttms := []
  scratch := fun _ => []

def SenderAgent.newStreams (streams : List (BitVec 32)) : SenderAgent where
  poller := .idle SendPtr 8
  endpoints := [⟨some 0, fun _ => []⟩]
  publications := streams.map fun stream =>
    .new ((Publication.create false 7 stream 5 128 64).get rfl) 0
  roundRobinIndex := 0
  heartbeatIntervalNs := 100
  rttmIntervalNs := 100

theorem SenderAgent.newStreams_ready (streams : List (BitVec 32)) : (newStreams streams).Ready := by
  intro i ep hep
  obtain ⟨hi, hget⟩ := List.getElem?_eq_some_iff.mp hep
  obtain rfl : i = 0 := by simpa [newStreams] using hi
  subst hget
  exact ⟨0, rfl, _, rfl, rfl, rfl⟩

/-- A receive endpoint that owes one status message to two sources, a NAK and an RTTM reply. -/
def ReceiveChannelEndpoint.pendingMixed : ReceiveChannelEndpoint :=
  { pendingAt [32] with
    pendingSms := [⟨⟨2, []⟩, 7, 1, 5, 32, 64, 9⟩, ⟨⟨2, [1]⟩, 7, 1, 5, 32, 64, 9⟩]
    pendingNaks := [⟨⟨2, []⟩, 7, 1, 5, 32, 64⟩]
    pendingRttms := [⟨⟨2, [1]⟩, 7, 1, 1000, 9⟩] }

/-- Messages of all kinds, of which those of one kind differ in their destination only, and the setup,
heartbeat and RTTM messages of one publication. -/
theorem controlMessages_transmitted_mixed :
    ((ReceiveChannelEndpoint.pendingMixed.sendPending id (.idle ReceiveBuf 8)).2.1.flush
        (ReceiveChannelEndpoint.pendingMixed.sendPending id (.idle ReceiveBuf 8)).1.scratch).2 =
      ReceiveChannelEndpoint.pendingMixed.messages.map (fun msg => ⟨3, some msg.2.2, msg.2.1⟩) ∧
    ReceiveChannelEndpoint.pendingMixed.messages.length = 4 ∧
    ((SenderAgent.newStreams [1]).doSend 1000).datagrams =
      ((SenderAgent.newStreams [1]).doSend 1000).events.map
        (SendEvent.datagram (SenderAgent.newStreams [1]).fdOf) ∧
    ((SenderAgent.newStreams [1]).doSend 1000).events.length = 3 := by
  have h := @controlMessages_transmitted_iff ReceiveBuf id ReceiveChannelEndpoint.pendingMixed
    (.idle ReceiveBuf 8) 0 3 rfl ⟨_, rfl, rfl, rfl⟩
    ⟨SlotPool.wellFormed_new (by decide), by decide, by decide⟩ _ (fun _ => rfl) (SenderAgent.newStreams [1])
    1000 (by decide) (fun _ he => by simp_all [SenderAgent.newStreams, PublicationEntry.new])
    (SenderAgent.newStreams_ready [1])
    ⟨SlotPool.wellFormed_new (by decide), by decide +kernel, by decide +kernel⟩
  exact ⟨h.1.mpr ⟨by decide, by decide, by decide⟩, rfl, h.2.2.mpr (by decide +kernel),
    by decide +kernel⟩

/-- **Two messages in one buffer.** Of two status messages the second is transmitted twice, and of
two publications that share an endpoint the setup of the second is transmitted for both. -/
theorem second_message_transmitted_twice :
    (((ReceiveChannelEndpoint.pendingAt [0, 32]).sendPending id (.idle ReceiveBuf 8)).2.1.flush
        ((ReceiveChannelEndpoint.pendingAt [0, 32]).sendPending id
          (.idle ReceiveBuf 8)).1.scratch).2.map Datagram.bytes =
      (ReceiveChannelEndpoint.pendingAt [32, 32]).messages.map (fun msg => msg.2.1) ∧
    (ReceiveChannelEndpoint.pendingAt [0, 32]).messages.map (fun msg => msg.2.1) ≠
      (ReceiveChannelEndpoint.pendingAt [32, 32]).messages.map (fun msg => msg.2.1) ∧
    ((SenderAgent.newStreams [1, 2]).doSend 1000).datagrams.map Datagram.bytes =
      ((SenderAgent.newStreams [2, 2]).doSend 1000).events.map SendEvent.bytes ∧
    ((SenderAgent.newStreams [1, 2]).doSend 1000).events.map SendEvent.bytes ≠
      ((SenderAgent.newStreams [2, 2]).doSend 1000).events.map SendEvent.bytes := by
  decide +kernel

end AeronRs
