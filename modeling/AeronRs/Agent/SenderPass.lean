import AeronRs.Agent.Sender

/-! # What a pass of the sender does

One pass of `do_send`, taken apart: the messages that are due (`dueMessages`), an induction rule for
the control phase, and the effect of the scan phase on the publication, the send slots and the
events. Nothing in a pass touches another publication, and nothing but the scan touches the
publication itself. -/

namespace AeronRs

/-- An entry without the times of its last sends. -/
def PublicationEntry.timeless (e : PublicationEntry) : PublicationEntry :=
  { e with timeOfLastSendNs := 0, timeOfLastSetupNs := 0, timeOfLastRttmNs := 0 }

/-- The control messages that are due for an entry, in the order in which a pass sends them. -/
def PublicationEntry.dueMessages (e : PublicationEntry) (heartbeatIntervalNs rttmIntervalNs
    nowNs : Int) : List ControlMessage :=
  (if e.needsSetup = true ∧ heartbeatIntervalNs < wrapI64 (nowNs - e.timeOfLastSetupNs) then
    [e.setupMessage] else []) ++
  (if heartbeatIntervalNs < wrapI64 (nowNs - e.timeOfLastSendNs) then [e.heartbeatMessage] else []) ++
  (if rttmIntervalNs < wrapI64 (nowNs - e.timeOfLastRttmNs) then [e.rttmMessage nowNs] else [])

namespace SendState

variable {e : PublicationEntry} {st : SendState} {pubIdx : Nat} {nowNs : Int}
  {ep : SendChannelEndpoint}

def sendControl (pubIdx : Nat) (e : PublicationEntry) (st : SendState) (msg : ControlMessage) :
    SendState :=
  st.control pubIdx e msg fun ep poller =>
    ep.sendControl (.scratch e.endpointIdx) poller msg e.destAddr

/-- Note a time in an entry. -/
def touch (pubIdx : Nat) (f : PublicationEntry → PublicationEntry) (st : SendState) : SendState :=
  { st with agent := st.agent.modifyPublication pubIdx f }

def intervals (st : SendState) : Int × Int := (st.agent.heartbeatIntervalNs, st.agent.rttmIntervalNs)

@[simp] theorem sendControl_intervals (pubIdx : Nat) (e : PublicationEntry) (st : SendState)
    (msg : ControlMessage) : (sendControl pubIdx e st msg).intervals = st.intervals := by
  unfold sendControl control
  split <;> rfl

@[simp] theorem sendControl_publications (pubIdx : Nat) (e : PublicationEntry) (st : SendState)
    (msg : ControlMessage) :
    (sendControl pubIdx e st msg).agent.publications = st.agent.publications := by
  unfold sendControl control
  split <;> rfl

/-- A control send through a registered endpoint: the message is in the scratch buffer of its kind,
and the buffer is submitted. -/
theorem sendControl_eq {transportIdx : Nat} (hep : st.agent.endpoints[e.endpointIdx]? = some ep)
    (hreg : ep.transportIdx = some transportIdx) (msg : ControlMessage) :
    sendControl pubIdx e st msg =
      { st with
        agent := { st.agent with
          endpoints := st.agent.endpoints.set e.endpointIdx
            { ep with scratch := Function.update ep.scratch msg.buf msg.encode }
          poller := (st.agent.poller.submitSend transportIdx (.scratch e.endpointIdx msg.buf)
            e.destAddr).1 }
        events := st.events ++ [.control pubIdx e.endpointIdx msg e.destAddr
          (st.agent.poller.submitSend transportIdx (.scratch e.endpointIdx msg.buf)
            e.destAddr).2] } := by
  simp only [sendControl, control, hep, SendChannelEndpoint.sendControl,
    SendChannelEndpoint.sendData, hreg]

/-- **Induction over the control phase.** What sending a message and noting a time preserve, message
by message, holds of the messages that are due. -/
theorem controlPhase_induction {motive : List ControlMessage → SendState → Prop} {nowNs : Int}
    {pubIdx : Nat} {e : PublicationEntry} {st : SendState} (start : motive [] st)
    (send : ∀ msgs st msg, motive msgs st → motive (msgs ++ [msg]) (sendControl pubIdx e st msg))
    (note : ∀ msgs st f, (∀ e, (f e).timeless = e.timeless) → motive msgs st →
      motive msgs (touch pubIdx f st)) :
    motive (e.dueMessages st.agent.heartbeatIntervalNs st.agent.rttmIntervalNs nowNs)
      (controlPhase nowNs pubIdx e st) := by
  -- one phase: its message is sent and noted if it is due
  have phase : ∀ msgs (st : SendState) (due : Prop) [Decidable due] msg f,
      (∀ e, (f e).timeless = e.timeless) → motive msgs st →
      motive (msgs ++ if due then [msg] else [])
        (if due then touch pubIdx f (sendControl pubIdx e st msg) else st) := by
    intro msgs st due _ msg f hf h
    by_cases hdue : due
    · simp only [if_pos hdue]
      exact note _ _ f hf (send _ _ _ h)
    · simpa only [if_neg hdue, List.append_nil] using h
  have hsetup : motive (if e.needsSetup = true ∧
      st.agent.heartbeatIntervalNs < wrapI64 (nowNs - e.timeOfLastSetupNs) then
      [e.setupMessage] else []) (setupPhase nowNs pubIdx e st) :=
    phase [] st _ e.setupMessage (fun e => { e with timeOfLastSetupNs := nowNs }) (fun _ => rfl) start
  have hint : (setupPhase nowNs pubIdx e st).intervals = st.intervals := by
    unfold setupPhase
    split_ifs
    · exact sendControl_intervals pubIdx e st e.setupMessage
    · rfl
  have hheartbeat : motive (_ ++
      if (setupPhase nowNs pubIdx e st).agent.heartbeatIntervalNs <
        wrapI64 (nowNs - e.timeOfLastSendNs) then [e.heartbeatMessage] else [])
      (heartbeatPhase nowNs pubIdx e (setupPhase nowNs pubIdx e st)) :=
    phase _ _ _ e.heartbeatMessage (fun e => { e with timeOfLastSendNs := nowNs }) (fun _ => rfl)
      hsetup
  rw [show (setupPhase nowNs pubIdx e st).agent.heartbeatIntervalNs =
    st.agent.heartbeatIntervalNs from congrArg Prod.fst hint] at hheartbeat
  have hint' : (heartbeatPhase nowNs pubIdx e (setupPhase nowNs pubIdx e st)).intervals =
      st.intervals := by
    rw [← hint]
    unfold heartbeatPhase
    split_ifs
    · exact sendControl_intervals pubIdx e _ e.heartbeatMessage
    · rfl
  have hrttm : motive (_ ++
      if (heartbeatPhase nowNs pubIdx e (setupPhase nowNs pubIdx e st)).agent.rttmIntervalNs <
        wrapI64 (nowNs - e.timeOfLastRttmNs) then [e.rttmMessage nowNs] else [])
      (controlPhase nowNs pubIdx e st) :=
    phase _ _ _ (e.rttmMessage nowNs) (fun e => { e with timeOfLastRttmNs := nowNs })
      (fun _ => rfl) hheartbeat
  rw [show (heartbeatPhase nowNs pubIdx e (setupPhase nowNs pubIdx e st)).agent.rttmIntervalNs =
    st.agent.rttmIntervalNs from congrArg Prod.snd hint'] at hrttm
  exact hrttm

/-- An endpoint whose scratch buffers change keeps its registration. -/
theorem map_transportIdx_set {endpoints : List SendChannelEndpoint} {i : Nat}
    {ep' : SendChannelEndpoint} (hep : endpoints[i]? = some ep)
    (h : ep'.transportIdx = ep.transportIdx) :
    (endpoints.set i ep').map SendChannelEndpoint.transportIdx =
      endpoints.map SendChannelEndpoint.transportIdx := by
  apply List.ext_getElem?
  intro j
  simp only [List.getElem?_map, List.getElem?_set]
  split_ifs with hj hlt
  · rw [← hj, hep, Option.map_some, Option.map_some, h]
  · rw [← hj, List.getElem?_eq_none (by omega)]
  · rfl

/-- What the control phase of a publication leaves as it was: the other publications, its own one
but for the noted times, and the registration of the endpoints. -/
structure ControlFrame (pubIdx : Nat) (st st' : SendState) : Prop where
  others : ∀ j ≠ pubIdx, st'.agent.publications[j]? = st.agent.publications[j]?
  own : (st'.agent.publications[pubIdx]?).map PublicationEntry.timeless =
    (st.agent.publications[pubIdx]?).map PublicationEntry.timeless
  length : st'.agent.publications.length = st.agent.publications.length
  transportIdx : st'.agent.endpoints.map SendChannelEndpoint.transportIdx =
    st.agent.endpoints.map SendChannelEndpoint.transportIdx
  intervals : st'.intervals = st.intervals

theorem controlPhase_frame (nowNs : Int) (pubIdx : Nat) (e : PublicationEntry) (st : SendState) :
    ControlFrame pubIdx st (controlPhase nowNs pubIdx e st) := by
  refine controlPhase_induction (motive := fun _ st' => ControlFrame pubIdx st st') ?_ ?_ ?_
  · exact ⟨fun _ _ => rfl, rfl, rfl, rfl, rfl⟩
  · rintro - st' msg ⟨hothers, hown, hlen, htransport, hint⟩
    refine ⟨by simpa using hothers, by simpa using hown, by simpa using hlen, ?_,
      (sendControl_intervals ..).trans hint⟩
    rw [← htransport]
    unfold sendControl control
    split
    · rfl
    · next ep hep => exact map_transportIdx_set hep rfl
  · rintro - st' f hf ⟨hothers, hown, hlen, htransport, hint⟩
    refine ⟨?_, ?_, ?_, htransport, hint⟩
    · intro j hj
      rw [← hothers j hj]
      exact List.getElem?_modify_ne _ _ (Ne.symm hj)
    · rw [← hown, touch, SenderAgent.modifyPublication]
      simp only [List.getElem?_modify_eq, Option.map_eq_map, Option.map_map, Function.comp_def, hf]
    · rw [← hlen]
      exact List.length_modify ..

theorem ControlFrame.exists_entry {st' : SendState} (h : ControlFrame pubIdx st st')
    (he : st.agent.publications[pubIdx]? = some e) :
    ∃ e', st'.agent.publications[pubIdx]? = some e' ∧ e'.timeless = e.timeless := by
  have hown := h.own
  rw [he, Option.map_some, Option.map_eq_some_iff] at hown
  exact hown

theorem ControlFrame.exists_endpoint {st' : SendState} {i : Nat} (h : ControlFrame pubIdx st st')
    (hep : st.agent.endpoints[i]? = some ep) :
    ∃ ep', st'.agent.endpoints[i]? = some ep' ∧ ep'.transportIdx = ep.transportIdx := by
  have hget := congrArg (·[i]?) h.transportIdx
  simp only [List.getElem?_map, hep, Option.map_some, Option.map_eq_some_iff] at hget
  exact hget

/-! ## The scan phase -/

/-- A scanned frame that is sent: not a pad. -/
def isData (frame : Nat × List UInt8) : Bool :=
  !decide (8 ≤ frame.2.length ∧ frameTypeOf frame.2 = frameTypePad)

def dataEvent (pubIdx : Nat) (e : PublicationEntry) (base : Nat) (frame : Nat × List UInt8)
    (result : Except PollError Unit) : SendEvent :=
  .data pubIdx e.endpointIdx (base + frame.1) frame.2 e.destAddr result

theorem emit_of_pad {base : Nat} {frame : Nat × List UInt8} (h : isData frame = false) :
    emit pubIdx e ep base st frame = st := by
  simp only [isData, Bool.not_eq_false', decide_eq_true_eq] at h
  rw [emit, if_pos h]

theorem emit_of_data {base : Nat} {frame : Nat × List UInt8} (h : isData frame = true) :
    emit pubIdx e ep base st frame = sendFrame pubIdx e ep base st frame := by
  simp only [isData, Bool.not_eq_true', decide_eq_false_iff_not] at h
  rw [emit, if_neg h]

theorem foldl_emit_eq (pubIdx : Nat) (e : PublicationEntry) (ep : SendChannelEndpoint) (base : Nat)
    (frames : List (Nat × List UInt8)) (st : SendState) :
    frames.foldl (emit pubIdx e ep base) st =
      (frames.filter isData).foldl (sendFrame pubIdx e ep base) st := by
  induction frames generalizing st with
  | nil => rfl
  | cons frame frames ih =>
      rw [List.foldl_cons, ih]
      cases hdata : isData frame with
      | false => rw [emit_of_pad hdata, List.filter_cons_of_neg (by simp [hdata])]
      | true => rw [emit_of_data hdata, List.filter_cons_of_pos hdata, List.foldl_cons]

/-- **Sending frames** touches the poller and the events only: one event for each frame, in order. -/
theorem foldl_sendFrame (pubIdx : Nat) (e : PublicationEntry) (ep : SendChannelEndpoint) (base : Nat)
    (frames : List (Nat × List UInt8)) (st : SendState) :
    ∃ p results, results.length = frames.length ∧
      frames.foldl (sendFrame pubIdx e ep base) st =
        { st with
          agent := { st.agent with poller := p }
          events := st.events ++ List.zipWith (dataEvent pubIdx e base) frames results } := by
  induction frames generalizing st with
  | nil => exact ⟨st.agent.poller, [], rfl, by simp⟩
  | cons frame frames ih =>
      obtain ⟨p, results, hlen, hfold⟩ := ih (sendFrame pubIdx e ep base st frame)
      refine ⟨p, (ep.sendData st.agent.poller (.log pubIdx (base + frame.1) frame.2.length)
        e.destAddr).2 :: results, by simp [hlen], ?_⟩
      rw [List.foldl_cons, hfold]
      simp only [sendFrame, dataEvent, List.zipWith_cons_cons, List.append_assoc,
        List.singleton_append]

/-- **Emitting frames** makes one event for each frame that is not a pad. -/
theorem foldl_emit (pubIdx : Nat) (e : PublicationEntry) (ep : SendChannelEndpoint) (base : Nat)
    (frames : List (Nat × List UInt8)) (st : SendState) :
    ∃ p results, results.length = (frames.filter isData).length ∧
      frames.foldl (emit pubIdx e ep base) st =
        { st with
          agent := { st.agent with poller := p }
          events := st.events ++
            List.zipWith (dataEvent pubIdx e base) (frames.filter isData) results } := by
  rw [foldl_emit_eq]
  exact foldl_sendFrame pubIdx e ep base (frames.filter isData) st

/-- The limit that a pass gives to its scan: the slots are counted after the control phase. -/
def passLimit (nowNs : Int) (pubIdx : Nat) (e : PublicationEntry) (st : SendState) : Nat :=
  e.scanLimit (controlPhase nowNs pubIdx e st).agent.poller.pool.sendAvailable

def passFrames (nowNs : Int) (pubIdx : Nat) (e : PublicationEntry) (st : SendState) :
    List (Nat × List UInt8) :=
  if 0 < passLimit nowNs pubIdx e st then
    (e.publication.senderScan (passLimit nowNs pubIdx e st)).2.1
  else []

/-- A pass scans the committed frames that start within its limit. -/
theorem passFrames_eq (nowNs : Int) (pubIdx : Nat) (e : PublicationEntry) (st : SendState) :
    passFrames nowNs pubIdx e st =
      takeBudget slotLength (passLimit nowNs pubIdx e st) e.publication.toNetwork.committed := by
  have hscan : _ = (e.publication.toNetwork.senderScan (passLimit nowNs pubIdx e st)).2.1 :=
    congrArg (fun r => r.2.1) (e.publication.toNetwork_senderScan (passLimit nowNs pubIdx e st))
  rw [NetworkPublication.senderScan_eq_takeBudget] at hscan
  unfold passFrames
  split_ifs with hlimit
  · exact hscan
  · rw [Nat.eq_zero_of_not_pos hlimit, takeBudget_zero]

/-- An entry after a scan with a limit: its publication is scanned if the limit is positive, and
nothing else but the times changes. -/
structure Scanned (limit : Nat) (e e' : PublicationEntry) : Prop where
  publication : e'.publication =
    if 0 < limit then (e.publication.senderScan limit).1 else e.publication
  endpointIdx : e'.endpointIdx = e.endpointIdx
  destAddr : e'.destAddr = e.destAddr
  needsSetup : e'.needsSetup = e.needsSetup
  senderLimit : e'.senderLimit = e.senderLimit
  lastRttNs : e'.lastRttNs = e.lastRttNs

/-- **What a pass does.** Its own publication is scanned and one event is added for each frame that
is not a pad, after those of the control phase. -/
structure PassSpec (nowNs : Int) (pubIdx : Nat) (e : PublicationEntry) (st st' : SendState) :
    Prop where
  others : ∀ j ≠ pubIdx, st'.agent.publications[j]? = st.agent.publications[j]?
  own : ∃ e', st'.agent.publications[pubIdx]? = some e' ∧
    Scanned (passLimit nowNs pubIdx e st) e e'
  length : st'.agent.publications.length = st.agent.publications.length
  transportIdx : st'.agent.endpoints.map SendChannelEndpoint.transportIdx =
    st.agent.endpoints.map SendChannelEndpoint.transportIdx
  intervals : st'.intervals = st.intervals
  events : ∃ results, results.length = ((passFrames nowNs pubIdx e st).filter isData).length ∧
    st'.events = (controlPhase nowNs pubIdx e st).events ++
      List.zipWith (dataEvent pubIdx e e.publication.toNetwork.senderBase)
        ((passFrames nowNs pubIdx e st).filter isData) results

/-- The scan phase reads nothing of its entry that the control phase has changed. -/
theorem scanPhase_eq {e₀ : PublicationEntry} (he : st.agent.publications[pubIdx]? = some e)
    (htime : e.timeless = e₀.timeless) (hep : st.agent.endpoints[e₀.endpointIdx]? = some ep) :
    scanPhase nowNs pubIdx st =
      if 0 < e₀.scanLimit st.agent.poller.pool.sendAvailable then
        let scan := e₀.publication.senderScan (e₀.scanLimit st.agent.poller.pool.sendAvailable)
        finishScan nowNs pubIdx scan.1 scan.2.2
          (scan.2.1.foldl (emit pubIdx e₀ ep e₀.publication.toNetwork.senderBase) st)
      else st := by
  obtain ⟨publication, endpointIdx, destAddr, needsSetup, _, _, senderLimit, _, lastRttNs⟩ := e
  obtain ⟨publication₀, endpointIdx₀, destAddr₀, needsSetup₀, _, _, senderLimit₀, _, lastRttNs₀⟩ := e₀
  simp only [PublicationEntry.timeless, PublicationEntry.mk.injEq, true_and] at htime
  obtain ⟨rfl, rfl, rfl, rfl, rfl, rfl⟩ := htime
  simp only [scanPhase, he, hep]
  rfl

theorem pass_of_pos {nowNs : Int} {pubIdx : Nat} {st : SendState} {e : PublicationEntry}
    {ep : SendChannelEndpoint} (he : st.agent.publications[pubIdx]? = some e)
    (hep : st.agent.endpoints[e.endpointIdx]? = some ep)
    (hlimit : 0 < passLimit nowNs pubIdx e st) :
    ∃ ep', (controlPhase nowNs pubIdx e st).agent.endpoints[e.endpointIdx]? = some ep' ∧
      ep'.transportIdx = ep.transportIdx ∧
      pass nowNs st pubIdx = finishScan nowNs pubIdx
        (e.publication.senderScan (passLimit nowNs pubIdx e st)).1
        (e.publication.senderScan (passLimit nowNs pubIdx e st)).2.2
        ((passFrames nowNs pubIdx e st).foldl
          (emit pubIdx e ep' e.publication.toNetwork.senderBase) (controlPhase nowNs pubIdx e st)) := by
  have hframe := controlPhase_frame nowNs pubIdx e st
  obtain ⟨e₁, he₁, htime⟩ := hframe.exists_entry he
  obtain ⟨ep₁, hep₁, htransport⟩ := hframe.exists_endpoint hep
  refine ⟨ep₁, hep₁, htransport, ?_⟩
  rw [pass, he, passFrames, if_pos hlimit]
  exact (scanPhase_eq he₁ htime hep₁).trans (if_pos hlimit)

theorem pass_of_zero (he : st.agent.publications[pubIdx]? = some e)
    (hep : st.agent.endpoints[e.endpointIdx]? = some ep)
    (hlimit : ¬ 0 < passLimit nowNs pubIdx e st) :
    pass nowNs st pubIdx = controlPhase nowNs pubIdx e st := by
  have hframe := controlPhase_frame nowNs pubIdx e st
  obtain ⟨e₁, he₁, htime⟩ := hframe.exists_entry he
  obtain ⟨ep₁, hep₁, -⟩ := hframe.exists_endpoint hep
  rw [pass, he]
  exact (scanPhase_eq he₁ htime hep₁).trans (if_neg hlimit)

theorem pass_spec {nowNs : Int} {pubIdx : Nat} {st : SendState} {e : PublicationEntry}
    {ep : SendChannelEndpoint} (he : st.agent.publications[pubIdx]? = some e)
    (hep : st.agent.endpoints[e.endpointIdx]? = some ep) :
    PassSpec nowNs pubIdx e st (pass nowNs st pubIdx) := by
  have hframe := controlPhase_frame nowNs pubIdx e st
  obtain ⟨e₁, he₁, htime⟩ := hframe.exists_entry he
  simp only [PublicationEntry.timeless, PublicationEntry.mk.injEq, true_and] at htime
  obtain ⟨hpub, hidx, hdest, hsetup, hlim, hrtt⟩ := htime
  by_cases hlimit : 0 < passLimit nowNs pubIdx e st
  · obtain ⟨ep', -, -, hpass⟩ := pass_of_pos he hep hlimit
    obtain ⟨p, results, hlen, hfold⟩ := foldl_emit pubIdx e ep'
      e.publication.toNetwork.senderBase (passFrames nowNs pubIdx e st)
      (controlPhase nowNs pubIdx e st)
    rw [hpass, hfold]
    refine ⟨?_, ?_, ?_, hframe.transportIdx, hframe.intervals, results, hlen, rfl⟩
    · intro j hj
      rw [← hframe.others j hj]
      exact List.getElem?_modify_ne _ _ (Ne.symm hj)
    · refine ⟨_, (List.getElem?_modify_eq ..).trans (congrArg _ he₁), ?_⟩
      exact ⟨(if_pos hlimit).symm, hidx, hdest, hsetup, hlim, hrtt⟩
    · rw [← hframe.length]
      exact List.length_modify ..
  · have hframes : passFrames nowNs pubIdx e st = [] := if_neg hlimit
    rw [pass_of_zero he hep hlimit]
    refine ⟨hframe.others, ⟨e₁, he₁, ?_⟩, hframe.length, hframe.transportIdx, hframe.intervals, [],
      by simp [hframes], by simp [hframes]⟩
    exact ⟨hpub.trans (if_neg hlimit).symm, hidx, hdest, hsetup, hlim, hrtt⟩

end SendState

end AeronRs
