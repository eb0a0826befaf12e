import AeronRs.Agent.SenderPass

/-! # Send slots in a pass

Every send takes one slot, whether or not it is then pushed. The scan of a pass is limited to the
free slots times the `mtu` in bytes; frames shorter than the `mtu` are more than one for each slot,
so a scan can walk over frames that get no slot. `pass_sends_all_iff` says when it does not. -/

namespace AeronRs

theorem submitSend_sendAvailable {P : Type} (p : UringPoller P) (transportIdx : Nat) (data : P)
    (dest : Option SockAddr) :
    (p.submitSend transportIdx data dest).1.pool.sendAvailable = p.pool.sendAvailable - 1 ∧
      (p.submitSend transportIdx data dest).1.transports = p.transports ∧
      ((p.submitSend transportIdx data dest).2 = .ok () → 0 < p.pool.sendAvailable) := by
  unfold UringPoller.submitSend SlotPool.allocSend SlotPool.sendAvailable
  cases hfree : p.pool.sendFree with
  | nil => simp [hfree]
  | cons slotIdx rest =>
      -- whatever becomes of the entry, the slot is gone from the free list
      simp only [UringPoller.submitSendSqe, UringPoller.push]
      split
      · simp
      · split_ifs
        · simp
        · simp [SlotPool.modifySlot]
        · simp [SlotPool.modifySlot]

namespace SendState

/-- **The poller over the control phase** of a registered endpoint: what submitting a scratch buffer
preserves, message by message, holds after the messages that are due. -/
theorem controlPhase_poller {P : List ControlMessage → UringPoller SendPtr → Prop} {nowNs : Int}
    {pubIdx : Nat} {e : PublicationEntry} {st : SendState} {ep : SendChannelEndpoint}
    {transportIdx : Nat} (hep : st.agent.endpoints[e.endpointIdx]? = some ep)
    (hreg : ep.transportIdx = some transportIdx) (hstart : P [] st.agent.poller)
    (hsubmit : ∀ msgs p msg, P msgs p → P (msgs ++ [msg])
      (p.submitSend transportIdx (.scratch e.endpointIdx msg.buf) e.destAddr).1) :
    P (e.dueMessages st.agent.heartbeatIntervalNs st.agent.rttmIntervalNs nowNs)
      (controlPhase nowNs pubIdx e st).agent.poller := by
  -- the endpoint stays registered, since only its scratch buffers change
  suffices h : (∃ ep', (controlPhase nowNs pubIdx e st).agent.endpoints[e.endpointIdx]? = some ep' ∧
      ep'.transportIdx = some transportIdx) ∧
      P (e.dueMessages st.agent.heartbeatIntervalNs st.agent.rttmIntervalNs nowNs)
        (controlPhase nowNs pubIdx e st).agent.poller from h.2
  refine controlPhase_induction (motive := fun msgs st' =>
    (∃ ep', st'.agent.endpoints[e.endpointIdx]? = some ep' ∧
      ep'.transportIdx = some transportIdx) ∧ P msgs st'.agent.poller) ?_ ?_ ?_
  · exact ⟨⟨ep, hep, hreg⟩, hstart⟩
  · rintro msgs st' msg ⟨⟨ep', hep', hreg'⟩, h⟩
    rw [sendControl_eq hep' hreg' msg]
    exact ⟨⟨_, List.getElem?_set_self (List.getElem?_eq_some_iff.mp hep').1, hreg'⟩,
      hsubmit msgs _ msg h⟩
  · intro msgs st' f _ h
    exact h

/-- **Slots left for the scan.** Each control message that is due takes one. -/
theorem controlPhase_sendAvailable {nowNs : Int} {pubIdx : Nat} {e : PublicationEntry}
    {st : SendState} {ep : SendChannelEndpoint} {transportIdx : Nat}
    (hep : st.agent.endpoints[e.endpointIdx]? = some ep)
    (hreg : ep.transportIdx = some transportIdx) :
    (controlPhase nowNs pubIdx e st).agent.poller.pool.sendAvailable =
      st.agent.poller.pool.sendAvailable -
        (e.dueMessages st.agent.heartbeatIntervalNs st.agent.rttmIntervalNs nowNs).length ∧
    (controlPhase nowNs pubIdx e st).agent.poller.transports = st.agent.poller.transports := by
  refine controlPhase_poller (P := fun msgs p =>
    p.pool.sendAvailable = st.agent.poller.pool.sendAvailable - msgs.length ∧
      p.transports = st.agent.poller.transports) hep hreg ⟨rfl, rfl⟩ ?_
  rintro msgs p msg ⟨havail, htransports⟩
  obtain ⟨hslots, hsame, -⟩ := submitSend_sendAvailable p transportIdx
    (.scratch e.endpointIdx msg.buf) e.destAddr
  refine ⟨?_, hsame.trans htransports⟩
  rw [List.length_append, List.length_singleton, ← Nat.sub_sub, ← havail]
  exact hslots

/-- The scan's send of a frame through a registered endpoint. -/
theorem sendFrame_eq {pubIdx : Nat} {e : PublicationEntry} {ep : SendChannelEndpoint} {base : Nat}
    {transportIdx : Nat} (hreg : ep.transportIdx = some transportIdx) (st : SendState)
    (frame : Nat × List UInt8) :
    sendFrame pubIdx e ep base st frame =
      { st with
        agent := { st.agent with
          poller := (st.agent.poller.submitSend transportIdx
            (.log pubIdx (base + frame.1) frame.2.length) e.destAddr).1 }
        events := st.events ++ [dataEvent pubIdx e base frame (st.agent.poller.submitSend
          transportIdx (.log pubIdx (base + frame.1) frame.2.length) e.destAddr).2] } := by
  simp only [sendFrame, SendChannelEndpoint.sendData, hreg, dataEvent]

/-- **Frames with room** are all sent. -/
theorem foldl_sendFrame_of_room {pubIdx : Nat} {e : PublicationEntry} {ep : SendChannelEndpoint}
    {base transportIdx fd : Nat} (hreg : ep.transportIdx = some transportIdx)
    (frames : List (Nat × List UInt8)) {st : SendState} {n : Nat}
    (hactive : ActiveTransport st.agent.poller transportIdx fd)
    (hroom : HasRoom st.agent.poller (frames.length + n)) :
    ∃ p, frames.foldl (sendFrame pubIdx e ep base) st =
        { st with
          agent := { st.agent with poller := p }
          events := st.events ++ frames.map fun frame => dataEvent pubIdx e base frame (.ok ()) } ∧
      HasRoom p n ∧ p.transports = st.agent.poller.transports ∧
      ∀ before sends, Submitted before st.agent.poller sends →
        Submitted before p (sends ++ frames.map fun frame =>
          ⟨fd, .log pubIdx (base + frame.1) frame.2.length, e.destAddr⟩) := by
  induction frames generalizing st with
  | nil =>
      refine ⟨st.agent.poller, by simp, by simpa using hroom, rfl, ?_⟩
      intro before sends h
      simpa using h
  | cons frame frames ih =>
      -- the room is counted down with the frames, so that the rest has its own
      rw [List.length_cons, Nat.add_right_comm] at hroom
      obtain ⟨hok, hnext, htransports, hsubmitted⟩ := submitSend_spec hroom hactive
        (.log pubIdx (base + frame.1) frame.2.length) e.destAddr
      have hframe := @sendFrame_eq pubIdx e ep base transportIdx hreg st frame
      rw [hok] at hframe
      have hactive' : ActiveTransport (sendFrame pubIdx e ep base st frame).agent.poller
          transportIdx fd := by
        unfold ActiveTransport
        rw [hframe, htransports]
        exact hactive
      obtain ⟨p, hfold, hroom', htransports', hrest⟩ := ih hactive' (by rw [hframe]; exact hnext)
      rw [hframe] at hfold htransports' hrest
      refine ⟨p, ?_, hroom', htransports'.trans htransports, ?_⟩
      · rw [List.foldl_cons, hframe, hfold]
        simp only [List.map_cons, List.append_assoc, List.singleton_append]
      · intro before sends h
        have := hrest before _ (hsubmitted before sends h)
        rwa [List.append_assoc] at this

/-- **Frames that are all sent** had a slot each. -/
theorem foldl_sendFrame_slots {pubIdx : Nat} {e : PublicationEntry} {ep : SendChannelEndpoint}
    {base transportIdx : Nat} (hreg : ep.transportIdx = some transportIdx)
    (frames : List (Nat × List UInt8)) (st : SendState)
    (hok : (frames.foldl (sendFrame pubIdx e ep base) st).events = st.events ++
      frames.map fun frame => dataEvent pubIdx e base frame (.ok ())) :
    frames.length ≤ st.agent.poller.pool.sendAvailable := by
  induction frames generalizing st with
  | nil => simp
  | cons frame frames ih =>
      rw [List.foldl_cons] at hok
      have hframe := @sendFrame_eq pubIdx e ep base transportIdx hreg st frame
      obtain ⟨hslots, -, hpos⟩ := submitSend_sendAvailable st.agent.poller transportIdx
        (.log pubIdx (base + frame.1) frame.2.length) e.destAddr
      -- the first event of the fold is the one of this frame, so this send succeeded
      obtain ⟨p, results, hlen, hfold⟩ := foldl_sendFrame pubIdx e ep base frames
        (sendFrame pubIdx e ep base st frame)
      have hevents := hok
      rw [hfold, hframe] at hevents
      simp only [List.map_cons, List.append_assoc, List.singleton_append,
        List.append_right_inj, List.cons.injEq] at hevents
      have hresult := hevents.1
      simp only [dataEvent, SendEvent.data.injEq, true_and] at hresult
      have hrest := ih (sendFrame pubIdx e ep base st frame) (by
        rw [hok, hframe, hresult]
        simp only [List.map_cons, List.append_assoc, List.singleton_append])
      rw [hframe] at hrest
      have := hpos hresult
      simp only [hslots] at hrest
      rw [List.length_cons]
      omega

/-- Every free slot has room in the submission queue. -/
def Roomy (p : UringPoller SendPtr) : Prop := HasRoom p p.pool.sendAvailable

instance (p : UringPoller SendPtr) : Decidable (Roomy p) := inferInstanceAs (Decidable (HasRoom _ _))

theorem Roomy.submitSend {p : UringPoller SendPtr} {transportIdx fd : Nat} (h : Roomy p)
    (hactive : ActiveTransport p transportIdx fd) (data : SendPtr) (dest : Option SockAddr) :
    Roomy (p.submitSend transportIdx data dest).1 := by
  have havail := (submitSend_sendAvailable p transportIdx data dest).1
  unfold Roomy at h ⊢
  rw [havail]
  cases hslots : p.pool.sendAvailable with
  | zero =>
      -- without a free slot nothing happens
      have hfree : p.pool.sendFree = [] := List.eq_nil_of_length_eq_zero hslots
      rw [hslots] at h
      have hsame : (p.submitSend transportIdx data dest).1 = p := by
        simp only [UringPoller.submitSend, SlotPool.allocSend, hfree]
      rw [hsame]
      exact h
  | succ n =>
      rw [hslots] at h
      exact (submitSend_spec h hactive data dest).2.1

/-- The control phase keeps the room and adds control events only. -/
theorem controlPhase_roomy {nowNs : Int} {pubIdx : Nat} {e : PublicationEntry} {st : SendState}
    {ep : SendChannelEndpoint} {transportIdx fd : Nat}
    (hep : st.agent.endpoints[e.endpointIdx]? = some ep)
    (hreg : ep.transportIdx = some transportIdx)
    (hactive : ActiveTransport st.agent.poller transportIdx fd) (hroom : Roomy st.agent.poller) :
    Roomy (controlPhase nowNs pubIdx e st).agent.poller := by
  refine (controlPhase_poller (P := fun _ p => ActiveTransport p transportIdx fd ∧ Roomy p) hep hreg
    ⟨hactive, hroom⟩ ?_).2
  rintro - p msg ⟨hactive', hroom'⟩
  obtain ⟨-, hsame, -⟩ := submitSend_sendAvailable p transportIdx
    (.scratch e.endpointIdx msg.buf) e.destAddr
  refine ⟨?_, hroom'.submitSend hactive' _ _⟩
  unfold ActiveTransport
  rw [hsame]
  exact hactive'

end SendState

/-! ## The data sends of a pass -/

namespace SendEvent

def isFrame : SendEvent → Bool
  | control .. => false
  | data .. => true

def result : SendEvent → Except PollError Unit
  | control _ _ _ _ result => result
  | data _ _ _ _ _ result => result

end SendEvent

/-- The `send_data` calls that one pass over a publication makes, with their results. -/
def SenderAgent.passSends (s : SenderAgent) (nowNs : Int) (pubIdx : Nat) : List SendEvent :=
  (SendState.pass nowNs ⟨s, [], 0⟩ pubIdx).events.filter SendEvent.isFrame

theorem controlPhase_filter_isFrame (nowNs : Int) (pubIdx : Nat) (e : PublicationEntry)
    (st : SendState) :
    (SendState.controlPhase nowNs pubIdx e st).events.filter SendEvent.isFrame =
      st.events.filter SendEvent.isFrame := by
  refine SendState.controlPhase_induction (motive := fun _ st' =>
    st'.events.filter SendEvent.isFrame = st.events.filter SendEvent.isFrame) rfl ?_ ?_
  · intro msgs st' msg h
    rw [← h]
    unfold SendState.sendControl SendState.control
    split
    · rfl
    · rw [List.filter_append]
      exact List.append_nil _
  · intro msgs st' f _ h
    exact h

/-- **The slots cover the scan.** Of the committed frames, the one after as many data frames as there
are slots starts beyond the limit of the scan. -/
def SlotsCover (e : PublicationEntry) (slots : Nat) : Prop :=
  ∀ pre frame post, e.publication.toNetwork.committed = pre ++ frame :: post →
    SendState.isData frame = true → pre.countP SendState.isData = slots →
      e.scanLimit slots ≤ total slotLength pre

theorem slotsCover_iff (e : PublicationEntry) (slots : Nat) :
    SlotsCover e slots ↔ (takeBudget slotLength (e.scanLimit slots)
      e.publication.toNetwork.committed).countP SendState.isData ≤ slots :=
  (countP_takeBudget_le_iff slotLength SendState.isData (e.scanLimit slots) slots _).symm

instance (e : PublicationEntry) (slots : Nat) : Decidable (SlotsCover e slots) :=
  decidable_of_iff _ (slotsCover_iff e slots).symm

namespace SendState

/-- A pass sends every frame it scans exactly when there are as many slots after its control
phase. -/
theorem pass_events_ok_iff {nowNs : Int} {pubIdx : Nat} {st : SendState} {e : PublicationEntry}
    {ep : SendChannelEndpoint} {transportIdx fd : Nat}
    (he : st.agent.publications[pubIdx]? = some e)
    (hep : st.agent.endpoints[e.endpointIdx]? = some ep)
    (hreg : ep.transportIdx = some transportIdx)
    (hactive : ActiveTransport st.agent.poller transportIdx fd) (hroom : Roomy st.agent.poller) :
    (pass nowNs st pubIdx).events = (controlPhase nowNs pubIdx e st).events ++
        ((passFrames nowNs pubIdx e st).filter isData).map
          (fun frame => dataEvent pubIdx e e.publication.toNetwork.senderBase frame (.ok ())) ↔
      ((passFrames nowNs pubIdx e st).filter isData).length ≤
        (controlPhase nowNs pubIdx e st).agent.poller.pool.sendAvailable := by
  by_cases hlimit : 0 < passLimit nowNs pubIdx e st
  · obtain ⟨ep', -, hreg', hpass⟩ := pass_of_pos he hep hlimit
    rw [hreg] at hreg'
    rw [hpass]
    constructor
    · intro h
      rw [foldl_emit_eq] at h
      exact foldl_sendFrame_slots hreg' _ _ h
    · -- every free slot has an entry in the queue, so slots are all that can run out
      intro h
      obtain ⟨hpool, -, hentries⟩ := @controlPhase_roomy nowNs pubIdx e st ep transportIdx fd hep hreg
        hactive hroom
      have hactive' : ActiveTransport (controlPhase nowNs pubIdx e st).agent.poller transportIdx
          fd := by
        unfold ActiveTransport
        rw [(controlPhase_sendAvailable hep hreg).2]
        exact hactive
      have hroom' : HasRoom (controlPhase nowNs pubIdx e st).agent.poller
          (((passFrames nowNs pubIdx e st).filter isData).length + 0) :=
        ⟨hpool, h, by omega⟩
      obtain ⟨p, hfold, -⟩ := @foldl_sendFrame_of_room pubIdx e ep'
        e.publication.toNetwork.senderBase transportIdx fd hreg' _ _ _ hactive' hroom'
      rw [foldl_emit_eq, hfold]
      rfl
  · rw [pass_of_zero he hep hlimit, passFrames, if_neg hlimit]
    simp

/-- **The slots cover the scan of a pass** exactly when there are as many after its control phase as it
has data frames to send. -/
theorem slotsCover_iff_passFrames {nowNs : Int} {pubIdx : Nat} {st : SendState}
    {e : PublicationEntry} {ep : SendChannelEndpoint} {transportIdx : Nat}
    (hep : st.agent.endpoints[e.endpointIdx]? = some ep)
    (hreg : ep.transportIdx = some transportIdx) :
    SlotsCover e (st.agent.poller.pool.sendAvailable -
        (e.dueMessages st.agent.heartbeatIntervalNs st.agent.rttmIntervalNs nowNs).length) ↔
      ((passFrames nowNs pubIdx e st).filter isData).length ≤
        (controlPhase nowNs pubIdx e st).agent.poller.pool.sendAvailable := by
  have havail := (@controlPhase_sendAvailable nowNs pubIdx e st ep transportIdx hep hreg).1
  rw [slotsCover_iff, passFrames_eq, passLimit, havail, List.countP_eq_length_filter]

/-- **What a pass needs to send all that it scans**: its endpoint is registered with an active transport,
every free slot has an entry in the submission queue, and the slots that its control messages leave
cover the scan. -/
structure Covers (nowNs : Int) (e : PublicationEntry) (st : SendState) : Prop where
  active : ∃ ep ∈ st.agent.endpoints[e.endpointIdx]?, ∃ transportIdx ∈ ep.transportIdx,
    ∃ entry ∈ st.agent.poller.transports[transportIdx % 2 ^ 16]?, entry.active = true
  roomy : Roomy st.agent.poller
  slots : SlotsCover e (st.agent.poller.pool.sendAvailable -
    (e.dueMessages st.agent.heartbeatIntervalNs st.agent.rttmIntervalNs nowNs).length)

instance (nowNs : Int) (e : PublicationEntry) (st : SendState) : Decidable (st.Covers nowNs e) :=
  decidable_of_iff
    ((∃ ep ∈ st.agent.endpoints[e.endpointIdx]?, ∃ transportIdx ∈ ep.transportIdx,
      ∃ entry ∈ st.agent.poller.transports[transportIdx % 2 ^ 16]?, entry.active = true) ∧
      Roomy st.agent.poller ∧ SlotsCover e (st.agent.poller.pool.sendAvailable -
        (e.dueMessages st.agent.heartbeatIntervalNs st.agent.rttmIntervalNs nowNs).length))
    ⟨fun h => ⟨h.1, h.2.1, h.2.2⟩, fun h => ⟨h.active, h.roomy, h.slots⟩⟩

theorem Covers.pass_events {nowNs : Int} {pubIdx : Nat} {st : SendState} {e : PublicationEntry}
    (h : st.Covers nowNs e) (he : st.agent.publications[pubIdx]? = some e) :
    (pass nowNs st pubIdx).events = (controlPhase nowNs pubIdx e st).events ++
      ((passFrames nowNs pubIdx e st).filter isData).map
        (fun frame => dataEvent pubIdx e e.publication.toNetwork.senderBase frame (.ok ())) := by
  obtain ⟨ep, hep, transportIdx, hreg, entry, hentry, hactive⟩ := h.active
  refine (pass_events_ok_iff he hep hreg ⟨entry, hentry, hactive, rfl⟩ h.roomy).mpr ?_
  exact (slotsCover_iff_passFrames hep hreg).mp h.slots

theorem isFrame_of_mem_zipWith (pubIdx : Nat) (e : PublicationEntry) (base : Nat)
    (frames : List (Nat × List UInt8)) (results : List (Except PollError Unit)) :
    ∀ ev ∈ List.zipWith (dataEvent pubIdx e base) frames results, ev.isFrame = true := by
  intro ev hev
  rw [← List.map_uncurry_zip_eq_zipWith, List.mem_map] at hev
  obtain ⟨_, -, rfl⟩ := hev
  rfl

theorem zipWith_dataEvent_ok_iff (pubIdx : Nat) (e : PublicationEntry) (base : Nat)
    (frames : List (Nat × List UInt8)) (results : List (Except PollError Unit))
    (hlen : results.length = frames.length) :
    (∀ ev ∈ List.zipWith (dataEvent pubIdx e base) frames results, ev.result = .ok ()) ↔
      List.zipWith (dataEvent pubIdx e base) frames results =
        frames.map fun frame => dataEvent pubIdx e base frame (.ok ()) := by
  induction frames generalizing results with
  | nil => simp
  | cons frame frames ih =>
      cases results with
      | nil => simp at hlen
      | cons result results =>
          have hhead : (dataEvent pubIdx e base frame result).result = result := rfl
          rw [List.zipWith_cons_cons, List.map_cons, List.forall_mem_cons, hhead,
            ih results (by simpa using hlen), List.cons.injEq]
          simp [dataEvent]

end SendState

/-- **Every frame that a pass scans is sent exactly when the slots left by its control messages
cover the scan.** For any agent whose endpoint is registered, with room in the submission queue. -/
theorem SenderAgent.pass_sends_all_iff (s : SenderAgent) (nowNs : Int) (pubIdx : Nat)
    {e : PublicationEntry} {ep : SendChannelEndpoint} {transportIdx fd : Nat}
    (he : s.publications[pubIdx]? = some e) (hep : s.endpoints[e.endpointIdx]? = some ep)
    (hreg : ep.transportIdx = some transportIdx)
    (hactive : ActiveTransport s.poller transportIdx fd) (hpool : s.poller.pool.WellFormed)
    (hsq : s.poller.sq.length + s.poller.pool.sendAvailable ≤ s.poller.sqEntries) :
    ((∀ ev ∈ s.passSends nowNs pubIdx, ev.result = .ok ()) ∧
        (s.passSends nowNs pubIdx).length ≤ s.poller.pool.sendAvailable) ↔
      SlotsCover e (s.poller.pool.sendAvailable -
        (e.dueMessages s.heartbeatIntervalNs s.rttmIntervalNs nowNs).length) := by
  have hep' : (⟨s, [], 0⟩ : SendState).agent.endpoints[e.endpointIdx]? = some ep := hep
  have havail : _ = s.poller.pool.sendAvailable -
      (e.dueMessages s.heartbeatIntervalNs s.rttmIntervalNs nowNs).length :=
    (@SendState.controlPhase_sendAvailable nowNs pubIdx e ⟨s, [], 0⟩ ep transportIdx hep' hreg).1
  have hiff := @SendState.pass_events_ok_iff nowNs pubIdx ⟨s, [], 0⟩ e ep transportIdx fd he hep' hreg
    hactive ⟨hpool, le_refl _, hsq⟩
  obtain ⟨results, hlen, hevents⟩ :=
    (@SendState.pass_spec nowNs pubIdx ⟨s, [], 0⟩ e ep he hep').events
  -- the data sends of the pass are the events of the scan
  have hsends : s.passSends nowNs pubIdx =
      List.zipWith (SendState.dataEvent pubIdx e e.publication.toNetwork.senderBase)
        ((SendState.passFrames nowNs pubIdx e ⟨s, [], 0⟩).filter SendState.isData) results := by
    rw [passSends, hevents, List.filter_append, controlPhase_filter_isFrame,
      List.filter_eq_self.mpr (SendState.isFrame_of_mem_zipWith _ _ _ _ _)]
    rfl
  have hcount : (s.passSends nowNs pubIdx).length =
      ((SendState.passFrames nowNs pubIdx e ⟨s, [], 0⟩).filter SendState.isData).length := by
    rw [hsends, List.length_zipWith, hlen, min_self]
  have hcover : SlotsCover e (s.poller.pool.sendAvailable -
      (e.dueMessages s.heartbeatIntervalNs s.rttmIntervalNs nowNs).length) ↔ _ :=
    @SendState.slotsCover_iff_passFrames nowNs pubIdx ⟨s, [], 0⟩ e ep transportIdx hep' hreg
  rw [hevents, List.append_right_inj] at hiff
  rw [hcover, ← hiff, hcount, hsends, SendState.zipWith_dataEvent_ok_iff _ _ _ _ _ hlen]
  constructor
  · exact fun h => h.1
  · intro h
    have := hiff.mp h
    exact ⟨h, by omega⟩

/-- An agent with one publication, in which two frames of 32 bytes wait, and the given number of send
slots. The `mtu` is 64. -/
def SenderAgent.twoFramesWaiting (slots : Nat) : SenderAgent where
  poller := ⟨8, [], [], 0, ⟨0, 2048, fun _ => 0, 0, 0, fun _ => []⟩, .new slots,
    [⟨3, 3, 0, 0, true, true⟩]⟩
  endpoints := [⟨some 0, fun _ => []⟩]
  publications := [.new (((((Publication.create false 7 1 5 128 64).get rfl).offer []).1.offer
    []).1) 0]
  roundRobinIndex := 0
  heartbeatIntervalNs := 100
  rttmIntervalNs := 100

/-- With two slots both frames are sent. -/
theorem SenderAgent.twoFramesWaiting_two_slots :
    (∀ ev ∈ (twoFramesWaiting 2).passSends 1 0, ev.result = .ok ()) ∧
      ((twoFramesWaiting 2).passSends 1 0).length ≤ 2 :=
  (pass_sends_all_iff (twoFramesWaiting 2) 1 0 rfl rfl rfl ⟨_, rfl, rfl, rfl⟩
    (SlotPool.wellFormed_new (by decide)) (by decide)).mpr (by decide +kernel)

/-- **A frame that gets no slot.** One slot and an `mtu` of 64 admit 64 bytes, which are two frames:
the second `send_data` fails, and the position of the sender has moved past its frame. -/
theorem SenderAgent.small_frames_exhaust_slots :
    ((twoFramesWaiting 1).passSends 1 0).map SendEvent.result =
        [.ok (), .error .noSendSlot] ∧
      (SendState.pass 1 ⟨twoFramesWaiting 1, [], 0⟩ 0).agent.publications.map
        PublicationEntry.senderPosition = [64] := by
  decide +kernel

end AeronRs
