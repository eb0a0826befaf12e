import AeronRs.Agent.SenderSlots
import AeronRs.Agent.SenderWindow
import AeronRs.Media.PublicationRun

/-! # What a publication puts on the wire

Runs of the sender agent that keep the sends of every cycle. Of these, the **`Emission`**s of one
publication are its setup frames and its data frames, in order: those that it hands to the poller
(`attemptsOf`), and among them those that the poller does not refuse (`emissionsOf`). A step of such a
run moves records of the publication's stream from pending to sent and adds new ones behind the write
cursor, while the data frames handed over are the data records sent (**`Streams`**). In a run in which
the send slots cover every scan (**`Covered`**) none of them is refused. -/

namespace AeronRs

open Runs

/-- A frame of a stream: a setup frame or a data frame. -/
inductive Emission
  | setup (header : SetupHeader)
  | data (bytes : List UInt8)
  deriving DecidableEq

namespace Emission

/-- The setup frames among the control messages. -/
def ofControl : ControlMessage → Option Emission
  | .setup header => some (.setup header)
  | .heartbeat _ => none
  | .rttm _ => none

def dataBytes : Emission → Option (List UInt8)
  | setup _ => none
  | data bytes => some bytes

theorem filterMap_dataBytes {α : Type} (bytes : α → List UInt8) (xs : List α) :
    (xs.map fun x => data (bytes x)).filterMap dataBytes = xs.map bytes := by
  rw [List.filterMap_map]
  exact List.filterMap_eq_map_iff_forall_eq_some.mpr fun _ _ => rfl

theorem mem_filterMap_dataBytes {bytes : List UInt8} {xs : List Emission} :
    bytes ∈ xs.filterMap dataBytes ↔ data bytes ∈ xs := by
  rw [List.mem_filterMap]
  constructor
  · rintro ⟨x, hx, hbytes⟩
    cases x with
    | setup header => cases hbytes
    | data => exact Option.some.inj hbytes ▸ hx
  · intro hx
    exact ⟨_, hx, rfl⟩

end Emission

namespace SendEvent

def pubIdx : SendEvent → Nat
  | control pubIdx _ _ _ _ => pubIdx
  | data pubIdx _ _ _ _ _ => pubIdx

/-- The frame of a stream that a send hands to the poller. -/
def emission? : SendEvent → Option Emission
  | control _ _ msg _ _ => Emission.ofControl msg
  | data _ _ _ bytes _ _ => some (.data bytes)

/-- What a send hands to the poller for publication `i`. -/
def attempt (i : Nat) (ev : SendEvent) : Option Emission :=
  if ev.pubIdx = i then ev.emission? else none

/-- What a send emits for publication `i`: nothing if the poller refuses it. -/
def emission (i : Nat) (ev : SendEvent) : Option Emission :=
  if ev.result = .ok () then ev.attempt i else none

theorem emission_of_ok {ev : SendEvent} (h : ev.result = .ok ()) (i : Nat) :
    ev.emission i = ev.attempt i :=
  if_pos h

theorem attempt_of_eq {ev : SendEvent} {i : Nat} (h : ev.pubIdx = i) :
    ev.attempt i = ev.emission? :=
  if_pos h

theorem attempt_of_ne {ev : SendEvent} {i : Nat} (h : ev.pubIdx ≠ i) : ev.attempt i = none :=
  if_neg h

end SendEvent

/-- What a list of sends hands to the poller for publication `i`. -/
def attemptsOf (i : Nat) (events : List SendEvent) : List Emission :=
  events.filterMap (SendEvent.attempt i)

def emissionsOf (i : Nat) (events : List SendEvent) : List Emission :=
  events.filterMap (SendEvent.emission i)

@[simp] theorem attemptsOf_append (i : Nat) (evs evs' : List SendEvent) :
    attemptsOf i (evs ++ evs') = attemptsOf i evs ++ attemptsOf i evs' :=
  List.filterMap_append

@[simp] theorem emissionsOf_append (i : Nat) (evs evs' : List SendEvent) :
    emissionsOf i (evs ++ evs') = emissionsOf i evs ++ emissionsOf i evs' :=
  List.filterMap_append

/-- **What is emitted was handed over**, in that order. -/
theorem emissionsOf_sublist (i : Nat) (evs : List SendEvent) :
    (emissionsOf i evs).Sublist (attemptsOf i evs) := by
  have hfilter : emissionsOf i evs =
      (evs.filter fun ev => ev.result = .ok ()).filterMap (SendEvent.attempt i) := by
    rw [List.filterMap_filter]
    exact List.filterMap_congr fun ev _ => by simp [SendEvent.emission]
  rw [hfilter]
  exact List.filter_sublist.filterMap _

theorem emissionsOf_of_ok {i : Nat} {evs : List SendEvent} (h : ∀ ev ∈ evs, ev.result = .ok ()) :
    emissionsOf i evs = attemptsOf i evs :=
  List.filterMap_congr fun ev hev => SendEvent.emission_of_ok (h ev hev) i

theorem attemptsOf_of_ne {i : Nat} {evs : List SendEvent} (h : ∀ ev ∈ evs, ev.pubIdx ≠ i) :
    attemptsOf i evs = [] :=
  List.filterMap_eq_nil_iff.mpr fun ev hev => SendEvent.attempt_of_ne (h ev hev)

/-- The data frames of a publication that the poller has taken. -/
def emittedData (i : Nat) (events : List SendEvent) : List (List UInt8) :=
  (emissionsOf i events).filterMap Emission.dataBytes

theorem emittedData_append (i : Nat) (evs evs' : List SendEvent) :
    emittedData i (evs ++ evs') = emittedData i evs ++ emittedData i evs' := by
  rw [emittedData, emissionsOf_append, List.filterMap_append]
  rfl

/-- Sends that hand over no data emit none. -/
theorem emittedData_eq_nil {i : Nat} {evs : List SendEvent}
    (h : (attemptsOf i evs).filterMap Emission.dataBytes = []) : emittedData i evs = [] := by
  have hsub := (emissionsOf_sublist i evs).filterMap Emission.dataBytes
  rw [h] at hsub
  exact List.sublist_nil.mp hsub

theorem emittedData_of_ne {i : Nat} {evs : List SendEvent} (h : ∀ ev ∈ evs, ev.pubIdx ≠ i) :
    emittedData i evs = [] :=
  emittedData_eq_nil (by rw [attemptsOf_of_ne h]; rfl)

def PublicationEntry.setupFrame (e : PublicationEntry) : SetupHeader :=
  setupHeader e.sessionId e.streamId e.initialTermId e.activeTermId (BitVec.ofNat 32 e.termOffset)
    (BitVec.ofNat 32 e.termLength) (BitVec.ofNat 32 e.mtu) 0

def PublicationEntry.SetupDue (e : PublicationEntry) (heartbeatIntervalNs nowNs : Int) : Prop :=
  e.needsSetup = true ∧ heartbeatIntervalNs < wrapI64 (nowNs - e.timeOfLastSetupNs)

instance (e : PublicationEntry) (heartbeatIntervalNs nowNs : Int) :
    Decidable (e.SetupDue heartbeatIntervalNs nowNs) :=
  inferInstanceAs (Decidable (_ ∧ _))

/-- The setup frame that a pass emits, if it is due. -/
def PublicationEntry.dueSetup (e : PublicationEntry) (heartbeatIntervalNs nowNs : Int) :
    List Emission :=
  if e.SetupDue heartbeatIntervalNs nowNs then [.setup e.setupFrame] else []

theorem PublicationEntry.filterMap_dueMessages (e : PublicationEntry)
    (heartbeatIntervalNs rttmIntervalNs nowNs : Int) :
    (e.dueMessages heartbeatIntervalNs rttmIntervalNs nowNs).filterMap Emission.ofControl =
      e.dueSetup heartbeatIntervalNs nowNs := by
  by_cases hdue : e.SetupDue heartbeatIntervalNs nowNs
  · rw [dueSetup, if_pos hdue, dueMessages, if_pos (show _ ∧ _ from hdue)]
    split_ifs <;> rfl
  · rw [dueSetup, if_neg hdue, dueMessages, if_neg (show ¬ (_ ∧ _) from hdue)]
    split_ifs <;> rfl

theorem PublicationEntry.filterMap_dueSetup (e : PublicationEntry)
    (heartbeatIntervalNs nowNs : Int) :
    (e.dueSetup heartbeatIntervalNs nowNs).filterMap Emission.dataBytes = [] := by
  unfold dueSetup
  split_ifs <;> rfl

namespace SendState

/-! ## Passes and cycles -/

theorem sendControl_events {pubIdx : Nat} {e : PublicationEntry} {st : SendState}
    (hep : e.endpointIdx < st.agent.endpoints.length) (msg : ControlMessage) :
    (sendControl pubIdx e st msg).agent.endpoints.length = st.agent.endpoints.length ∧
      ∃ result, (sendControl pubIdx e st msg).events =
        st.events ++ [.control pubIdx e.endpointIdx msg e.destAddr result] := by
  unfold sendControl control
  rw [List.getElem?_eq_getElem hep]
  exact ⟨List.length_set, _, rfl⟩

/-- **The control phase of a pass** hands over the setup frame of its own publication, if it is due. -/
theorem controlPhase_events {nowNs : Int} {pubIdx : Nat} {e : PublicationEntry} {st : SendState}
    (hep : e.endpointIdx < st.agent.endpoints.length) :
    ∃ new, (controlPhase nowNs pubIdx e st).events = st.events ++ new ∧
      (∀ ev ∈ new, ev.pubIdx = pubIdx) ∧
      attemptsOf pubIdx new = e.dueSetup st.agent.heartbeatIntervalNs nowNs := by
  have hphase := @controlPhase_induction
    (fun msgs st' => e.endpointIdx < st'.agent.endpoints.length ∧
      ∃ new, st'.events = st.events ++ new ∧ (∀ ev ∈ new, ev.pubIdx = pubIdx) ∧
        attemptsOf pubIdx new = msgs.filterMap Emission.ofControl)
    nowNs pubIdx e st ⟨hep, [], by simp [attemptsOf]⟩ ?_ ?_
  · rw [e.filterMap_dueMessages] at hphase
    exact hphase.2
  · rintro msgs st' msg ⟨hlt, new, hevents, hown, hattempts⟩
    obtain ⟨hlen, result, hsend⟩ := @sendControl_events pubIdx e st' hlt msg
    refine ⟨by rwa [hlen], new ++ [.control pubIdx e.endpointIdx msg e.destAddr result],
      by rw [hsend, hevents, List.append_assoc], ?_, ?_⟩
    · rw [List.forall_mem_append, List.forall_mem_singleton]
      exact ⟨hown, rfl⟩
    · rw [attemptsOf_append, hattempts, List.filterMap_append]
      congr 1
      rw [attemptsOf, List.filterMap_cons, SendEvent.attempt_of_eq (by rfl)]
      rfl
  · exact fun _ _ _ _ h => h

theorem zipWith_dataEvent_attempts (pubIdx : Nat) (e : PublicationEntry) (base : Nat)
    {frames : List (Nat × List UInt8)} {results : List (Except PollError Unit)}
    (hlen : results.length = frames.length) :
    attemptsOf pubIdx (List.zipWith (dataEvent pubIdx e base) frames results) =
      frames.map fun f => .data f.2 := by
  induction frames generalizing results with
  | nil => simp [attemptsOf]
  | cons frame frames ih =>
      obtain ⟨result, results, rfl⟩ := List.exists_cons_of_length_eq_add_one hlen
      have htail := ih (Nat.succ.inj hlen)
      unfold attemptsOf at htail ⊢
      rw [List.zipWith_cons_cons, List.filterMap_cons, htail, SendEvent.attempt_of_eq (by rfl)]
      rfl

/-- **A pass** hands over the setup frame of its own publication that is due and then the data frames
of its scan. If the slots cover the scan, all these data frames are emitted. -/
theorem pass_events {nowNs : Int} {pubIdx : Nat} {st : SendState} {e : PublicationEntry}
    (hwired : st.agent.Wired) (he : st.agent.publications[pubIdx]? = some e) :
    ∃ new, (pass nowNs st pubIdx).events = st.events ++ new ∧ (∀ ev ∈ new, ev.pubIdx = pubIdx) ∧
      (attemptsOf pubIdx new = e.dueSetup st.agent.heartbeatIntervalNs nowNs ++
        ((passFrames nowNs pubIdx e st).filter isData).map fun f => .data f.2) ∧
      (st.Covers nowNs e →
        emittedData pubIdx new = ((passFrames nowNs pubIdx e st).filter isData).map Prod.snd) := by
  obtain ⟨ep, hep⟩ := exists_endpoint hwired he
  obtain ⟨control, hcontrol, hown, hsetup⟩ :=
    @controlPhase_events nowNs pubIdx e st (hwired e (List.mem_of_getElem? he))
  obtain ⟨results, hlen, hevents⟩ := (@pass_spec nowNs pubIdx st e ep he hep).events
  refine ⟨control ++ List.zipWith (dataEvent pubIdx e e.publication.toNetwork.senderBase) _ results,
    by rw [hevents, hcontrol, List.append_assoc], ?_, ?_, fun hcovers => ?_⟩
  · rw [List.forall_mem_append]
    refine ⟨hown, fun ev hev => ?_⟩
    rw [← List.map_uncurry_zip_eq_zipWith, List.mem_map] at hev
    obtain ⟨_, -, rfl⟩ := hev
    rfl
  · rw [attemptsOf_append, hsetup, zipWith_dataEvent_attempts _ _ _ hlen]
  · -- the control messages carry no data, and every frame was taken
    have hnone : emittedData pubIdx control = [] :=
      emittedData_eq_nil (by rw [hsetup, e.filterMap_dueSetup])
    have hok := hcovers.pass_events he
    rw [hevents, List.append_right_inj] at hok
    rw [emittedData_append, hnone, List.nil_append, emittedData, emissionsOf_of_ok,
      zipWith_dataEvent_attempts _ _ _ hlen, Emission.filterMap_dataBytes]
    exact (zipWith_dataEvent_ok_iff _ _ _ _ _ hlen).mpr hok

theorem passes_of_notMem {nowNs : Int} {order : List Nat} {i : Nat} (hi : i ∉ order)
    {st : SendState} (hwired : st.agent.Wired) :
    (run (pass nowNs) st order).agent.Wired ∧
      (run (pass nowNs) st order).agent.publications[i]? = st.agent.publications[i]? ∧
      (∃ new, (run (pass nowNs) st order).events = st.events ++ new ∧
        ∀ ev ∈ new, ev.pubIdx ≠ i) ∧
      (run (pass nowNs) st order).intervals = st.intervals := by
  induction order generalizing st with
  | nil => exact ⟨hwired, rfl, ⟨[], by simp⟩, rfl⟩
  | cons j order ih =>
      rw [List.mem_cons, not_or] at hi
      obtain ⟨hji, hrest⟩ := hi
      obtain ⟨hwired', hpub, ⟨new, hevents, hother⟩, hint⟩ :=
        ih hrest (@wired_pass nowNs st hwired j)
      rw [run_cons]
      refine ⟨hwired', hpub.trans (pass_others hwired hji), ?_, hint.trans (pass_intervals hwired j)⟩
      cases he : st.agent.publications[j]? with
      | none =>
          rw [pass_of_none he] at hevents ⊢
          exact ⟨new, hevents, hother⟩
      | some e =>
          obtain ⟨own, hown, hidx, -⟩ := @pass_events nowNs j st e hwired he
          refine ⟨own ++ new, by rw [hevents, hown, List.append_assoc], ?_⟩
          rw [List.forall_mem_append]
          exact ⟨fun ev hev => hidx ev hev ▸ Ne.symm hji, hother⟩

end SendState

def PublicationEntry.scanned (e : PublicationEntry) (limit : Nat) : List (Nat × List UInt8) :=
  if 0 < limit then (e.publication.senderScan limit).2.1 else []

namespace SenderAgent

/-- The state in which the pass of a cycle over publication `i` starts. -/
def beforePass (s : SenderAgent) (nowNs : Int) (i : Nat) : SendState :=
  run (SendState.pass nowNs) s.beginSend (s.passOrder.takeWhile (· ≠ i))

def cycleLimit (s : SenderAgent) (nowNs : Int) (i : Nat) (e : PublicationEntry) : Nat :=
  SendState.passLimit nowNs i e (s.beforePass nowNs i)

theorem cycleLimit_le (s : SenderAgent) (nowNs : Int) (i : Nat) (e : PublicationEntry) :
    s.cycleLimit nowNs i e ≤ e.available :=
  e.scanLimit_le _

theorem exists_passOrder {s : SenderAgent} {i : Nat} (h : i < s.publications.length) :
    ∃ after, s.passOrder = s.passOrder.takeWhile (· ≠ i) ++ i :: after ∧
      i ∉ s.passOrder.takeWhile (· ≠ i) ∧ i ∉ after := by
  obtain ⟨before, after, horder⟩ := List.append_of_mem (mem_passOrder.mpr h)
  have hnodup := s.nodup_passOrder
  rw [horder, List.nodup_middle, List.nodup_cons, List.mem_append, not_or] at hnodup
  obtain ⟨⟨hbefore, hafter⟩, -⟩ := hnodup
  have htake : s.passOrder.takeWhile (· ≠ i) = before := by
    rw [horder, List.takeWhile_append_of_pos fun j hj =>
      decide_eq_true (ne_of_mem_of_not_mem hj hbefore)]
    simp
  rw [htake]
  exact ⟨after, horder, hbefore, hafter⟩

/-- **A cycle** hands over for a publication the setup frame that is due and then the data frames of one
scan, and leaves the publication scanned. If the slots cover the scan, all these data frames are
emitted. -/
theorem doSend_events {s : SenderAgent} (hwired : s.Wired) {i : Nat} {e : PublicationEntry}
    (he : s.publications[i]? = some e) (nowNs : Int) :
    ∃ e', (s.doSend nowNs).agent.publications[i]? = some e' ∧
      SendState.Scanned (s.cycleLimit nowNs i e) e e' ∧
      (attemptsOf i (s.doSend nowNs).events = e.dueSetup s.heartbeatIntervalNs nowNs ++
        ((e.scanned (s.cycleLimit nowNs i e)).filter SendState.isData).map fun f => .data f.2) ∧
      ((s.beforePass nowNs i).Covers nowNs e → emittedData i (s.doSend nowNs).events =
        ((e.scanned (s.cycleLimit nowNs i e)).filter SendState.isData).map Prod.snd) := by
  have hlt := (List.getElem?_eq_some_iff.mp he).1
  have hne : s.publications ≠ [] := List.ne_nil_of_length_pos (Nat.zero_lt_of_lt hlt)
  obtain ⟨after, horder, hbefore, hafter⟩ := exists_passOrder hlt
  have hbegin : s.beginSend.agent.Wired := hwired
  obtain ⟨hwired₁, hpub₁, ⟨before, hevents₁, hother₁⟩, hint₁⟩ :=
    @SendState.passes_of_notMem nowNs _ i hbefore _ hbegin
  change (s.beforePass nowNs i).agent.Wired at hwired₁
  have he₁ : (s.beforePass nowNs i).agent.publications[i]? = some e := hpub₁.trans he
  obtain ⟨ep, hep⟩ := SendState.exists_endpoint hwired₁ he₁
  obtain ⟨e', he', hscan⟩ := (@SendState.pass_spec nowNs i _ e ep he₁ hep).own
  obtain ⟨own, hown, hidx, hattempts, hemitted⟩ := @SendState.pass_events nowNs i _ e hwired₁ he₁
  obtain ⟨-, hpub₂, ⟨rest, hevents₂, hother₂⟩, -⟩ := @SendState.passes_of_notMem nowNs after i hafter _
    (SendState.wired_pass hwired₁ i)
  have hrun : run (SendState.pass nowNs) s.beginSend s.passOrder =
      run (SendState.pass nowNs) (SendState.pass nowNs (s.beforePass nowNs i) i) after := by
    nth_rewrite 1 [horder]
    rw [run_append, run_cons]
    rfl
  have hdone : (s.doSend nowNs).agent.publications =
        (run (SendState.pass nowNs) s.beginSend s.passOrder).agent.publications ∧
      (s.doSend nowNs).events = (run (SendState.pass nowNs) s.beginSend s.passOrder).events := by
    rw [doSend, if_neg hne]
    exact ⟨rfl, rfl⟩
  -- the sends of the cycle: those before the pass, its own, and those after it
  have hsends : (s.doSend nowNs).events = before ++ own ++ rest := by
    rw [hdone.2, hrun, hevents₂, hown]
    exact congrArg (· ++ own ++ rest) hevents₁
  refine ⟨e', by rw [hdone.1, hrun, hpub₂, he'], hscan, ?_, fun hcovers => ?_⟩
  · rw [hsends, attemptsOf_append, attemptsOf_append, attemptsOf_of_ne hother₁,
      attemptsOf_of_ne hother₂, List.append_nil, List.nil_append, hattempts,
      show (s.beforePass nowNs i).agent.heartbeatIntervalNs = s.heartbeatIntervalNs from
        congrArg Prod.fst hint₁]
    rfl
  · rw [hsends, emittedData_append, emittedData_append, emittedData_of_ne hother₁,
      emittedData_of_ne hother₂, List.append_nil, List.nil_append]
    exact hemitted hcovers

end SenderAgent

/-! ## Runs -/

structure SenderRun where
  agent : SenderAgent
  events : List SendEvent

namespace SenderRun

def start (agent : SenderAgent) : SenderRun := ⟨agent, []⟩

def sends (agent : SenderAgent) : SenderAction → List SendEvent
  | .doSend nowNs => (agent.doSend nowNs).events
  | _ => []

def step (s : SenderRun) (a : SenderAction) : SenderRun :=
  ⟨s.agent.step a, s.events ++ sends s.agent a⟩

/-- What publication `i` has handed to the poller. -/
def attempts (i : Nat) (s : SenderRun) : List Emission := attemptsOf i s.events

def emissions (i : Nat) (s : SenderRun) : List Emission := emissionsOf i s.events

theorem emissions_sublist (i : Nat) (s : SenderRun) : (s.emissions i).Sublist (s.attempts i) :=
  emissionsOf_sublist i s.events

theorem mem_attempts {i : Nat} {s : SenderRun} {x : Emission} (h : x ∈ s.emissions i) :
    x ∈ s.attempts i :=
  (s.emissions_sublist i).subset h

theorem emissions_step (i : Nat) (s : SenderRun) (a : SenderAction) :
    (s.step a).emissions i = s.emissions i ++ emissionsOf i (sends s.agent a) :=
  emissionsOf_append i _ _

/-- An offer to publication `i` finds its sender near enough if it rotates. -/
def OffersClear (i : Nat) (s : SenderRun) : SenderAction → Prop
  | .offer pubIdx payload => pubIdx = i → ∀ e ∈ s.agent.publications[i]?,
      (PubRun.start e.publication).RotatesClear (.offer payload)
  | _ => True

instance (i : Nat) (s : SenderRun) : (a : SenderAction) → Decidable (s.OffersClear i a)
  | .offer _ _ => inferInstanceAs (Decidable (_ → ∀ e ∈ s.agent.publications[i]?, _))
  | .statusMessage _ => isTrue trivial
  | .doSend _ => isTrue trivial
  | .poller _ => isTrue trivial

/-- The send slots cover the scan of publication `i` in a cycle. -/
def Covered (i : Nat) (s : SenderRun) : SenderAction → Prop
  | .doSend nowNs => ∀ e ∈ s.agent.publications[i]?, (s.agent.beforePass nowNs i).Covers nowNs e
  | _ => True

instance (i : Nat) (s : SenderRun) : (a : SenderAction) → Decidable (s.Covered i a)
  | .doSend _ => inferInstanceAs (Decidable (∀ e ∈ s.agent.publications[i]?, _))
  | .offer _ _ => isTrue trivial
  | .statusMessage _ => isTrue trivial
  | .poller _ => isTrue trivial

/-- **The stream of publication `i`**: the publication holds it, and the data frames handed to the
poller are the data records sent. -/
structure Streams (ids : StreamIds) (i : Nat) (s : SenderRun) (e : PublicationEntry) (l : StreamLog)
    (n b pub : Nat) : Prop where
  inv : s.agent.Inv
  entry : s.agent.publications[i]? = some e
  ids_eq : e.publication.toNetwork.ids = ids
  represents : Represents e.publication.toNetwork l n b pub
  data : (s.attempts i).filterMap Emission.dataBytes =
    (l.sent.filter LogRecord.isData).map (LogRecord.frame ids)

theorem streams_start {agent : SenderAgent} (h : agent.Initial) {i : Nat} {e : PublicationEntry}
    (he : agent.publications[i]? = some e) :
    (start agent).Streams e.publication.toNetwork.ids i e ⟨[], [], []⟩ 0 0 0 := by
  obtain ⟨_, _, _, _, _, _, hcreate⟩ := h.created e (List.mem_of_getElem? he)
  exact ⟨h.inv, he, rfl, represents_new (Publication.toNetwork_create hcreate), rfl⟩

/-- The setup frame that an action hands over. -/
def setupsOf (s : SenderRun) (e : PublicationEntry) : SenderAction → List Emission
  | .doSend nowNs => e.dueSetup s.agent.heartbeatIntervalNs nowNs
  | _ => []

theorem filterMap_setupsOf (s : SenderRun) (e : PublicationEntry) (a : SenderAction) :
    (s.setupsOf e a).filterMap Emission.dataBytes = [] := by
  cases a with
  | doSend nowNs => exact e.filterMap_dueSetup _ nowNs
  | offer | statusMessage | poller => rfl

/-- The offers of an action that publication `i` accepts, each with the position it returned. -/
def acceptances (i : Nat) (s : SenderRun) : SenderAction → List (Int × List UInt8)
  | .offer pubIdx payload =>
      if pubIdx = i then
        ((s.agent.publications[i]?).map fun e =>
          PubRun.acceptance payload (e.publication.offer payload).2).getD []
      else []
  | _ => []

/-- **What an action does to the stream**: it hands over a setup frame if one is due, sends the records
`taken` and adds the records `new` behind the write cursor. -/
structure Advances (ids : StreamIds) (i : Nat) (s : SenderRun) (a : SenderAction)
    (e : PublicationEntry) (l l' : StreamLog) (n : Nat) (taken new : List LogRecord) : Prop where
  attempts : (s.step a).attempts i = s.attempts i ++ (s.setupsOf e a ++
    (taken.filter LogRecord.isData).map fun r => .data (r.frame ids))
  sent : l'.sent = l.sent ++ taken
  unsent : taken ++ (l'.pending ++ l'.tail) = l.pending ++ l.tail ++ new
  taken_pending : taken <+: l.pending
  after : ∀ r ∈ new, n * ids.termLength + e.publication.toNetwork.termOffset ≤ r.start
  pads : ∀ r ∈ new, r.isData = false → ∃ payload, a = .offer i payload ∧
    e.publication.toNetwork.Rotates payload ∧
    r.start % ids.termLength = e.publication.toNetwork.termOffset ∧
    r.length = ids.termLength - e.publication.toNetwork.termOffset

namespace Streams

variable {ids : StreamIds} {i : Nat} {s : SenderRun} {e : PublicationEntry} {l : StreamLog}
  {n b pub : Nat}

theorem idle (h : s.Streams ids i e l n b pub) {a : SenderAction} {e' : PublicationEntry}
    (he' : (s.agent.step a).publications[i]? = some e') (hpub : e'.publication = e.publication)
    (hsends : sends s.agent a = []) (hsetups : s.setupsOf e a = []) :
    (s.step a).Streams ids i e' l n b pub ∧ Advances ids i s a e l l n [] [] := by
  have hattempts : (s.step a).attempts i = s.attempts i := by
    unfold attempts step
    rw [hsends, List.append_nil]
  refine ⟨⟨SenderAgent.inv_step h.inv a, he', by rw [hpub]; exact h.ids_eq,
    by rw [hpub]; exact h.represents, by rw [hattempts]; exact h.data⟩, ?_⟩
  refine ⟨?_, by simp, by simp, List.nil_prefix, by simp, by simp⟩
  rw [hattempts, hsetups]
  simp

/-- What a scan may read is published and not sent. -/
theorem available_le (h : s.Streams ids i e l n b pub) : e.available ≤ pub - b := by
  have hle := h.represents.le
  have hn := h.represents.termCount_lt
  have hoff := h.represents.offset_le
  have hT : e.publication.toNetwork.termLength ≤ 2 ^ 31 :=
    e.publication.toNetwork.rawLog.termLength_le
  have hmul := Nat.mul_le_mul (Nat.le_of_lt hn) hT
  have hdata : wrapI64 (e.pubPosition - e.senderPosition) = (pub : Int) - b := by
    unfold PublicationEntry.pubPosition PublicationEntry.senderPosition
    rw [h.represents.pub, h.represents.sender]
    exact wrapI64_of_range (by omega) (by omega)
  unfold PublicationEntry.available
  dsimp only
  rw [hdata]
  split_ifs <;> omega

/-- A frame of a record is sent unless the record is a pad. -/
theorem filter_isData_frames (ids : StreamIds) {rs : List LogRecord}
    (hfits : ∀ r ∈ rs, r.Fits ids.termLength) :
    ((rs.map fun r => (r.start % ids.termLength, r.frame ids)).filter SendState.isData).map
        (fun f => Emission.data f.2) =
      (rs.filter LogRecord.isData).map fun r => .data (r.frame ids) := by
  rw [List.filter_map, List.map_map]
  congr 1
  apply List.filter_congr
  intro r hr
  have hlen := LogRecord.frame_length ids (hfits r hr).ge
  have hge := (hfits r hr).ge
  have htype := r.frameTypeOf_frame ids
  rw [Function.comp_apply, SendState.isData]
  dsimp only
  rw [hlen, htype]
  cases r with
  | data start payload => simp [LogRecord.isData, frameTypeData, frameTypePad]
  | pad start len =>
      have : 8 ≤ (LogRecord.pad start len).frameLength := by omega
      simp [LogRecord.isData, this]

/-- **A scan** of the publication reads records from the front of what is pending. -/
theorem scanned (h : s.Streams ids i e l n b pub) {limit : Nat} (hlimit : limit ≤ e.available)
    {e' : PublicationEntry} (hscan : SendState.Scanned limit e e') :
    ∃ taken rest b', l.pending = taken ++ rest ∧
      e.scanned limit = taken.map (fun r => (r.start % ids.termLength, r.frame ids)) ∧
      e'.publication.toNetwork.ids = ids ∧
      Represents e'.publication.toNetwork ⟨l.sent ++ taken, rest, l.tail⟩ n b' pub := by
  by_cases hpos : 0 < limit
  · obtain ⟨taken, rest, hpending, -, hframes, hrep⟩ :=
      h.represents.senderScan (Nat.le_trans hlimit h.available_le)
    have hnetwork := e.publication.toNetwork_senderScan limit
    have hpub : e'.publication.toNetwork = (e.publication.toNetwork.senderScan limit).1 := by
      rw [hscan.publication, if_pos hpos, ← hnetwork]
    refine ⟨taken, rest, _, hpending, ?_, ?_, by rw [hpub]; exact hrep⟩
    · rw [PublicationEntry.scanned, if_pos hpos, ← h.ids_eq]
      exact (congrArg (fun r => r.2.1) hnetwork).trans hframes
    · rw [hpub]
      exact h.ids_eq
  · have hpub : e'.publication = e.publication := by rw [hscan.publication, if_neg hpos]
    refine ⟨[], l.pending, b, rfl, if_neg hpos, ?_, ?_⟩
    · rw [hpub]
      exact h.ids_eq
    · rw [hpub, List.append_nil]
      exact h.represents

/-- **A cycle** sends records from the front of what is pending. -/
theorem doSend (h : s.Streams ids i e l n b pub) (nowNs : Int) :
    ∃ e' l' b' taken, (s.step (.doSend nowNs)).Streams ids i e' l' n b' pub ∧
      Advances ids i s (.doSend nowNs) e l l' n taken [] := by
  obtain ⟨e', he', hscan, hevents, -⟩ := SenderAgent.doSend_events h.inv.wired h.entry nowNs
  obtain ⟨taken, rest, b', hpending, hread, hids, hrep⟩ :=
    h.scanned (s.agent.cycleLimit_le nowNs i e) hscan
  have hfits : ∀ r ∈ taken, r.Fits ids.termLength := by
    intro r hr
    have hmem : r ∈ l.pending := hpending ▸ List.mem_append_left rest hr
    rw [← h.ids_eq]
    exact (h.represents.tiles_pending.mem hmem).1
  have hattempts : (s.step (.doSend nowNs)).attempts i = s.attempts i ++
      (s.setupsOf e (.doSend nowNs) ++
        (taken.filter LogRecord.isData).map fun r => .data (r.frame ids)) := by
    rw [← filter_isData_frames ids hfits, ← hread,
      ← show _ = s.setupsOf e (.doSend nowNs) ++ _ from hevents]
    exact attemptsOf_append i _ _
  refine ⟨e', ⟨l.sent ++ taken, rest, l.tail⟩, b', taken, ?_, ?_⟩
  · refine ⟨SenderAgent.inv_step h.inv (.doSend nowNs), he', hids, hrep, ?_⟩
    rw [hattempts, List.filterMap_append, h.data, List.filterMap_append, List.filter_append,
      List.map_append, filterMap_setupsOf, List.nil_append, Emission.filterMap_dataBytes]
  · refine ⟨hattempts, rfl, ?_, ⟨rest, hpending.symm⟩, by simp, by simp⟩
    rw [hpending]
    simp

/-- **An offer to the publication** adds records behind the write cursor. -/
theorem offer (h : s.Streams ids i e l n b pub) {payload : List UInt8}
    (hclear : s.OffersClear i (.offer i payload)) :
    ∃ e' l' n' pub' new, (s.step (.offer i payload)).Streams ids i e' l' n' b pub' ∧
      Advances ids i s (.offer i payload) e l l' n [] new ∧
      s.acceptances i (.offer i payload) = new.filterMap PubRun.acceptedOf := by
  have hrotates := hclear rfl e h.entry
  obtain ⟨l', n', pub', new, hrep, hoffered⟩ :=
    PubRun.represents_offer h.represents hrotates.1 hrotates.2
  have hnetwork : (e.publication.offer payload).1.toNetwork =
      (e.publication.toNetwork.offer payload).1 :=
    congrArg Prod.fst (e.publication.toNetwork_offer payload)
  -- an offer sends nothing
  have hattempts : (s.step (.offer i payload)).attempts i = s.attempts i := by
    unfold attempts step sends
    rw [List.append_nil]
  refine ⟨{ e with publication := (e.publication.offer payload).1 }, l', n', pub', new, ?_, ?_, ?_⟩
  · refine ⟨SenderAgent.inv_step h.inv (.offer i payload), ?_, ?_, ?_, ?_⟩
    · exact (List.getElem?_modify_eq ..).trans (congrArg _ h.entry)
    · rw [hnetwork, hoffered.ids, h.ids_eq]
    · rw [hnetwork]
      exact hrep
    · rw [hattempts, h.data, hoffered.sent]
  · have hlen : e.publication.toNetwork.termLength = ids.termLength := by rw [← h.ids_eq]; rfl
    refine ⟨?_, by rw [hoffered.sent, List.append_nil], hoffered.unsent, List.nil_prefix, ?_, ?_⟩
    · rw [hattempts]
      simp [setupsOf]
    · rw [← hlen]
      exact hoffered.after
    · rw [← hlen]
      intro r hr hpad
      exact ⟨payload, rfl, hoffered.pads r hr hpad⟩
  · have hresult : (e.publication.offer payload).2 = (e.publication.toNetwork.offer payload).2 :=
      congrArg Prod.snd (e.publication.toNetwork_offer payload)
    rw [acceptances, if_pos rfl, h.entry, Option.map_some, Option.getD_some, hresult]
    exact hoffered.accepted

/-- **Step**, with the offers accepted: they are the data records added. -/
theorem step_accepts (h : s.Streams ids i e l n b pub) {a : SenderAction}
    (hclear : s.OffersClear i a) :
    ∃ e' l' n' b' pub' taken new, (s.step a).Streams ids i e' l' n' b' pub' ∧
      Advances ids i s a e l l' n taken new ∧
      s.acceptances i a = new.filterMap PubRun.acceptedOf := by
  cases a with
  | offer pubIdx payload =>
      by_cases hi : pubIdx = i
      · subst hi
        obtain ⟨e', l', n', pub', new, hnext, hadvances, haccepted⟩ := h.offer hclear
        exact ⟨e', l', n', b, pub', [], new, hnext, hadvances, haccepted⟩
      · have he' : (s.agent.step (.offer pubIdx payload)).publications[i]? = some e :=
          (List.getElem?_modify_ne _ _ hi).trans h.entry
        obtain ⟨hnext, hadvances⟩ := h.idle he' rfl rfl rfl
        exact ⟨e, l, n, b, pub, [], [], hnext, hadvances, if_neg hi⟩
  | statusMessage sm =>
      obtain ⟨hnext, hadvances⟩ := h.idle (SenderAgent.statusMessage_getElem? h.entry sm)
        (e.onStatusMessage_publication sm) rfl rfl
      exact ⟨_, l, n, b, pub, [], [], hnext, hadvances, rfl⟩
  | doSend nowNs =>
      obtain ⟨e', l', b', taken, hnext, hadvances⟩ := h.doSend nowNs
      exact ⟨e', l', n, b', pub, taken, [], hnext, hadvances, rfl⟩
  | poller p =>
      have he' : (s.agent.step (.poller p)).publications[i]? = some e := h.entry
      obtain ⟨hnext, hadvances⟩ := h.idle he' rfl rfl rfl
      exact ⟨e, l, n, b, pub, [], [], hnext, hadvances, rfl⟩

/-- **Step.** -/
theorem step (h : s.Streams ids i e l n b pub) {a : SenderAction} (hclear : s.OffersClear i a) :
    ∃ e' l' n' b' pub' taken new, (s.step a).Streams ids i e' l' n' b' pub' ∧
      Advances ids i s a e l l' n taken new := by
  obtain ⟨e', l', n', b', pub', taken, new, hnext, hadvances, -⟩ := h.step_accepts hclear
  exact ⟨e', l', n', b', pub', taken, new, hnext, hadvances⟩

end Streams

/-! ## Slots for every frame -/

/-- Every data frame that publication `i` has handed to the poller is emitted. -/
def AllEmitted (i : Nat) (s : SenderRun) : Prop :=
  (s.emissions i).filterMap Emission.dataBytes = (s.attempts i).filterMap Emission.dataBytes

theorem allEmitted_start (i : Nat) (agent : SenderAgent) : (start agent).AllEmitted i :=
  rfl

/-- **Step.** A cycle whose scan the slots cover emits what it hands over. -/
theorem AllEmitted.step {i : Nat} {s : SenderRun} (h : s.AllEmitted i) (hinv : s.agent.Inv)
    {e : PublicationEntry} (he : s.agent.publications[i]? = some e) {a : SenderAction}
    (hcovered : s.Covered i a) : (s.step a).AllEmitted i := by
  have hsends : emittedData i (sends s.agent a) =
      (attemptsOf i (sends s.agent a)).filterMap Emission.dataBytes := by
    cases a with
    | doSend nowNs =>
        obtain ⟨_, _, _, hattempts, hemitted⟩ := SenderAgent.doSend_events hinv.wired he nowNs
        rw [sends, hemitted (hcovered e he), hattempts, List.filterMap_append, e.filterMap_dueSetup,
          List.nil_append, Emission.filterMap_dataBytes]
    | offer | statusMessage | poller => rfl
  unfold AllEmitted emissions attempts SenderRun.step at *
  rw [emissionsOf_append, attemptsOf_append, List.filterMap_append, List.filterMap_append, h]
  exact congrArg _ hsends

end SenderRun

end AeronRs
