import AeronRs.Agent.EndpointDispatch
import AeronRs.Agent.Retransmit
import AeronRs.Agent.RoundTripTime
import AeronRs.Client.Aeron
import AeronRs.Media.ControlInbox

/-! # The duty cycle of the sender agent

`do_work` of `sender.rs` with everything that it calls. Every cycle sends. The control plane runs in the
same cycle only if nothing was sent, or if `send_duty_cycle_ratio` cycles have gone without it: the
poller hands received datagrams to the inboxes of their endpoints, publications are picked up from the
bridge of the client, the inboxes are drained, and due retransmits are sent.

* **`doWork_of_polls`**, **`doWork_of_not_polls`** — the two kinds of cycle.
* **`doWork_agent`** — a cycle as the agent sees it is a run of single actions: a cycle of `do_send`,
  status messages, replies and pick-ups, in an order that is given. -/

namespace AeronRs

open Runs

/-! ## State -/

/-- A publication on the bridge, with the transport of its endpoint. -/
structure HandedOver extends PendingPublication where
  transport : UdpChannelTransport

/-- `SenderAgent` with the parts that only `do_work` uses: the inboxes of the endpoints, the scheduler
of retransmits, the bridge of the client and the duty cycle. -/
structure SenderDuty where
  agent : SenderAgent
  inboxes : List ControlInbox
  handler : RetransmitHandler
  bridge : List (TransferSlot HandedOver)
  dutyCycleRatio : Nat
  dutyCycleCounter : Nat

/-- What a cycle finds outside: the time, the completions that the kernel has posted, its answer to the
submission of a poll, and its answers to registrations, by slot of the bridge. -/
structure CycleInput where
  nowNs : Int
  posted : List Cqe
  submitErrno : Option Int
  registerErrno : Nat → Option Int

/-- What a cycle leaves: the agent, its return value and the sends that it made. -/
structure WorkResult where
  duty : SenderDuty
  workCount : Int
  events : List SendEvent

def TransferSlot.tryTake {α : Type} (slot : TransferSlot α) : TransferSlot α × Option α :=
  if slot.state = .filled then (⟨.empty, none⟩, slot.data) else (slot, none)

/-- The entry that `poll_publication_bridge` pushes. -/
def HandedOver.entry (item : HandedOver) (endpointIdx : Nat) : PublicationEntry :=
  { PublicationEntry.new (.concurrent item.senderPub) endpointIdx with destAddr := some item.destAddr }

namespace SenderDuty

/-! ## Steps of a cycle -/

def received (api : UringApi) (poller : UringPoller SendPtr) (submitErrno : Option Int) :
    List RecvMessage :=
  callbacksOf (poller.pollRecv api submitErrno).2.2

/-- `poll_control`. A message for a transport without an endpoint is ignored. -/
def pollControl (api : UringApi) (input : CycleInput) (d : SenderDuty) : SenderDuty × Int :=
  let poller := { d.agent.poller with cq := d.agent.poller.cq ++ input.posted }
  let r := poller.pollRecv api input.submitErrno
  ({ d with
      agent.poller := r.1
      inboxes := (callbacksOf r.2.2).foldl
        (fun inboxes msg => inboxes.modify msg.transportIdx (·.onMessage msg.data)) d.inboxes },
    match r.2.1 with
    | .ok result => result.messagesReceived
    | .error _ => 0)

/-- The body of the loop of `poll_publication_bridge`, for a slot that holds an item. -/
def pickUp (d : SenderDuty) (item : HandedOver) (errno : Option Int) : SenderDuty × Int :=
  match d.agent.poller.addTransport item.transport errno with
  | ((poller, _), _, .error _) => ({ d with agent.poller := poller }, 0)
  | ((poller, _), _, .ok idx) =>
      ({ d with
          agent := { d.agent with
            poller
            endpoints := d.agent.endpoints ++ [{ item.endpoint with transportIdx := some idx }]
            publications := d.agent.publications ++ [item.entry d.agent.endpoints.length] }
          inboxes := d.inboxes ++ [.empty] }, 1)

def emptied (d : SenderDuty) : SenderDuty :=
  { d with bridge := d.bridge.map fun slot => slot.tryTake.1 }

def pollPublicationBridge (input : CycleInput) (d : SenderDuty) : SenderDuty × Int :=
  d.bridge.zipIdx.foldl (fun r slot =>
      match slot.1.tryTake.2 with
      | none => r
      | some item =>
          let next := r.1.pickUp item (input.registerErrno slot.2)
          (next.1, r.2 + next.2))
    (d.emptied, 0)

/-- What `process_sm_and_nak` does for one endpoint. -/
def drain (nowNs : Int) (r : SenderAgent × RetransmitHandler) (inbox : ControlInbox) :
    SenderAgent × RetransmitHandler :=
  let agent := inbox.recentSm.foldl (fun s sm =>
    { s with publications := s.publications.map (·.onStatusMessage sm) }) r.1
  let handler := inbox.recentNaks.foldl (fun h nak => (h.onNak nak nowNs).1) r.2
  let agent := inbox.recentRttms.foldl (fun s rttm =>
    { s with publications := s.publications.map (·.onRttmReply nowNs rttm) }) agent
  (agent, handler)

def processSmAndNak (nowNs : Int) (d : SenderDuty) : SenderDuty :=
  let r := d.inboxes.foldl (drain nowNs) (d.agent, d.handler)
  { d with agent := r.1, handler := r.2, inboxes := d.inboxes.map fun _ => .empty }

/-- The control plane runs in this cycle. -/
def Polls (d : SenderDuty) (nowNs : Int) : Prop :=
  (d.agent.doSend nowNs).totalBytes = 0 ∨ d.dutyCycleRatio ≤ d.dutyCycleCounter

instance (d : SenderDuty) (nowNs : Int) : Decidable (d.Polls nowNs) :=
  inferInstanceAs (Decidable (_ ∨ _))

def doWork (api : UringApi) (d : SenderDuty) (input : CycleInput) : WorkResult :=
  let sent := d.agent.doSend input.nowNs
  if d.Polls input.nowNs then
    let polled := { d with agent := sent.agent }.pollControl api input
    let picked := polled.1.pollPublicationBridge input
    let drained := picked.1.processSmAndNak input.nowNs
    let retransmitted := drained.agent.doRetransmit drained.handler input.nowNs
    ⟨{ drained with
        agent := retransmitted.agent
        handler := retransmitted.handler
        dutyCycleCounter := 0 },
      (polled.2 + picked.2 + retransmitted.workCount + sent.totalBytes).bmod (2 ^ 32),
      sent.events ++ retransmitted.events⟩
  else
    ⟨{ d with agent := sent.agent, dutyCycleCounter := d.dutyCycleCounter + 1 }, sent.totalBytes,
      sent.events⟩

end SenderDuty

/-! ## A cycle as single actions -/

/-- What happens to the agent in a cycle: the actions that are known from `RttAction`, and a publication
that is picked up under the number of its transport. -/
inductive AgentAction
  | rtt (action : RttAction)
  | pickUp (transportIdx : Nat) (item : HandedOver)

def SenderAgent.agentStep (s : SenderAgent) : AgentAction → SenderAgent
  | .rtt action => s.rttStep action
  | .pickUp transportIdx item =>
      { s with
        endpoints := s.endpoints ++ [{ item.endpoint with transportIdx := some transportIdx }]
        publications := s.publications ++ [item.entry s.endpoints.length] }

def AgentAction.poller (poller : UringPoller SendPtr) : AgentAction := .rtt (.sender (.poller poller))

/-- What the agent applies of the datagrams that one endpoint received in a poll: the first status
messages, then the first replies. -/
def applied (nowNs : Int) (datagrams : List (List UInt8)) : List RttAction :=
  ((datagrams.filterMap statusMessageOf).take maxRecentSm).map (fun sm => .sender (.statusMessage sm)) ++
    ((datagrams.filterMap rttmReplyOf).take maxRecentRttm).map (.rttmReply nowNs)

def datagramsOn (transportIdx : Nat) (msgs : List RecvMessage) : List (List UInt8) :=
  (msgs.filter fun msg => msg.transportIdx = transportIdx).map RecvMessage.data

namespace SenderDuty

/-- All inboxes are empty, as they are between two cycles. -/
def Drained (d : SenderDuty) : Prop := ∀ inbox ∈ d.inboxes, inbox = .empty

/-- **The inboxes after a poll**, each with the datagrams of its own transport. -/
theorem foldl_modify_inboxes (msgs : List RecvMessage) (inboxes : List ControlInbox) :
    msgs.foldl (fun inboxes msg => inboxes.modify msg.transportIdx (·.onMessage msg.data)) inboxes =
      inboxes.mapIdx fun k inbox => run ControlInbox.onMessage inbox (datagramsOn k msgs) := by
  induction msgs generalizing inboxes with
  | nil =>
      refine List.ext_getElem? fun k => ?_
      rw [List.foldl_nil, List.getElem?_mapIdx]
      cases inboxes[k]? <;> rfl
  | cons msg msgs ih =>
      refine List.ext_getElem? fun k => ?_
      rw [List.foldl_cons, ih, List.getElem?_mapIdx, List.getElem?_mapIdx, List.getElem?_modify]
      unfold datagramsOn
      by_cases hk : msg.transportIdx = k
      · simp only [hk, if_true, decide_true, List.filter_cons_of_pos]
        cases inboxes[k]? <;> rfl
      · simp only [hk, if_false, decide_false, Bool.false_eq_true, not_false_eq_true,
          List.filter_cons_of_neg]
        cases inboxes[k]? <;> rfl

/-- Draining an inbox is a run of single actions, and the NAKs go to the scheduler. -/
theorem drain_eq (nowNs : Int) (s : SenderAgent) (h : RetransmitHandler) (inbox : ControlInbox) :
    drain nowNs (s, h) inbox =
      (run SenderAgent.rttStep s (inbox.recentSm.map (fun sm => .sender (.statusMessage sm)) ++
          inbox.recentRttms.map (.rttmReply nowNs)),
        inbox.recentNaks.foldl (fun h nak => (h.onNak nak nowNs).1) h) := by
  rw [run_append, run, run, List.foldl_map, List.foldl_map]
  rfl

/-- **Draining the inboxes**, each filled by the datagrams of its transport since it was empty. -/
theorem foldl_drain (nowNs : Int) (filled : List (List (List UInt8))) (s : SenderAgent)
    (h : RetransmitHandler) :
    ((filled.map (run ControlInbox.onMessage .empty)).foldl (drain nowNs) (s, h)).1 =
      run SenderAgent.rttStep s (filled.flatMap (applied nowNs)) := by
  induction filled generalizing s h with
  | nil => rfl
  | cons datagrams filled ih =>
      rw [List.map_cons, List.foldl_cons, drain_eq, ih, List.flatMap_cons, run_append _ _ (applied _ _),
        ControlInbox.onMessage_run]
      rfl

/-! ### Pick-ups -/

/-- What the filled slots of the bridge hold, with the kernel's answers to the registrations. -/
def held (input : CycleInput) (d : SenderDuty) : List (HandedOver × Option Int) :=
  d.bridge.zipIdx.filterMap fun slot =>
    slot.1.tryTake.2.map fun item => (item, input.registerErrno slot.2)

def pickUpStep (d : SenderDuty) (item : HandedOver × Option Int) : SenderDuty :=
  (d.pickUp item.1 item.2).1

def pickUpActions (d : SenderDuty) (item : HandedOver × Option Int) : List AgentAction :=
  match d.agent.poller.addTransport item.1.transport item.2 with
  | ((poller, _), _, .error _) => [.poller poller]
  | ((poller, _), _, .ok idx) => [.poller poller, .pickUp idx item.1]

theorem pollPublicationBridge_eq (input : CycleInput) (d : SenderDuty) :
    (d.pollPublicationBridge input).1 = run pickUpStep d.emptied (d.held input) := by
  unfold pollPublicationBridge held
  generalize d.emptied = d₀
  generalize (0 : Int) = count
  induction d.bridge.zipIdx generalizing d₀ count with
  | nil => rfl
  | cons slot slots ih =>
      rw [List.foldl_cons, List.filterMap_cons]
      cases slot.1.tryTake.2 with
      | none => exact ih d₀ count
      | some item => exact ih _ _

/-- **A pick-up** leaves all but the agent and its inboxes alone, and gives a new endpoint an empty
one. -/
theorem pickUpStep_eq (d : SenderDuty) (item : HandedOver × Option Int) :
    ∃ m, d.pickUpStep item = { d with
      agent := run SenderAgent.agentStep d.agent (d.pickUpActions item)
      inboxes := d.inboxes ++ List.replicate m .empty } := by
  unfold pickUpStep pickUp pickUpActions
  rcases d.agent.poller.addTransport item.1.transport item.2 with ⟨⟨poller, taken⟩, transport, e | idx⟩
  · exact ⟨0, by rw [List.replicate_zero, List.append_nil]; rfl⟩
  · exact ⟨1, rfl⟩

theorem pickUpStep_run (d : SenderDuty) (items : List (HandedOver × Option Int)) :
    ∃ m, run pickUpStep d items = { d with
      agent := run SenderAgent.agentStep d.agent (trace pickUpStep pickUpActions d items)
      inboxes := d.inboxes ++ List.replicate m .empty } := by
  induction items generalizing d with
  | nil => exact ⟨0, by rw [List.replicate_zero, List.append_nil]; rfl⟩
  | cons item items ih =>
      obtain ⟨m, hstep⟩ := d.pickUpStep_eq item
      obtain ⟨m', hrun⟩ := ih (d.pickUpStep item)
      refine ⟨m + m', ?_⟩
      rw [run_cons, hrun, trace, run_append, hstep, List.append_assoc, List.replicate_append_replicate]

/-! ### The cycle -/

theorem doRetransmit_agent (s : SenderAgent) (handler : RetransmitHandler) (nowNs : Int) :
    (s.doRetransmit handler nowNs).agent =
      { s with poller := (s.doRetransmit handler nowNs).agent.poller } := by
  have hfold : ∀ (reqs : List RetransmitRequest) (st : SendState),
      ∃ p, (reqs.foldl SendState.onRetransmit st).agent = { st.agent with poller := p } := by
    intro reqs
    induction reqs with
    | nil => exact fun st => ⟨st.agent.poller, rfl⟩
    | cons req reqs ih =>
        intro st
        obtain ⟨p, evs, heq, -⟩ := st.onRetransmit_eq req
        obtain ⟨p', hp'⟩ := ih (st.onRetransmit req)
        exact ⟨p', by rw [List.foldl_cons, hp', heq]⟩
  obtain ⟨p, hp⟩ := hfold (handler.processTimeouts nowNs).2 ⟨s, [], 0⟩
  unfold SenderAgent.doRetransmit
  dsimp only
  split_ifs
  · rw [hp]
  · rw [hp]

def messages (api : UringApi) (input : CycleInput) (d : SenderDuty) : List RecvMessage :=
  let poller := (d.agent.doSend input.nowNs).agent.poller
  received api { poller with cq := poller.cq ++ input.posted } input.submitErrno

def polled (api : UringApi) (input : CycleInput) (d : SenderDuty) : SenderDuty :=
  ({ d with agent := (d.agent.doSend input.nowNs).agent }.pollControl api input).1

/-- The agent of a cycle before it retransmits. -/
def drained (api : UringApi) (input : CycleInput) (d : SenderDuty) : SenderDuty :=
  ((d.polled api input).pollPublicationBridge input).1.processSmAndNak input.nowNs

/-- **The actions of a cycle**: it sends, and if it polls, publications are picked up, what arrived at
each endpoint is applied, endpoint by endpoint, and retransmits go to the poller. -/
def cycleActions (api : UringApi) (d : SenderDuty) (input : CycleInput) : List AgentAction :=
  .rtt (.sender (.doSend input.nowNs)) ::
    if d.Polls input.nowNs then
      .poller (d.polled api input).agent.poller ::
        (trace pickUpStep pickUpActions (d.polled api input).emptied (d.held input) ++
          (((List.range d.inboxes.length).flatMap fun k =>
            applied input.nowNs (datagramsOn k (d.messages api input))).map .rtt ++
          [.poller ((d.drained api input).agent.doRetransmit (d.drained api input).handler
            input.nowNs).agent.poller]))
    else []

theorem polled_inboxes {d : SenderDuty} (h : d.Drained) (api : UringApi) (input : CycleInput) :
    (d.polled api input).inboxes = ((List.range d.inboxes.length).map fun k =>
      datagramsOn k (d.messages api input)).map (run ControlInbox.onMessage .empty) := by
  have hempty : d.inboxes = List.replicate d.inboxes.length .empty := List.eq_replicate_iff.mpr ⟨rfl, h⟩
  have hfold := foldl_modify_inboxes (d.messages api input) d.inboxes
  change (d.messages api input).foldl _ d.inboxes = _
  rw [hfold]
  refine List.ext_getElem? fun k => ?_
  rw [List.getElem?_mapIdx, List.map_map, List.getElem?_map]
  by_cases hk : k < d.inboxes.length
  · rw [List.getElem?_range hk, List.getElem?_eq_getElem hk, h _ (List.getElem_mem hk)]
    rfl
  · rw [List.getElem?_eq_none (by simpa using hk), List.getElem?_eq_none (by simpa using hk)]
    rfl

theorem run_map_rtt (s : SenderAgent) (as : List RttAction) :
    run SenderAgent.agentStep s (as.map .rtt) = run SenderAgent.rttStep s as := by
  rw [run, List.foldl_map]
  rfl

theorem drained_agent {d : SenderDuty} (h : d.Drained) (api : UringApi) (input : CycleInput) :
    (d.drained api input).agent =
      run SenderAgent.agentStep (d.polled api input).agent
        (trace pickUpStep pickUpActions (d.polled api input).emptied (d.held input) ++
          ((List.range d.inboxes.length).flatMap fun k =>
            applied input.nowNs (datagramsOn k (d.messages api input))).map .rtt) := by
  set start := (d.polled api input).emptied with hstart
  have hbridge : ((d.polled api input).pollPublicationBridge input).1 =
      run pickUpStep start (d.held input) := (d.polled api input).pollPublicationBridge_eq input
  obtain ⟨m, hpick⟩ := start.pickUpStep_run (d.held input)
  -- a new endpoint has received nothing
  set filled := (List.range d.inboxes.length).map fun k => datagramsOn k (d.messages api input)
    with hfilled
  have hinboxes : (run pickUpStep start (d.held input)).inboxes =
      (filled ++ List.replicate m []).map (run ControlInbox.onMessage .empty) := by
    rw [hpick, List.map_append, List.map_replicate, hfilled, ← polled_inboxes h]
    rfl
  have hnone : (List.replicate m ([] : List (List UInt8))).flatMap (applied input.nowNs) = [] := by
    rw [List.flatMap_eq_nil_iff]
    intro datagrams hmem
    rw [List.eq_of_mem_replicate hmem]
    rfl
  unfold drained processSmAndNak
  rw [hbridge]
  dsimp only
  rw [hinboxes, foldl_drain, List.flatMap_append, hnone, List.append_nil, run_append, run_map_rtt,
    hfilled, List.flatMap_map, hpick]
  rfl

/-- The control plane empties the bridge and leaves the duty cycle alone. -/
theorem drained_rest (d : SenderDuty) (api : UringApi) (input : CycleInput) :
    (d.drained api input).bridge = d.emptied.bridge ∧
      (d.drained api input).dutyCycleRatio = d.dutyCycleRatio := by
  obtain ⟨m, hpick⟩ := (d.polled api input).emptied.pickUpStep_run (d.held input)
  have hbridge : ((d.polled api input).pollPublicationBridge input).1 = _ :=
    ((d.polled api input).pollPublicationBridge_eq input).trans hpick
  unfold drained processSmAndNak
  rw [hbridge]
  exact ⟨rfl, rfl⟩

theorem doWork_of_polls {d : SenderDuty} {input : CycleInput} (h : d.Polls input.nowNs)
    (api : UringApi) :
    (d.doWork api input).duty = { d.drained api input with
      agent := ((d.drained api input).agent.doRetransmit (d.drained api input).handler
        input.nowNs).agent
      handler := ((d.drained api input).agent.doRetransmit (d.drained api input).handler
        input.nowNs).handler
      dutyCycleCounter := 0 } := by
  unfold doWork
  dsimp only
  rw [if_pos h]
  rfl

theorem doWork_of_not_polls {d : SenderDuty} {input : CycleInput} (h : ¬ d.Polls input.nowNs)
    (api : UringApi) :
    (d.doWork api input).duty = { d with
      agent := (d.agent.doSend input.nowNs).agent
      dutyCycleCounter := d.dutyCycleCounter + 1 } := by
  unfold doWork
  dsimp only
  rw [if_neg h]

/-- **A cycle is a run of single actions**, and leaves the inboxes empty. -/
theorem doWork_agent {d : SenderDuty} (h : d.Drained) (api : UringApi) (input : CycleInput) :
    (d.doWork api input).duty.Drained ∧
      (d.doWork api input).duty.agent =
        run SenderAgent.agentStep d.agent (d.cycleActions api input) := by
  by_cases hpolls : d.Polls input.nowNs
  · rw [doWork_of_polls hpolls]
    constructor
    · intro inbox hmem
      obtain ⟨-, -, rfl⟩ := List.mem_map.mp hmem
      rfl
    · have hpolled : (d.agent.agentStep (.rtt (.sender (.doSend input.nowNs)))).agentStep
          (.poller (d.polled api input).agent.poller) = (d.polled api input).agent := rfl
      dsimp only
      rw [doRetransmit_agent, cycleActions, if_pos hpolls, run_cons, run_cons, ← List.append_assoc,
        run_append, hpolled, ← drained_agent h]
      rfl
  · rw [doWork_of_not_polls hpolls, cycleActions, if_neg hpolls]
    exact ⟨h, rfl⟩

end SenderDuty

end AeronRs
