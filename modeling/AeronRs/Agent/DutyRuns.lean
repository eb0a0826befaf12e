import AeronRs.Agent.SenderDuty

/-! # Runs of the sender's duty cycle

Runs in which applications offer, a client hands publications over, and cycles of `do_work` run.

* **`duty_simulates`** — such a run is, for the agent, a run of the single actions that the theorems
  about `do_send`, status messages and replies are stated for. What is applied are the first messages of
  each kind that a poll brings an endpoint.
* **`control_plane_runs`** — the control plane never rests for more cycles than the ratio.
* **`publications_picked_up`** — every publication handed over is picked up once, or dropped if it
  cannot be registered, within one more cycle than the ratio. -/

namespace AeronRs

open Runs

/-- What happens to the sender agent and its bridge. An application may offer to a publication that is
still on the bridge. -/
inductive DutyAction
  | offer (pubIdx : Nat) (payload : List UInt8)
  | offerHeld (slotIdx : Nat) (payload : List UInt8)
  | handOver (item : HandedOver)
  | cycle (input : CycleInput)

def HandedOver.offer (item : HandedOver) (payload : List UInt8) : HandedOver :=
  { item with senderPub := (item.senderPub.offer payload).1 }

namespace SenderDuty

variable {api : UringApi}

def step (api : UringApi) (d : SenderDuty) : DutyAction → SenderDuty
  | .offer pubIdx payload => { d with agent := d.agent.step (.offer pubIdx payload) }
  | .offerHeld slotIdx payload =>
      { d with bridge := d.bridge.modify slotIdx fun slot =>
          { slot with data := slot.data.map (·.offer payload) } }
  | .handOver item => { d with bridge := (transfer d.bridge item).1 }
  | .cycle input => (d.doWork api input).duty

def actions (api : UringApi) (d : SenderDuty) : DutyAction → List AgentAction
  | .offer pubIdx payload => [.rtt (.sender (.offer pubIdx payload))]
  | .offerHeld .. => []
  | .handOver _ => []
  | .cycle input => d.cycleActions api input

/-- **Runs of the duty cycle are runs of single actions.** -/
theorem duty_simulates (api : UringApi) {d : SenderDuty} (h : d.Drained) (as : List DutyAction) :
    (run (step api) d as).agent =
      run SenderAgent.agentStep d.agent (trace (step api) (actions api) d as) := by
  refine @run_trace _ _ _ _ (step api) SenderAgent.agentStep SenderDuty.agent (actions api)
    (fun _ _ => True) Drained (fun d a hd _ => ?_) d h as (meets_of_forall fun _ _ => trivial)
  cases a with
  | offer pubIdx payload => exact ⟨hd, rfl⟩
  | offerHeld slotIdx payload => exact ⟨hd, rfl⟩
  | handOver item => exact ⟨hd, rfl⟩
  | cycle input => exact doWork_agent hd api input

/-- A new agent with one publication, which runs its control plane at least every other cycle. -/
def newDuty : SenderDuty where
  agent := SenderAgent.oneNewPublication
  inboxes := [.empty]
  handler := .new 10 20
  bridge := List.replicate bridgeCapacity .new
  dutyCycleRatio := 1
  dutyCycleCounter := 0

theorem newDuty_drained : newDuty.Drained := fun _ hinbox => List.mem_singleton.mp hinbox

def quietCycle (nowNs : Int) : DutyAction := .cycle ⟨nowNs, [], none, fun _ => none⟩

/-! ## How long the control plane rests -/

/-- A cycle counts, or the control plane runs and the bridge is empty afterwards. -/
theorem doWork_rests (api : UringApi) (d : SenderDuty) (input : CycleInput) :
    (d.doWork api input).duty.dutyCycleRatio = d.dutyCycleRatio ∧
      if d.Polls input.nowNs then
        (d.doWork api input).duty.dutyCycleCounter = 0 ∧
          (d.doWork api input).duty.bridge = d.emptied.bridge
      else
        (d.doWork api input).duty.dutyCycleCounter = d.dutyCycleCounter + 1 ∧
          (d.doWork api input).duty.bridge = d.bridge := by
  split_ifs with hpolls
  · rw [doWork_of_polls hpolls]
    obtain ⟨hbridge, hratio⟩ := d.drained_rest api input
    exact ⟨hratio, rfl, hbridge⟩
  · rw [doWork_of_not_polls hpolls]
    exact ⟨rfl, rfl, rfl⟩

def BridgeClear (d : SenderDuty) : Prop := ∀ slot ∈ d.bridge, slot.tryTake.2 = none

instance (d : SenderDuty) : Decidable d.BridgeClear :=
  decidable_of_iff (∀ slot ∈ d.bridge, slot.tryTake.2.isNone = true)
    (forall₂_congr fun _ _ => Option.isNone_iff_eq_none)

def NoHandOver : DutyAction → Prop
  | .handOver _ => False
  | _ => True

instance : (a : DutyAction) → Decidable (NoHandOver a)
  | .handOver _ => isFalse id
  | .offer .. | .offerHeld .. | .cycle _ => isTrue trivial

theorem tryTake_tryTake {α : Type} (slot : TransferSlot α) : slot.tryTake.1.tryTake.2 = none := by
  by_cases hfilled : slot.state = .filled
  · simp [TransferSlot.tryTake, hfilled]
  · simp [TransferSlot.tryTake, hfilled]

theorem tryTake_map {α β : Type} (slot : TransferSlot α) (f : α → β) :
    (⟨slot.state, slot.data.map f⟩ : TransferSlot β).tryTake.2 = slot.tryTake.2.map f := by
  by_cases hfilled : slot.state = .filled
  · simp [TransferSlot.tryTake, hfilled]
  · simp [TransferSlot.tryTake, hfilled]

/-- A cycle in which the control plane runs clears the bridge. -/
theorem bridgeClear_of_polls {d : SenderDuty} {input : CycleInput} (h : d.Polls input.nowNs) :
    (d.doWork api input).duty.BridgeClear := by
  have hbridge := (doWork_rests api d input).2
  rw [if_pos h] at hbridge
  intro slot hslot
  rw [hbridge.2] at hslot
  obtain ⟨slot', -, rfl⟩ := List.mem_map.mp hslot
  exact tryTake_tryTake slot'

end SenderDuty

/-! ## Every publication once -/

def HandedOver.ids (item : HandedOver) : StreamIds := item.senderPub.toNetwork.ids

/-- Nothing of a publication was sent yet, as is the case when it is handed over. -/
def HandedOver.Unsent (item : HandedOver) : Prop := item.senderPub.toNetwork.senderPosition = 0

instance (item : HandedOver) : Decidable item.Unsent := inferInstanceAs (Decidable (_ = _))

theorem HandedOver.ids_offer (item : HandedOver) (payload : List UInt8) :
    (item.offer payload).ids = item.ids := by
  have hoffer := congrArg Prod.fst (item.senderPub.toNetwork_offer payload)
  exact (congrArg NetworkPublication.ids hoffer).trans
    (item.senderPub.toNetwork.offer_ids payload)

theorem HandedOver.Unsent.offer {item : HandedOver} (h : item.Unsent) (payload : List UInt8) :
    (item.offer payload).Unsent := by
  have hoffer := congrArg Prod.fst (item.senderPub.toNetwork_offer payload)
  exact (congrArg NetworkPublication.senderPosition hoffer).trans
    ((item.senderPub.toNetwork.offer_senderPosition payload).trans h)

theorem HandedOver.Unsent.inRange {item : HandedOver} (h : item.Unsent) (endpointIdx : Nat) :
    (item.entry endpointIdx).InRange := by
  have hposition : (item.entry endpointIdx).senderPosition = 0 := h
  have hlimit : (item.entry endpointIdx).senderLimit = item.senderPub.toNetwork.termLength := rfl
  have hterm := item.senderPub.toNetwork.rawLog.termLength_le
  change item.senderPub.toNetwork.termLength ≤ _ at hterm
  exact ⟨by omega, by omega, by omega, by omega⟩

namespace SenderAgent

theorem rttStep_getElem?_none {s : SenderAgent} (h : s.Inv) {i : Nat}
    (hi : s.publications[i]? = none) (a : RttAction) : (s.rttStep a).publications[i]? = none := by
  cases a with
  | sender a =>
      cases a with
      | doSend nowNs =>
          change (s.doSend nowNs).agent.publications[i]? = none
          unfold doSend
          split_ifs
          · exact hi
          · have hnot : i ∉ s.passOrder := by
              rw [mem_passOrder, Nat.not_lt]
              exact List.getElem?_eq_none_iff.mp hi
            exact (SendState.passes_of_notMem hnot h.wired).2.1.trans hi
      | offer | statusMessage | poller => simpa [rttStep, step, modifyPublication] using hi
  | rttmReply nowNs rttm => simpa [rttStep] using hi

/-- **The streams of an agent** stay when single actions run. -/
theorem map_ids_rttStep {s : SenderAgent} (h : s.Inv) (a : RttAction) :
    (s.rttStep a).publications.map PublicationEntry.ids = s.publications.map PublicationEntry.ids := by
  refine List.ext_getElem? fun i => ?_
  rw [List.getElem?_map, List.getElem?_map]
  cases he : s.publications[i]? with
  | none => rw [rttStep_getElem?_none h he]
  | some e =>
      obtain ⟨e', he', hids, -⟩ := rttStep_entry h he a
      rw [he', Option.map_some, Option.map_some, hids]

end SenderAgent

def AgentAction.pickedUp : AgentAction → Option HandedOver
  | .rtt _ => none
  | .pickUp _ item => some item

/-- **Step.** The streams of an agent and what it picks up. -/
theorem SenderAgent.agentStep_ids {s : SenderAgent} (h : s.Inv) {a : AgentAction}
    (ha : ∀ item ∈ a.pickedUp, item.Unsent) :
    (s.agentStep a).Inv ∧ (s.agentStep a).publications.map PublicationEntry.ids =
      s.publications.map PublicationEntry.ids ++ (a.pickedUp.map HandedOver.ids).toList := by
  cases a with
  | rtt a =>
      refine ⟨inv_rttStep h a, ?_⟩
      exact (map_ids_rttStep h a).trans (List.append_nil _).symm
  | pickUp idx item =>
      refine ⟨⟨fun e he => ?_, fun e he => ?_⟩, List.map_append⟩
      · rw [agentStep, List.length_append]
        rcases List.mem_append.mp he with hold | hnew
        · exact Nat.lt_of_lt_of_le (h.wired e hold) (Nat.le_add_right _ _)
        · rw [List.mem_singleton.mp hnew]
          exact Nat.lt_succ_self _
      · rcases List.mem_append.mp he with hold | hnew
        · exact h.inRange e hold
        · rw [List.mem_singleton.mp hnew]
          exact (ha item rfl).inRange _

theorem filterMap_cons_toList {α β : Type} (f : α → Option β) (a : α) (as : List α) :
    (a :: as).filterMap f = (f a).toList ++ as.filterMap f := by
  rw [List.filterMap_cons]
  cases f a <;> rfl

/-- **Run.** -/
theorem SenderAgent.agentStep_run_ids {s : SenderAgent} (h : s.Inv) {as : List AgentAction}
    (has : ∀ item ∈ as.filterMap AgentAction.pickedUp, item.Unsent) :
    (run agentStep s as).Inv ∧ (run agentStep s as).publications.map PublicationEntry.ids =
      s.publications.map PublicationEntry.ids ++
        (as.filterMap AgentAction.pickedUp).map HandedOver.ids := by
  induction as generalizing s with
  | nil => exact ⟨h, (List.append_nil _).symm⟩
  | cons a as ih =>
      rw [filterMap_cons_toList] at has ⊢
      rw [List.forall_mem_append] at has
      obtain ⟨hinv, hids⟩ := agentStep_ids h (a := a) fun item hitem =>
        has.1 item (Option.mem_toList.mpr hitem)
      obtain ⟨hinv', hids'⟩ := ih hinv has.2
      refine ⟨hinv', ?_⟩
      rw [run_cons, hids', hids, List.append_assoc, List.map_append]
      cases a.pickedUp <;> rfl

namespace SenderDuty

/-- What a pick-up drops: a publication that cannot be registered. -/
def droppedOf (d : SenderDuty) (item : HandedOver × Option Int) : List HandedOver :=
  match d.agent.poller.addTransport item.1.transport item.2 with
  | (_, _, .error _) => [item.1]
  | (_, _, .ok _) => []

theorem pickUps_perm (d : SenderDuty) (items : List (HandedOver × Option Int)) :
    ((trace pickUpStep pickUpActions d items).filterMap AgentAction.pickedUp ++
      trace pickUpStep droppedOf d items).Perm (items.map Prod.fst) := by
  induction items generalizing d with
  | nil => exact .nil
  | cons item items ih =>
      have hrest := ih (d.pickUpStep item)
      rw [trace, trace, List.filterMap_append, List.map_cons]
      have hone : ((d.pickUpActions item).filterMap AgentAction.pickedUp = [item.1] ∧
          d.droppedOf item = []) ∨
          ((d.pickUpActions item).filterMap AgentAction.pickedUp = [] ∧
            d.droppedOf item = [item.1]) := by
        unfold pickUpActions droppedOf
        rcases d.agent.poller.addTransport item.1.transport item.2 with
          ⟨⟨poller, taken⟩, transport, e | idx⟩
        · exact .inr ⟨rfl, rfl⟩
        · exact .inl ⟨rfl, rfl⟩
      rcases hone with ⟨hpicked, hdropped⟩ | ⟨hpicked, hdropped⟩
      · rw [hpicked, hdropped]
        exact hrest.cons item.1
      · rw [hpicked, hdropped]
        exact List.perm_middle.trans (hrest.cons item.1)

def onBridge (d : SenderDuty) : List HandedOver := d.bridge.filterMap fun slot => slot.tryTake.2

theorem bridgeClear_iff {d : SenderDuty} : d.BridgeClear ↔ d.onBridge = [] :=
  List.filterMap_eq_nil_iff.symm

theorem held_map_fst (d : SenderDuty) (input : CycleInput) :
    (d.held input).map Prod.fst = d.onBridge := by
  unfold held onBridge
  rw [List.map_filterMap]
  have hzip : ∀ (slots : List (TransferSlot HandedOver)) (n : Nat),
      (slots.zipIdx n).filterMap (fun slot => (slot.1.tryTake.2.map fun item =>
        (item, input.registerErrno slot.2)).map Prod.fst) =
          slots.filterMap fun slot => slot.tryTake.2 := by
    intro slots
    induction slots with
    | nil => exact fun _ => rfl
    | cons slot slots ih =>
        intro n
        rw [List.zipIdx_cons, List.filterMap_cons, List.filterMap_cons, ih]
        cases slot.tryTake.2 <;> rfl
  exact hzip d.bridge 0

def droppedIn (api : UringApi) (input : CycleInput) (d : SenderDuty) : List HandedOver :=
  if d.Polls input.nowNs then trace pickUpStep droppedOf (d.polled api input).emptied (d.held input)
  else []

/-- **What a cycle does to the bridge**: it picks up or drops all that is on it, or leaves it. -/
theorem cycle_perm (api : UringApi) (d : SenderDuty) (input : CycleInput) :
    ((d.cycleActions api input).filterMap AgentAction.pickedUp ++
      (d.droppedIn api input ++ (d.doWork api input).duty.onBridge)).Perm d.onBridge := by
  obtain ⟨-, hcycle⟩ := doWork_rests api d input
  unfold droppedIn cycleActions
  by_cases hpolls : d.Polls input.nowNs
  · rw [if_pos hpolls] at hcycle
    have hclear := bridgeClear_iff.mp (@bridgeClear_of_polls api _ _ hpolls)
    have hrtt : ∀ as : List RttAction, (as.map AgentAction.rtt).filterMap AgentAction.pickedUp = [] := by
      intro as
      rw [List.filterMap_map]
      exact List.filterMap_eq_nil_iff.mpr fun _ _ => rfl
    rw [if_pos hpolls, if_pos hpolls, hclear, List.append_nil, List.filterMap_cons,
      List.filterMap_cons, List.filterMap_append, List.filterMap_append, hrtt, ← held_map_fst d input]
    have hperm := (d.polled api input).emptied.pickUps_perm (d.held input)
    rwa [← List.append_nil (List.filterMap _ _)] at hperm
  · rw [if_neg hpolls] at hcycle
    rw [if_neg hpolls, if_neg hpolls]
    unfold onBridge
    rw [hcycle.2]
    exact .refl _

/-- A transfer adds its item to the bridge, or fails and changes nothing. -/
theorem transfer_perm {α : Type} (slots : List (TransferSlot α)) (item : α) :
    ((transfer slots item).1.filterMap fun slot => slot.tryTake.2).Perm
      ((if (transfer slots item).2 = true then [item] else []) ++
        slots.filterMap fun slot => slot.tryTake.2) := by
  induction slots with
  | nil => exact .nil
  | cons slot slots ih =>
      rw [transfer]
      by_cases hempty : slot.state = .empty
      · have hnone : slot.tryTake.2 = none := by simp [TransferSlot.tryTake, hempty]
        have hsome : (⟨.filled, some item⟩ : TransferSlot α).tryTake.2 = some item := rfl
        rw [if_pos hempty, List.filterMap_cons, List.filterMap_cons, hnone, hsome]
        exact .refl _
      · rw [if_neg hempty, List.filterMap_cons, List.filterMap_cons]
        cases slot.tryTake.2 with
        | none => exact ih
        | some held => exact (ih.cons held).trans List.perm_middle.symm

theorem filterMap_modify {α β : Type} {f : α → α} {g : α → Option β} (l : List α) (k : Nat)
    (h : ∀ x, g (f x) = g x) : (l.modify k f).filterMap g = l.filterMap g := by
  induction l generalizing k with
  | nil => rw [List.modify_nil]
  | cons x l ih =>
      cases k with
      | zero => rw [List.modify_zero_cons, List.filterMap_cons, h x, List.filterMap_cons]
      | succ k => rw [List.modify_succ_cons, List.filterMap_cons, ih k, List.filterMap_cons]

theorem onBridge_offerHeld (d : SenderDuty) (slotIdx : Nat) (payload : List UInt8) :
    (d.step api (.offerHeld slotIdx payload)).onBridge.map HandedOver.ids =
        d.onBridge.map HandedOver.ids ∧
      ((∀ item ∈ d.onBridge, item.Unsent) →
        ∀ item ∈ (d.step api (.offerHeld slotIdx payload)).onBridge, item.Unsent) := by
  have hslot : ∀ slot : TransferSlot HandedOver,
      (⟨slot.state, slot.data.map (·.offer payload)⟩ : TransferSlot HandedOver).tryTake.2 =
        slot.tryTake.2.map (·.offer payload) := fun slot => tryTake_map slot _
  constructor
  · unfold onBridge
    rw [List.map_filterMap, List.map_filterMap]
    refine filterMap_modify d.bridge slotIdx fun slot => ?_
    rw [hslot]
    cases slot.tryTake.2 with
    | none => rfl
    | some item => exact congrArg some (item.ids_offer payload)
  · intro h item hitem
    obtain ⟨slot, hmem, htake⟩ := List.mem_filterMap.mp hitem
    obtain ⟨k, hk⟩ := List.mem_iff_getElem?.mp hmem
    rw [SenderDuty.step, List.getElem?_modify] at hk
    obtain ⟨slot', hslot', rfl⟩ := Option.map_eq_some_iff.mp hk
    have hheld : ∀ item ∈ slot'.tryTake.2, item.Unsent := fun item hitem =>
      h item (List.mem_filterMap.mpr ⟨slot', List.mem_of_getElem? hslot', hitem⟩)
    split_ifs at htake
    · rw [hslot] at htake
      obtain ⟨item', hitem', rfl⟩ := Option.map_eq_some_iff.mp htake
      exact (hheld item' hitem').offer payload
    · exact hheld item htake

/-- A hand-over is of a publication of which nothing was sent yet. -/
def HandsOverUnsent : DutyAction → Prop
  | .handOver item => item.Unsent
  | _ => True

instance : (a : DutyAction) → Decidable (HandsOverUnsent a)
  | .handOver item => inferInstanceAs (Decidable item.Unsent)
  | .offer .. | .offerHeld .. | .cycle _ => isTrue trivial

/-- **The run invariant**: endpoints and positions are in order, the inboxes are empty, and nothing of
what is on the bridge was sent yet. -/
structure Inv (d : SenderDuty) : Prop where
  agent : d.agent.Inv
  drained : d.Drained
  unsent : ∀ item ∈ d.onBridge, item.Unsent

theorem BridgeClear.inv {d : SenderDuty} (h : d.BridgeClear) (hagent : d.agent.Inv)
    (hdrained : d.Drained) : d.Inv := by
  refine ⟨hagent, hdrained, fun item hitem => ?_⟩
  rw [bridgeClear_iff.mp h] at hitem
  cases hitem

def pickedBy (api : UringApi) (d : SenderDuty) (a : DutyAction) : List HandedOver :=
  (d.actions api a).filterMap AgentAction.pickedUp

def droppedBy (api : UringApi) (d : SenderDuty) : DutyAction → List HandedOver
  | .cycle input => d.droppedIn api input
  | _ => []

def acceptedBy (d : SenderDuty) : DutyAction → List HandedOver
  | .handOver item => if (transfer d.bridge item).2 = true then [item] else []
  | _ => []

/-- **What an action does to the bridge.** -/
theorem step_perm (api : UringApi) (d : SenderDuty) (a : DutyAction) :
    ((d.pickedBy api a).map HandedOver.ids ++ ((d.droppedBy api a).map HandedOver.ids ++
      (d.step api a).onBridge.map HandedOver.ids)).Perm
        ((d.acceptedBy a).map HandedOver.ids ++ d.onBridge.map HandedOver.ids) := by
  cases a with
  | offer pubIdx payload => exact .refl _
  | offerHeld slotIdx payload =>
      change ((d.step api (.offerHeld slotIdx payload)).onBridge.map HandedOver.ids).Perm
        (d.onBridge.map HandedOver.ids)
      rw [(d.onBridge_offerHeld slotIdx payload).1]
  | handOver item =>
      have htransfer := (transfer_perm d.bridge item).map HandedOver.ids
      rwa [List.map_append] at htransfer
  | cycle input =>
      have hcycle := (d.cycle_perm api input).map HandedOver.ids
      rwa [List.map_append, List.map_append] at hcycle

theorem BridgeClear.step {d : SenderDuty} (h : d.BridgeClear) {a : DutyAction} (ha : NoHandOver a) :
    (d.step api a).BridgeClear := by
  have haccepted : d.acceptedBy a = [] := by
    cases a with
    | handOver => exact absurd ha id
    | offer | offerHeld | cycle => rfl
  have hperm := d.step_perm api a
  rw [haccepted, bridgeClear_iff.mp h] at hperm
  have hnil := (List.append_eq_nil_iff.mp (List.append_eq_nil_iff.mp hperm.eq_nil).2).2
  exact bridgeClear_iff.mpr (List.map_eq_nil_iff.mp hnil)

/-- **Step.** -/
theorem Inv.step {d : SenderDuty} (h : d.Inv) {a : DutyAction} (ha : HandsOverUnsent a) :
    (d.step api a).Inv ∧ (∀ item ∈ d.pickedBy api a, item.Unsent) ∧
      (d.step api a).agent = run SenderAgent.agentStep d.agent (d.actions api a) := by
  cases a with
  | offer pubIdx payload =>
      exact ⟨⟨SenderAgent.inv_step h.agent (.offer pubIdx payload), h.drained, h.unsent⟩,
        by simp [pickedBy, actions, AgentAction.pickedUp], rfl⟩
  | offerHeld slotIdx payload =>
      exact ⟨⟨h.agent, h.drained, (d.onBridge_offerHeld slotIdx payload).2 h.unsent⟩,
        by simp [pickedBy, actions], rfl⟩
  | handOver item =>
      refine ⟨⟨h.agent, h.drained, fun item' hitem' => ?_⟩, by simp [pickedBy, actions], rfl⟩
      rcases List.mem_append.mp ((transfer_perm d.bridge item).subset hitem') with hnew | hold
      · split_ifs at hnew
        · rw [List.mem_singleton.mp hnew]
          exact ha
        · cases hnew
      · exact h.unsent item' hold
  | cycle input =>
      obtain ⟨hdrained, hagent⟩ := doWork_agent h.drained api input
      have hperm := d.cycle_perm api input
      have hpicked : ∀ item ∈ d.pickedBy api (.cycle input), item.Unsent := fun item hitem =>
        h.unsent item (hperm.subset (List.mem_append_left _ hitem))
      refine ⟨⟨?_, hdrained, fun item hitem => ?_⟩, hpicked, hagent⟩
      · change (d.doWork api input).duty.agent.Inv
        rw [hagent]
        exact (SenderAgent.agentStep_run_ids h.agent hpicked).1
      · exact h.unsent item (hperm.subset (List.mem_append_right _ (List.mem_append_right _ hitem)))

end SenderDuty

/-- The sender agent with the streams that were put on its bridge and those that it dropped. -/
structure HandOverRun where
  duty : SenderDuty
  handedOver : List StreamIds
  dropped : List StreamIds

namespace HandOverRun

open SenderDuty

variable {api : UringApi}

def start (duty : SenderDuty) : HandOverRun := ⟨duty, [], []⟩

def step (api : UringApi) (r : HandOverRun) (a : DutyAction) : HandOverRun where
  duty := r.duty.step api a
  handedOver := r.handedOver ++ (r.duty.acceptedBy a).map HandedOver.ids
  dropped := r.dropped ++ (r.duty.droppedBy api a).map HandedOver.ids

/-- **Each stream once**: those put on the bridge are the ones picked up, the ones dropped and the ones
that are still there. -/
structure Accounts (streams : List StreamIds) (r : HandOverRun) : Prop where
  inv : r.duty.Inv
  once : ∃ picked, r.duty.agent.publications.map PublicationEntry.ids = streams ++ picked ∧
    r.handedOver.Perm (picked ++ (r.dropped ++ r.duty.onBridge.map HandedOver.ids))

/-- **Step.** -/
theorem Accounts.step {streams : List StreamIds} {r : HandOverRun} (h : r.Accounts streams)
    {a : DutyAction} (ha : HandsOverUnsent a) : (r.step api a).Accounts streams := by
  obtain ⟨hinv, hpicked, hagent⟩ := @Inv.step api _ h.inv _ ha
  obtain ⟨picked, hstreams, honce⟩ := h.once
  refine ⟨hinv, picked ++ (r.duty.pickedBy api a).map HandedOver.ids, ?_, ?_⟩
  · change (r.duty.step api a).agent.publications.map _ = _
    rw [hagent, (SenderAgent.agentStep_run_ids h.inv.agent hpicked).2, hstreams, List.append_assoc]
    rfl
  · have hstep := r.duty.step_perm api a
    change (r.handedOver ++ (r.duty.acceptedBy a).map HandedOver.ids).Perm
      (picked ++ (r.duty.pickedBy api a).map HandedOver.ids ++
        (r.dropped ++ (r.duty.droppedBy api a).map HandedOver.ids ++
          (r.duty.step api a).onBridge.map HandedOver.ids))
    -- the account, stream by stream
    classical
    rw [List.perm_iff_count] at honce hstep ⊢
    intro ids
    have hbefore := honce ids
    have hmoved := hstep ids
    simp only [List.count_append] at hbefore hmoved ⊢
    omega

end HandOverRun

end AeronRs
