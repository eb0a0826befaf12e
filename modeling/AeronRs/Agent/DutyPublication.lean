import AeronRs.Agent.DutyRuns

/-! # A publication under the duty cycle

What the runs of the duty cycle make of one publication. They are runs of single actions
(`duty_simulates`), so the step lemmas of `SenderLimit` and `RoundTripTime` carry over; picking up other
publications leaves it alone. -/

namespace AeronRs

open Runs

/-- The action that is known from `RttAction`. -/
def AgentAction.rtt? : AgentAction → Option RttAction
  | .rtt a => some a
  | .pickUp .. => none

def RttAction.sender? : RttAction → Option SenderAction
  | .sender a => some a
  | .rttmReply .. => none

namespace SenderAgent

/-- **Publication `i`**, whose stream is that of `e₀`, after actions: its limit is the greatest of its
term length and of what they propose, and its time that of the samples that they bring. -/
structure PublicationIs (i : Nat) (e₀ : PublicationEntry) (acts : List RttAction) (s : SenderAgent) :
    Prop where
  inv : s.Inv
  entry : ∃ e, s.publications[i]? = some e ∧ e.ids = e₀.ids ∧
    IsGreatest (insert (e₀.termLength : Int) (proposals e₀ (acts.filterMap RttAction.sender?)))
      e.senderLimit ∧
    SrttOf (accepted (e₀.samplesOf acts)) e.lastRttNs

theorem proposals_nil (e : PublicationEntry) : proposals e [] = ∅ := by simp [proposals]

namespace PublicationIs

variable {i : Nat} {e₀ : PublicationEntry} {acts : List RttAction} {s : SenderAgent}

theorem rttStep (h : PublicationIs i e₀ acts s) (hterm : e₀.termLength ≤ 2 ^ 30) (a : RttAction) :
    PublicationIs i e₀ (acts ++ [a]) (s.rttStep a) := by
  obtain ⟨hinv, e, he, hids, hgreatest, hsrtt⟩ := h
  obtain ⟨e', he', hids', hrtt⟩ := rttStep_entry hinv he a
  refine ⟨inv_rttStep hinv a, e', he', hids'.trans hids, ?_, ?_⟩
  · rw [List.filterMap_append, proposals_append, ← Set.insert_union]
    cases a with
    | sender a =>
        obtain ⟨-, e'', he'', -, hgreatest'⟩ :=
          (limitIs_step ⟨hinv, e, he, hids, hgreatest⟩ hterm a).1
        obtain rfl := Option.some.inj (he'.symm.trans he'')
        exact hgreatest'
    | rttmReply nowNs rttm =>
        obtain ⟨lastRttNs, heq⟩ := e.onRttmReply_eq nowNs rttm
        change (s.publications.map (·.onRttmReply nowNs rttm))[i]? = _ at he'
        rw [List.getElem?_map, he, Option.map_some, heq] at he'
        obtain rfl := Option.some.inj he'
        change IsGreatest (_ ∪ proposals e₀ []) e.senderLimit
        rwa [proposals_nil, Set.union_empty]
  · have hsamples : e₀.samplesOf (acts ++ [a]) = e₀.samplesOf acts ++ (e.sampleOf a).toList := by
      rw [PublicationEntry.sampleOf_congr hids, PublicationEntry.samplesOf, List.filterMap_append,
        filterMap_cons_toList, List.filterMap_nil, List.append_nil]
      rfl
    rw [hrtt, hsamples, accepted, List.filter_append]
    exact (hsrtt.run _).1

/-- **Step.** -/
theorem step (h : PublicationIs i e₀ acts s) (hterm : e₀.termLength ≤ 2 ^ 30) {a : AgentAction}
    (ha : ∀ item ∈ a.pickedUp, item.Unsent) :
    PublicationIs i e₀ (acts ++ a.rtt?.toList) (s.agentStep a) := by
  cases a with
  | rtt a => exact h.rttStep hterm a
  | pickUp idx item =>
      obtain ⟨e, he, hentry⟩ := h.entry
      change PublicationIs i e₀ (acts ++ []) _
      rw [List.append_nil]
      refine ⟨(agentStep_ids h.inv ha).1, e, ?_, hentry⟩
      exact List.getElem?_append_left (List.getElem?_eq_some_iff.mp he).1 ▸ he

/-- **Run.** -/
theorem run (h : PublicationIs i e₀ acts s) (hterm : e₀.termLength ≤ 2 ^ 30) {as : List AgentAction}
    (has : ∀ item ∈ as.filterMap AgentAction.pickedUp, item.Unsent) :
    PublicationIs i e₀ (acts ++ as.filterMap AgentAction.rtt?) (Runs.run agentStep s as) := by
  induction as generalizing s acts with
  | nil => rwa [List.filterMap_nil, List.append_nil]
  | cons a as ih =>
      rw [filterMap_cons_toList, List.forall_mem_append] at has
      rw [filterMap_cons_toList, ← List.append_assoc]
      exact ih (h.step hterm fun item hitem => has.1 item (Option.mem_toList.mpr hitem)) has.2

end PublicationIs

end SenderAgent

namespace SenderDuty

theorem unsent_trace {api : UringApi} {d : SenderDuty} (h : d.Inv) {as : List DutyAction}
    (has : ∀ a ∈ as, HandsOverUnsent a) :
    ∀ item ∈ (trace (step api) (actions api) d as).filterMap AgentAction.pickedUp, item.Unsent := by
  induction as generalizing d with
  | nil => exact fun item hitem => absurd hitem List.not_mem_nil
  | cons a as ih =>
      rw [List.forall_mem_cons] at has
      obtain ⟨hinv, hpicked, -⟩ := @Inv.step api _ h _ has.1
      intro item hitem
      rw [trace, List.filterMap_append] at hitem
      rcases List.mem_append.mp hitem with hnow | hlater
      · exact hpicked item hnow
      · exact ih hinv has.2 item hlater

/-- **A publication under the duty cycle.** In every run of offers, hand-overs and cycles, the sender
limit of a publication is the greatest of its term length and of what the status messages applied to it
propose, and its smoothed round-trip time is zero or between the accepted samples of the replies applied
to it. What a cycle applies are the first 64 status messages and the first 16 replies that its poll
brings each endpoint. -/
theorem duty_publication (api : UringApi) {d : SenderDuty} (h : d.agent.Initial)
    (hdrained : d.Drained) (hclear : d.BridgeClear) {i : Nat} {e : PublicationEntry}
    (he : d.agent.publications[i]? = some e) (hrtt : e.lastRttNs = 0)
    (hterm : e.termLength ≤ 2 ^ 30) (as : List DutyAction) (has : ∀ a ∈ as, HandsOverUnsent a) :
    let acts := (trace (step api) (actions api) d as).filterMap AgentAction.rtt?
    ∃ e', (run (step api) d as).agent.publications[i]? = some e' ∧
      IsGreatest (insert (e.termLength : Int) (SenderAgent.proposals e (acts.filterMap RttAction.sender?)))
        e'.senderLimit ∧
      SrttOf (accepted (e.samplesOf acts)) e'.lastRttNs := by
  have hinv := hclear.inv h.inv hdrained
  have hstart : SenderAgent.PublicationIs i e [] d.agent := by
    obtain ⟨-, e₁, he₁, -, hgreatest⟩ := h.limitIs he
    obtain rfl := Option.some.inj (he.symm.trans he₁)
    refine ⟨h.inv, e, he, rfl, ?_, fun _ hx => (nomatch hx), fun _ => hrtt, fun hne => absurd rfl hne⟩
    rwa [List.filterMap_nil, SenderAgent.proposals_nil, insert_empty_eq]
  obtain ⟨-, e', he', -, hgreatest, hsrtt⟩ := hstart.run hterm (unsent_trace hinv has)
  rw [← duty_simulates api hdrained] at he'
  exact ⟨e', he', hgreatest, hsrtt⟩

/-- A buffer holds a message with an empty name. -/
def plainApi : UringApi := { PollRun.flagApi with parse := fun data => some ⟨[], data, 0⟩ }

/-- The status message for the first 64 bytes of the new publication, with a window of 256. -/
def smFor64 : StatusMessage :=
  ⟨⟨BitVec.ofNat 32 smTotalLength, currentVersion, 0, frameTypeSm⟩, 7, 1, 5, 64, 256, 1⟩

/-- The new agent, with a status message and the reply to an RTTM request of time 50 in its receive
buffers. -/
def receivingDuty : SenderDuty :=
  { newDuty with
    agent.poller.bufRing.mask := 1
    agent.poller.bufRing.buffers := fun bufId =>
      if bufId = 0 then smFor64.encode
      else { rttmRequest 7 1 50 with frameHeader.flags := rttmFlagReply }.encode }

/-- A frame is sent, and the next cycle, which has nothing to send, finds both messages received. -/
def receivedRun : List DutyAction :=
  [.offer 0 [1], quietCycle 50,
    .cycle ⟨60, [⟨UserData.encode ⟨0, opRecv, 0⟩, smTotalLength, 3⟩,
      ⟨UserData.encode ⟨0, opRecv, 0⟩, rttmTotalLength, 2 ^ 16 + 3⟩], none, fun _ => none⟩]

/-- Both are applied: the limit goes from 128 to 320, and the round-trip time is 10. -/
theorem duty_publication_received :
    let e := PublicationEntry.new ((Publication.create false 7 1 5 128 1408).get rfl) 0
    let acts := (trace (step plainApi) (actions plainApi) receivingDuty receivedRun).filterMap
      AgentAction.rtt?
    (∃ e', (run (step plainApi) receivingDuty receivedRun).agent.publications[0]? = some e' ∧
      IsGreatest (insert (e.termLength : Int)
        (SenderAgent.proposals e (acts.filterMap RttAction.sender?))) e'.senderLimit ∧
      SrttOf (accepted (e.samplesOf acts)) e'.lastRttNs) ∧
    (run (step plainApi) receivingDuty receivedRun).agent.publications.map
      (fun e => (e.senderLimit, e.lastRttNs)) = [(320, 10)] := by
  have hinitial : receivingDuty.agent.Initial :=
    ⟨SenderAgent.oneNewPublication_initial.wired, SenderAgent.oneNewPublication_initial.created,
      SenderAgent.oneNewPublication_initial.senderLimit⟩
  exact ⟨duty_publication plainApi hinitial newDuty_drained (by decide +kernel) (i := 0) rfl rfl
    (by decide +kernel) receivedRun (by decide +kernel), by decide +kernel⟩

end SenderDuty

end AeronRs
