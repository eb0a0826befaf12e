import AeronRs.Agent.Conductor

/-! # The staging array between the ring and the handlers

`do_work` drains the whole ring of client commands, but its callback keeps only the first 32 messages
and only the first 512 bytes of each. Here clients write and the conductor takes cycles, in any order,
from any contents of the ring.

* **`StagingRun.consumed`** is what the ring has handed out, **`StagingRun.passed`** what
  `process_command` was called with, as its calls record it.
* **`StagingRun.Fits`** is the condition on a cycle: the ring holds no more than the array takes. -/

namespace AeronRs

open Runs

/-- A write by a client, or a cycle of the conductor at a time. -/
inductive StagingAction
  | clientWrite (msg : Message)
  | doWork (nowNs : Int)

/-- A conductor with the messages that clients got into its ring, those that the ring handed out, and
the arguments of `process_command`. -/
structure StagingRun where
  conductor : Conductor
  accepted : List Message
  consumed : List Message
  passed : List Message

/-- The message of a call of `process_command`. -/
def ConductorEvent.processed? : ConductorEvent → Option Message
  | .processed msg => some msg
  | _ => none

namespace Conductor

/-! ## What is staged and processed -/

/-- **The staged entries** are the first messages that find room, cut to the length of an entry. -/
theorem foldl_stage (staged msgs : List Message) :
    msgs.foldl stage staged =
      staged ++ (msgs.take (maxCmdsPerCycle - staged.length)).map stagedEntry := by
  induction msgs generalizing staged with
  | nil => simp
  | cons msg msgs ih =>
      rw [List.foldl_cons, ih, stage]
      by_cases hroom : staged.length < maxCmdsPerCycle
      · have hleft : maxCmdsPerCycle - staged.length =
            maxCmdsPerCycle - (staged ++ [stagedEntry msg]).length + 1 := by
          rw [List.length_append, List.length_singleton]
          omega
        rw [if_pos hroom, hleft, List.take_succ_cons, List.map_cons, List.append_assoc,
          List.singleton_append]
      · have hfull : maxCmdsPerCycle - staged.length = 0 := by omega
        rw [if_neg hroom, hfull, List.take_zero, List.take_zero]

theorem length_foldl_stage_le (msgs : List Message) :
    (msgs.foldl stage []).length ≤ msgs.length := by
  rw [foldl_stage]
  simp

/-- An entry keeps the whole message if the payload is short enough. -/
theorem stagedEntry_eq_iff (msg : Message) :
    stagedEntry msg = msg ↔ msg.payload.length ≤ stagedLength := by
  obtain ⟨msgType, payload⟩ := msg
  simp only [stagedEntry, Message.mk.injEq, true_and, List.take_eq_self_iff]
  omega

/-- **Staging loses nothing** exactly if there are few enough messages, each short enough. -/
theorem foldl_stage_eq_iff (msgs : List Message) :
    msgs.foldl stage [] = msgs ↔
      msgs.length ≤ maxCmdsPerCycle ∧ ∀ msg ∈ msgs, msg.payload.length ≤ stagedLength := by
  rw [foldl_stage, List.nil_append, List.length_nil, Nat.sub_zero]
  constructor
  · intro h
    have hlen : msgs.length ≤ maxCmdsPerCycle := by
      have := congrArg List.length h
      rw [List.length_map, List.length_take] at this
      omega
    rw [List.take_of_length_le hlen] at h
    refine ⟨hlen, fun msg hmsg => (stagedEntry_eq_iff msg).mp ?_⟩
    exact List.map_inj_left.mp (h.trans (List.map_id msgs).symm) msg hmsg
  · rintro ⟨hlen, hshort⟩
    rw [List.take_of_length_le hlen]
    refine (List.map_congr_left fun msg hmsg => ?_).trans (List.map_id msgs)
    exact (stagedEntry_eq_iff msg).mpr (hshort msg hmsg)

theorem filterMap_sendToSender (c : Conductor) (cmd : SenderCommand) :
    (c.sendToSender cmd).2.filterMap ConductorEvent.processed? = [] := by
  unfold sendToSender
  split <;> rfl

theorem filterMap_sendToReceiver (c : Conductor) (cmd : ReceiverCommand) :
    (c.sendToReceiver cmd).2.filterMap ConductorEvent.processed? = [] := by
  unfold sendToReceiver
  split <;> rfl

theorem filterMap_respond (c : Conductor) (msgType : BitVec 32) (bytes : Option (List UInt8))
    {event : ConductorEvent} (hevent : event.processed? = none) :
    (c.respond msgType bytes event).2.filterMap ConductorEvent.processed? = [] := by
  unfold respond
  split
  · rfl
  · split
    · exact List.filterMap_cons_none hevent
    · rfl

theorem filterMap_handleCommand (c : Conductor) (msg : Message) (nowNs : Int) :
    (c.handleCommand msg nowNs).2.filterMap ConductorEvent.processed? = [] := by
  have hpub (cmd : AddPublication) :
      (c.handleAddPublication cmd nowNs).2.filterMap ConductorEvent.processed? = [] := by
    unfold handleAddPublication
    rw [List.filterMap_append, filterMap_sendToSender, filterMap_respond _ _ _ (by rfl),
      List.append_nil]
  have hsub (cmd : AddSubscription) :
      (c.handleAddSubscription cmd nowNs).2.filterMap ConductorEvent.processed? = [] := by
    unfold handleAddSubscription
    rw [List.filterMap_append, filterMap_sendToReceiver, filterMap_respond _ _ _ (by rfl),
      List.append_nil]
  unfold handleCommand handleRemovePublication handleRemoveSubscription
  repeat' split
  all_goals
    simp only [hpub, hsub, filterMap_sendToSender, filterMap_sendToReceiver, List.filterMap_nil]

/-- **The loop over the staged entries** calls `process_command` with each of them, once and in
order. -/
theorem filterMap_processAll (nowNs : Int) (c : Conductor) (msgs : List Message) :
    (c.processAll nowNs msgs).2.filterMap ConductorEvent.processed? = msgs := by
  induction msgs generalizing c with
  | nil => rfl
  | cons msg msgs ih =>
      unfold processAll processCommand
      dsimp only
      rw [List.filterMap_append, ih]
      change msg :: (c.handleCommand msg nowNs).2.filterMap _ ++ msgs = _
      rw [filterMap_handleCommand, List.singleton_append]

end Conductor

namespace StagingRun

def start (c : Conductor) : StagingRun := ⟨c, [], [], []⟩

/-- One write or cycle. A cycle whose read would leave the ring's memory goes no further. -/
def step (s : StagingRun) : StagingAction → StagingRun
  | .clientWrite msg =>
      match s.conductor.toDriver.write msg with
      | (toDriver, .ok ()) =>
          { s with conductor := { s.conductor with toDriver }, accepted := s.accepted ++ [msg] }
      | (toDriver, .error _) => { s with conductor := { s.conductor with toDriver } }
  | .doWork nowNs =>
      match s.conductor.collect with
      | none => s
      | some (c, msgs, staged) =>
          let processed := c.processAll nowNs staged
          { s with
            conductor := processed.1
            consumed := s.consumed ++ msgs
            passed := s.passed ++ processed.2.filterMap ConductorEvent.processed? }

/-- **The condition on a cycle**: the ring holds at most 32 messages, of at most 512 bytes each. -/
def Fits (s : StagingRun) : StagingAction → Prop
  | .clientWrite _ => True
  | .doWork _ => ∀ r ∈ s.conductor.toDriver.read,
      r.1.length ≤ Conductor.maxCmdsPerCycle ∧
        ∀ msg ∈ r.1, msg.payload.length ≤ Conductor.stagedLength

instance (s : StagingRun) : (a : StagingAction) → Decidable (s.Fits a)
  | .clientWrite _ => inferInstanceAs (Decidable True)
  | .doWork _ =>
      inferInstanceAs (Decidable (∀ r ∈ s.conductor.toDriver.read,
        r.1.length ≤ Conductor.maxCmdsPerCycle ∧
          ∀ msg ∈ r.1, msg.payload.length ≤ Conductor.stagedLength))

/-! ## Runs -/

/-- What is passed on never gets ahead of what is consumed. -/
theorem passed_length_le {s : StagingRun} (h : s.passed.length ≤ s.consumed.length)
    (a : StagingAction) : (step s a).passed.length ≤ (step s a).consumed.length := by
  cases a with
  | clientWrite msg =>
      simp only [step]
      split <;> exact h
  | doWork nowNs =>
      simp only [step, Conductor.collect]
      cases s.conductor.toDriver.read with
      | none => exact h
      | some r =>
          simp only [Option.map_some, List.length_append, Conductor.filterMap_processAll]
          exact Nat.add_le_add h (Conductor.length_foldl_stage_le r.1)

/-- **One step** keeps the two lists equal exactly if they were and the step meets the condition. -/
theorem step_passed_eq_iff {s : StagingRun} (h : s.passed.length ≤ s.consumed.length)
    (a : StagingAction) :
    (step s a).passed = (step s a).consumed ↔ s.passed = s.consumed ∧ s.Fits a := by
  cases a with
  | clientWrite msg =>
      simp only [step, Fits, and_true]
      split <;> exact Iff.rfl
  | doWork nowNs =>
      simp only [step, Conductor.collect, Fits]
      cases s.conductor.toDriver.read with
      | none => simp
      | some r =>
          simp only [Option.map_some, Option.mem_def, Option.some.injEq, forall_eq',
            Conductor.filterMap_processAll]
          rw [← Conductor.foldl_stage_eq_iff]
          constructor
          · intro heq
            -- neither part is longer than its counterpart, so the cut is at the same place
            have hlen := congrArg List.length heq
            have hstaged := Conductor.length_foldl_stage_le r.1
            rw [List.length_append, List.length_append] at hlen
            exact List.append_inj heq (by omega)
          · rintro ⟨hpassed, hstaged⟩
            rw [hpassed, hstaged]

theorem run_passed_eq_iff {s : StagingRun} (h : s.passed.length ≤ s.consumed.length)
    (as : List StagingAction) :
    (run step s as).passed = (run step s as).consumed ↔
      s.passed = s.consumed ∧ Meets Fits step s as := by
  induction as generalizing s with
  | nil => simp
  | cons a as ih =>
      rw [run_cons, ih (passed_length_le h a), step_passed_eq_iff h a, meets_cons, and_assoc]

/-- The calls on the ring that a write or a cycle makes. -/
def queueAction : StagingAction → QueueAction
  | .clientWrite msg => .write msg
  | .doWork _ => .read

/-- **The ring of the conductor is the command ring**: its calls are those of a queue. -/
structure Mirrors (s : StagingRun) (q : QueueRun) : Prop where
  rb : s.conductor.toDriver = q.rb
  accepted : s.accepted = q.accepted
  consumed : s.consumed = q.delivered

theorem Mirrors.step {s : StagingRun} {q : QueueRun} (h : Mirrors s q) (a : StagingAction) :
    Mirrors (step s a) (q.step (queueAction a)) := by
  cases a with
  | clientWrite msg =>
      simp only [StagingRun.step, queueAction, QueueRun.step, h.rb]
      obtain ⟨rb, result⟩ := q.rb.write msg
      cases result with
      | ok _ => exact ⟨rfl, congrArg (· ++ [msg]) h.accepted, h.consumed⟩
      | error e => exact ⟨rfl, h.accepted, h.consumed⟩
  | doWork nowNs =>
      simp only [StagingRun.step, Conductor.collect, queueAction, QueueRun.step, h.rb]
      cases q.rb.read with
      | none => exact ⟨h.rb, h.accepted, h.consumed⟩
      | some r =>
          exact ⟨Conductor.processAll_toDriver nowNs _ _, h.accepted,
            congrArg (· ++ r.1) h.consumed⟩

theorem Mirrors.run {s : StagingRun} {q : QueueRun} (h : Mirrors s q) (as : List StagingAction) :
    Mirrors (run StagingRun.step s as) (Runs.run QueueRun.step q (as.map queueAction)) := by
  induction as generalizing s q with
  | nil => exact h
  | cons a as ih => exact ih (h.step a)

/-- Client writes of types one or more. -/
def TypesGeOne (as : List StagingAction) : Prop := ∀ a ∈ as, (queueAction a).TypeGeOne

instance (as : List StagingAction) : Decidable (TypesGeOne as) :=
  inferInstanceAs (Decidable (∀ a ∈ as, (queueAction a).TypeGeOne))

/-- **What was written and not consumed is still in the ring**, for a ring that was new. -/
theorem consumed_append_rest {c : Conductor} {capacity : Nat}
    {hsize : requiredBufferSize capacity < 2 ^ 63}
    (hnew : RingBuffer.new capacity hsize = .ok c.toDriver) (hcapacity : capacity ≤ 2 ^ 30)
    {as : List StagingAction} (htypes : TypesGeOne as) :
    ∃ rest rb, (run step (start c) as).conductor.toDriver.read = some (rest, rb) ∧
      (run step (start c) as).consumed ++ rest = (run step (start c) as).accepted := by
  have hmirrors : Mirrors (run step (start c) as) _ :=
    Mirrors.run (q := QueueRun.start c.toDriver) ⟨rfl, rfl, rfl⟩ as
  have hactions : ∀ a ∈ as.map queueAction, a.TypeGeOne := fun a ha => by
    obtain ⟨b, hb, rfl⟩ := List.mem_map.mp ha
    exact htypes b hb
  obtain ⟨-, s, hrefines⟩ : QueueRun.Inv capacity _ :=
    run_invariant (fun _ _ => QueueRun.inv_step hcapacity) (QueueRun.inv_start hnew)
      (meets_of_forall hactions)
  obtain ⟨rest, rb, hread, hfifo, -⟩ := hrefines.read
  refine ⟨rest, rb, ?_, ?_⟩
  · rw [hmirrors.rb, hread]
  · rw [hmirrors.consumed, hmirrors.accepted, hfifo]

/-- **The conductor executes every command** exactly if no cycle finds more in the ring than the
staging array takes. For any conductor (so any contents of the ring) and any writes and cycles:
`process_command` was called with the consumed messages, once each, whole and in order, iff every cycle
of the run met the condition. If the ring was new (of at most `2 ^ 30` bytes, and types of at least
one), then the consumed messages and those still in the ring are all that clients have written. -/
theorem executes_every_command_iff (c : Conductor) (as : List StagingAction) :
    ((run step (start c) as).passed = (run step (start c) as).consumed ↔
      Meets Fits step (start c) as) ∧
    ∀ capacity hsize, RingBuffer.new capacity hsize = .ok c.toDriver → capacity ≤ 2 ^ 30 →
      TypesGeOne as →
      ∃ rest rb, (run step (start c) as).conductor.toDriver.read = some (rest, rb) ∧
        (run step (start c) as).consumed ++ rest = (run step (start c) as).accepted := by
  refine ⟨?_, fun capacity hsize hnew hcapacity htypes =>
    consumed_append_rest hnew hcapacity htypes⟩
  have hrun := run_passed_eq_iff (s := start c) (Nat.le_refl 0) as
  rw [hrun]
  exact and_iff_right rfl

/-- A ring of 2048 bytes for client commands. -/
def toDriver2048 : RingBuffer where
  capacity := 2048
  capacity_ge := by decide
  capacity_pow := by decide
  size_lt := by decide
  data := fun _ => 0
  head := 0
  tail := 0

def toClients128 : BroadcastTransmitter where
  toDataRegion := .zeroed128
  tail := 0
  latest := 0

def keepalive (correlationId : BitVec 64) : Message :=
  ⟨cmdClientKeepalive, encodeI64 correlationId ++ encodeI64 100⟩

/-- As many keepalives, written one after another, and a cycle. -/
def keepaliveCalls (n : Nat) : List StagingAction :=
  (List.range n).map (fun i => .clientWrite (keepalive (BitVec.ofNat 64 i))) ++ [.doWork 0]

theorem executes_every_command_iff_two :
    (run step (start (Conductor.new toDriver2048 toClients128)) (keepaliveCalls 2)).passed =
        (run step (start (Conductor.new toDriver2048 toClients128)) (keepaliveCalls 2)).consumed ∧
      (run step (start (Conductor.new toDriver2048 toClients128)) (keepaliveCalls 2)).passed =
        [keepalive 0, keepalive 1] := by
  obtain ⟨hiff, -⟩ :=
    executes_every_command_iff (Conductor.new toDriver2048 toClients128) (keepaliveCalls 2)
  exact ⟨hiff.mpr (by decide +kernel), by decide +kernel⟩

/-- Thirty-three keepalives and two cycles. -/
def lossRun : StagingRun :=
  run step (start (Conductor.new toDriver2048 toClients128)) (keepaliveCalls 33 ++ [.doWork 1])

/-- **The thirty-third command is lost**: the ring has handed it out, no handler sees it, and the
second cycle finds nothing. -/
theorem command_beyond_staging_lost :
    RingBuffer.new 2048 (by decide) = .ok toDriver2048 ∧ lossRun.consumed.length = 33 ∧
      lossRun.passed.length = 32 ∧ lossRun.passed ≠ lossRun.consumed := by
  -- one evaluation of the run for both
  obtain ⟨hconsumed, hpassed⟩ : lossRun.consumed.length = 33 ∧ lossRun.passed.length = 32 := by
    decide +kernel
  refine ⟨rfl, hconsumed, hpassed, fun h => ?_⟩
  rw [h, hconsumed] at hpassed
  cases hpassed

end StagingRun

end AeronRs
