import AeronRs.Lib.Runs
import AeronRs.Media.ChannelEndpoints

/-! # What becomes of queued control messages

A receive endpoint queues status messages, NAKs and RTTM replies, and `send_pending` submits them
queue by queue to a poller. A submission may fail, and then `send_pending` returns at once. A queue
is emptied behind its loop: when a submission in the middle of a queue fails, the messages before it
have been accepted and stay pending, and the next call submits them again.

`send_pending` is generic in the poller, and so is the model: any state `σ` with a **`SubmitSend`**.
`control_messages_once_iff` says for which answers of the poller each message is accepted once. -/

namespace AeronRs

open Runs

variable {P σ : Type}

/-- `TransportPoller::submit_send` of a poller with state `σ`. -/
abbrev SubmitSend (σ P : Type) := σ → Nat → P → Option SockAddr → σ × Except PollError Unit

/-- **The answers of a poller** to sends that are made one after another until one is refused: the
poller afterwards, and which send was refused. -/
def submitEach (submit : SubmitSend σ P) (transportIdx : Nat) :
    List (P × SockAddr) → σ → σ × Option Nat
  | [], poller => (poller, none)
  | (data, dest) :: rest, poller =>
      match submit poller transportIdx data (some dest) with
      | (poller, .error _) => (poller, some 0)
      | (poller, .ok ()) =>
          let r := submitEach submit transportIdx rest poller
          (r.1, r.2.map (· + 1))

section SubmitEach

variable {submit : SubmitSend σ P} {transportIdx : Nat} {poller poller' : σ}

theorem submitEach_cons_of_error {send : P × SockAddr} {e : PollError}
    (h : submit poller transportIdx send.1 (some send.2) = (poller', .error e))
    (rest : List (P × SockAddr)) :
    submitEach submit transportIdx (send :: rest) poller = (poller', some 0) := by
  rw [submitEach, h]

theorem submitEach_cons_of_ok {send : P × SockAddr}
    (h : submit poller transportIdx send.1 (some send.2) = (poller', .ok ()))
    (rest : List (P × SockAddr)) :
    submitEach submit transportIdx (send :: rest) poller =
      ((submitEach submit transportIdx rest poller').1,
        (submitEach submit transportIdx rest poller').2.map (· + 1)) := by
  rw [submitEach, h]

/-- The answers to more sends, when none of the first was refused. -/
theorem submitEach_append_of_none {first : List (P × SockAddr)}
    (h : (submitEach submit transportIdx first poller).2 = none) (more : List (P × SockAddr)) :
    (submitEach submit transportIdx (first ++ more) poller).2 =
      (submitEach submit transportIdx more (submitEach submit transportIdx first poller).1).2.map
        (· + first.length) := by
  induction first generalizing poller with
  | nil => simp [submitEach]
  | cons send first ih =>
      rw [List.cons_append]
      rcases hsend : submit poller transportIdx send.1 (some send.2) with ⟨poller', e | ⟨⟩⟩
      · rw [submitEach_cons_of_error hsend] at h
        cases h
      · rw [submitEach_cons_of_ok hsend] at h
        rw [submitEach_cons_of_ok hsend, submitEach_cons_of_ok hsend,
          ih (Option.map_eq_none_iff.mp h), Option.map_map, List.length_cons]
        rfl

theorem submitEach_append_of_some {first : List (P × SockAddr)} {i : Nat}
    (h : (submitEach submit transportIdx first poller).2 = some i) (more : List (P × SockAddr)) :
    (submitEach submit transportIdx (first ++ more) poller).2 = some i := by
  induction first generalizing poller i with
  | nil => cases h
  | cons send first ih =>
      rw [List.cons_append]
      rcases hsend : submit poller transportIdx send.1 (some send.2) with ⟨poller', e | ⟨⟩⟩
      · rw [submitEach_cons_of_error hsend] at h ⊢
        exact h
      · rw [submitEach_cons_of_ok hsend] at h ⊢
        obtain ⟨j, hj, rfl⟩ := Option.map_eq_some_iff.mp h
        exact congrArg (Option.map (· + 1)) (ih hj)

end SubmitEach

/-- The outcome of a loop of `send_pending`: the scratch buffers, the poller, the messages that it
accepted as the buffer held them, and the count or the error. -/
structure LoopOutcome (σ : Type) where
  scratch : ReceiveBuf → List UInt8
  poller : σ
  accepted : List (List UInt8 × SockAddr)
  result : Except PollError Nat

namespace ReceiveChannelEndpoint

/-- One of the three loops of `send_pending`, with any poller. -/
def sendEachVia (submit : SubmitSend σ P) (addr : ReceiveBuf → P) (buf : ReceiveBuf)
    (transportIdx : Nat) :
    List (List UInt8 × SockAddr) → (ReceiveBuf → List UInt8) → σ → LoopOutcome σ
  | [], scratch, poller => ⟨scratch, poller, [], .ok 0⟩
  | (bytes, dest) :: rest, scratch, poller =>
      let scratch := Function.update scratch buf bytes
      match submit poller transportIdx (addr buf) (some dest) with
      | (poller, .error e) => ⟨scratch, poller, [], .error e⟩
      | (poller, .ok ()) =>
          let r := sendEachVia submit addr buf transportIdx rest scratch poller
          { r with
            accepted := (scratch buf, dest) :: r.accepted
            result := r.result.map (· + 1) }

structure SendOutcome (σ : Type) where
  endpoint : ReceiveChannelEndpoint
  poller : σ
  accepted : ReceiveBuf → List (List UInt8 × SockAddr)
  result : Except PollError Nat

def byKind (sms naks rttms : List (List UInt8 × SockAddr)) :
    ReceiveBuf → List (List UInt8 × SockAddr)
  | .sm => sms
  | .nak => naks
  | .rttm => rttms

/-- `send_pending`, with any poller. -/
def sendPendingVia (submit : SubmitSend σ P) (addr : ReceiveBuf → P) (ep : ReceiveChannelEndpoint)
    (poller : σ) : SendOutcome σ :=
  match ep.transportIdx with
  | none => ⟨ep, poller, byKind [] [] [], .error .notRegistered⟩
  | some idx =>
      let sms := sendEachVia submit addr .sm idx ep.smMessages ep.scratch poller
      match sms.result with
      | .error e =>
          ⟨{ ep with scratch := sms.scratch }, sms.poller, byKind sms.accepted [] [], .error e⟩
      | .ok smCount =>
          let naks := sendEachVia submit addr .nak idx ep.nakMessages sms.scratch sms.poller
          match naks.result with
          | .error e =>
              ⟨{ ep with scratch := naks.scratch, pendingSms := [] }, naks.poller,
                byKind sms.accepted naks.accepted [], .error e⟩
          | .ok nakCount =>
              let rttms := sendEachVia submit addr .rttm idx ep.rttmMessages naks.scratch
                naks.poller
              match rttms.result with
              | .error e =>
                  ⟨{ ep with scratch := rttms.scratch, pendingSms := [], pendingNaks := [] },
                    rttms.poller, byKind sms.accepted naks.accepted rttms.accepted, .error e⟩
              | .ok rttmCount =>
                  ⟨{ ep with
                      scratch := rttms.scratch, pendingSms := [], pendingNaks := []
                      pendingRttms := [] },
                    rttms.poller, byKind sms.accepted naks.accepted rttms.accepted,
                    .ok (smCount + nakCount + rttmCount)⟩

/-- With the `io_uring` poller the loop is the one of `ChannelEndpoints`. -/
theorem sendEachVia_submitSend (addr : ReceiveBuf → P) (buf : ReceiveBuf) (transportIdx : Nat)
    (msgs : List (List UInt8 × SockAddr)) (scratch : ReceiveBuf → List UInt8)
    (poller : UringPoller P) :
    let r := sendEachVia UringPoller.submitSend addr buf transportIdx msgs scratch poller
    sendEach addr buf transportIdx msgs scratch poller = ((r.scratch, r.poller), r.result) := by
  induction msgs generalizing scratch poller with
  | nil => rfl
  | cons msg msgs ih =>
      rw [sendEach, sendEachVia]
      rcases poller.submitSend transportIdx (addr buf) (some msg.2) with ⟨poller', e | ⟨⟩⟩
      · rfl
      · simp only [ih]

theorem sendPendingVia_submitSend (addr : ReceiveBuf → P) (ep : ReceiveChannelEndpoint)
    (poller : UringPoller P) :
    let r := sendPendingVia UringPoller.submitSend addr ep poller
    ep.sendPending addr poller = (r.endpoint, r.poller, r.result) := by
  rw [sendPending, sendPendingVia]
  cases ep.transportIdx with
  | none => rfl
  | some idx =>
      simp only [sendEachVia_submitSend]
      -- the first loop that fails ends both
      cases hsms : (sendEachVia UringPoller.submitSend addr .sm idx ep.smMessages ep.scratch
          poller).result with
      | error e => rfl
      | ok smCount =>
          dsimp only
          set sms := sendEachVia UringPoller.submitSend addr .sm idx ep.smMessages ep.scratch poller
          cases hnaks : (sendEachVia UringPoller.submitSend addr .nak idx ep.nakMessages sms.scratch
              sms.poller).result with
          | error e => rfl
          | ok nakCount =>
              dsimp only
              set naks := sendEachVia UringPoller.submitSend addr .nak idx ep.nakMessages
                sms.scratch sms.poller
              cases hrttms : (sendEachVia UringPoller.submitSend addr .rttm idx ep.rttmMessages
                  naks.scratch naks.poller).result with
              | error e => rfl
              | ok rttmCount => rfl

/-! ## What a call accepts and what it leaves -/

def pending (ep : ReceiveChannelEndpoint) : ReceiveBuf → List (List UInt8 × SockAddr) :=
  byKind ep.smMessages ep.nakMessages ep.rttmMessages

def sendsOf (addr : ReceiveBuf → P) (buf : ReceiveBuf) (msgs : List (List UInt8 × SockAddr)) :
    List (P × SockAddr) :=
  msgs.map fun msg => (addr buf, msg.2)

/-- All sends that `send_pending` makes, in order, if none is refused. -/
def sends (addr : ReceiveBuf → P) (ep : ReceiveChannelEndpoint) : List (P × SockAddr) :=
  sendsOf addr .sm ep.smMessages ++ (sendsOf addr .nak ep.nakMessages ++
    sendsOf addr .rttm ep.rttmMessages)

/-- The place among all sends where a queue begins. -/
def QueueStart (ep : ReceiveChannelEndpoint) (i : Nat) : Prop :=
  i = 0 ∨ i = ep.smMessages.length ∨ i = ep.smMessages.length + ep.nakMessages.length

instance (ep : ReceiveChannelEndpoint) (i : Nat) : Decidable (ep.QueueStart i) :=
  inferInstanceAs (Decidable (_ ∨ _ ∨ _))

/-- **One loop** has accepted what comes before the first refusal. -/
theorem sendEachVia_spec (submit : SubmitSend σ P) (addr : ReceiveBuf → P) (buf : ReceiveBuf)
    (idx : Nat) (msgs : List (List UInt8 × SockAddr)) (scratch : ReceiveBuf → List UInt8)
    (poller : σ) :
    let r := sendEachVia submit addr buf idx msgs scratch poller
    let answers := submitEach submit idx (sendsOf addr buf msgs) poller
    r.poller = answers.1 ∧
      ((answers.2 = none ∧ r.accepted = msgs ∧ r.result = .ok msgs.length) ∨
        ∃ i e, answers.2 = some i ∧ i < msgs.length ∧ r.accepted = msgs.take i ∧
          r.result = .error e) := by
  induction msgs generalizing scratch poller with
  | nil => exact ⟨rfl, .inl ⟨rfl, rfl, rfl⟩⟩
  | cons msg msgs ih =>
      obtain ⟨bytes, dest⟩ := msg
      have hsends : sendsOf addr buf ((bytes, dest) :: msgs) =
          (addr buf, dest) :: sendsOf addr buf msgs := rfl
      rw [hsends, sendEachVia]
      -- a refusal ends the loop with what was accepted so far
      rcases hsend : submit poller idx (addr buf) (some dest) with ⟨poller', e | ⟨⟩⟩
      · rw [submitEach_cons_of_error hsend]
        exact ⟨rfl, .inr ⟨0, e, rfl, Nat.succ_pos _, rfl, rfl⟩⟩
      · rw [submitEach_cons_of_ok hsend]
        obtain ⟨hpoller, ⟨hnone, hacc, hok⟩ | ⟨i, e, hsome, hlt, hacc, herr⟩⟩ :=
          ih (Function.update scratch buf bytes) poller'
        · refine ⟨hpoller, .inl ⟨?_, ?_, ?_⟩⟩
          · exact congrArg (Option.map (· + 1)) hnone
          · simp only [hacc, Function.update_self]
          · simp only [hok]
            rfl
        · refine ⟨hpoller, .inr ⟨i + 1, e, ?_, Nat.succ_lt_succ hlt, ?_, ?_⟩⟩
          · exact congrArg (Option.map (· + 1)) hsome
          · simp only [hacc, Function.update_self, List.take_succ_cons]
          · simp only [herr]
            rfl

/-- The first messages in front of all of them are none. -/
theorem take_append_self_iff {α : Type} {l : List α} {i : Nat} (h : i < l.length) :
    l.take i ++ l = l ↔ i = 0 := by
  rw [List.append_left_eq_self, List.take_eq_nil_iff]
  refine or_iff_left fun hnil => ?_
  rw [hnil] at h
  exact absurd h (Nat.not_lt_zero i)

/-- A queue that keeps all its messages, the first `i` of which were accepted, has each once if `i` is
zero. The other queues do not matter. -/
theorem once_iff_of_refused {accepted pending queued : ReceiveBuf → List (List UInt8 × SockAddr)}
    {buf : ReceiveBuf} {i : Nat}
    (hothers : ∀ kind, kind ≠ buf → accepted kind ++ pending kind = queued kind)
    (hlt : i < (queued buf).length) (haccepted : accepted buf = (queued buf).take i)
    (hpending : pending buf = queued buf) :
    (∀ kind, accepted kind ++ pending kind = queued kind) ↔ i = 0 := by
  have hown : accepted buf ++ pending buf = queued buf ↔ i = 0 := by
    rw [haccepted, hpending, take_append_self_iff hlt]
  refine ⟨fun h => hown.mp (h buf), fun hi kind => ?_⟩
  by_cases hkind : kind = buf
  · rw [hkind]
    exact hown.mpr hi
  · exact hothers kind hkind

/-- **What a call accepts is no longer pending**, and all else is, exactly when the poller refuses
no message but the first of a queue. -/
theorem sendPendingVia_once_iff (submit : SubmitSend σ P) (addr : ReceiveBuf → P)
    {ep : ReceiveChannelEndpoint} {idx : Nat} (hreg : ep.transportIdx = some idx) (poller : σ) :
    let r := sendPendingVia submit addr ep poller
    (∀ kind, r.accepted kind ++ r.endpoint.pending kind = ep.pending kind) ↔
      ∀ i ∈ (submitEach submit idx (ep.sends addr) poller).2, ep.QueueStart i := by
  intro r
  have hcount {buf : ReceiveBuf} (msgs : List (List UInt8 × SockAddr)) :
      (sendsOf addr buf msgs).length = msgs.length := List.length_map _
  -- the loops in turn, up to the first that fails
  obtain ⟨hpoller₁, ⟨hnone₁, hacc₁, hok₁⟩ | ⟨i, e, hsome, hlt, hacc, herr⟩⟩ :=
    sendEachVia_spec submit addr .sm idx ep.smMessages ep.scratch poller
  swap
  · have hr : r.accepted = byKind (ep.smMessages.take i) [] [] ∧
        r.endpoint.pending = ep.pending := by
      simp only [r, sendPendingVia, hreg, herr, hacc, true_and]
      rfl
    have hothers : ∀ kind, kind ≠ .sm →
        byKind (ep.smMessages.take i) [] [] kind ++ ep.pending kind = ep.pending kind := by
      rintro (_ | _ | _) hkind
      · exact absurd rfl hkind
      · rfl
      · rfl
    rw [hr.1, hr.2, once_iff_of_refused hothers hlt rfl rfl, sends,
      submitEach_append_of_some hsome]
    simp only [Option.mem_some_iff, forall_eq', QueueStart]
    omega
  set sms := sendEachVia submit addr .sm idx ep.smMessages ep.scratch poller with hsms
  rw [sends, submitEach_append_of_none hnone₁, ← hpoller₁, hcount]
  obtain ⟨hpoller₂, ⟨hnone₂, hacc₂, hok₂⟩ | ⟨i, e, hsome, hlt, hacc, herr⟩⟩ :=
    sendEachVia_spec submit addr .nak idx ep.nakMessages sms.scratch sms.poller
  swap
  · have hr : r.accepted = byKind ep.smMessages (ep.nakMessages.take i) [] ∧
        r.endpoint.pending = byKind [] ep.nakMessages ep.rttmMessages := by
      simp only [r, sendPendingVia, hreg, ← hsms, hok₁, hacc₁, herr, hacc, true_and]
      rfl
    have hothers : ∀ kind, kind ≠ .nak → byKind ep.smMessages (ep.nakMessages.take i) [] kind ++
        byKind [] ep.nakMessages ep.rttmMessages kind = ep.pending kind := by
      rintro (_ | _ | _) hkind
      · exact List.append_nil _
      · exact absurd rfl hkind
      · rfl
    rw [hr.1, hr.2, once_iff_of_refused hothers hlt rfl rfl, submitEach_append_of_some hsome]
    simp only [Option.map_some, Option.mem_some_iff, forall_eq', QueueStart]
    omega
  set naks := sendEachVia submit addr .nak idx ep.nakMessages sms.scratch sms.poller with hnaks
  rw [submitEach_append_of_none hnone₂, ← hpoller₂, hcount]
  obtain ⟨-, ⟨hnone₃, hacc₃, hok₃⟩ | ⟨i, e, hsome, hlt, hacc, herr⟩⟩ :=
    sendEachVia_spec submit addr .rttm idx ep.rttmMessages naks.scratch naks.poller
  · have hr : r.accepted = byKind ep.smMessages ep.nakMessages ep.rttmMessages ∧
        r.endpoint.pending = byKind [] [] [] := by
      simp only [r, sendPendingVia, hreg, ← hsms, ← hnaks, hok₁, hacc₁, hok₂, hacc₂, hok₃,
        hacc₃, true_and]
      rfl
    rw [hr.1, hr.2, hnone₃]
    refine iff_of_true (fun kind => ?_) nofun
    cases kind <;> exact List.append_nil _
  · have hr : r.accepted = byKind ep.smMessages ep.nakMessages (ep.rttmMessages.take i) ∧
        r.endpoint.pending = byKind [] [] ep.rttmMessages := by
      simp only [r, sendPendingVia, hreg, ← hsms, ← hnaks, hok₁, hacc₁, hok₂, hacc₂, herr, hacc,
        true_and]
      rfl
    have hothers : ∀ kind, kind ≠ .rttm →
        byKind ep.smMessages ep.nakMessages (ep.rttmMessages.take i) kind ++
          byKind [] [] ep.rttmMessages kind = ep.pending kind := by
      rintro (_ | _ | _) hkind
      · exact List.append_nil _
      · exact List.append_nil _
      · exact absurd rfl hkind
    rw [hr.1, hr.2, once_iff_of_refused hothers hlt rfl rfl, hsome]
    simp only [Option.map_some, Option.mem_some_iff, forall_eq', QueueStart]
    omega

/-! ## What a queue call adds -/

/-- What `queuePending` stores of a message: nothing if the array is full. -/
def stored {α : Type} (capacity : Nat) (pending : List α) (msg : α) : List α :=
  if pending.length < capacity then [msg] else []

theorem map_queuePending {α β : Type} (f : α → β) (capacity : Nat) (pending : List α) (msg : α) :
    (queuePending capacity pending msg).map f =
      pending.map f ++ (stored capacity pending msg).map f := by
  unfold queuePending stored
  split_ifs
  · exact List.map_append
  · exact (List.append_nil _).symm

end ReceiveChannelEndpoint

/-- A call on a receive endpoint. Between two `send_pending` the poller is used by others and its
slots are freed, so that each finds it in a state of its own. -/
inductive ControlAction (σ : Type)
  | queueSm (sm : PendingSm)
  | queueNak (nak : PendingNak)
  | queueRttm (rttm : PendingRttm)
  | sendPending (poller : σ)

/-- An endpoint with the messages of each kind that were queued so far, and those that a poller has
accepted. -/
structure ControlRun where
  endpoint : ReceiveChannelEndpoint
  queued : ReceiveBuf → List (List UInt8 × SockAddr)
  accepted : ReceiveBuf → List (List UInt8 × SockAddr)

namespace ControlRun

open ReceiveChannelEndpoint

def start (ep : ReceiveChannelEndpoint) : ControlRun := ⟨ep, ep.pending, byKind [] [] []⟩

/-- A queue call that added messages of a kind. -/
def enqueue (s : ControlRun) (endpoint : ReceiveChannelEndpoint) (kind : ReceiveBuf)
    (msgs : List (List UInt8 × SockAddr)) : ControlRun :=
  { s with endpoint, queued := Function.update s.queued kind (s.queued kind ++ msgs) }

def step (submit : SubmitSend σ P) (addr : ReceiveBuf → P) (s : ControlRun) :
    ControlAction σ → ControlRun
  | .queueSm sm =>
      s.enqueue (s.endpoint.queueSm sm) .sm
        ((stored maxPendingSm s.endpoint.pendingSms sm).map
          fun sm => (sm.frame.encode, sm.destAddr))
  | .queueNak nak =>
      s.enqueue (s.endpoint.queueNak nak) .nak
        ((stored maxPendingNak s.endpoint.pendingNaks nak).map
          fun nak => (nak.frame.encode, nak.destAddr))
  | .queueRttm rttm =>
      s.enqueue (s.endpoint.queueRttm rttm) .rttm
        ((stored maxPendingRttm s.endpoint.pendingRttms rttm).map
          fun rttm => (rttm.frame.encode, rttm.destAddr))
  | .sendPending poller =>
      let r := s.endpoint.sendPendingVia submit addr poller
      { s with endpoint := r.endpoint, accepted := fun kind => s.accepted kind ++ r.accepted kind }

/-- **Each message once.** Of every kind, the messages accepted and then the messages pending are
those that were queued, in order: what was accepted is no longer pending, and what was not is. -/
def Once (s : ControlRun) : Prop :=
  ∀ kind, s.accepted kind ++ s.endpoint.pending kind = s.queued kind

/-- The condition on a step: of the sends that the queues ask for, the poller refuses at most one
that is the first of its queue. -/
def RefusesFirst (submit : SubmitSend σ P) (addr : ReceiveBuf → P) (s : ControlRun) :
    ControlAction σ → Prop
  | .sendPending poller =>
      ∀ idx ∈ s.endpoint.transportIdx,
        ∀ i ∈ (submitEach submit idx (s.endpoint.sends addr) poller).2, s.endpoint.QueueStart i
  | _ => True

theorem once_start (ep : ReceiveChannelEndpoint) : (start ep).Once := by
  intro kind
  cases kind <;> rfl

/-- A queue call keeps each message once. -/
theorem Once.enqueue {s : ControlRun} (h : s.Once) {endpoint : ReceiveChannelEndpoint}
    {kind : ReceiveBuf} {msgs : List (List UInt8 × SockAddr)}
    (hpending : endpoint.pending =
      Function.update s.endpoint.pending kind (s.endpoint.pending kind ++ msgs)) :
    (s.enqueue endpoint kind msgs).Once := by
  intro other
  show s.accepted other ++ endpoint.pending other = Function.update s.queued kind _ other
  rw [hpending]
  by_cases hkind : other = kind
  · rw [hkind, Function.update_self, Function.update_self, ← List.append_assoc, h kind]
  · rw [Function.update_of_ne hkind, Function.update_of_ne hkind, h other]

/-- **Step.** From a state with each message once, exactly the steps that meet the condition keep
it. -/
theorem once_step_iff (submit : SubmitSend σ P) (addr : ReceiveBuf → P) {s : ControlRun}
    (h : s.Once) (a : ControlAction σ) :
    (s.step submit addr a).Once ↔ s.RefusesFirst submit addr a := by
  cases a with
  | queueSm sm =>
      refine iff_of_true (h.enqueue ?_) trivial
      funext other
      cases other
      · exact map_queuePending _ _ _ _
      · rfl
      · rfl
  | queueNak nak =>
      refine iff_of_true (h.enqueue ?_) trivial
      funext other
      cases other
      · rfl
      · exact map_queuePending _ _ _ _
      · rfl
  | queueRttm rttm =>
      refine iff_of_true (h.enqueue ?_) trivial
      funext other
      cases other
      · rfl
      · rfl
      · exact map_queuePending _ _ _ _
  | sendPending poller =>
      set r := s.endpoint.sendPendingVia submit addr poller with hr
      have hcall : (s.step submit addr (.sendPending poller)).Once ↔
          ∀ kind, r.accepted kind ++ r.endpoint.pending kind = s.endpoint.pending kind := by
        refine forall_congr' fun kind => ?_
        show (s.accepted kind ++ r.accepted kind) ++ r.endpoint.pending kind = s.queued kind ↔ _
        rw [← h kind, List.append_assoc, List.append_right_inj]
      rw [hcall, RefusesFirst]
      cases hreg : s.endpoint.transportIdx with
      | none =>
          -- an unregistered endpoint sends nothing
          refine iff_of_true (fun kind => ?_) nofun
          simp only [hr, sendPendingVia, hreg]
          cases kind <;> rfl
      | some idx =>
          refine (sendPendingVia_once_iff submit addr hreg poller).trans ?_
          constructor
          · rintro hstart j ⟨⟩
            exact hstart
          · intro hstart
            exact hstart idx rfl

/-- **Control messages are accepted once exactly when the poller refuses only the first of a
queue.** For every endpoint, every poller and every sequence of queue calls and `send_pending`: in
all states of the run the messages accepted and then those pending are those queued, in order and
for each kind, if and only if no `send_pending` finds a poller that refuses a message behind an
accepted one of the same queue. -/
theorem control_messages_once_iff (submit : SubmitSend σ P) (addr : ReceiveBuf → P)
    (ep : ReceiveChannelEndpoint) (as : List (ControlAction σ)) :
    (∀ pre, pre <+: as → (run (step submit addr) (start ep) pre).Once) ↔
      Meets (RefusesFirst submit addr) (step submit addr) (start ep) as :=
  (@meets_iff_invariant _ _ (RefusesFirst submit addr) (step submit addr) Once
    (fun _ a h => once_step_iff submit addr h a) (start ep) (once_start ep) as).symm

def registered : ReceiveChannelEndpoint := ⟨some 0, 5, [], [], [], fun _ => []⟩

/-- A poller with one transport and so many free send slots. -/
def pollerWithSlots (slots : Nat) : UringPoller ReceiveBuf :=
  ⟨8, [], [], 0, ⟨0, 0, fun _ => 0, 0, 0, fun _ => []⟩, SlotPool.new slots,
    [⟨3, 3, 0, 0, true, true⟩]⟩

def smFor (sessionId : BitVec 32) : PendingSm := ⟨⟨2, []⟩, sessionId, 10, 0, 0, 4096, 5⟩

/-- **A status message is submitted twice.** Two are queued and the poller has one free slot: it
accepts the first and refuses the second. Both stay pending, and when the poller has room again both
are submitted. -/
theorem status_message_twice :
    let s := run (step UringPoller.submitSend id) (start registered)
      [.queueSm (smFor 1), .queueSm (smFor 2), .sendPending (pollerWithSlots 1),
        .sendPending (pollerWithSlots 2)]
    s.queued .sm = [((smFor 1).frame.encode, ⟨2, []⟩), ((smFor 2).frame.encode, ⟨2, []⟩)] ∧
      s.accepted .sm = [((smFor 1).frame.encode, ⟨2, []⟩), ((smFor 1).frame.encode, ⟨2, []⟩),
        ((smFor 2).frame.encode, ⟨2, []⟩)] ∧
      s.endpoint.pending .sm = [] ∧ ¬ s.Once := by
  refine ⟨by decide +kernel, by decide +kernel, by decide +kernel, fun honce => ?_⟩
  exact absurd (honce .sm) (by decide +kernel)

end ControlRun

end AeronRs
