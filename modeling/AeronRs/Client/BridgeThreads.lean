import AeronRs.Client.SubscriptionBridge
import AeronRs.Lib.Runs
import Mathlib.Logic.Function.Basic

/-! # The subscription bridge between threads

Every subscription of a client shares the bridge with the receiver agent, and each may be polled on
a thread of its own. The loads and stores of `deposit` and `drain_bridge` are single steps here, and
a run is any interleaving of them.

A call that no other thread interrupts does what its function says: `repeats_deposit` and
`repeats_drain`. -/

namespace AeronRs

open Runs

variable {n : Nat} {ι : Type}

inductive DepositPc (ι : Type) where
  | idle
  /-- Before the load of a slot's state. -/
  | load (idx : Nat) (item : PendingImage ι)
  /-- Before the image is written. -/
  | write (idx : Nat) (item : PendingImage ι)
  /-- Before the store of `SLOT_FILLED`. -/
  | publish (idx : Nat) (item : PendingImage ι)
  deriving DecidableEq

/-- Where a subscription is in `drain_bridge`. -/
inductive DrainPc (ι : Type) where
  | idle
  /-- At the head of the loop, before `peek_stream_id`. -/
  | peek (idx : Nat)
  /-- In `try_take`, before the load of the slot's state. -/
  | check (idx : Nat)
  /-- Before the image is taken out. -/
  | take (idx : Nat)
  /-- Before the store of `SLOT_EMPTY`. -/
  | store (idx : Nat) (item : Option (PendingImage ι))
  deriving DecidableEq

/-- A subscription and the place it has reached. -/
structure Drainer (ι : Type) where
  sub : Subscription ι
  pc : DrainPc ι
  deriving DecidableEq

structure BridgeThreads (n : Nat) (ι : Type) where
  slots : List (BridgeSlot ι)
  receiver : DepositPc ι
  drainers : Fin n → Drainer ι
  deposited : List (PendingImage ι)
  taken : List (Fin n × PendingImage ι)

/-- A call to `deposit`, a step of the receiver in it, a call to `drain_bridge`, a step of a
subscription in it, or the removal of closed images between two calls. -/
inductive BridgeAction (n : Nat) (ι : Type) where
  | deposit (item : PendingImage ι)
  | receiver
  | drain (k : Fin n)
  | drainer (k : Fin n)
  | removeClosed (k : Fin n) (closed : ι → Bool)

namespace BridgeThreads

def start (streamIds : Fin n → BitVec 32) : BridgeThreads n ι where
  slots := newBridge
  receiver := .idle
  drainers := fun k => ⟨⟨streamIds k, []⟩, .idle⟩
  deposited := []
  taken := []

def receiverStep (s : BridgeThreads n ι) : BridgeThreads n ι :=
  match s.receiver with
  | .idle => s
  | .load idx item =>
      match s.slots[idx]? with
      | none => { s with receiver := .idle }
      | some slot =>
          if slot.state = .empty then { s with receiver := .write idx item }
          else { s with receiver := .load (idx + 1) item }
  | .write idx item =>
      { s with
        slots := s.slots.modify idx fun slot => { slot with data := some item }
        receiver := .publish idx item }
  | .publish idx item =>
      { s with
        slots := s.slots.modify idx fun slot => { slot with state := .filled }
        receiver := .idle
        deposited := s.deposited ++ [item] }

/-- A subscription changes. -/
def put (s : BridgeThreads n ι) (k : Fin n) (d : Drainer ι) : BridgeThreads n ι :=
  { s with drainers := Function.update s.drainers k d }

/-- A subscription goes to another place. -/
def moveTo (s : BridgeThreads n ι) (k : Fin n) (pc : DrainPc ι) : BridgeThreads n ι :=
  s.put k ⟨(s.drainers k).sub, pc⟩

/-- The peek of a subscription at a slot finds its stream id. -/
def Matches (s : BridgeThreads n ι) (k : Fin n) (idx : Nat) : Prop :=
  s.slots[idx]?.bind BridgeSlot.peekStreamId = some (s.drainers k).sub.streamId

instance (s : BridgeThreads n ι) (k : Fin n) (idx : Nat) : Decidable (s.Matches k idx) :=
  inferInstanceAs (Decidable (_ = _))

/-- The next step of `drain_bridge`. The slot is released also when there was nothing to take. -/
def drainerStep (s : BridgeThreads n ι) (k : Fin n) : BridgeThreads n ι :=
  match (s.drainers k).pc with
  | .idle => s
  | .peek idx =>
      if subBridgeCapacity ≤ idx ∨ maxSubImages ≤ (s.drainers k).sub.images.length then
        s.moveTo k .idle
      else if s.Matches k idx then s.moveTo k (.check idx)
      else s.moveTo k (.peek (idx + 1))
  | .check idx =>
      if s.slots[idx]?.map BridgeSlot.state = some .filled then s.moveTo k (.take idx)
      else s.moveTo k (.peek (idx + 1))
  | .take idx =>
      let item := s.slots[idx]?.bind BridgeSlot.data
      { s.moveTo k (.store idx item) with
        slots := s.slots.modify idx fun slot => { slot with data := none }
        taken := s.taken ++ item.toList.map (k, ·) }
  | .store idx item =>
      let sub := (s.drainers k).sub
      let images := sub.images ++ item.toList.map PendingImage.image
      { s.put k ⟨{ sub with images }, .peek (idx + 1)⟩ with
        slots := s.slots.modify idx fun slot => { slot with state := .empty } }

/-- `remove_closed_images`, which `poll` calls behind `drain_bridge`. -/
def removeClosed (s : BridgeThreads n ι) (k : Fin n) (closed : ι → Bool) : BridgeThreads n ι :=
  let sub := (s.drainers k).sub
  s.put k ⟨{ sub with images := removeClosedImages closed sub.images }, (s.drainers k).pc⟩

/-- The state after an action. A thread that is in a call starts no other. -/
def step (s : BridgeThreads n ι) : BridgeAction n ι → BridgeThreads n ι
  | .deposit item =>
      match s.receiver with
      | .idle => { s with receiver := .load 0 item }
      | _ => s
  | .receiver => s.receiverStep
  | .drain k =>
      match (s.drainers k).pc with
      | .idle => s.moveTo k (.peek 0)
      | _ => s
  | .drainer k => s.drainerStep k
  | .removeClosed k closed =>
      match (s.drainers k).pc with
      | .idle => s.removeClosed k closed
      | _ => s

/-! ## Calls that are not interrupted -/

theorem modify_middle {α : Type} (before : List α) (x : α) (after : List α) (f : α → α) :
    (before ++ x :: after).modify before.length f = before ++ f x :: after := by
  induction before with
  | nil => rfl
  | cons y before ih => rw [List.cons_append, List.length_cons, List.modify_succ_cons, ih]; rfl

section ReceiverSteps

variable (slots : List (BridgeSlot ι)) (item : PendingImage ι) (drainers : Fin n → Drainer ι)
  (deposited : List (PendingImage ι)) (taken : List (Fin n × PendingImage ι)) (idx : Nat)

theorem step_load {slot : BridgeSlot ι} (hslot : slots[idx]? = some slot) :
    step ⟨slots, .load idx item, drainers, deposited, taken⟩ .receiver =
      ⟨slots, if slot.state = .empty then .write idx item else .load (idx + 1) item, drainers,
        deposited, taken⟩ := by
  rw [step, receiverStep]
  dsimp only
  rw [hslot]
  dsimp only
  split_ifs <;> rfl

/-- The two steps behind the load of an empty slot. -/
theorem repeats_write :
    Repeats step .receiver ⟨slots, .write idx item, drainers, deposited, taken⟩
      ⟨slots.modify idx fun _ => ⟨.filled, some item⟩, .idle, drainers, deposited ++ [item],
        taken⟩ := by
  refine .head rfl (.head ?_ (.refl _ _ _))
  -- together the two writes leave nothing of the slot
  show BridgeThreads.mk ((slots.modify idx _).modify idx _) _ _ _ _ = _
  rw [List.modify_modify_eq]
  rfl

theorem repeats_receiver (before after : List (BridgeSlot ι)) :
    Repeats step .receiver
      ⟨before ++ after, .load before.length item, drainers, deposited, taken⟩
      ⟨before ++ (deposit after item).1, .idle, drainers,
        deposited ++ (if (deposit after item).2 then [item] else []), taken⟩ := by
  induction after generalizing before with
  | nil =>
      refine .head ?_ (.refl _ _ _)
      simp [step, receiverStep, deposit]
  | cons slot after ih =>
      have hget : (before ++ slot :: after)[before.length]? = some slot := by simp
      have hload := step_load _ item drainers deposited taken _ hget
      rw [deposit]
      by_cases hempty : slot.state = .empty
      · have hwrite := repeats_write (before ++ slot :: after) item drainers deposited taken
          before.length
        rw [modify_middle] at hwrite
        rw [if_pos hempty] at hload ⊢
        exact .head hload hwrite
      · have hrest := ih (before ++ [slot])
        rw [List.length_append, List.length_singleton, List.append_assoc, List.append_assoc]
          at hrest
        rw [if_neg hempty] at hload ⊢
        exact .head hload hrest

end ReceiverSteps

/-- **A deposit that is not interrupted** is `deposit`. -/
theorem repeats_deposit {s : BridgeThreads n ι} (hidle : s.receiver = .idle)
    (item : PendingImage ι) :
    Repeats step .receiver (s.step (.deposit item))
      { s with
        slots := (deposit s.slots item).1
        deposited := s.deposited ++ if (deposit s.slots item).2 then [item] else [] } := by
  obtain ⟨slots, receiver, drainers, deposited, taken⟩ := s
  obtain rfl : receiver = .idle := hidle
  exact repeats_receiver item drainers deposited taken [] slots

@[simp] theorem drainers_put (s : BridgeThreads n ι) (k : Fin n) (d : Drainer ι) :
    (s.put k d).drainers k = d :=
  Function.update_self ..

@[simp] theorem put_put (s : BridgeThreads n ι) (k : Fin n) (d d' : Drainer ι) :
    (s.put k d).put k d' = s.put k d' := by
  simp [put]

@[simp] theorem moveTo_put (s : BridgeThreads n ι) (k : Fin n) (sub : Subscription ι)
    (pc pc' : DrainPc ι) : (s.put k ⟨sub, pc⟩).moveTo k pc' = s.put k ⟨sub, pc'⟩ := by
  simp [moveTo]

section DrainerSteps

variable (s : BridgeThreads n ι) (k : Fin n) (sub : Subscription ι) {idx : Nat}

theorem step_peek_end (h : subBridgeCapacity ≤ idx ∨ maxSubImages ≤ sub.images.length) :
    (s.put k ⟨sub, .peek idx⟩).step (.drainer k) = s.put k ⟨sub, .idle⟩ := by
  rw [step, drainerStep, drainers_put]
  dsimp only
  rw [if_pos h, moveTo_put]

theorem step_peek (h : ¬ (subBridgeCapacity ≤ idx ∨ maxSubImages ≤ sub.images.length))
    {slot : BridgeSlot ι} (hslot : s.slots[idx]? = some slot) :
    (s.put k ⟨sub, .peek idx⟩).step (.drainer k) =
      s.put k ⟨sub, if slot.peekStreamId = some sub.streamId then .check idx
        else .peek (idx + 1)⟩ := by
  have hmatch : (s.put k ⟨sub, .peek idx⟩).Matches k idx ↔
      slot.peekStreamId = some sub.streamId := by
    rw [Matches, drainers_put, show (s.put k ⟨sub, .peek idx⟩).slots[idx]? = some slot from hslot]
    rfl
  rw [step, drainerStep, drainers_put]
  dsimp only
  rw [if_neg h]
  by_cases hpeek : slot.peekStreamId = some sub.streamId
  · rw [if_pos (hmatch.mpr hpeek), if_pos hpeek, moveTo_put]
  · rw [if_neg (mt hmatch.mp hpeek), if_neg hpeek, moveTo_put]

theorem repeats_tryTake {data : Option (PendingImage ι)} {t : BridgeThreads n ι}
    (hslot : s.slots[idx]? = some ⟨.filled, data⟩)
    (h : Repeats step (.drainer k)
      (({ s with
          slots := s.slots.modify idx fun _ => ⟨.empty, none⟩
          taken := s.taken ++ data.toList.map (k, ·) } : BridgeThreads n ι).put k
        ⟨{ sub with images := sub.images ++ data.toList.map PendingImage.image },
          .peek (idx + 1)⟩) t) :
    Repeats step (.drainer k) (s.put k ⟨sub, .check idx⟩) t := by
  have hcheck : (s.put k ⟨sub, .check idx⟩).step (.drainer k) = s.put k ⟨sub, .take idx⟩ := by
    rw [step, drainerStep, drainers_put]
    dsimp only
    rw [if_pos, moveTo_put]
    rw [show (s.put k ⟨sub, .check idx⟩).slots[idx]? = _ from hslot]
    rfl
  have htake : (s.put k ⟨sub, .take idx⟩).step (.drainer k) =
      ({ s with
          slots := s.slots.modify idx fun slot => { slot with data := none }
          taken := s.taken ++ data.toList.map (k, ·) } : BridgeThreads n ι).put k
        ⟨sub, .store idx data⟩ := by
    rw [step, drainerStep, drainers_put]
    dsimp only
    rw [show (s.put k ⟨sub, .take idx⟩).slots[idx]? = _ from hslot, moveTo_put]
    rfl
  refine .head hcheck (.head htake (.head ?_ h))
  rw [step, drainerStep, drainers_put]
  dsimp only
  rw [put_put]
  -- together the two writes to the slot leave nothing of it
  show ({ s with slots := (s.slots.modify idx _).modify idx _, taken := _ } :
    BridgeThreads n ι).put k _ = _
  rw [List.modify_modify_eq]
  rfl

end DrainerSteps

theorem repeats_drainer (k : Fin n) (streamId : BitVec 32) (before after : List (BridgeSlot ι))
    (hlength : before.length + after.length = subBridgeCapacity) (images : List ι)
    (s : BridgeThreads n ι) (hslots : s.slots = before ++ after) :
    ∃ taken, Repeats step (.drainer k) (s.put k ⟨⟨streamId, images⟩, .peek before.length⟩)
      (({ s with slots := before ++ (drainLoop streamId after images).1, taken } :
        BridgeThreads n ι).put k ⟨⟨streamId, (drainLoop streamId after images).2⟩, .idle⟩) := by
  induction after generalizing before images s with
  | nil =>
      refine ⟨s.taken, .head (step_peek_end s k _ (.inl (Nat.le_of_eq hlength.symm))) ?_⟩
      rw [drainLoop, ← hslots]
      exact .refl _ _ _
  | cons slot after ih =>
      have hlength' : ∀ slot : BridgeSlot ι,
          (before ++ [slot]).length + after.length = subBridgeCapacity := fun slot => by
        rw [List.length_cons] at hlength
        rw [List.length_append, List.length_singleton]
        omega
      rw [drainLoop]
      by_cases hfull : maxSubImages ≤ images.length
      · refine ⟨s.taken, .head (step_peek_end s k _ (.inr hfull)) ?_⟩
        rw [if_pos hfull, ← hslots]
        exact .refl _ _ _
      · have hget : s.slots[before.length]? = some slot := by
          rw [hslots]
          simp
        have hgoes : ¬ (subBridgeCapacity ≤ before.length ∨ maxSubImages ≤ images.length) := by
          rw [List.length_cons] at hlength
          rw [not_or]
          exact ⟨by omega, hfull⟩
        have hpeek := step_peek s k ⟨streamId, images⟩ hgoes hget
        rw [if_neg hfull]
        by_cases hmatch : slot.peekStreamId = some streamId
        · -- the slot is filled, and no other step comes between the peek and the take
          obtain ⟨state, data⟩ := slot
          cases state with
          | empty => cases hmatch
          | filled =>
              obtain ⟨item, rfl, hstream⟩ := Option.map_eq_some_iff.mp hmatch
              rw [if_pos hmatch] at hpeek ⊢
              obtain ⟨taken, hrest⟩ := ih (before ++ [⟨.empty, none⟩]) (hlength' _)
                (images ++ [item.image])
                { s with
                  slots := s.slots.modify before.length fun _ => ⟨.empty, none⟩
                  taken := s.taken ++ [(k, item)] } (by
                    rw [hslots, modify_middle, List.append_assoc]
                    rfl)
              rw [List.length_append, List.length_singleton, List.append_assoc] at hrest
              exact ⟨taken, .head hpeek (repeats_tryTake s k _ hget hrest)⟩
        · rw [if_neg hmatch] at hpeek ⊢
          obtain ⟨taken, hrest⟩ := ih (before ++ [slot]) (hlength' slot) images s (by
            rw [hslots, List.append_assoc]
            rfl)
          rw [List.length_append, List.length_singleton, List.append_assoc] at hrest
          exact ⟨taken, .head hpeek hrest⟩

/-- **A drain that is not interrupted** is `drain_bridge`. -/
theorem repeats_drain {s : BridgeThreads n ι} {k : Fin n} (hidle : (s.drainers k).pc = .idle)
    (hlength : s.slots.length = subBridgeCapacity) :
    ∃ taken, Repeats step (.drainer k) (s.step (.drain k))
      (({ s with
          slots := (drainLoop (s.drainers k).sub.streamId s.slots (s.drainers k).sub.images).1
          taken } : BridgeThreads n ι).put k
        ⟨⟨(s.drainers k).sub.streamId,
          (drainLoop (s.drainers k).sub.streamId s.slots (s.drainers k).sub.images).2⟩,
            .idle⟩) := by
  have hbegin : s.step (.drain k) = s.put k ⟨(s.drainers k).sub, .peek 0⟩ := by
    rw [step, hidle]
    rfl
  rw [hbegin]
  exact repeats_drainer k _ [] s.slots (by rw [List.length_nil, Nat.zero_add, hlength]) _ s rfl

end BridgeThreads

end AeronRs
