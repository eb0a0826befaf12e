import AeronRs.Client.Aeron
import AeronRs.Lib.Runs

/-! # The two threads of a transfer bridge

`PublicationBridge` and `RecvEndpointBridge` hand items from the client to an agent. Here every load
and store of **`deposit`** and **`try_take`** is a step of its own, and a run is any interleaving of
the client, which deposits one item after another, with the agent, which goes over all slots again and
again.

**`items_transferred_once`**: nothing is lost or handed over twice, and the two threads never touch the
data of one slot at the same time, which is what the `unsafe` blocks of the bridges rely on. -/

namespace AeronRs

open Runs

variable {α : Type}

/-- How far the client is in `deposit`: before the load of a slot's state, before the item is written,
or before the store of `SLOT_FILLED`. -/
inductive Depositing (α : Type)
  | idle
  | load (idx : Nat) (item : α)
  | write (idx : Nat) (item : α)
  | publish (idx : Nat) (item : α)

/-- How far the agent is in its loop of `try_take`: before the load of a slot's state, before the item
is taken out, or before the store of `SLOT_EMPTY`. -/
inductive Taking (α : Type)
  | load (idx : Nat)
  | take (idx : Nat)
  | release (idx : Nat) (item : Option α)

/-- A bridge with its threads, the items whose `deposit` returned `true` and those taken. -/
structure TransferThreads (α : Type) where
  slots : List (TransferSlot α)
  client : Depositing α
  agent : Taking α
  deposited : List α
  taken : List α

/-- A call to `deposit`, a step of the client in it, or a step of the agent. -/
inductive TransferAction (α : Type)
  | deposit (item : α)
  | client
  | agent

def TransferSlot.waiting (slot : TransferSlot α) : Option α :=
  if slot.state = .filled then slot.data else none

namespace TransferThreads

def start (capacity : Nat) : TransferThreads α :=
  ⟨List.replicate capacity .new, .idle, .load 0, [], []⟩

def clientStep (s : TransferThreads α) : TransferThreads α :=
  match s.client with
  | .idle => s
  | .load idx item =>
      match s.slots[idx]? with
      | none => { s with client := .idle }
      | some slot =>
          if slot.state = .empty then { s with client := .write idx item }
          else { s with client := .load (idx + 1) item }
  | .write idx item =>
      { s with
        slots := s.slots.modify idx fun slot => ⟨slot.state, some item⟩
        client := .publish idx item }
  | .publish idx item =>
      { s with
        slots := s.slots.modify idx fun slot => ⟨.filled, slot.data⟩
        client := .idle
        deposited := s.deposited ++ [item] }

/-- The next step of the agent. Behind the last slot it starts over, in a later cycle. -/
def agentStep (s : TransferThreads α) : TransferThreads α :=
  match s.agent with
  | .load idx =>
      match s.slots[idx]? with
      | none => { s with agent := .load 0 }
      | some slot =>
          if slot.state = .filled then { s with agent := .take idx }
          else { s with agent := .load (idx + 1) }
  | .take idx =>
      { s with
        slots := s.slots.modify idx fun slot => ⟨slot.state, none⟩
        agent := .release idx (s.slots[idx]?.bind TransferSlot.data) }
  | .release idx item =>
      { s with
        slots := s.slots.modify idx fun slot => ⟨.empty, slot.data⟩
        agent := .load (idx + 1)
        taken := s.taken ++ item.toList }

/-- One action. A client that is in a call starts no other. -/
def step (s : TransferThreads α) : TransferAction α → TransferThreads α
  | .deposit item =>
      match s.client with
      | .idle => { s with client := .load 0 item }
      | _ => s
  | .client => s.clientStep
  | .agent => s.agentStep

/-- The item that the agent has taken out of the slot that it is about to release. -/
def inHand (s : TransferThreads α) : List α :=
  match s.agent with
  | .release _ item => item.toList
  | _ => []

/-- **Each item once**: what was deposited is what was taken, what the agent has in hand and what
waits. -/
def Once (s : TransferThreads α) : Prop :=
  s.deposited.Perm (s.taken ++ (s.inHand ++ s.slots.filterMap TransferSlot.waiting))

/-- **No concurrent access**: the client writes to a slot that holds nothing, and the agent takes from
one that is filled and holds an item. -/
structure Apart (s : TransferThreads α) : Prop where
  writes : ∀ idx item, s.client = .write idx item → s.slots[idx]? = some ⟨.empty, none⟩
  takes : ∀ idx, s.agent = .take idx → ∃ item, s.slots[idx]? = some ⟨.filled, some item⟩

/-- **The run invariant**: the slots on which the threads are have the state in which they left them,
and every other slot is empty without an item or filled with one. -/
structure Inv (s : TransferThreads α) : Prop where
  apart : s.Apart
  publishes : ∀ idx item, s.client = .publish idx item → s.slots[idx]? = some ⟨.empty, some item⟩
  releases : ∀ idx item, s.agent = .release idx item →
    s.slots[idx]? = some ⟨.filled, none⟩ ∧ item ≠ none
  others : ∀ idx slot, s.slots[idx]? = some slot → (∀ item, s.client ≠ .publish idx item) →
    (∀ item, s.agent ≠ .release idx item) → slot = ⟨.empty, none⟩ ∨ ∃ item, slot = ⟨.filled, some item⟩
  once : s.Once

theorem count_waiting_modify [DecidableEq α] {slots : List (TransferSlot α)} {idx : Nat}
    {slot : TransferSlot α} (h : slots[idx]? = some slot) (f : TransferSlot α → TransferSlot α)
    (item : α) :
    ((slots.modify idx f).filterMap TransferSlot.waiting).count item + slot.waiting.toList.count item =
      (slots.filterMap TransferSlot.waiting).count item + (f slot).waiting.toList.count item := by
  induction slots generalizing idx with
  | nil => cases h
  | cons x slots ih =>
      cases idx with
      | zero =>
          obtain rfl : x = slot := Option.some.inj h
          rw [List.modify_zero_cons, List.filterMap_cons, List.filterMap_cons]
          cases (f x).waiting <;> cases x.waiting <;> grind
      | succ idx =>
          have hrest := @ih idx h
          rw [List.modify_succ_cons, List.filterMap_cons, List.filterMap_cons]
          cases x.waiting <;> grind

theorem Once.modify {s t : TransferThreads α} (h : s.Once) {idx : Nat} {slot : TransferSlot α}
    (hslot : s.slots[idx]? = some slot) {f : TransferSlot α → TransferSlot α}
    (hslots : t.slots = s.slots.modify idx f)
    (hmoved : (t.deposited ++ (s.taken ++ (s.inHand ++ slot.waiting.toList))).Perm
      (s.deposited ++ (t.taken ++ (t.inHand ++ (f slot).waiting.toList)))) : t.Once := by
  classical
  unfold Once at h ⊢
  rw [List.perm_iff_count] at h hmoved ⊢
  intro item
  have hbefore := h item
  have hmoved := hmoved item
  have hwaiting := count_waiting_modify hslot f item
  rw [hslots]
  simp only [List.count_append] at hbefore hmoved ⊢
  omega

/-- **A step of the client.** -/
theorem Inv.clientStep {s : TransferThreads α} (h : s.Inv) : s.clientStep.Inv := by
  obtain ⟨slots, client, agent, deposited, taken⟩ := s
  have ⟨⟨hwrites, htakes⟩, hpublishes, hreleases, hothers, honce⟩ := h
  unfold TransferThreads.clientStep
  cases client with
  | idle => exact h
  | load idx item =>
      dsimp only
      split
      · exact ⟨⟨by simp, htakes⟩, by simp, hreleases, by simpa using hothers, honce⟩
      · next slot hslot =>
        split_ifs with hempty
        · refine ⟨⟨fun idx' item' hwrite => ?_, htakes⟩, by simp, hreleases, by simpa using hothers, honce⟩
          obtain ⟨rfl, rfl⟩ := Depositing.write.inj hwrite
          -- the agent is not on an empty slot
          have hfree : ∀ item, agent ≠ .release idx item := fun item hrelease => by
            have hfilled := (hreleases idx item hrelease).1
            grind
          rcases hothers idx slot hslot (by simp) hfree with rfl | ⟨_, rfl⟩
          · exact hslot
          · cases hempty
        · exact ⟨⟨by simp, htakes⟩, by simp, hreleases, by simpa using hothers, honce⟩
  | write idx item =>
      have hslot := hwrites idx item rfl
      refine ⟨⟨by simp, by grind⟩, by grind, by grind, fun idx' slot' hslot' hclient hagent => ?_,
        honce.modify hslot rfl (.refl _)⟩
      have hidx : idx ≠ idx' := fun heq => hclient item (heq ▸ rfl)
      have hsame : slots[idx']? = some slot' :=
        (List.getElem?_modify_ne _ slots hidx).symm.trans hslot'
      exact hothers idx' slot' hsame (by simp) hagent
  | publish idx item =>
      have hslot := hpublishes idx item rfl
      refine ⟨⟨by simp, by grind⟩, by simp, by grind, by grind, honce.modify hslot rfl ?_⟩
      have hitem : ∀ rest, (deposited ++ item :: rest).Perm (deposited ++ (rest ++ [item])) :=
        fun rest => (List.perm_append_singleton item rest).symm.append_left deposited
      simpa [TransferSlot.waiting, inHand] using hitem (taken ++ inHand ⟨slots, .idle, agent, [], []⟩)

/-- **A step of the agent.** -/
theorem Inv.agentStep {s : TransferThreads α} (h : s.Inv) : s.agentStep.Inv := by
  obtain ⟨slots, client, agent, deposited, taken⟩ := s
  have ⟨⟨hwrites, htakes⟩, hpublishes, hreleases, hothers, honce⟩ := h
  unfold TransferThreads.agentStep
  cases agent with
  | load idx =>
      dsimp only
      split
      · exact ⟨⟨hwrites, by simp⟩, hpublishes, by simp, by simpa using hothers, honce⟩
      · next slot hslot =>
        split_ifs with hfilled
        · refine ⟨⟨hwrites, fun idx' htake => ?_⟩, hpublishes, by simp, by simpa using hothers, honce⟩
          obtain rfl := Taking.take.inj htake
          have hfree : ∀ item, client ≠ .publish idx item := fun item hpublish => by
            have hempty := hpublishes idx item hpublish
            grind
          rcases hothers idx slot hslot hfree (by simp) with rfl | ⟨item, rfl⟩
          · cases hfilled
          · exact ⟨item, hslot⟩
        · exact ⟨⟨hwrites, by simp⟩, hpublishes, by simp, by simpa using hothers, honce⟩
  | take idx =>
      obtain ⟨item, hslot⟩ := htakes idx rfl
      refine ⟨⟨by grind, by simp⟩, by grind, by grind, fun idx' slot' hslot' hclient hagent => ?_,
        honce.modify hslot rfl ?_⟩
      · have hidx : idx ≠ idx' := fun heq => hagent _ (congrArg (Taking.release · _) heq)
        have hsame : slots[idx']? = some slot' :=
          (List.getElem?_modify_ne _ slots hidx).symm.trans hslot'
        exact hothers idx' slot' hsame hclient (by simp)
      · simp [TransferSlot.waiting, inHand, hslot]
  | release idx item =>
      obtain ⟨hslot, hitem⟩ := hreleases idx item rfl
      refine ⟨⟨by grind, by simp⟩, by grind, by simp, by grind, honce.modify hslot rfl ?_⟩
      simp [TransferSlot.waiting, inHand]

/-- **Step.** -/
theorem Inv.step {s : TransferThreads α} (h : s.Inv) (a : TransferAction α) : (s.step a).Inv := by
  cases a with
  | client => exact h.clientStep
  | agent => exact h.agentStep
  | deposit item =>
      obtain ⟨slots, client, agent, deposited, taken⟩ := s
      cases client with
      | idle =>
          exact ⟨⟨fun _ _ h => (by cases h), h.apart.takes⟩, fun _ _ h => (by cases h), h.releases,
            fun idx slot hslot _ => h.others idx slot hslot fun _ h => (by cases h), h.once⟩
      | _ => exact h

/-- **Every item is transferred once**, and the two threads never access the data of a slot at the same
time, in every interleaving of the client with the agent and for every capacity. -/
theorem items_transferred_once (capacity : Nat) (as : List (TransferAction α)) :
    (run step (start capacity) as).Once ∧ (run step (start capacity) as).Apart := by
  have hstart : (start capacity : TransferThreads α).Inv :=
    ⟨⟨by simp [start], by simp [start]⟩, by simp [start], by simp [start],
      fun idx slot h _ _ => .inl (List.eq_of_mem_replicate (List.mem_of_getElem? h)), by
        simp [start, Once, inHand, TransferSlot.waiting, TransferSlot.new]⟩
  have hinv := @run_invariant _ _ (fun _ _ => True) step Inv (fun _ a hs _ => hs.step a) _ hstart as
    (meets_of_forall fun _ _ => trivial)
  exact ⟨hinv.once, hinv.apart⟩

end TransferThreads

end AeronRs
