import AeronRs.Frame
import AeronRs.Lib.MachineInt

/-! # The retransmit scheduler

The table of `retransmit_handler.rs`: 64 slots, each free, waiting for its delay to pass, or
lingering after it fired. **`onNak`** puts a NAK into the first free slot unless one for the same
place is waiting or lingering; **`processTimeouts`** fires the delays that have passed and frees the
lingers that have. -/

namespace AeronRs

def maxRetransmitActions : Nat := 64

inductive RetransmitState
  | inactive
  | delay (expiryNs : Int)
  | linger (expiryNs : Int)
  deriving DecidableEq, Repr

/-- What is asked for: the arguments of the callback that fires. -/
structure RetransmitRequest where
  sessionId : BitVec 32
  streamId : BitVec 32
  termId : BitVec 32
  termOffset : BitVec 32
  length : BitVec 32
  deriving DecidableEq, Repr

structure RetransmitAction extends RetransmitRequest where
  state : RetransmitState
  deriving DecidableEq, Repr

def NakHeader.request (nak : NakHeader) : RetransmitRequest :=
  ⟨nak.sessionId, nak.streamId, nak.activeTermId, nak.termOffset, nak.length⟩

namespace RetransmitAction

def inactive : RetransmitAction := ⟨⟨0, 0, 0, 0, 0⟩, .inactive⟩

/-- `matches`: the same place, whatever the length. -/
def Matches (a : RetransmitAction) (sessionId streamId termId termOffset : BitVec 32) : Prop :=
  a.sessionId = sessionId ∧ a.streamId = streamId ∧ a.termId = termId ∧ a.termOffset = termOffset

instance (a : RetransmitAction) (sessionId streamId termId termOffset : BitVec 32) :
    Decidable (a.Matches sessionId streamId termId termOffset) :=
  inferInstanceAs (Decidable (_ ∧ _))

end RetransmitAction

structure RetransmitHandler where
  actions : List RetransmitAction
  actions_length : actions.length = maxRetransmitActions
  delayNs : Int
  lingerNs : Int

/-- A time has passed: the wrapped difference is in the lower half of its range. -/
def Passed (expiryNs nowNs : Int) : Prop :=
  0 ≤ wrapI64 (nowNs - expiryNs) ∧ wrapI64 (nowNs - expiryNs) < (2 ^ 63 - 1) / 2

instance (expiryNs nowNs : Int) : Decidable (Passed expiryNs nowNs) :=
  inferInstanceAs (Decidable (_ ∧ _))

namespace RetransmitHandler

def new (delayNs lingerNs : Int) : RetransmitHandler where
  actions := List.replicate maxRetransmitActions .inactive
  actions_length := List.length_replicate
  delayNs
  lingerNs

/-! ## Scheduling -/

/-- The pass of `on_nak` over the slots, with the first free one found so far: nothing if the same
place is already waiting or lingering. -/
def findSlot (nak : NakHeader) : List RetransmitAction → Nat → Option Nat → Option (Option Nat)
  | [], _, freeIdx => some freeIdx
  | a :: as, i, freeIdx =>
      match a.state with
      | .inactive => findSlot nak as (i + 1) (if freeIdx.isNone then some i else freeIdx)
      | .delay _ | .linger _ =>
          if a.Matches nak.sessionId nak.streamId nak.activeTermId nak.termOffset then none
          else findSlot nak as (i + 1) freeIdx

def delayed (h : RetransmitHandler) (nak : NakHeader) (nowNs : Int) : RetransmitAction :=
  ⟨nak.request, .delay (wrapI64 (nowNs + h.delayNs))⟩

def onNak (h : RetransmitHandler) (nak : NakHeader) (nowNs : Int) : RetransmitHandler × Bool :=
  match findSlot nak h.actions 0 none with
  | some (some idx) =>
      ({ h with
          actions := h.actions.set idx (h.delayed nak nowNs)
          actions_length := by rw [List.length_set, h.actions_length] }, true)
  | some none | none => (h, false)

/-! ## Firing -/

/-- What one round of `process_timeouts` does to a slot. -/
def afterTimeout (lingerNs nowNs : Int) (a : RetransmitAction) : RetransmitAction :=
  match a.state with
  | .delay expiryNs =>
      if Passed expiryNs nowNs then { a with state := .linger (wrapI64 (nowNs + lingerNs)) } else a
  | .linger expiryNs => if Passed expiryNs nowNs then { a with state := .inactive } else a
  | .inactive => a

/-- The call that one round of `process_timeouts` makes. -/
def fired (nowNs : Int) (a : RetransmitAction) : Option RetransmitRequest :=
  match a.state with
  | .delay expiryNs => if Passed expiryNs nowNs then some a.toRetransmitRequest else none
  | .linger _ | .inactive => none

/-- `process_timeouts`: the table afterwards and the calls it makes, in the order of the slots. -/
def processTimeouts (h : RetransmitHandler) (nowNs : Int) :
    RetransmitHandler × List RetransmitRequest :=
  ({ h with
      actions := h.actions.map (afterTimeout h.lingerNs nowNs)
      actions_length := by rw [List.length_map, h.actions_length] },
    h.actions.filterMap (fired nowNs))

end RetransmitHandler

end AeronRs
