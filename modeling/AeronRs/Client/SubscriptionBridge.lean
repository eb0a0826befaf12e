import Mathlib.Data.List.Perm.Basic

/-! # The subscription bridge

The receiver agent hands the subscriber's half of a new image to the client through a row of slots:
`deposit` fills the first empty slot, and a subscription takes what has its stream id from the slots
it finds filled. A subscription holds a bounded number of images and lets go of those that the
receiver has closed.

The calls are modelled here as they run alone. **`waiting`** are the images in filled slots;
`deposit_perm`, `drainLoop_perm` and `removeClosedImages_perm` say where images go. -/

namespace AeronRs

variable {ι : Type}

def subBridgeCapacity : Nat := 32

def maxSubImages : Nat := 16

/-- `PendingImage`, with handles of a type `ι`. -/
structure PendingImage (ι : Type) where
  image : ι
  sessionId : BitVec 32
  streamId : BitVec 32
  correlationId : BitVec 64
  deriving DecidableEq, Repr

/-- `SLOT_EMPTY` and `SLOT_FILLED`. -/
inductive BridgeState
  | empty
  | filled
  deriving DecidableEq, Repr

structure BridgeSlot (ι : Type) where
  state : BridgeState
  data : Option (PendingImage ι)
  deriving DecidableEq, Repr

namespace BridgeSlot

def new : BridgeSlot ι := ⟨.empty, none⟩

/-- The image that a subscription finds in a slot. -/
def waiting? (slot : BridgeSlot ι) : Option (PendingImage ι) :=
  match slot.state with
  | .empty => none
  | .filled => slot.data

def tryTake (slot : BridgeSlot ι) : BridgeSlot ι × Option (PendingImage ι) :=
  match slot.state with
  | .empty => (slot, none)
  | .filled => (⟨.empty, none⟩, slot.data)

def peekStreamId (slot : BridgeSlot ι) : Option (BitVec 32) :=
  match slot.state with
  | .empty => none
  | .filled => slot.data.map PendingImage.streamId

theorem peekStreamId_eq (slot : BridgeSlot ι) :
    slot.peekStreamId = slot.waiting?.map PendingImage.streamId := by
  unfold peekStreamId waiting?
  cases slot.state <;> rfl

theorem tryTake_eq (slot : BridgeSlot ι) : slot.tryTake.2 = slot.waiting? := by
  unfold tryTake waiting?
  cases slot.state <;> rfl

theorem waiting?_tryTake (slot : BridgeSlot ι) : slot.tryTake.1.waiting? = none := by
  unfold tryTake waiting?
  cases h : slot.state with
  | empty => simp only [h]
  | filled => rfl

end BridgeSlot

def newBridge : List (BridgeSlot ι) := List.replicate subBridgeCapacity .new

def waiting (slots : List (BridgeSlot ι)) : List (PendingImage ι) :=
  slots.filterMap BridgeSlot.waiting?

theorem waiting_cons (slot : BridgeSlot ι) (slots : List (BridgeSlot ι)) :
    waiting (slot :: slots) = slot.waiting?.toList ++ waiting slots := by
  rw [waiting, List.filterMap_cons]
  cases slot.waiting? <;> rfl

def deposit : List (BridgeSlot ι) → PendingImage ι → List (BridgeSlot ι) × Bool
  | [], _ => ([], false)
  | slot :: slots, item =>
      if slot.state = .empty then (⟨.filled, some item⟩ :: slots, true)
      else (slot :: (deposit slots item).1, (deposit slots item).2)

theorem deposit_eq_true_iff {slots : List (BridgeSlot ι)} {item : PendingImage ι} :
    (deposit slots item).2 = true ↔ ∃ slot ∈ slots, slot.state = .empty := by
  induction slots with
  | nil => simp [deposit]
  | cons slot slots ih =>
      rw [deposit]
      split_ifs with hempty
      · simp [hempty]
      · simp [hempty, ih]

/-- **A deposit** adds its image to those that wait. -/
theorem deposit_perm {slots : List (BridgeSlot ι)} {item : PendingImage ι}
    (h : (deposit slots item).2 = true) :
    (waiting (deposit slots item).1).Perm (item :: waiting slots) := by
  induction slots with
  | nil => cases h
  | cons slot slots ih =>
      rw [deposit] at h ⊢
      split_ifs at h ⊢ with hempty
      · have hnone : slot.waiting? = none := by rw [BridgeSlot.waiting?, hempty]
        rw [waiting_cons, waiting_cons, hnone]
        exact List.Perm.refl _
      · rw [waiting_cons, waiting_cons]
        exact ((ih h).append_left _).trans List.perm_middle

/-! ## Subscriptions -/

/-- `Subscription`: what its polls change. The images are the filled part of the array. -/
structure Subscription (ι : Type) where
  streamId : BitVec 32
  images : List ι
  deriving DecidableEq, Repr

/-- The loop of `drain_bridge` over the slots, with the images so far. -/
def drainLoop (streamId : BitVec 32) :
    List (BridgeSlot ι) → List ι → List (BridgeSlot ι) × List ι
  | [], images => ([], images)
  | slot :: slots, images =>
      if maxSubImages ≤ images.length then (slot :: slots, images)
      else if slot.peekStreamId = some streamId then
        match slot.tryTake with
        | (slot, some pending) =>
            let r := drainLoop streamId slots (images ++ [pending.image])
            (slot :: r.1, r.2)
        | (slot, none) =>
            let r := drainLoop streamId slots images
            (slot :: r.1, r.2)
      else
        let r := drainLoop streamId slots images
        (slot :: r.1, r.2)

/-- **Draining** moves images from the bridge to the subscription. -/
theorem drainLoop_perm (streamId : BitVec 32) (slots : List (BridgeSlot ι)) (images : List ι) :
    ((waiting (drainLoop streamId slots images).1).map PendingImage.image ++
      (drainLoop streamId slots images).2).Perm
        ((waiting slots).map PendingImage.image ++ images) := by
  induction slots generalizing images with
  | nil => exact List.Perm.refl _
  | cons slot slots ih =>
      rw [drainLoop]
      split_ifs with hfull hmatch
      · exact List.Perm.refl _
      · rw [BridgeSlot.peekStreamId_eq] at hmatch
        obtain ⟨pending, hpending, -⟩ := Option.map_eq_some_iff.mp hmatch
        have htake : slot.tryTake = (slot.tryTake.1, some pending) :=
          Prod.ext rfl (slot.tryTake_eq.trans hpending)
        rw [htake]
        dsimp only
        rw [waiting_cons, slot.waiting?_tryTake, waiting_cons, hpending]
        refine (ih (images ++ [pending.image])).trans ?_
        rw [← List.append_assoc]
        exact List.perm_append_singleton _ _
      · dsimp only
        rw [waiting_cons, waiting_cons, List.map_append, List.map_append, List.append_assoc,
          List.append_assoc]
        exact (ih images).append_left _

theorem drainLoop_of_none_waits {streamId : BitVec 32} {slots : List (BridgeSlot ι)}
    (h : ∀ slot ∈ slots, slot.peekStreamId ≠ some streamId) (images : List ι) :
    drainLoop streamId slots images = (slots, images) := by
  induction slots with
  | nil => rfl
  | cons slot slots ih =>
      obtain ⟨hslot, hslots⟩ := List.forall_mem_cons.mp h
      rw [drainLoop, if_neg hslot, ih hslots]
      split_ifs <;> rfl

/-- The last image takes the place of a removed one. -/
def swapRemove (images : List ι) (i : Nat) : List ι :=
  match images.getLast? with
  | none => images
  | some last => (images.set i last).dropLast

/-- The loop of `remove_closed_images`. Every round drops an image or moves on, so a round for each
image is enough. -/
def removeClosedLoop (closed : ι → Bool) : Nat → Nat → List ι → List ι
  | 0, _, images => images
  | fuel + 1, i, images =>
      match images[i]? with
      | none => images
      | some image =>
          if closed image then removeClosedLoop closed fuel i (swapRemove images i)
          else removeClosedLoop closed fuel (i + 1) images

def removeClosedImages (closed : ι → Bool) (images : List ι) : List ι :=
  removeClosedLoop closed images.length 0 images

theorem swapRemove_append (before : List ι) (image : ι) (after : List ι) :
    ∃ after', swapRemove (before ++ image :: after) before.length = before ++ after' ∧
      after'.Perm after := by
  rcases List.eq_nil_or_concat after with rfl | ⟨init, last, hafter⟩
  · refine ⟨[], ?_, .refl _⟩
    simp [swapRemove]
  · rw [List.concat_eq_append] at hafter
    obtain rfl := hafter
    refine ⟨last :: init, ?_, (List.perm_append_singleton last init).symm⟩
    have hlast : (before ++ image :: (init ++ [last])).getLast? = some last := by
      rw [← List.cons_append, ← List.append_assoc]
      exact List.getLast?_concat
    have hset : (before ++ image :: (init ++ [last])).set before.length last =
        before ++ last :: init ++ [last] := by
      simp
    rw [swapRemove, hlast]
    dsimp only
    rw [hset, List.dropLast_concat]

/-- **Removing the closed images** leaves the others. -/
theorem removeClosedLoop_perm (closed : ι → Bool) {fuel : Nat} (before after : List ι)
    (hfuel : after.length ≤ fuel) :
    (removeClosedLoop closed fuel before.length (before ++ after)).Perm
      (before ++ after.filter fun image => !closed image) := by
  induction fuel generalizing before after with
  | zero =>
      obtain rfl := List.length_eq_zero_iff.mp (Nat.le_zero.mp hfuel)
      exact .refl _
  | succ fuel ih =>
      cases after with
      | nil =>
          have hnone : (before ++ ([] : List ι))[before.length]? = none := by simp
          rw [removeClosedLoop, hnone]
          exact .refl _
      | cons image after =>
          have hsome : (before ++ image :: after)[before.length]? = some image := by simp
          rw [List.length_cons] at hfuel
          rw [removeClosedLoop, hsome]
          dsimp only
          cases hclosed : closed image with
          | true =>
              -- the loop looks at the same place again, where another image is now
              obtain ⟨after', hremove, hperm⟩ := swapRemove_append before image after
              rw [if_pos rfl, hremove, List.filter_cons_of_neg (by simp [hclosed])]
              refine (ih before after' (by rw [hperm.length_eq]; omega)).trans ?_
              exact (hperm.filter _).append_left before
          | false =>
              have hnext := ih (before ++ [image]) after (by omega)
              rw [List.length_append, List.length_singleton, List.append_assoc] at hnext
              rw [if_neg Bool.false_ne_true, List.filter_cons_of_pos (by simp [hclosed])]
              refine hnext.trans ?_
              rw [List.append_assoc]
              exact .refl _

theorem removeClosedImages_perm (closed : ι → Bool) (images : List ι) :
    (removeClosedImages closed images).Perm (images.filter fun image => !closed image) :=
  removeClosedLoop_perm closed [] images (Nat.le_refl _)

theorem removeClosedLoop_of_open {closed : ι → Bool} {images : List ι}
    (h : ∀ image ∈ images, closed image = false) (fuel i : Nat) :
    removeClosedLoop closed fuel i images = images := by
  induction fuel generalizing i with
  | zero => rfl
  | succ fuel ih =>
      rw [removeClosedLoop]
      cases himage : images[i]? with
      | none => rfl
      | some image =>
          dsimp only
          rw [h image (List.mem_of_getElem? himage), if_neg Bool.false_ne_true, ih]

theorem removeClosedImages_of_open {closed : ι → Bool} {images : List ι}
    (h : ∀ image ∈ images, closed image = false) : removeClosedImages closed images = images :=
  removeClosedLoop_of_open h _ _

end AeronRs
