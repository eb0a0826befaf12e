import AeronRs.Client.BridgeThreads
import Mathlib.Data.Fintype.Basic

/-! # Who gets an image

What holds of a bridge in any interleaving of the receiver with its subscriptions:

* **`Exact`** — what was deposited is what was taken and what still waits, and every image was taken
  by a subscription of its stream.
* **`KeepsUntaken`** — the receiver writes no image over another.
* **`Alone`** — no two subscriptions work on one slot: when the peek of one matches, no other is
  between its own peek of that slot and the store that releases it.

The slots are made for a single consumer. `images_taken_once` says that runs with `Alone` have the
other two. Subscriptions of different streams are always alone; two subscriptions of one stream on two
threads can lose an image (`image_lost_between_subscriptions`). -/

namespace AeronRs

open Runs

variable {n : Nat} {ι : Type} {d : Drainer ι} {slots : List (BridgeSlot ι)} {idx : Nat}

namespace BridgeThreads

/-- **Every deposited image was taken or waits**, none was taken twice, and each was taken by a
subscription of its stream. -/
def Exact (s : BridgeThreads n ι) : Prop :=
  s.deposited.Perm (s.taken.map Prod.snd ++ waiting s.slots) ∧
    ∀ p ∈ s.taken, p.2.streamId = (s.drainers p.1).sub.streamId

instance [DecidableEq ι] (s : BridgeThreads n ι) : Decidable s.Exact :=
  inferInstanceAs (Decidable (_ ∧ _))

/-- The receiver writes its image to a slot that holds none. -/
def KeepsUntaken (s : BridgeThreads n ι) : BridgeAction n ι → Prop
  | .receiver =>
      match s.receiver with
      | .write idx _ => s.slots[idx]?.bind BridgeSlot.data = none
      | _ => True
  | _ => True

end BridgeThreads

/-- The slot that a subscription has found and not released yet. -/
def DrainPc.slot? : DrainPc ι → Option Nat
  | .idle | .peek _ => none
  | .check idx | .take idx | .store idx _ => some idx

namespace BridgeThreads

/-- **A subscription is alone on its slot**: when its peek matches, no other has found the slot and
not released it yet. -/
def Alone (s : BridgeThreads n ι) : BridgeAction n ι → Prop
  | .drainer k =>
      match (s.drainers k).pc with
      | .peek idx => (s.drainers k).sub.images.length < maxSubImages → s.Matches k idx →
          ∀ j, (s.drainers j).pc.slot? ≠ some idx
      | _ => True
  | _ => True

instance (s : BridgeThreads n ι) : (a : BridgeAction n ι) → Decidable (s.KeepsUntaken a)
  | .receiver =>
      match h : s.receiver with
      | .write idx _ =>
          decidable_of_iff ((s.slots[idx]?.bind BridgeSlot.data).isNone = true) (by
            rw [KeepsUntaken, h, Option.isNone_iff_eq_none])
      | .idle | .load _ _ | .publish _ _ => isTrue (by rw [KeepsUntaken, h]; trivial)
  | .deposit _ | .drain _ | .drainer _ | .removeClosed _ _ => isTrue trivial

instance (s : BridgeThreads n ι) : (a : BridgeAction n ι) → Decidable (s.Alone a)
  | .drainer k =>
      match h : (s.drainers k).pc with
      | .peek idx =>
          decidable_of_iff ((s.drainers k).sub.images.length < maxSubImages → s.Matches k idx →
            ∀ j, (s.drainers j).pc.slot? ≠ some idx) (by rw [Alone, h])
      | .idle | .check _ | .take _ | .store _ _ => isTrue (by rw [Alone, h]; trivial)
  | .deposit _ | .receiver | .drain _ | .removeClosed _ _ => isTrue trivial

end BridgeThreads

/-! ## What a thread relies on -/

/-- The slot that the receiver has found empty. -/
def DepositPc.slot? : DepositPc ι → Option Nat
  | .idle | .load _ _ => none
  | .write idx _ | .publish idx _ => some idx

/-- What the receiver has found, or made, of its slot. -/
def DepositPc.Sees (slots : List (BridgeSlot ι)) : DepositPc ι → Prop
  | .idle | .load _ _ => True
  | .write idx _ => slots[idx]? = some ⟨.empty, none⟩
  | .publish idx item => slots[idx]? = some ⟨.empty, some item⟩

/-- What a subscription has found, or made, of its slot. -/
def Drainer.Sees (slots : List (BridgeSlot ι)) (d : Drainer ι) : Prop :=
  match d.pc with
  | .idle | .peek _ => True
  | .check idx | .take idx => ∃ item, slots[idx]? = some ⟨.filled, some item⟩ ∧
      item.streamId = d.sub.streamId
  | .store idx _ => slots[idx]? = some ⟨.filled, none⟩

theorem DepositPc.Sees.empty {pc : DepositPc ι} (h : pc.Sees slots) (hslot : pc.slot? = some idx) :
    ∃ data, slots[idx]? = some ⟨.empty, data⟩ := by
  cases pc with
  | idle => cases hslot
  | load idx' item => cases hslot
  | write idx' item =>
      cases hslot
      exact ⟨_, h⟩
  | publish idx' item =>
      cases hslot
      exact ⟨_, h⟩

theorem DepositPc.Sees.congr {slots' : List (BridgeSlot ι)} {pc : DepositPc ι} (h : pc.Sees slots)
    (hsame : ∀ idx, pc.slot? = some idx → slots'[idx]? = slots[idx]?) :
    pc.Sees slots' := by
  cases pc with
  | idle => trivial
  | load idx item => trivial
  | write idx item => exact (hsame idx rfl).trans h
  | publish idx item => exact (hsame idx rfl).trans h

theorem Drainer.Sees.filled (h : d.Sees slots) (hslot : d.pc.slot? = some idx) :
    ∃ data, slots[idx]? = some ⟨.filled, data⟩ := by
  obtain ⟨sub, pc⟩ := d
  cases pc with
  | idle => cases hslot
  | peek idx' => cases hslot
  | check idx' | take idx' =>
      cases hslot
      obtain ⟨item, hitem, -⟩ := h
      exact ⟨_, hitem⟩
  | store idx' item =>
      cases hslot
      exact ⟨_, h⟩

theorem Drainer.Sees.congr {slots' : List (BridgeSlot ι)} (h : d.Sees slots)
    (hsame : ∀ idx, d.pc.slot? = some idx → slots'[idx]? = slots[idx]?) : d.Sees slots' := by
  obtain ⟨sub, pc⟩ := d
  cases pc with
  | idle => trivial
  | peek idx => trivial
  | check idx | take idx =>
      obtain ⟨item, hitem, hstream⟩ := h
      exact ⟨item, (hsame idx rfl).trans hitem, hstream⟩
  | store idx item => exact (hsame idx rfl).trans h

theorem getElem?_modify_of_eq_some {slot : BridgeSlot ι} (hslot : slots[idx]? = some slot)
    (f : BridgeSlot ι → BridgeSlot ι) :
    (slots.modify idx f)[idx]? = some (f slot) := by
  rw [List.getElem?_modify_eq, hslot]
  rfl

/-- **One slot of the bridge**: the others wait as before. -/
theorem waiting_modify {slot : BridgeSlot ι} (hslot : slots[idx]? = some slot)
    (f : BridgeSlot ι → BridgeSlot ι) :
    ∃ others, (waiting slots).Perm (slot.waiting?.toList ++ others) ∧
      (waiting (slots.modify idx f)).Perm ((f slot).waiting?.toList ++ others) := by
  induction slots generalizing idx with
  | nil => cases hslot
  | cons head slots ih =>
      cases idx with
      | zero =>
          obtain rfl : head = slot := Option.some.inj hslot
          exact ⟨waiting slots, .of_eq (waiting_cons _ _), .of_eq (waiting_cons _ _)⟩
      | succ idx =>
          obtain ⟨others, hbefore, hafter⟩ := ih hslot
          refine ⟨head.waiting?.toList ++ others, ?_, ?_⟩
          · rw [waiting_cons]
            exact (hbefore.append_left _).trans (List.perm_append_comm_assoc _ _ _)
          · rw [List.modify_succ_cons, waiting_cons]
            exact (hafter.append_left _).trans (List.perm_append_comm_assoc _ _ _)

theorem streamId_update {drainers : Fin n → Drainer ι} {k : Fin n}
    (hstream : d.sub.streamId = (drainers k).sub.streamId) (j : Fin n) :
    (Function.update drainers k d j).sub.streamId = (drainers j).sub.streamId := by
  by_cases hj : j = k
  · rw [hj, Function.update_self, hstream]
  · rw [Function.update_of_ne hj]

namespace BridgeThreads

/-- **The invariant**: each thread relies on what its slot still holds, an image in an empty slot is
the one that the receiver is about to publish, and no two subscriptions have found the same slot. -/
structure Inv (s : BridgeThreads n ι) : Prop where
  balanced : s.Exact
  receiver : s.receiver.Sees s.slots
  unpublished : ∀ idx item, s.slots[idx]? = some ⟨.empty, some item⟩ →
    s.receiver = .publish idx item
  drainers : ∀ k, (s.drainers k).Sees s.slots
  alone : ∀ j k idx, (s.drainers j).pc.slot? = some idx → (s.drainers k).pc.slot? = some idx → j = k

theorem inv_start (streamIds : Fin n → BitVec 32) : (start streamIds : BridgeThreads n ι).Inv where
  balanced := ⟨by simp [start, waiting, newBridge, BridgeSlot.new, BridgeSlot.waiting?],
    fun _ h => nomatch h⟩
  receiver := trivial
  unpublished := fun idx item h => by
    have hmem := List.mem_of_getElem? h
    cases (List.mem_replicate.mp hmem).2
  drainers := fun _ => trivial
  alone := fun _ _ _ h => nomatch h

namespace Inv

variable {s : BridgeThreads n ι} {item : PendingImage ι} {k : Fin n} {idx : Nat}

theorem receiver_ne (h : s.Inv) (hk : (s.drainers k).pc.slot? = some idx) :
    s.receiver.slot? ≠ some idx := fun hr => by
  obtain ⟨data, hempty⟩ := h.receiver.empty hr
  obtain ⟨data', hfilled⟩ := (h.drainers k).filled hk
  rw [hempty] at hfilled
  cases hfilled

/-- A receiver that is not about to publish finds no image in an empty slot, and may go to any place
that it sees right. -/
theorem setReceiver (h : s.Inv) {pc : DepositPc ι}
    (hold : ∀ idx item, s.receiver ≠ .publish idx item) (hsees : pc.Sees s.slots) :
    ({ s with receiver := pc } : BridgeThreads n ι).Inv where
  balanced := h.balanced
  receiver := hsees
  unpublished := fun idx item hslot => absurd (h.unpublished idx item hslot) (hold idx item)
  drainers := h.drainers
  alone := h.alone

theorem modifyByReceiver (h : s.Inv) {idx : Nat} (hown : s.receiver.slot? = some idx)
    {f : BridgeSlot ι → BridgeSlot ι} {pc : DepositPc ι} {deposited : List (PendingImage ι)}
    (hsees : pc.Sees (s.slots.modify idx f))
    (hunpublished : ∀ item, (s.slots.modify idx f)[idx]? = some ⟨.empty, some item⟩ →
      pc = .publish idx item)
    (hbalance : deposited.Perm (s.taken.map Prod.snd ++ waiting (s.slots.modify idx f))) :
    ({ s with slots := s.slots.modify idx f, receiver := pc, deposited } :
      BridgeThreads n ι).Inv where
  balanced := ⟨hbalance, h.balanced.2⟩
  receiver := hsees
  unpublished := fun i item hslot => by
    by_cases hi : idx = i
    · obtain rfl := hi
      exact hunpublished item hslot
    · dsimp only at hslot
      rw [List.getElem?_modify_ne _ _ hi] at hslot
      have hpc := h.unpublished i item hslot
      rw [hpc] at hown
      exact absurd (Option.some.inj hown).symm hi
  drainers := fun k => by
    refine (h.drainers k).congr fun i hi => List.getElem?_modify_ne _ _ fun hidx => ?_
    rw [← hidx] at hi
    exact h.receiver_ne hi hown
  alone := h.alone

/-- The load of a slot's state. An empty slot holds no image, as none waits to be published. -/
theorem load (h : s.Inv) (hpc : s.receiver = .load idx item) :
    s.receiverStep.Inv := by
  have hold : ∀ idx item, s.receiver ≠ .publish idx item := fun _ _ hp => by
    rw [hpc] at hp
    cases hp
  rw [BridgeThreads.receiverStep, hpc]
  dsimp only
  cases hslot : s.slots[idx]? with
  | none => exact h.setReceiver hold trivial
  | some slot =>
      dsimp only
      split_ifs with hempty
      · refine h.setReceiver hold ?_
        obtain ⟨state, data⟩ := slot
        obtain rfl : state = .empty := hempty
        cases data with
        | none => exact hslot
        | some old => exact absurd (h.unpublished idx old hslot) (hold idx old)
      · exact h.setReceiver hold trivial

/-- The image is written to the slot, which still counts as empty. -/
theorem write (h : s.Inv) (hpc : s.receiver = .write idx item) :
    s.receiverStep.Inv := by
  have hsees := h.receiver
  rw [hpc] at hsees
  have hslot := getElem?_modify_of_eq_some hsees fun slot => { slot with data := some item }
  obtain ⟨others, hbefore, hafter⟩ :=
    waiting_modify hsees fun slot => { slot with data := some item }
  rw [BridgeThreads.receiverStep, hpc]
  refine h.modifyByReceiver (by rw [hpc]; rfl) hslot (fun other hother => ?_) ?_
  · rw [hslot] at hother
    cases hother
    rfl
  · exact h.balanced.1.trans ((hbefore.trans hafter.symm).append_left _)

/-- The image joins those that wait. -/
theorem publish (h : s.Inv) (hpc : s.receiver = .publish idx item) : s.receiverStep.Inv := by
  have hsees := h.receiver
  rw [hpc] at hsees
  have hslot := getElem?_modify_of_eq_some hsees fun slot => { slot with state := .filled }
  obtain ⟨others, hbefore, hafter⟩ :=
    waiting_modify hsees fun slot => { slot with state := .filled }
  rw [BridgeThreads.receiverStep, hpc]
  refine h.modifyByReceiver (by rw [hpc]; rfl) trivial (fun other hother => ?_) ?_
  · rw [hslot] at hother
    cases hother
  · have hwaiting : (waiting s.slots ++ [item]).Perm
        (waiting (s.slots.modify idx fun slot => { slot with state := .filled })) :=
      (List.perm_append_comm.trans (hbefore.cons item)).trans hafter.symm
    refine (h.balanced.1.append_right [item]).trans ?_
    rw [List.append_assoc]
    exact hwaiting.append_left _

/-- **A step of the receiver.** -/
theorem receiverStep (h : s.Inv) : s.receiverStep.Inv := by
  cases hpc : s.receiver with
  | idle =>
      rw [BridgeThreads.receiverStep, hpc]
      exact h
  | load idx item => exact h.load hpc
  | write idx item => exact h.write hpc
  | publish idx item => exact h.publish hpc

/-- A subscription changes its own slot, or none. -/
theorem modifyByDrainer (h : s.Inv) (hown : (s.drainers k).pc.slot? = some idx)
    {f : BridgeSlot ι → BridgeSlot ι} {d : Drainer ι} {taken : List (Fin n × PendingImage ι)}
    (hstream : d.sub.streamId = (s.drainers k).sub.streamId)
    (hkeeps : ∀ i, d.pc.slot? = some i → i = idx) (hsees : d.Sees (s.slots.modify idx f))
    (hunpublished : ∀ item, (s.slots.modify idx f)[idx]? ≠ some ⟨.empty, some item⟩)
    (hbalance : s.deposited.Perm (taken.map Prod.snd ++ waiting (s.slots.modify idx f)))
    (htaken : ∀ p ∈ taken, p.2.streamId = (s.drainers p.1).sub.streamId) :
    ({ s with
      slots := s.slots.modify idx f, drainers := Function.update s.drainers k d, taken } :
        BridgeThreads n ι).Inv := by
  have hother : ∀ j, j ≠ k → Function.update s.drainers k d j = s.drainers j := fun j hj =>
    Function.update_of_ne hj _ _
  have hself : Function.update s.drainers k d k = d := Function.update_self ..
  have hslots : ∀ j i, (Function.update s.drainers k d j).pc.slot? = some i →
      (s.drainers j).pc.slot? = some i := fun j i hi => by
    by_cases hj : j = k
    · rw [hj, hself] at hi
      rw [hj, hkeeps i hi, hown]
    · rwa [hother j hj] at hi
  refine ⟨⟨hbalance, fun p hp => ?_⟩, ?_, ?_, ?_, ?_⟩
  · rw [streamId_update hstream]
    exact htaken p hp
  · -- the receiver has another slot
    refine h.receiver.congr fun i hi => List.getElem?_modify_ne _ _ fun hidx => ?_
    rw [← hidx] at hi
    exact h.receiver_ne hown hi
  · intro i item hslot
    by_cases hi : idx = i
    · rw [← hi] at hslot
      exact absurd hslot (hunpublished item)
    · dsimp only at hslot
      rw [List.getElem?_modify_ne _ _ hi] at hslot
      exact h.unpublished i item hslot
  · intro j
    dsimp only
    by_cases hj : j = k
    · rw [hj, hself]
      exact hsees
    · -- so has every other subscription
      rw [hother j hj]
      refine (h.drainers j).congr fun i hi => List.getElem?_modify_ne _ _ fun hidx => ?_
      rw [← hidx] at hi
      exact hj (h.alone j k idx hi hown)
  · intro i j m hi hj
    exact h.alone i j m (hslots i m hi) (hslots j m hj)

/-- A subscription may go to any place that it sees right and where no other is. -/
theorem setDrainer (h : s.Inv) {d : Drainer ι}
    (hstream : d.sub.streamId = (s.drainers k).sub.streamId) (hsees : d.Sees s.slots)
    (halone : ∀ i, d.pc.slot? = some i → ∀ j, j ≠ k → (s.drainers j).pc.slot? ≠ some i) :
    (s.put k d).Inv := by
  have hother : ∀ j, j ≠ k → (s.put k d).drainers j = s.drainers j := fun j hj =>
    Function.update_of_ne hj _ _
  have hself : (s.put k d).drainers k = d := drainers_put s k d
  refine ⟨⟨h.balanced.1, fun p hp => ?_⟩, h.receiver, h.unpublished, fun j => ?_,
    fun i j m hi hj => ?_⟩
  · rw [put, streamId_update hstream]
    exact h.balanced.2 p hp
  · by_cases hj : j = k
    · rw [hj, hself]
      exact hsees
    · rw [hother j hj]
      exact h.drainers j
  · -- two at one slot: both are `k`, one is, or they were there before
    by_cases hik : i = k
    · by_cases hjk : j = k
      · rw [hik, hjk]
      · rw [hik, hself] at hi
        rw [hother j hjk] at hj
        exact absurd hj (halone m hi j hjk)
    · rw [hother i hik] at hi
      by_cases hjk : j = k
      · rw [hjk, hself] at hj
        exact absurd hi (halone m hj i hik)
      · rw [hother j hjk] at hj
        exact h.alone i j m hi hj

theorem leave (h : s.Inv) (k : Fin n) {pc : DrainPc ι} (hpc : pc = .idle ∨ ∃ idx, pc = .peek idx) :
    (s.moveTo k pc).Inv := by
  obtain rfl | ⟨idx, rfl⟩ := hpc
  · exact h.setDrainer rfl trivial fun _ hi => nomatch hi
  · exact h.setDrainer rfl trivial fun _ hi => nomatch hi

theorem exists_of_matches (hmatch : s.Matches k idx) :
    ∃ item, s.slots[idx]? = some ⟨.filled, some item⟩ ∧
      item.streamId = (s.drainers k).sub.streamId := by
  obtain ⟨⟨state, data⟩, hslot, hpeek⟩ := Option.bind_eq_some_iff.mp hmatch
  cases state with
  | empty => cases hpeek
  | filled =>
      obtain ⟨item, rfl, hstream⟩ := Option.map_eq_some_iff.mp hpeek
      exact ⟨item, hslot, hstream⟩

/-- The head of the loop. A subscription that has found its stream is the only one at the slot. -/
theorem peek (h : s.Inv) (hpc : (s.drainers k).pc = .peek idx) (halone : s.Alone (.drainer k)) :
    (s.drainerStep k).Inv := by
  rw [Alone, hpc] at halone
  rw [BridgeThreads.drainerStep, hpc]
  dsimp only at halone ⊢
  split_ifs with hend hmatch
  · exact h.leave k (.inl rfl)
  · have hroom : (s.drainers k).sub.images.length < maxSubImages := by
      rw [not_or, not_le, not_le] at hend
      exact hend.2
    refine h.setDrainer rfl (exists_of_matches hmatch) fun i hi j _ => ?_
    cases hi
    exact halone hroom hmatch j
  · exact h.leave k (.inr ⟨_, rfl⟩)

theorem check (h : s.Inv) (hpc : (s.drainers k).pc = .check idx) :
    (s.drainerStep k).Inv := by
  have hsees := h.drainers k
  rw [Drainer.Sees, hpc] at hsees
  rw [BridgeThreads.drainerStep, hpc]
  dsimp only
  split_ifs
  · refine h.setDrainer rfl hsees fun i hi j hj hslot => hj (h.alone j k i hslot ?_)
    rw [hpc]
    exact hi
  · exact h.leave k (.inr ⟨_, rfl⟩)

/-- The image leaves those that wait and joins those that were taken. -/
theorem take (h : s.Inv) {k : Fin n} {idx : Nat} (hpc : (s.drainers k).pc = .take idx) :
    (s.drainerStep k).Inv := by
  have hsees := h.drainers k
  rw [Drainer.Sees, hpc] at hsees
  obtain ⟨item, hslot, hstream⟩ := hsees
  have hslot' := getElem?_modify_of_eq_some hslot fun slot => { slot with data := none }
  obtain ⟨others, hbefore, hafter⟩ := waiting_modify hslot fun slot => { slot with data := none }
  rw [BridgeThreads.drainerStep, hpc]
  dsimp only
  rw [hslot]
  refine h.modifyByDrainer (by rw [hpc]; rfl) rfl (fun i hi => (Option.some.inj hi).symm) hslot'
    (fun other hother => ?_) ?_ fun p hp => ?_
  · rw [hslot'] at hother
    cases hother
  · have hwaiting : (waiting s.slots).Perm
        ([item] ++ waiting (s.slots.modify idx fun slot => { slot with data := none })) :=
      hbefore.trans (hafter.symm.cons item)
    refine h.balanced.1.trans ((hwaiting.append_left _).trans (.of_eq ?_))
    rw [List.map_append, List.append_assoc]
    rfl
  · rcases List.mem_append.mp hp with hold | hnew
    · exact h.balanced.2 p hold
    · obtain rfl := List.mem_singleton.mp hnew
      exact hstream

/-- The slot is released. It holds no image, as the receiver fills empty slots only. -/
theorem store (h : s.Inv) {item : Option (PendingImage ι)}
    (hpc : (s.drainers k).pc = .store idx item) : (s.drainerStep k).Inv := by
  have hsees := h.drainers k
  rw [Drainer.Sees, hpc] at hsees
  have hslot' := getElem?_modify_of_eq_some hsees fun slot => { slot with state := .empty }
  obtain ⟨others, hbefore, hafter⟩ :=
    waiting_modify hsees fun slot => { slot with state := .empty }
  rw [BridgeThreads.drainerStep, hpc]
  refine h.modifyByDrainer (by rw [hpc]; rfl) rfl (fun _ hi => ?_) trivial
    (fun other hother => ?_) ?_ h.balanced.2
  · cases hi
  · rw [hslot'] at hother
    cases hother
  · exact h.balanced.1.trans ((hbefore.trans hafter.symm).append_left _)

/-- **A step of a subscription** that is alone on its slot. -/
theorem drainerStep (h : s.Inv) (halone : s.Alone (.drainer k)) :
    (s.drainerStep k).Inv := by
  cases hpc : (s.drainers k).pc with
  | idle =>
      rw [BridgeThreads.drainerStep, hpc]
      exact h
  | peek idx => exact h.peek hpc halone
  | check idx => exact h.check hpc
  | take idx => exact h.take hpc
  | store idx item => exact h.store hpc

/-- **A step of any thread.** -/
theorem step (h : s.Inv) {a : BridgeAction n ι} (halone : s.Alone a) : (s.step a).Inv := by
  cases a with
  | deposit item =>
      rw [BridgeThreads.step]
      split
      · next hpc =>
          refine h.setReceiver (fun _ _ hp => ?_) trivial
          rw [hpc] at hp
          cases hp
      · exact h
  | receiver => exact h.receiverStep
  | drain k =>
      rw [BridgeThreads.step]
      split
      · exact h.leave k (.inr ⟨0, rfl⟩)
      · exact h
  | drainer k => exact h.drainerStep halone
  | removeClosed k closed =>
      rw [BridgeThreads.step]
      split
      · next hpc =>
          refine h.setDrainer rfl ?_ fun i hi => ?_
          · rw [Drainer.Sees, hpc]
            trivial
          · rw [hpc] at hi
            cases hi
      · exact h

/-- The receiver writes to a slot without an image. -/
theorem keepsUntaken (h : s.Inv) (a : BridgeAction n ι) : s.KeepsUntaken a := by
  cases a with
  | receiver =>
      have hsees := h.receiver
      rw [KeepsUntaken]
      cases hpc : s.receiver with
      | write idx item =>
          rw [hpc] at hsees
          dsimp only
          rw [show s.slots[idx]? = _ from hsees]
          rfl
      | _ => trivial
  | _ => trivial

end Inv

/-- Every state that a run reaches from a state with the invariant is exact, and no image is written
over another, if the subscriptions are alone on their slots. -/
theorem exact_of_alone {s : BridgeThreads n ι} (h : s.Inv) {actions : List (BridgeAction n ι)}
    (halone : Meets Alone step s actions) :
    (∀ pre, pre <+: actions → (run step s pre).Exact) ∧ Meets KeepsUntaken step s actions := by
  constructor
  · intro pre hpre
    have hinv := @run_invariant _ _ Alone step Inv (fun _ _ hs ha => hs.step ha) s h pre
      (halone.of_isPrefix hpre)
    exact hinv.balanced
  · exact @meets_of_invariant _ _ Alone KeepsUntaken step Inv
      (fun _ a hs ha => ⟨hs.step ha, hs.keepsUntaken a⟩) s h actions halone

/-- **Each image goes to one subscription of its stream**, in every interleaving of the receiver
with any number of subscriptions in which no two subscriptions work on one slot. -/
theorem images_taken_once (streamIds : Fin n → BitVec 32) (actions : List (BridgeAction n ι))
    (halone : Meets Alone step (start streamIds) actions) :
    (∀ pre, pre <+: actions → (run step (start streamIds : BridgeThreads n ι) pre).Exact) ∧
      Meets KeepsUntaken step (start streamIds) actions :=
  exact_of_alone (inv_start streamIds) halone

def imageOf (image : Nat) (streamId : BitVec 32) : PendingImage Nat := ⟨image, 0, streamId, 0⟩

/-- A deposit that finds the first slot empty. -/
def depositFirst (image : Nat) (streamId : BitVec 32) : List (BridgeAction 2 Nat) :=
  [.deposit (imageOf image streamId), .receiver, .receiver, .receiver]

/-- Two subscriptions of one stream that take images from two slots at the same time: the first slot
is released by one subscription and filled again before the other finds it. -/
def apartOnSlots : List (BridgeAction 2 Nat) :=
  List.flatten
    [depositFirst 1 7, [.deposit (imageOf 2 7), .receiver, .receiver, .receiver, .receiver],
      [.drain 0, .drainer 0, .drainer 0, .drainer 0, .drainer 0, .drainer 0], depositFirst 3 7,
      [.drain 1, .drainer 1, .drainer 0, .drainer 1, .drainer 0, .drainer 1]]

theorem images_taken_once_apart :
    ((run step (start fun _ => 7) apartOnSlots).taken =
      [(0, imageOf 1 7), (0, imageOf 2 7), (1, imageOf 3 7)]) ∧
    (∀ pre, pre <+: apartOnSlots →
      (run step (start fun _ => 7 : BridgeThreads 2 Nat) pre).Exact) ∧
    Meets KeepsUntaken step (start fun _ => 7) apartOnSlots := by
  have halone : Meets Alone step (start fun _ => 7) apartOnSlots := by decide +kernel
  exact ⟨by decide +kernel, images_taken_once (fun _ => 7) apartOnSlots halone⟩

/-- Both subscriptions get past the check of the first slot. -/
def bothCheck : List (BridgeAction 2 Nat) :=
  [.drain 0, .drainer 0, .drainer 0, .drain 1, .drainer 1, .drainer 1]

/-- A run in which the second subscription takes nothing and releases the slot when it has been
filled again. -/
def releasedTwice : List (BridgeAction 2 Nat) :=
  List.flatten
    [depositFirst 1 7, bothCheck, [.drainer 0, .drainer 1, .drainer 0], depositFirst 2 7,
      [.drainer 1]]

/-- A run in which the second subscription takes what the slot was filled with again. -/
def takenLate : List (BridgeAction 2 Nat) :=
  List.flatten
    [depositFirst 1 7, bothCheck, [.drainer 0, .drainer 0], depositFirst 2 8, [.drainer 1]]

/-- **Two subscriptions of one stream lose an image.** Both pass the check of a slot, and one of
them takes the image and releases the slot, which the receiver fills again. If the other releases it
now, the new image is in an empty slot, where no subscription finds it and the next deposit
overwrites it. If the other takes it, it may be of another stream. -/
theorem image_lost_between_subscriptions :
    ¬ (run step (start fun _ => 7) releasedTwice).Exact ∧
    ¬ Meets KeepsUntaken step (start fun _ => 7) (releasedTwice ++ depositFirst 3 7) ∧
    ¬ (run step (start fun _ => 7) takenLate).Exact := by
  decide +kernel

/-! ## Subscriptions that are always alone -/

/-- **What an action does to the subscriptions**: it leaves them, or moves one of them, which keeps
its stream. -/
theorem drainers_step (s : BridgeThreads n ι) (a : BridgeAction n ι) :
    (s.step a).drainers = s.drainers ∨
      ∃ k d, (s.step a).drainers = Function.update s.drainers k d ∧
        d.sub.streamId = (s.drainers k).sub.streamId := by
  cases a with
  | deposit item =>
      rw [step]
      split <;> exact .inl rfl
  | receiver =>
      rw [step, receiverStep]
      split
      · exact .inl rfl
      · split
        · exact .inl rfl
        · split_ifs <;> exact .inl rfl
      · exact .inl rfl
      · exact .inl rfl
  | drain k =>
      rw [step]
      split
      · exact .inr ⟨k, _, rfl, rfl⟩
      · exact .inl rfl
  | drainer k =>
      -- an idle subscription does nothing here, and any other place moves it
      rw [step, drainerStep]
      cases (s.drainers k).pc with
      | idle => exact .inl rfl
      | peek idx =>
          dsimp only
          split_ifs <;> exact .inr ⟨k, _, rfl, rfl⟩
      | check idx =>
          dsimp only
          split_ifs <;> exact .inr ⟨k, _, rfl, rfl⟩
      | take idx => exact .inr ⟨k, _, rfl, rfl⟩
      | store idx item => exact .inr ⟨k, _, rfl, rfl⟩
  | removeClosed k closed =>
      rw [step]
      split
      · exact .inr ⟨k, _, rfl, rfl⟩
      · exact .inl rfl

theorem alone_of_matches {s : BridgeThreads n ι}
    (h : ∀ k idx, (s.drainers k).pc = .peek idx → s.Matches k idx →
      ∀ j, (s.drainers j).pc.slot? ≠ some idx) (a : BridgeAction n ι) : s.Alone a := by
  cases a with
  | drainer k =>
      rw [Alone]
      cases hpc : (s.drainers k).pc with
      | peek idx => exact fun _ hmatch => h k idx hpc hmatch
      | _ => trivial
  | _ => trivial

/-- The image that a subscription has found is not of another stream. -/
theorem Inv.alone_of_distinct {s : BridgeThreads n ι} (h : s.Inv)
    (hdistinct : ∀ j k, (s.drainers j).sub.streamId = (s.drainers k).sub.streamId → j = k)
    (a : BridgeAction n ι) : s.Alone a := by
  refine alone_of_matches (fun k idx hpc hmatch j hj => ?_) a
  obtain ⟨item, hslot, hstream⟩ := exists_of_matches hmatch
  have hsees := h.drainers j
  rw [Drainer.Sees] at hsees
  cases hpcj : (s.drainers j).pc with
  | idle | peek i =>
      rw [hpcj] at hj
      cases hj
  | check i | take i =>
      -- both have found the same image, so they are one subscription, which is still at its peek
      rw [hpcj] at hj hsees
      cases hj
      obtain ⟨other, hother, hstream'⟩ := hsees
      rw [hslot] at hother
      cases hother
      obtain rfl := hdistinct j k (hstream'.symm.trans hstream)
      rw [hpc] at hpcj
      cases hpcj
  | store i taken =>
      rw [hpcj] at hj hsees
      cases hj
      rw [show s.slots[idx]? = _ from hsees] at hslot
      cases hslot

/-- **Subscriptions of different streams** are always alone, on any threads. -/
theorem images_taken_once_of_distinct {streamIds : Fin n → BitVec 32}
    (hdistinct : Function.Injective streamIds) (actions : List (BridgeAction n ι)) :
    (∀ pre, pre <+: actions → (run step (start streamIds : BridgeThreads n ι) pre).Exact) ∧
      Meets KeepsUntaken step (start streamIds) actions := by
  refine exact_of_alone (inv_start streamIds) ?_
  refine @meets_of_invariant _ _ (fun _ _ => True) Alone step
    (fun s => s.Inv ∧ ∀ k, (s.drainers k).sub.streamId = streamIds k) (fun s a hs _ => ?_) _
    ⟨inv_start streamIds, fun _ => rfl⟩ actions (meets_of_forall fun _ _ => trivial)
  obtain ⟨hinv, hstreams⟩ := hs
  have halone : s.Alone a := hinv.alone_of_distinct (fun j k hsame => hdistinct (by
    rwa [hstreams, hstreams] at hsame)) a
  refine ⟨⟨hinv.step halone, fun j => ?_⟩, halone⟩
  rcases drainers_step s a with hsame | ⟨k, d, hmoved, hstream⟩
  · rw [hsame, hstreams]
  · rw [hmoved, streamId_update hstream, hstreams]

/-- Subscriptions of streams 7 and 8 whose steps alternate. -/
def alternating : List (BridgeAction 2 Nat) :=
  depositFirst 1 8 ++ [.deposit (imageOf 2 7), .receiver, .receiver, .receiver, .receiver] ++
    [.drain 0, .drain 1] ++ (List.replicate 6 [.drainer 0, .drainer 1]).flatten

theorem images_taken_once_two_streams :
    let streamIds : Fin 2 → BitVec 32 := fun k => if k = 0 then 7 else 8
    ((∀ pre, pre <+: alternating → (run step (start streamIds) pre).Exact) ∧
      Meets KeepsUntaken step (start streamIds) alternating) ∧
    (run step (start streamIds) alternating).taken = [(1, imageOf 1 8), (0, imageOf 2 7)] :=
  ⟨images_taken_once_of_distinct (by decide) alternating, by decide +kernel⟩

end BridgeThreads

end AeronRs
