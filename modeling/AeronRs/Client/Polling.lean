import AeronRs.Client.SubscriptionBridge
import AeronRs.Lib.Runs
import AeronRs.Lib.Sharing
import AeronRs.Media.GapSkipping

/-! # Polling a subscription

`Subscription::poll` shares its limit among the images: it goes through them from the first one on, and
each may deliver the number of fragments that are left divided by the number of images left, or one.

* **`ClientImage.Ready`** says in terms of the log that an image has a fragment for its subscriber in
  the term that the subscriber reads; `pollFragments_ne_nil_iff` says that a poll of the image then
  delivers.
* The limit is kept by every poll, and a limit that is not smaller than the number of images serves all
  that are ready (`poll_serves_iff`).
* A smaller limit is spent on the first images in every poll, because every poll starts with them. -/

namespace AeronRs

open Runs

/-! ## What a poll of an image finds -/

/-- A committed frame at an offset of a partition. -/
structure FrameAt (m : ByteStore) (base tl pos : Nat) : Prop where
  lt : pos < tl
  room : 4 ≤ tl - pos
  committed : 0 < (m.readI32 (base + pos)).toInt
  header : dataHeaderLength ≤ (m.readI32 (base + pos)).toNat
  fits : pos + alignFrameLength (m.readI32 (base + pos)).toNat ≤ tl

/-- **A fragment is available** at an offset of a partition: a data frame is committed there, or behind
pads and behind gaps that the receiver has passed. `scanned` are the bytes from the subscriber's
position to the offset. -/
inductive Available (m : ByteStore) (base tl : Nat) (recvPos subPos : Int) : Nat → Nat → Prop
  | data {pos scanned : Nat} (hframe : FrameAt m base tl pos)
      (hdata : m.readU16 (base + pos + 6) ≠ frameTypePad) :
      Available m base tl recvPos subPos pos scanned
  | pad {pos scanned : Nat} (hframe : FrameAt m base tl pos)
      (hpad : m.readU16 (base + pos + 6) = frameTypePad)
      (hrest : Available m base tl recvPos subPos
        (pos + alignFrameLength (m.readI32 (base + pos)).toNat)
        (scanned + alignFrameLength (m.readI32 (base + pos)).toNat)) :
      Available m base tl recvPos subPos pos scanned
  | gap {pos scanned : Nat} (hlt : pos < tl) (hroom : 4 ≤ tl - pos)
      (hword : (m.readI32 (base + pos)).toInt ≤ 0) (hpassed : subPos + scanned < recvPos)
      (hrest : Available m base tl recvPos subPos (pos + gapSkip m base tl pos)
        (scanned + gapSkip m base tl pos)) :
      Available m base tl recvPos subPos pos scanned

section Available

variable {m : ByteStore} {base tl : Nat} {recvPos subPos limit : Int} {pos scanned : Nat}

theorem Available.lt_and_room (h : Available m base tl recvPos subPos pos scanned) :
    pos < tl ∧ 4 ≤ tl - pos := by
  cases h with
  | data hframe => exact ⟨hframe.lt, hframe.room⟩
  | pad hframe => exact ⟨hframe.lt, hframe.room⟩
  | gap hlt hroom => exact ⟨hlt, hroom⟩

/-- Where no frame is committed, a fragment is available behind the gap only. -/
theorem available_of_word_nonpos (hgo : pos < tl ∧ 4 ≤ tl - pos)
    (hword : (m.readI32 (base + pos)).toInt ≤ 0) :
    Available m base tl recvPos subPos pos scanned ↔ subPos + scanned < recvPos ∧
      Available m base tl recvPos subPos (pos + gapSkip m base tl pos)
        (scanned + gapSkip m base tl pos) := by
  constructor
  · intro h
    cases h with
    | data hframe => exact absurd hframe.committed (Int.not_lt.mpr hword)
    | pad hframe => exact absurd hframe.committed (Int.not_lt.mpr hword)
    | gap _ _ _ hpassed hrest => exact ⟨hpassed, hrest⟩
  · rintro ⟨hpassed, hrest⟩
    exact .gap hgo.1 hgo.2 hword hpassed hrest

/-- At a positive length word, a fragment is available if a frame is committed there that is no pad, or
behind the pad. -/
theorem available_of_word_pos (hword : 0 < (m.readI32 (base + pos)).toInt) :
    Available m base tl recvPos subPos pos scanned ↔ FrameAt m base tl pos ∧
      (m.readU16 (base + pos + 6) = frameTypePad →
        Available m base tl recvPos subPos (pos + alignFrameLength (m.readI32 (base + pos)).toNat)
          (scanned + alignFrameLength (m.readI32 (base + pos)).toNat)) := by
  constructor
  · intro h
    cases h with
    | data hframe hdata => exact ⟨hframe, fun hpad => absurd hpad hdata⟩
    | pad hframe _ hrest => exact ⟨hframe, fun _ => hrest⟩
    | gap _ _ hnonpos => exact absurd hword (Int.not_lt.mpr hnonpos)
  · rintro ⟨hframe, hrest⟩
    by_cases hpad : m.readU16 (base + pos + 6) = frameTypePad
    · exact .pad hframe hpad (hrest hpad)
    · exact .data hframe hpad

/-- **The loop of a poll delivers exactly if a fragment is available.** -/
theorem pollLoop_ne_nil_iff (hlimit : 0 < limit) {fuel : Nat} (scanned : Nat)
    (hfuel : tl - pos ≤ fuel) :
    (pollLoop m base tl recvPos subPos limit fuel pos 0 scanned).1 ≠ [] ↔
      Available m base tl recvPos subPos pos scanned := by
  induction fuel generalizing pos scanned with
  | zero =>
      refine ⟨fun h => absurd rfl h, fun h => ?_⟩
      have hlt := h.lt_and_room
      omega
  | succ fuel ih =>
      rw [pollLoop]
      by_cases hgo : pos < tl ∧ 4 ≤ tl - pos
      swap
      · refine ⟨fun h => ?_, fun h => absurd h.lt_and_room hgo⟩
        split_ifs at h <;> first | omega | exact absurd rfl h
      rw [if_pos ⟨hgo.1, by simpa using hlimit⟩, if_neg (by omega)]
      dsimp only
      by_cases hword : (m.readI32 (base + pos)).toInt ≤ 0
      · -- a gap, which ends the poll unless the receiver has passed it
        rw [if_pos hword, available_of_word_nonpos hgo hword]
        have hskip := gapSkip_pos m base hgo.1
        by_cases hpassed : recvPos ≤ subPos + scanned
        · rw [if_pos hpassed]
          exact ⟨fun h => absurd rfl h, fun h => absurd h.1 (Int.not_lt.mpr hpassed)⟩
        · rw [if_neg hpassed, ih _ (by omega)]
          exact ⟨fun h => ⟨Int.not_le.mp hpassed, h⟩, fun h => h.2⟩
      · rw [if_neg hword, available_of_word_pos (Int.not_le.mp hword)]
        have halign := le_alignFrameLength (m.readI32 (base + pos)).toNat
        have hheader : dataHeaderLength = 32 := rfl
        by_cases hframe : FrameAt m base tl pos
        swap
        · -- a frame that is cut short ends the poll
          refine ⟨fun h => ?_, fun h => absurd h.1 hframe⟩
          have hcut : ¬ (dataHeaderLength ≤ (m.readI32 (base + pos)).toNat ∧
              pos + alignFrameLength (m.readI32 (base + pos)).toNat ≤ tl) := fun hcut =>
            hframe ⟨hgo.1, hgo.2, Int.not_le.mp hword, hcut.1, hcut.2⟩
          split_ifs at h <;> first | omega | exact absurd rfl h
        rw [if_neg (Nat.not_lt.mpr hframe.header), if_neg (Nat.not_lt.mpr hframe.fits)]
        have hlen := hframe.header
        by_cases hpad : m.readU16 (base + pos + 6) = frameTypePad
        · rw [if_pos hpad, ih _ (by omega)]
          exact ⟨fun h => ⟨hframe, fun _ => h⟩, fun h => h.2 hpad⟩
        · rw [if_neg hpad]
          exact ⟨fun _ => ⟨hframe, fun h => absurd h hpad⟩, fun _ => List.cons_ne_nil _ _⟩

end Available

/-! ## Images and subscriptions -/

/-- An image as a subscription holds it, with the `closed` flag of the shared state. -/
structure ClientImage where
  shared : SharedImage
  closed : Bool

namespace ClientImage

def pollFragments (image : ClientImage) (limit : Int) : ClientImage × List Fragment :=
  ({ image with shared := (image.shared.poll limit).1 }, (image.shared.poll limit).2)

/-- **An image is ready** if a fragment is available at the subscriber's position, in the term of that
position. -/
def Ready (image : ClientImage) : Prop :=
  let inner := image.shared.inner
  let subscriber := image.shared.subscriber
  Available inner.log.buffer
    (partitionIndex (subscriber.termId inner) inner.initialTermId * inner.log.termLength)
    inner.log.termLength inner.receiverPosition subscriber.subscriberPositionLocal
    (subscriber.termOffset inner) 0

/-- **A poll of an image delivers exactly if the image is ready.** -/
theorem pollFragments_ne_nil_iff (image : ClientImage) {limit : Int} (hlimit : 1 ≤ limit) :
    (image.pollFragments limit).2 ≠ [] ↔ image.Ready := by
  rw [pollFragments, (image.shared.poll_spec (Int.lt_of_lt_of_le Int.zero_lt_one hlimit)).2.1, ne_eq,
    List.map_eq_nil_iff]
  exact pollLoop_ne_nil_iff hlimit 0 (Nat.sub_le _ _)

theorem pollFragments_length_le (image : ClientImage) (limit : Int) (hlimit : 1 ≤ limit) :
    ((image.pollFragments limit).2.length : Int) ≤ limit := (image.shared.poll_spec hlimit).2.2

end ClientImage

/-- The limit for one image, from the fragments that are left and the number of images left. -/
def perImage (remaining : Int) (imagesLeft : Nat) : Int :=
  max (if remaining < imagesLeft then 1 else remaining / imagesLeft) 1

theorem perImage_policy : QuotaPolicy perImage where
  pos _ _ := le_max_right _ _
  le remaining imagesLeft hpos := by
    refine max_le ?_ hpos
    split_ifs
    · exact hpos
    · exact Int.ediv_le_self _ hpos.le
  leaves remaining imagesLeft hle := by
    rw [perImage, if_neg (by omega)]
    have hone : 1 ≤ (remaining : Int) / (imagesLeft + 1 : Nat) :=
      Int.le_ediv_of_mul_le (by omega) (by omega)
    have hmul := Int.ediv_mul_le (remaining : Int) (show ((imagesLeft + 1 : Nat) : Int) ≠ 0 by omega)
    rw [max_eq_left hone]
    push_cast at hone hmul ⊢
    -- equal shares of at least one are one share and at least one for each of the others
    have hothers := Int.mul_nonneg (Int.sub_nonneg_of_le hone) (Int.natCast_nonneg imagesLeft)
    rw [Int.sub_mul, Int.one_mul] at hothers
    rw [Int.mul_add, Int.mul_one] at hmul
    omega
  scarce remaining imagesLeft hlt := by rw [perImage, if_pos hlt, max_self]

namespace Subscription

variable {limit : Int} {slots : List (BridgeSlot ClientImage)}

/-- `Subscription::poll`: the bridge and the subscription afterwards, and what each image delivered.
The return value is the number of all these fragments. -/
def poll (slots : List (BridgeSlot ClientImage)) (s : Subscription ClientImage) (limit : Int) :
    (List (BridgeSlot ClientImage) × Subscription ClientImage) × List (List Fragment) :=
  if limit ≤ 0 then ((slots, s), [])
  else
    let drained := drainLoop s.streamId slots s.images
    let images := removeClosedImages ClientImage.closed drained.2
    let polled := share perImage ClientImage.pollFragments limit images
    ((drained.1, { s with images := polled.1 }), polled.2)

def fragmentCount (delivered : List (List Fragment)) : Nat := total List.length delivered

/-- **A poll delivers at most its limit.** -/
theorem poll_fragmentCount_le (slots : List (BridgeSlot ClientImage)) (s : Subscription ClientImage)
    (hlimit : 1 ≤ limit) : (fragmentCount (s.poll slots limit).2 : Int) ≤ limit := by
  rw [poll, if_neg (by omega)]
  exact share_total_le perImage_policy ClientImage.pollFragments_length_le (by omega) _

/-- A poll takes no image from the bridge and finds none of its images closed. -/
def Undisturbed (slots : List (BridgeSlot ClientImage)) (s : Subscription ClientImage) : Prop :=
  (drainLoop s.streamId slots s.images).2 = s.images ∧ ∀ image ∈ s.images, image.closed = false

theorem poll_of_undisturbed {s : Subscription ClientImage} (hlimit : 1 ≤ limit)
    (h : Undisturbed slots s) :
    (s.poll slots limit).1.2.images =
        (share perImage ClientImage.pollFragments limit s.images).1 ∧
      (s.poll slots limit).2 = (share perImage ClientImage.pollFragments limit s.images).2 := by
  rw [poll, if_neg (by omega)]
  dsimp only
  rw [h.1, removeClosedImages_of_open h.2]
  exact ⟨rfl, rfl⟩

/-- **A limit of one fragment for each image serves exactly the images that are ready.** -/
theorem poll_serves_iff {s : Subscription ClientImage} (hlimit : 1 ≤ limit)
    (h : Undisturbed slots s) (henough : s.images.length ≤ limit) (i : Nat) :
    (∃ fragments, (s.poll slots limit).2[i]? = some fragments ∧ fragments ≠ []) ↔
      ∃ image, s.images[i]? = some image ∧ image.Ready := by
  rw [(poll_of_undisturbed hlimit h).2]
  have hserved : ∀ image, s.images[i]? = some image → ∃ quota, 1 ≤ quota ∧
      (share perImage ClientImage.pollFragments limit s.images).2[i]? =
        some (image.pollFragments quota).2 := fun image himage =>
    share_served perImage_policy ClientImage.pollFragments_length_le henough himage
  constructor
  · rintro ⟨fragments, hfragments, hne⟩
    obtain ⟨hbound, -⟩ := List.getElem?_eq_some_iff.mp hfragments
    rw [(share_length limit s.images).2] at hbound
    have himage := List.getElem?_eq_getElem hbound
    obtain ⟨quota, hquota, hpolled⟩ := hserved _ himage
    obtain rfl := Option.some.inj (hfragments.symm.trans hpolled)
    exact ⟨_, himage, (ClientImage.pollFragments_ne_nil_iff _ hquota).mp hne⟩
  · rintro ⟨image, himage, hready⟩
    obtain ⟨quota, hquota, hpolled⟩ := hserved image himage
    exact ⟨_, hpolled, (image.pollFragments_ne_nil_iff hquota).mpr hready⟩

/-- **Where all images are ready, the first ones are served**, as many as the limit. -/
theorem poll_serves_first {s : Subscription ClientImage} (hlimit : 1 ≤ limit)
    (h : Undisturbed slots s) (hready : ∀ image ∈ s.images, image.Ready) {i : Nat}
    {fragments : List Fragment} (hi : (s.poll slots limit).2[i]? = some fragments) :
    fragments ≠ [] ↔ (i : Int) < limit := by
  have hpolled := (poll_of_undisturbed hlimit h).2
  by_cases henough : (s.images.length : Int) ≤ limit
  · obtain ⟨hbound, -⟩ := List.getElem?_eq_some_iff.mp hi
    rw [hpolled, (share_length limit s.images).2] at hbound
    obtain ⟨_, hserved, hne⟩ := (poll_serves_iff hlimit h henough i).mpr
      ⟨_, List.getElem?_eq_getElem hbound, hready _ (List.getElem_mem hbound)⟩
    obtain rfl := Option.some.inj (hi.symm.trans hserved)
    exact ⟨fun _ => by omega, fun _ => hne⟩
  · rw [hpolled] at hi
    refine share_scarce perImage_policy ClientImage.pollFragments_length_le (by omega) (by omega)
      (fun image himage => ?_) hi
    exact (image.pollFragments_ne_nil_iff le_rfl).mpr (hready image himage)

end Subscription

/-! ## Runs -/

inductive SubscriptionAction
  /-- The receiver writes to the log of image `i` and moves its position. -/
  | receive (i : Nat) (buffer : ByteStore) (receiverPosition : Int)
  /-- The receiver closes image `i`. -/
  | close (i : Nat)
  /-- The receiver hands over a new image. -/
  | deposit (pending : PendingImage ClientImage)
  | poll (limit : Int)

structure SubscriptionRun where
  slots : List (BridgeSlot ClientImage)
  subscription : Subscription ClientImage
  polls : List (List (List Fragment))

def ClientImage.receive (image : ClientImage) (buffer : ByteStore) (receiverPosition : Int) :
    ClientImage where
  shared :=
    { inner := { image.shared.inner.withBuffer buffer with receiverPosition }
      receiver := ⟨receiverPosition⟩
      subscriber := image.shared.subscriber
      receiver_sync := rfl
      subscriber_sync := image.shared.subscriber_sync }
  closed := image.closed

namespace SubscriptionRun

variable {limit : Int}

def withImages (s : SubscriptionRun) (images : List ClientImage) : SubscriptionRun :=
  { s with subscription := { s.subscription with images } }

def step (s : SubscriptionRun) : SubscriptionAction → SubscriptionRun
  | .receive i buffer receiverPosition =>
      s.withImages (s.subscription.images.modify i fun image =>
        image.receive buffer receiverPosition)
  | .close i =>
      s.withImages (s.subscription.images.modify i fun image => { image with closed := true })
  | .deposit pending => { s with slots := (deposit s.slots pending).1 }
  | .poll limit =>
      let polled := s.subscription.poll s.slots limit
      ⟨polled.1.1, polled.1.2, s.polls ++ [polled.2]⟩

/-- Every poll has the same limit, and no image is added or found closed by it. -/
def Steady (limit : Int) (s : SubscriptionRun) : SubscriptionAction → Prop
  | .poll l => l = limit ∧ Subscription.Undisturbed s.slots s.subscription
  | _ => True

/-- Every image is ready when a poll starts. -/
def AllReady (s : SubscriptionRun) : SubscriptionAction → Prop
  | .poll _ => ∀ image ∈ s.subscription.images, image.Ready
  | _ => True

def Idle (i : Nat) (s : SubscriptionRun) : SubscriptionAction → Prop
  | .poll _ => ¬ ∃ image, s.subscription.images[i]? = some image ∧ image.Ready
  | _ => True

def Delivered (s : SubscriptionRun) (i : Nat) : Prop :=
  ∃ delivered ∈ s.polls, ∃ fragments, delivered[i]? = some fragments ∧ fragments ≠ []

instance (s : SubscriptionRun) (i : Nat) : Decidable (s.Delivered i) :=
  decidable_of_iff (∃ delivered ∈ s.polls, delivered[i]?.getD [] ≠ []) <| by
    refine exists_congr fun delivered => and_congr_right fun _ => ?_
    cases delivered[i]? with
    | none => simp
    | some fragments => simp

/-- What holds along a steady run with `n` images: the polls keep the limit. -/
structure Kept (n : Nat) (limit : Int) (s : SubscriptionRun) : Prop where
  images : s.subscription.images.length = n
  delivered : ∀ d ∈ s.polls, d.length = n ∧ (Subscription.fragmentCount d : Int) ≤ limit

/-- What holds along a steady run whose images are always ready: the polls deliver fragments of the
first images, as many as the limit. -/
def ServesFirst (limit : Int) (s : SubscriptionRun) : Prop :=
  ∀ d ∈ s.polls, ∀ (i : Nat) (fragments : List Fragment), d[i]? = some fragments →
    (fragments ≠ [] ↔ (i : Int) < limit)

section Steps

variable {n : Nat} {limit : Int} {s : SubscriptionRun} {a : SubscriptionAction}

theorem step_images_length (hlimit : 1 ≤ limit) (hsteady : s.Steady limit a) :
    (s.step a).subscription.images.length = s.subscription.images.length := by
  cases a with
  | receive i buffer receiverPosition => exact List.length_modify _ _ _
  | close i => exact List.length_modify _ _ _
  | deposit pending => rfl
  | poll l =>
      obtain ⟨rfl, hundisturbed⟩ := hsteady
      change (s.subscription.poll s.slots l).1.2.images.length = _
      rw [(Subscription.poll_of_undisturbed hlimit hundisturbed).1, (share_length _ _).1]

/-- **Step** of a steady run. -/
theorem Kept.step (hlimit : 1 ≤ limit) (h : s.Kept n limit) (hsteady : s.Steady limit a) :
    (s.step a).Kept n limit := by
  refine ⟨(step_images_length hlimit hsteady).trans h.images, ?_⟩
  cases a with
  | receive i buffer receiverPosition => exact h.delivered
  | close i => exact h.delivered
  | deposit pending => exact h.delivered
  | poll l =>
      obtain ⟨rfl, hundisturbed⟩ := hsteady
      intro d hd
      rcases List.mem_append.mp hd with hd | hd
      · exact h.delivered d hd
      · obtain rfl := List.mem_singleton.mp hd
        refine ⟨?_, s.subscription.poll_fragmentCount_le s.slots hlimit⟩
        rw [(Subscription.poll_of_undisturbed hlimit hundisturbed).2, (share_length _ _).2, h.images]

/-- **Step** of a steady run whose images are ready. -/
theorem ServesFirst.step (hlimit : 1 ≤ limit) (h : s.ServesFirst limit) (hsteady : s.Steady limit a)
    (hready : s.AllReady a) : (s.step a).ServesFirst limit := by
  cases a with
  | receive i buffer receiverPosition => exact h
  | close i => exact h
  | deposit pending => exact h
  | poll l =>
      obtain ⟨rfl, hundisturbed⟩ := hsteady
      intro d hd i fragments hfragments
      rcases List.mem_append.mp hd with hd | hd
      · exact h d hd i fragments hfragments
      · obtain rfl := List.mem_singleton.mp hd
        exact Subscription.poll_serves_first hlimit hundisturbed hready hfragments

/-- **Step** of a steady run with a limit for all images: a poll delivers a fragment of an image
exactly if it is ready. -/
theorem delivered_step_iff (hlimit : 1 ≤ limit) (hsteady : s.Steady limit a)
    (henough : s.subscription.images.length ≤ limit) (i : Nat) :
    (s.step a).Delivered i ↔ s.Delivered i ∨ ¬ s.Idle i a := by
  cases a with
  | receive j buffer receiverPosition => exact ⟨.inl, fun h => h.resolve_right (not_not.mpr trivial)⟩
  | close j => exact ⟨.inl, fun h => h.resolve_right (not_not.mpr trivial)⟩
  | deposit pending => exact ⟨.inl, fun h => h.resolve_right (not_not.mpr trivial)⟩
  | poll l =>
      obtain ⟨rfl, hundisturbed⟩ := hsteady
      have hserves := Subscription.poll_serves_iff hlimit hundisturbed henough i
      change (∃ d ∈ s.polls ++ [(s.subscription.poll s.slots l).2], _) ↔ s.Delivered i ∨ ¬¬ _
      rw [not_not, ← hserves]
      simp only [List.mem_append, List.mem_singleton, or_and_right, exists_or, exists_eq_left]
      rfl

end Steps

/-- **Run** of a steady run with a limit for all images: the images that deliver are those that are
ready at some poll. -/
theorem delivered_run_iff (hlimit : 1 ≤ limit) {s : SubscriptionRun}
    {actions : List SubscriptionAction} (hsteady : Meets (Steady limit) step s actions)
    (henough : s.subscription.images.length ≤ limit) (i : Nat) :
    (run step s actions).Delivered i ↔ s.Delivered i ∨ ¬ Meets (Idle i) step s actions := by
  induction actions generalizing s with
  | nil => exact ⟨.inl, fun h => h.resolve_right (not_not.mpr trivial)⟩
  | cons a actions ih =>
      obtain ⟨ha, hrest⟩ := hsteady
      rw [run_cons, ih hrest (by rwa [step_images_length hlimit ha]),
        delivered_step_iff hlimit ha henough, or_assoc, meets_cons, not_and_or]

/-- An image has delivered exactly if it is one of the first, once there was a poll. -/
theorem ServesFirst.delivered_iff {n : Nat} {s : SubscriptionRun} (h : s.ServesFirst limit)
    (hkept : s.Kept n limit) (hpolls : s.polls ≠ []) {i : Nat} (hi : i < n) :
    s.Delivered i ↔ (i : Int) < limit := by
  constructor
  · rintro ⟨d, hd, fragments, hfragments, hne⟩
    exact (h d hd i fragments hfragments).mp hne
  · intro hlt
    obtain ⟨d, hd⟩ := List.exists_mem_of_ne_nil _ hpolls
    have hbound : i < d.length := by rw [(hkept.delivered d hd).1]; exact hi
    have hfragments := List.getElem?_eq_getElem hbound
    exact ⟨d, hd, _, hfragments, (h d hd i _ hfragments).mpr hlt⟩

/-- **Polling is fair exactly if the limit is not smaller than the number of images.** In every steady
stretch of a run no poll delivers more than its limit. A limit that is not smaller serves every image
that is ready at some poll. If there are as many polls as images and every image is ready at each of
them, then the images that have delivered are the first ones, as many as the limit. -/
theorem polling_fair_iff {limit : Int} (hlimit : 1 ≤ limit) {s : SubscriptionRun}
    (hstart : s.polls = []) {actions : List SubscriptionAction}
    (hsteady : Meets (Steady limit) step s actions) :
    (∀ d ∈ (run step s actions).polls, (Subscription.fragmentCount d : Int) ≤ limit) ∧
      (s.subscription.images.length ≤ limit → ∀ i,
        ((run step s actions).Delivered i ↔ ¬ Meets (Idle i) step s actions)) ∧
      (Meets AllReady step s actions →
        (run step s actions).polls.length = s.subscription.images.length →
        (∀ i < s.subscription.images.length,
          ((run step s actions).Delivered i ↔ (i : Int) < limit)) ∧
        ((∀ i < s.subscription.images.length, (run step s actions).Delivered i) ↔
          s.subscription.images.length ≤ limit)) := by
  have hkept : (run step s actions).Kept s.subscription.images.length limit :=
    run_invariant (fun _ _ h hs => h.step hlimit hs) ⟨rfl, by simp [hstart]⟩ hsteady
  have hnone : ∀ i, ¬ s.Delivered i := by simp [Delivered, hstart]
  refine ⟨fun d hd => (hkept.delivered d hd).2, fun henough i => ?_, fun hready hlength => ?_⟩
  · rw [delivered_run_iff hlimit hsteady henough]
    exact ⟨fun h => h.resolve_left (hnone i), .inr⟩
  have hfirst : (run step s actions).ServesFirst limit :=
    run_invariant (fun _ _ h hs => h.step hlimit hs.1 hs.2) (by simp [ServesFirst, hstart])
      (meets_and hsteady hready)
  have hdelivered : ∀ i < s.subscription.images.length,
      ((run step s actions).Delivered i ↔ (i : Int) < limit) := fun i hi =>
    hfirst.delivered_iff hkept (List.ne_nil_of_length_pos (by omega)) hi
  refine ⟨hdelivered, fun hall => ?_, fun henough i hi => (hdelivered i hi).mpr (by omega)⟩
  by_contra hscarce
  -- the first image behind those that the limit serves
  have hnext := (hdelivered limit.toNat (by omega)).mp (hall limit.toNat (by omega))
  omega

/-- A log with three frames without payload at the start of its first term. -/
def threeFrames : RawLog :=
  .of128 (((ByteStore.write (fun _ => 0) 0
      (DataHeader.encode ⟨⟨32, currentVersion, 0, frameTypeData⟩, 0, 7, 1, 0, 0⟩)).write 32
      (DataHeader.encode ⟨⟨32, currentVersion, 0, frameTypeData⟩, 32, 7, 1, 0, 0⟩)).write 64
      (DataHeader.encode ⟨⟨32, currentVersion, 0, frameTypeData⟩, 64, 7, 1, 0, 0⟩))

/-- An image over a log at given positions of the receiver and the subscriber. -/
def imageAt (log : RawLog) (recv sub : Int) : ClientImage where
  shared :=
    { inner := ⟨log, recv, sub, 7, 1, 0⟩
      receiver := ⟨recv⟩
      subscriber := ⟨sub⟩
      receiver_sync := rfl
      subscriber_sync := rfl }
  closed := false

def holding (images : List ClientImage) : SubscriptionRun := ⟨newBridge, ⟨1, images⟩, []⟩

def twoImages : SubscriptionRun := holding [imageAt threeFrames 96 0, imageAt threeFrames 96 0]

/-- Polls of a subscription with an empty bridge and open images are steady. -/
theorem holding_steady {images : List ClientImage} (hopen : ∀ image ∈ images, image.closed = false)
    (hlimit : 1 ≤ limit) (count : Nat) :
    Meets (Steady limit) step (holding images) (List.replicate count (.poll limit)) := by
  have hnone : ∀ (streamId : BitVec 32) (slot : BridgeSlot ClientImage), slot ∈ newBridge →
      slot.peekStreamId ≠ some streamId := fun streamId slot hslot => by
    rw [List.eq_of_mem_replicate hslot]
    exact fun hpeek => by cases hpeek
  let quiet : SubscriptionRun → Prop := fun s =>
    s.slots = newBridge ∧ ∀ image ∈ s.subscription.images, image.closed = false
  have hstep : ∀ s a, quiet s → a = .poll limit → quiet (s.step a) ∧ s.Steady limit a := by
    rintro s a ⟨hslots, himages⟩ rfl
    have hundisturbed : Subscription.Undisturbed s.slots s.subscription := by
      refine ⟨?_, himages⟩
      rw [hslots, drainLoop_of_none_waits (hnone _)]
    refine ⟨⟨?_, ?_⟩, rfl, hundisturbed⟩
    · change (s.subscription.poll s.slots limit).1.1 = newBridge
      rw [Subscription.poll, if_neg (by omega), hslots, drainLoop_of_none_waits (hnone _)]
    · change ∀ image ∈ (s.subscription.poll s.slots limit).1.2.images, image.closed = false
      rw [(Subscription.poll_of_undisturbed hlimit hundisturbed).1]
      exact share_forall (fun _ _ h => h) himages limit
  exact meets_of_invariant hstep ⟨rfl, hopen⟩
    (meets_of_forall fun a ha => List.eq_of_mem_replicate ha)

theorem allReady_of_polls {s : SubscriptionRun}
    (h : ∀ image ∈ s.subscription.images, (image.pollFragments 1).2 ≠ []) (limit : Int) :
    s.AllReady (.poll limit) := fun image himage =>
  (image.pollFragments_ne_nil_iff le_rfl).mp (h image himage)

/-- Two polls for two fragments deliver a fragment of each of two images. -/
theorem polling_fair_two :
    (run step twoImages [.poll 2, .poll 2]).Delivered 0 ∧
      (run step twoImages [.poll 2, .poll 2]).Delivered 1 := by
  have hready : Meets AllReady step twoImages [.poll 2, .poll 2] :=
    ⟨allReady_of_polls (by decide +kernel) 2, allReady_of_polls (by decide +kernel) 2, trivial⟩
  obtain ⟨-, -, hfair⟩ := polling_fair_iff (show (1 : Int) ≤ 2 by decide) (s := twoImages) rfl
    (holding_steady (by decide) (by decide) 2)
  have hall := (hfair hready rfl).2.mpr (by decide)
  exact ⟨hall 0 (by decide), hall 1 (by decide)⟩

/-- An image whose subscriber is behind the last frame of the first term. A fragment is committed in
the second term, behind a pad. -/
def atTermEnd : SubscriptionRun := holding [imageAt SharedImage.gappedLog 224 96]

/-- **Polling is not fair.** Two images that are ready at both polls for one fragment: the second one
delivers nothing. And one image with a fragment in its next term: the poll that takes the subscriber
there delivers nothing, and only the one behind it does. -/
theorem polling_unfair :
    (Meets (Steady 1) step twoImages [.poll 1, .poll 1] ∧
      Meets AllReady step twoImages [.poll 1, .poll 1] ∧
      ¬ (run step twoImages [.poll 1, .poll 1]).Delivered 1) ∧
    (Meets (Steady 1) step atTermEnd [.poll 1, .poll 1] ∧
      (run step atTermEnd [.poll 1, .poll 1]).polls = [[[]], [[⟨192, [], 7, 1⟩]]]) := by
  have hsteady : ∀ images : List ClientImage, (∀ image ∈ images, image.closed = false) →
      Meets (Steady 1) step (holding images) [.poll 1, .poll 1] := fun images hopen =>
    holding_steady hopen (by decide) 2
  refine ⟨⟨hsteady _ (by decide), ⟨?_, ?_, trivial⟩, by decide +kernel⟩, hsteady _ (by decide),
    by decide +kernel⟩
  · exact allReady_of_polls (by decide +kernel) 1
  · exact allReady_of_polls (by decide +kernel) 1

end SubscriptionRun

end AeronRs
