import AeronRs.Agent.Receiver
import AeronRs.Lib.ProbeTable
import AeronRs.Lib.Runs

/-! # The image table of the receiver agent

The agent keeps its images in the first slots of an array and finds them by session and stream through
a hash index with linear probing. Removing an image closes the hole in the index and then moves the
last image of the array into the free slot, which takes it out of the index and puts it back under
its new number.

**`LiveImages`** is what the table is for: the images that were created by a setup frame and not
removed since. `image_table_is_map` says that the table is that, after any calls and also when it is
full. -/

namespace AeronRs

open ProbeTable

def maxImageSlots : Nat := 256

def ImageEntry.default : ImageEntry where
  sessionId := 0
  streamId := 0
  sourceAddr := ⟨0, []⟩
  initialTermId := 0
  activeTermId := 0
  termLength := 0
  consumptionTermId := 0
  consumptionTermOffset := 0
  receiverWindow := 0
  expectedTermOffset := 0
  timeOfLastSmNs := 0
  timeOfLastNakNs := 0
  smPending := false
  active := false

/-- `image_hash`. The mask leaves the remainder by the number of slots. -/
def imageHash (sessionId streamId : BitVec 32) : Fin maxImageSlots :=
  ⟨(sessionId * 0x9E3779B9 ^^^ streamId * 0x517CC1B7).toNat % maxImageSlots,
    Nat.mod_lt _ (by decide)⟩

/-- The hash index: the number of an image, or empty. -/
abbrev ImageIndex : Type := Fin maxImageSlots → Option Nat

def naturalSlot (images : Nat → ImageEntry) (idx : Nat) : Fin maxImageSlots :=
  imageHash (images idx).sessionId (images idx).streamId

def ImageEntry.hasIds (img : ImageEntry) (sessionId streamId : BitVec 32) : Bool :=
  img.sessionId == sessionId && img.streamId == streamId

def findImageInIndex (images : Nat → ImageEntry) (index : ImageIndex)
    (sessionId streamId : BitVec 32) : Option Nat :=
  (probe index (fun idx => (images idx).active && (images idx).hasIds sessionId streamId)
    (imageHash sessionId streamId) maxImageSlots 0).map Prod.snd

def insertImageIndex (index : ImageIndex) (imagesIdx : Nat) (sessionId streamId : BitVec 32) :
    ImageIndex :=
  ProbeTable.insert index (imageHash sessionId streamId) imagesIdx

/-- `remove_image_index`; `none` if its loop has not ended after a round for every slot. The search
for the slot does not ask whether the image is active. -/
def removeImageIndex (index : ImageIndex) (images : Nat → ImageEntry)
    (sessionId streamId : BitVec 32) : Option ImageIndex :=
  match probe index (fun idx => (images idx).hasIds sessionId streamId)
      (imageHash sessionId streamId) maxImageSlots 0 with
  | none => some index
  | some (target, _) => shiftBack (naturalSlot images) target maxImageSlots index target target

/-- An image handle: the image, and a number that tells it from the images of all other setups. -/
structure ImageHandle where
  id : Nat
  image : SharedImage

/-- The table of a `ReceiverAgent`, with the number of images that were created and the handles that
were closed. -/
structure ImageTable where
  images : Nat → ImageEntry
  imageCount : Nat
  imageIndex : ImageIndex
  imageHandles : Nat → Option ImageHandle
  maxImages : Nat
  maxImages_le : maxImages ≤ maxImageSlots
  created : Nat
  closed : List Nat

namespace ImageTable

def new (maxReceiverImages : Nat) : ImageTable where
  images := fun _ => ImageEntry.default
  imageCount := 0
  imageIndex := fun _ => none
  imageHandles := fun _ => none
  maxImages := min maxReceiverImages maxImageSlots
  maxImages_le := Nat.min_le_right _ _
  created := 0
  closed := []

/-- `find_image_in_index`, for the table. -/
def find (t : ImageTable) (sessionId streamId : BitVec 32) : Option Nat :=
  findImageInIndex t.images t.imageIndex sessionId streamId

/-- The part of `on_setup` that stores a new image. -/
def addImage (t : ImageTable) (setup : SetupHeader) (s : ImageState) : ImageTable :=
  let idx := t.imageCount
  { t with
    images := Function.update t.images idx s.entry
    imageHandles := Function.update t.imageHandles idx (some ⟨t.created, s.image⟩)
    imageIndex := insertImageIndex t.imageIndex idx setup.sessionId setup.streamId
    imageCount := idx + 1
    created := t.created + 1 }

def onSetup (handler : InlineHandler) (t : ImageTable) (setup : SetupHeader) (source : SockAddr) :
    ImageTable :=
  if (t.find setup.sessionId setup.streamId).isNone ∧ t.imageCount < t.maxImages then
    match ImageState.onSetup handler setup source with
    | none => t
    | some s => t.addImage setup s
  else t

/-- The second part of `remove_image`: the last image moves into the free slot, and the last slot is
cleared. -/
def compact (t : ImageTable) (idx : Nat) : Option ImageTable :=
  let last := t.imageCount - 1
  if idx ≠ last then do
    let movedSession := (t.images last).sessionId
    let movedStream := (t.images last).streamId
    let index ← removeImageIndex t.imageIndex t.images movedSession movedStream
    let images := Function.update t.images idx (t.images last)
    let handles := Function.update (Function.update t.imageHandles idx (t.imageHandles last)) last none
    some { t with
      images := Function.update images last ImageEntry.default
      imageHandles := handles
      imageIndex := insertImageIndex index idx movedSession movedStream
      imageCount := last }
  else
    some { t with
      images := Function.update t.images last ImageEntry.default
      imageCount := last }

/-- The first part of `remove_image`: the image is taken out of the index and its handle is closed. -/
def unlink (t : ImageTable) (idx : Nat) (sessionId streamId : BitVec 32) : Option ImageTable := do
  let index ← removeImageIndex t.imageIndex t.images sessionId streamId
  some { t with
    imageIndex := index
    images := Function.update t.images idx { t.images idx with active := false }
    closed := t.closed ++ (t.imageHandles idx).toList.map ImageHandle.id
    imageHandles := Function.update t.imageHandles idx none }

/-- `remove_image`; `none` if one of its loops does not end. -/
def removeImage (t : ImageTable) (sessionId streamId : BitVec 32) : Option (ImageTable × Bool) :=
  match t.find sessionId streamId with
  | none => some (t, false)
  | some idx => do
      let t ← t.unlink idx sessionId streamId
      let t ← t.compact idx
      some (t, true)

end ImageTable

/-! ## What the table is for -/

/-- An image as a setup frame has created it. -/
structure CreatedImage where
  entry : ImageEntry
  handle : ImageHandle

inductive TableCall where
  | setup (handler : InlineHandler) (setup : SetupHeader) (source : SockAddr)
  | remove (sessionId streamId : BitVec 32)

/-- **The images that were created and not removed since**, with the handles of the removed ones. -/
structure LiveImages where
  live : List CreatedImage
  created : Nat
  closed : List Nat

namespace LiveImages

def start : LiveImages := ⟨[], 0, []⟩

/-- A setup frame creates an image if there is none with its ids, the number of images is below the
maximum and the setup is valid (`ImageState.onSetup_isSome_iff`); a removal takes away the image with
the ids. -/
def step (maxImages : Nat) (l : LiveImages) : TableCall → LiveImages
  | .setup handler setup source =>
      if (∀ c ∈ l.live, c.entry.hasIds setup.sessionId setup.streamId = false) ∧
          l.live.length < maxImages then
        match ImageState.onSetup handler setup source with
        | none => l
        | some s =>
            { l with
              live := l.live ++ [⟨s.entry, l.created, s.image⟩]
              created := l.created + 1 }
      else l
  | .remove sessionId streamId =>
      { l with
        live := l.live.filter fun c => !c.entry.hasIds sessionId streamId
        closed := l.closed ++
          (l.live.filter fun c => c.entry.hasIds sessionId streamId).map fun c => c.handle.id }

end LiveImages

/-- The table after a call; `none` if the call does not end. -/
def ImageTable.step (t : ImageTable) : TableCall → Option ImageTable
  | .setup handler setup source => some (t.onSetup handler setup source)
  | .remove sessionId streamId => (t.removeImage sessionId streamId).map Prod.fst

theorem ImageState.onSetup_ids {handler : InlineHandler} {setup : SetupHeader} {source : SockAddr}
    {s : ImageState} (h : ImageState.onSetup handler setup source = some s) :
    s.entry.sessionId = setup.sessionId ∧ s.entry.streamId = setup.streamId ∧
      s.entry.active = true := by
  rw [ImageState.onSetup] at h
  split_ifs at h
  obtain ⟨image, -, rfl⟩ := Option.map_eq_some_iff.mp h
  exact ⟨rfl, rfl, rfl⟩

/-! ## The index -/

theorem ImageEntry.hasIds_iff {img : ImageEntry} {sessionId streamId : BitVec 32} :
    img.hasIds sessionId streamId = true ↔ img.sessionId = sessionId ∧ img.streamId = streamId := by
  rw [hasIds, Bool.and_eq_true, beq_iff_eq, beq_iff_eq]

/-- **The index leads to the images**: it was filled by probing with certain numbers, and no two of
these images have the same ids. -/
structure Indexed (images : Nat → ImageEntry) (index : ImageIndex) (numbers : Nat → Prop) : Prop where
  probed : Probed (naturalSlot images) index
  stored : ∀ i, Stored index i ↔ numbers i
  distinct : ∀ i j, numbers i → numbers j →
    (images i).hasIds (images j).sessionId (images j).streamId = true → i = j

namespace Indexed

variable {images images' : Nat → ImageEntry} {index : ImageIndex} {numbers : Nat → Prop}
variable {sessionId streamId : BitVec 32}

theorem congr (h : Indexed images index numbers)
    (hids : ∀ i, numbers i → (images' i).sessionId = (images i).sessionId ∧
      (images' i).streamId = (images i).streamId) : Indexed images' index numbers := by
  refine ⟨h.probed.congr fun i hi => ?_, h.stored, fun i j hi hj hsame => ?_⟩
  · obtain ⟨hsession, hstream⟩ := hids i ((h.stored i).mp hi)
    rw [naturalSlot, naturalSlot, hsession, hstream]
  · apply h.distinct i j hi hj
    rw [ImageEntry.hasIds_iff] at hsame ⊢
    rwa [(hids i hi).1, (hids i hi).2, (hids j hj).1, (hids j hj).2] at hsame

theorem congr_numbers {numbers' : Nat → Prop} (h : Indexed images index numbers)
    (hiff : ∀ i, numbers i ↔ numbers' i) : Indexed images index numbers' :=
  ⟨h.probed, fun i => (h.stored i).trans (hiff i),
    fun i j hi hj => h.distinct i j ((hiff i).mpr hi) ((hiff j).mpr hj)⟩

/-- **An image of the index is found**, by any test that its own ids pass. -/
theorem probe_eq (h : Indexed images index numbers) {i : Nat} (hi : numbers i)
    (hids : (images i).hasIds sessionId streamId = true) (isIt : Nat → Bool) (hit : isIt i = true)
    (htest : ∀ j, isIt j = true → (images j).hasIds sessionId streamId = true) :
    ∃ s, index s = some i ∧
      probe index isIt (imageHash sessionId streamId) maxImageSlots 0 = some (s, i) := by
  obtain ⟨s, hs⟩ := (h.stored i).mpr hi
  obtain ⟨hsession, hstream⟩ := ImageEntry.hasIds_iff.mp hids
  have hhome : imageHash sessionId streamId = naturalSlot images i := by
    rw [naturalSlot, hsession, hstream]
  refine ⟨s, hs, ?_⟩
  rw [hhome]
  refine h.probed.probe_eq hs hit fun j hj hit' => ?_
  apply h.distinct j i ((h.stored j).mp hj) hi
  rw [hsession, hstream]
  exact htest j hit'

theorem find_eq_some (h : Indexed images index numbers) {i : Nat} (hi : numbers i)
    (hactive : (images i).active = true) (hids : (images i).hasIds sessionId streamId = true) :
    findImageInIndex images index sessionId streamId = some i := by
  obtain ⟨s, -, hprobe⟩ := h.probe_eq hi hids
    (fun j => (images j).active && (images j).hasIds sessionId streamId)
    (by rw [hactive, hids]; rfl) fun j hj => ((Bool.and_eq_true _ _).mp hj).2
  rw [findImageInIndex, hprobe]
  rfl

theorem find_eq_none (h : Indexed images index numbers)
    (hids : ∀ i, numbers i → (images i).hasIds sessionId streamId = false) :
    findImageInIndex images index sessionId streamId = none := by
  rw [findImageInIndex, probe_eq_none fun i hi => ?_]
  · rfl
  · rw [hids i ((h.stored i).mp hi), Bool.and_false]

/-- **`remove_image_index`** ends, and takes away one image of the index. -/
theorem remove (h : Indexed images index numbers) {i : Nat} (hi : numbers i)
    (hids : (images i).hasIds sessionId streamId = true) :
    ∃ index', removeImageIndex index images sessionId streamId = some index' ∧
      Indexed images index' fun j => j ≠ i ∧ numbers j := by
  obtain ⟨s, hs, hprobe⟩ := h.probe_eq hi hids _ hids fun j hj => hj
  obtain ⟨index', hshift, hprobed, hstored⟩ := h.probed.shiftBack hs
  refine ⟨index', ?_, hprobed, fun j => ?_, fun j k hj hk => h.distinct j k hj.2 hk.2⟩
  · rw [removeImageIndex, hprobe]
    exact hshift
  · rw [hstored, h.stored]

/-- **`insert_image_index`** adds an image, if there are fewer images than slots and none has its
ids. -/
theorem insert (h : Indexed images index numbers) {i count : Nat} (hcount : count < maxImageSlots)
    (hbound : ∀ j, numbers j → j < count) (hnot : ¬ numbers i)
    (hnew : ∀ j, numbers j →
      (images j).hasIds (images i).sessionId (images i).streamId = false) :
    Indexed images (insertImageIndex index i (images i).sessionId (images i).streamId)
      fun j => j = i ∨ numbers j := by
  have hroom := exists_empty hcount (fun j hj => hbound j ((h.stored j).mp hj)) h.probed.inj
  obtain ⟨hprobed, hstored⟩ := h.probed.insert hroom (mt (h.stored i).mp hnot)
  have hother : ∀ j, numbers j → ¬ ((images j).sessionId = (images i).sessionId ∧
      (images j).streamId = (images i).streamId) := fun j hj hsame => by
    have := ImageEntry.hasIds_iff.mpr hsame
    rw [hnew j hj] at this
    cases this
  refine ⟨hprobed, fun j => (hstored j).trans (or_congr_right (h.stored j)), ?_⟩
  rintro j k (rfl | hj) (rfl | hk) hsame
  · rfl
  · obtain ⟨hsession, hstream⟩ := ImageEntry.hasIds_iff.mp hsame
    exact absurd ⟨hsession.symm, hstream.symm⟩ (hother k hk)
  · exact absurd (ImageEntry.hasIds_iff.mp hsame) (hother j hj)
  · exact h.distinct j k hj hk hsame

end Indexed

/-! ## The table -/

/-- If no two elements have a property, the elements that have it are one. -/
theorem filter_eq_singleton {α : Type*} {p : α → Bool} {l : List α}
    (hone : l.Pairwise fun a b => p a = true → ¬ p b = true) {c : α} (hc : c ∈ l) (hp : p c = true) :
    l.filter p = [c] ∧ (l.filter fun a => !p a).length + 1 = l.length := by
  induction l with
  | nil => cases hc
  | cons a l ih =>
      obtain ⟨hhead, htail⟩ := List.pairwise_cons.mp hone
      cases ha : p a with
      | true =>
          have hnone : ∀ b ∈ l, ¬ p b = true := fun b hb => hhead b hb ha
          obtain rfl : c = a := (List.mem_cons.mp hc).resolve_right fun hc' => hnone c hc' hp
          have hall : ∀ b ∈ l, (!p b) = true := fun b hb => by simp [hnone b hb]
          rw [List.filter_cons_of_pos ha, List.filter_eq_nil_iff.mpr hnone,
            List.filter_cons_of_neg (by simp [ha]), List.filter_eq_self.mpr hall]
          exact ⟨rfl, rfl⟩
      | false =>
          have hc' : c ∈ l := (List.mem_cons.mp hc).resolve_left fun heq => by
            rw [← heq, hp] at ha
            cases ha
          obtain ⟨hfilter, hlength⟩ := ih htail hc'
          rw [List.filter_cons_of_neg (by simp [ha]), List.filter_cons_of_pos (by simp [ha])]
          exact ⟨hfilter, congrArg (· + 1) hlength⟩

def ImageTable.Holds (t : ImageTable) (i : Nat) (c : CreatedImage) : Prop :=
  t.images i = c.entry ∧ t.imageHandles i = some c.handle

/-- **The table is the live images**: they fill its first slots, each once, and the index leads to
them. -/
structure ImageTable.Refines (t : ImageTable) (l : LiveImages) : Prop where
  count_eq : t.imageCount = l.live.length
  count_le : t.imageCount ≤ t.maxImages
  indexed : Indexed t.images t.imageIndex (· < t.imageCount)
  active : ∀ i, (t.images i).active = true ↔ i < t.imageCount
  held : ∀ i, i < t.imageCount → ∃ c ∈ l.live, t.Holds i c
  placed : ∀ c ∈ l.live, ∃ i, i < t.imageCount ∧ t.Holds i c
  distinct : l.live.Pairwise fun c d =>
    c.entry.hasIds d.entry.sessionId d.entry.streamId = false
  created_eq : t.created = l.created
  closed_eq : t.closed = l.closed

namespace ImageTable

theorem refines_new (maxReceiverImages : Nat) : (new maxReceiverImages).Refines .start where
  count_eq := rfl
  count_le := Nat.zero_le _
  indexed := ⟨probed_empty _, fun i => ⟨fun h => absurd h (not_stored_empty i), fun h => nomatch h⟩,
    fun _ _ h => nomatch h⟩
  active := fun _ => ⟨fun h => (nomatch h), fun h => nomatch h⟩
  held := fun _ h => nomatch h
  placed := fun _ h => nomatch h
  distinct := .nil
  created_eq := rfl
  closed_eq := rfl

/-- The slot whose image is in slot `i` after slot `idx` was filled with the last image. -/
def movedFrom (idx last i : Nat) : Nat := if i = idx then last else i

/-- **The free slot is filled.** When the index has all images but that of slot `idx`, the last image
moves there and the index leads to it. -/
theorem compact_eq {t : ImageTable} {idx : Nat} (hidx : idx < t.imageCount)
    (hcount : t.imageCount ≤ maxImageSlots)
    (hindexed : Indexed t.images t.imageIndex fun j => j ≠ idx ∧ j < t.imageCount) :
    ∃ t', t.compact idx = some t' ∧ t'.imageCount + 1 = t.imageCount ∧
      (t'.maxImages = t.maxImages ∧ t'.created = t.created ∧ t'.closed = t.closed) ∧
      Indexed t'.images t'.imageIndex (· < t'.imageCount) ∧
      (∀ i, i < t'.imageCount → t'.images i = t.images (movedFrom idx t'.imageCount i) ∧
        t'.imageHandles i = t.imageHandles (movedFrom idx t'.imageCount i)) ∧
      t'.images t'.imageCount = ImageEntry.default ∧
      ∀ i, t.imageCount ≤ i → t'.images i = t.images i := by
  obtain ⟨last, hlast⟩ : ∃ last, t.imageCount = last + 1 := ⟨t.imageCount - 1, by omega⟩
  rw [compact]
  dsimp only
  rw [show t.imageCount - 1 = last by omega]
  by_cases hsame : idx = last
  · rw [if_neg (not_not.mpr hsame)]
    have hkept : ∀ i, i ≠ last →
        Function.update t.images last ImageEntry.default i = t.images i := fun i hi =>
      Function.update_of_ne hi _ _
    have hnumbers : Indexed t.images t.imageIndex (· < last) :=
      hindexed.congr_numbers fun i => by omega
    refine ⟨_, rfl, hlast.symm, ⟨rfl, rfl, rfl⟩, hnumbers.congr fun i hi => ?_, fun i hi => ?_,
      Function.update_self .., fun i hi => hkept i (by omega)⟩
    · dsimp only
      rw [hkept i (Nat.ne_of_lt hi)]
      exact ⟨rfl, rfl⟩
    · have hne : i ≠ last := Nat.ne_of_lt hi
      rw [movedFrom, if_neg (hsame ▸ hne)]
      exact ⟨hkept i hne, rfl⟩
  · rw [if_pos hsame]
    -- the last image leaves the index and comes back under the number of the free slot
    have hown : (t.images last).hasIds (t.images last).sessionId (t.images last).streamId = true :=
      ImageEntry.hasIds_iff.mpr ⟨rfl, rfl⟩
    obtain ⟨index, hremove, hremoved⟩ := hindexed.remove ⟨Ne.symm hsame, by omega⟩ hown
    rw [hremove]
    set images := Function.update t.images idx (t.images last) with himages
    have hother : ∀ i, i ≠ idx → images i = t.images i := fun i hi => Function.update_of_ne hi _ _
    have hmoved : images idx = t.images last := Function.update_self ..
    have hkept : ∀ i, i ≠ last →
        Function.update images last ImageEntry.default i = images i := fun i hi =>
      Function.update_of_ne hi _ _
    have hinserted : Indexed images (insertImageIndex index idx (images idx).sessionId
        (images idx).streamId) (· < last) := by
      have hrest : Indexed images index fun i => i ≠ last ∧ i ≠ idx ∧ i < t.imageCount :=
        hremoved.congr fun i hi => by rw [hother i hi.2.1]; exact ⟨rfl, rfl⟩
      have hinsert := hrest.insert (show last < maxImageSlots by omega) (fun j hj => by omega)
        (fun hj : idx ≠ last ∧ idx ≠ idx ∧ idx < t.imageCount => hj.2.1 rfl) fun j hj => by
          rw [hother j hj.2.1, hmoved, ← Bool.not_eq_true]
          exact fun hids => hj.1 (hindexed.distinct j last hj.2 ⟨Ne.symm hsame, by omega⟩ hids)
      exact hinsert.congr_numbers fun j => by omega
    rw [hmoved] at hinserted
    refine ⟨_, rfl, hlast.symm, ⟨rfl, rfl, rfl⟩, hinserted.congr fun i hi => ?_, fun i hi => ?_,
      Function.update_self .., fun i hi => ?_⟩
    · dsimp only
      rw [hkept i (Nat.ne_of_lt hi)]
      exact ⟨rfl, rfl⟩
    · have hne : i ≠ last := Nat.ne_of_lt hi
      dsimp only
      rw [hkept i hne, Function.update_of_ne hne, movedFrom]
      by_cases hi' : i = idx
      · rw [if_pos hi', hi', hmoved, Function.update_self]
        exact ⟨rfl, rfl⟩
      · rw [if_neg hi', hother i hi', Function.update_of_ne hi']
        exact ⟨rfl, rfl⟩
    · exact (hkept i (by omega)).trans (hother i (by omega))

/-- **The table is a map** from ids to the live images. -/
structure IsMap (t : ImageTable) (l : LiveImages) : Prop where
  /-- Exactly the live images are found. -/
  found : ∀ sessionId streamId, (t.find sessionId streamId).isSome = true ↔
    ∃ c ∈ l.live, c.entry.hasIds sessionId streamId = true
  /-- Each is found in the one slot that has the entry and the handle its setup created. -/
  slot : ∀ c ∈ l.live, ∃ i, t.find c.entry.sessionId c.entry.streamId = some i ∧ t.Holds i c ∧
    ∀ j, (t.images j).active = true →
      (t.images j).hasIds c.entry.sessionId c.entry.streamId = true → j = i
  /-- The images fill the first slots. -/
  active : ∀ i, (t.images i).active = true ↔ i < t.imageCount
  count : t.imageCount = l.live.length ∧ t.imageCount ≤ t.maxImages
  /-- The handles of the removed images are closed, and no others. -/
  closed : t.closed = l.closed
  /-- A removal ends, its ids are no longer found, and all others are found as before. -/
  removes : ∀ sessionId streamId, ∃ t', t.removeImage sessionId streamId =
      some (t', (t.find sessionId streamId).isSome) ∧ t'.find sessionId streamId = none ∧
    ∀ session stream, (session, stream) ≠ (sessionId, streamId) →
      (t'.find session stream).isSome = (t.find session stream).isSome ∧
      ∀ i, t.find session stream = some i → ∃ i', t'.find session stream = some i' ∧
        t'.images i' = t.images i ∧ t'.imageHandles i' = t.imageHandles i

/-- **A table without the image of one slot of another.** -/
structure Without (t' t : ImageTable) (idx : Nat) : Prop where
  count : t'.imageCount + 1 = t.imageCount
  maxImages : t'.maxImages = t.maxImages
  created : t'.created = t.created
  indexed : Indexed t'.images t'.imageIndex (· < t'.imageCount)
  into : ∀ i, i < t'.imageCount → ∃ j, j < t.imageCount ∧ j ≠ idx ∧
    t'.images i = t.images j ∧ t'.imageHandles i = t.imageHandles j
  onto : ∀ j, j < t.imageCount → j ≠ idx → ∃ i, i < t'.imageCount ∧
    t'.images i = t.images j ∧ t'.imageHandles i = t.imageHandles j
  inactive : ∀ i, t'.imageCount ≤ i → (t'.images i).active = false

theorem maxImages_onSetup (handler : InlineHandler) (t : ImageTable) (setup : SetupHeader)
    (source : SockAddr) : (t.onSetup handler setup source).maxImages = t.maxImages := by
  rw [onSetup]
  split_ifs
  · cases ImageState.onSetup handler setup source with
    | none => rfl
    | some s => rfl
  · rfl

namespace Refines

variable {t : ImageTable} {l : LiveImages} {sessionId streamId : BitVec 32} {idx : Nat}

/-- A live image is found, in the slot that holds it. -/
theorem find_eq_some (h : t.Refines l) {i : Nat} (hi : i < t.imageCount)
    (hids : (t.images i).hasIds sessionId streamId = true) :
    t.find sessionId streamId = some i :=
  h.indexed.find_eq_some hi ((h.active i).mpr hi) hids

theorem find_eq_none_iff (h : t.Refines l) (sessionId streamId : BitVec 32) :
    t.find sessionId streamId = none ↔
      ∀ c ∈ l.live, c.entry.hasIds sessionId streamId = false := by
  constructor
  · intro hnone c hc
    obtain ⟨i, hi, hentry, -⟩ := h.placed c hc
    by_contra hids
    rw [Bool.not_eq_false, ← hentry] at hids
    rw [h.find_eq_some hi hids] at hnone
    cases hnone
  · intro hall
    refine h.indexed.find_eq_none fun i hi => ?_
    obtain ⟨c, hc, hentry, -⟩ := h.held i hi
    rw [hentry]
    exact hall c hc

/-- A new image goes to the first free slot. -/
theorem addImage (h : t.Refines l) {handler : InlineHandler} {setup : SetupHeader}
    {source : SockAddr} {s : ImageState}
    (hcreate : ImageState.onSetup handler setup source = some s)
    (hall : ∀ c ∈ l.live, c.entry.hasIds setup.sessionId setup.streamId = false)
    (hlt : t.imageCount < t.maxImages) :
    (t.addImage setup s).Refines
      { l with
        live := l.live ++ [⟨s.entry, l.created, s.image⟩]
        created := l.created + 1 } := by
  obtain ⟨hsession, hstream, hactive⟩ := ImageState.onSetup_ids hcreate
  have hmax := t.maxImages_le
  have hcount : (t.addImage setup s).imageCount = t.imageCount + 1 := rfl
  -- the slot behind the last image is the only one that changes
  have himage : ∀ i, i < t.imageCount → (t.addImage setup s).images i = t.images i := fun i hi =>
    Function.update_of_ne (Nat.ne_of_lt hi) _ _
  have hhandle : ∀ i, i < t.imageCount →
      (t.addImage setup s).imageHandles i = t.imageHandles i := fun i hi =>
    Function.update_of_ne (Nat.ne_of_lt hi) _ _
  have hlast : (t.addImage setup s).Holds t.imageCount ⟨s.entry, l.created, s.image⟩ := by
    refine ⟨Function.update_self .., ?_⟩
    rw [← h.created_eq]
    exact Function.update_self ..
  -- no image has the ids yet, so the probe for them ends at an empty slot
  have hnew : ∀ i, i < t.imageCount →
      (t.images i).hasIds s.entry.sessionId s.entry.streamId = false := fun i hi => by
    obtain ⟨c, hc, hentry, -⟩ := h.held i hi
    rw [hentry, hsession, hstream]
    exact hall c hc
  refine ⟨?_, hlt, ?_, fun i => ?_, fun i hi => ?_, fun c hc => ?_, ?_, ?_, h.closed_eq⟩
  · rw [hcount, h.count_eq, List.length_append]
    rfl
  · have hkept : Indexed (t.addImage setup s).images t.imageIndex (· < t.imageCount) :=
      h.indexed.congr fun i hi => by rw [himage i hi]; exact ⟨rfl, rfl⟩
    have hinsert := hkept.insert (Nat.lt_of_lt_of_le hlt hmax) (fun j hj => hj)
      (Nat.lt_irrefl t.imageCount) fun j hj => by
        rw [himage j hj, hlast.1]
        exact hnew j hj
    rw [hlast.1, hsession, hstream] at hinsert
    exact hinsert.congr_numbers fun j => by rw [hcount]; omega
  · rw [hcount]
    by_cases hi : i = t.imageCount
    · rw [hi, hlast.1]
      exact ⟨fun _ => Nat.lt_succ_self _, fun _ => hactive⟩
    · rw [show (t.addImage setup s).images i = t.images i from Function.update_of_ne hi _ _, h.active]
      omega
  · by_cases hi' : i = t.imageCount
    · exact ⟨_, List.mem_append_right _ List.mem_cons_self, hi' ▸ hlast⟩
    · have hold : i < t.imageCount := by rw [hcount] at hi; omega
      obtain ⟨c, hc, hentry, hhold⟩ := h.held i hold
      exact ⟨c, List.mem_append_left _ hc, (himage i hold).trans hentry,
        (hhandle i hold).trans hhold⟩
  · rcases List.mem_append.mp hc with hold | hlast'
    · obtain ⟨i, hi, hentry, hhold⟩ := h.placed c hold
      exact ⟨i, Nat.lt_succ_of_lt hi, (himage i hi).trans hentry, (hhandle i hi).trans hhold⟩
    · obtain rfl := List.mem_singleton.mp hlast'
      exact ⟨t.imageCount, Nat.lt_succ_self _, hlast⟩
  · refine List.pairwise_append.mpr ⟨h.distinct, List.pairwise_singleton _ _, fun c hc d hd => ?_⟩
    obtain rfl := List.mem_singleton.mp hd
    rw [hsession, hstream]
    exact hall c hc
  · exact congrArg (· + 1) h.created_eq

/-- **A setup frame.** -/
theorem onSetup (h : t.Refines l) (handler : InlineHandler) (setup : SetupHeader)
    (source : SockAddr) :
    (t.onSetup handler setup source).Refines (l.step t.maxImages (.setup handler setup source)) := by
  have hnone := h.find_eq_none_iff setup.sessionId setup.streamId
  rw [ImageTable.onSetup, LiveImages.step]
  by_cases hfree : (t.find setup.sessionId setup.streamId).isNone ∧ t.imageCount < t.maxImages
  · have hall := hnone.mp (Option.isNone_iff_eq_none.mp hfree.1)
    rw [if_pos hfree, if_pos ⟨hall, h.count_eq ▸ hfree.2⟩]
    cases hcreate : ImageState.onSetup handler setup source with
    | none => exact h
    | some s => exact h.addImage hcreate hall hfree.2
  · rw [if_neg hfree, if_neg]
    · exact h
    · rintro ⟨hall, hlt⟩
      exact hfree ⟨Option.isNone_iff_eq_none.mpr (hnone.mpr hall), h.count_eq ▸ hlt⟩

theorem filter_eq (h : t.Refines l) {c : CreatedImage} (hc : c ∈ l.live)
    (hids : c.entry.hasIds sessionId streamId = true) :
    (l.live.filter fun d => d.entry.hasIds sessionId streamId) = [c] ∧
      (l.live.filter fun d => !d.entry.hasIds sessionId streamId).length + 1 = l.live.length := by
  refine filter_eq_singleton (h.distinct.imp fun {a b} hab ha hb => ?_) hc hids
  obtain ⟨hsession, hstream⟩ := ImageEntry.hasIds_iff.mp hb
  rw [hsession, hstream, ha] at hab
  cases hab

theorem unlink (h : t.Refines l) (hidx : idx < t.imageCount) {c : CreatedImage} (hc : t.Holds idx c)
    (hids : c.entry.hasIds sessionId streamId = true) :
    ∃ t', t.unlink idx sessionId streamId = some t' ∧
      (t'.imageCount = t.imageCount ∧ t'.maxImages = t.maxImages ∧ t'.created = t.created ∧
        t'.closed = t.closed ++ [c.handle.id]) ∧
      Indexed t'.images t'.imageIndex (fun j => j ≠ idx ∧ j < t.imageCount) ∧
      ∀ i, i ≠ idx → t'.images i = t.images i ∧ t'.imageHandles i = t.imageHandles i := by
  obtain ⟨hentry, hhandle⟩ := hc
  obtain ⟨index, hremove, hindexed⟩ := h.indexed.remove hidx (hentry ▸ hids)
  rw [ImageTable.unlink, hremove]
  refine ⟨_, rfl, ⟨rfl, rfl, rfl, ?_⟩, hindexed.congr fun i hi => ?_, fun i hi => ?_⟩
  · rw [hhandle]
    rfl
  · dsimp only
    rw [Function.update_of_ne hi.1]
    exact ⟨rfl, rfl⟩
  · exact ⟨Function.update_of_ne hi _ _, Function.update_of_ne hi _ _⟩

/-- **`remove_image` ends**, with the images of all other slots. -/
theorem exists_without (h : t.Refines l) (hidx : idx < t.imageCount) {c : CreatedImage}
    (hc : t.Holds idx c) (hids : c.entry.hasIds sessionId streamId = true) :
    ∃ t', t.removeImage sessionId streamId = some (t', true) ∧ t'.Without t idx ∧
      t'.closed = t.closed ++ [c.handle.id] := by
  have hle := Nat.le_trans h.count_le t.maxImages_le
  -- first the index forgets the image, then the last image takes its number
  obtain ⟨t₁, hunlink, ⟨hcount₁, hmax₁, hcreated₁, hclosed₁⟩, hindexed₁, hkept₁⟩ :=
    h.unlink hidx hc hids
  obtain ⟨t', hcompact, hcount, ⟨hmax, hcreated, hclosed⟩, hindexed, hmoved, hlast, hbeyond⟩ :=
    compact_eq (hcount₁ ▸ hidx) (hcount₁ ▸ hle) (hcount₁ ▸ hindexed₁)
  rw [hcount₁] at hcount hbeyond
  refine ⟨t', ?_, ⟨hcount, hmax.trans hmax₁, hcreated.trans hcreated₁, hindexed, fun i hi => ?_,
    fun j hj hne => ?_, fun i hi => ?_⟩, hclosed.trans hclosed₁⟩
  · rw [ImageTable.removeImage, h.find_eq_some hidx (hc.1 ▸ hids)]
    dsimp only
    rw [hunlink]
    simp only [Option.bind_eq_bind, Option.bind_some]
    rw [hcompact]
    rfl
  · obtain ⟨himage, hhandle⟩ := hmoved i hi
    have hne : movedFrom idx t'.imageCount i ≠ idx := by
      rw [movedFrom]
      split_ifs <;> omega
    refine ⟨movedFrom idx t'.imageCount i, ?_, hne, himage.trans (hkept₁ _ hne).1,
      hhandle.trans (hkept₁ _ hne).2⟩
    rw [movedFrom]
    split_ifs <;> omega
  · have hfrom : ∀ i, i < t'.imageCount → movedFrom idx t'.imageCount i = j →
        t'.images i = t.images j ∧ t'.imageHandles i = t.imageHandles j := fun i hi heq => by
      obtain ⟨himage, hhandle⟩ := hmoved i hi
      rw [heq] at himage hhandle
      exact ⟨himage.trans (hkept₁ j hne).1, hhandle.trans (hkept₁ j hne).2⟩
    -- the last image is found under the number that became free
    by_cases hj' : j = t'.imageCount
    · exact ⟨idx, by omega, hfrom idx (by omega) (by rw [movedFrom, if_pos rfl, hj'])⟩
    · exact ⟨j, by omega, hfrom j (by omega) (by rw [movedFrom, if_neg hne])⟩
  · by_cases hi' : i = t'.imageCount
    · rw [hi', hlast]
      rfl
    · rw [hbeyond i (by omega), (hkept₁ i (by omega)).1, ← Bool.not_eq_true, h.active]
      omega

theorem without (h : t.Refines l) (hidx : idx < t.imageCount) {c : CreatedImage} (hmem : c ∈ l.live)
    (hc : t.Holds idx c) (hids : c.entry.hasIds sessionId streamId = true) {t' : ImageTable}
    (hwithout : t'.Without t idx) (hclosed : t'.closed = t.closed ++ [c.handle.id]) :
    t'.Refines (l.step t.maxImages (.remove sessionId streamId)) := by
  obtain ⟨hfilter, hlength⟩ := h.filter_eq hmem hids
  have hcount := hwithout.count
  -- the ids are distinct, so the filter drops exactly the image with the number
  have hothers : ∀ j d, j < t.imageCount → t.Holds j d →
      (j ≠ idx ↔ d.entry.hasIds sessionId streamId = false) := fun j d hj hd => by
    rw [← Bool.not_eq_true, ← hd.1, not_iff_not]
    constructor
    · rintro rfl
      exact hc.1 ▸ hids
    · intro hids'
      obtain ⟨hsession, hstream⟩ := ImageEntry.hasIds_iff.mp (hc.1 ▸ hids)
      apply h.indexed.distinct j idx hj hidx
      rwa [hsession, hstream]
  rw [LiveImages.step, hfilter]
  refine ⟨?_, ?_, hwithout.indexed, fun i => ?_, fun i hi => ?_, fun d hd => ?_, ?_, ?_, ?_⟩
  · have := h.count_eq
    dsimp only
    omega
  · have := h.count_le
    rw [hwithout.maxImages]
    omega
  · constructor
    · intro hactive
      by_contra hle
      rw [hwithout.inactive i (Nat.le_of_not_lt hle)] at hactive
      cases hactive
    · intro hi
      obtain ⟨j, hj, -, himage, -⟩ := hwithout.into i hi
      rw [himage, h.active]
      exact hj
  · obtain ⟨j, hj, hne, himage, hhandle⟩ := hwithout.into i hi
    obtain ⟨d, hd, hentry, hhold⟩ := h.held j hj
    have hout := (hothers j d hj ⟨hentry, hhold⟩).mp hne
    exact ⟨d, List.mem_filter.mpr ⟨hd, by rw [hout]; rfl⟩, himage.trans hentry,
      hhandle.trans hhold⟩
  · obtain ⟨hd, hout⟩ := List.mem_filter.mp hd
    obtain ⟨j, hj, hentry, hhold⟩ := h.placed d hd
    have hne := (hothers j d hj ⟨hentry, hhold⟩).mpr (by simpa using hout)
    obtain ⟨i, hi, himage, hhandle⟩ := hwithout.onto j hj hne
    exact ⟨i, hi, himage.trans hentry, hhandle.trans hhold⟩
  · exact h.distinct.filter _
  · exact hwithout.created.trans h.created_eq
  · rw [hclosed, h.closed_eq]
    rfl

/-- **A removal.** -/
theorem removeImage (h : t.Refines l) (sessionId streamId : BitVec 32) :
    ∃ t', t.removeImage sessionId streamId =
        some (t', l.live.any fun c => c.entry.hasIds sessionId streamId) ∧
      t'.maxImages = t.maxImages ∧ t'.Refines (l.step t.maxImages (.remove sessionId streamId)) := by
  cases hany : l.live.any fun c => c.entry.hasIds sessionId streamId with
  | false =>
      rw [List.any_eq_false] at hany
      have hall : ∀ c ∈ l.live, c.entry.hasIds sessionId streamId = false := fun c hc =>
        Bool.eq_false_iff.mpr (hany c hc)
      rw [ImageTable.removeImage, (h.find_eq_none_iff sessionId streamId).mpr hall]
      refine ⟨t, rfl, rfl, ?_⟩
      have hsame : l.step t.maxImages (.remove sessionId streamId) = l := by
        rw [LiveImages.step, List.filter_eq_self.mpr fun c hc => by rw [hall c hc]; rfl,
          List.filter_eq_nil_iff.mpr hany, List.map_nil, List.append_nil]
      rw [hsame]
      exact h
  | true =>
      obtain ⟨c, hc, hids⟩ := List.any_eq_true.mp hany
      obtain ⟨idx, hidx, hholds⟩ := h.placed c hc
      obtain ⟨t', hremove, hwithout, hclosed⟩ := h.exists_without hidx hholds hids
      exact ⟨t', hremove, hwithout.maxImages, h.without hidx hc hholds hids hwithout hclosed⟩

/-- **A call.** -/
theorem step (h : t.Refines l) (call : TableCall) :
    ∃ t', t.step call = some t' ∧ t'.maxImages = t.maxImages ∧
      t'.Refines (l.step t.maxImages call) := by
  cases call with
  | setup handler setup source =>
      exact ⟨_, rfl, t.maxImages_onSetup handler setup source, h.onSetup handler setup source⟩
  | remove sessionId streamId =>
      obtain ⟨t', hremove, hmax, hrefines⟩ := h.removeImage sessionId streamId
      refine ⟨t', ?_, hmax, hrefines⟩
      rw [ImageTable.step, hremove]
      rfl

/-- **Any calls.** -/
theorem run (h : t.Refines l) (calls : List TableCall) :
    ∃ t', calls.foldlM ImageTable.step t = some t' ∧
      t'.Refines (Runs.run (LiveImages.step t.maxImages) l calls) := by
  induction calls generalizing t l with
  | nil => exact ⟨t, rfl, h⟩
  | cons call calls ih =>
      obtain ⟨t₁, hstep, hmax, hrefines⟩ := h.step call
      obtain ⟨t', hrun, hrefines'⟩ := ih hrefines
      refine ⟨t', ?_, ?_⟩
      · rw [List.foldlM_cons, hstep]
        exact hrun
      · rw [hmax] at hrefines'
        exact hrefines'

theorem find_eq_some_iff (h : t.Refines l) {i : Nat} :
    t.find sessionId streamId = some i ↔
      i < t.imageCount ∧ (t.images i).hasIds sessionId streamId = true := by
  refine ⟨fun hfind => ?_, fun ⟨hi, hids⟩ => h.find_eq_some hi hids⟩
  have hsome : ¬ ∀ c ∈ l.live, c.entry.hasIds sessionId streamId = false := fun hall => by
    rw [(h.find_eq_none_iff sessionId streamId).mpr hall] at hfind
    cases hfind
  push Not at hsome
  obtain ⟨c, hc, hids⟩ := hsome
  obtain ⟨j, hj, hentry, -⟩ := h.placed c hc
  rw [Bool.ne_false_iff, ← hentry] at hids
  obtain rfl := Option.some.inj ((h.find_eq_some hj hids).symm.trans hfind)
  exact ⟨hj, hids⟩

theorem find_isSome_iff (h : t.Refines l) (sessionId streamId : BitVec 32) :
    (t.find sessionId streamId).isSome = true ↔
      ∃ c ∈ l.live, c.entry.hasIds sessionId streamId = true := by
  rw [← not_iff_not, Option.not_isSome_iff_eq_none, h.find_eq_none_iff]
  simp

/-- **A removal leaves all other images.** -/
theorem removes (h : t.Refines l) (sessionId streamId : BitVec 32) :
    ∃ t', t.removeImage sessionId streamId =
        some (t', (t.find sessionId streamId).isSome) ∧ t'.find sessionId streamId = none ∧
      ∀ session stream, (session, stream) ≠ (sessionId, streamId) →
        (t'.find session stream).isSome = (t.find session stream).isSome ∧
        ∀ i, t.find session stream = some i → ∃ i', t'.find session stream = some i' ∧
          t'.images i' = t.images i ∧ t'.imageHandles i' = t.imageHandles i := by
  obtain ⟨t', hremove, -, h'⟩ := h.removeImage sessionId streamId
  have hlive : ∀ c, c ∈ (l.step t.maxImages (.remove sessionId streamId)).live ↔
      c ∈ l.live ∧ c.entry.hasIds sessionId streamId = false := fun c => by
    rw [LiveImages.step, List.mem_filter, Bool.not_eq_true']
  refine ⟨t', ?_, (h'.find_eq_none_iff _ _).mpr fun c hc => ((hlive c).mp hc).2,
    fun session stream hne => ?_⟩
  · rw [hremove, Bool.eq_iff_iff.mpr ((h.find_isSome_iff sessionId streamId).trans
      List.any_eq_true.symm)]
  · -- an image with other ids is not removed
    have hstays : ∀ c ∈ l.live, c.entry.hasIds session stream = true →
        c ∈ (l.step t.maxImages (.remove sessionId streamId)).live := fun c hc hids => by
      refine (hlive c).mpr ⟨hc, ?_⟩
      rw [← Bool.not_eq_true, ImageEntry.hasIds_iff]
      rintro ⟨hsession, hstream⟩
      obtain ⟨hsession', hstream'⟩ := ImageEntry.hasIds_iff.mp hids
      exact hne (by rw [← hsession, ← hstream, hsession', hstream'])
    refine ⟨?_, fun i hi => ?_⟩
    · rw [Bool.eq_iff_iff, h'.find_isSome_iff, h.find_isSome_iff]
      exact ⟨fun ⟨c, hc, hids⟩ => ⟨c, ((hlive c).mp hc).1, hids⟩,
        fun ⟨c, hc, hids⟩ => ⟨c, hstays c hc hids, hids⟩⟩
    · obtain ⟨hi, hids⟩ := h.find_eq_some_iff.mp hi
      obtain ⟨c, hc, hentry, hhandle⟩ := h.held i hi
      rw [hentry] at hids
      obtain ⟨i', hi', hentry', hhandle'⟩ := h'.placed c (hstays c hc hids)
      exact ⟨i', h'.find_eq_some hi' (hentry' ▸ hids), hentry'.trans hentry.symm,
        hhandle'.trans hhandle.symm⟩

/-- **A table that is the live images is a map.** -/
theorem isMap (h : t.Refines l) : t.IsMap l where
  found := h.find_isSome_iff
  slot := fun c hc => by
    obtain ⟨i, hi, hholds⟩ := h.placed c hc
    have hown : (t.images i).hasIds c.entry.sessionId c.entry.streamId = true := by
      rw [hholds.1]
      exact ImageEntry.hasIds_iff.mpr ⟨rfl, rfl⟩
    refine ⟨i, h.find_eq_some hi hown, hholds, fun j hactive hids => ?_⟩
    rw [← hholds.1] at hids
    exact h.indexed.distinct j i ((h.active j).mp hactive) hi hids
  active := h.active
  count := ⟨h.count_eq, h.count_le⟩
  closed := h.closed_eq
  removes := h.removes

end Refines

end ImageTable

/-- **The image table is a finite map.** After any setup frames and removals, with any maximum number
of images and also when all slots are taken, every call has ended and the table is the map of the
images that were created and not removed since. -/
theorem image_table_is_map (maxReceiverImages : Nat) (calls : List TableCall) :
    ∃ t, calls.foldlM ImageTable.step (.new maxReceiverImages) = some t ∧
      t.IsMap (Runs.run (LiveImages.step (min maxReceiverImages maxImageSlots)) .start calls) := by
  obtain ⟨t, hrun, hrefines⟩ := (ImageTable.refines_new maxReceiverImages).run calls
  exact ⟨t, hrun, hrefines.isMap⟩

/-- Two images are created, an invalid setup frame creates none, and the first is removed: the second
is found in its slot. -/
example :
    let setup : BitVec 32 → BitVec 32 → TableCall := fun streamId termLength =>
      .setup ⟨1, 0, [], false, none⟩ ⟨⟨40, currentVersion, 0, frameTypeSetup⟩, 0, 7, streamId, 5, 5,
        termLength, 1408, 0⟩ ⟨2, []⟩
    ([setup 1 64, setup 3 48, setup 2 64, .remove 7 1].foldlM ImageTable.step (.new 2)).map
      (fun t => (t.find 7 1, t.find 7 2, t.find 7 3)) = some (none, some 0, none) := by
  decide +kernel

end AeronRs
