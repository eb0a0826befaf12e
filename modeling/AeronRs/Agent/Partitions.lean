import AeronRs.Agent.OnData
import AeronRs.Lib.RingWindow
import Mathlib.Data.BitVec

/-! # One term in each partition

The four partitions of an image hold the active term and the three before it. **`windowTerm`** is the
term of a partition. A rotation cleans exactly the partitions whose term changes
(`rotated_clean_iff`), for jumps of any size and term ids that wrap around.

To say which term a byte came from, the log is kept a second time with every byte tagged by the term
of its frame (**`TaggedLog`**): the same writes, so without the tags it is the log of the image. -/

namespace AeronRs

open Runs

/-! ## The terms of the partitions -/

theorem partitionIndex_eq_mod (termId initialTermId : BitVec 32) :
    partitionIndex termId initialTermId = (termId - initialTermId).toNat % 4 := by
  rw [partitionIndex, show (3 : Nat) = 2 ^ 2 - 1 by norm_num, Nat.and_two_pow_sub_one_eq_mod]

/-- How many terms behind the active one the term of partition `p` is. -/
def termsBehind (active initial : BitVec 32) (p : Nat) : Nat :=
  ((active - initial).toNat + (4 - p)) % 4

def windowTerm (active initial : BitVec 32) (p : Nat) : BitVec 32 :=
  active - BitVec.ofNat 32 (termsBehind active initial p)

theorem termsBehind_lt (active initial : BitVec 32) (p : Nat) : termsBehind active initial p < 4 :=
  Nat.mod_lt _ (by norm_num)

/-- **The term of a partition** is one of the last four, and lies in the partition. -/
theorem windowTerm_spec (active initial : BitVec 32) {p : Nat} (hp : p < 4) :
    (active - windowTerm active initial p).toNat < 4 ∧
      partitionIndex (windowTerm active initial p) initial = p := by
  have hlt := termsBehind_lt active initial p
  have hd : termsBehind active initial p = ((active - initial).toNat + (4 - p)) % 4 := rfl
  rw [partitionIndex_eq_mod, windowTerm]
  generalize termsBehind active initial p = d at *
  constructor
  · bv_omega
  · bv_omega

theorem eq_windowTerm {active initial t : BitVec 32} (h : (active - t).toNat < 4) :
    t = windowTerm active initial (partitionIndex t initial) := by
  have hd : termsBehind active initial (partitionIndex t initial) =
      ((active - initial).toNat + (4 - (t - initial).toNat % 4)) % 4 := by
    rw [termsBehind, partitionIndex_eq_mod]
  rw [windowTerm, hd]
  bv_omega

theorem partitionIndex_add_word (active initial : BitVec 32) (s : Nat) :
    partitionIndex (active + BitVec.ofNat 32 s) initial = ((active - initial).toNat + s) % 4 := by
  have hsub : active + BitVec.ofNat 32 s - initial = active - initial + BitVec.ofNat 32 s :=
    add_sub_right_comm _ _ _
  rw [partitionIndex_eq_mod, hsub, BitVec.toNat_add, BitVec.toNat_ofNat]
  omega

theorem termsBehind_add (active initial : BitVec 32) {p : Nat} (_ : p < 4) (k : Nat) :
    termsBehind (active + BitVec.ofNat 32 k) initial p =
      (termsBehind active initial p + k) % 4 := by
  have hindex := partitionIndex_add_word active initial k
  rw [partitionIndex_eq_mod] at hindex
  unfold termsBehind
  omega

/-- The term of a partition stays the same as long as it is among the last four. -/
theorem windowTerm_add_eq_iff (active initial : BitVec 32) {p k : Nat} (hp : p < 4)
    (hk : k < 2 ^ 30) :
    windowTerm (active + BitVec.ofNat 32 k) initial p = windowTerm active initial p ↔
      termsBehind active initial p + k < 4 := by
  have hlt := termsBehind_lt active initial p
  unfold windowTerm
  rw [termsBehind_add active initial hp]
  generalize termsBehind active initial p = d at *
  have hcancel : active + BitVec.ofNat 32 k - BitVec.ofNat 32 ((d + k) % 4) =
      active - BitVec.ofNat 32 d ↔
      BitVec.ofNat 32 (k + d) = BitVec.ofNat 32 ((d + k) % 4) := by
    rw [sub_eq_sub_iff_add_eq_add, add_assoc, add_right_inj, BitVec.ofNat_add]
  rw [hcancel]
  constructor
  · intro h
    have hnat := congrArg BitVec.toNat h
    rw [BitVec.toNat_ofNat, BitVec.toNat_ofNat] at hnat
    omega
  · intro h
    rw [Nat.mod_eq_of_lt h, Nat.add_comm]

/-- **A step to a later term** changes the terms of exactly the partitions that it enters on the
way. -/
theorem windowTerm_step (active initial : BitVec 32) {p k : Nat} (hp : p < 4) (hk : k < 2 ^ 30) :
    windowTerm (active + BitVec.ofNat 32 k) initial p ≠ windowTerm active initial p ↔
      ∃ s, 1 ≤ s ∧ s ≤ min k 4 ∧ partitionIndex (active + BitVec.ofNat 32 s) initial = p := by
  rw [Ne, windowTerm_add_eq_iff active initial hp hk]
  have hd : termsBehind active initial p = ((active - initial).toNat + (4 - p)) % 4 := rfl
  constructor
  · intro hout
    -- the partition is entered when as many terms are left as it is behind
    refine ⟨4 - termsBehind active initial p, by omega, by omega, ?_⟩
    rw [partitionIndex_add_word]
    omega
  · rintro ⟨s, hs, hle, hindex⟩
    rw [partitionIndex_add_word] at hindex
    omega

/-! ## What a rotation cleans -/

namespace ImageEntry

/-- The partitions that a rotation for a frame of a term cleans. -/
def cleanedBy (img : ImageEntry) (termId : BitVec 32) : List Nat :=
  if img.IsAhead termId then
    (List.range' 1 (min (termId - img.activeTermId).toNat partitionCount)).map fun s =>
      partitionIndex (img.activeTermId + BitVec.ofNat 32 s) img.initialTermId
  else []

theorem cleanTerms_buffer (img : ImageEntry) (inner : ImageInner) (terms : List Nat) :
    (terms.foldl (fun inner s => ReceiverImage.cleanPartition inner
        (partitionIndex (img.activeTermId + BitVec.ofNat 32 s) img.initialTermId)) inner).log.buffer =
      (terms.map fun s => partitionIndex (img.activeTermId + BitVec.ofNat 32 s)
        img.initialTermId).foldl (cleanCells inner.log.termLength 0) inner.log.buffer := by
  induction terms generalizing inner with
  | nil => rfl
  | cons s terms ih =>
      have hclean : (ReceiverImage.cleanPartition inner
          (partitionIndex (img.activeTermId + BitVec.ofNat 32 s) img.initialTermId)).log =
          inner.log.withBuffer (cleanCells inner.log.termLength 0 inner.log.buffer
            (partitionIndex (img.activeTermId + BitVec.ofNat 32 s) img.initialTermId)) :=
        if_neg (Nat.not_le.mpr (partitionIndex_lt _ _))
      rw [List.foldl_cons, ih, hclean, List.map_cons, List.foldl_cons]
      rfl

/-- **The log after a rotation.** -/
theorem rotate_buffer (img : ImageEntry) (inner : ImageInner) (termId : BitVec 32) :
    (img.rotate inner termId).2.log.buffer =
      (img.cleanedBy termId).foldl (cleanCells inner.log.termLength 0) inner.log.buffer := by
  unfold rotate cleanedBy
  split_ifs
  · exact img.cleanTerms_buffer inner _
  · rfl

theorem IsAhead.exists_add {img : ImageEntry} {termId : BitVec 32} (h : img.IsAhead termId) :
    ∃ k, (termId - img.activeTermId).toNat = k ∧ 0 < k ∧ k < 2 ^ 30 ∧
      termId = img.activeTermId + BitVec.ofNat 32 k := by
  obtain ⟨hpos, hhalf⟩ := h
  unfold i32HalfMax at hhalf
  rw [BitVec.toInt_eq_toNat_cond] at hpos hhalf
  have hlt := (termId - img.activeTermId).isLt
  refine ⟨_, rfl, ?_, ?_, ?_⟩
  · split_ifs at hpos <;> omega
  · split_ifs at hpos hhalf <;> omega
  · rw [BitVec.ofNat_toNat, BitVec.setWidth_eq, add_sub_cancel]

/-- The active term after a rotation for a frame of a term. -/
def activeAfter (img : ImageEntry) (termId : BitVec 32) : BitVec 32 :=
  if img.IsAhead termId then termId else img.activeTermId

/-- **A partition is cleaned exactly if its term changes.** -/
theorem mem_cleanedBy_iff (img : ImageEntry) (termId : BitVec 32) {p : Nat} (hp : p < 4) :
    p ∈ img.cleanedBy termId ↔
      windowTerm (img.activeAfter termId) img.initialTermId p ≠
        windowTerm img.activeTermId img.initialTermId p := by
  unfold cleanedBy activeAfter
  by_cases hahead : img.IsAhead termId
  · obtain ⟨k, hk, -, hlt, hterm⟩ := hahead.exists_add
    rw [if_pos hahead, if_pos hahead, hk]
    conv_rhs => rw [hterm]
    rw [windowTerm_step img.activeTermId img.initialTermId hp hlt, List.mem_map]
    constructor
    · rintro ⟨s, hs, hindex⟩
      rw [List.mem_range'_1] at hs
      exact ⟨s, hs.1, by unfold partitionCount at hs; omega, hindex⟩
    · rintro ⟨s, hs, hle, hindex⟩
      exact ⟨s, List.mem_range'_1.mpr ⟨hs, by unfold partitionCount; omega⟩, hindex⟩
  · rw [if_neg hahead, if_neg hahead]
    simp

end ImageEntry

/-- **The log when the rotation is done.** -/
theorem ImageState.rotated_buffer (handler : InlineHandler) (s : ImageState) (header : DataHeader) :
    (s.rotated handler header).2.log.buffer =
      (s.entry.cleanedBy header.termId).foldl (cleanCells s.image.inner.log.termLength 0)
        s.image.inner.log.buffer := by
  have hnoted := (s.entry.noteGap handler header).1.rotate_buffer s.image.inner header.termId
  rw [s.entry.noteGap_fst handler header] at hnoted
  unfold rotated
  rw [s.entry.noteGap_fst handler header]
  exact hnoted

/-- **A stored frame is of the term of its partition.** -/
theorem ImageState.termId_of_stored {s : ImageState} {handler : InlineHandler} {f : ReceivedFrame}
    (hstored : s.stores handler f.header f.payload = true) :
    f.termId = windowTerm (s.entry.activeAfter f.termId) s.entry.initialTermId
      (partitionIndex f.termId s.entry.initialTermId) := by
  have hreach := ((s.stores_iff handler f.header f.payload).mp hstored).1
  have hbehind := (s.rotated_behind_iff handler f.header).mpr hreach
  rw [s.rotated_activeTermId handler f.header] at hbehind
  exact eq_windowTerm hbehind

/-! ## The tagged log -/

/-- **A log whose bytes are tagged** with the term of the frame that they came from. A byte that no
frame has written since its partition was cleaned has no tag. -/
abbrev TaggedLog := Nat → UInt8 × Option (BitVec 32)

def TaggedLog.writeFrame (m : TaggedLog) (termId : BitVec 32) (base : Nat) (bytes : List UInt8) :
    TaggedLog :=
  fun a => if base ≤ a ∧ a < base + bytes.length then (bytes.getD (a - base) 0, some termId) else m a

def TaggedLog.bytes (m : TaggedLog) : ByteStore := fun a => (m a).1

theorem TaggedLog.bytes_writeFrame (m : TaggedLog) (termId : BitVec 32) (base : Nat)
    (bs : List UInt8) : (m.writeFrame termId base bs).bytes = m.bytes.write base bs := by
  funext a
  unfold bytes writeFrame ByteStore.write
  rw [apply_ite Prod.fst]

structure PartitionRun where
  image : ImageState
  tagged : TaggedLog

/-- The bytes that `append_frame` leaves for a frame. -/
def ReceivedFrame.bytes (f : ReceivedFrame) : List UInt8 :=
  DataHeader.encode { f.header with
    frameHeader.frameLength := BitVec.ofNat 32 (32 + f.payload.length) } ++ f.payload

theorem ReceivedFrame.bytes_length (f : ReceivedFrame) : f.bytes.length = 32 + f.payload.length := by
  rw [bytes, List.length_append, DataHeader.encode_length]

namespace PartitionRun

/-- A new image, whose log no frame has written. -/
def start (image : ImageState) : PartitionRun := ⟨image, fun _ => (0, none)⟩

def termLength (s : PartitionRun) : Nat := s.image.image.inner.log.termLength

/-- The tagged log when the rotation for a frame is done. -/
def cleaned (s : PartitionRun) (f : ReceivedFrame) : TaggedLog :=
  (s.image.entry.cleanedBy f.termId).foldl (cleanCells s.termLength (0, none)) s.tagged

/-- `on_data`: the partitions are cleaned, and the frame is written if it is stored. -/
def step (s : PartitionRun) (a : InlineHandler × ReceivedFrame) : PartitionRun where
  image := (s.image.onData a.1 a.2.header a.2.payload).1
  tagged :=
    if s.image.stores a.1 a.2.header a.2.payload then
      (s.cleaned a.2).writeFrame a.2.termId
        (partitionIndex a.2.termId s.image.entry.initialTermId * s.termLength +
          a.2.header.termOffset.toNat) a.2.bytes
    else s.cleaned a.2

theorem bytes_cleaned {s : PartitionRun} (h : s.tagged.bytes = s.image.image.inner.log.buffer)
    (handler : InlineHandler) (f : ReceivedFrame) :
    (s.cleaned f).bytes = (s.image.rotated handler f.header).2.log.buffer := by
  rw [s.image.rotated_buffer handler f.header, ← h]
  exact comp_foldl_cleanCells Prod.fst _ _ _

/-- **The tagged log is the log**, with tags. -/
theorem bytes_step {s : PartitionRun} (h : s.tagged.bytes = s.image.image.inner.log.buffer)
    (a : InlineHandler × ReceivedFrame) :
    (s.step a).tagged.bytes = (s.step a).image.image.inner.log.buffer := by
  obtain ⟨handler, f⟩ := a
  unfold step
  dsimp only
  split_ifs with hstored
  · rw [TaggedLog.bytes_writeFrame, ImageState.buffer_of_stored hstored,
      ReceiverImage.storeFrame_eq, bytes_cleaned h handler f]
    rfl
  · rw [Bool.not_eq_true] at hstored
    rw [ImageState.onData_inner, ImageState.received_of_rejected hstored, bytes_cleaned h handler f]

def TagsInPlace (s : PartitionRun) : Prop :=
  ∀ p < partitionCount, ∀ o < s.termLength, ∀ t, (s.tagged (p * s.termLength + o)).2 = some t →
    t = windowTerm s.image.entry.activeTermId s.image.entry.initialTermId p

theorem tag_cleaned {s : PartitionRun} (h : s.TagsInPlace) (f : ReceivedFrame) {p o : Nat}
    (hp : p < partitionCount) (ho : o < s.termLength) {t : BitVec 32}
    (htag : (s.cleaned f (p * s.termLength + o)).2 = some t) :
    t = windowTerm (s.image.entry.activeAfter f.termId) s.image.entry.initialTermId p := by
  unfold cleaned at htag
  rw [foldl_cleanCells _ _ _ ho] at htag
  split_ifs at htag with hmem
  rw [s.image.entry.mem_cleanedBy_iff f.termId hp, not_not] at hmem
  rw [hmem]
  exact h p hp o ho t htag

/-- **No frame lands among bytes of another term.** -/
theorem tag_of_stored {s : PartitionRun} (h : s.TagsInPlace) {handler : InlineHandler}
    {f : ReceivedFrame} (hstored : s.image.stores handler f.header f.payload = true) {o : Nat}
    (ho : o < s.termLength) {t : BitVec 32}
    (htag : (s.cleaned f (partitionIndex f.termId s.image.entry.initialTermId * s.termLength +
      o)).2 = some t) : t = f.termId := by
  rw [tag_cleaned h f (partitionIndex_lt _ _) ho htag]
  exact (ImageState.termId_of_stored hstored).symm

theorem step_entry (s : PartitionRun) (a : InlineHandler × ReceivedFrame) :
    (s.step a).image.entry.activeTermId = s.image.entry.activeAfter a.2.termId ∧
      (s.step a).image.entry.initialTermId = s.image.entry.initialTermId ∧
      (s.step a).termLength = s.termLength := by
  obtain ⟨handler, f⟩ := a
  have hactive := s.image.rotated_activeTermId handler f.header
  have hinitial := s.image.rotated_initialTermId handler f.header
  have hlength := s.image.rotated_termLength handler f.header
  unfold step termLength
  dsimp only
  rw [ImageState.onData_entry, ImageState.onData_inner]
  cases hstored : s.image.stores handler f.header f.payload with
  | true =>
      rw [ImageState.received_of_stored hstored]
      refine ⟨hactive, hinitial, ?_⟩
      rw [ReceiverImage.advanceTo_log]
      exact hlength
  | false =>
      rw [ImageState.received_of_rejected hstored]
      exact ⟨hactive, hinitial, hlength⟩

/-- **Step.** A frame with an offset inside its term keeps the tags in place. -/
theorem tagsInPlace_step {s : PartitionRun} (h : s.TagsInPlace) (hT : s.termLength ≤ 2 ^ 30)
    {a : InlineHandler × ReceivedFrame} (hlo : 0 ≤ a.2.termOffset)
    (hhi : a.2.termOffset ≤ s.termLength) : (s.step a).TagsInPlace := by
  obtain ⟨hactive, hinitial, hlength⟩ := s.step_entry a
  obtain ⟨handler, f⟩ := a
  intro p hp o ho t htag
  rw [hlength] at ho htag
  rw [hactive, hinitial]
  unfold step at htag
  dsimp only at htag hlo hhi ⊢
  split_ifs at htag with hstored
  · obtain ⟨-, hfits⟩ := (s.image.stores_iff handler f.header f.payload).mp hstored
    -- the frame lies inside its partition
    obtain ⟨hoffset, -⟩ := ReceivedFrame.toNat_termOffset hlo
    have hbounds := f.alignedLength_bounds
    have hend : f.header.termOffset.toNat + f.alignedLength ≤ s.termLength := by
      unfold ImageState.FitsWord at hfits
      rwa [show alignFrameLength (32 + f.payload.length) = f.alignedLength from rfl,
        Nat.mod_eq_of_lt (by omega)] at hfits
    unfold TaggedLog.writeFrame at htag
    rw [f.bytes_length] at htag
    split_ifs at htag with hin
    · obtain rfl := Option.some.inj htag
      have hindex := (mem_partition_iff ho).mp (⟨by omega, by omega⟩ :
        partitionIndex f.termId s.image.entry.initialTermId * s.termLength ≤ p * s.termLength + o ∧
          p * s.termLength + o <
            partitionIndex f.termId s.image.entry.initialTermId * s.termLength + s.termLength)
      rw [← hindex]
      exact ImageState.termId_of_stored hstored
    · exact tag_cleaned h f hp ho htag
  · exact tag_cleaned h f hp ho htag

/-! ## Runs -/

/-- The term `t` is one of the last four and lies in partition `p`. -/
def TermOfPartition (img : ImageEntry) (p : Nat) (t : BitVec 32) : Prop :=
  (img.activeTermId - t).toNat < partitionCount ∧ partitionIndex t img.initialTermId = p

/-- **A partition never mixes terms**: in every run of data frames with any term ids and offsets
inside the term, the tagged log is the log of the image, each partition has exactly one term, every
byte that a frame has written to it came from that term, and a frame that is stored next finds no byte
of another term in its partition. -/
theorem partitions_hold_one_term {handler : InlineHandler} {setup : SetupHeader} {source : SockAddr}
    {image : ImageState} (hsetup : ImageState.onSetup handler setup source = some image)
    (as : List (InlineHandler × ReceivedFrame))
    (hoffsets : ∀ a ∈ as, 0 ≤ a.2.termOffset ∧ a.2.termOffset ≤ setup.termLength.toNat) :
    let s := run step (start image) as
    s.tagged.bytes = s.image.image.inner.log.buffer ∧
      (∀ p < partitionCount, (∃! t, TermOfPartition s.image.entry p t) ∧
        ∀ o < s.termLength, ∀ t, (s.tagged (p * s.termLength + o)).2 = some t →
          TermOfPartition s.image.entry p t) ∧
      ∀ handler f, s.image.stores handler f.header f.payload = true → ∀ o < s.termLength, ∀ t,
        (s.cleaned f (partitionIndex f.termId s.image.entry.initialTermId * s.termLength +
          o)).2 = some t → t = f.termId := by
  obtain ⟨hle, hlog, hbuffer, -⟩ := ImageRun.onSetup_spec hsetup
  -- the invariant: the bytes of the tagged log are those of the log, and every tag is in place
  have hinv := @run_invariant _ _
    (fun (_ : PartitionRun) (a : InlineHandler × ReceivedFrame) =>
      0 ≤ a.2.termOffset ∧ a.2.termOffset ≤ setup.termLength.toNat) step
    (fun s => s.tagged.bytes = s.image.image.inner.log.buffer ∧ s.TagsInPlace ∧
      s.termLength = setup.termLength.toNat)
    (fun s a h ha => by
      obtain ⟨hbytes, htags, hlen⟩ := h
      exact ⟨bytes_step hbytes a, tagsInPlace_step htags (by omega) ha.1 (by rw [hlen]; exact ha.2),
        (s.step_entry a).2.2.trans hlen⟩)
    (start image) ⟨by rw [start, hbuffer]; rfl, (fun p _ o _ t ht => by cases ht), hlog⟩ as
    (meets_of_forall hoffsets)
  obtain ⟨hbytes, htags, -⟩ := hinv
  refine ⟨hbytes, fun p hp => ⟨?_, fun o ho t ht => ?_⟩, fun handler f hstored o ho t ht =>
    tag_of_stored htags hstored ho ht⟩
  · refine ⟨_, windowTerm_spec _ _ hp, fun t ht => ?_⟩
    have hunique := @eq_windowTerm _ (run step (start image) as).image.entry.initialTermId _ ht.1
    rwa [ht.2] at hunique
  · rw [htags p hp o ho t ht]
    exact windowTerm_spec _ _ hp

/-- The frame of a term far ahead, and one of a term before it. -/
theorem partitions_hold_one_term_jump :
    let s := run step (start ImageRun.smallImage)
      [(ImageRun.quietHandler, ImageState.smallReceived 5 0),
        (ImageRun.quietHandler, ImageState.smallReceived 1000001 32),
        (ImageRun.quietHandler, ImageState.smallReceived 1000000 0)]
    s.tagged.bytes = s.image.image.inner.log.buffer ∧
      (∀ p < partitionCount, (∃! t, TermOfPartition s.image.entry p t) ∧
        ∀ o < s.termLength, ∀ t, (s.tagged (p * s.termLength + o)).2 = some t →
          TermOfPartition s.image.entry p t) ∧
      ∀ handler f, s.image.stores handler f.header f.payload = true → ∀ o < s.termLength, ∀ t,
        (s.cleaned f (partitionIndex f.termId s.image.entry.initialTermId * s.termLength +
          o)).2 = some t → t = f.termId :=
  partitions_hold_one_term (Option.some_get _).symm _ (by decide)

end PartitionRun

end AeronRs
