import AeronRs.Agent.ImageThreads

/-! # The log between two threads

What the log of an image holds while a call of `on_data` is under way. **`lineStore`** is the memory
with a place for every position, with the stores that the call has made; **`LogOk`** says that the log
is a window of it. The log is described by what it would hold without the call: a store changes only
the bytes of its frame, and the frame is added when its length word is stored. -/

namespace AeronRs

namespace Appending

variable {T : Nat}

/-- The frame whose header is stored and whose length word is not. -/
def open? : Appending T → Option (StreamFrame T)
  | .payload _ f => some f
  | .commit _ f => some f
  | _ => none

/-- The frame of the call under way. -/
def frame? : Appending T → Option (StreamFrame T)
  | .idle => none
  | .header _ f => some f
  | .payload _ f => some f
  | .commit _ f => some f
  | .advance _ f => some f

theorem frame?_of_open {a : Appending T} {f : StreamFrame T} (h : a.open? = some f) :
    a.frame? = some f := by
  cases a with
  | idle => cases h
  | header handler g => cases h
  | payload handler g => exact h
  | commit handler g => exact h
  | advance handler g => cases h

end Appending

/-! ## The stores of a call -/

namespace StreamFrame

variable {T : Nat}

def openHeader (ids : StreamIds) (f : StreamFrame T) : List UInt8 :=
  DataHeader.encode { f.header ids with frameHeader.frameLength := 0 }

@[simp] theorem openHeader_length (ids : StreamIds) (f : StreamFrame T) :
    (f.openHeader ids).length = 32 := DataHeader.encode_length _

/-- The first two stores of a frame are one of its header and payload. -/
theorem write_openHeader (ids : StreamIds) (f : StreamFrame T) (m : ByteStore) (base : Nat) :
    (m.write base (f.openHeader ids)).write (base + dataHeaderLength) f.payload =
      m.write base (f.openHeader ids ++ f.payload) := by
  rw [← ByteStore.write_write_append, f.openHeader_length]
  rfl

theorem write_commit (ids : StreamIds) (f : StreamFrame T) (m : ByteStore) (base : Nat) :
    atomicFrameLengthStore (m.write base (f.openHeader ids ++ f.payload)) base
      (BitVec.ofNat 32 (dataHeaderLength + f.payload.length)) = m.write base (f.bytes ids) := by
  rw [← write_openHeader]
  exact ReceiverImage.storeFrame_eq m base (f.header ids) f.payload

end StreamFrame

namespace Appending

variable {T : Nat}

/-- The bytes of an open frame that are stored. -/
def stored (ids : StreamIds) : Appending T → List UInt8
  | .payload _ f => f.openHeader ids
  | .commit _ f => f.openHeader ids ++ f.payload
  | _ => []

/-- A memory with the stores of the call under way, at the address of the open frame. -/
def onto (ids : StreamIds) (address : Nat → Nat) (m : ByteStore) (a : Appending T) : ByteStore :=
  match a.open? with
  | none => m
  | some f => m.write (address f.start) (a.stored ids)

theorem stored_of_open (ids : StreamIds) {a : Appending T} {f : StreamFrame T}
    (h : a.open? = some f) :
    a.stored ids = f.openHeader ids ∨ a.stored ids = f.openHeader ids ++ f.payload := by
  cases a with
  | idle => cases h
  | header handler g => cases h
  | payload handler g =>
      obtain rfl := Option.some.inj h
      exact .inl rfl
  | commit handler g =>
      obtain rfl := Option.some.inj h
      exact .inr rfl
  | advance handler g => cases h

theorem stored_length (ids : StreamIds) {a : Appending T} {f : StreamFrame T}
    (h : a.open? = some f) :
    32 ≤ (a.stored ids).length ∧ (a.stored ids).length ≤ 32 + f.payload.length := by
  rcases stored_of_open ids h with heq | heq
  · rw [heq, f.openHeader_length]
    omega
  · rw [heq, List.length_append, f.openHeader_length]
    omega

end Appending

section Line

variable {ids : StreamIds} {G : List (StreamFrame ids.termLength)}
  {a : Appending ids.termLength} {f g : StreamFrame ids.termLength}

/-- The memory with a place for every position, with the stores of the call under way. -/
def lineStore (ids : StreamIds) (G : List (StreamFrame ids.termLength))
    (a : Appending ids.termLength) : ByteStore :=
  a.onto ids id (streamStore ids G)

theorem lineStore_of_closed (h : a.open? = none) : lineStore ids G a = streamStore ids G := by
  rw [lineStore, Appending.onto, h]

theorem lineStore_of_open (h : a.open? = some f) :
    lineStore ids G a = (streamStore ids G).write f.start (a.stored ids) := by
  rw [lineStore, Appending.onto, h]
  rfl

theorem lineStore_openHeader (h : a.open? = some f) :
    (lineStore ids G a).read f.start 32 = f.openHeader ids := by
  have hlen := (Appending.stored_length ids h).1
  rw [lineStore_of_open h, ← ByteStore.read_take _ _ (a.stored ids).length 32 hlen,
    ByteStore.read_write_same]
  rcases Appending.stored_of_open ids h with heq | heq
  · rw [heq, List.take_of_length_le (by rw [f.openHeader_length])]
  · rw [heq, List.take_left' (f.openHeader_length ids)]

/-- The bytes of another frame are not touched. -/
theorem lineStore_read_of_ne (hapart : FramesApart (a.open?.toList ++ G)) (hg : g ∈ G)
    (hne : a.open? ≠ some g) {o k : Nat} (hk : o + k ≤ 32 + g.payload.length) :
    (lineStore ids G a).read (g.start + o) k = (streamStore ids G).read (g.start + o) k := by
  cases hopen : a.open? with
  | none => rw [lineStore_of_closed hopen]
  | some f =>
      have hlen := (Appending.stored_length ids hopen).2
      have hf := f.length_ge
      have hlg := g.length_ge
      rw [hopen] at hapart hne
      rw [lineStore_of_open hopen, ByteStore.read_write_disjoint]
      rcases hapart f (by simp) g (List.mem_append_right _ hg) with rfl | hle | hle
      · exact absurd rfl hne
      · rw [StreamFrame.stop] at hle
        omega
      · rw [StreamFrame.stop] at hle
        omega

theorem lineStore_word_open (h : a.open? = some f) : (lineStore ids G a).readI32 f.start = 0 :=
  readI32_of_header (lineStore_openHeader h)

/-- **The length word of a committed frame**, unless the frame is stored again. -/
theorem lineStore_word (hapart : FramesApart (a.open?.toList ++ G)) (hg : g ∈ G)
    (hne : a.open? ≠ some g) :
    (lineStore ids G a).readI32 g.start = BitVec.ofNat 32 (32 + g.payload.length) := by
  have hread := @lineStore_read_of_ne ids G a g hapart hg hne 0 4 (by omega)
  rw [← (streamStore_frame (hapart.mono (List.subset_append_right _ _)) hg).1]
  unfold ByteStore.readI32
  rw [← Nat.add_zero g.start, hread]

/-- **The type and the payload of a committed frame**, also while it is stored again. -/
theorem lineStore_frame (hapart : FramesApart (a.open?.toList ++ G)) (hg : g ∈ G) :
    (lineStore ids G a).readU16 (g.start + 6) = frameTypeData ∧
      (lineStore ids G a).read (g.start + 32) g.payload.length = g.payload := by
  obtain ⟨-, htype, hpayload⟩ :=
    streamStore_frame (hapart.mono (List.subset_append_right _ _)) hg
  by_cases hopen : a.open? = some g
  · refine ⟨readU16_of_header (lineStore_openHeader hopen), ?_⟩
    rw [lineStore_of_open hopen]
    rcases Appending.stored_of_open ids hopen with heq | heq
    · -- the payload is that of the first time
      rw [heq, ByteStore.read_write_disjoint _ (.inr (by rw [g.openHeader_length])), hpayload]
    · have hlen : (g.openHeader ids ++ g.payload).length = 32 + g.payload.length := by
        rw [List.length_append, g.openHeader_length]
      have hdrop := ByteStore.read_drop ((streamStore ids G).write g.start (a.stored ids)) g.start
        (32 + g.payload.length) 32 (Nat.le_add_right _ _)
      rw [Nat.add_sub_cancel_left] at hdrop
      rw [← hdrop, heq, ← hlen, ByteStore.read_write_same, List.drop_left' (g.openHeader_length ids)]
  · have hread := @lineStore_read_of_ne ids G a g hapart hg hopen 6 2 (by omega)
    refine ⟨?_, ?_⟩
    · unfold ByteStore.readU16 at htype ⊢
      rw [hread, htype]
    · rw [lineStore_read_of_ne hapart hg hopen (Nat.le_refl _), hpayload]

/-- Where no committed frame starts and none is cut, the length word is zero. -/
theorem lineStore_gap {q : Nat} (hq : 32 ∣ q) (hbound : FrameBoundary (a.open?.toList ++ G) q)
    (hnone : ∀ g ∈ G, g.start ≠ q) : (lineStore ids G a).readI32 q = 0 := by
  have hgap : (streamStore ids G).readI32 q = 0 :=
    streamStore_gap hq (hbound.mono (List.subset_append_right _ _)) hnone
  cases hopen : a.open? with
  | none => rw [lineStore_of_closed hopen, hgap]
  | some f =>
      by_cases hstart : f.start = q
      · rw [← hstart, lineStore_word_open hopen]
      · have hlen := (Appending.stored_length ids hopen).2
        have hf := f.length_ge
        have haligned := f.aligned
        rw [hopen] at hbound
        have hread : (lineStore ids G a).read q 4 = (streamStore ids G).read q 4 := by
          rw [lineStore_of_open hopen, ByteStore.read_write_disjoint]
          rcases hbound f (by simp) with hle | hle
          · rw [StreamFrame.stop] at hle
            omega
          · omega
        unfold ByteStore.readI32 at hgap ⊢
        rw [hread, hgap]

end Line

/-! ## The receiver's side -/

namespace ImageThreads

variable {ids : StreamIds}

def activeTerm (s : ImageThreads ids) : Nat :=
  (s.state.entry.activeTermId - s.state.entry.initialTermId).toNat

def receiverPosition (s : ImageThreads ids) : Int := s.state.image.inner.receiverPosition

/-- **What is known of the log**: without the call under way it would hold the committed frames of its
last four terms, and the call has stored part of a frame of one of these terms. The receiver is at
`recv`, behind every committed frame whose call is over. -/
structure LogOk (stream : HonestStream ids.termLength) (s : ImageThreads ids) (A recv : Nat)
    (m : ByteStore) : Prop where
  holds : Holds ids s.state.entry (s.state.image.inner.withBuffer m) A s.committed
  buffer : s.buffer = s.appending.onto ids (slotOf 4 ids.termLength) m
  frame : ∀ f, s.appending.frame? = some f → f ∈ stream.frames ∧ A < f.term + 4 ∧ f.term ≤ A
  committed : s.committed ⊆ stream.frames
  receiver : s.receiverPosition = recv
  receiver_le : recv ≤ (A + 1) * ids.termLength
  received : ∀ g ∈ s.committed, g.stop ≤ recv ∨ s.appending.frame? = some g

namespace LogOk

variable {stream : HonestStream ids.termLength} {s : ImageThreads ids} {A recv : Nat}
  {m : ByteStore}

theorem subset (h : s.LogOk stream A recv m) :
    s.appending.open?.toList ++ s.committed ⊆ stream.frames := by
  intro f hf
  rcases List.mem_append.mp hf with hopen | hold
  · exact (h.frame f (Appending.frame?_of_open (Option.mem_toList.mp hopen))).1
  · exact h.committed hold

theorem apart (h : s.LogOk stream A recv m) : FramesApart (s.appending.open?.toList ++ s.committed) :=
  stream.apart.mono h.subset

/-- **The log is a window of the line memory.** -/
theorem mirrors (h : s.LogOk stream A recv m) :
    Mirrors 4 ids.termLength (windowStart ids.termLength A) ((A + 1) * ids.termLength) s.buffer
      (lineStore ids s.committed s.appending) := by
  have hmirrors : Mirrors 4 ids.termLength (windowStart ids.termLength A)
      ((A + 1) * ids.termLength) m (streamStore ids s.committed) := h.holds.mirrors
  rw [h.buffer]
  cases hopen : s.appending.open? with
  | none =>
      rw [lineStore_of_closed hopen, Appending.onto, hopen]
      exact hmirrors
  | some f =>
      obtain ⟨-, hlo, hhi⟩ := h.frame f (Appending.frame?_of_open hopen)
      have hlen := (Appending.stored_length ids hopen).2
      have hf := f.length_ge
      have hfit : f.start % ids.termLength + f.length ≤ ids.termLength := f.inTerm
      have hstop := f.stop_le_of_term_le hhi
      rw [StreamFrame.stop] at hstop
      rw [lineStore_of_open hopen, Appending.onto, hopen]
      refine hmirrors.write ?_ (by omega) (Holds.windowStart_le hlo) ?_
      · rw [windowStart]
        omega
      · omega

theorem read_eq (h : s.LogOk stream A recv m) {k : Nat} (hlo : A ≤ k + 3) (hhi : k ≤ A) {pos n : Nat}
    (hfit : pos + n ≤ ids.termLength) :
    s.buffer.read (k % 4 * ids.termLength + pos) n =
      (lineStore ids s.committed s.appending).read (k * ids.termLength + pos) n := by
  rcases Nat.eq_zero_or_pos n with rfl | hn
  · rfl
  have hpos : pos < ids.termLength := by omega
  have hlower := Nat.mul_le_mul_right ids.termLength (show A + 1 - 4 ≤ k by omega)
  have hupper := Nat.mul_le_mul_right ids.termLength hhi
  rw [← slotOf_term 4 ids.termLength k hpos]
  refine h.mirrors.read_eq ?_ ?_ ?_
  · rw [windowStart, ← Nat.sub_mul]
    omega
  · rw [Nat.succ_mul]
    omega
  · rw [(term_offset_of_lt k hpos).2]
    exact hfit

theorem activeTerm_eq (h : s.LogOk stream A recv m) : s.activeTerm = A := h.holds.activeTerm_eq

theorem place (h : s.LogOk stream A recv m) {sub : Nat} (hsub : s.subscriberPosition = sub) :
    s.partBase = sub / ids.termLength % 4 * ids.termLength ∧
      s.state.image.subscriber.termOffset s.state.image.inner = sub % ids.termLength := by
  have hlocal : s.state.image.subscriber = ⟨(sub : Int)⟩ := congrArg SubscriberImage.mk hsub
  obtain ⟨hpart, hoff⟩ := h.holds.subscriber_place sub
  rw [partBase, hlocal]
  exact ⟨congrArg₂ (· * ·) hpart h.holds.logLength, hoff⟩

theorem congr (h : s.LogOk stream A recv m) {s' : ImageThreads ids} (hstate : s'.state = s.state)
    (happending : s'.appending = s.appending) (hcommitted : s'.committed = s.committed) :
    s'.LogOk stream A recv m := by
  obtain ⟨state, appending, polling, committed, delivered⟩ := s
  obtain ⟨state', appending', polling', committed', delivered'⟩ := s'
  cases hstate
  cases happending
  cases hcommitted
  exact { h with }

/-! ### What the receiver does -/

/-- Between two calls the log is what it would be. -/
theorem holds_of_idle (h : s.LogOk stream A recv m) (hidle : s.appending.open? = none) :
    Holds ids s.state.entry s.state.image.inner A s.committed := by
  have hbuffer : s.state.image.inner.log.buffer = m := by
    have hbuffer := h.buffer
    rw [Appending.onto, hidle] at hbuffer
    exact hbuffer
  have hholds := h.holds
  rw [← hbuffer] at hholds
  exact hholds

/-- **A call begins.** The image is rotated if the frame is stored and its term is the latest. -/
theorem data (h : s.LogOk stream A recv m) (handler : InlineHandler)
    {f : StreamFrame ids.termLength} (hmem : f ∈ stream.frames) (hterm : f.term < 2 ^ 31) :
    ∃ A' m', (s.data handler f).LogOk stream A' recv m' ∧ A ≤ A' ∧ (A' = A ∨ A' = f.term) := by
  obtain ⟨state, appending, polling, committed, delivered⟩ := s
  cases appending with
  | idle =>
      have hholds := h.holds_of_idle rfl
      have hnoted := hholds.noteGap handler (f.header ids)
      have hposition : (state.prepare handler (f.header ids)).image.inner.receiverPosition = recv :=
        ((state.entry.noteGap handler (f.header ids)).1.rotate_positions state.image.inner
          (f.header ids).termId).1.trans h.receiver
      -- no call is under way, so every committed frame is noted in the position
      have hreceived : ∀ g ∈ committed, g.stop ≤ recv := fun g hg =>
        (h.received g hg).resolve_right (by simp [Appending.frame?])
      by_cases haccepts : Accepts A f.term
      · have hbound := Nat.mul_le_mul_right ids.termLength
          (Nat.succ_le_succ (Nat.le_max_left A f.term))
        have happending : (data ⟨state, .idle, polling, committed, delivered⟩ handler f).appending =
            .header handler f := if_pos ((hholds.stores_iff hterm handler).mpr haccepts)
        refine ⟨max A f.term, (state.prepare handler (f.header ids)).image.inner.log.buffer,
          ⟨hnoted.rotate hterm haccepts.2, ?_, ?_, h.committed, hposition,
            Nat.le_trans h.receiver_le hbound, fun g hg => .inl (hreceived g hg)⟩, by omega, by omega⟩
        · rw [happending]
          rfl
        · rw [happending]
          intro g hg
          obtain rfl := Option.some.inj hg
          exact ⟨hmem, by have := haccepts.1; omega, Nat.le_max_right _ _⟩
      · have hrotate : (state.entry.noteGap handler (f.header ids)).1.rotate state.image.inner
            (f.header ids).termId = _ := hnoted.rotate_rejected hterm haccepts
        have happending : (data ⟨state, .idle, polling, committed, delivered⟩ handler f).appending =
            .idle := if_neg (mt (hholds.stores_iff hterm handler).mp haccepts)
        refine ⟨A, (state.prepare handler (f.header ids)).image.inner.log.buffer,
          ⟨?_, ?_, ?_, h.committed, hposition, h.receiver_le, fun g hg => .inl (hreceived g hg)⟩,
          Nat.le_refl A, .inl rfl⟩
        · change Holds ids (ImageEntry.rotate _ _ _).1 (ImageEntry.rotate _ _ _).2 A committed
          rw [hrotate]
          exact hnoted
        · rw [happending]
          rfl
        · rw [happending]
          intro g hg
          cases hg
  -- the agent makes one call at a time
  | header handler' g => exact ⟨A, m, h, Nat.le_refl A, .inl rfl⟩
  | payload handler' g => exact ⟨A, m, h, Nat.le_refl A, .inl rfl⟩
  | commit handler' g => exact ⟨A, m, h, Nat.le_refl A, .inl rfl⟩
  | advance handler' g => exact ⟨A, m, h, Nat.le_refl A, .inl rfl⟩

/-- **The next store of a call.** The log without the call changes when the frame is committed, the
receiver's position when the call ends. -/
theorem store (h : s.LogOk stream A recv m) :
    ∃ recv' m', s.store.LogOk stream A recv' m' ∧ recv ≤ recv' := by
  obtain ⟨state, appending, polling, committed, delivered⟩ := s
  have hbuffer : state.image.inner.log.buffer =
      appending.onto ids (slotOf 4 ids.termLength) m := h.buffer
  have hbase : ∀ f : StreamFrame ids.termLength,
      state.frameBase (f.header ids) = slotOf 4 ids.termLength f.start := h.holds.frameBase_eq
  cases appending with
  | idle => exact ⟨recv, m, h, Nat.le_refl recv⟩
  -- the first two stores go where no frame is committed yet
  | header handler f =>
      refine ⟨recv, m, ⟨h.holds, ?_, h.frame, h.committed, h.receiver, h.receiver_le, h.received⟩,
        Nat.le_refl recv⟩
      change state.image.inner.log.buffer.write (state.frameBase (f.header ids)) _ = _
      rw [hbase f, hbuffer]
      rfl
  | payload handler f =>
      refine ⟨recv, m, ⟨h.holds, ?_, h.frame, h.committed, h.receiver, h.receiver_le, h.received⟩,
        Nat.le_refl recv⟩
      change state.image.inner.log.buffer.write (state.frameBase (f.header ids) + _) _ = _
      rw [hbase f, hbuffer]
      exact f.write_openHeader ids m _
  -- the length word turns the three stores into one write of the whole frame
  | commit handler f =>
      obtain ⟨hmem, hlo, hhi⟩ := h.frame f rfl
      refine ⟨recv, m.write (slotOf 4 ids.termLength f.start) (f.bytes ids),
        ⟨h.holds.write hlo hhi, ?_, h.frame, List.cons_subset.mpr ⟨hmem, h.committed⟩, h.receiver,
          h.receiver_le, ?_⟩, Nat.le_refl recv⟩
      · change atomicFrameLengthStore state.image.inner.log.buffer (state.frameBase (f.header ids)) _ =
          _
        rw [hbase f, hbuffer]
        exact f.write_commit ids m _
      · exact List.forall_mem_cons.mpr ⟨.inr rfl, h.received⟩
  | advance handler f =>
      obtain ⟨-, -, hhi⟩ := h.frame f rfl
      have hholds : Holds ids state.entry state.image.inner A committed := h.holds_of_idle rfl
      have hterm : f.term < 2 ^ 31 := Nat.lt_of_le_of_lt hhi hholds.active_lt
      have hmoved := hholds.advanceTo state.image.receiver f.stop
      have hposition := hholds.advanceTo_receiverPosition hterm state.image.receiver_sync h.receiver
        h.receiver_le
      have hinner : (state.appended handler (f.header ids) f.payload).image.inner =
          (ReceiverImage.advanceTo state.image.inner state.image.receiver f.stop).1 := by
        rw [ImageState.appended]
        dsimp only
        rw [hholds.newOffset_eq f, hholds.newPos_eq hterm]
      refine ⟨max recv f.stop, _, ⟨?_, rfl, ?_, h.committed, ?_, ?_, ?_⟩, Nat.le_max_left _ _⟩
      · change Holds ids _ (state.appended handler (f.header ids) f.payload).image.inner A committed
        rw [hinner]
        exact { hmoved with }
      · intro g hg
        cases hg
      · exact (congrArg ImageInner.receiverPosition hinner).trans hposition
      · exact Nat.max_le.mpr ⟨h.receiver_le, f.stop_le_of_term_le hhi⟩
      · intro g hg
        rcases h.received g hg with hle | hcall
        · exact .inl (Nat.le_trans hle (Nat.le_max_left _ _))
        · obtain rfl := Option.some.inj hcall
          exact .inl (Nat.le_max_right _ _)

end LogOk

end ImageThreads

end AeronRs
