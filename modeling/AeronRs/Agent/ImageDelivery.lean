import AeronRs.Agent.ImageRun

/-! # Delivery to the subscriber

What a poll hands out of an image that holds the accepted frames, and from it what a subscriber sees
over a whole run: fragments at increasing positions, each the accepted frame at its position.

A poll at the end of the active term reads the first length word of the next partition, which the
receiver has not cleaned yet; **`PollsCommitted`** is the condition that no frame of four terms ago
is still there. -/

namespace AeronRs

open Runs

/-- What a poll hands out for a frame. -/
def StreamFrame.fragment {T : Nat} (ids : StreamIds) (f : StreamFrame T) : Fragment :=
  ⟨f.start, f.payload, ids.sessionId, ids.streamId⟩

/-- Fragments of frames in order are at increasing positions. -/
theorem fragments_pairwise {T : Nat} (ids : StreamIds) {ds : List (StreamFrame T)}
    (h : ds.Pairwise fun a b => a.stop ≤ b.start) :
    ((ds.map (StreamFrame.fragment ids)).map Fragment.position).Pairwise (· < ·) := by
  rw [List.map_map, List.pairwise_map]
  refine h.imp fun {a b} hle => ?_
  have hlt := a.start_lt_stop
  change (a.start : Int) < b.start
  omega

/-! ## The subscriber's place in the log -/

namespace Holds

variable {ids : StreamIds} {img : ImageEntry} {inner : ImageInner} {A : Nat}
  {G : List (StreamFrame ids.termLength)}

theorem subscriber_place (h : Holds ids img inner A G) (sub : Nat) :
    partitionIndex (SubscriberImage.termId inner ⟨sub⟩) inner.initialTermId =
        sub / ids.termLength % 4 ∧
      SubscriberImage.termOffset inner ⟨sub⟩ = sub % ids.termLength := by
  obtain ⟨hpart, hoff⟩ := SubscriberImage.place_eq inner sub
  rw [h.logLength] at hpart hoff
  exact ⟨by omega, by omega⟩

theorem partition_eq (h : Holds ids img inner A G) {k : Nat} (hlo : A ≤ k + 3) (hhi : k ≤ A)
    {o : Nat} (ho : o < ids.termLength) :
    inner.log.buffer (k % 4 * ids.termLength + o) = streamStore ids G (k * ids.termLength + o) := by
  have hlower := Nat.mul_le_mul_right ids.termLength (show A + 1 - 4 ≤ k by omega)
  have hupper := Nat.mul_le_mul_right ids.termLength hhi
  have hnext : (A + 1) * ids.termLength = A * ids.termLength + ids.termLength := Nat.succ_mul _ _
  rw [← slotOf_term 4 ids.termLength k ho]
  refine h.mirrors _ ?_ (by omega)
  unfold windowStart
  rw [← Nat.sub_mul]
  omega

/-- **A poll of a term that the image holds** hands out the frames it reads along. -/
theorem scan_eq (h : Holds ids img inner A G) (hapart : FramesApart G) {sub recv : Nat}
    (haligned : 32 ∣ sub) (hlo : A ≤ sub / ids.termLength + 3) (hhi : sub / ids.termLength ≤ A)
    (hbound : FrameBoundary G sub) (hrecv : inner.receiverPosition = recv)
    (hstop : ∀ g ∈ G, g.stop ≤ recv) (hlast : recv ≤ sub ∨ ∃ g ∈ G, g.stop = recv) (limit : Int) :
    ∃ ds q', PollSpec G (sub / ids.termLength) sub recv ds q' ∧
      SubscriberImage.scan inner ⟨sub⟩ limit =
        (ds.map fun g => (g.start - sub / ids.termLength * ids.termLength, g.payload), q' - sub) ∧
      (0 < limit → sub < recv → sub < q') := by
  have hT := h.termLength_pos
  have hdvd := h.termLength_dvd
  have hle := h.termLength_le
  have hmod := Nat.mod_lt sub hT
  have hdiv := Nat.div_add_mod' sub ids.termLength
  have hoffset : 32 ∣ sub % ids.termLength := (Nat.dvd_mod_iff hdvd).mpr haligned
  obtain ⟨hpart, hoff⟩ := h.subscriber_place sub
  unfold SubscriberImage.scan
  dsimp only
  rw [hpart, hoff, h.logLength, hrecv,
    pollLoop_congr (fun o ho => h.partition_eq hlo hhi ho) hdvd _ _ _ _ hoffset]
  have hpoll := @pollLoop_stream ids G hdvd (by omega) hapart (sub / ids.termLength)
    (sub % ids.termLength) 0 0 ids.termLength recv sub limit hoffset (by omega) (by omega)
    (by rw [hdiv]; simp)
  rw [hdiv] at hpoll
  obtain ⟨ds, q', hspec, heq, hprogress⟩ := hpoll hbound hstop hlast
  refine ⟨ds, q', hspec, ?_, fun hlimit hmore => hprogress hmod (by simpa using hlimit) hmore⟩
  rw [heq, Nat.zero_add]

/-- **The receiver's position** after an accepted frame is the greatest end of a frame. -/
theorem receiverPosition_onData {s : ImageState} (h : Holds ids s.entry s.image.inner A G)
    {f : StreamFrame ids.termLength} (hterm : f.term < 2 ^ 31) (haccepts : Accepts A f.term)
    (handler : InlineHandler) {recv : Nat} (hrecv : s.image.inner.receiverPosition = recv)
    (hle : recv ≤ (A + 1) * ids.termLength) :
    (s.onData handler (f.header ids) f.payload).1.image.inner.receiverPosition =
      ((max recv f.stop : Nat) : Int) := by
  have hrotated := (h.noteGap handler (f.header ids)).rotate hterm haccepts.2
  have hpositions : ((s.entry.noteGap handler (f.header ids)).1.rotate s.image.inner
      (ids.initialTermId + BitVec.ofNat 32 f.term)).2.receiverPosition = _ :=
    ((s.entry.noteGap handler (f.header ids)).1.rotate_positions s.image.inner _).1
  have hbound := Nat.mul_le_mul_right ids.termLength
    (Nat.succ_le_succ (Nat.le_max_left A f.term))
  have hlo : max A f.term < f.term + 4 := by
    have := haccepts.1
    omega
  have hid : (f.header ids).termId = ids.initialTermId + BitVec.ofNat 32 f.term := rfl
  rw [ImageState.onData_inner, ImageState.received, hid,
    hrotated.store_eq hlo (Nat.le_max_right _ _) handler s.image.receiver]
  exact (hrotated.write hlo (Nat.le_max_right _ _)).advanceTo_receiverPosition hterm
    (hpositions.trans s.image.receiver_sync) (hpositions.trans hrecv) (Nat.le_trans hle hbound)

end Holds

namespace ImageRun

variable {ids : StreamIds}

/-! ## What is known of a run -/

/-- A poll of the term after the active one finds no length word of an older frame. -/
def PollsCommitted (s : ImageRun ids) : ImageAction ids.termLength → Prop
  | .data _ _ => True
  | .poll _ => s.subscriberPosition / ids.termLength ≤ s.activeTerm ∨
      (s.buffer.readI32 (slotOf 4 ids.termLength s.subscriberPosition.toNat)).toInt ≤ 0

instance (s : ImageRun ids) (a : ImageAction ids.termLength) : Decidable (s.PollsCommitted a) :=
  match a with
  | .data _ _ => isTrue trivial
  | .poll _ => inferInstanceAs (Decidable (_ ∨ _))

/-- **Delivery so far**, of an image whose first position was `first`: the subscriber is at `sub`, at
the end of no frame's middle, the receiver at `recv`, and the fragments delivered are the accepted
frames `ds`, in order. -/
structure Delivers (stream : HonestStream ids.termLength) (first : Nat) (s : ImageRun ids)
    (A sub recv : Nat) (ds : List (StreamFrame ids.termLength)) : Prop where
  keeps : s.Keeps stream A
  subscriber : s.subscriberPosition = sub
  receiver : s.receiverPosition = recv
  first_le : first ≤ sub
  sub_le : sub ≤ recv
  recv_ge : A * ids.termLength ≤ recv
  recv_le : recv ≤ (A + 1) * ids.termLength
  aligned : 32 ∣ sub
  boundary : FrameBoundary stream.frames sub
  near : A ≤ sub / ids.termLength + 3
  stop_le : ∀ g ∈ s.accepted, g.stop ≤ recv
  last : recv = first ∨ ∃ g ∈ s.accepted, g.stop = recv
  delivered : s.delivered = ds.map (StreamFrame.fragment ids)
  accepted : ∀ g ∈ ds, g ∈ s.accepted ∧ g.stop ≤ sub
  ordered : ds.Pairwise fun a b => a.stop ≤ b.start

namespace Delivers

variable {stream : HonestStream ids.termLength} {first A sub recv : Nat} {s : ImageRun ids}
  {ds : List (StreamFrame ids.termLength)}

theorem apart (h : s.Delivers stream first A sub recv ds) : FramesApart s.accepted :=
  stream.apart.mono h.keeps.accepted

/-- What the loop of a poll reads: the frames on its way, up to a position at which no frame of the
stream is cut. -/
theorem scan_eq (h : s.Delivers stream first A sub recv ds) {limit : Int} (hlimit : 0 < limit)
    (hcommitted : s.PollsCommitted (.poll limit)) :
    ∃ ds' sub', FrameScan s.accepted sub ds' sub' ∧
      (sub' ≤ recv ∧ 32 ∣ sub' ∧ FrameBoundary stream.frames sub') ∧
      (∀ g ∈ ds', sub / ids.termLength * ids.termLength ≤ g.start) ∧
      SubscriberImage.scan s.state.image.inner ⟨sub⟩ limit =
        (ds'.map fun g => (g.start - sub / ids.termLength * ids.termLength, g.payload),
          sub' - sub) ∧
      (sub < recv → sub < sub') := by
  have hT := h.keeps.holds.termLength_pos
  have hdiv := Nat.div_add_mod' sub ids.termLength
  have hsub := h.sub_le
  by_cases hterm : sub / ids.termLength ≤ A
  · have hlast : recv ≤ sub ∨ ∃ g ∈ s.accepted, g.stop = recv :=
      h.last.imp_left fun hfirst => le_trans (le_of_eq hfirst) h.first_le
    obtain ⟨ds', sub', hspec, hscan, hprogress⟩ := h.keeps.holds.scan_eq h.apart h.aligned h.near
      hterm (h.boundary.mono h.keeps.accepted) h.receiver h.stop_le hlast limit
    have hmax := hspec.received
    refine ⟨ds', sub', hspec.scan, ⟨by omega, ?_⟩, fun g hg => ?_, hscan, hprogress hlimit⟩
    · -- a poll stops where it began, at the end of the term, or at an edge of a frame
      rcases hspec.lands with rfl | rfl | ⟨g, hg, rfl | rfl⟩
      · exact ⟨h.aligned, h.boundary⟩
      · refine ⟨Nat.dvd_add (Dvd.dvd.mul_left h.keeps.holds.termLength_dvd _)
          h.keeps.holds.termLength_dvd, fun f _ => ?_⟩
        rw [← Nat.succ_mul]
        exact f.between_terms _
      · exact ⟨g.aligned, stream.apart.between_start StreamFrame.start_lt_stop
          (h.keeps.accepted hg)⟩
      · exact ⟨g.stop_dvd, stream.apart.between_stop StreamFrame.start_lt_stop
          (h.keeps.accepted hg)⟩
    · have := (hspec.scan.mem StreamFrame.start_lt_stop hg).2.1
      omega
  · -- the subscriber is at the end of the active term, and nothing is committed there
    have hnext : (A + 1) * ids.termLength ≤ sub / ids.termLength * ids.termLength :=
      Nat.mul_le_mul_right _ (Nat.lt_of_not_le hterm)
    have hrecv := h.recv_le
    have hend : sub = recv := by omega
    refine ⟨[], sub, .refl _, ⟨hsub, h.aligned, h.boundary⟩, by simp, ?_, by omega⟩
    obtain ⟨hpart, hoff⟩ := h.keeps.holds.subscriber_place sub
    have hword : (s.buffer.readI32 (slotOf 4 ids.termLength sub)).toInt ≤ 0 := by
      rcases hcommitted with hactive | hword
      · rw [h.subscriber, h.keeps.activeTerm_eq] at hactive
        exact absurd (by exact_mod_cast hactive) hterm
      · rw [h.subscriber, Int.toNat_natCast] at hword
        exact hword
    unfold SubscriberImage.scan
    dsimp only
    rw [hpart, hoff, h.keeps.holds.logLength, Nat.sub_self]
    refine pollLoop_uncommitted hword ?_ limit _ _
    rw [show s.state.image.inner.receiverPosition = recv from h.receiver, hend]
    simp

/-- **What a poll hands out** are the frames that its loop reads. -/
theorem poll_reads (h : s.Delivers stream first A sub recv ds) {limit : Int}
    (hcommitted : s.PollsCommitted (.poll limit)) :
    ∃ ds' sub', FrameScan s.accepted sub ds' sub' ∧
      (sub' ≤ recv ∧ 32 ∣ sub' ∧ FrameBoundary stream.frames sub') ∧
      (s.step (.poll limit)).subscriberPosition = sub' ∧
      (s.step (.poll limit)).delivered = s.delivered ++ ds'.map (StreamFrame.fragment ids) ∧
      (0 < limit → sub < recv → sub < sub') := by
  have hlocal : s.state.image.subscriber = ⟨(sub : Int)⟩ :=
    congrArg SubscriberImage.mk (s.state.image.subscriber_sync.symm.trans h.subscriber)
  have hstep : (s.step (.poll limit)).subscriberPosition =
      (SubscriberImage.pollFragments s.state.image.inner ⟨sub⟩ limit).1.1.subscriberPosition :=
    congrArg (fun r => (SubscriberImage.pollFragments s.state.image.inner r
      limit).1.1.subscriberPosition) hlocal
  have hdelivered : (s.step (.poll limit)).delivered =
      s.delivered ++ (SubscriberImage.pollFragments s.state.image.inner ⟨sub⟩ limit).2 :=
    congrArg (fun r => s.delivered ++ (SubscriberImage.pollFragments s.state.image.inner r
      limit).2) hlocal
  rw [hstep, hdelivered]
  by_cases hlimit : 0 < limit
  · obtain ⟨ds', sub', hway, hat, hterm, hscan, hprogress⟩ := h.scan_eq hlimit hcommitted
    have hle := hway.le StreamFrame.start_lt_stop
    rw [SubscriberImage.pollFragments_of_pos hlimit h.subscriber, hscan]
    refine ⟨ds', sub', hway, hat, ?_, congrArg _ ?_, fun _ => hprogress⟩
    · change (sub : Int) + ((sub' - sub : Nat) : Int) = sub'
      omega
    · -- the position of a fragment is that of its frame
      have hoff := (h.keeps.holds.subscriber_place sub).2
      have hdiv := Nat.div_add_mod' sub ids.termLength
      rw [List.map_map]
      apply List.map_congr_left
      intro g hg
      have hstart := hterm g hg
      rw [Function.comp_apply, hoff, h.keeps.holds.innerStream.1, h.keeps.holds.innerStream.2]
      unfold StreamFrame.fragment
      congr 1
      change (sub : Int) - ((sub % ids.termLength : Nat) : Int) +
        ((g.start - sub / ids.termLength * ids.termLength : Nat) : Int) = g.start
      omega
  · rw [SubscriberImage.pollFragments_of_nonpos (by omega)]
    exact ⟨[], sub, .refl _, ⟨h.sub_le, h.aligned, h.boundary⟩, h.subscriber,
      by rw [List.map_nil], fun hpos => absurd hpos hlimit⟩

/-- **A poll** delivers frames further on. -/
theorem poll (h : s.Delivers stream first A sub recv ds) {limit : Int}
    (hcommitted : s.PollsCommitted (.poll limit)) :
    ∃ ds' sub', (s.step (.poll limit)).Delivers stream first A sub' recv (ds ++ ds') ∧
      FrameScan s.accepted sub ds' sub' ∧ (0 < limit → sub < recv → sub < sub') := by
  obtain ⟨ds', sub', hway, ⟨hle, haligned, hboundary⟩, hsub, hdelivered, hprogress⟩ :=
    h.poll_reads hcommitted
  have hforward := hway.le StreamFrame.start_lt_stop
  have hmem := fun g hg => hway.mem StreamFrame.start_lt_stop (g := g) hg
  refine ⟨ds', sub', ?_, hway, hprogress⟩
  refine ⟨h.keeps.poll limit, hsub, ?_, Nat.le_trans h.first_le hforward, hle, h.recv_ge, h.recv_le,
    haligned, hboundary, ?_, h.stop_le, h.last, ?_, fun g hg => ?_, ?_⟩
  · exact (congrArg ImageInner.receiverPosition (s.subscriberPosition_step_poll limit).2).trans
      h.receiver
  · exact Nat.le_trans h.near (Nat.add_le_add_right (Nat.div_le_div_right hforward) 3)
  · rw [hdelivered, h.delivered, List.map_append]
  · rcases List.mem_append.mp hg with hold | hnew
    · exact ⟨(h.accepted g hold).1, Nat.le_trans (h.accepted g hold).2 hforward⟩
    · exact ⟨(hmem g hnew).1, (hmem g hnew).2.2⟩
  · -- what was delivered before ends where the poll began
    refine List.pairwise_append.mpr ⟨h.ordered, hway.pairwise StreamFrame.start_lt_stop, ?_⟩
    intro a ha b hb
    exact Nat.le_trans (h.accepted a ha).2 (hmem b hb).2.1

/-- **A data frame** within three terms of the subscriber delivers nothing. -/
theorem data (h : s.Delivers stream first A sub recv ds) {handler : InlineHandler}
    {f : StreamFrame ids.termLength} (hstream : FromStream stream (.data handler f))
    (hwithin : s.WithinThreeTerms (.data handler f)) :
    ∃ A' recv', (s.step (.data handler f)).Delivers stream first A' sub recv' ds ∧
      ((s.step (.data handler f)).accepted = s.accepted ∧ recv' = recv ∨
        (s.step (.data handler f)).accepted = f :: s.accepted ∧ recv' = max recv f.stop) := by
  have hkeeps := (h.keeps.data hstream hwithin).1
  have hterm := hstream.2
  have hsub : (s.step (.data handler f)).subscriberPosition = sub :=
    ((s.state.received_sync handler (f.header ids) f.payload).2.trans
      s.state.image.subscriber_sync.symm).trans h.subscriber
  -- stored, and then noted; or left out, with the image as it was
  rcases h.keeps.holds.onData_cases hterm handler with
    ⟨haccepts, hstored, -⟩ | ⟨haccepts, hstored, -, himage, -⟩
  · have hstep := accepted_step_data hstored
    have hrecv := h.keeps.holds.receiverPosition_onData hterm haccepts handler h.receiver h.recv_le
    rw [if_pos haccepts] at hkeeps
    refine ⟨max A f.term, max recv f.stop, ?_, .inr ⟨hstep, rfl⟩⟩
    refine ⟨hkeeps, hsub, hrecv, h.first_le, Nat.le_trans h.sub_le (Nat.le_max_left _ _), ?_, ?_,
      h.aligned, h.boundary, ?_, ?_, ?_, h.delivered, fun g hg => ?_, h.ordered⟩
    · have hstart := f.term_bounds.1
      have hlt := f.start_lt_stop
      have hrecv := h.recv_ge
      rcases Nat.le_total A f.term with hle | hle
      · rw [Nat.max_eq_right hle]
        omega
      · rw [Nat.max_eq_left hle]
        omega
    · have hold := Nat.mul_le_mul_right ids.termLength
        (Nat.succ_le_succ (Nat.le_max_left A f.term))
      have hnew := hkeeps.holds.stop_le (hstep ▸ List.mem_cons_self)
      exact Nat.max_le.mpr ⟨Nat.le_trans h.recv_le hold, hnew⟩
    · -- the term of the frame is within three of the subscriber's
      have hnear := h.near
      rcases hwithin with hle | hle
      · rw [h.keeps.activeTerm_eq] at hle
        omega
      · rw [h.subscriber] at hle
        have : f.term ≤ sub / ids.termLength + 3 := by exact_mod_cast hle
        omega
    · rw [hstep]
      intro g hg
      rcases List.mem_cons.mp hg with rfl | hold
      · exact Nat.le_max_right _ _
      · exact Nat.le_trans (h.stop_le g hold) (Nat.le_max_left _ _)
    · rw [hstep]
      rcases Nat.le_total recv f.stop with hle | hle
      · exact .inr ⟨f, List.mem_cons_self, (Nat.max_eq_right hle).symm⟩
      · rw [Nat.max_eq_left hle]
        refine h.last.imp_right ?_
        rintro ⟨g, hg, hstop⟩
        exact ⟨g, List.mem_cons_of_mem f hg, hstop⟩
    · rw [hstep]
      exact ⟨List.mem_cons_of_mem f (h.accepted g hg).1, (h.accepted g hg).2⟩
  · have hstep := accepted_step_rejected hstored
    have hrecv : (s.step (.data handler f)).receiverPosition = recv :=
      (congrArg (fun image => image.inner.receiverPosition) himage).trans h.receiver
    rw [if_neg haccepts] at hkeeps
    refine ⟨A, recv, ?_, .inl ⟨hstep, rfl⟩⟩
    refine ⟨hkeeps, hsub, hrecv, h.first_le, h.sub_le, h.recv_ge, h.recv_le, h.aligned, h.boundary,
      h.near, ?_, ?_, h.delivered, ?_, h.ordered⟩
    · exact hstep ▸ h.stop_le
    · exact hstep ▸ h.last
    · exact hstep ▸ h.accepted

end Delivers

/-! ## Arrival in order -/

/-- The frame lies after everything received. -/
def InOrder (s : ImageRun ids) : ImageAction ids.termLength → Prop
  | .data _ f => s.receiverPosition ≤ f.start
  | .poll _ => True

instance (s : ImageRun ids) (a : ImageAction ids.termLength) : Decidable (s.InOrder a) :=
  match a with
  | .data _ f => inferInstanceAs (Decidable (_ ≤ (f.start : Int)))
  | .poll _ => isTrue trivial

/-- **Delivery in order**: the subscriber has read along all the accepted frames, which are
sorted. -/
structure Ordered (s : ImageRun ids) (first sub : Nat) (ds : List (StreamFrame ids.termLength)) :
    Prop where
  scan : FrameScan s.accepted first ds sub
  sorted : s.accepted.reverse.Pairwise fun a b => a.stop ≤ b.start
  first_le : ∀ g ∈ s.accepted, first ≤ g.start

/-- What was delivered is an initial part of what was accepted. -/
theorem Ordered.isPrefix {s : ImageRun ids} {first sub : Nat}
    {ds : List (StreamFrame ids.termLength)} (h : s.Ordered first sub ds) :
    ds <+: s.accepted.reverse :=
  h.scan.isPrefix StreamFrame.start_lt_stop h.sorted
    (fun g hg => h.first_le g (List.mem_reverse.mp hg)) fun _ _ => List.mem_reverse

/-- An accepted frame after everything received keeps the order. -/
theorem Ordered.data {s s' : ImageRun ids} {first sub recv : Nat}
    {ds : List (StreamFrame ids.termLength)} (h : s.Ordered first sub ds)
    {f : StreamFrame ids.termLength} (haccepted : s'.accepted = f :: s.accepted)
    (hstop : ∀ g ∈ s.accepted, g.stop ≤ recv) (hfirst : first ≤ sub) (hsub : sub ≤ recv)
    (horder : recv ≤ f.start) : s'.Ordered first sub ds := by
  refine ⟨?_, ?_, ?_⟩
  · rw [haccepted]
    refine h.scan.mono StreamFrame.start_lt_stop (List.subset_cons_self f s.accepted) ?_
    intro g hg hnew
    obtain rfl := (List.mem_cons.mp hg).resolve_right hnew
    omega
  · rw [haccepted, List.reverse_cons, List.pairwise_append]
    refine ⟨h.sorted, List.pairwise_singleton _ f, fun g hg b hb => ?_⟩
    obtain rfl := List.mem_singleton.mp hb
    exact Nat.le_trans (hstop g (List.mem_reverse.mp hg)) horder
  · rw [haccepted]
    intro g hg
    rcases List.mem_cons.mp hg with rfl | hold
    · omega
    · exact h.first_le g hold

/-! ## Runs -/

/-- The condition of a run: frames of one stream, a receiver within three terms of the subscriber,
and polls that find no frame of four terms ago. -/
def Current (stream : HonestStream ids.termLength) (s : ImageRun ids)
    (a : ImageAction ids.termLength) : Prop :=
  s.Near stream a ∧ s.PollsCommitted a

instance (stream : HonestStream ids.termLength) (s : ImageRun ids)
    (a : ImageAction ids.termLength) : Decidable (s.Current stream a) :=
  inferInstanceAs (Decidable (_ ∧ _))

/-- **What the subscriber has seen**: fragments at increasing positions, each the accepted frame at
its position, and nothing beyond the receiver. -/
def SeenOnce (s : ImageRun ids) : Prop :=
  (s.delivered.map Fragment.position).Pairwise (· < ·) ∧
    (∀ d ∈ s.delivered, ∃ f ∈ s.accepted, d = f.fragment ids) ∧
    s.subscriberPosition ≤ s.receiverPosition

instance (s : ImageRun ids) : Decidable s.SeenOnce :=
  inferInstanceAs (Decidable (_ ∧ (∀ d ∈ _, ∃ f ∈ _, _) ∧ _))

/-- The payloads delivered are the first of those accepted. -/
def SeenInOrder (s : ImageRun ids) : Prop :=
  s.delivered.map Fragment.payload <+: s.accepted.reverse.map StreamFrame.payload

namespace Delivers

variable {stream : HonestStream ids.termLength} {first A sub recv : Nat} {s : ImageRun ids}
  {ds : List (StreamFrame ids.termLength)}

/-- **Step.** -/
theorem step (h : s.Delivers stream first A sub recv ds) {a : ImageAction ids.termLength}
    (hcurrent : s.Current stream a) :
    ∃ A' sub' recv' ds', (s.step a).Delivers stream first A' sub' recv' ds' ∧
      (s.InOrder a → s.Ordered first sub ds → (s.step a).Ordered first sub' ds') := by
  obtain ⟨⟨hstream, hwithin⟩, hcommitted⟩ := hcurrent
  cases a with
  | data handler f =>
      obtain ⟨A', recv', hnext, haccepted⟩ := h.data hstream hwithin
      refine ⟨A', sub, recv', ds, hnext, fun horder hordered => ?_⟩
      rcases haccepted with ⟨hsame, -⟩ | ⟨hnew, -⟩
      · exact ⟨hsame ▸ hordered.scan, hsame ▸ hordered.sorted, hsame ▸ hordered.first_le⟩
      · have hafter : recv ≤ f.start := by
          have hposition : s.receiverPosition ≤ f.start := horder
          rw [h.receiver] at hposition
          exact_mod_cast hposition
        exact hordered.data hnew h.stop_le h.first_le h.sub_le hafter
  | poll limit =>
      obtain ⟨ds', sub', hnext, hway, -⟩ := h.poll hcommitted
      exact ⟨A, sub', recv, ds ++ ds', hnext, fun _ hordered =>
        ⟨hordered.scan.trans hway, hordered.sorted, hordered.first_le⟩⟩

theorem seenOnce (h : s.Delivers stream first A sub recv ds) : s.SeenOnce := by
  refine ⟨?_, fun d hd => ?_, ?_⟩
  · rw [h.delivered]
    exact fragments_pairwise ids h.ordered
  · rw [h.delivered] at hd
    obtain ⟨f, hf, rfl⟩ := List.mem_map.mp hd
    exact ⟨f, (h.accepted f hf).1, rfl⟩
  · rw [h.subscriber, h.receiver]
    exact_mod_cast h.sub_le

theorem seenInOrder (h : s.Delivers stream first A sub recv ds) (hordered : s.Ordered first sub ds) :
    s.SeenInOrder := by
  unfold SeenInOrder
  rw [h.delivered, List.map_map]
  exact hordered.isPrefix.map StreamFrame.payload

end Delivers

/-- **A new image** at a position where no frame of the stream is cut. -/
theorem delivers_onSetup {handler : InlineHandler} {setup : SetupHeader} {source : SockAddr}
    {s : ImageState} (hsetup : ImageState.onSetup handler setup source = some s)
    (hactive : setup.activeTerm < 2 ^ 31) (hoffset : setup.termOffset.toNat ≤ setup.ids.termLength)
    (haligned : 32 ∣ setup.termOffset.toNat) {stream : HonestStream setup.ids.termLength}
    (hboundary : FrameBoundary stream.frames setup.position) :
    (start setup.ids s).Delivers stream setup.position setup.activeTerm setup.position
        setup.position [] ∧
      (start setup.ids s).Ordered setup.position setup.position [] := by
  have hholds := holds_onSetup hsetup hactive
  have hT := hholds.termLength_pos
  have hle := hholds.termLength_le
  obtain ⟨-, -, -, -, -, hrecv, hsub, -⟩ := onSetup_spec hsetup
  have hposition : s.image.inner.receiverPosition = setup.position := by
    have hterm : (setup.activeTermId - setup.initialTermId).toInt = setup.activeTerm :=
      BitVec.toInt_eq_toNat_of_lt (by unfold SetupHeader.activeTerm at hactive; omega)
    have hoff : setup.termOffset.toInt = setup.termOffset.toNat :=
      BitVec.toInt_eq_toNat_of_lt (by omega)
    rw [hrecv, hterm, hoff, SetupHeader.position]
    push_cast
    rfl
  have hdiv : setup.activeTerm ≤ setup.position / setup.ids.termLength :=
    (Nat.le_div_iff_mul_le hT).mpr (Nat.le_add_right _ _)
  refine ⟨⟨⟨hholds, List.nil_subset _, fun g hg => by cases hg⟩, hsub.trans hposition, hposition,
    Nat.le_refl _, Nat.le_refl _, Nat.le_add_right _ _, ?_, ?_, hboundary, by omega, by simp [start], .inl rfl, rfl,
    by simp, List.Pairwise.nil⟩, ⟨.refl _, List.Pairwise.nil, fun g hg => by cases hg⟩⟩
  · rw [SetupHeader.position, Nat.succ_mul]
    omega
  · exact Nat.dvd_add (Dvd.dvd.mul_left hholds.termLength_dvd _) haligned

/-- **A subscriber sees no fragment twice, out of order or made up**, in every run of frames of one
publisher and polls on an image that a setup frame at a frame boundary has created, as long as the
receiver stays within three terms of the subscriber and no poll finds a frame of four terms ago in
the partition after the active one. If the frames arrive in order, what is delivered is the first
part of what was accepted. -/
theorem delivered_once {handler : InlineHandler} {setup : SetupHeader} {source : SockAddr}
    {s : ImageState} (hsetup : ImageState.onSetup handler setup source = some s)
    (hactive : setup.activeTerm < 2 ^ 31) (hoffset : setup.termOffset.toNat ≤ setup.ids.termLength)
    (haligned : 32 ∣ setup.termOffset.toNat) (stream : HonestStream setup.ids.termLength)
    (hboundary : FrameBoundary stream.frames setup.position)
    (as : List (ImageAction setup.ids.termLength))
    (hrun : Meets (Current stream) step (start setup.ids s) as) :
    (run step (start setup.ids s) as).SeenOnce ∧
      (Meets InOrder step (start setup.ids s) as →
        (run step (start setup.ids s) as).SeenInOrder) := by
  obtain ⟨hstart, hordered⟩ := delivers_onSetup hsetup hactive hoffset haligned hboundary
  constructor
  · have hinv := @run_invariant _ _ (Current stream) step
      (fun s => ∃ A sub recv ds, s.Delivers stream setup.position A sub recv ds)
      (fun s a h hcurrent => by
        obtain ⟨A, sub, recv, ds, h⟩ := h
        obtain ⟨A', sub', recv', ds', hnext, -⟩ := h.step hcurrent
        exact ⟨A', sub', recv', ds', hnext⟩)
      _ ⟨_, _, _, _, hstart⟩ as hrun
    obtain ⟨A, sub, recv, ds, hreached⟩ := hinv
    exact hreached.seenOnce
  · intro hin
    have hinv := @run_invariant _ _ (fun s a => Current stream s a ∧ InOrder s a) step
      (fun s => ∃ A sub recv ds, s.Delivers stream setup.position A sub recv ds ∧
        s.Ordered setup.position sub ds)
      (fun s a h hcurrent => by
        obtain ⟨A, sub, recv, ds, h, hsorted⟩ := h
        obtain ⟨A', sub', recv', ds', hnext, hkeep⟩ := h.step hcurrent.1
        exact ⟨A', sub', recv', ds', hnext, hkeep hcurrent.2 hsorted⟩)
      _ ⟨_, _, _, _, hstart, hordered⟩ as (meets_and hrun hin)
    obtain ⟨A, sub, recv, ds, hreached, hsorted⟩ := hinv
    exact hreached.seenInOrder hsorted

/-- Five terms through a ring of four, each read before the receiver comes round to its partition. -/
theorem delivered_once_five_terms :
    (run step (start smallSetup.ids smallImage)
      [.data quietHandler (smallFrame 0), .data quietHandler (smallFrame 1), .poll 1,
        .data quietHandler (smallFrame 2), .poll 1, .data quietHandler (smallFrame 3), .poll 1,
        .data quietHandler (smallFrame 4), .poll 1, .poll 1]).SeenInOrder :=
  (delivered_once (Option.some_get _).symm (by decide) (by decide) (by decide) (smallStream 5)
    (by decide +kernel) _ (by decide +kernel)).2 (by decide +kernel)

/-- **A stale frame is delivered.** Four frames, each filling its term, are read as they arrive. The
subscriber is then at position 256, the start of term 9, as is the receiver; the partition of that
term still holds the frame of term 5, which the next poll delivers again. -/
theorem stale_frame_delivered :
    let as : List (ImageAction smallSetup.ids.termLength) :=
      [.data quietHandler (smallFrame 0), .poll 1, .data quietHandler (smallFrame 1), .poll 1,
        .data quietHandler (smallFrame 2), .poll 1, .data quietHandler (smallFrame 3), .poll 1,
        .poll 1]
    let s := run step (start smallSetup.ids smallImage) as
    Meets (Near (smallStream 4)) step (start smallSetup.ids smallImage) as ∧
      Meets InOrder step (start smallSetup.ids smallImage) as ∧
      s.delivered.map Fragment.payload = [[0], [1], [2], [3], [0]] ∧
      s.subscriberPosition = 320 ∧ s.receiverPosition = 256 ∧ ¬ s.SeenOnce := by
  decide +kernel

end ImageRun

end AeronRs
