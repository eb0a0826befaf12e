import AeronRs.Agent.ImageArrival
import AeronRs.Agent.SenderStream

/-! # The setup handshake

A setup frame tells the receiver where to start its image. `do_send` fills it in from the write
cursor, not from the sender's position: what has been published and not sent yet lies before the
position that the setup frame gives, and is sent after it. **`CaughtUp`** is the condition that
nothing is waiting when a setup frame goes out. `setup_cuts_nothing_off` says that then every data
frame emitted after it lies at or after its position, and that a subscriber of the image that it
creates is given all of them. -/

namespace AeronRs

open Runs

/-- The stream position that the header of a data frame gives. -/
def framePosition (ids : StreamIds) (bytes : List UInt8) : Nat :=
  (BitVec.ofNat 32 (ofLE ((bytes.drop 20).take 4)) - ids.initialTermId).toNat * ids.termLength +
    ofLE ((bytes.drop 8).take 4)

theorem framePosition_bytes {ids : StreamIds} (hT : 0 < ids.termLength)
    (hle : ids.termLength ≤ 2 ^ 31) {f : StreamFrame ids.termLength} (hterm : f.term < 2 ^ 31) :
    framePosition ids (f.bytes ids) = f.start := by
  obtain ⟨hoffset, hid⟩ := (f.header ids).position_fields f.payload
  have hbytes : f.bytes ids = (f.header ids).encode ++ f.payload := rfl
  have hmod := Nat.mod_lt f.start hT
  have hword : ofLE (encodeI32 (f.header ids).termOffset) = f.start % ids.termLength := by
    rw [encodeI32, ofLE_toLE]
    change (BitVec.ofNat 32 (f.start % ids.termLength)).toNat % _ = _
    rw [BitVec.toNat_ofNat]
    omega
  have hcount : ((f.header ids).termId - ids.initialTermId).toNat = f.term := by
    change (ids.initialTermId + BitVec.ofNat 32 f.term - ids.initialTermId).toNat = _
    rw [BitVec.add_comm, BitVec.add_sub_cancel, BitVec.toNat_ofNat, Nat.mod_eq_of_lt (by omega)]
  rw [framePosition, hbytes, hoffset, hid, ofLE_encodeI32, hword, hcount]
  exact Nat.div_add_mod' f.start ids.termLength

namespace SenderRun

/-! ## Setup frames -/

/-- Nothing is published and not sent when a setup frame of publication `i` is emitted. -/
def CaughtUp (i : Nat) (s : SenderRun) : SenderAction → Prop
  | .doSend nowNs => ∀ e ∈ s.agent.publications[i]?,
      e.SetupDue s.agent.heartbeatIntervalNs nowNs → e.senderPosition = e.pubPosition
  | _ => True

instance (i : Nat) (s : SenderRun) : (a : SenderAction) → Decidable (s.CaughtUp i a)
  | .doSend _ => inferInstanceAs (Decidable (∀ e ∈ s.agent.publications[i]?, _))
  | .offer _ _ => isTrue trivial
  | .statusMessage _ => isTrue trivial
  | .poller _ => isTrue trivial

namespace Streams

variable {ids : StreamIds} {i : Nat} {s : SenderRun} {e : PublicationEntry} {l : StreamLog}
  {n b pub : Nat}

theorem termLength_eq (h : s.Streams ids i e l n b pub) :
    e.publication.toNetwork.termLength = ids.termLength := by
  rw [← h.ids_eq]
  rfl

/-- The term and the offset that a setup frame gives: those of the write cursor, or of the published
position if the cursor is on another thread. -/
theorem setup_place (h : s.Streams ids i e l n b pub) :
    ∃ k o, e.activeTermId = ids.initialTermId + BitVec.ofNat 32 k ∧ e.termOffset = o ∧
      k ≤ 2 ^ 31 ∧ o ≤ ids.termLength ∧ 32 ∣ o ∧
      (k * ids.termLength + o = n * ids.termLength + e.publication.toNetwork.termOffset ∨
        k * ids.termLength + o = pub) := by
  have hrep := h.represents
  have hlen := h.termLength_eq
  have hinitial : e.publication.toNetwork.initialTermId = ids.initialTermId := by
    rw [← h.ids_eq]
    rfl
  have hcount := hrep.termCount_lt
  cases hp : e.publication with
  | network p =>
      rw [hp] at hrep hlen hinitial
      -- the publication has its term and offset at hand
      refine ⟨n, p.termOffset, ?_, by rw [PublicationEntry.termOffset, hp], Nat.le_of_lt hcount,
        hlen ▸ hrep.offset_le, hrep.offset_dvd, .inl rfl⟩
      rw [PublicationEntry.activeTermId, hp, ← hinitial]
      exact hrep.active
  | concurrent c =>
      rw [hp] at hrep hlen hinitial
      -- the sender derives them from the published position, by shift and mask
      obtain ⟨k, hk, hk32, -⟩ := c.inner.log.exists_termLength
      have hT : ids.termLength = 2 ^ k := hlen.symm.trans hk
      have hpos : 0 < ids.termLength := by rw [hT]; exact Nat.two_pow_pos k
      have hpub : c.inner.pubPosition = pub := hrep.pub
      have hle := hrep.le.2
      have hoff := hrep.offset_le
      have hdvd : 32 ∣ pub :=
        ((tiles_append.mpr ⟨b, hrep.tiles_sent, hrep.tiles_pending⟩).exists_frames
          (Nat.dvd_zero 32)).1
      have hdvd' : 32 ∣ ids.termLength := by
        rw [← hlen]
        exact c.toNetwork.rawLog.termLength_dvd
      have hterm : pub / ids.termLength ≤ n + 1 := by
        rw [show (Publication.concurrent c).toNetwork.termLength = ids.termLength from hlen]
          at hle hoff
        refine Nat.div_le_of_le_mul ?_
        rw [Nat.mul_comm, Nat.succ_mul]
        omega
      refine ⟨pub / ids.termLength, pub % ids.termLength, ?_, ?_, by omega,
        Nat.le_of_lt (Nat.mod_lt _ hpos), (Nat.dvd_mod_iff hdvd').mpr hdvd, ?_⟩
      · rw [PublicationEntry.activeTermId, hp]
        change SenderPublication.activeTermIdApprox c.inner = _
        unfold SenderPublication.activeTermIdApprox PublicationInner.positionBitsToShift
        rw [hk, trailingZeros_two_pow (by omega), hpub, natCast_shiftRight, BitVec.ofInt_natCast, hT]
        exact congrArg (· + _) hinitial
      · rw [PublicationEntry.termOffset, hp]
        change SenderPublication.termOffsetApprox c.inner = _
        unfold SenderPublication.termOffsetApprox PublicationInner.termLengthMask
        rw [hk, hpub, landI64_natCast pub k (by omega), hT]
      · exact .inr (Nat.div_add_mod' pub ids.termLength)

/-- **The setup frame of a publication** names its stream, and the position of the write cursor or
the published position. -/
theorem setupFrame_place (h : s.Streams ids i e l n b pub) :
    e.setupFrame.ids = ids ∧ e.setupFrame.termOffset.toNat ≤ ids.termLength ∧
      32 ∣ e.setupFrame.termOffset.toNat ∧
      (e.setupFrame.position = n * ids.termLength + e.publication.toNetwork.termOffset ∨
        e.setupFrame.position = pub) := by
  obtain ⟨k, o, hactive, hoffset, hk, ho, hdvd, hplace⟩ := h.setup_place
  have hlen := h.termLength_eq
  have hlt := e.publication.toNetwork.rawLog.termLength_le
  have hT : ids.termLength ≤ 2 ^ 31 := hlen ▸ hlt
  have hids : e.setupFrame.ids = ids := by
    rw [← h.ids_eq]
    unfold SetupHeader.ids PublicationEntry.setupFrame setupHeader
    dsimp only
    have hword : (BitVec.ofNat 32 e.termLength).toNat = e.publication.toNetwork.termLength := by
      rw [BitVec.toNat_ofNat]
      exact Nat.mod_eq_of_lt (by rw [PublicationEntry.termLength, hlen]; omega)
    rw [hword]
    rfl
  -- the fields of the frame are 32-bit words, and nothing is lost
  have hword : e.setupFrame.termOffset.toNat = o := by
    change (BitVec.ofNat 32 e.termOffset).toNat = o
    rw [hoffset, BitVec.toNat_ofNat, Nat.mod_eq_of_lt (by omega)]
  have hterm : e.setupFrame.activeTerm = k := by
    have hinitial : e.setupFrame.initialTermId = ids.initialTermId := congrArg (·.initialTermId) hids
    rw [SetupHeader.activeTerm, hinitial]
    change (e.activeTermId - ids.initialTermId).toNat = k
    rw [hactive, BitVec.add_comm, BitVec.add_sub_cancel, BitVec.toNat_ofNat,
      Nat.mod_eq_of_lt (by omega)]
  refine ⟨hids, by rw [hword]; exact ho, by rw [hword]; exact hdvd, ?_⟩
  rw [SetupHeader.position, hterm, hword, hids]
  exact hplace

/-- A setup frame does not name a position beyond the write cursor. -/
theorem setupFrame_spec (h : s.Streams ids i e l n b pub) :
    e.setupFrame.ids = ids ∧ e.setupFrame.termOffset.toNat ≤ ids.termLength ∧
      32 ∣ e.setupFrame.termOffset.toNat ∧
      e.setupFrame.position ≤ n * ids.termLength + e.publication.toNetwork.termOffset := by
  obtain ⟨hids, hoffset, hdvd, hplace⟩ := h.setupFrame_place
  have hle := h.represents.le.2
  rw [h.termLength_eq] at hle
  exact ⟨hids, hoffset, hdvd, by omega⟩

/-- The write cursor is at the end of everything written. -/
theorem cursor_eq (h : s.Streams ids i e l n b pub) :
    n * ids.termLength + e.publication.toNetwork.termOffset =
      total LogRecord.length (l.sent ++ (l.pending ++ l.tail)) := by
  have hsent := h.represents.tiles_sent.eq_add_total
  have hunsent := h.represents.tiles_unsent.eq_add_total
  rw [h.termLength_eq] at hunsent
  rw [total_append]
  omega

/-- A frame that was sent lies in a term within the range of the term counts. -/
theorem term_lt (h : s.Streams ids i e l n b pub) {f : StreamFrame ids.termLength}
    (hstop : f.stop ≤ b) : f.term < 2 ^ 31 := by
  have hT : 0 < ids.termLength := by
    rw [← h.termLength_eq]
    exact e.publication.toNetwork.rawLog.termLength_pos
  have hcount := h.represents.termCount_lt
  have hpositions := h.represents.le
  have hoff := h.represents.offset_le
  rw [h.termLength_eq] at hpositions hoff
  have hlt := f.start_lt_stop
  have hdiv : f.term < n + 1 := by
    refine (Nat.div_lt_iff_lt_mul hT).mpr ?_
    rw [Nat.succ_mul]
    omega
  omega

/-- The terms of a publication are not empty, and shorter than half the range of a word. -/
theorem termLength_bounds (h : s.Streams ids i e l n b pub) :
    0 < ids.termLength ∧ ids.termLength ≤ 2 ^ 31 := by
  rw [← h.termLength_eq]
  exact ⟨e.publication.toNetwork.rawLog.termLength_pos, e.publication.toNetwork.rawLog.termLength_le⟩

end Streams

/-! ## What follows a setup frame -/

/-- **What is known of a setup frame** that publication `i` has handed over: the data frames that follow
it are those of the last records sent, and these records and all that are still to be sent lie at or
after its position, pads apart. -/
structure Announced (ids : StreamIds) (setup : SetupHeader) (post : List Emission) (l : StreamLog)
    (cursor : Nat) : Prop where
  ids_eq : setup.ids = ids
  offset_le : setup.termOffset.toNat ≤ ids.termLength
  offset_dvd : 32 ∣ setup.termOffset.toNat
  position_le : setup.position ≤ cursor
  follows : ∃ before after, l.sent = before ++ after ∧
    post.filterMap Emission.dataBytes =
      (after.filter LogRecord.isData).map (LogRecord.frame ids) ∧
    ∀ r ∈ after ++ (l.pending ++ l.tail), r.isData = true → setup.position ≤ r.start

/-- Every setup frame handed over so far. -/
def AllAnnounced (ids : StreamIds) (i : Nat) (s : SenderRun) (l : StreamLog) (cursor : Nat) : Prop :=
  ∀ pre setup post, s.attempts i = pre ++ .setup setup :: post →
    Announced ids setup post l cursor

variable {ids : StreamIds} {i : Nat} {s : SenderRun} {e e' : PublicationEntry} {l l' : StreamLog}
  {n n' b b' pub pub' : Nat} {a : SenderAction} {taken new : List LogRecord}

theorem Announced.step {setup : SetupHeader} {post : List Emission} {cursor cursor' : Nat}
    (h : Announced ids setup post l cursor) (hadvances : Advances ids i s a e l l' n taken new)
    (hcursor : cursor = n * ids.termLength + e.publication.toNetwork.termOffset)
    (hle : cursor ≤ cursor') {setups : List Emission}
    (hsetups : setups.filterMap Emission.dataBytes = []) :
    Announced ids setup (post ++ (setups ++
      (taken.filter LogRecord.isData).map fun r => .data (r.frame ids))) l' cursor' := by
  obtain ⟨before, after, hsent, hdata, hposition⟩ := h.follows
  refine ⟨h.ids_eq, h.offset_le, h.offset_dvd, Nat.le_trans h.position_le hle, before,
    after ++ taken, ?_, ?_, ?_⟩
  · rw [hadvances.sent, hsent, List.append_assoc]
  · rw [List.filterMap_append, List.filterMap_append, hsetups, List.nil_append,
      Emission.filterMap_dataBytes, hdata, List.filter_append, List.map_append]
  · -- a record is an old one, or new and behind the cursor
    intro r hr hisData
    rw [List.append_assoc, hadvances.unsent, ← List.append_assoc] at hr
    rcases List.mem_append.mp hr with hold | hnew
    · exact hposition r hold hisData
    · have hposition := h.position_le
      have hafter := hadvances.after r hnew
      omega

/-- The setup frame among what an action hands over comes first, and is due. -/
theorem setup_of_split {frames t post : List Emission} {setup : SetupHeader}
    (hframes : ∀ x ∈ frames, ∃ bytes, x = .data bytes)
    (hsplit : s.setupsOf e a ++ frames = t ++ .setup setup :: post) :
    t = [] ∧ setup = e.setupFrame ∧ post = frames ∧
      ∃ nowNs, a = .doSend nowNs ∧ e.SetupDue s.agent.heartbeatIntervalNs nowNs := by
  -- no data frame is a setup frame
  have hnot : ∀ t, frames ≠ t ++ .setup setup :: post := by
    rintro t rfl
    obtain ⟨bytes, hbytes⟩ := hframes _ (List.mem_append_right t List.mem_cons_self)
    cases hbytes
  by_cases hdue : ∃ nowNs, a = .doSend nowNs ∧ e.SetupDue s.agent.heartbeatIntervalNs nowNs
  · obtain ⟨nowNs, rfl, hdue'⟩ := hdue
    rw [setupsOf, PublicationEntry.dueSetup, if_pos hdue'] at hsplit
    cases t with
    | nil =>
        obtain ⟨hsetup, hpost⟩ := List.cons.inj hsplit
        exact ⟨rfl, (Emission.setup.inj hsetup).symm, hpost.symm, nowNs, rfl, hdue'⟩
    | cons x t => exact absurd (List.cons.inj hsplit).2 (hnot t)
  · have hnone : s.setupsOf e a = [] := by
      unfold setupsOf
      split
      · next nowNs => exact if_neg fun h => hdue ⟨nowNs, rfl, h⟩
      · rfl
    rw [hnone, List.nil_append] at hsplit
    exact absurd hsplit (hnot t)

theorem announced_new (h : s.Streams ids i e l n b pub) (hpending : l.pending = [])
    (hadvances : Advances ids i s a e l l' n taken new) {cursor' : Nat}
    (hcursor : n * ids.termLength + e.publication.toNetwork.termOffset ≤ cursor') :
    Announced ids e.setupFrame
      ((taken.filter LogRecord.isData).map fun r => .data (r.frame ids)) l' cursor' := by
  obtain ⟨hids, hle, hdvd, hposition⟩ := h.setupFrame_spec
  obtain rfl : taken = [] := List.prefix_nil.mp (hpending ▸ hadvances.taken_pending)
  refine ⟨hids, hle, hdvd, Nat.le_trans hposition hcursor, l'.sent, [], by simp, rfl, ?_⟩
  intro r hr hisData
  have hunsent := hadvances.unsent
  rw [List.nil_append] at hr hunsent
  rw [hunsent, hpending, List.nil_append] at hr
  rcases List.mem_append.mp hr with htail | hnew
  · -- what is left behind the published position are pads
    rw [h.represents.tail_pads r htail] at hisData
    cases hisData
  · exact Nat.le_trans hposition (hadvances.after r hnew)

/-- **Step.** -/
theorem AllAnnounced.step (h : s.Streams ids i e l n b pub)
    (hall : s.AllAnnounced ids i l (n * ids.termLength + e.publication.toNetwork.termOffset))
    (hcaught : s.CaughtUp i a) (hnext : (s.step a).Streams ids i e' l' n' b' pub')
    (hadvances : Advances ids i s a e l l' n taken new) :
    (s.step a).AllAnnounced ids i l'
      (n' * ids.termLength + e'.publication.toNetwork.termOffset) := by
  have hcursor : n * ids.termLength + e.publication.toNetwork.termOffset ≤
      n' * ids.termLength + e'.publication.toNetwork.termOffset := by
    rw [h.cursor_eq, hnext.cursor_eq, hadvances.sent, List.append_assoc, hadvances.unsent]
    simp only [total_append]
    omega
  intro pre setup post hsplit
  rw [hadvances.attempts] at hsplit
  have hframes : ∀ x ∈ (taken.filter LogRecord.isData).map fun r =>
      Emission.data (r.frame ids), ∃ bytes, x = .data bytes := by
    intro x hx
    obtain ⟨r, -, rfl⟩ := List.mem_map.mp hx
    exact ⟨_, rfl⟩
  -- the setup frame is one of this action
  have hnew : ∀ t, s.setupsOf e a ++ ((taken.filter LogRecord.isData).map fun r =>
      Emission.data (r.frame ids)) = t ++ .setup setup :: post →
      Announced ids setup post l' (n' * ids.termLength + e'.publication.toNetwork.termOffset) := by
    intro t hthis
    obtain ⟨-, rfl, rfl, nowNs, rfl, hdue⟩ := setup_of_split hframes hthis
    have hequal := hcaught e h.entry hdue
    unfold PublicationEntry.senderPosition PublicationEntry.pubPosition at hequal
    rw [h.represents.sender, h.represents.pub] at hequal
    have hpending : l.pending = [] := by
      have hfits := h.represents.tiles_pending
      rw [show b = pub by exact_mod_cast hequal] at hfits
      exact hfits.eq_nil
    exact announced_new h hpending hadvances hcursor
  rcases List.append_eq_append_iff.mp hsplit with ⟨t, -, hthis⟩ | ⟨t, hold, hthis⟩
  · exact hnew t hthis
  · cases t with
    | nil => exact hnew [] hthis.symm
    | cons x t =>
        obtain ⟨rfl, rfl⟩ := List.cons.inj hthis
        exact (hall pre setup t hold).step hadvances rfl hcursor (s.filterMap_setupsOf e a)

/-! ## Runs -/

/-- The data frames emitted after a setup frame lie at or after its position. -/
def StartsBefore (setup : SetupHeader) (post : List Emission) : Prop :=
  ∀ bytes ∈ post.filterMap Emission.dataBytes, setup.position ≤ framePosition setup.ids bytes

instance (setup : SetupHeader) (post : List Emission) : Decidable (StartsBefore setup post) :=
  inferInstanceAs (Decidable (∀ bytes ∈ _, _))

/-- **A setup frame cuts nothing off**: it starts before the data frames that follow it, an image
that it creates starts before them as well, and if none is lost the subscriber is given every one. -/
def CutsNothingOff (setup : SetupHeader) (post : List Emission) : Prop :=
  StartsBefore setup post ∧ ∃ frames : List (StreamFrame setup.ids.termLength),
    post.filterMap Emission.dataBytes = frames.map (StreamFrame.bytes setup.ids) ∧
    ∀ handler source image, ImageState.onSetup handler setup source = some image →
      setup.activeTerm < 2 ^ 31 →
      (∀ f ∈ frames, image.image.inner.subscriberPosition ≤ f.start) ∧
      ∀ as : List (ImageAction setup.ids.termLength), ImageRun.arrivals as = frames →
        Meets ImageRun.Paced ImageRun.step (ImageRun.start setup.ids image) as →
        ∃ k, (run ImageRun.step (ImageRun.start setup.ids image)
          (as ++ List.replicate k (.poll 1))).delivered =
            frames.map (StreamFrame.fragment setup.ids)

/-- **The frames that follow an announced setup frame**: the data records sent since, in order, at or
after its position and before the end of the active term. -/
theorem Announced.exists_frames (h : s.Streams ids i e l n b pub) {setup : SetupHeader}
    {post : List Emission} {cursor : Nat} (hannounced : Announced ids setup post l cursor) :
    ∃ (before after : List LogRecord) (frames : List (StreamFrame ids.termLength)),
      l.sent = before ++ after ∧ frames.map StreamFrame.record = after.filter LogRecord.isData ∧
        post.filterMap Emission.dataBytes = frames.map (StreamFrame.bytes ids) ∧
        (frames.Pairwise fun a b => a.stop ≤ b.start) ∧
        ∀ f ∈ frames, f.term < 2 ^ 31 ∧ setup.position ≤ f.start := by
  obtain ⟨before, after, hsent, hdata, hposition⟩ := hannounced.follows
  -- the records as frames in order, all before the end of the active term
  have htiles := h.represents.tiles_sent
  rw [hsent, h.termLength_eq] at htiles
  obtain ⟨c, hbefore, hafter⟩ := tiles_append.mp htiles
  obtain ⟨-, frames, hframes, hsorted, hbounds⟩ :=
    hafter.exists_frames (hbefore.exists_frames (Nat.dvd_zero 32)).1
  refine ⟨before, after, frames, hsent, hframes, ?_, hsorted, fun f hf => ⟨h.term_lt (hbounds f hf).2, ?_⟩⟩
  · rw [hdata, ← hframes, List.map_map]
    rfl
  · have hmem : f.record ∈ after.filter LogRecord.isData := by
      rw [← hframes]
      exact List.mem_map_of_mem hf
    exact hposition _ (List.mem_append_left _ (List.mem_of_mem_filter hmem)) rfl

/-- **A setup frame that was emitted** was handed over, and what was emitted after it was handed over
after it. -/
theorem exists_attempt {pre post : List Emission} {setup : SetupHeader}
    (h : s.emissions i = pre ++ .setup setup :: post) :
    ∃ pre' post', s.attempts i = pre' ++ .setup setup :: post' ∧ pre.Sublist pre' ∧
      post.Sublist post' := by
  have hsub := s.emissions_sublist i
  rw [h, List.append_sublist_iff] at hsub
  obtain ⟨r₁, r₂, hsplit, hpre, hrest⟩ := hsub
  obtain ⟨r₃, r₄, rfl, hmem, hpost⟩ := List.cons_sublist_iff.mp hrest
  obtain ⟨x, y, rfl⟩ := List.append_of_mem hmem
  exact ⟨r₁ ++ x, y ++ r₄, by rw [hsplit]; simp, hpre.trans (List.sublist_append_left _ _),
    hpost.trans (List.sublist_append_right _ _)⟩

/-- The records that follow an announced setup frame, those refused apart. -/
theorem Announced.cutsNothingOff (h : s.Streams ids i e l n b pub) {setup : SetupHeader}
    {post post' : List Emission} {cursor : Nat} (hannounced : Announced ids setup post' l cursor)
    (hsub : post.Sublist post') : CutsNothingOff setup post := by
  obtain ⟨before, after, frames', -, -, hbytes', hsorted', hframes⟩ := hannounced.exists_frames h
  have hdata := hsub.filterMap Emission.dataBytes
  rw [hbytes', List.sublist_map_iff] at hdata
  obtain ⟨frames, hframes', hbytes⟩ := hdata
  obtain ⟨hT, hle⟩ := h.termLength_bounds
  have hsorted := hsorted'.sublist hframes'
  have hterm : ∀ f ∈ frames, f.term < 2 ^ 31 := fun f hf => (hframes f (hframes'.subset hf)).1
  have hstart : ∀ f ∈ frames, setup.position ≤ f.start := fun f hf =>
    (hframes f (hframes'.subset hf)).2
  obtain rfl := hannounced.ids_eq
  refine ⟨?_, frames, hbytes, ?_⟩
  · intro bytes hmem
    rw [hbytes] at hmem
    obtain ⟨f, hf, rfl⟩ := List.mem_map.mp hmem
    rw [framePosition_bytes hT hle (hterm f hf)]
    exact hstart f hf
  · intro handler source image hsetup hactive
    have hoffset := hannounced.offset_le
    have hdvd := hannounced.offset_dvd
    refine ⟨fun f hf => ?_, ?_⟩
    · have hboundary : FrameBoundary (HonestStream.ofSorted frames hsorted).frames setup.position :=
        fun g hg => .inr (hstart g hg)
      have hnew := (ImageRun.delivers_onSetup hsetup hactive hoffset hdvd hboundary).1
      rw [show image.image.inner.subscriberPosition = setup.position from hnew.subscriber]
      exact_mod_cast hstart f hf
    · rintro as rfl hpaced
      exact ImageRun.delivered_all hsetup hactive hoffset hdvd hterm hsorted hstart hpaced

/-- The condition of a run: offers rotate clear of the sender, and setup frames go out when nothing
is waiting to be sent. -/
def HandshakeClear (i : Nat) (s : SenderRun) (a : SenderAction) : Prop :=
  s.OffersClear i a ∧ s.CaughtUp i a

instance (i : Nat) (s : SenderRun) (a : SenderAction) : Decidable (s.HandshakeClear i a) :=
  inferInstanceAs (Decidable (_ ∧ _))

/-- **The setup handshake cuts off no data**, in every run of offers, status messages and cycles in
which a setup frame of the publication goes out only when everything published has been sent. -/
theorem setup_cuts_nothing_off {agent : SenderAgent} (h : agent.Initial) {i : Nat}
    {e : PublicationEntry} (he : agent.publications[i]? = some e) (as : List SenderAction)
    (hrun : Meets (HandshakeClear i) step (start agent) as) :
    ∀ pre setup post, (run step (start agent) as).emissions i = pre ++ .setup setup :: post →
      CutsNothingOff setup post := by
  have hinv := @run_invariant _ _ (HandshakeClear i) step
    (fun s => ∃ e' l n b pub, s.Streams e.publication.toNetwork.ids i e' l n b pub ∧
      s.AllAnnounced e.publication.toNetwork.ids i l
        (n * e.publication.toNetwork.ids.termLength + e'.publication.toNetwork.termOffset))
    (fun s a hs hclear => by
      obtain ⟨e', l, n, b, pub, hstreams, hall⟩ := hs
      obtain ⟨e'', l', n', b', pub', taken, new, hnext, hadvances⟩ := hstreams.step hclear.1
      exact ⟨e'', l', n', b', pub', hnext, hall.step hstreams hclear.2 hnext hadvances⟩)
    _ ⟨e, _, 0, 0, 0, streams_start h he, fun pre setup post hnil => by
      cases pre <;> cases hnil⟩ as hrun
  obtain ⟨e', l, n, b, pub, hstreams, hall⟩ := hinv
  intro pre setup post hsplit
  obtain ⟨pre', post', hattempts, -, hsub⟩ := exists_attempt hsplit
  exact (hall pre' setup post' hattempts).cutsNothingOff hstreams hsub

/-- The setup frame of the one new publication, at an offset of its first term. -/
def firstSetup (termOffset : BitVec 32) : SetupHeader :=
  setupHeader 7 1 5 5 termOffset 128 1408 0

/-- A cycle emits the setup frame before anything is offered, the next one two data frames. -/
theorem setup_cuts_nothing_off_first :
    CutsNothingOff (firstSetup 0)
      [.data ((LogRecord.data 0 [1]).frame ⟨5, 7, 1, 128⟩),
        .data ((LogRecord.data 64 [2]).frame ⟨5, 7, 1, 128⟩)] :=
  setup_cuts_nothing_off SenderAgent.oneNewPublication_initial (i := 0) rfl
    [.doSend 1000, .offer 0 [1], .offer 0 [2], .doSend 1001] (by decide +kernel) [] (firstSetup 0) _
    (by decide +kernel)

/-- **A setup frame cuts off what is waiting.** A frame is offered before the first cycle. The cycle
emits the setup frame with the write cursor, 64, and then the data frame, at position 0. The image
that the setup frame creates accepts the frame, and its subscriber is never given it. -/
theorem setup_cuts_off_waiting_frame :
    let emissions := (run step (start SenderAgent.oneNewPublication)
      [.offer 0 [1], .doSend 1000]).emissions 0
    let frame : StreamFrame (firstSetup 64).ids.termLength :=
      ⟨0, [1], Nat.dvd_zero 32, by decide⟩
    let image := (ImageState.onSetup ImageRun.quietHandler (firstSetup 64) ⟨2, []⟩).get rfl
    let read := run ImageRun.step (ImageRun.start (firstSetup 64).ids image)
      [.data ImageRun.quietHandler frame, .poll 10]
    emissions = [.setup (firstSetup 64), .data (frame.bytes (firstSetup 64).ids)] ∧
      ¬ StartsBefore (firstSetup 64) [.data (frame.bytes (firstSetup 64).ids)] ∧
      read.accepted = [frame] ∧ read.delivered = [] := by
  decide +kernel

end SenderRun

end AeronRs
