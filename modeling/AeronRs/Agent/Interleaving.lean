import AeronRs.Agent.ThreadLog

/-! # Receiving a frame again

A frame that arrives a second time is stored again: its length word is zero from the first store to
the last. A subscriber that loads the word in between sees a gap and goes on behind the frame.
`frame_lost_on_reappend` is such a run; `committed_delivered` says what holds in every interleaving in
which no load comes in between, and none inside a frame that is stored behind the subscriber's
search.

**`ReadOk`** is what is known of the subscriber, next to `LogOk` for the log, and **`Advances`** what a
step does for the frames that the subscriber has not reached: each of them stays ahead or is delivered,
and the loads of the polls lead up to it. -/

namespace AeronRs

open Runs

/-! ## What is asked of a run -/

namespace Polling

def scanned : Polling → Nat
  | .idle => 0
  | .top c => c.scanned
  | .gapTest c => c.scanned
  | .skip c _ => c.scanned
  | .frameType c _ => c.scanned
  | .payload c _ => c.scanned
  | .finish c => c.scanned

/-- How far the loads of a poll are before its position: the word at the position is loaded before the
test for a gap, and those behind it in the search. -/
def ahead : Polling → Nat
  | .gapTest _ => 1
  | .skip _ n => n
  | _ => 0

def busy : Polling → Bool
  | .idle => false
  | _ => true

end Polling

namespace ImageThreads

variable {ids : StreamIds}

/-- The frame at a position was committed before and is being stored again. -/
def Reappends (s : ImageThreads ids) (q : Int) : Prop :=
  ∃ f ∈ s.appending.open?, (f.start : Int) = q ∧ f ∈ s.committed

/-- A position strictly inside a frame that is committed or being stored. -/
def Inside (s : ImageThreads ids) (q : Int) : Prop :=
  ∃ f ∈ s.appending.open?.toList ++ s.committed, (f.start : Int) < q ∧ q < f.stop

instance (s : ImageThreads ids) (q : Int) : Decidable (s.Reappends q) :=
  inferInstanceAs (Decidable (∃ f ∈ s.appending.open?, _))

instance (s : ImageThreads ids) (q : Int) : Decidable (s.Inside q) :=
  inferInstanceAs (Decidable (∃ f ∈ s.appending.open?.toList ++ s.committed, _))

/-- The frames are those of one publisher, and the receiver rotates to no term more than three after
the subscriber's. -/
def Near (stream : HonestStream ids.termLength) (s : ImageThreads ids) :
    ThreadAction ids.termLength → Prop
  | .data _ f => (f ∈ stream.frames ∧ f.term < 2 ^ 31) ∧
      (f.term ≤ s.activeTerm ∨ (f.term : Int) ≤ s.subscriberPosition / ids.termLength + 3)
  | _ => True

instance (stream : HonestStream ids.termLength) (s : ImageThreads ids)
    (a : ThreadAction ids.termLength) : Decidable (s.Near stream a) :=
  match a with
  | .data _ _ => inferInstanceAs (Decidable ((_ ∧ _) ∧ (_ ∨ _)))
  | .store => isTrue trivial
  | .poll _ => isTrue trivial
  | .load => isTrue trivial

/-- **A load that is not disturbed.** No length word is loaded while its frame, committed before, is
stored again; the search behind a gap finds no positive word inside a frame that was stored after the
search had passed its beginning; and a poll of the term after the active one finds no length word of
an older frame. -/
def SafeLoad (s : ImageThreads ids) : Polling → Prop
  | .top c => c.pos < ids.termLength ∧ (c.fragments : Int) < c.limit →
      ¬ s.Reappends (s.subscriberPosition + c.scanned) ∧
        (s.subscriberPosition / ids.termLength ≤ s.activeTerm ∨
          (s.buffer.readI32 (s.partBase + c.pos)).toInt ≤ 0)
  | .skip c skip => c.pos + skip < ids.termLength →
      ¬ s.Reappends (s.subscriberPosition + c.scanned + skip) ∧
        (0 < (s.buffer.readI32 (s.partBase + (c.pos + skip))).toInt →
          ¬ s.Inside (s.subscriberPosition + c.scanned + skip))
  | _ => True

instance (s : ImageThreads ids) (p : Polling) : Decidable (s.SafeLoad p) :=
  match p with
  | .top _ => inferInstanceAs (Decidable (_ ∧ _ → _ ∧ (_ ∨ _)))
  | .skip _ _ => inferInstanceAs (Decidable (_ → _ ∧ (_ → _)))
  | .idle => isTrue trivial
  | .gapTest _ => isTrue trivial
  | .frameType _ _ => isTrue trivial
  | .payload _ _ => isTrue trivial
  | .finish _ => isTrue trivial

def Undisturbed (s : ImageThreads ids) : ThreadAction ids.termLength → Prop
  | .load => s.SafeLoad s.polling
  | _ => True

instance (s : ImageThreads ids) (a : ThreadAction ids.termLength) : Decidable (s.Undisturbed a) :=
  match a with
  | .data _ _ => isTrue trivial
  | .store => isTrue trivial
  | .poll _ => isTrue trivial
  | .load => inferInstanceAs (Decidable (s.SafeLoad s.polling))

/-- **How far the subscriber's scan has come**: no length word before this position will be loaded
again in this poll. -/
def frontier (s : ImageThreads ids) : Int :=
  s.subscriberPosition + s.polling.scanned + s.polling.ahead

end ImageThreads

/-! ## The place of a poll -/

/-- The cursor of a poll that began at `sub` and is now at `q`. -/
structure PollCursor.At (T sub q : Nat) (c : PollCursor) : Prop where
  pos_eq : c.pos = sub % T + c.scanned
  pos_le : c.pos ≤ T
  scan_eq : q = sub + c.scanned

namespace PollCursor.At

variable {T sub q : Nat} {c : PollCursor}

/-- The position is an offset of the subscriber's term. -/
theorem position (h : c.At T sub q) : q = sub / T * T + c.pos := by
  have hdiv := Nat.div_add_mod' sub T
  have hpos := h.pos_eq
  have hscan := h.scan_eq
  omega

theorem forward (h : c.At T sub q) {n : Nat} (hle : c.pos + n ≤ T) :
    (c.forward n).At T sub (q + n) where
  pos_eq := by
    rw [PollCursor.forward, h.pos_eq, Nat.add_assoc]
  pos_le := hle
  scan_eq := by
    rw [PollCursor.forward, h.scan_eq, Nat.add_assoc]

/-- An aligned position before the end of the term has room for a header. -/
theorem room (h : c.At T sub q) (hdvd : 32 ∣ T) {n : Nat} (haligned : 32 ∣ q + n)
    (hlt : c.pos + n < T) : c.pos + n + 32 ≤ T := by
  rw [h.position, Nat.add_assoc, Nat.dvd_add_right (Dvd.dvd.mul_left hdvd _)] at haligned
  omega

end PollCursor.At

namespace ImageThreads

variable {ids : StreamIds}

/-! ## What a load finds -/

namespace LogOk

variable {stream : HonestStream ids.termLength} {s : ImageThreads ids} {A recv : Nat}
  {m : ByteStore}

/-- No frame is cut at a position of the stream where none of its frames is. -/
theorem not_inside (h : s.LogOk stream A recv m) {q : Nat} (hbound : FrameBoundary stream.frames q) :
    ¬ s.Inside q := by
  rintro ⟨f, hf, hstart, hstop⟩
  rcases hbound f (h.subset hf) with hle | hle
  · omega
  · omega

theorem word_of_committed (h : s.LogOk stream A recv m) {f : StreamFrame ids.termLength}
    (hf : f ∈ s.committed) (hnot : ¬ s.Reappends f.start) :
    (lineStore ids s.committed s.appending).readI32 f.start =
      BitVec.ofNat 32 (32 + f.payload.length) :=
  lineStore_word h.apart hf fun hopen => hnot ⟨f, hopen, rfl, hf⟩

/-- **A positive length word** that is not read from inside a frame is that of a committed frame. -/
theorem committed_of_word (h : s.LogOk stream A recv m) {q : Nat} (haligned : 32 ∣ q)
    (hpos : 0 < ((lineStore ids s.committed s.appending).readI32 q).toInt) (hnot : ¬ s.Inside q) :
    ∃ g ∈ s.committed, g.start = q ∧
      (lineStore ids s.committed s.appending).readI32 q = BitVec.ofNat 32 (32 + g.payload.length) := by
  have hbound : FrameBoundary (s.appending.open?.toList ++ s.committed) q := by
    intro f hf
    by_contra hcut
    rw [not_or, Nat.not_le, Nat.not_le] at hcut
    exact hnot ⟨f, hf, by omega, by omega⟩
  have hsome : ∃ g ∈ s.committed, g.start = q := by
    by_contra hnone
    rw [lineStore_gap haligned hbound fun g hg hstart => hnone ⟨g, hg, hstart⟩] at hpos
    exact absurd hpos (by decide)
  obtain ⟨g, hg, rfl⟩ := hsome
  refine ⟨g, hg, rfl, lineStore_word h.apart hg fun hopen => ?_⟩
  rw [lineStore_word_open hopen] at hpos
  exact absurd hpos (by decide)

theorem term_le (h : s.LogOk stream A recv m) {c : PollCursor} {sub q : Nat}
    (hat : c.At ids.termLength sub q) {f : StreamFrame ids.termLength} (hf : f ∈ s.committed)
    (hle : q ≤ f.start) : sub / ids.termLength ≤ A := by
  have hscan := hat.scan_eq
  exact Nat.le_trans (Nat.div_le_div_right (by omega)) (h.holds.term_le f hf)

end LogOk

/-! ## The subscriber's side -/

/-- **Where a poll is** that began at `sub` and has come to `q`. A poll that has passed nothing goes on;
a search behind a gap is in a term of the log; behind a length word is a committed frame. -/
def PollPhase {T : Nat} (G : List (StreamFrame T)) (A sub q : Nat) : Polling → Prop
  | .idle => q = sub
  | .top c => c.At T sub q ∧ (0 < c.scanned ∨ c.pos < T ∧ (c.fragments : Int) < c.limit)
  | .gapTest c => c.At T sub q ∧ c.pos < T
  | .skip c skip => c.At T sub q ∧ sub / T ≤ A ∧ 32 ∣ skip ∧ 0 < skip ∧ c.pos + skip ≤ T
  | .frameType c word => (c.At T sub q ∧ c.pos < T) ∧
      ∃ g ∈ G, g.start = q ∧ word = BitVec.ofNat 32 (32 + g.payload.length)
  | .payload c word => (c.At T sub q ∧ c.pos < T) ∧
      ∃ g ∈ G, g.start = q ∧ word = BitVec.ofNat 32 (32 + g.payload.length)
  | .finish c => c.At T sub q

theorem PollPhase.scanned_eq {T : Nat} {G : List (StreamFrame T)} {A sub q : Nat} {p : Polling}
    (h : PollPhase G A sub q p) : q = sub + p.scanned := by
  cases p with
  | idle => exact h
  | top c => exact h.1.scan_eq
  | gapTest c => exact h.1.scan_eq
  | skip c skip => exact h.1.scan_eq
  | frameType c word => exact h.1.1.scan_eq
  | payload c word => exact h.1.1.scan_eq
  | finish c => exact h.scan_eq

theorem PollPhase.mono {T : Nat} {G G' : List (StreamFrame T)} {A A' sub q : Nat} {p : Polling}
    (h : PollPhase G A sub q p) (hsubset : G ⊆ G') (hle : A ≤ A') : PollPhase G' A' sub q p := by
  cases p with
  | idle => exact h
  | top c => exact h
  | gapTest c => exact h
  | skip c skip => exact ⟨h.1, Nat.le_trans h.2.1 hle, h.2.2⟩
  | frameType c word =>
      obtain ⟨hat, g, hg, hword⟩ := h
      exact ⟨hat, g, hsubset hg, hword⟩
  | payload c word =>
      obtain ⟨hat, g, hg, hword⟩ := h
      exact ⟨hat, g, hsubset hg, hword⟩
  | finish c => exact h

/-- **What is known of the subscriber**: its position is `sub`, the poll under way has come to `q`,
where no frame of the stream is cut, and what was delivered are the committed frames `ds`, in
order. -/
structure ReadOk (stream : HonestStream ids.termLength) (s : ImageThreads ids) (A sub q : Nat)
    (ds : List (StreamFrame ids.termLength)) : Prop where
  subscriber : s.subscriberPosition = sub
  near : A ≤ sub / ids.termLength + 3
  aligned : 32 ∣ q
  boundary : FrameBoundary stream.frames q
  phase : PollPhase s.committed A sub q s.polling
  delivered : s.delivered = ds.map (StreamFrame.fragment ids)
  committed : ∀ g ∈ ds, g ∈ s.committed ∧ g.stop ≤ q
  ordered : ds.Pairwise fun a b => a.stop ≤ b.start

namespace ReadOk

variable {stream : HonestStream ids.termLength} {s : ImageThreads ids} {A recv sub q : Nat}
  {m : ByteStore} {ds : List (StreamFrame ids.termLength)} {c : PollCursor}

theorem receive (h : s.ReadOk stream A sub q ds) {s' : ImageThreads ids} {A' : Nat}
    (hsubscriber : s'.subscriberPosition = s.subscriberPosition) (hpolling : s'.polling = s.polling)
    (hdelivered : s'.delivered = s.delivered) (hcommitted : s.committed ⊆ s'.committed)
    (hle : A ≤ A') (hnear : A' ≤ sub / ids.termLength + 3) : s'.ReadOk stream A' sub q ds where
  subscriber := hsubscriber.trans h.subscriber
  near := hnear
  aligned := h.aligned
  boundary := h.boundary
  phase := hpolling ▸ h.phase.mono hcommitted hle
  delivered := hdelivered.trans h.delivered
  committed g hg := ⟨hcommitted (h.committed g hg).1, (h.committed g hg).2⟩
  ordered := h.ordered

theorem moveTo (h : s.ReadOk stream A sub q ds) {p : Polling} {q' : Nat} (hle : q ≤ q')
    (haligned : 32 ∣ q') (hboundary : FrameBoundary stream.frames q')
    (hphase : PollPhase s.committed A sub q' p) :
    ReadOk stream { s with polling := p } A sub q' ds :=
  { h with
    aligned := haligned
    boundary := hboundary
    phase := hphase
    committed := fun g hg => ⟨(h.committed g hg).1, Nat.le_trans (h.committed g hg).2 hle⟩ }

/-- What a poll reads, some bytes behind its position, is what the line memory holds there. -/
theorem read_eq (h : s.ReadOk stream A sub q ds) (hlog : s.LogOk stream A recv m)
    (hat : c.At ids.termLength sub q) (hterm : sub / ids.termLength ≤ A) {o n : Nat}
    (hfit : c.pos + o + n ≤ ids.termLength) :
    s.buffer.read (s.partBase + c.pos + o) n =
      (lineStore ids s.committed s.appending).read (q + o) n := by
  rw [(hlog.place h.subscriber).1, Nat.add_assoc, hlog.read_eq h.near hterm hfit, hat.position,
    Nat.add_assoc]

theorem readI32_eq (h : s.ReadOk stream A sub q ds) (hlog : s.LogOk stream A recv m)
    (hat : c.At ids.termLength sub q) (hterm : sub / ids.termLength ≤ A) {o : Nat}
    (hfit : c.pos + o + 4 ≤ ids.termLength) :
    s.buffer.readI32 (s.partBase + c.pos + o) =
      (lineStore ids s.committed s.appending).readI32 (q + o) := by
  unfold ByteStore.readI32
  rw [h.read_eq hlog hat hterm hfit]

/-! ### The loads of a poll -/

/-- **At the top of the loop** a poll ends, if it has passed something; or it finds a gap where no frame
is committed; or it finds a committed frame. -/
theorem top_cases (h : s.ReadOk stream A sub q ds) (hlog : s.LogOk stream A recv m)
    (hpolling : s.polling = .top c) (hsafe : s.SafeLoad (.top c)) :
    (s.atTop c = { s with polling := .finish c } ∧ 0 < c.scanned) ∨
    (s.atTop c = { s with polling := .gapTest c } ∧ c.pos < ids.termLength ∧
      ∀ f ∈ s.committed, f.start ≠ q) ∨
    (c.pos < ids.termLength ∧ ∃ g ∈ s.committed, g.start = q ∧
      s.atTop c =
        { s with polling := .frameType c (BitVec.ofNat 32 (32 + g.payload.length)) }) := by
  have hlen : s.state.image.inner.log.termLength = ids.termLength := hlog.holds.logLength
  have hT := hlog.holds.termLength_le
  have hphase := h.phase
  rw [hpolling] at hphase
  obtain ⟨hat, hgoes⟩ := hphase
  by_cases hgo : c.pos < ids.termLength ∧ (c.fragments : Int) < c.limit
  swap
  · exact .inl ⟨atTop_of_end (hlen ▸ hgo), hgoes.resolve_right hgo⟩
  -- an aligned offset before the end of the term has room for a header
  have hroom := hat.room (n := 0) hlog.holds.termLength_dvd h.aligned hgo.1
  obtain ⟨hreappends, hcurrent⟩ := hsafe hgo
  rw [h.subscriber, ← Nat.cast_add, ← hat.scan_eq] at hreappends
  rw [h.subscriber, hlog.activeTerm_eq] at hcurrent
  have hword : sub / ids.termLength ≤ A →
      s.buffer.readI32 (s.partBase + c.pos) = (lineStore ids s.committed s.appending).readI32 q :=
    fun hterm => h.readI32_eq hlog hat hterm (o := 0) (by omega)
  by_cases hpositive : (s.buffer.readI32 (s.partBase + c.pos)).toInt ≤ 0
  · refine .inr (.inl ⟨atTop_of_gap (hlen ▸ hgo) (by omega) hpositive, hgo.1, fun f hf hstart => ?_⟩)
    subst hstart
    rw [hword (hlog.term_le hat hf (Nat.le_refl _)), hlog.word_of_committed hf hreappends] at hpositive
    exact absurd (f.word_pos (by omega)).2 (Int.not_lt.mpr hpositive)
  · have hterm : sub / ids.termLength ≤ A := by
      exact_mod_cast hcurrent.resolve_right hpositive
    rw [hword hterm] at hpositive
    obtain ⟨g, hg, hstart, heq⟩ :=
      hlog.committed_of_word h.aligned (Int.not_le.mp hpositive) (hlog.not_inside h.boundary)
    have hfits := stop_le_of_start hgo.1 (hstart.trans hat.position)
    obtain ⟨hnat, hpos⟩ := g.word_pos (show ids.termLength < 2 ^ 31 by omega)
    refine .inr (.inr ⟨hgo.1, g, hg, hstart,
      atTop_of_frame (hlen ▸ hgo) ((hword hterm).trans heq) hpos ?_ ?_⟩)
    · rw [hnat]
      exact Nat.le_add_right 32 _
    · rw [hnat, hlen]
      exact hfits

/-- **In the search behind a gap** a poll comes to a committed frame or to the end of the term, or it
goes on where no frame is committed. -/
theorem skip_cases (h : s.ReadOk stream A sub q ds) (hlog : s.LogOk stream A recv m) {skip : Nat}
    (hpolling : s.polling = .skip c skip) (hsafe : s.SafeLoad (.skip c skip)) :
    (s.atSkip c skip = { s with polling := .top (c.forward skip) } ∧
      FrameBoundary stream.frames (q + skip)) ∨
    (s.atSkip c skip = { s with polling := .skip c (skip + 32) } ∧
      c.pos + (skip + 32) ≤ ids.termLength ∧ ∀ f ∈ s.committed, f.start ≠ q + skip) := by
  have hlen : s.state.image.inner.log.termLength = ids.termLength := hlog.holds.logLength
  have hT := hlog.holds.termLength_le
  have hphase := h.phase
  rw [hpolling] at hphase
  obtain ⟨hat, hterm, hskip, -, hle⟩ := hphase
  by_cases hin : c.pos + skip < ids.termLength
  swap
  · -- the end of the term, where no frame is cut
    have hend : c.pos + skip = ids.termLength := by omega
    refine .inl ⟨atSkip_of_end (hlen ▸ hend), fun f _ => ?_⟩
    rw [hat.position, Nat.add_assoc, hend, ← Nat.succ_mul]
    exact f.between_terms _
  have hroom := hat.room hlog.holds.termLength_dvd (Nat.dvd_add h.aligned hskip) hin
  obtain ⟨hreappends, hinside⟩ := hsafe hin
  rw [h.subscriber, ← Nat.cast_add, ← hat.scan_eq, ← Nat.cast_add] at hreappends hinside
  have hword := h.readI32_eq hlog hat hterm (o := skip) (by omega)
  rw [Nat.add_assoc] at hword
  by_cases hpositive : 0 < (s.buffer.readI32 (s.partBase + (c.pos + skip))).toInt
  · refine .inl ⟨atSkip_of_word (hlen ▸ hin) hpositive, ?_⟩
    -- the word is not read from inside a frame, so a committed one begins here
    have hnot := hinside hpositive
    rw [hword] at hpositive
    obtain ⟨g, hg, hstart, -⟩ :=
      hlog.committed_of_word (Nat.dvd_add h.aligned hskip) hpositive hnot
    rw [← hstart]
    exact stream.apart.between_start StreamFrame.start_lt_stop (hlog.committed hg)
  · refine .inr ⟨atSkip_of_gap (hlen ▸ hin) hpositive, by omega, fun f hf hstart => ?_⟩
    -- the word of a committed frame would be positive
    rw [hword, ← hstart, hlog.word_of_committed hf (hstart ▸ hreappends)] at hpositive
    exact hpositive (f.word_pos (by omega)).2

/-- **Behind a length word** is the frame: its type is that of data, its payload is what was received,
also while the frame is stored again. -/
theorem frame_eq (h : s.ReadOk stream A sub q ds) (hlog : s.LogOk stream A recv m)
    (hat : c.At ids.termLength sub q) (hlt : c.pos < ids.termLength)
    {g : StreamFrame ids.termLength} (hg : g ∈ s.committed) (hstart : g.start = q) :
    c.pos + g.length ≤ ids.termLength ∧
      s.buffer.readU16 (s.partBase + c.pos + 6) = frameTypeData ∧
      s.buffer.read (s.partBase + c.pos + 32) g.payload.length = g.payload := by
  have hterm := hlog.term_le hat hg (Nat.le_of_eq hstart.symm)
  have hfits := stop_le_of_start hlt (hstart.trans hat.position)
  have hlen := g.length_ge
  obtain ⟨htype, hpayload⟩ := lineStore_frame hlog.apart hg
  rw [hstart] at htype hpayload
  refine ⟨hfits, ?_, ?_⟩
  · rw [← htype]
    unfold ByteStore.readU16
    rw [h.read_eq hlog hat hterm (by omega)]
  · rw [h.read_eq hlog hat hterm (by omega), hpayload]

end ReadOk

end ImageThreads

/-! ## The way of the subscriber -/

namespace Polling

/-- The number of a phase among those that a poll goes through while it reaches no further. -/
def stage : Polling → Nat
  | .skip _ _ => 0
  | .top c => if 0 < c.scanned then 1 else 3
  | .finish _ => 2
  | .idle => 3
  | .gapTest _ => 4
  | .frameType _ _ => 4
  | .payload _ _ => 5

theorem stage_top {c : PollCursor} (h : 0 < c.scanned) : stage (.top c) = 1 := if_pos h

theorem stage_top_le (c : PollCursor) : stage (.top c) ≤ 3 := by
  rw [stage]
  split_ifs <;> decide

theorem stage_le (p : Polling) : p.stage ≤ 5 := by
  cases p with
  | top c => exact Nat.le_trans (stage_top_le c) (by decide)
  | _ => exact Nat.le_of_ble_eq_true rfl

end Polling

namespace ImageThreads

variable {ids : StreamIds}

/-- How far the subscriber has come, with the phase of its poll. -/
def rank (s : ImageThreads ids) : Int := 6 * (s.frontier / 32) + s.polling.stage

/-- **What steps do for the frames that are not reached**, with a number of loads among them: such a
frame stays so or is delivered, and if the receiver is behind it, every load brings the subscriber
nearer. -/
structure Advances (s : ImageThreads ids) (n : Nat) (s' : ImageThreads ids) : Prop where
  committed : s.committed ⊆ s'.committed
  delivered : s.delivered ⊆ s'.delivered
  receiver : s.receiverPosition ≤ s'.receiverPosition
  keeps : ∀ f ∈ s.committed, s.frontier ≤ f.start →
    s'.frontier ≤ f.start ∨ f.fragment ids ∈ s'.delivered
  moves : ∀ f ∈ s.committed, s.frontier ≤ f.start → (f.start : Int) < s.receiverPosition →
    s.rank + n ≤ s'.rank ∨ f.fragment ids ∈ s'.delivered

namespace Advances

variable {s s' s'' : ImageThreads ids} {n n' : Nat}

theorem of_eq (hcommitted : s.committed ⊆ s'.committed) (hdelivered : s'.delivered = s.delivered)
    (hreceiver : s.receiverPosition ≤ s'.receiverPosition)
    (hsubscriber : s'.subscriberPosition = s.subscriberPosition) (hpolling : s'.polling = s.polling) :
    s.Advances 0 s' := by
  have hfrontier : s'.frontier = s.frontier := by
    rw [frontier, frontier, hsubscriber, hpolling]
  refine ⟨hcommitted, fun d hd => hdelivered ▸ hd, hreceiver, fun f _ hle => .inl ?_,
    fun f _ _ _ => .inl ?_⟩
  · rw [hfrontier]
    exact hle
  · rw [rank, rank, hfrontier, hpolling, Nat.cast_zero, Int.add_zero]

theorem refl (s : ImageThreads ids) : s.Advances 0 s :=
  of_eq (List.Subset.refl _) rfl (Int.le_refl _) rfl rfl

theorem trans (h : s.Advances n s') (h' : s'.Advances n' s'') : s.Advances (n + n') s'' where
  committed := List.Subset.trans h.committed h'.committed
  delivered := List.Subset.trans h.delivered h'.delivered
  receiver := Int.le_trans h.receiver h'.receiver
  keeps f hf hle := by
    rcases h.keeps f hf hle with hnext | hdone
    · exact h'.keeps f (h.committed hf) hnext
    · exact .inr (h'.delivered hdone)
  moves f hf hle hrecv := by
    rcases h.keeps f hf hle with hnext | hdone
    · rcases h.moves f hf hle hrecv with hrank | hdone
      · refine (h'.moves f (h.committed hf) hnext (Int.lt_of_lt_of_le hrecv h.receiver)).imp_left ?_
        intro hrank'
        rw [Nat.cast_add]
        omega
      · exact .inr (h'.delivered hdone)
    · exact .inr (h'.delivered hdone)

/-- **A frame that is not reached and not delivered** is not far from where the loads have brought the
subscriber. -/
theorem loads_lt (h : s.Advances n s') {f : StreamFrame ids.termLength} (hf : f ∈ s.committed)
    (hle : s.frontier ≤ f.start) (hrecv : (f.start : Int) < s.receiverPosition)
    (hnot : f.fragment ids ∉ s'.delivered) :
    (n : Int) < 6 * ((f.start : Int) / 32 + 1 - s.frontier / 32) := by
  have hkept := (h.keeps f hf hle).resolve_right hnot
  have hrank := (h.moves f hf hle hrecv).resolve_right hnot
  have hstage := s'.polling.stage_le
  have hdiv : s'.frontier / 32 ≤ (f.start : Int) / 32 := Int.ediv_le_ediv (by decide) hkept
  rw [rank, rank] at hrank
  omega

end Advances

def ThreadsOk (stream : HonestStream ids.termLength) (s : ImageThreads ids) : Prop :=
  ∃ A recv m sub q ds, s.LogOk stream A recv m ∧ s.ReadOk stream A sub q ds

namespace ReadOk

variable {stream : HonestStream ids.termLength} {s : ImageThreads ids} {A recv sub q : Nat}
  {m : ByteStore} {ds : List (StreamFrame ids.termLength)} {c : PollCursor}

theorem frontier_eq (h : s.ReadOk stream A sub q ds) :
    s.frontier = ((q + s.polling.ahead : Nat) : Int) := by
  rw [frontier, h.subscriber, h.phase.scanned_eq, ← Nat.cast_add, ← Nat.cast_add]

/-- **A step that delivers nothing**, in numbers: it passes no committed frame and, if there is
something received, a load moves the poll on. -/
theorem advance (h : s.ReadOk stream A sub q ds) (hlog : s.LogOk stream A recv m)
    {s' : ImageThreads ids} {sub' q' n : Nat} {p : Polling} (hpolling : s.polling = p)
    (h' : s'.ReadOk stream A sub' q' ds) (hreceiver : s'.receiverPosition = s.receiverPosition)
    (hcommitted : s'.committed = s.committed)
    (hkeeps : ∀ f ∈ s.committed, q + p.ahead ≤ f.start → q' + s'.polling.ahead ≤ f.start)
    (hmoves : q + p.ahead < recv → 6 * ((q + p.ahead) / 32) + p.stage + n ≤
      6 * ((q' + s'.polling.ahead) / 32) + s'.polling.stage) : s.Advances n s' := by
  subst hpolling
  refine ⟨?_, ?_, Int.le_of_eq hreceiver.symm, fun f hf hle => .inl ?_,
    fun f hf hle hrecv => .inl ?_⟩
  · rw [hcommitted]
    exact List.Subset.refl _
  · rw [h.delivered, h'.delivered]
    exact List.Subset.refl _
  · rw [h.frontier_eq, Nat.cast_le] at hle
    rw [h'.frontier_eq, Nat.cast_le]
    exact hkeeps f hf hle
  · rw [h.frontier_eq, Nat.cast_le] at hle
    rw [hlog.receiver, Nat.cast_lt] at hrecv
    have hrank := hmoves (Nat.lt_of_le_of_lt hle hrecv)
    rw [rank, rank, h.frontier_eq, h'.frontier_eq]
    exact_mod_cast hrank

theorem loaded (h : s.ReadOk stream A sub q ds) (hlog : s.LogOk stream A recv m) {p p' : Polling}
    {q' n : Nat} (hpolling : s.polling = p) (hread : ReadOk stream { s with polling := p' } A sub q' ds)
    (hkeeps : ∀ f ∈ s.committed, q + p.ahead ≤ f.start → q' + p'.ahead ≤ f.start)
    (hmoves : q + p.ahead < recv →
      6 * ((q + p.ahead) / 32) + p.stage + n ≤ 6 * ((q' + p'.ahead) / 32) + p'.stage) :
    ThreadsOk stream { s with polling := p' } ∧ s.Advances n { s with polling := p' } :=
  ⟨⟨A, recv, m, sub, q', ds, hlog.congr rfl rfl rfl, hread⟩,
    h.advance hlog hpolling hread rfl rfl hkeeps hmoves⟩

/-- **The top of the loop.** -/
theorem load_top (h : s.ReadOk stream A sub q ds) (hlog : s.LogOk stream A recv m)
    (hpolling : s.polling = .top c) (hsafe : s.SafeLoad (.top c)) :
    (s.atTop c).ThreadsOk stream ∧ s.Advances 1 (s.atTop c) := by
  have hstage := Polling.stage_top_le c
  have haligned := h.aligned
  have hphase := h.phase
  rw [hpolling] at hphase
  rcases h.top_cases hlog hpolling hsafe with ⟨hload, hscanned⟩ | ⟨hload, hlt, hnone⟩ |
    ⟨hlt, g, hg, hstart, hload⟩
  · rw [hload]
    refine h.loaded hlog hpolling (h.moveTo (Nat.le_refl q) haligned h.boundary hphase.1)
      (fun _ _ hle => hle) fun _ => ?_
    rw [Polling.stage_top hscanned]
    exact Nat.le_refl _
  · rw [hload]
    refine h.loaded hlog hpolling (h.moveTo (Nat.le_refl q) haligned h.boundary ⟨hphase.1, hlt⟩)
      (fun f hf hle => ?_) fun _ => ?_
    · exact Nat.lt_of_le_of_ne hle (hnone f hf).symm
    · change 6 * (q / 32) + Polling.stage (.top c) + 1 ≤ 6 * ((q + 1) / 32) + 4
      omega
  · rw [hload]
    refine h.loaded hlog hpolling
      (h.moveTo (Nat.le_refl q) haligned h.boundary ⟨⟨hphase.1, hlt⟩, g, hg, hstart, rfl⟩)
      (fun _ _ hle => hle) fun _ => ?_
    change 6 * (q / 32) + Polling.stage (.top c) + 1 ≤ 6 * (q / 32) + 4
    omega

/-- **The test for a gap.** -/
theorem load_gapTest (h : s.ReadOk stream A sub q ds) (hlog : s.LogOk stream A recv m)
    (hpolling : s.polling = .gapTest c) :
    (s.atGapTest c).ThreadsOk stream ∧ s.Advances 1 (s.atGapTest c) := by
  have haligned := h.aligned
  have hphase := h.phase
  rw [hpolling] at hphase
  obtain ⟨hat, hlt⟩ := hphase
  by_cases hrecv : s.receiverPosition ≤ s.subscriberPosition + c.scanned
  · have hload : s.atGapTest c = { s with polling := .finish c } := if_pos hrecv
    rw [hload]
    rw [hlog.receiver, h.subscriber, ← Nat.cast_add, ← hat.scan_eq, Nat.cast_le] at hrecv
    refine h.loaded hlog hpolling (h.moveTo (Nat.le_refl q) haligned h.boundary hat)
      (fun _ _ hle => ?_) fun hmore => ?_
    · exact Nat.le_trans (Nat.le_succ q) hle
    · exact absurd (Nat.le_trans hrecv (Nat.le_succ q)) (Nat.not_le.mpr hmore)
  · have hload : s.atGapTest c = { s with polling := .skip c 32 } := if_neg hrecv
    rw [hload]
    rw [hlog.receiver, h.subscriber, ← Nat.cast_add, ← hat.scan_eq, Nat.cast_le, Nat.not_le] at hrecv
    -- something is received behind the position, so its term is one of the log
    have hterm : sub / ids.termLength < A + 1 := by
      have hscan := hat.scan_eq
      have hle := hlog.receiver_le
      exact (Nat.div_lt_iff_lt_mul hlog.holds.termLength_pos).mpr (by omega)
    have hroom := hat.room (n := 0) hlog.holds.termLength_dvd h.aligned hlt
    refine h.loaded hlog hpolling (h.moveTo (Nat.le_refl q) haligned h.boundary
      ⟨hat, Nat.le_of_lt_succ hterm, Nat.dvd_refl 32, by decide, hroom⟩) (fun f _ hle => ?_) fun _ => ?_
    · have hf := f.aligned
      change q + 1 ≤ f.start at hle
      change q + 32 ≤ f.start
      omega
    · change 6 * ((q + 1) / 32) + 4 + 1 ≤ 6 * ((q + 32) / 32) + 0
      omega

/-- **The search behind a gap.** -/
theorem load_skip (h : s.ReadOk stream A sub q ds) (hlog : s.LogOk stream A recv m) {skip : Nat}
    (hpolling : s.polling = .skip c skip) (hsafe : s.SafeLoad (.skip c skip)) :
    (s.atSkip c skip).ThreadsOk stream ∧ s.Advances 1 (s.atSkip c skip) := by
  have haligned := h.aligned
  have hphase := h.phase
  rw [hpolling] at hphase
  obtain ⟨hat, hterm, hdvd, hpos, hle⟩ := hphase
  rcases h.skip_cases hlog hpolling hsafe with ⟨hload, hbound⟩ | ⟨hload, hroom, hnone⟩
  · have hscanned : 0 < (c.forward skip).scanned := Nat.lt_of_lt_of_le hpos (Nat.le_add_left _ _)
    rw [hload]
    refine h.loaded hlog hpolling (h.moveTo (Nat.le_add_right q skip) (Nat.dvd_add haligned hdvd)
      hbound ⟨hat.forward hle, .inl hscanned⟩) (fun _ _ hle => hle) fun _ => ?_
    rw [Polling.stage_top hscanned]
    exact Nat.le_refl _
  · rw [hload]
    refine h.loaded hlog hpolling (h.moveTo (Nat.le_refl q) haligned h.boundary
      ⟨hat, hterm, Nat.dvd_add hdvd (Nat.dvd_refl 32), Nat.lt_add_right 32 hpos, hroom⟩)
      (fun f hf hle => ?_) fun _ => ?_
    · have hf' := f.aligned
      have hne := hnone f hf
      change q + skip ≤ f.start at hle
      change q + (skip + 32) ≤ f.start
      omega
    · change 6 * ((q + skip) / 32) + 0 + 1 ≤ 6 * ((q + (skip + 32)) / 32) + 0
      omega

/-- **The type of a frame.** -/
theorem load_frameType (h : s.ReadOk stream A sub q ds) (hlog : s.LogOk stream A recv m)
    {word : BitVec 32} (hpolling : s.polling = .frameType c word) :
    (s.atFrameType c word).ThreadsOk stream ∧ s.Advances 1 (s.atFrameType c word) := by
  have hphase := h.phase
  rw [hpolling] at hphase
  obtain ⟨⟨hat, hlt⟩, g, hg, hstart, -⟩ := id hphase
  have hload : s.atFrameType c word = { s with polling := .payload c word } := by
    refine if_neg ?_
    rw [(h.frame_eq hlog hat hlt hg hstart).2.1]
    decide
  rw [hload]
  exact h.loaded hlog hpolling (h.moveTo (Nat.le_refl q) h.aligned h.boundary hphase)
    (fun _ _ hle => hle) fun _ => Nat.le_refl _

theorem fragment_eq (h : s.ReadOk stream A sub q ds) (hlog : s.LogOk stream A recv m)
    (hat : c.At ids.termLength sub q) (hlt : c.pos < ids.termLength)
    {g : StreamFrame ids.termLength} (hg : g ∈ s.committed) (hstart : g.start = q) :
    (⟨s.subscriberPosition + c.scanned, s.buffer.read (s.partBase + c.pos + 32) g.payload.length,
      s.state.image.inner.sessionId, s.state.image.inner.streamId⟩ : Fragment) =
      g.fragment ids := by
  obtain ⟨hsession, hstream⟩ : s.state.image.inner.sessionId = ids.sessionId ∧
      s.state.image.inner.streamId = ids.streamId := hlog.holds.innerStream
  rw [(h.frame_eq hlog hat hlt hg hstart).2.2, h.subscriber, ← Nat.cast_add, ← hat.scan_eq, ← hstart,
    hsession, hstream]
  rfl

/-- **The payload of a frame** is handed out. -/
theorem load_payload (h : s.ReadOk stream A sub q ds) (hlog : s.LogOk stream A recv m)
    {word : BitVec 32} (hpolling : s.polling = .payload c word) :
    (s.atPayload c word).ThreadsOk stream ∧ s.Advances 1 (s.atPayload c word) := by
  have hphase := h.phase
  rw [hpolling] at hphase
  obtain ⟨⟨hat, hlt⟩, g, hg, hstart, rfl⟩ := hphase
  have hT := hlog.holds.termLength_le
  have hlen := g.length_ge
  have hfits := (h.frame_eq hlog hat hlt hg hstart).1
  have hnat := (g.word_pos (show ids.termLength < 2 ^ 31 by omega)).1
  -- the cursor behind the frame
  let c' : PollCursor := { c.forward g.length with fragments := c.fragments + 1 }
  have hscanned : 0 < c'.scanned := show 0 < c.scanned + g.length by omega
  have hload : s.atPayload c (BitVec.ofNat 32 (32 + g.payload.length)) =
      { s with polling := .top c', delivered := s.delivered ++ [g.fragment ids] } := by
    rw [atPayload, hnat, show 32 + g.payload.length - dataHeaderLength = g.payload.length from
      Nat.add_sub_cancel_left .., ← h.fragment_eq hlog hat hlt hg hstart]
    rfl
  have hstop : q + g.length = g.stop := hstart ▸ rfl
  have hread : ReadOk stream { s with polling := .top c', delivered := s.delivered ++ [g.fragment ids] }
      A sub (q + g.length) (ds ++ [g]) := by
    have hforward := hat.forward hfits
    refine ⟨h.subscriber, h.near, hstop ▸ g.stop_dvd, ?_,
      ⟨⟨hforward.pos_eq, hforward.pos_le, hforward.scan_eq⟩, .inl hscanned⟩, ?_, fun f hf => ?_, ?_⟩
    · rw [hstop]
      exact stream.apart.between_stop StreamFrame.start_lt_stop (hlog.committed hg)
    · rw [List.map_append, ← h.delivered]
      rfl
    · rcases List.mem_append.mp hf with hold | hnew
      · exact ⟨(h.committed f hold).1, Nat.le_add_right_of_le (h.committed f hold).2⟩
      · obtain rfl := List.mem_singleton.mp hnew
        exact ⟨hg, Nat.le_of_eq hstop.symm⟩
    · refine List.pairwise_append.mpr ⟨h.ordered, List.pairwise_singleton _ g, fun f hf b hb => ?_⟩
      obtain rfl := List.mem_singleton.mp hb
      rw [hstart]
      exact (h.committed f hf).2
  -- the frontier of the poll moves to the end of the frame, and its rank goes up
  rw [hload]
  refine ⟨⟨A, recv, m, sub, q + g.length, ds ++ [g], hlog.congr rfl rfl rfl, hread⟩,
    List.Subset.refl _, List.subset_append_left _ _, Int.le_refl _, fun f hf hle => ?_,
    fun f hf hle hrecv => .inl ?_⟩
  · -- a frame that is not reached is this one or lies behind it
    rw [h.frontier_eq, hpolling, Nat.cast_le] at hle
    rw [hread.frontier_eq, Nat.cast_le]
    rcases stream.apart f (hlog.committed hf) g (hlog.committed hg) with rfl | hbefore | hafter
    · exact .inr (List.mem_append_right _ (List.mem_singleton.mpr rfl))
    · have hlt := f.start_lt_stop
      change q + 0 ≤ f.start at hle
      omega
    · rw [← hstop] at hafter
      exact .inl hafter
  · rw [rank, rank, h.frontier_eq, hread.frontier_eq, hpolling]
    change 6 * (((q + 0 : Nat) : Int) / 32) + ((5 : Nat) : Int) + ((1 : Nat) : Int) ≤
      6 * (((q + g.length + 0 : Nat) : Int) / 32) + ((Polling.stage (.top c') : Nat) : Int)
    rw [Polling.stage_top hscanned]
    omega

/-- **The end of a poll.** -/
theorem load_finish (h : s.ReadOk stream A sub q ds) (hlog : s.LogOk stream A recv m)
    (hpolling : s.polling = .finish c) :
    ThreadsOk stream { s with state := s.state.scanned c.scanned, polling := .idle } ∧
      s.Advances 1 { s with state := s.state.scanned c.scanned, polling := .idle } := by
  obtain ⟨hentry, hinner, hposition⟩ := s.state.scanned_spec c.scanned
  have hphase := h.phase
  rw [hpolling] at hphase
  have hscan := hphase.scan_eq
  have hreceiver : (s.state.scanned c.scanned).image.inner.receiverPosition = s.receiverPosition :=
    (congrArg ImageInner.receiverPosition hinner).trans rfl
  have hlog' : LogOk stream { s with state := s.state.scanned c.scanned, polling := .idle } A recv
      m := by
    refine ⟨?_, ?_, hlog.frame, hlog.committed, hreceiver.trans hlog.receiver, hlog.receiver_le,
      hlog.received⟩
    · have hholds := hlog.holds
      dsimp only
      rw [hentry, hinner]
      exact { hholds with }
    · exact (congrArg (fun inner => inner.log.buffer) hinner).trans hlog.buffer
  have hread : ReadOk stream { s with state := s.state.scanned c.scanned, polling := .idle } A q q
      ds := by
    refine ⟨?_, ?_, h.aligned, h.boundary, rfl, h.delivered, h.committed, h.ordered⟩
    · rw [hscan, Nat.cast_add, ← h.subscriber]
      exact hposition
    · exact Nat.le_trans h.near (Nat.add_le_add_right (Nat.div_le_div_right (by omega)) 3)
  exact ⟨⟨A, recv, m, q, q, ds, hlog', hread⟩,
    h.advance hlog hpolling hread hreceiver rfl (fun _ _ hle => hle) fun _ => Nat.le_refl _⟩

/-- **The next load of a poll** under way. -/
theorem load (h : s.ReadOk stream A sub q ds) (hlog : s.LogOk stream A recv m)
    (hsafe : s.SafeLoad s.polling) :
    s.load.ThreadsOk stream ∧ s.Advances (if s.polling.busy then 1 else 0) s.load := by
  rw [ImageThreads.load]
  cases hpolling : s.polling with
  | idle => exact ⟨⟨A, recv, m, sub, q, ds, hlog, h⟩, .refl s⟩
  | top c => exact h.load_top hlog hpolling (hpolling ▸ hsafe)
  | gapTest c => exact h.load_gapTest hlog hpolling
  | skip c skip => exact h.load_skip hlog hpolling (hpolling ▸ hsafe)
  | frameType c word => exact h.load_frameType hlog hpolling
  | payload c word => exact h.load_payload hlog hpolling
  | finish c => exact h.load_finish hlog hpolling

/-- **A poll begins.** -/
theorem poll (h : s.ReadOk stream A sub q ds) (hlog : s.LogOk stream A recv m) (limit : Int) :
    (s.poll limit).ThreadsOk stream ∧ s.Advances 0 (s.poll limit) := by
  have hsame : s.ThreadsOk stream ∧ s.Advances 0 s :=
    ⟨⟨A, recv, m, sub, q, ds, hlog, h⟩, .refl s⟩
  rw [ImageThreads.poll]
  cases hpolling : s.polling with
  | idle =>
      dsimp only
      split_ifs with hlimit
      · exact hsame
      · have hphase := h.phase
        rw [hpolling] at hphase
        obtain rfl : q = sub := hphase
        have hoff := (hlog.place h.subscriber).2
        have hlt := Nat.mod_lt q hlog.holds.termLength_pos
        rw [← hoff] at hlt
        exact h.loaded hlog hpolling (h.moveTo (Nat.le_refl q) h.aligned h.boundary
          ⟨⟨hoff, Nat.le_of_lt hlt, rfl⟩, .inr ⟨hlt, Int.not_le.mp hlimit⟩⟩)
          (fun _ _ hle => hle) fun _ => Nat.le_refl _
  | top c => exact hsame
  | gapTest c => exact hsame
  | skip c skip => exact hsame
  | frameType c word => exact hsame
  | payload c word => exact hsame
  | finish c => exact hsame

end ReadOk

/-! ## Runs -/

/-- The condition of a run: frames of one stream, a receiver within three terms of the subscriber, and
loads that are not disturbed. -/
def Current (stream : HonestStream ids.termLength) (s : ImageThreads ids)
    (a : ThreadAction ids.termLength) : Prop :=
  s.Near stream a ∧ s.Undisturbed a

instance (stream : HonestStream ids.termLength) (s : ImageThreads ids)
    (a : ThreadAction ids.termLength) : Decidable (s.Current stream a) :=
  inferInstanceAs (Decidable (_ ∧ _))

def pollLoads (s : ImageThreads ids) : ThreadAction ids.termLength → Nat
  | .load => if s.polling.busy then 1 else 0
  | _ => 0

def runLoads (s : ImageThreads ids) : List (ThreadAction ids.termLength) → Nat
  | [] => 0
  | a :: as => s.pollLoads a + runLoads (s.step a) as

/-- **What the subscriber has seen**: fragments at increasing positions, each a committed frame. -/
def SeenOnce (s : ImageThreads ids) : Prop :=
  (s.delivered.map Fragment.position).Pairwise (· < ·) ∧
    ∀ d ∈ s.delivered, ∃ f ∈ s.committed, d = f.fragment ids

namespace ThreadsOk

variable {stream : HonestStream ids.termLength} {s : ImageThreads ids}

/-- **Step.** -/
theorem step (h : s.ThreadsOk stream) {a : ThreadAction ids.termLength}
    (hcurrent : s.Current stream a) :
    (s.step a).ThreadsOk stream ∧ s.Advances (s.pollLoads a) (s.step a) := by
  obtain ⟨A, recv, m, sub, q, ds, hlog, hread⟩ := h
  cases a with
  | data handler f =>
      obtain ⟨⟨⟨hmem, hterm⟩, hnear⟩, -⟩ := hcurrent
      obtain ⟨A', m', hlog', hle, hA'⟩ := hlog.data handler hmem hterm
      obtain ⟨hsubscriber, hpolling, hdelivered, hcommitted⟩ := s.data_subscriber handler f
      -- the term of the frame is within three of the subscriber's
      have hnear' : A' ≤ sub / ids.termLength + 3 := by
        have hold := hread.near
        rw [hlog.activeTerm_eq, hread.subscriber] at hnear
        have hnew : f.term ≤ A ∨ f.term ≤ sub / ids.termLength + 3 := by exact_mod_cast hnear
        omega
      have hsubset : s.committed ⊆ (s.data handler f).committed := fun g hg => hcommitted ▸ hg
      exact ⟨⟨A', recv, m', sub, q, ds, hlog',
          hread.receive hsubscriber hpolling hdelivered hsubset hle hnear'⟩,
        .of_eq hsubset hdelivered (Int.le_of_eq (hlog.receiver.trans hlog'.receiver.symm)) hsubscriber
          hpolling⟩
  | store =>
      obtain ⟨recv', m', hlog', hle⟩ := hlog.store
      obtain ⟨hsubscriber, hpolling, hdelivered, hsubset⟩ := s.store_subscriber
      have hreceiver : s.receiverPosition ≤ s.store.receiverPosition := by
        rw [hlog.receiver, hlog'.receiver]
        exact_mod_cast hle
      exact ⟨⟨A, recv', m', sub, q, ds, hlog',
          hread.receive hsubscriber hpolling hdelivered hsubset (Nat.le_refl A) hread.near⟩,
        .of_eq hsubset hdelivered hreceiver hsubscriber hpolling⟩
  | poll limit => exact hread.poll hlog limit
  | load => exact hread.load hlog hcurrent.2

/-- **Run.** -/
theorem run (h : s.ThreadsOk stream) {as : List (ThreadAction ids.termLength)}
    (hrun : Meets (Current stream) ImageThreads.step s as) :
    (Runs.run ImageThreads.step s as).ThreadsOk stream ∧
      s.Advances (s.runLoads as) (Runs.run ImageThreads.step s as) := by
  induction as generalizing s with
  | nil => exact ⟨h, .refl s⟩
  | cons a as ih =>
      obtain ⟨hcurrent, hrest⟩ := hrun
      obtain ⟨hnext, hadvances⟩ := h.step hcurrent
      obtain ⟨hlast, hadvances'⟩ := ih hnext hrest
      exact ⟨hlast, hadvances.trans hadvances'⟩

theorem seenOnce (h : s.ThreadsOk stream) : s.SeenOnce := by
  obtain ⟨A, recv, m, sub, q, ds, -, hread⟩ := h
  refine ⟨?_, fun d hd => ?_⟩
  · rw [hread.delivered]
    exact fragments_pairwise ids hread.ordered
  · rw [hread.delivered] at hd
    obtain ⟨f, hf, rfl⟩ := List.mem_map.mp hd
    exact ⟨f, (hread.committed f hf).1, rfl⟩

/-- The receiver is behind every committed frame whose call is over. -/
theorem start_lt_receiver (h : s.ThreadsOk stream) {f : StreamFrame ids.termLength}
    (hf : f ∈ s.committed) (hover : s.appending.frame? ≠ some f) :
    (f.start : Int) < s.receiverPosition := by
  obtain ⟨A, recv, m, sub, q, ds, hlog, -⟩ := h
  have hstop := (hlog.received f hf).resolve_right hover
  rw [hlog.receiver]
  exact_mod_cast Nat.lt_of_lt_of_le f.start_lt_stop hstop

end ThreadsOk

/-- **A new image** at a position where no frame of the stream is cut. -/
theorem threadsOk_onSetup {handler : InlineHandler} {setup : SetupHeader} {source : SockAddr}
    {s : ImageState} (hsetup : ImageState.onSetup handler setup source = some s)
    (hactive : setup.activeTerm < 2 ^ 31) (hoffset : setup.termOffset.toNat ≤ setup.ids.termLength)
    (haligned : 32 ∣ setup.termOffset.toNat) {stream : HonestStream setup.ids.termLength}
    (hboundary : FrameBoundary stream.frames setup.position) :
    (start setup.ids s).ThreadsOk stream := by
  have hstart := (ImageRun.delivers_onSetup hsetup hactive hoffset haligned hboundary).1
  refine ⟨setup.activeTerm, setup.position, s.image.inner.log.buffer, setup.position, setup.position,
    [], ⟨hstart.keeps.holds, rfl, fun f hf => ?_, List.nil_subset _, hstart.receiver, hstart.recv_le,
      fun g hg => ?_⟩, ⟨?_, hstart.near, hstart.aligned, hboundary, rfl, rfl, fun g hg => ?_,
      List.Pairwise.nil⟩⟩
  · cases hf
  · cases hg
  · exact s.image.subscriber_sync.symm.trans hstart.subscriber
  · cases hg

/-- **Receiving a frame again does not lose it**, in every interleaving of the stores of `on_data` and
the loads of `poll_fragments` in which the receiver stays within three terms of the subscriber and
the loads are not disturbed. A frame that is committed before the subscriber's scan has reached it is
delivered when the scan has passed it; once its call is over, that takes at most six loads for every
32 bytes up to it. No fragment is delivered twice, and each is a committed frame with its
payload. -/
theorem committed_delivered {handler : InlineHandler} {setup : SetupHeader} {source : SockAddr}
    {image : ImageState} (hsetup : ImageState.onSetup handler setup source = some image)
    (hactive : setup.activeTerm < 2 ^ 31) (hoffset : setup.termOffset.toNat ≤ setup.ids.termLength)
    (haligned : 32 ∣ setup.termOffset.toNat) (stream : HonestStream setup.ids.termLength)
    (hboundary : FrameBoundary stream.frames setup.position)
    (as bs : List (ThreadAction setup.ids.termLength))
    (hrun : Meets (Current stream) step (start setup.ids image) (as ++ bs)) :
    let s := run step (start setup.ids image) as
    let s' := run step s bs
    (∀ f ∈ s.committed, s.frontier ≤ f.start →
      (f.start < s'.frontier → f.fragment setup.ids ∈ s'.delivered) ∧
      (s.appending.frame? ≠ some f →
        6 * ((f.start : Int) / 32 + 1 - s.frontier / 32) ≤ s.runLoads bs →
        f.fragment setup.ids ∈ s'.delivered)) ∧
    s'.SeenOnce := by
  intro s s'
  obtain ⟨hfirst, hsecond⟩ := meets_append.mp hrun
  have hstart := threadsOk_onSetup hsetup hactive hoffset haligned hboundary
  have hreached : s.ThreadsOk stream := (hstart.run hfirst).1
  obtain ⟨hlast, hadvances⟩ := hreached.run hsecond
  refine ⟨fun f hf hle => ⟨fun hpassed => ?_, fun hover hloads => ?_⟩, hlast.seenOnce⟩
  · exact (hadvances.keeps f hf hle).resolve_left (Int.not_le.mpr hpassed)
  · by_contra hnot
    have hlt := hadvances.loads_lt hf hle (hreached.start_lt_receiver hf hover) hnot
    exact absurd hloads (Int.not_le.mpr hlt)

/-- A frame is stored again between the loads of the poll that delivers it. -/
theorem committed_delivered_between_loads :
    let s := run step (start ImageRun.smallSetup.ids ImageRun.smallImage)
      [.data ImageRun.quietHandler (ImageRun.smallFrame 0), .store, .store, .store, .store]
    let s' := run step s
      [.poll 1, .load, .data ImageRun.quietHandler (ImageRun.smallFrame 0), .store, .load, .store,
        .load, .store, .store, .load, .load, .poll 1, .load]
    (ImageRun.smallFrame 0).fragment ImageRun.smallSetup.ids ∈ s'.delivered :=
  ((committed_delivered (Option.some_get _).symm (by decide) (by decide) (by decide)
    (ImageRun.smallStream 1) (by decide +kernel) _ _ (by decide +kernel)).1
      (ImageRun.smallFrame 0) (by decide +kernel) (by decide +kernel)).2 (by decide +kernel)
      (by decide +kernel)

/-- **A frame is lost when it is received again.** Two frames, each filling its term, are committed;
the subscriber is at position 0, the receiver at 128. The first frame arrives again, and its header is
stored with length zero. A poll now finds a gap at position 0 and, as the receiver is further on, skips
the term: the subscriber is at 64 and has been handed nothing. After the call has ended the next poll
delivers the second frame; the first is never delivered. -/
theorem frame_lost_on_reappend :
    let as : List (ThreadAction ImageRun.smallSetup.ids.termLength) :=
      [.data ImageRun.quietHandler (ImageRun.smallFrame 0), .store, .store, .store, .store,
        .data ImageRun.quietHandler (ImageRun.smallFrame 1), .store, .store, .store, .store,
        .data ImageRun.quietHandler (ImageRun.smallFrame 0), .store]
    let bs : List (ThreadAction ImageRun.smallSetup.ids.termLength) :=
      [.poll 1, .load, .load, .load, .load, .load, .load]
    let cs : List (ThreadAction ImageRun.smallSetup.ids.termLength) :=
      [.store, .store, .store, .poll 1, .load, .load, .load, .load, .load]
    let s := run step (start ImageRun.smallSetup.ids ImageRun.smallImage) as
    Meets (Near (ImageRun.smallStream 2)) step (start ImageRun.smallSetup.ids ImageRun.smallImage)
        (as ++ bs ++ cs) ∧
      ImageRun.smallFrame 0 ∈ s.committed ∧ s.frontier = 0 ∧ s.receiverPosition = 128 ∧
      (run step s bs).subscriberPosition = 64 ∧ (run step s bs).delivered = [] ∧
      (run step s (bs ++ cs)).delivered.map Fragment.position = [64] ∧
      (run step s (bs ++ cs)).subscriberPosition = 128 := by
  decide +kernel

end ImageThreads

end AeronRs
