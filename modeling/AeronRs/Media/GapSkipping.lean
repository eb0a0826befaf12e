import AeronRs.Media.PollScan

/-! # Polling over gaps

A subscriber that polls until it has reached the receiver's position. Between the two positions, in up
to four terms, committed frames lie in any way: with gaps before, between and after them, pads among
them, and whatever contents. **`Layout`** says so of the log. Whatever the limits of the polls are,
they hand out exactly the data frames from the first position on, in order
(`drain_delivers_what_is_there`). -/

namespace AeronRs

/-- **A committed frame**, in terms of length `T`: the position of its length word, from the beginning
of the subscriber's term, and the value of that word. -/
structure CommittedFrame (T : Nat) where
  start : Nat
  length : Nat
  length_ge : 32 ≤ length
  length_lt : length < 2 ^ 31
  aligned : 32 ∣ start
  inTerm : start % T + alignFrameLength length ≤ T

namespace CommittedFrame

variable {T : Nat}

def stop (f : CommittedFrame T) : Nat := f.start + alignFrameLength f.length

theorem start_lt_stop (f : CommittedFrame T) : f.start < f.stop := by
  have := f.length_ge
  have := le_alignFrameLength f.length
  unfold stop
  omega

/-- The address of a position that is counted from the beginning of term `t`. -/
def addressOf (T : Nat) (t : Int) (q : Nat) : Nat :=
  ((t + ((q / T : Nat) : Int)) % 4).toNat * T + q % T

def IsData (inner : ImageInner) (t : Int) (f : CommittedFrame T) : Prop :=
  inner.log.buffer.readU16 (addressOf T t f.start + 6) ≠ frameTypePad

instance (inner : ImageInner) (t : Int) (f : CommittedFrame T) : Decidable (f.IsData inner t) :=
  inferInstanceAs (Decidable (_ ≠ _))

/-- What the handler is given for a frame: everything after its header. -/
def fragment (inner : ImageInner) (t : Int) (f : CommittedFrame T) : Fragment where
  position := t * T + f.start
  payload := inner.log.buffer.read (addressOf T t f.start + 32) (f.length - 32)
  sessionId := inner.sessionId
  streamId := inner.streamId

end CommittedFrame

open CommittedFrame

/-- **What the log holds** of the terms from `t` to `t + n - 1`: the frames, at their places, and zero
length words outside of them. -/
structure Layout (T : Nat) (log : RawLog) (t : Int) (n : Nat) (frames : List (CommittedFrame T)) :
    Prop where
  termLength : log.termLength = T
  terms : n ≤ 4
  sorted : frames.Pairwise fun f g => f.stop ≤ g.start
  words : ∀ f ∈ frames, log.buffer.readI32 (addressOf T t f.start) = BitVec.ofNat 32 f.length
  zeros : ∀ q < n * T, 32 ∣ q → (∀ f ∈ frames, f.stop ≤ q ∨ q < f.start) →
    log.buffer.readI32 (addressOf T t q) = 0

/-- **The two positions**, from the beginning of term `t`: the subscriber's is at no frame's middle,
the receiver's is the end of the last frame. -/
structure Unread {T : Nat} (inner : ImageInner) (t : Int) (n : Nat) (frames : List (CommittedFrame T))
    (sub recv : Nat) : Prop where
  subscriber : inner.subscriberPosition = t * T + sub
  receiver : inner.receiverPosition = t * T + recv
  aligned : 32 ∣ sub
  boundary : Between CommittedFrame.start CommittedFrame.stop frames sub
  sub_le : sub ≤ recv
  recv_le : recv ≤ n * T
  stop_le : ∀ f ∈ frames, f.stop ≤ recv
  last : recv = sub ∨ ∃ f ∈ frames, f.stop = recv

namespace Layout

variable {T n : Nat} {log : RawLog} {t : Int} {frames : List (CommittedFrame T)}

theorem termLength_dvd (h : Layout T log t n frames) : 32 ∣ T := by
  rw [← h.termLength]
  exact log.termLength_dvd

theorem laidOut (h : Layout T log t n frames) {j : Nat} (hj : j < n) :
    LaidOut log.buffer (((t + (j : Int)) % 4).toNat * T) T (j * T) CommittedFrame.start
      CommittedFrame.stop CommittedFrame.length frames := by
  have hdvd := h.termLength_dvd
  -- within one term the addresses run on from the start of its partition
  have haddress : ∀ pos < T, addressOf T t (j * T + pos) = ((t + (j : Int)) % 4).toNat * T + pos := by
    intro pos hpos
    obtain ⟨hdiv, hmod⟩ := term_offset_of_lt j hpos
    rw [addressOf, hdiv, hmod]
  refine ⟨hdvd, Dvd.dvd.mul_left hdvd j, CommittedFrame.length_ge, fun _ => rfl,
    apart_of_pairwise h.sorted, fun f _ => f.aligned, fun f _ pos hpos hstart => ?_,
    fun f hf pos hpos hstart => ?_, fun pos hpos hdvd' hbound hnone => ?_⟩
  · have hfit := f.inTerm
    rwa [hstart, (term_offset_of_lt j hpos).2] at hfit
  · have hlt := f.length_lt
    have hge := f.length_ge
    have hword := h.words f hf
    rw [hstart, haddress pos hpos] at hword
    rw [hword, toInt_ofNat_of_lt hlt, BitVec.toNat_ofNat]
    omega
  · have hq : j * T + pos < n * T := by
      have hmul := Nat.mul_le_mul_right T (Nat.succ_le_of_lt hj)
      rw [Nat.succ_mul] at hmul
      omega
    have hzero := h.zeros _ hq (Nat.dvd_add (Dvd.dvd.mul_left hdvd j) hdvd') fun f hf => by
      have := hbound f hf
      have := hnone f hf
      omega
    rwa [haddress pos hpos] at hzero

end Layout

/-- A frame of term `t + j` as the poll of that term sees it. -/
theorem Layout.payloadOf_eq {T : Nat} {inner : ImageInner} {t : Int} {j : Nat} {f : CommittedFrame T}
    (hlo : j * T ≤ f.start) (hhi : f.start < j * T + T) :
    (LaidOut.IsData inner.log.buffer (((t + (j : Int)) % 4).toNat * T) (j * T) CommittedFrame.start f ↔
        f.IsData inner t) ∧
      LaidOut.payloadOf inner.log.buffer (((t + (j : Int)) % 4).toNat * T) (j * T)
          CommittedFrame.start CommittedFrame.length f =
        (f.start - j * T, (f.fragment inner t).payload) := by
  obtain ⟨pos, hpos⟩ := Nat.exists_eq_add_of_le hlo
  have haddress : addressOf T t f.start =
      ((t + (j : Int)) % 4).toNat * T + (f.start - j * T) := by
    obtain ⟨hdiv, hmod⟩ := term_offset_of_lt j (show pos < T by omega)
    rw [addressOf, hpos, hdiv, hmod, Nat.add_sub_cancel_left]
  unfold LaidOut.IsData LaidOut.payloadOf CommittedFrame.IsData fragment
  rw [haddress]
  exact ⟨Iff.rfl, rfl⟩

namespace Unread

variable {T n : Nat} {inner : ImageInner} {t : Int} {frames : List (CommittedFrame T)}
  {sub recv : Nat}

/-- **The loop of a poll** with something to read. -/
theorem scan_eq (h : Unread inner t n frames sub recv) (hlayout : Layout T inner.log t n frames)
    (hmore : sub < recv) {limit : Int} (hlimit : 0 < limit) :
    ∃ ds sub', Scan CommittedFrame.start CommittedFrame.stop frames sub ds sub' ∧
      (sub + 32 ≤ sub' ∧ sub' ≤ recv ∧ 32 ∣ sub') ∧
      SubscriberImage.termOffset inner ⟨t * T + sub⟩ = sub % T ∧
      SubscriberImage.scan inner ⟨t * T + sub⟩ limit =
        ((ds.filter fun f => f.IsData inner t).map fun f =>
          (f.start - sub / T * T, (f.fragment inner t).payload), sub' - sub) ∧
      ∀ f ∈ ds, sub / T * T ≤ f.start := by
  have hdvd := hlayout.termLength_dvd
  have hT : 0 < T := by
    have := inner.log.termLength_ge
    rw [hlayout.termLength] at this
    omega
  have hdiv := Nat.div_add_mod' sub T
  have hmod := Nat.mod_lt sub hT
  have hj : sub / T < n := (Nat.div_lt_iff_lt_mul hT).mpr (Nat.lt_of_lt_of_le hmore h.recv_le)
  -- the partition and the offset of the subscriber
  obtain ⟨hpart, hoff⟩ := SubscriberImage.place_eq inner (t * T + sub)
  have hterm : (t * T + sub) / T = t + ((sub / T : Nat) : Int) := by
    rw [Int.mul_comm, Int.mul_add_ediv_left _ _ (by omega)]
    rfl
  have hoffset : (t * T + sub) % T = ((sub % T : Nat) : Int) := by
    rw [Int.mul_comm, Int.mul_add_emod_self_left]
    rfl
  rw [hlayout.termLength, hterm] at hpart
  rw [hlayout.termLength, hoffset, Int.toNat_natCast] at hoff
  -- the way along the frames of its term
  obtain ⟨ds, sub', hway, heq, hprogress⟩ := @LaidOut.pollLoop_eq _ _ _ _ _ _ _ _ _
    (hlayout.laidOut hj) (t * T) inner.receiverPosition (t * T + sub) limit (sub % T) 0 0 T recv
    ((Nat.dvd_mod_iff hdvd).mpr h.aligned) (by omega) (by omega) (by rw [hdiv]; simp) h.receiver
    (by rw [hdiv]; exact h.boundary) h.stop_le (h.last.imp_left (by omega))
  rw [hdiv] at hway hprogress heq
  have hforward := hprogress hmod (by simpa using hlimit) hmore
  have hreceived := hway.received
  have hdvd' : 32 ∣ sub' := by
    rcases hway.lands with rfl | rfl | ⟨f, -, rfl | rfl⟩
    · exact h.aligned
    · exact Nat.dvd_add (Dvd.dvd.mul_left hdvd _) hdvd
    · exact f.aligned
    · exact Nat.dvd_add f.aligned (alignFrameLength_dvd _)
  have haligned := h.aligned
  have hread : ∀ f ∈ ds, sub / T * T ≤ f.start ∧ f.start < sub / T * T + T := by
    intro f hf
    obtain ⟨-, hlo, hhi⟩ := hway.scan.mem CommittedFrame.start_lt_stop hf
    have := hway.le
    have := f.start_lt_stop
    omega
  refine ⟨ds, sub', hway.scan, ⟨by omega, by omega, hdvd'⟩, hoff, ?_, fun f hf => (hread f hf).1⟩
  unfold SubscriberImage.scan
  dsimp only
  rw [hpart, hoff, hlayout.termLength, heq, Nat.zero_add]
  refine Prod.ext ?_ rfl
  dsimp only
  rw [List.filter_congr fun f hf =>
    decide_eq_decide.mpr (Layout.payloadOf_eq (hread f hf).1 (hread f hf).2).1]
  refine List.map_congr_left fun f hf => ?_
  have hmem := hread f (List.mem_of_mem_filter hf)
  exact (Layout.payloadOf_eq hmem.1 hmem.2).2

end Unread

namespace SharedImage

variable {T n : Nat} {image : SharedImage} {t : Int} {frames : List (CommittedFrame T)}
  {sub recv : Nat}

/-- A poll changes nothing of the shared state but the subscriber's position, and does not hand out
more than its limit. -/
theorem poll_spec (image : SharedImage) {limit : Int} (hlimit : 0 < limit) :
    (image.poll limit).1.inner = { image.inner with
        subscriberPosition := image.inner.subscriberPosition +
          (image.subscriber.scan image.inner limit).2 } ∧
      (image.poll limit).2 = ((image.subscriber.scan image.inner limit).1.map fun f =>
        ⟨image.inner.subscriberPosition - image.subscriber.termOffset image.inner + f.1, f.2,
          image.inner.sessionId, image.inner.streamId⟩) ∧
      ((image.poll limit).2.length : Int) ≤ limit := by
  have hpoll := SubscriberImage.pollFragments_of_pos hlimit image.subscriber_sync
  have hlength := @pollLoop_length_le image.inner.log.buffer
    (partitionIndex (image.subscriber.termId image.inner) image.inner.initialTermId *
      image.inner.log.termLength) image.inner.log.termLength image.inner.receiverPosition
    image.subscriber.subscriberPositionLocal limit image.inner.log.termLength
    (image.subscriber.termOffset image.inner) 0 0 (by simpa using hlimit.le)
  rw [Nat.cast_zero, zero_add] at hlength
  change (image.subscriber.pollFragments image.inner limit).1.1 = _ ∧
    (image.subscriber.pollFragments image.inner limit).2 = _ ∧
    ((image.subscriber.pollFragments image.inner limit).2.length : Int) ≤ limit
  rw [hpoll, image.subscriber_sync, List.length_map]
  exact ⟨rfl, rfl, hlength⟩

/-- **One poll** reads along the frames, and comes closer to the receiver's position. -/
theorem poll_reads (hlayout : Layout T image.inner.log t n frames)
    (h : Unread image.inner t n frames sub recv) (hmore : sub < recv) {limit : Int}
    (hlimit : 0 < limit) :
    ∃ ds sub', Scan CommittedFrame.start CommittedFrame.stop frames sub ds sub' ∧
      sub + 32 ≤ sub' ∧ Unread (image.poll limit).1.inner t n frames sub' recv ∧
      (image.poll limit).2 =
        (ds.filter fun f => f.IsData image.inner t).map (CommittedFrame.fragment image.inner t) := by
  obtain ⟨ds, sub', hscan, ⟨hforward, hle, haligned⟩, hoff, heq, hds⟩ :=
    h.scan_eq hlayout hmore hlimit
  have hsubscriber : image.subscriber = ⟨t * T + sub⟩ :=
    congrArg SubscriberImage.mk (image.subscriber_sync.symm.trans h.subscriber)
  obtain ⟨hinner, hfragments, -⟩ := image.poll_spec hlimit
  rw [hsubscriber, heq] at hinner hfragments
  refine ⟨ds, sub', hscan, hforward, ?_, ?_⟩
  · rw [hinner]
    refine ⟨?_, h.receiver, haligned,
      hscan.between (apart_of_pairwise hlayout.sorted) CommittedFrame.start_lt_stop h.boundary, hle,
      h.recv_le, h.stop_le, .inr (h.last.resolve_left (by omega))⟩
    change image.inner.subscriberPosition + ((sub' - sub : Nat) : Int) = _
    rw [h.subscriber]
    omega
  · -- the position of a fragment is that of its frame
    have hdiv := Nat.div_add_mod' sub T
    rw [hfragments, List.map_map]
    refine List.map_congr_left fun f hf => ?_
    have hstart := hds f (List.mem_of_mem_filter hf)
    rw [Function.comp_apply, hoff, h.subscriber]
    unfold CommittedFrame.fragment
    congr 1
    push_cast [hstart]
    have hcast : (sub : Int) = sub / T * T + sub % T := by exact_mod_cast hdiv.symm
    omega

/-- Poll with one limit after the other until the receiver's position is reached. -/
def drain (image : SharedImage) : List Int → SharedImage × List (List Fragment)
  | [] => (image, [])
  | limit :: limits =>
      if image.inner.subscriberPosition = image.inner.receiverPosition then (image, [])
      else
        let r := image.poll limit
        let rest := drain r.1 limits
        (rest.1, r.2 :: rest.2)

theorem drain_length_le (image : SharedImage) {limits : List Int} (hlimits : ∀ l ∈ limits, 0 < l) :
    ∀ p ∈ limits.zip (image.drain limits).2, (p.2.length : Int) ≤ p.1 := by
  induction limits generalizing image with
  | nil => simp
  | cons limit limits ih =>
      obtain ⟨hlimit, hrest⟩ := List.forall_mem_cons.mp hlimits
      rw [drain]
      split_ifs
      · simp
      · rw [List.zip_cons_cons, List.forall_mem_cons]
        exact ⟨(image.poll_spec hlimit).2.2, ih _ hrest⟩

/-- **Run.** With enough limits, the polls read along all the frames up to the receiver's position. -/
theorem drain_reads (hlayout : Layout T image.inner.log t n frames)
    (h : Unread image.inner t n frames sub recv) {limits : List Int}
    (hlimits : ∀ l ∈ limits, 0 < l) (hlong : recv ≤ sub + 32 * limits.length) :
    ∃ ds, Scan CommittedFrame.start CommittedFrame.stop frames sub ds recv ∧
      (image.drain limits).1.inner.subscriberPosition = image.inner.receiverPosition ∧
      (image.drain limits).2.flatten =
        (ds.filter fun f => f.IsData image.inner t).map (CommittedFrame.fragment image.inner t) := by
  induction limits generalizing image sub with
  | nil =>
      obtain rfl : recv = sub := Nat.le_antisymm hlong h.sub_le
      exact ⟨[], .refl _, h.subscriber.trans h.receiver.symm, rfl⟩
  | cons limit limits ih =>
      obtain ⟨hlimit, hrest⟩ := List.forall_mem_cons.mp hlimits
      rw [drain]
      by_cases hend : image.inner.subscriberPosition = image.inner.receiverPosition
      · rw [if_pos hend]
        obtain rfl : recv = sub := by
          have := h.subscriber
          have := h.receiver
          omega
        exact ⟨[], .refl _, hend, rfl⟩
      · rw [if_neg hend]
        -- a poll moves on by 32 bytes at least, so the limits that are left are enough
        have hmore : sub < recv := by
          have := h.sub_le
          have := h.subscriber
          have := h.receiver
          rcases Nat.lt_or_ge sub recv with hlt | hge
          · exact hlt
          · obtain rfl : sub = recv := by omega
            omega
        obtain ⟨ds, sub', hscan, hforward, hunread, hfragments⟩ :=
          poll_reads hlayout h hmore hlimit
        obtain ⟨hinner, -⟩ := image.poll_spec hlimit
        have hlog : (image.poll limit).1.inner.log = image.inner.log := by rw [hinner]
        obtain ⟨ds', hscan', hposition, hdelivered⟩ := ih (hlog ▸ hlayout) hunread hrest
          (by rw [List.length_cons] at hlong; omega)
        refine ⟨ds ++ ds', hscan.trans hscan', ?_, ?_⟩
        · exact hposition.trans (by rw [hinner])
        · dsimp only
          rw [List.flatten_cons, hfragments, hdelivered, List.filter_append, List.map_append, hinner]
          rfl

/-- **Gap skipping delivers exactly what is there.** An image whose log holds committed frames in up
to four terms from the subscriber's on, the last of which ends at the receiver's position, is polled
with any positive limits until the two positions meet. That takes at most one poll for each 32 bytes
between them. The calls hand out the data frames from the first position on, each once, in order and
with its payload, no call more than its limit, and the last leaves the subscriber exactly at the
receiver's position. -/
theorem drain_delivers_what_is_there (hlayout : Layout T image.inner.log t n frames)
    (h : Unread image.inner t n frames sub recv) {limits : List Int}
    (hlimits : ∀ l ∈ limits, 0 < l) (hlong : recv ≤ sub + 32 * limits.length) :
    (image.drain limits).1.inner.subscriberPosition = image.inner.receiverPosition ∧
      (image.drain limits).2.flatten =
        (frames.filter fun f => sub ≤ f.start ∧ f.IsData image.inner t).map
          (CommittedFrame.fragment image.inner t) ∧
      ∀ p ∈ limits.zip (image.drain limits).2, (p.2.length : Int) ≤ p.1 := by
  obtain ⟨ds, hscan, hposition, hdelivered⟩ := drain_reads hlayout h hlimits hlong
  refine ⟨hposition, ?_, image.drain_length_le hlimits⟩
  rw [hdelivered, hscan.eq_filter CommittedFrame.start_lt_stop hlayout.sorted h.stop_le,
    List.filter_filter]
  congr 1
  refine List.filter_congr fun f _ => ?_
  rw [Bool.decide_and, Bool.and_comm]

/-- A log with terms of 128 bytes: a gap of 32 bytes and a frame with two bytes of payload in the first
term, a pad and a frame without payload in the second. -/
def gappedLog : RawLog :=
  .of128 (((ByteStore.write (fun _ => 0) 32
      (DataHeader.encode ⟨⟨34, currentVersion, 0, frameTypeData⟩, 32, 7, 1, 0, 0⟩ ++ [8, 9])).write 128
      (DataHeader.encode ⟨⟨64, currentVersion, 0, frameTypePad⟩, 0, 7, 1, 1, 0⟩)).write 192
      (DataHeader.encode ⟨⟨32, currentVersion, 0, frameTypeData⟩, 64, 7, 1, 1, 0⟩))

/-- Its image, of which nothing is read yet. -/
def gappedImage : SharedImage where
  inner := ⟨gappedLog, 224, 0, 7, 1, 0⟩
  receiver := ⟨224⟩
  subscriber := ⟨0⟩
  receiver_sync := rfl
  subscriber_sync := rfl

def gappedFrames : List (CommittedFrame 128) :=
  [⟨32, 34, by decide, by decide, by decide, by decide⟩,
    ⟨128, 64, by decide, by decide, by decide, by decide⟩,
    ⟨192, 32, by decide, by decide, by decide, by decide⟩]

/-- Seven polls for one fragment each are enough for both frames. -/
theorem drain_gappedImage :
    (gappedImage.drain [1, 1, 1, 1, 1, 1, 1]).1.inner.subscriberPosition = 224 ∧
      (gappedImage.drain [1, 1, 1, 1, 1, 1, 1]).2.flatten = [⟨32, [8, 9], 7, 1⟩, ⟨192, [], 7, 1⟩] := by
  have hdrain := @drain_delivers_what_is_there 128 2 gappedImage 0 gappedFrames 0 224
    ⟨rfl, by decide, by decide, by decide +kernel, by decide +kernel⟩
    ⟨rfl, rfl, by decide, by decide, by decide, by decide, by decide, .inr (by decide)⟩
    [1, 1, 1, 1, 1, 1, 1] (by decide) (by decide)
  exact ⟨hdrain.1, hdrain.2.1.trans (by decide +kernel)⟩

end SharedImage

end AeronRs
