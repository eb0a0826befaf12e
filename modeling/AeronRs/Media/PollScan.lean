import AeronRs.Lib.LineScan
import AeronRs.Media.SharedImage

/-! # What a poll reads

The loop of `poll_fragments` over one partition, whatever frames it holds. **`LaidOut`** says that the
length words of the partition are those of frames that lie along a line, and zero between them. A poll
is then a reader's way along the frames (`LaidOut.pollLoop_eq`): it hands out the data frames at its
position one after the other, passes over pads, and skips the stretches in which no frame starts. -/

namespace AeronRs

section PollScan

variable {α : Type*}

/-- **The frames of a partition.** The frames `G` lie along a line of which the partition is the part
from `lo` on; their length words are at their places, and the length word is zero where no frame
starts and none is cut. -/
structure LaidOut (m : ByteStore) (base tl lo : Nat) (start stop len : α → Nat) (G : List α) :
    Prop where
  tl_dvd : 32 ∣ tl
  lo_dvd : 32 ∣ lo
  len_ge : ∀ g, 32 ≤ len g
  stop_eq : ∀ g, stop g = start g + alignFrameLength (len g)
  apart : Apart start stop G
  aligned : ∀ g ∈ G, 32 ∣ start g
  fits : ∀ g ∈ G, ∀ pos < tl, start g = lo + pos → pos + alignFrameLength (len g) ≤ tl
  word : ∀ g ∈ G, ∀ pos < tl, start g = lo + pos →
    (m.readI32 (base + pos)).toNat = len g ∧ 0 < (m.readI32 (base + pos)).toInt
  gap : ∀ pos < tl, 32 ∣ pos → Between start stop G (lo + pos) → (∀ g ∈ G, start g ≠ lo + pos) →
    m.readI32 (base + pos) = 0

/-- What a gap skip passes over: no frame starts before its end, which is a frame or the end of the
partition. -/
structure SkipsOver (start : α → Nat) (G : List α) (tl lo pos skip : Nat) : Prop where
  dvd : 32 ∣ skip
  le : pos + skip ≤ tl
  none : ∀ g ∈ G, start g < lo + pos ∨ lo + (pos + skip) ≤ start g
  lands : pos + skip = tl ∨ ∃ g ∈ G, start g = lo + (pos + skip)

/-- **A poll's way** from position `q`: it reads along the frames up to `q'`, and stops at a frame's
start or end or at the end of the partition, not beyond what was received. -/
structure PollWay (start stop : α → Nat) (G : List α) (tl lo q recv : Nat) (ds : List α) (q' : Nat) :
    Prop where
  scan : Scan start stop G q ds q'
  le : q' ≤ lo + tl
  lands : q' = q ∨ q' = lo + tl ∨ ∃ g ∈ G, start g = q' ∨ stop g = q'
  received : q' ≤ max recv q

namespace PollWay

variable {tl lo recv q' : Nat} {start stop : α → Nat} {G ds : List α}

theorem stay {q : Nat} (hle : q ≤ lo + tl) : PollWay start stop G tl lo q recv [] q :=
  ⟨.refl _, hle, .inl rfl, le_max_right _ _⟩

theorem take {g : α} (hg : g ∈ G) (hrecv : stop g ≤ recv)
    (h : PollWay start stop G tl lo (stop g) recv ds q') :
    PollWay start stop G tl lo (start g) recv (g :: ds) q' where
  scan := .take hg h.scan
  le := h.le
  lands := by
    rcases h.lands with rfl | hterm | hat
    · exact .inr (.inr ⟨g, hg, .inr rfl⟩)
    · exact .inr (.inl hterm)
    · exact .inr (.inr hat)
  received := by
    have hreceived := h.received
    omega

/-- A stretch in which no frame starts, and the way behind it. -/
theorem skip {pos skip : Nat} (hskips : SkipsOver start G tl lo pos skip)
    (hrecv : lo + (pos + skip) ≤ recv)
    (h : PollWay start stop G tl lo (lo + (pos + skip)) recv ds q') :
    PollWay start stop G tl lo (lo + pos) recv ds q' where
  scan := .skip (by omega) hskips.none h.scan
  le := h.le
  lands := by
    rcases h.lands with rfl | hterm | hat
    · rcases hskips.lands with hterm | ⟨g, hg, hstart⟩
      · exact .inr (.inl (by omega))
      · exact .inr (.inr ⟨g, hg, .inl hstart⟩)
    · exact .inr (.inl hterm)
    · exact .inr (.inr hat)
  received := by
    have hreceived := h.received
    omega

end PollWay

namespace LaidOut

variable {m : ByteStore} {base tl lo : Nat} {start stop len : α → Nat} {G : List α}

theorem start_lt_stop (h : LaidOut m base tl lo start stop len G) (g : α) : start g < stop g := by
  have := h.len_ge g
  have := le_alignFrameLength (len g)
  rw [h.stop_eq]
  omega

/-! ### Gaps -/

theorem skipLoop_skipsOver (h : LaidOut m base tl lo start stop len G) {pos skip fuel : Nat}
    (hpos : 32 ∣ pos) (hskip : 32 ∣ skip) (hle : pos + skip ≤ tl) (hfuel : tl ≤ pos + skip + 32 * fuel)
    (hbound : Between start stop G (lo + pos))
    (hnone : ∀ g ∈ G, start g < lo + pos ∨ lo + (pos + skip) ≤ start g) :
    skip ≤ skipLoop m base tl pos fuel skip ∧
      SkipsOver start G tl lo pos (skipLoop m base tl pos fuel skip) := by
  induction fuel generalizing skip with
  | zero =>
      rw [skipLoop]
      exact ⟨Nat.le_refl _, hskip, hle, hnone, .inl (by omega)⟩
  | succ fuel ih =>
      rw [skipLoop]
      by_cases hroom : pos + skip < tl
      · rw [if_pos hroom]
        -- the search ends at the next frame of the layout
        by_cases hframe : ∃ g ∈ G, start g = lo + (pos + skip)
        · obtain ⟨g, hg, hstart⟩ := hframe
          rw [if_pos (h.word g hg _ hroom hstart).2]
          exact ⟨Nat.le_refl _, hskip, hle, hnone, .inr ⟨g, hg, hstart⟩⟩
        · -- nothing starts here, so the search goes on
          have hne : ∀ g ∈ G, start g ≠ lo + (pos + skip) := fun g hg heq => hframe ⟨g, hg, heq⟩
          have hword := h.gap _ hroom (Nat.dvd_add hpos hskip) (hbound.skip (by omega) hnone) hne
          have htl := h.tl_dvd
          have hlo := h.lo_dvd
          rw [hword, if_neg (by decide)]
          have hstep := @ih (skip + frameAlignment) (by unfold frameAlignment; omega)
            (by unfold frameAlignment; omega) (by unfold frameAlignment; omega) (fun g hg => by
              have := h.aligned g hg
              have := hne g hg
              have := hnone g hg
              unfold frameAlignment
              omega)
          exact ⟨by omega, hstep.2⟩
      · rw [if_neg hroom]
        exact ⟨Nat.le_refl _, hskip, hle, hnone, .inl (by omega)⟩

/-- **A gap skip** moves on to the next frame or to the end of the partition. -/
theorem gapSkip_skipsOver (h : LaidOut m base tl lo start stop len G) {pos : Nat} (hpos : 32 ∣ pos)
    (hroom : pos < tl) (hbound : Between start stop G (lo + pos))
    (hnone : ∀ g ∈ G, start g ≠ lo + pos) :
    0 < gapSkip m base tl pos ∧ SkipsOver start G tl lo pos (gapSkip m base tl pos) := by
  have htl := h.tl_dvd
  have hlo := h.lo_dvd
  have halign : frameAlignment = 32 := rfl
  obtain ⟨hge, hskips⟩ := @skipLoop_skipsOver _ _ _ _ _ _ _ _ _ h pos frameAlignment tl hpos
    (by omega) (by omega) (by omega) hbound (fun g hg => by
      have := h.aligned g hg
      have := hnone g hg
      omega)
  have hle := hskips.le
  unfold gapSkip
  dsimp only
  rw [if_neg (by omega)]
  exact ⟨by omega, hskips⟩

/-- If a frame further on has been received, a skip does not pass the receiver. -/
theorem skip_le_of_received (h : LaidOut m base tl lo start stop len G) {pos skip recv : Nat}
    (hbound : Between start stop G (lo + pos)) (hskips : SkipsOver start G tl lo pos skip)
    (hreceived : ∃ g ∈ G, stop g = recv) (hlt : lo + pos < recv) : lo + (pos + skip) ≤ recv := by
  obtain ⟨g, hg, hstop⟩ := hreceived
  have hlen := h.start_lt_stop g
  rcases hskips.none g hg with hbefore | hafter
  · have hcut := hbound g hg
    omega
  · omega

/-- A round of a poll where no frame starts ends the poll or skips on. -/
theorem pollLoop_at_gap (h : LaidOut m base tl lo start stop len G)
    {pos fragments scanned fuel : Nat} {recvPos subPos limit : Int} (hpos : 32 ∣ pos)
    (hgo : pos < tl ∧ (fragments : Int) < limit) (hbound : Between start stop G (lo + pos))
    (hnone : ∀ g ∈ G, start g ≠ lo + pos) :
    pollLoop m base tl recvPos subPos limit (fuel + 1) pos fragments scanned =
      if recvPos ≤ subPos + scanned then ([], scanned)
      else pollLoop m base tl recvPos subPos limit fuel (pos + gapSkip m base tl pos) fragments
        (scanned + gapSkip m base tl pos) := by
  have htl := h.tl_dvd
  have hword := h.gap pos hgo.1 hpos hbound hnone
  rw [pollLoop, if_pos hgo, if_neg (by omega)]
  simp only [hword]
  rw [if_pos (by decide)]

/-! ### Frames -/

def IsData (m : ByteStore) (base lo : Nat) (start : α → Nat) (g : α) : Prop :=
  m.readU16 (base + (start g - lo) + 6) ≠ frameTypePad

instance (m : ByteStore) (base lo : Nat) (start : α → Nat) (g : α) :
    Decidable (IsData m base lo start g) :=
  inferInstanceAs (Decidable (_ ≠ _))

/-- The offset of a frame in the partition, and its payload. -/
def payloadOf (m : ByteStore) (base lo : Nat) (start len : α → Nat) (g : α) : Nat × List UInt8 :=
  (start g - lo, m.read (base + (start g - lo) + 32) (len g - 32))

/-- **A round of a poll at a frame** hands it out, unless it is a pad, and goes on behind it. -/
theorem pollLoop_at_frame (h : LaidOut m base tl lo start stop len G)
    {pos fragments scanned fuel : Nat} {recvPos subPos limit : Int} (hpos : 32 ∣ pos)
    (hgo : pos < tl ∧ (fragments : Int) < limit) {g : α} (hg : g ∈ G) (hstart : start g = lo + pos) :
    pollLoop m base tl recvPos subPos limit (fuel + 1) pos fragments scanned =
      if IsData m base lo start g then
        (payloadOf m base lo start len g :: (pollLoop m base tl recvPos subPos limit fuel
            (pos + alignFrameLength (len g)) (fragments + 1)
            (scanned + alignFrameLength (len g))).1,
          (pollLoop m base tl recvPos subPos limit fuel (pos + alignFrameLength (len g))
            (fragments + 1) (scanned + alignFrameLength (len g))).2)
      else pollLoop m base tl recvPos subPos limit fuel (pos + alignFrameLength (len g)) fragments
        (scanned + alignFrameLength (len g)) := by
  obtain ⟨hword, hpositive⟩ := h.word g hg pos hgo.1 hstart
  have hfits := h.fits g hg pos hgo.1 hstart
  have hlen := h.len_ge g
  have htl := h.tl_dvd
  have hheader : dataHeaderLength = 32 := rfl
  have hoffset : start g - lo = pos := by omega
  have hdata : IsData m base lo start g ↔ m.readU16 (base + pos + 6) ≠ frameTypePad := by
    rw [IsData, hoffset]
  rw [payloadOf, hoffset, pollLoop, if_pos hgo, if_neg (by omega)]
  simp only [hword, hheader]
  rw [if_neg (by omega), if_neg (by omega), if_neg (by omega)]
  by_cases hpad : m.readU16 (base + pos + 6) = frameTypePad
  · rw [if_pos hpad, if_neg fun h => hdata.mp h hpad]
  · rw [if_neg hpad, if_pos (hdata.mpr hpad)]

/-- **The poll loop.** Positions of the line are stream positions from `origin` on. The loop reads
along the frames, and it moves on if anything was received beyond its position. -/
theorem pollLoop_eq (h : LaidOut m base tl lo start stop len G) {origin recvPos subPos limit : Int}
    {pos fragments scanned fuel recv : Nat} (hpos : 32 ∣ pos) (hle : pos ≤ tl)
    (hfuel : tl ≤ pos + fuel) (hcurrent : subPos + scanned = origin + ((lo + pos : Nat) : Int))
    (hrecvPos : recvPos = origin + recv) (hbound : Between start stop G (lo + pos))
    (hrecv : ∀ g ∈ G, stop g ≤ recv) (hlast : recv ≤ lo + pos ∨ ∃ g ∈ G, stop g = recv) :
    ∃ ds q', PollWay start stop G tl lo (lo + pos) recv ds q' ∧
      pollLoop m base tl recvPos subPos limit fuel pos fragments scanned =
        ((ds.filter fun g => IsData m base lo start g).map (payloadOf m base lo start len),
          scanned + (q' - (lo + pos))) ∧
      (pos < tl → (fragments : Int) < limit → lo + pos < recv → lo + pos < q') := by
  induction fuel generalizing pos fragments scanned with
  | zero =>
      refine ⟨[], _, .stay (by omega), ?_, by omega⟩
      rw [pollLoop, Nat.sub_self]
      rfl
  | succ fuel ih =>
      by_cases hgo : pos < tl ∧ (fragments : Int) < limit
      swap
      · refine ⟨[], _, .stay (by omega), ?_, fun h₁ h₂ => absurd ⟨h₁, h₂⟩ hgo⟩
        rw [pollLoop, if_neg hgo, Nat.sub_self]
        rfl
      by_cases hframe : ∃ g ∈ G, start g = lo + pos
      · obtain ⟨g, hg, hstart⟩ := hframe
        have hend : lo + (pos + alignFrameLength (len g)) = stop g := by
          rw [h.stop_eq, hstart, Nat.add_assoc]
        have hfit := h.fits g hg pos hgo.1 hstart
        have hlen := h.len_ge g
        have hge := le_alignFrameLength (len g)
        have hdvd := alignFrameLength_dvd (len g)
        have hstop := hrecv g hg
        -- the rest of the way, however many fragments were counted
        have hrest := fun fragments => @ih (pos + alignFrameLength (len g)) fragments
          (scanned + alignFrameLength (len g)) (by omega) hfit (by omega)
          (by push_cast at hcurrent ⊢; omega) (hend ▸ h.apart.between_stop h.start_lt_stop hg)
          (.inr (hlast.resolve_left (by omega)))
        rw [h.pollLoop_at_frame hpos hgo hg hstart]
        by_cases hdata : IsData m base lo start g
        · obtain ⟨ds, q', hway, heq, -⟩ := hrest (fragments + 1)
          have hforward := hway.scan.le h.start_lt_stop
          refine ⟨g :: ds, q', hstart ▸ .take hg hstop (hend ▸ hway), ?_, by omega⟩
          rw [if_pos hdata, heq, List.filter_cons_of_pos (by simpa using hdata), List.map_cons]
          refine Prod.ext rfl ?_
          dsimp only
          omega
        · obtain ⟨ds, q', hway, heq, -⟩ := hrest fragments
          have hforward := hway.scan.le h.start_lt_stop
          refine ⟨g :: ds, q', hstart ▸ .take hg hstop (hend ▸ hway), ?_, by omega⟩
          rw [if_neg hdata, heq, List.filter_cons_of_neg (by simpa using hdata)]
          refine Prod.ext rfl ?_
          dsimp only
          omega
      · have hnone : ∀ g ∈ G, start g ≠ lo + pos := fun g hg heq => hframe ⟨g, hg, heq⟩
        rw [h.pollLoop_at_gap hpos hgo hbound hnone]
        by_cases hend : recvPos ≤ subPos + scanned
        · refine ⟨[], _, .stay (by omega), ?_, by omega⟩
          rw [if_pos hend, Nat.sub_self]
          rfl
        · rw [if_neg hend]
          have hreceived := hlast.resolve_left (by omega)
          obtain ⟨hskip, hskips⟩ := h.gapSkip_skipsOver hpos hgo.1 hbound hnone
          have hlater := h.skip_le_of_received hbound hskips hreceived (by omega)
          generalize gapSkip m base tl pos = skip at hskip hskips hlater ⊢
          have hskipdvd := hskips.dvd
          have hskiple := hskips.le
          obtain ⟨ds, q', hway, hrest, -⟩ := @ih (pos + skip) fragments (scanned + skip)
            (by omega) hskiple (by omega) (by push_cast at hcurrent ⊢; omega)
            (hbound.skip (by omega) hskips.none) (.inr hreceived)
          have hforward := hway.scan.le h.start_lt_stop
          refine ⟨ds, q', hway.skip hskips hlater, ?_, by omega⟩
          rw [hrest]
          refine Prod.ext rfl ?_
          dsimp only
          omega

end LaidOut

theorem pollLoop_length_le {m : ByteStore} {base tl : Nat} {recvPos subPos limit : Int}
    {fuel pos fragments scanned : Nat} (h : (fragments : Int) ≤ limit) :
    (fragments : Int) +
      (pollLoop m base tl recvPos subPos limit fuel pos fragments scanned).1.length ≤ limit := by
  induction fuel generalizing pos fragments scanned with
  | zero => simpa [pollLoop] using h
  | succ fuel ih =>
      rw [pollLoop]
      by_cases hgo : pos < tl ∧ (fragments : Int) < limit
      swap
      · rw [if_neg hgo]
        simpa using h
      rw [if_pos hgo]
      by_cases hroom : tl - pos < 4
      · rw [if_pos hroom]
        simpa using h
      rw [if_neg hroom]
      dsimp only
      by_cases hword : (m.readI32 (base + pos)).toInt ≤ 0
      · rw [if_pos hword]
        split_ifs
        · simpa using h
        · exact ih h
      rw [if_neg hword]
      -- only the last of the four outcomes of a committed frame hands it out
      split_ifs
      · simpa using h
      · simpa using h
      · exact ih h
      · have hmore := @ih (pos + alignFrameLength (m.readI32 (base + pos)).toNat) (fragments + 1)
          (scanned + alignFrameLength (m.readI32 (base + pos)).toNat) (by push_cast; omega)
        rw [List.length_cons]
        push_cast at hmore ⊢
        omega

end PollScan

end AeronRs
