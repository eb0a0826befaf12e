import AeronRs.Media.LogRecord
import AeronRs.Media.PollScan

/-! # The frames of a stream

The data frames of one publisher, each at its stream position, and the memory they would fill if it
had a place for every position: **`streamStore`**. A poll over that memory is a reader's way along
the frames (`pollLoop_stream`): it delivers the frames at its position one after the other and skips
the stretches in which none is stored. -/

namespace AeronRs

/-- **A data frame of a publisher** with terms of length `T`: 32-byte aligned and inside one term. -/
structure StreamFrame (T : Nat) where
  start : Nat
  payload : List UInt8
  aligned : 32 ∣ start
  inTerm : start % T + alignFrameLength (32 + payload.length) ≤ T
  deriving DecidableEq

namespace StreamFrame

variable {T : Nat}

def length (f : StreamFrame T) : Nat := alignFrameLength (32 + f.payload.length)

def stop (f : StreamFrame T) : Nat := f.start + f.length

def term (f : StreamFrame T) : Nat := f.start / T

def record (f : StreamFrame T) : LogRecord := .data f.start f.payload

def header (ids : StreamIds) (f : StreamFrame T) : DataHeader := f.record.header ids

def bytes (ids : StreamIds) (f : StreamFrame T) : List UInt8 := f.record.frame ids

theorem length_ge (f : StreamFrame T) : 32 + f.payload.length ≤ f.length := le_alignFrameLength _

theorem length_dvd (f : StreamFrame T) : 32 ∣ f.length := alignFrameLength_dvd _

theorem start_lt_stop (f : StreamFrame T) : f.start < f.stop := by
  have := f.length_ge
  unfold stop
  omega

theorem stop_dvd (f : StreamFrame T) : 32 ∣ f.stop := Nat.dvd_add f.aligned f.length_dvd

@[simp] theorem bytes_length (ids : StreamIds) (f : StreamFrame T) :
    (f.bytes ids).length = 32 + f.payload.length :=
  LogRecord.frame_length ids (Nat.le_add_right 32 _)

theorem term_bounds (f : StreamFrame T) :
    f.term * T ≤ f.start ∧ f.stop ≤ f.term * T + T := by
  have hdiv := Nat.div_add_mod' f.start T
  have hfit := f.inTerm
  unfold stop term length
  omega

theorem stop_le_of_term_le (f : StreamFrame T) {k : Nat} (h : f.term ≤ k) : f.stop ≤ (k + 1) * T := by
  have hmul := Nat.mul_le_mul_right T (Nat.succ_le_succ h)
  have hstop := f.term_bounds.2
  rw [Nat.succ_mul] at hmul
  exact Nat.le_trans hstop hmul

theorem between_terms (f : StreamFrame T) (k : Nat) : f.stop ≤ k * T ∨ k * T ≤ f.start := by
  rcases Nat.lt_or_ge f.term k with hlt | hge
  · have hstop := f.stop_le_of_term_le (Nat.le_sub_one_of_lt hlt)
    rw [Nat.sub_add_cancel (Nat.one_le_of_lt hlt)] at hstop
    exact .inl hstop
  · exact .inr (Nat.le_trans (Nat.mul_le_mul_right T hge) f.term_bounds.1)

theorem length_le (f : StreamFrame T) : f.length ≤ T := by
  have := f.inTerm
  unfold length
  omega

end StreamFrame

/-- Frames that do not overlap, as those of one publisher. -/
abbrev FramesApart {T : Nat} (G : List (StreamFrame T)) : Prop :=
  Apart StreamFrame.start StreamFrame.stop G

/-- A position at which no frame is cut. -/
abbrev FrameBoundary {T : Nat} (G : List (StreamFrame T)) (q : Nat) : Prop :=
  Between StreamFrame.start StreamFrame.stop G q

/-- A reader's way along frames. -/
abbrev FrameScan {T : Nat} (G : List (StreamFrame T)) (q : Nat) (ds : List (StreamFrame T))
    (q' : Nat) : Prop :=
  Scan StreamFrame.start StreamFrame.stop G q ds q'

/-- **The frames of an honest publisher**: none overlaps another. -/
structure HonestStream (T : Nat) where
  frames : List (StreamFrame T)
  apart : FramesApart frames

/-- Frames in order do not overlap. -/
def HonestStream.ofSorted {T : Nat} (frames : List (StreamFrame T))
    (h : frames.Pairwise fun a b => a.stop ≤ b.start) : HonestStream T where
  frames
  apart := apart_of_pairwise h

/-- **The data records of a tiling** are frames in order. -/
theorem Tiles.exists_frames {T a c : Nat} {rs : List LogRecord} (h : Tiles T a rs c)
    (ha : 32 ∣ a) : 32 ∣ c ∧ ∃ frames : List (StreamFrame T),
      frames.map StreamFrame.record = rs.filter LogRecord.isData ∧
      frames.Pairwise (fun f g => f.stop ≤ g.start) ∧
      ∀ f ∈ frames, a ≤ f.start ∧ f.stop ≤ c := by
  induction rs generalizing a with
  | nil =>
      obtain rfl : a = c := h
      exact ⟨ha, [], rfl, List.Pairwise.nil, by simp⟩
  | cons r rs ih =>
      obtain ⟨rfl, hfits, hrest⟩ := h
      have hlen : 32 ∣ r.length := alignFrameLength_dvd _
      have hend := hrest.eq_add_total
      obtain ⟨hc, frames, hmap, hsorted, hbounds⟩ := ih hrest (Nat.dvd_add ha hlen)
      refine ⟨hc, ?_⟩
      cases r with
      | data start payload =>
          let f : StreamFrame T := ⟨start, payload, ha, hfits.inTerm⟩
          refine ⟨f :: frames, ?_, List.pairwise_cons.mpr ⟨fun g hg => (hbounds g hg).1, hsorted⟩, ?_⟩
          · rw [List.map_cons, hmap]
            rfl
          · intro g hg
            rcases List.mem_cons.mp hg with rfl | htail
            · refine ⟨Nat.le_refl _, ?_⟩
              change start + (LogRecord.data start payload).length ≤ c
              change c = start + _ + _ at hend
              omega
            · exact ⟨Nat.le_trans (Nat.le_add_right _ _) (hbounds g htail).1, (hbounds g htail).2⟩
      | pad start len =>
          -- a pad takes its place in the tiling, but is no frame
          refine ⟨frames, hmap, hsorted, fun g hg => ?_⟩
          exact ⟨Nat.le_trans (Nat.le_add_right _ _) (hbounds g hg).1, (hbounds g hg).2⟩

/-! ## The memory of a stream -/

section Store

variable {ids : StreamIds} {G : List (StreamFrame ids.termLength)}

/-- The memory with a place for every stream position, after frames were stored in it. The latest is
the first of the list. -/
def streamStore (ids : StreamIds) (G : List (StreamFrame ids.termLength)) : ByteStore :=
  G.foldr (fun f S => S.write f.start (f.bytes ids)) fun _ => 0

@[simp] theorem streamStore_cons (f : StreamFrame ids.termLength)
    (G : List (StreamFrame ids.termLength)) :
    streamStore ids (f :: G) = (streamStore ids G).write f.start (f.bytes ids) := rfl

/-- **A stored frame is read back.** -/
theorem streamStore_read (hapart : FramesApart G) {g : StreamFrame ids.termLength} (hg : g ∈ G) :
    (streamStore ids G).read g.start (32 + g.payload.length) = g.bytes ids := by
  induction G with
  | nil => cases hg
  | cons f G ih =>
      rw [streamStore_cons]
      have hrest : FramesApart G := hapart.mono (List.subset_cons_self f G)
      by_cases hfg : g = f
      · subst hfg
        rw [← g.bytes_length ids, ByteStore.read_write_same]
      · have hmem : g ∈ G := List.mem_of_ne_of_mem hfg hg
        have hf := f.length_ge
        have hlen := g.length_ge
        rw [ByteStore.read_write_disjoint _ ?_, ih hrest hmem]
        rw [f.bytes_length]
        rcases hapart f List.mem_cons_self g hg with rfl | hle | hle
        · exact absurd rfl hfg
        · unfold StreamFrame.stop at hle
          omega
        · unfold StreamFrame.stop at hle
          omega

/-- **Nothing is stored outside the frames.** -/
theorem streamStore_eq_zero {q : Nat}
    (h : ∀ g ∈ G, q < g.start ∨ g.start + (32 + g.payload.length) ≤ q) :
    streamStore ids G q = 0 := by
  induction G with
  | nil => rfl
  | cons f G ih =>
      rw [streamStore_cons, ByteStore.write_of_outside]
      · exact ih fun g hg => h g (List.mem_cons_of_mem f hg)
      · rw [f.bytes_length]
        exact h f List.mem_cons_self

theorem streamStore_frame (hapart : FramesApart G) {g : StreamFrame ids.termLength} (hg : g ∈ G) :
    (streamStore ids G).readI32 g.start = BitVec.ofNat 32 (32 + g.payload.length) ∧
      (streamStore ids G).readU16 (g.start + 6) = frameTypeData ∧
      (streamStore ids G).read (g.start + 32) g.payload.length = g.payload := by
  have hread := streamStore_read hapart hg
  have hheader : (streamStore ids G).read g.start 32 = (g.header ids).encode := by
    rw [← ByteStore.read_take _ _ (32 + g.payload.length) 32 (by omega), hread,
      StreamFrame.bytes, LogRecord.frame, List.take_left' (DataHeader.encode_length _)]
    rfl
  refine ⟨readI32_of_header hheader, readU16_of_header hheader, ?_⟩
  have hdrop := ByteStore.read_drop (streamStore ids G) g.start (32 + g.payload.length) 32 (by omega)
  rw [hread, StreamFrame.bytes, LogRecord.frame, List.drop_left' (DataHeader.encode_length _),
    Nat.add_sub_cancel_left] at hdrop
  exact hdrop.symm

/-- Where no frame starts and none is cut, the length word is zero. -/
theorem streamStore_gap {q : Nat} (hq : 32 ∣ q) (hbound : FrameBoundary G q)
    (hnone : ∀ g ∈ G, g.start ≠ q) : (streamStore ids G).readI32 q = 0 := by
  apply readI32_eq_zero
  intro i hi
  apply streamStore_eq_zero
  intro g hg
  have hlen := g.length_ge
  have halign := g.aligned
  rcases hbound g hg with hle | hle
  · unfold StreamFrame.stop at hle
    omega
  · have := hnone g hg
    omega

/-! ## Polls over the memory of a stream -/

theorem StreamFrame.word_pos {T : Nat} (hlt : T < 2 ^ 31) (g : StreamFrame T) :
    (BitVec.ofNat 32 (32 + g.payload.length)).toNat = 32 + g.payload.length ∧
      0 < (BitVec.ofNat 32 (32 + g.payload.length)).toInt := by
  have hlen := g.length_ge
  have hle := g.length_le
  rw [toInt_ofNat_of_lt (by omega), BitVec.toNat_ofNat]
  omega

theorem streamStore_word_pos (hlt : ids.termLength < 2 ^ 31) (hapart : FramesApart G)
    {g : StreamFrame ids.termLength} (hg : g ∈ G) :
    ((streamStore ids G).readI32 g.start).toNat = 32 + g.payload.length ∧
      0 < ((streamStore ids G).readI32 g.start).toInt := by
  rw [(streamStore_frame hapart hg).1]
  exact g.word_pos hlt

/-- **What a poll does** from position `q`: it reads along the frames up to `q'`, and stops at a
frame's start or end or at the end of the term, not beyond what was received. -/
structure PollSpec (G : List (StreamFrame ids.termLength)) (k q recv : Nat)
    (ds : List (StreamFrame ids.termLength)) (q' : Nat) : Prop where
  scan : FrameScan G q ds q'
  le : q' ≤ k * ids.termLength + ids.termLength
  lands : q' = q ∨ q' = k * ids.termLength + ids.termLength ∨ ∃ g ∈ G, g.start = q' ∨ g.stop = q'
  received : q' ≤ max recv q

theorem stop_le_of_start {k pos : Nat} (hroom : pos < ids.termLength)
    {g : StreamFrame ids.termLength} (hstart : g.start = k * ids.termLength + pos) :
    pos + g.length ≤ ids.termLength := by
  have hterm : g.term = k := by
    rw [StreamFrame.term, hstart, (term_offset_of_lt k hroom).1]
  have hstop := g.term_bounds.2
  rw [hterm, StreamFrame.stop, hstart] at hstop
  omega

/-- **Every term of the memory is laid out** as the frames say. -/
theorem streamStore_laidOut (hdvd : 32 ∣ ids.termLength) (hlt : ids.termLength < 2 ^ 31)
    (hapart : FramesApart G) (k : Nat) :
    LaidOut (streamStore ids G) (k * ids.termLength) ids.termLength (k * ids.termLength)
      StreamFrame.start StreamFrame.stop (fun g => 32 + g.payload.length) G where
  tl_dvd := hdvd
  lo_dvd := Dvd.dvd.mul_left hdvd k
  len_ge _ := Nat.le_add_right 32 _
  stop_eq _ := rfl
  apart := hapart
  aligned g _ := g.aligned
  fits _ _ _ hroom hstart := stop_le_of_start hroom hstart
  word _ hg _ _ hstart := hstart ▸ streamStore_word_pos hlt hapart hg
  gap _ _ hpos hbound hnone :=
    streamStore_gap (Nat.dvd_add (Dvd.dvd.mul_left hdvd k) hpos) hbound hnone

theorem streamStore_payloadOf (hapart : FramesApart G) {k : Nat} {g : StreamFrame ids.termLength}
    (hg : g ∈ G) (hle : k * ids.termLength ≤ g.start) :
    LaidOut.IsData (streamStore ids G) (k * ids.termLength) (k * ids.termLength) StreamFrame.start g ∧
      LaidOut.payloadOf (streamStore ids G) (k * ids.termLength) (k * ids.termLength)
          StreamFrame.start (fun g => 32 + g.payload.length) g =
        (g.start - k * ids.termLength, g.payload) := by
  obtain ⟨-, htype, hpayload⟩ := streamStore_frame hapart hg
  unfold LaidOut.IsData LaidOut.payloadOf
  rw [Nat.add_sub_cancel' hle, htype, Nat.add_sub_cancel_left, hpayload]
  exact ⟨by decide, rfl⟩

/-- **A poll over the memory of a stream.** It reads along the frames, and it moves on if anything
was received beyond its position. -/
theorem pollLoop_stream (hdvd : 32 ∣ ids.termLength) (hlt : ids.termLength < 2 ^ 31)
    (hapart : FramesApart G) {k pos fragments scanned fuel recv : Nat} {subPos limit : Int}
    (hpos : 32 ∣ pos) (hle : pos ≤ ids.termLength) (hfuel : ids.termLength ≤ pos + fuel)
    (hcurrent : subPos + scanned = ((k * ids.termLength + pos : Nat) : Int))
    (hbound : FrameBoundary G (k * ids.termLength + pos)) (hrecv : ∀ g ∈ G, g.stop ≤ recv)
    (hlast : recv ≤ k * ids.termLength + pos ∨ ∃ g ∈ G, g.stop = recv) :
    ∃ ds q', PollSpec G k (k * ids.termLength + pos) recv ds q' ∧
      pollLoop (streamStore ids G) (k * ids.termLength) ids.termLength recv subPos limit fuel pos
          fragments scanned =
        (ds.map fun g => (g.start - k * ids.termLength, g.payload),
          scanned + (q' - (k * ids.termLength + pos))) ∧
      (pos < ids.termLength → (fragments : Int) < limit → k * ids.termLength + pos < recv →
        k * ids.termLength + pos < q') := by
  obtain ⟨ds, q', hway, heq, hprogress⟩ := @LaidOut.pollLoop_eq _ _ _ _ _ _ _ _ _
    (streamStore_laidOut hdvd hlt hapart k) 0 recv subPos limit pos fragments scanned fuel recv hpos
    hle hfuel (by omega) (Int.zero_add _).symm hbound hrecv hlast
  refine ⟨ds, q', ⟨hway.scan, hway.le, hway.lands, hway.received⟩, ?_, hprogress⟩
  have hread : ∀ g ∈ ds, g ∈ G ∧ k * ids.termLength ≤ g.start := by
    intro g hg
    obtain ⟨hmem, hlo, -⟩ := hway.scan.mem StreamFrame.start_lt_stop hg
    exact ⟨hmem, by omega⟩
  rw [heq, List.filter_eq_self.mpr fun g hg => by
    simpa using (streamStore_payloadOf hapart (hread g hg).1 (hread g hg).2).1]
  refine Prod.ext (List.map_congr_left fun g hg => ?_) rfl
  exact (streamStore_payloadOf hapart (hread g hg).1 (hread g hg).2).2

end Store

end AeronRs
