import AeronRs.Lib.Runs
import AeronRs.Media.TermBuffer

/-! # Scanning a partition piece by piece

A partition is filled after a clean by appends one behind another (**`Filling`**) and perhaps a pad
frame. A scan walks its frames from an offset and stops at a limit; the next scan continues at the
offset that was reached.

* **`Committed`** — the frames that a partition holds between two offsets. A walk over any bytes
  finds such a chain, and continues behind any part of it (`walk_of_committed`), so scans compose
  whatever the bytes are.
* **`Filled`** — a partition that holds a chain of frames from its start on, and zeros behind them.
  Appends and the pad keep it.

`limited_scans_compose` puts the two together. -/

namespace AeronRs

open Runs

variable {m : ByteStore} {b base tl : Nat} {fs : List (Nat × List UInt8)}

/-! ## Walks, whatever the bytes -/

/-- The frames of a partition between two offsets: each is committed at its offset and the next one
follows it. -/
def Committed (m : ByteStore) (base tl : Nat) : Nat → List (Nat × List UInt8) → Nat → Prop
  | a, [], b => a = b
  | a, f :: fs, b =>
      f.1 = a ∧ frameAt m base tl a = some f.2.length ∧ m.read (base + a) f.2.length = f.2 ∧
        Committed m base tl (a + slotLength f) fs b

@[simp] theorem committed_nil {a : Nat} :
    Committed m base tl a [] b ↔ a = b := Iff.rfl

@[simp] theorem committed_cons {a : Nat} {f : Nat × List UInt8} :
    Committed m base tl a (f :: fs) b ↔ f.1 = a ∧ frameAt m base tl a = some f.2.length ∧
      m.read (base + a) f.2.length = f.2 ∧ Committed m base tl (a + slotLength f) fs b := Iff.rfl

theorem committed_append {a c : Nat} {gs : List (Nat × List UInt8)} :
    Committed m base tl a (fs ++ gs) c ↔
      ∃ b, Committed m base tl a fs b ∧ Committed m base tl b gs c := by
  induction fs generalizing a with
  | nil => simp
  | cons f fs ih =>
      simp only [List.cons_append, committed_cons, ih]
      constructor
      · rintro ⟨hoffset, hframe, hread, b, hfs, hgs⟩
        exact ⟨b, ⟨hoffset, hframe, hread, hfs⟩, hgs⟩
      · rintro ⟨b, ⟨hoffset, hframe, hread, hfs⟩, hgs⟩
        exact ⟨hoffset, hframe, hread, b, hfs, hgs⟩

namespace Committed

variable {m m' : ByteStore} {base tl a b : Nat} {fs : List (Nat × List UInt8)}

/-- The offsets are as far apart as the frames are long. -/
theorem eq_add_total (h : Committed m base tl a fs b) : b = a + total slotLength fs := by
  induction fs generalizing a with
  | nil => exact h.symm
  | cons f fs ih =>
      obtain ⟨-, -, -, hrest⟩ := h
      rw [ih hrest, total_cons, Nat.add_assoc]

/-- A chain stays committed while its bytes do not change. -/
theorem congr (h : Committed m base tl a fs b)
    (hbytes : ∀ x, base + a ≤ x → x < base + b → m' x = m x) : Committed m' base tl a fs b := by
  induction fs generalizing a with
  | nil => exact h
  | cons f fs ih =>
      obtain ⟨hoffset, hframe, hread, hrest⟩ := h
      have hend := hrest.eq_add_total
      have hlen := (le_alignFrameLength_of_frameAt hframe).1
      have hle : f.2.length ≤ slotLength f := le_alignFrameLength f.2.length
      have hslot : slotLength f = alignFrameLength f.2.length := rfl
      have hword : m'.readI32 (base + a) = m.readI32 (base + a) := by
        rw [ByteStore.readI32, ByteStore.readI32]
        rw [ByteStore.read_congr fun i hi => hbytes (base + a + i) (by omega) (by omega)]
      refine ⟨hoffset, ?_, ?_, ih hrest fun x hlo hhi => hbytes x (by omega) hhi⟩
      · rw [frameAt_eq_some, hword, ← frameAt_eq_some]
        exact hframe
      · rw [← hread]
        conv_lhs => rw [hread]
        exact ByteStore.read_congr fun i hi => hbytes (base + a + i) (by omega) (by omega)

end Committed

/-- **Enough fuel.** Every frame moves a walk on, so rounds beyond the end of the partition change
nothing. -/
theorem walk_fuel_eq {fuel pos : Nat} (fuel' : Nat) (h : tl - pos ≤ fuel) (h' : tl - pos ≤ fuel') :
    walk m base tl fuel pos = walk m base tl fuel' pos := by
  induction fuel generalizing fuel' pos with
  | zero =>
      cases fuel' with
      | zero => rfl
      | succ fuel' => rw [walk, walk, if_neg (by omega)]
  | succ fuel ih =>
      cases fuel' with
      | zero => rw [walk, walk, if_neg (by omega)]
      | succ fuel' =>
          rw [walk, walk]
          by_cases hpos : pos < tl
          · rw [if_pos hpos, if_pos hpos]
            cases hframe : frameAt m base tl pos with
            | none => rfl
            | some len =>
                have hlen := (le_alignFrameLength_of_frameAt hframe).1
                dsimp only
                rw [ih fuel' (by omega) (by omega)]
          · rw [if_neg hpos, if_neg hpos]

/-- **A walk continues behind a chain.** -/
theorem walk_of_committed {a : Nat} (h : Committed m base tl a fs b) :
    walk m base tl tl a = fs ++ walk m base tl tl b := by
  induction fs generalizing a with
  | nil =>
      obtain rfl : a = b := h
      rfl
  | cons f fs ih =>
      obtain ⟨hoffset, hframe, hread, hrest⟩ := h
      obtain ⟨hlen, hfit⟩ := le_alignFrameLength_of_frameAt hframe
      have hnext := ih hrest
      have hslot : slotLength f = alignFrameLength f.2.length := rfl
      obtain ⟨n, hn⟩ : ∃ n, tl = n + 1 := ⟨tl - 1, by omega⟩
      have hfirst : walk m base tl tl a =
          (a, m.read (base + a) f.2.length) :: walk m base tl n (a + alignFrameLength f.2.length) := by
        conv_lhs => rw [hn, walk, ← hn]
        rw [if_pos (by omega), hframe]
      have hpair : (a, f.2) = f := Prod.ext hoffset.symm rfl
      rw [hfirst, hread, hpair, walk_fuel_eq tl (by omega) (by omega), ← hslot, hnext]
      rfl

theorem committed_walk (m : ByteStore) (base tl fuel pos : Nat) :
    Committed m base tl pos (walk m base tl fuel pos)
      (pos + total slotLength (walk m base tl fuel pos)) := by
  induction fuel generalizing pos with
  | zero => exact (Nat.add_zero pos).symm
  | succ fuel ih =>
      rw [walk]
      by_cases hpos : pos < tl
      · rw [if_pos hpos]
        cases hframe : frameAt m base tl pos with
        | none => exact (Nat.add_zero pos).symm
        | some len =>
            have hslot : slotLength (pos, m.read (base + pos) len) = alignFrameLength len := by
              rw [slotLength, ByteStore.read_length]
            dsimp only
            rw [committed_cons, total_cons, ← Nat.add_assoc, hslot]
            refine ⟨rfl, ?_, ?_, ih (pos + alignFrameLength len)⟩
            · rw [ByteStore.read_length]
              exact hframe
            · rw [ByteStore.read_length]
      · rw [if_neg hpos]
        exact (Nat.add_zero pos).symm

/-! ## Scans -/

namespace RawLog

variable {offset partitionIdx : Nat}

def framesFrom (log : RawLog) (partitionIdx offset : Nat) : List (Nat × List UInt8) :=
  walk log.buffer (partitionIdx * log.termLength) log.termLength log.termLength offset

theorem scanFrames_eq_takeBudget (log : RawLog) (hidx : partitionIdx < partitionCount)
    (offset limit : Nat) :
    log.scanFrames partitionIdx offset limit =
      (takeBudget slotLength limit (log.framesFrom partitionIdx offset),
        total slotLength (takeBudget slotLength limit (log.framesFrom partitionIdx offset))) := by
  rw [scanFrames, if_neg (Nat.not_le.mpr hidx), scanLoop_eq_takeBudget, Nat.sub_zero, Nat.zero_add]
  rfl

/-- **A scan takes the first frames and the next one continues behind them.** It returns the bytes
of what it emits, which reach its limit unless nothing is left. -/
theorem scanFrames_split (log : RawLog) {partitionIdx : Nat} (hidx : partitionIdx < partitionCount)
    (offset limit : Nat) :
    log.framesFrom partitionIdx offset = (log.scanFrames partitionIdx offset limit).1 ++
        log.framesFrom partitionIdx (offset + (log.scanFrames partitionIdx offset limit).2) ∧
      (log.scanFrames partitionIdx offset limit).2 =
        total slotLength (log.scanFrames partitionIdx offset limit).1 ∧
      min limit (total slotLength (log.framesFrom partitionIdx offset)) ≤
        (log.scanFrames partitionIdx offset limit).2 := by
  obtain ⟨rest, hsplit, hlimit⟩ :=
    takeBudget_split slotLength limit (log.framesFrom partitionIdx offset)
  have hscan := log.scanFrames_eq_takeBudget hidx offset limit
  set taken := takeBudget slotLength limit (log.framesFrom partitionIdx offset)
  have hchain := committed_walk log.buffer (partitionIdx * log.termLength) log.termLength
    log.termLength offset
  have hframes : walk log.buffer (partitionIdx * log.termLength) log.termLength log.termLength
      offset = taken ++ rest := hsplit
  rw [hframes] at hchain
  obtain ⟨b, htaken, -⟩ := committed_append.mp hchain
  have hwalk := walk_of_committed htaken
  rw [htaken.eq_add_total] at hwalk
  rw [hscan]
  refine ⟨hwalk, rfl, ?_⟩
  -- either something is left, and the limit was reached, or everything was taken
  by_cases hrest : rest = []
  · rw [hsplit, hrest, List.append_nil]
    exact min_le_right ..
  · exact (min_le_left ..).trans (hlimit hrest)

theorem framesFrom_eq_nil (log : RawLog)
    (h : total slotLength (log.framesFrom partitionIdx offset) = 0) :
    log.framesFrom partitionIdx offset = [] := by
  obtain ⟨-, hpos⟩ := walk_total_le log.buffer (partitionIdx * log.termLength) log.termLength
    log.termLength offset
  by_contra hne
  obtain ⟨f, fs, hcons⟩ := List.exists_cons_of_ne_nil hne
  have hf := hpos f (by rw [framesFrom] at hcons; rw [hcons]; exact List.mem_cons_self)
  rw [hcons, total_cons] at h
  omega

/-- **A full scan** takes everything. -/
theorem scanFrames_full (log : RawLog) (hidx : partitionIdx < partitionCount) {limit : Nat}
    (hlimit : total slotLength (log.framesFrom partitionIdx offset) ≤ limit) :
    log.scanFrames partitionIdx offset limit =
      (log.framesFrom partitionIdx offset,
        total slotLength (log.framesFrom partitionIdx offset)) := by
  obtain ⟨hsplit, hbytes, hmin⟩ := log.scanFrames_split hidx offset limit
  have htotal := congrArg (total slotLength) hsplit
  rw [total_append] at htotal
  rw [min_eq_right hlimit] at hmin
  have hnil : log.framesFrom partitionIdx
      (offset + (log.scanFrames partitionIdx offset limit).2) = [] :=
    log.framesFrom_eq_nil (by omega)
  rw [hnil, List.append_nil] at hsplit
  rw [hsplit, ← hbytes]

/-- A scan with a positive limit takes at least one frame, if there is one. -/
theorem scanFrames_ne_nil (log : RawLog) {limit : Nat} (hidx : partitionIdx < partitionCount)
    (hlimit : 0 < limit) (hframes : log.framesFrom partitionIdx offset ≠ []) :
    (log.scanFrames partitionIdx offset limit).1 ≠ [] := by
  rw [log.scanFrames_eq_takeBudget hidx]
  obtain ⟨f, fs, hcons⟩ := List.exists_cons_of_ne_nil hframes
  rw [hcons, takeBudget_cons_of_pos slotLength hlimit]
  exact List.cons_ne_nil _ _

/-- Scans one after another, each from the offset that the last one reached. -/
def scanEach (log : RawLog) (partitionIdx : Nat) :
    Nat → List Nat → List (List (Nat × List UInt8) × Nat)
  | _, [] => []
  | offset, limit :: limits =>
      let scan := log.scanFrames partitionIdx offset limit
      scan :: scanEach log partitionIdx (offset + scan.2) limits

/-- What such scans emit together. -/
def emitted (log : RawLog) (partitionIdx offset : Nat) (limits : List Nat) :
    List (Nat × List UInt8) :=
  (log.scanEach partitionIdx offset limits).flatMap Prod.fst

def reached (log : RawLog) (partitionIdx offset : Nat) (limits : List Nat) : Nat :=
  offset + ((log.scanEach partitionIdx offset limits).map Prod.snd).sum

theorem emitted_cons (log : RawLog) (partitionIdx offset limit : Nat) (limits : List Nat) :
    log.emitted partitionIdx offset (limit :: limits) =
      (log.scanFrames partitionIdx offset limit).1 ++ log.emitted partitionIdx
        (offset + (log.scanFrames partitionIdx offset limit).2) limits := by
  rw [emitted, scanEach, List.flatMap_cons]
  rfl

theorem reached_cons (log : RawLog) (partitionIdx offset limit : Nat) (limits : List Nat) :
    log.reached partitionIdx offset (limit :: limits) =
      log.reached partitionIdx (offset + (log.scanFrames partitionIdx offset limit).2) limits := by
  rw [reached, reached, scanEach, List.map_cons, List.sum_cons, Nat.add_assoc]

/-- **Scans compose.** What any sequence of scans emits, followed by what is left from the offset
that they reach, is what was there at the start. -/
theorem framesFrom_eq_emitted (log : RawLog) (hidx : partitionIdx < partitionCount) (offset : Nat)
    (limits : List Nat) :
    log.framesFrom partitionIdx offset = log.emitted partitionIdx offset limits ++
        log.framesFrom partitionIdx (log.reached partitionIdx offset limits) ∧
      log.reached partitionIdx offset limits =
        offset + total slotLength (log.emitted partitionIdx offset limits) := by
  induction limits generalizing offset with
  | nil => exact ⟨rfl, rfl⟩
  | cons limit limits ih =>
      obtain ⟨hsplit, hbytes, -⟩ := log.scanFrames_split hidx offset limit
      obtain ⟨hrest, hreached⟩ := ih (offset + (log.scanFrames partitionIdx offset limit).2)
      rw [emitted_cons, reached_cons, total_append, List.append_assoc, ← hrest, ← hbytes]
      exact ⟨hsplit, by rw [hreached, Nat.add_assoc]⟩

/-- Each scan with a positive limit leaves at least one frame less. -/
theorem length_framesFrom_reached_le (log : RawLog) (hidx : partitionIdx < partitionCount)
    (offset : Nat) {limits : List Nat} (hlimits : ∀ limit ∈ limits, 0 < limit) :
    (log.framesFrom partitionIdx (log.reached partitionIdx offset limits)).length ≤
      (log.framesFrom partitionIdx offset).length - limits.length := by
  induction limits generalizing offset with
  | nil => exact le_refl _
  | cons limit limits ih =>
      have hrest := ih (offset + (log.scanFrames partitionIdx offset limit).2)
        fun l hl => hlimits l (List.mem_cons_of_mem limit hl)
      obtain ⟨hsplit, -, -⟩ := log.scanFrames_split hidx offset limit
      rw [reached_cons, List.length_cons]
      by_cases hnil : log.framesFrom partitionIdx offset = []
      · rw [hnil] at hsplit ⊢
        rw [(List.append_eq_nil_iff.mp hsplit.symm).2] at hrest
        exact hrest.trans (by simp)
      · have hne := log.scanFrames_ne_nil hidx (hlimits limit List.mem_cons_self) hnil
        have hlen := congrArg List.length hsplit
        rw [List.length_append] at hlen
        have := List.length_pos_of_ne_nil hne
        omega

/-- **Whatever the bytes**, a scan stops: further rounds change nothing. And every slice that it
emits lies inside the partition. -/
theorem scanFrames_robust (log : RawLog) (partitionIdx offset limit : Nat) :
    (∀ fuel, log.termLength ≤ fuel → partitionIdx < partitionCount →
      scanLoop log.buffer (partitionIdx * log.termLength) log.termLength limit fuel offset 0 =
        log.scanFrames partitionIdx offset limit) ∧
    ∀ f ∈ (log.scanFrames partitionIdx offset limit).1, f.1 + f.2.length ≤ log.termLength ∧
      f.2 = log.buffer.read (partitionIdx * log.termLength + f.1) f.2.length := by
  constructor
  · intro fuel hfuel hidx
    rw [log.scanFrames_eq_takeBudget hidx, scanLoop_eq_takeBudget, Nat.sub_zero, Nat.zero_add,
      walk_fuel_eq log.termLength (by omega) (by omega)]
    rfl
  · intro f hf
    by_cases hidx : partitionIdx < partitionCount
    · obtain ⟨hsplit, -, -⟩ := log.scanFrames_split hidx offset limit
      have hmem : f ∈ log.framesFrom partitionIdx offset := by
        rw [hsplit]
        exact List.mem_append_left _ hf
      have hle : f.2.length ≤ slotLength f := le_alignFrameLength f.2.length
      obtain ⟨-, hend⟩ := bounds_of_mem_walk hmem
      exact ⟨by omega, (read_of_mem_walk hmem).symm⟩
    · rw [scanFrames, if_pos (Nat.not_lt.mp hidx)] at hf
      cases hf

end RawLog

/-! ## Filling a partition -/

/-- A partition that is being filled: the log, the offset of the next append and the frames that
were appended. -/
structure Filling where
  log : RawLog
  offset : Nat
  frames : List (Nat × List UInt8)

namespace Filling

/-- A partition after `clean_partition`. -/
def clean (log : RawLog) (partitionIdx : Nat) : Filling := ⟨log.cleanPartition partitionIdx, 0, []⟩

/-- `append_frame` at the offset that the last successful one returned. -/
def append (partitionIdx : Nat) (s : Filling) (frame : DataHeader × List UInt8) : Filling :=
  match s.log.appendFrame partitionIdx s.offset frame.1 frame.2 with
  | .ok (log, offset) => ⟨log, offset, s.frames ++ [(s.offset, frame.1.encode ++ frame.2)]⟩
  | .error _ => s

/-- The pad frame of the rest of a partition: its header and the zeros behind it. -/
def padFrame (termLength offset : Nat) : Nat × List UInt8 :=
  (offset, (RawLog.padHeader (termLength - offset) offset).encode ++
    List.replicate (termLength - offset - 32) 0)

/-- `write_pad_frame` behind the frames. A full partition gets no pad. -/
def pad (partitionIdx : Nat) (s : Filling) : Filling where
  log := s.log.writePadFrame partitionIdx s.offset
  offset := s.log.termLength
  frames :=
    if s.offset < s.log.termLength then s.frames ++ [padFrame s.log.termLength s.offset]
    else s.frames

def fill (log : RawLog) (partitionIdx : Nat) (frames : List (DataHeader × List UInt8))
    (padded : Bool) : Filling :=
  let s := run (append partitionIdx) (clean log partitionIdx) frames
  if padded then s.pad partitionIdx else s

end Filling

/-- **A filled partition.** It holds a chain of frames from its start to an offset and zeros behind
them. -/
structure Filled (m : ByteStore) (base tl : Nat) (fs : List (Nat × List UInt8)) (offset : Nat) :
    Prop where
  committed : Committed m base tl 0 fs offset
  offset_le : offset ≤ tl
  offset_dvd : 32 ∣ offset
  zero : ∀ x, base + offset ≤ x → x < base + tl → m x = 0

namespace Filled

variable {m m' : ByteStore} {base tl offset : Nat} {fs : List (Nat × List UInt8)}

theorem walk_eq (h : Filled m base tl fs offset) (hdvd : 32 ∣ tl) : walk m base tl tl 0 = fs := by
  have hend : walk m base tl tl offset = [] := by
    cases hn : tl with
    | zero => rfl
    | succ n =>
        rw [walk, ← hn]
        by_cases hroom : offset < tl
        · have hoff := h.offset_dvd
          have hword : m.readI32 (base + offset) = 0 :=
            readI32_eq_zero fun i hi => h.zero (base + offset + i) (by omega) (by omega)
          have hnone : frameAt m base tl offset = none := by
            unfold frameAt
            simp [hword]
          rw [if_pos hroom, hnone]
        · rw [if_neg hroom]
  rw [walk_of_committed h.committed, hend, List.append_nil]

/-- **One frame more.** Where a frame was written at the offset, over zeros and nothing else, the
partition is filled up to its end. -/
theorem extend (h : Filled m base tl fs offset) {header : DataHeader} {f : List UInt8}
    (hheader : m'.read (base + offset) 32 = header.encode)
    (hlength : header.frameHeader.frameLength.toNat = f.length) (hge : 32 ≤ f.length)
    (hlt : f.length < 2 ^ 31) (hread : m'.read (base + offset) f.length = f)
    (hfit : offset + alignFrameLength f.length ≤ tl)
    (houtside : ∀ x, x < base + offset ∨ base + offset + alignFrameLength f.length ≤ x →
      m' x = m x) :
    Filled m' base tl (fs ++ [(offset, f)]) (offset + alignFrameLength f.length) where
  committed := by
    have hframe : frameAt m' base tl offset = some f.length := by
      have hle := le_alignFrameLength f.length
      refine frameAt_eq_some.mpr ⟨by omega, ?_, hge, hlt, hfit⟩
      rw [readI32_of_header hheader, hlength]
    have hold := h.committed.congr fun x _ hx => houtside x (.inl hx)
    exact committed_append.mpr ⟨offset, hold, rfl, hframe, hread, rfl⟩
  offset_le := hfit
  offset_dvd := Nat.dvd_add h.offset_dvd (alignFrameLength_dvd _)
  zero := by
    intro x hlo hhi
    rw [houtside x (.inr (by omega))]
    exact h.zero x (by omega) hhi

end Filled

namespace Filling

variable {s : Filling} {partitionIdx : Nat} {tl : Nat}

def Inv (partitionIdx tl : Nat) (s : Filling) : Prop :=
  s.log.termLength = tl ∧ Filled s.log.buffer (partitionIdx * tl) tl s.frames s.offset

theorem inv_clean (log : RawLog) (hidx : partitionIdx < partitionCount) :
    Inv partitionIdx log.termLength (clean log partitionIdx) := by
  refine ⟨log.cleanPartition_termLength partitionIdx, rfl, Nat.zero_le _, Nat.dvd_zero 32, ?_⟩
  intro x hlo hhi
  have hlo' : partitionIdx * log.termLength ≤ x := hlo
  rw [clean, RawLog.cleanPartition, if_neg (Nat.not_le.mpr hidx)]
  exact ByteStore.fill_of_inside _ _ _ hlo' hhi

/-- **When an append succeeds.** It adds its frame exactly if the aligned frame fits behind the ones
before it, and changes nothing otherwise. -/
theorem append_eq (hidx : partitionIdx < partitionCount) (hoff : s.offset ≤ 2 ^ 30)
    {header : DataHeader} {payload : List UInt8} (hlen : 32 + payload.length < 2 ^ 31) :
    append partitionIdx s (header, payload) =
      if s.offset + alignFrameLength (32 + payload.length) ≤ s.log.termLength then
        ⟨s.log.withBuffer (s.log.buffer.write (partitionIdx * s.log.termLength + s.offset)
          (header.encode ++ payload)), s.offset + alignFrameLength (32 + payload.length),
          s.frames ++ [(s.offset, header.encode ++ payload)]⟩
      else s := by
  have haligned : alignFrameLength (32 + payload.length) ≤ 2 ^ 31 := by
    rw [alignFrameLength]
    omega
  -- offset and frame are too short for the 32-bit sum to wrap
  have hsum : (s.offset + alignFrameLength (32 + payload.length)) % 2 ^ 32 =
      s.offset + alignFrameLength (32 + payload.length) := Nat.mod_eq_of_lt (by omega)
  split_ifs with hfit
  · have hwrite := ByteStore.write_write_append s.log.buffer
      (partitionIdx * s.log.termLength + s.offset) header.encode payload
    rw [DataHeader.encode_length] at hwrite
    rw [append, s.log.appendFrame_of_fits header hidx (by rw [hsum]; omega), hsum, hwrite]
  · rw [append, s.log.appendFrame_of_full header hidx (by rw [hsum]; omega)]

/-- **An append adds its frame**, if the header has the length of the frame. -/
theorem inv_append (htl : tl ≤ 2 ^ 30) (hidx : partitionIdx < partitionCount)
    (h : Inv partitionIdx tl s) {header : DataHeader} {payload : List UInt8}
    (hlength : header.frameHeader.frameLength.toInt = 32 + payload.length) :
    Inv partitionIdx tl (append partitionIdx s (header, payload)) := by
  obtain ⟨rfl, hfilled⟩ := h
  have hnat : header.frameHeader.frameLength.toNat = 32 + payload.length ∧
      32 + payload.length < 2 ^ 31 := by
    have := header.frameHeader.frameLength.isLt
    rw [BitVec.toInt_eq_toNat_cond] at hlength
    split at hlength <;> omega
  have hoff := hfilled.offset_le
  have hlen : (header.encode ++ payload).length = 32 + payload.length := by
    rw [List.length_append, DataHeader.encode_length]
  rw [append_eq hidx (by omega) hnat.2]
  split_ifs with hfit
  · refine ⟨rfl, ?_⟩
    have hread := s.log.buffer.read_write_same (partitionIdx * s.log.termLength + s.offset)
      (header.encode ++ payload)
    have hheader : (s.log.buffer.write (partitionIdx * s.log.termLength + s.offset)
        (header.encode ++ payload)).read (partitionIdx * s.log.termLength + s.offset) 32 =
          header.encode := by
      rw [← ByteStore.read_take _ _ (header.encode ++ payload).length 32 (by omega), hread,
        List.take_left' (DataHeader.encode_length _)]
    have hle := le_alignFrameLength (header.encode ++ payload).length
    have hextend := hfilled.extend hheader (by rw [hlen]; exact hnat.1) (by omega) (by omega) hread
      (by rw [hlen]; omega) fun x hx => ByteStore.write_of_outside _ _ _ (by omega)
    rw [hlen] at hextend
    exact hextend
  · exact ⟨rfl, hfilled⟩

/-- **A pad fills the rest** of a partition. -/
theorem inv_pad (htl : tl ≤ 2 ^ 30) (hidx : partitionIdx < partitionCount)
    (h : Inv partitionIdx tl s) : Inv partitionIdx tl (s.pad partitionIdx) := by
  obtain ⟨rfl, hfilled⟩ := h
  have hoff := hfilled.offset_le
  have hdvd := hfilled.offset_dvd
  have htl32 := s.log.termLength_dvd
  by_cases hroom : s.offset < s.log.termLength
  · set rest := s.log.termLength - s.offset with hrest
    have hlog : (s.pad partitionIdx).log = s.log.withBuffer (s.log.buffer.write
        (partitionIdx * s.log.termLength + s.offset) (RawLog.padHeader rest s.offset).encode) := by
      have hheader : dataHeaderLength = 32 := rfl
      rw [pad, RawLog.writePadFrame, if_neg (Nat.not_le.mpr hidx), if_neg (Nat.not_le.mpr hroom),
        if_neg (by omega)]
    have hframes : (s.pad partitionIdx).frames =
        s.frames ++ [padFrame s.log.termLength s.offset] := by rw [pad, if_pos hroom]
    set m' := s.log.buffer.write (partitionIdx * s.log.termLength + s.offset)
      (RawLog.padHeader rest s.offset).encode with hm'
    have houtside : ∀ x, x < partitionIdx * s.log.termLength + s.offset ∨
        partitionIdx * s.log.termLength + s.offset + 32 ≤ x → m' x = s.log.buffer x := by
      intro x hx
      exact ByteStore.write_of_outside _ _ _ (by rwa [DataHeader.encode_length])
    have hheader : m'.read (partitionIdx * s.log.termLength + s.offset) 32 =
        (RawLog.padHeader rest s.offset).encode := by
      have hsame := s.log.buffer.read_write_same (partitionIdx * s.log.termLength + s.offset)
        (RawLog.padHeader rest s.offset).encode
      rwa [DataHeader.encode_length] at hsame
    -- behind the header the partition is still zero
    have hzeros : m'.read (partitionIdx * s.log.termLength + s.offset + 32) (rest - 32) =
        List.replicate (rest - 32) 0 := by
      refine List.eq_replicate_iff.mpr ⟨ByteStore.read_length .., fun b hb => ?_⟩
      obtain ⟨i, hi, rfl⟩ := List.getElem_of_mem hb
      rw [ByteStore.read_length] at hi
      rw [ByteStore.read_getElem, houtside _ (.inr (by omega))]
      exact hfilled.zero _ (by omega) (by omega)
    have hlen : (padFrame s.log.termLength s.offset).2.length = rest := by
      simp only [padFrame, List.length_append, DataHeader.encode_length, List.length_replicate]
      omega
    have hread : m'.read (partitionIdx * s.log.termLength + s.offset)
        (padFrame s.log.termLength s.offset).2.length = (padFrame s.log.termLength s.offset).2 := by
      rw [hlen, show rest = 32 + (rest - 32) by omega, ByteStore.read_append, hheader, hzeros]
      rfl
    have halign : alignFrameLength rest = rest := alignFrameLength_of_dvd (by omega)
    have hword : (RawLog.padHeader rest s.offset).frameHeader.frameLength.toNat = rest := by
      rw [RawLog.padHeader, BitVec.toNat_ofNat, Nat.mod_eq_of_lt (by omega)]
    have hextend := hfilled.extend hheader (by rw [hlen]; exact hword) (by omega) (by omega) hread
      (by rw [hlen, halign]; omega) fun x hx => houtside x (by rw [hlen, halign] at hx; omega)
    rw [hlen, halign, show s.offset + rest = s.log.termLength by omega] at hextend
    refine ⟨by rw [hlog]; rfl, ?_⟩
    rw [hlog, hframes]
    exact hextend
  · -- a full partition is left as it is
    have hfull : s.offset = s.log.termLength := by omega
    have hlog : (s.pad partitionIdx).log = s.log := by
      rw [pad, RawLog.writePadFrame, if_neg (Nat.not_le.mpr hidx), if_pos (by omega)]
    have hframes : (s.pad partitionIdx).frames = s.frames := by rw [pad, if_neg hroom]
    have hoffset : (s.pad partitionIdx).offset = s.offset := hfull.symm
    refine ⟨by rw [hlog], ?_⟩
    rw [hlog, hframes, hoffset]
    exact hfilled

/-- **A filled partition holds exactly its frames.** -/
theorem inv_fill {log : RawLog} (hlog : log.termLength ≤ 2 ^ 30)
    (hidx : partitionIdx < partitionCount) {frames : List (DataHeader × List UInt8)}
    (hframes : ∀ f ∈ frames, f.1.frameHeader.frameLength.toInt = 32 + f.2.length) (padded : Bool) :
    Inv partitionIdx log.termLength (fill log partitionIdx frames padded) := by
  have hrun : Inv partitionIdx log.termLength
      (run (append partitionIdx) (clean log partitionIdx) frames) :=
    @run_invariant _ _ _ (append partitionIdx) (Inv partitionIdx log.termLength)
      (fun _ _ h hf => inv_append hlog hidx h hf) _ (inv_clean log hidx) frames
      (meets_of_forall hframes)
  cases padded with
  | false => exact hrun
  | true => exact inv_pad hlog hidx hrun

/-- The frames of a filling are what a walk over its partition finds. -/
theorem Inv.framesFrom_eq (h : Inv partitionIdx tl s) :
    s.log.framesFrom partitionIdx 0 = s.frames := by
  obtain ⟨rfl, hfilled⟩ := h
  exact hfilled.walk_eq s.log.termLength_dvd

/-- **Limited scans compose.** For every term length up to `2 ^ 30` and every partition that was
cleaned, filled by appends at consecutive offsets with headers of the right length, and padded or not:

* a scan from offset zero whose limit is no less than the bytes committed emits exactly the appended
  frames, and the pad if one was written, at their offsets and with their bytes, and returns their
  total aligned length;
* scans one after another with positive limits emit a first part of these frames, each once and in
  order, and all of them if there are as many scans as frames; and wherever they have come to, the
  next scan returns at least its limit or all that is left, and zero only if nothing is left.

And whatever the bytes of a log, a scan of it from any offset stops, and emits only slices of the
partition. -/
theorem limited_scans_compose {log : RawLog} (hlog : log.termLength ≤ 2 ^ 30)
    (hidx : partitionIdx < partitionCount) {frames : List (DataHeader × List UInt8)}
    (hframes : ∀ f ∈ frames, f.1.frameHeader.frameLength.toInt = 32 + f.2.length) (padded : Bool) :
    (∀ limit, total slotLength (fill log partitionIdx frames padded).frames ≤ limit →
      (fill log partitionIdx frames padded).log.scanFrames partitionIdx 0 limit =
        ((fill log partitionIdx frames padded).frames,
          total slotLength (fill log partitionIdx frames padded).frames)) ∧
    (∀ limits : List Nat, (∀ limit ∈ limits, 0 < limit) →
      (fill log partitionIdx frames padded).log.emitted partitionIdx 0 limits <+:
          (fill log partitionIdx frames padded).frames ∧
        ((fill log partitionIdx frames padded).frames.length ≤ limits.length →
          (fill log partitionIdx frames padded).log.emitted partitionIdx 0 limits =
            (fill log partitionIdx frames padded).frames) ∧
        ∀ limit, 0 < limit →
          min limit (total slotLength (fill log partitionIdx frames padded).frames -
              (fill log partitionIdx frames padded).log.reached partitionIdx 0 limits) ≤
            ((fill log partitionIdx frames padded).log.scanFrames partitionIdx
              ((fill log partitionIdx frames padded).log.reached partitionIdx 0 limits) limit).2 ∧
          (((fill log partitionIdx frames padded).log.scanFrames partitionIdx
              ((fill log partitionIdx frames padded).log.reached partitionIdx 0 limits) limit).2 = 0 →
            (fill log partitionIdx frames padded).log.emitted partitionIdx 0 limits =
              (fill log partitionIdx frames padded).frames)) ∧
    ∀ (other : RawLog) (index offset limit : Nat),
      (∀ fuel, other.termLength ≤ fuel → index < partitionCount →
        scanLoop other.buffer (index * other.termLength) other.termLength limit fuel offset 0 =
          other.scanFrames index offset limit) ∧
      ∀ f ∈ (other.scanFrames index offset limit).1, f.1 + f.2.length ≤ other.termLength ∧
        f.2 = other.buffer.read (index * other.termLength + f.1) f.2.length := by
  have hfill := (inv_fill hlog hidx hframes padded).framesFrom_eq
  set s := fill log partitionIdx frames padded
  refine ⟨fun limit hlimit => ?_, fun limits hlimits => ?_, RawLog.scanFrames_robust⟩
  · rw [← hfill] at hlimit ⊢
    exact s.log.scanFrames_full hidx hlimit
  -- what the scans have emitted and what they find from where they are is all there is
  obtain ⟨hsplit, hreached⟩ := s.log.framesFrom_eq_emitted hidx 0 limits
  have hleft := s.log.length_framesFrom_reached_le hidx 0 hlimits
  rw [hfill] at hsplit hleft
  have htotal := congrArg (total slotLength) hsplit
  rw [total_append] at htotal
  refine ⟨⟨_, hsplit.symm⟩, fun henough => ?_, fun limit hlimit => ?_⟩
  · have hnil : s.log.framesFrom partitionIdx (s.log.reached partitionIdx 0 limits) = [] :=
      List.length_eq_zero_iff.mp (by omega)
    rw [hnil, List.append_nil] at hsplit
    exact hsplit.symm
  obtain ⟨-, -, hmin⟩ :=
    s.log.scanFrames_split hidx (s.log.reached partitionIdx 0 limits) limit
  refine ⟨?_, fun hzero => ?_⟩
  · rwa [show total slotLength s.frames - s.log.reached partitionIdx 0 limits =
      total slotLength (s.log.framesFrom partitionIdx (s.log.reached partitionIdx 0 limits)) by omega]
  · have hnil : s.log.framesFrom partitionIdx (s.log.reached partitionIdx 0 limits) = [] :=
      s.log.framesFrom_eq_nil (by omega)
    rw [hnil, List.append_nil] at hsplit
    exact hsplit.symm

def log128 : RawLog := .of128 fun _ => 5

def headerOf (payloadLength : Nat) : DataHeader :=
  ⟨⟨BitVec.ofNat 32 (32 + payloadLength), 0, 0, frameTypeData⟩, 0, 1, 10, 0, 0⟩

/-- A frame of 40 bytes, an empty one and one that does not fit any more. -/
def threeFrames : List (DataHeader × List UInt8) :=
  [(headerOf 8, List.replicate 8 7), (headerOf 0, []), (headerOf 40, List.replicate 40 7)]

/-- The partition holds the two frames and a pad of 32 bytes. Scans with limits 1 and 70 emit the first
frame and then the rest. -/
theorem limited_scans_three :
    total slotLength (fill log128 2 threeFrames true).frames = 128 ∧
      (fill log128 2 threeFrames true).log.scanFrames 2 0 128 =
        ((fill log128 2 threeFrames true).frames, 128) ∧
      (fill log128 2 threeFrames true).log.emitted 2 0 [1, 70, 1] =
        (fill log128 2 threeFrames true).frames := by
  have htotal : total slotLength (fill log128 2 threeFrames true).frames = 128 := by decide +kernel
  obtain ⟨hfull, hparts, -⟩ := limited_scans_compose (show log128.termLength ≤ 2 ^ 30 by decide)
    (show 2 < partitionCount by decide) (show ∀ f ∈ threeFrames, _ by decide +kernel) true
  refine ⟨htotal, ?_, (hparts [1, 70, 1] (by decide)).2.1 (by decide +kernel)⟩
  rw [hfull 128 (by omega), htotal]

end Filling

end AeronRs
