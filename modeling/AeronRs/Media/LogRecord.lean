import AeronRs.Media.NetworkPublication

/-! # The log as a stream of records

What the partitions of a publication hold, seen as a stream: a sequence of **records** (data frames
and pads), each at its stream position, that **tile** the stream without gaps. A record never
crosses a term boundary. `scanLoop_stored` says that a scan over stored records emits exactly the
frames of those that start below its limit. -/

namespace AeronRs

variable {rs : List LogRecord} {b T : Nat}

/-- What a frame's header says about the stream that it belongs to. -/
structure StreamIds where
  initialTermId : BitVec 32
  sessionId : BitVec 32
  streamId : BitVec 32
  termLength : Nat

/-- A record of the log: a data frame or a pad, at a stream position. -/
inductive LogRecord
  | data (start : Nat) (payload : List UInt8)
  | pad (start : Nat) (len : Nat)
  deriving DecidableEq

namespace LogRecord

variable {r : LogRecord} {m : ByteStore} {ids : StreamIds}

def start : LogRecord → Nat
  | data s _ => s
  | pad s _ => s

/-- The value of a record's length word. -/
def frameLength : LogRecord → Nat
  | data _ payload => 32 + payload.length
  | pad _ len => len

/-- The stream bytes that a record takes up. -/
def length (r : LogRecord) : Nat := alignFrameLength r.frameLength

theorem length_eq (r : LogRecord) : alignFrameLength r.frameLength = r.length := rfl

def isData : LogRecord → Bool
  | data _ _ => true
  | pad _ _ => false

/-- The header of a record: it carries the term and the offset of the record's own position. -/
def header (ids : StreamIds) : LogRecord → DataHeader
  | data s payload =>
      { frameHeader := ⟨BitVec.ofNat 32 (32 + payload.length), currentVersion,
          dataFlagUnfragmented, frameTypeData⟩
        termOffset := BitVec.ofNat 32 (s % ids.termLength)
        sessionId := ids.sessionId
        streamId := ids.streamId
        termId := ids.initialTermId + BitVec.ofNat 32 (s / ids.termLength)
        reservedValue := 0 }
  | pad s len => RawLog.padHeader len (s % ids.termLength)

def body : LogRecord → List UInt8
  | data _ payload => payload
  | pad _ len => List.replicate (len - 32) 0

def frame (ids : StreamIds) (r : LogRecord) : List UInt8 := (r.header ids).encode ++ r.body

/-- A record lies inside one term and its length word is a positive 32-bit number. -/
structure Fits (T : Nat) (r : LogRecord) : Prop where
  inTerm : r.start % T + r.length ≤ T
  ge : 32 ≤ r.frameLength
  lt : r.frameLength < 2 ^ 31

/-- The partitions hold the record's frame at its position. -/
def Stored (ids : StreamIds) (m : ByteStore) (r : LogRecord) : Prop :=
  m.read (slotOf 4 ids.termLength r.start) r.frameLength = r.frame ids

theorem header_frameLength (ids : StreamIds) (r : LogRecord) :
    (r.header ids).frameHeader.frameLength = BitVec.ofNat 32 r.frameLength := by
  cases r <;> rfl

theorem frameLength_le (r : LogRecord) : r.frameLength ≤ r.length := le_alignFrameLength _

theorem Fits.length_pos {T : Nat} (h : r.Fits T) : 32 ≤ r.length :=
  le_trans h.ge r.frameLength_le

theorem frame_length (ids : StreamIds) (h : 32 ≤ r.frameLength) :
    (r.frame ids).length = r.frameLength := by
  cases r with
  | data s payload => simp [frame, body, frameLength]
  | pad s len =>
      have : 32 ≤ len := h
      simp only [frame, body, frameLength, List.length_append, DataHeader.encode_length,
        List.length_replicate]
      omega

/-- The type field of a record's frame tells data from pads. -/
theorem frameTypeOf_frame (ids : StreamIds) (r : LogRecord) :
    frameTypeOf (r.frame ids) = if r.isData then frameTypeData else frameTypePad := by
  rw [frame, frameTypeOf_header]
  cases r <;> rfl

theorem Stored.read_header (h : r.Stored ids m) (hge : 32 ≤ r.frameLength) :
    m.read (slotOf 4 ids.termLength r.start) 32 = (r.header ids).encode := by
  rw [← m.read_take _ r.frameLength 32 hge, show m.read _ _ = _ from h, frame,
    List.take_left' (DataHeader.encode_length _)]

/-- **A scan sees a stored record.** -/
theorem Stored.frameAt_eq (h : r.Stored ids m) (hfits : r.Fits ids.termLength) :
    frameAt m (r.start / ids.termLength % 4 * ids.termLength) ids.termLength
      (r.start % ids.termLength) = some r.frameLength := by
  have hword : m.readI32 (slotOf 4 ids.termLength r.start) = BitVec.ofNat 32 r.frameLength := by
    rw [readI32_of_header (h.read_header hfits.ge), r.header_frameLength]
  have hle := hfits.inTerm
  have hlen := hfits.length_pos
  have hlt := hfits.lt
  refine frameAt_eq_some.mpr ⟨by omega, ?_, hfits.ge, hlt, hle⟩
  rw [← slotOf, hword, BitVec.toNat_ofNat, Nat.mod_eq_of_lt (by omega)]

/-- A stored record stays stored when its bytes do not change. -/
theorem Stored.congr {ids : StreamIds} {m m' : ByteStore} {r : LogRecord} (h : r.Stored ids m)
    (hfits : r.Fits ids.termLength)
    (hbytes : ∀ q, r.start ≤ q → q < r.start + r.length →
      m' (slotOf 4 ids.termLength q) = m (slotOf 4 ids.termLength q)) : r.Stored ids m' := by
  rw [Stored, ← show m.read _ _ = _ from h]
  have hle := hfits.inTerm
  have hlen := r.frameLength_le
  refine ByteStore.read_congr fun i hi => ?_
  have hb := hbytes (r.start + i) (by omega) (by omega)
  rwa [slotOf_add 4 _ _ i (by omega)] at hb

end LogRecord

/-- **Tiling.** The records follow one another without gaps from position `a` to position `b`, each
inside its term. -/
def Tiles (T : Nat) : Nat → List LogRecord → Nat → Prop
  | a, [], b => a = b
  | a, r :: rs, b => r.start = a ∧ r.Fits T ∧ Tiles T (a + r.length) rs b

@[simp] theorem tiles_nil {a : Nat} : Tiles T a [] b ↔ a = b := Iff.rfl

@[simp] theorem tiles_cons {a : Nat} {r : LogRecord} :
    Tiles T a (r :: rs) b ↔ r.start = a ∧ r.Fits T ∧ Tiles T (a + r.length) rs b := Iff.rfl

/-- The records before and after a point tile up to and from one position. -/
theorem tiles_append {a c : Nat} {rs' : List LogRecord} :
    Tiles T a (rs ++ rs') c ↔ ∃ b, Tiles T a rs b ∧ Tiles T b rs' c := by
  induction rs generalizing a with
  | nil => simp
  | cons r rs ih =>
      simp only [List.cons_append, tiles_cons, ih]
      constructor
      · rintro ⟨hs, hf, b, h₁, h₂⟩
        exact ⟨b, ⟨hs, hf, h₁⟩, h₂⟩
      · rintro ⟨b, ⟨hs, hf, h₁⟩, h₂⟩
        exact ⟨hs, hf, b, h₁, h₂⟩

theorem Tiles.eq_add_total {a : Nat} (h : Tiles T a rs b) :
    b = a + total LogRecord.length rs := by
  induction rs generalizing a with
  | nil => simpa using h.symm
  | cons r rs ih =>
      obtain ⟨-, -, hrest⟩ := h
      rw [ih hrest, total_cons, Nat.add_assoc]

theorem Tiles.eq_nil {a : Nat} (h : Tiles T a rs a) : rs = [] := by
  cases rs with
  | nil => rfl
  | cons r rs =>
      obtain ⟨-, hfits, hrest⟩ := h
      have := hfits.length_pos
      have := hrest.eq_add_total
      omega

/-- Each record of a tiling lies inside the tiled interval and inside its term. -/
theorem Tiles.mem {a : Nat} (h : Tiles T a rs b) {r : LogRecord} (hr : r ∈ rs) :
    r.Fits T ∧ a ≤ r.start ∧ r.start + r.length ≤ b := by
  induction rs generalizing a with
  | nil => exact absurd hr List.not_mem_nil
  | cons r' rs ih =>
      obtain ⟨hstart, hfits, hrest⟩ := h
      rcases List.mem_cons.mp hr with rfl | hmem
      · have := hrest.eq_add_total
        exact ⟨hfits, hstart.ge, by omega⟩
      · obtain ⟨hf, hlo, hhi⟩ := ih hrest hmem
        exact ⟨hf, by omega, hhi⟩

/-- **A budget as a bound on positions.** The records that a scan takes are those that start less
than its budget after the first. -/
theorem Tiles.takeBudget_eq_filter {a : Nat} (h : Tiles T a rs b) (budget : Nat) :
    takeBudget LogRecord.length budget rs = rs.filter fun r => r.start < a + budget := by
  induction rs generalizing a budget with
  | nil => simp
  | cons r rs ih =>
      obtain ⟨hstart, hfits, hrest⟩ := h
      have hlen := hfits.length_pos
      by_cases hb : 0 < budget
      · rw [takeBudget_cons_of_pos _ hb, List.filter_cons_of_pos (by simp; omega), ih hrest]
        congr 1
        refine List.filter_congr fun r' hr' => ?_
        have := (hrest.mem hr').2.1
        simp only [decide_eq_decide]
        omega
      · obtain rfl : budget = 0 := by omega
        rw [takeBudget_zero, eq_comm, List.filter_eq_nil_iff]
        intro r' hr'
        have : a ≤ r'.start := by
          rcases List.mem_cons.mp hr' with rfl | hmem
          · exact hstart.ge
          · have := (hrest.mem hmem).2.1
            omega
        simp only [decide_eq_true_eq]
        omega

/-- **A scan over stored records.** From offset `o` of term `k`, with a limit that the records and
the rest of the term both cover, a scan emits the frames of the records that start below it. -/
theorem scanLoop_stored {ids : StreamIds} {m : ByteStore} {k o limit fuel scanned e : Nat}
    (htiles : Tiles ids.termLength (k * ids.termLength + o) rs e)
    (hstored : ∀ r ∈ rs, r.Stored ids m) (hterm : limit - scanned ≤ ids.termLength - o)
    (hend : limit - scanned ≤ e - (k * ids.termLength + o)) (hfuel : ids.termLength - o ≤ fuel) :
    scanLoop m (k % 4 * ids.termLength) ids.termLength limit fuel o scanned =
      ((takeBudget LogRecord.length (limit - scanned) rs).map
          fun r => (r.start % ids.termLength, r.frame ids),
        scanned + total LogRecord.length (takeBudget LogRecord.length (limit - scanned) rs)) := by
  set T := ids.termLength with hT
  -- the induction follows the records; the loop reads one record a round while budget is left
  induction rs generalizing o fuel scanned with
  | nil =>
      have hzero : limit - scanned = 0 := by
        have : k * T + o = e := htiles
        omega
      cases fuel with
      | zero => simp [scanLoop]
      | succ fuel => rw [scanLoop, if_neg (by omega)]; simp
  | cons r rs ih =>
      by_cases hb : 0 < limit - scanned
      · obtain ⟨hstart, hfits, hrest⟩ := htiles
        have hoT : o < T := by omega
        obtain ⟨hdiv, hmod⟩ := term_offset_of_lt k hoT
        rw [← hstart] at hdiv hmod
        have hstored_r := hstored r List.mem_cons_self
        have hframe := hstored_r.frameAt_eq hfits
        rw [← hT, hdiv, hmod] at hframe
        have hread : m.read (k % 4 * T + o) r.frameLength = r.frame ids := by
          rw [← hstored_r, slotOf, ← hT, hdiv, hmod]
        have hin := hfits.inTerm
        rw [hmod] at hin
        have hlen := hfits.length_pos
        obtain ⟨fuel, rfl⟩ : ∃ f, fuel = f + 1 := ⟨fuel - 1, by omega⟩
        have hrest' : Tiles T (k * T + (o + r.length)) rs e := by rwa [← Nat.add_assoc]
        have hstored' : ∀ r' ∈ rs, r'.Stored ids m := fun r' hr' =>
          hstored r' (List.mem_cons_of_mem r hr')
        have hnext : scanLoop m (k % 4 * T) T limit fuel (o + r.length) (scanned + r.length) = _ :=
          ih hstored' hrest' (by omega) (by omega) (by omega)
        rw [scanLoop, if_pos ⟨hoT, by omega⟩, hframe]
        simp only [LogRecord.length_eq, hnext]
        rw [takeBudget_cons_of_pos _ hb, List.map_cons, total_cons, hread, hmod, Nat.sub_add_eq,
          Nat.add_assoc]
      · have hzero : limit - scanned = 0 := by omega
        rw [hzero]
        cases fuel with
        | zero => simp [scanLoop]
        | succ fuel => rw [scanLoop, if_neg (by omega)]; simp

end AeronRs
