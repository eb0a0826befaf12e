import AeronRs.Media.PublicationThreads

/-! # Frames are stable until they are flushed

The publisher may reuse a partition once the sender's position has left it, but the kernel reads a
submitted frame only at the flush, after that position was stored: `flushed_frame_zeroed` is an
interleaving in which the partition is zeroed in between. **`Clear`** asks every rotation for the
sender's position *at the last flush*, and `submitted_stable` says that then no store of `offer`
touches a submitted frame, in any interleaving of the two threads. -/

namespace AeronRs

open Runs

namespace PublicationThreads

/-- The condition on a step. An offer has a frame of less than `2 ^ 31` bytes; one that rotates finds
the sender's position at the last flush within two terms of the active term, which is not the last
that a 32-bit term count can number. A scan is one of `do_send`, within what is published. -/
def Clear (s : PublicationThreads) : FlushAction → Prop
  | .offer payload => s.offering = .idle →
      (s.network.Admits payload → alignFrameLength (32 + payload.length) < 2 ^ 31) ∧
        (s.network.Rotates payload → s.network.termCount + 1 < 2 ^ 31 ∧
          (s.network.termCount * s.network.termLength : Int) ≤
            s.flushed + 2 * s.network.termLength)
  | .beginScan limit => (limit : Int) ≤ s.network.pubPosition - s.network.senderPosition
  | .store => True
  | .scan => True
  | .flush => True

instance (s : PublicationThreads) : (a : FlushAction) → Decidable (s.Clear a)
  | .offer _ => inferInstanceAs (Decidable (_ → (_ → _) ∧ (_ → _ ∧ _)))
  | .beginScan _ => inferInstanceAs (Decidable (_ ≤ _))
  | .store => isTrue trivial
  | .scan => isTrue trivial
  | .flush => isTrue trivial

/-- **No submitted byte changes.** The step leaves the bytes of every submitted frame as they were. -/
def KeepsSubmitted (s : PublicationThreads) (a : FlushAction) : Prop :=
  ∀ f ∈ s.submitted, (s.step a).buffer.read f.1 f.2.length = s.buffer.read f.1 f.2.length

instance (s : PublicationThreads) (a : FlushAction) : Decidable (s.KeepsSubmitted a) :=
  inferInstanceAs (Decidable (∀ _ ∈ _, _))

end PublicationThreads

/-! ## What the stores of an offer touch -/

/-- The rest of the active term is at none of the addresses of what was published in the last four
terms. -/
theorem AtCursor.slotOf_outside {p : NetworkPublication} {n : Nat} (h : AtCursor p n) {q : Nat}
    (hlo : n * p.termLength ≤ q + 3 * p.termLength) (hq : q < n * p.termLength + p.termOffset) :
    slotOf 4 p.termLength q < n % 4 * p.termLength + p.termOffset ∨
      n % 4 * p.termLength + p.termLength ≤ slotOf 4 p.termLength q := by
  have hoff := h.offset_le
  by_contra hin
  obtain ⟨i, hi⟩ := Nat.exists_eq_add_of_le
    (show n % 4 * p.termLength ≤ slotOf 4 p.termLength q by omega)
  have hlt : i < p.termLength := by omega
  have := eq_of_slotOf_eq (hi.trans (slotOf_term 4 p.termLength n hlt).symm) (by omega) (by omega)
  omega

namespace PublicationPair

theorem cursorBase_eq {c : PublicationPair} {n : Nat} (h : AtCursor c.toNetwork n) :
    c.cursorBase = n % 4 * c.toNetwork.termLength + c.toNetwork.termOffset := by
  have hpart : partitionIndex c.publisher.activeTermId c.inner.initialTermId = n % 4 :=
    h.partition_eq
  rw [cursorBase, hpart]
  rfl

theorem write_rest {c : PublicationPair} {n : Nat} (h : AtCursor c.toNetwork n) {m : ByteStore}
    {d : Nat} {bs : List UInt8}
    (hfit : c.toNetwork.termOffset + d + bs.length ≤ c.toNetwork.termLength) {q : Nat}
    (hlo : n * c.toNetwork.termLength ≤ q + 3 * c.toNetwork.termLength)
    (hq : q < n * c.toNetwork.termLength + c.toNetwork.termOffset) :
    m.write (c.cursorBase + d) bs (slotOf 4 c.toNetwork.termLength q) =
      m (slotOf 4 c.toNetwork.termLength q) := by
  have hout := h.slotOf_outside hlo hq
  refine m.write_of_outside _ _ ?_
  rw [cursorBase_eq h]
  omega

/-- **A frame is being appended**: the tests have let it through. -/
structure Appends (c : PublicationPair) (payload : List UInt8) : Prop where
  admitted : c.toNetwork.Admits payload
  fits : ¬ c.toNetwork.Rotates payload
  size : alignFrameLength (32 + payload.length) < 2 ^ 31

/-- **The term is being rotated**, with the flushed position within two terms. -/
structure Turns (c : PublicationPair) (n flushed : Nat) : Prop where
  count : n + 1 < 2 ^ 31
  clear : n * c.toNetwork.termLength ≤ flushed + 2 * c.toNetwork.termLength
  rest_lt : c.toNetwork.termLength - c.toNetwork.termOffset < 2 ^ 31

def Underway (c : PublicationPair) (n flushed : Nat) : Offering → Prop
  | .idle => True
  | .header payload => c.Appends payload
  | .payload payload => c.Appends payload
  | .commit payload => c.Appends payload
  | .publish payload => c.Appends payload
  | .padHeader => c.Turns n flushed ∧ dataHeaderLength ≤ c.remaining
  | .padCommit => c.Turns n flushed ∧ dataHeaderLength ≤ c.remaining
  | .rotate => c.Turns n flushed

theorem Appends.room {c : PublicationPair} {payload : List UInt8} (h : c.Appends payload) {n : Nat}
    (hc : AtCursor c.toNetwork n) :
    c.toNetwork.termOffset + 32 + payload.length ≤ c.toNetwork.termLength := by
  have hoff := hc.offsetAfter_eq h.size
  have hle := AtCursor.offsetAfter_le h.fits h.admitted
  have halign := le_alignFrameLength (32 + payload.length)
  omega

/-- **The stores of an offer that is under way change nothing that was published.** -/
theorem partway_buffer {c : PublicationPair} {n flushed : Nat} (hc : AtCursor c.toNetwork n)
    {o : Offering} (h : c.Underway n flushed o) {q : Nat}
    (hlo : n * c.toNetwork.termLength ≤ q + 3 * c.toNetwork.termLength)
    (hq : q < n * c.toNetwork.termLength + c.toNetwork.termOffset) :
    (c.partway o).inner.log.buffer (slotOf 4 c.toNetwork.termLength q) =
      c.inner.log.buffer (slotOf 4 c.toNetwork.termLength q) := by
  have hstore : ∀ (m : ByteStore) (d : Nat) (bs : List UInt8),
      c.toNetwork.termOffset + d + bs.length ≤ c.toNetwork.termLength →
      m.write (c.cursorBase + d) bs (slotOf 4 c.toNetwork.termLength q) =
        m (slotOf 4 c.toNetwork.termLength q) := fun m d bs hfit => write_rest hc hfit hlo hq
  have hpadFits : dataHeaderLength ≤ c.remaining → c.toNetwork.termOffset + 4 +
      ((RawLog.padHeader c.remaining c.publisher.termOffset).encode.drop 4).length ≤
        c.toNetwork.termLength := by
    intro hroom
    have hle : 32 ≤ c.toNetwork.termLength - c.toNetwork.termOffset := hroom
    rw [List.length_drop, DataHeader.encode_length]
    omega
  cases o with
  | idle => rfl
  | header payload => rfl
  | payload payload =>
      have hroom := Appends.room h hc
      exact hstore _ 0 _ (by rw [DataHeader.encode_length]; omega)
  | commit payload =>
      have hroom := Appends.room h hc
      refine (hstore _ 32 payload hroom).trans ?_
      exact hstore _ 0 _ (by rw [DataHeader.encode_length]; omega)
  | publish payload =>
      have hroom := Appends.room h hc
      refine (hstore _ 0 _ (by rw [encodeI32_length]; omega)).trans ?_
      refine (hstore _ 32 payload hroom).trans ?_
      exact hstore _ 0 _ (by rw [DataHeader.encode_length]; omega)
  | padHeader => rfl
  | padCommit => exact hstore _ 4 _ (hpadFits h.2)
  | rotate =>
      unfold partway
      split_ifs with hroom
      · have hfits := hpadFits hroom
        rw [List.length_drop, DataHeader.encode_length] at hfits
        refine (hstore _ 0 _ (by rw [encodeI32_length]; omega)).trans ?_
        exact hstore _ 4 _ (hpadFits hroom)
      · rfl

/-- The sender may move while an offer is under way. -/
theorem senderAt_partway (c : PublicationPair) (o : Offering) (position : Int) :
    (c.partway o).senderAt position = (c.senderAt position).partway o := by
  cases o with
  | rotate =>
      by_cases hroom : dataHeaderLength ≤ c.remaining
      · have hroom' : dataHeaderLength ≤ (c.senderAt position).remaining := hroom
        rw [partway, partway, if_pos hroom, if_pos hroom']
        rfl
      · have hroom' : ¬ dataHeaderLength ≤ (c.senderAt position).remaining := hroom
        rw [partway, partway, if_neg hroom, if_neg hroom']
  | _ => rfl

/-- What is under way stays so when the sender moves on, if the back-pressure test still holds. -/
theorem Underway.senderAt {c : PublicationPair} {n flushed : Nat} {o : Offering}
    (h : c.Underway n flushed o) {position : Int} (hadmits : ∀ payload,
      c.toNetwork.Admits payload → (c.senderAt position).toNetwork.Admits payload) :
    (c.senderAt position).Underway n flushed o := by
  have happends : ∀ payload, c.Appends payload → (c.senderAt position).Appends payload :=
    fun payload happ => ⟨hadmits payload happ.admitted,
      fun hrot => happ.fits ⟨happ.admitted, hrot.2⟩, happ.size⟩
  have hturns : c.Turns n flushed → (c.senderAt position).Turns n flushed :=
    fun ht => ⟨ht.count, ht.clear, ht.rest_lt⟩
  cases o with
  | idle => trivial
  | header payload => exact happends payload h
  | payload payload => exact happends payload h
  | commit payload => exact happends payload h
  | publish payload => exact happends payload h
  | padHeader => exact ⟨hturns h.1, h.2⟩
  | padCommit => exact ⟨hturns h.1, h.2⟩
  | rotate => exact hturns h

theorem Underway.mono {c : PublicationPair} {n flushed flushed' : Nat} {o : Offering}
    (h : c.Underway n flushed o) (hle : flushed ≤ flushed') : c.Underway n flushed' o := by
  have hturns : c.Turns n flushed → c.Turns n flushed' :=
    fun ht => ⟨ht.count, Nat.le_trans ht.clear (by omega), ht.rest_lt⟩
  cases o with
  | padHeader => exact ⟨hturns h.1, h.2⟩
  | padCommit => exact ⟨hturns h.1, h.2⟩
  | rotate => exact hturns h
  | _ => exact h

/-- On the way nothing but the contents of the log changes. -/
theorem partway_eq (c : PublicationPair) (o : Offering) :
    ∃ m, c.partway o = c.withBuffer m := by
  cases o with
  | rotate =>
      unfold partway
      split_ifs
      · exact ⟨_, rfl⟩
      · exact ⟨c.inner.log.buffer, rfl⟩
  | idle => exact ⟨c.inner.log.buffer, rfl⟩
  | header payload => exact ⟨c.inner.log.buffer, rfl⟩
  | padHeader => exact ⟨c.inner.log.buffer, rfl⟩
  | _ => exact ⟨_, rfl⟩

theorem storeSenderPosition_eq (c : PublicationPair) (scanned : Nat) :
    c.storeSenderPosition scanned = c.senderAt (c.sender.senderPositionLocal + scanned) := by
  unfold storeSenderPosition
  split_ifs with hpos
  · rfl
  · obtain rfl : scanned = 0 := by omega
    obtain ⟨⟨_, _, position, _, _, _, _⟩, publisher, ⟨copy⟩, hpub, hsync⟩ := c
    obtain rfl : position = copy := hsync
    simp only [senderAt, Nat.cast_zero, Int.add_zero]

theorem scanStart_eq {c : PublicationPair} {b : Nat} (hb : c.toNetwork.senderPosition = b)
    (limit : Nat) :
    c.scanStart limit =
      ⟨b / c.toNetwork.termLength % 4 * c.toNetwork.termLength, b % c.toNetwork.termLength, 0,
        min limit (c.toNetwork.termLength - b % c.toNetwork.termLength)⟩ := by
  obtain ⟨hoff, hidx⟩ := NetworkPublication.sender_place hb
  have hoff' : landI64 c.sender.senderPositionLocal c.inner.termLengthMask =
      b % c.toNetwork.termLength := by
    rw [← hoff, ← c.sender_sync]
    rfl
  have hidx' : partitionIndex (c.inner.initialTermId +
      BitVec.ofInt 32 (c.sender.senderPositionLocal >>> c.inner.positionBitsToShift))
      c.inner.initialTermId = b / c.toNetwork.termLength % 4 := by
    rw [← hidx, ← c.sender_sync]
    rfl
  unfold scanStart
  simp only [hoff', hidx']
  congr 1
  change (if limit < c.toNetwork.termLength - b % c.toNetwork.termLength then limit
    else c.toNetwork.termLength - b % c.toNetwork.termLength) = _
  split_ifs <;> omega

end PublicationPair

/-! ## The invariant of both threads -/

namespace PublicationThreads

/-- What holds while a scan is under way: it has gone over the first of the pending records. -/
def Scans (T : Nat) (l : StreamLog) (b e : Nat) : Scanning → Prop
  | .idle => True
  | .looping k => ∃ taken rest, l.pending = taken ++ rest ∧ k.partBase = b / T % 4 * T ∧
      k.scanned = total LogRecord.length taken ∧ k.pos = b % T + k.scanned ∧
      k.limit ≤ e - b
  | .ended scanned => ∃ taken rest, l.pending = taken ++ rest ∧
      scanned = total LogRecord.length taken

/-- **The invariant.** The stores made so far are those of an offer to the publication `c`, which
represents the stream `l`; the submitted frames are those of the records `out`, which start at or
behind the flushed position. -/
structure Holds (ids : StreamIds) (s : PublicationThreads) (c : PublicationPair) (l : StreamLog)
    (n b e flushed : Nat) (out : List LogRecord) : Prop where
  pair_eq : s.pair = c.partway s.offering
  underway : c.Underway n flushed s.offering
  represents : Represents c.toNetwork l n b e
  ids_eq : c.toNetwork.ids = ids
  flushed_eq : s.flushed = flushed
  flushed_le : flushed ≤ b
  window : n * ids.termLength ≤ flushed + 3 * ids.termLength
  out_fits : ∀ r ∈ out, r.Fits ids.termLength ∧ flushed ≤ r.start ∧ r.start + r.length ≤ e
  out_stored : ∀ r ∈ out, r.Stored ids c.inner.log.buffer
  submitted_eq : s.submitted = out.map fun r => (slotOf 4 ids.termLength r.start, r.frame ids)
  scans : Scans ids.termLength l b e s.scanning
  datagrams_eq : ∀ d ∈ s.datagrams, d.1 = d.2

theorem Scans.extend {T b e e' : Nat} {l l' : StreamLog} {scanning : Scanning}
    (h : Scans T l b e scanning) {more : List LogRecord} (hpending : l'.pending = l.pending ++ more)
    (he : e ≤ e') : Scans T l' b e' scanning := by
  cases scanning with
  | idle => trivial
  | looping k =>
      obtain ⟨taken, rest, htaken, hbase, hscanned, hpos, hlimit⟩ := h
      exact ⟨taken, rest ++ more, by rw [hpending, htaken, List.append_assoc], hbase, hscanned, hpos,
        by omega⟩
  | ended scanned =>
      obtain ⟨taken, rest, htaken, hscanned⟩ := h
      exact ⟨taken, rest ++ more, by rw [hpending, htaken, List.append_assoc], hscanned⟩

namespace Holds

variable {ids : StreamIds} {s : PublicationThreads} {c : PublicationPair} {l : StreamLog}
  {n b e flushed : Nat} {out : List LogRecord}

theorem termLength_eq (h : Holds ids s c l n b e flushed out) :
    c.toNetwork.termLength = ids.termLength := by
  rw [← h.ids_eq, c.toNetwork.ids_termLength]

/-- **What was published since the flush is in the log as the publisher left it**, whatever the offer
that is under way has stored. -/
theorem stored (h : Holds ids s c l n b e flushed out) {r : LogRecord}
    (hfits : r.Fits ids.termLength) (hlo : flushed ≤ r.start) (hhi : r.start + r.length ≤ e)
    (hstored : r.Stored ids c.inner.log.buffer) : r.Stored ids s.buffer := by
  have hT := h.termLength_eq
  have hle := h.represents.le.2
  have hwindow := h.window
  refine hstored.congr hfits fun q hq₁ hq₂ => ?_
  have heq := PublicationPair.partway_buffer h.represents.atCursor h.underway
    (show n * c.toNetwork.termLength ≤ q + 3 * c.toNetwork.termLength by rw [hT]; omega)
    (by omega)
  rw [hT] at heq
  rw [buffer, h.pair_eq]
  exact heq

/-- A submitted frame still has the bytes that were scanned. -/
theorem read_submitted (h : Holds ids s c l n b e flushed out) {f : Nat × List UInt8}
    (hf : f ∈ s.submitted) : s.buffer.read f.1 f.2.length = f.2 := by
  rw [h.submitted_eq] at hf
  obtain ⟨r, hr, rfl⟩ := List.mem_map.mp hf
  obtain ⟨hfits, hlo, hhi⟩ := h.out_fits r hr
  have hstored := h.stored hfits hlo hhi (h.out_stored r hr)
  dsimp only
  rw [LogRecord.frame_length ids hfits.ge]
  exact hstored

/-! ### The steps of the publisher -/

/-- **Step.** `offer` is called. -/
theorem offer (h : Holds ids s c l n b e flushed out) {payload : List UInt8}
    (hclear : s.Clear (.offer payload)) :
    Holds ids (s.step (.offer payload)) c l n b e flushed out := by
  cases hidle : s.offering with
  | idle =>
      have hpair : s.pair = c := by rw [h.pair_eq, hidle]; rfl
      obtain ⟨hsize, hrotates⟩ := hclear hidle
      rw [network, hpair] at hsize hrotates
      have hstep : s.step (.offer payload) = { s with offering := c.beginOffer payload } := by
        simp only [step, PublicationThreads.offer, hidle, hpair]
      rw [hstep]
      have hnext : c = c.partway (c.beginOffer payload) ∧
          c.Underway n flushed (c.beginOffer payload) := by
        -- refused, admitted to the term, or at the end of the term
        rcases c.beginOffer_cases payload with ⟨-, heq⟩ | ⟨hadmits, hfit, heq⟩ | ⟨hrot, heq⟩
        · rw [heq]
          exact ⟨rfl, trivial⟩
        · rw [heq]
          exact ⟨rfl, hadmits, hfit, hsize hadmits⟩
        · obtain ⟨hcount, hflushed⟩ := hrotates hrot
          rw [h.represents.atCursor.termCount_eq, h.flushed_eq] at hflushed
          rw [h.represents.atCursor.termCount_eq] at hcount
          have hover := hrot.2
          rw [h.represents.atCursor.offsetAfter_eq (hsize hrot.1)] at hover
          have hsize' := hsize hrot.1
          have hturns : c.Turns n flushed :=
            ⟨hcount, by exact_mod_cast hflushed, by omega⟩
          rw [heq]
          by_cases hroom : dataHeaderLength ≤ c.remaining
          · rw [if_pos hroom]
            exact ⟨rfl, hturns, hroom⟩
          · rw [if_neg hroom]
            exact ⟨(if_neg hroom).symm, hturns⟩
      exact { h with pair_eq := hpair.trans hnext.1, underway := hnext.2 }
  | _ =>
      have hstep : s.step (.offer payload) = s := by
        simp only [step, PublicationThreads.offer, hidle]
      rw [hstep]
      exact h

/-- **Step.** The last store of a frame: the record is pending. -/
theorem publish {payload : List UInt8}
    (h : Holds ids s c l n b e flushed out) (hoffering : s.offering = .publish payload) :
    ∃ l' e', Holds ids (s.step .store) ((c.partway (.publish payload)).storePosition payload) l' n b
      e' flushed out := by
  have happends : c.Appends payload := by
    have := h.underway
    rwa [hoffering] at this
  have hpair : s.pair = c.partway (.publish payload) := hoffering ▸ h.pair_eq
  have hnet := c.toNetwork_storePosition payload
  have hrep := h.represents.append happends.size happends.fits happends.admitted
  rw [← hnet] at hrep
  have hle := h.represents.le.2
  have hstep : s.step .store = { s with
      pair := (c.partway (.publish payload)).storePosition payload, offering := .idle } := by
    simp only [step, PublicationThreads.store, hoffering, hpair]
    rfl
  rw [hstep]
  refine ⟨⟨l.sent, l.pending ++ l.tail ++
    [.data (n * c.toNetwork.termLength + c.toNetwork.termOffset) payload], []⟩,
    n * c.toNetwork.termLength + c.toNetwork.termOffset + alignFrameLength (32 + payload.length), ?_⟩
  exact
    { h with
      pair_eq := rfl
      underway := trivial
      represents := hrep
      ids_eq := by rw [hnet]; exact h.ids_eq
      out_fits := fun r hr => by
        obtain ⟨hfits, hlo, hhi⟩ := h.out_fits r hr
        exact ⟨hfits, hlo, by omega⟩
      -- the frames out were stored before, and this offer only stores behind them
      out_stored := fun r hr => by
        obtain ⟨hfits, hlo, hhi⟩ := h.out_fits r hr
        have hstored := h.stored hfits hlo hhi (h.out_stored r hr)
        rw [buffer, hpair] at hstored
        exact hstored
      scans := h.scans.extend (List.append_assoc ..) (by omega) }

/-- **Step.** The last store of a rotation: the pad is behind what is pending, and the next partition
is empty. -/
theorem rotate (h : Holds ids s c l n b e flushed out) (hoffering : s.offering = .rotate) :
    ∃ l', Holds ids (s.step .store) (c.partway .rotate).storeRotation l' (n + 1) b e flushed out := by
  have hturns : c.Turns n flushed := by
    have := h.underway
    rwa [hoffering] at this
  have hpair : s.pair = c.partway .rotate := hoffering ▸ h.pair_eq
  have hnet := c.toNetwork_storeRotation
  have hclear := hturns.clear
  have hflushed := h.flushed_le
  have hT := h.termLength_eq
  have hrep := h.represents.padAndRotate hturns.count (by omega) hturns.rest_lt
  rw [← hnet] at hrep
  have hids : (c.partway .rotate).storeRotation.toNetwork.ids = ids := by
    rw [hnet, NetworkPublication.padAndRotate_ids, h.ids_eq]
  have hstep : s.step .store = { s with
      pair := (c.partway .rotate).storeRotation, offering := .idle } := by
    simp only [step, PublicationThreads.store, hoffering, hpair]
    rfl
  rw [hstep]
  refine ⟨⟨l.sent, l.pending, l.tail ++ padRecords c.toNetwork n⟩, ?_⟩
  exact
    { h with
      pair_eq := rfl
      underway := trivial
      represents := hrep
      ids_eq := hids
      window := by
        rw [hT] at hclear
        rw [Nat.succ_mul]
        omega
      out_stored := fun r hr => by
        obtain ⟨hfits, hlo, hhi⟩ := h.out_fits r hr
        have hle := h.represents.le.2
        have hoff := h.represents.offset_le
        have hstored : r.Stored c.toNetwork.ids c.toNetwork.rawLog.buffer := by
          rw [h.ids_eq]
          exact h.out_stored r hr
        -- what the kernel may still read lies outside of the partition that is zeroed
        have hkept := h.represents.atCursor.padAndRotate_stored (by rwa [hT])
          (.inr ⟨hstored, by omega⟩) (by omega) (by omega)
        rw [← hnet, hids] at hkept
        exact hkept
      scans := h.scans }

theorem store_next (h : Holds ids s c l n b e flushed out) {o : Offering}
    (hnext : PublicationPair.storeNext (c.partway s.offering, s.offering) = (c.partway o, o))
    (hunderway : c.Underway n flushed o) : Holds ids (s.step .store) c l n b e flushed out := by
  have hstep : s.step .store = { s with pair := c.partway o, offering := o } := by
    simp only [step, PublicationThreads.store, h.pair_eq, hnext]
  rw [hstep]
  exact { h with pair_eq := rfl, underway := hunderway }

/-- **Step.** The next store of `offer`. -/
theorem store (h : Holds ids s c l n b e flushed out) :
    ∃ c' l' n' e', Holds ids (s.step .store) c' l' n' b e' flushed out := by
  have hunderway := h.underway
  cases hoffering : s.offering with
  | publish payload =>
      obtain ⟨l', e', hnext⟩ := h.publish hoffering
      exact ⟨_, l', n, e', hnext⟩
  | rotate =>
      obtain ⟨l', hnext⟩ := h.rotate hoffering
      exact ⟨_, l', n + 1, e, hnext⟩
  | idle =>
      exact ⟨c, l, n, e, h.store_next (o := .idle) (by rw [hoffering]; rfl) trivial⟩
  | header payload =>
      rw [hoffering] at hunderway
      exact ⟨c, l, n, e, h.store_next (o := .payload payload) (by rw [hoffering]; rfl) hunderway⟩
  | payload payload =>
      rw [hoffering] at hunderway
      exact ⟨c, l, n, e, h.store_next (o := .commit payload) (by rw [hoffering]; rfl) hunderway⟩
  | commit payload =>
      rw [hoffering] at hunderway
      exact ⟨c, l, n, e, h.store_next (o := .publish payload) (by rw [hoffering]; rfl) hunderway⟩
  | padHeader =>
      rw [hoffering] at hunderway
      exact ⟨c, l, n, e, h.store_next (o := .padCommit) (by rw [hoffering]; rfl) hunderway⟩
  | padCommit =>
      rw [hoffering] at hunderway
      have hpad : c.partway .rotate = c.storePadHeader.storeLength c.remaining :=
        if_pos hunderway.2
      refine ⟨c, l, n, e, h.store_next (o := .rotate) ?_ hunderway.1⟩
      rw [hoffering, hpad]
      rfl

/-! ### The steps of the sender -/

/-- **Step.** `sender_scan` is called. -/
theorem beginScan (h : Holds ids s c l n b e flushed out) {limit : Nat}
    (hclear : s.Clear (.beginScan limit)) :
    Holds ids (s.step (.beginScan limit)) c l n b e flushed out := by
  cases hidle : s.scanning with
  | idle =>
      obtain ⟨m, hm⟩ := c.partway_eq s.offering
      have hpair := h.pair_eq.trans hm
      have hstart : s.pair.scanStart limit = c.scanStart limit := by
        rw [hpair]
        rfl
      have hstep : s.step (.beginScan limit) =
          { s with scanning := .looping (c.scanStart limit) } := by
        simp only [step, PublicationThreads.beginScan, hidle, hstart]
      have hlimit : (limit : Int) ≤ c.toNetwork.pubPosition - c.toNetwork.senderPosition := by
        have hwithin : (limit : Int) ≤ s.network.pubPosition - s.network.senderPosition := hclear
        rwa [network, hpair] at hwithin
      rw [h.represents.pub, h.represents.sender] at hlimit
      rw [hstep, PublicationPair.scanStart_eq h.represents.sender limit, h.termLength_eq]
      refine { h with scans := ⟨[], l.pending, rfl, rfl, rfl, rfl, ?_⟩ }
      dsimp only
      omega
  -- one call at a time: a second one changes nothing
  | _ =>
      have hstep : s.step (.beginScan limit) = s := by
        simp only [step, PublicationThreads.beginScan, hidle]
      rw [hstep]
      exact h

/-- **The record that the next round of a scan reads.** -/
theorem next_record (h : Holds ids s c l n b e flushed out) {k : ScanCursor}
    {taken rest : List LogRecord} (hpending : l.pending = taken ++ rest)
    (hbase : k.partBase = b / ids.termLength % 4 * ids.termLength)
    (hscanned : k.scanned = total LogRecord.length taken)
    (hpos : k.pos = b % ids.termLength + k.scanned) (hlimit : k.limit ≤ e - b)
    (hgo : k.pos < ids.termLength ∧ k.scanned < k.limit) :
    ∃ r rest', rest = r :: rest' ∧ r.Fits ids.termLength ∧ b ≤ r.start ∧ r.start + r.length ≤ e ∧
      r.Stored ids c.inner.log.buffer ∧ k.partBase + k.pos = slotOf 4 ids.termLength r.start ∧
      frameAt s.buffer k.partBase ids.termLength k.pos = some r.frameLength ∧
      s.buffer.read (k.partBase + k.pos) r.frameLength = r.frame ids := by
  have htiles := h.represents.tiles_pending
  have htotal := htiles.eq_add_total
  rw [hpending, total_append] at htotal
  cases rest with
  | nil =>
      rw [total_nil] at htotal
      omega
  | cons r rest =>
      have hmem : r ∈ l.pending := by
        rw [hpending]
        exact List.mem_append_right _ List.mem_cons_self
      obtain ⟨hfits, hlo, hhi⟩ := htiles.mem hmem
      rw [h.termLength_eq] at hfits
      have hstored : r.Stored ids c.inner.log.buffer := by
        have := h.represents.stored r (List.mem_append_left _ hmem)
        rwa [h.ids_eq] at this
      -- the record starts where the scan is
      have hstart : r.start = b / ids.termLength * ids.termLength + k.pos := by
        rw [hpending] at htiles
        obtain ⟨x, htaken, hstart, -⟩ := tiles_append.mp htiles
        rw [hstart, htaken.eq_add_total, hpos, hscanned, ← Nat.add_assoc, Nat.div_add_mod']
      obtain ⟨hdiv, hmod⟩ := term_offset_of_lt (b / ids.termLength) hgo.1
      rw [← hstart] at hdiv hmod
      have hslot : k.partBase + k.pos = slotOf 4 ids.termLength r.start := by
        rw [hbase, slotOf, hdiv, hmod]
      have hstored' := h.stored hfits (Nat.le_trans h.flushed_le hlo) hhi hstored
      have hframe := hstored'.frameAt_eq hfits
      rw [hdiv, hmod, ← hbase] at hframe
      exact ⟨r, rest, rfl, hfits, hlo, hhi, hstored, hslot, hframe, by rw [hslot]; exact hstored'⟩

theorem round (h : Holds ids s c l n b e flushed out) {k : ScanCursor}
    (hlooping : s.scanning = .looping k) :
    ∃ out', Holds ids (s.step .scan) c l n b e flushed out' := by
  have hscans := h.scans
  rw [hlooping] at hscans
  obtain ⟨taken, rest, hpending, hbase, hscanned, hpos, hlimit⟩ := hscans
  -- the stores of the offer under way do not touch the geometry of the log
  have hT : s.pair.inner.log.termLength = ids.termLength := by
    obtain ⟨m, hm⟩ := c.partway_eq s.offering
    rw [h.pair_eq, hm]
    exact h.termLength_eq
  by_cases hgo : k.pos < ids.termLength ∧ k.scanned < k.limit
  · obtain ⟨r, rest', rfl, hfits, hlo, hhi, hstored, hslot, hframe, hread⟩ :=
      h.next_record hpending hbase hscanned hpos hlimit hgo
    have hround : s.pair.scanRound k =
        (.looping { k with pos := k.pos + r.length, scanned := k.scanned + r.length },
          [(slotOf 4 ids.termLength r.start, r.frame ids)]) := by
      have hframe' : frameAt s.pair.inner.log.buffer k.partBase s.pair.inner.log.termLength k.pos =
          some r.frameLength := by
        rw [hT]
        exact hframe
      rw [PublicationPair.scanRound, if_pos (by rwa [hT]), hframe', ← hslot, ← hread]
      rfl
    have hscans' : Scans ids.termLength l b e
        (.looping { k with pos := k.pos + r.length, scanned := k.scanned + r.length }) := by
      refine ⟨taken ++ [r], rest', by rw [hpending, List.append_assoc]; rfl, hbase, ?_, ?_, hlimit⟩
      · simp only [total_append, total_cons, total_nil, hscanned, Nat.add_zero]
      · simp only [hpos, Nat.add_assoc]
    have hstep : s.step .scan = { s with
        scanning := .looping { k with pos := k.pos + r.length, scanned := k.scanned + r.length }
        submitted := s.submitted ++ [(slotOf 4 ids.termLength r.start, r.frame ids)].filter
          fun f => frameTypeOf f.2 != frameTypePad } := by
      simp only [step, PublicationThreads.scan, hlooping, hround]
    have htype := r.frameTypeOf_frame ids
    rw [hstep]
    -- a pad is gone over like data, but is not submitted
    cases hdata : r.isData with
    | true =>
        refine ⟨out ++ [r], { h with
          out_fits := ?_, out_stored := ?_, submitted_eq := ?_, scans := hscans' }⟩
        · exact List.forall_mem_append.mpr ⟨h.out_fits, List.forall_mem_singleton.mpr
            ⟨hfits, Nat.le_trans h.flushed_le hlo, hhi⟩⟩
        · exact List.forall_mem_append.mpr ⟨h.out_stored, List.forall_mem_singleton.mpr hstored⟩
        · have hkeep : (frameTypeOf (r.frame ids) != frameTypePad) = true := by
            rw [htype, hdata]
            rfl
          simp only [h.submitted_eq, List.filter_cons, hkeep, List.filter_nil, List.map_append,
            List.map_cons, List.map_nil, if_true]
    | false =>
        refine ⟨out, { h with submitted_eq := ?_, scans := hscans' }⟩
        have hskip : (frameTypeOf (r.frame ids) != frameTypePad) = false := by
          rw [htype, hdata]
          rfl
        simp only [h.submitted_eq, List.filter_cons, hskip, List.filter_nil, List.append_nil,
          Bool.false_eq_true, if_false]
  · -- the range or the term is over: the position is stored next
    have hround : s.pair.scanRound k = (.ended k.scanned, []) := if_neg (by rwa [hT])
    have hstep : s.step .scan = { s with
        scanning := .ended k.scanned
        submitted := s.submitted ++ [] } := by
      simp only [step, PublicationThreads.scan, hlooping, hround, List.filter_nil]
    rw [hstep, List.append_nil]
    exact ⟨out, { h with scans := ⟨taken, rest, hpending, hscanned⟩ }⟩

/-- The back-pressure test still holds when the sender has moved on. -/
theorem admits_senderAt (h : Holds ids s c l n b e flushed out) {b' : Nat} (hb : b ≤ b')
    (he : b' ≤ e) {payload : List UInt8} (hadmits : c.toNetwork.Admits payload) :
    (c.senderAt b').toNetwork.Admits payload := by
  obtain ⟨hlen, hback⟩ := hadmits
  have hle := h.represents.le.2
  have hoff := h.represents.offset_le
  have hT : c.toNetwork.termLength ≤ 2 ^ 31 := c.inner.log.termLength_le
  have hbig : n * c.toNetwork.termLength ≤ 2 ^ 31 * 2 ^ 31 :=
    Nat.mul_le_mul (Nat.le_of_lt h.represents.termCount_lt) hT
  refine ⟨hlen, ?_⟩
  change wrapI64 (c.toNetwork.pubPosition - b') < (c.toNetwork.termLength : Int) * _
  rw [h.represents.pub, h.represents.sender, wrapI64_of_range (by omega) (by omega)] at hback
  rw [h.represents.pub, wrapI64_of_range (by omega) (by omega)]
  omega

/-- **Step.** The store of the sender's position: what the scan went over is sent. -/
theorem storeSenderPosition (h : Holds ids s c l n b e flushed out) {scanned : Nat}
    (hended : s.scanning = .ended scanned) :
    ∃ l', Holds ids (s.step .scan) (c.senderAt (b + scanned : Nat)) l' n (b + scanned) e flushed
      out := by
  have hscans := h.scans
  rw [hended] at hscans
  obtain ⟨taken, rest, hpending, rfl⟩ := hscans
  have hsync : c.sender.senderPositionLocal = b := c.sender_sync.symm.trans h.represents.sender
  have hrep := h.represents.advance hpending
  -- the store commutes with those that the publisher has made
  have hpair : s.pair.storeSenderPosition (total LogRecord.length taken) =
      (c.senderAt (b + total LogRecord.length taken : Nat)).partway s.offering := by
    obtain ⟨m, hm⟩ := c.partway_eq s.offering
    have hlocal : s.pair.sender.senderPositionLocal = b := by
      rw [h.pair_eq, hm]
      exact hsync
    rw [PublicationPair.storeSenderPosition_eq, hlocal, h.pair_eq,
      PublicationPair.senderAt_partway]
    push_cast
    rfl
  have hstep : s.step .scan = { s with
      pair := (c.senderAt (b + total LogRecord.length taken : Nat)).partway s.offering
      scanning := .idle } := by
    simp only [step, PublicationThreads.scan, hended, hpair]
  have hle := hrep.le.1
  rw [hstep]
  refine ⟨⟨l.sent ++ taken, rest, l.tail⟩, ?_⟩
  exact
    { h with
      pair_eq := rfl
      -- the publisher has tested an older position, so its test would hold now too
      underway := h.underway.senderAt fun _ => h.admits_senderAt (Nat.le_add_right _ _) hle
      represents := by
        have hnet : (c.senderAt (b + total LogRecord.length taken : Nat)).toNetwork =
            { c.toNetwork with senderPosition := (b : Int) + total LogRecord.length taken } := by
          unfold PublicationPair.senderAt PublicationPair.toNetwork
          push_cast
          rfl
        rw [hnet]
        exact hrep
      flushed_le := Nat.le_add_right_of_le h.flushed_le
      scans := trivial }

/-- **Step.** The next round of `sender_scan`, or the store behind its loop. -/
theorem scan (h : Holds ids s c l n b e flushed out) :
    ∃ c' l' b' out', Holds ids (s.step .scan) c' l' n b' e flushed out' := by
  cases hscanning : s.scanning with
  | idle =>
      have hstep : s.step .scan = s := by
        simp only [step, PublicationThreads.scan, hscanning]
      rw [hstep]
      exact ⟨c, l, b, out, h⟩
  | looping k =>
      obtain ⟨out', hnext⟩ := h.round hscanning
      exact ⟨c, l, b, out', hnext⟩
  | ended scanned =>
      obtain ⟨l', hnext⟩ := h.storeSenderPosition hscanning
      exact ⟨_, l', b + scanned, out, hnext⟩

/-- **Step.** The flush: the kernel reads what was scanned. -/
theorem flush (h : Holds ids s c l n b e flushed out) :
    ∃ flushed' out', Holds ids (s.step .flush) c l n b e flushed' out' := by
  cases hscanning : s.scanning with
  | idle =>
      have hsender : s.network.senderPosition = b := by
        obtain ⟨m, hm⟩ := c.partway_eq s.offering
        rw [network, h.pair_eq, hm]
        exact h.represents.sender
      have hstep : s.step .flush = { s with
          submitted := []
          flushed := (b : Int)
          datagrams := s.datagrams ++
            s.submitted.map fun f => (s.buffer.read f.1 f.2.length, f.2) } := by
        simp only [step, PublicationThreads.flush, hscanning, hsender]
      have hwindow := h.represents.window
      rw [h.termLength_eq] at hwindow
      rw [hstep]
      refine ⟨b, [], ?_⟩
      exact
        { h with
          underway := h.underway.mono h.flushed_le
          flushed_eq := rfl
          flushed_le := Nat.le_refl _
          window := hwindow
          out_fits := by simp
          out_stored := by simp
          submitted_eq := rfl
          datagrams_eq := List.forall_mem_append.mpr ⟨h.datagrams_eq,
            List.forall_mem_map.mpr fun f hf => h.read_submitted hf⟩ }
  -- the agent flushes behind its scans, never inside one
  | _ =>
      have hstep : s.step .flush = s := by
        simp only [step, PublicationThreads.flush, hscanning]
      rw [hstep]
      exact ⟨flushed, out, h⟩

end Holds

/-! ## Runs -/

def Inv (ids : StreamIds) (s : PublicationThreads) : Prop :=
  ∃ c l n b e flushed out, Holds ids s c l n b e flushed out

/-- **Step.** -/
theorem Inv.step {ids : StreamIds} {s : PublicationThreads} (h : s.Inv ids) {a : FlushAction}
    (hclear : s.Clear a) : (s.step a).Inv ids := by
  obtain ⟨c, l, n, b, e, flushed, out, h⟩ := h
  cases a with
  | offer payload => exact ⟨c, l, n, b, e, flushed, out, h.offer hclear⟩
  | store =>
      obtain ⟨c', l', n', e', hnext⟩ := h.store
      exact ⟨c', l', n', b, e', flushed, out, hnext⟩
  | beginScan limit => exact ⟨c, l, n, b, e, flushed, out, h.beginScan hclear⟩
  | scan =>
      obtain ⟨c', l', b', out', hnext⟩ := h.scan
      exact ⟨c', l', n, b', e, flushed, out', hnext⟩
  | flush =>
      obtain ⟨flushed', out', hnext⟩ := h.flush
      exact ⟨c, l, n, b, e, flushed', out', hnext⟩

/-- Only the stores of an offer change the log. -/
theorem buffer_of_ne_store (s : PublicationThreads) {a : FlushAction} (ha : a ≠ .store) :
    (s.step a).buffer = s.buffer := by
  cases a with
  | offer payload =>
      cases hidle : s.offering with
      | _ => simp only [step, PublicationThreads.offer, buffer, hidle]
  | store => exact absurd rfl ha
  | beginScan limit =>
      cases hidle : s.scanning with
      | _ => simp only [step, PublicationThreads.beginScan, buffer, hidle]
  | scan =>
      cases hscanning : s.scanning with
      | ended scanned =>
          simp only [step, PublicationThreads.scan, buffer, hscanning,
            PublicationPair.storeSenderPosition_eq]
          rfl
      | _ => simp only [step, PublicationThreads.scan, buffer, hscanning]
  | flush =>
      cases hidle : s.scanning with
      | _ => simp only [step, PublicationThreads.flush, buffer, hidle]

/-- **Step.** No submitted byte changes. -/
theorem Inv.keepsSubmitted {ids : StreamIds} {s : PublicationThreads} (h : s.Inv ids)
    {a : FlushAction} (hclear : s.Clear a) : s.KeepsSubmitted a := by
  intro f hf
  by_cases ha : a = .store
  · obtain ⟨c', l', n', b', e', flushed', out', hnext⟩ := h.step hclear
    obtain ⟨c, l, n, b, e, flushed, out, h⟩ := h
    rw [h.read_submitted hf, hnext.read_submitted (by rw [ha]; exact hf)]
  · rw [s.buffer_of_ne_store ha]

theorem inv_start {sessionId streamId initialTermId : BitVec 32} {termLength mtu : Nat}
    {c : PublicationPair}
    (h : newConcurrent sessionId streamId initialTermId termLength mtu = some c) :
    (start c).Inv ⟨initialTermId, sessionId, streamId, termLength⟩ := by
  have hcreate : Publication.create true sessionId streamId initialTermId termLength mtu =
      some (.concurrent c) := by
    rw [Publication.create, if_pos rfl, h]
    rfl
  have hrep := represents_new (Publication.toNetwork_create hcreate)
  have hids : c.toNetwork.ids = ⟨initialTermId, sessionId, streamId, termLength⟩ :=
    (PubRun.inv_start hcreate).1
  exact ⟨c, ⟨[], [], []⟩, 0, 0, 0, 0, [],
    { pair_eq := rfl
      underway := trivial
      represents := hrep
      ids_eq := hids
      flushed_eq := hrep.sender
      flushed_le := Nat.le_refl _
      window := by omega
      out_fits := by simp
      out_stored := by simp
      submitted_eq := rfl
      scans := trivial
      datagrams_eq := by simp [start] }⟩

end PublicationThreads

/-- **Frames are stable until the kernel has read them**: for every cross-thread publication and every
interleaving of the stores of its offers with the rounds of its scans, the stores of the sender's
position and the flushes, in which each step meets the condition, no step changes the bytes of a
submitted frame, and every datagram carries the bytes that were scanned. -/
theorem submitted_stable {sessionId streamId initialTermId : BitVec 32} {termLength mtu : Nat}
    {c : PublicationPair}
    (hnew : newConcurrent sessionId streamId initialTermId termLength mtu = some c)
    (as : List FlushAction)
    (hclear : Meets PublicationThreads.Clear PublicationThreads.step (.start c) as) :
    Meets PublicationThreads.KeepsSubmitted PublicationThreads.step (.start c) as ∧
      ∀ d ∈ (run PublicationThreads.step (.start c) as).datagrams, d.1 = d.2 := by
  have hstart := PublicationThreads.inv_start hnew
  constructor
  · exact @meets_of_invariant _ _ PublicationThreads.Clear _ _ (PublicationThreads.Inv _)
      (fun s a hs ha => ⟨hs.step ha, hs.keepsSubmitted ha⟩) _ hstart as hclear
  · obtain ⟨c', l, n, b, e, flushed, out, hlast⟩ := @run_invariant _ _ PublicationThreads.Clear _
      (PublicationThreads.Inv _) (fun s a hs ha => hs.step ha) _ hstart as hclear
    exact hlast.datagrams_eq

namespace FlushAction

def offerCall (payload : List UInt8) : List FlushAction :=
  [.offer payload, .store, .store, .store, .store]

/-- A scan of one frame, with the store of the sender's position. -/
def scanCall (limit : Nat) : List FlushAction := [.beginScan limit, .scan, .scan, .scan]

/-- Terms of 64 bytes, with two frames each. The first frame is sent and flushed, and the publisher
goes on to the first frame of term 3; the calls in between rotate. Then the second frame is scanned
and the sender's position stored. -/
def scanOneBehind : List FlushAction :=
  offerCall [] ++ scanCall 32 ++ [.flush] ++ offerCall [] ++ offerCall [] ++ offerCall [] ++
    offerCall [] ++ offerCall [] ++ offerCall [] ++ offerCall [] ++ offerCall [] ++ offerCall [] ++
    scanCall 32

end FlushAction

/-- From there, a frame that fits is offered before the flush. After it the next frame is scanned, and
an offer rotates to term 4 before that one is flushed. -/
def FlushAction.flushInTime : List FlushAction :=
  scanOneBehind ++ offerCall [] ++ [.flush] ++ scanCall 32 ++ offerCall [] ++ [.flush]

/-- In that interleaving all three datagrams carry what was scanned. -/
theorem submitted_stable_flushInTime :
    let c := (newConcurrent 7 1 0 64 1408).get rfl
    let s := run PublicationThreads.step (.start c) FlushAction.flushInTime
    Meets PublicationThreads.KeepsSubmitted PublicationThreads.step (.start c)
        FlushAction.flushInTime ∧
      (∀ d ∈ s.datagrams, d.1 = d.2) ∧ s.datagrams.length = 3 ∧ s.network.activeTermId = 4 := by
  have h := submitted_stable (Option.some_get (rfl :
    (newConcurrent 7 1 0 64 1408).isSome = true)).symm FlushAction.flushInTime (by decide +kernel)
  exact ⟨h.1, h.2, by decide +kernel⟩

/-- **A submitted frame is zeroed.** Before the flush, with the sender's position at 64, a frame of 64
bytes is offered. It does not fit term 3, and the back-pressure test lets the offer rotate to term 4,
in the partition of term 0: the submitted frame is zeroed, and the kernel reads zeros at the flush.
The sender is within two terms of the active one, but was not at the last flush. -/
theorem flushed_frame_zeroed :
    let c := (newConcurrent 7 1 0 64 1408).get rfl
    let s := run PublicationThreads.step (.start c) FlushAction.scanOneBehind
    let rotation := FlushAction.offerCall (List.replicate 32 1)
    Meets PublicationThreads.Clear PublicationThreads.step (.start c) FlushAction.scanOneBehind ∧
      s.network.senderPosition = 64 ∧ s.flushed = 32 ∧ s.network.pubPosition = 224 ∧
      s.network.termCount * s.network.termLength = 192 ∧ s.submitted.length = 1 ∧
      ¬ Meets PublicationThreads.KeepsSubmitted PublicationThreads.step s rotation ∧
      (run PublicationThreads.step s (rotation ++ [.flush])).datagrams.map
        (fun d => (d.1 = d.2 : Bool)) = [true, false] ∧
      ∃ d ∈ (run PublicationThreads.step s (rotation ++ [.flush])).datagrams,
        d.1 = List.replicate 32 0 ∧ d.1 ≠ d.2 := by
  decide +kernel

end AeronRs
