import AeronRs.Media.TermBuffer

/-! # Network publications

The single-threaded publication of `network_publication.rs`: **`offer`** appends one data frame at
the write cursor, **`senderScan`** walks the committed frames from the sender's position. When a
frame does not fit the active term, `offer` covers the rest of the term with a pad frame, rotates
to the next term, whose partition it zeroes, and asks the caller to retry.

Each outcome of `offer` is one named operation (`append`, `padAndRotate`, or nothing), and
`offer_cases` says which one is taken when. -/

namespace AeronRs

inductive OfferError
  | backPressured
  | adminAction
  | payloadTooLarge
  | invalidState
  deriving DecidableEq, Repr

/-- `NetworkPublication`. The fields that the constructor derives from `term_length` and `mtu` and
nothing assigns again are the definitions below. -/
structure NetworkPublication where
  rawLog : RawLog
  initialTermId : BitVec 32
  activeTermId : BitVec 32
  termOffset : Nat
  pubPosition : Int
  senderPosition : Int
  sessionId : BitVec 32
  streamId : BitVec 32
  mtu : Nat

namespace NetworkPublication

def termLength (p : NetworkPublication) : Nat := p.rawLog.termLength

def termLengthMask (p : NetworkPublication) : Nat := p.termLength - 1

def positionBitsToShift (p : NetworkPublication) : Nat := trailingZeros 32 p.termLength

def maxPayloadLength (p : NetworkPublication) : Nat := p.mtu - dataHeaderLength

def new (sessionId streamId initialTermId : BitVec 32) (termLength mtu : Nat) :
    Option NetworkPublication :=
  if mtu < dataHeaderLength then none
  else
    (RawLog.new termLength).map fun rawLog =>
      { rawLog, initialTermId, activeTermId := initialTermId, termOffset := 0, pubPosition := 0,
        senderPosition := 0, sessionId, streamId, mtu }

def computePosition (p : NetworkPublication) (termId : BitVec 32) (termOffset : Nat) : Int :=
  (termId - p.initialTermId).toInt * p.termLength + termOffset

/-- The header `offer` builds for a payload of the given length. -/
def dataHeader (p : NetworkPublication) (payloadLength : Nat) : DataHeader where
  frameHeader := ⟨BitVec.ofNat 32 (32 + payloadLength), currentVersion, dataFlagUnfragmented,
    frameTypeData⟩
  termOffset := BitVec.ofNat 32 p.termOffset
  sessionId := p.sessionId
  streamId := p.streamId
  termId := p.activeTermId
  reservedValue := 0

def rotateTerm (p : NetworkPublication) : NetworkPublication :=
  let activeTermId := p.activeTermId + 1
  { p with
    activeTermId
    termOffset := 0
    rawLog := p.rawLog.cleanPartition (partitionIndex activeTermId p.initialTermId) }

def offer (p : NetworkPublication) (payload : List UInt8) :
    NetworkPublication × Except OfferError Int :=
  if p.maxPayloadLength < payload.length then (p, .error .payloadTooLarge)
  else if (p.termLength : Int) * (partitionCount - 1) ≤
      wrapI64 (p.pubPosition - p.senderPosition) then (p, .error .backPressured)
  else
    let partitionIdx := partitionIndex p.activeTermId p.initialTermId
    match p.rawLog.appendFrame partitionIdx p.termOffset (p.dataHeader payload.length) payload with
    | .ok (rawLog, newOffset) =>
        let pubPosition := p.computePosition p.activeTermId newOffset
        ({ p with rawLog, termOffset := newOffset, pubPosition }, .ok pubPosition)
    | .error .termFull =>
        (rotateTerm { p with rawLog := p.rawLog.writePadFrame partitionIdx p.termOffset },
          .error .adminAction)
    | .error .invalidPartition => (p, .error .invalidState)

/-- The term that `sender_scan` reads. -/
def senderTermId (p : NetworkPublication) : BitVec 32 :=
  p.initialTermId + BitVec.ofInt 32 (p.senderPosition >>> p.positionBitsToShift)

/-- The offset at which `sender_scan` starts. -/
def senderTermOffset (p : NetworkPublication) : Nat :=
  landI64 p.senderPosition p.termLengthMask

/-- `sender_scan`: the publication afterwards, the emitted frames and the bytes scanned. -/
def senderScan (p : NetworkPublication) (limit : Nat) :
    NetworkPublication × List (Nat × List UInt8) × Nat :=
  let partitionIdx := partitionIndex p.senderTermId p.initialTermId
  let remainingInTerm := p.termLength - p.senderTermOffset
  let effectiveLimit := if limit < remainingInTerm then limit else remainingInTerm
  let scan := p.rawLog.scanFrames partitionIdx p.senderTermOffset effectiveLimit
  ({ p with senderPosition := p.senderPosition + scan.2 }, scan.1, scan.2)

/-! ## Scans as budgets -/

/-- The address of the partition that the sender scans. -/
def senderBase (p : NetworkPublication) : Nat :=
  partitionIndex p.senderTermId p.initialTermId * p.termLength

/-- The committed frames of the sender's term from its position on, up to the first place where
nothing is committed. -/
def committed (p : NetworkPublication) : List (Nat × List UInt8) :=
  walk p.rawLog.buffer p.senderBase p.termLength p.termLength p.senderTermOffset

/-- **A scan takes the committed frames that start within its limit.** The end of the term needs no
separate bound: every committed frame ends within it. -/
theorem senderScan_eq_takeBudget (p : NetworkPublication) (limit : Nat) :
    p.senderScan limit =
      ({ p with senderPosition :=
          p.senderPosition + total slotLength (takeBudget slotLength limit p.committed) },
        takeBudget slotLength limit p.committed,
        total slotLength (takeBudget slotLength limit p.committed)) := by
  obtain ⟨htotal, hpos⟩ := walk_total_le p.rawLog.buffer p.senderBase p.termLength p.termLength
    p.senderTermOffset
  have hcap := takeBudget_min_of_total_le slotLength limit htotal hpos
  have hmin : (if limit < p.termLength - p.senderTermOffset then limit
      else p.termLength - p.senderTermOffset) = min limit (p.termLength - p.senderTermOffset) := by
    split_ifs <;> omega
  have hscan : p.rawLog.scanFrames (partitionIndex p.senderTermId p.initialTermId)
      p.senderTermOffset (min limit (p.termLength - p.senderTermOffset)) =
        (takeBudget slotLength limit p.committed,
          total slotLength (takeBudget slotLength limit p.committed)) := by
    rw [RawLog.scanFrames, if_neg (Nat.not_le.mpr (partitionIndex_lt _ _)),
      scanLoop_eq_takeBudget, Nat.sub_zero, Nat.zero_add, committed, ← hcap]
    rfl
  simp only [senderScan, hmin, hscan]

/-! ## The outcomes of an offer -/

/-- The payload passes both guards of `offer`. -/
def Admits (p : NetworkPublication) (payload : List UInt8) : Prop :=
  payload.length ≤ p.maxPayloadLength ∧
    wrapI64 (p.pubPosition - p.senderPosition) < (p.termLength : Int) * (partitionCount - 1)

instance (p : NetworkPublication) (payload : List UInt8) : Decidable (p.Admits payload) :=
  inferInstanceAs (Decidable (_ ∧ _))

/-- The write offset after the payload, as the 32-bit sum of the source. -/
def offsetAfter (p : NetworkPublication) (payload : List UInt8) : Nat :=
  (p.termOffset + alignFrameLength (32 + payload.length)) % 2 ^ 32

/-- The offer is admitted but does not fit the active term, so that it rotates. -/
def Rotates (p : NetworkPublication) (payload : List UInt8) : Prop :=
  p.Admits payload ∧ p.termLength < p.offsetAfter payload

instance (p : NetworkPublication) (payload : List UInt8) : Decidable (p.Rotates payload) :=
  inferInstanceAs (Decidable (_ ∧ _))

/-- The publication after a frame was appended at the cursor. -/
def append (p : NetworkPublication) (payload : List UInt8) : NetworkPublication :=
  let base := partitionIndex p.activeTermId p.initialTermId * p.termLength + p.termOffset
  { p with
    rawLog := p.rawLog.withBuffer ((p.rawLog.buffer.write base
      (p.dataHeader payload.length).encode).write (base + 32) payload)
    termOffset := p.offsetAfter payload
    pubPosition := p.computePosition p.activeTermId (p.offsetAfter payload) }

/-- The publication after the rest of its term was padded and the term rotated. -/
def padAndRotate (p : NetworkPublication) : NetworkPublication :=
  rotateTerm { p with
    rawLog := p.rawLog.writePadFrame (partitionIndex p.activeTermId p.initialTermId) p.termOffset }

@[simp] theorem append_termLength (p : NetworkPublication) (payload : List UInt8) :
    (p.append payload).termLength = p.termLength := rfl

@[simp] theorem padAndRotate_termLength (p : NetworkPublication) :
    p.padAndRotate.termLength = p.termLength := by
  simp [padAndRotate, rotateTerm, termLength]

/-- **What an offer does.** It changes nothing and reports an error, appends and returns the new
position, or pads, rotates and reports an admin action. -/
theorem offer_cases (p : NetworkPublication) (payload : List UInt8) :
    (¬ p.Admits payload ∧ (p.offer payload).1 = p ∧ ∃ e, (p.offer payload).2 = .error e) ∨
    (p.Admits payload ∧ ¬ p.Rotates payload ∧
      p.offer payload = (p.append payload, .ok (p.append payload).pubPosition)) ∨
    (p.Rotates payload ∧ p.offer payload = (p.padAndRotate, .error .adminAction)) := by
  unfold offer
  by_cases hlen : p.maxPayloadLength < payload.length
  · rw [if_pos hlen]
    exact .inl ⟨fun h => absurd h.1 (by omega), rfl, _, rfl⟩
  rw [if_neg hlen]
  by_cases hbp : (p.termLength : Int) * (partitionCount - 1) ≤
      wrapI64 (p.pubPosition - p.senderPosition)
  · rw [if_pos hbp]
    exact .inl ⟨fun h => absurd h.2 (by omega), rfl, _, rfl⟩
  have hadmits : p.Admits payload := ⟨by omega, by omega⟩
  have hidx := partitionIndex_lt p.activeTermId p.initialTermId
  rw [if_neg hbp]
  by_cases hfull : p.termLength < p.offsetAfter payload
  · refine .inr (.inr ⟨⟨hadmits, hfull⟩, ?_⟩)
    simp only [p.rawLog.appendFrame_of_full _ hidx hfull]
    rfl
  · refine .inr (.inl ⟨hadmits, fun h => hfull h.2, ?_⟩)
    simp only [p.rawLog.appendFrame_of_fits _ hidx hfull]
    rfl

theorem offer_of_fits {p : NetworkPublication} {payload : List UInt8} (h : p.Admits payload)
    (hfit : ¬ p.Rotates payload) :
    p.offer payload = (p.append payload, .ok (p.append payload).pubPosition) := by
  rcases p.offer_cases payload with ⟨hn, -⟩ | ⟨-, -, heq⟩ | ⟨hr, -⟩
  · exact absurd h hn
  · exact heq
  · exact absurd hr hfit

theorem offer_of_rotates {p : NetworkPublication} {payload : List UInt8} (h : p.Rotates payload) :
    p.offer payload = (p.padAndRotate, .error .adminAction) := by
  rcases p.offer_cases payload with ⟨hn, -⟩ | ⟨-, hn, -⟩ | ⟨-, heq⟩
  · exact absurd h.1 hn
  · exact absurd h hn
  · exact heq

end NetworkPublication

end AeronRs
