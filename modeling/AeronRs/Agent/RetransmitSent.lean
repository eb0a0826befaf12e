import AeronRs.Agent.Retransmit
import AeronRs.Agent.SenderStream

/-! # What a retransmission repeats

`do_send` leaves pads out and stops at the sender's position. `do_retransmit` reads the same log, but
tests the position against the *published* one and sends whatever the scan finds: a frame that was
never sent, or a pad (`retransmit_unsent`).

**`resent`** is what it submits for a request, each frame with its address in the log, and
**`positionAt`** the stream position of an address. `resends_only_sent_iff` says for which requests
only data frames before the sender's position are submitted. That such a frame was on the wire is a
matter of the agent as well: the poller must have had a slot for it (`SenderRun.Makes`). -/

namespace AeronRs

open Runs

/-! ## Positions -/

/-- Every position of a tiled interval is inside a record. -/
theorem Tiles.exists_covering {T a b q : Nat} {rs : List LogRecord} (h : Tiles T a rs b)
    (ha : a ≤ q) (hb : q < b) : ∃ r ∈ rs, r.start ≤ q ∧ q < r.stop := by
  induction rs generalizing a with
  | nil =>
      have : a = b := h
      omega
  | cons r rs ih =>
      obtain ⟨hstart, -, hrest⟩ := h
      by_cases hq : q < a + r.length
      · exact ⟨r, List.mem_cons_self, by omega, by rw [LogRecord.stop]; omega⟩
      · obtain ⟨r', hr', hcovers⟩ := ih hrest (by omega)
        exact ⟨r', List.mem_cons_of_mem r hr', hcovers⟩

/-- **A stretch of sent data.** The records from the start of one of them up to `stop`, in its term,
are data that start before `sender`, exactly when such a record reaches `stop` or is the last: only a
pad ends its term. -/
theorem Tiles.all_data_iff {T b stop : Nat} {sender : Int} {rs : List LogRecord}
    (h : Tiles T 0 rs b) (hpads : ∀ r ∈ rs, r.isData = false → T ∣ r.stop) {first : LogRecord}
    (hfirst : first ∈ rs) (hlt : first.start < stop)
    (hterm : stop ≤ first.start / T * T + T) :
    (∀ r ∈ rs, first.start ≤ r.start → r.start < stop → r.isData = true ∧ r.start < sender) ↔
      ∃ r ∈ rs, r.isData = true ∧ first.start ≤ r.start ∧ r.start < first.start / T * T + T ∧
        r.start < sender ∧ (stop ≤ r.stop ∨ r.stop = b) := by
  constructor
  · intro hall
    obtain ⟨hfits, -, hend⟩ := h.mem hfirst
    have hlen := hfits.length_pos
    -- the record that holds the last byte below `stop`
    obtain ⟨r, hr, hlo, hhi⟩ := h.exists_covering (Nat.zero_le (min stop b - 1)) (by omega)
    have hafter : first.start ≤ r.start := by
      rcases h.between_start hfirst r hr with hle | hle
      · omega
      · exact hle
    obtain ⟨hdata, hsent⟩ := hall r hr hafter (by omega)
    have hstop := (h.mem hr).2.2
    refine ⟨r, hr, hdata, hafter, by omega, hsent, ?_⟩
    rw [LogRecord.stop] at hhi ⊢
    omega
  · rintro ⟨last, hlast, hdata, hafter, hin, hsent, hend⟩ r hr hlo hhi
    have hstop := (h.mem hr).2.2
    have hlen := (h.mem hr).1.length_pos
    have hbefore : r.start < last.stop := by omega
    rcases apart_of_pairwise h.pairwise r hr last hlast with rfl | hle | hle
    · exact ⟨hdata, hsent⟩
    · refine ⟨?_, by rw [LogRecord.stop] at hle; omega⟩
      -- a pad would end its term before the last record starts
      by_contra hpad
      obtain ⟨k, hk⟩ := hpads r hr (by simpa using hpad)
      have hdiv := Nat.div_mul_le_self first.start T
      rw [hk, Nat.mul_comm] at hle
      have hk' : first.start / T * T < k * T := by
        rw [Nat.mul_comm k, ← hk, LogRecord.stop]
        omega
      have hsucc := Nat.mul_le_mul_right T (Nat.succ_le_of_lt (Nat.lt_of_mul_lt_mul_right hk'))
      rw [Nat.succ_mul] at hsucc
      omega
    · omega

namespace NetworkPublication

/-- The stream position of the write cursor. -/
def writePosition (p : NetworkPublication) : Nat := p.termCount * p.termLength + p.termOffset

/-- The term that a partition holds, counted from the first: the latest that falls on it. -/
def heldTerm (p : NetworkPublication) (partitionIdx : Nat) : Nat :=
  p.termCount - (p.termCount + partitionCount - partitionIdx) % partitionCount

/-- The stream position of an address of the log. -/
def positionAt (p : NetworkPublication) (addr : Nat) : Nat :=
  p.heldTerm (addr / p.termLength) * p.termLength + addr % p.termLength

end NetworkPublication

namespace AtCursor

variable {p : NetworkPublication} {n : Nat}

theorem writePosition_eq (h : AtCursor p n) :
    p.writePosition = n * p.termLength + p.termOffset := by
  rw [NetworkPublication.writePosition, h.termCount_eq]

theorem positionAt_eq (h : AtCursor p n) (t : Nat) {offset : Nat} (ho : offset < p.termLength) :
    p.positionAt (t % 4 * p.termLength + offset) =
      (n - (n + 4 - t % 4) % 4) * p.termLength + offset := by
  obtain ⟨hdiv, hmod⟩ := term_offset_of_lt (t % 4) ho
  rw [NetworkPublication.positionAt, NetworkPublication.heldTerm, hdiv, hmod, h.termCount_eq,
    partitionCount]

theorem positionAt_of_held (h : AtCursor p n) {t offset : Nat} (ho : offset < p.termLength)
    (ht : t ≤ n) (hheld : n < t + 4) :
    p.positionAt (t % 4 * p.termLength + offset) = t * p.termLength + offset := by
  rw [h.positionAt_eq t ho, show n - (n + 4 - t % 4) % 4 = t by omega]

/-- In the place of an earlier term there is one at least four terms later. -/
theorem le_positionAt (h : AtCursor p n) {t offset : Nat} (ho : offset < p.termLength)
    (hover : t + 4 ≤ n) :
    (t + 4) * p.termLength ≤ p.positionAt (t % 4 * p.termLength + offset) := by
  rw [h.positionAt_eq t ho]
  have hle : t + 4 ≤ n - (n + 4 - t % 4) % 4 := by omega
  exact Nat.le_add_right_of_le (Nat.mul_le_mul_right _ hle)

end AtCursor

/-- A scanned frame starts inside its partition. -/
theorem RawLog.lt_of_mem_scanFrames {log : RawLog} {idx offset limit : Nat}
    {f : Nat × List UInt8} (h : f ∈ (log.scanFrames idx offset limit).1) :
    f.1 < log.termLength := by
  unfold scanFrames at h
  split_ifs at h
  · cases h
  · rw [scanLoop_eq_takeBudget] at h
    obtain ⟨rest, hsplit, -⟩ := takeBudget_split slotLength (limit - 0)
      (walk log.buffer (idx * log.termLength) log.termLength log.termLength offset)
    have hwalk : f ∈ walk log.buffer (idx * log.termLength) log.termLength log.termLength offset := by
      rw [hsplit]
      exact List.mem_append_left _ h
    have hpos := (walk_total_le _ _ _ _ _).2 f hwalk
    have hle := (bounds_of_mem_walk hwalk).2
    omega

/-! ## Runs at the sender's pace -/

namespace PubRun

/-- A scan of `do_send`, or an offer whose frame and term count stay below `2 ^ 31`. -/
def Paced (s : PubRun) (a : PubAction) : Prop := s.ScanWithinPublished a ∧ s.Sized a

instance (s : PubRun) (a : PubAction) : Decidable (s.Paced a) :=
  inferInstanceAs (Decidable (_ ∧ _))

/-- **Where the positions are**: the sender is at most a term beyond what is published, and that is
not beyond the write cursor. -/
structure Placed (p : NetworkPublication) : Prop where
  sender_nonneg : 0 ≤ p.senderPosition
  sender_le : p.senderPosition ≤ p.pubPosition + p.termLength
  pub_le : p.pubPosition ≤ p.writePosition

theorem senderScan_le (p : NetworkPublication) (limit : Nat) :
    p.senderPosition ≤ (p.senderScan limit).1.senderPosition ∧
      (p.senderScan limit).1.senderPosition ≤ p.senderPosition + p.termLength := by
  obtain ⟨htotal, -⟩ := walk_total_le p.rawLog.buffer p.senderBase p.termLength p.termLength
    p.senderTermOffset
  obtain ⟨rest, hsplit, -⟩ := takeBudget_split slotLength limit p.committed
  have hsum := congrArg (total slotLength) hsplit
  rw [total_append] at hsum
  rw [← NetworkPublication.committed] at htotal
  rw [p.senderScan_eq_takeBudget]
  dsimp only
  omega

theorem placed_start {crossThread : Bool} {sessionId streamId initialTermId : BitVec 32}
    {termLength mtu : Nat} {p : Publication}
    (h : Publication.create crossThread sessionId streamId initialTermId termLength mtu = some p) :
    Placed (start p).network := by
  have hrep := represents_new (Publication.toNetwork_create h)
  have hsender : (start p).network.senderPosition = 0 := hrep.sender
  have hpub : (start p).network.pubPosition = 0 := hrep.pub
  exact ⟨by omega, by omega, by omega⟩

/-- **Step.** -/
theorem Placed.step {ids : StreamIds} {s : PubRun} {rs : List LogRecord} {n : Nat}
    (h : Placed s.network) (hlog : s.Logged ids rs n) {a : PubAction} (hpaced : s.Paced a) :
    Placed (s.step a).network := by
  obtain ⟨hwithin, hsized⟩ := hpaced
  obtain ⟨hnonneg, hle, hpub⟩ := h
  have hcursor := hlog.published.cursor
  cases a with
  | offer payload =>
      rw [(s.step_offer payload).1]
      -- refused, appended, or rotated: only an append moves the published position
      rcases s.network.offer_cases payload with ⟨-, heq, -⟩ | ⟨hadmits, hfit, heq⟩ | ⟨hrot, heq⟩
      · rw [heq]
        exact ⟨hnonneg, hle, hpub⟩
      · have hsize := hsized.1 hadmits
        have hnext := hcursor.append hsize hfit hadmits
        have hpub' := hcursor.append_pubPosition hsize
        have hoff : (s.network.append payload).termOffset = _ := hcursor.offsetAfter_eq hsize
        rw [hcursor.writePosition_eq] at hpub
        rw [heq]
        refine ⟨hnonneg, ?_, ?_⟩
        · rw [hpub']
          change s.network.senderPosition ≤ _ + (s.network.termLength : Int)
          push_cast at hpub ⊢
          omega
        · rw [hpub', hnext.writePosition_eq, hoff, s.network.append_termLength, Nat.add_assoc]
      · have hcount := hsized.2 hrot
        rw [hcursor.termCount_eq] at hcount
        have hnext := hcursor.padAndRotate hcount
        have hoff := hcursor.offset_le
        rw [hcursor.writePosition_eq] at hpub
        rw [heq]
        refine ⟨hnonneg, ?_, ?_⟩
        · rw [s.network.padAndRotate_termLength]
          exact hle
        · rw [hnext.writePosition_eq, s.network.padAndRotate_termLength, Nat.succ_mul]
          change s.network.pubPosition ≤ _
          push_cast at hpub ⊢
          omega
  | scan limit =>
      have hbelow : (limit : Int) ≤ s.network.pubPosition - s.network.senderPosition := hwithin
      obtain ⟨hlo, hhi⟩ := senderScan_le s.network limit
      rw [(s.step_scan limit).1]
      refine ⟨by omega, ?_, hpub⟩
      change _ ≤ s.network.pubPosition + (s.network.termLength : Int)
      omega

/-- The positions at which the calls have published a frame, data or pad: where the write cursor was
before a call that moved it. -/
def frameStarts (s : PubRun) : List PubAction → List Nat
  | [] => []
  | a :: as =>
      if (s.step a).network.writePosition = s.network.writePosition then frameStarts (s.step a) as
      else s.network.writePosition :: frameStarts (s.step a) as

/-- A call that moves the write cursor publishes a record at it. -/
theorem Logged.exists_start {ids : StreamIds} {s s' : PubRun} {rs new : List LogRecord} {n n' : Nat}
    (h : s.Logged ids rs n) (h' : s'.Logged ids (rs ++ new) n')
    (hmoved : s'.network.writePosition ≠ s.network.writePosition) :
    ∃ r ∈ new, r.start = s.network.writePosition := by
  obtain ⟨b, hold, hnew⟩ := tiles_append.mp h'.published.tiles
  have hb : b = s.network.writePosition := by
    rw [h.published.cursor.writePosition_eq, h.published.tiles.eq_add_total, hold.eq_add_total]
  rw [← h'.published.cursor.writePosition_eq, hb] at hnew
  cases new with
  | nil => exact absurd (tiles_nil.mp hnew).symm hmoved
  | cons r new => exact ⟨r, List.mem_cons_self, hnew.1⟩

/-- **Run.** The log of a run holds a record at each of its frame starts. -/
theorem Logged.run_paced {ids : StreamIds} {s : PubRun} {rs : List LogRecord} {n : Nat}
    (h : s.Logged ids rs n) (hplaced : Placed s.network) {as : List PubAction}
    (hpaced : Meets Paced PubRun.step s as) :
    ∃ rs' n', (run PubRun.step s as).Logged ids (rs ++ rs') n' ∧
      Placed (run PubRun.step s as).network ∧ ∀ q ∈ s.frameStarts as, ∃ r ∈ rs', r.start = q := by
  induction as generalizing s rs n with
  | nil => exact ⟨[], n, by rwa [List.append_nil], hplaced, by simp [frameStarts]⟩
  | cons a as ih =>
      rw [meets_cons] at hpaced
      obtain ⟨new, n', hnext⟩ := h.step hpaced.1.2
      obtain ⟨rs', n'', hlast, hplaced', hstarts⟩ := ih hnext (hplaced.step h hpaced.1) hpaced.2
      refine ⟨new ++ rs', n'', by rwa [← List.append_assoc], hplaced', fun q hq => ?_⟩
      rw [frameStarts] at hq
      by_cases hmoved : (s.step a).network.writePosition = s.network.writePosition
      · rw [if_pos hmoved] at hq
        obtain ⟨r, hr, hrq⟩ := hstarts q hq
        exact ⟨r, List.mem_append_right _ hr, hrq⟩
      · rw [if_neg hmoved] at hq
        rcases List.mem_cons.mp hq with rfl | hlater
        · obtain ⟨r, hr, hrq⟩ := h.exists_start hnext hmoved
          exact ⟨r, List.mem_append_left _ hr, hrq⟩
        · obtain ⟨r, hr, hrq⟩ := hstarts q hlater
          exact ⟨r, List.mem_append_right _ hr, hrq⟩

end PubRun

/-! ## What is submitted, and where it is -/

/-- The frame of a send, with its address in the log. -/
def SendEvent.frame : SendEvent → Option (Nat × List UInt8)
  | .control .. => none
  | .data _ _ addr bytes _ _ => some (addr, bytes)

/-- **The frames that an agent submits for a request**, each with its address in the log. -/
def SenderAgent.resent (s : SenderAgent) (req : RetransmitRequest) : List (Nat × List UInt8) :=
  (SendState.onRetransmit ⟨s, [], 0⟩ req).events.filterMap SendEvent.frame

theorem SendState.filterMap_frame_zipWith (pubIdx : Nat) (e : PublicationEntry) (base : Nat)
    {frames : List (Nat × List UInt8)} {results : List (Except PollError Unit)}
    (hlen : results.length = frames.length) :
    (List.zipWith (SendState.dataEvent pubIdx e base) frames results).filterMap SendEvent.frame =
      frames.map fun f => (base + f.1, f.2) := by
  induction frames generalizing results with
  | nil => rfl
  | cons frame frames ih =>
      cases results with
      | nil => cases hlen
      | cons result results =>
          rw [List.zipWith_cons_cons, List.filterMap_cons, ih (Nat.succ.inj hlen)]
          rfl

theorem SenderAgent.resent_of_find {s : SenderAgent} {req : RetransmitRequest}
    {e : PublicationEntry} {pubIdx : Nat} {ep : SendChannelEndpoint}
    (hfind : s.findPublication req.sessionId req.streamId = some (e, pubIdx))
    (hep : s.endpoints[e.endpointIdx]? = some ep) :
    s.resent req = (e.retransmitFrames req).map fun f =>
      (partitionIndex req.termId e.initialTermId * e.termLength + f.1, f.2) := by
  obtain ⟨p, results, hlen, hfold⟩ := SendState.foldl_sendFrame pubIdx e ep
    (partitionIndex req.termId e.initialTermId * e.termLength) (e.retransmitFrames req) ⟨s, [], 0⟩
  rw [resent, ← SendState.filterMap_frame_zipWith pubIdx e _ hlen]
  simp only [SendState.onRetransmit, hfind, hep, hfold, List.nil_append]

/-- **Only what was sent.** No frame submitted for the request is a pad, and each lies before the
sender's position. -/
def SenderAgent.ResendsOnlySent (s : SenderAgent) (p : NetworkPublication)
    (req : RetransmitRequest) : Prop :=
  ∀ f ∈ s.resent req, frameTypeOf f.2 ≠ frameTypePad ∧ (p.positionAt f.1 : Int) < p.senderPosition

instance (s : SenderAgent) (p : NetworkPublication) (req : RetransmitRequest) :
    Decidable (s.ResendsOnlySent p req) :=
  inferInstanceAs (Decidable (∀ _ ∈ _, _))

namespace PubRun

def startOf (offered : Int × List UInt8) : Int :=
  offered.1 - alignFrameLength (32 + offered.2.length)

/-- **The sender has got through the range of the request**: it has started on a data frame of the
named term, at or behind the named offset, with which the range ends, or the term so far. -/
def SentThrough (r : PubRun) (e : PublicationEntry) (req : RetransmitRequest) : Prop :=
  let nakPosition := e.publication.toNetwork.computePosition req.termId req.termOffset.toNat
  let termEnd := nakPosition - req.termOffset.toNat + e.termLength
  ∃ offered ∈ r.accepted, nakPosition ≤ startOf offered ∧ startOf offered < termEnd ∧
    startOf offered < e.senderPosition ∧
    (min (nakPosition + e.retransmitLimit req) termEnd ≤ offered.1 ∨
      offered.1 = e.publication.toNetwork.writePosition)

instance (r : PubRun) (e : PublicationEntry) (req : RetransmitRequest) :
    Decidable (r.SentThrough e req) :=
  inferInstanceAs (Decidable (∃ _ ∈ _, _ ∧ _ ∧ _ ∧ (_ ∨ _)))

/-- The range test refuses the request, there is nothing to find, or the sender has got through the
range and the term is still there. -/
def FindsOnlySent (r : PubRun) (e : PublicationEntry) (req : RetransmitRequest) : Prop :=
  let p := e.publication.toNetwork
  e.InTermBuffer req → req.length = 0 ∨
    frameAt p.rawLog.buffer (partitionIndex req.termId p.initialTermId * p.termLength) p.termLength
      req.termOffset.toNat = none ∨
    ¬ p.Overwritten req.termId ∧ r.SentThrough e req

instance (r : PubRun) (e : PublicationEntry) (req : RetransmitRequest) :
    Decidable (r.FindsOnlySent e req) :=
  inferInstanceAs (Decidable (_ → _ ∨ _ ∨ _ ∧ _))

theorem Logged.exists_accepted_iff {ids : StreamIds} {s : PubRun} {rs : List LogRecord} {n : Nat}
    (h : s.Logged ids rs n) (P : Int → Int → Prop) :
    (∃ offered ∈ s.accepted, P (startOf offered) offered.1) ↔
      ∃ r ∈ rs, r.isData = true ∧ P r.start r.stop := by
  rw [h.accepted_eq]
  constructor
  · rintro ⟨offered, hoffered, hP⟩
    obtain ⟨r, hr, heq⟩ := List.mem_filterMap.mp hoffered
    cases r with
    | data start payload =>
        obtain rfl := Option.some.inj heq
        refine ⟨_, hr, rfl, ?_⟩
        rwa [startOf, Int.add_sub_cancel] at hP
    | pad start len => cases heq
  · rintro ⟨r, hr, hdata, hP⟩
    cases r with
    | data start payload =>
        refine ⟨_, List.mem_filterMap.mpr ⟨_, hr, rfl⟩, ?_⟩
        rwa [startOf, Int.add_sub_cancel]
    | pad start len => cases hdata

/-! ## Requests for a frame start -/

namespace AtRecord

variable {ids : StreamIds} {s : PubRun} {rs : List LogRecord} {n : Nat} {e : PublicationEntry}
  {req : RetransmitRequest} {first : LogRecord}

theorem computePosition_eq (h : AtRecord ids s rs n e req first) :
    e.publication.toNetwork.computePosition req.termId req.termOffset.toNat = first.start := by
  have hlt := h.logged.published.cursor.termCount_lt
  have hterm := h.logged.record_term_le h.first_mem
  have hT : e.publication.toNetwork.termLength = ids.termLength := h.termLength_eq
  have hinitial : e.publication.toNetwork.initialTermId = ids.initialTermId := h.initialTermId_eq
  rw [NetworkPublication.computePosition, hinitial, h.startsAt.1, toInt_add_sub_base _ (by omega),
    hT, h.offset_eq]
  exact_mod_cast Nat.div_add_mod' first.start ids.termLength

/-- The range test lets a request through only if the sender is at most three terms ahead of it. -/
theorem sender_le (h : AtRecord ids s rs n e req first) (hplaced : Placed s.network)
    (hrange : e.InTermBuffer req) :
    e.senderPosition ≤ first.start + 3 * ids.termLength := by
  obtain ⟨hnonneg, hle, hpub⟩ := hplaced
  have hcursor := h.logged.published.cursor
  have hT : s.network.termLength = ids.termLength := by
    rw [← h.logged.ids_eq, s.network.ids_termLength]
  have hstop := (h.logged.published.tiles.mem h.first_mem).2.2
  have hoff := hcursor.offset_le
  have hTle := h.termLength_le
  have hbig : n * ids.termLength ≤ 2 ^ 31 * 2 ^ 31 :=
    Nat.mul_le_mul (Nat.le_of_lt hcursor.termCount_lt) hTle
  rw [hcursor.writePosition_eq] at hpub
  rw [hT] at hpub hle hoff hstop
  have hsender : e.senderPosition = s.network.senderPosition := by
    rw [PublicationEntry.senderPosition, h.network_eq]
  unfold PublicationEntry.InTermBuffer at hrange
  simp only [h.computePosition_eq, h.termLength_eq, hsender, partitionCount] at hrange
  push_cast at hpub
  rw [hsender]
  -- nothing wraps around: all positions are below `2 ^ 63`
  have hback : wrapI64 (s.network.senderPosition - ((4 : Nat) - 1) * ids.termLength) =
      s.network.senderPosition - 3 * ids.termLength := by
    rw [wrapI64_of_range (by omega) (by omega)]
    omega
  rw [hback, wrapI64_of_range (x := first.start - _) (by omega) (by omega)] at hrange
  omega

/-- **What is found in a term that is still held**: the frames of the records from the first one to
the end of the range, each at its own position. -/
theorem forall_frames_iff (h : AtRecord ids s rs n e req first) (hrange : e.InTermBuffer req)
    (hheld : n < first.start / ids.termLength + 4) (P : Nat → List UInt8 → Prop) :
    (∀ f ∈ e.retransmitFrames req, P (e.publication.toNetwork.positionAt
      (partitionIndex req.termId e.initialTermId * e.termLength + f.1)) f.2) ↔
      ∀ r ∈ rs, first.start ≤ r.start → r.start < min (first.start + e.retransmitLimit req)
        (first.start / ids.termLength * ids.termLength + ids.termLength) →
        P r.start (r.frame ids) := by
  have hT : s.network.termLength = ids.termLength := by
    rw [← h.logged.ids_eq, s.network.ids_termLength]
  have hterm := h.logged.record_term_le h.first_mem
  have hstop := (h.logged.published.tiles.mem h.first_mem).2.2
  rw [hT] at hstop
  rw [h.logged.retransmitFrames_eq h.network_eq hrange h.startsAt.1 hterm hheld
    (by rw [h.start_eq]; omega)
    (by rw [h.start_eq]; exact h.logged.published.tiles.between_start h.first_mem),
    List.forall_mem_map, h.start_eq, h.initialTermId_eq, h.startsAt.1, partitionIndex_add,
    h.termLength_eq, h.network_eq]
  -- an offset in a partition names one position while its term is held
  have hposition : ∀ r : LogRecord, first.start ≤ r.start →
      r.start < first.start / ids.termLength * ids.termLength + ids.termLength →
      s.network.positionAt (first.start / ids.termLength % 4 * ids.termLength +
        r.start % ids.termLength) = r.start := by
    intro r hlo hhi
    have hdiv : r.start / ids.termLength = first.start / ids.termLength :=
      Nat.div_eq_of_lt_le (Nat.le_trans (Nat.div_mul_le_self _ _) hlo) (by rwa [Nat.succ_mul])
    have hmod := Nat.mod_lt r.start h.termLength_pos
    have heq := h.logged.published.cursor.positionAt_of_held (by rwa [hT]) hterm hheld
    rw [hT] at heq
    rw [heq, ← hdiv, Nat.div_add_mod']
  constructor
  · intro hall r hr hlo hhi
    have hframe := hall r (List.mem_filter.mpr ⟨hr, by simp; omega⟩)
    rwa [hposition r hlo (by omega)] at hframe
  · intro hall r hr
    obtain ⟨hmem, hbounds⟩ := List.mem_filter.mp hr
    obtain ⟨hlo, hhi, hlimit⟩ := of_decide_eq_true hbounds
    rw [hposition r hlo hhi]
    exact hall r hmem hlo (by omega)

/-- **From a term that is still held**, only sent data is found exactly when the sender has got
through the range. -/
theorem onlySent_iff (h : AtRecord ids s rs n e req first) (hrange : e.InTermBuffer req)
    (hheld : n < first.start / ids.termLength + 4) (hlimit : 0 < e.retransmitLimit req) :
    (∀ f ∈ e.retransmitFrames req, frameTypeOf f.2 ≠ frameTypePad ∧
      (e.publication.toNetwork.positionAt (partitionIndex req.termId e.initialTermId * e.termLength
        + f.1) : Int) < e.senderPosition) ↔ s.SentThrough e req := by
  have hT : s.network.termLength = ids.termLength := by
    rw [← h.logged.ids_eq, s.network.ids_termLength]
  have hdata : ∀ r : LogRecord, frameTypeOf (r.frame ids) ≠ frameTypePad ↔ r.isData = true := by
    intro r
    rw [r.frameTypeOf_frame]
    cases r.isData <;> decide
  have hmod := Nat.mod_lt first.start h.termLength_pos
  have hdivmod := Nat.div_add_mod' first.start ids.termLength
  have hpads := h.logged.published.pads
  have htiles := h.logged.published.tiles
  rw [hT] at hpads htiles
  rw [h.forall_frames_iff hrange hheld fun q frame => frameTypeOf frame ≠ frameTypePad ∧
    (q : Int) < e.senderPosition]
  -- pads end their term, so a range of data only is one that no pad ends
  simp only [hdata]
  rw [htiles.all_data_iff hpads h.first_mem (by omega) (Nat.min_le_right _ _), SentThrough]
  simp only [h.computePosition_eq, h.termLength_eq]
  simp only [h.network_eq, h.offset_eq]
  rw [h.logged.exists_accepted_iff fun start stop => (first.start : Int) ≤ start ∧
    start < first.start - (first.start % ids.termLength : Nat) + ids.termLength ∧
    start < e.senderPosition ∧ (min ((first.start : Int) + e.retransmitLimit req)
      (first.start - (first.start % ids.termLength : Nat) + ids.termLength) ≤ stop ∨
      stop = s.network.writePosition), h.logged.published.cursor.writePosition_eq, hT]
  -- both sides now ask for the record that the range ends in
  refine exists_congr fun r => and_congr_right fun _ => and_congr_right fun _ => ?_
  omega

/-- **In the place of a term that is gone**, every frame lies beyond the sender's position. -/
theorem sender_le_positionAt (h : AtRecord ids s rs n e req first) (hplaced : Placed s.network)
    (hrange : e.InTermBuffer req) (hover : first.start / ids.termLength + 4 ≤ n)
    {f : Nat × List UInt8} (hf : f ∈ e.retransmitFrames req) :
    e.senderPosition ≤ e.publication.toNetwork.positionAt
      (partitionIndex req.termId e.initialTermId * e.termLength + f.1) := by
  have hT : s.network.termLength = ids.termLength := by
    rw [← h.logged.ids_eq, s.network.ids_termLength]
  rw [PublicationEntry.retransmitFrames, if_pos hrange, e.retransmitScan_eq, h.network_eq] at hf
  have hlt : f.1 < s.network.termLength := RawLog.lt_of_mem_scanFrames hf
  have hsender := h.sender_le hplaced hrange
  have hle := h.logged.published.cursor.le_positionAt hlt hover
  have hmod := Nat.mod_lt first.start h.termLength_pos
  have hdivmod := Nat.div_add_mod' first.start ids.termLength
  rw [hT, Nat.add_mul] at hle
  rw [h.initialTermId_eq, h.startsAt.1, partitionIndex_add, h.termLength_eq, h.network_eq]
  omega

/-- **Only sent data is found**, exactly under the condition. -/
theorem findsOnlySent_iff (h : AtRecord ids s rs n e req first) (hplaced : Placed s.network) :
    (∀ f ∈ e.retransmitFrames req, frameTypeOf f.2 ≠ frameTypePad ∧
      (e.publication.toNetwork.positionAt (partitionIndex req.termId e.initialTermId * e.termLength
        + f.1) : Int) < e.senderPosition) ↔ s.FindsOnlySent e req := by
  by_cases hrange : e.InTermBuffer req
  · have hnil := h.frames_eq_nil_iff hrange
    by_cases hempty : e.retransmitFrames req = []
    · have hfinds : s.FindsOnlySent e req := fun _ => or_assoc.mp (.inl (hnil.mp hempty))
      exact ⟨fun _ => hfinds, fun _ => by simp [hempty]⟩
    · have hfinds : s.FindsOnlySent e req ↔
          ¬ e.publication.toNetwork.Overwritten req.termId ∧ s.SentThrough e req :=
        ⟨fun hf => (or_assoc.mpr (hf hrange)).resolve_left (mt hnil.mpr hempty),
          fun hs _ => .inr (.inr hs)⟩
      rw [hfinds, h.overwritten_iff]
      by_cases hover : first.start / ids.termLength + 4 ≤ n
      · -- whatever is found there is beyond the sender
        obtain ⟨f, hf⟩ := List.exists_mem_of_ne_nil _ hempty
        have hle := h.sender_le_positionAt hplaced hrange hover hf
        refine ⟨fun hall => ?_, fun hheld => absurd hover hheld.1⟩
        have hlt := (hall f hf).2
        omega
      · -- the term is still there
        have hlimit : 0 < e.retransmitLimit req := by
          have hmtu := h.mtu_ge
          have hheader : dataHeaderLength = 32 := rfl
          have hlen : req.length.toNat ≠ 0 := fun h0 =>
            hempty (hnil.mpr (.inl (BitVec.eq_of_toNat_eq h0)))
          unfold PublicationEntry.retransmitLimit
          split_ifs <;> omega
        rw [h.onlySent_iff hrange (Nat.lt_of_not_le hover) hlimit]
        exact (and_iff_right hover).symm
  · have hempty : e.retransmitFrames req = [] := if_neg hrange
    exact ⟨fun _ hin => absurd hin hrange, fun _ => by simp [hempty]⟩

end AtRecord

theorem Inv.frameOf_mem {ids : StreamIds} {s : PubRun} (h : s.Inv ids)
    {offered : Int × List UInt8} (hoffered : offered ∈ s.accepted)
    (hsent : startOf offered < s.network.senderPosition) :
    frameOf ids offered ∈ dataFrames s.emitted := by
  obtain ⟨-, l, n, b, e, hrep, hem, hacc⟩ := h
  rw [hacc] at hoffered
  obtain ⟨r, hr, heq⟩ := List.mem_filterMap.mp hoffered
  cases r with
  | data start payload =>
      obtain rfl := Option.some.inj heq
      rw [startOf, Int.add_sub_cancel, hrep.sender] at hsent
      have hmem : LogRecord.data start payload ∈ l.sent := by
        refine (List.mem_append.mp hr).resolve_right fun hpending => ?_
        have hlo : b ≤ start := (hrep.tiles_pending.mem hpending).2.1
        omega
      have hframe : frameOf ids (start + alignFrameLength (32 + payload.length), payload) =
          ((start : Int), (LogRecord.data start payload).frame ids) := by
        simp only [frameOf, Int.add_sub_cancel, Int.toNat_natCast]
      rw [hframe]
      refine List.mem_filter.mpr ⟨?_, ?_⟩
      · rw [hem]
        exact List.mem_map_of_mem hmem
      · dsimp only
        rw [LogRecord.frameTypeOf_frame]
        rfl
  | pad start len => cases heq

/-- **What is found repeats what was emitted**, if it is only sent data and the run is clear. -/
theorem AtRecord.mem_emitted {ids : StreamIds} {s : PubRun} {rs : List LogRecord} {n : Nat}
    {e : PublicationEntry} {req : RetransmitRequest} {first : LogRecord}
    (h : AtRecord ids s rs n e req first) (hplaced : Placed s.network) (hinv : s.Inv ids)
    (hall : ∀ f ∈ e.retransmitFrames req, frameTypeOf f.2 ≠ frameTypePad ∧
      (e.publication.toNetwork.positionAt (partitionIndex req.termId e.initialTermId * e.termLength
        + f.1) : Int) < e.senderPosition) :
    ∀ f ∈ e.retransmitFrames req, ((e.publication.toNetwork.positionAt (partitionIndex req.termId
      e.initialTermId * e.termLength + f.1) : Int), f.2) ∈ dataFrames s.emitted := by
  by_cases hrange : e.InTermBuffer req
  · by_cases hover : first.start / ids.termLength + 4 ≤ n
    · -- nothing is found there: it would be beyond the sender
      intro f hf
      have hle := h.sender_le_positionAt hplaced hrange hover hf
      have hlt := (hall f hf).2
      omega
    · have hheld := Nat.lt_of_not_le hover
      rw [h.forall_frames_iff hrange hheld fun q frame => frameTypeOf frame ≠ frameTypePad ∧
        (q : Int) < e.senderPosition] at hall
      rw [h.forall_frames_iff hrange hheld fun q frame => ((q : Int), frame) ∈ dataFrames s.emitted]
      intro r hr hlo hhi
      obtain ⟨htype, hsent⟩ := hall r hr hlo hhi
      cases r with
      | data start payload =>
          have haccepted : ((start : Int) + alignFrameLength (32 + payload.length), payload) ∈
              s.accepted := by
            rw [h.logged.accepted_eq]
            exact List.mem_filterMap.mpr ⟨_, hr, rfl⟩
          rw [PublicationEntry.senderPosition, h.network_eq] at hsent
          have hmem := hinv.frameOf_mem haccepted (by rwa [startOf, Int.add_sub_cancel])
          simp only [frameOf, Int.add_sub_cancel, Int.toNat_natCast] at hmem
          exact hmem
      | pad start len => exact absurd ((LogRecord.pad start len).frameTypeOf_frame ids) htype
  · intro f hf
    rw [PublicationEntry.retransmitFrames, if_neg hrange] at hf
    cases hf

end PubRun

/-! ## The calls of a sender agent -/

namespace SenderRun

/-- The calls that an action makes on publication `i`: a cycle scans it once, if its limit allows. -/
def pubAction (i : Nat) (s : SenderRun) : SenderAction → List PubAction
  | .offer pubIdx payload => if pubIdx = i then [.offer payload] else []
  | .doSend nowNs =>
      match s.agent.publications[i]? with
      | some e =>
          if 0 < s.agent.cycleLimit nowNs i e then [.scan (s.agent.cycleLimit nowNs i e)] else []
      | none => []
  | _ => []

/-- The calls that a run makes on publication `i`. -/
def pubActions (i : Nat) (s : SenderRun) : List SenderAction → List PubAction
  | [] => []
  | a :: as => s.pubAction i a ++ pubActions i (s.step a) as

/-- **A sender agent that makes the given calls** on its new publication `i`: its rotations are clear
of the sender, and the send slots cover its scans. -/
structure Makes (agent : SenderAgent) (i : Nat) (p : Publication) (bs : List SenderAction)
    (as : List PubAction) : Prop where
  initial : agent.Initial
  entry : ∃ e, agent.publications[i]? = some e ∧ e.publication = p
  clear : Meets (OffersClear i) step (start agent) bs
  covered : Meets (Covered i) step (start agent) bs
  calls : (start agent).pubActions i bs = as

/-- **The run of an agent and that of its publication**: the publication is the same, and the data
frames that its scans have read are emitted. -/
structure Mirrors (i : Nat) (s : SenderRun) (r : PubRun) : Prop where
  inv : s.agent.Inv
  entry : ∃ e, s.agent.publications[i]? = some e ∧ e.publication = r.publication
  emitted : ∀ f ∈ PubRun.dataFrames r.emitted, .data f.2 ∈ s.emissions i

namespace Mirrors

variable {i : Nat} {s : SenderRun} {r : PubRun} {a : SenderAction}

/-- An action that scans nothing. -/
theorem idle (h : Mirrors i s r) {r' : PubRun} (hscanned : r'.emitted = r.emitted)
    {e' : PublicationEntry} (he' : (s.agent.step a).publications[i]? = some e')
    (hpub : e'.publication = r'.publication) : Mirrors i (s.step a) r' := by
  refine ⟨SenderAgent.inv_step h.inv a, ⟨e', he', hpub⟩, fun f hf => ?_⟩
  rw [hscanned] at hf
  rw [emissions_step]
  exact List.mem_append_left _ (h.emitted f hf)

/-- **A cycle** emits the data frames of its scan. -/
theorem doSend (h : Mirrors i s r) {nowNs : Int} (hcovered : s.Covered i (.doSend nowNs)) :
    Mirrors i (s.step (.doSend nowNs)) (run PubRun.step r (s.pubAction i (.doSend nowNs))) := by
  obtain ⟨e, he, hpub⟩ := h.entry
  obtain ⟨e', he', hscan, -, hemitted⟩ := SenderAgent.doSend_events h.inv.wired he nowNs
  have hscanned := hscan.publication
  simp only [pubAction, he]
  by_cases hlimit : 0 < s.agent.cycleLimit nowNs i e
  · rw [if_pos hlimit] at hscanned ⊢
    rw [run_cons, run_nil]
    refine ⟨SenderAgent.inv_step h.inv (.doSend nowNs), ⟨e', he', ?_⟩, fun f hf => ?_⟩
    · rw [hscanned, hpub]
      rfl
    rw [PubRun.step, PubRun.dataFrames, List.filter_append, List.mem_append] at hf
    rw [emissions_step, List.mem_append]
    refine hf.imp (h.emitted f) fun hnew => ?_
    obtain ⟨hread, htype⟩ := List.mem_filter.mp hnew
    obtain ⟨g, hg, rfl⟩ := List.mem_map.mp hread
    -- what is not a pad is handed to the poller
    have hdata : SendState.isData g = true := by
      have hne : frameTypeOf g.2 ≠ frameTypePad := by simpa using htype
      simp [SendState.isData, hne]
    rw [sends, ← Emission.mem_filterMap_dataBytes]
    change g.2 ∈ emittedData i _
    rw [hemitted (hcovered e he), PublicationEntry.scanned, if_pos hlimit, hpub]
    exact List.mem_map_of_mem (List.mem_filter.mpr ⟨hg, hdata⟩)
  · rw [if_neg hlimit] at hscanned ⊢
    exact h.idle rfl he' (hscanned.trans hpub)

/-- **Step.** -/
theorem step (h : Mirrors i s r) (hclear : s.OffersClear i a) (hcovered : s.Covered i a) :
    Mirrors i (s.step a) (run PubRun.step r (s.pubAction i a)) ∧
      Meets PubRun.RotatesClear PubRun.step r (s.pubAction i a) := by
  obtain ⟨e, he, hpub⟩ := h.entry
  cases a with
  | offer pubIdx payload =>
      simp only [pubAction]
      split_ifs with hi
      · subst hi
        have hrotates := hclear rfl e he
        have he' : (s.agent.step (.offer pubIdx payload)).publications[pubIdx]? =
            some { e with publication := (e.publication.offer payload).1 } :=
          (List.getElem?_modify_eq ..).trans (congrArg _ he)
        rw [hpub] at hrotates
        refine ⟨h.idle rfl he' ?_, hrotates, trivial⟩
        rw [hpub]
        rfl
      · exact ⟨h.idle rfl ((List.getElem?_modify_ne _ _ hi).trans he) hpub, trivial⟩
  | statusMessage sm =>
      exact ⟨h.idle rfl (SenderAgent.statusMessage_getElem? he sm)
        ((e.onStatusMessage_publication sm).trans hpub), trivial⟩
  | doSend nowNs =>
      refine ⟨h.doSend hcovered, ?_⟩
      simp only [pubAction, he]
      split_ifs
      · exact ⟨trivial, trivial⟩
      · trivial
  | poller p => exact ⟨h.idle rfl he hpub, trivial⟩

/-- **Run.** -/
theorem run {bs : List SenderAction} (h : Mirrors i s r)
    (hclear : Meets (OffersClear i) SenderRun.step s bs)
    (hcovered : Meets (Covered i) SenderRun.step s bs) :
    Mirrors i (Runs.run SenderRun.step s bs) (Runs.run PubRun.step r (s.pubActions i bs)) ∧
      Meets PubRun.RotatesClear PubRun.step r (s.pubActions i bs) := by
  induction bs generalizing s r with
  | nil => exact ⟨h, trivial⟩
  | cons b bs ih =>
      obtain ⟨hnext, hmeets⟩ := h.step hclear.1 hcovered.1
      obtain ⟨hlast, hrest⟩ := ih hnext hclear.2 hcovered.2
      unfold pubActions
      rw [run_cons, run_append, meets_append]
      exact ⟨hlast, hmeets, hrest⟩

end Mirrors

theorem Makes.mirrors {agent : SenderAgent} {i : Nat} {p : Publication} {bs : List SenderAction}
    {as : List PubAction} (h : Makes agent i p bs as) :
    Mirrors i (run step (start agent) bs) (run PubRun.step (PubRun.start p) as) ∧
      Meets PubRun.RotatesClear PubRun.step (PubRun.start p) as := by
  rw [← h.calls]
  refine Mirrors.run ⟨h.initial.inv, h.entry, fun f hf => ?_⟩ h.clear h.covered
  cases hf

theorem Makes.inv {crossThread : Bool} {sessionId streamId initialTermId : BitVec 32}
    {termLength mtu : Nat} {agent : SenderAgent} {i : Nat} {p : Publication}
    {bs : List SenderAction} {as : List PubAction} (h : Makes agent i p bs as)
    (hnew : Publication.create crossThread sessionId streamId initialTermId termLength mtu = some p)
    (hpaced : Meets PubRun.Paced PubRun.step (PubRun.start p) as) :
    (run PubRun.step (PubRun.start p) as).Inv ⟨initialTermId, sessionId, streamId, termLength⟩ :=
  @run_invariant _ _ _ _ (PubRun.Inv _) (fun _ _ hs ha => PubRun.inv_step hs ⟨ha.1.1, ha.2⟩) _
    (PubRun.inv_start hnew) as (meets_and hpaced h.mirrors.2)

end SenderRun

/-- **Only what was sent before is sent again**, exactly when the request finds only that; and what it
then repeats was on the wire: an agent that makes these calls, with rotations clear of the sender and
send slots that cover its scans, has sent each of these frames. For every publication of either kind,
after every run of offers and of scans within what is published, whose frames and term count stay below
`2 ^ 31`, and every request for the start of a frame, data or pad. -/
theorem resends_only_sent_iff {crossThread : Bool} {sessionId streamId initialTermId : BitVec 32}
    {termLength mtu : Nat} {p : Publication}
    (hnew : Publication.create crossThread sessionId streamId initialTermId termLength mtu = some p)
    (as : List PubAction) (hpaced : Meets PubRun.Paced PubRun.step (PubRun.start p) as)
    {s : SenderAgent} {req : RetransmitRequest} {e : PublicationEntry} {pubIdx : Nat}
    {ep : SendChannelEndpoint}
    (hfind : s.findPublication req.sessionId req.streamId = some (e, pubIdx))
    (hpub : e.publication = (run PubRun.step (PubRun.start p) as).publication)
    (hep : s.endpoints[e.endpointIdx]? = some ep) {q : Nat}
    (hq : q ∈ (PubRun.start p).frameStarts as)
    (hat : req.StartsAt ⟨initialTermId, sessionId, streamId, termLength⟩ q) :
    (s.ResendsOnlySent e.publication.toNetwork req ↔
        (run PubRun.step (PubRun.start p) as).FindsOnlySent e req) ∧
      (s.ResendsOnlySent e.publication.toNetwork req →
        ∀ agent i bs, SenderRun.Makes agent i p bs as → ∀ f ∈ s.resent req,
          .data f.2 ∈ (run SenderRun.step (.start agent) bs).emissions i) := by
  obtain ⟨rs, n, hlog, hplaced, hstarts⟩ := (PubRun.logged_start hnew).run_paced
    (PubRun.placed_start hnew) hpaced
  obtain ⟨first, hfirst, rfl⟩ := hstarts q hq
  rw [List.nil_append] at hlog
  have hmirrors := fun agent i bs (hmakes : SenderRun.Makes agent i p bs as) => hmakes.mirrors.1
  have hinv := fun agent i bs (hmakes : SenderRun.Makes agent i p bs as) => hmakes.inv hnew hpaced
  generalize run PubRun.step (PubRun.start p) as = r at hlog hplaced hpub hmirrors hinv
  have hrec : PubRun.AtRecord _ r rs n e req first := ⟨hlog, by rw [hpub]; rfl, hfirst, hat⟩
  have hresent := s.resent_of_find hfind hep
  rw [SenderAgent.ResendsOnlySent, hresent, List.forall_mem_map]
  refine ⟨hrec.findsOnlySent_iff hplaced, fun hall agent i bs hmakes => ?_⟩
  rw [List.forall_mem_map]
  intro f hf
  exact (hmirrors agent i bs hmakes).emitted _
    (hrec.mem_emitted hplaced (hinv agent i bs hmakes) hall f hf)

/-- Terms of 128 bytes: two 64-byte frames fill term 0 and are sent. A 64-byte frame opens term 1 and
is sent; the next, of 96 bytes, does not fit, so that a pad covers the rest, which the scan passes. A
frame opens term 2, not sent yet. -/
def PubRun.padded : List PubAction :=
  [.offer (List.replicate 32 1), .offer (List.replicate 32 2), .scan 128,
    .offer (List.replicate 32 3), .offer (List.replicate 32 3), .offer (List.replicate 64 4),
    .offer (List.replicate 64 4), .scan 64, .scan 64]

/-- The same offers to the one new publication, in cycles of its agent. A status message lets the
second cycle read up to the end of term 1. -/
def SenderRun.paddedCycles : List SenderAction :=
  [.offer 0 (List.replicate 32 1), .offer 0 (List.replicate 32 2), .doSend 1000,
    .offer 0 (List.replicate 32 3), .offer 0 (List.replicate 32 3), .offer 0 (List.replicate 64 4),
    .offer 0 (List.replicate 64 4),
    .statusMessage ⟨⟨BitVec.ofNat 32 smTotalLength, currentVersion, 0, frameTypeSm⟩, 7, 1, 5, 0, 256,
      1⟩, .doSend 1001]

/-- There, a request for the first term is answered with its two frames, which were on the wire. -/
theorem resends_only_sent_padded :
    let as := (SenderRun.start .oneNewPublication).pubActions 0 SenderRun.paddedCycles
    let sent := run SenderRun.step (.start .oneNewPublication) SenderRun.paddedCycles
    let r := run PubRun.step (PubRun.start ((Publication.create false 7 1 5 128 1408).get rfl)) as
    let s := SenderAgent.ofPublication r.publication
    as.length = 8 ∧ s.ResendsOnlySent r.network ⟨7, 1, 5, 0, 128⟩ ∧
      (s.resent ⟨7, 1, 5, 0, 128⟩).length = 2 ∧
      ∀ f ∈ s.resent ⟨7, 1, 5, 0, 128⟩, .data f.2 ∈ sent.emissions 0 := by
  have h := resends_only_sent_iff (Option.some_get (rfl :
    (Publication.create false 7 1 5 128 1408).isSome = true)).symm
    ((SenderRun.start .oneNewPublication).pubActions 0 SenderRun.paddedCycles) (by decide +kernel)
    (SenderAgent.findPublication_ofPublication (by decide +kernel) (by decide +kernel)) rfl rfl
    (show 0 ∈ _ by decide +kernel)
    (show RetransmitRequest.StartsAt ⟨7, 1, 5, 0, 128⟩ ⟨5, 7, 1, 128⟩ 0 by decide +kernel)
  have hsent := h.1.mpr (by decide +kernel)
  exact ⟨by decide +kernel, hsent, by decide +kernel, h.2 hsent .oneNewPublication 0
    SenderRun.paddedCycles ⟨SenderAgent.oneNewPublication_initial, ⟨_, rfl, rfl⟩, by decide +kernel,
      by decide +kernel, rfl⟩⟩

/-- **A pad, and a frame that was never sent.** With the sender at position 256 and 352 bytes
published, a request for the pad at offset 64 of term 1, which is where a receiver sees a gap, is
answered with the pad; one for the first frame of term 2 with a frame that `do_send` has not sent. -/
theorem retransmit_unsent :
    let p := (Publication.create false 7 1 0 128 1408).get rfl
    let r := run PubRun.step (PubRun.start p) PubRun.padded
    let s := SenderAgent.ofPublication r.publication
    Meets PubRun.Clear PubRun.step (PubRun.start p) PubRun.padded ∧
      r.network.senderPosition = 256 ∧ r.network.pubPosition = 352 ∧
      (PubRun.start p).frameStarts PubRun.padded = [0, 64, 128, 192, 256] ∧
      (s.resent ⟨7, 1, 1, 64, 64⟩).map (fun f => (r.network.positionAt f.1, frameTypeOf f.2)) =
        [(192, frameTypePad)] ∧
      (s.resent ⟨7, 1, 2, 0, 96⟩).map (fun f => (r.network.positionAt f.1, frameTypeOf f.2)) =
        [(256, frameTypeData)] ∧
      ¬ s.ResendsOnlySent r.network ⟨7, 1, 1, 64, 64⟩ ∧
      ¬ s.ResendsOnlySent r.network ⟨7, 1, 2, 0, 96⟩ := by
  decide +kernel

end AeronRs
