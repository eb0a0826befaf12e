import AeronRs.Media.PublicationInvariant

/-! # Runs of a publication

Interleavings of offers and sender scans on a publication of either kind. The trace keeps what the
offers returned and what the scans emitted.

The back-pressure guard of `offer` compares the published position with the sender's, but a rotation
moves the write cursor past the published position. `rotation_zeroes_unsent` is a run in which the
guard lets an offer rotate into the partition that the sender is still reading. `unsent_data_kept`
is what holds when every rotation finds the sender within two terms of the active one. -/

namespace AeronRs

open Runs

/-- A call on a publication. -/
inductive PubAction
  | offer (payload : List UInt8)
  | scan (limit : Nat)
  deriving DecidableEq

/-- A publication with the positions and payloads of its successful offers, and the frames that its
scans have emitted, each at the stream position where the scan read it. -/
structure PubRun where
  publication : Publication
  accepted : List (Int × List UInt8)
  emitted : List (Int × List UInt8)

namespace PubRun

def start (publication : Publication) : PubRun := ⟨publication, [], []⟩

def network (s : PubRun) : NetworkPublication := s.publication.toNetwork

/-- What an offer adds to the trace: its position and payload, if it was accepted. -/
def acceptance (payload : List UInt8) : Except OfferError Int → List (Int × List UInt8)
  | .ok position => [(position, payload)]
  | .error _ => []

def step (s : PubRun) : PubAction → PubRun
  | .offer payload =>
      { s with
        publication := (s.publication.offer payload).1
        accepted := s.accepted ++ acceptance payload (s.publication.offer payload).2 }
  | .scan limit =>
      let termStart := s.network.senderPosition - s.network.senderTermOffset
      { s with
        publication := (s.publication.senderScan limit).1
        emitted := s.emitted ++
          (s.publication.senderScan limit).2.1.map fun f => (termStart + f.1, f.2) }

/-- The scans of `do_send`: the limit is at most what is published and not sent. -/
def ScanWithinPublished (s : PubRun) : PubAction → Prop
  | .offer _ => True
  | .scan limit => (limit : Int) ≤ s.network.pubPosition - s.network.senderPosition

instance (s : PubRun) : (a : PubAction) → Decidable (s.ScanWithinPublished a)
  | .offer _ => isTrue trivial
  | .scan limit => inferInstanceAs (Decidable ((limit : Int) ≤ _))

/-- An admitted offer has a frame of less than `2 ^ 31` bytes, and one that rotates finds the sender
within two terms of the active term, which is not the last that a 32-bit term count can number. -/
def RotatesClear (s : PubRun) : PubAction → Prop
  | .offer payload =>
      (s.network.Admits payload → alignFrameLength (32 + payload.length) < 2 ^ 31) ∧
        (s.network.Rotates payload → s.network.termCount + 1 < 2 ^ 31 ∧
          (s.network.termCount * s.network.termLength : Int) ≤
            s.network.senderPosition + 2 * s.network.termLength)
  | .scan _ => True

instance (s : PubRun) : (a : PubAction) → Decidable (s.RotatesClear a)
  | .offer _ => inferInstanceAs (Decidable ((_ → _) ∧ (_ → _ ∧ _)))
  | .scan _ => isTrue trivial

def Clear (s : PubRun) (a : PubAction) : Prop := s.ScanWithinPublished a ∧ s.RotatesClear a

instance (s : PubRun) (a : PubAction) : Decidable (s.Clear a) :=
  inferInstanceAs (Decidable (_ ∧ _))

/-- **No unsent byte changes.** The call leaves every byte between the sender's and the published
position as it was. -/
def KeepsUnsent (s : PubRun) (a : PubAction) : Prop :=
  ∀ q : Nat, s.network.senderPosition ≤ q → (q : Int) < s.network.pubPosition →
    (s.step a).network.byteAt q = s.network.byteAt q

/-- The frames that are not pads: what the sender transmits. -/
def dataFrames (frames : List (Int × List UInt8)) : List (Int × List UInt8) :=
  frames.filter fun f => frameTypeOf f.2 != frameTypePad

/-- The frame of an accepted offer, given the position that the offer returned: it starts one
aligned frame before it and carries the term and the offset of that start. -/
def frameOf (ids : StreamIds) (offered : Int × List UInt8) : Int × List UInt8 :=
  let start := offered.1 - alignFrameLength (32 + offered.2.length)
  (start, (LogRecord.data start.toNat offered.2).frame ids)

/-- What an offer that wrote a record returned. -/
def acceptedOf : LogRecord → Option (Int × List UInt8)
  | .data start payload => some (start + alignFrameLength (32 + payload.length), payload)
  | .pad _ _ => none

/-- The run invariant: the publication holds a stream log whose sent records are what was emitted
and whose data records are what was accepted. -/
def Inv (ids : StreamIds) (s : PubRun) : Prop :=
  s.network.ids = ids ∧ ∃ l n b e, Represents s.network l n b e ∧
    s.emitted = l.sent.map (fun r => ((r.start : Int), r.frame ids)) ∧
    s.accepted = (l.sent ++ l.pending).filterMap acceptedOf

/-! ## What a step does, through the local publication -/

theorem step_offer (s : PubRun) (payload : List UInt8) :
    (s.step (.offer payload)).network = (s.network.offer payload).1 ∧
      (s.step (.offer payload)).emitted = s.emitted ∧
      (s.step (.offer payload)).accepted =
        s.accepted ++ acceptance payload (s.network.offer payload).2 := by
  have hoffer : _ = s.network.offer payload := s.publication.toNetwork_offer payload
  rw [← hoffer]
  exact ⟨rfl, rfl, rfl⟩

theorem step_scan (s : PubRun) (limit : Nat) :
    (s.step (.scan limit)).network = (s.network.senderScan limit).1 ∧
      (s.step (.scan limit)).accepted = s.accepted ∧
      (s.step (.scan limit)).emitted = s.emitted ++ (s.network.senderScan limit).2.1.map
        fun f => (s.network.senderPosition - s.network.senderTermOffset + f.1, f.2) := by
  have hscan := s.publication.toNetwork_senderScan limit
  have h₁ := congrArg Prod.fst hscan
  have h₂ : _ = (s.network.senderScan limit).2 := congrArg Prod.snd hscan
  refine ⟨h₁, rfl, ?_⟩
  rw [← h₂]
  rfl

/-- **An offer that rotates clear leaves every unsent byte alone.** -/
theorem keepsUnsent_offer {ids : StreamIds} {s : PubRun} (h : s.Inv ids) {payload : List UInt8}
    (hclear : s.RotatesClear (.offer payload)) : s.KeepsUnsent (.offer payload) := by
  obtain ⟨-, l, n, b, e, hrep, -, -⟩ := h
  intro q hlo hhi
  rw [hrep.sender] at hlo
  rw [hrep.pub] at hhi
  have hle := hrep.le
  have hoff := hrep.offset_le
  rw [(s.step_offer payload).1]
  rcases s.network.offer_cases payload with ⟨-, heq, -⟩ | ⟨hadmits, hfit, heq⟩ | ⟨hrot, heq⟩
  · rw [heq]
  · rw [heq]
    have hwin := hrep.window
    exact hrep.atCursor.append_byteAt (hclear.1 hadmits) hfit hadmits (by omega) (by omega)
      (Or.inl (by omega))
  · obtain ⟨-, hsender⟩ := hclear.2 hrot
    rw [hrep.atCursor.termCount_eq, hrep.sender] at hsender
    rw [heq, hrep.atCursor.padAndRotate_byteAt (by omega) (by omega),
      padded_of_outside (by omega) (by omega) (Or.inl (by omega)) hrep.offset_dvd]

theorem inv_start {crossThread : Bool} {sessionId streamId initialTermId : BitVec 32}
    {termLength mtu : Nat} {p : Publication}
    (h : Publication.create crossThread sessionId streamId initialTermId termLength mtu = some p) :
    (start p).Inv ⟨initialTermId, sessionId, streamId, termLength⟩ := by
  have hnew := Publication.toNetwork_create h
  refine ⟨?_, ⟨[], [], []⟩, 0, 0, 0, represents_new hnew, rfl, rfl⟩
  show p.toNetwork.ids = _
  unfold NetworkPublication.new RawLog.new at hnew
  split_ifs at hnew
  · rw [← Option.some.inj hnew]
    rfl
  · simp at hnew

end PubRun

/-- What an append adds to the trace is what its record stands for. -/
theorem AtCursor.acceptance_append {p : NetworkPublication} {n : Nat} {payload : List UInt8}
    (h : AtCursor p n) (hsize : alignFrameLength (32 + payload.length) < 2 ^ 31) :
    PubRun.acceptance payload (.ok (p.append payload).pubPosition) =
      [LogRecord.data (n * p.termLength + p.termOffset) payload].filterMap PubRun.acceptedOf := by
  rw [PubRun.acceptance, h.append_pubPosition hsize]
  rfl

namespace PubRun

theorem filterMap_acceptedOf_padRecords (p : NetworkPublication) (n : Nat) :
    (padRecords p n).filterMap acceptedOf = [] := by
  unfold padRecords
  split_ifs <;> rfl

/-- **What an offer adds to the stream**: the record of the frame, if it is accepted, the pad that
covers the rest of the term, if it rotates, and nothing otherwise. -/
structure Offered (p : NetworkPublication) (payload : List UInt8) (l l' : StreamLog) (n : Nat)
    (new : List LogRecord) : Prop where
  ids : (p.offer payload).1.ids = p.ids
  sent : l'.sent = l.sent
  unsent : l'.pending ++ l'.tail = l.pending ++ l.tail ++ new
  after : ∀ r ∈ new, n * p.termLength + p.termOffset ≤ r.start
  pads : ∀ r ∈ new, r.isData = false → p.Rotates payload ∧
    r.start % p.termLength = p.termOffset ∧ r.length = p.termLength - p.termOffset
  accepted : acceptance payload (p.offer payload).2 = new.filterMap acceptedOf

/-- **An offer** that rotates clear of the sender keeps the stream. -/
theorem represents_offer {p : NetworkPublication} {l : StreamLog} {n b e : Nat}
    {payload : List UInt8} (h : Represents p l n b e)
    (hsize : p.Admits payload → alignFrameLength (32 + payload.length) < 2 ^ 31)
    (hclear : p.Rotates payload → p.termCount + 1 < 2 ^ 31 ∧
      (p.termCount * p.termLength : Int) ≤ p.senderPosition + 2 * p.termLength) :
    ∃ l' n' e' new, Represents (p.offer payload).1 l' n' b e' ∧ Offered p payload l l' n new := by
  -- refused, appended, or at the end of the term
  rcases p.offer_cases payload with ⟨-, heq, err, herr⟩ | ⟨hadmits, hfit, heq⟩ | ⟨hrot, heq⟩
  · refine ⟨l, n, e, [], by rwa [heq], by rw [heq], rfl, by simp, by simp, by simp, ?_⟩
    rw [herr]
    rfl
  · have happ := h.append (hsize hadmits) hfit hadmits
    refine ⟨_, n, _, [.data (n * p.termLength + p.termOffset) payload], by rw [heq]; exact happ, ?_⟩
    refine ⟨by rw [heq]; rfl, rfl, by simp, ?_, ?_, ?_⟩
    · rintro r hr
      obtain rfl := List.mem_singleton.mp hr
      exact Nat.le_refl _
    · intro r hr hpad
      obtain rfl := List.mem_singleton.mp hr
      cases hpad
    · rw [heq, h.atCursor.acceptance_append (hsize hadmits)]
  · obtain ⟨hcount, hsender⟩ := hclear hrot
    rw [h.atCursor.termCount_eq] at hcount hsender
    rw [h.sender] at hsender
    -- the record did not fit, so the rest of the term is shorter than it
    have hover := hrot.2
    rw [h.atCursor.offsetAfter_eq (hsize hrot.1)] at hover
    have hsize' := hsize hrot.1
    have hnext := h.padAndRotate hcount (by exact_mod_cast hsender) (by omega)
    refine ⟨_, n + 1, e, padRecords p n, by rw [heq]; exact hnext, ?_⟩
    refine ⟨by rw [heq]; exact p.padAndRotate_ids, rfl, (List.append_assoc ..).symm, ?_, ?_, ?_⟩
    · intro r hr
      unfold padRecords at hr
      split_ifs at hr
      · obtain rfl := List.mem_singleton.mp hr
        exact Nat.le_refl _
      · cases hr
    · intro r hr _
      unfold padRecords at hr
      split_ifs at hr with hroom
      · obtain rfl := List.mem_singleton.mp hr
        refine ⟨hrot, (term_offset_of_lt n hroom).2, alignFrameLength_of_dvd ?_⟩
        exact Nat.dvd_sub p.rawLog.termLength_dvd h.offset_dvd
      · cases hr
    · rw [heq, filterMap_acceptedOf_padRecords]
      rfl

theorem filterMap_acceptedOf_tail {p : NetworkPublication} {l : StreamLog} {n b e : Nat}
    (h : Represents p l n b e) : l.tail.filterMap acceptedOf = [] := by
  rw [List.filterMap_eq_nil_iff]
  intro r hr
  have hpad := h.tail_pads r hr
  cases r with
  | data start payload => cases hpad
  | pad start len => rfl

/-- **Step.** An offer that rotates clear keeps the run invariant. -/
theorem inv_offer {ids : StreamIds} {s : PubRun} (h : s.Inv ids) {payload : List UInt8}
    (hclear : s.RotatesClear (.offer payload)) : (s.step (.offer payload)).Inv ids := by
  obtain ⟨hids, l, n, b, e, hrep, hem, hacc⟩ := h
  obtain ⟨hnet, hem', hacc'⟩ := s.step_offer payload
  obtain ⟨l', n', e', new, hrep', hoffered⟩ := represents_offer hrep hclear.1 hclear.2
  refine ⟨by rw [hnet, hoffered.ids, hids], l', n', b, e', by rwa [hnet],
    by rw [hem', hem, hoffered.sent], ?_⟩
  have hunsent := congrArg (List.filterMap acceptedOf) hoffered.unsent
  simp only [List.filterMap_append, filterMap_acceptedOf_tail hrep, filterMap_acceptedOf_tail hrep',
    List.append_nil] at hunsent
  rw [hacc', hacc, hoffered.accepted, List.filterMap_append, List.filterMap_append, hoffered.sent,
    hunsent, List.append_assoc]

/-- **Step.** A scan within what is published keeps the run invariant. -/
theorem inv_scan {ids : StreamIds} {s : PubRun} (h : s.Inv ids) {limit : Nat}
    (hlimit : s.ScanWithinPublished (.scan limit)) : (s.step (.scan limit)).Inv ids := by
  obtain ⟨hids, l, n, b, e, hrep, hem, hacc⟩ := h
  obtain ⟨hnet, hacc', hem'⟩ := s.step_scan limit
  have hlimit' : (limit : Int) ≤ s.network.pubPosition - s.network.senderPosition := hlimit
  rw [hrep.pub, hrep.sender] at hlimit'
  obtain ⟨taken, rest, hpending, hterm, hframes, hrep'⟩ :=
    hrep.senderScan (show limit ≤ e - b by omega)
  have hoff := (NetworkPublication.senderScan_eq hrep.sender limit).1
  refine ⟨by rw [hnet]; exact hids, _, n, _, e, by rw [hnet]; exact hrep', ?_, ?_⟩
  · rw [hem', hem, hframes, List.map_append, List.map_map, hids]
    congr 1
    refine List.map_congr_left fun r hr => ?_
    -- the offset within the sender's term is the record's own offset
    have hstart : r.start = b / s.network.termLength * s.network.termLength
        + r.start % s.network.termLength := by
      rw [← hterm r hr, Nat.div_add_mod']
    have hb := Nat.div_add_mod' b s.network.termLength
    simp only [Function.comp_apply, hrep.sender, hoff, Prod.mk.injEq, and_true]
    omega
  · rw [hacc', hacc, hpending, List.append_assoc]

/-- **Step.** -/
theorem inv_step {ids : StreamIds} {s : PubRun} (h : s.Inv ids) {a : PubAction}
    (hclear : s.Clear a) : (s.step a).Inv ids := by
  cases a with
  | offer payload => exact inv_offer h hclear.2
  | scan limit => exact inv_scan h hclear.1

/-- **Run.** -/
theorem inv_run {ids : StreamIds} {s : PubRun} (h : s.Inv ids) {as : List PubAction}
    (hclear : Meets Clear step s as) : (run step s as).Inv ids :=
  @run_invariant _ _ Clear step (Inv ids) (fun _ _ hs ha => inv_step hs ha) s h as hclear

theorem Inv.dataFrames_eq {ids : StreamIds} {s : PubRun} (h : s.Inv ids) :
    ∃ k, dataFrames s.emitted = (s.accepted.take k).map (frameOf ids) := by
  obtain ⟨-, l, n, b, e, -, hem, hacc⟩ := h
  refine ⟨(l.sent.filterMap acceptedOf).length, ?_⟩
  rw [hacc, List.filterMap_append, List.take_left' rfl, hem]
  -- record by record: a data frame for each accepted offer, none for a pad
  generalize l.sent = rs
  induction rs with
  | nil => rfl
  | cons r rs ih =>
      have htype := r.frameTypeOf_frame ids
      cases r with
      | data start payload =>
          have hstart : ((start : Int) + alignFrameLength (32 + payload.length)
              - alignFrameLength (32 + payload.length)) = start := by omega
          have hkeep : (frameTypeOf ((LogRecord.data start payload).frame ids) != frameTypePad)
              = true := by
            rw [htype]
            rfl
          simp only [dataFrames, List.map_cons, List.filter_cons, hkeep, if_true,
            List.filterMap_cons, acceptedOf, frameOf, hstart, Int.toNat_natCast]
          exact congrArg _ ih
      | pad start len =>
          have hskip : (frameTypeOf ((LogRecord.pad start len).frame ids) != frameTypePad)
              = false := by
            rw [htype]
            rfl
          simp only [dataFrames, List.map_cons, List.filter_cons, hskip, Bool.false_eq_true,
            if_false, List.filterMap_cons, acceptedOf]
          exact ih

/-- **No published data is destroyed before it is sent**, in every run on a publication of either
kind whose scans stay within what is published and whose rotations find the sender within two terms
of the active one: no offer changes an unsent byte, and the data frames emitted are the frames of
the first accepted offers, in order, each with the term and the offset of its own position. -/
theorem unsent_data_kept {crossThread : Bool} {sessionId streamId initialTermId : BitVec 32}
    {termLength mtu : Nat} {p : Publication}
    (hnew : Publication.create crossThread sessionId streamId initialTermId termLength mtu = some p)
    (as : List PubAction) (hclear : Meets Clear step (start p) as) :
    (∀ pre payload post, as = pre ++ .offer payload :: post →
      (run step (start p) pre).KeepsUnsent (.offer payload)) ∧
    ∃ k, dataFrames (run step (start p) as).emitted =
      ((run step (start p) as).accepted.take k).map
        (frameOf ⟨initialTermId, sessionId, streamId, termLength⟩) := by
  have hstart := inv_start hnew
  constructor
  · rintro pre payload post rfl
    obtain ⟨hpre, hoffer, -⟩ := meets_append.mp hclear
    exact keepsUnsent_offer (inv_run hstart hpre) hoffer.2
  · exact (inv_run hstart hclear).dataFrames_eq

/-- Frames of 96 bytes in terms of 128: each second offer rotates, and the sender keeps up. -/
def keepingUp : List PubAction :=
  [.offer (List.replicate 64 1), .offer (List.replicate 64 2), .scan 96,
    .offer (List.replicate 64 2), .scan 128, .offer (List.replicate 64 3),
    .offer (List.replicate 64 3), .scan 96]

theorem unsent_data_kept_keepingUp :
    Meets Clear step (start ((Publication.create false 7 1 5 128 1408).get rfl)) keepingUp ∧
    ∃ k, dataFrames (run step (start ((Publication.create false 7 1 5 128 1408).get rfl))
      keepingUp).emitted =
      ((run step (start ((Publication.create false 7 1 5 128 1408).get rfl))
        keepingUp).accepted.take k).map (frameOf ⟨5, 7, 1, 128⟩) := by
  have hclear : Meets Clear step (start ((Publication.create false 7 1 5 128 1408).get rfl))
      keepingUp := by
    decide +kernel
  exact ⟨hclear, (unsent_data_kept (Option.some_get _).symm _ hclear).2⟩

/-- **A rotation zeroes unsent data.** In terms of 128 bytes, two 64-byte frames fill term 0 and the
sender takes the first; 128-byte frames fill terms 1 and 2 and a 32-byte frame opens term 3. The
published position 416 is less than three terms ahead of the sender's 64, so the guard admits one
more 128-byte frame. It does not fit term 3, and the rotation to term 4 zeroes partition 0, where
the frame at position 64 was published and never sent. -/
theorem rotation_zeroes_unsent :
    ∃ p, Publication.create false 7 1 0 128 1408 = some p ∧
      ∃ pre : List PubAction, ∃ payload : List UInt8,
        Meets ScanWithinPublished step (start p) (pre ++ [.offer payload]) ∧
        (run step (start p) pre).network.senderPosition = 64 ∧
        (run step (start p) pre).network.pubPosition = 416 ∧
        (run step (start p) pre).network.byteAt 64 = 64 ∧
        (run step (start p) (pre ++ [.offer payload])).network.byteAt 64 = 0 ∧
        ¬ (run step (start p) pre).KeepsUnsent (.offer payload) := by
  refine ⟨(Publication.create false 7 1 0 128 1408).get rfl, (Option.some_get _).symm,
    [.offer (List.replicate 32 1), .offer (List.replicate 32 2), .scan 64,
      .offer (List.replicate 96 3), .offer (List.replicate 96 3), .offer (List.replicate 96 4),
      .offer (List.replicate 96 4), .offer [], .offer []],
    List.replicate 96 5, by decide +kernel, by decide +kernel, by decide +kernel,
    by decide +kernel, by decide +kernel, fun hkeeps => ?_⟩
  exact absurd (hkeeps 64 (by decide +kernel) (by decide +kernel)) (by decide +kernel)

end PubRun

end AeronRs
