import AeronRs.Media.PublicationRun
import AeronRs.Lib.LineScan

/-! # What the log still holds

A publication keeps its records for longer than the sender needs them: the partitions hold the active
term and the three before it, wherever the sender is. **`Published`** says so, and every call keeps
it, also a rotation that overtakes the sender. From it follows what a scan from any record of the
last four terms reads (`Published.scanFrames_eq`): the records of that term from there on. -/

namespace AeronRs

open Runs

/-! ## Cutting a tiling -/

/-- The stream position at which a record ends. -/
def LogRecord.stop (r : LogRecord) : Nat := r.start + r.length

namespace Tiles

variable {T a b : Nat} {rs : List LogRecord}

/-- The records of a tiling end before the next ones start. -/
theorem pairwise (h : Tiles T a rs b) : rs.Pairwise fun r r' => r.stop ≤ r'.start := by
  induction rs generalizing a with
  | nil => exact List.Pairwise.nil
  | cons r rs ih =>
      obtain ⟨hstart, -, hrest⟩ := h
      refine List.Pairwise.cons (fun r' hr' => ?_) (ih hrest)
      have := (hrest.mem hr').2.1
      rw [LogRecord.stop]
      omega

theorem between_start (h : Tiles T a rs b) {r : LogRecord} (hr : r ∈ rs) :
    Between LogRecord.start LogRecord.stop rs r.start := by
  intro r' hr'
  have hlen := (h.mem hr).1.length_pos
  have hlen' := (h.mem hr').1.length_pos
  rcases apart_of_pairwise h.pairwise r hr r' hr' with rfl | hle | hle
  · exact .inr (Nat.le_refl _)
  · rw [LogRecord.stop] at hle
    exact .inr (by omega)
  · exact .inl hle

/-- **Cutting** at a position that is inside no record: the records from there on tile the rest. -/
theorem drop_before (h : Tiles T a rs b) {q : Nat} (ha : a ≤ q) (hb : q ≤ b)
    (hq : Between LogRecord.start LogRecord.stop rs q) :
    Tiles T q (rs.filter fun r => q ≤ r.start) b := by
  induction rs generalizing a with
  | nil =>
      have : a = b := h
      rw [List.filter_nil, tiles_nil]
      omega
  | cons r rs ih =>
      obtain ⟨hstart, hfits, hrest⟩ := h
      have hcut := hq r List.mem_cons_self
      rw [LogRecord.stop] at hcut
      have hlen := hfits.length_pos
      by_cases hr : q ≤ r.start
      · obtain rfl : q = a := by omega
        have hall : ∀ r' ∈ rs, q ≤ r'.start := fun r' hr' => by
          have := (hrest.mem hr').2.1
          omega
        rw [List.filter_cons_of_pos (by simpa using hr),
          List.filter_eq_self.mpr fun r' hr' => by simpa using hall r' hr']
        exact ⟨hstart, hfits, hrest⟩
      · rw [List.filter_cons_of_neg (by simpa using hr)]
        exact ih hrest (by omega) (hq.mono (List.subset_cons_self r rs))

/-- The records before a position tile up to some end. -/
theorem filter_lt (h : Tiles T a rs b) (q : Nat) :
    ∃ c, Tiles T a (rs.filter fun r => r.start < q) c := by
  induction rs generalizing a with
  | nil => exact ⟨a, rfl⟩
  | cons r rs ih =>
      obtain ⟨hstart, hfits, hrest⟩ := h
      by_cases hr : r.start < q
      · obtain ⟨c, hc⟩ := ih hrest
        rw [List.filter_cons_of_pos (by simpa using hr)]
        exact ⟨c, hstart, hfits, hc⟩
      · refine ⟨a, ?_⟩
        rw [List.filter_eq_nil_iff.mpr, tiles_nil]
        intro r' hr'
        rcases List.mem_cons.mp hr' with rfl | hmem
        · simpa using hr
        · have := (hrest.mem hmem).2.1
          simp only [decide_eq_true_eq]
          omega

end Tiles

/-- **Walking stored records.** From offset `o` of term `k`, the committed frames are those of the
records that start in the term, if the records reach the end of the term or nothing is committed
behind them. -/
theorem walk_stored {ids : StreamIds} {m : ByteStore} {k o fuel e : Nat} {rs : List LogRecord}
    (htiles : Tiles ids.termLength (k * ids.termLength + o) rs e)
    (hstored : ∀ r ∈ rs, r.start < k * ids.termLength + ids.termLength → r.Stored ids m)
    (hend : k * ids.termLength + ids.termLength ≤ e ∨
      frameAt m (k % 4 * ids.termLength) ids.termLength (e - k * ids.termLength) = none)
    (hfuel : ids.termLength - o ≤ fuel) :
    walk m (k % 4 * ids.termLength) ids.termLength fuel o =
      (rs.filter fun r => r.start < k * ids.termLength + ids.termLength).map
        fun r => (r.start % ids.termLength, r.frame ids) := by
  set T := ids.termLength with hT
  -- the walk reads one record a round, until the records or the term end
  induction rs generalizing o fuel with
  | nil =>
      have he : k * T + o = e := htiles
      cases fuel with
      | zero => rfl
      | succ fuel =>
          rw [walk]
          by_cases hoT : o < T
          · have hnone : frameAt m (k % 4 * T) T o = none := by
              rcases hend with hfull | hnone
              · omega
              · rwa [show e - k * T = o by omega] at hnone
            rw [if_pos hoT, hnone]
            rfl
          · rw [if_neg hoT]
            rfl
  | cons r rs ih =>
      by_cases hoT : o < T
      · obtain ⟨hstart, hfits, hrest⟩ := htiles
        obtain ⟨hdiv, hmod⟩ := term_offset_of_lt k hoT
        rw [← hstart] at hdiv hmod
        have hstored_r := hstored r List.mem_cons_self (by omega)
        have hframe := hstored_r.frameAt_eq hfits
        rw [← hT, hdiv, hmod] at hframe
        have hread : m.read (k % 4 * T + o) r.frameLength = r.frame ids := by
          rw [← hstored_r, slotOf, ← hT, hdiv, hmod]
        have hlen := hfits.length_pos
        obtain ⟨fuel, rfl⟩ : ∃ f, fuel = f + 1 := ⟨fuel - 1, by omega⟩
        have hnext : walk m (k % 4 * T) T fuel (o + r.length) = _ :=
          ih (by rwa [← Nat.add_assoc]) (fun r' hr' => hstored r' (List.mem_cons_of_mem r hr'))
            (by omega)
        rw [walk, if_pos hoT, hframe]
        simp only [LogRecord.length_eq, hnext]
        rw [List.filter_cons_of_pos (by simp; omega), List.map_cons, hread, hmod]
      · have hnone : (r :: rs).filter (fun r => decide (r.start < k * T + T)) = [] := by
          refine List.filter_eq_nil_iff.mpr fun r' hr' => ?_
          have := (htiles.mem hr').2.1
          simp only [decide_eq_true_eq]
          omega
        rw [hnone]
        cases fuel with
        | zero => rfl
        | succ fuel =>
            rw [walk, if_neg hoT]
            rfl

/-! ## The retained log -/

/-- **What is published.** The records up to the write cursor, in term `n`, with those of the last
four terms still in the partitions. A pad covers the rest of its term. -/
structure Published (p : NetworkPublication) (rs : List LogRecord) (n : Nat) : Prop where
  cursor : AtCursor p n
  tiles : Tiles p.termLength 0 rs (n * p.termLength + p.termOffset)
  stored : ∀ r ∈ rs, n * p.termLength ≤ r.start + 3 * p.termLength →
    r.Stored p.ids p.rawLog.buffer
  pads : ∀ r ∈ rs, r.isData = false → p.termLength ∣ r.stop
  mtu_ge : dataHeaderLength ≤ p.mtu

theorem NetworkPublication.mtu_ge_of_new {sessionId streamId initialTermId : BitVec 32}
    {termLength mtu : Nat} {p : NetworkPublication}
    (h : NetworkPublication.new sessionId streamId initialTermId termLength mtu = some p) :
    dataHeaderLength ≤ p.mtu := by
  unfold NetworkPublication.new at h
  split_ifs at h with hmtu
  obtain ⟨rawLog, -, rfl⟩ := Option.map_eq_some_iff.mp h
  exact Nat.not_lt.mp hmtu

theorem published_new {sessionId streamId initialTermId : BitVec 32} {termLength mtu : Nat}
    {p : NetworkPublication}
    (h : NetworkPublication.new sessionId streamId initialTermId termLength mtu = some p) :
    Published p [] 0 := by
  obtain ⟨hcursor, hoffset, -, -⟩ := atCursor_new h
  exact ⟨hcursor, by rw [tiles_nil, hoffset, Nat.zero_mul], by simp, by simp,
    NetworkPublication.mtu_ge_of_new h⟩

namespace Published

variable {p : NetworkPublication} {rs : List LogRecord} {n : Nat} {payload : List UInt8}

theorem append (h : Published p rs n) (hsize : alignFrameLength (32 + payload.length) < 2 ^ 31)
    (hfit : ¬ p.Rotates payload) (hadmits : p.Admits payload) :
    Published (p.append payload) (rs ++ [.data (n * p.termLength + p.termOffset) payload]) n := by
  obtain ⟨hroom, hfits⟩ := h.cursor.data_fits hsize hfit hadmits
  have hoff := h.cursor.offsetAfter_eq hsize
  have hle := h.cursor.offset_le
  refine ⟨h.cursor.append hsize hfit hadmits, ?_, fun r hr hlo => ?_, fun r hr hpad => ?_, h.mtu_ge⟩
  · refine tiles_append.mpr ⟨_, h.tiles, rfl, hfits, ?_⟩
    rw [tiles_nil, show (p.append payload).termOffset = _ from hoff, Nat.add_assoc]
    rfl
  · rw [p.append_termLength] at hlo
    rcases List.mem_append.mp hr with hold | hnew
    · obtain ⟨hf, -, hhi⟩ := h.tiles.mem hold
      exact (h.stored r hold hlo).congr hf fun q hq₁ hq₂ =>
        h.cursor.append_byteAt hsize hfit hadmits (by omega) (by omega) (Or.inl (by omega))
    · obtain rfl := List.mem_singleton.mp hnew
      exact h.cursor.append_stored hroom
  · rcases List.mem_append.mp hr with hold | hnew
    · exact h.pads r hold hpad
    · obtain rfl := List.mem_singleton.mp hnew
      cases hpad

/-- A rotation publishes the pad and gives up the term four before the new one. -/
theorem padAndRotate (h : Published p rs n) (hnext : n + 1 < 2 ^ 31)
    (hpad : p.termLength - p.termOffset < 2 ^ 31) :
    Published p.padAndRotate (rs ++ padRecords p n) (n + 1) := by
  have hsucc : (n + 1) * p.termLength = n * p.termLength + p.termLength := Nat.succ_mul _ _
  have htiles : Tiles p.termLength 0 (rs ++ padRecords p n) (n * p.termLength + p.termLength) :=
    tiles_append.mpr ⟨_, h.tiles, h.cursor.tiles_padRecords hpad⟩
  refine ⟨h.cursor.padAndRotate hnext, ?_, fun r hr hlo => ?_, fun r hr hdata => ?_, h.mtu_ge⟩
  · rw [p.padAndRotate_termLength, hsucc]
    exact htiles
  · rw [p.padAndRotate_termLength, hsucc] at hlo
    obtain ⟨hf, -, hhi⟩ := htiles.mem hr
    refine h.cursor.padAndRotate_stored hf ?_ (by omega) hhi
    rcases List.mem_append.mp hr with hold | hnew
    · exact .inr ⟨h.stored r hold (by omega), (h.tiles.mem hold).2.2⟩
    · exact .inl hnew
  · rw [p.padAndRotate_termLength]
    rcases List.mem_append.mp hr with hold | hnew
    · exact h.pads r hold hdata
    · -- the pad alone tiles the rest of the term
      have hrest := h.cursor.tiles_padRecords hpad
      unfold padRecords at hrest hnew
      split_ifs at hrest hnew
      · obtain rfl := List.mem_singleton.mp hnew
        obtain ⟨hstart, -, hstop⟩ := hrest
        rw [LogRecord.stop, hstart, show _ + _ = _ from hstop, ← hsucc]
        exact Nat.dvd_mul_left _ _
      · cases hnew

theorem senderScan (h : Published p rs n) (limit : Nat) : Published (p.senderScan limit).1 rs n :=
  ⟨⟨h.cursor.termCount_lt, h.cursor.active, h.cursor.offset_le, h.cursor.offset_dvd, h.cursor.zero⟩,
    h.tiles, h.stored, h.pads, h.mtu_ge⟩

/-- Nothing is committed behind the write cursor of its term. -/
theorem frameAt_cursor (h : Published p rs n) (hroom : p.termOffset < p.termLength) :
    frameAt p.rawLog.buffer (n % 4 * p.termLength) p.termLength p.termOffset = none := by
  have hT : 32 ∣ p.termLength := p.rawLog.termLength_dvd
  have hoff := h.cursor.offset_dvd
  have hword : p.rawLog.buffer.readI32 (n % 4 * p.termLength + p.termOffset) = 0 := by
    refine readI32_eq_zero fun i hi => ?_
    rw [Nat.add_assoc, ← slotOf_term 4 _ n (show p.termOffset + i < p.termLength by omega)]
    exact h.cursor.zero _ (by omega) (by omega)
  have hpositive : (p.rawLog.buffer.readI32 (n % 4 * p.termLength + p.termOffset)).toInt ≤ 0 := by
    rw [hword]
    decide
  unfold frameAt
  dsimp only
  rw [if_neg (by omega), if_pos hpositive]

/-- **Scanning what is still held.** From a position of the last four terms that is inside no record,
a scan reads the records of that term which start less than its limit behind it. -/
theorem scanFrames_eq (h : Published p rs n) {t o : Nat} (hn : t ≤ n) (hheld : n < t + 4)
    (hle : t * p.termLength + o ≤ n * p.termLength + p.termOffset)
    (hq : Between LogRecord.start LogRecord.stop rs (t * p.termLength + o)) (limit : Nat) :
    (p.rawLog.scanFrames (t % 4) o limit).1 =
      (rs.filter fun r => t * p.termLength + o ≤ r.start ∧
        r.start < t * p.termLength + p.termLength ∧ r.start < t * p.termLength + o + limit).map
        fun r => (r.start % p.termLength, r.frame p.ids) := by
  set T := p.termLength with hT
  have htail := h.tiles.drop_before (Nat.zero_le _) hle hq
  have hoff := h.cursor.offset_le
  -- either the records reach the end of the term, or its rest is empty
  have hend : t * T + T ≤ n * T + p.termOffset ∨
      frameAt p.rawLog.buffer (t % 4 * T) T (n * T + p.termOffset - t * T) = none := by
    rcases Nat.lt_or_eq_of_le hn with hlt | rfl
    · have hmul := Nat.mul_le_mul_right T (Nat.succ_le_of_lt hlt)
      rw [Nat.succ_mul] at hmul
      exact .inl (by omega)
    · by_cases hroom : p.termOffset < T
      · refine .inr ?_
        rw [Nat.add_sub_cancel_left]
        exact h.frameAt_cursor hroom
      · exact .inl (by omega)
  have hheld' : ∀ r ∈ rs.filter fun r => t * T + o ≤ r.start, r.start < t * T + T →
      r.Stored p.ids p.rawLog.buffer := fun r hr _ => by
    obtain ⟨hmem, hlo⟩ := List.mem_filter.mp hr
    have hlo' : t * T + o ≤ r.start := by simpa using hlo
    have hmul := Nat.mul_le_mul_right T (show n ≤ t + 3 by omega)
    rw [Nat.add_mul] at hmul
    exact h.stored r hmem (show n * T ≤ r.start + 3 * T by omega)
  have hwalk : walk p.rawLog.buffer (t % 4 * T) T T o =
      ((rs.filter fun r => t * T + o ≤ r.start).filter fun r => r.start < t * T + T).map
        fun r => (r.start % T, r.frame p.ids) :=
    @walk_stored p.ids _ _ _ _ _ _ htail hheld' hend (Nat.sub_le _ _)
  obtain ⟨c, hterm⟩ := htail.filter_lt (t * T + T)
  have hslot : ∀ r ∈ (rs.filter fun r => t * T + o ≤ r.start).filter fun r => r.start < t * T + T,
      slotLength (r.start % T, r.frame p.ids) = r.length := fun r hr => by
    have hfits := (hterm.mem hr).1
    rw [slotLength, LogRecord.frame_length p.ids hfits.ge]
    rfl
  rw [RawLog.scanFrames, if_neg (by rw [partitionCount]; omega), scanLoop_eq_takeBudget,
    Nat.sub_zero, show p.rawLog.termLength = T from rfl, hwalk, takeBudget_map,
    takeBudget_congr hslot, hterm.takeBudget_eq_filter, List.filter_filter, List.filter_filter]
  refine congrArg (List.map _) (List.filter_congr fun r _ => ?_)
  simp only [Bool.decide_and]
  ac_rfl

/-- **An offer** publishes the record of its frame, if it is accepted, the pad that covers the rest of
the term, if it rotates, and nothing otherwise. -/
theorem offer (h : Published p rs n)
    (hsize : p.Admits payload → alignFrameLength (32 + payload.length) < 2 ^ 31)
    (hcount : p.Rotates payload → p.termCount + 1 < 2 ^ 31) :
    ∃ new n', Published (p.offer payload).1 (rs ++ new) n' ∧ (p.offer payload).1.ids = p.ids ∧
      PubRun.acceptance payload (p.offer payload).2 = new.filterMap PubRun.acceptedOf := by
  rcases p.offer_cases payload with ⟨-, heq, err, herr⟩ | ⟨hadmits, hfit, heq⟩ | ⟨hrot, heq⟩
  · refine ⟨[], n, by rwa [heq, List.append_nil], by rw [heq], ?_⟩
    rw [herr]
    rfl
  · refine ⟨_, n, by rw [heq]; exact h.append (hsize hadmits) hfit hadmits, by rw [heq]; rfl, ?_⟩
    rw [heq, h.cursor.acceptance_append (hsize hadmits)]
  · have hsize' := hsize hrot.1
    have hover := hrot.2
    rw [h.cursor.offsetAfter_eq hsize'] at hover
    have hnext := hcount hrot
    rw [h.cursor.termCount_eq] at hnext
    refine ⟨padRecords p n, n + 1, by rw [heq]; exact h.padAndRotate hnext (by omega),
      by rw [heq]; exact p.padAndRotate_ids, ?_⟩
    rw [heq, PubRun.filterMap_acceptedOf_padRecords]
    rfl

end Published

/-! ## Runs -/

namespace PubRun

/-- An admitted offer has a frame of less than `2 ^ 31` bytes, and one that rotates leaves the term
count a number that 32 bits hold. Nothing is asked of the sender. -/
def Sized (s : PubRun) : PubAction → Prop
  | .offer payload =>
      (s.network.Admits payload → alignFrameLength (32 + payload.length) < 2 ^ 31) ∧
        (s.network.Rotates payload → s.network.termCount + 1 < 2 ^ 31)
  | .scan _ => True

instance (s : PubRun) : (a : PubAction) → Decidable (s.Sized a)
  | .offer _ => inferInstanceAs (Decidable ((_ → _) ∧ (_ → _)))
  | .scan _ => isTrue trivial

/-- **The retained log of a run**: its data records are the accepted offers. -/
structure Logged (ids : StreamIds) (s : PubRun) (rs : List LogRecord) (n : Nat) : Prop where
  ids_eq : s.network.ids = ids
  published : Published s.network rs n
  accepted_eq : s.accepted = rs.filterMap acceptedOf

theorem logged_start {crossThread : Bool} {sessionId streamId initialTermId : BitVec 32}
    {termLength mtu : Nat} {p : Publication}
    (h : Publication.create crossThread sessionId streamId initialTermId termLength mtu = some p) :
    (start p).Logged ⟨initialTermId, sessionId, streamId, termLength⟩ [] 0 :=
  ⟨(inv_start h).1, published_new (Publication.toNetwork_create h), rfl⟩

/-- **Step.** -/
theorem Logged.step {ids : StreamIds} {s : PubRun} {rs : List LogRecord} {n : Nat}
    (h : s.Logged ids rs n) {a : PubAction} (hsized : s.Sized a) :
    ∃ new n', (s.step a).Logged ids (rs ++ new) n' := by
  cases a with
  | offer payload =>
      obtain ⟨hnet, -, hacc⟩ := s.step_offer payload
      obtain ⟨new, n', hpub, hids, hnew⟩ := h.published.offer hsized.1 hsized.2
      refine ⟨new, n', by rw [hnet, hids, h.ids_eq], by rwa [hnet], ?_⟩
      rw [hacc, h.accepted_eq, hnew, List.filterMap_append]
  | scan limit =>
      obtain ⟨hnet, hacc, -⟩ := s.step_scan limit
      refine ⟨[], n, by rw [hnet]; exact h.ids_eq, ?_, ?_⟩
      · rw [hnet, List.append_nil]
        exact h.published.senderScan limit
      · rw [hacc, h.accepted_eq, List.append_nil]

/-- **Run.** -/
theorem logged_run {crossThread : Bool} {sessionId streamId initialTermId : BitVec 32}
    {termLength mtu : Nat} {p : Publication}
    (h : Publication.create crossThread sessionId streamId initialTermId termLength mtu = some p)
    {as : List PubAction} (hsized : Meets Sized step (start p) as) :
    ∃ rs n, (run step (start p) as).Logged ⟨initialTermId, sessionId, streamId, termLength⟩ rs n :=
  @run_invariant _ _ Sized step (fun s => ∃ rs n, s.Logged _ rs n)
    (fun _ _ ⟨_, _, hs⟩ ha => by
      obtain ⟨new, n', hnext⟩ := hs.step ha
      exact ⟨_, n', hnext⟩) _ ⟨[], 0, logged_start h⟩ as hsized

theorem Logged.exists_record {ids : StreamIds} {s : PubRun} {rs : List LogRecord} {n : Nat}
    (h : s.Logged ids rs n) {position : Int} {payload : List UInt8}
    (hmem : (position, payload) ∈ s.accepted) :
    ∃ start : Nat, LogRecord.data start payload ∈ rs ∧
      position = start + alignFrameLength (32 + payload.length) := by
  rw [h.accepted_eq] at hmem
  obtain ⟨r, hr, heq⟩ := List.mem_filterMap.mp hmem
  cases r with
  | data start payload' =>
      obtain ⟨hpos, rfl⟩ := Prod.mk.inj (Option.some.inj heq)
      exact ⟨start, hr, hpos.symm⟩
  | pad start len => cases heq

end PubRun

end AeronRs
