import AeronRs.Media.LimitedScans
import AeronRs.Media.OfferRetry

/-! # The growth of positions

An offer rebuilds its position from the difference of two 32-bit term ids, and a scan adds to the
sender's position what it finds in the partition of that position. **`Tracked`** relates the three
positions of a publication: the write cursor in term `n`, the published position `e`, and the
sender's position `b` at the start of a frame before it.

The relation is kept as long as no offer wraps its 32-bit offset, no rotation makes the term
difference negative, and none zeroes the term of the published position (**`Steady`**). Then
positions grow with every accepted offer and the sender never passes them: `positions_grow`. After
`2 ^ 31` rotations the next offer returns a negative position: `position_negative`. -/

namespace AeronRs

open Runs

/-- **Where a publication stands.** The write cursor is in term `n`, and the sender's position `b`
is not beyond the published position `e`. The partition of the term of `e` holds a chain of frames up
to `e`, with `b` between two of them if it is in that term. -/
structure Tracked (p : NetworkPublication) (n b e : Nat) : Prop where
  termCount_lt : n < 2 ^ 31
  active : p.activeTermId = p.initialTermId + BitVec.ofNat 32 n
  offset_le : p.termOffset ≤ p.termLength
  sender : p.senderPosition = b
  pub : p.pubPosition = e
  le : b ≤ e
  cursor : e = n * p.termLength + p.termOffset ∨ p.termOffset = 0 ∧ e ≤ n * p.termLength
  chain : ∃ fs gs, Committed p.rawLog.buffer (e / p.termLength % 4 * p.termLength) p.termLength 0 fs
      (b - e / p.termLength * p.termLength) ∧
    Committed p.rawLog.buffer (e / p.termLength % 4 * p.termLength) p.termLength
      (b - e / p.termLength * p.termLength) gs (e - e / p.termLength * p.termLength)

namespace Tracked

variable {p : NetworkPublication} {n b e : Nat} {payload : List UInt8}

theorem termLength_pos (_h : Tracked p n b e) : 0 < p.termLength := p.rawLog.termLength_pos

theorem partition_eq (h : Tracked p n b e) :
    partitionIndex p.activeTermId p.initialTermId = n % 4 := by
  rw [h.active, partitionIndex_add]

theorem termCount_eq (h : Tracked p n b e) : p.termCount = n := by
  have hlt := h.termCount_lt
  rw [NetworkPublication.termCount, h.active, BitVec.add_comm, BitVec.add_sub_cancel,
    BitVec.toNat_ofNat, Nat.mod_eq_of_lt (by omega)]

/-- Nothing is published beyond the write cursor. -/
theorem pub_le (h : Tracked p n b e) : e ≤ n * p.termLength + p.termOffset := by
  rcases h.cursor with heq | ⟨hzero, hle⟩ <;> omega

/-! ### Appending -/

/-- The frames of the active term reach up to the write cursor. -/
theorem active_chain (h : Tracked p n b e) (hroom : p.termOffset < p.termLength) :
    ∃ fs gs, Committed p.rawLog.buffer (n % 4 * p.termLength) p.termLength 0 fs
        (b - n * p.termLength) ∧
      Committed p.rawLog.buffer (n % 4 * p.termLength) p.termLength (b - n * p.termLength) gs
        p.termOffset := by
  rcases h.cursor with heq | ⟨hzero, hle⟩
  · have hterm : e / p.termLength = n := by rw [heq, (term_offset_of_lt n hroom).1]
    obtain ⟨fs, gs, hfs, hgs⟩ := h.chain
    rw [hterm] at hfs hgs
    rw [show e - n * p.termLength = p.termOffset by omega] at hgs
    exact ⟨fs, gs, hfs, hgs⟩
  · -- nothing was appended in the active term yet
    have hb := h.le
    refine ⟨[], [], ?_, ?_⟩
    · rw [committed_nil]
      omega
    · rw [committed_nil]
      omega

theorem append_buffer (h : Tracked p n b e) :
    (p.append payload).rawLog.buffer = p.rawLog.buffer.write
      (n % 4 * p.termLength + p.termOffset)
      ((p.dataHeader payload.length).encode ++ payload) := by
  have hwrite := ByteStore.write_write_append p.rawLog.buffer
    (n % 4 * p.termLength + p.termOffset) (p.dataHeader payload.length).encode payload
  rw [DataHeader.encode_length] at hwrite
  rw [← hwrite, ← h.partition_eq]
  rfl

/-- The frame of an append is committed at the cursor, unless its length is no positive 32-bit
number. -/
theorem append_committed (h : Tracked p n b e)
    (hfit : p.termOffset + alignFrameLength (32 + payload.length) ≤ p.termLength)
    (hlength : 32 + payload.length < 2 ^ 31) :
    Committed (p.append payload).rawLog.buffer (n % 4 * p.termLength) p.termLength p.termOffset
      [(p.termOffset, (p.dataHeader payload.length).encode ++ payload)]
      (p.termOffset + alignFrameLength (32 + payload.length)) := by
  have hle := le_alignFrameLength (32 + payload.length)
  have hbytes : ((p.dataHeader payload.length).encode ++ payload).length = 32 + payload.length := by
    rw [List.length_append, DataHeader.encode_length]
  have hread := p.rawLog.buffer.read_write_same (n % 4 * p.termLength + p.termOffset)
    ((p.dataHeader payload.length).encode ++ payload)
  rw [← h.append_buffer] at hread
  have hfirst : (p.append payload).rawLog.buffer.read (n % 4 * p.termLength + p.termOffset) 32 =
      (p.dataHeader payload.length).encode := by
    rw [← ByteStore.read_take _ _ ((p.dataHeader payload.length).encode ++ payload).length 32
      (by omega), hread, List.take_left' (DataHeader.encode_length _)]
  have hword : (p.append payload).rawLog.buffer.readI32 (n % 4 * p.termLength + p.termOffset) =
      BitVec.ofNat 32 (32 + payload.length) := by
    rw [readI32_of_header hfirst]
    rfl
  refine ⟨rfl, ?_, hread, ?_⟩
  · rw [hbytes]
    refine frameAt_eq_some.mpr ⟨by omega, ?_, by omega, by omega, hfit⟩
    rw [hword, BitVec.toNat_ofNat, Nat.mod_eq_of_lt (by omega)]
  · rw [committed_nil, slotLength, hbytes]

theorem append_pubPosition (h : Tracked p n b e)
    (hwrap : p.termOffset + alignFrameLength (32 + payload.length) < 2 ^ 32) :
    (p.append payload).pubPosition = ((n * p.termLength + p.termOffset +
      alignFrameLength (32 + payload.length) : Nat) : Int) := by
  rw [NetworkPublication.append, NetworkPublication.computePosition, h.active,
    toInt_add_sub_base _ h.termCount_lt, NetworkPublication.offsetAfter, Nat.mod_eq_of_lt hwrap]
  push_cast
  ring

/-- **An append** publishes a greater position. -/
theorem append (h : Tracked p n b e)
    (hwrap : p.termOffset + alignFrameLength (32 + payload.length) < 2 ^ 32)
    (hfit : p.offsetAfter payload ≤ p.termLength) :
    Tracked (p.append payload) n b
      (n * p.termLength + p.termOffset + alignFrameLength (32 + payload.length)) := by
  have hoff : p.offsetAfter payload = p.termOffset + alignFrameLength (32 + payload.length) :=
    Nat.mod_eq_of_lt hwrap
  rw [hoff] at hfit
  have hlen := le_alignFrameLength (32 + payload.length)
  have hpub := h.pub_le
  have hle := h.le
  refine ⟨h.termCount_lt, h.active, ?_, h.sender, h.append_pubPosition hwrap, by omega, ?_, ?_⟩
  · exact hoff.trans_le hfit
  · refine .inl ?_
    rw [show (p.append payload).termOffset = _ from hoff, NetworkPublication.append_termLength]
    omega
  rw [NetworkPublication.append_termLength]
  by_cases hfull : p.termOffset + alignFrameLength (32 + payload.length) = p.termLength
  · -- the term is full: nothing of the next one is published
    have hend : n * p.termLength + p.termOffset + alignFrameLength (32 + payload.length) =
        (n + 1) * p.termLength := by
      rw [Nat.succ_mul]
      omega
    rw [hend, Nat.mul_div_cancel _ h.termLength_pos]
    refine ⟨[], [], ?_, ?_⟩
    · rw [committed_nil, Nat.succ_mul]
      omega
    · rw [committed_nil, Nat.succ_mul]
      omega
  · have hroom : p.termOffset < p.termLength := by omega
    have hterm : (n * p.termLength + p.termOffset + alignFrameLength (32 + payload.length)) /
        p.termLength = n := by
      rw [Nat.add_assoc, (term_offset_of_lt n (show _ < p.termLength by omega)).1]
    obtain ⟨fs, gs, hfs, hgs⟩ := h.active_chain hroom
    have hT : p.termLength ≤ 2 ^ 31 := p.rawLog.termLength_le
    have hnew := h.append_committed hfit (show 32 + payload.length < 2 ^ 31 by omega)
    have hsame : ∀ x, x < n % 4 * p.termLength + p.termOffset →
        (p.append payload).rawLog.buffer x = p.rawLog.buffer x := by
      intro x hx
      rw [h.append_buffer]
      exact ByteStore.write_of_outside _ _ _ (.inl hx)
    have hsplit := hgs.eq_add_total
    rw [hterm, show n * p.termLength + p.termOffset + alignFrameLength (32 + payload.length) -
      n * p.termLength = p.termOffset + alignFrameLength (32 + payload.length) by omega]
    exact ⟨fs, gs ++ [(p.termOffset, (p.dataHeader payload.length).encode ++ payload)],
      hfs.congr fun x _ hx => hsame x (by omega),
      committed_append.mpr ⟨p.termOffset, hgs.congr fun x _ hx => hsame x hx, hnew⟩⟩

/-! ### Rotating -/

theorem outside_partition {T i k x : Nat} (hne : i ≠ k) (hlo : i * T ≤ x) (hhi : x < i * T + T) :
    x < k * T ∨ k * T + T ≤ x := by
  rcases Nat.lt_or_gt_of_ne hne with hlt | hgt
  · have hle := Nat.mul_le_mul_right T hlt
    rw [Nat.succ_mul] at hle
    exact .inl (by omega)
  · have hle := Nat.mul_le_mul_right T hgt
    rw [Nat.succ_mul] at hle
    exact .inr (by omega)

theorem next_partition_eq (h : Tracked p n b e) :
    partitionIndex (p.activeTermId + 1) p.initialTermId = (n + 1) % 4 := by
  rw [h.active, BitVec.add_assoc, ← partitionIndex_add p.initialTermId (n + 1), BitVec.ofNat_add]
  rfl

/-- A rotation changes only the active term from the cursor on and the partition of the next one. -/
theorem padAndRotate_buffer_of_outside (h : Tracked p n b e) {x : Nat}
    (hpad : x < n % 4 * p.termLength + p.termOffset ∨ n % 4 * p.termLength + p.termLength ≤ x)
    (hclean : x < (n + 1) % 4 * p.termLength ∨ (n + 1) % 4 * p.termLength + p.termLength ≤ x) :
    p.padAndRotate.rawLog.buffer x = p.rawLog.buffer x := by
  have hidx : ¬ partitionCount ≤ (n + 1) % 4 := by rw [partitionCount]; omega
  have hheader : dataHeaderLength = 32 := rfl
  have hT : p.rawLog.termLength = p.termLength := rfl
  unfold NetworkPublication.padAndRotate NetworkPublication.rotateTerm RawLog.cleanPartition
  simp only [h.next_partition_eq, h.partition_eq, if_neg hidx, RawLog.withBuffer_buffer,
    RawLog.writePadFrame_termLength, hT]
  rw [ByteStore.fill_of_outside _ _ _ hclean]
  unfold RawLog.writePadFrame
  split_ifs
  · rfl
  · rfl
  · rfl
  · rw [RawLog.withBuffer_buffer]
    refine ByteStore.write_of_outside _ _ _ ?_
    rw [DataHeader.encode_length, hT]
    omega

/-- **A rotation** publishes nothing, and leaves what the term of the published position holds. -/
theorem padAndRotate (h : Tracked p n b e) (hnext : n + 1 < 2 ^ 31)
    (hnear : n * p.termLength ≤ e + 2 * p.termLength) : Tracked p.padAndRotate (n + 1) b e := by
  have hT := h.termLength_pos
  have hpub := h.pub_le
  have hoff := h.offset_le
  have hsucc : (n + 1) * p.termLength = n * p.termLength + p.termLength := Nat.succ_mul _ _
  refine ⟨hnext, ?_, Nat.zero_le _, h.sender, h.pub, h.le, .inr ⟨rfl, ?_⟩, ?_⟩
  · rw [show p.padAndRotate.activeTermId = p.activeTermId + 1 from rfl, h.active,
      BitVec.add_assoc, BitVec.ofNat_add]
    rfl
  · rw [p.padAndRotate_termLength]
    omega
  rw [p.padAndRotate_termLength]
  obtain ⟨fs, gs, hfs, hgs⟩ := h.chain
  have hend := hgs.eq_add_total
  -- the term of `e` is the next, the active or one of the two before it
  have hdiv := Nat.div_add_mod' e p.termLength
  have hmod := Nat.mod_lt e hT
  set j := e / p.termLength with hj
  have hlow : n ≤ j + 2 := by
    by_contra hcon
    have := Nat.mul_le_mul_right p.termLength (show j + 3 ≤ n by omega)
    rw [Nat.add_mul] at this
    omega
  have hhigh : j ≤ n + 1 := by
    by_contra hcon
    have := Nat.mul_le_mul_right p.termLength (show n + 2 ≤ j by omega)
    rw [Nat.add_mul] at this
    omega
  have hsame : ∀ x, j % 4 * p.termLength ≤ x → x < j % 4 * p.termLength + (e - j * p.termLength) →
      p.padAndRotate.rawLog.buffer x = p.rawLog.buffer x := by
    intro x hlo hhi
    have hne : j ≠ n + 1 := by
      intro heq
      rw [heq] at hlo hhi
      omega
    refine h.padAndRotate_buffer_of_outside ?_ ?_
    · by_cases heq : j = n
      · -- what is published of the active term lies before the cursor
        rw [heq] at hhi
        left
        omega
      · rcases outside_partition (show j % 4 ≠ n % 4 by omega) hlo (by omega) with hlt | hgt
        · exact .inl (by omega)
        · exact .inr hgt
    · exact outside_partition (by omega) hlo (by omega)
  exact ⟨fs, gs, hfs.congr fun x hlo hhi => hsame x (by omega) (by omega),
    hgs.congr fun x hlo hhi => hsame x (by omega) (by omega)⟩

/-! ### Scanning -/

theorem committed_eq (h : Tracked p n b e) :
    p.committed = walk p.rawLog.buffer (b / p.termLength % 4 * p.termLength) p.termLength
      p.termLength (b % p.termLength) := by
  obtain ⟨hoffset, hpart⟩ := NetworkPublication.sender_place h.sender
  rw [NetworkPublication.committed, NetworkPublication.senderBase, hoffset, hpart]

/-- The sender moves on by what it has taken, to a place in the chain or in an earlier term. -/
theorem advance (h : Tracked p n b e) {limit : Nat} {taken : List (Nat × List UInt8)}
    (htaken : takeBudget slotLength limit p.committed = taken)
    (hend : b + total slotLength taken ≤ e)
    (hchain : ∃ fs gs, Committed p.rawLog.buffer (e / p.termLength % 4 * p.termLength)
        p.termLength 0 fs (b + total slotLength taken - e / p.termLength * p.termLength) ∧
      Committed p.rawLog.buffer (e / p.termLength % 4 * p.termLength) p.termLength
        (b + total slotLength taken - e / p.termLength * p.termLength) gs
        (e - e / p.termLength * p.termLength)) :
    Tracked (p.senderScan limit).1 n (b + total slotLength taken) e := by
  rw [p.senderScan_eq_takeBudget, htaken]
  refine ⟨h.termCount_lt, h.active, h.offset_le, ?_, h.pub, hend, h.cursor, hchain⟩
  simp only [h.sender]
  push_cast
  rfl

/-- A scan stays in the sender's term. -/
theorem total_taken_le (h : Tracked p n b e) (limit : Nat) :
    total slotLength (takeBudget slotLength limit p.committed) ≤
      p.termLength - b % p.termLength := by
  obtain ⟨rest, hsplit, -⟩ := takeBudget_split slotLength limit p.committed
  have hsum := congrArg (total slotLength) hsplit
  rw [total_append] at hsum
  have hwalk := (walk_total_le p.rawLog.buffer (b / p.termLength % 4 * p.termLength)
    p.termLength p.termLength (b % p.termLength)).1
  rw [← h.committed_eq] at hwalk
  omega

/-- **A scan** within what is published stays within it. -/
theorem senderScan (h : Tracked p n b e) {limit : Nat} (hlimit : limit ≤ e - b) :
    ∃ b', Tracked (p.senderScan limit).1 n b' e := by
  have hle := h.le
  have hbdiv := Nat.div_add_mod' b p.termLength
  have hdiv := Nat.div_add_mod' e p.termLength
  obtain ⟨fs, gs, hfs, hgs⟩ := h.chain
  rcases Nat.lt_or_eq_of_le (Nat.div_le_div_right (c := p.termLength) hle) with hbefore | hsame
  · -- the sender is in an earlier term than what is published last, and a scan stays in it
    have hbound := h.total_taken_le limit
    have hnext := Nat.mul_le_mul_right p.termLength hbefore
    rw [Nat.succ_mul] at hnext
    have hmod := Nat.mod_lt b h.termLength_pos
    refine ⟨_, h.advance rfl (by omega) ⟨fs, gs, ?_⟩⟩
    rw [show b - e / p.termLength * p.termLength = 0 by omega] at hfs hgs
    rw [show b + _ - e / p.termLength * p.termLength = 0 by omega]
    exact ⟨hfs, hgs⟩
  · -- the sender's position is in the chain, whose frames cover the limit
    rw [hsame] at hbdiv
    have hplace : b - e / p.termLength * p.termLength = b % p.termLength := by omega
    have htotal := hgs.eq_add_total
    rw [hplace] at hfs hgs htotal
    have htake : takeBudget slotLength limit p.committed = takeBudget slotLength limit gs := by
      rw [h.committed_eq, hsame, walk_of_committed hgs, takeBudget_append_of_le]
      omega
    obtain ⟨rest, hsplit, -⟩ := takeBudget_split slotLength limit gs
    have hsum := congrArg (total slotLength) hsplit
    rw [total_append] at hsum
    rw [hsplit, committed_append] at hgs
    obtain ⟨c, htaken, hrest⟩ := hgs
    have hc := htaken.eq_add_total
    refine ⟨_, h.advance htake (by omega) ⟨fs ++ takeBudget slotLength limit gs, rest, ?_⟩⟩
    rw [show b + total slotLength (takeBudget slotLength limit gs) -
      e / p.termLength * p.termLength = c by omega]
    exact ⟨committed_append.mpr ⟨_, hfs, htaken⟩, hrest⟩

end Tracked

theorem tracked_new {sessionId streamId initialTermId : BitVec 32} {termLength mtu : Nat}
    {p : NetworkPublication}
    (h : NetworkPublication.new sessionId streamId initialTermId termLength mtu = some p) :
    Tracked p 0 0 0 := by
  obtain ⟨hcursor, hoffset, hsender, hpub⟩ := atCursor_new h
  refine ⟨hcursor.termCount_lt, hcursor.active, hcursor.offset_le, hsender, hpub, Nat.le_refl _,
    .inl ?_, [], [], ?_, ?_⟩
  · rw [hoffset, Nat.zero_mul]
  · rw [committed_nil, Nat.zero_sub]
  · rw [committed_nil, Nat.zero_sub]

namespace PubRun

/-! ## Runs -/

/-- The 32-bit sum of an admitted offer does not wrap, and an offer that rotates leaves a term
difference below `2 ^ 31` and finds the published position at most two terms behind. -/
def RotatesNear (s : PubRun) : PubAction → Prop
  | .offer payload =>
      (s.network.Admits payload →
        s.network.termOffset + alignFrameLength (32 + payload.length) < 2 ^ 32) ∧
      (s.network.Rotates payload → s.network.termCount + 1 < 2 ^ 31 ∧
        (s.network.termCount * s.network.termLength : Int) ≤
          s.network.pubPosition + 2 * s.network.termLength)
  | .scan _ => True

instance (s : PubRun) : (a : PubAction) → Decidable (s.RotatesNear a)
  | .offer payload =>
      inferInstanceAs (Decidable ((s.network.Admits payload →
          s.network.termOffset + alignFrameLength (32 + payload.length) < 2 ^ 32) ∧
        (s.network.Rotates payload → s.network.termCount + 1 < 2 ^ 31 ∧
          (s.network.termCount * s.network.termLength : Int) ≤
            s.network.pubPosition + 2 * s.network.termLength)))
  | .scan _ => isTrue trivial

def Steady (s : PubRun) (a : PubAction) : Prop := s.ScanWithinPublished a ∧ s.RotatesNear a

instance (s : PubRun) (a : PubAction) : Decidable (s.Steady a) :=
  inferInstanceAs (Decidable (_ ∧ _))

/-- **Positions grow**: every accepted offer returned more than those before it, and the sender's
position is not beyond the published one. -/
def Grows (s : PubRun) : Prop :=
  s.accepted.Pairwise (fun earlier later => earlier.1 < later.1) ∧
    s.network.senderPosition ≤ s.network.pubPosition

/-- The run invariant: nothing accepted lies beyond what is published. -/
def Growing (s : PubRun) : Prop :=
  ∃ n b e, Tracked s.network n b e ∧ (∀ offered ∈ s.accepted, offered.1 ≤ e) ∧
    s.accepted.Pairwise fun earlier later => earlier.1 < later.1

theorem Growing.grows {s : PubRun} (h : s.Growing) : s.Grows := by
  obtain ⟨n, b, e, htracked, -, hsorted⟩ := h
  refine ⟨hsorted, ?_⟩
  rw [htracked.sender, htracked.pub]
  exact_mod_cast htracked.le

theorem growing_start {crossThread : Bool} {sessionId streamId initialTermId : BitVec 32}
    {termLength mtu : Nat} {p : Publication}
    (h : Publication.create crossThread sessionId streamId initialTermId termLength mtu = some p) :
    (start p).Growing :=
  ⟨0, 0, 0, tracked_new (Publication.toNetwork_create h), nofun, .nil⟩

/-- **Step.** -/
theorem growing_offer {s : PubRun} (h : s.Growing) {payload : List UInt8}
    (hnear : s.RotatesNear (.offer payload)) : (s.step (.offer payload)).Growing := by
  obtain ⟨n, b, e, htracked, hbound, hsorted⟩ := h
  obtain ⟨hnet, -, hacc⟩ := s.step_offer payload
  rcases s.network.offer_cases payload with
    ⟨-, heq, err, herr⟩ | ⟨hadmits, hfit, heq⟩ | ⟨hrot, heq⟩
  · rw [herr, acceptance, List.append_nil] at hacc
    exact ⟨n, b, e, by rwa [hnet, heq], by rwa [hacc], by rwa [hacc]⟩
  · have hwrap := hnear.1 hadmits
    have hroom := le_alignFrameLength (32 + payload.length)
    have hpub := htracked.pub_le
    have happend := htracked.append hwrap (not_lt.mp fun hover => hfit ⟨hadmits, hover⟩)
    rw [heq] at hnet hacc
    rw [acceptance, htracked.append_pubPosition hwrap] at hacc
    rw [← show (s.step (.offer payload)).network = s.network.append payload from hnet] at happend
    refine ⟨n, b, _, happend, ?_, ?_⟩
    · rw [hacc]
      intro offered hmem
      rcases List.mem_append.mp hmem with hold | hnew
      · exact (hbound offered hold).trans (by exact_mod_cast (by omega))
      · rw [List.mem_singleton.mp hnew]
    · -- the new position is beyond what was published before
      rw [hacc, List.pairwise_append]
      refine ⟨hsorted, List.pairwise_singleton _ _, fun earlier hold later hnew => ?_⟩
      rw [List.mem_singleton.mp hnew]
      exact (hbound earlier hold).trans_lt (by exact_mod_cast (by omega))
  · obtain ⟨hcount, hterm⟩ := hnear.2 hrot
    rw [htracked.termCount_eq, htracked.pub] at hterm
    rw [htracked.termCount_eq] at hcount
    rw [heq] at hnet hacc
    rw [acceptance, List.append_nil] at hacc
    refine ⟨n + 1, b, e, ?_, by rwa [hacc], by rwa [hacc]⟩
    rw [hnet]
    exact htracked.padAndRotate hcount (by exact_mod_cast hterm)

theorem growing_scan {s : PubRun} (h : s.Growing) {limit : Nat}
    (hlimit : s.ScanWithinPublished (.scan limit)) : (s.step (.scan limit)).Growing := by
  obtain ⟨n, b, e, htracked, hbound, hsorted⟩ := h
  obtain ⟨hnet, hacc, -⟩ := s.step_scan limit
  have hlimit' : (limit : Int) ≤ s.network.pubPosition - s.network.senderPosition := hlimit
  rw [htracked.pub, htracked.sender] at hlimit'
  obtain ⟨b', htracked'⟩ := htracked.senderScan (show limit ≤ e - b by omega)
  exact ⟨n, b', e, hnet ▸ htracked', by rwa [hacc], by rwa [hacc]⟩

theorem growing_step {s : PubRun} (h : s.Growing) {a : PubAction} (hsteady : s.Steady a) :
    (s.step a).Growing := by
  cases a with
  | offer payload => exact growing_offer h hsteady.2
  | scan limit => exact growing_scan h hsteady.1

/-- **Positions grow** in every run on a publication of either kind whose scans stay within what is
published and whose rotations keep the term difference below `2 ^ 31` and the published position
within two terms of the active one. -/
theorem positions_grow {crossThread : Bool} {sessionId streamId initialTermId : BitVec 32}
    {termLength mtu : Nat} {p : Publication}
    (hp : Publication.create crossThread sessionId streamId initialTermId termLength mtu = some p)
    (as : List PubAction) (hsteady : Meets Steady step (start p) as) :
    (run step (start p) as).Grows :=
  (@run_invariant _ _ Steady step Growing (fun _ _ hs ha => growing_step hs ha) (start p)
    (growing_start hp) as hsteady).grows

/-- Frames of 96 bytes in terms of 128, from the greatest term id on: the ids wrap and the positions
grow. -/
theorem positions_grow_keepingUp :
    Meets Steady step (start ((Publication.create true 7 1 0x7fffffff 128 1408).get rfl))
      keepingUp ∧
    (run step (start ((Publication.create true 7 1 0x7fffffff 128 1408).get rfl))
      keepingUp).Grows := by
  have hsteady : Meets Steady step
      (start ((Publication.create true 7 1 0x7fffffff 128 1408).get rfl)) keepingUp := by
    decide +kernel
  exact ⟨hsteady, positions_grow (Option.some_get _).symm _ hsteady⟩

-- without the bound on the published position: offers longer than a term rotate five times, a pad
-- that covers all of term 4 stands where term 0 was, and a scan of 32 bytes takes it from there
example :
    let s := run step (start ((Publication.create false 7 1 0 64 128).get rfl))
      (PubAction.offer [] :: List.replicate 5 (.offer (List.replicate 64 1)))
    s.ScanWithinPublished (.scan 32) ∧ s.network.pubPosition = 32 ∧
      (s.step (.scan 32)).network.senderPosition = 64 := by
  decide +kernel

/-! ## The term difference wraps -/

/-- Terms of 32 bytes, each filled by one empty frame, sent and rotated. -/
def fillTerms : Nat → List PubAction
  | 0 => []
  | k + 1 => fillTerms k ++ [.offer [], .scan 32, .offer []]

/-- At the beginning of term `k`, with everything before it published and sent. -/
structure AtTerm (s : PubRun) (k : Nat) : Prop where
  tracked : Tracked s.network k (k * 32) (k * 32)
  termLength : s.network.termLength = 32
  termOffset : s.network.termOffset = 0

/-- An empty payload is admitted when everything published is sent. -/
theorem admits_nil {p : NetworkPublication} (h : p.senderPosition = p.pubPosition) :
    p.Admits [] := by
  have hpos := p.rawLog.termLength_pos
  have hcount : (partitionCount : Int) - 1 = 3 := by decide
  have hzero : wrapI64 0 = 0 := by decide
  refine ⟨Nat.zero_le _, ?_⟩
  rw [h, Int.sub_self, hzero, hcount, NetworkPublication.termLength]
  omega

namespace AtTerm

variable {s : PubRun} {k : Nat}

theorem fits (h : s.AtTerm k) : s.network.Admits [] ∧ ¬ s.network.Rotates [] ∧
    s.network.termOffset + alignFrameLength (32 + ([] : List UInt8).length) = 32 ∧
    s.network.offsetAfter [] = 32 := by
  have halign : alignFrameLength (32 + ([] : List UInt8).length) = 32 := by decide
  have hoffset : s.network.offsetAfter [] = 32 := by
    rw [NetworkPublication.offsetAfter, h.termOffset, halign, Nat.zero_add]
    omega
  refine ⟨admits_nil (by rw [h.tracked.sender, h.tracked.pub]), ?_, ?_, hoffset⟩
  · rintro ⟨-, hover⟩
    rw [h.termLength, hoffset] at hover
    omega
  · rw [h.termOffset, halign]

/-- **The offer** appends the frame. -/
theorem offer (h : s.AtTerm k) :
    (s.step (.offer [])).network = s.network.append [] ∧
      (s.step (.offer [])).accepted = s.accepted ++ [(((k * 32 + 32 : Nat) : Int), [])] ∧
      Tracked (s.step (.offer [])).network k (k * 32) (k * 32 + 32) := by
  obtain ⟨hadmits, hfit, hend, hoffset⟩ := h.fits
  obtain ⟨hnet, -, hacc⟩ := s.step_offer []
  have hposition : k * s.network.termLength + s.network.termOffset +
      alignFrameLength (32 + ([] : List UInt8).length) = k * 32 + 32 := by
    rw [Nat.add_assoc, hend, h.termLength]
  have hpub := h.tracked.append_pubPosition (by rw [hend]; omega)
  have happend := h.tracked.append (by rw [hend]; omega) (by rw [hoffset, h.termLength])
  rw [hposition] at hpub happend
  rw [NetworkPublication.offer_of_fits hadmits hfit] at hnet hacc
  rw [acceptance, hpub] at hacc
  exact ⟨hnet, hacc, hnet ▸ happend⟩

/-- The frame is all that a scan of 32 bytes finds. -/
theorem taken (h : s.AtTerm k) :
    total slotLength (takeBudget slotLength 32 (s.step (.offer [])).network.committed) = 32 := by
  obtain ⟨-, -, hend, -⟩ := h.fits
  obtain ⟨hnet, -, htracked⟩ := h.offer
  have hframe := h.tracked.append_committed (by rw [hend, h.termLength]) (by decide)
  have htotal := hframe.eq_add_total
  have hlength : (s.step (.offer [])).network.termLength = 32 := by rw [hnet]; exact h.termLength
  have hplace : k * 32 / 32 % 4 * 32 = k % 4 * 32 ∧ k * 32 % 32 = 0 := by omega
  rw [hend, h.termLength, h.termOffset] at hframe
  rw [hend, h.termOffset, Nat.zero_add] at htotal
  rw [htracked.committed_eq, hlength, hplace.1, hplace.2, hnet, walk_of_committed hframe,
    takeBudget_append_of_le _ _ htotal.le, takeBudget_cons_of_pos _ (by omega), takeBudget_nil]
  exact htotal.symm

/-- **The scan** sends it, and the next offer rotates. -/
theorem scan (h : s.AtTerm k) :
    Tracked (run step s [.offer [], .scan 32]).network k (k * 32 + 32) (k * 32 + 32) ∧
      (run step s [.offer [], .scan 32]).network.termLength = 32 ∧
      (run step s [.offer [], .scan 32]).network.Rotates [] := by
  obtain ⟨-, -, -, hoffset⟩ := h.fits
  obtain ⟨hnet, -, htracked⟩ := h.offer
  have htaken := h.taken
  set s₁ := s.step (.offer []) with hs₁
  have hlength : s₁.network.termLength = 32 := by rw [hnet]; exact h.termLength
  have hcursor : s₁.network.termOffset = 32 := by rw [hnet]; exact hoffset
  obtain ⟨hnet', -, -⟩ := s₁.step_scan 32
  obtain ⟨b, htracked'⟩ := htracked.senderScan (show 32 ≤ k * 32 + 32 - k * 32 by omega)
  rw [← hnet'] at htracked'
  have hsender : (s₁.step (.scan 32)).network.senderPosition = ((k * 32 + 32 : Nat) : Int) := by
    rw [hnet', NetworkPublication.senderScan_eq_takeBudget]
    simp only [htracked.sender, htaken]
    push_cast
    ring
  have hb := htracked'.sender
  rw [hsender] at hb
  obtain rfl : k * 32 + 32 = b := by exact_mod_cast hb
  rw [run_cons, run_cons, run_nil]
  refine ⟨htracked', ?_, admits_nil (hsender.trans htracked'.pub.symm), ?_⟩
  · rw [hnet']
    exact hlength
  · -- the cursor is at the end of the term, where nothing more fits
    rw [hnet']
    show s₁.network.termLength < (s₁.network.termOffset + _) % 2 ^ 32
    rw [hlength, hcursor]
    decide

/-- **One term**: its frame is published and sent, and another offer rotates. -/
theorem rotate (h : s.AtTerm k) :
    Meets ScanWithinPublished step s [.offer [], .scan 32, .offer []] ∧
      (run step s [.offer [], .scan 32, .offer []]).accepted =
        s.accepted ++ [(((k * 32 + 32 : Nat) : Int), [])] ∧
      ∃ p, Tracked p k (k * 32 + 32) (k * 32 + 32) ∧ p.termLength = 32 ∧
        (run step s [.offer [], .scan 32, .offer []]).network = p.padAndRotate := by
  obtain ⟨-, hacc, hpublished⟩ := h.offer
  obtain ⟨htracked, hlength, hrot⟩ := h.scan
  obtain ⟨-, hacc', -⟩ := (s.step (.offer [])).step_scan 32
  obtain ⟨hnet, -, hacc''⟩ := (run step s [.offer [], .scan 32]).step_offer []
  rw [NetworkPublication.offer_of_rotates hrot] at hnet hacc''
  rw [acceptance, List.append_nil] at hacc''
  refine ⟨⟨trivial, ?_, trivial, trivial⟩, hacc''.trans (hacc'.trans hacc), _, htracked, hlength,
    hnet⟩
  show ((32 : Nat) : Int) ≤ (s.step (.offer [])).network.pubPosition -
    (s.step (.offer [])).network.senderPosition
  rw [hpublished.pub, hpublished.sender]
  omega

/-- **The next term.** -/
theorem next (h : s.AtTerm k) (hk : k + 1 < 2 ^ 31) :
    (run step s [.offer [], .scan 32, .offer []]).AtTerm (k + 1) := by
  obtain ⟨-, -, p, htracked, hlength, hnet⟩ := h.rotate
  have hnext := htracked.padAndRotate hk (by rw [hlength]; omega)
  rw [show k * 32 + 32 = (k + 1) * 32 by omega] at hnext
  refine ⟨hnet ▸ hnext, ?_, ?_⟩
  · rw [hnet, p.padAndRotate_termLength, hlength]
  · rw [hnet]
    rfl

end AtTerm

/-- **So many terms.** Each offer that is accepted returns the end of its term. -/
theorem AtTerm.fillTerms {s : PubRun} (h : s.AtTerm 0) {k : Nat} (hk : k < 2 ^ 31) :
    Meets ScanWithinPublished step s (fillTerms k) ∧
      (run step s (PubRun.fillTerms k)).accepted =
        s.accepted ++ (List.range k).map (fun i => (((i * 32 + 32 : Nat) : Int), [])) ∧
      (run step s (PubRun.fillTerms k)).AtTerm k := by
  induction k with
  | zero => exact ⟨trivial, (List.append_nil _).symm, h⟩
  | succ k ih =>
      obtain ⟨hmeets, hacc, hterm⟩ := ih (by omega)
      obtain ⟨hmeets', hacc', -⟩ := hterm.rotate
      rw [PubRun.fillTerms, run_append]
      refine ⟨meets_append.mpr ⟨hmeets, hmeets'⟩, ?_, hterm.next hk⟩
      rw [hacc', hacc, List.range_succ, List.map_append, List.append_assoc]
      rfl

/-- A difference of `2 ^ 31` terms is negative as a 32-bit number, and so is the position. -/
theorem append_pubPosition_negative {p : NetworkPublication} {k b e : Nat} (h : Tracked p k b e)
    (hlength : p.termLength = 32) (hk : k + 1 = 2 ^ 31) :
    (p.padAndRotate.append []).pubPosition = -68719476704 := by
  have hdiff : p.padAndRotate.activeTermId - p.padAndRotate.initialTermId =
      BitVec.ofNat 32 (2 ^ 31) := by
    rw [show p.padAndRotate.activeTermId = p.activeTermId + 1 from rfl,
      show p.padAndRotate.initialTermId = p.initialTermId from rfl, h.active, BitVec.add_assoc,
      BitVec.add_comm, BitVec.add_sub_cancel, ← hk, BitVec.ofNat_add]
    rfl
  show (p.padAndRotate.activeTermId - p.padAndRotate.initialTermId).toInt *
    p.padAndRotate.termLength + p.padAndRotate.offsetAfter [] = _
  rw [hdiff, p.padAndRotate_termLength, hlength, show p.padAndRotate.offsetAfter [] = 32 from rfl]
  decide

/-- **The term difference wraps.** After the rotation that ends term `2 ^ 31 - 1`, an offer returns
a negative position. -/
theorem AtTerm.wraps {s : PubRun} {k : Nat} (h : s.AtTerm k) (hk : k + 1 = 2 ^ 31) :
    ((run step s [.offer [], .scan 32, .offer []]).network.offer []).2 = .ok (-68719476704) ∧
      (run step s [.offer [], .scan 32, .offer [], .offer []]).network.pubPosition = -68719476704 ∧
      (run step s [.offer [], .scan 32, .offer [], .offer []]).network.senderPosition =
        68719476736 := by
  obtain ⟨-, -, p, htracked, hlength, hnet⟩ := h.rotate
  have hposition := append_pubPosition_negative htracked hlength hk
  have hadmits : p.padAndRotate.Admits [] := admits_nil (htracked.sender.trans htracked.pub.symm)
  have hfit : ¬ p.padAndRotate.Rotates [] := by
    rintro ⟨-, hover⟩
    rw [p.padAndRotate_termLength, hlength, show p.padAndRotate.offsetAfter [] = 32 from rfl]
      at hover
    omega
  have hoffer := NetworkPublication.offer_of_fits hadmits hfit
  obtain ⟨hnet', -, -⟩ := (run step s [.offer [], .scan 32, .offer []]).step_offer []
  rw [hnet, hoffer] at hnet'
  refine ⟨?_, ?_, ?_⟩
  · rw [hnet, hoffer, hposition]
  · exact (congrArg NetworkPublication.pubPosition hnet').trans hposition
  · refine (congrArg NetworkPublication.senderPosition hnet').trans (htracked.sender.trans ?_)
    omega

/-- **A negative position.** Terms of 32 bytes are filled, sent and rotated `2 ^ 31` times from term
zero on. The active term id is then `i32::MIN`, the term difference is negative, and the next
accepted offer returns a negative position, which is also the new published position: it is behind
every position returned before and behind the sender's. -/
theorem position_negative :
    ∃ p, Publication.create false 7 1 0 32 1408 = some p ∧ ∃ as : List PubAction,
      Meets ScanWithinPublished step (start p) (as ++ [.offer []]) ∧
      (32, []) ∈ (run step (start p) as).accepted ∧
      ((run step (start p) as).publication.offer []).2 = .ok (-68719476704) ∧
      (run step (start p) (as ++ [.offer []])).network.pubPosition = -68719476704 ∧
      (run step (start p) (as ++ [.offer []])).network.senderPosition = 68719476736 ∧
      ¬ (run step (start p) (as ++ [.offer []])).Grows := by
  obtain ⟨p, hp⟩ := Option.isSome_iff_exists.mp
    (show (Publication.create false 7 1 0 32 1408).isSome = true by decide +kernel)
  have hnew := Publication.toNetwork_create hp
  obtain ⟨hlength₀, hoffset₀, -⟩ := NetworkPublication.admits_new hnew [] (Nat.zero_le _)
  have hstart : (start p).AtTerm 0 := ⟨tracked_new hnew, hlength₀, hoffset₀⟩
  -- all terms but one, then the last of the terms with a non-negative difference
  obtain ⟨k, hk⟩ : ∃ k, k + 1 = 2 ^ 31 := ⟨2 ^ 31 - 1, rfl⟩
  obtain ⟨hmeets, hacc, hterm⟩ := hstart.fillTerms (show k < 2 ^ 31 by omega)
  obtain ⟨hmeets', hacc', -⟩ := hterm.rotate
  obtain ⟨hresult, hpub, hsender⟩ := hterm.wraps hk
  have hfirst : ((32 : Int), ([] : List UInt8)) ∈
      (run step (start p) (fillTerms k ++ [PubAction.offer [], .scan 32, .offer []])).accepted := by
    rw [run_append, hacc', hacc]
    exact List.mem_append_left _
      (List.mem_append_right _ (List.mem_map.mpr ⟨0, List.mem_range.mpr (by omega), rfl⟩))
  have hsplit : fillTerms k ++ [PubAction.offer [], .scan 32, .offer []] ++ [PubAction.offer []] =
      fillTerms k ++ [PubAction.offer [], .scan 32, .offer [], .offer []] := by
    rw [List.append_assoc]
    rfl
  rw [← run_append] at hresult hpub hsender
  refine ⟨p, hp, fillTerms k ++ [PubAction.offer [], .scan 32, .offer []], ?_, hfirst, ?_, ?_, ?_, ?_⟩
  · exact meets_append.mpr ⟨meets_append.mpr ⟨hmeets, hmeets'⟩, trivial, trivial⟩
  · rw [Publication.offer_result]
    exact hresult
  · rw [hsplit]
    exact hpub
  · rw [hsplit]
    exact hsender
  · rintro ⟨-, hle⟩
    rw [hsplit, hpub, hsender] at hle
    omega

end PubRun

end AeronRs
