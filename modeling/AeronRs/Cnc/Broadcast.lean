import AeronRs.Cnc.Record
import AeronRs.Lib.Runs

/-! # The broadcast buffer

The buffer of `broadcast.rs`, over which the conductor answers its clients. The transmitter writes
records one behind another and overwrites the oldest; each receiver has a cursor of its own. A
receiver that is more than the capacity behind has been **lapped** and jumps to the position one
capacity before the tail.

That position need not be the start of a record: `lapped_receiver_stuck` lands in the middle of one.
If it is one, everything behind it is intact, and the receiver delivers it: `lapped_resynchronises`. -/

namespace AeronRs

open Runs

inductive BroadcastError
  | invalidCapacity
  | messageTooLarge
  deriving DecidableEq, Repr

/-- `BroadcastTransmitter` with the memory behind it: the data region and the two counters of the
trailer. -/
structure BroadcastTransmitter extends DataRegion where
  tail : BitVec 64
  latest : BitVec 64

/-- `BroadcastReceiver`, its own state. -/
structure BroadcastReceiver where
  cursor : BitVec 64
  lappedCount : Nat
  deriving DecidableEq

namespace BroadcastTransmitter

def new (capacity : Nat) (hsize : requiredBufferSize capacity < 2 ^ 63) :
    Except BroadcastError BroadcastTransmitter :=
  if h : recordAlignment ≤ capacity ∧ isPowerOfTwo capacity = true then
    .ok ⟨.zeroed capacity h hsize, 0, 0⟩
  else .error .invalidCapacity

def maxMessageLength (tx : BroadcastTransmitter) : Nat := tx.capacity - recordHeaderLength

/-- The header of the padding in front of the wrap. -/
def writePadding (m : ByteStore) (index len : Nat) : ByteStore :=
  (m.write index (encodeI32 (BitVec.ofNat 32 len))).write (index + 4) (encodeI32 msgTypePadding)

def writeRecord (m : ByteStore) (index : Nat) (msg : Message) : ByteStore :=
  let recordLength := msg.payload.length + recordHeaderLength
  let m := m.fill (index + recordLength) (alignRecord recordLength - recordLength)
  let m := m.write (index + recordHeaderLength) msg.payload
  let m := m.write index (encodeI32 (BitVec.ofNat 32 recordLength))
  m.write (index + 4) (encodeI32 msg.msgType)

def transmit (tx : BroadcastTransmitter) (msg : Message) :
    BroadcastTransmitter × Except BroadcastError Unit :=
  let recordLength := msg.payload.length + recordHeaderLength
  if tx.capacity < recordLength then (tx, .error .messageTooLarge)
  else
    let alignedLength := alignRecord recordLength
    let tailIndex := indexOf tx.capacity tx.tail
    let contiguous := tx.capacity - tailIndex
    if contiguous < alignedLength then
      let newTail := tx.tail + BitVec.ofNat 64 contiguous
      ({ tx with
          data := writeRecord (writePadding tx.data tailIndex contiguous) 0 msg
          latest := newTail
          tail := newTail + BitVec.ofNat 64 alignedLength }, .ok ())
    else
      ({ tx with
          data := writeRecord tx.data tailIndex msg
          latest := tx.tail
          tail := tx.tail + BitVec.ofNat 64 alignedLength }, .ok ())

/-- The loop of `receive`: the messages and the position it stops at. Out of fuel it has not stopped
yet, and a payload that is not inside the data region has no result either. -/
def receiveLoop (tx : BroadcastTransmitter) : Nat → BitVec 64 → Option (List Message × BitVec 64)
  | 0, _ => none
  | fuel + 1, current =>
      if current = tx.tail then some ([], current)
      else
        let index := indexOf tx.capacity current
        let recordLength := readLength tx.data index
        let msgType := tx.data.readI32 (index + 4)
        if recordLength = 0 then some ([], current)   -- not committed yet
        else
          let rest := receiveLoop tx fuel (current + BitVec.ofNat 64 (alignRecord recordLength))
          if msgType = msgTypePadding then rest
          else if recordLength < recordHeaderLength ∨ tx.capacity < index + recordLength then none
          else
            let payload :=
              tx.data.read (index + recordHeaderLength) (recordLength - recordHeaderLength)
            rest.map fun r => (⟨msgType, payload⟩ :: r.1, r.2)

/-- A receiver that has been lapped jumps. -/
def detectLapped (tx : BroadcastTransmitter) (rx : BroadcastReceiver) : BroadcastReceiver :=
  if (tx.capacity : Int) < (tx.tail - rx.cursor).toInt then
    { cursor := tx.tail - BitVec.ofNat 64 tx.capacity, lappedCount := rx.lappedCount + 1 }
  else rx

/-- `receive`, in at most `fuel` rounds: the messages given to the handler, in order. -/
def receive (tx : BroadcastTransmitter) (fuel : Nat) (rx : BroadcastReceiver) :
    Option (List Message × BroadcastReceiver) :=
  if rx.cursor = tx.tail then some ([], rx)
  else
    (tx.receiveLoop fuel (tx.detectLapped rx).cursor).map fun r =>
      (r.1, { tx.detectLapped rx with cursor := r.2 })

end BroadcastTransmitter

/-! ## Runs of the transmitter -/

/-- The positions behind each of some records, the first of which is at `a`. -/
def recordEnds : Nat → List Record → List Nat
  | _, [] => []
  | a, r :: rs => (a + r.length) :: recordEnds (a + r.length) rs

/-- A transmitter with the messages that it has transmitted and, without wrapping, its position and
every position that its tail counter has had. -/
structure BroadcastRun where
  tx : BroadcastTransmitter
  position : Nat
  tails : List Nat
  transmitted : List Message

namespace BroadcastRun

def start (tx : BroadcastTransmitter) : BroadcastRun := ⟨tx, 0, [0], []⟩

/-- One call of `transmit`. The tail counter moves once for each record. -/
def step (s : BroadcastRun) (msg : Message) : BroadcastRun :=
  match s.tx.transmit msg with
  | (_, .error _) => s
  | (tx, .ok ()) =>
      let records := placed s.tx.capacity (indexOf s.tx.capacity s.tx.tail) msg
      { tx
        position := s.position + total Record.length records
        tails := s.tails ++ recordEnds s.position records
        transmitted := s.transmitted ++ [msg] }

def LengthsFit (s : BroadcastRun) (msg : Message) : Prop :=
  ∀ r ∈ placed s.tx.capacity (indexOf s.tx.capacity s.tx.tail) msg, r.body.recordLength < 2 ^ 31

instance (s : BroadcastRun) (msg : Message) : Decidable (s.LengthsFit msg) :=
  inferInstanceAs (Decidable (∀ r ∈ placed _ _ _, _))

/-- A receiver is more than the capacity behind, as `receive` computes it. -/
def Lapped (s : BroadcastRun) (rx : BroadcastReceiver) : Prop :=
  (s.tx.capacity : Int) < (s.tx.tail - rx.cursor).toInt

instance (s : BroadcastRun) (rx : BroadcastReceiver) : Decidable (s.Lapped rx) :=
  inferInstanceAs (Decidable (_ < _))

/-- **The condition.** The position one capacity before the tail is one that the tail counter has had:
a record starts there. -/
def LandsOnRecord (s : BroadcastRun) : Prop :=
  s.tx.capacity ≤ s.position ∧ s.position - s.tx.capacity ∈ s.tails

instance (s : BroadcastRun) : Decidable s.LandsOnRecord := inferInstanceAs (Decidable (_ ∧ _))

/-- **A receiver resynchronises**: `receive` returns, counts one more lap, delivers transmitted
messages in order up to the most recent one, and leaves the cursor at the tail. -/
def Resynchronises (s : BroadcastRun) (rx : BroadcastReceiver) : Prop :=
  ∃ fuel msgs rx', s.tx.receive fuel rx = some (msgs, rx') ∧
    rx'.lappedCount = rx.lappedCount + 1 ∧ rx'.cursor = s.tx.tail ∧
    msgs.Sublist s.transmitted ∧ msgs ≠ [] ∧ msgs.getLast? = s.transmitted.getLast?

end BroadcastRun

/-! ## What a transmission writes -/

namespace BroadcastTransmitter

def put (m : ByteStore) (r : Record) : ByteStore :=
  match r.body with
  | .padding len => writePadding m r.address len
  | .message msg => writeRecord m r.address msg

theorem read_put_of_apart {m : ByteStore} {r : Record} {a n : Nat}
    (hlen : recordHeaderLength ≤ r.length) (hapart : RangesApart a n r.address r.length) :
    (put m r).read a n = m.read a n := by
  have hheader : recordHeaderLength = 8 := rfl
  unfold put
  cases hbody : r.body with
  | padding len =>
      simp only [writePadding]
      rw [ByteStore.read_write_disjoint, ByteStore.read_write_disjoint]
      · rw [encodeI32_length]
        unfold RangesApart at hapart
        omega
      · rw [encodeI32_length]
        unfold RangesApart at hapart
        omega
  | message msg =>
      have hge := Record.message_le_length hbody
      have hlen' := Record.length_message hbody
      unfold RangesApart at hapart
      refine ByteStore.read_congr fun i hi => ?_
      simp only [writeRecord]
      rw [ByteStore.write_of_outside _ _ _ (by rw [encodeI32_length]; omega),
        ByteStore.write_of_outside _ _ _ (by rw [encodeI32_length]; omega),
        ByteStore.write_of_outside _ _ _ (by omega), ByteStore.fill_of_outside _ _ _ (by omega)]

theorem stored_put (m : ByteStore) (r : Record) : RecordStored 4 0 (put m r) r := by
  have hheader : recordHeaderLength = 8 := rfl
  have hword : ∀ (m : ByteStore) a (x : BitVec 32), (m.write a (encodeI32 x)).readI32 a = x := by
    intro m a x
    have := m.read_write_same a (encodeI32 x)
    rw [encodeI32_length] at this
    rw [ByteStore.readI32, this, ofLE_encodeI32]
  have hother : ∀ (m : ByteStore) a b n (x : BitVec 32), b + n ≤ a ∨ a + 4 ≤ b →
      (m.write a (encodeI32 x)).read b n = m.read b n := by
    intro m a b n x h
    exact m.read_write_disjoint (by rwa [encodeI32_length])
  unfold put
  cases hbody : r.body with
  | padding len =>
      simp only [writePadding]
      refine ⟨?_, ?_, fun msg hmsg => by rw [hbody] at hmsg; cases hmsg⟩
      · rw [hword, hbody]
        rfl
      · rw [ByteStore.readI32, hother _ _ _ _ _ (by omega), Nat.add_zero,
          ← ByteStore.readI32, hword, hbody]
        rfl
  | message msg =>
      simp only [writeRecord]
      refine ⟨?_, ?_, fun msg' hmsg => ?_⟩
      · rw [hword, hbody]
        rfl
      · rw [ByteStore.readI32, hother _ _ _ _ _ (by omega), Nat.add_zero, ← ByteStore.readI32, hword,
          hbody]
        rfl
      · obtain rfl : msg = msg' := by
          rw [hbody] at hmsg
          exact RecordBody.message.inj hmsg
        rw [hother _ _ _ _ _ (by omega), hother _ _ _ _ _ (by omega), ByteStore.read_write_same]

/-- **A transmission** writes the records of the message at the tail, one behind another. -/
theorem transmit_eq {tx : BroadcastTransmitter} {msg : Message}
    (hlarge : msg.payload.length + recordHeaderLength ≤ tx.capacity) :
    ∃ latest, tx.transmit msg =
      ({ tx with
          data := (placed tx.capacity (indexOf tx.capacity tx.tail) msg).foldl put tx.data
          latest
          tail := tx.tail +
            BitVec.ofNat 64 (placedLength tx.capacity (indexOf tx.capacity tx.tail) msg) },
        .ok ()) := by
  have hlen : alignRecord (msg.payload.length + recordHeaderLength) =
    (RecordBody.message msg).length := rfl
  simp only [transmit, if_neg (Nat.not_lt.mpr hlarge), hlen, placed, placedLength]
  by_cases hwrap : tx.capacity - indexOf tx.capacity tx.tail < (RecordBody.message msg).length
  · simp only [if_pos hwrap]
    exact ⟨_, by rw [BitVec.add_assoc, ← BitVec.ofNat_add]; rfl⟩
  · simp only [if_neg hwrap]
    exact ⟨_, rfl⟩

end BroadcastTransmitter

/-! ## The last turn -/

open BroadcastTransmitter (put)

/-- **The records of the last turn are intact.** The records follow one another up to the position
`T`, and those that start at most one capacity before it are stored. -/
structure Intact (C : Nat) (m : ByteStore) (rs : List Record) (T : Nat) : Prop where
  laid : Laid C Record.address Record.length 0 rs T
  stored : ∀ old ws p, rs = old ++ ws → Laid C Record.address Record.length p ws T → T ≤ p + C →
    ∀ r ∈ ws, RecordStored 4 0 m r

namespace Intact

variable {C T : Nat} {m : ByteStore} {rs : List Record}

theorem append (h : Intact C m rs T) {r : Record} (haddr : r.address = T % C)
    (hin : T % C + r.length ≤ C) (hlen : 32 ≤ r.length) (hrs : ∀ r ∈ rs, 32 ≤ r.length) :
    Intact C (put m r) (rs ++ [r]) (T + r.length) where
  laid := laid_append.mpr ⟨T, h.laid, haddr, by omega, hin, rfl⟩
  stored := by
    intro old ws p hsplit hlaid hturn
    rcases List.eq_nil_or_concat ws with rfl | ⟨ws, r', rfl⟩
    · simp
    rw [List.concat_eq_append, ← List.append_assoc] at hsplit
    obtain ⟨rfl, hlast⟩ := List.append_inj' hsplit rfl
    obtain rfl : r = r' := List.singleton_inj.mp hlast
    rw [List.concat_eq_append] at hlaid ⊢
    obtain ⟨b, hws, -, -, -, hend⟩ := laid_append.mp hlaid
    obtain rfl : b = T := Nat.add_right_cancel hend
    rw [List.forall_mem_append]
    refine ⟨fun r' hr' => ?_, by simpa using BroadcastTransmitter.stored_put m r⟩
    have hold := h.stored old ws p rfl hws (by omega) r' hr'
    have hge := hrs r' (List.mem_append_right old hr')
    have hapart := hws.apart_of_mem hturn le_rfl (show 0 < r.length by omega) hr'
    refine hold.congr (by omega) (by omega) (le_trans (by decide) hge) fun a n hlo hhi => ?_
    rw [← haddr] at hapart
    exact BroadcastTransmitter.read_put_of_apart (le_trans (by decide) hlen) (hapart.sub hlo hhi)

theorem append_laid (h : Intact C m rs T) {new : List Record} {T' : Nat}
    (hlaid : Laid C Record.address Record.length T new T') (hnew : ∀ r ∈ new, 32 ≤ r.length)
    (hrs : ∀ r ∈ rs, 32 ≤ r.length) : Intact C (new.foldl put m) (rs ++ new) T' := by
  induction new generalizing m rs T with
  | nil =>
      obtain rfl : T = T' := hlaid
      rwa [List.append_nil]
  | cons r new ih =>
      obtain ⟨haddr, -, hin, hrest⟩ := hlaid
      have hr := hnew r List.mem_cons_self
      have hnext := ih (h.append haddr hin hr hrs) hrest
        (fun r' hr' => hnew r' (List.mem_cons_of_mem r hr'))
        (List.forall_mem_append.mpr ⟨hrs, by simpa using hr⟩)
      rwa [List.append_assoc] at hnext

end Intact

/-! ## What a receiver finds -/

namespace BroadcastTransmitter

variable {tx : BroadcastTransmitter}

/-- **One round of a receive** at a stored record. -/
theorem receiveLoop_record {T a fuel : Nat} {r : Record} (htail : tx.tail = BitVec.ofNat 64 T)
    (haddr : r.address = a % tx.capacity) (hin : a % tx.capacity + r.length ≤ tx.capacity)
    (hlt : a < T) (hturn : T ≤ a + tx.capacity) (hlen : 32 ≤ r.length)
    (hstored : RecordStored 4 0 tx.data r) (hread : Readable r) :
    tx.receiveLoop (fuel + 1) (BitVec.ofNat 64 a) =
      (tx.receiveLoop fuel (BitVec.ofNat 64 (a + r.length))).map fun next =>
        (r.body.message?.toList ++ next.1, next.2) := by
  have hC := tx.capacity_lt
  have hne : BitVec.ofNat 64 a ≠ tx.tail := fun heq => by
    rw [htail] at heq
    have := (ofNat_eq_ofNat_iff (by omega) (by omega)).mp heq
    omega
  have hindex : indexOf tx.capacity (BitVec.ofNat 64 a) = r.address := by
    rw [indexOf_ofNat tx.capacity_pow (by omega), haddr]
  have hlength : readLength tx.data r.address = r.body.recordLength :=
    readLength_eq hstored.length hread.lt
  have hpos : r.body.recordLength ≠ 0 := fun h0 => by
    rw [Record.length, RecordBody.length, h0] at hlen
    revert hlen
    decide
  have hnext : BitVec.ofNat 64 a + BitVec.ofNat 64 (alignRecord r.body.recordLength) =
      BitVec.ofNat 64 (a + r.length) := (BitVec.ofNat_add ..).symm
  rw [receiveLoop, if_neg hne]
  simp only [hindex, hstored.msgType, hlength, hnext, if_neg hpos]
  cases hbody : r.body with
  | padding len =>
      rw [RecordBody.msgType_padding, if_pos rfl]
      simp
  | message msg =>
      obtain ⟨hmessage, hheader, hroom, hpayload⟩ := hstored.message hread hbody
      rw [if_neg hmessage, if_neg (by omega), hpayload]
      rfl

/-- **A whole receive** from the start of a record within the last turn. -/
theorem receiveLoop_laid {T a fuel : Nat} {rs : List Record} (htail : tx.tail = BitVec.ofNat 64 T)
    (hlaid : Laid tx.capacity Record.address Record.length a rs T) (hturn : T ≤ a + tx.capacity)
    (hrs : ∀ r ∈ rs, 32 ≤ r.length ∧ RecordStored 4 0 tx.data r ∧ Readable r)
    (hfuel : rs.length < fuel) :
    tx.receiveLoop fuel (BitVec.ofNat 64 a) = some (messagesOf rs, tx.tail) := by
  induction rs generalizing a fuel with
  | nil =>
      obtain rfl : a = T := hlaid
      obtain ⟨fuel, rfl⟩ : ∃ f, fuel = f + 1 := ⟨fuel - 1, by omega⟩
      rw [receiveLoop, if_pos htail.symm, htail]
      rfl
  | cons r rs ih =>
      obtain ⟨haddr, hpos, hin, hrest⟩ := hlaid
      obtain ⟨hlen, hstored, hread⟩ := hrs r List.mem_cons_self
      have hle := hrest.le
      obtain ⟨fuel, rfl⟩ : ∃ f, fuel = f + 1 := ⟨fuel - 1, by omega⟩
      rw [receiveLoop_record htail haddr hin (by omega) hturn hlen hstored hread,
        ih hrest (by omega) (fun r' hr' => hrs r' (List.mem_cons_of_mem r hr'))
          (by simpa using hfuel)]
      cases hbody : r.body with
      | padding len => simp [messagesOf, hbody]
      | message msg => simp [messagesOf, hbody]

theorem receiveLoop_mono {fuel fuel' : Nat} {current : BitVec 64} {r : List Message × BitVec 64}
    (h : tx.receiveLoop fuel current = some r) (hle : fuel ≤ fuel') :
    tx.receiveLoop fuel' current = some r := by
  induction fuel generalizing fuel' current r with
  | zero => cases h
  | succ fuel ih =>
      obtain ⟨fuel', rfl⟩ : ∃ f, fuel' = f + 1 := ⟨fuel' - 1, by omega⟩
      rw [receiveLoop] at h ⊢
      by_cases htail : current = tx.tail
      · rwa [if_pos htail] at h ⊢
      rw [if_neg htail] at h ⊢
      by_cases hzero : readLength tx.data (indexOf tx.capacity current) = 0
      · rwa [if_pos hzero] at h ⊢
      rw [if_neg hzero] at h ⊢
      dsimp only at h ⊢
      split_ifs at h ⊢
      · exact ih h (by omega)
      · obtain ⟨next, hnext, rfl⟩ := Option.map_eq_some_iff.mp h
        rw [ih hnext (by omega)]
        rfl

theorem receive_unique {fuel fuel' : Nat} {rx : BroadcastReceiver}
    {r r' : List Message × BroadcastReceiver} (h : tx.receive fuel rx = some r)
    (h' : tx.receive fuel' rx = some r') : r = r' := by
  unfold receive at h h'
  by_cases hcursor : rx.cursor = tx.tail
  · rw [if_pos hcursor] at h h'
    exact Option.some.inj (h.symm.trans h')
  rw [if_neg hcursor] at h h'
  obtain ⟨q, hq, rfl⟩ := Option.map_eq_some_iff.mp h
  obtain ⟨q', hq', rfl⟩ := Option.map_eq_some_iff.mp h'
  have := (receiveLoop_mono hq (le_max_left fuel fuel')).symm.trans
    (receiveLoop_mono hq' (le_max_right fuel fuel'))
  rw [Option.some.inj this]

end BroadcastTransmitter

/-! ## Runs keep the last turn intact -/

namespace BroadcastRun

/-- Every position behind a record starts the rest of the records. -/
theorem laid_of_mem_recordEnds {C a b p : Nat} {rs : List Record}
    (h : Laid C Record.address Record.length a rs b) (hp : p ∈ recordEnds a rs) :
    ∃ old ws, rs = old ++ ws ∧ Laid C Record.address Record.length p ws b := by
  induction rs generalizing a with
  | nil => cases hp
  | cons r rs ih =>
      obtain ⟨-, -, -, hrest⟩ := h
      rcases List.mem_cons.mp hp with rfl | hp
      · exact ⟨[r], rs, rfl, hrest⟩
      · obtain ⟨old, ws, rfl, hws⟩ := ih hrest hp
        exact ⟨r :: old, ws, rfl, hws⟩

/-- **What a run of the transmitter keeps.** -/
structure Inv (s : BroadcastRun) (rs : List Record) : Prop where
  tail : s.tx.tail = BitVec.ofNat 64 s.position
  aligned : 32 ∣ s.position
  intact : Intact s.tx.capacity s.tx.data rs s.position
  transmitted : messagesOf rs = s.transmitted
  starts : ∀ p ∈ s.tails, ∃ old ws, rs = old ++ ws ∧
    Laid s.tx.capacity Record.address Record.length p ws s.position
  readable : ∀ r ∈ rs, 32 ≤ r.length ∧ Readable r
  last : ∀ r ∈ rs.getLast?, ∃ msg, r.body = .message msg

variable {s : BroadcastRun} {rs : List Record} {msg : Message}

theorem inv_start {capacity : Nat} {hsize : requiredBufferSize capacity < 2 ^ 63}
    {tx : BroadcastTransmitter} (h : BroadcastTransmitter.new capacity hsize = .ok tx) :
    Inv (start tx) [] := by
  unfold BroadcastTransmitter.new at h
  split_ifs at h
  obtain rfl := Except.ok.inj h
  exact
    { tail := rfl
      aligned := Nat.dvd_zero 32
      intact := ⟨rfl, fun old ws p hsplit _ _ => by
        obtain ⟨-, rfl⟩ := List.append_eq_nil_iff.mp hsplit.symm
        simp⟩
      transmitted := rfl
      starts := by simp [start]
      readable := by simp
      last := by simp }

/-- **A transmission keeps it**, with more records behind those that were there. -/
theorem Inv.step (h : Inv s rs) (htype : msg.msgType ≠ msgTypePadding) (hfit : s.LengthsFit msg) :
    ∃ new, Inv (BroadcastRun.step s msg) (rs ++ new) := by
  unfold BroadcastRun.step
  by_cases hlarge : s.tx.capacity < msg.payload.length + recordHeaderLength
  · refine ⟨[], ?_⟩
    simp only [BroadcastTransmitter.transmit, if_pos hlarge]
    rwa [List.append_nil]
  obtain ⟨latest, htransmit⟩ := BroadcastTransmitter.transmit_eq (Nat.not_lt.mp hlarge)
  have hC := s.tx.capacity_lt
  have hge := s.tx.capacity_ge
  have hpos : 0 < s.tx.capacity := by rw [recordAlignment] at hge; omega
  have hindex : indexOf s.tx.capacity s.tx.tail = s.position % s.tx.capacity := by
    rw [h.tail, indexOf_ofNat s.tx.capacity_pow (by omega)]
  have hfits : (RecordBody.message msg).length ≤ s.tx.capacity :=
    alignRecord_le (Nat.not_lt.mp hlarge) s.tx.capacity_dvd
  have hlaid := laid_placed s.tx.capacity_dvd hpos h.aligned hfits
  have hmod : 32 ∣ s.position % s.tx.capacity :=
    (Nat.dvd_mod_iff s.tx.capacity_dvd).mpr h.aligned
  -- also the padding has a header: positions and capacity are multiples of the alignment
  have hlengths : ∀ r ∈ placed s.tx.capacity (s.position % s.tx.capacity) msg, 32 ≤ r.length :=
    fun r hr => placed_length s.tx.capacity_dvd hmod (Nat.mod_lt _ hpos) hr
  unfold LengthsFit at hfit
  rw [htransmit]
  simp only [hindex] at hfit ⊢
  have htotal : s.position +
      total Record.length (placed s.tx.capacity (s.position % s.tx.capacity) msg) =
        s.position + placedLength s.tx.capacity (s.position % s.tx.capacity) msg :=
    hlaid.eq_add_total.symm
  simp only [htotal]
  refine ⟨placed s.tx.capacity (s.position % s.tx.capacity) msg, ?_⟩
  exact
    { tail := by rw [h.tail, BitVec.ofNat_add]
      aligned := Nat.dvd_add h.aligned (placedLength_dvd s.tx.capacity_dvd hmod msg)
      intact := h.intact.append_laid hlaid hlengths fun r hr => (h.readable r hr).1
      transmitted := by rw [messagesOf_append, h.transmitted, messagesOf_placed]
      starts := by
        rw [List.forall_mem_append]
        constructor
        · -- an earlier start has the new records behind those that followed it
          intro p hp
          obtain ⟨old, ws, rfl, hws⟩ := h.starts p hp
          exact ⟨old, _, List.append_assoc .., laid_append.mpr ⟨_, hws, hlaid⟩⟩
        · intro p hp
          obtain ⟨old, ws, hsplit, hws⟩ := laid_of_mem_recordEnds hlaid hp
          exact ⟨rs ++ old, ws, by rw [hsplit, List.append_assoc], hws⟩
      readable := by
        rw [List.forall_mem_append]
        refine ⟨h.readable, fun r hr => ⟨hlengths r hr, fun msg' hbody => ?_, hfit r hr⟩⟩
        rwa [placed_message hr hbody]
      last := by
        obtain ⟨address, hlast⟩ :=
          getLast?_placed rs s.tx.capacity (s.position % s.tx.capacity) msg
        rw [hlast]
        rintro r ⟨rfl⟩
        exact ⟨msg, rfl⟩ }

/-- What a run keeps holds after all transmissions of a run. -/
theorem exists_inv_run (h : ∃ rs, Inv s rs) {msgs : List Message}
    (htypes : ∀ msg ∈ msgs, msg.msgType ≠ msgTypePadding)
    (hfit : Meets LengthsFit BroadcastRun.step s msgs) :
    ∃ rs, Inv (run BroadcastRun.step s msgs) rs := by
  have hrun := meets_and (meets_of_forall htypes) hfit
  refine @run_invariant _ _ _ _ (fun s => ∃ rs, Inv s rs) (fun s msg hinv hmsg => ?_) s h msgs hrun
  obtain ⟨rs, hrs⟩ := hinv
  obtain ⟨new, hnew⟩ := hrs.step hmsg.1 hmsg.2
  exact ⟨rs ++ new, hnew⟩

/-- **A lapped receiver resynchronises** if the position that it jumps to is the start of a record.
For every capacity, every sequence of transmissions of messages with a type other than padding and
lengths that fit the length word, and every receiver that is more than the capacity behind. -/
theorem lapped_resynchronises {capacity : Nat} {hsize : requiredBufferSize capacity < 2 ^ 63}
    {tx : BroadcastTransmitter} (hnew : BroadcastTransmitter.new capacity hsize = .ok tx)
    (msgs : List Message) (htypes : ∀ msg ∈ msgs, msg.msgType ≠ msgTypePadding)
    (hfit : Meets LengthsFit BroadcastRun.step (start tx) msgs) (rx : BroadcastReceiver)
    (hlapped : (run BroadcastRun.step (start tx) msgs).Lapped rx)
    (hlands : (run BroadcastRun.step (start tx) msgs).LandsOnRecord) :
    (run BroadcastRun.step (start tx) msgs).Resynchronises rx := by
  obtain ⟨rs, h⟩ := exists_inv_run ⟨[], inv_start hnew⟩ htypes hfit
  set s := run BroadcastRun.step (start tx) msgs
  obtain ⟨hle, hmem⟩ := hlands
  obtain ⟨old, ws, rfl, hws⟩ := h.starts _ hmem
  have hstored := h.intact.stored old ws _ rfl hws (by omega)
  have hge := s.tx.capacity_ge
  have hC := s.tx.capacity_lt
  have hpos : 0 < s.tx.capacity := by rw [recordAlignment] at hge; omega
  -- there is a record between the landing and the tail, and the last one is a message
  have hne : ws ≠ [] := fun hnil => by
    rw [hnil] at hws
    have : s.position - s.tx.capacity = s.position := hws
    omega
  obtain ⟨r, hr⟩ := Option.ne_none_iff_exists'.mp (mt List.getLast?_eq_none_iff.mp hne)
  have hlast : (old ++ ws).getLast? = some r := by rw [List.getLast?_append, hr]; rfl
  obtain ⟨msg, hmsg⟩ := h.last r hlast
  have hlanding : s.tx.tail - BitVec.ofNat 64 s.tx.capacity =
      BitVec.ofNat 64 (s.position - s.tx.capacity) := by
    rw [h.tail, BitVec.sub_eq_iff_eq_add, ← BitVec.ofNat_add, Nat.sub_add_cancel hle]
  have hloop := BroadcastTransmitter.receiveLoop_laid h.tail hws (by omega)
    (fun r hr => ⟨(h.readable r (List.mem_append_right old hr)).1, hstored r hr,
      (h.readable r (List.mem_append_right old hr)).2⟩) (Nat.lt_succ_self ws.length)
  unfold Lapped at hlapped
  have hbehind : rx.cursor ≠ s.tx.tail := fun heq => by
    rw [heq, BitVec.sub_self, BitVec.toInt_zero] at hlapped
    omega
  have hjump : s.tx.detectLapped rx =
      ⟨BitVec.ofNat 64 (s.position - s.tx.capacity), rx.lappedCount + 1⟩ := by
    rw [BroadcastTransmitter.detectLapped, if_pos hlapped, hlanding]
  refine ⟨ws.length + 1, messagesOf ws, ⟨s.tx.tail, rx.lappedCount + 1⟩, ?_, rfl, rfl, ?_, ?_, ?_⟩
  · rw [BroadcastTransmitter.receive, if_neg hbehind, hjump, hloop]
    rfl
  · rw [← h.transmitted, messagesOf_append]
    exact List.sublist_append_right ..
  · intro hnil
    have := messagesOf_getLast? hr hmsg
    rw [hnil] at this
    cases this
  · rw [← h.transmitted, messagesOf_getLast? hr hmsg, messagesOf_getLast? hlast hmsg]

def buffer128 : BroadcastTransmitter where
  toDataRegion := .zeroed128
  tail := 0
  latest := 0

/-- A response of 32 bytes, as for a publication, which takes 64 bytes of the buffer. -/
def longResponse : Message := ⟨101, toLE 8 7 ++ toLE 8 1 ++ toLE 4 1 ++ toLE 4 10 ++ toLE 8 0⟩

/-- A response of 12 bytes, as for a subscription, which takes 32 bytes of the buffer. -/
def shortResponse : Message := ⟨102, toLE 8 8 ++ toLE 4 0⟩

/-- A receiver that has not read anything, lapped by five short responses: it delivers the last
four. -/
theorem lapped_resynchronises_short :
    BroadcastTransmitter.new 128 (by decide) = .ok buffer128 ∧
      (run BroadcastRun.step (start buffer128) (List.replicate 5 shortResponse)).Lapped ⟨0, 0⟩ ∧
      (run BroadcastRun.step (start buffer128)
        (List.replicate 5 shortResponse)).Resynchronises ⟨0, 0⟩ :=
  have hnew : BroadcastTransmitter.new 128 (by decide) = .ok buffer128 := rfl
  have hlapped : (run BroadcastRun.step (start buffer128)
    (List.replicate 5 shortResponse)).Lapped ⟨0, 0⟩ := by decide +kernel
  ⟨hnew, hlapped, lapped_resynchronises hnew (List.replicate 5 shortResponse) (by decide +kernel)
    (by decide +kernel) ⟨0, 0⟩ hlapped (by decide +kernel)⟩

def mixedResponses : BroadcastRun :=
  run BroadcastRun.step (start buffer128) [longResponse, shortResponse, shortResponse, shortResponse]

/-- **A lapped receiver is stuck** in the middle of the long response: it delivers nothing, and its
cursor stays 128 bytes before the tail. -/
theorem lapped_receiver_stuck :
    0 ∈ mixedResponses.tails ∧ mixedResponses.Lapped ⟨0, 0⟩ ∧
      mixedResponses.tx.receive 1 ⟨0, 0⟩ = some ([], ⟨32, 1⟩) ∧
      ¬ mixedResponses.Resynchronises ⟨0, 0⟩ := by
  have hone : mixedResponses.tx.receive 1 ⟨0, 0⟩ = some ([], ⟨32, 1⟩) := by decide +kernel
  refine ⟨by decide +kernel, by decide +kernel, hone, ?_⟩
  rintro ⟨fuel, msgs, rx, hreceive, -, -, -, hne, -⟩
  have := BroadcastTransmitter.receive_unique hone hreceive
  exact hne (Prod.mk.inj this).1.symm

end BroadcastRun

end AeronRs
