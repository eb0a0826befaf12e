import AeronRs.Cnc.Broadcast

/-! # A receiver that keeps up

A receiver of the broadcast buffer that connects at the current tail and from then on is never more
than the capacity behind when it receives. The records behind its cursor are then all within the last
turn of the buffer, which transmissions keep intact, so each **`receive`** delivers exactly the
messages that were transmitted since the one before: `keeping_up_misses_nothing`. -/

namespace AeronRs

open Runs

def BroadcastReceiver.new (cursor : BitVec 64) : BroadcastReceiver := ⟨cursor, 0⟩

/-- A call on the buffer, by the transmitter or by the receiver. -/
inductive BroadcastAction
  | transmit (msg : Message)
  | receive

/-- A buffer with one of its receivers, the cursor of that receiver without wrapping, and how many of
the messages were transmitted before it connected or last received. -/
structure ReceiverRun where
  broadcast : BroadcastRun
  receiver : BroadcastReceiver
  cursorPosition : Nat
  seen : Nat

namespace ReceiverRun

def connect (b : BroadcastRun) : ReceiverRun where
  broadcast := b
  receiver := .new b.tx.tail
  cursorPosition := b.position
  seen := b.transmitted.length

/-- The messages that were transmitted since the receiver connected or last received. -/
def awaited (s : ReceiverRun) : List Message := s.broadcast.transmitted.drop s.seen

/-- `receive`, with a round for each record that the region can hold and one to stop. -/
def receive (s : ReceiverRun) : Option (List Message × BroadcastReceiver) :=
  s.broadcast.tx.receive (s.broadcast.tx.capacity / recordAlignment + 1) s.receiver

def step (s : ReceiverRun) : BroadcastAction → ReceiverRun
  | .transmit msg => { s with broadcast := s.broadcast.step msg }
  | .receive =>
      match s.receive with
      | none => s
      | some (_, receiver) =>
          { s with
            receiver
            cursorPosition := s.cursorPosition + (receiver.cursor - s.receiver.cursor).toNat
            seen := s.broadcast.transmitted.length }

/-- **The receiver keeps up.** Messages have a type other than padding and at most the maximum length,
and at each receive the tail is at most the capacity ahead of the cursor. -/
def KeepsUp (s : ReceiverRun) : BroadcastAction → Prop
  | .transmit msg =>
      msg.msgType ≠ msgTypePadding ∧ msg.payload.length ≤ s.broadcast.tx.maxMessageLength
  | .receive => s.broadcast.position ≤ s.cursorPosition + s.broadcast.tx.capacity

instance (s : ReceiverRun) : (a : BroadcastAction) → Decidable (s.KeepsUp a)
  | .transmit _ => inferInstanceAs (Decidable (_ ∧ _))
  | .receive => inferInstanceAs (Decidable (_ ≤ _))

/-- **A receive misses nothing**: it delivers the messages that were transmitted since the one before,
in order and unchanged, leaves the cursor at the tail and counts no lap. -/
def Delivers (s : ReceiverRun) : BroadcastAction → Prop
  | .transmit msg => (s.broadcast.tx.transmit msg).2 = .ok ()
  | .receive => s.receive = some (s.awaited, ⟨s.broadcast.tx.tail, s.receiver.lappedCount⟩)

instance (s : ReceiverRun) : (a : BroadcastAction) → Decidable (s.Delivers a)
  | .transmit _ => inferInstanceAs (Decidable (_ = _))
  | .receive => inferInstanceAs (Decidable (_ = _))

/-- **What a run keeps.** The cursor stands at the start of a record, and the records from there to the
tail are the messages that the receiver has not seen. -/
structure Inv (capacity : Nat) (s : ReceiverRun) (old ws : List Record) : Prop where
  capacity_eq : s.broadcast.tx.capacity = capacity
  broadcast : s.broadcast.Inv (old ++ ws)
  cursor : s.receiver.cursor = BitVec.ofNat 64 s.cursorPosition
  laid : Laid capacity Record.address Record.length s.cursorPosition ws s.broadcast.position
  seen : s.seen = (messagesOf old).length

namespace Inv

variable {capacity : Nat} {s : ReceiverRun} {old ws : List Record}

/-- The messages behind the cursor are those that the receiver waits for. -/
theorem messagesOf_eq (h : Inv capacity s old ws) : messagesOf ws = s.awaited := by
  rw [awaited, ← h.broadcast.transmitted, h.seen, messagesOf_append, List.drop_left]

theorem of_tail (h : s.broadcast.Inv old) (hcapacity : s.broadcast.tx.capacity = capacity)
    (hcursor : s.receiver.cursor = s.broadcast.tx.tail)
    (hposition : s.cursorPosition = s.broadcast.position)
    (hseen : s.seen = s.broadcast.transmitted.length) : Inv capacity s old [] where
  capacity_eq := hcapacity
  broadcast := by rwa [List.append_nil]
  cursor := by rw [hcursor, h.tail, hposition]
  laid := hposition
  seen := by rw [hseen, h.transmitted]

end Inv

end ReceiverRun

namespace BroadcastRun

variable {s : BroadcastRun} {msg : Message}

/-- In a buffer of at most `2 ^ 30` bytes the lengths of all permitted messages fit. -/
theorem lengthsFit_of_le (hcapacity : s.tx.capacity ≤ 2 ^ 30)
    (hsize : msg.payload.length + recordHeaderLength ≤ s.tx.capacity) : s.LengthsFit msg := by
  intro r hr
  unfold placed at hr
  split_ifs at hr
  · rcases List.mem_cons.mp hr with rfl | hr
    · rw [RecordBody.recordLength_padding]
      omega
    · obtain rfl := List.mem_singleton.mp hr
      rw [RecordBody.recordLength_message]
      omega
  · obtain rfl := List.mem_singleton.mp hr
    rw [RecordBody.recordLength_message]
    omega

theorem step_capacity (s : BroadcastRun) (msg : Message) :
    (s.step msg).tx.capacity = s.tx.capacity := by
  unfold step
  by_cases hlarge : s.tx.capacity < msg.payload.length + recordHeaderLength
  · simp only [BroadcastTransmitter.transmit, if_pos hlarge]
  · obtain ⟨latest, htransmit⟩ := BroadcastTransmitter.transmit_eq (Nat.not_lt.mp hlarge)
    rw [htransmit]

theorem run_capacity (s : BroadcastRun) (msgs : List Message) :
    (run step s msgs).tx.capacity = s.tx.capacity := by
  induction msgs generalizing s with
  | nil => rfl
  | cons msg msgs ih => rw [run_cons, ih, step_capacity]

theorem add_header_le (hsize : msg.payload.length ≤ s.tx.maxMessageLength) :
    msg.payload.length + recordHeaderLength ≤ s.tx.capacity := by
  have hge := s.tx.capacity_ge
  rw [recordAlignment] at hge
  rw [BroadcastTransmitter.maxMessageLength] at hsize
  rw [recordHeaderLength] at hsize ⊢
  omega

end BroadcastRun

namespace ReceiverRun

namespace Inv

variable {capacity : Nat} {s : ReceiverRun} {old ws : List Record} {msg : Message}

/-- **A transmission** lays its records behind those that the receiver has not seen. -/
theorem transmit (h : Inv capacity s old ws) (hcapacity : capacity ≤ 2 ^ 30)
    (htype : msg.msgType ≠ msgTypePadding)
    (hsize : msg.payload.length ≤ s.broadcast.tx.maxMessageLength) :
    ∃ ws', Inv capacity (step s (.transmit msg)) old ws' := by
  have hfit : s.broadcast.LengthsFit msg :=
    BroadcastRun.lengthsFit_of_le (h.capacity_eq ▸ hcapacity) (BroadcastRun.add_header_le hsize)
  obtain ⟨new, hnew⟩ := h.broadcast.step htype hfit
  have hcap := s.broadcast.step_capacity msg
  -- both layouts start at zero, so the old one ends where the new records begin
  have hlaid := hnew.intact.laid
  rw [hcap] at hlaid
  obtain ⟨b, hold, hnewLaid⟩ := laid_append.mp hlaid
  obtain rfl : b = s.broadcast.position :=
    hold.eq_add_total.trans h.broadcast.intact.laid.eq_add_total.symm
  rw [List.append_assoc] at hnew
  rw [h.capacity_eq] at hnewLaid
  exact ⟨ws ++ new,
    { capacity_eq := hcap.trans h.capacity_eq
      broadcast := hnew
      cursor := h.cursor
      laid := laid_append.mpr ⟨_, h.laid, hnewLaid⟩
      seen := h.seen }⟩

/-- The records behind the cursor are stored, as long as they fit one turn. -/
theorem stored (h : Inv capacity s old ws) (hturn : s.broadcast.position ≤ s.cursorPosition + capacity)
    {r : Record} (hr : r ∈ ws) :
    32 ≤ r.length ∧ RecordStored 4 0 s.broadcast.tx.data r ∧ Readable r := by
  obtain ⟨hlen, hread⟩ := h.broadcast.readable r (List.mem_append_right old hr)
  have hlaid := h.laid
  rw [← h.capacity_eq] at hlaid hturn
  exact ⟨hlen, h.broadcast.intact.stored old ws _ rfl hlaid hturn r hr, hread⟩

theorem detectLapped_eq (h : Inv capacity s old ws)
    (hturn : s.broadcast.position ≤ s.cursorPosition + capacity) :
    s.broadcast.tx.detectLapped s.receiver = s.receiver := by
  have hC := s.broadcast.tx.capacity_lt
  have hle := h.laid.le
  have hcap := h.capacity_eq
  rw [BroadcastTransmitter.detectLapped, h.broadcast.tail, h.cursor,
    toInt_sub_ofNat hle (by omega), if_neg (by omega)]

/-- **A receive of a receiver that keeps up** delivers the messages behind its cursor. -/
theorem receive_eq (h : Inv capacity s old ws)
    (hturn : s.broadcast.position ≤ s.cursorPosition + capacity) :
    s.receive = some (s.awaited, ⟨s.broadcast.tx.tail, s.receiver.lappedCount⟩) := by
  have hC := s.broadcast.tx.capacity_lt
  have hle := h.laid.le
  have hcap := h.capacity_eq
  unfold ReceiverRun.receive BroadcastTransmitter.receive
  rw [← h.messagesOf_eq]
  by_cases hcursor : s.receiver.cursor = s.broadcast.tx.tail
  · -- counters this close together are equal only if nothing lies between them
    have hsame : s.cursorPosition = s.broadcast.position := by
      rw [h.cursor, h.broadcast.tail] at hcursor
      exact (ofNat_eq_ofNat_iff hle (by omega)).mp hcursor
    have hlaid := h.laid
    rw [hsame] at hlaid
    rw [if_pos hcursor, hlaid.eq_nil, ← hcursor]
    rfl
  · have hlaid := h.laid
    rw [← hcap] at hlaid
    have hcount := hlaid.length_mul_le fun r hr => (h.stored hturn hr).1
    have hfuel : ws.length < s.broadcast.tx.capacity / recordAlignment + 1 := by
      rw [recordAlignment]
      omega
    have hloop := BroadcastTransmitter.receiveLoop_laid h.broadcast.tail hlaid (by omega)
      (fun r hr => h.stored hturn hr) hfuel
    rw [if_neg hcursor, h.detectLapped_eq hturn, h.cursor, hloop]
    rfl

theorem receive (h : Inv capacity s old ws)
    (hturn : s.broadcast.position ≤ s.cursorPosition + capacity) :
    Inv capacity (step s .receive) (old ++ ws) [] := by
  have hC := s.broadcast.tx.capacity_lt
  have hle := h.laid.le
  have hcap := h.capacity_eq
  have hadvance : s.cursorPosition + (s.broadcast.tx.tail - s.receiver.cursor).toNat =
      s.broadcast.position := by
    have hsub : s.broadcast.tx.tail - s.receiver.cursor =
        BitVec.ofNat 64 (s.broadcast.position - s.cursorPosition) := by
      rw [h.broadcast.tail, h.cursor, BitVec.sub_eq_iff_eq_add, ← BitVec.ofNat_add,
        Nat.sub_add_cancel hle]
    rw [hsub, BitVec.toNat_ofNat, Nat.mod_eq_of_lt (by omega)]
    omega
  simp only [step, h.receive_eq hturn]
  exact of_tail h.broadcast hcap rfl hadvance rfl

end Inv

/-- **Each call keeps the invariant and misses nothing.** -/
theorem inv_step {capacity : Nat} (hcapacity : capacity ≤ 2 ^ 30) {s : ReceiverRun}
    {a : BroadcastAction} (h : ∃ old ws, Inv capacity s old ws) (hkeeps : s.KeepsUp a) :
    (∃ old ws, Inv capacity (step s a) old ws) ∧ s.Delivers a := by
  obtain ⟨old, ws, hinv⟩ := h
  cases a with
  | transmit msg =>
      obtain ⟨htype, hsize⟩ := hkeeps
      obtain ⟨ws', hws'⟩ := hinv.transmit hcapacity htype hsize
      obtain ⟨latest, htransmit⟩ :=
        BroadcastTransmitter.transmit_eq (BroadcastRun.add_header_le hsize)
      refine ⟨⟨old, ws', hws'⟩, ?_⟩
      simp only [Delivers, htransmit]
  | receive =>
      have hturn : s.broadcast.position ≤ s.cursorPosition + capacity := hinv.capacity_eq ▸ hkeeps
      exact ⟨⟨old ++ ws, [], hinv.receive hturn⟩, hinv.receive_eq hturn⟩

/-- A permitted message: of a type other than padding and at most the maximum length. -/
def Permitted (tx : BroadcastTransmitter) (msg : Message) : Prop :=
  msg.msgType ≠ msgTypePadding ∧ msg.payload.length ≤ tx.maxMessageLength

instance (tx : BroadcastTransmitter) (msg : Message) : Decidable (Permitted tx msg) :=
  inferInstanceAs (Decidable (_ ∧ _))

theorem meets_lengthsFit {s : BroadcastRun} (hcapacity : s.tx.capacity ≤ 2 ^ 30)
    {msgs : List Message} (hmsgs : ∀ msg ∈ msgs, Permitted s.tx msg) :
    Meets BroadcastRun.LengthsFit BroadcastRun.step s msgs := by
  induction msgs generalizing s with
  | nil => trivial
  | cons msg msgs ih =>
      have hmsg := hmsgs msg List.mem_cons_self
      have hcap := s.step_capacity msg
      refine ⟨BroadcastRun.lengthsFit_of_le hcapacity (BroadcastRun.add_header_le hmsg.2),
        ih (hcap ▸ hcapacity) fun msg' hmsg' => ?_⟩
      obtain ⟨htype, hsize⟩ := hmsgs msg' (List.mem_cons_of_mem msg hmsg')
      refine ⟨htype, ?_⟩
      rwa [BroadcastTransmitter.maxMessageLength, hcap]

/-- **A receiver that keeps up misses nothing.** For every capacity up to `2 ^ 30` that the transmitter
accepts, every receiver that connects at the current tail, after whatever was transmitted before, and
every sequence of transmissions and receives in which the tail is at most the capacity ahead of the
cursor at each receive: each receive returns, delivers exactly the messages transmitted since the one
before, in order and with their types and payloads, leaves the cursor at the tail and counts no
lap. -/
theorem keeping_up_misses_nothing {capacity : Nat} {hsize : requiredBufferSize capacity < 2 ^ 63}
    {tx : BroadcastTransmitter} (hnew : BroadcastTransmitter.new capacity hsize = .ok tx)
    (hcapacity : capacity ≤ 2 ^ 30) {before : List Message}
    (hbefore : ∀ msg ∈ before, Permitted tx msg) {as : List BroadcastAction}
    (hkeeps : Meets KeepsUp step
      (connect (run BroadcastRun.step (BroadcastRun.start tx) before)) as) :
    Meets Delivers step (connect (run BroadcastRun.step (BroadcastRun.start tx) before)) as := by
  have hcap : tx.capacity = capacity := by
    unfold BroadcastTransmitter.new at hnew
    split_ifs at hnew
    obtain rfl := Except.ok.inj hnew
    rfl
  have hfit : Meets BroadcastRun.LengthsFit BroadcastRun.step (BroadcastRun.start tx) before :=
    meets_lengthsFit (hcap ▸ hcapacity) hbefore
  obtain ⟨rs, hrs⟩ := BroadcastRun.exists_inv_run ⟨[], BroadcastRun.inv_start hnew⟩
    (fun msg hmsg => (hbefore msg hmsg).1) hfit
  have hconnect : Inv capacity
      (connect (run BroadcastRun.step (BroadcastRun.start tx) before)) rs [] :=
    Inv.of_tail hrs ((BroadcastRun.run_capacity _ before).trans hcap) rfl rfl rfl
  exact @meets_of_invariant _ _ _ _ _ (fun s => ∃ old ws, Inv capacity s old ws)
    (fun _ _ => inv_step hcapacity) _ ⟨rs, [], hconnect⟩ as hkeeps

/-- A receiver that connects after five responses, which have wrapped the buffer, and receives three
more in two turns. -/
def keepingUp : List BroadcastAction :=
  [.transmit BroadcastRun.longResponse, .receive, .transmit BroadcastRun.shortResponse,
    .transmit BroadcastRun.longResponse, .receive, .receive]

theorem keeping_up_wrapped :
    Meets KeepsUp step (connect (run BroadcastRun.step (BroadcastRun.start BroadcastRun.buffer128)
      (List.replicate 5 BroadcastRun.shortResponse))) keepingUp ∧
    Meets Delivers step (connect (run BroadcastRun.step (BroadcastRun.start BroadcastRun.buffer128)
      (List.replicate 5 BroadcastRun.shortResponse))) keepingUp := by
  have hnew : BroadcastTransmitter.new 128 (by decide) = .ok BroadcastRun.buffer128 := rfl
  have hkeeps : Meets KeepsUp step (connect (run BroadcastRun.step
      (BroadcastRun.start BroadcastRun.buffer128)
      (List.replicate 5 BroadcastRun.shortResponse))) keepingUp := by decide +kernel
  exact ⟨hkeeps, keeping_up_misses_nothing hnew (by decide) (by decide +kernel) hkeeps⟩

end ReceiverRun

end AeronRs
