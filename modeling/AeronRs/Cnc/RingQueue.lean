import AeronRs.Cnc.RingProducers

/-! # The command ring as a queue

Writes and reads that do not overlap. A write is then a claim and all its stores at once, so the
invariant of the ring with producers carries over with every record published, and the ring is a
first-in first-out queue: `ring_is_queue`.

A message of the maximum length fills the whole ring, and then it fits only where the tail stands at
the start of the data region: `empty_ring_write_iff` says which messages an empty ring accepts. -/

namespace AeronRs

open Runs

/-- A call on the ring. -/
inductive QueueAction
  | write (msg : Message)
  | read

/-- A ring with the messages of the writes that returned `Ok` and those that reads delivered. -/
structure QueueRun where
  rb : RingBuffer
  accepted : List Message
  delivered : List Message
  faulted : Bool

namespace QueueRun

def start (rb : RingBuffer) : QueueRun := ⟨rb, [], [], false⟩

def step (q : QueueRun) : QueueAction → QueueRun
  | .write msg =>
      match q.rb.write msg with
      | (rb, .ok ()) => { q with rb, accepted := q.accepted ++ [msg] }
      | (rb, .error _) => { q with rb }
  | .read =>
      match q.rb.read with
      | none => { q with faulted := true }
      | some (msgs, rb) => { q with rb, delivered := q.delivered ++ msgs }

end QueueRun

/-- A message type of at least one. -/
def QueueAction.TypeGeOne : QueueAction → Prop
  | .write msg => 1 ≤ msg.msgType.toInt
  | .read => True

instance : (a : QueueAction) → Decidable a.TypeGeOne
  | .write _ => inferInstanceAs (Decidable (_ ≤ _))
  | .read => inferInstanceAs (Decidable True)

/-! ## Storing a whole write -/

namespace Claimed

def publish (r : Claimed) : Claimed := { r with done := r.stores.length }

theorem published_publish (r : Claimed) : r.publish.Published := le_refl r.stores.length

@[simp] theorem publish_toRecord (r : Claimed) : r.publish.toRecord = r.toRecord := rfl

end Claimed

/-- Published records are passed over in the search for a producer's next store. -/
theorem nextStore_append {producer : Nat} {before after : List Claimed} {r : Claimed}
    {st : RingBuffer.Store} (hbefore : ∀ r ∈ before, r.Published) (hproducer : r.producer = producer)
    (hst : r.stores[r.done]? = some st) :
    nextStore producer (before ++ r :: after) = some (st, before ++ r.advance :: after) := by
  induction before with
  | nil =>
      have hnot : ¬ r.Published := by
        obtain ⟨hlt, -⟩ := List.getElem?_eq_some_iff.mp hst
        exact Nat.not_le.mpr hlt
      rw [List.nil_append, nextStore, if_pos ⟨hproducer, hnot⟩, hst]
      rfl
  | cons r' before ih =>
      have hr' := hbefore r' List.mem_cons_self
      rw [List.cons_append, nextStore, if_neg fun h => h.2 hr',
        ih fun r hr => hbefore r (List.mem_cons_of_mem r' hr)]
      rfl

namespace RingRun

def withStores (s : RingRun) (sts : List RingBuffer.Store) (records : List Claimed) : RingRun :=
  { s with rb := s.rb.withData (sts.foldl RingBuffer.Store.apply s.rb.data), records }

/-- **The rest of a record** is stored by as many steps as it has stores left. -/
theorem run_store_record {s : RingRun} {producer : Nat} {before after : List Claimed} {r : Claimed}
    (hbefore : ∀ r ∈ before, r.Published) (hproducer : r.producer = producer) {n : Nat}
    (hn : r.done + n = r.stores.length) (hrecords : s.records = before ++ r :: after) :
    run step s (List.replicate n (.store producer)) =
      s.withStores (r.stores.drop r.done) (before ++ r.publish :: after) := by
  induction n generalizing s r with
  | zero =>
      have hdone : r.done = r.stores.length := hn
      have hpublish : r.publish = r := by rw [Claimed.publish, ← hdone]
      rw [hpublish, ← hrecords, hdone, List.drop_length]
      rfl
  | succ n ih =>
      have hlt : r.done < r.stores.length := by omega
      have hst := List.getElem?_eq_getElem hlt
      have hstep : step s (.store producer) =
          s.withStores [r.stores[r.done]] (before ++ r.advance :: after) := by
        simp only [step, hrecords, nextStore_append hbefore hproducer hst]
        rfl
      have hadvance : r.advance.publish = r.publish := rfl
      have hn' : r.advance.done + n = r.advance.stores.length :=
        (Nat.add_right_comm r.done 1 n).trans hn
      have hproducer' : r.advance.producer = producer := hproducer
      rw [List.replicate_succ, run_cons, hstep, ih hproducer' hn' rfl, hadvance,
        List.drop_eq_getElem_cons hlt]
      rfl

/-- **All records of a write** are stored by as many steps as they have stores. -/
theorem run_store_records {s : RingRun} {producer : Nat} {before rs : List Claimed}
    (hbefore : ∀ r ∈ before, r.Published) (hrs : ∀ r ∈ rs, r.producer = producer ∧ r.done = 0)
    (hrecords : s.records = before ++ rs) :
    run step s (List.replicate (rs.flatMap Claimed.stores).length (.store producer)) =
      s.withStores (rs.flatMap Claimed.stores) (before ++ rs.map Claimed.publish) := by
  induction rs generalizing s before with
  | nil =>
      rw [List.append_nil] at hrecords
      simp [withStores, RingBuffer.withData, ← hrecords]
  | cons r rs ih =>
      obtain ⟨hproducer, hdone⟩ := hrs r List.mem_cons_self
      have hfirst := run_store_record hbefore hproducer (by rw [hdone, Nat.zero_add]) hrecords
      rw [hdone, List.drop_zero] at hfirst
      have hbefore' : ∀ r' ∈ before ++ [r.publish], r'.Published :=
        List.forall_mem_append.mpr ⟨hbefore, by simpa using r.published_publish⟩
      rw [List.flatMap_cons, List.length_append, List.replicate_add, run_append, hfirst,
        ih hbefore' (fun r' hr' => hrs r' (List.mem_cons_of_mem r hr'))
          (by simp [withStores])]
      simp [withStores, RingBuffer.withData, List.foldl_append]

/-- **A write that nothing interrupts** is a claim followed by all its stores. -/
theorem write_eq_run {s : RingRun} {msg : Message} {c : RingBuffer.Claim} (producer : Nat)
    (hpublished : ∀ r ∈ s.records, r.Published) (hclaim : s.rb.claim msg.payload.length = .ok c) :
    ∃ n, run step s (.claim producer msg :: List.replicate n (.store producer)) =
      { s with
        rb := (s.rb.write msg).1
        records := s.records ++
          ((c.records msg).map fun r => (⟨r, producer, 0⟩ : Claimed)).map Claimed.publish } := by
  have hidle : ¬ s.Writing producer := fun ⟨r, hr, _, hnot⟩ => hnot (hpublished r hr)
  set rs := (c.records msg).map fun r => (⟨r, producer, 0⟩ : Claimed) with hrs
  have hstores : rs.flatMap Claimed.stores = (c.records msg).flatMap RingBuffer.stores := by
    rw [hrs, List.flatMap_map]
    rfl
  refine ⟨(rs.flatMap Claimed.stores).length, ?_⟩
  have hfresh : ∀ r ∈ rs, r.producer = producer ∧ r.done = 0 := fun r hr => by
    obtain ⟨r, -, rfl⟩ := List.mem_map.mp hr
    exact ⟨rfl, rfl⟩
  have hstep : step s (.claim producer msg) =
      { s with rb := { s.rb with tail := c.newTail }, records := s.records ++ rs } := by
    simp only [step, if_neg hidle, hclaim, hrs]
  rw [run_cons, hstep, run_store_records hpublished hfresh rfl]
  simp only [withStores, RingBuffer.withData, RingBuffer.write, hclaim, hstores]

theorem meets_stores (s : RingRun) (producer n : Nat) :
    Meets Allowed step s (List.replicate n (.store producer)) := by
  induction n generalizing s with
  | zero => trivial
  | succ n ih => exact ⟨trivial, ih _⟩

end RingRun

namespace QueueRun

open RingRun (Holds Inv Sound)

/-- **The calls seen as steps of producers.** Every record has been published and can be seen. -/
structure Refines (q : QueueRun) (s : RingRun) : Prop where
  rb : s.rb = q.rb
  delivered : s.delivered = q.delivered
  accepted : messagesOfClaimed s.records = q.accepted
  visible : ∀ r ∈ s.records, r.Visible
  holds : s.Holds
  faulted : q.faulted = false

/-- A message of type one or more fits the condition of a claim on a ring of at most `2 ^ 30` bytes. -/
theorem allowed_claim {s : RingRun} (hcapacity : s.rb.capacity ≤ 2 ^ 30) {producer : Nat}
    {msg : Message} (htype : 1 ≤ msg.msgType.toInt)
    (hlarge : msg.payload.length + recordHeaderLength ≤ s.rb.capacity) :
    s.Allowed (.claim producer msg) := by
  refine ⟨by omega, fun r hr => ?_⟩
  unfold placed at hr
  split_ifs at hr
  · rcases List.mem_cons.mp hr with rfl | hr
    · simp only [RecordBody.recordLength_padding]
      omega
    · obtain rfl := List.mem_singleton.mp hr
      simp only [RecordBody.recordLength_message]
      omega
  · obtain rfl := List.mem_singleton.mp hr
    simp only [RecordBody.recordLength_message]
    omega

theorem msgType_ne_zero {msg : Message} (htype : 1 ≤ msg.msgType.toInt) {C index : Nat} {r : Record}
    (hr : r ∈ placed C index msg) : r.body.msgType ≠ 0 := by
  have hmsg : msg.msgType ≠ 0 := fun h => by
    rw [h] at htype
    revert htype
    decide
  cases hbody : r.body with
  | padding len =>
      rw [RecordBody.msgType_padding]
      decide
  | message msg' =>
      rw [placed_message hr hbody]
      exact hmsg

variable {q : QueueRun} {s : RingRun}

/-- **The outcome of a write** on a ring whose positions are at most one turn apart. -/
theorem write_eq {rb : RingBuffer} {H T : Nat} (h : rb.At H T) (msg : Message) :
    rb.write msg =
      if rb.capacity < msg.payload.length + recordHeaderLength then (rb, .error .messageTooLarge)
      else if rb.freeBytes < rb.roomFor msg then (rb, .error .full)
      else ((rb.write msg).1, .ok ()) := by
  unfold RingBuffer.write
  rw [h.claim_eq msg]
  split_ifs <;> rfl

/-- **A write** refines a claim and all its stores. -/
theorem Refines.write (h : Refines q s) (hcapacity : q.rb.capacity ≤ 2 ^ 30) {msg : Message}
    (htype : 1 ≤ msg.msgType.toInt) : ∃ s', Refines (step q (.write msg)) s' := by
  obtain ⟨passed, live, H, T, hinv⟩ := h.holds
  have hring := hinv.ring
  rw [h.rb] at hring
  simp only [step]
  by_cases hlarge : q.rb.capacity < msg.payload.length + recordHeaderLength
  · rw [write_eq hring, if_pos hlarge]
    exact ⟨s, h⟩
  by_cases hroom : q.rb.freeBytes < q.rb.roomFor msg
  · rw [write_eq hring, if_neg hlarge, if_pos hroom]
    exact ⟨s, h⟩
  have hclaim : s.rb.claim msg.payload.length = .ok (s.rb.claimed msg) := by
    rw [hinv.ring.claim_eq msg, h.rb, if_neg hlarge, if_neg hroom]
  -- one producer alone: its claim, then as many stores as its records have
  obtain ⟨n, hrun⟩ := RingRun.write_eq_run 0 (fun r hr => (h.visible r hr).1) hclaim
  have hholds := run_invariant (fun _ _ => RingRun.holds_step) h.holds
    (show Meets RingRun.Allowed RingRun.step s (.claim 0 msg :: List.replicate n (.store 0)) from
      ⟨allowed_claim (h.rb ▸ hcapacity) htype (h.rb ▸ Nat.not_lt.mp hlarge),
        RingRun.meets_stores _ 0 n⟩)
  rw [hrun] at hholds
  rw [write_eq hring, if_neg hlarge, if_neg hroom]
  refine ⟨_, ⟨?_, ?_, ?_, ?_, hholds, h.faulted⟩⟩
  · rw [h.rb]
  · exact h.delivered
  · rw [messagesOfClaimed, List.map_append, messagesOf_append]
    congr 1
    · exact h.accepted
    · rw [List.map_map, List.map_map]
      simp [Function.comp_def, RingBuffer.claimed_records]
  · rw [List.forall_mem_append]
    refine ⟨h.visible, fun r hr => ?_⟩
    obtain ⟨claimed, hclaimed, rfl⟩ := List.mem_map.mp hr
    obtain ⟨record, hrecord, rfl⟩ := List.mem_map.mp hclaimed
    rw [RingBuffer.claimed_records] at hrecord
    exact ⟨Claimed.published_publish _, msgType_ne_zero htype hrecord⟩

/-- **A read** delivers everything that is still in the ring, and the bytes in use are those of its
records. -/
theorem Refines.read (h : Refines q s) :
    ∃ rest rb, q.rb.read = some (rest, rb) ∧ q.delivered ++ rest = q.accepted ∧
      (∃ live, messagesOf live = rest ∧ q.rb.size = total Record.length live) ∧
      Refines (step q .read) (RingRun.step s .read) := by
  obtain ⟨passed, live, H, T, hinv⟩ := h.holds
  have hallowed : s.Allowed .read := by
    have hnone : s.records.find? (fun r => ¬ r.Published) = none :=
      List.find?_eq_none.mpr fun r hr => by simpa using (h.visible r hr).1
    intro r hr
    rw [hnone] at hr
    cases hr
  obtain ⟨pub, rest, H', hlive, hrest, hinv'⟩ := hinv.read hallowed
  -- every record can be seen, so the read passes them all
  obtain rfl : rest = [] := by
    cases rest with
    | nil => rfl
    | cons r rest => exact absurd (h.visible r (by simp [hinv.records, hlive])) (hrest r rfl)
  rw [List.append_nil] at hlive
  subst hlive
  have hholds : (RingRun.step s .read).Holds := ⟨_, _, _, _, hinv'⟩
  have hnofault := hinv'.faulted
  have hdelivered := hinv'.delivered
  cases hread : s.rb.read with
  | none =>
      simp only [RingRun.step, hread] at hnofault
      cases hnofault
  | some result =>
      obtain ⟨rest, rb⟩ := result
      simp only [RingRun.step, hread] at hdelivered hholds ⊢
      have hq : q.rb.read = some (rest, rb) := h.rb ▸ hread
      have haccepted : q.delivered ++ rest = q.accepted := by
        rw [← h.delivered, hdelivered, ← hinv.records, h.accepted]
      refine ⟨rest, rb, hq, haccepted, ⟨live.map Claimed.toRecord, ?_, ?_⟩, ?_⟩
      · rw [hinv.delivered, messagesOfClaimed, messagesOfClaimed, List.map_append,
          messagesOf_append] at hdelivered
        exact (List.append_cancel_left hdelivered).symm
      · rw [← h.rb, hinv.ring.size_eq, hinv.laid.eq_add_total, Nat.add_sub_cancel_left]
      · simp only [step, hq]
        exact ⟨rfl, congrArg (· ++ rest) h.delivered, h.accepted, h.visible, hholds, h.faulted⟩

/-- **The ring as a queue**, on a run: the calls refine steps of producers, and the capacity is that
of the new ring. -/
def Inv (capacity : Nat) (q : QueueRun) : Prop := q.rb.capacity = capacity ∧ ∃ s, Refines q s

theorem inv_step {capacity : Nat} (hcapacity : capacity ≤ 2 ^ 30) {a : QueueAction}
    (h : Inv capacity q) (htype : a.TypeGeOne) : Inv capacity (step q a) := by
  obtain ⟨rfl, s, hrefines⟩ := h
  cases a with
  | write msg =>
      refine ⟨?_, hrefines.write hcapacity htype⟩
      have hcap := q.rb.write_capacity msg
      simp only [step]
      split <;> rename_i heq <;> rw [heq] at hcap <;> exact hcap
  | read =>
      obtain ⟨rest, rb, hread, -, -, hrefines'⟩ := hrefines.read
      refine ⟨?_, _, hrefines'⟩
      simp only [step, hread]
      exact RingBuffer.read_capacity hread

theorem inv_start {capacity : Nat} {hsize : requiredBufferSize capacity < 2 ^ 63} {rb : RingBuffer}
    (h : RingBuffer.new capacity hsize = .ok rb) : Inv capacity (start rb) := by
  refine ⟨?_, RingRun.start rb, rfl, rfl, rfl, by simp [RingRun.start], ⟨_, _, _, _,
    RingRun.inv_start h⟩, rfl⟩
  unfold RingBuffer.new at h
  split_ifs at h
  obtain rfl := Except.ok.inj h
  rfl

/-- **The command ring is a first-in first-out queue.** After any sequence of writes (of types one or
more) and reads on a new ring of at most `2 ^ 30` bytes: the messages delivered, followed by those
that a read would deliver now, are those of the writes that returned `Ok`, in order and unchanged; the
bytes in use are those of the records of the messages still there; a write fails as full exactly when
its record and the padding that it needs do not fit in the other bytes; and a write that fails changes
nothing. -/
theorem ring_is_queue {capacity : Nat} {hsize : requiredBufferSize capacity < 2 ^ 63}
    {rb : RingBuffer} (hnew : RingBuffer.new capacity hsize = .ok rb) (hcapacity : capacity ≤ 2 ^ 30)
    (as : List QueueAction) (htypes : ∀ a ∈ as, a.TypeGeOne) :
    (run step (start rb) as).faulted = false ∧
    (∃ rest rb', (run step (start rb) as).rb.read = some (rest, rb') ∧
      (run step (start rb) as).delivered ++ rest = (run step (start rb) as).accepted ∧
      ∃ live, messagesOf live = rest ∧
        (run step (start rb) as).rb.size = total Record.length live) ∧
    ∀ msg, (((run step (start rb) as).rb.write msg).2 = .error .full ↔
        msg.payload.length + recordHeaderLength ≤ capacity ∧
        (run step (start rb) as).rb.freeBytes < (run step (start rb) as).rb.roomFor msg) ∧
      ∀ e, ((run step (start rb) as).rb.write msg).2 = .error e →
        ((run step (start rb) as).rb.write msg).1 = (run step (start rb) as).rb := by
  obtain ⟨hcap, s, hrefines⟩ : Inv capacity (run step (start rb) as) :=
    run_invariant (fun _ _ => inv_step hcapacity) (inv_start hnew) (meets_of_forall htypes)
  obtain ⟨rest, rb', hread, hfifo, hlive, -⟩ := hrefines.read
  obtain ⟨passed, live, H, T, hinv⟩ := hrefines.holds
  have hring := hinv.ring
  rw [hrefines.rb] at hring
  refine ⟨hrefines.faulted, ⟨rest, rb', hread, hfifo, hlive⟩, fun msg => ?_⟩
  rw [write_eq hring msg, hcap]
  split_ifs with hlarge hroom
  · exact ⟨⟨nofun, fun h => absurd hlarge (Nat.not_lt.mpr h.1)⟩, fun _ _ => rfl⟩
  · exact ⟨⟨fun _ => ⟨Nat.not_lt.mp hlarge, hroom⟩, fun _ => rfl⟩, fun _ _ => rfl⟩
  · exact ⟨⟨nofun, fun h => absurd h.2 hroom⟩, nofun⟩

def ring128 : RingBuffer where
  toDataRegion := .zeroed128
  head := 0
  tail := 0

/-- The last message finds 32 bytes before the end of the ring, takes them as padding and starts at
address 0. -/
def wrappedCalls : List QueueAction :=
  [.write RingRun.longMessage, .write (RingRun.shortMessage 2), .read, .write RingRun.longMessage]

theorem ring_is_queue_wrapped :
    (run step (start ring128) wrappedCalls).rb.tail = 192 ∧
      (run step (start ring128) wrappedCalls).delivered =
        [RingRun.longMessage, RingRun.shortMessage 2] ∧
      ∃ rest rb', (run step (start ring128) wrappedCalls).rb.read = some (rest, rb') ∧
        (run step (start ring128) wrappedCalls).delivered ++ rest =
          (run step (start ring128) wrappedCalls).accepted := by
  have hnew : RingBuffer.new 128 (by decide) = .ok ring128 := rfl
  obtain ⟨-, ⟨rest, rb', hread, hfifo, -⟩, -⟩ :=
    ring_is_queue hnew (by decide) wrappedCalls (by decide +kernel)
  exact ⟨by decide +kernel, by decide +kernel, rest, rb', hread, hfifo⟩

/-! ## What an empty ring accepts -/

theorem run_capacity (q : QueueRun) (as : List QueueAction) :
    (run step q as).rb.capacity = q.rb.capacity := by
  induction as generalizing q with
  | nil => rfl
  | cons a as ih =>
      rw [run_cons, ih]
      cases a with
      | write msg =>
          have hcap := q.rb.write_capacity msg
          simp only [step]
          split <;> rename_i heq <;> rw [heq] at hcap <;> exact hcap
      | read =>
          cases hread : q.rb.read with
          | none => simp only [step, hread]
          | some result =>
              simp only [step, hread]
              exact RingBuffer.read_capacity hread

/-- **Which messages an empty ring accepts.** After any history of writes and reads on a new ring, of
any capacity that `new` accepts, that leaves head and tail equal: a message of at most the maximum
length is accepted if and only if its aligned record fits between the tail and the end of the data
region or between the start of the region and the tail. -/
theorem empty_ring_write_iff {capacity : Nat} {hsize : requiredBufferSize capacity < 2 ^ 63}
    {rb : RingBuffer} (hnew : RingBuffer.new capacity hsize = .ok rb) (as : List QueueAction)
    (hempty : (run step (start rb) as).rb.head = (run step (start rb) as).rb.tail) {msg : Message}
    (hlength : msg.payload.length ≤ (run step (start rb) as).rb.maxMessageLength) :
    ((run step (start rb) as).rb.write msg).2 = .ok () ↔
      alignRecord (msg.payload.length + recordHeaderLength) ≤
          capacity - indexOf capacity (run step (start rb) as).rb.tail ∨
        alignRecord (msg.payload.length + recordHeaderLength) ≤
          indexOf capacity (run step (start rb) as).rb.tail := by
  have hcap : (run step (start rb) as).rb.capacity = capacity := by
    obtain ⟨hcap, -⟩ := inv_start hnew
    rw [run_capacity, hcap]
  have hpos := (run step (start rb) as).rb.capacity_ge
  have hlarge : msg.payload.length + recordHeaderLength ≤
      (run step (start rb) as).rb.capacity := by
    rw [RingBuffer.maxMessageLength] at hlength
    rw [recordAlignment] at hpos
    rw [recordHeaderLength] at hlength ⊢
    omega
  rw [RingBuffer.write_ok_iff, RingBuffer.claim_ok_iff_of_empty hempty hlarge, hcap]

def ring64 : RingBuffer where
  toDataRegion := .zeroed64
  head := 0
  tail := 0

/-- A record of 32 bytes, written and read. -/
def emptiedCalls : List QueueAction := [.write ⟨1, List.replicate 24 7⟩, .read]

/-- A message of 24 bytes fits behind the first one. -/
theorem empty_ring_write_fits :
    ((run step (start ring64) emptiedCalls).rb.write ⟨1, List.replicate 24 7⟩).2 = .ok () := by
  have hnew : RingBuffer.new 64 (by decide) = .ok ring64 := rfl
  exact (empty_ring_write_iff hnew emptiedCalls (by decide +kernel) (by decide +kernel)).mpr
    (by decide +kernel)

/-- **A permitted message that an empty ring refuses.** The ring of 64 bytes is empty, with head and
tail at 32. A message of 40 bytes, of the 56 that `max_message_length` permits, needs a record of 64
bytes and another 32 of padding, and is refused as if the ring were full. -/
theorem empty_ring_refuses :
    (run step (start ring64) emptiedCalls).rb.head = (run step (start ring64) emptiedCalls).rb.tail ∧
      (run step (start ring64) emptiedCalls).rb.maxMessageLength = 56 ∧
      ((run step (start ring64) emptiedCalls).rb.write ⟨1, List.replicate 40 7⟩).2 =
        .error .full := by
  decide +kernel

end QueueRun

end AeronRs
