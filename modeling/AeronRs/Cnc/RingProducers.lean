import AeronRs.Cnc.RingBuffer
import AeronRs.Lib.Runs
import Mathlib.Data.List.TakeWhile

/-! # Several producers on one ring

The command ring with any number of producers. A write is a **claim** (the exchange of the tail) and
then the stores of the claimed records one at a time, and a read may come between any two of these.
The reader's only evidence that a record has been written is a type word that is not zero. Reading
zeroes the type word of a record but leaves its payload, so the place where a later record starts can
hold anything: `stale_payload_delivered` is a read that takes a payload of the last turn for a record.

Under **`Allowed`** (the first record that is not written yet has a zero type word when a read comes
by) the reads deliver the written messages, in the order of the claims: `published_delivered`. -/

namespace AeronRs

open Runs

/-- A claimed record, with its producer and the number of its stores made so far. -/
structure Claimed extends Record where
  producer : Nat
  done : Nat
  deriving DecidableEq

namespace Claimed

def stores (r : Claimed) : List RingBuffer.Store := RingBuffer.stores r.toRecord

/-- All stores of the record have been made. -/
def Published (r : Claimed) : Prop := r.stores.length ≤ r.done

instance (r : Claimed) : Decidable r.Published := inferInstanceAs (Decidable (_ ≤ _))

/-- The record is published, with a type other than the zero that stands for not published. -/
def Visible (r : Claimed) : Prop := r.Published ∧ r.body.msgType ≠ 0

instance (r : Claimed) : Decidable r.Visible := inferInstanceAs (Decidable (_ ∧ _))

/-- The record with one more store made. -/
def advance (r : Claimed) : Claimed := { r with done := r.done + 1 }

end Claimed

def messagesOfClaimed (rs : List Claimed) : List Message := messagesOf (rs.map Claimed.toRecord)

/-- The next store of a producer, at its first record that is not published. -/
def nextStore (producer : Nat) : List Claimed → Option (RingBuffer.Store × List Claimed)
  | [] => none
  | r :: rs =>
      if r.producer = producer ∧ ¬ r.Published then
        r.stores[r.done]?.map fun st => (st, r.advance :: rs)
      else (nextStore producer rs).map fun next => (next.1, r :: next.2)

/-- A ring with its producers: all records claimed so far in claim order, the messages that reads
have delivered, and whether a read has left the data region. -/
structure RingRun where
  rb : RingBuffer
  records : List Claimed
  delivered : List Message
  faulted : Bool

/-- What can happen next. -/
inductive RingAction
  | claim (producer : Nat) (msg : Message)
  | store (producer : Nat)
  | read

namespace RingRun

def start (rb : RingBuffer) : RingRun := ⟨rb, [], [], false⟩

/-- A producer is between the claim and the last store of a write. -/
def Writing (s : RingRun) (producer : Nat) : Prop :=
  ∃ r ∈ s.records, r.producer = producer ∧ ¬ r.Published

instance (s : RingRun) (producer : Nat) : Decidable (s.Writing producer) :=
  inferInstanceAs (Decidable (∃ r ∈ _, _))

/-- One step. A producer claims when it is not in the middle of a write. -/
def step (s : RingRun) : RingAction → RingRun
  | .claim producer msg =>
      if s.Writing producer then s
      else
        match s.rb.claim msg.payload.length with
        | .error _ => s
        | .ok c =>
            { s with
              rb := { s.rb with tail := c.newTail }
              records := s.records ++ (c.records msg).map fun r => ⟨r, producer, 0⟩ }
  | .store producer =>
      match nextStore producer s.records with
      | none => s
      | some (st, records) =>
          { s with rb := { s.rb with data := st.apply s.rb.data }, records }
  | .read =>
      match s.rb.read with
      | none => { s with faulted := true }
      | some (msgs, rb) => { s with rb, delivered := s.delivered ++ msgs }

/-- **The condition.** A message has a type that is not negative, and its records have lengths that
fit the length word; when a read comes by, the type word of the first record that is not published is
zero. -/
def Allowed (s : RingRun) : RingAction → Prop
  | .claim _ msg => 0 ≤ msg.msgType.toInt ∧
      ∀ r ∈ placed s.rb.capacity (indexOf s.rb.capacity s.rb.tail) msg,
        r.body.recordLength < 2 ^ 31
  | .store _ => True
  | .read => ∀ r ∈ s.records.find? fun r => ¬ r.Published, s.rb.data.readI32 r.address = 0

instance (s : RingRun) : (a : RingAction) → Decidable (s.Allowed a)
  | .claim _ _ => inferInstanceAs (Decidable (_ ∧ ∀ r ∈ placed _ _ _, _))
  | .store _ => inferInstanceAs (Decidable True)
  | .read => inferInstanceAs (Decidable (∀ r ∈ List.find? _ _, _))

/-- **What the reads have delivered** is a prefix of the claimed messages, in claim order, from before
the first record that is not published. -/
def DeliversPublished (s : RingRun) : Prop :=
  s.faulted = false ∧ s.delivered <+: messagesOfClaimed (s.records.takeWhile (·.Published))

instance (s : RingRun) : Decidable s.DeliversPublished := inferInstanceAs (Decidable (_ ∧ _))

end RingRun

/-! ## Stores of a record -/

namespace RingBuffer

theorem stores_inside {r : Record} (hlen : recordHeaderLength ≤ r.length) {st : Store}
    (hst : st ∈ stores r) :
    r.address ≤ st.address ∧ st.address + st.bytes.length ≤ r.address + r.length := by
  have hheader : recordHeaderLength = 8 := rfl
  unfold stores at hst
  cases hbody : r.body with
  | padding len =>
      simp only [hbody, List.mem_cons, List.not_mem_nil, or_false] at hst
      rcases hst with rfl | rfl <;> simp only [encodeI32_length] <;> omega
  | message msg =>
      have hge := Record.message_le_length hbody
      have hlen' := Record.length_message hbody
      simp only [hbody, List.mem_cons, List.not_mem_nil, or_false] at hst
      rcases hst with rfl | rfl | rfl | rfl <;>
        simp only [encodeI32_length, List.length_replicate] <;> omega

theorem stores_apart (r : Record) : (stores r).Pairwise fun st st' =>
    RangesApart st.address st.bytes.length st'.address st'.bytes.length := by
  have hheader : recordHeaderLength = 8 := rfl
  unfold stores
  cases hbody : r.body with
  | padding len => simp [RangesApart]
  | message msg =>
      simp only [List.pairwise_cons, List.mem_cons, List.not_mem_nil, or_false, forall_eq_or_imp,
        forall_eq, encodeI32_length, List.length_replicate, RangesApart, List.Pairwise.nil,
        IsEmpty.forall_iff, implies_true, and_true]
      omega

theorem stored_of_stores {m : ByteStore} {r : Record}
    (h : ∀ st ∈ stores r, m.read st.address st.bytes.length = st.bytes) : RecordStored 0 4 m r := by
  have hword : ∀ a (x : BitVec 32), (⟨a, encodeI32 x⟩ : Store) ∈ stores r → m.readI32 a = x := by
    intro a x hmem
    have hread := h _ hmem
    rw [encodeI32_length] at hread
    rw [ByteStore.readI32, hread, ofLE_encodeI32]
  cases hbody : r.body with
  | padding len =>
      refine ⟨hword _ _ ?_, hword _ _ ?_, fun msg hmsg => ?_⟩
      · simp [stores, hbody]
      · simp [stores, hbody]
      · rw [hbody] at hmsg
        cases hmsg
  | message msg =>
      refine ⟨hword _ _ ?_, hword _ _ ?_, fun msg' hmsg => ?_⟩
      · simp [stores, hbody]
      · simp [stores, hbody]
      · obtain rfl : msg = msg' := by
          rw [hbody] at hmsg
          exact RecordBody.message.inj hmsg
        exact h ⟨r.address + recordHeaderLength, msg.payload⟩ (by simp [stores, hbody])

end RingBuffer

/-- **The next store of a producer** is one of a record that is not published, and moves that record
on. -/
theorem nextStore_spec {producer : Nat} {rs rs' : List Claimed} {st : RingBuffer.Store}
    (h : nextStore producer rs = some (st, rs')) :
    ∃ before r after, rs = before ++ r :: after ∧ rs' = before ++ r.advance :: after ∧
      ¬ r.Published ∧ r.stores[r.done]? = some st := by
  induction rs generalizing rs' with
  | nil => cases h
  | cons r rs ih =>
      rw [nextStore] at h
      by_cases hr : r.producer = producer ∧ ¬ r.Published
      · rw [if_pos hr] at h
        obtain ⟨st', hst, heq⟩ := Option.map_eq_some_iff.mp h
        obtain ⟨rfl, rfl⟩ := Prod.mk.inj heq
        exact ⟨[], r, rs, rfl, rfl, hr.2, hst⟩
      · rw [if_neg hr] at h
        obtain ⟨⟨st', rest⟩, hnext, heq⟩ := Option.map_eq_some_iff.mp h
        obtain ⟨rfl, rfl⟩ := Prod.mk.inj heq
        obtain ⟨before, r', after, rfl, rfl, hr'⟩ := ih hnext
        exact ⟨r :: before, r', after, rfl, rfl, hr'⟩

/-! ## The invariant -/

namespace RingRun

/-- A record with the length of a header at least, a length that fits its word, and a message type
that is not negative. -/
structure Sound (r : Record) : Prop where
  ge : 32 ≤ r.length
  lt : r.body.recordLength < 2 ^ 31
  msgType : ∀ msg, r.body = .message msg → 0 ≤ msg.msgType.toInt

theorem Sound.header_le {r : Record} (h : Sound r) : recordHeaderLength ≤ r.length :=
  le_trans (by decide) h.ge

/-- **What a ring with producers keeps.** The records claimed so far are those that reads have passed
and those still in the ring. The first were visible and their messages have been delivered; the
others lie between head and tail, and the stores made for them are in place. -/
structure Inv (s : RingRun) (passed live : List Claimed) (H T : Nat) : Prop where
  records : s.records = passed ++ live
  ring : s.rb.At H T
  laid : Laid s.rb.capacity Record.address Record.length H (live.map Claimed.toRecord) T
  visible : ∀ r ∈ passed, r.Visible
  delivered : s.delivered = messagesOfClaimed passed
  stored : ∀ r ∈ live, ∀ st ∈ r.stores.take r.done,
    s.rb.data.read st.address st.bytes.length = st.bytes
  sound : ∀ r ∈ live.map Claimed.toRecord, Sound r
  faulted : s.faulted = false

variable {s : RingRun} {passed live : List Claimed} {H T : Nat}

theorem inv_start {capacity : Nat} {hsize : requiredBufferSize capacity < 2 ^ 63} {rb : RingBuffer}
    (h : RingBuffer.new capacity hsize = .ok rb) : Inv (start rb) [] [] 0 0 := by
  unfold RingBuffer.new at h
  split_ifs at h
  obtain rfl := Except.ok.inj h
  exact
    { records := rfl
      ring := ⟨rfl, rfl, le_rfl, Nat.zero_le _, Nat.dvd_zero 32⟩
      laid := rfl
      visible := by simp
      delivered := rfl
      stored := by simp
      sound := by simp
      faulted := rfl }

/-- **A claim** appends its records to those in the ring. -/
theorem Inv.claim (h : Inv s passed live H T) {producer : Nat} {msg : Message}
    (hallowed : s.Allowed (.claim producer msg)) :
    ∃ live' T', Inv (step s (.claim producer msg)) passed live' H T' := by
  simp only [step]
  -- a producer inside a write, a message that is too large, a ring without room: nothing is taken
  by_cases hwriting : s.Writing producer
  · rw [if_pos hwriting]
    exact ⟨live, T, h⟩
  rw [if_neg hwriting, h.ring.claim_eq msg]
  by_cases hlarge : s.rb.capacity < msg.payload.length + recordHeaderLength
  · rw [if_pos hlarge]
    exact ⟨live, T, h⟩
  rw [if_neg hlarge]
  by_cases hroom : s.rb.freeBytes < s.rb.roomFor msg
  · rw [if_pos hroom]
    exact ⟨live, T, h⟩
  rw [if_neg hroom]
  -- the tail is aligned, so the padding of a claim that wraps has a header
  have hindex : 32 ∣ T % s.rb.capacity := (Nat.dvd_mod_iff s.rb.capacity_dvd).mpr h.ring.aligned
  have hpos := s.rb.capacity_ge
  have hlt := Nat.mod_lt T (show 0 < s.rb.capacity by rw [recordAlignment] at hpos; omega)
  simp only [RingBuffer.claimed_records]
  obtain ⟨hsign, hlength⟩ := hallowed
  have hlaid := h.ring.laid_claimed (Nat.not_lt.mp hlarge)
  rw [RingBuffer.claimed_records] at hlaid
  rw [h.ring.index_tail] at hlaid hlength ⊢
  refine ⟨live ++ (placed s.rb.capacity (T % s.rb.capacity) msg).map fun r => ⟨r, producer, 0⟩,
    T + s.rb.roomFor msg, ?_⟩
  exact
    { records := by rw [h.records, List.append_assoc]
      ring := h.ring.claimed_tail (Nat.not_lt.mp hroom)
      laid := by
        rw [List.map_append, List.map_map]
        exact laid_append.mpr ⟨T, h.laid, by simpa [Function.comp_def] using hlaid⟩
      visible := h.visible
      delivered := h.delivered
      stored := by
        rw [List.forall_mem_append]
        refine ⟨h.stored, fun r hr st hst => ?_⟩
        -- none of the stores of a new record is made
        obtain ⟨r, -, rfl⟩ := List.mem_map.mp hr
        simp at hst
      sound := by
        rw [List.map_append, List.forall_mem_append, List.map_map]
        refine ⟨h.sound, fun r hmem => ?_⟩
        obtain ⟨r, hr, rfl⟩ := List.mem_map.mp hmem
        exact ⟨placed_length s.rb.capacity_dvd hindex hlt hr, hlength r hr,
          fun msg' hbody => by rwa [placed_message hr hbody]⟩
      faulted := h.faulted }

/-- Storing inside a record leaves the stores of a record apart from it alone. -/
theorem read_store_of_apart {m : ByteStore} {r r' : Record} {st st' : RingBuffer.Store}
    (hlen : recordHeaderLength ≤ r.length) (hlen' : recordHeaderLength ≤ r'.length)
    (hapart : RangesApart r.address r.length r'.address r'.length)
    (hst : st ∈ RingBuffer.stores r) (hst' : st' ∈ RingBuffer.stores r') :
    (st.apply m).read st'.address st'.bytes.length = m.read st'.address st'.bytes.length := by
  obtain ⟨hlo, hhi⟩ := RingBuffer.stores_inside hlen hst
  obtain ⟨hlo', hhi'⟩ := RingBuffer.stores_inside hlen' hst'
  exact m.read_write_disjoint ((hapart.symm.sub hlo' hhi').symm.sub hlo hhi).symm

/-- The next store of a record leaves the earlier ones in place and puts itself there. -/
theorem stored_advance {m : ByteStore} {r : Claimed} {st : RingBuffer.Store}
    (hst : r.stores[r.done]? = some st)
    (h : ∀ st' ∈ r.stores.take r.done, m.read st'.address st'.bytes.length = st'.bytes) :
    ∀ st' ∈ r.stores.take (r.done + 1),
      (st.apply m).read st'.address st'.bytes.length = st'.bytes := by
  intro st' hst'
  have hsplit : r.stores.take (r.done + 1) = r.stores.take r.done ++ [st] := by
    rw [List.take_add_one, hst]
    rfl
  rw [hsplit, List.mem_append, List.mem_singleton] at hst'
  rcases hst' with hold | rfl
  · -- an earlier store does not overlap this one
    have hapart : RangesApart st'.address st'.bytes.length st.address st.bytes.length := by
      have hpair := RingBuffer.stores_apart r.toRecord
      rw [← List.take_append_drop (r.done + 1) (RingBuffer.stores r.toRecord),
        show (RingBuffer.stores r.toRecord).take (r.done + 1) = _ from hsplit, List.append_assoc,
        List.pairwise_append] at hpair
      exact hpair.2.2 st' hold st (by simp)
    exact (m.read_write_disjoint hapart).trans (h st' hold)
  · exact m.read_write_same _ _

theorem Inv.split_live (h : Inv s passed live H T) {before after : List Claimed} {r : Claimed}
    (hrecords : s.records = before ++ r :: after) (hnot : ¬ r.Published) :
    ∃ b, before = passed ++ b ∧ live = b ++ r :: after := by
  rw [h.records] at hrecords
  rcases List.append_eq_append_iff.mp hrecords with hlive | ⟨b, hpassed, hrest⟩
  · exact hlive
  · cases b with
    | nil => exact ⟨[], by simpa using hpassed.symm, hrest.symm⟩
    | cons r' b =>
        obtain rfl : r = r' := (List.cons.inj hrest).1
        exact absurd (h.visible r (by simp [hpassed])).1 hnot

/-- **A store** of a record that is not published keeps what was stored. -/
theorem Inv.store (h : Inv s passed live H T) (producer : Nat) :
    ∃ live', Inv (step s (.store producer)) passed live' H T := by
  simp only [step]
  cases hnext : nextStore producer s.records with
  | none => exact ⟨live, h⟩
  | some next =>
      obtain ⟨st, records⟩ := next
      obtain ⟨before, r, after, hrecords, rfl, hnot, hst⟩ := nextStore_spec hnext
      -- the record is not published, so no read has passed it
      obtain ⟨before, rfl, rfl⟩ := h.split_live hrecords hnot
      have hmap : (before ++ r.advance :: after).map Claimed.toRecord =
          (before ++ r :: after).map Claimed.toRecord := by simp [Claimed.advance]
      have hmem : st ∈ r.stores := List.mem_of_getElem? hst
      have hlen : ∀ r' ∈ before ++ r :: after, recordHeaderLength ≤ r'.length := fun r' hr' =>
        (h.sound _ (List.mem_map_of_mem hr')).header_le
      have hothers : ∀ r' ∈ before ++ after,
          RangesApart r.address r.length r'.address r'.length := by
        have hapart := List.pairwise_map.mp (h.laid.apart h.ring.turn)
        rw [List.pairwise_middle RangesApart.symm] at hapart
        exact (List.pairwise_cons.mp hapart).1
      refine ⟨before ++ r.advance :: after, ?_⟩
      exact
        { records := List.append_assoc ..
          ring := ⟨h.ring.head, h.ring.tail, h.ring.le, h.ring.turn, h.ring.aligned⟩
          laid := by rw [hmap]; exact h.laid
          visible := h.visible
          delivered := h.delivered
          stored := by
            intro r' hr' st' hst'
            rw [List.mem_append, List.mem_cons, or_left_comm, ← List.mem_append] at hr'
            -- the record itself gains a store; every other one lies apart from it
            rcases hr' with rfl | hr'
            · exact stored_advance hst (h.stored r (by simp)) st' hst'
            · have hr'' : r' ∈ before ++ r :: after := by
                rw [List.mem_append, List.mem_cons, or_left_comm, ← List.mem_append]
                exact .inr hr'
              exact (read_store_of_apart (hlen r (by simp)) (hlen r' hr'') (hothers r' hr') hmem
                (List.mem_of_mem_take hst')).trans (h.stored r' hr'' st' hst')
          sound := by rw [hmap]; exact h.sound
          faulted := h.faulted }

theorem Sound.readable {r : Record} (hsound : Sound r) : Readable r where
  ne_padding := fun msg hbody heq => by
    have hsign := hsound.msgType msg hbody
    rw [heq] at hsign
    revert hsign
    decide
  lt := hsound.lt

theorem stored_of_published {m : ByteStore} {r : Claimed} (hpublished : r.Published)
    (h : ∀ st ∈ r.stores.take r.done, m.read st.address st.bytes.length = st.bytes) :
    RecordStored 0 4 m r.toRecord :=
  RingBuffer.stored_of_stores fun st hst => h st (by rwa [List.take_of_length_le hpublished])

/-- **The reader stops** at the first record that is not visible: its type word is zero. -/
theorem Inv.readI32_of_not_visible (h : Inv s passed live H T) (hallowed : s.Allowed .read)
    {pub rest : List Claimed} {r : Claimed} (hlive : live = pub ++ r :: rest)
    (hpub : ∀ r ∈ pub, r.Visible) (hr : ¬ r.Visible) : s.rb.data.readI32 r.address = 0 := by
  by_cases hpublished : r.Published
  · -- it is published with the type zero
    have hzero : r.body.msgType = 0 := by
      by_contra hne
      exact hr ⟨hpublished, hne⟩
    rw [← hzero]
    exact (stored_of_published hpublished (h.stored r (by simp [hlive]))).msgType
  · refine hallowed r ?_
    have hbefore : ∀ r' ∈ passed ++ pub, r'.Published := fun r' hr' =>
      (List.mem_append.mp hr').elim (fun h' => (h.visible r' h').1) fun h' => (hpub r' h').1
    rw [h.records, hlive, ← List.append_assoc, List.find?_append,
      List.find?_eq_none.mpr (by simpa using hbefore)]
    simp [hpublished]

/-- **A read** delivers the messages of the visible records up to the first one that is not. -/
theorem Inv.read (h : Inv s passed live H T) (hallowed : s.Allowed .read) :
    ∃ pub rest H', live = pub ++ rest ∧ (∀ r ∈ rest.head?, ¬ r.Visible) ∧
      Inv (step s .read) (passed ++ pub) rest H' T := by
  obtain ⟨pub, rest, hlive, hpub, hrest⟩ : ∃ pub rest, live = pub ++ rest ∧
      (∀ r ∈ pub, r.Visible) ∧ ∀ r ∈ rest.head?, ¬ r.Visible := by
    refine ⟨live.takeWhile (·.Visible), live.dropWhile (·.Visible),
      (List.takeWhile_append_dropWhile ..).symm, fun r hr => by
        simpa using List.mem_takeWhile_imp hr, fun r hr => ?_⟩
    have := List.head?_dropWhile_not (fun r : Claimed => decide r.Visible) live
    rw [Option.mem_def.mp hr] at this
    simpa using this
  have hlaid := h.laid
  rw [hlive, List.map_append, laid_append] at hlaid
  obtain ⟨b, hlaidPub, hlaidRest⟩ := hlaid
  have hsound : ∀ r ∈ live, Sound r.toRecord := fun r hr => h.sound _ (List.mem_map_of_mem hr)
  have hrs : ∀ r ∈ pub.map Claimed.toRecord,
      32 ≤ r.length ∧ RecordStored 0 4 s.rb.data r ∧ Readable r ∧ r.body.msgType ≠ 0 := by
    intro r hmap
    obtain ⟨r, hr, rfl⟩ := List.mem_map.mp hmap
    have hmem : r ∈ live := by simp [hlive, hr]
    exact ⟨(hsound r hmem).ge, stored_of_published (hpub r hr).1 (h.stored r hmem),
      (hsound r hmem).readable, (hpub r hr).2⟩
  have hstop : b = T ∨ b + 4 ≤ T ∧ s.rb.data.readI32 (b % s.rb.capacity) = 0 := by
    cases rest with
    | nil => exact .inl hlaidRest
    | cons r rest =>
        obtain ⟨haddr, -, -, hbehind⟩ := hlaidRest
        have hge := (hsound r (by simp [hlive])).ge
        have hle := hbehind.le
        refine .inr ⟨by omega, ?_⟩
        rw [← haddr]
        exact h.readI32_of_not_visible hallowed hlive hpub (hrest r rfl)
  have hread := h.ring.read_eq hlaidPub hlaidRest.le hrs hstop
  refine ⟨pub, rest, b, hlive, hrest, ?_⟩
  simp only [step, hread]
  have hturn := h.ring.turn
  have hHb := hlaidPub.le
  exact
    { records := by rw [h.records, hlive, List.append_assoc]
      ring := ⟨rfl, h.ring.tail, hlaidRest.le, by dsimp only; omega, h.ring.aligned⟩
      laid := hlaidRest
      visible := List.forall_mem_append.mpr ⟨h.visible, hpub⟩
      delivered := by
        rw [h.delivered, messagesOfClaimed, messagesOfClaimed, messagesOf, messagesOf, messagesOf,
          List.map_append, List.filterMap_append]
      stored := by
        intro r hr st hst
        refine (RingBuffer.read_clear_of_apart fun r' hr' => ?_).trans
          (h.stored r (by simp [hlive, hr]) st hst)
        -- a record that was passed does not meet one that was not
        have hapart := h.laid.apart hturn
        rw [hlive, List.map_append, List.pairwise_append] at hapart
        obtain ⟨hlo, hhi⟩ := RingBuffer.stores_inside (hsound r (by simp [hlive, hr])).header_le
          (List.mem_of_mem_take hst)
        have hge := (hrs r' hr').1
        exact ((hapart.2.2 r' hr' r.toRecord (List.mem_map_of_mem hr)).sub le_rfl (by omega)).symm.sub
          hlo hhi |>.symm
      sound := fun r hr => h.sound r (by simp [hlive, hr])
      faulted := h.faulted }

/-- The invariant, for some records and positions. -/
def Holds (s : RingRun) : Prop := ∃ passed live H T, Inv s passed live H T

theorem holds_step {a : RingAction} (h : s.Holds) (hallowed : s.Allowed a) : (step s a).Holds := by
  obtain ⟨passed, live, H, T, h⟩ := h
  cases a with
  | claim producer msg =>
      obtain ⟨live', T', h'⟩ := h.claim hallowed
      exact ⟨passed, live', H, T', h'⟩
  | store producer =>
      obtain ⟨live', h'⟩ := h.store producer
      exact ⟨passed, live', H, T, h'⟩
  | read =>
      obtain ⟨pub, rest, H', -, -, h'⟩ := h.read hallowed
      exact ⟨passed ++ pub, rest, H', T, h'⟩

/-- The records that were passed come first among the published ones. -/
theorem Inv.deliversPublished (h : Inv s passed live H T) : s.DeliversPublished := by
  refine ⟨h.faulted, ?_⟩
  rw [h.delivered, h.records, List.takeWhile_append_of_pos fun r hr => by
    simpa using (h.visible r hr).1]
  simp only [messagesOfClaimed, messagesOf, List.map_append, List.filterMap_append]
  exact List.prefix_append ..

/-- What has been delivered after a read: the messages of all records up to the first one that is not
visible. -/
theorem Inv.delivered_eq (h : Inv s passed live H T) (hrest : ∀ r ∈ live.head?, ¬ r.Visible) :
    s.delivered = messagesOfClaimed (s.records.takeWhile (·.Visible)) := by
  have hnil : live.takeWhile (·.Visible) = [] := by
    cases live with
    | nil => rfl
    | cons r live => simp [hrest r rfl]
  rw [h.delivered, h.records, List.takeWhile_append_of_pos fun r hr => by
    simpa using h.visible r hr, hnil, List.append_nil]

/-- **Reads deliver what is published.** In every run of claims, single stores and reads, by any number
of producers, whose steps meet the condition, the reads have delivered a prefix of the claimed
messages in claim order, each once and as it was claimed, and nothing from a record that is not
published or behind one; and a further read delivers all messages up to the first record that is not
visible. -/
theorem published_delivered {capacity : Nat} {hsize : requiredBufferSize capacity < 2 ^ 63}
    {rb : RingBuffer} (hnew : RingBuffer.new capacity hsize = .ok rb) (as : List RingAction)
    (hrun : Meets Allowed step (start rb) as) :
    (run step (start rb) as).DeliversPublished ∧
      ((run step (start rb) as).Allowed .read →
        (step (run step (start rb) as) .read).faulted = false ∧
        (step (run step (start rb) as) .read).delivered =
          messagesOfClaimed ((run step (start rb) as).records.takeWhile (·.Visible))) := by
  obtain ⟨passed, live, H, T, h⟩ : (run step (start rb) as).Holds :=
    run_invariant (fun _ _ => holds_step) ⟨[], [], 0, 0, inv_start hnew⟩ hrun
  refine ⟨h.deliversPublished, fun hallowed => ?_⟩
  obtain ⟨pub, rest, H', hlive, hrest, h'⟩ := h.read hallowed
  refine ⟨h'.faulted, (h'.delivered_eq hrest).trans ?_⟩
  rw [h'.records, h.records, hlive, List.append_assoc]

def ring64 : RingBuffer where
  toDataRegion := .zeroed64
  head := 0
  tail := 0

/-- A message of one byte, which takes 32 bytes of the ring. -/
def shortMessage (msgType : BitVec 32) : Message := ⟨msgType, [1]⟩

/-- Two producers write at the same time, and the second is ahead of the first: the read delivers
nothing until the first has published. -/
def twoProducers : List RingAction :=
  [.claim 0 (shortMessage 1), .claim 1 (shortMessage 2), .store 1, .store 1, .store 1, .store 1,
    .read, .store 0, .store 0, .store 0, .store 0, .read]

theorem published_delivered_two_producers :
    RingBuffer.new 64 (by decide) = .ok ring64 ∧ Meets Allowed step (start ring64) twoProducers ∧
      (run step (start ring64) twoProducers).DeliversPublished ∧
      (run step (start ring64) twoProducers).delivered = [shortMessage 1, shortMessage 2] :=
  have hnew : RingBuffer.new 64 (by decide) = .ok ring64 := rfl
  have hrun : Meets Allowed step (start ring64) twoProducers := by decide +kernel
  ⟨hnew, hrun, (published_delivered hnew twoProducers hrun).1, by decide +kernel⟩

/-- A message of forty bytes, which takes the whole ring. Its bytes from address 32 on look like a
record of type 7 with four bytes. -/
def longMessage : Message :=
  ⟨1, List.replicate 24 0 ++ encodeI32 7 ++ encodeI32 12 ++ [9, 9, 9, 9] ++ List.replicate 4 0⟩

/-- The long message is written and read; then one producer publishes a short message at address 0
while another one has only claimed its record at address 32. -/
def staleRun : List RingAction :=
  [.claim 0 longMessage, .store 0, .store 0, .store 0, .store 0, .read,
    .claim 0 (shortMessage 2), .claim 1 (shortMessage 3), .store 0, .store 0, .store 0, .store 0,
    .read]

/-- **A payload of the last turn is delivered** as a message that nobody has written. -/
theorem stale_payload_delivered :
    ¬ (run step (start ring64) staleRun).DeliversPublished ∧
      (run step (start ring64) staleRun).delivered =
        [longMessage, shortMessage 2, ⟨7, [9, 9, 9, 9]⟩] := by
  decide +kernel

end RingRun

end AeronRs
