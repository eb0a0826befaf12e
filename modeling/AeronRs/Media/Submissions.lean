import AeronRs.Media.UringPoller
import Mathlib.Data.List.Forall2
import Mathlib.Data.List.Nodup

/-! # What a submission puts on the ring

A send that finds a free slot and room in the submission queue pushes one entry, and until the ring
is submitted that entry's slot stays out of the free list. **`Submitted`** relates the entries pushed
since some point to the sends that pushed them; `Submitted.flush_eq` says what the kernel makes of
them: each send goes to its destination with the bytes its pointer resolves to at that time. -/

namespace AeronRs

variable {P : Type}

/-- The free list names slots of the pool, each once. -/
structure SlotPool.WellFormed (pool : SlotPool P) : Prop where
  nodup : pool.sendFree.Nodup
  lt : ∀ slotIdx ∈ pool.sendFree, slotIdx < pool.sendSlots.length

instance (pool : SlotPool P) : Decidable pool.WellFormed :=
  decidable_of_iff (pool.sendFree.Nodup ∧ ∀ slotIdx ∈ pool.sendFree, slotIdx < pool.sendSlots.length)
    ⟨fun h => ⟨h.1, h.2⟩, fun h => ⟨h.nodup, h.lt⟩⟩

theorem SlotPool.sendFree_new {maxSend : Nat} (h : maxSend ≤ 2 ^ 16) :
    (SlotPool.new maxSend : SlotPool P).sendFree = (List.range maxSend).reverse := by
  refine (List.map_congr_left fun i hi => ?_).trans (List.map_id _)
  have hlt : i < maxSend := List.mem_range.mp (List.mem_reverse.mp hi)
  exact Nat.mod_eq_of_lt (by omega)

theorem SlotPool.wellFormed_new {maxSend : Nat} (h : maxSend ≤ 2 ^ 16) :
    (SlotPool.new maxSend : SlotPool P).WellFormed := by
  refine ⟨?_, fun slotIdx hfree => ?_⟩
  · rw [SlotPool.sendFree_new h]
    exact List.nodup_reverse.mpr List.nodup_range
  · rw [SlotPool.sendFree_new h] at hfree
    simpa [SlotPool.new] using hfree

/-- A send as its caller makes it: the socket, the data pointer and the destination. -/
structure Send (P : Type) where
  fd : Nat
  data : P
  dest : Option SockAddr

/-- The entry is the one of a send: its slot is taken and holds what the send was given. -/
def Points (pool : SlotPool P) (send : Send P) (sqe : Sqe) : Prop :=
  ∃ slotIdx userData, sqe = .sendMsg send.fd slotIdx userData ∧ slotIdx ∉ pool.sendFree ∧
    pool.sendSlots[slotIdx]? = some ⟨some send.data, send.dest, .inFlight⟩

/-- After the entries `before`, the submission queue holds the entries of the sends. -/
def Submitted (before : List Sqe) (p : UringPoller P) (sends : List (Send P)) : Prop :=
  ∃ new, p.sq = before ++ new ∧ List.Forall₂ (Points p.pool) sends new

theorem submitted_nil (p : UringPoller P) : Submitted p.sq p [] :=
  ⟨[], (List.append_nil _).symm, .nil⟩

/-- **At the flush** every submitted send becomes one datagram, with the bytes that its pointer
resolves to now. -/
theorem Submitted.flush_eq {before : List Sqe} {p : UringPoller P} {sends : List (Send P)}
    (h : Submitted before p sends) (resolve : P → List UInt8) :
    (p.flush resolve).2 = before.filterMap (p.datagramOf resolve) ++
      sends.map fun send => ⟨send.fd, send.dest, resolve send.data⟩ := by
  obtain ⟨new, hsq, hpoints⟩ := h
  have hnew : new.filterMap (p.datagramOf resolve) =
      sends.map fun send => ⟨send.fd, send.dest, resolve send.data⟩ := by
    clear hsq
    induction hpoints with
    | nil => rfl
    | cons hhead _ ih =>
        obtain ⟨slotIdx, userData, rfl, -, hslot⟩ := hhead
        rw [List.filterMap_cons, List.map_cons, ih]
        simp [UringPoller.datagramOf, hslot]
  rw [UringPoller.flush, hsq, List.filterMap_append, hnew]

/-- There are free slots and queue entries for `n` sends. -/
structure HasRoom (p : UringPoller P) (n : Nat) : Prop where
  pool : p.pool.WellFormed
  slots : n ≤ p.pool.sendAvailable
  entries : p.sq.length + n ≤ p.sqEntries

instance (p : UringPoller P) (n : Nat) : Decidable (HasRoom p n) :=
  decidable_of_iff (p.pool.WellFormed ∧ n ≤ p.pool.sendAvailable ∧ p.sq.length + n ≤ p.sqEntries)
    ⟨fun h => ⟨h.1, h.2.1, h.2.2⟩, fun h => ⟨h.pool, h.slots, h.entries⟩⟩

/-- A transport to which a send is really pushed: the one at the index cut to 16 bits. -/
def ActiveTransport (p : UringPoller P) (transportIdx fd : Nat) : Prop :=
  ∃ entry, p.transports[transportIdx % 2 ^ 16]? = some entry ∧ entry.active = true ∧ entry.sendFd = fd

/-- A taken slot stays what it is when another slot is prepared and leaves the free list. -/
theorem Points.prepare {pool : SlotPool P} {send : Send P} {sqe : Sqe} (h : Points pool send sqe)
    {slotIdx : Nat} {rest : List Nat} (hfree : pool.sendFree = slotIdx :: rest) (data : P)
    (dest : Option SockAddr) :
    Points (({ pool with sendFree := rest }).modifySlot slotIdx fun slot =>
      slot.prepareSend data dest) send sqe := by
  obtain ⟨idx, userData, rfl, hnot, hslot⟩ := h
  rw [hfree, List.mem_cons, not_or] at hnot
  refine ⟨idx, userData, rfl, hnot.2, ?_⟩
  rw [← hslot]
  exact List.getElem?_modify_ne _ _ (Ne.symm hnot.1)

/-- **A send with room.** It succeeds, takes one slot and one entry, and is submitted after the
sends before it. -/
theorem submitSend_spec {p : UringPoller P} {n transportIdx fd : Nat} (hroom : HasRoom p (n + 1))
    (hactive : ActiveTransport p transportIdx fd) (data : P) (dest : Option SockAddr) :
    (p.submitSend transportIdx data dest).2 = .ok () ∧
      HasRoom (p.submitSend transportIdx data dest).1 n ∧
      (p.submitSend transportIdx data dest).1.transports = p.transports ∧
      ∀ before sends, Submitted before p sends →
        Submitted before (p.submitSend transportIdx data dest).1 (sends ++ [⟨fd, data, dest⟩]) := by
  obtain ⟨⟨hnodup, hlt⟩, hslots, hentries⟩ := hroom
  obtain ⟨entry, hentry, hact, rfl⟩ := hactive
  obtain ⟨slotIdx, rest, hfree⟩ : ∃ slotIdx rest, p.pool.sendFree = slotIdx :: rest := by
    cases hlist : p.pool.sendFree with
    | nil => simp [SlotPool.sendAvailable, hlist] at hslots
    | cons slotIdx rest => exact ⟨slotIdx, rest, rfl⟩
  have hsubmit : p.submitSend transportIdx data dest =
      ({ p with
          pool := ({ p.pool with sendFree := rest }).modifySlot slotIdx fun slot =>
            slot.prepareSend data dest
          sq := p.sq ++ [.sendMsg entry.sendFd slotIdx
            (UserData.encode ⟨transportIdx % 2 ^ 16, opSend, slotIdx⟩)] }, .ok ()) := by
    have hpush : p.sq.length < p.sqEntries := by omega
    simp only [UringPoller.submitSend, SlotPool.allocSend, hfree, UringPoller.submitSendSqe, hentry,
      hact, Bool.true_eq_false, if_false, UringPoller.push, if_pos hpush]
  rw [hfree, List.nodup_cons] at hnodup
  have hbound : slotIdx < p.pool.sendSlots.length := hlt slotIdx (by simp [hfree])
  rw [hsubmit]
  refine ⟨rfl, ⟨⟨hnodup.2, fun i hi => ?_⟩, ?_, ?_⟩, rfl, ?_⟩
  · simpa [SlotPool.modifySlot] using hlt i (by simp [hfree, show i ∈ rest from hi])
  · simp only [SlotPool.sendAvailable, hfree, List.length_cons] at hslots
    exact Nat.le_of_succ_le_succ hslots
  · simp only [List.length_append, List.length_singleton]
    omega
  · rintro before sends ⟨new, hsq, hpoints⟩
    refine ⟨_, (congrArg (· ++ _) hsq).trans (List.append_assoc ..), List.rel_append ?_ ?_⟩
    · -- the slot was free, so no earlier send points to it
      exact hpoints.imp fun _ _ h => h.prepare hfree data dest
    · refine .cons ⟨slotIdx, _, rfl, hnodup.1, ?_⟩ .nil
      simp [SlotPool.modifySlot, List.getElem?_eq_getElem hbound, SendSlot.prepareSend]

end AeronRs
