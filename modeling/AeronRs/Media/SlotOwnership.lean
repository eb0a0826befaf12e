import AeronRs.Media.Completions
import AeronRs.Media.Submissions
import Mathlib.Data.List.Perm.Subperm

/-! # Who owns a send slot

A slot of the pool is in the free list, or belongs to a send whose completion is to come. A send that
is not queued should leave both as they were; a completion should find its slot still its own.

* **`SlotPool.Owns`** says that the free slots and those of some sends are all different.
* **`SendRun`** is a poller with the sends that the kernel has accepted: it completes each of them at
  most once, at any time, or drops the completion and counts it.
* `send_costs_nothing` and `slot_has_one_owner` are about single calls and whole runs. -/

namespace AeronRs

open Runs

variable {P : Type}

/-! ## The user data of a send -/

/-- **A send's completion names its slot.** -/
theorem sendSlotOf_encode (transportIdx : Nat) {slotIdx : Nat} (hslot : slotIdx < 2 ^ 16)
    (result : Int) (flags : Nat) :
    sendSlotOf ⟨UserData.encode ⟨transportIdx, opSend, slotIdx⟩, result, flags⟩ = [slotIdx] := by
  have hop : opSend = 2 := rfl
  have hraw : UserData.encode ⟨transportIdx, opSend, slotIdx⟩ =
      transportIdx * 2 ^ 48 + 2 * 2 ^ 40 + slotIdx * 2 ^ 24 := by
    have hlow : slotIdx <<< 24 < 2 ^ 40 := by rw [Nat.shiftLeft_eq]; omega
    have hmid : 2 <<< 40 + slotIdx <<< 24 < 2 ^ 48 := by
      rw [Nat.shiftLeft_eq, Nat.shiftLeft_eq]; omega
    rw [UserData.encode, hop, Nat.or_assoc, ← Nat.shiftLeft_add_eq_or_of_lt hlow,
      ← Nat.shiftLeft_add_eq_or_of_lt hmid]
    simp only [Nat.shiftLeft_eq]
    omega
  have hdecodeOp : (UserData.decode (UserData.encode ⟨transportIdx, opSend, slotIdx⟩)).op =
      opSend := by
    rw [hraw, hop]
    simp only [UserData.decode, Nat.shiftRight_eq_div_pow]
    omega
  have hdecodeSlot : (UserData.decode (UserData.encode ⟨transportIdx, opSend, slotIdx⟩)).slotIdx =
      slotIdx := by
    rw [hraw]
    simp only [UserData.decode, Nat.shiftRight_eq_div_pow]
    omega
  rw [sendSlotOf, if_pos hdecodeOp, hdecodeSlot]

/-! ## Everything that a send can do -/

namespace SlotPool

def states (pool : SlotPool P) : List SlotState := pool.sendSlots.map SendSlot.state

/-- The pool after its next slot was taken and pointed at the data. -/
def prepared (pool : SlotPool P) (slotIdx : Nat) (rest : List Nat) (data : P)
    (dest : Option SockAddr) : SlotPool P :=
  ({ pool with sendFree := rest }).modifySlot slotIdx fun slot => slot.prepareSend data dest

theorem map_state_modify {slots : List (SendSlot P)} {f : SendSlot P → SendSlot P}
    {state : SlotState} (hf : ∀ slot, (f slot).state = state) (slotIdx : Nat) :
    (slots.modify slotIdx f).map SendSlot.state =
      (slots.map SendSlot.state).set slotIdx state := by
  induction slots generalizing slotIdx with
  | nil => simp
  | cons slot slots ih =>
      cases slotIdx with
      | zero => simp [hf]
      | succ slotIdx => simp [ih]

theorem states_prepared (pool : SlotPool P) (slotIdx : Nat) (rest : List Nat) (data : P)
    (dest : Option SockAddr) :
    (pool.prepared slotIdx rest data dest).states = pool.states.set slotIdx .inFlight :=
  map_state_modify (fun _ => rfl) slotIdx

theorem states_freeSend (pool : SlotPool P) (slotIdx : Nat) :
    (pool.freeSend slotIdx).states = pool.states.set slotIdx .free :=
  map_state_modify (f := fun slot => { slot with state := .free }) (fun _ => rfl) slotIdx

end SlotPool

namespace UringPoller

def Sends (p : UringPoller P) (transportIdx : Nat) : Prop :=
  ∃ entry ∈ p.transports[transportIdx % 2 ^ 16]?, entry.active = true

instance (p : UringPoller P) (transportIdx : Nat) : Decidable (p.Sends transportIdx) :=
  inferInstanceAs (Decidable (∃ entry ∈ p.transports[transportIdx % 2 ^ 16]?, entry.active = true))

/-- **Everything that `submit_send` can do**: fail for want of a slot, lose a slot to a transport that
is inactive or not there, lose a slot to a full queue, or queue the send. -/
theorem submitSend_cases (p : UringPoller P) (transportIdx : Nat) (data : P)
    (dest : Option SockAddr) :
    (p.pool.sendFree = [] ∧ p.submitSend transportIdx data dest = (p, .error .noSendSlot)) ∨
    ∃ slotIdx rest, p.pool.sendFree = slotIdx :: rest ∧
      ((¬ p.Sends transportIdx ∧ (p.submitSend transportIdx data dest).1 =
          { p with pool := { p.pool with sendFree := rest } }) ∨
        (p.Sends transportIdx ∧ p.sqEntries ≤ p.sq.length ∧
          p.submitSend transportIdx data dest =
            ({ p with pool := p.pool.prepared slotIdx rest data dest }, .error .ringFull)) ∨
        (p.Sends transportIdx ∧ p.sq.length < p.sqEntries ∧ ∃ fd,
          p.submitSend transportIdx data dest =
            ({ p with
                pool := p.pool.prepared slotIdx rest data dest
                sq := p.sq ++ [.sendMsg fd slotIdx
                  (UserData.encode ⟨transportIdx % 2 ^ 16, opSend, slotIdx⟩)] }, .ok ()))) := by
  cases hfree : p.pool.sendFree with
  | nil => exact .inl ⟨rfl, by simp [submitSend, SlotPool.allocSend, hfree]⟩
  | cons slotIdx rest =>
      refine .inr ⟨slotIdx, rest, rfl, ?_⟩
      simp only [submitSend, SlotPool.allocSend, hfree, submitSendSqe]
      cases hentry : p.transports[transportIdx % 2 ^ 16]? with
      -- no such transport: the call panics, and the slot is gone
      | none => exact .inl ⟨by rw [Sends, hentry]; simp, rfl⟩
      | some entry =>
          dsimp only
          by_cases hactive : entry.active = false
          · rw [if_pos hactive]
            exact .inl ⟨by rw [Sends, hentry]; simp [hactive], rfl⟩
          have hsends : p.Sends transportIdx := ⟨entry, hentry, by simpa using hactive⟩
          rw [if_neg hactive, push]
          dsimp only
          by_cases hroom : p.sq.length < p.sqEntries
          · rw [if_pos hroom]
            exact .inr (.inr ⟨hsends, hroom, entry.sendFd, rfl⟩)
          · rw [if_neg hroom]
            exact .inr (.inl ⟨hsends, Nat.not_lt.mp hroom, rfl⟩)

/-- **A send costs nothing unless it is queued**: if no entry was pushed, the free slots and the state
of every slot are as before; otherwise one slot went from free to in flight. -/
def CostsNothing (p p' : UringPoller P) : Prop :=
  if p'.sq = p.sq then p'.pool.sendFree = p.pool.sendFree ∧ p'.pool.states = p.pool.states
  else ∃ slotIdx, p.pool.sendFree = slotIdx :: p'.pool.sendFree ∧ slotIdx ∉ p'.pool.sendFree ∧
    p.pool.states[slotIdx]? = some .free ∧ p'.pool.states = p.pool.states.set slotIdx .inFlight

/-- **The condition on a send**: no slot is free; or the transport is active, the submission queue has
room, and the slot to be taken is marked free and not listed twice. -/
def Queues (p : UringPoller P) (transportIdx : Nat) : Prop :=
  ∀ slotIdx ∈ p.pool.sendFree.head?, p.Sends transportIdx ∧ p.sq.length < p.sqEntries ∧
    slotIdx ∉ p.pool.sendFree.tail ∧ p.pool.states[slotIdx]? = some .free

instance (p : UringPoller P) (transportIdx : Nat) : Decidable (p.Queues transportIdx) :=
  inferInstanceAs (Decidable (∀ slotIdx ∈ p.pool.sendFree.head?, p.Sends transportIdx ∧
    p.sq.length < p.sqEntries ∧ slotIdx ∉ p.pool.sendFree.tail ∧
      p.pool.states[slotIdx]? = some .free))

theorem costsNothing_iff (p : UringPoller P) (transportIdx : Nat) (data : P)
    (dest : Option SockAddr) :
    p.CostsNothing (p.submitSend transportIdx data dest).1 ↔ p.Queues transportIdx := by
  unfold Queues
  rcases p.submitSend_cases transportIdx data dest with
    ⟨hfree, hsubmit⟩ | ⟨slotIdx, rest, hfree, hcases⟩
  · rw [hsubmit, hfree, CostsNothing, if_pos rfl]
    exact iff_of_true ⟨rfl, rfl⟩ nofun
  have hlost : ¬ rest = slotIdx :: rest := fun h => by simpa using congrArg List.length h
  simp only [hfree, List.head?_cons, List.tail_cons, Option.mem_def, Option.some.injEq, forall_eq']
  rcases hcases with ⟨hnot, hsubmit⟩ | ⟨-, hfull, hsubmit⟩ | ⟨hsends, hroom, fd, hsubmit⟩
  · rw [hsubmit, CostsNothing, if_pos rfl, hfree]
    exact iff_of_false (fun h => hlost h.1) fun h => hnot h.1
  · rw [hsubmit, CostsNothing, if_pos rfl, hfree]
    exact iff_of_false (fun h => hlost h.1) fun h => by omega
  · have hpushed : ¬ p.sq ++ [Sqe.sendMsg fd slotIdx
        (UserData.encode ⟨transportIdx % 2 ^ 16, opSend, slotIdx⟩)] = p.sq := by simp
    rw [hsubmit, CostsNothing, if_neg hpushed, hfree]
    constructor
    · rintro ⟨idx, heq, hnotin, hstate, -⟩
      obtain ⟨rfl, -⟩ := List.cons.inj heq
      exact ⟨hsends, hroom, hnotin, hstate⟩
    · rintro ⟨-, -, hnotin, hstate⟩
      exact ⟨slotIdx, rfl, hnotin, hstate, p.pool.states_prepared slotIdx rest data dest⟩

end UringPoller

/-! ## Free slots and slots of sends -/

namespace SlotPool

/-- **The free slots and the slots of some sends** are all different, and marked as what they are. -/
structure Owns (pool : SlotPool P) (out : List Nat) : Prop where
  nodup : (pool.sendFree ++ out).Nodup
  free : ∀ i ∈ pool.sendFree, pool.states[i]? = some .free
  inFlight : ∀ i ∈ out, pool.states[i]? = some .inFlight

/-- **No slot is missing**: every one is free or belongs to a send. -/
structure Full (pool : SlotPool P) (out : List Nat) : Prop extends Owns pool out where
  covers : ∀ i < pool.states.length, i ∈ pool.sendFree ++ out

variable {pool : SlotPool P} {out : List Nat}

theorem owns_new {maxSend : Nat} (h : maxSend ≤ 2 ^ 16) :
    (SlotPool.new maxSend : SlotPool P).Full [] := by
  have hfree := SlotPool.sendFree_new (P := P) h
  have hstates : (SlotPool.new maxSend : SlotPool P).states = List.replicate maxSend .free := by
    simp [states, new, SendSlot.new]
  refine ⟨⟨?_, fun i hi => ?_, fun i hi => ?_⟩, fun i hi => ?_⟩
  · rw [List.append_nil]
    exact (SlotPool.wellFormed_new h).nodup
  · rw [hfree, List.mem_reverse, List.mem_range] at hi
    rw [hstates, List.getElem?_replicate, if_pos hi]
  · cases hi
  · rw [hstates, List.length_replicate] at hi
    rw [List.append_nil, hfree, List.mem_reverse, List.mem_range]
    exact hi

/-- The free slots and those of the sends are as many as there are slots. -/
theorem Full.length_eq (h : pool.Full out) :
    pool.sendFree.length + out.length = pool.states.length := by
  have hperm : (pool.sendFree ++ out).Perm (List.range pool.states.length) := by
    refine (List.perm_ext_iff_of_nodup h.nodup List.nodup_range).mpr fun i => ?_
    rw [List.mem_range]
    refine ⟨fun hi => ?_, h.covers i⟩
    rcases List.mem_append.mp hi with hfree | hout
    · exact (List.getElem?_eq_some_iff.mp (h.free i hfree)).1
    · exact (List.getElem?_eq_some_iff.mp (h.inFlight i hout)).1
  rw [← List.length_append, hperm.length_eq, List.length_range]

theorem Owns.subperm (h : pool.Owns out) {out' : List Nat} (hsub : out'.Subperm out) :
    pool.Owns out' := by
  refine ⟨?_, h.free, fun i hi => h.inFlight i (hsub.subset hi)⟩
  obtain ⟨l, hperm, hsublist⟩ := hsub
  have hl : (pool.sendFree ++ l).Nodup := h.nodup.sublist (hsublist.append_left pool.sendFree)
  exact (hperm.append_left pool.sendFree).nodup_iff.mp hl

theorem Full.perm (h : pool.Full out) {out' : List Nat} (hperm : out'.Perm out) :
    pool.Full out' :=
  ⟨h.toOwns.subperm hperm.subperm, fun i hi =>
    (hperm.append_left pool.sendFree).mem_iff.mpr (h.covers i hi)⟩

theorem Owns.discard (h : pool.Owns out) {slotIdx : Nat} {rest : List Nat}
    (hfree : pool.sendFree = slotIdx :: rest) : ({ pool with sendFree := rest }).Owns out := by
  have hnodup := h.nodup
  rw [hfree, List.cons_append] at hnodup
  refine ⟨(List.nodup_cons.mp hnodup).2, fun i hi => h.free i ?_, h.inFlight⟩
  rw [hfree]
  exact List.mem_cons_of_mem _ hi

/-- **A slot that is taken and prepared** belongs to its send. -/
theorem Owns.prepared (h : pool.Owns out) {slotIdx : Nat} {rest : List Nat}
    (hfree : pool.sendFree = slotIdx :: rest) (data : P) (dest : Option SockAddr) :
    (pool.prepared slotIdx rest data dest).Owns (slotIdx :: out) := by
  have hnodup := h.nodup
  rw [hfree, List.cons_append] at hnodup
  obtain ⟨hnew, hrest⟩ := List.nodup_cons.mp hnodup
  have hhead := h.free slotIdx (by rw [hfree]; exact List.mem_cons_self)
  have hlt := (List.getElem?_eq_some_iff.mp hhead).1
  have hother : ∀ i ∈ rest ++ out, slotIdx ≠ i := fun i hi heq => hnew (heq ▸ hi)
  refine ⟨(List.perm_middle.nodup_iff).mpr hnodup, fun i hi => ?_, fun i hi => ?_⟩
  · rw [states_prepared, List.getElem?_set_ne (hother i (List.mem_append_left _ hi))]
    exact h.free i (by rw [hfree]; exact List.mem_cons_of_mem _ hi)
  · rw [states_prepared]
    rcases List.mem_cons.mp hi with rfl | hi
    · rw [List.getElem?_set_self hlt]
    · rw [List.getElem?_set_ne (hother i (List.mem_append_right _ hi))]
      exact h.inFlight i hi

theorem Full.prepared (h : pool.Full out) {slotIdx : Nat} {rest : List Nat}
    (hfree : pool.sendFree = slotIdx :: rest) (data : P) (dest : Option SockAddr) :
    (pool.prepared slotIdx rest data dest).Full (slotIdx :: out) := by
  refine ⟨h.toOwns.prepared hfree data dest, fun i hi => ?_⟩
  rw [states_prepared, List.length_set] at hi
  have hcovers := h.covers i hi
  rw [hfree] at hcovers
  exact List.perm_middle.mem_iff.mpr hcovers

/-- **A completion** gives its slot back. -/
theorem Owns.freeSend {slotIdx : Nat} (h : pool.Owns (slotIdx :: out)) :
    (pool.freeSend slotIdx).Owns out := by
  have hnodup := List.perm_middle.nodup_iff.mp h.nodup
  obtain ⟨hnew, -⟩ := List.nodup_cons.mp hnodup
  have hlt := (List.getElem?_eq_some_iff.mp (h.inFlight slotIdx List.mem_cons_self)).1
  have hother : ∀ i ∈ pool.sendFree ++ out, slotIdx ≠ i := fun i hi heq => hnew (heq ▸ hi)
  refine ⟨hnodup, fun i hi => ?_, fun i hi => ?_⟩
  · rw [states_freeSend]
    rcases List.mem_cons.mp hi with rfl | hi
    · rw [List.getElem?_set_self hlt]
    · rw [List.getElem?_set_ne (hother i (List.mem_append_left _ hi))]
      exact h.free i hi
  · rw [states_freeSend, List.getElem?_set_ne (hother i (List.mem_append_right _ hi))]
    exact h.inFlight i (List.mem_cons_of_mem _ hi)

theorem Full.freeSend {slotIdx : Nat} (h : pool.Full (slotIdx :: out)) :
    (pool.freeSend slotIdx).Full out := by
  refine ⟨h.toOwns.freeSend, fun i hi => ?_⟩
  rw [states_freeSend, List.length_set] at hi
  exact List.perm_middle.mem_iff.mp (h.covers i hi)

/-- The completions of a batch give their slots back, one after the other. -/
theorem foldl_freeSend {Q : SlotPool P → List Nat → Prop}
    (hfree : ∀ pool slotIdx out, Q pool (slotIdx :: out) → Q (pool.freeSend slotIdx) out)
    {slots : List Nat} (h : Q pool (slots ++ out)) : Q (slots.foldl SlotPool.freeSend pool) out := by
  induction slots generalizing pool with
  | nil => exact h
  | cons slotIdx slots ih =>
      apply ih
      exact hfree pool slotIdx (slots ++ out) h

/-! ## Recovery -/

/-- One round of `recover_leaked_send_slots`. -/
def recoverSlot (pool : SlotPool P) (i : Nat) : SlotPool P :=
  if pool.states[i]? = some .inFlight then pool.freeSend i else pool

/-- **Recovery**: if no send is outstanding, the free slots stay all different, and every slot that was
in flight is one of them. -/
theorem Owns.foldl_recoverSlot (h : pool.Owns []) (slots : List Nat) :
    (slots.foldl recoverSlot pool).Owns [] ∧
      (∀ i ∈ pool.sendFree, i ∈ (slots.foldl recoverSlot pool).sendFree) ∧
      ∀ i ∈ slots, pool.states[i]? = some .inFlight →
        i ∈ (slots.foldl recoverSlot pool).sendFree := by
  induction slots generalizing pool with
  | nil => exact ⟨h, fun _ hi => hi, nofun⟩
  | cons j slots ih =>
      rw [List.foldl_cons, recoverSlot]
      by_cases hstate : pool.states[j]? = some .inFlight
      · -- a slot in flight is not in the free list, whose slots are marked free
        have hnotfree : j ∉ pool.sendFree := fun hj => by
          rw [h.free j hj] at hstate
          cases hstate
        have howns : pool.Owns [j] := by
          refine ⟨List.nodup_append.mpr ⟨by simpa using h.nodup, List.nodup_singleton j, ?_⟩,
            h.free, ?_⟩
          · intro a ha b hb heq
            obtain rfl := List.mem_singleton.mp hb
            exact hnotfree (heq ▸ ha)
          · intro i hi
            obtain rfl := List.mem_singleton.mp hi
            exact hstate
        obtain ⟨hrec, hkeep, hfound⟩ := ih howns.freeSend
        rw [if_pos hstate]
        refine ⟨hrec, fun i hi => hkeep i (List.mem_cons_of_mem _ hi), fun i hi hflight => ?_⟩
        by_cases hij : i = j
        · exact hkeep i (hij ▸ List.mem_cons_self)
        · refine hfound i ((List.mem_cons.mp hi).resolve_left hij) ?_
          rw [states_freeSend, List.getElem?_set_ne (Ne.symm hij)]
          exact hflight
      · -- a slot in another state is passed over
        obtain ⟨hrec, hkeep, hfound⟩ := ih h
        rw [if_neg hstate]
        refine ⟨hrec, hkeep, fun i hi hflight => ?_⟩
        rcases List.mem_cons.mp hi with rfl | hi
        · exact absurd hflight hstate
        · exact hfound i hi hflight

@[simp] theorem length_states_freeSend (pool : SlotPool P) (slotIdx : Nat) :
    (pool.freeSend slotIdx).states.length = pool.states.length := by
  rw [states_freeSend, List.length_set]

theorem length_states_foldl {f : SlotPool P → Nat → SlotPool P}
    (hf : ∀ pool i, (f pool i).states.length = pool.states.length) (slots : List Nat)
    (pool : SlotPool P) : (slots.foldl f pool).states.length = pool.states.length := by
  induction slots generalizing pool with
  | nil => rfl
  | cons i slots ih => rw [List.foldl_cons, ih, hf]

@[simp] theorem length_states_recoverSlot (pool : SlotPool P) (i : Nat) :
    (pool.recoverSlot i).states.length = pool.states.length := by
  unfold recoverSlot
  split_ifs
  · exact pool.length_states_freeSend i
  · rfl

def recovered (pool : SlotPool P) : SlotPool P :=
  (List.range pool.states.length).foldl recoverSlot pool

@[simp] theorem length_states_recovered (pool : SlotPool P) :
    pool.recovered.states.length = pool.states.length :=
  length_states_foldl length_states_recoverSlot _ pool

theorem Owns.recovered (h : pool.Owns []) : pool.recovered.Owns [] :=
  (h.foldl_recoverSlot _).1

theorem Full.recovered (h : pool.Full out) : pool.recovered.Full [] := by
  obtain ⟨hrec, hkeep, hfound⟩ :=
    (h.toOwns.subperm (List.nil_subperm)).foldl_recoverSlot (List.range pool.states.length)
  refine ⟨hrec, fun i hi => ?_⟩
  have hi' : i < pool.states.length := by rwa [length_states_recovered] at hi
  rw [List.append_nil]
  rcases List.mem_append.mp (h.covers i hi') with hfree | hout
  · exact hkeep i hfree
  · exact hfound i (List.mem_range.mpr hi') (h.inFlight i hout)

end SlotPool

/-! ## A poll -/

theorem UringPoller.recoverLeakedSendSlots_pool (p : UringPoller P) :
    p.recoverLeakedSendSlots.pool = p.pool.recovered := by
  have hfold : ∀ (slots : List Nat) (p : UringPoller P),
      (slots.foldl (fun p i =>
        if (p.pool.sendSlots[i]?).map SendSlot.state = some .inFlight then
          { p with pool := p.pool.freeSend i }
        else p) p).pool = slots.foldl SlotPool.recoverSlot p.pool := by
    intro slots
    induction slots with
    | nil => exact fun p => rfl
    | cons i slots ih =>
        intro p
        rw [List.foldl_cons, List.foldl_cons, ih, SlotPool.recoverSlot, SlotPool.states,
          List.getElem?_map]
        split <;> rfl
  rw [recoverLeakedSendSlots, hfold, SlotPool.recovered, SlotPool.states, List.length_map]

theorem submitMultishotRecv_pool (p : UringPoller P) (tidx : Nat) :
    (p.submitMultishotRecv tidx).1.pool = p.pool := by
  unfold UringPoller.submitMultishotRecv
  split
  · rfl
  · split_ifs
    · rfl
    · unfold UringPoller.push
      split_ifs <;> rfl

namespace PollState

theorem consume_pool (api : UringApi) (st : PollState P) (tidx : Nat) (cqe : Cqe)
    (active : Option TransportEntry) :
    (st.consume api tidx cqe active).poller.pool = st.poller.pool := by
  unfold consume
  cases api.bufferSelect cqe.flags with
  | none =>
      dsimp only
      split_ifs
      · rw [(st.countRecvError_eq cqe.result).1]
      · rfl
  | some bufId =>
      simp only [returnBuf]
      rw [(st.receive_eq api tidx bufId cqe.result active).1]

/-- **One entry** frees the slot of its send and touches no other. -/
theorem dispatch_pool (api : UringApi) (st : PollState P) (cqe : Cqe) :
    (st.dispatch api cqe).poller.pool = (sendSlotOf cqe).foldl SlotPool.freeSend st.poller.pool := by
  unfold dispatch sendSlotOf
  dsimp only
  by_cases hrecv : (UserData.decode cqe.userData).op = opRecv
  · have hsend : ¬ (UserData.decode cqe.userData).op = opSend := by
      rw [hrecv]
      decide
    rw [if_pos hrecv, if_neg hsend, dispatchRecv]
    split_ifs
    · rw [rearm, submitMultishotRecv_pool]
      exact st.consume_pool api _ cqe _
    · exact st.consume_pool api _ cqe _
  · rw [if_neg hrecv]
    split_ifs <;> rfl

theorem foldl_dispatch_pool (api : UringApi) (batch : List Cqe) (st : PollState P) :
    (batch.foldl (dispatch api) st).poller.pool =
      (batch.flatMap sendSlotOf).foldl SlotPool.freeSend st.poller.pool := by
  induction batch generalizing st with
  | nil => rfl
  | cons cqe batch ih =>
      rw [List.foldl_cons, ih, dispatch_pool, List.flatMap_cons, List.foldl_append]

end PollState

/-- The slots of the completions that a poll takes into its batch. -/
def batchSlots (p : UringPoller P) : List Nat := (p.cq.take cqeBatchSize).flatMap sendSlotOf

/-- **The pool after a poll**: the slots of the batch are freed, and after an overflow every slot that
is still in flight. -/
theorem pollRecv_pool (api : UringApi) (p : UringPoller P) (submitErrno : Option Int) :
    (p.pollRecv api submitErrno).1.pool =
      if 0 < p.overflow then ((batchSlots p).foldl SlotPool.freeSend p.pool).recovered
      else (batchSlots p).foldl SlotPool.freeSend p.pool := by
  have hbatch : (harvest p.cq 0).1 = p.cq.take cqeBatchSize :=
    congrArg Prod.fst (harvest_eq p.cq (Nat.zero_le cqeBatchSize))
  have hpool : (p.pollDispatch api).poller.pool = (batchSlots p).foldl SlotPool.freeSend p.pool := by
    rw [UringPoller.pollDispatch, PollState.foldl_dispatch_pool, hbatch]
    rfl
  have hover : (p.pollDispatch api).result.cqOverflows = p.overflow := by
    obtain ⟨blocks, -, -, heffect⟩ := PollState.foldl_dispatch_spec api (harvest p.cq 0).1
      ⟨{ p with cq := (harvest p.cq 0).2 }, ⟨0, 0, 0, 0, 0, 0, p.overflow⟩, false, false, []⟩
    exact heffect.overflows
  have hsettle : (p.pollDispatch api).settle.pool =
      if 0 < p.overflow then ((batchSlots p).foldl SlotPool.freeSend p.pool).recovered
      else (batchSlots p).foldl SlotPool.freeSend p.pool := by
    rw [PollState.settle, hover, ← hpool]
    dsimp only
    split_ifs <;> simp only [UringPoller.recoverLeakedSendSlots_pool]
  unfold UringPoller.pollRecv
  dsimp only
  split_ifs at hsettle ⊢
  all_goals first
    | exact hsettle
    | (cases submitErrno <;> exact hsettle)

/-! ## Runs -/

/-- What happens to a poller and its sends. The kernel completes one of the accepted sends, by its place
among them, or drops the completion; it posts or drops completions of other operations; and transports
come and go. -/
inductive SendAction (P : Type)
  | submit (transportIdx : Nat) (data : P) (dest : Option SockAddr)
  | flush
  | complete (k : Nat) (result : Int) (flags : Nat)
  | dropCompletion (k : Nat)
  | post (cqe : Cqe)
  | dropOther
  | transports (entries : List TransportEntry)
  | poll (submitErrno : Option Int)

/-- A poller with the user data of the accepted sends whose completion the kernel has neither posted nor
dropped, and the slots of the dropped ones until a poll recovers them. -/
structure SendRun (P : Type) where
  poller : UringPoller P
  live : List Nat
  dropped : List Nat

/-- The user data of a send's submission entry. -/
def Sqe.sendData? : Sqe → Option Nat
  | .sendMsg _ _ userData => some userData
  | .recvMsgMulti _ _ => none

/-- The slot that the completion with some user data will free. -/
def slotsOf (userData : Nat) : List Nat := sendSlotOf ⟨userData, 0, 0⟩

theorem sendSlotOf_eq (userData : Nat) (result : Int) (flags : Nat) :
    sendSlotOf ⟨userData, result, flags⟩ = slotsOf userData := rfl

namespace SendRun

def start (p : UringPoller P) : SendRun P := ⟨p, [], []⟩

def pushed (p p' : UringPoller P) : List Nat := (p'.sq.drop p.sq.length).filterMap Sqe.sendData?

def step (api : UringApi) (s : SendRun P) : SendAction P → SendRun P
  | .submit transportIdx data dest =>
      { s with
        poller := (s.poller.submitSend transportIdx data dest).1
        live := s.live ++ pushed s.poller (s.poller.submitSend transportIdx data dest).1 }
  | .flush => { s with poller.sq := [] }
  | .complete k result flags =>
      match s.live[k]? with
      | none => s
      | some userData =>
          { s with
            live := s.live.eraseIdx k
            poller.cq := s.poller.cq ++ [⟨userData, result, flags⟩] }
  | .dropCompletion k =>
      match s.live[k]? with
      | none => s
      | some userData =>
          { poller := { s.poller with overflow := s.poller.overflow + 1 }
            live := s.live.eraseIdx k
            dropped := s.dropped ++ slotsOf userData }
  | .post cqe =>
      if sendSlotOf cqe = [] then { s with poller.cq := s.poller.cq ++ [cqe] } else s
  | .dropOther => { s with poller.overflow := s.poller.overflow + 1 }
  | .transports entries => { s with poller.transports := entries }
  | .poll submitErrno =>
      { s with
        poller := (s.poller.pollRecv api submitErrno).1
        dropped := if 0 < s.poller.overflow then [] else s.dropped }

/-- The slots whose completion can still be delivered: the kernel may post it, or it is in the queue. -/
def outstanding (s : SendRun P) : List Nat :=
  s.live.flatMap slotsOf ++ s.poller.cq.flatMap sendSlotOf

/-- The slots of the sends that await their completion, those included whose completion was dropped and
not made up for yet. -/
def awaiting (s : SendRun P) : List Nat := s.outstanding ++ s.dropped

/-- **The condition for conservation**: a send is queued or finds no slot; a poll finds at most one batch
in the queue, and after an overflow no send of which the kernel still has to report. -/
def Conserves (s : SendRun P) : SendAction P → Prop
  | .submit transportIdx _ _ => s.poller.Queues transportIdx
  | .poll _ => s.poller.cq.length ≤ cqeBatchSize ∧ (s.poller.overflow = 0 ∨ s.live = [])
  | _ => True

instance (s : SendRun P) : (a : SendAction P) → Decidable (s.Conserves a)
  | .submit transportIdx _ _ => inferInstanceAs (Decidable (s.poller.Queues transportIdx))
  | .poll _ => inferInstanceAs (Decidable (_ ∧ _))
  | .flush | .complete .. | .dropCompletion _ | .post _ | .dropOther | .transports _ =>
      inferInstanceAs (Decidable True)

/-- **The condition for one owner**: after an overflow a poll leaves no send of which a completion can
still be delivered. -/
def RecoversAll (s : SendRun P) : SendAction P → Prop
  | .poll _ => s.poller.overflow = 0 ∨
      s.live = [] ∧ (s.poller.cq.drop (cqeBatchSize + 1)).flatMap sendSlotOf = []
  | _ => True

instance (s : SendRun P) : (a : SendAction P) → Decidable (s.RecoversAll a)
  | .poll _ => inferInstanceAs (Decidable (_ ∨ _))
  | .submit .. | .flush | .complete .. | .dropCompletion _ | .post _ | .dropOther | .transports _ =>
      inferInstanceAs (Decidable True)

/-- A send is given a slot of which no completion can still be delivered. -/
def HandsOutUnowned (s : SendRun P) : SendAction P → Prop
  | .submit _ _ _ => ∀ slotIdx ∈ s.poller.pool.sendFree.head?, slotIdx ∉ s.outstanding
  | _ => True

instance (s : SendRun P) : (a : SendAction P) → Decidable (s.HandsOutUnowned a)
  | .submit _ _ _ =>
      inferInstanceAs (Decidable (∀ slotIdx ∈ s.poller.pool.sendFree.head?,
        slotIdx ∉ s.outstanding))
  | .flush | .complete .. | .dropCompletion _ | .post _ | .dropOther | .transports _ | .poll _ =>
      inferInstanceAs (Decidable True)

variable {api : UringApi} {s : SendRun P}

/-! ### What becomes of the outstanding sends -/

theorem pushed_of_sq_eq {p p' : UringPoller P} (h : p'.sq = p.sq) :
    pushed p p' = [] := by
  rw [pushed, h, List.drop_length]
  rfl

theorem outstanding_pushed (p' : UringPoller P) {fd transportIdx slotIdx : Nat}
    (hslot : slotIdx < 2 ^ 16) (hcq : p'.cq = s.poller.cq)
    (hsq : p'.sq = s.poller.sq ++
      [.sendMsg fd slotIdx (UserData.encode ⟨transportIdx, opSend, slotIdx⟩)]) :
    (⟨p', s.live ++ pushed s.poller p', s.dropped⟩ : SendRun P).outstanding.Perm
      (slotIdx :: s.outstanding) := by
  have hpushed : pushed s.poller p' = [UserData.encode ⟨transportIdx, opSend, slotIdx⟩] := by
    rw [pushed, hsq, List.drop_left]
    rfl
  have hslots : slotsOf (UserData.encode ⟨transportIdx, opSend, slotIdx⟩) = [slotIdx] :=
    sendSlotOf_encode transportIdx hslot 0 0
  simp only [outstanding, hpushed, hcq, List.flatMap_append, List.flatMap_singleton, hslots,
    List.append_assoc, List.singleton_append]
  exact List.perm_middle

/-- An accepted send that the kernel is done with. -/
theorem live_perm {k userData : Nat} (h : s.live[k]? = some userData) :
    (slotsOf userData ++ (s.live.eraseIdx k).flatMap slotsOf).Perm (s.live.flatMap slotsOf) := by
  obtain ⟨hlt, rfl⟩ := List.getElem?_eq_some_iff.mp h
  exact (List.getElem_cons_eraseIdx_perm hlt).flatMap_right slotsOf

/-- **A completion** moves from the kernel to the queue. -/
theorem outstanding_complete (api : UringApi) (s : SendRun P) (k : Nat) (result : Int)
    (flags : Nat) :
    (step api s (.complete k result flags)).outstanding.Perm s.outstanding := by
  simp only [step]
  cases hk : s.live[k]? with
  | none => exact .refl _
  | some userData =>
      simp only [outstanding, List.flatMap_append, List.flatMap_singleton, sendSlotOf_eq]
      refine List.Perm.trans ?_ ((live_perm hk).append_right _)
      rw [← List.append_assoc]
      exact List.perm_append_comm.trans (List.Perm.of_eq (List.append_assoc ..).symm)

/-- **A dropped completion** is not outstanding any more. -/
theorem awaiting_dropCompletion (api : UringApi) (s : SendRun P) (k : Nat) :
    (step api s (.dropCompletion k)).awaiting.Perm s.awaiting ∧
      (step api s (.dropCompletion k)).outstanding.Subperm s.outstanding := by
  simp only [step]
  cases hk : s.live[k]? with
  | none => exact ⟨.refl _, .refl _⟩
  | some userData =>
      have hperm : (slotsOf userData ++ ((s.live.eraseIdx k).flatMap slotsOf ++
          s.poller.cq.flatMap sendSlotOf)).Perm s.outstanding := by
        rw [← List.append_assoc]
        exact (live_perm hk).append_right _
      have hmove : ∀ rest dropped slots : List Nat,
          (rest ++ (dropped ++ slots)).Perm ((slots ++ rest) ++ dropped) := fun rest dropped slots => by
        rw [← List.append_assoc, List.append_assoc slots]
        exact List.perm_append_comm
      refine ⟨?_, ?_⟩
      · simp only [awaiting]
        exact (hmove ..).trans (hperm.append_right s.dropped)
      · exact (List.sublist_append_right _ _).subperm.trans hperm.subperm

theorem outstanding_post (api : UringApi) (s : SendRun P) (cqe : Cqe) :
    (step api s (.post cqe)).outstanding = s.outstanding := by
  simp only [step]
  split_ifs with hsend
  · simp [outstanding, hsend]
  · rfl

/-- The steps in which the agent takes no slot and gives none back. -/
def isQuiet : SendAction P → Bool
  | .submit .. | .poll _ => false
  | _ => true

/-- **A quiet step** leaves the slots alone; no send comes to be outstanding, and none is lost track
of. -/
theorem step_quiet (api : UringApi) (s : SendRun P) {a : SendAction P} (ha : isQuiet a = true) :
    (step api s a).poller.pool = s.poller.pool ∧ (step api s a).awaiting.Perm s.awaiting ∧
      (step api s a).outstanding.Subperm s.outstanding := by
  cases a with
  | submit transportIdx data dest => cases ha
  | poll submitErrno => cases ha
  | flush => exact ⟨rfl, .refl _, .refl _⟩
  -- the completion of a send moves it from the kernel to the completion queue
  | complete k result flags =>
      have hperm := outstanding_complete api s k result flags
      have hkept : (step api s (.complete k result flags)).poller.pool = s.poller.pool ∧
          (step api s (.complete k result flags)).dropped = s.dropped := by
        simp only [step]
        cases s.live[k]? with
        | none => exact ⟨rfl, rfl⟩
        | some userData => exact ⟨rfl, rfl⟩
      refine ⟨hkept.1, ?_, hperm.subperm⟩
      rw [awaiting, hkept.2]
      exact hperm.append_right s.dropped
  | dropCompletion k =>
      obtain ⟨hperm, hsub⟩ := awaiting_dropCompletion api s k
      refine ⟨?_, hperm, hsub⟩
      simp only [step]
      cases s.live[k]? with
      | none => rfl
      | some userData => rfl
  | post cqe =>
      have heq := outstanding_post api s cqe
      have hkept : (step api s (.post cqe)).poller.pool = s.poller.pool ∧
          (step api s (.post cqe)).dropped = s.dropped := by
        simp only [step]
        split_ifs
        · exact ⟨rfl, rfl⟩
        · exact ⟨rfl, rfl⟩
      refine ⟨hkept.1, ?_, List.Perm.subperm (.of_eq heq)⟩
      rw [awaiting, hkept.2, heq]
      exact .refl _
  | dropOther => exact ⟨rfl, .refl _, .refl _⟩
  | transports entries => exact ⟨rfl, .refl _, .refl _⟩

theorem outstanding_poll (api : UringApi) (s : SendRun P) (submitErrno : Option Int) :
    (step api s (.poll submitErrno)).outstanding =
      s.live.flatMap slotsOf ++ (s.poller.cq.drop (cqeBatchSize + 1)).flatMap sendSlotOf := by
  simp only [step, outstanding, (pollRecv_spec api s.poller submitErrno).1]

theorem batch_append_subperm (api : UringApi) (s : SendRun P) (submitErrno : Option Int) :
    (batchSlots s.poller ++ (step api s (.poll submitErrno)).outstanding).Subperm s.outstanding := by
  have hsplit : s.poller.cq.flatMap sendSlotOf =
      batchSlots s.poller ++ (s.poller.cq.drop cqeBatchSize).flatMap sendSlotOf := by
    rw [batchSlots, ← List.flatMap_append, List.take_append_drop]
  -- the entry after the batch is lost, the ones behind it stay
  have hlost : ((s.poller.cq.drop (cqeBatchSize + 1)).flatMap sendSlotOf).Sublist
      ((s.poller.cq.drop cqeBatchSize).flatMap sendSlotOf) := by
    rw [← List.take_append_drop 1 (s.poller.cq.drop cqeBatchSize), List.drop_drop,
      List.flatMap_append]
    exact List.sublist_append_right _ _
  rw [outstanding_poll, outstanding, hsplit]
  refine List.Subperm.trans ?_ (List.perm_append_comm_assoc ..).symm.subperm
  exact (((hlost.append_left _).append_left _)).subperm

/-! ### The invariants -/

theorem length_states_poll (api : UringApi) (s : SendRun P) (submitErrno : Option Int) :
    (step api s (.poll submitErrno)).poller.pool.states.length = s.poller.pool.states.length := by
  have hbatch := SlotPool.length_states_foldl (P := P) SlotPool.length_states_freeSend
    (batchSlots s.poller) s.poller.pool
  simp only [step, pollRecv_pool]
  split_ifs
  · rw [SlotPool.length_states_recovered, hbatch]
  · exact hbatch

/-- **One owner**: a slot is not free and awaited at once, nor awaited by two sends, nor free twice. -/
structure OneOwner (s : SendRun P) : Prop where
  owns : s.poller.pool.Owns s.outstanding
  bound : s.poller.pool.states.length ≤ 2 ^ 16

theorem slot_lt {pool : SlotPool P} {out : List Nat} (h : pool.Owns out) {slotIdx : Nat}
    {rest : List Nat} (hfree : pool.sendFree = slotIdx :: rest) : slotIdx < pool.states.length :=
  (List.getElem?_eq_some_iff.mp (h.free slotIdx (by rw [hfree]; exact List.mem_cons_self))).1

/-- **A send**, queued or not. -/
theorem OneOwner.submit (h : OneOwner s) (transportIdx : Nat) (data : P) (dest : Option SockAddr) :
    OneOwner (step api s (.submit transportIdx data dest)) := by
  obtain ⟨howns, hbound⟩ := h
  have hlen : ∀ slotIdx rest, (s.poller.pool.prepared slotIdx rest data dest).states.length ≤
      2 ^ 16 := fun slotIdx rest => by rwa [SlotPool.states_prepared, List.length_set]
  simp only [step]
  rcases s.poller.submitSend_cases transportIdx data dest with
    ⟨-, hsubmit⟩ | ⟨slotIdx, rest, hfree, ⟨-, hsubmit⟩ | ⟨-, -, hsubmit⟩ | ⟨-, -, fd, hsubmit⟩⟩
  · rw [pushed_of_sq_eq (by rw [hsubmit]), hsubmit, List.append_nil]
    exact ⟨howns, hbound⟩
  · rw [pushed_of_sq_eq (by rw [hsubmit]), hsubmit, List.append_nil]
    exact ⟨howns.discard hfree, hbound⟩
  · rw [pushed_of_sq_eq (by rw [hsubmit]), hsubmit, List.append_nil]
    exact ⟨(howns.prepared hfree data dest).subperm (List.sublist_cons_self _ _).subperm,
      hlen slotIdx rest⟩
  · rw [hsubmit]
    have hperm := outstanding_pushed (s := s)
      { s.poller with
        pool := s.poller.pool.prepared slotIdx rest data dest
        sq := s.poller.sq ++ [.sendMsg fd slotIdx
          (UserData.encode ⟨transportIdx % 2 ^ 16, opSend, slotIdx⟩)] }
      (Nat.lt_of_lt_of_le (slot_lt howns hfree) hbound) rfl rfl
    exact ⟨(howns.prepared hfree data dest).subperm hperm.subperm, hlen slotIdx rest⟩

/-- **A poll** that recovers nothing outstanding. -/
theorem OneOwner.poll (h : OneOwner s) {submitErrno : Option Int}
    (hsafe : s.RecoversAll (.poll submitErrno)) :
    OneOwner (step api s (.poll submitErrno)) := by
  refine ⟨?_, by rw [length_states_poll]; exact h.bound⟩
  have hfreed := SlotPool.foldl_freeSend (fun _ _ _ ho => SlotPool.Owns.freeSend ho)
    (h.owns.subperm (batch_append_subperm api s submitErrno))
  by_cases hover : 0 < s.poller.overflow
  · obtain ⟨hlive, hqueue⟩ := hsafe.resolve_left (Nat.pos_iff_ne_zero.mp hover)
    have hnone : (step api s (.poll submitErrno)).outstanding = [] := by
      rw [outstanding_poll, hlive, hqueue]
      rfl
    rw [hnone] at hfreed ⊢
    simp only [step, pollRecv_pool, if_pos hover]
    exact hfreed.recovered
  · have hpool : (step api s (.poll submitErrno)).poller.pool =
        (batchSlots s.poller).foldl SlotPool.freeSend s.poller.pool := by
      simp only [step, pollRecv_pool, if_neg hover]
    rw [hpool]
    exact hfreed

theorem OneOwner.quiet (h : OneOwner s) {a : SendAction P} (ha : isQuiet a = true) :
    OneOwner (step api s a) := by
  obtain ⟨hpool, -, hsub⟩ := step_quiet api s ha
  constructor
  · rw [hpool]
    exact h.owns.subperm hsub
  · rw [hpool]
    exact h.bound

theorem OneOwner.step (h : OneOwner s) {a : SendAction P} (hsafe : s.RecoversAll a) :
    OneOwner (step api s a) ∧ s.HandsOutUnowned a := by
  cases a with
  | submit transportIdx data dest =>
      refine ⟨h.submit transportIdx data dest, fun slotIdx hhead hout => ?_⟩
      have hmem : slotIdx ∈ s.poller.pool.sendFree := List.mem_of_mem_head? hhead
      exact (List.nodup_append.mp h.owns.nodup).2.2 slotIdx hmem slotIdx hout rfl
  | poll submitErrno => exact ⟨h.poll hsafe, trivial⟩
  | _ => exact ⟨h.quiet rfl, trivial⟩

/-- **Nothing lost**: every slot is free or awaited. -/
structure Conserved (maxSend : Nat) (s : SendRun P) : Prop where
  full : s.poller.pool.Full s.awaiting
  count : s.poller.pool.states.length = maxSend
  bound : maxSend ≤ 2 ^ 16

variable {maxSend : Nat}

/-- **A send** that is queued, or finds no slot. -/
theorem Conserved.submit (h : Conserved maxSend s) {transportIdx : Nat} {data : P}
    {dest : Option SockAddr} (hqueues : s.poller.Queues transportIdx) :
    Conserved maxSend (step api s (.submit transportIdx data dest)) := by
  obtain ⟨hfull, hcount, hbound⟩ := h
  simp only [step]
  rcases s.poller.submitSend_cases transportIdx data dest with
    ⟨-, hsubmit⟩ | ⟨slotIdx, rest, hfree, hcases⟩
  · rw [pushed_of_sq_eq (by rw [hsubmit]), hsubmit, List.append_nil]
    exact ⟨hfull, hcount, hbound⟩
  obtain ⟨hsends, hroom, -⟩ := hqueues slotIdx (by rw [hfree]; rfl)
  rcases hcases with ⟨hnot, -⟩ | ⟨-, hnoroom, -⟩ | ⟨-, -, fd, hsubmit⟩
  · exact absurd hsends hnot
  · exact absurd hroom (Nat.not_lt.mpr hnoroom)
  · have hlt := slot_lt hfull.toOwns hfree
    have hperm := outstanding_pushed (s := s)
      { s.poller with
        pool := s.poller.pool.prepared slotIdx rest data dest
        sq := s.poller.sq ++ [.sendMsg fd slotIdx
          (UserData.encode ⟨transportIdx % 2 ^ 16, opSend, slotIdx⟩)] }
      (Nat.lt_of_lt_of_le hlt (hcount ▸ hbound)) rfl rfl
    rw [hsubmit]
    refine ⟨(hfull.prepared hfree data dest).perm (hperm.append_right s.dropped), ?_, hbound⟩
    rw [SlotPool.states_prepared, List.length_set, hcount]

/-- **A poll** of at most one batch that recovers nothing outstanding. -/
theorem Conserved.poll (h : Conserved maxSend s) {submitErrno : Option Int}
    (hfits : s.poller.cq.length ≤ cqeBatchSize) (hlive : s.poller.overflow = 0 ∨ s.live = []) :
    Conserved maxSend (step api s (.poll submitErrno)) := by
  refine ⟨?_, (length_states_poll api s submitErrno).trans h.count, h.bound⟩
  have hbatch : batchSlots s.poller = s.poller.cq.flatMap sendSlotOf := by
    rw [batchSlots, List.take_of_length_le hfits]
  have hnone : (step api s (.poll submitErrno)).outstanding = s.live.flatMap slotsOf := by
    rw [outstanding_poll, List.drop_eq_nil_of_le (by omega), List.flatMap_nil, List.append_nil]
  have hfreed : ((batchSlots s.poller).foldl SlotPool.freeSend s.poller.pool).Full
      (s.live.flatMap slotsOf ++ s.dropped) := by
    refine SlotPool.foldl_freeSend (fun _ _ _ hf => SlotPool.Full.freeSend hf) (h.full.perm ?_)
    rw [hbatch, awaiting, outstanding, ← List.append_assoc]
    exact List.perm_append_comm.append_right s.dropped
  by_cases hover : 0 < s.poller.overflow
  · have hempty := hlive.resolve_left (Nat.pos_iff_ne_zero.mp hover)
    rw [hempty, List.flatMap_nil] at hnone
    rw [awaiting, hnone]
    simp only [step, pollRecv_pool, if_pos hover, List.append_nil]
    exact hfreed.recovered
  · rw [awaiting, hnone]
    simp only [step, pollRecv_pool, if_neg hover]
    exact hfreed

theorem Conserved.quiet (h : Conserved maxSend s) {a : SendAction P} (ha : isQuiet a = true) :
    Conserved maxSend (step api s a) := by
  obtain ⟨hpool, hperm, -⟩ := step_quiet api s ha
  refine ⟨?_, ?_, h.bound⟩
  · rw [hpool]
    exact h.full.perm hperm
  · rw [hpool]
    exact h.count

theorem Conserved.step (h : Conserved maxSend s) {a : SendAction P} (hcond : s.Conserves a) :
    Conserved maxSend (step api s a) := by
  cases a with
  | submit transportIdx data dest => exact h.submit hcond
  | poll submitErrno => exact h.poll hcond.1 hcond.2
  | _ => exact h.quiet rfl

theorem conserved_start {p : UringPoller P} (hmax : maxSend ≤ 2 ^ 16) (hpool : p.pool = .new maxSend)
    (hcq : p.cq = []) : Conserved maxSend (start p) := by
  have hfull : (SlotPool.new maxSend : SlotPool P).Full [] := SlotPool.owns_new hmax
  refine ⟨?_, ?_, hmax⟩
  · simpa [start, awaiting, outstanding, hpool, hcq] using hfull
  · simp [start, hpool, SlotPool.states, SlotPool.new]

theorem oneOwner_start {p : UringPoller P} (hmax : maxSend ≤ 2 ^ 16) (hpool : p.pool = .new maxSend)
    (hcq : p.cq = []) : OneOwner (start p) := by
  obtain ⟨hfull, hcount, -⟩ := conserved_start hmax hpool hcq
  exact ⟨hfull.toOwns.subperm (List.sublist_append_left _ _).subperm, hcount ▸ hmax⟩

end SendRun

/-! ## The results -/

open SendRun in
/-- **A send that was not queued costs nothing** exactly if it finds no slot, or is queued. For any poller
and any send: if no entry was pushed nothing changed, and otherwise one slot went from free to in
flight, iff the condition holds before the call. And in every run that meets the condition, from a
poller with at most `2 ^ 16` slots, the free slots and the sends that await their completion add up to
the number of slots. -/
theorem send_costs_nothing (api : UringApi) :
    (∀ (p : UringPoller P) (transportIdx : Nat) (data : P) (dest : Option SockAddr),
      p.CostsNothing (p.submitSend transportIdx data dest).1 ↔ p.Queues transportIdx) ∧
    ∀ (maxSend : Nat) (p : UringPoller P) (as : List (SendAction P)), maxSend ≤ 2 ^ 16 →
      p.pool = .new maxSend → p.cq = [] → Meets Conserves (step api) (start p) as →
      (run (step api) (start p) as).poller.pool.sendAvailable +
        (run (step api) (start p) as).awaiting.length = maxSend := by
  refine ⟨fun p transportIdx data dest => p.costsNothing_iff transportIdx data dest, ?_⟩
  intro maxSend p as hmax hpool hcq hcond
  have hinv : Conserved maxSend (run (step api) (start p) as) :=
    run_invariant (fun _ _ h hcond => h.step hcond) (conserved_start hmax hpool hcq) hcond
  rw [← hinv.count]
  exact hinv.full.length_eq

open SendRun in
/-- **A send slot has one owner**, as long as recovery after an overflow finds nothing outstanding: in
every run that meets the condition, from a poller with at most `2 ^ 16` slots, no slot is twice in the
free list, and no send is given a slot of which a completion can still be delivered. -/
theorem slot_has_one_owner (api : UringApi) {maxSend : Nat} (hmax : maxSend ≤ 2 ^ 16)
    {p : UringPoller P} (hpool : p.pool = .new maxSend) (hcq : p.cq = [])
    (as : List (SendAction P)) (hsafe : Meets RecoversAll (step api) (start p) as) :
    (run (step api) (start p) as).poller.pool.sendFree.Nodup ∧
      Meets HandsOutUnowned (step api) (start p) as := by
  have hstart := oneOwner_start hmax hpool hcq
  have hinv : OneOwner (run (step api) (start p) as) :=
    run_invariant (fun _ _ h hsafe => (h.step hsafe).1) hstart hsafe
  exact ⟨(List.nodup_append.mp hinv.owns.nodup).1,
    meets_of_invariant (fun _ _ h hsafe => h.step hsafe) hstart hsafe⟩

namespace SendRun

/-- A new poller with two slots, one entry in the submission queue and two transports, the second of
which was removed. -/
def twoSlots : UringPoller Unit where
  sqEntries := 1
  sq := []
  cq := []
  overflow := 0
  bufRing := ⟨0, 2048, fun _ => 0, 0, 0, fun _ => []⟩
  pool := .new 2
  transports := [⟨3, 3, 0, 0, true, true⟩, ⟨4, 4, 0, 0, false, false⟩]

def completedSend : List (SendAction Unit) :=
  [.submit 0 () none, .flush, .complete 0 64 0, .poll none]

theorem send_costs_nothing_completed :
    Meets Conserves (step PollRun.flagApi) (start twoSlots) completedSend ∧
      (run (step PollRun.flagApi) (start twoSlots) completedSend).poller.pool.sendAvailable +
        (run (step PollRun.flagApi) (start twoSlots) completedSend).awaiting.length = 2 := by
  have hcond : Meets Conserves (step PollRun.flagApi) (start twoSlots) completedSend := by
    decide +kernel
  exact ⟨hcond, (send_costs_nothing PollRun.flagApi).2 2 twoSlots completedSend (by decide) rfl rfl
    hcond⟩

/-- **Slots lost to sends that were not queued**: one to a removed transport, although the call reports
success, and one to a full submission queue. No send awaits a completion, and no slot is left. -/
theorem unqueued_sends_lose_slots :
    (twoSlots.submitSend 1 () none).2 = .ok () ∧
      ¬ twoSlots.CostsNothing (twoSlots.submitSend 1 () none).1 ∧
      (run (step PollRun.flagApi) (start twoSlots)
        [.submit 1 () none, .submit 0 () none, .flush, .complete 0 64 0, .poll none]).poller.pool.sendAvailable
          = 1 ∧
      (run (step PollRun.flagApi) (start twoSlots)
        [.submit 1 () none, .submit 0 () none, .flush, .complete 0 64 0, .poll none]).awaiting = [] ∧
      (((twoSlots.submitSend 0 () none).1).submitSend 0 () none).2 = .error .ringFull ∧
      ¬ ((twoSlots.submitSend 0 () none).1).CostsNothing
        (((twoSlots.submitSend 0 () none).1).submitSend 0 () none).1 := by
  refine ⟨rfl, ?_, by decide +kernel, by decide +kernel, rfl, ?_⟩
  · rw [UringPoller.costsNothing_iff]
    decide +kernel
  · rw [UringPoller.costsNothing_iff]
    decide +kernel

/-- Two sends, of which one is completed and the completion of the other is dropped. The poll recovers
its slot with nothing outstanding, and two more sends take both slots again. -/
def recoveredSend : List (SendAction Unit) :=
  [.submit 0 () none, .flush, .submit 0 () none, .flush, .dropCompletion 1, .complete 0 64 0,
    .poll none, .submit 0 () none, .flush, .submit 0 () none]

theorem slot_has_one_owner_completed :
    Meets RecoversAll (step PollRun.flagApi) (start twoSlots) recoveredSend ∧
      (run (step PollRun.flagApi) (start twoSlots) recoveredSend).poller.pool.sendFree.Nodup ∧
      Meets HandsOutUnowned (step PollRun.flagApi) (start twoSlots) recoveredSend ∧
      (run (step PollRun.flagApi) (start twoSlots) recoveredSend).outstanding = [0, 1] := by
  have hsafe : Meets RecoversAll (step PollRun.flagApi) (start twoSlots) recoveredSend := by
    decide +kernel
  obtain ⟨hnodup, hunowned⟩ :=
    slot_has_one_owner PollRun.flagApi (by decide) rfl rfl recoveredSend hsafe
  exact ⟨hsafe, hnodup, hunowned, by decide +kernel⟩

/-- Two sends; the completion of the second is dropped and that of the first is late. -/
def overflowed : List (SendAction Unit) :=
  [.submit 0 () none, .flush, .submit 0 () none, .flush, .dropCompletion 1, .poll none]

/-- **Recovery frees a slot whose completion is still to come**: the next send is given slot 1, which the
first send still owns; and when the late completion arrives first, slot 1 is in the free list twice. -/
theorem recovered_slot_has_two_owners :
    ¬ Meets HandsOutUnowned (step PollRun.flagApi) (start twoSlots)
        (overflowed ++ [.submit 0 () none]) ∧
      (run (step PollRun.flagApi) (start twoSlots)
        (overflowed ++ [.complete 0 64 0, .poll none])).poller.pool.sendFree = [1, 1, 0] := by
  decide +kernel

end SendRun

end AeronRs
