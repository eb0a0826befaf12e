import AeronRs.Media.UringPoller
import AeronRs.Lib.Runs
import Mathlib.Data.Nat.ModEq

/-! # Accounting for completions

Every completion entry that the kernel posts should be processed once, or still be in the queue. The
dispatch loop does its part: an entry that reaches it frees its slot once, or returns its buffer
once and calls back at most once (`dispatch_spec`). The harvest loop takes one entry too many off
the queue when more are waiting than the batch holds (`harvest_eq`), so the account balances exactly
in the runs in which no poll finds more entries than that. -/

namespace AeronRs

open Runs

variable {P : Type}

/-! ## What one entry causes -/

def freedOf (events : List PollEvent) : List Nat :=
  events.filterMap fun | .slotFreed slotIdx => some slotIdx | _ => none

def returnedOf (events : List PollEvent) : List Nat :=
  events.filterMap fun | .bufReturned bid => some bid | _ => none

def callbacksOf (events : List PollEvent) : List RecvMessage :=
  events.filterMap fun | .callback msg => some msg | _ => none

@[simp] theorem freedOf_append (es es' : List PollEvent) :
    freedOf (es ++ es') = freedOf es ++ freedOf es' := List.filterMap_append

@[simp] theorem returnedOf_append (es es' : List PollEvent) :
    returnedOf (es ++ es') = returnedOf es ++ returnedOf es' := List.filterMap_append

@[simp] theorem callbacksOf_append (es es' : List PollEvent) :
    callbacksOf (es ++ es') = callbacksOf es ++ callbacksOf es' := List.filterMap_append

@[simp] theorem freedOf_callbacks (msgs : List RecvMessage) :
    freedOf (msgs.map .callback) = [] := by
  simp [freedOf]

@[simp] theorem returnedOf_callbacks (msgs : List RecvMessage) :
    returnedOf (msgs.map .callback) = [] := by
  simp [returnedOf]

@[simp] theorem callbacksOf_callbacks (msgs : List RecvMessage) :
    callbacksOf (msgs.map .callback) = msgs := by
  induction msgs with
  | nil => rfl
  | cons msg msgs ih => exact congrArg (msg :: ·) ih

@[simp] theorem freedOf_bufReturned (bid : Nat) : freedOf [.bufReturned bid] = [] := rfl

@[simp] theorem returnedOf_bufReturned (bid : Nat) : returnedOf [.bufReturned bid] = [bid] := rfl

@[simp] theorem callbacksOf_bufReturned (bid : Nat) : callbacksOf [.bufReturned bid] = [] := rfl

/-- The slot whose send an entry completes. -/
def sendSlotOf (cqe : Cqe) : List Nat :=
  if (UserData.decode cqe.userData).op = opSend then [(UserData.decode cqe.userData).slotIdx] else []

/-- The provided buffer that a receive entry carries, if it is one of the ring's. -/
def bufferOf (api : UringApi) (mask : Nat) (cqe : Cqe) : List Nat :=
  if (UserData.decode cqe.userData).op = opRecv then
    (api.bufferSelect cqe.flags).toList.filter fun bid => decide (bid ≤ mask)
  else []

/-- **Processed once.** The events of an entry free the slot of its send once, return its buffer
once and nothing else of the kind, and call back at most once, for a receive only. -/
structure ProcessedOnce (api : UringApi) (mask : Nat) (cqe : Cqe) (events : List PollEvent) :
    Prop where
  freed : freedOf events = sendSlotOf cqe
  returned : returnedOf events = bufferOf api mask cqe
  callbacks : (callbacksOf events).length ≤
    if (UserData.decode cqe.userData).op = opRecv then 1 else 0

/-- What the later rounds of a poll see unchanged of a poller. -/
structure SameRings (p p' : UringPoller P) : Prop where
  cq : p'.cq = p.cq
  bufRing : p'.bufRing = p.bufRing
  sendFree : p'.pool.sendFree = p.pool.sendFree
  overflow : p'.overflow = p.overflow

theorem submitMultishotRecv_sameRings (p : UringPoller P) (tidx : Nat) :
    SameRings p (p.submitMultishotRecv tidx).1 := by
  unfold UringPoller.submitMultishotRecv
  split
  · exact ⟨rfl, rfl, rfl, rfl⟩
  · split_ifs
    · exact ⟨rfl, rfl, rfl, rfl⟩
    · unfold UringPoller.push
      split_ifs <;> exact ⟨rfl, rfl, rfl, rfl⟩

namespace PollState

theorem countRecvError_eq (st : PollState P) (ret : Int) :
    (st.countRecvError ret).poller = st.poller ∧ (st.countRecvError ret).events = st.events ∧
      (st.countRecvError ret).result.cqOverflows = st.result.cqOverflows := by
  unfold countRecvError
  split_ifs <;> exact ⟨rfl, rfl, rfl⟩

theorem deliver_eq (api : UringApi) (st : PollState P) (tidx bufId : Nat) (ret : Int)
    (entry : TransportEntry) :
    (st.deliver api tidx bufId ret entry).poller = st.poller ∧
      (st.deliver api tidx bufId ret entry).result.cqOverflows = st.result.cqOverflows ∧
      ∃ msgs : List RecvMessage, msgs.length ≤ 1 ∧
        (st.deliver api tidx bufId ret entry).events = st.events ++ msgs.map .callback := by
  unfold deliver
  split
  · exact ⟨rfl, rfl, [], by simp, by simp⟩
  · exact ⟨rfl, rfl, [_], by simp, rfl⟩

/-- The part of a receive before its buffer goes back calls back at most once. -/
theorem receive_eq (api : UringApi) (st : PollState P) (tidx bufId : Nat) (ret : Int)
    (active : Option TransportEntry) :
    (st.receive api tidx bufId ret active).poller = st.poller ∧
      (st.receive api tidx bufId ret active).result.cqOverflows = st.result.cqOverflows ∧
      ∃ msgs : List RecvMessage, msgs.length ≤ 1 ∧
        (st.receive api tidx bufId ret active).events = st.events ++ msgs.map .callback := by
  have herr := st.countRecvError_eq ret
  unfold receive
  cases active with
  | none =>
      dsimp only
      split_ifs
      · exact ⟨herr.1, herr.2.2, [], by simp, by simp [herr.2.1]⟩
      · exact ⟨rfl, rfl, [], by simp, by simp⟩
  | some entry =>
      dsimp only
      split_ifs
      · exact st.deliver_eq api tidx bufId ret entry
      · exact ⟨herr.1, herr.2.2, [], by simp, by simp [herr.2.1]⟩
      · exact ⟨rfl, rfl, [], by simp, by simp⟩

/-- Arming a receive again touches neither the events nor what the account is about. -/
theorem rearm_eq (st : PollState P) (tidx : Nat) :
    SameRings st.poller (st.rearm tidx).poller ∧ (st.rearm tidx).events = st.events := by
  obtain ⟨hcq, hbuf, hfree, hover⟩ :=
    submitMultishotRecv_sameRings (st.poller.setMultishotActive tidx false) tidx
  exact ⟨⟨hcq, hbuf, hfree, hover⟩, rfl⟩

/-- The effect of a round on a poll: its events, and the queue and the slots afterwards. -/
structure Effect (st st' : PollState P) (events : List PollEvent) : Prop where
  events_eq : st'.events = st.events ++ events
  cq : st'.poller.cq = st.poller.cq
  mask : st'.poller.bufRing.mask = st.poller.bufRing.mask
  sendFree : st'.poller.pool.sendFree = (freedOf events).reverse ++ st.poller.pool.sendFree
  localTail : st'.poller.bufRing.localTail ≡
    st.poller.bufRing.localTail + (returnedOf events).length [MOD 2 ^ 16]
  overflow : st'.poller.overflow = st.poller.overflow
  overflows : st'.result.cqOverflows = st.result.cqOverflows

/-- Re-arming after a round does not change its effect. -/
theorem Effect.rearm {st st' : PollState P} {events : List PollEvent} (h : Effect st st' events)
    (tidx : Nat) : Effect st (st'.rearm tidx) events := by
  obtain ⟨hsame, hev⟩ := st'.rearm_eq tidx
  exact ⟨hev.trans h.events_eq, hsame.cq.trans h.cq, by rw [hsame.bufRing, h.mask],
    hsame.sendFree.trans h.sendFree, by rw [hsame.bufRing]; exact h.localTail,
    hsame.overflow.trans h.overflow, h.overflows⟩

/-- A receive entry returns its buffer once and calls back at most once. -/
theorem consume_spec (api : UringApi) (st : PollState P) (tidx : Nat) (cqe : Cqe)
    (active : Option TransportEntry) (hop : (UserData.decode cqe.userData).op = opRecv) :
    ∃ events, Effect st (st.consume api tidx cqe active) events ∧
      ProcessedOnce api st.poller.bufRing.mask cqe events := by
  have hsend : sendSlotOf cqe = [] := by
    rw [sendSlotOf, hop, if_neg (by decide)]
  unfold consume
  cases hsel : api.bufferSelect cqe.flags with
  | none =>
      have herr := st.countRecvError_eq cqe.result
      refine ⟨[], ?_, hsend.symm, by simp [bufferOf, hop, hsel, returnedOf], Nat.zero_le _⟩
      dsimp only
      split_ifs
      · exact ⟨by simp [herr.2.1], by rw [herr.1], by rw [herr.1], by rw [herr.1]; rfl,
          by rw [herr.1]; rfl, by rw [herr.1], herr.2.2⟩
      · exact ⟨by simp, rfl, rfl, rfl, rfl, rfl, rfl⟩
  | some bufId =>
      obtain ⟨hpoller, hover, msgs, hlen, hev⟩ := st.receive_eq api tidx bufId cqe.result active
      have hmask : (st.poller.bufRing.returnBufLocal bufId).mask = st.poller.bufRing.mask := by
        unfold BufRing.returnBufLocal
        split_ifs <;> rfl
      -- a buffer id outside the ring is ignored, any other one goes back
      by_cases hbid : st.poller.bufRing.mask < bufId
      · refine ⟨msgs.map .callback, ⟨?_, ?_, ?_, ?_, ?_, ?_, hover⟩, ?_, ?_, ?_⟩
        · simp [returnBuf, hpoller, hbid, hev]
        · simp [returnBuf, hpoller]
        · simp [returnBuf, hpoller, hmask]
        · simp [returnBuf, hpoller]
        · simp [returnBuf, hpoller, BufRing.returnBufLocal, hbid, Nat.ModEq.refl]
        · simp [returnBuf, hpoller]
        · simp [hsend]
        · simp [bufferOf, hop, hsel, hbid]
        · rw [callbacksOf_callbacks, if_pos hop]
          exact hlen
      · refine ⟨msgs.map .callback ++ [.bufReturned bufId], ⟨?_, ?_, ?_, ?_, ?_, ?_, hover⟩, ?_, ?_,
          ?_⟩
        · simp [returnBuf, hpoller, hbid, hev]
        · simp [returnBuf, hpoller]
        · simp [returnBuf, hpoller, hmask]
        · simp [returnBuf, hpoller]
        · simp [returnBuf, hpoller, BufRing.returnBufLocal, hbid, Nat.ModEq]
        · simp [returnBuf, hpoller]
        · simp [hsend]
        · simp [bufferOf, hop, hsel, Nat.le_of_not_lt hbid]
        · rw [callbacksOf_append, callbacksOf_callbacks, callbacksOf_bufReturned, List.append_nil,
            if_pos hop]
          exact hlen

/-- **What one entry does.** It is processed once, its slot goes to the free list, and the queue is
left alone. -/
theorem dispatch_spec (api : UringApi) (st : PollState P) (cqe : Cqe) :
    ∃ events, Effect st (st.dispatch api cqe) events ∧
      ProcessedOnce api st.poller.bufRing.mask cqe events := by
  unfold dispatch
  dsimp only
  by_cases hrecv : (UserData.decode cqe.userData).op = opRecv
  · rw [if_pos hrecv, dispatchRecv]
    obtain ⟨events, heffect, honce⟩ := st.consume_spec api (UserData.decode cqe.userData).transportIdx
      cqe (st.activeTransport (UserData.decode cqe.userData).transportIdx) hrecv
    refine ⟨events, ?_, honce⟩
    split_ifs
    · exact heffect.rearm _
    · exact heffect
  · rw [if_neg hrecv]
    by_cases hsend : (UserData.decode cqe.userData).op = opSend
    · rw [if_pos hsend]
      refine ⟨[.slotFreed _], ⟨rfl, rfl, rfl, rfl, rfl, rfl, ?_⟩,
        by rw [sendSlotOf, if_pos hsend]; rfl, by rw [bufferOf, if_neg hrecv]; rfl, Nat.zero_le _⟩
      unfold dispatchSend
      dsimp only
      split_ifs <;> rfl
    · rw [if_neg hsend]
      exact ⟨[], ⟨by simp, rfl, rfl, rfl, rfl, rfl, rfl⟩, by rw [sendSlotOf, if_neg hsend]; rfl,
        by rw [bufferOf, if_neg hrecv]; rfl, Nat.zero_le _⟩

/-- **The dispatch loop.** Its events are one block for each entry, in order, and each block
processes its entry once. -/
theorem foldl_dispatch_spec (api : UringApi) (batch : List Cqe) (st : PollState P) :
    ∃ blocks : List (Cqe × List PollEvent), blocks.map Prod.fst = batch ∧
      (∀ b ∈ blocks, ProcessedOnce api st.poller.bufRing.mask b.1 b.2) ∧
      Effect st (batch.foldl (dispatch api) st) (blocks.flatMap Prod.snd) := by
  induction batch generalizing st with
  | nil => exact ⟨[], rfl, by simp, ⟨by simp, rfl, rfl, rfl, rfl, rfl, rfl⟩⟩
  | cons cqe batch ih =>
      obtain ⟨events, heffect, honce⟩ := st.dispatch_spec api cqe
      obtain ⟨blocks, hfst, hall, hrest⟩ := ih (st.dispatch api cqe)
      rw [heffect.mask] at hall
      refine ⟨(cqe, events) :: blocks, by simp [hfst], ?_, ?_⟩
      · rintro b hb
        rcases List.mem_cons.mp hb with rfl | hmem
        · exact honce
        · exact hall b hmem
      · rw [List.foldl_cons, List.flatMap_cons]
        exact ⟨by rw [hrest.events_eq, heffect.events_eq, List.append_assoc],
          hrest.cq.trans heffect.cq, hrest.mask.trans heffect.mask,
          by rw [hrest.sendFree, heffect.sendFree, freedOf_append, List.reverse_append,
            List.append_assoc],
          by
            rw [returnedOf_append, List.length_append, ← Nat.add_assoc]
            exact hrest.localTail.trans (heffect.localTail.add_right _),
          hrest.overflow.trans heffect.overflow, hrest.overflows.trans heffect.overflows⟩

end PollState

/-! ## The harvest and the poll -/

/-- **The harvest loop** stores as many entries as the batch has room for, and takes one more off
the queue. -/
theorem harvest_eq (cq : List Cqe) {count : Nat} (h : count ≤ cqeBatchSize) :
    harvest cq count = (cq.take (cqeBatchSize - count), cq.drop (cqeBatchSize - count + 1)) := by
  induction cq generalizing count with
  | nil => simp [harvest]
  | cons cqe cq ih =>
      by_cases hlt : count < cqeBatchSize
      · obtain ⟨d, hd⟩ : ∃ d, cqeBatchSize - count = d + 1 := ⟨cqeBatchSize - count - 1, by omega⟩
        have hnext : cqeBatchSize - (count + 1) = d := by omega
        rw [harvest, if_pos hlt, hd]
        simp only [ih (show count + 1 ≤ cqeBatchSize by omega), hnext, List.take_succ_cons,
          List.drop_succ_cons]
      · have hzero : cqeBatchSize - count = 0 := by omega
        rw [harvest, if_neg hlt, hzero]
        rfl

theorem recoverLeakedSendSlots_cq (p : UringPoller P) :
    p.recoverLeakedSendSlots.cq = p.cq ∧ p.recoverLeakedSendSlots.bufRing = p.bufRing ∧
      p.recoverLeakedSendSlots.overflow = p.overflow := by
  unfold UringPoller.recoverLeakedSendSlots
  generalize List.range p.pool.sendSlots.length = slots
  induction slots generalizing p with
  | nil => exact ⟨rfl, rfl, rfl⟩
  | cons i slots ih =>
      rw [List.foldl_cons]
      split_ifs
      · exact ih _
      · exact ih p

/-- Publishing and recovering leave the queue alone; the free list too, if there was no overflow. -/
theorem PollState.settle_eq (st : PollState P) :
    st.settle.cq = st.poller.cq ∧ st.settle.bufRing.mask = st.poller.bufRing.mask ∧
      st.settle.bufRing.localTail = st.poller.bufRing.localTail ∧
      st.settle.overflow = st.poller.overflow ∧
      (st.result.cqOverflows = 0 → st.settle.pool.sendFree = st.poller.pool.sendFree) := by
  unfold PollState.settle
  dsimp only
  by_cases hpos : 0 < st.result.cqOverflows
  · rw [if_pos hpos]
    have hrec := recoverLeakedSendSlots_cq (if st.bufsReturned then
      { st.poller with bufRing := st.poller.bufRing.publishTail } else st.poller)
    rw [hrec.1, hrec.2.1, hrec.2.2]
    refine ⟨?_, ?_, ?_, ?_, fun h => by omega⟩ <;> split_ifs <;> rfl
  · rw [if_neg hpos]
    refine ⟨?_, ?_, ?_, ?_, fun _ => ?_⟩ <;> split_ifs <;> rfl

/-- **What a poll does.** It processes a batch of entries, each once and in order, and leaves the
queue without them and without the entry after them. -/
theorem pollRecv_spec (api : UringApi) (p : UringPoller P) (submitErrno : Option Int) :
    (p.pollRecv api submitErrno).1.cq = p.cq.drop (cqeBatchSize + 1) ∧
    (p.pollRecv api submitErrno).1.bufRing.mask = p.bufRing.mask ∧
    ∃ blocks : List (Cqe × List PollEvent), blocks.map Prod.fst = p.cq.take cqeBatchSize ∧
      (∀ b ∈ blocks, ProcessedOnce api p.bufRing.mask b.1 b.2) ∧
      (p.pollRecv api submitErrno).2.2 = blocks.flatMap Prod.snd ∧
      (p.pollRecv api submitErrno).1.overflow = p.overflow ∧
      (p.pollRecv api submitErrno).1.bufRing.localTail ≡
        p.bufRing.localTail + (returnedOf (p.pollRecv api submitErrno).2.2).length [MOD 2 ^ 16] ∧
      (p.overflow = 0 → (p.pollRecv api submitErrno).1.pool.sendFree =
        (freedOf (p.pollRecv api submitErrno).2.2).reverse ++ p.pool.sendFree) := by
  have hharvest : harvest p.cq 0 = (p.cq.take cqeBatchSize, p.cq.drop (cqeBatchSize + 1)) :=
    harvest_eq p.cq (Nat.zero_le _)
  -- the entries are dispatched one by one; what follows the loop only settles
  obtain ⟨blocks, hfst, hall, heffect⟩ := PollState.foldl_dispatch_spec api (harvest p.cq 0).1
    ⟨{ p with cq := (harvest p.cq 0).2 }, ⟨0, 0, 0, 0, 0, 0, p.overflow⟩, false, false, []⟩
  have hev : (p.pollDispatch api).events = blocks.flatMap Prod.snd := heffect.events_eq
  have hover : (p.pollDispatch api).result.cqOverflows = p.overflow := heffect.overflows
  obtain ⟨hcq, hmask, htail, hflow, hfree⟩ := (p.pollDispatch api).settle_eq
  have hcq' : (p.pollDispatch api).settle.cq = p.cq.drop (cqeBatchSize + 1) :=
    hcq.trans (heffect.cq.trans (congrArg Prod.snd hharvest))
  have hmask' : (p.pollDispatch api).settle.bufRing.mask = p.bufRing.mask :=
    hmask.trans heffect.mask
  have hfree' : p.overflow = 0 → (p.pollDispatch api).settle.pool.sendFree =
      (freedOf (p.pollDispatch api).events).reverse ++ p.pool.sendFree := fun h => by
    rw [hev]
    exact (hfree (hover.trans h)).trans heffect.sendFree
  have htail' : (p.pollDispatch api).settle.bufRing.localTail ≡ p.bufRing.localTail
      + (returnedOf (p.pollDispatch api).events).length [MOD 2 ^ 16] := by
    rw [hev, htail]
    exact heffect.localTail
  have hflow' : (p.pollDispatch api).settle.overflow = p.overflow := hflow.trans heffect.overflow
  rw [hharvest] at hfst
  unfold UringPoller.pollRecv
  dsimp only
  split_ifs
  · cases submitErrno <;> exact ⟨hcq', hmask', blocks, hfst, hall, hev, hflow', htail', hfree'⟩
  · exact ⟨hcq', hmask', blocks, hfst, hall, hev, hflow', htail', hfree'⟩

/-! ## Runs -/

/-- What happens to a poller: the kernel posts an entry, fills a buffer or counts dropped entries,
and the agent polls. -/
inductive PollAction
  | post (cqe : Cqe)
  | fill (bid : Nat) (data : List UInt8)
  | drop (count : Nat)
  | poll (submitErrno : Option Int)

/-- A poller with the entries posted, the entries that a poll has taken into its batch, and the
events so far. -/
structure PollRun (P : Type) where
  poller : UringPoller P
  posted : List Cqe
  processed : List Cqe
  events : List PollEvent

namespace PollRun

def start (p : UringPoller P) : PollRun P := ⟨p, p.cq, [], []⟩

def step (api : UringApi) (s : PollRun P) : PollAction → PollRun P
  | .post cqe => { s with poller.cq := s.poller.cq ++ [cqe], posted := s.posted ++ [cqe] }
  | .fill bid data =>
      { s with poller.bufRing.buffers := fun i =>
          if i = bid then data else s.poller.bufRing.buffers i }
  | .drop count => { s with poller.overflow := s.poller.overflow + count }
  | .poll submitErrno =>
      { s with
        poller := (s.poller.pollRecv api submitErrno).1
        processed := s.processed ++ (harvest s.poller.cq 0).1
        events := s.events ++ (s.poller.pollRecv api submitErrno).2.2 }

/-- A poll finds at most one batch of entries in the queue. -/
def BatchFits (s : PollRun P) : PollAction → Prop
  | .poll _ => s.poller.cq.length ≤ cqeBatchSize
  | _ => True

/-- **Processed in order.** The events are one block for each processed entry, which processes it
once; every returned buffer moved the tail of the buffer ring, and every freed slot went to the free
list (after an overflow the recovery may have put it there already). -/
structure Processed (api : UringApi) (p : UringPoller P) (s : PollRun P) : Prop where
  blocks : ∃ blocks : List (Cqe × List PollEvent), blocks.map Prod.fst = s.processed ∧
    (∀ b ∈ blocks, ProcessedOnce api p.bufRing.mask b.1 b.2) ∧ s.events = blocks.flatMap Prod.snd
  localTail : s.poller.bufRing.localTail ≡
    p.bufRing.localTail + (returnedOf s.events).length [MOD 2 ^ 16]
  sendFree : s.poller.overflow = 0 →
    s.poller.pool.sendFree = (freedOf s.events).reverse ++ p.pool.sendFree

/-- **No completion is lost.** What was posted is what was processed, in order, followed by what is
still in the queue. -/
def Accounted (api : UringApi) (p : UringPoller P) (s : PollRun P) : Prop :=
  s.processed ++ s.poller.cq = s.posted ∧ Processed api p s

/-- What holds of every run: what is processed is accounted for, and no more is processed or waiting
than was posted. -/
structure Inv (api : UringApi) (p : UringPoller P) (s : PollRun P) : Prop where
  mask_eq : s.poller.bufRing.mask = p.bufRing.mask
  processed : Processed api p s
  length_le : s.processed.length + s.poller.cq.length ≤ s.posted.length

/-- **Step.** The invariant is kept by every action. -/
theorem inv_step {api : UringApi} {p : UringPoller P} {s : PollRun P} (h : Inv api p s)
    (a : PollAction) : Inv api p (s.step api a) := by
  obtain ⟨hmask₀, ⟨⟨blocks₀, hfst₀, hall₀, hev₀⟩, htail₀, hfree₀⟩, hlen⟩ := h
  cases a with
  | post cqe =>
      refine ⟨hmask₀, ⟨⟨blocks₀, hfst₀, hall₀, hev₀⟩, htail₀, hfree₀⟩, ?_⟩
      simp only [step, List.length_append, List.length_singleton]
      omega
  | fill bid data => exact ⟨hmask₀, ⟨⟨blocks₀, hfst₀, hall₀, hev₀⟩, htail₀, hfree₀⟩, hlen⟩
  | drop count =>
      refine ⟨hmask₀, ⟨⟨blocks₀, hfst₀, hall₀, hev₀⟩, htail₀, fun hover => hfree₀ ?_⟩, hlen⟩
      exact Nat.eq_zero_of_add_eq_zero_right hover
  | poll submitErrno =>
      -- a poll adds its own blocks behind those of the polls before it
      obtain ⟨hcq, hmask, blocks, hfst, hall, hev, hflow, htail, hfree⟩ :=
        pollRecv_spec api s.poller submitErrno
      have hbatch : (harvest s.poller.cq 0).1 = s.poller.cq.take cqeBatchSize :=
        congrArg Prod.fst (harvest_eq s.poller.cq (Nat.zero_le cqeBatchSize))
      refine ⟨hmask.trans hmask₀, ⟨⟨blocks₀ ++ blocks, ?_, ?_, ?_⟩, ?_, ?_⟩, ?_⟩
      · simp only [step, List.map_append, hfst₀, hfst, hbatch]
      · intro b hb
        rcases List.mem_append.mp hb with h₀ | h₁
        · exact hall₀ b h₀
        · rw [← hmask₀]
          exact hall b h₁
      · simp only [step, hev₀, hev, List.flatMap_append]
      · simp only [step, returnedOf_append, List.length_append, ← Nat.add_assoc]
        exact htail.trans (htail₀.add_right _)
      · intro hover
        have hzero : s.poller.overflow = 0 := hflow.symm.trans hover
        simp only [step, freedOf_append, List.reverse_append, List.append_assoc]
        rw [hfree hzero, hfree₀ hzero]
      · simp only [step, hcq, hbatch, List.length_append, List.length_take, List.length_drop]
        omega

/-- **Step.** The account balances after an action exactly when it balanced before and the action is
not a poll of too many entries. -/
theorem balanced_step {api : UringApi} {p : UringPoller P} {s : PollRun P} (h : Inv api p s)
    (a : PollAction) :
    (s.step api a).processed ++ (s.step api a).poller.cq = (s.step api a).posted ↔
      s.processed ++ s.poller.cq = s.posted ∧ s.BatchFits a := by
  cases a with
  | post cqe =>
      simp only [step, BatchFits, and_true, ← List.append_assoc, List.append_left_inj]
  | fill bid data => simp [step, BatchFits]
  | drop count => simp [step, BatchFits]
  | poll submitErrno =>
      obtain ⟨hcq, -⟩ := pollRecv_spec api s.poller submitErrno
      have hbatch : (harvest s.poller.cq 0).1 = s.poller.cq.take cqeBatchSize :=
        congrArg Prod.fst (harvest_eq s.poller.cq (Nat.zero_le cqeBatchSize))
      simp only [step, BatchFits, hcq, hbatch]
      by_cases hfits : s.poller.cq.length ≤ cqeBatchSize
      · rw [List.take_of_length_le hfits, List.drop_eq_nil_of_le (by omega), List.append_nil]
        simp [hfits]
      · -- an entry was taken off the queue and stored nowhere: the lengths no longer add up
        simp only [hfits, and_false, iff_false]
        intro heq
        have hlen := congrArg List.length heq
        have := h.length_le
        simp only [List.length_append, List.length_take, List.length_drop] at hlen
        omega

/-- **No completion is lost exactly when no poll finds more than one batch.** In every run, of any
length, from any poller. -/
theorem accounted_iff (api : UringApi) (p : UringPoller P) (as : List PollAction) :
    Accounted api p (run (step api) (start p) as) ↔
      Meets BatchFits (step api) (start p) as := by
  have hstart : Inv api p (start p) :=
    ⟨rfl, ⟨⟨[], rfl, by simp, rfl⟩, rfl, fun _ => rfl⟩, by simp [start]⟩
  have hbal : (start p).processed ++ (start p).poller.cq = (start p).posted := rfl
  generalize start p = s at hstart hbal ⊢
  -- the invariant carries the blocks; what is left is whether the account still balances
  have hrun : ∀ (as : List PollAction) (s : PollRun P), Inv api p s →
      Inv api p (run (step api) s as) ∧
      ((run (step api) s as).processed ++ (run (step api) s as).poller.cq =
          (run (step api) s as).posted ↔
        s.processed ++ s.poller.cq = s.posted ∧ Meets BatchFits (step api) s as) := by
    intro as
    induction as with
    | nil => exact fun s hs => ⟨hs, by simp⟩
    | cons a as ih =>
        intro s hs
        obtain ⟨hinv, hiff⟩ := ih (s.step api a) (inv_step hs a)
        refine ⟨hinv, ?_⟩
        rw [run_cons, hiff, balanced_step hs a, meets_cons, and_assoc]
  obtain ⟨hinv, hiff⟩ := hrun as s hstart
  rw [Accounted, hiff]
  exact ⟨fun h => h.1.2, fun h => ⟨⟨hbal, h⟩, hinv.processed⟩⟩

/-- The flag bits of a completion entry as the kernel defines them: bit 0 says that the upper half
is a buffer id, bit 1 that more completions follow. -/
def flagApi : UringApi where
  bufferSelect flags := if flags % 2 = 1 then some (flags / 2 ^ 16) else none
  more flags := decide (flags / 2 % 2 = 1)
  parse _ := none

/-- A poller whose 257 sends, one more than a batch holds, have all completed. -/
def sendsCompleted : UringPoller Unit where
  sqEntries := 512
  sq := []
  cq := (List.range 257).map fun slotIdx => ⟨UserData.encode ⟨0, opSend, slotIdx⟩, 64, 0⟩
  overflow := 0
  bufRing := ⟨0, 2048, fun _ => 0, 0, 0, fun _ => []⟩
  pool := ⟨List.replicate 257 ⟨some (), none, .inFlight⟩, []⟩
  transports := [⟨3, 3, 0, 0, true, true⟩]

/-- The poller after the agent has polled twice. -/
def polledTwice : PollRun Unit := run (step flagApi) (start sendsCompleted) [.poll none, .poll none]

/-- **A lost completion.** The entry after a full batch is gone after the first poll: it was not
processed, it is not in the queue, and its slot is not free after the second poll either. -/
theorem harvest_loses_completion :
    ¬ Accounted flagApi sendsCompleted polledTwice ∧ polledTwice.posted.length = 257 ∧
      polledTwice.processed.length = 256 ∧ polledTwice.poller.cq = [] ∧
      256 ∉ polledTwice.poller.pool.sendFree := by
  refine ⟨fun h => absurd h.1 ?_, ?_, ?_, ?_, ?_⟩ <;> decide +kernel

end PollRun

end AeronRs
