import AeronRs.Lib.Runs
import AeronRs.Media.RetransmitHandler
import Mathlib.Data.List.Nodup
import Mathlib.Data.List.Perm.Basic

/-! # When the retransmit scheduler fires

Runs of `on_nak` and `process_timeouts` with a clock that does not go back. The handler keeps wrapped
expiry times and compares them by half ranges; while all calls lie within half the range this is the
comparison of the true times.

* **`TimedSlot`** is a slot with the true time at which it began to wait or to linger, and
  **`TimedSlot.toAction`** is the slot of the handler that it stands for.
* **`ScheduleRun`** is the handler with the accepted NAKs that still wait for their callback, and the
  callbacks so far.
* **`ScheduleRun.Inv`** relates the two. -/

namespace AeronRs

open Runs

/-- What a NAK is recognised by: session, stream, term and offset. -/
def RetransmitRequest.key (r : RetransmitRequest) : BitVec 32 × BitVec 32 × BitVec 32 × BitVec 32 :=
  (r.sessionId, r.streamId, r.termId, r.termOffset)

theorem RetransmitAction.matches_iff (a : RetransmitAction) (nak : NakHeader) :
    a.Matches nak.sessionId nak.streamId nak.activeTermId nak.termOffset ↔
      a.key = nak.request.key := by
  simp [RetransmitAction.Matches, RetransmitRequest.key, NakHeader.request]

/-- A slot that is waiting or lingering. -/
def RetransmitAction.Active (a : RetransmitAction) : Prop := a.state ≠ .inactive

instance (a : RetransmitAction) : Decidable a.Active := inferInstanceAs (Decidable (_ ≠ _))

/-! ## The slot that a NAK gets -/

/-- **The pass of `on_nak`** finds nothing if the place is active, and otherwise the first free slot. -/
theorem RetransmitHandler.findSlot_eq (nak : NakHeader) (as : List RetransmitAction) (i : Nat)
    (freeIdx : Option Nat) :
    findSlot nak as i freeIdx =
      if ∃ a ∈ as, a.Active ∧ a.key = nak.request.key then none
      else some (freeIdx.or ((as.findIdx? fun a => ¬ a.Active).map (· + i))) := by
  induction as generalizing i freeIdx with
  | nil => simp [findSlot]
  | cons a as ih =>
      have hshift : (fun j => j + (i + 1)) = fun j => j + 1 + i := funext fun j => by omega
      rw [findSlot]
      cases hstate : a.state with
      | inactive =>
          have hfree : ¬ a.Active := fun h => h hstate
          simp only [ih, List.exists_mem_cons_iff, hfree, false_and, false_or, List.findIdx?_cons,
            not_false_eq_true, decide_true, if_true, Option.map_some, Nat.zero_add]
          cases freeIdx <;> simp
      | delay e | linger e =>
          have hactive : a.Active := fun h => by simp [h] at hstate
          by_cases hkey : a.key = nak.request.key
          · simp [RetransmitAction.matches_iff, hkey, hactive]
          · simp only [RetransmitAction.matches_iff, hkey, ih, List.exists_mem_cons_iff, and_false,
              false_or, List.findIdx?_cons, hactive, not_true_eq_false, decide_false, if_false,
              Option.map_map, Function.comp_def, hshift, Bool.false_eq_true]

/-- **Everything that `on_nak` can do**: nothing, because the place is active or every slot is; or put
the NAK into a free slot, when its place is not active. -/
theorem RetransmitHandler.onNak_cases (h : RetransmitHandler) (nak : NakHeader) (nowNs : Int) :
    (h.onNak nak nowNs = (h, false) ∧
        ((∃ a ∈ h.actions, a.Active ∧ a.key = nak.request.key) ∨ ∀ a ∈ h.actions, a.Active)) ∨
      ((h.onNak nak nowNs).2 = true ∧ (h.onNak nak nowNs).1.delayNs = h.delayNs ∧
        (h.onNak nak nowNs).1.lingerNs = h.lingerNs ∧
        (∀ a ∈ h.actions, a.Active → a.key ≠ nak.request.key) ∧
        ∃ idx, ∃ hlt : idx < h.actions.length, ¬ h.actions[idx].Active ∧
          (h.onNak nak nowNs).1.actions = h.actions.set idx (h.delayed nak nowNs)) := by
  have hslot := findSlot_eq nak h.actions 0 none
  unfold onNak
  by_cases hbusy : ∃ a ∈ h.actions, a.Active ∧ a.key = nak.request.key
  · rw [hslot, if_pos hbusy]
    exact .inl ⟨rfl, .inl hbusy⟩
  rw [hslot, if_neg hbusy, Option.none_or]
  cases hidx : h.actions.findIdx? fun a => ¬ a.Active with
  | none =>
      refine .inl ⟨rfl, .inr fun a ha => ?_⟩
      simpa using List.findIdx?_eq_none_iff.mp hidx a ha
  | some idx =>
      obtain ⟨hlt, hfree, -⟩ := List.findIdx?_eq_some_iff_getElem.mp hidx
      refine .inr ⟨rfl, rfl, rfl, fun a ha hactive hkey => hbusy ⟨a, ha, hactive, hkey⟩, idx, hlt,
        by simpa using hfree, rfl⟩

/-! ## Slots with true times -/

/-- What a slot is doing, and since when. -/
inductive Phase
  | idle
  | waiting (since : Int)
  | lingering (since : Int)
  deriving DecidableEq

/-- A slot with the true time of its last change. -/
structure TimedSlot where
  request : RetransmitRequest
  phase : Phase

namespace TimedSlot

variable (delayNs lingerNs : Int)

/-- The slot of the handler that a timed one stands for. -/
def toAction (s : TimedSlot) : RetransmitAction where
  toRetransmitRequest := s.request
  state := match s.phase with
    | .idle => .inactive
    | .waiting since => .delay (wrapI64 (since + delayNs))
    | .lingering since => .linger (wrapI64 (since + lingerNs))

/-- What one round of `process_timeouts` does, by true times. -/
def afterTimeout (nowNs : Int) (s : TimedSlot) : TimedSlot :=
  match s.phase with
  | .idle => s
  | .waiting since => if since + delayNs ≤ nowNs then { s with phase := .lingering nowNs } else s
  | .lingering since => if since + lingerNs ≤ nowNs then { s with phase := .idle } else s

/-- The NAK that a slot holds back, with the time of its arrival. -/
def waiting? (s : TimedSlot) : Option (RetransmitRequest × Int) :=
  match s.phase with
  | .waiting since => some (s.request, since)
  | _ => none

/-- The place that a slot keeps from being scheduled again. -/
def activeKey? (s : TimedSlot) : Option (BitVec 32 × BitVec 32 × BitVec 32 × BitVec 32) :=
  match s.phase with
  | .idle => none
  | _ => some s.request.key

/-- The time of the last change of a slot in use. -/
def since? (s : TimedSlot) : Option Int :=
  match s.phase with
  | .idle => none
  | .waiting since | .lingering since => some since

theorem activeKey?_eq_none_of_not_active {s : TimedSlot}
    (h : ¬ (s.toAction delayNs lingerNs).Active) : s.phase = .idle := by
  obtain ⟨request, phase⟩ := s
  cases phase with
  | idle => rfl
  | waiting since | lingering since => exact absurd (fun h => by cases h) h

end TimedSlot

/-- **Half ranges compare true times**: for an interval of the type's range and a call less than half
the range after the beginning, the wrapped expiry has passed iff the true one has. -/
theorem passed_iff {since nowNs interval : Int} (hpos : 0 ≤ interval) (hinterval : interval < 2 ^ 63)
    (hle : since ≤ nowNs) (hspan : nowNs - since < (2 ^ 63 - 1) / 2) :
    Passed (wrapI64 (since + interval)) nowNs ↔ since + interval ≤ nowNs := by
  have hdiff : wrapI64 (nowNs - wrapI64 (since + interval)) = nowNs - (since + interval) := by
    have hwrap : wrapI64 (nowNs - wrapI64 (since + interval)) =
        wrapI64 (nowNs - (since + interval)) := by
      simp only [wrapI64, Int.sub_bmod_bmod]
    rw [hwrap, wrapI64_of_range (by omega) (by omega)]
  rw [Passed, hdiff]
  omega

/-! ## Runs -/

inductive ScheduleCall
  | onNak (nak : NakHeader) (nowNs : Int)
  | processTimeouts (nowNs : Int)

def ScheduleCall.nowNs : ScheduleCall → Int
  | .onNak _ nowNs | .processTimeouts nowNs => nowNs

/-- The handler, the accepted NAKs whose callback is to come with the times of their arrival, the
callbacks with their times, and the times of the calls so far. -/
structure ScheduleRun where
  handler : RetransmitHandler
  waiting : List (RetransmitRequest × Int)
  callbacks : List (RetransmitRequest × Int)
  times : List Int

namespace ScheduleRun

def start (delayNs lingerNs : Int) : ScheduleRun := ⟨.new delayNs lingerNs, [], [], []⟩

/-- The waiting NAKs whose time has come. -/
def due (s : ScheduleRun) (nowNs : Int) : List (RetransmitRequest × Int) :=
  s.waiting.filter fun w => w.2 + s.handler.delayNs ≤ nowNs

/-- One call. An accepted NAK waits until the first timeout call at which it is due. -/
def step (s : ScheduleRun) : ScheduleCall → ScheduleRun
  | .onNak nak nowNs =>
      { s with
        handler := (s.handler.onNak nak nowNs).1
        waiting := if (s.handler.onNak nak nowNs).2 = true then s.waiting ++ [(nak.request, nowNs)]
          else s.waiting
        times := nowNs :: s.times }
  | .processTimeouts nowNs =>
      { s with
        handler := (s.handler.processTimeouts nowNs).1
        waiting := s.waiting.filter fun w => ¬ w.2 + s.handler.delayNs ≤ nowNs
        callbacks := s.callbacks ++ (s.handler.processTimeouts nowNs).2.map fun r => (r, nowNs)
        times := nowNs :: s.times }

/-- **What a call has to do.** `on_nak` refuses only a place that is active, or any if all slots are;
`process_timeouts` makes the callbacks of the NAKs that are due, one for each, and no other. -/
def AsScheduled (s : ScheduleRun) : ScheduleCall → Prop
  | .onNak nak nowNs => (s.handler.onNak nak nowNs).2 = false →
      (∃ a ∈ s.handler.actions, a.Active ∧ a.key = nak.request.key) ∨
        ∀ a ∈ s.handler.actions, a.Active
  | .processTimeouts nowNs =>
      (s.handler.processTimeouts nowNs).2.Perm ((s.due nowNs).map Prod.fst)

def DistinctKeys (s : ScheduleRun) : Prop :=
  ((s.handler.actions.filter (·.Active)).map (·.key)).Nodup

/-- Callbacks for one place are the delay and the linger apart. -/
def Spaced (s : ScheduleRun) : Prop :=
  s.callbacks.Pairwise fun c d =>
    c.1.key = d.1.key → c.2 + (s.handler.delayNs + s.handler.lingerNs) ≤ d.2

end ScheduleRun

/-- **The clock** does not go back, and all calls are less than half the range apart. -/
def Clocked (calls : List ScheduleCall) : Prop :=
  calls.Pairwise fun c d => c.nowNs ≤ d.nowNs ∧ d.nowNs - c.nowNs < (2 ^ 63 - 1) / 2

/-! ## What calls do to timed slots -/

/-- A slot that holds nothing is replaced: its new contents come in addition. -/
theorem perm_filterMap_set {α β : Type*} {f : α → Option β} {l : List α} {idx : Nat}
    (hlt : idx < l.length) (hnone : f l[idx] = none) {x : α} {b : β} (hx : f x = some b) :
    ((l.set idx x).filterMap f).Perm (b :: l.filterMap f) := by
  have hsplit : l.filterMap f = (l.take idx).filterMap f ++ (l.drop (idx + 1)).filterMap f := by
    conv_lhs => rw [← List.take_append_drop idx l, List.drop_eq_getElem_cons hlt]
    rw [List.filterMap_append, List.filterMap_cons_none hnone]
  rw [List.set_eq_take_append_cons_drop, if_pos hlt, List.filterMap_append,
    List.filterMap_cons_some hx, hsplit]
  exact List.perm_middle

/-- Values that are listed once come from one element. -/
theorem eq_of_nodup_filterMap {α β : Type*} {f : α → Option β} {l : List α}
    (h : (l.filterMap f).Nodup) {x y : α} (hx : x ∈ l) (hy : y ∈ l) {b : β} (hfx : f x = some b)
    (hfy : f y = some b) : x = y := by
  induction l with
  | nil => cases hx
  | cons z l ih =>
      have htail : (l.filterMap f).Nodup := h.sublist ((List.sublist_cons_self z l).filterMap f)
      have honce : ∀ w ∈ l, f w = some b → f z ≠ some b := fun w hw hfw hfz => by
        rw [List.filterMap_cons_some hfz] at h
        exact (List.nodup_cons.mp h).1 (List.mem_filterMap.mpr ⟨w, hw, hfw⟩)
      rcases List.mem_cons.mp hx with rfl | hx' <;> rcases List.mem_cons.mp hy with rfl | hy'
      · rfl
      · exact absurd hfx (honce y hy' hfy)
      · exact absurd hfy (honce x hx' hfx)
      · exact ih htail hx' hy'

namespace TimedSlot

variable {delayNs lingerNs nowNs : Int} {since : Int}

/-- The times of a slot in use lie in the half range before a call. -/
def Before (s : TimedSlot) (nowNs : Int) : Prop :=
  ∀ since ∈ s.since?, since ≤ nowNs ∧ nowNs - since < (2 ^ 63 - 1) / 2

theorem activeKeys_eq (slots : List TimedSlot) :
    ((slots.map (toAction delayNs lingerNs)).filter (·.Active)).map (·.key) =
      slots.filterMap activeKey? := by
  induction slots with
  | nil => rfl
  | cons s slots ih =>
      obtain ⟨request, phase⟩ := s
      cases phase with
      | idle =>
          rw [List.map_cons, List.filter_cons_of_neg (by simp [toAction, RetransmitAction.Active]),
            ih]
          rfl
      | waiting since | lingering since =>
          rw [List.map_cons, List.filter_cons_of_pos (by simp [toAction, RetransmitAction.Active]),
            List.map_cons, ih]
          rfl

/-- **A round of `process_timeouts`** is a round by true times. -/
theorem afterTimeout_toAction {s : TimedSlot} (hdelay : 0 ≤ delayNs ∧ delayNs < 2 ^ 63)
    (hlinger : 0 < lingerNs ∧ lingerNs < 2 ^ 63) (hbefore : s.Before nowNs) :
    RetransmitHandler.afterTimeout lingerNs nowNs (s.toAction delayNs lingerNs) =
      (s.afterTimeout delayNs lingerNs nowNs).toAction delayNs lingerNs := by
  obtain ⟨request, phase⟩ := s
  cases phase with
  | idle => rfl
  | waiting since =>
      obtain ⟨hle, hspan⟩ := hbefore since rfl
      simp only [RetransmitHandler.afterTimeout, toAction, afterTimeout,
        passed_iff hdelay.1 hdelay.2 hle hspan]
      split <;> rfl
  | lingering since =>
      obtain ⟨hle, hspan⟩ := hbefore since rfl
      simp only [RetransmitHandler.afterTimeout, toAction, afterTimeout,
        passed_iff hlinger.1.le hlinger.2 hle hspan]
      split <;> rfl

/-- **The callbacks** are those of the waiting slots that are due. -/
theorem filterMap_fired (hdelay : 0 ≤ delayNs ∧ delayNs < 2 ^ 63) {slots : List TimedSlot}
    (hbefore : ∀ s ∈ slots, s.Before nowNs) :
    (slots.map (toAction delayNs lingerNs)).filterMap (RetransmitHandler.fired nowNs) =
      ((slots.filterMap waiting?).filter fun w => w.2 + delayNs ≤ nowNs).map Prod.fst := by
  induction slots with
  | nil => rfl
  | cons s slots ih =>
      obtain ⟨hhead, htail⟩ := List.forall_mem_cons.mp hbefore
      obtain ⟨request, phase⟩ := s
      rw [List.map_cons]
      cases phase with
      | idle | lingering since =>
          rw [List.filterMap_cons_none rfl, ih htail, List.filterMap_cons_none rfl]
      | waiting since =>
          -- the clock of the source wraps; within the span it compares like the integers
          obtain ⟨hle, hspan⟩ := hhead since rfl
          have hpassed := passed_iff hdelay.1 hdelay.2 hle hspan
          have hfired : RetransmitHandler.fired nowNs
              (toAction delayNs lingerNs ⟨request, .waiting since⟩) =
                if since + delayNs ≤ nowNs then some request else none := by
            simp only [RetransmitHandler.fired, toAction, hpassed]
          have hwaiting : waiting? ⟨request, .waiting since⟩ = some (request, since) := rfl
          rw [List.filterMap_cons_some hwaiting]
          by_cases hdue : since + delayNs ≤ nowNs
          · rw [if_pos hdue] at hfired
            rw [List.filterMap_cons_some hfired, List.filter_cons_of_pos (by simpa using hdue),
              List.map_cons, ih htail]
          · rw [if_neg hdue] at hfired
            rw [List.filterMap_cons_none hfired, List.filter_cons_of_neg (by simpa using hdue),
              ih htail]

theorem filterMap_waiting_afterTimeout (slots : List TimedSlot) :
    (slots.map (afterTimeout delayNs lingerNs nowNs)).filterMap waiting? =
      (slots.filterMap waiting?).filter fun w => ¬ w.2 + delayNs ≤ nowNs := by
  induction slots with
  | nil => rfl
  | cons s slots ih =>
      obtain ⟨request, phase⟩ := s
      rw [List.map_cons]
      cases phase with
      | idle => rw [List.filterMap_cons_none rfl, ih, List.filterMap_cons_none rfl]
      | lingering since =>
          rw [List.filterMap_cons_none, ih, List.filterMap_cons_none rfl]
          simp only [afterTimeout]
          split <;> rfl
      | waiting since =>
          have hwaiting : waiting? ⟨request, .waiting since⟩ = some (request, since) := rfl
          rw [List.filterMap_cons_some hwaiting]
          by_cases hdue : since + delayNs ≤ nowNs
          · have hgone : (afterTimeout delayNs lingerNs nowNs ⟨request, .waiting since⟩).waiting? =
                none := by
              simp [afterTimeout, hdue, waiting?]
            rw [List.filterMap_cons_none hgone, List.filter_cons_of_neg (by simpa using hdue), ih]
          · have hstays : afterTimeout delayNs lingerNs nowNs ⟨request, .waiting since⟩ =
                ⟨request, .waiting since⟩ := if_neg hdue
            rw [hstays, List.filterMap_cons_some hwaiting,
              List.filter_cons_of_pos (by simpa using hdue), ih]

theorem activeKeys_afterTimeout_sublist (slots : List TimedSlot) :
    ((slots.map (afterTimeout delayNs lingerNs nowNs)).filterMap activeKey?).Sublist
      (slots.filterMap activeKey?) := by
  induction slots with
  | nil => exact .slnil
  | cons s slots ih =>
      obtain ⟨request, phase⟩ := s
      rw [List.map_cons]
      cases phase with
      | idle => exact ih
      | waiting since =>
          simp only [afterTimeout]
          split <;> exact ih.cons_cons request.key
      | lingering since =>
          simp only [afterTimeout]
          split
          · exact ih.cons request.key
          · exact ih.cons_cons request.key

theorem waiting_of_afterTimeout {s : TimedSlot}
    (h : (s.afterTimeout delayNs lingerNs nowNs).phase = .waiting since) :
    s.phase = .waiting since ∧ ¬ since + delayNs ≤ nowNs := by
  obtain ⟨request, phase⟩ := s
  cases phase with
  | idle => cases h
  | waiting since' =>
      simp only [afterTimeout] at h
      split at h
      · cases h
      · rename_i hdue
        obtain rfl := Phase.waiting.inj h
        exact ⟨rfl, hdue⟩
  | lingering since' =>
      simp only [afterTimeout] at h
      split at h <;> cases h

/-- What a slot that lingers after a round was before it: it lingered, or it has just fired. -/
theorem lingering_of_afterTimeout {s : TimedSlot}
    (h : (s.afterTimeout delayNs lingerNs nowNs).phase = .lingering since) :
    s.phase = .lingering since ∨
      since = nowNs ∧ ∃ arrival, s.phase = .waiting arrival ∧ arrival + delayNs ≤ nowNs := by
  obtain ⟨request, phase⟩ := s
  cases phase with
  | idle => cases h
  | waiting since' =>
      simp only [afterTimeout] at h
      split at h
      · rename_i hdue
        exact .inr ⟨(Phase.lingering.inj h).symm, since', rfl, hdue⟩
      · cases h
  | lingering since' =>
      simp only [afterTimeout] at h
      split at h
      · cases h
      · exact .inl h

/-- The times of a slot after a round: it keeps its own, or has just fired. -/
theorem since?_afterTimeout {s : TimedSlot}
    (h : since ∈ (s.afterTimeout delayNs lingerNs nowNs).since?) :
    since ∈ s.since? ∨ since = nowNs := by
  cases hphase : (s.afterTimeout delayNs lingerNs nowNs).phase with
  | idle => simp [since?, hphase] at h
  | waiting t =>
      simp only [since?, hphase] at h
      obtain rfl := Option.some.inj h
      exact .inl (by rw [since?, (waiting_of_afterTimeout hphase).1]; rfl)
  | lingering t =>
      simp only [since?, hphase] at h
      obtain rfl := Option.some.inj h
      rcases lingering_of_afterTimeout hphase with hold | ⟨rfl, -⟩
      · exact .inl (by rw [since?, hold]; rfl)
      · exact .inr rfl

/-- A slot in use that a round frees has lingered for long enough. -/
theorem lingered_of_freed {s : TimedSlot} (hactive : s.activeKey? = some s.request.key)
    (hfreed : (s.afterTimeout delayNs lingerNs nowNs).activeKey? = none) :
    ∃ since, s.phase = .lingering since ∧ since + lingerNs ≤ nowNs := by
  obtain ⟨request, phase⟩ := s
  cases phase with
  | idle => cases hactive
  | waiting since =>
      simp only [afterTimeout] at hfreed
      split at hfreed <;> cases hfreed
  | lingering since =>
      simp only [afterTimeout] at hfreed
      split at hfreed
      · exact ⟨since, rfl, ‹_›⟩
      · cases hfreed

@[simp] theorem request_afterTimeout (s : TimedSlot) :
    (s.afterTimeout delayNs lingerNs nowNs).request = s.request := by
  obtain ⟨request, phase⟩ := s
  cases phase <;> simp only [afterTimeout]
  all_goals split <;> rfl

theorem activeKey?_of_phase {s : TimedSlot} (h : s.phase ≠ .idle) :
    s.activeKey? = some s.request.key := by
  obtain ⟨request, phase⟩ := s
  cases phase with
  | idle => exact absurd rfl h
  | waiting since | lingering since => rfl

theorem activeKey?_eq_some {s : TimedSlot} {k : BitVec 32 × BitVec 32 × BitVec 32 × BitVec 32}
    (h : s.activeKey? = some k) : s.request.key = k := by
  obtain ⟨request, phase⟩ := s
  cases phase with
  | idle => cases h
  | waiting since | lingering since => exact Option.some.inj h

end TimedSlot

/-! ## The invariant -/

namespace ScheduleRun

variable {delayNs lingerNs : Int} {nowNs : Int}

/-- **The handler and its timed slots.** A callback of the past keeps its place from firing again too
soon: while a slot of that place lingers, it has not begun to linger before the callback; one that
waits began to after the linger; and once no slot of that place is active, the linger is over. -/
structure Inv (delayNs lingerNs : Int) (slots : List TimedSlot) (s : ScheduleRun) : Prop where
  delay : s.handler.delayNs = delayNs
  linger : s.handler.lingerNs = lingerNs
  actions : s.handler.actions = slots.map (TimedSlot.toAction delayNs lingerNs)
  distinct : (slots.filterMap TimedSlot.activeKey?).Nodup
  waiting : s.waiting.Perm (slots.filterMap TimedSlot.waiting?)
  since : ∀ x ∈ slots, ∀ since ∈ x.since?, since ∈ s.times
  spaced : s.Spaced
  waitsAfter : ∀ c ∈ s.callbacks, ∀ x ∈ slots, x.request.key = c.1.key → ∀ since,
    x.phase = .waiting since → c.2 + lingerNs ≤ since
  lingersAfter : ∀ c ∈ s.callbacks, ∀ x ∈ slots, x.request.key = c.1.key → ∀ since,
    x.phase = .lingering since → c.2 ≤ since
  lingerOver : ∀ c ∈ s.callbacks, c.1.key ∉ slots.filterMap TimedSlot.activeKey? →
    ∃ t ∈ s.times, c.2 + lingerNs ≤ t

/-- A call comes after the ones before it, less than half the range later. -/
def OnTime (s : ScheduleRun) (a : ScheduleCall) : Prop :=
  ∀ t ∈ s.times, t ≤ a.nowNs ∧ a.nowNs - t < (2 ^ 63 - 1) / 2

theorem inv_start (delayNs lingerNs : Int) :
    Inv delayNs lingerNs (List.replicate maxRetransmitActions ⟨⟨0, 0, 0, 0, 0⟩, .idle⟩)
      (start delayNs lingerNs) where
  delay := rfl
  linger := rfl
  actions := by rw [List.map_replicate]; rfl
  distinct := by
    rw [List.filterMap_replicate_of_none rfl]
    exact List.nodup_nil
  waiting := by
    rw [List.filterMap_replicate_of_none rfl]
    exact .refl _
  since x hx since hsince := by
    obtain rfl := List.eq_of_mem_replicate hx
    cases hsince
  spaced := List.Pairwise.nil
  waitsAfter c hc := by cases hc
  lingersAfter c hc := by cases hc
  lingerOver c hc := by cases hc

variable {slots : List TimedSlot} {s : ScheduleRun}

theorem Inv.before (h : Inv delayNs lingerNs slots s) {a : ScheduleCall} (htime : s.OnTime a) :
    ∀ x ∈ slots, x.Before a.nowNs :=
  fun x hx since hsince => htime since (h.since x hx since hsince)

/-- **A NAK** is put into a free slot, or changes nothing but the time. -/
theorem Inv.onNak (h : Inv delayNs lingerNs slots s) {nak : NakHeader}
    (htime : s.OnTime (.onNak nak nowNs)) :
    ∃ slots', Inv delayNs lingerNs slots' (step s (.onNak nak nowNs)) := by
  simp only [step]
  rcases s.handler.onNak_cases nak nowNs with
    ⟨hsame, -⟩ | ⟨hok, hdelay, hlinger, hother, idx, hlt, hfree, hactions⟩
  · -- no slot is free, or one is active under the same key
    rw [hsame]
    refine ⟨slots, { h with since := ?_, lingerOver := ?_, waiting := h.waiting }⟩
    · exact fun x hx since hsince => List.mem_cons_of_mem _ (h.since x hx since hsince)
    · intro c hc hkey
      obtain ⟨t, ht, hle⟩ := h.lingerOver c hc hkey
      exact ⟨t, List.mem_cons_of_mem _ ht, hle⟩
  -- from here on the NAK goes into the slot `idx`, which was free
  have hlt' : idx < slots.length := by rwa [h.actions, List.length_map] at hlt
  have hidle : slots[idx].phase = .idle := by
    simp only [h.actions, List.getElem_map] at hfree
    exact TimedSlot.activeKey?_eq_none_of_not_active _ _ hfree
  set slot : TimedSlot := ⟨nak.request, .waiting nowNs⟩ with hslot
  have hkeys : ((slots.set idx slot).filterMap TimedSlot.activeKey?).Perm
      (nak.request.key :: slots.filterMap TimedSlot.activeKey?) :=
    perm_filterMap_set hlt' (by rw [TimedSlot.activeKey?, hidle]) rfl
  -- a slot that is active has another key, or the NAK would have been refused
  have hnew : nak.request.key ∉ slots.filterMap TimedSlot.activeKey? := by
    rw [← TimedSlot.activeKeys_eq, ← h.actions]
    intro hmem
    obtain ⟨a, ha, hkey⟩ := List.mem_map.mp hmem
    obtain ⟨hmem, hactive⟩ := List.mem_filter.mp ha
    exact hother a hmem (of_decide_eq_true hactive) hkey
  have hcases : ∀ x ∈ slots.set idx slot, x ∈ slots ∨ x = slot :=
    fun x hx => List.mem_or_eq_of_mem_set hx
  refine ⟨slots.set idx slot, ⟨hdelay.trans h.delay, hlinger.trans h.linger, ?_, ?_, ?_, ?_, ?_, ?_,
    ?_, ?_⟩⟩
  · rw [hactions, h.actions, List.map_set, RetransmitHandler.delayed, h.delay]
    rfl
  · exact hkeys.nodup_iff.mpr (List.nodup_cons.mpr ⟨hnew, h.distinct⟩)
  · rw [if_pos hok]
    refine (List.perm_append_singleton _ _).trans ((h.waiting.cons _).trans ?_)
    have hnone : slots[idx].waiting? = none := by simp only [TimedSlot.waiting?, hidle]
    exact (perm_filterMap_set hlt' hnone rfl).symm
  · intro x hx since hsince
    rcases hcases x hx with hx | rfl
    · exact List.mem_cons_of_mem _ (h.since x hx since hsince)
    · obtain rfl := Option.some.inj hsince
      exact List.mem_cons_self
  · have hspaced := h.spaced
    unfold Spaced at hspaced ⊢
    rwa [hdelay, hlinger]
  · intro c hc x hx hkey since hphase
    rcases hcases x hx with hx | rfl
    · exact h.waitsAfter c hc x hx hkey since hphase
    · -- the place was free, so the linger of its last callback is over
      obtain ⟨t, ht, hle⟩ := h.lingerOver c hc (hkey ▸ hnew)
      obtain rfl := Phase.waiting.inj hphase
      exact hle.trans (htime t ht).1
  · intro c hc x hx hkey since hphase
    rcases hcases x hx with hx | rfl
    · exact h.lingersAfter c hc x hx hkey since hphase
    · cases hphase
  · intro c hc hkey
    have hkey' : c.1.key ∉ slots.filterMap TimedSlot.activeKey? := fun hmem =>
      hkey (hkeys.mem_iff.mpr (List.mem_cons_of_mem _ hmem))
    obtain ⟨t, ht, hle⟩ := h.lingerOver c hc hkey'
    exact ⟨t, List.mem_cons_of_mem _ ht, hle⟩

theorem Inv.fired_eq (h : Inv delayNs lingerNs slots s) (hdelay : 0 ≤ delayNs ∧ delayNs < 2 ^ 63)
    (htime : s.OnTime (.processTimeouts nowNs)) :
    (s.handler.processTimeouts nowNs).2 =
      ((slots.filterMap TimedSlot.waiting?).filter fun w => w.2 + delayNs ≤ nowNs).map Prod.fst :=
  (congrArg (List.filterMap (RetransmitHandler.fired nowNs)) h.actions).trans
    (TimedSlot.filterMap_fired hdelay (h.before htime))

/-- **The callbacks of a timeout call** are those of the NAKs that are due. -/
theorem Inv.fired (h : Inv delayNs lingerNs slots s) (hdelay : 0 ≤ delayNs ∧ delayNs < 2 ^ 63)
    (htime : s.OnTime (.processTimeouts nowNs)) :
    (s.handler.processTimeouts nowNs).2.Perm ((s.due nowNs).map Prod.fst) := by
  rw [h.fired_eq hdelay htime, due, h.delay]
  exact (h.waiting.symm.filter _).map _

/-- A callback comes from a slot that waited until it was due. -/
theorem Inv.exists_slot (h : Inv delayNs lingerNs slots s) (hdelay : 0 ≤ delayNs ∧ delayNs < 2 ^ 63)
    (htime : s.OnTime (.processTimeouts nowNs)) {r : RetransmitRequest}
    (hr : r ∈ (s.handler.processTimeouts nowNs).2) :
    ∃ x ∈ slots, x.request = r ∧ ∃ since, x.phase = .waiting since ∧ since + delayNs ≤ nowNs := by
  rw [h.fired_eq hdelay htime] at hr
  obtain ⟨⟨r, since⟩, hmem, rfl⟩ := List.mem_map.mp hr
  obtain ⟨hmem, hdue⟩ := List.mem_filter.mp hmem
  obtain ⟨⟨request, phase⟩, hx, hwaiting⟩ := List.mem_filterMap.mp hmem
  cases phase with
  | idle | lingering => cases hwaiting
  | waiting since' =>
      obtain ⟨rfl, rfl⟩ := Prod.mk.inj (Option.some.inj hwaiting)
      exact ⟨_, hx, rfl, _, rfl, of_decide_eq_true hdue⟩

/-- The callbacks of one timeout call are for different places. -/
theorem Inv.fired_distinct (h : Inv delayNs lingerNs slots s)
    (hdelay : 0 ≤ delayNs ∧ delayNs < 2 ^ 63) (htime : s.OnTime (.processTimeouts nowNs)) :
    ((s.handler.processTimeouts nowNs).2.map (·.key)).Nodup := by
  rw [h.fired_eq hdelay htime, List.map_map]
  have hwaiting : ((slots.filterMap TimedSlot.waiting?).map fun w => w.1.key).Sublist
      (slots.filterMap TimedSlot.activeKey?) := by
    clear h htime
    induction slots with
    | nil => exact .slnil
    | cons x slots ih =>
        obtain ⟨request, phase⟩ := x
        cases phase with
        | idle => exact ih
        | waiting since => exact ih.cons_cons request.key
        | lingering since => exact ih.cons request.key
  exact h.distinct.sublist ((List.filter_sublist.map _).trans hwaiting)

theorem Inv.eq_of_key (h : Inv delayNs lingerNs slots s) {x y : TimedSlot} (hx : x ∈ slots)
    (hy : y ∈ slots) (hkey : x.request.key = y.request.key) (hxphase : x.phase ≠ .idle)
    (hyphase : y.phase ≠ .idle) : x = y :=
  eq_of_nodup_filterMap h.distinct hx hy (TimedSlot.activeKey?_of_phase hxphase)
    (hkey ▸ TimedSlot.activeKey?_of_phase hyphase)

/-- The callbacks after a timeout call: those before it, and those of the slots that were due. -/
theorem Inv.mem_callbacks (h : Inv delayNs lingerNs slots s)
    (hdelay : 0 ≤ delayNs ∧ delayNs < 2 ^ 63) (htime : s.OnTime (.processTimeouts nowNs))
    {c : RetransmitRequest × Int} (hc : c ∈ (step s (.processTimeouts nowNs)).callbacks) :
    c ∈ s.callbacks ∨ c.2 = nowNs ∧ ∃ y ∈ slots, y.request = c.1 ∧
      ∃ since, y.phase = .waiting since ∧ since + delayNs ≤ nowNs := by
  rcases List.mem_append.mp hc with hc | hc
  · exact .inl hc
  · obtain ⟨r, hr, rfl⟩ := List.mem_map.mp hc
    exact .inr ⟨rfl, h.exists_slot hdelay htime hr⟩

/-- A callback whose place a timeout call leaves free has lingered for long enough. -/
theorem Inv.lingerOver_afterTimeout (h : Inv delayNs lingerNs slots s) {nowNs : Int}
    {c : RetransmitRequest × Int} (hc : c ∈ s.callbacks)
    (hkey : c.1.key ∉ (slots.map (TimedSlot.afterTimeout delayNs lingerNs nowNs)).filterMap
      TimedSlot.activeKey?) : ∃ t ∈ nowNs :: s.times, c.2 + lingerNs ≤ t := by
  by_cases hactive : c.1.key ∈ slots.filterMap TimedSlot.activeKey?
  · -- the call has freed the slot of the place, which lingered
    obtain ⟨x, hx, hxkey⟩ := List.mem_filterMap.mp hactive
    have hx' := TimedSlot.activeKey?_eq_some hxkey
    have hfreed : (x.afterTimeout delayNs lingerNs nowNs).activeKey? = none := by
      cases hafter : (x.afterTimeout delayNs lingerNs nowNs).activeKey? with
      | none => rfl
      | some k =>
          have hk := TimedSlot.activeKey?_eq_some hafter
          rw [TimedSlot.request_afterTimeout, hx'] at hk
          exact absurd (List.mem_filterMap.mpr ⟨_, List.mem_map_of_mem hx, hk ▸ hafter⟩) hkey
    obtain ⟨since, hphase, hover⟩ := TimedSlot.lingered_of_freed (hx' ▸ hxkey) hfreed
    have hle := h.lingersAfter c hc x hx hx' since hphase
    exact ⟨nowNs, List.mem_cons_self, by omega⟩
  · obtain ⟨t, ht, hle⟩ := h.lingerOver c hc hactive
    exact ⟨t, List.mem_cons_of_mem _ ht, hle⟩

/-- **A timeout call.** -/
theorem Inv.processTimeouts (h : Inv delayNs lingerNs slots s)
    (hdelay : 0 ≤ delayNs ∧ delayNs < 2 ^ 63) (hlinger : 0 < lingerNs ∧ lingerNs < 2 ^ 63)
    (htime : s.OnTime (.processTimeouts nowNs)) :
    Inv delayNs lingerNs (slots.map (TimedSlot.afterTimeout delayNs lingerNs nowNs))
      (step s (.processTimeouts nowNs)) := by
  have hbefore := h.before htime
  refine ⟨h.delay, h.linger, ?_, h.distinct.sublist (TimedSlot.activeKeys_afterTimeout_sublist _), ?_,
    ?_, ?_, ?_, ?_, ?_⟩
  · simp only [step, RetransmitHandler.processTimeouts, h.actions, h.linger, List.map_map]
    exact List.map_congr_left fun x hx =>
      TimedSlot.afterTimeout_toAction hdelay hlinger (hbefore x hx)
  · rw [TimedSlot.filterMap_waiting_afterTimeout]
    simp only [step, h.delay]
    exact h.waiting.filter _
  · intro y hy since hsince
    obtain ⟨x, hx, rfl⟩ := List.mem_map.mp hy
    rcases TimedSlot.since?_afterTimeout hsince with hsince | rfl
    · exact List.mem_cons_of_mem _ (h.since x hx since hsince)
    · exact List.mem_cons_self
  · refine List.pairwise_append.mpr ⟨h.spaced, ?_, ?_⟩
    · -- one call fires no place twice
      refine List.pairwise_map.mpr ((List.pairwise_map.mp (h.fired_distinct hdelay htime)).imp ?_)
      exact fun hne hkey => absurd hkey hne
    · intro c hc d hd hkey
      obtain ⟨r, hr, rfl⟩ := List.mem_map.mp hd
      obtain ⟨x, hx, rfl, since, hphase, hdue⟩ := h.exists_slot hdelay htime hr
      have hwait := h.waitsAfter c hc x hx hkey.symm since hphase
      have hd := h.delay
      have hl := h.linger
      simp only [step, RetransmitHandler.processTimeouts]
      omega
  · intro c hc y hy hkey since hphase
    obtain ⟨x, hx, rfl⟩ := List.mem_map.mp hy
    rw [TimedSlot.request_afterTimeout] at hkey
    obtain ⟨hold, hnotdue⟩ := TimedSlot.waiting_of_afterTimeout hphase
    rcases h.mem_callbacks hdelay htime hc with hc | ⟨-, z, hz, hrequest, t, hwaits, hdue⟩
    · exact h.waitsAfter c hc x hx hkey since hold
    · -- the slot that fired would be this one, which was not due
      obtain rfl := h.eq_of_key hx hz (by rw [hkey, hrequest]) (by rw [hold]; nofun)
        (by rw [hwaits]; nofun)
      obtain rfl := Phase.waiting.inj (hold.symm.trans hwaits)
      exact absurd hdue hnotdue
  · intro c hc y hy hkey since hphase
    obtain ⟨x, hx, rfl⟩ := List.mem_map.mp hy
    rw [TimedSlot.request_afterTimeout] at hkey
    rcases TimedSlot.lingering_of_afterTimeout hphase with hold | ⟨rfl, t, hold, -⟩
    · rcases h.mem_callbacks hdelay htime hc with hc | ⟨-, z, hz, hrequest, t, hwaits, -⟩
      · exact h.lingersAfter c hc x hx hkey since hold
      · obtain rfl := h.eq_of_key hx hz (by rw [hkey, hrequest]) (by rw [hold]; nofun)
          (by rw [hwaits]; nofun)
        rw [hold] at hwaits
        cases hwaits
    · rcases h.mem_callbacks hdelay htime hc with hc | ⟨hnow, -⟩
      · have hwait := h.waitsAfter c hc x hx hkey t hold
        have hle := (hbefore x hx t (by rw [TimedSlot.since?, hold]; rfl)).1
        simp only [ScheduleCall.nowNs] at hle
        omega
      · exact hnow.le
  · intro c hc hkey
    rcases h.mem_callbacks hdelay htime hc with hc | ⟨-, z, hz, hrequest, t, hwaits, hdue⟩
    · exact h.lingerOver_afterTimeout hc hkey
    · -- the slot that has just fired lingers, so its place is active
      refine absurd (List.mem_filterMap.mpr ⟨_, List.mem_map_of_mem hz, ?_⟩) hkey
      rw [TimedSlot.activeKey?_of_phase, TimedSlot.request_afterTimeout, hrequest]
      simp only [TimedSlot.afterTimeout, hwaits, if_pos hdue]
      nofun

/-- **One call** does what it has to and keeps the invariant. -/
theorem inv_step (hdelay : 0 ≤ delayNs ∧ delayNs < 2 ^ 63) (hlinger : 0 < lingerNs ∧ lingerNs < 2 ^ 63)
    {a : ScheduleCall} (h : ∃ slots, Inv delayNs lingerNs slots s) (htime : s.OnTime a) :
    (∃ slots, Inv delayNs lingerNs slots (step s a)) ∧ s.AsScheduled a := by
  obtain ⟨slots, h⟩ := h
  cases a with
  | onNak nak nowNs =>
      refine ⟨h.onNak htime, fun hrefused => ?_⟩
      rcases s.handler.onNak_cases nak nowNs with ⟨-, hwhy⟩ | ⟨hok, -⟩
      · exact hwhy
      · rw [hok] at hrefused
        cases hrefused
  | processTimeouts nowNs =>
      exact ⟨⟨_, h.processTimeouts hdelay hlinger htime⟩, h.fired hdelay htime⟩

theorem meets_onTime {calls : List ScheduleCall} (hclock : Clocked calls) {s : ScheduleRun}
    (hbefore : ∀ a ∈ calls, s.OnTime a) : Meets OnTime step s calls := by
  induction calls generalizing s with
  | nil => trivial
  | cons a calls ih =>
      obtain ⟨hfirst, hrest⟩ := List.pairwise_cons.mp hclock
      refine ⟨hbefore a List.mem_cons_self, ih hrest fun b hb t ht => ?_⟩
      have htimes : (step s a).times = a.nowNs :: s.times := by cases a <;> rfl
      rw [htimes] at ht
      rcases List.mem_cons.mp ht with rfl | ht
      · exact hfirst b hb
      · exact hbefore b (List.mem_cons_of_mem _ hb) t ht

/-- **The scheduler fires each accepted NAK once and not too often.** For every delay and linger of the
type's range and every sequence of calls with such a clock: each call does what it has to (refusals,
and one callback for each NAK that is due and has not had its callback, at the first timeout call at
which it is due); the active actions have distinct places; and the callbacks for one place are the
delay and the linger apart. -/
theorem fires_once {delayNs lingerNs : Int} (hdelay : 0 ≤ delayNs) (hdelay' : delayNs < 2 ^ 63)
    (hlinger : 0 < lingerNs) (hlinger' : lingerNs < 2 ^ 63) (calls : List ScheduleCall)
    (hclock : Clocked calls) :
    Meets AsScheduled step (start delayNs lingerNs) calls ∧
      (run step (start delayNs lingerNs) calls).DistinctKeys ∧
      (run step (start delayNs lingerNs) calls).Spaced := by
  have hontime : Meets OnTime step (start delayNs lingerNs) calls :=
    meets_onTime hclock fun a _ t ht => by cases ht
  have hstart : ∃ slots, Inv delayNs lingerNs slots (start delayNs lingerNs) :=
    ⟨_, inv_start delayNs lingerNs⟩
  have hstep : ∀ s a, (∃ slots, Inv delayNs lingerNs slots s) → s.OnTime a →
      (∃ slots, Inv delayNs lingerNs slots (step s a)) ∧ s.AsScheduled a :=
    fun s a h htime => inv_step ⟨hdelay, hdelay'⟩ ⟨hlinger, hlinger'⟩ h htime
  obtain ⟨slots, hinv⟩ : ∃ slots, Inv delayNs lingerNs slots (run step (start delayNs lingerNs) calls) :=
    run_invariant (fun s a h htime => (hstep s a h htime).1) hstart hontime
  refine ⟨meets_of_invariant hstep hstart hontime, ?_, hinv.spaced⟩
  rw [DistinctKeys, hinv.actions, TimedSlot.activeKeys_eq]
  exact hinv.distinct

def nakAt (termOffset : BitVec 32) : NakHeader :=
  { frameHeader := ⟨28, 0, 0, 2⟩, sessionId := 7, streamId := 1, activeTermId := 5, termOffset,
    length := 64 }

/-- A NAK, the same one while it waits, its callback, the same one while it lingers, and again after
that; a second place in between. -/
def twiceCalls : List ScheduleCall :=
  [.onNak (nakAt 0) 0, .onNak (nakAt 0) 5, .onNak (nakAt 64) 8, .processTimeouts 9,
    .processTimeouts 12, .onNak (nakAt 0) 20, .processTimeouts 32, .onNak (nakAt 0) 33,
    .processTimeouts 43]

theorem fires_once_twice :
    Meets AsScheduled step (start 10 20) twiceCalls ∧ (run step (start 10 20) twiceCalls).Spaced ∧
      (run step (start 10 20) twiceCalls).callbacks =
        [((nakAt 0).request, 12), ((nakAt 64).request, 32), ((nakAt 0).request, 43)] := by
  have hclock : Clocked twiceCalls := by
    unfold Clocked
    decide +kernel
  obtain ⟨hscheduled, -, hspaced⟩ :=
    @fires_once 10 20 (by decide) (by decide) (by decide) (by decide) twiceCalls hclock
  exact ⟨hscheduled, hspaced, by decide +kernel⟩

end ScheduleRun

end AeronRs
