import Mathlib.Order.Bounds.Basic
import AeronRs.Agent.SenderStream

/-! # The sender limit

A status message proposes a limit: the receiver's consumption position plus its window. The entry takes
a proposal that is ahead of its limit, where "ahead" is a wrapped 64-bit difference in the positive half
of the range. The positions come from wrapped 32-bit term ids, so proposals lie on both sides of zero.

**`step_entry`** says once what an action does to an entry; only a status message touches the limit.
For terms of at most `2 ^ 30` bytes every difference is exact and below the half range
(`UpdateFits`), so a status message takes the maximum, and the limit of a run is the greatest of the
first limit and all proposals. -/

namespace AeronRs

open Runs

/-! ## What stays the same -/

theorem NetworkPublication.offer_ids (p : NetworkPublication) (payload : List UInt8) :
    (p.offer payload).1.ids = p.ids := by
  rcases p.offer_cases payload with ⟨-, heq, -⟩ | ⟨-, -, heq⟩ | ⟨-, heq⟩
  · rw [heq]
  · rw [heq]
    rfl
  · rw [heq, padAndRotate_ids]

namespace PublicationEntry

def ids (e : PublicationEntry) : StreamIds := e.publication.toNetwork.ids

def Addressed (e : PublicationEntry) (sm : StatusMessage) : Prop :=
  e.sessionId = sm.sessionId ∧ e.streamId = sm.streamId

instance (e : PublicationEntry) (sm : StatusMessage) : Decidable (e.Addressed sm) :=
  inferInstanceAs (Decidable (_ ∧ _))

theorem onStatusMessage_lastRttNs (e : PublicationEntry) (sm : StatusMessage) :
    (e.onStatusMessage sm).lastRttNs = e.lastRttNs := by
  unfold onStatusMessage updateSenderLimitFromSm
  dsimp only
  split_ifs <;> rfl

def limitAfter (e : PublicationEntry) : SenderAction → Int
  | .statusMessage sm => (e.onStatusMessage sm).senderLimit
  | _ => e.senderLimit

theorem addressed_congr {e e' : PublicationEntry} (h : e'.ids = e.ids) (sm : StatusMessage) :
    e'.Addressed sm ↔ e.Addressed sm := by
  have hsession : e'.sessionId = e.sessionId := congrArg StreamIds.sessionId h
  have hstream : e'.streamId = e.streamId := congrArg StreamIds.streamId h
  rw [Addressed, Addressed, hsession, hstream]

theorem proposedLimit_congr {e e' : PublicationEntry} (h : e'.ids = e.ids) (sm : StatusMessage) :
    e'.proposedLimit sm = e.proposedLimit sm := by
  have hinitial : e'.publication.toNetwork.initialTermId = e.publication.toNetwork.initialTermId :=
    congrArg StreamIds.initialTermId h
  have hterm : e'.publication.toNetwork.termLength = e.publication.toNetwork.termLength :=
    congrArg StreamIds.termLength h
  unfold proposedLimit NetworkPublication.computePosition
  rw [hinitial, hterm]

end PublicationEntry

/-- **What an action does to an entry**: its stream and its round-trip time stay, and only a status
message moves its limit. -/
theorem SenderAgent.step_entry {s : SenderAgent} (hwired : s.Wired) {i : Nat} {e : PublicationEntry}
    (he : s.publications[i]? = some e) (a : SenderAction) :
    ∃ e', (s.step a).publications[i]? = some e' ∧ e'.ids = e.ids ∧ e'.lastRttNs = e.lastRttNs ∧
      e'.senderLimit = e.limitAfter a := by
  cases a with
  | offer pubIdx payload =>
      have hget : (s.step (.offer pubIdx payload)).publications[i]? = some (if pubIdx = i then
          { e with publication := (e.publication.offer payload).1 } else e) := by
        change (s.publications.modify pubIdx _)[i]? = _
        rw [List.getElem?_modify, he, Option.map_eq_map, Option.map_some]
      refine ⟨_, hget, ?_, ?_, ?_⟩
      · split_ifs
        · have hoffer := congrArg Prod.fst (e.publication.toNetwork_offer payload)
          exact (congrArg NetworkPublication.ids hoffer).trans
            (e.publication.toNetwork.offer_ids payload)
        · rfl
      · split_ifs <;> rfl
      · split_ifs <;> rfl
  | statusMessage sm =>
      refine ⟨_, statusMessage_getElem? he sm, ?_, e.onStatusMessage_lastRttNs sm, rfl⟩
      rw [PublicationEntry.ids, e.onStatusMessage_publication sm, PublicationEntry.ids]
  | doSend nowNs =>
      obtain ⟨e', he', hscan, -⟩ := doSend_events hwired he nowNs
      refine ⟨e', he', ?_, hscan.lastRttNs, hscan.senderLimit⟩
      unfold PublicationEntry.ids
      rw [hscan.publication]
      split_ifs
      · exact congrArg (fun r => r.1.ids) (e.publication.toNetwork_senderScan _)
      · rfl
  | poller p => exact ⟨e, he, rfl, rfl, rfl⟩

/-! ## One status message -/

namespace PublicationEntry

/-- **No 64-bit overflow** in an update: the terms since the first in bytes, the consumption position,
the proposal and its distance from the limit are all exact. -/
structure UpdateFits (e : PublicationEntry) (sm : StatusMessage) : Prop where
  terms : FitsI64 ((sm.consumptionTermId - e.initialTermId).toInt * e.termLength)
  position : FitsI64 (e.publication.toNetwork.computePosition sm.consumptionTermId
    sm.consumptionTermOffset.toNat)
  proposed : FitsI64 (e.proposedLimit sm)
  diff : FitsI64 (e.proposedLimit sm - e.senderLimit)

variable {e : PublicationEntry} {sm : StatusMessage}

/-- The terms since the first of a consumption position, in bytes, for terms of at most `2 ^ 30`. -/
theorem terms_bounds (hterm : e.termLength ≤ 2 ^ 30) (termId : BitVec 32) :
    -2 ^ 61 ≤ (termId - e.initialTermId).toInt * e.termLength ∧
      (termId - e.initialTermId).toInt * e.termLength ≤ 2 ^ 61 := by
  have hlo := (termId - e.initialTermId).le_toInt
  have hhi := @BitVec.toInt_lt 32 (termId - e.initialTermId)
  have hterm' : (e.termLength : Int) ≤ 2 ^ 30 := by exact_mod_cast hterm
  have hmul₁ : -2 ^ 31 * (e.termLength : Int) ≤ (termId - e.initialTermId).toInt * e.termLength :=
    Int.mul_le_mul_of_nonneg_right hlo (Int.natCast_nonneg _)
  have hmul₂ : (termId - e.initialTermId).toInt * e.termLength ≤ 2 ^ 31 * (e.termLength : Int) :=
    Int.mul_le_mul_of_nonneg_right (Int.le_of_lt hhi) (Int.natCast_nonneg _)
  omega

theorem proposedLimit_range (hterm : e.termLength ≤ 2 ^ 30) (sm : StatusMessage) :
    -2 ^ 61 - 2 ^ 31 ≤ e.proposedLimit sm ∧ e.proposedLimit sm < 2 ^ 61 + 2 ^ 33 := by
  obtain ⟨hlo, hhi⟩ := terms_bounds hterm sm.consumptionTermId
  have hoff := sm.consumptionTermOffset.isLt
  have hwlo := sm.receiverWindow.le_toInt
  have hwhi := @BitVec.toInt_lt 32 sm.receiverWindow
  have hposition : e.proposedLimit sm = (sm.consumptionTermId - e.initialTermId).toInt *
      e.termLength + sm.consumptionTermOffset.toNat + sm.receiverWindow.toInt := rfl
  omega

/-- **Nothing overflows** for terms of at most `2 ^ 30` bytes. -/
theorem InRange.updateFits (h : e.InRange) (hterm : e.termLength ≤ 2 ^ 30) (sm : StatusMessage) :
    e.UpdateFits sm := by
  obtain ⟨hlo, hhi⟩ := terms_bounds hterm sm.consumptionTermId
  obtain ⟨hplo, hphi⟩ := proposedLimit_range hterm sm
  have hoff := sm.consumptionTermOffset.isLt
  have hnonneg := h.limit_nonneg
  have hle := h.limit_le
  refine ⟨⟨by omega, by omega⟩, ?_, ⟨by omega, by omega⟩, ⟨by omega, by omega⟩⟩
  have hposition : e.publication.toNetwork.computePosition sm.consumptionTermId
      sm.consumptionTermOffset.toNat = (sm.consumptionTermId - e.initialTermId).toInt *
        e.termLength + sm.consumptionTermOffset.toNat := rfl
  rw [hposition]
  exact ⟨by omega, by omega⟩

/-- **A status message takes the maximum**, for terms of at most `2 ^ 30` bytes. -/
theorem InRange.onStatusMessage_eq_max (h : e.InRange) (hterm : e.termLength ≤ 2 ^ 30)
    (hids : e.Addressed sm) :
    (e.onStatusMessage sm).senderLimit = max e.senderLimit (e.proposedLimit sm) := by
  obtain ⟨-, hhi⟩ := proposedLimit_range hterm sm
  have hnonneg := h.limit_nonneg
  -- the difference is exact and below the half range, so its sign decides
  have hexact := (h.updateFits hterm sm).diff.wrapI64_eq
  rw [onStatusMessage_of_ids hids, hexact]
  split_ifs with hahead
  · rw [max_eq_right (by omega)]
  · rw [max_eq_left (by omega)]

end PublicationEntry

/-! ## Runs -/

namespace SenderAgent

/-- An action does not move the limit of publication `i` back. -/
def LimitKept (i : Nat) (s : SenderAgent) (a : SenderAction) : Prop :=
  ∀ e ∈ s.publications[i]?, ∀ e' ∈ (s.step a).publications[i]?, e.senderLimit ≤ e'.senderLimit

/-- An action updates the limit of publication `i` without overflow. -/
def UpdatesFit (i : Nat) (s : SenderAgent) (a : SenderAction) : Prop :=
  ∀ sm, a = .statusMessage sm → ∀ e ∈ s.publications[i]?, e.UpdateFits sm

def proposals (e : PublicationEntry) (as : List SenderAction) : Set Int :=
  {limit | ∃ sm, .statusMessage sm ∈ as ∧ e.Addressed sm ∧ limit = e.proposedLimit sm}

theorem proposals_congr {e e' : PublicationEntry} (h : e'.ids = e.ids) (as : List SenderAction) :
    proposals e' as = proposals e as := by
  unfold proposals
  simp only [PublicationEntry.addressed_congr h, PublicationEntry.proposedLimit_congr h]

theorem proposals_append (e : PublicationEntry) (as bs : List SenderAction) :
    proposals e (as ++ bs) = proposals e as ∪ proposals e bs := by
  ext limit
  simp only [proposals, Set.mem_union, Set.mem_ofPred_eq, List.mem_append, or_and_right, exists_or]

/-- **Step.** No action moves a limit back. -/
theorem Inv.limitKept {s : SenderAgent} (h : s.Inv) (i : Nat) (a : SenderAction) :
    s.LimitKept i a := by
  intro e he e' he'
  obtain ⟨e₁, he₁, -, -, hlimit⟩ := step_entry h.wired he a
  obtain rfl := Option.some.inj (he₁.symm.trans he')
  rw [hlimit]
  cases a with
  | statusMessage sm =>
      rcases PublicationEntry.onStatusMessage_senderLimit
        (h.inRange e (List.mem_of_getElem? he)) sm with hsame | ⟨hnew, hlt⟩
      · exact hsame.ge
      · exact hlt.le.trans hnew.ge
  | offer | doSend | poller => exact le_refl _

/-- **One action takes the maximum** of the limit and what it proposes. -/
theorem isGreatest_limitAfter {e : PublicationEntry} (h : e.InRange)
    (hterm : e.termLength ≤ 2 ^ 30) {S : Set Int} (hS : IsGreatest S e.senderLimit)
    (a : SenderAction) : IsGreatest (S ∪ proposals e [a]) (e.limitAfter a) := by
  by_cases hsm : ∃ sm, a = .statusMessage sm ∧ e.Addressed sm
  · obtain ⟨sm, rfl, haddressed⟩ := hsm
    have hproposals : proposals e [.statusMessage sm] = {e.proposedLimit sm} := by
      ext limit
      simp [proposals, haddressed]
    rw [hproposals, Set.union_singleton, PublicationEntry.limitAfter,
      h.onStatusMessage_eq_max hterm haddressed, max_comm]
    exact hS.insert (e.proposedLimit sm)
  · -- nothing is proposed, and nothing changes
    have hproposals : proposals e [a] = ∅ := by
      refine Set.eq_empty_of_forall_notMem fun limit ⟨sm, hmem, haddressed, _⟩ => hsm ⟨sm, ?_⟩
      exact ⟨(List.mem_singleton.mp hmem).symm, haddressed⟩
    have hsame : e.limitAfter a = e.senderLimit := by
      cases a with
      | statusMessage sm =>
          have hother : ¬ e.Addressed sm := fun haddressed => hsm ⟨sm, rfl, haddressed⟩
          rw [PublicationEntry.limitAfter, PublicationEntry.onStatusMessage]
          exact congrArg PublicationEntry.senderLimit (if_neg hother)
      | offer | doSend | poller => rfl
    rw [hproposals, Set.union_empty, hsame]
    exact hS

/-- **The limit of publication `i`**, whose stream is that of `e₀`, is the greatest of a set. -/
structure LimitIs (i : Nat) (e₀ : PublicationEntry) (S : Set Int) (s : SenderAgent) : Prop where
  inv : s.Inv
  entry : ∃ e, s.publications[i]? = some e ∧ e.ids = e₀.ids ∧ IsGreatest S e.senderLimit

/-- **Step.** An action adds what it proposes, without overflow. -/
theorem limitIs_step {i : Nat} {e₀ : PublicationEntry} {S : Set Int} {s : SenderAgent}
    (h : LimitIs i e₀ S s) (hterm : e₀.termLength ≤ 2 ^ 30) (a : SenderAction) :
    LimitIs i e₀ (S ∪ proposals e₀ [a]) (s.step a) ∧ s.UpdatesFit i a := by
  obtain ⟨hinv, e, he, hids, hgreatest⟩ := h
  have hrange := hinv.inRange e (List.mem_of_getElem? he)
  have hlength : e.termLength = e₀.termLength := congrArg StreamIds.termLength hids
  rw [← hlength] at hterm
  constructor
  · obtain ⟨e', he', hids', -, hlimit⟩ := step_entry hinv.wired he a
    refine ⟨inv_step hinv a, e', he', hids'.trans hids, ?_⟩
    rw [hlimit, ← proposals_congr hids]
    exact isGreatest_limitAfter hrange hterm hgreatest a
  · rintro sm - e₁ he₁
    obtain rfl := Option.some.inj (he.symm.trans he₁)
    exact hrange.updateFits hterm sm

/-- **Run.** A run adds all that it proposes, and no update overflows. -/
theorem limitIs_run {i : Nat} {e₀ : PublicationEntry} {S : Set Int} {s : SenderAgent}
    (h : LimitIs i e₀ S s) (hterm : e₀.termLength ≤ 2 ^ 30) (as : List SenderAction) :
    LimitIs i e₀ (S ∪ proposals e₀ as) (run step s as) ∧ Meets (UpdatesFit i) step s as := by
  induction as generalizing s S with
  | nil =>
      have hnone : proposals e₀ [] = ∅ := by simp [proposals]
      rw [hnone, Set.union_empty]
      exact ⟨h, trivial⟩
  | cons a as ih =>
      obtain ⟨hstep, hfits⟩ := limitIs_step h hterm a
      obtain ⟨hrun, hmeets⟩ := ih hstep
      rw [Set.union_assoc, ← proposals_append] at hrun
      exact ⟨hrun, hfits, hmeets⟩

theorem Initial.limitIs {s : SenderAgent} (h : s.Initial) {i : Nat} {e : PublicationEntry}
    (he : s.publications[i]? = some e) : LimitIs i e {(e.termLength : Int)} s := by
  refine ⟨h.inv, e, he, rfl, ?_⟩
  rw [h.senderLimit e (List.mem_of_getElem? he)]
  exact isGreatest_singleton

/-- **The sender limit is the running maximum.** In every run of offers, status messages and cycles no
action moves the limit of a publication back. With terms of at most `2 ^ 30` bytes no update
overflows, the limit is the greatest of the first limit and all proposals, and runs with the same
status messages, in any order and number, reach the same limit. -/
theorem sender_limit_running_max {s : SenderAgent} (h : s.Initial) {i : Nat} {e : PublicationEntry}
    (he : s.publications[i]? = some e) (as : List SenderAction) :
    Meets (LimitKept i) step s as ∧
      (e.termLength ≤ 2 ^ 30 →
        Meets (UpdatesFit i) step s as ∧
        ∃ e', (run step s as).publications[i]? = some e' ∧
          IsGreatest (insert (e.termLength : Int) (proposals e as)) e'.senderLimit ∧
          ∀ as', (∀ sm, .statusMessage sm ∈ as' ↔ .statusMessage sm ∈ as) →
            ∃ e'', (run step s as').publications[i]? = some e'' ∧
              e''.senderLimit = e'.senderLimit) := by
  constructor
  · have hany : Meets (fun _ _ => True) step s as := meets_of_forall fun _ _ => trivial
    have hkept : ∀ s a, s.Inv → True → (step s a).Inv ∧ s.LimitKept i a :=
      fun _ a hinv _ => ⟨inv_step hinv a, hinv.limitKept i a⟩
    exact meets_of_invariant hkept h.inv hany
  · intro hterm
    have hstart := h.limitIs he
    obtain ⟨⟨-, e', he', -, hgreatest⟩, hfits⟩ := limitIs_run hstart hterm as
    refine ⟨hfits, e', he', hgreatest, fun as' hsame => ?_⟩
    -- the proposals are the same set
    obtain ⟨⟨-, e'', he'', -, hgreatest'⟩, -⟩ := limitIs_run hstart hterm as'
    have hproposals : proposals e as' = proposals e as := by
      unfold proposals
      simp only [hsame]
    rw [hproposals] at hgreatest'
    exact ⟨e'', he'', hgreatest'.unique hgreatest⟩

/-- A status message for the first term with a window of 96 bytes moves the limit to 224. -/
theorem sender_limit_second_term :
    Meets (LimitKept 0) step oneNewPublication (secondTermWithWindow 96) ∧
      ∃ e', (run step oneNewPublication (secondTermWithWindow 96)).publications[0]? = some e' ∧
        e'.senderLimit = 224 ∧
        IsGreatest (insert 128 (proposals (.new ((Publication.create false 7 1 5 128 1408).get rfl) 0)
          (secondTermWithWindow 96))) e'.senderLimit := by
  obtain ⟨hkept, hmax⟩ := sender_limit_running_max oneNewPublication_initial (i := 0) rfl
    (secondTermWithWindow 96)
  obtain ⟨-, e', he', hgreatest, -⟩ := hmax (by decide)
  have hlimit : ((run step oneNewPublication (secondTermWithWindow 96)).publications[0]?).map
      PublicationEntry.senderLimit = some 224 := by decide +kernel
  rw [he', Option.map_some, Option.some.injEq] at hlimit
  exact ⟨hkept, e', he', hlimit, hgreatest⟩

end SenderAgent

end AeronRs
