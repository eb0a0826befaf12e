import AeronRs.Agent.SenderCycle

/-! # The receiver's window

`sender_limit` is where the receiver's window ends. A pass scans at most as many bytes as are left
to it, but the scan stops only after the frame that reaches that number, so a frame that starts
before the limit and ends beyond it is sent as well. `withinLimit_iff` says of every run which
cycles stay within the window: those in which no frame reached by a scan ends beyond the limit. -/

namespace AeronRs

open Runs

variable {e : PublicationEntry}

/-! ## One pass -/

namespace PublicationEntry

/-- Positions and limits in the range where the 64-bit comparisons of the source are exact. -/
structure InRange (e : PublicationEntry) : Prop where
  position_nonneg : 0 ≤ e.senderPosition
  limit_nonneg : 0 ≤ e.senderLimit
  limit_le : e.senderLimit ≤ 2 ^ 62 + 2 ^ 33
  position_le : e.senderPosition ≤ e.senderLimit + 2 ^ 31

/-- **No frame within the limit of the scan ends beyond the limit of the window.** -/
def FitsWindow (e : PublicationEntry) (limit : Nat) : Prop :=
  ∀ pre frame post, e.publication.toNetwork.committed = pre ++ frame :: post →
    total slotLength pre < limit →
      e.senderPosition + total slotLength pre + slotLength frame ≤ e.senderLimit

theorem fitsWindow_iff (e : PublicationEntry) (limit : Nat) :
    e.FitsWindow limit ↔
      takeBudget slotLength limit e.publication.toNetwork.committed = [] ∨
        e.senderPosition + total slotLength (takeBudget slotLength limit
          e.publication.toNetwork.committed) ≤ e.senderLimit := by
  unfold FitsWindow
  generalize e.publication.toNetwork.committed = frames
  -- with the limit of the window at a distance `c` the bound is one on the bytes taken
  have hiff : ∀ c : Nat, e.senderLimit = e.senderPosition + c →
      ((∀ pre frame post, frames = pre ++ frame :: post → total slotLength pre < limit →
        e.senderPosition + total slotLength pre + slotLength frame ≤ e.senderLimit) ↔
        e.senderPosition + total slotLength (takeBudget slotLength limit frames) ≤
          e.senderLimit) := by
    intro c hc
    have hle := total_takeBudget_le_iff slotLength limit c frames
    rw [hc, Int.add_le_add_iff_left, Int.ofNat_le, hle]
    refine forall₅_congr fun pre frame post _ _ => ?_
    omega
  constructor
  · intro h
    rcases frames with - | ⟨frame, frames⟩
    · exact .inl (takeBudget_nil _ _)
    · rcases Nat.eq_zero_or_pos limit with rfl | hpos
      · exact .inl (takeBudget_zero _ _)
      · have hfirst := h [] frame frames rfl (by simpa using hpos)
        rw [total_nil] at hfirst
        exact .inr ((hiff (e.senderLimit - e.senderPosition).toNat (by omega)).mp h)
  · rintro (hnil | hle)
    · intro pre frame post hsplit hlt
      -- the first frame would be taken
      exfalso
      rw [hsplit] at hnil
      cases pre with
      | nil => simp [takeBudget_cons_of_pos slotLength (Nat.zero_lt_of_lt hlt)] at hnil
      | cons x pre => simp [takeBudget_cons_of_pos slotLength (Nat.zero_lt_of_lt hlt)] at hnil
    · exact (hiff (e.senderLimit - e.senderPosition).toNat (by omega)).mpr hle

instance (e : PublicationEntry) (limit : Nat) : Decidable (e.FitsWindow limit) :=
  decidable_of_iff _ (e.fitsWindow_iff limit).symm

theorem position_lt_of_scanLimit_pos {e : PublicationEntry} (h : e.InRange) {slots : Nat}
    (hpos : 0 < e.scanLimit slots) : e.senderPosition < e.senderLimit := by
  obtain ⟨h₁, h₂, h₃, h₄⟩ := h
  have hwindow : wrapI64 (e.senderLimit - e.senderPosition) = e.senderLimit - e.senderPosition :=
    wrapI64_of_range (by omega) (by omega)
  have havailable : 0 < e.available := lt_of_lt_of_le hpos (e.scanLimit_le slots)
  unfold available at havailable
  dsimp only at havailable
  rw [hwindow] at havailable
  by_contra hle
  rw [if_pos (show e.senderLimit - e.senderPosition ≤ 0 ∨ _ from .inl (by omega))] at havailable
  exact absurd havailable (by decide)

end PublicationEntry

namespace SendState

variable {limit : Nat} {e e' : PublicationEntry}

theorem Scanned.senderPosition (h : Scanned limit e e') :
    e'.senderPosition = e.senderPosition +
      total slotLength (takeBudget slotLength limit e.publication.toNetwork.committed) := by
  have hscan : _ = (e.publication.toNetwork.senderScan limit).1.senderPosition :=
    congrArg (fun r => r.1.senderPosition) (e.publication.toNetwork_senderScan limit)
  rw [NetworkPublication.senderScan_eq_takeBudget] at hscan
  unfold PublicationEntry.senderPosition
  rw [h.publication]
  split_ifs with hlimit
  · exact hscan
  · rw [Nat.eq_zero_of_not_pos hlimit, takeBudget_zero]
    simp

/-- A scan stays in the sender's term. -/
theorem Scanned.senderPosition_le (h : Scanned limit e e') :
    e.senderPosition ≤ e'.senderPosition ∧ e'.senderPosition ≤ e.senderPosition + 2 ^ 31 := by
  obtain ⟨rest, hsplit, -⟩ :=
    takeBudget_split slotLength limit e.publication.toNetwork.committed
  have htotal : total slotLength e.publication.toNetwork.committed ≤ 2 ^ 31 :=
    le_trans (walk_total_le ..).1 (le_trans (Nat.sub_le ..) e.publication.toNetwork.rawLog.termLength_le)
  rw [hsplit, total_append] at htotal
  rw [h.senderPosition]
  omega

/-- **A scan stays within the window exactly when the frames it reaches do.** -/
theorem Scanned.within_iff (h : Scanned limit e e') :
    (e.senderPosition < e'.senderPosition → e'.senderPosition ≤ e'.senderLimit) ↔
      e.FitsWindow limit := by
  rw [h.senderPosition, h.senderLimit, e.fitsWindow_iff]
  cases htaken : takeBudget slotLength limit e.publication.toNetwork.committed with
  | nil => simp
  | cons frame rest =>
      have hmem : frame ∈ e.publication.toNetwork.committed := by
        obtain ⟨tail, hsplit, -⟩ :=
          takeBudget_split slotLength limit e.publication.toNetwork.committed
        rw [hsplit, htaken]
        exact List.mem_append_left _ List.mem_cons_self
      have hpos : 0 < slotLength frame := (walk_total_le ..).2 frame hmem
      have hadvance : e.senderPosition < e.senderPosition + total slotLength (frame :: rest) := by
        rw [total_cons]
        omega
      constructor
      · intro hwithin
        exact .inr (hwithin hadvance)
      · rintro (hnil | hle) _
        · exact absurd hnil (List.cons_ne_nil _ _)
        · exact hle

theorem Scanned.inRange (h : Scanned limit e e') (hrange : e.InRange)
    (hwindow : 0 < limit → e.senderPosition < e.senderLimit) :
    e'.InRange := by
  obtain ⟨h₁, h₂, h₃, h₄⟩ := hrange
  obtain ⟨hle, hterm⟩ := h.senderPosition_le
  refine ⟨by omega, by rw [h.senderLimit]; exact h₂, by rw [h.senderLimit]; exact h₃, ?_⟩
  rw [h.senderLimit]
  by_cases hlimit : 0 < limit
  · have := hwindow hlimit
    omega
  · have hsame := h.senderPosition
    rw [Nat.eq_zero_of_not_pos hlimit, takeBudget_zero, total_nil] at hsame
    omega

end SendState

/-! ## Runs -/

/-- What happens to a sender agent: an application offers, a status message is processed, a cycle of
`do_send` runs, and the kernel and `poll_recv` leave the poller in any state. -/
inductive SenderAction
  | offer (pubIdx : Nat) (payload : List UInt8)
  | statusMessage (sm : StatusMessage)
  | doSend (nowNs : Int)
  | poller (poller : UringPoller SendPtr)

namespace SenderAgent

variable {nowNs : Int}

def step (s : SenderAgent) : SenderAction → SenderAgent
  | .offer pubIdx payload =>
      s.modifyPublication pubIdx fun e => { e with publication := (e.publication.offer payload).1 }
  | .statusMessage sm => { s with publications := s.publications.map (·.onStatusMessage sm) }
  | .doSend nowNs => (s.doSend nowNs).agent
  | .poller poller => { s with poller }

/-- A status message is applied to every publication. -/
theorem statusMessage_getElem? {s : SenderAgent} {i : Nat} {e : PublicationEntry}
    (he : s.publications[i]? = some e) (sm : StatusMessage) :
    (s.step (.statusMessage sm)).publications[i]? = some (e.onStatusMessage sm) := by
  change (s.publications.map (·.onStatusMessage sm))[i]? = _
  rw [List.getElem?_map, he, Option.map_some]

/-- An agent to which publications were added and nothing else happened yet. -/
structure Initial (s : SenderAgent) : Prop where
  wired : s.Wired
  created : ∀ e ∈ s.publications, ∃ crossThread sessionId streamId initialTermId termLength mtu,
    Publication.create crossThread sessionId streamId initialTermId termLength mtu =
      some e.publication
  senderLimit : ∀ e ∈ s.publications, e.senderLimit = e.termLength

def StaysWithin (before after : Option PublicationEntry) : Prop :=
  ∀ e e', before = some e → after = some e' → e.senderPosition < e'.senderPosition →
    e'.senderPosition ≤ e'.senderLimit

instance (before after : Option PublicationEntry) : Decidable (StaysWithin before after) :=
  match before, after with
  | none, _ => isTrue fun _ _ h => by cases h
  | some _, none => isTrue fun _ _ _ h => by cases h
  | some e, some e' =>
      decidable_of_iff (e.senderPosition < e'.senderPosition → e'.senderPosition ≤ e'.senderLimit)
        ⟨fun h _ _ he he' => by cases he; cases he'; exact h, fun h => h e e' rfl rfl⟩

/-- **Within the window.** A cycle that advances the sender of a publication leaves it within the
limit. -/
def WithinLimit (s : SenderAgent) : SenderAction → Prop
  | .doSend nowNs =>
      ∀ i : Nat, StaysWithin s.publications[i]? (s.doSend nowNs).agent.publications[i]?
  | _ => True

theorem withinLimit_doSend {s : SenderAgent} :
    (∀ i < s.publications.length,
        StaysWithin s.publications[i]? (s.doSend nowNs).agent.publications[i]?) ↔
      s.WithinLimit (.doSend nowNs) := by
  constructor
  · intro h i
    by_cases hi : i < s.publications.length
    · exact h i hi
    · intro e e' he
      rw [List.getElem?_eq_none (by omega)] at he
      cases he
  · exact fun h i _ => h i

instance (s : SenderAgent) : (a : SenderAction) → Decidable (s.WithinLimit a)
  | .doSend _ => decidable_of_iff _ withinLimit_doSend
  | .offer .. => isTrue trivial
  | .statusMessage _ => isTrue trivial
  | .poller _ => isTrue trivial

/-- In a pass, no frame within the limit of the scan ends beyond the limit of the window. -/
def PassFits (nowNs : Int) (st : SendState) (pubIdx : Nat) : Prop :=
  ∀ e, st.agent.publications[pubIdx]? = some e →
    e.FitsWindow (SendState.passLimit nowNs pubIdx e st)

instance (nowNs : Int) (st : SendState) (pubIdx : Nat) : Decidable (PassFits nowNs st pubIdx) :=
  match h : st.agent.publications[pubIdx]? with
  | none => isTrue fun e he => by rw [h] at he; cases he
  | some e =>
      decidable_of_iff (e.FitsWindow (SendState.passLimit nowNs pubIdx e st))
        ⟨fun hfits e' he' => by rw [h] at he'; cases he'; exact hfits, fun hall => hall e h⟩

/-- Every pass of a cycle starts in a state with this property. -/
def CycleFits (s : SenderAgent) : SenderAction → Prop
  | .doSend nowNs => Meets (PassFits nowNs) (SendState.pass nowNs) s.beginSend s.passOrder
  | _ => True

instance (s : SenderAgent) : (a : SenderAction) → Decidable (s.CycleFits a)
  | .doSend _ => inferInstanceAs (Decidable (Meets _ _ _ _))
  | .offer .. => isTrue trivial
  | .statusMessage _ => isTrue trivial
  | .poller _ => isTrue trivial

/-- The run invariant: endpoints are there, positions and limits are in range. -/
structure Inv (s : SenderAgent) : Prop where
  wired : s.Wired
  inRange : ∀ e ∈ s.publications, e.InRange

theorem Initial.inv {s : SenderAgent} (h : s.Initial) : s.Inv := by
  refine ⟨h.wired, fun e he => ?_⟩
  obtain ⟨_, _, _, _, _, _, hcreate⟩ := h.created e he
  have hlimit := h.senderLimit e he
  have hnew := Publication.toNetwork_create hcreate
  have hpos : e.senderPosition = 0 := by
    unfold NetworkPublication.new at hnew
    split_ifs at hnew
    obtain ⟨log, -, hp⟩ := Option.map_eq_some_iff.mp hnew
    rw [PublicationEntry.senderPosition, ← hp]
  have hterm : e.termLength ≤ 2 ^ 31 := e.publication.toNetwork.rawLog.termLength_le
  exact ⟨by omega, by omega, by omega, by omega⟩

theorem inv_pass {st : SendState} (h : st.agent.Inv) (pubIdx : Nat) :
    (SendState.pass nowNs st pubIdx).agent.Inv := by
  refine ⟨SendState.wired_pass h.wired pubIdx, fun e' he' => ?_⟩
  obtain ⟨j, hj⟩ := List.mem_iff_getElem?.mp he'
  by_cases hij : j = pubIdx
  · subst hij
    cases he : st.agent.publications[j]? with
    | none =>
        rw [SendState.pass_of_none he, he] at hj
        cases hj
    | some e =>
        obtain ⟨ep, hep⟩ := SendState.exists_endpoint h.wired he
        obtain ⟨e'', he'', hscan⟩ := (@SendState.pass_spec nowNs j st e ep he hep).own
        rw [he'', Option.some.injEq] at hj
        subst hj
        have hrange := h.inRange e (List.mem_of_getElem? he)
        exact hscan.inRange hrange fun hpos =>
          PublicationEntry.position_lt_of_scanLimit_pos hrange hpos
  · rw [SendState.pass_others h.wired hij] at hj
    exact h.inRange e' (List.mem_of_getElem? hj)

theorem passFits_iff {st : SendState} (h : st.agent.Wired) (pubIdx : Nat) :
    PassFits nowNs st pubIdx ↔ StaysWithin st.agent.publications[pubIdx]?
      (SendState.pass nowNs st pubIdx).agent.publications[pubIdx]? := by
  cases he : st.agent.publications[pubIdx]? with
  | none =>
      constructor
      · intro _ e _ hnone
        cases hnone
      · intro _ e hsome
        rw [he] at hsome
        cases hsome
  | some e =>
      obtain ⟨ep, hep⟩ := SendState.exists_endpoint h he
      obtain ⟨e', he', hscan⟩ := (@SendState.pass_spec nowNs pubIdx st e ep he hep).own
      have hfits : PassFits nowNs st pubIdx ↔
          e.FitsWindow (SendState.passLimit nowNs pubIdx e st) := by
        constructor
        · exact fun hall => hall e he
        · intro hfits e₁ he₁
          rw [he, Option.some.injEq] at he₁
          exact he₁ ▸ hfits
      rw [hfits, ← hscan.within_iff, he']
      constructor
      · rintro hwithin e₁ e₂ ⟨⟩ ⟨⟩
        exact hwithin
      · exact fun hall => hall e e' rfl rfl

/-- **A cycle stays within the window exactly when its passes do.** -/
theorem withinLimit_doSend_iff {s : SenderAgent} (h : s.Inv) (nowNs : Int) :
    s.WithinLimit (.doSend nowNs) ↔ s.CycleFits (.doSend nowNs) := by
  have hcycle : s.CycleFits (.doSend nowNs) ↔ _ :=
    @meets_iff_components SendState Nat (Option PublicationEntry) (SendState.pass nowNs)
      (fun st i => st.agent.publications[i]?) (fun st => st.agent.Inv) (PassFits nowNs)
      (fun _ before after => StaysWithin before after) (fun _ i hst => inv_pass hst i)
      (fun _ _ _ hst hj => SendState.pass_others hst.wired hj)
      (fun _ i hst => passFits_iff hst.wired i) s.beginSend ⟨h.wired, h.inRange⟩ s.passOrder
      s.nodup_passOrder
  rw [hcycle, ← withinLimit_doSend]
  simp only [mem_passOrder]
  refine forall₂_congr fun i hi => ?_
  have hdone : (s.doSend nowNs).agent.publications =
      (run (SendState.pass nowNs) s.beginSend s.passOrder).agent.publications := by
    rw [doSend, if_neg (List.ne_nil_of_length_pos (Nat.zero_lt_of_lt hi))]
    rfl
  rw [hdone]
  rfl

theorem inv_doSend {s : SenderAgent} (h : s.Inv) (nowNs : Int) : (s.doSend nowNs).agent.Inv := by
  unfold doSend
  split_ifs
  · exact h
  · have hrun : (run (SendState.pass nowNs) s.beginSend s.passOrder).agent.Inv := by
      have hbegin : s.beginSend.agent.Inv := ⟨h.wired, h.inRange⟩
      generalize s.beginSend = st at hbegin
      generalize s.passOrder = order
      induction order generalizing st with
      | nil => exact hbegin
      | cons i order ih => exact ih _ (inv_pass hbegin i)
    exact ⟨hrun.wired, hrun.inRange⟩

end SenderAgent

/-! ## Status messages and offers -/

theorem NetworkPublication.computePosition_bounds (p : NetworkPublication)
    (termId termOffset : BitVec 32) :
    -2 ^ 62 ≤ p.computePosition termId termOffset.toNat ∧
      p.computePosition termId termOffset.toNat < 2 ^ 62 + 2 ^ 32 := by
  have hlo := (termId - p.initialTermId).le_toInt
  have hhi := @BitVec.toInt_lt 32 (termId - p.initialTermId)
  have hterm : (p.termLength : Int) ≤ 2 ^ 31 := by exact_mod_cast p.rawLog.termLength_le
  have hoff := termOffset.isLt
  have hmul₁ : -2 ^ 31 * (p.termLength : Int) ≤
      (termId - p.initialTermId).toInt * p.termLength :=
    Int.mul_le_mul_of_nonneg_right hlo (Int.natCast_nonneg _)
  have hmul₂ : (termId - p.initialTermId).toInt * p.termLength ≤
      2 ^ 31 * (p.termLength : Int) :=
    Int.mul_le_mul_of_nonneg_right (Int.le_of_lt hhi) (Int.natCast_nonneg _)
  unfold computePosition
  omega

theorem PublicationEntry.onStatusMessage_publication (e : PublicationEntry) (sm : StatusMessage) :
    (e.onStatusMessage sm).publication = e.publication := by
  unfold onStatusMessage updateSenderLimitFromSm
  dsimp only
  split_ifs <;> rfl

def PublicationEntry.proposedLimit (e : PublicationEntry) (sm : StatusMessage) : Int :=
  e.publication.toNetwork.computePosition sm.consumptionTermId sm.consumptionTermOffset.toNat +
    sm.receiverWindow.toInt

theorem PublicationEntry.proposedLimit_bounds (e : PublicationEntry) (sm : StatusMessage) :
    -2 ^ 62 - 2 ^ 31 ≤ e.proposedLimit sm ∧ e.proposedLimit sm < 2 ^ 62 + 2 ^ 32 + 2 ^ 31 := by
  obtain ⟨hlo, hhi⟩ := e.publication.toNetwork.computePosition_bounds sm.consumptionTermId
    sm.consumptionTermOffset
  have hwlo := sm.receiverWindow.le_toInt
  have hwhi := @BitVec.toInt_lt 32 sm.receiverWindow
  unfold proposedLimit
  omega

theorem PublicationEntry.onStatusMessage_of_ids {sm : StatusMessage}
    (hids : e.sessionId = sm.sessionId ∧ e.streamId = sm.streamId) :
    (e.onStatusMessage sm).senderLimit =
      if 0 < wrapI64 (e.proposedLimit sm - e.senderLimit) ∧
          wrapI64 (e.proposedLimit sm - e.senderLimit) < 2 ^ 62 - 1 then e.proposedLimit sm
      else e.senderLimit := by
  obtain ⟨hlo, hhi⟩ := e.proposedLimit_bounds sm
  have hproposed : wrapI64 (e.proposedLimit sm) = e.proposedLimit sm :=
    wrapI64_of_range (by omega) (by omega)
  unfold onStatusMessage updateSenderLimitFromSm
  rw [if_pos hids]
  dsimp only
  rw [show e.publication.toNetwork.computePosition sm.consumptionTermId
    sm.consumptionTermOffset.toNat + sm.receiverWindow.toInt = e.proposedLimit sm from rfl, hproposed]
  split_ifs
  · rfl
  · rfl

/-- **A status message only moves the limit forward**, to the one that it proposes. -/
theorem PublicationEntry.onStatusMessage_senderLimit (h : e.InRange) (sm : StatusMessage) :
    (e.onStatusMessage sm).senderLimit = e.senderLimit ∨
      (e.onStatusMessage sm).senderLimit = e.proposedLimit sm ∧
        e.senderLimit < e.proposedLimit sm := by
  obtain ⟨-, h₂, h₃, -⟩ := h
  obtain ⟨hlo, hhi⟩ := e.proposedLimit_bounds sm
  by_cases hids : e.sessionId = sm.sessionId ∧ e.streamId = sm.streamId
  · rw [onStatusMessage_of_ids hids]
    split_ifs with hdiff
    · refine .inr ⟨rfl, ?_⟩
      -- a difference that wraps around is too large to count as an advance
      by_contra hle
      by_cases hwrap : -2 ^ 63 ≤ e.proposedLimit sm - e.senderLimit
      · rw [wrapI64_of_range hwrap (by omega)] at hdiff
        omega
      · have hshift : wrapI64 (e.proposedLimit sm - e.senderLimit) =
            e.proposedLimit sm - e.senderLimit + 2 ^ 64 := by
          unfold wrapI64
          rw [← Int.add_bmod_right]
          exact Int.bmod_eq_of_le (by norm_num; omega) (by norm_num; omega)
        rw [hshift] at hdiff
        omega
    · exact .inl rfl
  · rw [onStatusMessage, if_neg hids]
    exact .inl rfl

/-- **An applied status message is granted**, unless its limit is out of range. -/
theorem PublicationEntry.proposedLimit_le (h : e.InRange) {sm : StatusMessage}
    (hsession : e.sessionId = sm.sessionId) (hstream : e.streamId = sm.streamId)
    (hlo : 0 ≤ e.proposedLimit sm) (hhi : e.proposedLimit sm < 2 ^ 62 - 1) :
    e.proposedLimit sm ≤ (e.onStatusMessage sm).senderLimit := by
  obtain ⟨-, h₂, h₃, -⟩ := h
  rw [onStatusMessage_of_ids ⟨hsession, hstream⟩, wrapI64_of_range (by omega) (by omega)]
  split_ifs with hdiff
  · exact le_refl _
  · omega

theorem PublicationEntry.inRange_onStatusMessage (h : e.InRange) (sm : StatusMessage) :
    (e.onStatusMessage sm).InRange := by
  obtain ⟨-, hhi⟩ := e.proposedLimit_bounds sm
  have hlimit := onStatusMessage_senderLimit h sm
  obtain ⟨h₁, h₂, h₃, h₄⟩ := h
  have hposition : (e.onStatusMessage sm).senderPosition = e.senderPosition := by
    unfold senderPosition
    rw [e.onStatusMessage_publication sm]
  exact ⟨by omega, by omega, by omega, by omega⟩

theorem NetworkPublication.offer_senderPosition (p : NetworkPublication) (payload : List UInt8) :
    (p.offer payload).1.senderPosition = p.senderPosition := by
  rcases p.offer_cases payload with ⟨-, heq, -⟩ | ⟨-, -, heq⟩ | ⟨-, heq⟩
  · rw [heq]
  · rw [heq]
    rfl
  · rw [heq]
    rfl

theorem PublicationEntry.onStatusMessage_endpointIdx (e : PublicationEntry) (sm : StatusMessage) :
    (e.onStatusMessage sm).endpointIdx = e.endpointIdx := by
  unfold onStatusMessage updateSenderLimitFromSm
  dsimp only
  split_ifs <;> rfl

namespace SenderAgent

/-- **Step.** Every action keeps the invariant. -/
theorem inv_step {s : SenderAgent} (h : s.Inv) (a : SenderAction) : (s.step a).Inv := by
  cases a with
  | offer pubIdx payload =>
      -- an entry afterwards is an old one, or an old one with the offer made
      have hentry : ∀ e' ∈ (s.step (.offer pubIdx payload)).publications, ∃ e ∈ s.publications,
          e' = e ∨ e' = { e with publication := (e.publication.offer payload).1 } := by
        intro e' he'
        obtain ⟨j, hj⟩ := List.mem_iff_getElem?.mp he'
        simp only [step, modifyPublication, List.getElem?_modify, Option.map_eq_map,
          Option.map_eq_some_iff] at hj
        obtain ⟨e, he, rfl⟩ := hj
        refine ⟨e, List.mem_of_getElem? he, ?_⟩
        split_ifs
        · exact .inr rfl
        · exact .inl rfl
      constructor
      · intro e' he'
        obtain ⟨e, he, rfl | rfl⟩ := hentry e' he'
        · exact h.wired e' he
        · exact h.wired e he
      · intro e' he'
        obtain ⟨e, he, rfl | rfl⟩ := hentry e' he'
        · exact h.inRange e' he
        · obtain ⟨h₁, h₂, h₃, h₄⟩ := h.inRange e he
          have hsame : (e.publication.offer payload).1.toNetwork.senderPosition =
              e.senderPosition := by
            have hoffer := congrArg (fun r => r.1.senderPosition)
              (e.publication.toNetwork_offer payload)
            exact hoffer.trans (NetworkPublication.offer_senderPosition _ payload)
          refine ⟨?_, h₂, h₃, ?_⟩
          · rw [PublicationEntry.senderPosition, hsame]
            exact h₁
          · rw [PublicationEntry.senderPosition, hsame]
            exact h₄
  | statusMessage sm =>
      constructor
      · intro e' he'
        obtain ⟨e, he, rfl⟩ := List.mem_map.mp he'
        rw [PublicationEntry.onStatusMessage_endpointIdx]
        exact h.wired e he
      · intro e' he'
        obtain ⟨e, he, rfl⟩ := List.mem_map.mp he'
        exact PublicationEntry.inRange_onStatusMessage (h.inRange e he) sm
  | doSend nowNs => exact inv_doSend h nowNs
  | poller p => exact ⟨h.wired, h.inRange⟩

/-- **The sender stays within the receiver's window exactly when every pass does**: in every run of
offers, status messages and cycles, from any agent with new publications. -/
theorem withinLimit_iff {s : SenderAgent} (h : s.Initial) (as : List SenderAction) :
    Meets WithinLimit step s as ↔ Meets CycleFits step s as := by
  have hinv := h.inv
  clear h
  induction as generalizing s with
  | nil => simp
  | cons a as ih =>
      rw [meets_cons, meets_cons]
      refine and_congr ?_ (ih (inv_step hinv a))
      cases a with
      | doSend nowNs => exact withinLimit_doSend_iff hinv nowNs
      | _ => exact Iff.rfl

/-- An agent with one new publication of term length 128 and eight send slots. -/
def oneNewPublication : SenderAgent where
  poller := ⟨8, [], [], 0, ⟨0, 2048, fun _ => 0, 0, 0, fun _ => []⟩, .new 8,
    [⟨3, 3, 0, 0, true, true⟩]⟩
  endpoints := [⟨some 0, fun _ => []⟩]
  publications := [.new ((Publication.create false 7 1 5 128 1408).get rfl) 0]
  roundRobinIndex := 0
  heartbeatIntervalNs := 100
  rttmIntervalNs := 100

theorem oneNewPublication_initial : oneNewPublication.Initial := by
  refine ⟨by simp [Wired, oneNewPublication, PublicationEntry.new], ?_, ?_⟩
  · intro e he
    obtain rfl := List.mem_singleton.mp he
    exact ⟨false, 7, 1, 5, 128, 1408, (Option.some_get rfl).symm⟩
  · intro e he
    obtain rfl := List.mem_singleton.mp he
    rfl

/-- Two frames of 64 bytes fill the first term and are sent; in the second term a frame of 32 and a
frame of 64 bytes follow, and a status message for the first term arrives with the given window. -/
def secondTermWithWindow (window : BitVec 32) : List SenderAction :=
  [.offer 0 (List.replicate 32 1), .offer 0 (List.replicate 32 2), .doSend 1, .offer 0 [],
    .offer 0 [], .offer 0 (List.replicate 32 3),
    .statusMessage ⟨⟨36, 0, 0, frameTypeSm⟩, 7, 1, 5, 128, window, 0⟩, .doSend 2]

/-- A window that ends with a frame is kept. -/
theorem withinLimit_frame_boundary :
    Meets WithinLimit step oneNewPublication (secondTermWithWindow 96) :=
  (withinLimit_iff oneNewPublication_initial (secondTermWithWindow 96)).mpr (by decide +kernel)

/-- **Sending beyond the window.** With a window of 64 bytes, half a term, the limit is 192; the frame
from 160 to 224 starts before it and is sent. -/
theorem frame_sent_beyond_limit :
    ¬ Meets WithinLimit step oneNewPublication (secondTermWithWindow 64) ∧
      (run step oneNewPublication (secondTermWithWindow 64)).publications.map (fun e =>
        (e.senderPosition, e.senderLimit)) = [(224, 192)] := by
  decide +kernel

end SenderAgent

end AeronRs
