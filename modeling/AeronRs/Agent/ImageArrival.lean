import AeronRs.Agent.ImageDelivery

/-! # Arrival without loss

If the frames of a stream arrive in order and none is lost, every one is accepted, and a subscriber
that goes on polling is given all of them (`delivered_all`): a poll moves on as long as something
beyond its position has been received. -/

namespace AeronRs

open Runs

namespace ImageRun

variable {ids : StreamIds}

/-- The frames that arrive in a run, in order. -/
def arrivals {T : Nat} (as : List (ImageAction T)) : List (StreamFrame T) :=
  as.filterMap fun
    | .data _ f => some f
    | .poll _ => none

@[simp] theorem arrivals_data {T : Nat} (handler : InlineHandler) (f : StreamFrame T)
    (as : List (ImageAction T)) : arrivals (.data handler f :: as) = f :: arrivals as := rfl

/-- The condition on a receiver and a subscriber: the receiver stays within three terms of the
subscriber, and no poll finds a frame of four terms ago. -/
def Paced (s : ImageRun ids) (a : ImageAction ids.termLength) : Prop :=
  s.WithinThreeTerms a ∧ s.PollsCommitted a

instance (s : ImageRun ids) (a : ImageAction ids.termLength) : Decidable (s.Paced a) :=
  inferInstanceAs (Decidable (_ ∧ _))

section Arrival

variable {stream : HonestStream ids.termLength} {first A sub recv : Nat} {s : ImageRun ids}
  {ds : List (StreamFrame ids.termLength)}

theorem Delivers.accepts (h : s.Delivers stream first A sub recv ds) {handler : InlineHandler}
    {f : StreamFrame ids.termLength} (hwithin : s.WithinThreeTerms (.data handler f))
    (hafter : recv ≤ f.start) : Accepts A f.term := by
  have hT := h.keeps.holds.termLength_pos
  have hactive : A ≤ f.term :=
    (Nat.le_div_iff_mul_le hT).mpr (Nat.le_trans h.recv_ge hafter)
  have hsub : sub / ids.termLength ≤ A + 1 := by
    have hle := Nat.div_le_div_right (c := ids.termLength) (Nat.le_trans h.sub_le h.recv_le)
    rwa [Nat.mul_div_cancel _ hT] at hle
  refine ⟨by omega, ?_⟩
  rcases hwithin with hle | hle
  · rw [h.keeps.activeTerm_eq] at hle
    omega
  · rw [h.subscriber] at hle
    have : f.term ≤ sub / ids.termLength + 3 := by exact_mod_cast hle
    omega

/-- **Frames that arrive in order are all accepted.** -/
theorem Delivers.arrive (h : s.Delivers stream first A sub recv ds)
    (hordered : s.Ordered first sub ds) {as : List (ImageAction ids.termLength)}
    (hstream : ∀ f ∈ arrivals as, f ∈ stream.frames ∧ f.term < 2 ^ 31)
    (hsorted : (arrivals as).Pairwise fun a b => a.stop ≤ b.start)
    (hafter : ∀ f ∈ arrivals as, recv ≤ f.start) (hpaced : Meets Paced ImageRun.step s as) :
    ∃ A' sub' recv' ds', (run ImageRun.step s as).Delivers stream first A' sub' recv' ds' ∧
      (run ImageRun.step s as).Ordered first sub' ds' ∧
      (run ImageRun.step s as).accepted.reverse = s.accepted.reverse ++ arrivals as := by
  -- the receiver's position is the bound that keeps later arrivals behind what was received
  induction as generalizing s A sub recv ds with
  | nil => exact ⟨A, sub, recv, ds, h, hordered, by simp [arrivals]⟩
  | cons a as ih =>
      obtain ⟨⟨hwithin, hcommitted⟩, hrest⟩ := hpaced
      cases a with
      | data handler f =>
          rw [arrivals_data] at hstream hsorted hafter ⊢
          obtain ⟨hfirst, hothers⟩ := List.forall_mem_cons.mp hstream
          obtain ⟨hbefore, htail⟩ := List.pairwise_cons.mp hsorted
          have hstart : recv ≤ f.start := hafter f List.mem_cons_self
          have haccepted : (s.step (.data handler f)).accepted = f :: s.accepted :=
            if_pos ((h.keeps.holds.stores_iff hfirst.2 handler).mpr (h.accepts hwithin hstart))
          obtain ⟨A', recv', hnext, hrecv⟩ := h.data hfirst hwithin
          have hstop : recv' ≤ f.stop := by
            have := f.start_lt_stop
            rcases hrecv with ⟨-, heq⟩ | ⟨-, heq⟩ <;> omega
          have hordered' := hordered.data haccepted h.stop_le h.first_le h.sub_le hstart
          obtain ⟨A'', sub'', recv'', ds'', hreached, horder, hall⟩ := ih hnext hordered' hothers
            htail (fun g hg => Nat.le_trans hstop (hbefore g hg)) hrest
          refine ⟨A'', sub'', recv'', ds'', hreached, horder, ?_⟩
          rw [run_cons, hall, haccepted, List.reverse_cons, List.append_assoc]
          rfl
      | poll limit =>
          obtain ⟨ds', sub', hnext, hway, -⟩ := h.poll hcommitted
          have hordered' : (s.step (.poll limit)).Ordered first sub' (ds ++ ds') :=
            ⟨hordered.scan.trans hway, hordered.sorted, hordered.first_le⟩
          exact ih hnext hordered' hstream hsorted hafter hrest

/-- **A subscriber catches up** by polling. -/
theorem Delivers.catchUp (h : s.Delivers stream first A sub recv ds)
    (hordered : s.Ordered first sub ds) :
    ∃ n ds', (run ImageRun.step s (List.replicate n (.poll 1))).Delivers stream first A recv recv ds' ∧
      (run ImageRun.step s (List.replicate n (.poll 1))).Ordered first recv ds' ∧
      (run ImageRun.step s (List.replicate n (.poll 1))).accepted = s.accepted := by
  -- by induction on the distance, which every poll shortens
  generalize hdistance : recv - sub = distance
  induction distance using Nat.strong_induction_on generalizing s sub ds with
  | _ distance ih =>
      have hle := h.sub_le
      by_cases hend : sub = recv
      · subst hend
        exact ⟨0, ds, h, hordered, rfl⟩
      · have hterm : sub / ids.termLength ≤ A := by
          have hlt : sub < (A + 1) * ids.termLength :=
            Nat.lt_of_lt_of_le (by omega) h.recv_le
          exact Nat.le_of_lt_succ ((Nat.div_lt_iff_lt_mul h.keeps.holds.termLength_pos).mpr hlt)
        have hcommitted : s.PollsCommitted (.poll 1) := by
          refine .inl ?_
          rw [h.subscriber, h.keeps.activeTerm_eq]
          exact_mod_cast hterm
        obtain ⟨ds', sub', hnext, hway, hprogress⟩ := h.poll hcommitted
        have hforward := hprogress (by decide) (by omega)
        have hle' := hnext.sub_le
        obtain ⟨n, ds'', hreached, horder, haccepted⟩ := ih (recv - sub') (by omega) hnext
          ⟨hordered.scan.trans hway, hordered.sorted, hordered.first_le⟩ rfl
        exact ⟨n + 1, ds'', hreached, horder, haccepted⟩

/-- A subscriber that has caught up was given every accepted frame. -/
theorem Ordered.complete (hordered : s.Ordered first sub ds)
    (hstop : ∀ g ∈ s.accepted, g.stop ≤ sub) (hapart : FramesApart s.accepted) :
    ds = s.accepted.reverse := by
  obtain ⟨rest, hsplit⟩ := hordered.isPrefix
  cases rest with
  | nil => rw [← hsplit, List.append_nil]
  | cons g rest =>
      -- a frame left over would be among those delivered, and before itself
      have hmem : g ∈ s.accepted := by
        rw [← List.mem_reverse, ← hsplit]
        exact List.mem_append_right _ List.mem_cons_self
      have hlt := g.start_lt_stop
      have hstop' := hstop g hmem
      have hread : g ∈ ds := hordered.scan.complete hapart StreamFrame.start_lt_stop hmem
        (hordered.first_le g hmem) (by omega)
      have hsorted := hordered.sorted
      rw [← hsplit, List.pairwise_append] at hsorted
      have := hsorted.2.2 g hread g List.mem_cons_self
      omega

end Arrival

/-- **No frame is lost**: frames of a stream that arrive in order from the position of the setup
frame on, at an image that this setup frame has created, are all delivered once the subscriber has
polled often enough. -/
theorem delivered_all {handler : InlineHandler} {setup : SetupHeader} {source : SockAddr}
    {s : ImageState} (hsetup : ImageState.onSetup handler setup source = some s)
    (hactive : setup.activeTerm < 2 ^ 31) (hoffset : setup.termOffset.toNat ≤ setup.ids.termLength)
    (haligned : 32 ∣ setup.termOffset.toNat) {as : List (ImageAction setup.ids.termLength)}
    (hterm : ∀ f ∈ arrivals as, f.term < 2 ^ 31)
    (hsorted : (arrivals as).Pairwise fun a b => a.stop ≤ b.start)
    (hafter : ∀ f ∈ arrivals as, setup.position ≤ f.start)
    (hpaced : Meets Paced step (start setup.ids s) as) :
    ∃ n, (run step (start setup.ids s) (as ++ List.replicate n (.poll 1))).delivered =
      (arrivals as).map (StreamFrame.fragment setup.ids) := by
  have hboundary : FrameBoundary (HonestStream.ofSorted (arrivals as) hsorted).frames
      setup.position := fun f hf => .inr (hafter f hf)
  obtain ⟨hstart, hordered⟩ := delivers_onSetup hsetup hactive hoffset haligned hboundary
  obtain ⟨A, sub, recv, ds, hreached, horder, haccepted⟩ :=
    hstart.arrive hordered (fun f hf => ⟨hf, hterm f hf⟩) hsorted hafter hpaced
  obtain ⟨n, ds', hend, horder', haccepted'⟩ := hreached.catchUp horder
  refine ⟨n, ?_⟩
  rw [run_append, hend.delivered, horder'.complete hend.stop_le hend.apart, haccepted', haccepted]
  rfl

end ImageRun

end AeronRs
