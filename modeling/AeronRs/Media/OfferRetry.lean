import AeronRs.Media.PublicationRun

/-! # Retrying after an admin action

An offer that does not fit the active term rotates and reports an admin action, and the
documentation of `offer` asks the caller to retry immediately. The retry starts at offset zero of a
clean term, with both positions as they were, so it passes the two guards again and all that can stop
it is the size of its frame. The constructors bound a frame by the `mtu` and not by the term length:
a frame longer than a term rotates at every attempt.

`admin_action_retry_iff` says for which payloads one retry is enough in every reachable state. -/

namespace AeronRs

open Runs

namespace NetworkPublication

@[simp] theorem padAndRotate_termOffset (p : NetworkPublication) : p.padAndRotate.termOffset = 0 :=
  rfl

/-- A rotation moves neither position, so what passed the guards passes them again. -/
theorem padAndRotate_admits (p : NetworkPublication) (payload : List UInt8) :
    p.padAndRotate.Admits payload ↔ p.Admits payload := by
  unfold Admits
  rw [padAndRotate_termLength]
  rfl

/-- **The offer after a rotation** starts at the beginning of a term: it rotates again exactly when
its frame is longer than a term. -/
theorem padAndRotate_rotates {p : NetworkPublication} {payload : List UInt8}
    (h : p.Rotates payload) :
    p.padAndRotate.Rotates payload ↔
      p.termLength < alignFrameLength (32 + payload.length) % 2 ^ 32 := by
  have hadmits := (p.padAndRotate_admits payload).mpr h.1
  unfold Rotates offsetAfter
  rw [padAndRotate_termOffset, padAndRotate_termLength, Nat.zero_add]
  exact and_iff_right hadmits

theorem offer_eq_adminAction_iff (p : NetworkPublication) (payload : List UInt8) :
    (p.offer payload).2 = .error .adminAction ↔ p.Rotates payload := by
  constructor
  · intro hadmin
    by_contra hrot
    by_cases hadmits : p.Admits payload
    · rw [offer_of_fits hadmits hrot] at hadmin
      cases hadmin
    · -- a guard has stopped the offer, with an error of its own
      unfold offer at hadmin
      by_cases hlen : p.maxPayloadLength < payload.length
      · rw [if_pos hlen] at hadmin
        cases hadmin
      · rw [if_neg hlen, if_pos (not_lt.mp fun hbp => hadmits ⟨not_lt.mp hlen, hbp⟩)] at hadmin
        cases hadmin
  · intro hrot
    rw [offer_of_rotates hrot]

theorem offer_termLength (p : NetworkPublication) (payload : List UInt8) :
    (p.offer payload).1.termLength = p.termLength := by
  rcases p.offer_cases payload with ⟨-, heq, -⟩ | ⟨-, -, heq⟩ | ⟨-, heq⟩
  · rw [heq]
  · rw [heq, append_termLength]
  · rw [heq, padAndRotate_termLength]

end NetworkPublication

namespace PubRun

theorem run_termLength (s : PubRun) (as : List PubAction) :
    (run step s as).network.termLength = s.network.termLength := by
  induction as generalizing s with
  | nil => rfl
  | cons a as ih =>
      rw [run_cons, ih]
      cases a with
      | offer payload => rw [(s.step_offer payload).1, s.network.offer_termLength]
      | scan limit => rw [(s.step_scan limit).1]; rfl

end PubRun

namespace Publication

/-- **One retry is enough.** If an offer of the payload reports an admin action, the next offer of it
is accepted. -/
def RetrySucceeds (p : Publication) (payload : List UInt8) : Prop :=
  (p.offer payload).2 = .error .adminAction →
    ∃ position, ((p.offer payload).1.offer payload).2 = .ok position

/-- The caller that the documentation asks for: it offers the payload, and offers it again while it is
told that the term rotated, at most so many times. -/
def offerRetrying : Nat → Publication → List UInt8 → Publication × Except OfferError Int
  | 0, p, payload => p.offer payload
  | retries + 1, p, payload =>
      match p.offer payload with
      | (p', .error .adminAction) => offerRetrying retries p' payload
      | result => result

/-- A retrying caller continues from the rotated publication. -/
theorem offerRetrying_of_adminAction {p : Publication} {payload : List UInt8} (retries : Nat)
    (h : (p.offer payload).2 = .error .adminAction) :
    offerRetrying (retries + 1) p payload = offerRetrying retries (p.offer payload).1 payload := by
  rw [offerRetrying]
  split
  · rename_i p' heq
    rw [heq]
  · rename_i hne
    exact (hne (p.offer payload).1 (Prod.ext rfl h)).elim

theorem offerRetrying_of_ne {p : Publication} {payload : List UInt8} (retries : Nat)
    (h : (p.offer payload).2 ≠ .error .adminAction) :
    offerRetrying retries p payload = p.offer payload := by
  cases retries with
  | zero => rfl
  | succ retries =>
      rw [offerRetrying]
      split
      · rename_i p' heq
        exact absurd (congrArg Prod.snd heq) h
      · rfl

theorem offer_result (p : Publication) (payload : List UInt8) :
    (p.offer payload).2 = (p.toNetwork.offer payload).2 :=
  congrArg Prod.snd (p.toNetwork_offer payload)

theorem offer_toNetwork (p : Publication) (payload : List UInt8) :
    (p.offer payload).1.toNetwork = (p.toNetwork.offer payload).1 :=
  congrArg Prod.fst (p.toNetwork_offer payload)

theorem offer_eq_adminAction_iff (p : Publication) (payload : List UInt8) :
    (p.offer payload).2 = .error .adminAction ↔ p.toNetwork.Rotates payload := by
  rw [offer_result, NetworkPublication.offer_eq_adminAction_iff]

theorem offer_toNetwork_of_rotates {p : Publication} {payload : List UInt8}
    (h : p.toNetwork.Rotates payload) :
    (p.offer payload).1.toNetwork = p.toNetwork.padAndRotate := by
  rw [offer_toNetwork, NetworkPublication.offer_of_rotates h]

/-- A frame that a term can hold is accepted at the beginning of the next term. -/
theorem retrySucceeds_of_le {p : Publication} {payload : List UInt8}
    (hfits : alignFrameLength (32 + payload.length) % 2 ^ 32 ≤ p.toNetwork.termLength) :
    p.RetrySucceeds payload := by
  intro hadmin
  have hrot := (p.offer_eq_adminAction_iff payload).mp hadmin
  have hagain : ¬ p.toNetwork.padAndRotate.Rotates payload := by
    rw [NetworkPublication.padAndRotate_rotates hrot]
    omega
  have hadmits := (p.toNetwork.padAndRotate_admits payload).mpr hrot.1
  refine ⟨(p.toNetwork.padAndRotate.append payload).pubPosition, ?_⟩
  rw [offer_result, offer_toNetwork_of_rotates hrot,
    NetworkPublication.offer_of_fits hadmits hagain]

/-- A caller that retries at all ends with something else than an admin action. -/
theorem offerRetrying_ne_adminAction {p : Publication} {payload : List UInt8}
    (h : p.RetrySucceeds payload) (retries : Nat) :
    (offerRetrying (retries + 1) p payload).2 ≠ .error .adminAction := by
  by_cases hadmin : (p.offer payload).2 = .error .adminAction
  · obtain ⟨position, hok⟩ := h hadmin
    have hne : ((p.offer payload).1.offer payload).2 ≠ .error .adminAction := by
      rw [hok]
      nofun
    rwa [offerRetrying_of_adminAction retries hadmin, offerRetrying_of_ne retries hne]
  · rwa [offerRetrying_of_ne _ hadmin]

/-- **A frame longer than a term is never published.** Once it rotates the term, every retry rotates
the next one, however often the caller retries: the published position stays and the active term
moves on. -/
theorem offerRetrying_of_lt {p : Publication} {payload : List UInt8}
    (hrot : p.toNetwork.Rotates payload)
    (hlong : p.toNetwork.termLength < alignFrameLength (32 + payload.length) % 2 ^ 32)
    (retries : Nat) :
    (offerRetrying retries p payload).2 = .error .adminAction ∧
      (offerRetrying retries p payload).1.toNetwork.pubPosition = p.toNetwork.pubPosition ∧
      (offerRetrying retries p payload).1.toNetwork.activeTermId =
        p.toNetwork.activeTermId + BitVec.ofNat 32 (retries + 1) := by
  have hadmin := (p.offer_eq_adminAction_iff payload).mpr hrot
  have hnext := offer_toNetwork_of_rotates hrot
  induction retries generalizing p with
  | zero =>
      refine ⟨hadmin, ?_, ?_⟩
      · rw [offerRetrying, hnext]
        rfl
      · rw [offerRetrying, hnext]
        rfl
  | succ retries ih =>
      -- the rotated publication rotates again, and the claim holds of it
      have hrot' : (p.offer payload).1.toNetwork.Rotates payload := by
        rw [hnext, NetworkPublication.padAndRotate_rotates hrot]
        exact hlong
      have hlong' : (p.offer payload).1.toNetwork.termLength <
          alignFrameLength (32 + payload.length) % 2 ^ 32 := by
        rw [hnext, NetworkPublication.padAndRotate_termLength]
        exact hlong
      obtain ⟨hresult, hpub, hterm⟩ := ih hrot' hlong'
        ((offer_eq_adminAction_iff _ payload).mpr hrot') (offer_toNetwork_of_rotates hrot')
      rw [offerRetrying_of_adminAction retries hadmin]
      refine ⟨hresult, ?_, ?_⟩
      · rw [hpub, hnext]
        rfl
      · have hactive : p.toNetwork.padAndRotate.activeTermId = p.toNetwork.activeTermId + 1 := rfl
        rw [hterm, hnext, hactive, BitVec.add_assoc, BitVec.ofNat_add (retries + 1) 1]
        exact congrArg (p.toNetwork.activeTermId + ·) (BitVec.add_comm _ _)

end Publication

/-- A new publication admits every payload of the permitted size. -/
theorem NetworkPublication.admits_new {sessionId streamId initialTermId : BitVec 32}
    {termLength mtu : Nat} {p : NetworkPublication}
    (h : NetworkPublication.new sessionId streamId initialTermId termLength mtu = some p)
    (payload : List UInt8) (hsize : payload.length ≤ mtu - dataHeaderLength) :
    p.termLength = termLength ∧ p.termOffset = 0 ∧ p.Admits payload := by
  have hpos := p.rawLog.termLength_pos
  unfold NetworkPublication.new RawLog.new at h
  split_ifs at h
  · obtain rfl := Option.some.inj h
    refine ⟨rfl, rfl, hsize, ?_⟩
    have hzero : wrapI64 (0 - 0) = 0 := by decide
    have hcount : (partitionCount : Int) - 1 = 3 := by decide
    dsimp only [NetworkPublication.termLength] at hpos ⊢
    rw [hzero, hcount]
    omega
  · simp at h

/-- **One retry is enough exactly for frames that a term can hold.** For every publication that `new`
or `new_concurrent` accepts and every payload of at most `mtu - 32` bytes: in all states that offers
and scans reach, an offer that returns an admin action is accepted when it is made again, and no
caller that retries is left with an admin action, if and only if the aligned frame of the payload (as
32-bit length) is at most a term long. -/
theorem admin_action_retry_iff {crossThread : Bool} {sessionId streamId initialTermId : BitVec 32}
    {termLength mtu : Nat} {p : Publication}
    (hp : Publication.create crossThread sessionId streamId initialTermId termLength mtu = some p)
    {payload : List UInt8} (hsize : payload.length ≤ mtu - dataHeaderLength) :
    (∀ as, (run PubRun.step (PubRun.start p) as).publication.RetrySucceeds payload ∧
        ∀ retries, (Publication.offerRetrying (retries + 1)
          (run PubRun.step (PubRun.start p) as).publication payload).2 ≠ .error .adminAction) ↔
      alignFrameLength (32 + payload.length) % 2 ^ 32 ≤ termLength := by
  obtain ⟨hlength, hoffset, hadmits⟩ :=
    NetworkPublication.admits_new (Publication.toNetwork_create hp) payload hsize
  constructor
  · intro hall
    by_contra hlong
    have hrot : p.toNetwork.Rotates payload := by
      refine ⟨hadmits, ?_⟩
      rw [NetworkPublication.offsetAfter, hoffset, hlength, Nat.zero_add]
      omega
    have hstuck := Publication.offerRetrying_of_lt hrot (by rw [hlength]; omega) 1
    exact (hall []).2 0 hstuck.1
  · intro hfits as
    have hrun : (run PubRun.step (PubRun.start p) as).publication.RetrySucceeds payload := by
      apply Publication.retrySucceeds_of_le
      have hsame := PubRun.run_termLength (PubRun.start p) as
      rw [PubRun.network] at hsame
      rw [hsame]
      exact hfits.trans hlength.ge
    exact ⟨hrun, Publication.offerRetrying_ne_adminAction hrun⟩

/-- A payload of 32 bytes fills a term of 64 bytes. Here it finds the term half full. -/
theorem admin_action_retry_fits :
    ∃ p, Publication.create true 1 10 0 64 1408 = some p ∧
      (run PubRun.step (PubRun.start p) [.offer []]).publication.RetrySucceeds
        (List.replicate 32 7) := by
  obtain ⟨p, hp⟩ := Option.isSome_iff_exists.mp
    (show (Publication.create true 1 10 0 64 1408).isSome = true by decide +kernel)
  exact ⟨p, hp, (((admin_action_retry_iff hp (by decide)).mpr (by decide)) [.offer []]).1⟩

/-- **A payload that the size check permits is never published.** With terms of 64 bytes and the
default `mtu`, 100 bytes rotate the first term of a new publication, and the retry rotates the
next. -/
theorem admin_action_retry_rotates :
    ∃ p, Publication.create true 1 10 0 64 1408 = some p ∧
      (p.offer (List.replicate 100 7)).2 = .error .adminAction ∧
      ((p.offer (List.replicate 100 7)).1.offer (List.replicate 100 7)).2 =
        .error .adminAction ∧
      ¬ p.RetrySucceeds (List.replicate 100 7) := by
  obtain ⟨p, hp⟩ := Option.isSome_iff_exists.mp
    (show (Publication.create true 1 10 0 64 1408).isSome = true by decide +kernel)
  obtain ⟨hlength, hoffset, hadmits⟩ := NetworkPublication.admits_new
    (Publication.toNetwork_create hp) (List.replicate 100 7) (by decide)
  have hrot : p.toNetwork.Rotates (List.replicate 100 7) := by
    refine ⟨hadmits, ?_⟩
    rw [NetworkPublication.offsetAfter, hoffset, hlength]
    decide
  have hfirst := (p.offer_eq_adminAction_iff _).mpr hrot
  have hagain := (Publication.offerRetrying_of_lt hrot (by rw [hlength]; decide) 1).1
  rw [Publication.offerRetrying_of_adminAction 0 hfirst, Publication.offerRetrying] at hagain
  refine ⟨p, hp, hfirst, hagain, fun hretry => ?_⟩
  obtain ⟨position, hok⟩ := hretry hfirst
  rw [hagain] at hok
  cases hok

end AeronRs
