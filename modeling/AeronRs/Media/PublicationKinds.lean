import AeronRs.Media.PublicationRun

/-! # Both kinds of publication are one

`network_publication.rs` and `concurrent_publication.rs` implement the same publication twice, the
one with safe slices and the append routine of the raw log, the other with raw pointers, a commit by
the length word and its own scan loops. Runs of the same calls on both return the same results and
leave the same state (`kinds_agree`): the relation that the calls keep is that the pair, seen as a
local publication, is the local one. -/

namespace AeronRs

open Runs

/-- What a call returns: the result of an offer, or the frames that a scan emits and its bytes. -/
inductive PubResult
  | offered (result : Except OfferError Int)
  | scanned (frames : List (Nat × List UInt8)) (bytes : Nat)

def NetworkPublication.call (p : NetworkPublication) : PubAction → NetworkPublication × PubResult
  | .offer payload => ((p.offer payload).1, .offered (p.offer payload).2)
  | .scan limit =>
      ((p.senderScan limit).1, .scanned (p.senderScan limit).2.1 (p.senderScan limit).2.2)

/-- A call on the cross-thread publication, by the handle that it belongs to. -/
def PublicationPair.call (c : PublicationPair) : PubAction → PublicationPair × PubResult
  | .offer payload => ((c.offer payload).1, .offered (c.offer payload).2)
  | .scan limit =>
      ((c.senderScan limit).1, .scanned (c.senderScan limit).2.1 (c.senderScan limit).2.2)

/-- **Step.** A call on the pair is the call on the local publication that it stands for. -/
theorem PublicationPair.toNetwork_call (c : PublicationPair) (a : PubAction) :
    (c.toNetwork.call a).2 = (c.call a).2 ∧ (c.toNetwork.call a).1 = (c.call a).1.toNetwork := by
  cases a with
  | offer payload =>
      have hoffer := c.toNetwork_offer payload
      exact ⟨congrArg PubResult.offered (congrArg Prod.snd hoffer).symm,
        (congrArg Prod.fst hoffer).symm⟩
  | scan limit =>
      have hscan := c.toNetwork_senderScan limit
      have hread : (c.toNetwork.senderScan limit).2 = (c.senderScan limit).2 :=
        (congrArg Prod.snd hscan).symm
      refine ⟨?_, (congrArg Prod.fst hscan).symm⟩
      change PubResult.scanned _ _ = _
      rw [hread]
      rfl

/-- Both constructors accept the same arguments, and make the same publication. -/
theorem newConcurrent_toNetwork (sessionId streamId initialTermId : BitVec 32)
    (termLength mtu : Nat) :
    (newConcurrent sessionId streamId initialTermId termLength mtu).map PublicationPair.toNetwork =
      NetworkPublication.new sessionId streamId initialTermId termLength mtu := by
  unfold newConcurrent NetworkPublication.new
  split_ifs
  · rfl
  · rw [Option.map_map]
    rfl

/-- **The views of both kinds agree**: positions, cursor and log, and what a scan reads at every place
of the log. -/
structure SameView (p : NetworkPublication) (c : PublicationPair) : Prop where
  pubPosition : p.pubPosition = c.publisher.pubPositionLocal
  senderPosition : p.senderPosition = c.sender.senderPositionLocal
  activeTermId : p.activeTermId = c.publisher.activeTermId
  termOffset : p.termOffset = c.publisher.termOffset
  log : p.rawLog = c.inner.log
  scans : ∀ partitionIdx offset limit, p.rawLog.scanFrames partitionIdx offset limit =
    SenderPublication.scanTermAt c.inner partitionIdx offset limit

theorem PublicationPair.sameView_toNetwork (c : PublicationPair) : SameView c.toNetwork c :=
  ⟨c.pub_sync, c.sender_sync, rfl, rfl, rfl, fun partitionIdx offset limit =>
    (SenderPublication.scanTermAt_eq c.inner partitionIdx offset limit).symm⟩

/-- **The local and the cross-thread publication are the same publication**: one is created exactly
when the other is, and after every sequence of calls they have returned the same results and agree in
everything that can be observed. -/
theorem kinds_agree (sessionId streamId initialTermId : BitVec 32) (termLength mtu : Nat) :
    (NetworkPublication.new sessionId streamId initialTermId termLength mtu).isSome =
        (newConcurrent sessionId streamId initialTermId termLength mtu).isSome ∧
      ∀ p ∈ NetworkPublication.new sessionId streamId initialTermId termLength mtu,
        ∀ c ∈ newConcurrent sessionId streamId initialTermId termLength mtu,
        ∀ calls : List PubAction,
          results NetworkPublication.call p calls = results PublicationPair.call c calls ∧
            SameView (runCalls NetworkPublication.call p calls)
              (runCalls PublicationPair.call c calls) := by
  have hnew := newConcurrent_toNetwork sessionId streamId initialTermId termLength mtu
  refine ⟨?_, fun p hp c hc calls => ?_⟩
  · rw [← hnew, Option.isSome_map]
  · -- the pair stands for the local publication, and every call keeps that
    have hstart : c.toNetwork = p := by
      have hc' : newConcurrent sessionId streamId initialTermId termLength mtu = some c := hc
      rw [hc', Option.map_some] at hnew
      exact Option.some.inj (hnew.trans hp)
    obtain ⟨hresults, hend⟩ := @results_eq_of_bisimulation _ _ _ _ NetworkPublication.call
      PublicationPair.call (fun p c => c.toNetwork = p)
      (fun p c a h => by
        subst h
        exact ⟨(c.toNetwork_call a).1, (c.toNetwork_call a).2.symm⟩) p c hstart calls
    refine ⟨hresults, ?_⟩
    rw [← hend]
    exact PublicationPair.sameView_toNetwork _

/-- A run that rotates: the second frame does not fit the first term, and the pad is scanned. -/
theorem kinds_agree_rotating :
    let calls : List PubAction := [.offer (List.replicate 64 1), .offer (List.replicate 96 2),
      .offer (List.replicate 96 2), .scan 4096, .scan 64]
    let p := (NetworkPublication.new 7 1 5 128 1408).get rfl
    let c := (newConcurrent 7 1 5 128 1408).get rfl
    results NetworkPublication.call p calls = results PublicationPair.call c calls ∧
      SameView (runCalls NetworkPublication.call p calls) (runCalls PublicationPair.call c calls) :=
  (kinds_agree 7 1 5 128 1408).2 _ (Option.some_get _).symm _ (Option.some_get _).symm _

end AeronRs
