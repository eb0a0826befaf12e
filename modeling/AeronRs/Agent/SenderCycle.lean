import AeronRs.Agent.SenderPass
import AeronRs.Lib.Runs

/-! # A cycle of the sender

`do_send` makes one pass over each publication. Since a pass leaves the other publications alone,
what a cycle makes of a publication is what its own pass makes of it. -/

namespace AeronRs

open Runs

namespace SenderAgent

/-- Every publication has its endpoint: the indices come from `add_endpoint`. -/
def Wired (s : SenderAgent) : Prop :=
  ∀ e ∈ s.publications, e.endpointIdx < s.endpoints.length

theorem nodup_passOrder (s : SenderAgent) : s.passOrder.Nodup := by
  refine List.nodup_append.mpr ⟨List.nodup_range', List.nodup_range, ?_⟩
  intro i hi j hj hij
  rw [List.mem_range'_1] at hi
  rw [List.mem_range] at hj
  omega

theorem mem_passOrder {s : SenderAgent} {i : Nat} :
    i ∈ s.passOrder ↔ i < s.publications.length := by
  have hstart : s.startIndex ≤ s.publications.length := by
    unfold startIndex
    split_ifs <;> omega
  rw [passOrder, List.mem_append, List.mem_range'_1, List.mem_range]
  omega

end SenderAgent

namespace SendState

theorem pass_of_none {nowNs : Int} {st : SendState} {pubIdx : Nat}
    (h : st.agent.publications[pubIdx]? = none) : pass nowNs st pubIdx = st := by
  rw [pass, h]

theorem exists_endpoint {st : SendState} (h : st.agent.Wired) {pubIdx : Nat}
    {e : PublicationEntry} (he : st.agent.publications[pubIdx]? = some e) :
    ∃ ep, st.agent.endpoints[e.endpointIdx]? = some ep :=
  ⟨_, List.getElem?_eq_getElem (h e (List.mem_of_getElem? he))⟩

theorem wired_pass {nowNs : Int} {st : SendState} (h : st.agent.Wired) (pubIdx : Nat) :
    (pass nowNs st pubIdx).agent.Wired := by
  cases he : st.agent.publications[pubIdx]? with
  | none =>
      rw [pass_of_none he]
      exact h
  | some e =>
      obtain ⟨ep, hep⟩ := exists_endpoint h he
      have hspec := @pass_spec nowNs pubIdx st e ep he hep
      have hlen : (pass nowNs st pubIdx).agent.endpoints.length = st.agent.endpoints.length := by
        simpa using congrArg List.length hspec.transportIdx
      intro e' he'
      rw [hlen]
      obtain ⟨j, hj⟩ := List.mem_iff_getElem?.mp he'
      by_cases hij : j = pubIdx
      · -- the scanned entry still has the endpoint of the old one
        obtain ⟨e'', he'', hscan⟩ := hspec.own
        rw [hij, he'', Option.some.injEq] at hj
        rw [← hj, hscan.endpointIdx]
        exact h e (List.mem_of_getElem? he)
      · rw [hspec.others j hij] at hj
        exact h e' (List.mem_of_getElem? hj)

theorem pass_others {nowNs : Int} {st : SendState} (h : st.agent.Wired) {pubIdx j : Nat}
    (hj : j ≠ pubIdx) :
    (pass nowNs st pubIdx).agent.publications[j]? = st.agent.publications[j]? := by
  cases he : st.agent.publications[pubIdx]? with
  | none => rw [pass_of_none he]
  | some e =>
      obtain ⟨ep, hep⟩ := exists_endpoint h he
      exact (@pass_spec nowNs pubIdx st e ep he hep).others j hj

theorem pass_intervals {nowNs : Int} {st : SendState} (h : st.agent.Wired) (pubIdx : Nat) :
    (pass nowNs st pubIdx).intervals = st.intervals := by
  cases he : st.agent.publications[pubIdx]? with
  | none => rw [pass_of_none he]
  | some e =>
      obtain ⟨ep, hep⟩ := exists_endpoint h he
      exact (@pass_spec nowNs pubIdx st e ep he hep).intervals

end SendState

end AeronRs
