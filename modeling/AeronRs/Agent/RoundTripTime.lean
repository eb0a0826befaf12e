import AeronRs.Agent.SenderLimit

/-! # The smoothed round-trip time

Every reply to an RTT measurement gives a sample, and `update_rtt` keeps `srtt - srtt/8 + sample/8` of
the samples that it takes, both divisions rounded down by a shift. Zero stands for "no sample yet".

* **`smooth k x y`** is that average for any shift. It is monotone in both arguments and keeps a
  constant (`smooth_mono`, `smooth_self`), so it stays between any bounds of its arguments, however the
  divisions round.
* **`SrttOf`** is what the stored time has to do with the samples taken so far. -/

namespace AeronRs

open Runs

/-! ## The average -/

/-- The moving average with weight `2 ^ -k`, in integers. -/
def smooth (k : Nat) (x y : Int) : Int := x - (x >>> k) + (y >>> k)

/-- A number less its `2 ^ k`-th part grows with the number. -/
theorem sub_shiftRight_mono (k : Nat) {x y : Int} (h : x ≤ y) : x - (x >>> k) ≤ y - (y >>> k) := by
  have hpos : (0 : Int) < 2 ^ k := by positivity
  have hfactor : y - x ≤ (y - x) * 2 ^ k := le_mul_of_one_le_right (by omega) (by omega)
  -- adding `y - x` to a number adds at most `y - x` to its part
  have hpart : y / 2 ^ k ≤ x / 2 ^ k + (y - x) := by
    rw [← Int.add_mul_ediv_right x (y - x) (by omega)]
    exact Int.ediv_le_ediv hpos (by omega)
  rw [Int.shiftRight_eq_div_pow, Int.shiftRight_eq_div_pow]
  push_cast
  omega

theorem smooth_mono (k : Nat) {x x' y y' : Int} (hx : x ≤ x') (hy : y ≤ y') :
    smooth k x y ≤ smooth k x' y' := by
  have hsample : y >>> k ≤ y' >>> k := by
    rw [Int.shiftRight_eq_div_pow, Int.shiftRight_eq_div_pow]
    exact Int.ediv_le_ediv (by positivity) hy
  exact add_le_add (sub_shiftRight_mono k hx) hsample

theorem smooth_self (k : Nat) (x : Int) : smooth k x x = x := sub_add_cancel x (x >>> k)

/-- **The average stays between the bounds of its arguments.** -/
theorem smooth_between (k : Nat) {lo hi x y : Int} (hx : lo ≤ x ∧ x ≤ hi) (hy : lo ≤ y ∧ y ≤ hi) :
    lo ≤ smooth k x y ∧ smooth k x y ≤ hi := by
  constructor
  · calc lo = smooth k lo lo := (smooth_self k lo).symm
      _ ≤ smooth k x y := smooth_mono k hx.1 hy.1
  · calc smooth k x y ≤ smooth k hi hi := smooth_mono k hx.2 hy.2
      _ = hi := smooth_self k hi

/-! ## One sample -/

/-- A sample that `update_rtt` takes. -/
def AcceptedSample (sampleNs : Int) : Prop := 0 < sampleNs ∧ sampleNs < 2 ^ 62 - 1

instance (sampleNs : Int) : Decidable (AcceptedSample sampleNs) := inferInstanceAs (Decidable (_ ∧ _))

def accepted (samples : List Int) : List Int := samples.filter fun x => AcceptedSample x

/-- **The stored time after a sample.** -/
theorem PublicationEntry.updateRtt_lastRttNs (e : PublicationEntry) (sampleNs : Int) :
    (e.updateRtt sampleNs).lastRttNs =
      if AcceptedSample sampleNs then
        if e.lastRttNs = 0 then sampleNs else smooth 3 e.lastRttNs sampleNs
      else e.lastRttNs := by
  have hrefused : (sampleNs ≤ 0 ∨ 2 ^ 62 - 1 ≤ sampleNs) ↔ ¬ AcceptedSample sampleNs := by
    unfold AcceptedSample
    omega
  unfold updateRtt
  simp only [hrefused, ite_not]
  split_ifs <;> rfl

/-- **No 64-bit overflow** when a sample is averaged in. -/
def PublicationEntry.AverageFits (e : PublicationEntry) (sampleNs : Int) : Prop :=
  AcceptedSample sampleNs → e.lastRttNs ≠ 0 →
    FitsI64 (e.lastRttNs - (e.lastRttNs >>> (3 : Nat))) ∧ FitsI64 (smooth 3 e.lastRttNs sampleNs)

/-! ## All samples -/

/-- **The stored time after taking samples**: zero if there are none, and otherwise between any bounds
that they have. -/
structure SrttOf (taken : List Int) (srtt : Int) : Prop where
  accepted : ∀ x ∈ taken, AcceptedSample x
  zero : taken = [] → srtt = 0
  between : taken ≠ [] → ∀ lo hi, (∀ x ∈ taken, lo ≤ x ∧ x ≤ hi) → lo ≤ srtt ∧ srtt ≤ hi

namespace SrttOf

variable {taken : List Int} {srtt : Int}

/-- A stored time is itself in the range of the samples. -/
theorem range (h : SrttOf taken srtt) : 0 ≤ srtt ∧ srtt < 2 ^ 62 - 1 ∧ (srtt = 0 ↔ taken = []) := by
  by_cases hnil : taken = []
  · have hzero := h.zero hnil
    exact ⟨by omega, by omega, by simp [hzero, hnil]⟩
  · obtain ⟨hlo, hhi⟩ := h.between hnil 1 (2 ^ 62 - 2) fun x hx => by
      have hx := h.accepted x hx
      unfold AcceptedSample at hx
      omega
    refine ⟨by omega, by omega, ⟨fun hzero => by omega, fun hnil' => absurd hnil' hnil⟩⟩

/-- **Step.** A sample that is taken joins the others; the first one is stored as it is. -/
theorem step {e : PublicationEntry} (h : SrttOf taken e.lastRttNs) (sampleNs : Int) :
    SrttOf (taken ++ AeronRs.accepted [sampleNs]) (e.updateRtt sampleNs).lastRttNs ∧
      e.AverageFits sampleNs := by
  obtain ⟨hlo, hhi, hzero⟩ := h.range
  constructor
  · rw [e.updateRtt_lastRttNs]
    by_cases hsample : AcceptedSample sampleNs
    · have htaken : AeronRs.accepted [sampleNs] = [sampleNs] := by simp [AeronRs.accepted, hsample]
      rw [htaken, if_pos hsample]
      refine ⟨?_, by simp, fun _ lo hi hbounds => ?_⟩
      · simp only [List.mem_append, List.mem_singleton]
        rintro x (hx | rfl)
        · exact h.accepted x hx
        · exact hsample
      · have hnew := hbounds sampleNs (by simp)
        split_ifs with hfirst
        · exact hnew
        · exact smooth_between 3 (h.between (fun hnil => hfirst (hzero.mpr hnil)) lo hi fun x hx =>
            hbounds x (List.mem_append_left _ hx)) hnew
    · have htaken : AeronRs.accepted [sampleNs] = [] := by simp [AeronRs.accepted, hsample]
      rw [htaken, List.append_nil, if_neg hsample]
      exact h
  · intro hsample _
    obtain ⟨hlo', hhi'⟩ := smooth_between 3 (show 0 ≤ _ ∧ _ ≤ 2 ^ 62 from ⟨hlo, by omega⟩)
      (show 0 ≤ sampleNs ∧ sampleNs ≤ 2 ^ 62 from ⟨hsample.1.le, by have := hsample.2; omega⟩)
    have hpart₀ := sub_shiftRight_mono 3 hlo
    have hpart : 0 ≤ e.lastRttNs >>> (3 : Nat) := by
      rw [Int.shiftRight_eq_div_pow]
      exact Int.ediv_nonneg hlo (by norm_num)
    rw [show ((0 : Int) >>> (3 : Nat)) = 0 from rfl] at hpart₀
    exact ⟨⟨by omega, by omega⟩, ⟨by omega, by omega⟩⟩

/-- **Run.** -/
theorem run {e : PublicationEntry} (h : SrttOf taken e.lastRttNs) (samples : List Int) :
    SrttOf (taken ++ AeronRs.accepted samples)
        (Runs.run PublicationEntry.updateRtt e samples).lastRttNs ∧
      Meets PublicationEntry.AverageFits PublicationEntry.updateRtt e samples := by
  induction samples generalizing e taken with
  | nil => exact ⟨by simpa [AeronRs.accepted] using h, trivial⟩
  | cons x samples ih =>
      obtain ⟨hstep, hfits⟩ := h.step x
      obtain ⟨hrun, hmeets⟩ := ih hstep
      rw [List.append_assoc, AeronRs.accepted, AeronRs.accepted, ← List.filter_append] at hrun
      exact ⟨hrun, hfits, hmeets⟩

end SrttOf

/-- **The smoothed round-trip time stays within its samples.** After any samples the stored time of a
new publication is zero exactly if none of them was taken, and otherwise it lies between the least and
the greatest that were taken; no step overflows. -/
theorem srtt_within_samples {e : PublicationEntry} (hnew : e.lastRttNs = 0) (samples : List Int) :
    Meets PublicationEntry.AverageFits PublicationEntry.updateRtt e samples ∧
      ((run PublicationEntry.updateRtt e samples).lastRttNs = 0 ↔
        ∀ x ∈ samples, ¬ AcceptedSample x) ∧
      ∀ lo ∈ (accepted samples).min?, ∀ hi ∈ (accepted samples).max?,
        lo ≤ (run PublicationEntry.updateRtt e samples).lastRttNs ∧
          (run PublicationEntry.updateRtt e samples).lastRttNs ≤ hi := by
  have hstart : SrttOf [] e.lastRttNs := ⟨by simp, fun _ => hnew, by simp⟩
  obtain ⟨hsrtt, hfits⟩ := hstart.run samples
  rw [List.nil_append] at hsrtt
  refine ⟨hfits, ?_, fun lo hlo hi hhi => ?_⟩
  · rw [hsrtt.range.2.2, accepted, List.filter_eq_nil_iff]
    simp
  · obtain ⟨hmem, hleast⟩ := List.min?_eq_some_iff.mp hlo
    obtain ⟨-, hgreatest⟩ := List.max?_eq_some_iff.mp hhi
    exact hsrtt.between (List.ne_nil_of_mem hmem) lo hi fun x hx => ⟨hleast x hx, hgreatest x hx⟩

/-- Samples of 8 and 16 microseconds, between one that is negative and one that is too large: the time
is `8000 - 1000 + 2000`. -/
theorem srtt_of_four_samples :
    let e := PublicationEntry.new ((Publication.create false 7 1 5 128 1408).get rfl) 0
    (run PublicationEntry.updateRtt e [-5, 8000, 16000, 2 ^ 62]).lastRttNs = 9000 ∧
      Meets PublicationEntry.AverageFits PublicationEntry.updateRtt e [-5, 8000, 16000, 2 ^ 62] :=
  ⟨by decide +kernel, (srtt_within_samples rfl [-5, 8000, 16000, 2 ^ 62]).1⟩

/-! ## Replies to a sender -/

/-- What happens to a sender that measures: its own actions, and replies to its measurements. -/
inductive RttAction
  | sender (action : SenderAction)
  | rttmReply (nowNs : Int) (rttm : RttmHeader)

def PublicationEntry.sampleOf (e : PublicationEntry) : RttAction → Option Int
  | .sender _ => none
  | .rttmReply nowNs rttm =>
      if e.sessionId = rttm.sessionId ∧ e.streamId = rttm.streamId then some (rttSample nowNs rttm)
      else none

def PublicationEntry.samplesOf (e : PublicationEntry) (as : List RttAction) : List Int :=
  as.filterMap e.sampleOf

theorem PublicationEntry.sampleOf_congr {e e' : PublicationEntry} (h : e'.ids = e.ids) :
    e'.sampleOf = e.sampleOf := by
  have hsession : e'.sessionId = e.sessionId := congrArg StreamIds.sessionId h
  have hstream : e'.streamId = e.streamId := congrArg StreamIds.streamId h
  funext a
  cases a with
  | sender a => rfl
  | rttmReply nowNs rttm => rw [sampleOf, sampleOf, hsession, hstream]

theorem PublicationEntry.onRttmReply_eq (e : PublicationEntry) (nowNs : Int) (rttm : RttmHeader) :
    ∃ lastRttNs, e.onRttmReply nowNs rttm = { e with lastRttNs } := by
  unfold onRttmReply updateRtt
  split_ifs
  · exact ⟨e.lastRttNs, rfl⟩
  · exact ⟨_, rfl⟩
  · exact ⟨_, rfl⟩
  · exact ⟨e.lastRttNs, rfl⟩

namespace SenderAgent

def rttStep (s : SenderAgent) : RttAction → SenderAgent
  | .sender action => s.step action
  | .rttmReply nowNs rttm =>
      { s with publications := s.publications.map (·.onRttmReply nowNs rttm) }

theorem inv_rttStep {s : SenderAgent} (h : s.Inv) (a : RttAction) : (s.rttStep a).Inv := by
  cases a with
  | sender action => exact inv_step h action
  | rttmReply nowNs rttm =>
      constructor
      · intro e' he'
        obtain ⟨e, he, rfl⟩ := List.mem_map.mp he'
        obtain ⟨_, heq⟩ := e.onRttmReply_eq nowNs rttm
        rw [heq]
        exact h.wired e he
      · intro e' he'
        obtain ⟨e, he, rfl⟩ := List.mem_map.mp he'
        obtain ⟨_, heq⟩ := e.onRttmReply_eq nowNs rttm
        rw [heq]
        obtain ⟨h₁, h₂, h₃, h₄⟩ := h.inRange e he
        exact ⟨h₁, h₂, h₃, h₄⟩

/-- **What an action does to a stored time**: it takes the sample that the action has for its
publication. -/
theorem rttStep_entry {s : SenderAgent} (h : s.Inv) {i : Nat} {e : PublicationEntry}
    (he : s.publications[i]? = some e) (a : RttAction) :
    ∃ e', (s.rttStep a).publications[i]? = some e' ∧ e'.ids = e.ids ∧
      e'.lastRttNs = (run PublicationEntry.updateRtt e (e.sampleOf a).toList).lastRttNs := by
  cases a with
  | sender action =>
      obtain ⟨e', he', hids, hrtt, -⟩ := step_entry h.wired he action
      exact ⟨e', he', hids, hrtt⟩
  | rttmReply nowNs rttm =>
      have hget : (s.rttStep (.rttmReply nowNs rttm)).publications[i]? =
          some (e.onRttmReply nowNs rttm) := by
        change (s.publications.map (·.onRttmReply nowNs rttm))[i]? = _
        rw [List.getElem?_map, he, Option.map_some]
      refine ⟨_, hget, ?_, ?_⟩
      · obtain ⟨_, heq⟩ := e.onRttmReply_eq nowNs rttm
        rw [heq]
        rfl
      · rw [PublicationEntry.onRttmReply, PublicationEntry.sampleOf]
        split_ifs <;> rfl

end SenderAgent

end AeronRs
