import AeronRs.Lib.Budget

/-! # Sharing a budget

A loop serves consumers one after the other out of a budget and always starts with the first one. How
much a consumer may take is its quota, which depends on what is left of the budget and on the number of
consumers that are left; a spent budget ends the loop.

* **`QuotaPolicy`** — a quota is positive, within the budget, leaves one unit for every consumer behind
  if there is that much, and is one if there is not.
* `share_total_le` — the budget is kept.
* **`share_served`** — a budget of one unit for each consumer serves them all.
* **`share_scarce`** — out of a smaller one, greedy consumers at the front take one unit each and the
  others nothing, each time the loop runs. -/

namespace AeronRs

variable {σ φ : Type*}

/-- The loop over the consumers: what becomes of them, and what each of them takes. -/
def share (quota : Int → Nat → Int) (serve : σ → Int → σ × List φ) :
    Int → List σ → List σ × List (List φ)
  | _, [] => ([], [])
  | budget, c :: cs =>
      if budget ≤ 0 then (c :: cs, [] :: cs.map fun _ => [])
      else
        let served := serve c (quota budget (cs.length + 1))
        let rest := share quota serve (budget - served.2.length) cs
        (served.1 :: rest.1, served.2 :: rest.2)

/-- What a quota has to be for a given budget and number of consumers left. -/
structure QuotaPolicy (quota : Int → Nat → Int) : Prop where
  pos : ∀ budget left, 1 ≤ quota budget left
  le : ∀ budget left, 0 < budget → quota budget left ≤ budget
  leaves : ∀ budget left : Nat, left + 1 ≤ budget → left + quota budget (left + 1) ≤ budget
  scarce : ∀ (budget : Int) (left : Nat), budget < left → quota budget left = 1

section Share

variable {quota : Int → Nat → Int} {serve : σ → Int → σ × List φ}

theorem share_of_nonpos {budget : Int} (h : budget ≤ 0) (cs : List σ) :
    share quota serve budget cs = (cs, cs.map fun _ => []) := by
  cases cs with
  | nil => rfl
  | cons c cs => rw [share, if_pos h, List.map_cons]

theorem share_cons_of_pos {budget : Int} (h : 0 < budget) (c : σ) (cs : List σ) :
    share quota serve budget (c :: cs) =
      ((serve c (quota budget (cs.length + 1))).1 ::
          (share quota serve (budget - (serve c (quota budget (cs.length + 1))).2.length) cs).1,
        (serve c (quota budget (cs.length + 1))).2 ::
          (share quota serve (budget - (serve c (quota budget (cs.length + 1))).2.length) cs).2) := by
  rw [share, if_neg (by omega)]

theorem share_length (budget : Int) (cs : List σ) :
    (share quota serve budget cs).1.length = cs.length ∧
      (share quota serve budget cs).2.length = cs.length := by
  induction cs generalizing budget with
  | nil => exact ⟨rfl, rfl⟩
  | cons c cs ih =>
      by_cases hpos : 0 < budget
      · rw [share_cons_of_pos hpos]
        exact ⟨congrArg (· + 1) (ih _).1, congrArg (· + 1) (ih _).2⟩
      · rw [share_of_nonpos (by omega)]
        exact ⟨rfl, List.length_map _⟩

/-- What serving keeps, sharing keeps. -/
theorem share_forall {P : σ → Prop} (hserve : ∀ c q, P c → P (serve c q).1) {cs : List σ}
    (h : ∀ c ∈ cs, P c) (budget : Int) : ∀ c ∈ (share quota serve budget cs).1, P c := by
  induction cs generalizing budget with
  | nil => exact h
  | cons c cs ih =>
      by_cases hpos : 0 < budget
      · obtain ⟨hc, hcs⟩ := List.forall_mem_cons.mp h
        rw [share_cons_of_pos hpos]
        exact List.forall_mem_cons.mpr ⟨hserve c _ hc, ih hcs _⟩
      · rw [share_of_nonpos (by omega)]
        exact h

variable (hquota : QuotaPolicy quota)
  (hserve : ∀ c q, 1 ≤ q → ((serve c q).2.length : Int) ≤ q)

include hquota hserve

/-- **The budget is kept.** -/
theorem share_total_le {budget : Int} (h : 0 ≤ budget) (cs : List σ) :
    (total List.length (share quota serve budget cs).2 : Int) ≤ budget := by
  induction cs generalizing budget with
  | nil => simpa [share] using h
  | cons c cs ih =>
      by_cases hpos : 0 < budget
      · have htaken := hserve c (quota budget (cs.length + 1)) (hquota.pos _ _)
        have hle := hquota.le budget (cs.length + 1) hpos
        have hrest := @ih (budget - (serve c (quota budget (cs.length + 1))).2.length) (by omega)
        rw [share_cons_of_pos hpos, total_cons]
        omega
      · rw [share_of_nonpos (by omega)]
        simpa [total] using h

/-- **One unit for each consumer serves them all**, the next ones with what is left. -/
theorem share_served {budget : Int} {cs : List σ} (h : cs.length ≤ budget) {i : Nat} {c : σ}
    (hc : cs[i]? = some c) :
    ∃ q, 1 ≤ q ∧ (share quota serve budget cs).2[i]? = some (serve c q).2 := by
  induction cs generalizing budget i with
  | nil => simp at hc
  | cons c' cs ih =>
      rw [List.length_cons] at h
      rw [share_cons_of_pos (by omega)]
      cases i with
      | zero =>
          obtain rfl : c' = c := by simpa using hc
          exact ⟨_, hquota.pos _ _, rfl⟩
      | succ i =>
          obtain ⟨budget, rfl⟩ := Int.eq_ofNat_of_zero_le (show 0 ≤ budget by omega)
          have htaken := hserve c' (quota budget (cs.length + 1)) (hquota.pos _ _)
          have hleaves := hquota.leaves budget cs.length (by omega)
          exact ih (by omega) hc

/-- **A smaller budget** goes to the first consumers, one unit each, if they take what they get. -/
theorem share_scarce {budget : Int} {cs : List σ} (hnonneg : 0 ≤ budget) (h : budget < cs.length)
    (hgreedy : ∀ c ∈ cs, (serve c 1).2 ≠ []) {i : Nat} {p : List φ}
    (hp : (share quota serve budget cs).2[i]? = some p) : p ≠ [] ↔ (i : Int) < budget := by
  induction cs generalizing budget i with
  | nil => simp [share] at hp
  | cons c cs ih =>
      rw [List.length_cons] at h
      obtain ⟨hfirst, hrest⟩ := List.forall_mem_cons.mp hgreedy
      by_cases hpos : 0 < budget
      · rw [share_cons_of_pos hpos, hquota.scarce budget (cs.length + 1) (by omega)] at hp
        have hone : (serve c 1).2.length = 1 := by
          have hle := hserve c 1 le_rfl
          have hne := List.length_pos_iff.mpr hfirst
          omega
        cases i with
        | zero =>
            obtain rfl : (serve c 1).2 = p := by simpa using hp
            exact ⟨fun _ => by omega, fun _ => hfirst⟩
        | succ i =>
            rw [hone] at hp
            rw [ih (by omega) (by omega) hrest hp]
            omega
      · rw [share_of_nonpos (by omega)] at hp
        obtain ⟨_, -, rfl⟩ := List.mem_map.mp (List.mem_of_getElem? hp)
        exact ⟨fun hne => absurd rfl hne, fun hlt => by omega⟩

end Share

end AeronRs
