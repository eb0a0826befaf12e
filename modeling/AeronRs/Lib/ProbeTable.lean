import Mathlib.Logic.Equiv.Basic
import Mathlib.Data.Finset.Lattice.Fold
import Mathlib.Data.Fintype.Card

/-! # Tables with linear probing

A table of `n` slots in a ring, where an element goes to the first empty slot from its **home** on and
is looked for in the same way. **`shiftBack`** deletes one: the hole moves forward along the ring, and
each element behind it whose way passes the hole is moved into it.

**`Probed`** says that every element is found: all slots that it passes are taken. That alone is not
kept by deletion from a table that is full, where two elements could each pass the slot of the other.
In a table that was filled element by element this does not happen, and `Probed` says so with a rank
that grows along every way. -/

namespace AeronRs.ProbeTable

variable {n : Nat} {α : Type*}

/-! ## The ring -/

/-- The number of steps forward from one slot to another. -/
def dist (a b : Fin n) : Nat := (b.val + n - a.val) % n

/-- A number of steps forward. -/
def advance (a : Fin n) (k : Nat) : Fin n := ⟨(a.val + k) % n, Nat.mod_lt _ a.pos⟩

theorem dist_eq (a b : Fin n) :
    dist a b = if a.val ≤ b.val then b.val - a.val else b.val + n - a.val := by
  have ha := a.isLt
  have hb := b.isLt
  unfold dist
  split_ifs with h
  · rw [show b.val + n - a.val = b.val - a.val + n by omega, Nat.add_mod_right,
      Nat.mod_eq_of_lt (by omega)]
  · exact Nat.mod_eq_of_lt (by omega)

theorem dist_lt (a b : Fin n) : dist a b < n := Nat.mod_lt _ a.pos

@[simp] theorem dist_self (a : Fin n) : dist a a = 0 := by
  rw [dist_eq, if_pos (Nat.le_refl _), Nat.sub_self]

theorem eq_of_dist_eq {a b c : Fin n} (h : dist a b = dist a c) : b = c := by
  have ha := a.isLt
  have hb := b.isLt
  have hc := c.isLt
  apply Fin.ext
  rw [dist_eq, dist_eq] at h
  split_ifs at h <;> omega

theorem dist_ne_of_ne {a b c : Fin n} {k : Nat} (hb : dist a b = k) (h : c ≠ b) : dist a c ≠ k :=
  fun hc => h (eq_of_dist_eq (hc.trans hb.symm))

theorem dist_advance (a : Fin n) {k : Nat} (hk : k < n) : dist a (advance a k) = k := by
  have ha := a.isLt
  have hval : (advance a k).val = if a.val + k < n then a.val + k else a.val + k - n := by
    unfold advance
    dsimp only
    split_ifs with h
    · exact Nat.mod_eq_of_lt h
    · rw [Nat.mod_eq_sub_mod (by omega), Nat.mod_eq_of_lt (by omega)]
  rw [dist_eq, hval]
  split_ifs <;> omega

theorem advance_dist (a b : Fin n) : advance a (dist a b) = b :=
  eq_of_dist_eq (dist_advance a (dist_lt a b))

theorem advance_advance (a : Fin n) (k l : Nat) : advance (advance a k) l = advance a (k + l) := by
  apply Fin.ext
  simp only [advance]
  rw [Nat.mod_add_mod, Nat.add_assoc]

theorem advance_full (a : Fin n) : advance a n = a := by
  apply Fin.ext
  simp only [advance]
  rw [Nat.add_mod_right, Nat.mod_eq_of_lt a.isLt]

/-- The way from `h` to `s` passes a slot. -/
def Passes (h s t : Fin n) : Prop := dist h t < dist h s

/-- A slot behind the hole is reached from beyond the hole exactly when it is further from its home
than from the hole. -/
theorem passes_iff {h j gap : Fin n} (hne : gap ≠ j) : Passes h j gap ↔ dist gap j ≤ dist h j := by
  have hval : gap.val ≠ j.val := fun heq => hne (Fin.ext heq)
  have hh := h.isLt
  have hj := j.isLt
  have hgap := gap.isLt
  unfold Passes
  simp only [dist_eq]
  split_ifs <;> omega

/-- A way that passes a slot passes what lies between that slot and its end. -/
theorem Passes.between {h s gap j : Fin n} (hpass : Passes h s gap) (base : Fin n)
    (hlo : dist base gap < dist base j) (hhi : dist base j < dist base s) : Passes h s j := by
  have hh := h.isLt
  have hs := s.isLt
  have hgap := gap.isLt
  have hj := j.isLt
  have hbase := base.isLt
  unfold Passes at hpass ⊢
  simp only [dist_eq] at hpass hlo hhi ⊢
  split_ifs at hpass hlo hhi ⊢ <;> omega

/-- A way that does not pass its base stays before its end. -/
theorem Passes.dist_lt {h s t base : Fin n} (hpass : Passes h s t)
    (hdirect : dist base h ≤ dist base s) : dist base t < dist base s := by
  have hh := h.isLt
  have hs := s.isLt
  have ht := t.isLt
  have hbase := base.isLt
  unfold Passes at hpass
  simp only [dist_eq] at hpass hdirect ⊢
  split_ifs at hpass hdirect ⊢ <;> omega

/-- A way that does not pass the hole before its end begins behind it. -/
theorem dist_home_le {h j gap base : Fin n} (hpass : ¬ Passes h j gap)
    (hlt : dist base gap < dist base j) : dist base h ≤ dist base j := by
  have hh := h.isLt
  have hj := j.isLt
  have hgap := gap.isLt
  have hbase := base.isLt
  unfold Passes at hpass
  simp only [dist_eq] at hpass hlt ⊢
  split_ifs at hpass hlt ⊢ <;> omega

/-! ## The operations -/

/-- Look for an element from a slot on, up to the first empty slot and for at most `rounds` slots. -/
def probe (index : Fin n → Option α) (isIt : α → Bool) (start : Fin n) :
    Nat → Nat → Option (Fin n × α)
  | 0, _ => none
  | rounds + 1, p =>
      match index (advance start p) with
      | none => none
      | some a =>
          if isIt a then some (advance start p, a) else probe index isIt start rounds (p + 1)

def firstEmpty (index : Fin n → Option α) (start : Fin n) : Nat → Nat → Option (Fin n)
  | 0, _ => none
  | rounds + 1, p =>
      match index (advance start p) with
      | none => some (advance start p)
      | some _ => firstEmpty index start rounds (p + 1)

/-- Put an element into the first empty slot from a slot on; a full table stays as it is. -/
def insert (index : Fin n → Option α) (start : Fin n) (a : α) : Fin n → Option α :=
  match firstEmpty index start n 0 with
  | none => index
  | some s => Function.update index s (some a)

/-- Close the hole at `gap`: `j` goes forward from the slot before, and an element whose way passes the
hole is moved into it. It ends at an empty slot, or at `target` when the ring has no empty slot; `none`
if it has not ended after `rounds` slots. -/
def shiftBack (home : α → Fin n) (target : Fin n) :
    Nat → (Fin n → Option α) → Fin n → Fin n → Option (Fin n → Option α)
  | 0, _, _, _ => none
  | rounds + 1, index, gap, j =>
      let j := advance j 1
      match index j with
      | none => some (Function.update index gap none)
      | some a =>
          let moves := decide (dist gap j ≤ dist (home a) j)
          let index := if moves then Function.update index gap (some a) else index
          let gap := if moves then j else gap
          if j = target then some (Function.update index gap none)
          else shiftBack home target rounds index gap j

/-! ## What is stored -/

def Stored (index : Fin n → Option α) (a : α) : Prop := ∃ s, index s = some a

/-- Every way to an element passes elements of lower rank only. -/
def Ranked (home : α → Fin n) (index : Fin n → Option α) (rank : Fin n → Nat) : Prop :=
  ∀ s a, index s = some a → ∀ t, Passes (home a) s t → (∃ b, index t = some b) ∧ rank t < rank s

/-- **A table that was filled by probing**: no element is stored twice, and each is behind elements of
lower rank. -/
structure Probed (home : α → Fin n) (index : Fin n → Option α) : Prop where
  inj : ∀ s t a, index s = some a → index t = some a → s = t
  ranked : ∃ rank, Ranked home index rank

theorem probed_empty (home : α → Fin n) : Probed home fun _ => none :=
  ⟨fun _ _ _ h => (nomatch h), fun _ => 0, fun _ _ h => (nomatch h)⟩

theorem not_stored_empty (a : α) : ¬ Stored (fun _ : Fin n => none) a := fun ⟨_, h⟩ =>
  nomatch h

theorem Probed.congr {home home' : α → Fin n} {index : Fin n → Option α} (h : Probed home index)
    (hhome : ∀ a, Stored index a → home a = home' a) : Probed home' index := by
  obtain ⟨rank, hrank⟩ := h.ranked
  refine ⟨h.inj, rank, fun s a hs => ?_⟩
  rw [← hhome a ⟨s, hs⟩]
  exact hrank s a hs

/-! ## Looking up -/

theorem probe_eq_none {index : Fin n → Option α} {isIt : α → Bool}
    (h : ∀ a, Stored index a → isIt a = false) (start : Fin n) (rounds p : Nat) :
    probe index isIt start rounds p = none := by
  induction rounds generalizing p with
  | zero => rfl
  | succ rounds ih =>
      rw [probe]
      cases hs : index (advance start p) with
      | none => rfl
      | some a =>
          dsimp only
          rw [if_neg (by simp [h a ⟨_, hs⟩]), ih]

/-- Probing passes other elements and stops at the one that is looked for. -/
theorem probe_eq_some {index : Fin n → Option α} {isIt : α → Bool} {start : Fin n} {d : Nat} {a : α}
    (hs : index (advance start d) = some a) (hit : isIt a = true) {rounds p : Nat} (hlo : p ≤ d)
    (hhi : d < p + rounds)
    (hpass : ∀ q, p ≤ q → q < d → ∃ b, index (advance start q) = some b ∧ isIt b = false) :
    probe index isIt start rounds p = some (advance start d, a) := by
  induction rounds generalizing p with
  | zero => omega
  | succ rounds ih =>
      rw [probe]
      by_cases hp : p = d
      · rw [hp, hs]
        exact if_pos hit
      · obtain ⟨b, hb, hother⟩ := hpass p (Nat.le_refl p) (by omega)
        rw [hb]
        dsimp only
        rw [if_neg (by simp [hother])]
        exact ih (by omega) (by omega) fun q hq => hpass q (by omega)

/-- **What is stored is found.** -/
theorem Probed.probe_eq {home : α → Fin n} {index : Fin n → Option α} (h : Probed home index)
    {isIt : α → Bool} {s : Fin n} {a : α} (hs : index s = some a) (hit : isIt a = true)
    (honly : ∀ b, Stored index b → isIt b = true → b = a) :
    probe index isIt (home a) n 0 = some (s, a) := by
  obtain ⟨rank, hrank⟩ := h.ranked
  have hat : index (advance (home a) (dist (home a) s)) = some a := by rwa [advance_dist]
  have hlt := dist_lt (home a) s
  have hprobe : probe index isIt (home a) n 0 = _ := probe_eq_some hat hit (Nat.zero_le _)
      (by omega) fun q _ hq => by
    have hpasses : Passes (home a) s (advance (home a) q) := by
      rw [Passes, dist_advance _ (by omega)]
      exact hq
    obtain ⟨⟨b, hb⟩, -⟩ := hrank s a hs _ hpasses
    refine ⟨b, hb, ?_⟩
    -- another slot with the same element is not on the way
    by_contra hit'
    obtain rfl := honly b ⟨_, hb⟩ (by simpa using hit')
    rw [h.inj _ _ _ hb hs, Passes] at hpasses
    omega
  rwa [advance_dist] at hprobe

/-! ## Insertion -/

theorem firstEmpty_eq_some {index : Fin n → Option α} {start : Fin n} {rounds p d : Nat} (hlo : p ≤ d)
    (hhi : d < p + rounds) (hempty : index (advance start d) = none) :
    ∃ e, e ≤ d ∧ firstEmpty index start rounds p = some (advance start e) ∧
      index (advance start e) = none ∧
      ∀ q, p ≤ q → q < e → ∃ b, index (advance start q) = some b := by
  induction rounds generalizing p with
  | zero => omega
  | succ rounds ih =>
      rw [firstEmpty]
      cases hs : index (advance start p) with
      | none => exact ⟨p, hlo, rfl, hs, fun q _ _ => by omega⟩
      | some b =>
          have hne : p ≠ d := by
            rintro rfl
            rw [hs] at hempty
            cases hempty
          obtain ⟨e, hle, hfirst, hnone, htaken⟩ := ih (p := p + 1) (by omega) (by omega)
          refine ⟨e, hle, hfirst, hnone, fun q hq hlt => ?_⟩
          by_cases hqp : q = p
          · exact ⟨b, hqp ▸ hs⟩
          · exact htaken q (by omega) hlt

/-- **Insertion**, into a table with an empty slot. -/
theorem Probed.insert {home : α → Fin n} {index : Fin n → Option α} (h : Probed home index)
    (hroom : ∃ s, index s = none) {a : α} (hnew : ¬ Stored index a) :
    Probed home (insert index (home a) a) ∧
      ∀ b, Stored (ProbeTable.insert index (home a) a) b ↔ b = a ∨ Stored index b := by
  obtain ⟨s₀, hs₀⟩ := hroom
  obtain ⟨rank, hrank⟩ := h.ranked
  have hempty : index (advance (home a) (dist (home a) s₀)) = none := by rwa [advance_dist]
  obtain ⟨e, hle, hfirst, hnone, htaken⟩ := firstEmpty_eq_some (Nat.zero_le _)
    (Nat.lt_of_lt_of_eq (dist_lt (home a) s₀) (Nat.zero_add n).symm) hempty
  have he : e < n := Nat.lt_of_le_of_lt hle (dist_lt _ _)
  unfold ProbeTable.insert
  rw [hfirst]
  dsimp only
  set s := advance (home a) e with hsdef
  have hdist : dist (home a) s = e := dist_advance _ he
  have hstored : ∀ t b, t ≠ s → Function.update index s (some a) t = some b → index t = some b :=
    fun t b ht hb => by rwa [Function.update_of_ne ht] at hb
  -- the new element gets a rank above all others
  obtain ⟨top, htop⟩ : ∃ top, ∀ t, rank t < top :=
    ⟨Finset.univ.sup rank + 1, fun t => Nat.lt_succ_of_le (Finset.le_sup (Finset.mem_univ t))⟩
  refine ⟨⟨fun t u b ht hu => ?_, Function.update rank s top, fun t b ht u hpass => ?_⟩, fun b => ?_⟩
  · by_cases hts : t = s
    · by_cases hus : u = s
      · rw [hts, hus]
      · rw [hts, Function.update_self] at ht
        obtain rfl := Option.some.inj ht
        exact absurd ⟨u, hstored u _ hus hu⟩ hnew
    · by_cases hus : u = s
      · rw [hus, Function.update_self] at hu
        obtain rfl := Option.some.inj hu
        exact absurd ⟨t, hstored t _ hts ht⟩ hnew
      · exact h.inj t u b (hstored t b hts ht) (hstored u b hus hu)
  · by_cases hts : t = s
    · rw [hts, Function.update_self] at ht
      obtain rfl := Option.some.inj ht
      rw [hts, Passes, hdist] at hpass
      have hus : u ≠ s := fun hus => by rw [hus, hdist] at hpass; omega
      obtain ⟨c, hc⟩ := htaken (dist (home a) u) (Nat.zero_le _) hpass
      rw [advance_dist] at hc
      rw [hts, Function.update_of_ne hus, Function.update_self, Function.update_of_ne hus]
      exact ⟨⟨c, hc⟩, htop u⟩
    · obtain ⟨⟨c, hc⟩, hlt⟩ := hrank t b (hstored t b hts ht) u hpass
      have hus : u ≠ s := fun hus => by rw [hus, hnone] at hc; cases hc
      rw [Function.update_of_ne hus, Function.update_of_ne hus, Function.update_of_ne hts]
      exact ⟨⟨c, hc⟩, hlt⟩
  · constructor
    · rintro ⟨t, ht⟩
      by_cases hts : t = s
      · rw [hts, Function.update_self] at ht
        exact .inl (Option.some.inj ht).symm
      · exact .inr ⟨t, hstored t b hts ht⟩
    · rintro (rfl | ⟨t, ht⟩)
      · exact ⟨s, Function.update_self ..⟩
      · have hts : t ≠ s := fun hts => by rw [hts, hnone] at ht; cases ht
        exact ⟨t, by rwa [Function.update_of_ne hts]⟩

/-! ## Deletion -/

/-- **The state of a deletion** that has gone `k` steps from `target`, where the slots of `index` are
shown with the hole empty. A way may still pass the hole if its end is further on; an element that
the hole has gone by lies after the target as its home does, or has come from a slot of no higher rank
than that of the hole. -/
structure Shifting (home : α → Fin n) (target : Fin n) (rank : Fin n → Nat) (k : Nat)
    (index : Fin n → Option α) (gap : Fin n) : Prop where
  hole : index gap = none
  behind : dist target gap ≤ k
  ranked : ∀ s a, index s = some a → ∀ t, Passes (home a) s t →
    rank t < rank s ∧ ((∃ b, index t = some b) ∨ t = gap ∧ k < dist target s)
  scanned : ∀ s a, index s = some a → dist target s ≤ k →
    dist target (home a) ≤ dist target s ∨ rank s ≤ rank gap

namespace Shifting

variable {home : α → Fin n} {target gap j : Fin n} {rank : Fin n → Nat} {k : Nat}
  {index : Fin n → Option α} {a : α}

/-- When an element is removed, the hole is at its slot. -/
theorem start (hrank : Ranked home index rank) :
    Shifting home target rank 0 (Function.update index target none) target := by
  have hother : ∀ s a, Function.update index target none s = some a → s ≠ target ∧ index s = some a :=
    fun s a hs => by
      by_cases hst : s = target
      · rw [hst, Function.update_self] at hs
        cases hs
      · rw [Function.update_of_ne hst] at hs
        exact ⟨hst, hs⟩
  refine ⟨Function.update_self .., Nat.le_of_eq (dist_self target), fun s a hs t hpass => ?_,
    fun s a hs hle => ?_⟩
  · obtain ⟨hst, hs'⟩ := hother s a hs
    obtain ⟨⟨b, hb⟩, hlt⟩ := hrank s a hs' t hpass
    refine ⟨hlt, ?_⟩
    by_cases ht : t = target
    · exact .inr ⟨ht, Nat.pos_of_ne_zero (dist_ne_of_ne (dist_self target) hst)⟩
    · exact .inl ⟨b, by rwa [Function.update_of_ne ht]⟩
  · obtain ⟨hst, -⟩ := hother s a hs
    exact absurd (Nat.le_zero.mp hle) (dist_ne_of_ne (dist_self target) hst)

/-- An element whose way does not pass the hole stays. -/
theorem keep (h : Shifting home target rank k index gap) (hj : dist target j = k + 1)
    (ha : index j = some a) (hpass : ¬ Passes (home a) j gap) :
    Shifting home target rank (k + 1) index gap := by
  have hbehind := h.behind
  refine ⟨h.hole, by omega, fun s b hs t ht => ?_, fun s b hs hle => ?_⟩
  · obtain ⟨hlt, htaken | ⟨rfl, hahead⟩⟩ := h.ranked s b hs t ht
    · exact ⟨hlt, .inl htaken⟩
    · refine ⟨hlt, .inr ⟨rfl, Nat.lt_of_le_of_ne hahead fun hk => hpass ?_⟩⟩
      obtain rfl := eq_of_dist_eq (hj.trans hk)
      obtain rfl := Option.some.inj (ha.symm.trans hs)
      exact ht
  · by_cases hsj : s = j
    · obtain rfl := hsj
      obtain rfl := Option.some.inj (ha.symm.trans hs)
      exact .inl (dist_home_le hpass (by omega))
    · have hfar := dist_ne_of_ne hj hsj
      exact h.scanned s b hs (by omega)

/-- The slots after the element at `j` has moved into the hole. -/
theorem of_swap_eq_some (h : Shifting home target rank k index gap) (ha : index j = some a) {s : Fin n}
    {b : α} (hs : (index ∘ Equiv.swap gap j) s = some b) :
    (s = gap ∧ b = a) ∨ (s ≠ gap ∧ s ≠ j ∧ index s = some b) := by
  rw [Function.comp_apply] at hs
  by_cases hsg : s = gap
  · rw [hsg, Equiv.swap_apply_left, ha] at hs
    exact .inl ⟨hsg, (Option.some.inj hs).symm⟩
  · by_cases hsj : s = j
    · rw [hsj, Equiv.swap_apply_right, h.hole] at hs
      cases hs
    · rw [Equiv.swap_apply_of_ne_of_ne hsg hsj] at hs
      exact .inr ⟨hsg, hsj, hs⟩

theorem taken_swap (ha : index j = some a) {t : Fin n} (htj : t ≠ j)
    (ht : t = gap ∨ ∃ b, index t = some b) : ∃ b, (index ∘ Equiv.swap gap j) t = some b := by
  by_cases htg : t = gap
  · exact ⟨a, by rw [Function.comp_apply, htg, Equiv.swap_apply_left, ha]⟩
  · obtain ⟨b, hb⟩ := ht.resolve_left htg
    exact ⟨b, by rw [Function.comp_apply, Equiv.swap_apply_of_ne_of_ne htg htj, hb]⟩

/-- **An element whose way passes the hole moves into it**, and the hole to where it was. The hole
takes the rank of the element with it. -/
theorem move (h : Shifting home target rank k index gap) (hj : dist target j = k + 1)
    (ha : index j = some a) (hpass : Passes (home a) j gap) :
    Shifting home target (Function.update rank gap (rank j)) (k + 1) (index ∘ Equiv.swap gap j) j := by
  have hbehind := h.behind
  have hne : j ≠ gap := fun heq => by rw [heq] at hj; omega
  obtain ⟨hgapRank, -⟩ := h.ranked j a ha gap hpass
  have hrank_ne : ∀ {t}, t ≠ gap → Function.update rank gap (rank j) t = rank t := fun ht =>
    Function.update_of_ne ht _ _
  refine ⟨?_, Nat.le_of_eq hj, fun s b hs t ht => ?_, fun s b hs hle => ?_⟩
  · rw [Function.comp_apply, Equiv.swap_apply_right, h.hole]
  · rcases h.of_swap_eq_some ha hs with ⟨rfl, rfl⟩ | ⟨hsg, hsj, hs'⟩
    · -- the way to the hole is the first part of the way to `j`
      have htg : t ≠ s := fun heq => by rw [heq, Passes] at ht; omega
      have htj : t ≠ j := fun heq => by
        rw [heq] at ht
        exact Nat.lt_asymm ht hpass
      obtain ⟨hlt, htaken⟩ := h.ranked j b ha t (Nat.lt_trans ht hpass)
      rw [hrank_ne htg, Function.update_self]
      exact ⟨hlt, .inl (taken_swap ha htj (htaken.symm.imp_left And.left))⟩
    · obtain ⟨hlt, htaken⟩ := h.ranked s b hs' t ht
      rw [hrank_ne hsg]
      by_cases htj : t = j
      · rw [htj, hrank_ne hne]
        rw [htj] at hlt ht
        refine ⟨hlt, .inr ⟨rfl, ?_⟩⟩
        -- a slot that was gone by does not lie behind `j`
        by_contra hscanned
        have hfar := dist_ne_of_ne hj hsj
        rcases h.scanned s b hs' (by omega) with hdirect | hlow
        · have := ht.dist_lt hdirect
          omega
        · omega
      · by_cases htg : t = gap
        · -- a way that passes the hole and ends further on passes `j` too
          rcases htaken with ⟨c, hc⟩ | ⟨-, hahead⟩
          · rw [htg, h.hole] at hc
            cases hc
          · have hfar := dist_ne_of_ne hj hsj
            rw [htg] at ht
            obtain ⟨hlt', -⟩ := h.ranked s b hs' j (ht.between target (by omega) (by omega))
            rw [htg, Function.update_self]
            exact ⟨hlt', .inl (taken_swap ha hne.symm (.inl rfl))⟩
        · rw [hrank_ne htg]
          exact ⟨hlt, .inl (taken_swap ha htj (.inr (htaken.resolve_right fun hg => htg hg.1)))⟩
  · rw [hrank_ne hne]
    rcases h.of_swap_eq_some ha hs with ⟨rfl, rfl⟩ | ⟨hsg, hsj, hs'⟩
    · rw [Function.update_self]
      exact .inr (Nat.le_refl _)
    · rw [hrank_ne hsg]
      have hfar := dist_ne_of_ne hj hsj
      exact (h.scanned s b hs' (by omega)).imp_right fun hlow => by omega

/-- The hole may stay open when no way that ends further on passes it. -/
theorem stop (h : Shifting home target rank k index gap)
    (hend : ∀ s a, index s = some a → k < dist target s → ¬ Passes (home a) s gap) :
    Ranked home index rank := fun s a hs t ht => by
  obtain ⟨hlt, htaken | ⟨rfl, hahead⟩⟩ := h.ranked s a hs t ht
  · exact ⟨htaken, hlt⟩
  · exact absurd ht (hend s a hs hahead)

/-- It may stay open before an empty slot. -/
theorem stop_of_empty (h : Shifting home target rank k index gap) (hj : dist target j = k + 1)
    (hempty : index j = none) : Ranked home index rank := by
  have hbehind := h.behind
  refine h.stop fun s a hs hahead hpass => ?_
  have hsj : s ≠ j := fun heq => by rw [heq, hempty] at hs; cases hs
  have hfar := dist_ne_of_ne hj hsj
  obtain ⟨-, ⟨b, hb⟩ | ⟨rfl, -⟩⟩ :=
    h.ranked s a hs j (hpass.between target (by omega) (by omega))
  · rw [hempty] at hb
    cases hb
  · omega

/-- It may stay open when the ring has been gone round. -/
theorem stop_of_round (h : Shifting home target rank k index gap) (hk : k + 1 = n) :
    Ranked home index rank :=
  h.stop fun s _ _ hahead _ => by
    have := dist_lt target s
    omega

/-- The element that has come to the target does not pass the hole. -/
theorem not_passes_target (h : Shifting home target rank k index gap) (ha : index target = some a) :
    ¬ Passes (home a) target gap := fun hpass => by
  obtain ⟨hlt, -⟩ := h.ranked target a ha gap hpass
  rcases h.scanned target a ha (by rw [dist_self]; exact Nat.zero_le k) with hdirect | hlow
  · have := hpass.dist_lt hdirect
    rw [dist_self] at this
    omega
  · omega

end Shifting

/-- The slots with a hole, before and after an element moves into it. -/
theorem update_move {index : Fin n → Option α} {gap j : Fin n} {a : α} (ha : index j = some a)
    (hne : gap ≠ j) :
    Function.update (Function.update index gap (some a)) j none =
      Function.update index gap none ∘ Equiv.swap gap j := by
  funext s
  rw [Function.comp_apply]
  by_cases hsj : s = j
  · rw [hsj, Function.update_self, Equiv.swap_apply_right, Function.update_self]
  · by_cases hsg : s = gap
    · rw [hsg, Function.update_of_ne hne, Function.update_self, Equiv.swap_apply_left,
        Function.update_of_ne hne.symm, ha]
    · rw [Function.update_of_ne hsj, Function.update_of_ne hsg,
        Equiv.swap_apply_of_ne_of_ne hsg hsj, Function.update_of_ne hsg]

/-- **The loop ends after at most one round**, and what it leaves is the slots with the hole, permuted,
in a ranked order. -/
theorem shiftBack_eq {home : α → Fin n} {target : Fin n} {rounds k : Nat} {rank : Fin n → Nat}
    {index : Fin n → Option α} {gap : Fin n}
    (h : Shifting home target rank k (Function.update index gap none) gap)
    (hgap : ∃ a, index gap = some a) (hk : k < n) (hrounds : k + rounds = n) :
    ∃ (σ : Equiv.Perm (Fin n)) (rank' : Fin n → Nat),
      shiftBack home target rounds index gap (advance target k) =
        some (Function.update index gap none ∘ σ) ∧
      Ranked home (Function.update index gap none ∘ σ) rank' := by
  -- the loop invariant `Shifting` carries the induction; the entries are only permuted
  induction rounds generalizing k rank index gap with
  | zero => omega
  | succ rounds ih =>
      have hstep : advance (advance target k) 1 = advance target (k + 1) := advance_advance ..
      rw [shiftBack, hstep]
      dsimp only
      set j := advance target (k + 1) with hjdef
      have hdist : k + 1 < n → dist target j = k + 1 := fun hlt => dist_advance target hlt
      have hround : k + 1 = n → j = target := fun hlast => by rw [hjdef, hlast, advance_full]
      cases ha : index j with
      | none =>
          refine ⟨Equiv.refl _, rank, rfl, ?_⟩
          by_cases hlast : k + 1 = n
          · exact h.stop_of_round hlast
          · -- an empty slot behind the gap ends the probe sequences
            have hjg : j ≠ gap := fun heq => by
              obtain ⟨b, hb⟩ := hgap
              rw [heq, hb] at ha
              cases ha
            refine h.stop_of_empty (hdist (by omega)) ?_
            rwa [Function.update_of_ne hjg]
      | some a =>
          dsimp only
          by_cases hlast : k + 1 = n
          · -- the loop is back at the target: nothing moves any more
            rw [if_pos (hround hlast)]
            refine ⟨Equiv.refl _, rank, ?_, h.stop_of_round hlast⟩
            by_cases hjg : gap = j
            · rw [hjg, dist_self, decide_eq_true (Nat.zero_le _)]
              simp
            · have htarget : Function.update index gap none target = some a := by
                rw [← hround hlast, Function.update_of_ne (Ne.symm hjg), ha]
              have hpass := h.not_passes_target htarget
              rw [← hround hlast, passes_iff hjg] at hpass
              simp [hpass]
          · have hj := hdist (by omega)
            have hbehind := h.behind
            have hjt : j ≠ target := fun heq => by rw [heq, dist_self] at hj; omega
            have hjg : gap ≠ j := fun heq => by rw [heq] at hbehind; omega
            have ha' : Function.update index gap none j = some a := by
              rw [Function.update_of_ne hjg.symm, ha]
            rw [if_neg hjt]
            by_cases hpass : Passes (home a) j gap
            · -- the entry moves into the gap, and its slot is the new gap
              have hmoved := h.move hj ha' hpass
              rw [← update_move ha hjg] at hmoved
              have hgap' : ∃ b, Function.update index gap (some a) j = some b :=
                ⟨a, by rw [Function.update_of_ne hjg.symm, ha]⟩
              obtain ⟨σ, rank', hresult, hranked⟩ := ih hmoved hgap' (by omega) (by omega)
              rw [update_move ha hjg, Function.comp_assoc] at hresult hranked
              refine ⟨σ.trans (Equiv.swap gap j), rank', ?_, hranked⟩
              rw [decide_eq_true ((passes_iff hjg).mp hpass)]
              exact hresult
            · -- the entry would lie before its home: it stays
              obtain ⟨σ, rank', hresult, hranked⟩ :=
                ih (h.keep hj ha' hpass) hgap (by omega) (by omega)
              refine ⟨σ, rank', ?_, hranked⟩
              rw [decide_eq_false (mt (passes_iff hjg).mpr hpass)]
              exact hresult

/-- **Deletion.** Closing the hole at the slot of an element ends, with a table that has all other
elements. -/
theorem Probed.shiftBack {home : α → Fin n} {index : Fin n → Option α} (h : Probed home index)
    {s : Fin n} {a : α} (hs : index s = some a) :
    ∃ index', shiftBack home s n index s s = some index' ∧ Probed home index' ∧
      ∀ b, Stored index' b ↔ b ≠ a ∧ Stored index b := by
  obtain ⟨rank, hrank⟩ := h.ranked
  obtain ⟨σ, rank', hresult, hranked⟩ :=
    shiftBack_eq (Shifting.start hrank) ⟨a, hs⟩ s.pos (Nat.zero_add n)
  rw [show advance s 0 = s from Fin.ext (Nat.mod_eq_of_lt s.isLt)] at hresult
  have hother : ∀ t b, Function.update index s none t = some b ↔ b ≠ a ∧ index t = some b := by
    intro t b
    by_cases hts : t = s
    · rw [hts, Function.update_self, hs]
      exact ⟨fun hb => (nomatch hb), fun ⟨hne, hb⟩ => absurd (Option.some.inj hb).symm hne⟩
    · rw [Function.update_of_ne hts]
      refine ⟨fun hb => ⟨?_, hb⟩, And.right⟩
      rintro rfl
      exact hts (h.inj _ _ _ hb hs)
  refine ⟨_, hresult, ⟨fun t u b ht hu => ?_, rank', hranked⟩, fun b => ?_⟩
  · exact σ.injective (h.inj _ _ b ((hother _ b).mp ht).2 ((hother _ b).mp hu).2)
  · have hperm : Stored (Function.update index s none ∘ σ) b ↔
        ∃ t, Function.update index s none t = some b :=
      (σ.surjective.exists (p := fun t => Function.update index s none t = some b)).symm
    rw [hperm, exists_congr fun t => hother t b, exists_and_left, Stored]

/-- A table with fewer elements than slots has an empty slot. -/
theorem exists_empty {index : Fin n → Option Nat} {count : Nat} (hcount : count < n)
    (hbound : ∀ a, Stored index a → a < count)
    (hinj : ∀ s t a, index s = some a → index t = some a → s = t) : ∃ s, index s = none := by
  by_contra hfull
  rw [not_exists] at hfull
  choose f hf using fun s => Option.ne_none_iff_exists'.mp (hfull s)
  have hf' : Function.Injective fun s => (⟨f s, hbound _ ⟨s, hf s⟩⟩ : Fin count) := by
    intro s t hst
    have heq : f s = f t := congrArg Fin.val hst
    exact hinj s t (f s) (hf s) (heq ▸ hf t)
  have := Fintype.card_le_of_injective _ hf'
  rw [Fintype.card_fin, Fintype.card_fin] at this
  omega

end AeronRs.ProbeTable
