import AeronRs.Lib.Budget

/-! # Variable-length records in a ring

A ring of `C` bytes holds records of different lengths one behind another. A record at stream
position `p` starts at address `p % C` and does not run over the end of the ring. **`Laid`** says that
the records of a list follow one another between two positions; **`Laid.apart`** that records which
together are no longer than the ring do not share an address, so that writing one leaves the others
alone. -/

namespace AeronRs

/-- Two ranges of addresses, given by their first address and length, do not meet. -/
def RangesApart (a n b k : Nat) : Prop := a + n ≤ b ∨ b + k ≤ a

theorem RangesApart.symm {a n b k : Nat} (h : RangesApart a n b k) : RangesApart b k a n := Or.symm h

/-- A part of a range does not meet what the range does not meet. -/
theorem RangesApart.sub {a n b k a' n' : Nat} (h : RangesApart a n b k) (hlo : a ≤ a') (hhi : a' + n' ≤ a + n) :
    RangesApart a' n' b k := by
  unfold RangesApart at *
  omega

/-- **Addresses within one turn of the ring.** Two ranges of positions, one behind the other and less
than a turn long together, do not meet in the ring. -/
theorem rangesApart_mod {C p n q k : Nat} (hpos : 0 < k) (hpq : p + n ≤ q) (hqp : q + k ≤ p + C) : RangesApart (p % C) n (q % C) k := by
  have hp := Nat.div_add_mod p C
  have hq := Nat.div_add_mod q C
  have hC : 0 < C := by omega
  have hplt := Nat.mod_lt p hC
  -- the second range is in the same turn as the first or in the next one
  rcases Nat.lt_trichotomy (q / C) (p / C + 1) with hlt | heq | hgt
  · have := Nat.mul_le_mul_left C (Nat.le_of_lt_succ hlt)
    unfold RangesApart
    omega
  · rw [heq, Nat.mul_succ] at hq
    unfold RangesApart
    omega
  · have := Nat.mul_le_mul_left C (Nat.succ_le_of_lt hgt)
    rw [Nat.mul_succ, Nat.mul_succ] at this
    omega

section Layout

variable {ρ : Type*} {address length : ρ → Nat}

/-- **Layout.** The records follow one another from position `a` to position `b`, each at the address
of its position and inside the ring. -/
def Laid (C : Nat) (address length : ρ → Nat) : Nat → List ρ → Nat → Prop
  | a, [], b => a = b
  | a, r :: rs, b =>
      address r = a % C ∧ 0 < length r ∧ a % C + length r ≤ C ∧
        Laid C address length (a + length r) rs b

@[simp] theorem laid_nil {C a b : Nat} : Laid C address length a [] b ↔ a = b := Iff.rfl

@[simp] theorem laid_cons {C a b : Nat} {r : ρ} {rs : List ρ} :
    Laid C address length a (r :: rs) b ↔ address r = a % C ∧ 0 < length r ∧
      a % C + length r ≤ C ∧ Laid C address length (a + length r) rs b := Iff.rfl

theorem laid_append {C a c : Nat} {rs rs' : List ρ} :
    Laid C address length a (rs ++ rs') c ↔
      ∃ b, Laid C address length a rs b ∧ Laid C address length b rs' c := by
  induction rs generalizing a with
  | nil => simp
  | cons r rs ih =>
      simp only [List.cons_append, laid_cons, ih]
      constructor
      · rintro ⟨haddr, hpos, hin, b, h₁, h₂⟩
        exact ⟨b, ⟨haddr, hpos, hin, h₁⟩, h₂⟩
      · rintro ⟨b, ⟨haddr, hpos, hin, h₁⟩, h₂⟩
        exact ⟨haddr, hpos, hin, b, h₁, h₂⟩

namespace Laid

theorem le {C a b : Nat} {rs : List ρ} (h : Laid C address length a rs b) : a ≤ b := by
  induction rs generalizing a with
  | nil => exact Nat.le_of_eq h
  | cons r rs ih =>
      have := ih h.2.2.2
      omega

/-- The positions are as far apart as the records are long. -/
theorem eq_add_total {C a b : Nat} {rs : List ρ} (h : Laid C address length a rs b) :
    b = a + total length rs := by
  induction rs generalizing a with
  | nil => exact h.symm
  | cons r rs ih => rw [ih h.2.2.2, total_cons, Nat.add_assoc]

/-- A layout from a position to itself is empty. -/
theorem eq_nil {C a : Nat} {rs : List ρ} (h : Laid C address length a rs a) : rs = [] := by
  cases rs with
  | nil => rfl
  | cons r rs =>
      have := h.2.1
      have := h.2.2.2.le
      omega

/-- Each record of a layout has a position between its ends. -/
theorem mem {C a b : Nat} {rs : List ρ} (h : Laid C address length a rs b) {r : ρ} (hr : r ∈ rs) :
    ∃ p, a ≤ p ∧ p + length r ≤ b ∧ address r = p % C ∧ p % C + length r ≤ C ∧ 0 < length r := by
  induction rs generalizing a with
  | nil => exact absurd hr List.not_mem_nil
  | cons r' rs ih =>
      obtain ⟨haddr, hpos, hin, hrest⟩ := h
      rcases List.mem_cons.mp hr with rfl | hmem
      · exact ⟨a, Nat.le_refl a, hrest.le, haddr, hin, hpos⟩
      · obtain ⟨p, hlo, hp⟩ := ih hrest hmem
        exact ⟨p, by omega, hp⟩

/-- A record that is laid behind others in the same turn does not meet any of them. -/
theorem apart_of_mem {C a b q k : Nat} {rs : List ρ} (h : Laid C address length a rs b)
    (hturn : q + k ≤ a + C) (hq : b ≤ q) (hpos : 0 < k) {r : ρ} (hr : r ∈ rs) :
    RangesApart (address r) (length r) (q % C) k := by
  obtain ⟨p, hlo, hhi, haddr, -, -⟩ := h.mem hr
  rw [haddr]
  exact rangesApart_mod hpos (by omega) (by omega)

/-- **Records of one turn do not meet.** -/
theorem apart {C a b : Nat} {rs : List ρ} (h : Laid C address length a rs b) (hturn : b ≤ a + C) :
    rs.Pairwise fun r r' => RangesApart (address r) (length r) (address r') (length r') := by
  induction rs generalizing a with
  | nil => exact .nil
  | cons r rs ih =>
      obtain ⟨haddr, hpos, hin, hrest⟩ := h
      refine List.pairwise_cons.mpr ⟨fun r' hr' => ?_, ih hrest (by omega)⟩
      obtain ⟨p, hlo, hhi, haddr', hfit, hpos'⟩ := hrest.mem hr'
      rw [haddr, haddr']
      exact rangesApart_mod hpos' hlo (by omega)

/-- Records of some length at least take up that much each. -/
theorem length_mul_le {C a b k : Nat} {rs : List ρ} (h : Laid C address length a rs b)
    (hk : ∀ r ∈ rs, k ≤ length r) : a + rs.length * k ≤ b := by
  induction rs generalizing a with
  | nil => simpa using Nat.le_of_eq h
  | cons r rs ih =>
      have hr := hk r List.mem_cons_self
      have := ih h.2.2.2 fun r' hr' => hk r' (List.mem_cons_of_mem r hr')
      rw [List.length_cons, Nat.succ_mul]
      omega

end Laid

end Layout

end AeronRs
