import AeronRs.Lib.ByteStore

/-! # A ring as a window of a stream

A stream has a byte at every position; a ring of `n` partitions of length `T` has room for the last
`T * n` of them. **`Mirrors n T lo hi m S`** says that the ring `m` holds the bytes of the stream `S`
at the positions from `lo` to `hi`. A write to both keeps it, and cleaning the partition of the next
term moves the window on, provided that the stream has nothing there yet.

The last section cleans partitions of cells of any type, with no stream behind them. -/

namespace AeronRs

/-- The ring holds the bytes of the stream between two positions. -/
def Mirrors (n T lo hi : Nat) (m S : ByteStore) : Prop :=
  ∀ q, lo ≤ q → q < hi → m (slotOf n T q) = S q

namespace Mirrors

variable {n T lo hi : Nat} {m S : ByteStore}

/-- **A write inside the window** to the ring and the stream. -/
theorem write (h : Mirrors n T lo hi m S) (hwindow : hi ≤ lo + T * n) {q : Nat} {bs : List UInt8}
    (hfit : q % T + bs.length ≤ T) (hlo : lo ≤ q) (hhi : q + bs.length ≤ hi) :
    Mirrors n T lo hi (m.write (slotOf n T q) bs) (S.write q bs) := by
  intro p hp hp'
  by_cases hin : q ≤ p ∧ p < q + bs.length
  · obtain ⟨i, rfl⟩ := Nat.exists_eq_add_of_le hin.1
    have hi : i < bs.length := by omega
    rw [slotOf_add n T q i (by omega), m.write_of_inside _ _ hi, S.write_of_inside _ _ hi]
  · rw [m.write_slotOf_of_outside hfit (by omega) (by omega) (by omega),
      S.write_of_outside _ _ (by omega)]
    exact h p hp hp'

/-- **Cleaning the next partition** moves the window on by one term. -/
theorem fill {k lo' : Nat} (h : Mirrors n T lo (k * T) m S) (hlo : lo ≤ lo')
    (hwindow : k * T + T ≤ lo' + T * n)
    (hzero : ∀ q, k * T ≤ q → q < k * T + T → S q = 0) :
    Mirrors n T lo' (k * T + T) (m.fill (k % n * T) T) S := by
  intro p hp hp'
  by_cases hin : k * T ≤ p
  · obtain ⟨i, rfl⟩ := Nat.exists_eq_add_of_le hin
    have hi : i < T := by omega
    rw [slotOf_term n T k hi, m.fill_of_inside _ _ (by omega) (by omega), hzero _ hin hp']
  · rw [m.fill_slotOf_of_outside (by omega) (by omega) (by omega)]
    exact h p (by omega) (by omega)

/-- A ring that holds nothing but zeros does so for every later window of a stream that is zero from
the first on. -/
theorem shift (h : Mirrors n T lo (lo + T * n) m S) (hpos : 0 < T * n)
    (hzero : ∀ q, lo ≤ q → S q = 0) {lo' hi' : Nat} (hlo : lo ≤ lo') : Mirrors n T lo' hi' m S := by
  intro p hp _
  -- the position of the first window that shares the address
  have hmod := Nat.mod_lt (p - lo) hpos
  have hsame : slotOf n T p = slotOf n T (lo + (p - lo) % (T * n)) := by
    rw [slotOf_eq_mod, slotOf_eq_mod, Nat.add_mod_mod, Nat.add_sub_cancel' (by omega)]
  rw [hsame, h _ (by omega) (by omega), hzero _ (by omega), hzero _ (by omega)]

/-- Reads inside the window and one partition agree. -/
theorem read_eq (h : Mirrors n T lo hi m S) {q k : Nat} (hlo : lo ≤ q) (hhi : q + k ≤ hi)
    (hfit : q % T + k ≤ T) : m.read (slotOf n T q) k = S.read q k := by
  apply ByteStore.read_congr
  intro i hi
  rw [← h (q + i) (by omega) (by omega), slotOf_add n T q i (by omega)]

end Mirrors

/-! ## Cleaning partitions -/

section Cells

variable {α : Type*} {T : Nat}

/-- Set every cell of a partition to one value. -/
def cleanCells (T : Nat) (z : α) (m : Nat → α) (p : Nat) : Nat → α :=
  fun a => if p * T ≤ a ∧ a < p * T + T then z else m a

/-- An address lies in the partition that it is written with. -/
theorem mem_partition_iff {p q o : Nat} (ho : o < T) :
    q * T ≤ p * T + o ∧ p * T + o < q * T + T ↔ q = p := by
  constructor
  · rintro ⟨hlo, hhi⟩
    rcases Nat.lt_trichotomy q p with hlt | heq | hlt
    · have := Nat.mul_le_mul_right T (Nat.succ_le_of_lt hlt)
      rw [Nat.succ_mul] at this
      omega
    · exact heq
    · have := Nat.mul_le_mul_right T (Nat.succ_le_of_lt hlt)
      rw [Nat.succ_mul] at this
      omega
  · rintro rfl
    omega

/-- **Cleaning several partitions** cleans the cells of exactly these. -/
theorem foldl_cleanCells (z : α) (m : Nat → α) (ps : List Nat) {p o : Nat} (ho : o < T) :
    ps.foldl (cleanCells T z) m (p * T + o) = if p ∈ ps then z else m (p * T + o) := by
  induction ps generalizing m with
  | nil => simp
  | cons q ps ih =>
      rw [List.foldl_cons, ih]
      by_cases hmem : p ∈ ps
      · rw [if_pos hmem, if_pos (List.mem_cons_of_mem q hmem)]
      · rw [if_neg hmem, cleanCells]
        by_cases hq : q = p
        · rw [if_pos ((mem_partition_iff ho).mpr hq), if_pos (List.mem_cons.mpr (.inl hq.symm))]
        · rw [if_neg (mt (mem_partition_iff ho).mp hq), if_neg fun h =>
            (List.mem_cons.mp h).elim (fun h => hq h.symm) hmem]

/-- Cleaning commutes with looking at one part of every cell. -/
theorem comp_foldl_cleanCells {β : Type*} (g : α → β) (z : α) (m : Nat → α) (ps : List Nat) :
    g ∘ ps.foldl (cleanCells T z) m = ps.foldl (cleanCells T (g z)) (g ∘ m) := by
  induction ps generalizing m with
  | nil => rfl
  | cons p ps ih =>
      rw [List.foldl_cons, List.foldl_cons, ih]
      congr 1
      funext a
      unfold cleanCells
      rw [Function.comp_apply, apply_ite g]
      rfl

end Cells

end AeronRs
