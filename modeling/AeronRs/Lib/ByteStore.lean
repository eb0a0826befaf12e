import Mathlib.Data.Nat.ModEq
import Mathlib.Data.List.GetD

/-! # Byte stores, little-endian words and ring addressing

A **byte store** is a total map from addresses to bytes; a buffer of a fixed length is a byte store
of which only the first addresses are used. The file has three independent parts:

* bulk **`write`**, **`fill`** and **`read`** with their frame laws (what a write leaves alone) and
  the law that a read of what was written gives it back;
* **`toLE`/`ofLE`** — the little-endian bytes of a number and back;
* **`slotOf`** — the address of a stream position in a ring of `n` partitions of length `T`, which
  is the position modulo `n * T`, hence injective on every window of that length. -/

namespace AeronRs

/-- A byte store: one byte at every address. -/
abbrev ByteStore := Nat → UInt8

namespace ByteStore

/-- Copy `bs` to the addresses `a, a + 1, …`. -/
def write (m : ByteStore) (a : Nat) (bs : List UInt8) : ByteStore :=
  fun i => if a ≤ i ∧ i < a + bs.length then bs.getD (i - a) 0 else m i

/-- Set `n` bytes from address `a` on to zero. -/
def fill (m : ByteStore) (a n : Nat) : ByteStore :=
  fun i => if a ≤ i ∧ i < a + n then 0 else m i

def read (m : ByteStore) (a n : Nat) : List UInt8 :=
  (List.range n).map fun i => m (a + i)

@[simp] theorem read_length (m : ByteStore) (a n : Nat) : (m.read a n).length = n := by
  simp [read]

theorem read_getElem (m : ByteStore) (a n i : Nat) (h : i < (m.read a n).length) :
    (m.read a n)[i] = m (a + i) := by
  simp [read]

/-- **A read depends only on the bytes it covers.** -/
theorem read_congr {m m' : ByteStore} {a a' n : Nat} (h : ∀ i < n, m (a + i) = m' (a' + i)) :
    m.read a n = m'.read a' n := by
  refine List.map_congr_left fun i hi => ?_
  exact h i (List.mem_range.mp hi)

theorem eq_of_read_eq {m m' : ByteStore} {a a' n : Nat} (h : m.read a n = m'.read a' n)
    {i : Nat} (hi : i < n) : m (a + i) = m' (a' + i) := by
  have hl := congrArg (fun l => l[i]?) h
  simpa [read, hi] using hl

theorem read_append (m : ByteStore) (a n k : Nat) :
    m.read a (n + k) = m.read a n ++ m.read (a + n) k := by
  simp only [read, List.range_add, List.map_append, List.map_map, Function.comp_def, Nat.add_assoc]

theorem read_take (m : ByteStore) (a n k : Nat) (h : k ≤ n) :
    (m.read a n).take k = m.read a k := by
  obtain ⟨d, rfl⟩ := Nat.exists_eq_add_of_le h
  rw [read_append, List.take_left' (read_length m a k)]

/-- The bytes of a read from `k` on are a read further along. -/
theorem read_drop (m : ByteStore) (a n k : Nat) (h : k ≤ n) :
    (m.read a n).drop k = m.read (a + k) (n - k) := by
  obtain ⟨d, rfl⟩ := Nat.exists_eq_add_of_le h
  rw [read_append, List.drop_left' (read_length m a k), Nat.add_sub_cancel_left]

theorem write_of_outside (m : ByteStore) (a : Nat) (bs : List UInt8) {i : Nat}
    (h : i < a ∨ a + bs.length ≤ i) : m.write a bs i = m i := by
  rw [write, if_neg (by omega)]

theorem write_of_inside (m : ByteStore) (a : Nat) (bs : List UInt8) {i : Nat}
    (h : i < bs.length) : m.write a bs (a + i) = bs[i] := by
  rw [write, if_pos (by omega), Nat.add_sub_cancel_left, List.getD_eq_getElem _ _ h]

theorem fill_of_outside (m : ByteStore) (a n : Nat) {i : Nat} (h : i < a ∨ a + n ≤ i) :
    m.fill a n i = m i := by
  rw [fill, if_neg (by omega)]

theorem fill_of_inside (m : ByteStore) (a n : Nat) {i : Nat} (h₁ : a ≤ i) (h₂ : i < a + n) :
    m.fill a n i = 0 := by
  rw [fill, if_pos ⟨h₁, h₂⟩]

/-- **Reading back a write.** -/
theorem read_write_same (m : ByteStore) (a : Nat) (bs : List UInt8) :
    (m.write a bs).read a bs.length = bs := by
  apply List.ext_getElem
  · simp
  · intro i h₁ h₂
    rw [read_getElem, write_of_inside m a bs h₂]

/-- **Frame law of a write.** A read disjoint from the bytes written is unchanged. -/
theorem read_write_disjoint (m : ByteStore) {a b n : Nat} {bs : List UInt8}
    (h : b + n ≤ a ∨ a + bs.length ≤ b) : (m.write a bs).read b n = m.read b n :=
  read_congr fun i hi => write_of_outside m a bs (by omega)

/-- Writing two adjacent pieces is writing their concatenation. -/
theorem write_write_append (m : ByteStore) (a : Nat) (bs cs : List UInt8) :
    (m.write a bs).write (a + bs.length) cs = m.write a (bs ++ cs) := by
  funext i
  by_cases h₁ : i < a
  · rw [write_of_outside _ _ _ (Or.inl (by omega)), write_of_outside _ _ _ (Or.inl h₁),
      write_of_outside _ _ _ (Or.inl h₁)]
  by_cases h₂ : i < a + bs.length
  · obtain ⟨j, rfl⟩ := Nat.exists_eq_add_of_le (Nat.le_of_not_lt h₁)
    have hj : j < bs.length := by omega
    rw [write_of_outside _ _ _ (Or.inl h₂), write_of_inside _ _ _ hj,
      write_of_inside _ _ _ (by rw [List.length_append]; omega), List.getElem_append_left hj]
  by_cases h₃ : i < a + bs.length + cs.length
  · obtain ⟨j, rfl⟩ := Nat.exists_eq_add_of_le (Nat.le_of_not_lt h₂)
    have hj : j < cs.length := by omega
    rw [write_of_inside _ _ _ hj, Nat.add_assoc a, write_of_inside _ _ _
      (by rw [List.length_append]; omega), List.getElem_append_right (by omega)]
    simp
  · rw [write_of_outside _ _ _ (Or.inr (by omega)), write_of_outside _ _ _ (Or.inr (by omega)),
      write_of_outside _ _ _ (Or.inr (by rw [List.length_append]; omega))]

/-- A write over bytes that a later, longer write at the same address covers is lost. -/
theorem write_write_cover (m : ByteStore) (a : Nat) {bs cs : List UInt8}
    (h : bs.length ≤ cs.length) : (m.write a bs).write a cs = m.write a cs := by
  funext i
  by_cases hi : a ≤ i ∧ i < a + cs.length
  · simp only [write, if_pos hi]
  · rw [write_of_outside _ _ _ (by omega), write_of_outside _ _ _ (by omega),
      write_of_outside _ _ _ (by omega)]

/-- Writing the tail of a block and then its head is writing the block. -/
theorem write_tail_head (m : ByteStore) (a : Nat) (bs cs : List UInt8) :
    (m.write (a + bs.length) cs).write a bs = m.write a (bs ++ cs) := by
  rw [← write_write_append]
  funext i
  by_cases hi : a ≤ i ∧ i < a + bs.length
  · obtain ⟨j, rfl⟩ := Nat.exists_eq_add_of_le hi.1
    have hj : j < bs.length := by omega
    rw [write_of_inside _ _ _ hj, write_of_outside _ (a + bs.length) _ (Or.inl hi.2),
      write_of_inside _ _ _ hj]
  · rw [write_of_outside _ a _ (by omega)]
    simp only [write, if_neg hi]

/-- Writing a block and then another head over it is writing the block with that head. -/
theorem write_replace_head (m : ByteStore) (a : Nat) {bs bs' : List UInt8} (cs : List UInt8)
    (h : bs.length = bs'.length) :
    (m.write a (bs ++ cs)).write a bs' = m.write a (bs' ++ cs) := by
  have hcover := write_write_cover (m.write (a + bs'.length) cs) a (le_of_eq h)
  rw [← write_tail_head, h, hcover, write_tail_head]

end ByteStore

/-! ## Little-endian words -/

/-- The `n` low bytes of `x`, least significant first. -/
def toLE : Nat → Nat → List UInt8
  | 0, _ => []
  | n + 1, x => UInt8.ofNat x :: toLE n (x / 256)

/-- The number whose little-endian bytes are given. -/
def ofLE : List UInt8 → Nat
  | [] => 0
  | b :: bs => b.toNat + 256 * ofLE bs

@[simp] theorem toLE_length (n x : Nat) : (toLE n x).length = n := by
  induction n generalizing x with
  | zero => rfl
  | succ n ih => rw [toLE, List.length_cons, ih]

/-- **Round trip.** Decoding the `n` low bytes of `x` gives `x` modulo `256 ^ n`. -/
theorem ofLE_toLE (n x : Nat) : ofLE (toLE n x) = x % 256 ^ n := by
  induction n generalizing x with
  | zero => rw [toLE, ofLE, pow_zero, Nat.mod_one]
  | succ n ih =>
      rw [toLE, ofLE, ih, pow_succ, Nat.mul_comm (256 ^ n), Nat.mod_mul]
      simp

/-- Encoding is injective on numbers of at most `n` bytes. -/
theorem toLE_inj {n x y : Nat} (hx : x < 256 ^ n) (hy : y < 256 ^ n) (h : toLE n x = toLE n y) :
    x = y := by
  have := congrArg ofLE h
  rwa [ofLE_toLE, ofLE_toLE, Nat.mod_eq_of_lt hx, Nat.mod_eq_of_lt hy] at this

/-- The number of some bytes is below that power of 256. -/
theorem ofLE_lt (bs : List UInt8) : ofLE bs < 256 ^ bs.length := by
  induction bs with
  | nil => simp [ofLE]
  | cons b bs ih =>
      have hb := b.toNat_lt
      rw [ofLE, List.length_cons, pow_succ]
      omega

/-- **Round trip** from bytes. -/
theorem toLE_ofLE {n : Nat} {bs : List UInt8} (h : bs.length = n) : toLE n (ofLE bs) = bs := by
  subst h
  induction bs with
  | nil => rfl
  | cons b bs ih =>
      have hb := b.toNat_lt
      have hdiv : (b.toNat + 256 * ofLE bs) / 256 = ofLE bs := by omega
      have hbyte : UInt8.ofNat (b.toNat + 256 * ofLE bs) = b := by
        apply UInt8.toNat_inj.mp
        rw [UInt8.toNat_ofNat']
        omega
      rw [ofLE, List.length_cons, toLE, hdiv, hbyte, ih]

theorem ofLE_eq_zero {bs : List UInt8} (h : ∀ b ∈ bs, b = 0) : ofLE bs = 0 := by
  induction bs with
  | nil => rfl
  | cons b bs ih =>
      rw [ofLE, ih fun c hc => h c (List.mem_cons_of_mem b hc), h b List.mem_cons_self]
      rfl

/-! ## Ring addressing -/

/-- The address of stream position `q` in a ring of `n` partitions of length `T`. -/
def slotOf (n T q : Nat) : Nat := q / T % n * T + q % T

/-- Partitioned addressing is addressing modulo the whole ring. -/
theorem slotOf_eq_mod (n T q : Nat) : slotOf n T q = q % (T * n) := by
  rw [slotOf, Nat.mod_mul, Nat.add_comm, Nat.mul_comm T]

/-- **Injectivity on a window.** Two positions less than one ring length apart that share an address
are equal. -/
theorem eq_of_slotOf_eq {n T q q' : Nat} (h : slotOf n T q = slotOf n T q')
    (h₁ : q < q' + T * n) (h₂ : q' < q + T * n) : q = q' := by
  rw [slotOf_eq_mod, slotOf_eq_mod] at h
  rcases Nat.le_total q q' with hle | hle
  · have hd := Nat.eq_zero_of_dvd_of_lt ((Nat.modEq_iff_dvd' hle).mp h) (by omega)
    omega
  · have hd := Nat.eq_zero_of_dvd_of_lt ((Nat.modEq_iff_dvd' hle).mp h.symm) (by omega)
    omega

theorem term_offset_of_lt (k : Nat) {T o : Nat} (h : o < T) :
    (k * T + o) / T = k ∧ (k * T + o) % T = o := by
  have hT : 0 < T := by omega
  constructor
  · rw [Nat.add_comm, Nat.add_mul_div_right _ _ hT, Nat.div_eq_of_lt h, Nat.zero_add]
  · rw [Nat.add_comm, Nat.add_mul_mod_self_right, Nat.mod_eq_of_lt h]

/-- A position inside the partition of term `k` at offset `o`. -/
theorem slotOf_term (n T k : Nat) {o : Nat} (h : o < T) :
    slotOf n T (k * T + o) = k % n * T + o := by
  obtain ⟨hdiv, hmod⟩ := term_offset_of_lt k h
  rw [slotOf, hdiv, hmod]

/-- Addresses inside one partition are consecutive. -/
theorem slotOf_add (n T q i : Nat) (h : q % T + i < T) : slotOf n T (q + i) = slotOf n T q + i := by
  have hq : q + i = q / T * T + (q % T + i) := by rw [← Nat.add_assoc, Nat.div_add_mod']
  rw [hq, slotOf_term n T _ h, slotOf, Nat.add_assoc]

/-- **Frame law of a ring write.** A write of stream positions `[q, q + bs.length)` inside one
partition leaves every other position of the same ring window alone. -/
theorem ByteStore.write_slotOf_of_outside (m : ByteStore) {n T q p : Nat} {bs : List UInt8}
    (hfit : q % T + bs.length ≤ T) (hout : p < q ∨ q + bs.length ≤ p)
    (hlo : q + bs.length ≤ p + T * n) (hhi : p < q + T * n) :
    m.write (slotOf n T q) bs (slotOf n T p) = m (slotOf n T p) := by
  refine m.write_of_outside _ _ ?_
  by_contra hin
  -- an address inside the write belongs to a written position, which must then be `p`
  obtain ⟨i, hi⟩ := Nat.exists_eq_add_of_le (show slotOf n T q ≤ slotOf n T p by omega)
  have hp : slotOf n T p = slotOf n T (q + i) := by rw [slotOf_add n T q i (by omega), hi]
  have := eq_of_slotOf_eq hp (by omega) (by omega)
  omega

/-- **Frame law of cleaning a partition.** Zeroing the partition of term `k` leaves every position
outside that term, within one ring window, alone. -/
theorem ByteStore.fill_slotOf_of_outside (m : ByteStore) {n T k p : Nat}
    (hout : p < k * T ∨ k * T + T ≤ p) (hlo : k * T + T ≤ p + T * n) (hhi : p < k * T + T * n) :
    m.fill (k % n * T) T (slotOf n T p) = m (slotOf n T p) := by
  refine m.fill_of_outside _ _ ?_
  by_contra hin
  obtain ⟨i, hi⟩ := Nat.exists_eq_add_of_le (show k % n * T ≤ slotOf n T p by omega)
  have hp : slotOf n T p = slotOf n T (k * T + i) := by
    rw [slotOf_term n T k (show i < T by omega), hi]
  have := eq_of_slotOf_eq hp (by omega) (by omega)
  omega

end AeronRs
