import Mathlib.Data.Nat.Log
import Mathlib.Data.Int.Bitwise
import Mathlib.Tactic.Ring

/-! # Fixed-width integer arithmetic

32-bit words are `BitVec 32`, whose `+` and `-` wrap; `toInt` reads one as signed. 64-bit positions
are integers, and **`wrapI64`** is written where an operation wraps. The lemmas say that within the
range of the type the wrapped operation is the mathematical one, and how shifts, masks and powers of
two act. -/

namespace AeronRs

/-- The signed 64-bit number congruent to `x`. -/
def wrapI64 (x : Int) : Int := x.bmod (2 ^ 64)

theorem wrapI64_of_range {x : Int} (h₁ : -2 ^ 63 ≤ x) (h₂ : x < 2 ^ 63) : wrapI64 x = x :=
  Int.bmod_eq_of_le (by norm_num at *; omega) (by norm_num at *; omega)

/-- A number is in the range of a signed 64-bit one. -/
def FitsI64 (x : Int) : Prop := -2 ^ 63 ≤ x ∧ x < 2 ^ 63

theorem FitsI64.wrapI64_eq {x : Int} (h : FitsI64 x) : wrapI64 x = x := wrapI64_of_range h.1 h.2

/-- `x & mask` on a signed 64-bit `x` and a non-negative mask. -/
def landI64 (x : Int) (mask : Nat) : Nat := (x % 2 ^ 64).toNat &&& mask

theorem landI64_two_pow (x : Int) {k : Nat} (hk : k ≤ 64) :
    landI64 x (2 ^ k - 1) = (x % 2 ^ k).toNat := by
  obtain ⟨n, hn⟩ := Int.eq_ofNat_of_zero_le (Int.emod_nonneg x (show (2 : Int) ^ 64 ≠ 0 by norm_num))
  have hmod : x % 2 ^ k = ((n % 2 ^ k : Nat) : Int) := by
    rw [← Int.emod_emod_of_dvd x (pow_dvd_pow 2 hk), hn]
    push_cast
    rfl
  rw [landI64, Nat.and_two_pow_sub_one_eq_mod, hn, hmod, Int.toNat_natCast, Int.toNat_natCast]

theorem landI64_natCast (q k : Nat) (hk : k ≤ 64) :
    landI64 (q : Int) (2 ^ k - 1) = q % 2 ^ k := by
  have hcast : (q : Int) % 2 ^ k = ((q % 2 ^ k : Nat) : Int) := by
    push_cast
    rfl
  rw [landI64_two_pow _ hk, hcast, Int.toNat_natCast]

/-- Shifting a non-negative number right by `k` divides it by `2 ^ k`. -/
theorem natCast_shiftRight (q k : Nat) : ((q : Int) >>> k) = ((q / 2 ^ k : Nat) : Int) := by
  rw [Int.shiftRight_eq_div_pow, Int.natCast_div]

def isPowerOfTwo (n : Nat) : Bool := n == 2 ^ n.log2

theorem exists_of_isPowerOfTwo {n : Nat} (h : isPowerOfTwo n = true) : ∃ k, n = 2 ^ k :=
  ⟨n.log2, by simpa [isPowerOfTwo] using h⟩

/-- The number of low zero bits of an `n` of the given width. -/
def trailingZeros : Nat → Nat → Nat
  | 0, _ => 0
  | w + 1, n => if n % 2 = 1 then 0 else trailingZeros w (n / 2) + 1

/-- A power of two has as many low zero bits as its exponent. -/
theorem trailingZeros_two_pow {w k : Nat} (h : k ≤ w) : trailingZeros w (2 ^ k) = k := by
  induction w generalizing k with
  | zero =>
      obtain rfl : k = 0 := by omega
      rfl
  | succ w ih =>
      cases k with
      | zero => rfl
      | succ k =>
          have hdiv : 2 ^ (k + 1) / 2 = 2 ^ k := by rw [pow_succ, Nat.mul_div_cancel _ (by omega)]
          have hmod : ¬ 2 ^ (k + 1) % 2 = 1 := by rw [pow_succ, Nat.mul_mod_left]; omega
          rw [trailingZeros, if_neg hmod, hdiv, ih (by omega)]

/-! ## Signed 32-bit words -/

/-- A wrapped difference that is in range is the difference. -/
theorem toInt_sub_of_range {x y : BitVec 32} (hlo : -2 ^ 31 ≤ x.toInt - y.toInt)
    (hhi : x.toInt - y.toInt < 2 ^ 31) : (x - y).toInt = x.toInt - y.toInt := by
  rw [BitVec.toInt_sub]
  exact Int.bmod_eq_of_le (by norm_num at *; omega) (by norm_num at *; omega)

/-- **A wrapped difference of small numbers is their difference.** -/
theorem toInt_ofNat_sub_ofNat {a b : Nat} (ha : a < 2 ^ 31) (hb : b < 2 ^ 31) :
    (BitVec.ofNat 32 a - BitVec.ofNat 32 b).toInt = (a : Int) - b := by
  have ha' : (BitVec.ofNat 32 a).toInt = a := by
    rw [BitVec.toInt_eq_toNat_of_lt (by rw [BitVec.toNat_ofNat]; omega), BitVec.toNat_ofNat]
    omega
  have hb' : (BitVec.ofNat 32 b).toInt = b := by
    rw [BitVec.toInt_eq_toNat_of_lt (by rw [BitVec.toNat_ofNat]; omega), BitVec.toNat_ofNat]
    omega
  rw [toInt_sub_of_range (by omega) (by omega), ha', hb']

/-- A word widened with its sign and cut back is itself. -/
theorem ofNat_toNat_signExtend (x : BitVec 32) : BitVec.ofNat 32 (x.signExtend 64).toNat = x := by
  have hlt := x.isLt
  apply BitVec.eq_of_toNat_eq
  rw [BitVec.toNat_ofNat, BitVec.toNat_signExtend, BitVec.toNat_setWidth]
  split_ifs <;> omega

/-- A small number keeps its value when its word is widened with its sign. -/
theorem toNat_signExtend_ofNat {a : Nat} (ha : a < 2 ^ 31) :
    ((BitVec.ofNat 32 a).signExtend 64).toNat = a := by
  have hmsb : (BitVec.ofNat 32 a).msb = false := by
    rw [BitVec.msb_eq_false_iff_two_mul_lt, BitVec.toNat_ofNat]
    omega
  rw [BitVec.signExtend_eq_setWidth_of_msb_false hmsb, BitVec.toNat_setWidth, BitVec.toNat_ofNat]
  omega

/-- A small number read as a signed word is itself. -/
theorem toInt_ofNat_of_lt {a : Nat} (ha : a < 2 ^ 31) : (BitVec.ofNat 32 a).toInt = a := by
  have h := toInt_ofNat_sub_ofNat ha (show 0 < 2 ^ 31 by norm_num)
  simpa using h

/-- A word that is not negative as a signed one is the same number as an unsigned one. -/
theorem toNat_eq_toInt {w : BitVec 32} (h : 0 ≤ w.toInt) : (w.toNat : Int) = w.toInt := by
  have hlt := w.isLt
  rw [BitVec.toInt_eq_toNat_cond] at h ⊢
  split_ifs at h ⊢ <;> omega

/-- A common base cancels in a wrapped difference. -/
theorem add_sub_add_left_word (i x y : BitVec 32) : i + x - (i + y) = x - y := by
  rw [BitVec.sub_eq_iff_eq_add]
  rw [BitVec.add_comm i y, ← BitVec.add_assoc, BitVec.sub_add_cancel, BitVec.add_comm]

/-- Small offsets from one base are told apart. -/
theorem add_ofNat_inj {a b : Nat} (i : BitVec 32) (ha : a < 2 ^ 32) (hb : b < 2 ^ 32) :
    i + BitVec.ofNat 32 a = i + BitVec.ofNat 32 b ↔ a = b := by
  rw [BitVec.add_right_inj, ← BitVec.toNat_inj, BitVec.toNat_ofNat, BitVec.toNat_ofNat,
    Nat.mod_eq_of_lt ha, Nat.mod_eq_of_lt hb]

/-- **Counting terms.** The signed wrapped difference of two words that are small offsets from one
base is the difference of the offsets. -/
theorem toInt_add_sub_add {a b : Nat} (i : BitVec 32) (ha : a < 2 ^ 31) (hb : b < 2 ^ 31) :
    (i + BitVec.ofNat 32 a - (i + BitVec.ofNat 32 b)).toInt = (a : Int) - b := by
  rw [add_sub_add_left_word, toInt_ofNat_sub_ofNat ha hb]

/-- The signed wrapped distance of a word from its base. -/
theorem toInt_add_sub_base {a : Nat} (i : BitVec 32) (ha : a < 2 ^ 31) :
    (i + BitVec.ofNat 32 a - i).toInt = a := by
  rw [BitVec.add_comm, BitVec.add_sub_cancel, toInt_ofNat_of_lt ha]

theorem toNat_add_sub_add {a b : Nat} (i : BitVec 32) (ha : a < 2 ^ 32) (hb : b < 2 ^ 32) :
    (i + BitVec.ofNat 32 a - (i + BitVec.ofNat 32 b)).toNat =
      if b ≤ a then a - b else 2 ^ 32 + a - b := by
  rw [add_sub_add_left_word, BitVec.toNat_sub, BitVec.toNat_ofNat, BitVec.toNat_ofNat]
  split_ifs <;> omega

end AeronRs
