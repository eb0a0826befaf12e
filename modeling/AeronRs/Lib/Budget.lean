import Mathlib.Data.List.Basic
import Mathlib.Algebra.Order.BigOperators.Group.List
import Mathlib.Algebra.Ring.Nat

/-! # Taking items while a byte budget lasts

A scan over items of varying weight with a budget `b` takes the next item whenever the weight taken
so far is still *below* `b`, so it may overshoot by part of one item. `takeBudget w b as` is what it
takes. The two characterisations at the end say, in terms of the items only, when the taken weight
stays below a bound and when at most `n` of the taken items are of a given kind. -/

namespace AeronRs

variable {α β : Type*}

/-- The items taken from `as` by a scan with budget `b`: each item that starts below the budget. -/
def takeBudget (w : α → Nat) : Nat → List α → List α
  | _, [] => []
  | b, a :: as => if 0 < b then a :: takeBudget w (b - w a) as else []

def total (w : α → Nat) (as : List α) : Nat := (as.map w).sum

@[simp] theorem total_nil (w : α → Nat) : total w [] = 0 := rfl

@[simp] theorem total_cons (w : α → Nat) (a : α) (as : List α) :
    total w (a :: as) = w a + total w as := by
  simp [total]

@[simp] theorem total_append (w : α → Nat) (as bs : List α) :
    total w (as ++ bs) = total w as + total w bs := by
  simp [total]

@[simp] theorem takeBudget_nil (w : α → Nat) (b : Nat) : takeBudget w b [] = [] := by
  cases b <;> rfl

@[simp] theorem takeBudget_zero (w : α → Nat) (as : List α) : takeBudget w 0 as = [] := by
  cases as <;> rfl

theorem takeBudget_cons_of_pos (w : α → Nat) {b : Nat} (h : 0 < b) (a : α) (as : List α) :
    takeBudget w b (a :: as) = a :: takeBudget w (b - w a) as := by
  rw [takeBudget, if_pos h]

/-- **Splitting at an item.** What a scan takes is an initial part of the items; the rest starts at
or beyond the budget. -/
theorem takeBudget_split (w : α → Nat) (b : Nat) (as : List α) :
    ∃ rest, as = takeBudget w b as ++ rest ∧ (rest ≠ [] → b ≤ total w (takeBudget w b as)) := by
  induction as generalizing b with
  | nil => exact ⟨[], by simp, by simp⟩
  | cons a as ih =>
      by_cases hb : 0 < b
      · obtain ⟨rest, has, hrest⟩ := ih (b - w a)
        refine ⟨rest, ?_, fun hne => ?_⟩
        · rw [takeBudget_cons_of_pos w hb, List.cons_append, ← has]
        · rw [takeBudget_cons_of_pos w hb, total_cons]
          have := hrest hne
          omega
      · obtain rfl : b = 0 := by omega
        exact ⟨a :: as, by simp, by simp⟩

/-- What lies behind the items that cover the budget does not matter. -/
theorem takeBudget_append_of_le (w : α → Nat) {b : Nat} {as : List α} (bs : List α)
    (h : b ≤ total w as) : takeBudget w b (as ++ bs) = takeBudget w b as := by
  induction as generalizing b with
  | nil =>
      obtain rfl : b = 0 := Nat.le_zero.mp h
      simp
  | cons a as ih =>
      rw [total_cons] at h
      by_cases hb : 0 < b
      · rw [List.cons_append, takeBudget_cons_of_pos w hb, takeBudget_cons_of_pos w hb,
          ih (by omega)]
      · obtain rfl : b = 0 := by omega
        simp

/-- Relabelling the items commutes with taking. -/
theorem takeBudget_map (w : β → Nat) (f : α → β) (b : Nat) (as : List α) :
    takeBudget w b (as.map f) = (takeBudget (fun a => w (f a)) b as).map f := by
  induction as generalizing b with
  | nil => simp
  | cons a as ih =>
      by_cases hb : 0 < b
      · rw [List.map_cons, takeBudget_cons_of_pos _ hb, takeBudget_cons_of_pos _ hb, List.map_cons,
          ih]
      · obtain rfl : b = 0 := by omega
        simp

/-- Only the weights of the items themselves matter. -/
theorem takeBudget_congr {w w' : α → Nat} {b : Nat} {as : List α} (h : ∀ a ∈ as, w a = w' a) :
    takeBudget w b as = takeBudget w' b as := by
  induction as generalizing b with
  | nil => simp
  | cons a as ih =>
      rw [takeBudget, takeBudget, h a List.mem_cons_self,
        ih fun x hx => h x (List.mem_cons_of_mem a hx)]

/-- A cap that no item reaches does not change what is taken. -/
theorem takeBudget_min_of_total_le (w : α → Nat) (b : Nat) {c : Nat} {as : List α}
    (h : total w as ≤ c) (hpos : ∀ a ∈ as, 0 < w a) :
    takeBudget w (min b c) as = takeBudget w b as := by
  induction as generalizing b c with
  | nil => simp
  | cons a as ih =>
      have ha : 0 < w a := hpos a List.mem_cons_self
      rw [total_cons] at h
      by_cases hb : 0 < b
      · have hrest := ih (b - w a) (show total w as ≤ c - w a by omega)
          fun x hx => hpos x (List.mem_cons_of_mem _ hx)
        rw [takeBudget_cons_of_pos w (show 0 < min b c by omega), takeBudget_cons_of_pos w hb,
          ← hrest, show min b c - w a = min (b - w a) (c - w a) by omega]
      · obtain rfl : b = 0 := by omega
        simp

/-- A smaller budget takes no more items. -/
theorem takeBudget_isPrefix (w : α → Nat) {b b' : Nat} (h : b ≤ b') (as : List α) :
    takeBudget w b as <+: takeBudget w b' as := by
  induction as generalizing b b' with
  | nil => simp
  | cons a as ih =>
      by_cases hb : 0 < b
      · rw [takeBudget_cons_of_pos w hb, takeBudget_cons_of_pos w (by omega), List.cons_prefix_cons]
        exact ⟨rfl, ih (by omega)⟩
      · obtain rfl : b = 0 := by omega
        simp

/-- A place in a list is its head or a place in its tail. -/
theorem forall_split_cons {P : List α → α → List α → Prop} {a : α} {as : List α} :
    (∀ pre x post, a :: as = pre ++ x :: post → P pre x post) ↔
      P [] a as ∧ ∀ pre x post, as = pre ++ x :: post → P (a :: pre) x post := by
  constructor
  · intro h
    exact ⟨h [] a as rfl, fun pre x post has => h (a :: pre) x post (by rw [has]; rfl)⟩
  · rintro ⟨hhead, htail⟩ pre x post has
    cases pre with
    | nil =>
        obtain ⟨rfl, rfl⟩ : a = x ∧ as = post := by simpa using has
        exact hhead
    | cons y pre =>
        obtain ⟨rfl, hrest⟩ : a = y ∧ as = pre ++ x :: post := by simpa using has
        exact htail pre x post hrest

/-- **When the taken weight stays within a bound.** It does exactly when no item that starts below
the budget ends beyond the bound. -/
theorem total_takeBudget_le_iff (w : α → Nat) (b c : Nat) (as : List α) :
    total w (takeBudget w b as) ≤ c ↔
      ∀ pre a post, as = pre ++ a :: post → total w pre < b → total w pre + w a ≤ c := by
  induction as generalizing b c with
  | nil => simp
  | cons a as ih =>
      by_cases hb : 0 < b
      · rw [takeBudget_cons_of_pos w hb, total_cons, forall_split_cons]
        simp only [total_nil, total_cons]
        constructor
        · intro h
          refine ⟨fun _ => by omega, fun pre x post has hlt => ?_⟩
          have := (ih (b - w a) (c - w a)).mp (by omega) pre x post has (by omega)
          omega
        · rintro ⟨hhead, htail⟩
          have ha := hhead hb
          have := (ih (b - w a) (c - w a)).mpr fun pre x post has hlt => by
            have := htail pre x post has (by omega)
            omega
          omega
      · obtain rfl : b = 0 := by omega
        simp

/-- **When at most `n` taken items are of a kind.** This is so exactly when the item of that kind
which comes after `n` others of the kind, if there is one, starts at or beyond the budget. -/
theorem countP_takeBudget_le_iff (w : α → Nat) (p : α → Bool) (b n : Nat) (as : List α) :
    (takeBudget w b as).countP p ≤ n ↔
      ∀ pre a post, as = pre ++ a :: post → p a = true → pre.countP p = n → b ≤ total w pre := by
  induction as generalizing b n with
  | nil => simp
  | cons a as ih =>
      by_cases hb : 0 < b
      · rw [takeBudget_cons_of_pos w hb, List.countP_cons, forall_split_cons]
        by_cases hp : p a = true
        · rw [if_pos hp]
          simp only [List.countP_cons_of_pos hp, total_nil, total_cons, List.countP_nil]
          cases n with
          | zero =>
              refine ⟨fun h => by omega, fun h => ?_⟩
              have := h.1 hp rfl
              omega
          | succ n =>
              -- the head counts for one: the tail may take `n`
              rw [Nat.add_le_add_iff_right, ih]
              refine ⟨fun h => ⟨fun _ h0 => by omega, fun pre x post has hx hcount => ?_⟩,
                fun h pre x post has hx hcount => ?_⟩
              · have := h pre x post has hx (by omega)
                omega
              · have := h.2 pre x post has hx (by omega)
                omega
        · rw [if_neg hp, Nat.add_zero, ih]
          simp only [List.countP_cons_of_neg hp, total_nil, total_cons]
          refine ⟨fun h => ⟨fun hx => absurd hx hp, fun pre x post has hx hcount => ?_⟩,
            fun h pre x post has hx hcount => ?_⟩
          · have := h pre x post has hx hcount
            omega
          · have := h.2 pre x post has hx hcount
            omega
      · obtain rfl : b = 0 := by omega
        simp

end AeronRs
