import Mathlib.Data.List.Basic
import Mathlib.Data.List.Pairwise
import Mathlib.Data.List.Perm.Subperm

/-! # Reading items along a line

Items occupy intervals `[start, stop)` of a line. A reader moves along the line: it takes an item
that starts at its position, or skips a stretch in which none starts. **`Scan G q ds q'`** says that
the reader gets from `q` to `q'` over the items `G` and takes `ds` on its way. If the items are
**`Apart`**, it takes exactly those that start between the two positions, in their order. -/

namespace AeronRs

section LineScan

variable {α : Type*} {start stop : α → Nat}

/-- Any two items are equal or one ends before the other starts. -/
def Apart (start stop : α → Nat) (G : List α) : Prop :=
  ∀ f ∈ G, ∀ g ∈ G, f = g ∨ stop f ≤ start g ∨ stop g ≤ start f

instance [DecidableEq α] (start stop : α → Nat) (G : List α) : Decidable (Apart start stop G) :=
  inferInstanceAs (Decidable (∀ f ∈ G, ∀ g ∈ G, _ ∨ _ ∨ _))

/-- A position that is not strictly inside an item. -/
def Between (start stop : α → Nat) (G : List α) (q : Nat) : Prop :=
  ∀ g ∈ G, stop g ≤ q ∨ q ≤ start g

instance (start stop : α → Nat) (G : List α) (q : Nat) : Decidable (Between start stop G q) :=
  inferInstanceAs (Decidable (∀ g ∈ G, _ ∨ _))

/-- **A reader's way** from one position to another, with the items it takes. -/
inductive Scan (start stop : α → Nat) (G : List α) : Nat → List α → Nat → Prop
  | refl (q : Nat) : Scan start stop G q [] q
  | take {g : α} {ds : List α} {q' : Nat} (hg : g ∈ G) (rest : Scan start stop G (stop g) ds q') :
      Scan start stop G (start g) (g :: ds) q'
  | skip {q r : Nat} {ds : List α} {q' : Nat} (hle : q ≤ r)
      (hnone : ∀ g ∈ G, start g < q ∨ r ≤ start g) (rest : Scan start stop G r ds q') :
      Scan start stop G q ds q'

theorem Apart.mono {G H : List α} (h : Apart start stop H) (hsub : G ⊆ H) :
    Apart start stop G :=
  fun f hf g hg => h f (hsub hf) g (hsub hg)

theorem apart_of_pairwise {G : List α} (h : G.Pairwise fun a b => stop a ≤ start b) :
    Apart start stop G := by
  have hsymm : Std.Symm fun a b : α => a = b ∨ stop a ≤ start b ∨ stop b ≤ start a := by
    refine ⟨fun a b hab => ?_⟩
    rcases hab with rfl | hle | hle
    · exact .inl rfl
    · exact .inr (.inr hle)
    · exact .inr (.inl hle)
  have hpairs := h.imp (S := fun a b => a = b ∨ stop a ≤ start b ∨ stop b ≤ start a)
    fun hle => .inr (.inl hle)
  exact fun f hf g hg => hpairs.forall_of_forall (fun _ _ => .inl rfl) hf hg

theorem Between.mono {G H : List α} {q : Nat} (h : Between start stop H q) (hsub : G ⊆ H) :
    Between start stop G q :=
  fun g hg => h g (hsub hg)

/-- Skipping a stretch in which no item starts leads to a position between the items. -/
theorem Between.skip {G : List α} {q r : Nat} (h : Between start stop G q) (hle : q ≤ r)
    (hnone : ∀ g ∈ G, start g < q ∨ r ≤ start g) : Between start stop G r := by
  intro g hg
  rcases hnone g hg with hbefore | hafter
  · rcases h g hg with hstop | hstart
    · exact .inl (Nat.le_trans hstop hle)
    · omega
  · exact .inr hafter

theorem Apart.between_start {G : List α} (h : Apart start stop G) (hlt : ∀ a, start a < stop a)
    {g : α} (hg : g ∈ G) : Between start stop G (start g) := by
  intro f hf
  rcases h f hf g hg with rfl | hle | hle
  · exact .inr (Nat.le_refl _)
  · exact .inl hle
  · have := hlt g
    exact .inr (by omega)

theorem Apart.between_stop {G : List α} (h : Apart start stop G) (hlt : ∀ a, start a < stop a)
    {g : α} (hg : g ∈ G) : Between start stop G (stop g) := by
  intro f hf
  rcases h f hf g hg with rfl | hle | hle
  · exact .inl (Nat.le_refl _)
  · have := hlt g
    exact .inl (by omega)
  · exact .inr hle

namespace Scan

variable {G : List α} {q q' : Nat} {ds : List α}

theorem le (hlt : ∀ a, start a < stop a) (h : Scan start stop G q ds q') : q ≤ q' := by
  induction h with
  | refl => exact Nat.le_refl _
  | take hg rest ih => exact Nat.le_trans (Nat.le_of_lt (hlt _)) ih
  | skip hle hnone rest ih => exact Nat.le_trans hle ih

/-- What is taken lies between the two positions. -/
theorem mem (hlt : ∀ a, start a < stop a) (h : Scan start stop G q ds q') {g : α} (hg : g ∈ ds) :
    g ∈ G ∧ q ≤ start g ∧ stop g ≤ q' := by
  induction h with
  | refl => cases hg
  | @take f ds q' hf rest ih =>
      rcases List.mem_cons.mp hg with rfl | htail
      · exact ⟨hf, Nat.le_refl _, rest.le hlt⟩
      · obtain ⟨hmem, hlo, hhi⟩ := ih htail
        exact ⟨hmem, Nat.le_trans (Nat.le_of_lt (hlt f)) hlo, hhi⟩
  | skip hle hnone rest ih =>
      obtain ⟨hmem, hlo, hhi⟩ := ih hg
      exact ⟨hmem, Nat.le_trans hle hlo, hhi⟩

/-- **Everything on the way is taken.** -/
theorem complete (hapart : Apart start stop G) (hlt : ∀ a, start a < stop a)
    (h : Scan start stop G q ds q') {g : α} (hg : g ∈ G) (hlo : q ≤ start g) (hhi : start g < q') :
    g ∈ ds := by
  induction h with
  | refl => omega
  | @take f ds q' hf rest ih =>
      rcases hapart f hf g hg with rfl | hle | hle
      · exact List.mem_cons_self
      · exact List.mem_cons_of_mem _ (ih hle hhi)
      · have := hlt g
        omega
  | skip hle hnone rest ih =>
      rcases hnone g hg with hbefore | hafter
      · omega
      · exact ih hafter hhi

/-- **Items are taken in order.** -/
theorem pairwise (hlt : ∀ a, start a < stop a) (h : Scan start stop G q ds q') :
    ds.Pairwise fun a b => stop a ≤ start b := by
  induction h with
  | refl => exact List.Pairwise.nil
  | take hg rest ih => exact List.Pairwise.cons (fun b hb => (rest.mem hlt hb).2.1) ih
  | skip hle hnone rest ih => exact ih

theorem trans {q'' : Nat} {ds' : List α} (h : Scan start stop G q ds q')
    (h' : Scan start stop G q' ds' q'') : Scan start stop G q (ds ++ ds') q'' := by
  induction h with
  | refl => exact h'
  | take hg rest ih => exact .take hg (ih h')
  | skip hle hnone rest ih => exact .skip hle hnone (ih h')

theorem mono (hlt : ∀ a, start a < stop a) {H : List α} (h : Scan start stop G q ds q')
    (hsub : G ⊆ H) (hnew : ∀ g ∈ H, g ∉ G → q' ≤ start g) : Scan start stop H q ds q' := by
  induction h with
  | refl => exact .refl _
  | take hg rest ih => exact .take (hsub hg) (ih hnew)
  | skip hle hnone rest ih =>
      refine .skip hle (fun g hg => ?_) (ih hnew)
      by_cases hold : g ∈ G
      · exact hnone g hold
      · exact .inr (Nat.le_trans (rest.le hlt) (hnew g hg hold))

/-- **Reading an ordered list.** What is taken from items in order is an initial part of them. -/
theorem isPrefix (hlt : ∀ a, start a < stop a) (h : Scan start stop G q ds q') {M : List α}
    (hsorted : M.Pairwise fun a b => stop a ≤ start b) (hlo : ∀ g ∈ M, q ≤ start g)
    (hM : ∀ g, q ≤ start g → (g ∈ M ↔ g ∈ G)) : ds <+: M := by
  induction h generalizing M with
  | refl => exact List.nil_prefix
  | @take g ds q' hg rest ih =>
      -- the item at the reader's position is the first of the list
      cases M with
      | nil => exact absurd ((hM g (Nat.le_refl _)).mpr hg) List.not_mem_nil
      | cons f M =>
          obtain ⟨hfirst, hrest⟩ := List.pairwise_cons.mp hsorted
          have hgf : g = f := by
            rcases List.mem_cons.mp ((hM g (Nat.le_refl _)).mpr hg) with heq | htail
            · exact heq
            · have := hfirst g htail
              have := hlo f List.mem_cons_self
              have := hlt f
              omega
          subst hgf
          rw [List.cons_prefix_cons]
          refine ⟨rfl, ih hrest hfirst fun f hf => ?_⟩
          rw [← hM f (Nat.le_trans (Nat.le_of_lt (hlt g)) hf), List.mem_cons]
          constructor
          · exact .inr
          · rintro (rfl | htail)
            · exact absurd (hlt f) (by omega)
            · exact htail
  | @skip q r ds q' hle hnone rest ih =>
      refine ih hsorted (fun g hg => ?_) fun g hg => hM g (Nat.le_trans hle hg)
      rcases hnone g ((hM g (hlo g hg)).mp hg) with hbefore | hafter
      · exact absurd (hlo g hg) (by omega)
      · exact hafter

/-- A reader that starts between the items ends between them. -/
theorem between (hapart : Apart start stop G) (hlt : ∀ a, start a < stop a)
    (h : Scan start stop G q ds q') (hq : Between start stop G q) : Between start stop G q' := by
  induction h with
  | refl => exact hq
  | take hg rest ih => exact ih (hapart.between_stop hlt hg)
  | skip hle hnone rest ih => exact ih (hq.skip hle hnone)

/-- **Reading to the end.** A reader that gets to the end of items in order takes all those that start
at or after its first position. -/
theorem eq_filter (hlt : ∀ a, start a < stop a) (h : Scan start stop G q ds q')
    (hsorted : G.Pairwise fun a b => stop a ≤ start b) (hend : ∀ g ∈ G, stop g ≤ q') :
    ds = G.filter fun g => q ≤ start g := by
  have hmem : ∀ g, g ∈ (G.filter fun g => q ≤ start g) ↔ g ∈ G ∧ q ≤ start g := by simp
  have hprefix := h.isPrefix hlt (hsorted.filter _) (fun g hg => ((hmem g).mp hg).2)
    fun g hg => (hmem g).trans (and_iff_left hg)
  refine hprefix.eq_of_length_le ?_
  -- the items are all different, and each of them is taken
  have hnodup : (G.filter fun g => q ≤ start g).Nodup :=
    (hsorted.filter _).imp fun {a b} hab heq => by
      have := hlt a
      subst heq
      omega
  refine (hnodup.subperm fun g hg => ?_).length_le
  obtain ⟨hG, hlo⟩ := (hmem g).mp hg
  have := hlt g
  have := hend g hG
  exact h.complete (apart_of_pairwise hsorted) hlt hG hlo (by omega)

end Scan

end LineScan

end AeronRs
