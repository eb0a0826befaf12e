import Mathlib.Logic.Function.Basic
import Mathlib.Data.List.Basic

/-! # Messages passed by reference in reused buffers

A producer writes each message to one of its buffers and hands over the address of the buffer; the
bytes are read after all messages were written. **`written`** is what the buffers hold then, and
`readBack_iff` says when every message is read back as it was written: exactly when any two messages
that share a buffer are the same. -/

namespace AeronRs

variable {κ β : Type*} [DecidableEq κ]

/-- What the buffers hold after the messages were written, in order. -/
def written (m : κ → β) (msgs : List (κ × β)) : κ → β :=
  msgs.foldl (fun m e => Function.update m e.1 e.2) m

@[simp] theorem written_cons (m : κ → β) (e : κ × β) (msgs : List (κ × β)) :
    written m (e :: msgs) = written (Function.update m e.1 e.2) msgs := rfl

theorem written_append (m : κ → β) (msgs msgs' : List (κ × β)) :
    written m (msgs ++ msgs') = written (written m msgs) msgs' := List.foldl_append

/-- A buffer that no message was written to keeps its contents. -/
theorem written_of_notMem {m : κ → β} {msgs : List (κ × β)} {k : κ}
    (h : ∀ e ∈ msgs, e.1 ≠ k) : written m msgs k = m k := by
  induction msgs generalizing m with
  | nil => rfl
  | cons e msgs ih =>
      rw [written_cons, ih fun e' he' => h e' (List.mem_cons_of_mem _ he'),
        Function.update_of_ne (h e List.mem_cons_self).symm]

/-- A buffer that messages were written to holds one of them. -/
theorem exists_mem_written (m : κ → β) {msgs : List (κ × β)} {k : κ} (h : ∃ e ∈ msgs, e.1 = k) :
    ∃ e ∈ msgs, e.1 = k ∧ written m msgs k = e.2 := by
  induction msgs generalizing m with
  | nil => simp at h
  | cons a msgs ih =>
      rw [written_cons]
      by_cases hlater : ∃ e ∈ msgs, e.1 = k
      · obtain ⟨e, he, hkey, hval⟩ := ih (Function.update m a.1 a.2) hlater
        exact ⟨e, List.mem_cons_of_mem _ he, hkey, hval⟩
      · -- nothing is written to the buffer after the head, so the head is still there
        obtain ⟨e, he, hkey⟩ := h
        have hlast : ∀ e ∈ msgs, e.1 ≠ k := fun e he hk => hlater ⟨e, he, hk⟩
        rcases List.mem_cons.mp he with rfl | hmem
        · refine ⟨e, List.mem_cons_self, hkey, ?_⟩
          rw [written_of_notMem hlast, ← hkey, Function.update_self]
        · exact absurd hkey (hlast e hmem)

/-- **Reading back.** Every message is found in its buffer in the end exactly when any two messages
in one buffer are equal. -/
theorem readBack_iff (m : κ → β) (msgs : List (κ × β)) :
    (∀ e ∈ msgs, written m msgs e.1 = e.2) ↔
      ∀ a ∈ msgs, ∀ b ∈ msgs, a.1 = b.1 → a.2 = b.2 := by
  constructor
  · intro h a ha b hb hkey
    rw [← h a ha, ← h b hb, hkey]
  · intro h e he
    obtain ⟨e', he', hkey, hval⟩ := exists_mem_written m ⟨e, he, rfl⟩
    rw [hval, h e' he' e he hkey]

end AeronRs
