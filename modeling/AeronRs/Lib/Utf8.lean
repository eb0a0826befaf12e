import AeronRs.Lib.Budget

/-! # Text as bytes

A text is a list of bytes that is valid UTF-8. `fromUtf8` reads bytes as text, and it succeeds exactly
on the bytes of a text (`fromUtf8_eq_some_iff`). Bytes that are cut off at some place are text exactly
if the cut is between characters (`exists_fromUtf8_take_iff`), and the text is then a prefix. -/

namespace AeronRs

def utf8 (s : String) : List UInt8 := s.toByteArray.data.toList

/-- The text with given bytes, if they are those of a text. -/
def fromUtf8 (bytes : List UInt8) : Option String := String.fromUTF8? bytes.toByteArray

@[simp] theorem utf8_length (s : String) : (utf8 s).length = s.utf8ByteSize := by
  rw [utf8, Array.length_toList]
  rfl

theorem toByteArray_utf8 (s : String) : (utf8 s).toByteArray = s.toByteArray := by
  apply ByteArray.ext
  rw [List.data_toByteArray, utf8, Array.toArray_toList]

theorem utf8_append (s t : String) : utf8 (s ++ t) = utf8 s ++ utf8 t := by simp [utf8]

/-- **Bytes read as a text** are the bytes of that text. -/
theorem fromUtf8_eq_some_iff {bytes : List UInt8} {s : String} :
    fromUtf8 bytes = some s ↔ bytes = utf8 s := by
  unfold fromUtf8 String.fromUTF8?
  constructor
  · intro h
    split at h
    · obtain rfl := Option.some.inj h
      simp [utf8, String.fromUTF8]
    · cases h
  · rintro rfl
    have hvalid : (utf8 s).toByteArray.IsValidUTF8 := by
      rw [toByteArray_utf8]
      exact s.isValidUTF8
    rw [dif_pos hvalid, Option.some.injEq, ← String.toByteArray_inj]
    exact toByteArray_utf8 s

theorem fromUtf8_utf8 (s : String) : fromUtf8 (utf8 s) = some s := fromUtf8_eq_some_iff.mpr rfl

theorem utf8_inj {s t : String} (h : utf8 s = utf8 t) : s = t := by
  have ht := fromUtf8_utf8 t
  rw [← h, fromUtf8_utf8, Option.some.injEq] at ht
  exact ht

/-! ## Cutting a text off -/

/-- The first bytes of a text, as the library cuts them. -/
theorem toByteArray_take_utf8 (s : String) (n : Nat) :
    ((utf8 s).take n).toByteArray = s.toByteArray.extract 0 n := by
  apply ByteArray.ext
  rw [List.data_toByteArray, ByteArray.data_extract, utf8, ← Array.toList_inj]
  simp

/-- **The first bytes of a text are a text exactly if the cut is between characters.** -/
theorem exists_fromUtf8_take_iff {s : String} {n : Nat} (h : n ≤ s.utf8ByteSize) :
    (∃ p, fromUtf8 ((utf8 s).take n) = some p) ↔ (⟨n⟩ : String.Pos.Raw).IsValid s := by
  have hvalid : (∃ p, fromUtf8 ((utf8 s).take n) = some p) ↔
      (s.toByteArray.extract 0 n).IsValidUTF8 := by
    rw [← toByteArray_take_utf8, fromUtf8, String.fromUTF8?]
    split_ifs with hv <;> simp [hv]
  rw [hvalid, String.Pos.Raw.isValid_iff_isValidUTF8_extract_zero]
  exact ⟨fun hv => ⟨h, hv⟩, fun hv => hv.2⟩

/-- A text whose bytes are the first of another one is a prefix of it. -/
theorem exists_append_of_utf8 {p s : String} {n : Nat} (h : (utf8 s).take n = utf8 p) :
    ∃ rest, s = p ++ rest := by
  by_cases hle : n ≤ s.utf8ByteSize
  · have hvalid := (exists_fromUtf8_take_iff hle).mp ⟨p, fromUtf8_eq_some_iff.mpr h⟩
    obtain ⟨s₁, s₂, rfl, hend⟩ := String.Pos.Raw.isValid_iff_exists_append.mp hvalid
    have hlen : n = (utf8 s₁).length := by
      rw [utf8_length]
      exact congrArg String.Pos.Raw.byteIdx hend
    rw [utf8_append, hlen, List.take_left] at h
    exact ⟨s₂, by rw [utf8_inj h]⟩
  · rw [List.take_of_length_le (by rw [utf8_length]; omega)] at h
    exact ⟨"", by rw [utf8_inj h, String.append_empty]⟩

/-- A text `p` is what is kept of `s` in `limit` bytes: a prefix that fits, and all of `s` if that
fits. -/
structure KeptOf (limit : Nat) (s p : String) : Prop where
  front : ∃ rest, s = p ++ rest
  fits : p.utf8ByteSize ≤ limit
  whole : s.utf8ByteSize ≤ limit → p = s

/-- The cut at `limit` bytes does not go through a character. -/
def CutsBetween (limit : Nat) (s : String) : Prop :=
  s.utf8ByteSize ≤ limit ∨ (⟨limit⟩ : String.Pos.Raw).IsValid s

/-- The bytes that are left by a cut, read as a text, are what is kept of the text. -/
theorem keptOf_of_fromUtf8 {limit : Nat} {s p : String}
    (h : fromUtf8 ((utf8 s).take limit) = some p) : KeptOf limit s p := by
  have hbytes := fromUtf8_eq_some_iff.mp h
  refine ⟨exists_append_of_utf8 hbytes, ?_, fun hfits => ?_⟩
  · rw [← utf8_length, ← hbytes]
    exact List.length_take_le limit _
  · rw [List.take_of_length_le (by rwa [utf8_length])] at hbytes
    exact (utf8_inj hbytes).symm

/-- **A cut leaves a text exactly if it does not go through a character.** -/
theorem exists_fromUtf8_cut_iff {limit : Nat} {s : String} :
    (∃ p, fromUtf8 ((utf8 s).take limit) = some p) ↔ CutsBetween limit s := by
  by_cases hfits : s.utf8ByteSize ≤ limit
  · rw [List.take_of_length_le (by rwa [utf8_length])]
    exact ⟨fun _ => .inl hfits, fun _ => ⟨s, fromUtf8_utf8 s⟩⟩
  · rw [exists_fromUtf8_take_iff (by omega)]
    exact ⟨.inr, fun h => h.resolve_left hfits⟩

theorem utf8ByteSize_ofList (l : List Char) :
    (String.ofList l).utf8ByteSize = total Char.utf8Size l := by
  induction l with
  | nil => rfl
  | cons c l ih =>
      rw [String.ofList_cons, String.utf8ByteSize_append, String.utf8ByteSize_singleton, ih,
        total_cons]

/-- **A cut inside a character** does not leave a text. -/
theorem not_cutsBetween {limit : Nat} {before : List Char} {c : Char} {after : List Char}
    (hstart : total Char.utf8Size before < limit)
    (hend : limit < total Char.utf8Size before + c.utf8Size) :
    ¬ CutsBetween limit (String.ofList (before ++ c :: after)) := by
  rintro (hfits | hvalid)
  · rw [utf8ByteSize_ofList, total_append, total_cons] at hfits
    omega
  · obtain ⟨i, hi⟩ := String.Pos.Raw.isValid_ofList.mp hvalid
    rw [utf8ByteSize_ofList] at hi
    dsimp only at hi
    rcases Nat.lt_or_ge before.length i with hlt | hle
    · -- the cut would be behind the character
      obtain ⟨k, rfl⟩ := Nat.exists_eq_add_of_lt hlt
      rw [Nat.add_assoc, List.take_length_add_append, List.take_succ_cons, total_append,
        total_cons] at hi
      omega
    · -- the cut would be in front of it
      have hsplit := congrArg (total Char.utf8Size) (List.take_append_drop i before)
      rw [List.take_append_of_le_length hle] at hi
      rw [total_append] at hsplit
      omega

end AeronRs
