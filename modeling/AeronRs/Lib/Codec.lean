import Mathlib.Data.List.Basic

/-! # Exact codecs

A codec of a fixed length writes a value to the front of a buffer, if the buffer is long enough, and
reads a value from the front of a buffer.

* **`ExactCodec`** — writing needs exactly the length of the codec, and a buffer is accepted exactly if
  it starts with the encoding of a valid value, which is then the value read. Round trips in both
  directions follow (`decode_append`, `valid_of_decode`).
* **`ExactCodec.of_fields`** — the rule for codecs that read their fields at fixed places. -/

namespace AeronRs

variable {α β : Type*}

/-- **An exact codec** for the values with a property. `encode a n` is what is written for `a` to a
buffer of length `n`. -/
structure ExactCodec (valid : α → Prop) (length : Nat) (encode : α → Nat → Option (List β))
    (decode : List β → Option α) : Prop where
  writes : ∀ a, valid a → ∃ bytes, bytes.length = length ∧
    ∀ bufLen, encode a bufLen = if bufLen < length then none else some bytes
  reads : ∀ buf a, decode buf = some a ↔
    valid a ∧ ∃ bytes, encode a buf.length = some bytes ∧ bytes <+: buf

namespace ExactCodec

variable {valid : α → Prop} {length : Nat} {encode : α → Nat → Option (List β)}
  {decode : List β → Option α}

theorem valid_of_decode (h : ExactCodec valid length encode decode) {buf : List β} {a : α}
    (hdecode : decode buf = some a) : valid a := ((h.reads buf a).mp hdecode).1

/-- **What was written is read back**, whatever the buffer holds behind it. -/
theorem decode_append (h : ExactCodec valid length encode decode) {a : α} (hvalid : valid a)
    {bufLen : Nat} {bytes : List β} (hencode : encode a bufLen = some bytes) (rest : List β) :
    decode (bytes ++ rest) = some a := by
  obtain ⟨bytes', hlen, hwrites⟩ := h.writes a hvalid
  rw [hwrites] at hencode
  split_ifs at hencode
  obtain rfl := Option.some.inj hencode
  refine (h.reads _ a).mpr ⟨hvalid, bytes', ?_, List.prefix_append bytes' rest⟩
  rw [hwrites, if_neg (by rw [List.length_append]; omega)]

/-- **Fields at fixed places.** A codec is exact if parsing gives back what was written, and writing
what was parsed gives back the front of the buffer. -/
theorem of_fields (bytes : α → List β) (parse : List β → α)
    (hencode : ∀ a bufLen, encode a bufLen = if bufLen < length then none else some (bytes a))
    (hdecode : ∀ buf a, decode buf = some a ↔
      length ≤ buf.length ∧ valid (parse buf) ∧ parse buf = a)
    (hlength : ∀ a, valid a → (bytes a).length = length)
    (hparse : ∀ a rest, valid a → parse (bytes a ++ rest) = a)
    (hbytes : ∀ buf, length ≤ buf.length → valid (parse buf) →
      bytes (parse buf) = buf.take length) :
    ExactCodec valid length encode decode := by
  refine ⟨fun a ha => ⟨bytes a, hlength a ha, hencode a⟩, fun buf a => ?_⟩
  rw [hdecode, hencode]
  constructor
  · rintro ⟨hle, hvalid, rfl⟩
    refine ⟨hvalid, _, if_neg (by omega), ?_⟩
    rw [hbytes buf hle hvalid]
    exact List.take_prefix length buf
  · rintro ⟨hvalid, written, hwritten, rest, rfl⟩
    split_ifs at hwritten with hshort
    obtain rfl := Option.some.inj hwritten
    have hback := hparse a rest hvalid
    exact ⟨by omega, by rw [hback]; exact hvalid, hback⟩

/-- **Fields at fixed places, all of whose values are valid.** -/
theorem of_plain_fields (bytes : α → List β) (parse : List β → α)
    (hencode : ∀ a bufLen, encode a bufLen = if bufLen < length then none else some (bytes a))
    (hdecode : ∀ buf, decode buf = if buf.length < length then none else some (parse buf))
    (hlength : ∀ a, (bytes a).length = length) (hparse : ∀ a rest, parse (bytes a ++ rest) = a)
    (hbytes : ∀ buf, length ≤ buf.length → bytes (parse buf) = buf.take length) :
    ExactCodec (fun _ => True) length encode decode := by
  refine of_fields bytes parse hencode (fun buf a => ?_) (fun a _ => hlength a)
    (fun a rest _ => hparse a rest) fun buf hle _ => hbytes buf hle
  rw [hdecode]
  split_ifs with hshort
  · simp [Nat.not_le_of_lt hshort]
  · simp [Nat.le_of_not_lt hshort]

end ExactCodec

end AeronRs
