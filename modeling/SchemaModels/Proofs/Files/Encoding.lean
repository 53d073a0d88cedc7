import SchemaModels.Files.Encoding

/-!
The two kinds of errors of decoding that reading a file does not expect: one that is about no
byte in particular, as when a text in UTF-16 does not say which byte order it has, and a name
of an encoding with a null in it.
-/
namespace SchemaModels

/-- Whether reading expects an error. Bytes that are no text and encodings that cannot
be used are expected. -/
def TextError.IsExpected : TextError → Prop
  | .decoding _ | .unknownEncoding _ | .notTextEncoding _ => True
  | .undivided _ | .nullInName => False

instance (e : TextError) : Decidable e.IsExpected :=
  match e with
  | .decoding _ | .unknownEncoding _ | .notTextEncoding _ => .isTrue trivial
  | .undivided _ | .nullInName => .isFalse id

namespace Encoding

/-- Bytes without a mark for their byte order. -/
def Unmarked (bytes : List UInt8) : Prop := ¬[0xff, 0xfe] <+: bytes ∧ ¬[0xfe, 0xff] <+: bytes

variable {bytes : List UInt8}

theorem decoded_ne {outcome : Except DecodingError (List Char)} {e : TextError}
    (h : ∀ fault, e ≠ .decoding fault) : decoded outcome ≠ .error e := by
  cases outcome with
  | ok chars => simp [decoded]
  | error fault =>
      intro hEq
      exact h fault (Except.error.inj hEq).symm

/-- The only error about no byte in particular is that a mark is missed, and it is missed only
once all bytes have made sense without it. -/
theorem decodeMarkedUtf16_eq_undivided_iff {message : String} :
    decodeMarkedUtf16 bytes = .error (.undivided message) ↔
      .undivided message = noByteOrder ∧ Unmarked bytes ∧
        ∃ c chars, Decoding.decodeUtf16 false 0 bytes = .ok (c :: chars) := by
  unfold decodeMarkedUtf16
  split
  case h_1 rest => simp [Unmarked, decoded_ne]
  case h_2 rest => simp [Unmarked, decoded_ne]
  case h_3 hLittle hBig =>
    have hUnmarked : Unmarked bytes := by
      constructor
      · rintro ⟨rest, rfl⟩
        exact hLittle rest rfl
      · rintro ⟨rest, rfl⟩
        exact hBig rest rfl
    cases Decoding.decodeUtf16 false 0 bytes with
    | error fault => simp
    | ok chars =>
        cases chars with
        | nil => simp
        | cons c chars => simp [hUnmarked, eq_comm]

theorem decode_eq_undivided_iff {encoding : Encoding} {message : String} :
    decode bytes encoding = .error (.undivided message) ↔
      encoding = .utf16 ∧ .undivided message = noByteOrder ∧ Unmarked bytes ∧
        ∃ c chars, Decoding.decodeUtf16 false 0 bytes = .ok (c :: chars) := by
  cases encoding with
  | utf16 => simp [decode, decodeMarkedUtf16_eq_undivided_iff]
  | _ => simp [decode, decoded_ne]

theorem decode_ne_nullInName (encoding : Encoding) :
    decode bytes encoding ≠ .error .nullInName := by
  cases encoding with
  | utf16 =>
      rw [decode]
      unfold decodeMarkedUtf16
      split
      · exact decoded_ne (by simp)
      · exact decoded_ne (by simp)
      · split
        · simp
        · split <;> simp [noByteOrder]
  | _ => exact decoded_ne (by simp)

section

variable {foreign : String → Decoder} {name : String}

theorem decoder_of_null (h : '\x00' ∈ name.toList) :
    (codecs foreign).decoder name bytes = .error .nullInName := by
  simp [codecs, h]

/-- The encodings that are decoded here do not depend on any others. -/
theorem decoder_of_text {encoding : Encoding} (h : '\x00' ∉ name.toList)
    (hName : Codec.ofName? name = some (.text encoding)) :
    (codecs foreign).decoder name bytes = decode bytes encoding := by
  simp [codecs, h, hName]

end

end Encoding
end SchemaModels
