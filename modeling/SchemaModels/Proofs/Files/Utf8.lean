import Mathlib.Tactic.SplitIfs
import SchemaModels.Files.Encoding

/-!
Text in UTF-8. The bytes of every text are read back as that text: the first byte of
a character says how many follow, and each of them is one that may.
-/
namespace SchemaModels

namespace Decoding

theorem toNat_ofNat_of_lt {n : Nat} (h : n < 256) : (UInt8.ofNat n).toNat = n := by
  rw [UInt8.toNat_ofNat']
  exact Nat.mod_eq_of_lt h

/-- A byte that continues a character, of which it has six bits. The first byte of the
character may restrict the byte behind it. -/
theorem utf8Rest_cons {before bits : Nat} (hBits : bits < 64)
    (hShort : before = 0xe0 → 0x20 ≤ bits) (hSurrogate : before = 0xed → bits < 0x20)
    (hPlane : before = 0xf0 → 0x10 ≤ bits) (hLast : before = 0xf4 → bits < 0x10)
    (more count value : Nat) (rest : List UInt8) :
    utf8Rest (more + 1) before count value (UInt8.ofNat (bits + 0x80) :: rest) =
      utf8Rest more 0 (count + 1) (value * 64 + bits) rest := by
  have hNat : (UInt8.ofNat (bits + 0x80)).toNat = bits + 0x80 := toNat_ofNat_of_lt (by omega)
  have hContinues : utf8Continues before (bits + 0x80) = true := by
    simp only [utf8Continues, Bool.and_eq_true, decide_eq_true_eq]
    split_ifs <;> omega
  rw [utf8Rest, hNat, hContinues, if_pos rfl, Nat.add_sub_cancel]

theorem utf8Rest_zero (before count value : Nat) (rest : List UInt8) :
    utf8Rest 0 before count value rest = .ok value := rfl

theorem readUtf8_of_start {start more value code : Nat} {rest : List UInt8} (hByte : start < 256)
    (hStart : utf8Start? start = some (more, value))
    (hRest : utf8Rest more start 1 value rest = .ok code) :
    readUtf8 (UInt8.ofNat start) rest = .ok (Char.ofNat code, more) := by
  simp only [readUtf8, toNat_ofNat_of_lt hByte, hStart, hRest, Except.map]

theorem utf8Start?_one {n : Nat} (h : n < 0x80) : utf8Start? n = some (0, n) := by
  rw [utf8Start?, if_pos h]

theorem utf8Start?_two {n : Nat} (hLow : 2 ≤ n) (hHigh : n < 0x20) :
    utf8Start? (n + 0xc0) = some (1, n) := by
  rw [utf8Start?, if_neg (by omega), if_neg (by omega), if_pos (by omega), Nat.add_sub_cancel]

theorem utf8Start?_three {n : Nat} (h : n < 0x10) : utf8Start? (n + 0xe0) = some (2, n) := by
  rw [utf8Start?, if_neg (by omega), if_neg (by omega), if_neg (by omega), if_pos (by omega),
    Nat.add_sub_cancel]

theorem utf8Start?_four {n : Nat} (h : n < 5) : utf8Start? (n + 0xf0) = some (3, n) := by
  rw [utf8Start?, if_neg (by omega), if_neg (by omega), if_neg (by omega), if_neg (by omega),
    if_pos (by omega), Nat.add_sub_cancel]

theorem utf8EncodeChar_eq (c : Char) : String.utf8EncodeChar c =
    if c.toNat ≤ 0x7f then [UInt8.ofNat c.toNat]
    else if c.toNat ≤ 0x7ff then
      [UInt8.ofNat (c.toNat / 64 % 32 + 0xc0), UInt8.ofNat (c.toNat % 64 + 0x80)]
    else if c.toNat ≤ 0xffff then
      [UInt8.ofNat (c.toNat / 4096 % 16 + 0xe0), UInt8.ofNat (c.toNat / 64 % 64 + 0x80),
        UInt8.ofNat (c.toNat % 64 + 0x80)]
    else
      [UInt8.ofNat (c.toNat / 262144 % 8 + 0xf0), UInt8.ofNat (c.toNat / 4096 % 64 + 0x80),
        UInt8.ofNat (c.toNat / 64 % 64 + 0x80), UInt8.ofNat (c.toNat % 64 + 0x80)] := rfl

/-- The bytes of a character, with any others behind them. -/
theorem readUtf8_encode (c : Char) : ∃ first others, String.utf8EncodeChar c = first :: others ∧
    ∀ rest, readUtf8 first (others ++ rest) = .ok (c, others.length) := by
  have hValid : c.toNat < 0xd800 ∨ 0xdfff < c.toNat ∧ c.toNat < 0x110000 := c.valid
  have hCode : Char.ofNat c.toNat = c := Char.ofNat_toNat c
  rw [utf8EncodeChar_eq]
  generalize c.toNat = code at hValid hCode
  subst hCode
  -- by the number of bytes; that there are no surrogates is needed for three
  split_ifs with hOne hTwo hThree
  · refine ⟨_, _, rfl, fun rest => readUtf8_of_start (by omega) (utf8Start?_one (by omega)) ?_⟩
    rfl
  · refine ⟨_, _, rfl, fun rest => readUtf8_of_start (by omega)
      (utf8Start?_two (by omega) (by omega)) ?_⟩
    simp (disch := omega) only [List.cons_append, List.length_cons, List.length_nil,
      utf8Rest_cons, utf8Rest_zero, Except.ok.injEq]
    omega
  · refine ⟨_, _, rfl, fun rest => readUtf8_of_start (by omega) (utf8Start?_three (by omega)) ?_⟩
    simp (disch := omega) only [List.cons_append, List.length_cons, List.length_nil,
      utf8Rest_cons, utf8Rest_zero, Except.ok.injEq]
    omega
  · refine ⟨_, _, rfl, fun rest => readUtf8_of_start (by omega) (utf8Start?_four (by omega)) ?_⟩
    simp (disch := omega) only [List.cons_append, List.length_cons, List.length_nil,
      utf8Rest_cons, utf8Rest_zero, Except.ok.injEq]
    omega

/-- Bytes that belong to a character that is read already. -/
theorem readAll_append (codec : String) (read : UInt8 → List UInt8 → Reading)
    (bytes rest : List UInt8) (position : Nat) :
    readAll codec read bytes.length position (bytes ++ rest) =
      readAll codec read 0 (position + bytes.length) rest := by
  induction bytes generalizing position with
  | nil => rfl
  | cons byte bytes ih =>
      rw [List.length_cons, List.cons_append, readAll, ih, Nat.add_right_comm]
      rfl

/-- The bytes of a text are read back. -/
theorem readAll_utf8 (chars : List Char) (position : Nat) :
    readAll "utf-8" readUtf8 0 position (chars.flatMap String.utf8EncodeChar) = .ok chars := by
  induction chars generalizing position with
  | nil => rfl
  | cons c rest ih =>
      obtain ⟨first, others, hEncode, hRead⟩ := readUtf8_encode c
      rw [List.flatMap_cons, hEncode, List.cons_append, readAll, hRead]
      simp only [readAll_append, ih, Except.map]

end Decoding

/-- The bytes of a text in UTF-8 are the text again. -/
theorem decode_utf8Bytes (text : String) :
    Encoding.decode (utf8Bytes text) .utf8 = .ok text.toList := by
  simp only [Encoding.decode, utf8Bytes, Decoding.readAll_utf8, Encoding.decoded]

/-- The name of UTF-8 is known. -/
theorem decoder_utf8 (foreign : String → Decoder) :
    (Encoding.codecs foreign).decoder "utf-8" = (Encoding.decode · .utf8) := by
  have hName : Codec.ofName? "utf-8" = some (.text .utf8) := by decide
  have hNull : "utf-8".toList.contains '\x00' = false := by decide
  funext bytes
  simp only [Encoding.codecs, hNull, Bool.false_eq_true, if_false, hName]

end SchemaModels
