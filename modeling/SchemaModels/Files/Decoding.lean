import SchemaModels.Text.Digit

/-!
Text from bytes. Each encoding reads as far as the bytes make sense, and the
first bytes that make none are the error.
-/
namespace SchemaModels

/-- Why some bytes are no text. -/
inductive DecodingFault where
  | invalidStart
  | invalidContinuation
  | unexpectedEnd
  | notAscii
  | truncated
  | illegalSurrogate
  | illegalUnit
  | unmapped
  /-- A fault that only some further encoding knows. -/
  | other (reason : String)
  deriving DecidableEq, Repr

/-- The first bytes that are no text: where they are, how many, and the first of
them. -/
structure DecodingError where
  codec : String
  start : Nat
  count : Nat
  byte : UInt8
  fault : DecodingFault
  deriving DecidableEq, Repr

namespace DecodingFault

def reason : DecodingFault → String
  | .invalidStart => "invalid start byte"
  | .invalidContinuation => "invalid continuation byte"
  | .unexpectedEnd => "unexpected end of data"
  | .notAscii => "ordinal not in range(128)"
  | .truncated => "truncated data"
  | .illegalSurrogate => "illegal UTF-16 surrogate"
  | .illegalUnit => "illegal encoding"
  | .unmapped => "character maps to <undefined>"
  | .other reason => reason

end DecodingFault

/-- The words for an error. -/
def DecodingError.message (error : DecodingError) : String :=
  s!"'{error.codec}' codec can't decode " ++
    (if error.count = 1 then
      s!"byte 0x{String.ofList (Text.hexDigits 2 error.byte.toNat)} in position {error.start}: "
    else s!"bytes in position {error.start}-{error.start + error.count - 1}: ") ++
    error.fault.reason

namespace Decoding

/-- The bytes at one place: a character with the number of bytes after the
first, or a fault with the number of bytes that are at fault. -/
abbrev Reading := Except (Nat × DecodingFault) (Char × Nat)

/-- The characters of some bytes, read one by one. The first `skip` bytes belong
to a character that is read already, and `position` bytes are behind. -/
def readAll (codec : String) (read : UInt8 → List UInt8 → Reading) :
    Nat → Nat → List UInt8 → Except DecodingError (List Char)
  | _, _, [] => .ok []
  | skip + 1, position, _ :: rest => readAll codec read skip (position + 1) rest
  | 0, position, byte :: rest =>
    match read byte rest with
    | .ok (c, more) => (readAll codec read more (position + 1) rest).map (c :: ·)
    | .error (count, fault) => .error ⟨codec, position, count, byte, fault⟩

/-- The number of bytes after a first byte, and the value that it begins. -/
def utf8Start? (byte : Nat) : Option (Nat × Nat) :=
  if byte < 0x80 then some (0, byte)
  else if byte < 0xc2 then none
  else if byte < 0xe0 then some (1, byte - 0xc0)
  else if byte < 0xf0 then some (2, byte - 0xe0)
  else if byte < 0xf5 then some (3, byte - 0xf0)
  else none

/-- Whether a byte may continue a character after a given byte. After some first
bytes only a part of the range may follow. -/
def utf8Continues (before byte : Nat) : Bool :=
  let low := if before = 0xe0 then 0xa0 else if before = 0xf0 then 0x90 else 0x80
  let high := if before = 0xed then 0x9f else if before = 0xf4 then 0x8f else 0xbf
  low ≤ byte && byte ≤ high

/-- Reads the bytes that continue a character. `before` is the first byte at
first and no bound afterwards; `count` bytes are read. -/
def utf8Rest : Nat → Nat → Nat → Nat → List UInt8 → Except (Nat × DecodingFault) Nat
  | 0, _, _, value, _ => .ok value
  | _ + 1, _, count, _, [] => .error (count, .unexpectedEnd)
  | more + 1, before, count, value, byte :: rest =>
    if utf8Continues before byte.toNat then
      utf8Rest more 0 (count + 1) (value * 64 + (byte.toNat - 0x80)) rest
    else .error (count, .invalidContinuation)

def readUtf8 (byte : UInt8) (rest : List UInt8) : Reading :=
  match utf8Start? byte.toNat with
  | none => .error (1, .invalidStart)
  | some (more, value) =>
    (utf8Rest more byte.toNat 1 value rest).map fun code => (Char.ofNat code, more)

def readAscii (byte : UInt8) (_ : List UInt8) : Reading :=
  if byte.toNat < 128 then .ok (Char.ofNat byte.toNat, 0) else .error (1, .notAscii)

def readLatin (byte : UInt8) (_ : List UInt8) : Reading := .ok (Char.ofNat byte.toNat, 0)

/-- The characters of the bytes from 0x80 to 0x9f in the Windows code page 1252.
Five of them have none. -/
def windowsCodes : List (Option Nat) := [
  some 0x20ac, none, some 0x201a, some 0x0192, some 0x201e, some 0x2026, some 0x2020,
  some 0x2021, some 0x02c6, some 0x2030, some 0x0160, some 0x2039, some 0x0152, none,
  some 0x017d, none, none, some 0x2018, some 0x2019, some 0x201c, some 0x201d, some 0x2022,
  some 0x2013, some 0x2014, some 0x02dc, some 0x2122, some 0x0161, some 0x203a, some 0x0153,
  none, some 0x017e, some 0x0178]

def readWindows (byte : UInt8) (_ : List UInt8) : Reading :=
  let n := byte.toNat
  if n < 0x80 || 0xa0 ≤ n then .ok (Char.ofNat n, 0)
  else
    match (windowsCodes[n - 0x80]?).join with
    | some code => .ok (Char.ofNat code, 0)
    | none => .error (1, .unmapped)

/-- The unit of two bytes. -/
def unitOf (bigEndian : Bool) (first second : UInt8) : Nat :=
  if bigEndian then first.toNat * 256 + second.toNat else second.toNat * 256 + first.toNat

/-- One or two units of UTF-16. -/
def readUtf16 (bigEndian : Bool) (byte : UInt8) (rest : List UInt8) : Reading :=
  match rest with
  | [] => .error (1, .truncated)
  | second :: rest =>
    let unit := unitOf bigEndian byte second
    if unit < 0xd800 || 0xe000 ≤ unit then .ok (Char.ofNat unit, 1)
    else if 0xdc00 ≤ unit then .error (2, .illegalUnit)
    else
      match rest with
      | third :: fourth :: _ =>
        let low := unitOf bigEndian third fourth
        if 0xdc00 ≤ low && low < 0xe000 then
          .ok (Char.ofNat (0x10000 + (unit - 0xd800) * 0x400 + (low - 0xdc00)), 3)
        else .error (2, .illegalSurrogate)
      | _ => .error (2 + rest.length, .unexpectedEnd)

/-- The bytes of a byte order mark in UTF-8. -/
def utf8Mark : List UInt8 := [0xef, 0xbb, 0xbf]

/-- Text in UTF-8 behind a byte order mark that may be missing. Positions count
from behind it, and a mark that is cut off is no text at all. -/
def decodeMarkedUtf8 (bytes : List UInt8) : Except DecodingError (List Char) :=
  if bytes.length < 3 && bytes.isPrefixOf utf8Mark then .ok []
  else if utf8Mark.isPrefixOf bytes then readAll "utf-8" readUtf8 0 0 (bytes.drop 3)
  else readAll "utf-8" readUtf8 0 0 bytes

def utf16Codec (bigEndian : Bool) : String := if bigEndian then "utf-16-be" else "utf-16-le"

/-- Text in UTF-16 of a known byte order, from a position on. -/
def decodeUtf16 (bigEndian : Bool) (position : Nat) (bytes : List UInt8) :
    Except DecodingError (List Char) :=
  readAll (utf16Codec bigEndian) (readUtf16 bigEndian) 0 position bytes

end Decoding
end SchemaModels
