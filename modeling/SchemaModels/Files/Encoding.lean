import SchemaModels.Files.Codec
import SchemaModels.Files.Decoding

/-!
Text from bytes in an encoding, which is given by its name.
-/
namespace SchemaModels

/-- Why a file is no text. -/
inductive TextError where
  | decoding (error : DecodingError)
  /-- The bytes are at fault, but none of them in particular: there is no mark of their order
  where one has to be, for instance. -/
  | undivided (message : String)
  /-- The name of the encoding holds a null, so it cannot even be looked up. -/
  | nullInName
  | unknownEncoding (name : String)
  | notTextEncoding (name : String)
  deriving DecidableEq, Repr

/-- The words for an error. -/
def TextError.message : TextError → String
  | .decoding error => error.message
  | .undivided message => message
  | .nullInName => "embedded null character"
  | .unknownEncoding name => "unknown encoding: " ++ name
  | .notTextEncoding name =>
    "'" ++ name ++ "' is not a text encoding; use codecs.open() to handle arbitrary codecs"

namespace Encoding

/-- The outcome of a decoder. -/
def decoded : Except DecodingError (List Char) → Except TextError (List Char)
  | .ok chars => .ok chars
  | .error e => .error (.decoding e)

/-- The failure of UTF-16 without a mark of its byte order. -/
def noByteOrder : TextError := .undivided "UTF-16 stream does not start with BOM"

/-- Text in UTF-16 that says itself which byte order it has. Without a mark it
fails, but what is wrong with its bytes comes first. -/
def decodeMarkedUtf16 : List UInt8 → Except TextError (List Char)
  | 0xff :: 0xfe :: rest => decoded (Decoding.decodeUtf16 false 2 rest)
  | 0xfe :: 0xff :: rest => decoded (Decoding.decodeUtf16 true 2 rest)
  | bytes =>
    match Decoding.decodeUtf16 false 0 bytes with
    | .error e => .error (.decoding e)
    | .ok chars => if chars.isEmpty then .ok [] else .error noByteOrder

/-- The text of some bytes. -/
def decode (bytes : List UInt8) : Encoding → Except TextError (List Char)
  | .utf8 => decoded (Decoding.readAll "utf-8" Decoding.readUtf8 0 0 bytes)
  | .markedUtf8 => decoded (Decoding.decodeMarkedUtf8 bytes)
  | .latin => decoded (Decoding.readAll "latin-1" Decoding.readLatin 0 0 bytes)
  | .ascii => decoded (Decoding.readAll "ascii" Decoding.readAscii 0 0 bytes)
  | .utf16 => decodeMarkedUtf16 bytes
  | .utf16OfOrder bigEndian => decoded (Decoding.decodeUtf16 bigEndian 0 bytes)
  | .windows => decoded (Decoding.readAll "charmap" Decoding.readWindows 0 0 bytes)

end Encoding

/-- What gives the text of some bytes. All that it can fail with is of the same kinds, in
whichever encoding the text is. -/
abbrev Decoder := List UInt8 → Except TextError (List Char)

/-- The encodings that there are: which names are known, and the decoder of each name. -/
structure Codecs where
  knows : String → Bool
  decoder : String → Decoder

/-- The encodings of the names that are known here. Some of them are decoded here as well, and
`foreign` has the decoders of all others. -/
def Encoding.codecs (foreign : String → Decoder) : Codecs where
  knows name := (Codec.ofName? name).isSome
  decoder name bytes :=
    if name.toList.contains '\x00' then .error .nullInName
    else
      match Codec.ofName? name with
      | some (.text encoding) => decode bytes encoding
      | some .transform => .error (.notTextEncoding name)
      | some .foreign => foreign name bytes
      | none => .error (.unknownEncoding name)

/-- The encodings that are decoded here, and no others. -/
def Codecs.bare : Codecs := Encoding.codecs fun name _ => .error (.unknownEncoding name)

/-- The bytes of a text in UTF-8. -/
def utf8Bytes (text : String) : List UInt8 := text.toList.flatMap String.utf8EncodeChar

end SchemaModels
