import SchemaModels.Text.Literal

/-!
Texts by their code points. A surrogate is no character, but the escapes of data can name
one without its partner, and what is read from data keeps it.
-/
namespace SchemaModels

/-- A surrogate by its code. The first half of a pair is high, the second one low. -/
structure Surrogate where
  code : Nat
  inRange : 0xd800 ≤ code ∧ code < 0xe000
  deriving DecidableEq, Repr

/-- A character, or a surrogate that has no partner. -/
inductive CodePoint where
  | char (c : Char)
  | surrogate (s : Surrogate)
  deriving DecidableEq, Repr

namespace CodePoint

/-- The code point of a UTF-16 unit that stands alone. -/
def ofUnit (unit : Nat) : CodePoint :=
  if h : 0xd800 ≤ unit ∧ unit < 0xe000 then .surrogate ⟨unit, h⟩ else .char (Char.ofNat unit)

def char? : CodePoint → Option Char
  | .char c => some c
  | .surrogate _ => none

/-- A code point inside a literal. -/
def literal (quote : Char) : CodePoint → List Char
  | .char c => Text.literalChar quote c
  | .surrogate s => ['\\', 'u'] ++ Text.hexDigits 4 s.code

end CodePoint

/-- A text that may have surrogates without their partners. -/
abbrev CodeText := List CodePoint

namespace CodeText

def ofString (s : String) : CodeText := s.toList.map .char

instance : Coe String CodeText := ⟨ofString⟩

/-- The characters of a text, if it has nothing else. -/
def chars? : CodeText → Option (List Char)
  | [] => some []
  | .char c :: rest => (chars? rest).map (c :: ·)
  | .surrogate _ :: _ => none

/-- A text without surrogates as a string. -/
def string? (text : CodeText) : Option String := (chars? text).map String.ofList

/-- The literal of a text. -/
def literal (text : CodeText) : String :=
  let quote := Text.literalQuote (text.filterMap CodePoint.char?)
  String.ofList (quote :: text.flatMap (CodePoint.literal quote) ++ [quote])

end CodeText

/-- What stands for texts: different ones have different code points. -/
class Coded (τ : Type) where
  code : τ → CodeText
  injective : ∀ a b, code a = code b → a = b

instance : Coded String where
  code := CodeText.ofString
  injective _ _ h := String.toList_inj.mp
    ((List.map_inj_right fun _ _ => CodePoint.char.inj).mp h)

instance : Coded CodeText where
  code := id
  injective _ _ h := h

end SchemaModels
