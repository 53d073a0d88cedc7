import SchemaModels.Graphql.SyntaxError
import SchemaModels.Number.Numeral
import SchemaModels.Text.Literal

/-!
The tokens of a text. Blanks, commas, line ends, byte order marks and comments
stand between tokens and mean nothing. Each token is the longest one at its
place, and reading it leaves a shorter text.
-/
namespace SchemaModels.Graphql.Lexer

open Numeral (isDecimalDigit)

def isLineEnd (c : Char) : Bool := c == '\n' || c == '\r'

def isIgnored (c : Char) : Bool :=
  c == ' ' || c == '\t' || c == ',' || c.toNat == 0xfeff || isLineEnd c

/-- The text from the next token on. A comment reaches to the end of its line. -/
def skipIgnored (inComment : Bool) : List Char → List Char
  | [] => []
  | c :: rest =>
    if inComment then skipIgnored (!isLineEnd c) rest
    else if c = '#' then skipIgnored true rest
    else if isIgnored c then skipIgnored false rest
    else c :: rest

def isNameStart (c : Char) : Bool :=
  ('a' ≤ c && c ≤ 'z') || ('A' ≤ c && c ≤ 'Z') || c == '_'

def isNamePart (c : Char) : Bool := isNameStart c || isDecimalDigit c

/-- A piece of a text that is read, and the text after it. -/
abbrev Piece (α : Type) := Except SyntaxError (α × List Char)

/-- A piece with its value changed. -/
def mapPiece {α β : Type} (f : α → β) : Piece α → Piece β
  | .ok (a, rest) => .ok (f a, rest)
  | .error e => .error e

/-- One digit or more. -/
def readDigits (chars : List Char) : Piece (List Char) :=
  let digits := chars.takeWhile isDecimalDigit
  if digits.isEmpty then .error (.missingDigit chars.head?)
  else .ok (digits, chars.dropWhile isDecimalDigit)

/-- The whole part of a number: a zero, or digits that do not start with one. -/
def readWhole : List Char → Piece (List Char)
  | '0' :: rest =>
    match rest with
    | d :: _ => if isDecimalDigit d then .error (.digitAfterZero d) else .ok (['0'], rest)
    | [] => .ok (['0'], rest)
  | chars => readDigits chars

/-- The fraction of a number, if there is one. -/
def readFraction : List Char → Piece (List Char)
  | '.' :: rest => mapPiece ('.' :: ·) (readDigits rest)
  | chars => .ok ([], chars)

/-- Splits the sign of an exponent off. -/
def readSign : List Char → List Char × List Char
  | '-' :: rest => (['-'], rest)
  | '+' :: rest => (['+'], rest)
  | chars => ([], chars)

/-- The exponent of a number, if there is one. -/
def readExponent : List Char → Piece (List Char)
  | [] => .ok ([], [])
  | c :: rest =>
    if c = 'e' || c = 'E' then
      let (sign, rest) := readSign rest
      mapPiece (c :: sign ++ ·) (readDigits rest)
    else .ok ([], c :: rest)

/-- Splits the minus of a number off. -/
def readMinus : List Char → List Char × List Char
  | '-' :: rest => (['-'], rest)
  | chars => ([], chars)

/-- A number. Neither a name nor a point may follow it directly. -/
def readNumber (chars : List Char) : Except SyntaxError (Token × List Char) := do
  let (sign, rest) := readMinus chars
  let (whole, rest) ← readWhole rest
  let (fraction, rest) ← readFraction rest
  let (exponent, rest) ← readExponent rest
  let lexeme := String.ofList (sign ++ whole ++ fraction ++ exponent)
  let token := if fraction.isEmpty && exponent.isEmpty then Token.integer lexeme else .float lexeme
  if (rest.head?.map fun c => c == '.' || isNameStart c).getD false then
    throw (.missingDigit rest.head?)
  return (token, rest)

/-- A character that may be written by its code. -/
def scalar? (code : Nat) : Option Char :=
  if code < 0xd800 || (0xe000 ≤ code && code < 0x110000) then some (Char.ofNat code) else none

/-- A code in braces, from behind the opening one on: the character and how many
characters write it, or how many were read in vain. At most `limit` are read. -/
def bracedCode : Nat → Nat → Nat → List Char → Except Nat (Char × Nat)
  | 0, _, count, _ => .error count
  | _, _, count, [] => .error count
  | limit + 1, code, count, c :: rest =>
    if c = '}' then
      match scalar? code with
      | some char => if count = 0 then .error 1 else .ok (char, count + 1)
      | none => .error (count + 1)
    else
      match Text.hexValue? c with
      | some digit => bracedCode limit (16 * code + digit) (count + 1) rest
      | none => .error (count + 1)

/-- The code of four hexadecimal digits. -/
def fourDigitCode? : List Char → Option Nat
  | a :: b :: c :: d :: _ => Text.hexNumber? [a, b, c, d]
  | _ => none

/-- The character of two surrogates. -/
def joinSurrogates (high low : Nat) : Char :=
  Char.ofNat (0x10000 + (high - 0xd800) * 0x400 + (low - 0xdc00))

/-- An escape by four digits, from behind the letter on: the character and how
many characters write it. A high surrogate needs a low one after it. -/
def fixedCode (chars : List Char) : Option (Char × Nat) :=
  match fourDigitCode? chars with
  | none => none
  | some code =>
    match scalar? code with
    | some char => some (char, 4)
    | none =>
      if code < 0xdc00 && (chars.drop 4).take 2 == ['\\', 'u'] then
        match fourDigitCode? (chars.drop 6) with
        | some low =>
          if 0xdc00 ≤ low && low < 0xe000 then some (joinSurrogates code low, 10) else none
        | none => none
      else none

/-- The character that a letter after a backslash stands for. -/
def letterEscape? (c : Char) : Option Char :=
  if c = Text.doubleQuote || c = '\\' || c = '/' then some c
  else if c = 'b' then some (Char.ofNat 8)
  else if c = 'f' then some (Char.ofNat 12)
  else if c = 'n' then some '\n'
  else if c = 'r' then some '\r'
  else if c = 't' then some '\t'
  else none

/-- An escape, from behind the backslash on: the character and how many
characters write it. A code in braces is given up after twelve characters, the
backslash included. -/
def readEscape : List Char → Except SyntaxError (Char × Nat)
  | 'u' :: '{' :: rest =>
    match bracedCode (min 9 rest.length) 0 0 rest with
    | .ok (char, count) => .ok (char, count + 2)
    | .error count =>
      .error (.badUnicodeEscape (String.ofList ('\\' :: 'u' :: '{' :: rest.take count)))
  | 'u' :: rest =>
    match fixedCode rest with
    | some (char, count) => .ok (char, count + 1)
    | none => .error (.badUnicodeEscape (String.ofList ('\\' :: 'u' :: rest.take 4)))
  | c :: _ =>
    match letterEscape? c with
    | some char => .ok (char, 1)
    | none => .error (.badEscape (String.ofList ['\\', c]))
  | [] => .error (.badEscape "\\")

/-- The characters of a text up to its closing quote. The first `skip`
characters belong to an escape that is read already. -/
def readText : Nat → List Char → Piece (List Char)
  | _, [] => .error .unterminatedText
  | skip + 1, _ :: rest => readText skip rest
  | 0, c :: rest =>
    if c = Text.doubleQuote then .ok ([], rest)
    else if isLineEnd c then .error .unterminatedText
    else if c = '\\' then
      match readEscape rest with
      | .ok (char, count) => mapPiece (char :: ·) (readText count rest)
      | .error e => .error e
    else mapPiece (c :: ·) (readText 0 rest)

/-- Puts a character in front of the first of some lines. -/
def prependChar (c : Char) : List (List Char) → List (List Char)
  | [] => [[c]]
  | line :: lines => (c :: line) :: lines

/-- The lines of a block text up to its closing quotes. Three quotes after a
backslash do not close it. -/
def readBlockLines : List Char → Piece (List (List Char))
  | [] => .error .unterminatedText
  | '\x22' :: '\x22' :: '\x22' :: rest => .ok ([[]], rest)
  | '\\' :: '\x22' :: '\x22' :: '\x22' :: rest =>
    mapPiece (fun lines => prependChar '\x22' (prependChar '\x22' (prependChar '\x22' lines)))
      (readBlockLines rest)
  | '\r' :: '\n' :: rest => mapPiece ([] :: ·) (readBlockLines rest)
  | c :: rest =>
    mapPiece (fun lines => if isLineEnd c then [] :: lines else prependChar c lines)
      (readBlockLines rest)

def isIndent (c : Char) : Bool := c == ' ' || c == '\t'

/-- Whether a line has nothing but spaces and tabs. -/
def isBlankLine (line : List Char) : Bool := line.all isIndent

/-- The smallest indent of the lines that are not blank. -/
def commonIndent (lines : List (List Char)) : Nat :=
  (((lines.filter (!isBlankLine ·)).map fun line => (line.takeWhile isIndent).length).min?).getD 0

/-- The value of a block text: the indent that all lines but the first share is
taken away from them, and the blank lines at both ends are dropped. -/
def blockValue : List (List Char) → List Char
  | [] => []
  | first :: others =>
    let indent := commonIndent others
    let lines := first :: others.map (·.drop indent)
    ['\n'].intercalate (Text.trimEnds isBlankLine lines)

/-- A text, from behind its first quote on. -/
def readQuoted : List Char → Piece Token
  | '\x22' :: '\x22' :: rest =>
    mapPiece (fun lines => .blockText (String.ofList (blockValue lines))) (readBlockLines rest)
  | rest => mapPiece (fun chars => .text (String.ofList chars)) (readText 0 rest)

/-- A spread, from behind its first point on. -/
def readPoints : List Char → Piece Token
  | '.' :: '.' :: rest => .ok (.punctuator .spread, rest)
  | '.' :: _ => .error .twoPoints
  | rest =>
    let digits := rest.takeWhile isDecimalDigit
    if digits.isEmpty then .error (.strayCharacter '.')
    else .error (.missingWholePart (String.ofList digits))

/-- The token that starts with a given character. -/
def readToken (c : Char) (rest : List Char) : Piece Token :=
  match Punctuator.ofChar? c with
  | some p => .ok (.punctuator p, rest)
  | none =>
    if c = Text.doubleQuote then readQuoted rest
    else if isDecimalDigit c || c = '-' then readNumber (c :: rest)
    else if isNameStart c then
      .ok (.name (String.ofList (c :: rest.takeWhile isNamePart)), rest.dropWhile isNamePart)
    else if c = '.' then readPoints rest
    else if c = Text.singleQuote then .error .straySingleQuote
    else .error (.strayCharacter c)

theorem skipIgnored_length (inComment : Bool) (chars : List Char) :
    (skipIgnored inComment chars).length ≤ chars.length := by
  fun_induction skipIgnored inComment chars <;> grind

/-- A piece leaves no more than it was given. -/
def Shrinks {α : Type} (read : List Char → Piece α) : Prop :=
  ∀ chars a rest, read chars = .ok (a, rest) → rest.length ≤ chars.length

theorem dropWhile_length {α : Type} (skip : α → Bool) (items : List α) :
    (items.dropWhile skip).length ≤ items.length :=
  (List.dropWhile_suffix skip).length_le

/-- Changing what was read leaves the rest as it is. -/
theorem of_mapPiece {α β : Type} {f : α → β} {piece : Piece α} {b : β} {rest : List Char}
    (h : mapPiece f piece = .ok (b, rest)) : ∃ a, piece = .ok (a, rest) := by
  cases piece with
  | error e => simp [mapPiece] at h
  | ok p => exact ⟨p.1, by simp only [mapPiece] at h; grind⟩

theorem readDigits_lt {chars digits rest : List Char}
    (h : readDigits chars = .ok (digits, rest)) : rest.length < chars.length := by
  have hs := congrArg List.length (List.takeWhile_append_dropWhile (p := isDecimalDigit) (l := chars))
  simp only [readDigits] at h
  split at h
  · simp at h
  · rename_i hn
    have := List.length_pos_iff.mpr (fun he => hn (List.isEmpty_iff.mpr he))
    grind

theorem readDigits_shrinks : Shrinks readDigits :=
  fun _ _ _ h => Nat.le_of_lt (readDigits_lt h)

theorem readWhole_lt {chars whole rest : List Char}
    (h : readWhole chars = .ok (whole, rest)) : rest.length < chars.length := by
  fun_cases readWhole chars with
  | case1 => simp_all [readWhole]
  | case2 => grind [readWhole]
  | case3 => grind [readWhole]
  | case4 chars hc => exact readDigits_lt (by rw [← h, readWhole]; exact hc)

theorem readFraction_shrinks : Shrinks readFraction := by
  intro chars fraction rest h
  fun_cases readFraction chars with
  | case1 after =>
    rw [readFraction] at h
    obtain ⟨digits, hd⟩ := of_mapPiece h
    exact Nat.le_succ_of_le (readDigits_shrinks _ _ _ hd)
  | case2 chars hc => grind [readFraction]

theorem readSign_length (chars : List Char) : (readSign chars).2.length ≤ chars.length := by
  fun_cases readSign chars <;> simp

theorem readMinus_length (chars : List Char) : (readMinus chars).2.length ≤ chars.length := by
  fun_cases readMinus chars <;> simp

theorem readExponent_shrinks : Shrinks readExponent := by
  intro chars exponent rest h
  fun_cases readExponent chars with
  | case1 => simp_all [readExponent]
  | case2 c after hc sign unsigned hs =>
    have hl := readSign_length after
    simp only [readExponent, hc, if_true, hs] at h hl
    obtain ⟨digits, hd⟩ := of_mapPiece h
    exact Nat.le_succ_of_le (Nat.le_trans (readDigits_shrinks _ _ _ hd) hl)
  | case3 c after hc => simp_all [readExponent]

theorem readNumber_lt {chars rest : List Char} {token : Token}
    (h : readNumber chars = .ok (token, rest)) : rest.length < chars.length := by
  simp only [readNumber, bind, Except.bind, pure, Except.pure] at h
  have hm := readMinus_length chars
  split at h
  · simp at h
  · rename_i whole hw
    split at h
    · simp at h
    · rename_i fraction hf
      split at h
      · simp at h
      · rename_i exponent he
        have h1 := readWhole_lt hw
        have h2 := readFraction_shrinks _ _ _ hf
        have h3 := readExponent_shrinks _ _ _ he
        grind

theorem readText_length (skip : Nat) (chars : List Char) (text rest : List Char)
    (h : readText skip chars = .ok (text, rest)) : rest.length ≤ chars.length := by
  fun_induction readText skip chars generalizing text rest with
  | case1 => simp at h
  | case2 skip c after ih => exact Nat.le_succ_of_le (ih _ _ h)
  | case3 => simp_all
  | case4 => simp at h
  | case5 _ _ _ _ _ _ ih =>
    obtain ⟨read, hr⟩ := of_mapPiece h
    exact Nat.le_succ_of_le (ih _ _ hr)
  | case6 => simp at h
  | case7 _ _ _ _ _ ih =>
    obtain ⟨read, hr⟩ := of_mapPiece h
    exact Nat.le_succ_of_le (ih _ _ hr)

theorem readBlockLines_shrinks : Shrinks readBlockLines := by
  intro chars lines rest h
  fun_induction readBlockLines chars generalizing lines rest with
  | case1 => simp at h
  | case2 => simp_all; omega
  | case3 _ ih =>
    obtain ⟨read, hr⟩ := of_mapPiece h
    have := ih _ _ hr
    simp only [List.length_cons]
    omega
  | case4 _ ih =>
    obtain ⟨read, hr⟩ := of_mapPiece h
    have := ih _ _ hr
    simp only [List.length_cons]
    omega
  | case5 _ _ _ _ _ ih =>
    obtain ⟨read, hr⟩ := of_mapPiece h
    have := ih _ _ hr
    simp only [List.length_cons]
    omega

theorem readQuoted_shrinks : Shrinks readQuoted := by
  intro chars token rest h
  fun_cases readQuoted chars with
  | case1 after =>
    rw [readQuoted] at h
    obtain ⟨read, hr⟩ := of_mapPiece h
    have := readBlockLines_shrinks _ _ _ hr
    simp only [List.length_cons]
    omega
  | case2 chars hc =>
    rw [readQuoted] at h
    · obtain ⟨read, hr⟩ := of_mapPiece h
      exact readText_length _ _ _ _ hr
    · exact hc

theorem readPoints_shrinks : Shrinks readPoints := by
  intro chars token rest h
  fun_cases readPoints chars <;> grind [readPoints]

theorem readToken_lt {c : Char} {chars rest : List Char} {token : Token}
    (h : readToken c chars = .ok (token, rest)) : rest.length < (c :: chars).length := by
  have hd := dropWhile_length isNamePart chars
  unfold readToken at h
  split at h
  · grind
  · split at h
    · exact Nat.lt_succ_of_le (readQuoted_shrinks _ _ _ h)
    · split at h
      · exact readNumber_lt h
      · split at h
        · grind
        · split at h
          · exact Nat.lt_succ_of_le (readPoints_shrinks _ _ _ h)
          · grind

end Lexer

/-- The tokens of a text. -/
def Tokens.ofChars (chars : List Char) : Tokens :=
  match _hs : Lexer.skipIgnored false chars with
  | [] => .finished
  | c :: rest =>
    match _ht : Lexer.readToken c rest with
    | .error e => .broken e
    | .ok (token, after) => .next token (ofChars after)
termination_by chars.length
decreasing_by
  have hl := Lexer.skipIgnored_length false chars
  rw [_hs] at hl
  exact Nat.lt_of_lt_of_le (Lexer.readToken_lt _ht) hl

/-- The tokens of a text. -/
def Tokens.ofText (source : String) : Tokens := ofChars source.toList

end SchemaModels.Graphql
