import SchemaModels.Command.Flag

/-!
How single arguments read. An argument with a dash in front is a flag, or
unknown, unless it looks like a negative number or holds a space. Long names
may be cut short as long as one name fits, and the text of a flag may follow its
name after an equals sign, or directly after a short name.
-/
namespace SchemaModels.Command

/-- An argument. -/
inductive Word where
  | plain (text : String)
  | separator
  | unknown (text : String)
  /-- A flag, possibly with a text. The text of a joined one follows its short
  name directly. -/
  | flag (flag : Flag) (joined : Bool) (attached : Option String)
  deriving DecidableEq, Repr

namespace Word

/-- A dash, digits, and possibly a point with digits behind it; a line feed may
follow. -/
def looksNegative : List Char → Bool
  | '-' :: chars =>
    let digits := fun c => (Text.decimalValue? c).isSome
    let ends := fun rest : List Char => rest.isEmpty || rest == ['\n']
    let rest := chars.dropWhile digits
    match rest with
    | '.' :: d :: more => digits d && ends (more.dropWhile digits)
    | rest => chars.head?.any digits && ends rest
  | _ => false

/-- The part in front of the first equals sign, and the part behind it. -/
def splitEquals (chars : List Char) : List Char × Option String :=
  match chars.dropWhile (· != '=') with
  | [] => (chars, none)
  | _ :: rest => (chars.takeWhile (· != '='), some (String.ofList rest))

/-- The flags that an argument may mean, each with the name that it stands for. -/
def candidates (flags : List Flag) (chars : List Char) : List (String × Word) :=
  if chars.take 2 = ['-', '-'] then
    let (start, attached) := splitEquals chars
    flags.flatMap fun f =>
      (f.names.filter (start.isPrefixOf ·.toList)).map fun name => (name, .flag f false attached)
  else
    flags.flatMap fun f =>
      (f.names.filter (·.toList == chars.take 2)).map fun name =>
        (name, .flag f true (some (String.ofList (chars.drop 2))))

/-- An argument whose name is written in full, alone or before an equals sign. -/
def full? (flags : List Flag) (text : String) : Option Word :=
  match Flag.named? flags text with
  | some f => some (.flag f false none)
  | none =>
    let (start, attached) := splitEquals text.toList
    if attached.isNone then none
    else (Flag.named? flags (String.ofList start)).map fun f => .flag f false attached

/-- How an argument reads that is not the separator. -/
def read (flags : List Flag) (text : String) : Except UsageError Word :=
  let chars := text.toList
  if chars.head? != some '-' || chars.length == 1 then .ok (.plain text)
  else
    match full? flags text with
    | some word => .ok word
    | none =>
      match candidates flags chars with
      | [] => .ok (if looksNegative chars || chars.contains ' ' then .plain text else .unknown text)
      | [(_, word)] => .ok word
      | several => .error (.ambiguous text (several.map (·.1)))

/-- How arguments read. All that follow the separator are plain. -/
def readAll (flags : List Flag) : List String → Except UsageError (List Word)
  | [] => .ok []
  | text :: rest =>
    if text = "--" then .ok (.separator :: rest.map .plain)
    else do return (← read flags text) :: (← readAll flags rest)

end Word
end SchemaModels.Command
