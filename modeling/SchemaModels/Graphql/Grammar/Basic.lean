import SchemaModels.Graphql.SyntaxError

/-!
Parsers over tokens: each takes some from the front or fails.
-/
namespace SchemaModels.Graphql

abbrev Parser (α : Type) := StateT Tokens (Except SyntaxError) α

namespace Parser

variable {α : Type}

/-- The next token, which is absent at the end of the text. -/
def peek : Parser (Option Token) := do
  match ← get with
  | .finished => return none
  | .broken error => throw error
  | .next token _ => return some token

/-- Leaves the next token behind. The one behind it is read at once, so what is
wrong there comes before what is wrong with the token that was left. -/
def advance : Parser Unit := do
  match ← get with
  | .next _ (.broken error) => throw error
  | .next _ rest => set rest
  | _ => return

/-- Fails at the next token. -/
def unexpected : Parser α := do throw (.unexpected (← peek))

/-- Whether a punctuator is next. -/
def isNext (p : Punctuator) : Parser Bool := return (← peek) == some (.punctuator p)

/-- Takes a punctuator if it is next. -/
def skip (p : Punctuator) : Parser Bool := do
  if ← isNext p then
    advance
    return true
  else return false

/-- Takes a punctuator that must be next. -/
def expect (p : Punctuator) : Parser Unit := do
  if !(← skip p) then throw (.expected (.punctuator p) (← peek))

/-- Takes a name. -/
def name : Parser String := do
  match ← peek with
  | some (.name value) =>
    advance
    return value
  | token => throw (.expected .name token)

/-- Takes a word if it is next. -/
def skipKeyword (word : String) : Parser Bool := do
  if (← peek) == some (.name word) then
    advance
    return true
  else return false

/-- Takes a word that must be next. -/
def keyword (word : String) : Parser Unit := do
  if !(← skipKeyword word) then throw (.expected (.keyword word) (← peek))

/-- Takes nothing, but fails unless the text ends here. -/
def finish : Parser Unit := do
  match ← peek with
  | none => return
  | token => throw (.expected .finish token)

/-- More than the number of tokens that are left, which bounds every repetition:
each turn takes a token at least. -/
def fuel : Parser Nat := return (← get).size + 1

/-- Items up to a closing punctuator. -/
def itemsUntil (close : Punctuator) (item : Parser α) : Nat → Parser (List α)
  | 0 => unexpected
  | fuel + 1 => do
    if ← skip close then return []
    let first ← item
    return first :: (← itemsUntil close item fuel)

/-- Any number of items between two punctuators. -/
def any (opening close : Punctuator) (item : Parser α) : Parser (List α) := do
  expect opening
  itemsUntil close item (← fuel)

/-- At least one item between two punctuators. -/
def many (opening close : Punctuator) (item : Parser α) : Parser (List α) := do
  expect opening
  let first ← item
  return first :: (← itemsUntil close item (← fuel))

/-- At least one item between two punctuators, or nothing at all. -/
def optionalMany (opening close : Punctuator) (item : Parser α) : Parser (List α) := do
  if ← isNext opening then many opening close item else return []

/-- Items that begin with a given punctuator, as many as there are. -/
def itemsWhile (start : Punctuator) (item : Parser α) : Nat → Parser (List α)
  | 0 => unexpected
  | fuel + 1 => do
    if ← isNext start then
      let first ← item
      return first :: (← itemsWhile start item fuel)
    else return []

/-- More items, each after a separator. -/
def itemsAfter (separator : Punctuator) (item : Parser α) : Nat → Parser (List α)
  | 0 => unexpected
  | fuel + 1 => do
    if ← skip separator then
      let first ← item
      return first :: (← itemsAfter separator item fuel)
    else return []

/-- At least one item, with separators between them. One may also stand in front
of the first. -/
def separated (separator : Punctuator) (item : Parser α) : Parser (List α) := do
  let _ ← skip separator
  let first ← item
  return first :: (← itemsAfter separator item (← fuel))

/-- What a whole text holds. -/
def runWhole (parser : Parser α) (tokens : Tokens) : Except SyntaxError α :=
  (do let a ← parser; finish; return a : Parser α).run' tokens

end Parser
end SchemaModels.Graphql
