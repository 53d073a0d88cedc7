import SchemaModels.Text.Literal

/-!
Names of directives. A plain name is taken as it is. The other convention puts
a provider in front, and the first underscore ends it.
-/
namespace SchemaModels

/-- How the name of a directive is read. -/
inductive Naming where
  | plain
  | provider
  deriving DecidableEq, Repr

/-- A name and, if there is one, its provider. -/
structure DirectiveName where
  name : String
  provider : Option String
  deriving DecidableEq, Repr

namespace Naming

/-- The name of a convention in settings. -/
def label : Naming → String
  | .plain => "plain"
  | .provider => "provider"

def ofLabel? (label : String) : Option Naming :=
  [Naming.plain, Naming.provider].find? fun naming => naming.label == label

/-- The words for a text that names no convention. -/
def unknownLabel (label : String) : String :=
  Text.literal label ++ " is not a valid DirectiveNaming"

/-- The name behind the underscore. It is one line, which a line feed may end. -/
def nameAfterProvider? (chars : List Char) : Option (List Char) :=
  let line := chars.takeWhile (· != '\n')
  let rest := chars.dropWhile (· != '\n')
  if line.isEmpty || !(rest.isEmpty || rest == ['\n']) then none else some line

/-- Splits a raw name at its first underscore. Both parts need a character. -/
def splitProvider? (raw : List Char) : Option (List Char × List Char) :=
  match raw.dropWhile (· != '_') with
  | [] => none
  | _ :: rest =>
    let first := raw.takeWhile (· != '_')
    if first.isEmpty then none else (nameAfterProvider? rest).map (first, ·)

/-- The name that a raw name stands for, if the convention admits it. -/
def read? : Naming → String → Option DirectiveName
  | .plain, raw => some ⟨raw, none⟩
  | .provider, raw =>
    (splitProvider? raw.toList).map fun parts =>
      ⟨String.ofList parts.2, some (String.ofList parts.1)⟩

end Naming
end SchemaModels
