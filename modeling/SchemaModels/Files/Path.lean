/-!
Paths in normal form: single separators, no parts that stay in place, and no
separator at the end. A part that goes up is kept, because what it leads to
depends on the files. Two separators at the start, but not more, stay two.
-/
namespace SchemaModels

/-- Where a path starts. -/
inductive PathStart where
  | relative
  | top
  | doubleTop
  deriving DecidableEq, Repr

structure Path where
  start : PathStart
  parts : List String
  deriving DecidableEq, Repr

namespace Path

/-- The parts between separators, with the empty ones. -/
def splitSeparators : List Char → List (List Char)
  | [] => [[]]
  | c :: rest =>
    if c = '/' then [] :: splitSeparators rest
    else
      match splitSeparators rest with
      | part :: parts => (c :: part) :: parts
      | [] => [[c]]

/-- The start of a path, by the number of its leading separators. -/
def startOf (chars : List Char) : PathStart :=
  match (chars.takeWhile (· == '/')).length with
  | 0 => .relative
  | 2 => .doubleTop
  | _ => .top

/-- The parts of a path that lead somewhere. -/
def partsOf (chars : List Char) : List String :=
  ((splitSeparators chars).map String.ofList).filter fun part => part != "" && part != "."

/-- The path that a text writes. -/
def ofText (text : String) : Path := ⟨startOf text.toList, partsOf text.toList⟩

/-- The text of the start of a path. -/
def startText : PathStart → String
  | .relative => ""
  | .top => "/"
  | .doubleTop => "//"

/-- A path as text. The path that leads nowhere is a point. -/
def text (path : Path) : String :=
  if path.start = .relative && path.parts.isEmpty then "."
  else startText path.start ++ "/".intercalate path.parts

/-- Whether a null is in a path, which no name of a file can have. -/
def hasNull (path : Path) : Bool := path.parts.any fun part => part.toList.contains '\x00'

def isAbsolute (path : Path) : Bool := path.start != .relative

/-- A path as seen from another one. An absolute path stays what it is. -/
def join (base path : Path) : Path :=
  if path.isAbsolute then path else ⟨base.start, base.parts ++ path.parts⟩

/-- The path without its last part. -/
def parent (path : Path) : Path := { path with parts := path.parts.dropLast }

/-- Parts with those that go up taken together with the parts they leave. -/
def collapse (parts : List String) : List String :=
  (parts.foldl (fun above part => if part = ".." then above.drop 1 else part :: above) []).reverse

/-- The absolute path of a path seen from a directory, without parts that go
up. -/
def resolve (directory : List String) (path : Path) : Path :=
  let parts := if path.isAbsolute then path.parts else directory ++ path.parts
  ⟨.top, collapse parts⟩

end Path
end SchemaModels
