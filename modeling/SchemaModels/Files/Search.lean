import SchemaModels.Files.Glob
import SchemaModels.Files.Tree

/-!
Patterns that select files. Each name of a pattern selects in the directories
that the names before it have selected; two stars as a whole name stand for any
number of directories. A name that begins with a point is hidden, and only a
name of the pattern that begins with a point selects it.
-/
namespace SchemaModels.Glob

/-- A name in a pattern. -/
inductive Segment where
  /-- Nothing, at the end: the directories that are selected so far. -/
  | close
  | plain (name : String)
  | wild (pattern : String)
  | deep
  deriving DecidableEq, Repr

/-- A pattern: a text without wildcards, or such a text for a directory with
names below it. -/
inductive Pattern where
  | literal (text : String)
  | below (directory : String) (segments : List Segment)
  deriving DecidableEq, Repr

def Segment.ofName (name : String) : Segment :=
  if name.isEmpty then .close
  else if name == "**" then .deep
  else if hasWildcard name then .wild name
  else .plain name

/-- A directory in front of a pattern, without the separators at its end unless
it has nothing else. -/
def trimDirectory (chars : List Char) : String :=
  let trimmed := (chars.reverse.dropWhile (· == '/')).reverse
  String.ofList (if trimmed.isEmpty then chars else trimmed)

/-- The part of a text up to the separator in front of its first wildcard, and
what follows. -/
def splitDirectory : List Char → List Char × List Char
  | [] => ([], [])
  | c :: rest =>
    let (front, back) := splitDirectory rest
    if c = '/' then (c :: front, back)
    else if front.isEmpty then ([], c :: back)
    else (c :: front, back)

/-- The names of a pattern. Empty names inside it do not count. -/
def segmentsOf (chars : List Char) : List Segment :=
  let names := (Path.splitSeparators chars).map String.ofList
  let inner := (names.dropLast.filter (· != "")).map Segment.ofName
  inner ++ (names.getLast?.map Segment.ofName).toList

/-- The pattern that a text writes. -/
def Pattern.ofText (text : String) : Pattern :=
  if !hasWildcard text then .literal text
  else
    let isWild (c : Char) : Bool := c == '*' || c == '?' || c == '['
    let front := text.toList.takeWhile (!isWild ·)
    let (directory, started) := splitDirectory front
    .below (trimDirectory directory) (segmentsOf (started ++ text.toList.dropWhile (!isWild ·)))

/-- Two texts with a separator between them, if both are there. -/
def joinTexts (directory name : String) : String :=
  if directory.isEmpty then name
  else if directory.endsWith "/" then directory ++ name
  else directory ++ "/" ++ name

def isHidden (name : String) : Bool := name.startsWith "."

/-- The names in a directory, or only those of directories. -/
def namesIn (tree : FileTree) (onlyDirectories : Bool) (directory : String) : List String :=
  let names := tree.list directory
  if onlyDirectories then names.filter fun name => tree.isDirectory (joinTexts directory name)
  else names

/-- The names below a directory that are not hidden, down to a given depth. -/
def namesBelow (tree : FileTree) (onlyDirectories : Bool) : Nat → String → List String
  | 0, _ => []
  | depth + 1, directory =>
    ((namesIn tree onlyDirectories directory).filter (!isHidden ·)).flatMap fun name =>
      name :: (namesBelow tree onlyDirectories depth (joinTexts directory name)).map
        (joinTexts name)

/-- What a name of a pattern selects in a directory. -/
def Segment.select (tree : FileTree) (onlyDirectories : Bool) (directory : String) :
    Segment → List String
  | .close => if tree.isDirectory directory then [""] else []
  | .plain name => if tree.exists? (joinTexts directory name) then [name] else []
  | .wild pattern =>
    let names := namesIn tree onlyDirectories directory
    let seen := if isHidden pattern then names else names.filter (!isHidden ·)
    seen.filter fun name => admits (pieces pattern.toList) name.toList
  | .deep =>
    (if directory.isEmpty || tree.isDirectory directory then [""] else []) ++
      namesBelow tree onlyDirectories (tree.entries.length + 1) directory

/-- A selected name after the directory it was selected in. Nothing after a
directory leaves the separator. -/
def selected (directory name : String) : String := joinTexts directory name

/-- What a list of names selects from some directories on. -/
def selectAll (tree : FileTree) (directories : List String) : List Segment → List String
  | [] => directories
  | segment :: rest =>
    selectAll tree (directories.flatMap fun directory =>
      (segment.select tree (!rest.isEmpty) directory).map (selected directory)) rest

/-- What gives the texts that a pattern selects, in no particular order and perhaps more
than once. -/
abbrev Finder := FileTree → String → List String

/-- The texts that a pattern selects, in no particular order and perhaps more
than once. -/
def expand (tree : FileTree) (text : String) : List String :=
  match Pattern.ofText text with
  | .literal text =>
    if text.endsWith "/" then (if tree.isDirectory text then [text] else [])
    else if tree.exists? text then [text] else []
  | .below directory segments => (selectAll tree [directory] segments).filter (· != "")

/-- The error of a pattern whose search has to begin in what can be no directory. Behind the
first wildcard only names that are there are looked at, so no null gets in the way. -/
def searchError? (text : String) : Option FileError :=
  match Pattern.ofText text with
  | .literal _ => none
  | .below directory _ =>
    if directory.toList.contains '\x00' then some ⟨.nullInPath, directory⟩ else none

end SchemaModels.Glob
