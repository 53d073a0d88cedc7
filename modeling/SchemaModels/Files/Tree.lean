import SchemaModels.Entries
import SchemaModels.Files.Path
import SchemaModels.Text.Literal

/-!
A tree of files as a value. A text that names a file is followed part by part:
each part but the last has to be a directory, also in front of a part that goes
up again.
-/
namespace SchemaModels

/-- What is at a place in a tree. -/
inductive Entry where
  | directory
  | file (content : List UInt8)
  deriving DecidableEq

/-- Why a file cannot be used. -/
inductive FileFault where
  | missing
  | exists
  | notDirectory
  | isDirectory
  /-- The text of the path holds a null, so it names nothing that there could be. -/
  | nullInPath
  deriving DecidableEq, Repr

/-- A fault and the path that was asked for. -/
structure FileError where
  fault : FileFault
  path : String
  deriving DecidableEq, Repr

namespace FileFault

/-- The number and the words of a fault that the system finds. A path that is no path is
found out before the system is asked. -/
def report? : FileFault → Option (Nat × String)
  | .missing => some (2, "No such file or directory")
  | .exists => some (17, "File exists")
  | .notDirectory => some (20, "Not a directory")
  | .isDirectory => some (21, "Is a directory")
  | .nullInPath => none

end FileFault

namespace FileError

/-- Whether an error comes from the system. -/
def isReported (error : FileError) : Bool := error.fault.report?.isSome

/-- The words for an error. -/
def message (error : FileError) : String :=
  match error.fault.report? with
  | some (number, reason) => s!"[Errno {number}] {reason}: " ++ Text.literal error.path
  | none => "embedded null byte"

end FileError

/-- Files and directories by the names that lead to them from the top, and the
directory in which relative paths start. The top itself is always there. -/
structure FileTree where
  entries : List (List String × Entry)
  working : List String

namespace FileTree

/-- What is at a place. -/
def at? (tree : FileTree) (place : List String) : Option Entry :=
  match place with
  | [] => some .directory
  | place => Entries.get? tree.entries place

/-- The same tree with something put at a place. -/
def put (tree : FileTree) (place : List String) (entry : Entry) : FileTree :=
  { tree with entries := Entries.put tree.entries place entry }

/-- The tree without a place and all below it. -/
def remove (tree : FileTree) (place : List String) : FileTree :=
  { tree with entries := tree.entries.filter fun entry => !place.isPrefixOf entry.1 }

/-- The place that is reached from a directory by a list of names. -/
def walk (tree : FileTree) (place : List String) : List String → Except FileFault (List String)
  | [] => .ok place
  | name :: rest =>
    match tree.at? place with
    | none => .error .missing
    | some (.file _) => .error .notDirectory
    | some .directory =>
      if name = "." then walk tree place rest
      else if name = ".." then walk tree place.dropLast rest
      else walk tree (place ++ [name]) rest

/-- The names in a text that names a file. One that ends with a separator means
a directory. -/
def namesOf (text : String) : List String :=
  let parts := (Path.splitSeparators text.toList).map String.ofList
  let names := parts.filter (· != "")
  if parts.getLast? == some "" then names ++ ["."] else names

/-- The place that a text names. Nothing has to be there. -/
def locate (tree : FileTree) (text : String) : Except FileFault (List String) :=
  if text.isEmpty then .error .missing
  else tree.walk (if text.startsWith "/" then [] else tree.working) (namesOf text)

/-- What a text names. -/
def find (tree : FileTree) (text : String) : Except FileFault Entry := do
  match tree.at? (← tree.locate text) with
  | some entry => return entry
  | none => throw .missing

def exists? (tree : FileTree) (text : String) : Bool := (tree.find text).toOption.isSome

def isFile (tree : FileTree) (text : String) : Bool :=
  match tree.find text with
  | .ok (.file _) => true
  | _ => false

def isDirectory (tree : FileTree) (text : String) : Bool :=
  match tree.find text with
  | .ok .directory => true
  | _ => false

/-- The files that are new since an earlier tree or have a new content. -/
def changedSince (tree earlier : FileTree) : List (List String × List UInt8) :=
  tree.entries.filterMap fun entry =>
    match entry.2 with
    | .directory => none
    | .file content =>
      if earlier.at? entry.1 == some (.file content) then none else some (entry.1, content)

/-- The names in a directory. The empty text names the working directory. -/
def list (tree : FileTree) (text : String) : List String :=
  match tree.locate (if text.isEmpty then "." else text) with
  | .error _ => []
  | .ok place =>
    if tree.at? place == some .directory then
      tree.entries.filterMap fun entry =>
        if entry.1.dropLast == place then entry.1.getLast? else none
    else []

/-- The content of a file. -/
def read (tree : FileTree) (path : Path) : Except FileError (List UInt8) :=
  if path.hasNull then .error ⟨.nullInPath, path.text⟩
  else
    match tree.find path.text with
    | .ok (.file content) => .ok content
    | .ok .directory => .error ⟨.isDirectory, path.text⟩
    | .error fault => .error ⟨fault, path.text⟩

/-- The tree with a file written. Its directory has to be there. -/
def write (tree : FileTree) (path : Path) (content : List UInt8) : Except FileError FileTree :=
  if path.hasNull then .error ⟨.nullInPath, path.text⟩
  else
    match tree.locate path.text with
    | .error fault => .error ⟨fault, path.text⟩
    | .ok place =>
      match tree.at? place with
      | some .directory => .error ⟨.isDirectory, path.text⟩
      | some (.file _) => .ok (tree.put place (.file content))
      | none =>
        match tree.at? place.dropLast with
        | some .directory => .ok (tree.put place (.file content))
        | some (.file _) => .error ⟨.notDirectory, path.text⟩
        | none => .error ⟨.missing, path.text⟩

/-- The tree with a new directory. The one it is in has to be there. -/
def makeDirectory (tree : FileTree) (path : Path) : Except FileFault FileTree :=
  if path.hasNull then .error .nullInPath
  else do
    let place ← tree.locate path.text
    match tree.at? place with
    | some _ => throw .exists
    | none =>
      match tree.at? place.dropLast with
      | some .directory => return tree.put place .directory
      | some (.file _) => throw .notDirectory
      | none => throw .missing

/-- A directory that may be there already. -/
def ensureDirectory (tree : FileTree) (path : Path) : Except FileError FileTree :=
  match tree.makeDirectory path with
  | .ok tree => .ok tree
  | .error fault =>
    if fault != .missing && tree.isDirectory path.text then .ok tree
    else .error ⟨fault, path.text⟩

/-- A directory with all the directories above it that are missing; at most as
many as it has parts. The directories that were made stay also if one of them
cannot be made. -/
def ensureDirectories (tree : FileTree) (path : Path) : Nat → FileTree × Option FileError
  | 0 =>
    match tree.ensureDirectory path with
    | .ok made => (made, none)
    | .error e => (tree, some e)
  | above + 1 =>
    match tree.ensureDirectory path with
    | .ok made => (made, none)
    | .error e =>
      if e.fault = .missing && !path.parts.isEmpty then
        match ensureDirectories tree path.parent above with
        | (left, some e) => (left, some e)
        | (made, none) =>
          match made.ensureDirectory path with
          | .ok all => (all, none)
          | .error e => (made, some e)
      else (tree, some e)

/-- The tree with a file written in a directory that is made if it is missing,
or as much of that as can be done. -/
def writeBelow (tree : FileTree) (path : Path) (content : List UInt8) :
    FileTree × Option FileError :=
  match tree.ensureDirectories path.parent path.parts.length with
  | (left, some e) => (left, some e)
  | (made, none) =>
    match made.write path content with
    | .ok written => (written, none)
    | .error e => (made, some e)

end FileTree
end SchemaModels
