import SchemaModels.Command.Run

/-!
The program on real files. What a task may look at is read into a tree first,
and what has changed in the tree is written back in the end.
-/
namespace SchemaModels.Main

open Command

/-- The tree with the directories on the way to a place. -/
def putAbove (tree : FileTree) (place : List String) : FileTree :=
  (List.range place.length).foldl (fun tree count => tree.put (place.take count) .directory) tree

/-- The tree with all that is at a path or below it. -/
def addPath (tree : FileTree) (path : Path) : IO FileTree := do
  let place := (Path.resolve tree.working path).parts
  let top := (← IO.currentDir) / (Path.mk .top place).text
  let mut tree := putAbove tree place
  if ← top.isDir then
    tree := tree.put place .directory
    for found in ← top.walkDir do
      let below := (Path.ofText found.toString).parts
      if ← found.isDir then tree := tree.put below .directory
      else tree := tree.put below (.file (← IO.FS.readBinFile found).toList)
  else if ← top.pathExists then
    tree := tree.put place (.file (← IO.FS.readBinFile top).toList)
  return tree

/-- The part of a pattern in front of its first wildcard. -/
def literalPart (pattern : String) : Path :=
  let path := Path.ofText pattern
  let plain := fun part : String => !part.toList.any ['*', '?', '['].contains
  { path with parts := path.parts.takeWhile plain }

/-- The directory that a task is about. -/
def directoryOf : Task → String
  | .init directory => directory
  | .check directory _ => directory
  | .introspect directory _ _ => directory

/-- The tree that a request looks at. -/
def treeFor (working : List String) (request : Request) : IO FileTree := do
  let empty : FileTree := ⟨[], working⟩
  match request with
  | .task task =>
    let directory := directoryOf task
    let tree ← addPath (putAbove empty working) (Path.ofText directory)
    match projectAt .bare tree directory with
    | .error _ => return tree
    | .ok (root, config) =>
      (config.toOptions root).patterns.foldlM (fun tree pattern =>
        addPath tree (literalPart pattern)) tree
  | _ => return empty

/-- The error that ends a run without a code. -/
def breakdownMessage : Breakdown → String
  | .file error => error.message
  | .scalar error => error.message
  | .text error => error.message
  | .numeral error => error.message

/-- Prints an outcome and writes the files that have changed. -/
def finish (before : FileTree) (outcome : Outcome) : IO UInt32 := do
  for (place, content) in outcome.tree.changedSince before do
    IO.FS.createDirAll (Path.mk .top place.dropLast).text
    IO.FS.writeBinFile (Path.mk .top place).text ⟨content.toArray⟩
  for line in outcome.printed do IO.println line
  for line in outcome.errors do IO.eprintln line
  match outcome.ending with
  | .code code => return UInt32.ofNat code
  | .broken breakdown =>
    IO.eprintln (breakdownMessage breakdown)
    return 1
  | .unprinted message =>
    IO.eprintln message
    return 1

end SchemaModels.Main

def main (arguments : List String) : IO UInt32 := do
  let working := (SchemaModels.Path.ofText (← IO.currentDir).toString).parts
  let tree ← SchemaModels.Main.treeFor working (SchemaModels.Command.Request.read arguments)
  SchemaModels.Main.finish tree (SchemaModels.Command.runOn .unlimited .bare tree arguments)
