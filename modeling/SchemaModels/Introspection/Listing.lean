import SchemaModels.Files.Search

/-!
The files that patterns select: pattern by pattern, those of one pattern in the
order of their texts, and each path only where it comes first.
-/
namespace SchemaModels

/-- The paths that a pattern selects, in order. Which texts they have is left to what
finds them. -/
def expansion (tree : FileTree) (pattern : String) (find : Glob.Finder := Glob.expand) :
    List Path :=
  ((find tree pattern).mergeSort fun a b => decide (a ≤ b)).map Path.ofText

/-- Adds the paths that are files and not listed yet. -/
def addFiles (tree : FileTree) (listed : List Path) : List Path → List Path
  | [] => listed
  | path :: rest =>
    if tree.isFile path.text && !listed.contains path then addFiles tree (listed ++ [path]) rest
    else addFiles tree listed rest

/-- The schema files of some patterns. -/
def schemaFiles (tree : FileTree) (patterns : List String)
    (find : Glob.Finder := Glob.expand) : List Path :=
  patterns.foldl (fun listed pattern => addFiles tree listed (expansion tree pattern find)) []

/-- The schema files of some patterns, if all of the patterns can be searched for. -/
def findSchemaFiles (tree : FileTree) (patterns : List String) : Except FileError (List Path) :=
  match patterns.findSome? Glob.searchError? with
  | some error => .error error
  | none => .ok (schemaFiles tree patterns)

end SchemaModels
