import SchemaModels.Yaml.Error

/-!
The tokens of a YAML text. Indentation shows as tokens that open and close
blocks.
-/
namespace SchemaModels.Yaml

/-- How a tag is written: after a handle, or in full. -/
inductive TagName where
  | short (handle : String) (rest : String)
  | full (name : String)
  deriving DecidableEq, Repr

inductive Directive where
  | version (major : Nat)
  | tag (handle : String) (start : String)
  | other
  deriving DecidableEq, Repr

inductive Token where
  | directive (directive : Directive)
  | documentStart
  | documentEnd
  | blockSequence
  | blockMapping
  | blockEnd
  | flowSequence
  | flowSequenceEnd
  | flowMapping
  | flowMappingEnd
  | flowEntry
  | blockEntry
  | key
  | value
  | alias (name : String)
  | anchor (name : String)
  | tag (name : TagName)
  | scalar (plain : Bool) (value : String)
  deriving DecidableEq, Repr

/-- The tokens of a text, up to its end or to the place where it goes wrong. -/
structure TokenList where
  tokens : List Token
  failure : Option Error

end SchemaModels.Yaml
