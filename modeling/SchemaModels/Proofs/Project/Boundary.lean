import SchemaModels.Project.Load
import SchemaModels.Proofs.Files.Places
import SchemaModels.Proofs.Yaml.Faults

/-!
Which failures of a configuration are reported. Three kinds are not: a path with a null, text
that is not UTF-8, and a text over which the reader of YAML fails otherwise than over its
notation.
-/
namespace SchemaModels.Config

open Relation (ReflTransGen)
open Yaml (Data Node TokenList)

/-- The reader of YAML fails over a text, and not over its notation. -/
def Escapes (platform : Platform) (text : String) (e : Yaml.Error) : Prop :=
  platform.readYaml text = .error e ∧ e ≠ .malformed

section Text

variable {platform : Platform} (label : String) {text : String}

/-- With the reader that is defined here, a failure that is not over the notation comes from a
number in the characters of the text or from a node without a value, and it is the first fault
of all. -/
theorem escapes_kind {codecs : Codecs} {order : SetOrder} {e : Yaml.Error}
    (h : Escapes (.of codecs order) text e) : (Data.faults text).head? = some e ∧
      ((e.IsLexical ∧ (TokenList.ofText text).failure = some e) ∨
        ∃ root node, Node.parse text = .ok (some root) ∧ ReflTransGen Node.IsChild node root ∧
          node.LacksValue e) := by
  have hFirst := (Data.parse_failsFirst text e).mp h.1
  exact ⟨hFirst, Data.faults_kind (List.mem_of_mem_head? hFirst) h.2⟩

end Text

section File

variable {platform : Platform} {tree : FileTree} {path : Path} {bytes : List UInt8}

end File

end SchemaModels.Config
