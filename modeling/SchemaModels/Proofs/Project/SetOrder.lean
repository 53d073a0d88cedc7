import SchemaModels.Proofs.Files.Written
import SchemaModels.Project.Load

/-!
Patterns that are a set. A set of patterns has no order, so every run takes one of its
own, and runs may differ in what they read first. Nothing else in a configuration
depends on such an order.
-/
namespace SchemaModels

/-- The same platform with sets in another order. -/
def Platform.ordered (platform : Platform) (order : SetOrder) : Platform :=
  { platform with order }

namespace Config

open Yaml (Data)

variable {platform : Platform} {first second : SetOrder}

/-- The set that some entries have for the patterns. -/
def entrySet? (entries : List (Data × Data)) : Option (List Data) :=
  match lookup? entries "path" with
  | some (.set members) => some members
  | _ => none

/-- The set that a text has for the patterns. -/
def textSet? (platform : Platform) (text : String) : Option (List Data) :=
  match platform.readYaml text with
  | .ok (.mapping entries) => entrySet? entries
  | _ => none

/-- The set that a file has for the patterns. -/
def fileSet? (platform : Platform) (tree : FileTree) (path : Path) : Option (List Data) :=
  match tree.readText path (Encoding.decode · .utf8) with
  | .ok text => textSet? platform text
  | .error _ => none

/-- Two orders that cannot be told apart by some patterns, which are no set or one that both
arrange alike. -/
def AgreeOn (first second : SetOrder) (set? : Option (List Data)) : Prop :=
  ∀ members, set? = some members → first.arrange members = second.arrange members

theorem agreeOn_of_eq_none {set? : Option (List Data)} (h : set? = none) :
    AgreeOn first second set? :=
  fun members hSet => by rw [h] at hSet; cases hSet

theorem requiredPatterns_ordered {entries : List (Data × Data)}
    (h : AgreeOn first second (entrySet? entries)) :
    requiredPatterns first entries = requiredPatterns second entries := by
  unfold requiredPatterns
  cases hPath : lookup? entries "path" with
  | none => rfl
  | some data =>
      cases data with
      | set members =>
          have hArranged : first.arrange members = second.arrange members :=
            h members (by rw [entrySet?, hPath])
          simp only [patterns, hArranged]
      | _ => rfl

theorem check_ordered {entries : List (Data × Data)}
    (h : AgreeOn first second (entrySet? entries)) :
    check (platform.ordered first) entries = check (platform.ordered second) entries := by
  have hPatterns : requiredPatterns (platform.ordered first).order entries =
      requiredPatterns (platform.ordered second).order entries := requiredPatterns_ordered h
  unfold check
  rw [hPatterns]
  rfl

theorem parse_ordered {text : String} (h : AgreeOn first second (textSet? platform text))
    (label : String) : parse (platform.ordered first) label text =
      parse (platform.ordered second) label text := by
  have hRead (order : SetOrder) : (platform.ordered order).readYaml = platform.readYaml := rfl
  unfold parse
  rw [hRead, hRead]
  cases hData : platform.readYaml text with
  | error e => cases e <;> rfl
  | ok data =>
      cases data with
      | mapping entries =>
          have hEntries : AgreeOn first second (entrySet? entries) := by
            rw [textSet?, hData] at h
            exact h
          dsimp only
          rw [check_ordered hEntries]
      | _ => rfl

/-- Loading depends on the order of sets only through a set of patterns in the file. -/
theorem load_ordered {tree : FileTree} {path : Path}
    (h : AgreeOn first second (fileSet? platform tree path)) :
    load (platform.ordered first) tree path = load (platform.ordered second) tree path := by
  unfold load
  cases hText : tree.readText path (Encoding.decode · .utf8) with
  | error e => cases e <;> rfl
  | ok text =>
      have hAgree : AgreeOn first second (textSet? platform text) := by
        rw [fileSet?, hText] at h
        exact h
      exact parse_ordered hAgree path.text

end Config
end SchemaModels
