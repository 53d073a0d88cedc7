import SchemaModels.Files.Path
import SchemaModels.Model.Entity

/-!
Observers of a run. They are told of each file before it is read, and of the
models of a document once all of them are built. Nothing that an observer holds
flows back into the run.
-/
namespace SchemaModels

/-- What a run reports. -/
inductive Event where
  | file (path : Path)
  | model (model : Model)

/-- An event in words. -/
def Event.message : Event → String
  | .file path => "Introspecting " ++ path.text
  | .model m =>
    "Model " ++ m.name ++ " (source " ++ m.source ++ s!", {m.fields.length} field(s))"

/-- How each event changes what an observer holds. -/
structure Observer (σ : Type) where
  file : σ → Path → σ
  model : σ → Model → σ

namespace Observer

variable {σ : Type}

/-- An observer that keeps all events, in their order. -/
def recorder : Observer (List Event) :=
  ⟨fun events path => events ++ [.file path], fun events m => events ++ [.model m]⟩

/-- Tells an observer, if there is one, that a file comes next. -/
def tellFile (observer : Option (Observer σ)) (held : σ) (path : Path) : σ :=
  match observer with
  | none => held
  | some o => o.file held path

/-- Tells an observer, if there is one, of some models. -/
def tellModels (observer : Option (Observer σ)) (held : σ) (models : List Model) : σ :=
  match observer with
  | none => held
  | some o => models.foldl o.model held

end Observer
end SchemaModels
