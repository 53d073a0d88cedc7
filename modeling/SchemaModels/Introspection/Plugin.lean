import SchemaModels.Introspection.Run

/-!
Contributors to a shared list of models. Each of them adds its models when it is
resumed for the first time, and is done when it is resumed again.
-/
namespace SchemaModels

/-- How far a contributor has come. -/
inductive Progress where
  | waiting
  | contributed
  | ended
  deriving DecidableEq, Repr

/-- What a resumption answers. -/
inductive Resumption where
  | paused
  | stopped
  | failed (failure : IntrospectionFailure)

/-- A contributor. -/
structure Contributor where
  options : RunOptions
  progress : Progress

/-- The shared models, and the contributors by their positions. -/
structure Session where
  models : List Model
  contributors : List Contributor

namespace Session

/-- The session at its start. -/
def start (options : List RunOptions) : Session :=
  ⟨[], options.map fun options => ⟨options, .waiting⟩⟩

/-- The session with the progress of one contributor changed. -/
def progressed (session : Session) (index : Nat) (progress : Progress) : Session :=
  { session with
    contributors := session.contributors.modify index fun c => { c with progress := progress } }

/-- Resumes a contributor. One that fails adds nothing and is done. -/
def resume (codecs : Codecs) (tree : FileTree) (session : Session) (index : Nat) :
    Session × Resumption :=
  match session.contributors[index]? with
  | none => (session, .stopped)
  | some contributor =>
    match contributor.progress with
    | .waiting =>
      match (introspect tree contributor.options codecs).outcome with
      | .error failure => (session.progressed index .ended, .failed failure)
      | .ok models =>
        let next := session.progressed index .contributed
        ({ next with models := next.models ++ models }, .paused)
    | .contributed => (session.progressed index .ended, .stopped)
    | .ended => (session, .stopped)

end Session
end SchemaModels
