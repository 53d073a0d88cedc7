import SchemaModels.Text.Literal

/-!
The commands of the program, the flags that each of them knows, and what can be
wrong with the arguments.
-/
namespace SchemaModels.Command

/-- The commands. -/
inductive Verb where
  | init
  | check
  | introspect
  deriving DecidableEq, Repr

/-- The flags. Only the output has a text of its own. -/
inductive Flag where
  | help
  | output
  | verbose
  deriving DecidableEq, Repr

namespace Verb

def all : List Verb := [.init, .check, .introspect]

def name : Verb → String
  | .init => "init"
  | .check => "check"
  | .introspect => "introspect"

/-- The command with a name. Names are not shortened. -/
def ofName? (text : String) : Option Verb := all.find? (·.name == text)

end Verb

namespace Flag

/-- The names of a flag, in the order in which they are shown. -/
def names : Flag → List String
  | .help => ["-h", "--help"]
  | .output => ["--output", "-o"]
  | .verbose => ["--verbose"]

def takesText : Flag → Bool
  | .output => true
  | _ => false

/-- The flag among some flags that has a name. -/
def named? (flags : List Flag) (name : String) : Option Flag :=
  flags.find? (·.names.contains name)

end Flag

/-- Where arguments are read: in front of the command, or after it. -/
abbrev Scope := Option Verb

/-- The flags that are known in a scope. -/
def Scope.flags : Scope → List Flag
  | none | some .init => [.help]
  | some .check => [.help, .verbose]
  | some .introspect => [.help, .output, .verbose]

/-- What is wrong with the arguments. -/
inductive UsageError where
  | ambiguous (word : String) (names : List String)
  | needlessText (flag : Flag) (text : String)
  | missingText (flag : Flag)
  | unknownCommand (word : String)
  | unrecognized (words : List String)
  deriving DecidableEq, Repr

/-- The words for an error. -/
def UsageError.message : UsageError → String
  | .ambiguous word names =>
    "ambiguous option: " ++ word ++ " could match " ++ ", ".intercalate names
  | .needlessText flag text =>
    "argument " ++ "/".intercalate flag.names ++ ": ignored explicit argument " ++ Text.literal text
  | .missingText flag => "argument " ++ "/".intercalate flag.names ++ ": expected one argument"
  | .unknownCommand word =>
    "argument COMMAND: invalid choice: " ++ Text.literal word ++ " (choose from " ++
      ", ".intercalate (Verb.all.map fun verb => Text.literal verb.name) ++ ")"
  | .unrecognized words => "unrecognized arguments: " ++ " ".intercalate words

end SchemaModels.Command
