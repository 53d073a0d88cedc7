import SchemaModels.Command.Word

/-!
What the arguments ask for. They are read from left to right, so help that is
asked for comes before an error further on. Arguments that fit nowhere are
collected, and are an error in the end.
-/
namespace SchemaModels.Command

/-- Something to do. -/
inductive Task where
  | init (directory : String)
  | check (directory : String) (verbose : Bool)
  | introspect (directory : String) (output : Option String) (verbose : Bool)
  deriving DecidableEq, Repr

/-- What the arguments ask for, or where they are wrong. -/
inductive Request where
  | help (scope : Scope)
  | misuse (scope : Scope) (error : UsageError)
  | task (task : Task)
  deriving DecidableEq, Repr

/-- Why reading ends early. -/
inductive Interruption where
  | help
  | misuse (error : UsageError)
  deriving DecidableEq, Repr

/-- What the arguments of a command say. -/
structure Choice where
  directory : Option String
  output : Option String
  verbose : Bool
  extras : List String
  deriving DecidableEq, Repr

namespace Choice

def empty : Choice := ⟨none, none, false, []⟩

/-- A choice with a flag, which has its text if it takes one. -/
def set (choice : Choice) (text : String) : Flag → Except Interruption Choice
  | .help => .error .help
  | .output => .ok { choice with output := some text }
  | .verbose => .ok { choice with verbose := true }

/-- A flag without an attached text. One that takes a text takes it from the
next argument. -/
def setBare (choice : Choice) (flag : Flag) (next : Option String) : Except Interruption Choice :=
  if flag.takesText then
    match next with
    | some text => choice.set text flag
    | none => .error (.misuse (.missingText flag))
  else choice.set "" flag

/-- Checks the characters behind a flag without a text: short names of more
flags, up to one that takes the rest as its text or one that is not known. -/
def checkJoined (flags : List Flag) (next : Option String) :
    Flag → List Char → Except UsageError Unit
  | flag, [] => .error (.needlessText flag "")
  | flag, c :: rest =>
    if c = '-' then .error (.needlessText flag (String.ofList (c :: rest)))
    else
      match Flag.named? flags (String.ofList ['-', c]), rest with
      | none, _ => .ok ()
      | some more, [] =>
        if more.takesText && next.isNone then .error (.missingText more) else .ok ()
      | some more, '=' :: text =>
        if more.takesText then .ok () else .error (.needlessText more (String.ofList text))
      | some more, rest => if more.takesText then .ok () else checkJoined flags next more rest

/-- A flag with the text that is attached to it. -/
def setAttached (choice : Choice) (flags : List Flag) (flag : Flag) (joined : Bool)
    (text : String) (next : Option String) : Except Interruption Choice :=
  if flag.takesText then choice.set text flag
  else if joined then
    match checkJoined flags next flag text.toList with
    | .ok () => choice.set "" flag
    | .error e => .error (.misuse e)
  else .error (.misuse (.needlessText flag text))

/-- The directory of a choice, which is the working directory if none is named. -/
def place (choice : Choice) : String := choice.directory.getD "."

/-- Adds an argument that fits nowhere. -/
def extra (choice : Choice) (text : String) : Choice :=
  { choice with extras := choice.extras ++ [text] }

/-- Reads the arguments of a command. The first plain one is the directory, and
a separator next to it is dropped. -/
def scan (flags : List Flag) (choice : Choice) : List Word → Except Interruption Choice
  | [] => .ok choice
  | .unknown text :: rest => scan flags (choice.extra text) rest
  | .plain text :: .separator :: rest =>
    if choice.directory.isSome then scan flags (choice.extra text) (.separator :: rest)
    else scan flags { choice with directory := some text } rest
  | .plain text :: rest =>
    if choice.directory.isSome then scan flags (choice.extra text) rest
    else scan flags { choice with directory := some text } rest
  | .separator :: rest =>
    if choice.directory.isSome then scan flags (choice.extra "--") rest else scan flags choice rest
  | .flag f joined (some text) :: rest => do
    let next := match rest with
      | .plain text :: _ => some text
      | _ => none
    scan flags (← choice.setAttached flags f joined text next) rest
  | .flag f _ none :: .plain text :: rest => do
    let chosen ← choice.setBare f (some text)
    if f.takesText then scan flags chosen rest else scan flags chosen (.plain text :: rest)
  | .flag f _ none :: rest => do scan flags (← choice.setBare f none) rest

end Choice

namespace Request

/-- The task of a command with a choice. -/
def taskOf (verb : Verb) (choice : Choice) : Task :=
  match verb with
  | .init => .init choice.place
  | .check => .check choice.place choice.verbose
  | .introspect => .introspect choice.place choice.output choice.verbose

/-- What ends the reading in a scope. -/
def ofInterruption (scope : Scope) : Interruption → Request
  | .help => .help scope
  | .misuse error => .misuse scope error

/-- The request of a command with its arguments, after arguments that fit
nowhere. -/
def ofCommand (verb : Verb) (extras arguments : List String) : Request :=
  let scope : Scope := some verb
  match Word.readAll scope.flags arguments with
  | .error e => .misuse scope e
  | .ok words =>
    match Choice.empty.scan scope.flags words with
    | .error interruption => .ofInterruption scope interruption
    | .ok choice =>
      match extras ++ choice.extras with
      | [] => .task (taskOf verb choice)
      | left => .misuse none (.unrecognized left)

/-- The request of a flag in front of the command. -/
def ofFlag (flag : Flag) (joined : Bool) (attached : Option String) : Request :=
  let flags := Scope.flags none
  let set := match attached with
    | none => Choice.empty.setBare flag none
    | some text => Choice.empty.setAttached flags flag joined text none
  match set with
  | .error interruption => .ofInterruption none interruption
  | .ok _ => .help none

/-- Reads arguments up to the command, after arguments that fit nowhere. -/
def readAfter (extras : List String) : List String → Request
  | [] => if extras.isEmpty then .help none else .misuse none (.unrecognized extras)
  | text :: rest =>
    if text = "--" then
      if rest.isEmpty then .misuse none (.unrecognized (extras ++ [text]))
      else .misuse none (.unknownCommand text)
    else
      match Word.read (Scope.flags none) text with
      | .error e => .misuse none e
      | .ok (.unknown text) => readAfter (extras ++ [text]) rest
      | .ok (.flag f joined attached) => ofFlag f joined attached
      | .ok _ =>
        match Verb.ofName? text with
        | some verb => ofCommand verb extras rest
        | none => .misuse none (.unknownCommand text)

/-- What some arguments ask for. Without any they ask for help. -/
def read (arguments : List String) : Request := readAfter [] arguments

end Request
end SchemaModels.Command
