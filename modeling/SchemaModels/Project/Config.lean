import SchemaModels.Build.Naming
import SchemaModels.Files.Encoding
import SchemaModels.Introspection.Run
import SchemaModels.Model.Fault
import SchemaModels.Yaml.Data

/-!
The configuration of a project: which files to read, how to read them, and where
the artifact goes. It is checked field by field, and then every key that is no
field is a fault.
-/
namespace SchemaModels

open Checked (fail)
open Yaml (Data)

/-- The order in which the members of a set come. It is no part of the set, so runs may have
different ones. -/
structure SetOrder where
  arrange : List Data → List Data
  perm : ∀ members, (arrange members).Perm members

/-- The order in which a text has the members of a set. -/
def SetOrder.asWritten : SetOrder := ⟨id, fun members => .refl members⟩

/-- What runs rely on and do not decide themselves: which encodings there are, how YAML is
read, and how sets are ordered. -/
structure Platform where
  codecs : Codecs
  readYaml : String → Except Yaml.Error Data
  order : SetOrder

/-- A platform with the reader of YAML that is defined here. -/
def Platform.of (codecs : Codecs) (order : SetOrder) : Platform := ⟨codecs, Data.parse, order⟩

/-- The platform without any further encodings, where sets are ordered as they are written. -/
def Platform.bare : Platform := .of .bare .asWritten

/-- A configuration. Relative patterns and a relative output belong to the
directory of the project. -/
structure Config where
  path : List String
  encoding : String
  defaultSource : Option String
  naming : Naming
  output : Option String
  deriving DecidableEq, Repr

namespace Config

/-- A text. Bytes are one if they are UTF-8. -/
def text : Data → Checked String
  | .text s => .valid s
  | .bytes content =>
    match Encoding.decode content .utf8 with
    | .ok chars => .valid (String.ofList chars)
    | .error _ => fail .textEncoding
  | _ => fail .textType

def optionalText : Data → Checked (Option String)
  | .null => .valid none
  | data => (text data).map some

/-- Texts, each checked under its position. -/
def texts : Nat → List Data → List (Checked String)
  | _, [] => []
  | position, data :: rest => (text data).under (toString position) :: texts (position + 1) rest

/-- The patterns for files. A single text is one pattern, and a set counts as a list. -/
def patterns (order : SetOrder) : Data → Checked (List String)
  | .text s => .valid [s]
  | .list items => Checked.all (texts 0 items)
  | .set members => Checked.all (texts 0 (order.arrange members))
  | _ => fail .listType

/-- The name of an encoding that is known. -/
def encodingName (codecs : Codecs) (data : Data) : Checked String :=
  match text data with
  | .faulty faults => .faulty faults
  | .valid name =>
    if name.toList.contains '\x00' then fail .nullInEncoding
    else if codecs.knows name then .valid name
    else fail (.unknownEncoding name)

def namingName : Data → Checked Naming
  | .text label =>
    match Naming.ofLabel? label with
    | some naming => .valid naming
    | none => fail .notInEnumeration
  | _ => fail .notInEnumeration

/-- The value at a key that is a text. -/
def lookup? (entries : List (Data × Data)) (key : String) : Option Data :=
  (entries.find? fun entry => Data.sameKey entry.1 (.text key)).map (·.2)

/-- The first of some keys that is there. -/
def presentKey? (entries : List (Data × Data)) (keys : List String) : Option String :=
  keys.find? fun key => (lookup? entries key).isSome

/-- The spellings of each field, the one in faults first. -/
def fieldKeys : List (List String) := [["path"], ["encoding"], ["default-source", "default_source"],
  ["directive-naming", "directive_naming"], ["output"]]

/-- The value of a field under one of its spellings. -/
def fieldValue? (entries : List (Data × Data)) (keys : List String) : Option Data :=
  (presentKey? entries keys).bind (lookup? entries)

/-- A field that may be absent. -/
def optional {α : Type} (entries : List (Data × Data)) (keys : List String) (absent : α)
    (check : Data → Checked α) : Checked α :=
  match fieldValue? entries keys with
  | none => .valid absent
  | some data => (check data).under (keys.headD "")

/-- The patterns, which have to be given. -/
def requiredPatterns (order : SetOrder) (entries : List (Data × Data)) : Checked (List String) :=
  (match lookup? entries "path" with
    | none => fail .missing
    | some data => patterns order data).under "path"

/-- A character of ASCII inside the words for bytes, or the code of a byte. -/
def byteWords (quote : Char) (byte : UInt8) : List Char :=
  if byte.toNat < 128 then Text.literalChar quote (Char.ofNat byte.toNat)
  else ['\\', 'x'] ++ Text.hexDigits 2 byte.toNat

/-- Bytes in words. -/
def bytesLiteral (content : List UInt8) : String :=
  let quote := Text.literalQuote (content.map fun byte => Char.ofNat byte.toNat)
  String.ofList ('b' :: quote :: content.flatMap (byteWords quote) ++ [quote])

/-- A key in words. -/
def keyText : Data → String
  | .null => "None"
  | .boolean b => if b then "1" else "0"
  | .integer n => toString n
  | .float x => x.text .plain
  | .text s => s
  | .bytes content => bytesLiteral content
  | .moment words => words
  | .list _ | .set _ | .mapping _ => ""

/-- The fault of a key that is no field. -/
def keyFault? (used : List String) (key : Data) : Option Fault :=
  match key with
  | .text s => if used.contains s then none else some ⟨[s], .unknownKey⟩
  | key => some ⟨[keyText key], .keyNotText⟩

/-- Checks that all keys are fields. A field that is spelled in two ways counts
only once. -/
def onlyFields (entries : List (Data × Data)) : Checked Unit :=
  let used := fieldKeys.filterMap (presentKey? entries)
  match entries.filterMap fun entry => keyFault? used entry.1 with
  | [] => .valid ()
  | faults => .faulty faults

/-- The configuration that some entries give. -/
def check (platform : Platform) (entries : List (Data × Data)) : Checked Config :=
  let fields := (((((requiredPatterns platform.order entries).map Config.mk).also
    (optional entries ["encoding"] "utf-8" (encodingName platform.codecs))).also
    (optional entries ["default-source", "default_source"] none optionalText)).also
    (optional entries ["directive-naming", "directive_naming"] .plain namingName)).also
    (optional entries ["output"] none optionalText)
  (fields.map fun config (_ : Unit) => config).also (onlyFields entries)

/-- A pattern seen from the directory of the project. -/
def rooted (root : Path) (pattern : String) : String :=
  if pattern.startsWith "/" then pattern else (root.join (Path.ofText pattern)).text

/-- The options of a run in a directory. -/
def toOptions (config : Config) (root : Path) : RunOptions :=
  ⟨config.path.map (rooted root), config.encoding, config.defaultSource, config.naming⟩

end Config
end SchemaModels
