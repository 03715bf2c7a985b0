import Staging.Diagnostic
import Staging.Json
import Staging.Template.Execute
import Staging.Template.Registry
import Staging.Text.Blank

/-!
Contexts from JSON.

A document stands for the value it denotes, with two exceptions: an object whose only member is `$code`
or `$date`, with a text, is raw code or a date. A context comes from a file with an object in it, and from
assignments of the form `NAME=JSON`, which override the file.
-/

namespace Staging.Template

open Script

/-- Why there is no context. -/
inductive ContextError where
  | unreadable (file : String)
  | invalidFile (file : String)
  | notAnObject (file : String)
  | notAnAssignment (text : String)
  | missingName (text : String)
  | invalidValue (name : String)
  | invalidDate (text : String)
deriving DecidableEq, Repr

def ContextError.message : ContextError → String
  | unreadable file => "failed to read context file " ++ file
  | invalidFile file => "invalid JSON in " ++ file
  | notAnObject file => "context file " ++ file ++ " must contain a JSON object"
  | notAnAssignment text => "expected NAME=JSON, got `" ++ text ++ "`"
  | missingName text => "missing name in `" ++ text ++ "`"
  | invalidValue name => "invalid JSON value for " ++ name
  | invalidDate text => (NativeFault.invalidDate text).message

/-- Making values in a heap. -/
abbrev Load := StateT Heap (Except ContextError)

/-- The date a text denotes. -/
def loadDate (text : String) : Load Value :=
  match Instant.read? text with
  | some t => return .date t
  | none => throw (.invalidDate text)

mutual

/-- The value of a document. -/
def valueOfJson : Json → Load Value
  | .null => return .null
  | .bool b => return .bool b
  | .number x => return .number x
  | .string s => return .string s
  | .array items => do
    let values ← valuesOfJson items
    modifyGet fun h => h.newArray values.toArray
  | .object [("$code", .string code)] => return .raw code
  | .object [("$date", .string text)] => loadDate text
  | .object members => do
    let fields ← fieldsOfJson members
    modifyGet fun h => h.newObject fields

/-- The values of documents in order. -/
def valuesOfJson : List Json → Load (List Value)
  | [] => return []
  | j :: rest => do
    let v ← valueOfJson j
    return v :: (← valuesOfJson rest)

/-- The values of members in order. -/
def fieldsOfJson : List (String × Json) → Load (Record Value)
  | [] => return []
  | (key, j) :: rest => do
    let v ← valueOfJson j
    return (key, v) :: (← fieldsOfJson rest)

end

/-- A name and a document that are joined by the first equals sign. -/
def parseAssignment (text : String) : Except ContextError (String × Json) := do
  let cs := text.toList
  match cs.dropWhile (· ≠ '=') with
  | [] => throw (.notAnAssignment text)
  | _ :: document =>
    let name := Text.trim (String.ofList (cs.takeWhile (· ≠ '=')))
    if name.isEmpty then throw (.missingName text)
    match Json.read? (String.ofList document) with
    | some j => return (name, j)
    | none => throw (.invalidValue name)

/-- The entries of a context file, given with its content if it can be read. -/
def fileEntries (name : String) (content : Option String) :
    Except ContextError (List (String × Json)) := do
  let some text := content | throw (.unreadable name)
  match Json.read? text with
  | none => throw (.invalidFile name)
  | some (.object members) => return members
  | some _ => throw (.notAnObject name)

/-- Adds assignments to a context. -/
def addAssignments (context : Context) : List String → Load Context
  | [] => return context
  | text :: rest => do
    let (name, j) ← parseAssignment text
    let v ← valueOfJson j
    addAssignments (context.put name v) rest

/-- The context of a file, if there is one, and of assignments. -/
def loadContext (file : Option (String × Option String)) (assignments : List String) :
    Load Context := do
  let context ← match file with
    | none => pure []
    | some (name, content) => do
      let members ← fileEntries name content
      fieldsOfJson members
  addAssignments context assignments

/-- The entries of a context that no staged parameter reads. -/
def unusedEntries (context : Context) (r : Registry) : List String :=
  context.names.filter (· ∉ r.staged)

/-- Tells of an entry that no staged parameter reads. -/
def unusedWarning (name : String) : Diagnostic :=
  ⟨.warning, "context entry `" ++ name ++ "` is not a staged parameter", none,
    ["it is ignored during generation"], []⟩

end Staging.Template
