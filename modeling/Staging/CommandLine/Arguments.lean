import Staging.Template.Registry

/-!
The arguments of the command line.

An argument names a switch, names a setting with its value, or is the template's file. A value stands in
the same argument, after `=`, or is the next one, which then must not look like an option. Short names
of switches may be joined. After `--` nothing names an option.
-/

namespace Staging.CommandLine

open Template

/-- What the command line can be asked to do. -/
inductive Verb where
  | build | eval | listing
deriving DecidableEq, Repr

def Verb.name : Verb → String
  | build => "build"
  | eval => "eval"
  | listing => "listing"

def Verb.ofName? (s : String) : Option Verb := [build, eval, listing].find? (·.name == s)

/-- Options without a value. -/
inductive Switch where
  | verbose | inlineAll | help | version
deriving DecidableEq, Repr

/-- Options with a value. -/
inductive Setting where
  | inline | replace | context | set | output
deriving DecidableEq, Repr

def Switch.long : Switch → String
  | verbose => "verbose"
  | inlineAll => "inline-all"
  | help => "help"
  | version => "version"

def Switch.short? : Switch → Option Char
  | verbose => some 'v'
  | inlineAll => none
  | help => some 'h'
  | version => some 'V'

def Setting.long : Setting → String
  | inline => "inline"
  | replace => "replace"
  | context => "context"
  | set => "set"
  | output => "output"

def Setting.short? : Setting → Option Char
  | context => some 'c'
  | output => some 'o'
  | inline | replace | set => none

/-- Settings whose value is a path, and that can be given only once. -/
def Setting.isPath : Setting → Bool
  | context | output => true
  | inline | replace | set => false

/-- The options that an action takes. -/
structure Accepts where
  switches : List Switch
  settings : List Setting

/-- The options before the action. -/
def Accepts.top : Accepts := ⟨[.verbose, .help, .version], []⟩

def Verb.accepts : Verb → Accepts
  | build => ⟨[.verbose, .inlineAll, .help], [.inline, .replace, .context, .set, .output]⟩
  | eval => ⟨[.verbose, .inlineAll, .help], [.inline, .replace, .context, .set]⟩
  | listing => ⟨[.verbose, .inlineAll, .help], [.inline, .replace]⟩

/-- What is wrong with the arguments. -/
inductive Misuse where
  | noCommand
  | unknownCommand (text : String)
  | unknownOption (text : String)
  | unexpectedValue (option : String)
  | missingValue (option : String)
  | repeated (option : String)
  | conflict (a b : String)
  | noInput
  | extraInput (text : String)
deriving DecidableEq, Repr

def Misuse.message : Misuse → String
  | noCommand => "a command is required: build, eval or listing"
  | unknownCommand text => "unknown command '" ++ text ++ "'"
  | unknownOption text => "unexpected argument '" ++ text ++ "'"
  | unexpectedValue option => "'" ++ option ++ "' takes no value"
  | missingValue option => "'" ++ option ++ "' needs a value"
  | repeated option => "'" ++ option ++ "' cannot be used multiple times"
  | conflict a b => "'" ++ a ++ "' cannot be used with '" ++ b ++ "'"
  | noInput => "a template file is required"
  | extraInput text => "unexpected argument '" ++ text ++ "'"

/-- Why there is nothing to do. -/
inductive Stop where
  | help
  | version
  | misuse (m : Misuse)
deriving DecidableEq, Repr

/-! ### Single arguments -/

/-- What one argument says. -/
inductive Word where
  /-- Nothing after it names an option. -/
  | endOfOptions
  | plain (text : String)
  | switches (switches : List Switch)
  /-- Switches, and then a setting; the value may be in the next argument. -/
  | setting (switches : List Switch) (setting : Setting) (value : Option String)

/-- An argument with a long name. -/
def longWord (accepts : Accepts) (cs : List Char) : Except Misuse Word :=
  let name := String.ofList (cs.takeWhile (· ≠ '='))
  let value := match cs.dropWhile (· ≠ '=') with
    | [] => none
    | _ :: rest => some (String.ofList rest)
  match accepts.switches.find? (·.long == name), accepts.settings.find? (·.long == name) with
  | some s, _ => if value.isSome then .error (.unexpectedValue name) else .ok (.switches [s])
  | none, some s => .ok (.setting [] s value)
  | none, none => .error (.unknownOption name)

/-- An argument with short names, of which a setting takes all that follows as its value. -/
def shortWord (accepts : Accepts) (before : List Switch) : List Char → Except Misuse Word
  | [] => .ok (.switches before.reverse)
  | c :: rest =>
    match accepts.switches.find? (·.short? == some c),
        accepts.settings.find? (·.short? == some c) with
    | some s, _ => shortWord accepts (s :: before) rest
    | none, some s =>
      let value := match rest with
        | [] => none
        | '=' :: value => some (String.ofList value)
        | value => some (String.ofList value)
      .ok (.setting before.reverse s value)
    | none, none => .error (.unknownOption c.toString)

/-- Whether an argument has the look of an option. -/
def looksLikeOption (arg : String) : Bool := arg.startsWith "-" && arg ≠ "-"

def word (accepts : Accepts) (arg : String) : Except Misuse Word :=
  match arg.toList with
  | '-' :: '-' :: [] => .ok .endOfOptions
  | '-' :: '-' :: cs => longWord accepts cs
  | '-' :: c :: cs => shortWord accepts [] (c :: cs)
  | _ => .ok (.plain arg)

/-! ### All arguments of an action -/

/-- What the arguments of an action say together. -/
structure Given where
  switches : List Switch := []
  settings : List (Setting × String) := []
  input : Option String := none

namespace Given

/-- Adds a switch, which can be given only once; asking for help ends the matter. -/
def addSwitch (g : Given) (s : Switch) : Except Stop Given :=
  match s with
  | .help => .error .help
  | .version => .error .version
  | _ =>
    if s ∈ g.switches then .error (.misuse (.repeated s.long))
    else .ok { g with switches := g.switches ++ [s] }

def addSwitches (g : Given) (ss : List Switch) : Except Stop Given := ss.foldlM addSwitch g

/-- The values of a setting, in order. -/
def values (g : Given) (s : Setting) : List String :=
  (g.settings.filter (·.1 = s)).map (·.2)

/-- Adds a setting. A path is not empty and can be given only once. -/
def addSetting (g : Given) (s : Setting) (value : String) : Except Stop Given :=
  if s.isPath && value.isEmpty then .error (.misuse (.missingValue s.long))
  else if s.isPath && !(g.values s).isEmpty then .error (.misuse (.repeated s.long))
  else .ok { g with settings := g.settings ++ [(s, value)] }

/-- Adds the template's file. -/
def addInput (g : Given) (text : String) : Except Stop Given :=
  if g.input.isSome then .error (.misuse (.extraInput text))
  else if text.isEmpty then .error (.misuse .noInput)
  else .ok { g with input := some text }

end Given

def liftMisuse {α : Type} : Except Misuse α → Except Stop α
  | .ok a => .ok a
  | .error m => .error (.misuse m)

/-- Reads the arguments of an action. -/
def readGiven (accepts : Accepts) (g : Given) : List String → Except Stop Given
  | [] => .ok g
  | arg :: rest => do
    match ← liftMisuse (word accepts arg) with
    | .endOfOptions => rest.foldlM Given.addInput g
    | .plain text => readGiven accepts (← g.addInput text) rest
    | .switches ss => readGiven accepts (← g.addSwitches ss) rest
    | .setting ss s (some value) =>
      readGiven accepts (← (← g.addSwitches ss).addSetting s value) rest
    | .setting ss s none =>
      let g ← g.addSwitches ss
      match rest with
      | [] => .error (.misuse (.missingValue s.long))
      | value :: rest =>
        if looksLikeOption value then .error (.misuse (.missingValue s.long))
        else readGiven accepts (← g.addSetting s value) rest

/-! ### Commands -/

/-- The template a command works on. -/
structure TemplateArgs where
  input : String
  options : Options

/-- Where the values for a template come from. -/
structure ContextArgs where
  file : Option String := none
  assignments : List String := []

inductive Command where
  /-- Writes the generated code. -/
  | build (template : TemplateArgs) (context : ContextArgs) (output : Option String)
  /-- Writes the value of the generated code. -/
  | eval (template : TemplateArgs) (context : ContextArgs)
  /-- Writes the compiled program. -/
  | listing (template : TemplateArgs)

namespace Given

/-- The template that is asked for. -/
def template (g : Given) : Except Stop TemplateArgs := do
  let all := Switch.inlineAll ∈ g.switches
  let names := g.values .inline
  if all && !names.isEmpty then
    throw (.misuse (.conflict Setting.inline.long Switch.inlineAll.long))
  let some input := g.input | throw (.misuse .noInput)
  return ⟨input, { inline := if all then .all else .only names, raw := g.values .replace }⟩

def context (g : Given) : ContextArgs := ⟨(g.values .context).head?, g.values .set⟩

/-- The command that is asked for. -/
def command (g : Given) : Verb → Except Stop Command
  | .build => return .build (← g.template) g.context (g.values .output).head?
  | .eval => return .eval (← g.template) g.context
  | .listing => return .listing (← g.template)

end Given

/-- Reads the arguments: options, the action, and the arguments of the action. -/
def readCommand (g : Given) : List String → Except Stop Command
  | [] => .error (.misuse .noCommand)
  | arg :: rest => do
    match ← liftMisuse (word .top arg) with
    | .switches ss => readCommand (← g.addSwitches ss) rest
    | .plain name =>
      match Verb.ofName? name with
      | some verb => (← readGiven verb.accepts {} rest).command verb
      | none => if name = "help" then .error .help else .error (.misuse (.unknownCommand name))
    | .endOfOptions | .setting _ _ _ => .error (.misuse .noCommand)

/-- Reads the arguments of the command line. -/
def parseArguments (args : List String) : Except Stop Command := readCommand {} args

end Staging.CommandLine
