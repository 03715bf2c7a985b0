import Staging.Source.Layout
import Staging.Template.Error

/-!
Programs that write code.

A program is a list of instructions. Running it appends text to a result: fixed text, the written form
of a value, or what a call gives. `Program.listing` shows it as a function that builds a string.
-/

namespace Staging.Template

inductive Instruction where
  /-- Appends a text. -/
  | literal (text : String)
  /--
  Appends the written form of a value. The place asks for the given binding strength; `atStart` says
  that the text begins a statement or the body of an arrow, where a brace would begin a block.
  -/
  | inline (e : Expr) (min : Precedence) (atStart : Bool)
  /-- Appends what a call gives, as text. -/
  | call (e : Expr)
  | if_ (test : Expr) (yes : List Instruction) (no : Option (List Instruction))
  /-- Runs the body once for each item. The declared names get a declaration in each round. -/
  | each (label : Option String) (kind : IterKind) (pattern : Pattern) (source : Expr)
      (declare : List String) (body : List Instruction)
  /-- Puts braces around what the body appends. -/
  | block (body : List Instruction)
  /-- Leaves a round of the loop with the given label. -/
  | jump (jump : Jump) (label : String)

/-- A program and the parameters it reads from the context. -/
structure Program where
  params : List String
  instructions : List Instruction

/-! ### The number of fixed texts -/

mutual

/-- The number of literals in an instruction. -/
def Instruction.literalCount : Instruction → Nat
  | literal _ => 1
  | if_ _ yes no => Instruction.countAll yes + Instruction.countElse no
  | each _ _ _ _ _ body => Instruction.countAll body
  | block body => Instruction.countAll body
  | inline _ _ _ | call _ | jump _ _ => 0

def Instruction.countAll : List Instruction → Nat
  | [] => 0
  | i :: rest => i.literalCount + Instruction.countAll rest

def Instruction.countElse : Option (List Instruction) → Nat
  | none => 0
  | some no => Instruction.countAll no

end

/-- The number of literals in a program, at every depth. -/
def Program.literalCount (p : Program) : Nat := Instruction.countAll p.instructions

/-! ### Listings -/

/-- The step that appends the value of an expression. -/
def appendStep (expr : String) : String := "result += " ++ expr ++ ";"

def bracesAround (text : String) : String := "\x7b" ++ text ++ "\x7d"

mutual

/-- The line of an instruction in a listing. -/
def Instruction.text : Instruction → String
  | literal text => appendStep (Text.Quoted.encode text)
  | inline e _ _ => appendStep ("__inline(" ++ e.text ++ ")")
  | call e => appendStep e.text
  | if_ test yes no =>
    "if (" ++ test.text ++ ") " ++ bracesAround (Instruction.textAll yes) ++ Instruction.textElse no
  | each label kind pattern source _ body =>
    (match label with | some l => l ++ ": " | none => "") ++ "for (const " ++ pattern.text ++ " "
      ++ kind.text ++ " " ++ source.text ++ ") " ++ bracesAround (Instruction.textAll body)
  | block body => appendStep "\"\x7b\"" ++ Instruction.textAll body ++ appendStep "\"\x7d\""
  | jump j label => j.keyword ++ " " ++ label ++ ";"

def Instruction.textAll : List Instruction → String
  | [] => ""
  | i :: rest => i.text ++ Instruction.textAll rest

def Instruction.textElse : Option (List Instruction) → String
  | none => ""
  | some no => " else " ++ bracesAround (Instruction.textAll no)

end

/-- A program as a function that builds a string. -/
def Program.listing (p : Program) : String :=
  "\n".intercalate (
    ["function build(\x7b " ++ ", ".intercalate p.params ++ " \x7d) \x7b", "let result = \"\";"]
      ++ p.instructions.map Instruction.text ++ ["return result;", "\x7d"])

end Staging.Template
