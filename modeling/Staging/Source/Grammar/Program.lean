import Staging.Source.Grammar.Stmt
import Staging.Source.Scan

/-!
Reading programs and functions.

`parseProgram` scans a source and reads it as a list of statements. `parseFunction` reads a source
that consists of one function, declared, written as an expression or as an arrow.
-/

namespace Staging

namespace Grammar

mutual

/-- An expression nested at most as deep as the fuel allows. -/
def expr : Nat → Parser Expr
  | 0, input, pos => .fail (input.unexpected pos [])
  | fuel + 1, input, pos => exprRule (expr fuel) (stmt fuel) (pattern fuel) input pos

/-- A statement nested at most as deep as the fuel allows. -/
def stmt : Nat → Parser Stmt
  | 0, input, pos => .fail (input.unexpected pos [])
  | fuel + 1, input, pos => stmtRule (expr fuel) (stmt fuel) (pattern fuel) input pos

end

/-- Between two tokens a rule is entered at most twice, so this much nesting is always enough. -/
def depthFor (input : Input) : Nat := 2 * input.lexemes.size + 2

/-- A whole program. -/
def program (fuel : Nat) : Parser (List Stmt) := do
  let body ← Parser.many (stmt fuel)
  Parser.endOfInput
  return body

end Grammar

/-- Why a source could not be read. -/
inductive SyntaxError where
  | scan (e : ScanError)
  | parse (message : String) (span : Span)
  | notAFunction (span : Span)
deriving DecidableEq, Repr

def SyntaxError.message : SyntaxError → String
  | scan e => "unrecognized input `" ++ e.text ++ "`"
  | parse message _ => message
  | notAFunction _ => "expected a function declaration, function expression or arrow function"

def SyntaxError.span : SyntaxError → Span
  | scan e => e.span
  | parse _ span => span
  | notAFunction span => span

/-- Reads tokens as a program; `size` is the length of their source in bytes. -/
def parseLexemes (lexemes : List Lexeme) (size : Nat) : Except SyntaxError (List Stmt) :=
  let input : Input := ⟨lexemes.toArray, ⟨size, size + 1⟩⟩
  match Grammar.program (Grammar.depthFor input) input 0 with
  | .ok body _ _ => .ok body
  | .fail e => .error (.parse e.message e.span)

/-- Reads a program. -/
def parseProgram (source : String) : Except SyntaxError (List Stmt) :=
  match scan source with
  | .error e => .error (.scan e)
  | .ok lexemes => parseLexemes lexemes source.utf8ByteSize

/-- A function's parts; the body of an arrow that is an expression becomes a statement. -/
def Func.source (f : Func) (span : Span) : FuncSource :=
  let body := match f.body with
    | .block body => body
    | .expr e => [.expr e.span e]
  ⟨f.params, body, span⟩

/-- Reads a source that consists of one function. -/
def parseFunction (source : String) : Except SyntaxError FuncSource := do
  match ← parseProgram source with
  | [.function span f] => return f.source span
  | [.expr span (.function _ f)] => return f.source span
  | _ => .error (.notAFunction ⟨0, source.utf8ByteSize⟩)

end Staging
