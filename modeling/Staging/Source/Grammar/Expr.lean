import Staging.Number.Read
import Staging.Number.Shortest
import Staging.Source.Grammar.Parser
import Staging.Source.Tree

/-!
The grammar of patterns and expressions.

Expressions contain statements (in function bodies) and statements contain expressions. The rules
here take the parsers of both as parameters; `Staging.Source.Grammar.Program` ties the knot.
-/

namespace Staging.Grammar

open Staging.Parser

/-- A name that is no keyword. -/
def name : Parser String :=
  accept fun
    | .ident n => some n
    | _ => none

/-- A name after a point or in an object: keywords are allowed. -/
def propertyName : Parser String :=
  accept fun
    | .ident n => some n
    | .keyword k => some k.text
    | _ => none

def comma : Parser Unit := mark .comma

/-! ### Patterns -/

/-- A keyed part of an object pattern; without a value the key is bound as a name. -/
def patternProperty (pattern : Parser Pattern) : Parser PatternProperty := do
  let key ← propertyName
  let value ← maybe do
    mark .colon
    pattern
  return ⟨key, value.getD (.name key)⟩

/-- One level of a pattern. -/
def patternRule (pattern : Parser Pattern) : Parser Pattern :=
  choice [
    Pattern.name <$> name,
    Pattern.array <$> between .leftBracket .rightBracket (separatedTrailing pattern comma),
    Pattern.object <$>
      between .leftBrace .rightBrace (separatedTrailing (patternProperty pattern) comma)]

/-- A pattern nested at most as deep as the fuel allows. -/
def pattern : Nat → Parser Pattern
  | 0, input, pos => .fail (input.unexpected pos [])
  | fuel + 1, input, pos => patternRule (pattern fuel) input pos

/-! ### Parameters, blocks and arguments -/

/-- What an equals sign introduces. -/
def initializer (expr : Parser Expr) : Parser (Option Expr) :=
  maybe do
    mark .assign
    expr

def param (expr : Parser Expr) (pat : Parser Pattern) : Parser Param := do
  let (span, rest, p, default) ← spanned do
    let rest ← maybe (mark .ellipsis)
    let p ← pat
    let default ← initializer expr
    return (rest.isSome, p, default)
  return ⟨span, p, default, rest⟩

def params (expr : Parser Expr) (pat : Parser Pattern) : Parser (List Param) :=
  between .leftParen .rightParen (separatedTrailing (param expr pat) comma)

def block (stmt : Parser Stmt) : Parser (List Stmt) :=
  between .leftBrace .rightBrace (many stmt)

def args (expr : Parser Expr) : Parser (List Expr) :=
  between .leftParen .rightParen (separatedTrailing expr comma)

/-! ### Atoms -/

def literalToken : Token → Option Literal
  | .number spelling => some (.number (Number.ofNumeral spelling))
  | .str content => some (.string content)
  | .keyword .true_ => some (.bool true)
  | .keyword .false_ => some (.bool false)
  | .keyword .null => some .null
  | .keyword .undefined => some .undefined
  | _ => none

def literal : Parser Expr := do
  let (span, value) ← spanned (accept literalToken)
  return .literal span value

def function (expr : Parser Expr) (stmt : Parser Stmt) (pat : Parser Pattern) : Parser Expr := do
  let (span, f) ← spanned do
    keyword .function
    let n ← maybe name
    let ps ← params expr pat
    let body ← block stmt
    return (⟨n, ps, .block body, false⟩ : Func)
  return .function span f

def array (expr : Parser Expr) : Parser Expr := do
  let (span, items) ← spanned
    (between .leftBracket .rightBracket (separatedTrailing expr comma))
  return .array span items

/-- A property with a name; without a value it is the variable of that name. -/
def namedProperty (expr : Parser Expr) : Parser Property := do
  let (span, n) ← spanned propertyName
  let value ← maybe do
    mark .colon
    expr
  return ⟨.named n, value.getD (.ident span n)⟩

/-- The name a string or a numeral stands for as a key. A numeral is named by its value. -/
def keyToken : Token → Option Key
  | .str content => some (.named content)
  | .number spelling => some (.named (Number.text (Number.ofNumeral spelling)))
  | _ => none

/-- A property with a literal or computed key. -/
def keyedProperty (expr : Parser Expr) : Parser Property := do
  let key ← orElse (accept keyToken) (Key.computed <$> between .leftBracket .rightBracket expr)
  mark .colon
  let value ← expr
  return ⟨key, value⟩

def object (expr : Parser Expr) : Parser Expr := do
  let (span, props) ← spanned (between .leftBrace .rightBrace
    (separatedTrailing (orElse (namedProperty expr) (keyedProperty expr)) comma))
  return .object span props

def ident : Parser Expr := do
  let (span, n) ← spanned name
  return .ident span n

def parens (expr : Parser Expr) : Parser Expr := between .leftParen .rightParen expr

def atom (expr : Parser Expr) (stmt : Parser Stmt) (pat : Parser Pattern) : Parser Expr :=
  choice [literal, function expr stmt pat, array expr, object expr, ident, parens expr]

/-! ### Chains -/

/-- What may follow an expression in a chain. -/
inductive Link where
  | member (key : Key) (optional : Bool)
  | call (args : List Expr) (optional : Bool)

/-- Extends a chain by a link that ends at the given byte. -/
def applyLink (target : Expr) (link : Nat × Link) : Expr :=
  let span : Span := ⟨target.span.start, link.1⟩
  match link.2 with
  | .member key optional => .member span target key optional
  | .call args optional => .call span target args optional

/-- A link together with the byte it ends at. -/
def located (p : Parser Link) : Parser (Nat × Link) := do
  let (span, link) ← spanned p
  return (span.stop, link)

def dotLink : Parser (Nat × Link) :=
  located do
    mark .dot
    return .member (.named (← propertyName)) false

def indexLink (expr : Parser Expr) (optional : Bool) : Parser (Nat × Link) :=
  located do
    return .member (.computed (← between .leftBracket .rightBracket expr)) optional

def callLink (expr : Parser Expr) (optional : Bool) : Parser (Nat × Link) :=
  located do
    return .call (← args expr) optional

def optionalLink (expr : Parser Expr) : Parser (Nat × Link) := do
  mark .questionDot
  choice [
    indexLink expr true,
    callLink expr true,
    located do return .member (.named (← propertyName)) true]

/-- A construction; its callee may have member links but no calls, and arguments may be missing. -/
def construction (expr : Parser Expr) (atom : Parser Expr) : Parser Expr := do
  let (span, callee, arguments) ← spanned do
    keyword .new
    let root ← atom
    let links ← many (orElse dotLink (indexLink expr false))
    let arguments ← maybe (args expr)
    return (links.foldl applyLink root, arguments)
  return .new span callee (arguments.getD [])

def chain (expr : Parser Expr) (atom : Parser Expr) : Parser Expr := do
  let root ← orElse (construction expr atom) atom
  let links ← many (choice
    [dotLink, indexLink expr false, callLink expr false, optionalLink expr])
  return links.foldl applyLink root

/-! ### Operators -/

/-- Reads a mark as the given operator. -/
def operator {α : Type} (m : Mark) (op : α) : Parser α := do
  mark m
  return op

def postfixUpdate (chain : Parser Expr) : Parser Expr := do
  let target ← chain
  let update ← maybe
    (spanned (orElse (operator .plusPlus .increment) (operator .minusMinus .decrement)))
  match update with
  | some (span, op) => return .update ⟨target.span.start, span.stop⟩ op false target
  | none => return target

/-- An operator before its operand. -/
inductive Sign where
  | unary (op : UnaryOp)
  | update (op : UpdateOp)

def sign : Parser (Span × Sign) :=
  spanned (choice [
    operator .bang (.unary .not),
    operator .minus (.unary .neg),
    operator .plus (.unary .plus),
    do keyword .typeof; return .unary .typeof,
    operator .plusPlus (.update .increment),
    operator .minusMinus (.update .decrement)])

def applySign (s : Span × Sign) (operand : Expr) : Expr :=
  let span : Span := ⟨s.1.start, operand.span.stop⟩
  match s.2 with
  | .unary op => .unary span op operand
  | .update op => .update span op true operand

def signed (operand : Parser Expr) : Parser Expr := do
  let signs ← many sign
  let e ← operand
  return signs.foldr applySign e

def binary (op : BinaryOp) (left right : Expr) : Expr :=
  .binary ⟨left.span.start, right.span.stop⟩ op left right

/-- Groups operands of powers to the right. -/
def powers (first : Expr) : List Expr → Expr
  | [] => first
  | e :: rest => binary .pow first (powers e rest)

def power (operand : Parser Expr) : Parser Expr := do
  let first ← operand
  let rest ← many do
    mark .starStar
    operand
  return powers first rest

/-- A level of operators that group to the left. -/
def level (operand : Parser Expr) (op : Parser BinaryOp) : Parser Expr := do
  let first ← operand
  let rest ← many do
    let o ← op
    let e ← operand
    return (o, e)
  return rest.foldl (fun left r => binary r.1 left r.2) first

/-- All binary operators, from the tightest level to the loosest. -/
def operators (operand : Parser Expr) : Parser Expr :=
  let product := level (power operand) (choice
    [operator .star .mul, operator .slash .div, operator .percent .mod])
  let sum := level product (orElse (operator .plus .add) (operator .minus .sub))
  let relation := level sum (choice
    [operator .le .le, operator .ge .ge, operator .lt .lt, operator .gt .gt])
  let equality := level relation (choice
    [operator .eqEqEq .strictEq, operator .notEqEq .strictNotEq, operator .eqEq .eq,
      operator .notEq .notEq])
  let conjunction := level equality (operator .andAnd .and)
  let disjunction := level conjunction (operator .orOr .or)
  level disjunction (operator .questionQuestion .nullish)

def conditional (expr operand : Parser Expr) : Parser Expr := do
  let (span, test, branches) ← spanned do
    let test ← operand
    let branches ← maybe do
      mark .question
      let yes ← expr
      mark .colon
      let no ← expr
      return (yes, no)
    return (test, branches)
  match branches with
  | some (yes, no) => return .cond span test yes no
  | none => return test

def assignToken : Token → Option AssignOp
  | .mark .assign => some .plain
  | .mark .plusAssign => some .add
  | .mark .minusAssign => some .sub
  | .mark .starAssign => some .mul
  | .mark .slashAssign => some .div
  | .mark .percentAssign => some .mod
  | _ => none

/-- An assignment, or what may stand on its left alone. -/
def assignment (expr target : Parser Expr) : Parser Expr :=
  check
    (do
      let t ← target
      let right ← maybe do
        let op ← accept assignToken
        let value ← expr
        return (op, value)
      return (t, right))
    fun (t, right) span =>
      match right with
      | none => .ok t
      | some (op, value) =>
        if t.isAssignable then .ok (.assign span op t value)
        else .error ("invalid assignment target", t.span)

/-- An arrow function: one bare name or a parameter list, and a block or an expression. -/
def arrow (expr : Parser Expr) (stmt : Parser Stmt) (pat : Parser Pattern) : Parser Expr := do
  let (span, f) ← spanned do
    let ps ← orElse
      (do let (span, n) ← spanned name; return [⟨span, .name n, none, false⟩])
      (params expr pat)
    mark .arrow
    let body ← orElse (FuncBody.block <$> block stmt) (FuncBody.expr <$> expr)
    return (⟨none, ps, body, true⟩ : Func)
  return .function span f

/-- One level of an expression. -/
def exprRule (expr : Parser Expr) (stmt : Parser Stmt) (pat : Parser Pattern) : Parser Expr :=
  let operand := signed (postfixUpdate (chain expr (atom expr stmt pat)))
  orElse (arrow expr stmt pat) (assignment expr (conditional expr (operators operand)))

end Staging.Grammar
