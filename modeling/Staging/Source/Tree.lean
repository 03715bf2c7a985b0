import Staging.Source.Token

/-!
Syntax trees of the script language.

Every statement, expression, declaration and parameter carries the span of source it was read from.
Binding patterns carry none. The keys of member accesses and of object literals are one type: a name
known from the source or an expression in brackets.
-/

namespace Staging

/-! ### Operators and kinds -/

inductive BinaryOp where
  | add | sub | mul | div | mod | pow
  | eq | notEq | strictEq | strictNotEq
  | lt | gt | le | ge
  | and | or | nullish
deriving DecidableEq, Repr

def BinaryOp.text : BinaryOp → String
  | add => "+"
  | sub => "-"
  | mul => "*"
  | div => "/"
  | mod => "%"
  | pow => "**"
  | eq => "=="
  | notEq => "!="
  | strictEq => "==="
  | strictNotEq => "!=="
  | lt => "<"
  | gt => ">"
  | le => "<="
  | ge => ">="
  | and => "&&"
  | or => "||"
  | nullish => "??"

/-- The operator with the given spelling. -/
def BinaryOp.ofText? (s : String) : Option BinaryOp :=
  [add, sub, mul, div, mod, pow, eq, notEq, strictEq, strictNotEq, lt, gt, le, ge, and, or,
    nullish].find? (·.text == s)

inductive UnaryOp where
  | neg | plus | not | typeof
deriving DecidableEq, Repr

def UnaryOp.text : UnaryOp → String
  | neg => "-"
  | plus => "+"
  | not => "!"
  | typeof => "typeof"

/-- The operator with the given spelling. -/
def UnaryOp.ofText? (s : String) : Option UnaryOp :=
  [neg, plus, not, typeof].find? (·.text == s)

inductive UpdateOp where
  | increment | decrement
deriving DecidableEq, Repr

def UpdateOp.text : UpdateOp → String
  | increment => "++"
  | decrement => "--"

inductive AssignOp where
  | plain | add | sub | mul | div | mod
deriving DecidableEq, Repr

def AssignOp.text : AssignOp → String
  | plain => "="
  | add => "+="
  | sub => "-="
  | mul => "*="
  | div => "/="
  | mod => "%="

/-- The operator a compound assignment applies to the old value. -/
def AssignOp.binary? : AssignOp → Option BinaryOp
  | plain => none
  | add => some .add
  | sub => some .sub
  | mul => some .mul
  | div => some .div
  | mod => some .mod

inductive DeclKind where
  | let_ | const | var
deriving DecidableEq, Repr

def DeclKind.text : DeclKind → String
  | let_ => "let"
  | const => "const"
  | var => "var"

inductive IterKind where
  | of | in_
deriving DecidableEq, Repr

def IterKind.text : IterKind → String
  | of => "of"
  | in_ => "in"

/-! ### Trees -/

mutual

/-- A binding pattern: a name, or an array or object of patterns. -/
inductive Pattern where
  | name (name : String)
  | array (items : List Pattern)
  | object (props : List PatternProperty)

/-- A keyed part of an object pattern. -/
structure PatternProperty where
  key : String
  value : Pattern

end

/-- A constant written in the source. -/
inductive Literal where
  | number (x : Float)
  | string (s : String)
  | bool (b : Bool)
  | null
  | undefined

mutual

inductive Expr where
  | literal (span : Span) (value : Literal)
  | ident (span : Span) (name : String)
  | array (span : Span) (items : List Expr)
  | object (span : Span) (props : List Property)
  | function (span : Span) (func : Func)
  | unary (span : Span) (op : UnaryOp) (operand : Expr)
  /-- `before` tells `++x` from `x++`. -/
  | update (span : Span) (op : UpdateOp) (before : Bool) (target : Expr)
  | binary (span : Span) (op : BinaryOp) (left right : Expr)
  | assign (span : Span) (op : AssignOp) (target value : Expr)
  | cond (span : Span) (test yes no : Expr)
  | member (span : Span) (object : Expr) (key : Key) (optional : Bool)
  | call (span : Span) (callee : Expr) (args : List Expr) (optional : Bool)
  | new (span : Span) (callee : Expr) (args : List Expr)

/-- The key of a member access or of a property. -/
inductive Key where
  | named (name : String)
  | computed (key : Expr)

structure Property where
  key : Key
  value : Expr

structure Param where
  span : Span
  pattern : Pattern
  default : Option Expr
  rest : Bool

inductive FuncBody where
  | block (body : List Stmt)
  | expr (body : Expr)

structure Func where
  name : Option String
  params : List Param
  body : FuncBody
  isArrow : Bool

structure Declarator where
  pattern : Pattern
  init : Option Expr

structure VarDecl where
  span : Span
  kind : DeclKind
  declarators : List Declarator

inductive ForInit where
  | decl (decl : VarDecl)
  | expr (e : Expr)

structure CatchClause where
  param : Option Pattern
  body : List Stmt

inductive Stmt where
  | expr (span : Span) (e : Expr)
  | decl (decl : VarDecl)
  | function (span : Span) (func : Func)
  | return_ (span : Span) (value : Option Expr)
  | if_ (span : Span) (test : Expr) (yes : Stmt) (no : Option Stmt)
  | for_ (span : Span) (init : Option ForInit) (test update : Option Expr) (body : Stmt)
  | forEach (span : Span) (kind : IterKind) (decl : Option DeclKind) (pattern : Pattern)
      (source : Expr) (body : Stmt)
  | while_ (span : Span) (test : Expr) (body : Stmt)
  | break_ (span : Span) (label : Option String)
  | continue_ (span : Span) (label : Option String)
  | labeled (span : Span) (label : String) (body : Stmt)
  | throw_ (span : Span) (value : Expr)
  | try_ (span : Span) (block : List Stmt) (handler : Option CatchClause)
      (finalizer : Option (List Stmt))
  | block (span : Span) (body : List Stmt)
  | empty (span : Span)

end

/-- A function taken apart: what a template is made from. -/
structure FuncSource where
  params : List Param
  body : List Stmt
  span : Span

/-! ### Views -/

def Expr.span : Expr → Span
  | literal s _ | ident s _ | array s _ | object s _ | function s _ | unary s _ _
  | update s _ _ _ | binary s _ _ _ | assign s _ _ _ | cond s _ _ _ | member s _ _ _
  | call s _ _ _ | new s _ _ => s

def Stmt.span : Stmt → Span
  | decl d => d.span
  | expr s _ | function s _ | return_ s _ | if_ s _ _ _ | for_ s _ _ _ _ | forEach s _ _ _ _ _
  | while_ s _ _ | break_ s _ | continue_ s _ | labeled s _ _ | throw_ s _ | try_ s _ _ _
  | block s _ | empty s => s

/-- The name an expression consists of. -/
def Expr.name? : Expr → Option String
  | ident _ name => some name
  | _ => none

/-- The expression a chain of member accesses starts from. -/
def Expr.chainRoot : Expr → Expr
  | member _ inner _ _ => inner.chainRoot
  | e => e

mutual

/-- The names a pattern binds, in order of appearance. -/
def Pattern.names : Pattern → List String
  | name n => [n]
  | array items => Pattern.namesOfItems items
  | object props => Pattern.namesOfProps props

def Pattern.namesOfItems : List Pattern → List String
  | [] => []
  | p :: rest => p.names ++ Pattern.namesOfItems rest

def Pattern.namesOfProps : List PatternProperty → List String
  | [] => []
  | ⟨_, p⟩ :: rest => p.names ++ Pattern.namesOfProps rest

end

/-- The name of a parameter that is a bare name: no pattern, default or rest. -/
def Param.simpleName? : Param → Option String
  | ⟨_, .name n, none, false⟩ => some n
  | _ => none

/-- Whether a chain of member accesses has no optional link. -/
def Expr.isPlainChain : Expr → Bool
  | member _ inner _ optional => !optional && inner.isPlainChain
  | _ => true

/-- What may stand on the left of an assignment: names and member accesses without optional link. -/
def Expr.isAssignable : Expr → Bool
  | ident _ _ => true
  | e@(member _ _ _ _) => e.isPlainChain
  | _ => false

end Staging
