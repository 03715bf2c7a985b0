import Staging.Source.Grammar.Expr

/-!
The grammar of statements. A semicolon at the end of a statement may be left out.
-/

namespace Staging.Grammar

open Staging.Parser

def semicolon : Parser Unit := do
  let _ ← maybe (mark .semicolon)

def declKindToken : Token → Option DeclKind
  | .keyword .let_ => some .let_
  | .keyword .const => some .const
  | .keyword .var => some .var
  | _ => none

def declarator (expr : Parser Expr) (pat : Parser Pattern) : Parser Declarator := do
  let p ← pat
  let init ← initializer expr
  return ⟨p, init⟩

def varDecl (expr : Parser Expr) (pat : Parser Pattern) : Parser VarDecl := do
  let (span, kind, ds) ← spanned do
    let kind ← accept declKindToken
    let ds ← separated1 (declarator expr pat) comma
    return (kind, ds)
  return ⟨span, kind, ds⟩

def varStmt (expr : Parser Expr) (pat : Parser Pattern) : Parser Stmt := do
  let d ← varDecl expr pat
  semicolon
  return .decl d

def functionDecl (expr : Parser Expr) (stmt : Parser Stmt) (pat : Parser Pattern) :
    Parser Stmt := do
  let (span, f) ← spanned do
    keyword .function
    let n ← name
    let ps ← params expr pat
    let body ← block stmt
    return (⟨some n, ps, .block body, false⟩ : Func)
  return .function span f

def blockStmt (stmt : Parser Stmt) : Parser Stmt := do
  let (span, body) ← spanned (block stmt)
  return .block span body

def returnStmt (expr : Parser Expr) : Parser Stmt := do
  let (span, value) ← spanned do
    keyword .return_
    let value ← maybe expr
    semicolon
    return value
  return .return_ span value

def ifStmt (expr : Parser Expr) (stmt : Parser Stmt) : Parser Stmt := do
  let (span, test, yes, no) ← spanned do
    keyword .if_
    let test ← parens expr
    let yes ← stmt
    let no ← maybe do
      keyword .else_
      stmt
    return (test, yes, no)
  return .if_ span test yes no

def iterKind : Parser IterKind :=
  orElse (do keyword .of; return .of) (do keyword .in_; return .in_)

def forEachStmt (expr : Parser Expr) (stmt : Parser Stmt) (pat : Parser Pattern) :
    Parser Stmt := do
  let (span, (decl, p, kind, source), body) ← spanned do
    keyword .for_
    let head ← between .leftParen .rightParen do
      let decl ← maybe (accept declKindToken)
      let p ← pat
      let kind ← iterKind
      let source ← expr
      return (decl, p, kind, source)
    let body ← stmt
    return (head, body)
  return .forEach span kind decl p source body

def forInit (expr : Parser Expr) (pat : Parser Pattern) : Parser ForInit :=
  orElse (ForInit.decl <$> varDecl expr pat) (ForInit.expr <$> expr)

def forStmt (expr : Parser Expr) (stmt : Parser Stmt) (pat : Parser Pattern) : Parser Stmt := do
  let (span, (init, test, update), body) ← spanned do
    keyword .for_
    let head ← between .leftParen .rightParen do
      let init ← maybe (forInit expr pat)
      mark .semicolon
      let test ← maybe expr
      mark .semicolon
      let update ← maybe expr
      return (init, test, update)
    let body ← stmt
    return (head, body)
  return .for_ span init test update body

def whileStmt (expr : Parser Expr) (stmt : Parser Stmt) : Parser Stmt := do
  let (span, test, body) ← spanned do
    keyword .while_
    let test ← parens expr
    let body ← stmt
    return (test, body)
  return .while_ span test body

/-- A jump: its keyword, and possibly a label. -/
def jump (k : Keyword) : Parser (Span × Option String) :=
  spanned do
    keyword k
    let label ← maybe name
    semicolon
    return label

def throwStmt (expr : Parser Expr) : Parser Stmt := do
  let (span, value) ← spanned do
    keyword .throw_
    let value ← expr
    semicolon
    return value
  return .throw_ span value

def catchClause (stmt : Parser Stmt) (pat : Parser Pattern) : Parser CatchClause := do
  keyword .catch_
  let param ← maybe (between .leftParen .rightParen pat)
  let body ← block stmt
  return ⟨param, body⟩

def tryStmt (stmt : Parser Stmt) (pat : Parser Pattern) : Parser Stmt :=
  check
    (do
      keyword .try_
      let body ← block stmt
      let handler ← maybe (catchClause stmt pat)
      let finalizer ← maybe do
        keyword .finally_
        block stmt
      return (body, handler, finalizer))
    fun (body, handler, finalizer) span =>
      if handler.isNone && finalizer.isNone then
        .error ("`try` needs a `catch` or `finally` block", span)
      else .ok (.try_ span body handler finalizer)

def labeledStmt (stmt : Parser Stmt) : Parser Stmt := do
  let (span, label, body) ← spanned do
    let label ← name
    mark .colon
    let body ← stmt
    return (label, body)
  return .labeled span label body

def emptyStmt : Parser Stmt := do
  let (span, _) ← spanned (mark .semicolon)
  return .empty span

def exprStmt (expr : Parser Expr) : Parser Stmt := do
  let (span, e) ← spanned do
    let e ← expr
    semicolon
    return e
  return .expr span e

/-- One level of a statement. -/
def stmtRule (expr : Parser Expr) (stmt : Parser Stmt) (pat : Parser Pattern) : Parser Stmt :=
  choice [
    varStmt expr pat,
    functionDecl expr stmt pat,
    blockStmt stmt,
    returnStmt expr,
    ifStmt expr stmt,
    forEachStmt expr stmt pat,
    forStmt expr stmt pat,
    whileStmt expr stmt,
    do let (span, label) ← jump .break_; return .break_ span label,
    do let (span, label) ← jump .continue_; return .continue_ span label,
    throwStmt expr,
    tryStmt stmt pat,
    labeledStmt stmt,
    emptyStmt,
    exprStmt expr]

end Staging.Grammar
