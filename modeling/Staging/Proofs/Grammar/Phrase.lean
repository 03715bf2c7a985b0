import Staging.Proofs.Source.Bare
import Staging.Source.Grammar.Program
import Staging.Source.Layout

/-!
Which tokens are which tree.

`Phrase min e ts` relates an expression to the tokens that stand for it where a binding strength of
`min` is asked for, and `Sentence s ts` does so for statements. The relations leave open where more
parentheses than needed stand and how property names are written; they are definite about everything
that decides how tokens are grouped:

* operands are phrases of the strength their operator asks for;
* an expression statement does not begin like a block or a function declaration, and the body of an
  arrow does not begin with a brace;
* what `new` is applied to has neither a call nor an optional link in it, unless in parentheses;
* a statement with an `else` after it does not end in an `if` without one.

Spans play no part: a tree has the same phrases whatever its spans are.
-/

namespace Staging

/-! ### Tokens -/

/-- The token a name-shaped text is: a name or a keyword. -/
def word (n : String) : Token := wordToken n.toList

def BinaryOp.mark : BinaryOp → Mark
  | add => .plus
  | sub => .minus
  | mul => .star
  | div => .slash
  | mod => .percent
  | pow => .starStar
  | eq => .eqEq
  | notEq => .notEq
  | strictEq => .eqEqEq
  | strictNotEq => .notEqEq
  | lt => .lt
  | gt => .gt
  | le => .le
  | ge => .ge
  | and => .andAnd
  | or => .orOr
  | nullish => .questionQuestion

def UnaryOp.token : UnaryOp → Token
  | neg => .mark .minus
  | plus => .mark .plus
  | not => .mark .bang
  | typeof => .keyword .typeof

def UpdateOp.mark : UpdateOp → Mark
  | increment => .plusPlus
  | decrement => .minusMinus

def AssignOp.mark : AssignOp → Mark
  | plain => .assign
  | add => .plusAssign
  | sub => .minusAssign
  | mul => .starAssign
  | div => .slashAssign
  | mod => .percentAssign

def DeclKind.keyword : DeclKind → Keyword
  | let_ => .let_
  | const => .const
  | var => .var

def IterKind.keyword : IterKind → Keyword
  | of => .of
  | in_ => .in_

/-- Tokens between an opening and a closing mark. -/
def enclosed (o c : Mark) (ts : List Token) : List Token := .mark o :: ts ++ [.mark c]

abbrev inParens (ts : List Token) : List Token := enclosed .leftParen .rightParen ts

abbrev inBrackets (ts : List Token) : List Token := enclosed .leftBracket .rightBracket ts

abbrev inBraces (ts : List Token) : List Token := enclosed .leftBrace .rightBrace ts

/-- A token that may be left out. -/
def tokenIf (b : Bool) (t : Token) : List Token := if b then [t] else []

/-- A name that may be missing. -/
def nameTokens : Option String → List Token
  | none => []
  | some n => [.ident n]

/-! ### Lists -/

section Lists

variable {α : Type} (G : α → List Token → Prop)

/-- Further items of a list, each after a comma. -/
inductive MoreItems : List α → List Token → Prop
  | nil : MoreItems [] []
  | cons {a : α} {as : List α} {ts us : List Token} (h : G a ts) (rest : MoreItems as us) :
      MoreItems (a :: as) (.mark .comma :: ts ++ us)

/-- Items with commas between them. -/
inductive Items : List α → List Token → Prop
  | nil : Items [] []
  | cons {a : α} {as : List α} {ts us : List Token} (h : G a ts) (rest : MoreItems G as us) :
      Items (a :: as) (ts ++ us)

/-- Items one right after the other. -/
inductive Sequence : List α → List Token → Prop
  | nil : Sequence [] []
  | cons {a : α} {as : List α} {ts us : List Token} (h : G a ts) (rest : Sequence as us) :
      Sequence (a :: as) (ts ++ us)

end Lists

/-! ### Patterns -/

mutual

/-- The tokens of a pattern. -/
def Pattern.tokens : Pattern → List Token
  | .name n => [.ident n]
  | .array items => inBrackets (Pattern.itemTokens items)
  | .object props => inBraces (Pattern.propTokens props)

def Pattern.itemTokens : List Pattern → List Token
  | [] => []
  | p :: ps => p.tokens ++ Pattern.moreItemTokens ps

def Pattern.moreItemTokens : List Pattern → List Token
  | [] => []
  | p :: ps => .mark .comma :: p.tokens ++ Pattern.moreItemTokens ps

def Pattern.propTokens : List PatternProperty → List Token
  | [] => []
  | ⟨key, p⟩ :: ps => (word key :: .mark .colon :: p.tokens) ++ Pattern.morePropTokens ps

def Pattern.morePropTokens : List PatternProperty → List Token
  | [] => []
  | ⟨key, p⟩ :: ps =>
    .mark .comma :: (word key :: .mark .colon :: p.tokens) ++ Pattern.morePropTokens ps

end

/-! ### Expressions and statements -/

/-- The tokens that would make a statement a block or a declaration. -/
def beginsStatement : Option Token → Bool
  | some (.mark .leftBrace) | some (.keyword .function) => true
  | _ => false

mutual

/-- The tokens are the expression, where the given binding strength is asked for. -/
inductive Phrase : Precedence → Expr → List Token → Prop
  | parens {p : Precedence} {e : Expr} {ts : List Token} (h : Phrase .lowest e ts) :
      Phrase p e (inParens ts)
  | literal {p : Precedence} {s : Span} {v v' : Literal} {t : Token}
      (ht : Grammar.literalToken t = some v') (hv : v'.bare = v.bare) : Phrase p (.literal s v) [t]
  | ident {p : Precedence} {s : Span} {n : String} : Phrase p (.ident s n) [.ident n]
  | array {p : Precedence} {s : Span} {items : List Expr} {ts : List Token}
      (h : Items (Phrase .assignment) items ts) : Phrase p (.array s items) (inBrackets ts)
  | object {p : Precedence} {s : Span} {props : List Property} {ts : List Token}
      (h : Items PropertyPhrase props ts) : Phrase p (.object s props) (inBraces ts)
  | function {p : Precedence} {s : Span} {f : Func} {ts : List Token} (h : FuncPhrase f ts) :
      Phrase p (.function s f) ts
  | arrow {p : Precedence} {s : Span} {params : List Param} {body : FuncBody} {ts us : List Token}
      (hp : p ≤ .assignment) (hs : Items ParamPhrase params ts) (hb : ArrowBody body us) :
      Phrase p (.function s ⟨none, params, body, true⟩) (inParens ts ++ .mark .arrow :: us)
  | unary {p : Precedence} {s : Span} {op : UnaryOp} {e : Expr} {ts : List Token}
      (hp : p ≤ .unary) (h : Phrase .unary e ts) : Phrase p (.unary s op e) (op.token :: ts)
  | before {p : Precedence} {s : Span} {op : UpdateOp} {e : Expr} {ts : List Token}
      (hp : p ≤ .unary) (h : Phrase .unary e ts) :
      Phrase p (.update s op true e) (.mark op.mark :: ts)
  | after {p : Precedence} {s : Span} {op : UpdateOp} {e : Expr} {ts : List Token}
      (hp : p ≤ .postfix_) (h : Phrase .call e ts) :
      Phrase p (.update s op false e) (ts ++ [.mark op.mark])
  | binary {p : Precedence} {s : Span} {op : BinaryOp} {a b : Expr} {ts us : List Token}
      (hop : op ≠ .pow) (hp : p ≤ op.precedence) (ha : Phrase op.precedence a ts)
      (hb : Phrase op.precedence.next b us) :
      Phrase p (.binary s op a b) (ts ++ .mark op.mark :: us)
  | power {p : Precedence} {s : Span} {a b : Expr} {ts us : List Token}
      (hp : p ≤ .exponent) (ha : Phrase .unary a ts) (hb : Phrase .exponent b us) :
      Phrase p (.binary s .pow a b) (ts ++ .mark .starStar :: us)
  | assign {p : Precedence} {s : Span} {op : AssignOp} {a b : Expr} {ts us : List Token}
      (hp : p ≤ .assignment) (hasg : a.isAssignable = true) (ha : Phrase .call a ts)
      (hb : Phrase .assignment b us) : Phrase p (.assign s op a b) (ts ++ .mark op.mark :: us)
  | cond {p : Precedence} {s : Span} {a b c : Expr} {ts us vs : List Token}
      (hp : p ≤ .conditional) (ha : Phrase .nullish a ts) (hb : Phrase .assignment b us)
      (hc : Phrase .assignment c vs) :
      Phrase p (.cond s a b c) (ts ++ .mark .question :: (us ++ .mark .colon :: vs))
  | member {p : Precedence} {s : Span} {o : Expr} {k : Key} {optional : Bool} {ts us : List Token}
      (hp : p ≤ .call) (ho : Phrase .call o ts) (hk : LinkPhrase k optional us) :
      Phrase p (.member s o k optional) (ts ++ us)
  | call {p : Precedence} {s : Span} {c : Expr} {args : List Expr} {optional : Bool}
      {ts us : List Token} (hp : p ≤ .call) (hc : Phrase .call c ts)
      (ha : Items (Phrase .assignment) args us) :
      Phrase p (.call s c args optional)
        (ts ++ (tokenIf optional (.mark .questionDot) ++ inParens us))
  | new {p : Precedence} {s : Span} {c : Expr} {args : List Expr} {ts us : List Token}
      (hp : p ≤ .call) (hc : CalleePhrase c ts) (ha : Items (Phrase .assignment) args us) :
      Phrase p (.new s c args) (.keyword .new :: (ts ++ inParens us))

/-- What `new` is applied to: an atom with plain member accesses. -/
inductive CalleePhrase : Expr → List Token → Prop
  | root {e : Expr} {ts : List Token} (h : Phrase .primary e ts) : CalleePhrase e ts
  | member {s : Span} {o : Expr} {k : Key} {ts us : List Token} (ho : CalleePhrase o ts)
      (hk : LinkPhrase k false us) : CalleePhrase (.member s o k false) (ts ++ us)

/-- A member access without its object. -/
inductive LinkPhrase : Key → Bool → List Token → Prop
  | dot {n : String} : LinkPhrase (.named n) false [.mark .dot, word n]
  | optionalDot {n : String} : LinkPhrase (.named n) true [.mark .questionDot, word n]
  | index {e : Expr} {ts : List Token} (h : Phrase .lowest e ts) :
      LinkPhrase (.computed e) false (inBrackets ts)
  | optionalIndex {e : Expr} {ts : List Token} (h : Phrase .lowest e ts) :
      LinkPhrase (.computed e) true (.mark .questionDot :: inBrackets ts)

/-- The key of a property: a name, a quoted name, or an expression in brackets. -/
inductive KeyPhrase : Key → List Token → Prop
  | word {n : String} : KeyPhrase (.named n) [word n]
  | quoted {n : String} : KeyPhrase (.named n) [.str n]
  | computed {e : Expr} {ts : List Token} (h : Phrase .assignment e ts) :
      KeyPhrase (.computed e) (inBrackets ts)

inductive PropertyPhrase : Property → List Token → Prop
  | mk {k : Key} {v : Expr} {ts us : List Token} (hk : KeyPhrase k ts) (hv : Phrase .assignment v us) :
      PropertyPhrase ⟨k, v⟩ (ts ++ .mark .colon :: us)

/-- An initial value that may be missing. -/
inductive InitialPhrase : Option Expr → List Token → Prop
  | none : InitialPhrase none []
  | some {e : Expr} {ts : List Token} (h : Phrase .assignment e ts) :
      InitialPhrase (some e) (.mark .assign :: ts)

inductive ParamPhrase : Param → List Token → Prop
  | mk {s : Span} {pattern : Pattern} {default : Option Expr} {rest : Bool} {ts : List Token}
      (h : InitialPhrase default ts) :
      ParamPhrase ⟨s, pattern, default, rest⟩ (tokenIf rest (.mark .ellipsis) ++ (pattern.tokens ++ ts))

/-- A function with its keyword. -/
inductive FuncPhrase : Func → List Token → Prop
  | mk {name : Option String} {params : List Param} {body : List Stmt} {ts us : List Token}
      (hs : Items ParamPhrase params ts) (hb : Sequence Sentence body us) :
      FuncPhrase ⟨name, params, .block body, false⟩
        (.keyword .function :: (nameTokens name ++ (inParens ts ++ inBraces us)))

/-- The body of an arrow. -/
inductive ArrowBody : FuncBody → List Token → Prop
  | block {body : List Stmt} {ts : List Token} (h : Sequence Sentence body ts) :
      ArrowBody (.block body) (inBraces ts)
  | expr {e : Expr} {ts : List Token} (h : Phrase .assignment e ts)
      (hb : ts.head? ≠ some (.mark .leftBrace)) : ArrowBody (.expr e) ts

inductive DeclaratorPhrase : Declarator → List Token → Prop
  | mk {pattern : Pattern} {init : Option Expr} {ts : List Token} (h : InitialPhrase init ts) :
      DeclaratorPhrase ⟨pattern, init⟩ (pattern.tokens ++ ts)

inductive DeclPhrase : VarDecl → List Token → Prop
  | mk {s : Span} {kind : DeclKind} {ds : List Declarator} {ts : List Token} (hne : ds ≠ [])
      (h : Items DeclaratorPhrase ds ts) : DeclPhrase ⟨s, kind, ds⟩ (.keyword kind.keyword :: ts)

/-- An expression that may be missing. -/
inductive ClausePhrase : Option Expr → List Token → Prop
  | none : ClausePhrase none []
  | some {e : Expr} {ts : List Token} (h : Phrase .lowest e ts) : ClausePhrase (some e) ts

inductive ForInitPhrase : Option ForInit → List Token → Prop
  | none : ForInitPhrase none []
  | decl {d : VarDecl} {ts : List Token} (h : DeclPhrase d ts) : ForInitPhrase (some (.decl d)) ts
  | expr {e : Expr} {ts : List Token} (h : Phrase .lowest e ts) : ForInitPhrase (some (.expr e)) ts

inductive HandlerPhrase : Option CatchClause → List Token → Prop
  | none : HandlerPhrase none []
  | bare {body : List Stmt} {ts : List Token} (h : Sequence Sentence body ts) :
      HandlerPhrase (some ⟨none, body⟩) (.keyword .catch_ :: inBraces ts)
  | binding {p : Pattern} {body : List Stmt} {ts : List Token} (h : Sequence Sentence body ts) :
      HandlerPhrase (some ⟨some p, body⟩) (.keyword .catch_ :: (inParens p.tokens ++ inBraces ts))

inductive FinalPhrase : Option (List Stmt) → List Token → Prop
  | none : FinalPhrase none []
  | some {body : List Stmt} {ts : List Token} (h : Sequence Sentence body ts) :
      FinalPhrase (some body) (.keyword .finally_ :: inBraces ts)

/-- The tokens are the statement. -/
inductive Sentence : Stmt → List Token → Prop
  | expr {s : Span} {e : Expr} {ts : List Token} (h : Phrase .lowest e ts)
      (hb : beginsStatement ts.head? = false) : Sentence (.expr s e) (ts ++ [.mark .semicolon])
  | decl {d : VarDecl} {ts : List Token} (h : DeclPhrase d ts) :
      Sentence (.decl d) (ts ++ [.mark .semicolon])
  | function {s : Span} {f : Func} {ts : List Token} (hn : f.name.isSome = true)
      (h : FuncPhrase f ts) : Sentence (.function s f) ts
  | return_ {s : Span} {e : Option Expr} {ts : List Token} (h : ClausePhrase e ts) :
      Sentence (.return_ s e) (.keyword .return_ :: (ts ++ [.mark .semicolon]))
  | if_ {s : Span} {test : Expr} {yes : Stmt} {ts us : List Token} (ht : Phrase .lowest test ts)
      (hy : Sentence yes us) :
      Sentence (.if_ s test yes none) (.keyword .if_ :: (inParens ts ++ us))
  | ifElse {s : Span} {test : Expr} {yes no : Stmt} {ts us vs : List Token}
      (ht : Phrase .lowest test ts) (hy : Sentence yes us) (hc : yes.endsOpen = false)
      (hn : Sentence no vs) :
      Sentence (.if_ s test yes (some no))
        (.keyword .if_ :: (inParens ts ++ (us ++ .keyword .else_ :: vs)))
  | for_ {s : Span} {init : Option ForInit} {test update : Option Expr} {body : Stmt}
      {is ts us bs : List Token} (hi : ForInitPhrase init is) (ht : ClausePhrase test ts)
      (hu : ClausePhrase update us) (hb : Sentence body bs) :
      Sentence (.for_ s init test update body)
        (.keyword .for_ ::
          (inParens (is ++ .mark .semicolon :: (ts ++ .mark .semicolon :: us)) ++ bs))
  | forEach {s : Span} {kind : IterKind} {decl : Option DeclKind} {pattern : Pattern} {source : Expr}
      {body : Stmt} {ts bs : List Token} (hs : Phrase .assignment source ts) (hb : Sentence body bs) :
      Sentence (.forEach s kind decl pattern source body)
        (.keyword .for_ ::
          (inParens ((decl.map fun d => Token.keyword d.keyword).toList
            ++ (pattern.tokens ++ .keyword kind.keyword :: ts)) ++ bs))
  | while_ {s : Span} {test : Expr} {body : Stmt} {ts bs : List Token}
      (ht : Phrase .lowest test ts) (hb : Sentence body bs) :
      Sentence (.while_ s test body) (.keyword .while_ :: (inParens ts ++ bs))
  | break_ {s : Span} {label : Option String} :
      Sentence (.break_ s label) (.keyword .break_ :: (nameTokens label ++ [.mark .semicolon]))
  | continue_ {s : Span} {label : Option String} :
      Sentence (.continue_ s label) (.keyword .continue_ :: (nameTokens label ++ [.mark .semicolon]))
  | labeled {s : Span} {label : String} {body : Stmt} {bs : List Token} (hb : Sentence body bs) :
      Sentence (.labeled s label body) (.ident label :: .mark .colon :: bs)
  | throw_ {s : Span} {e : Expr} {ts : List Token} (h : Phrase .lowest e ts) :
      Sentence (.throw_ s e) (.keyword .throw_ :: (ts ++ [.mark .semicolon]))
  | try_ {s : Span} {body : List Stmt} {handler : Option CatchClause}
      {finalizer : Option (List Stmt)} {ts us vs : List Token} (hb : Sequence Sentence body ts)
      (hh : HandlerPhrase handler us) (hf : FinalPhrase finalizer vs)
      (hsome : (handler.isNone && finalizer.isNone) = false) :
      Sentence (.try_ s body handler finalizer) (.keyword .try_ :: (inBraces ts ++ (us ++ vs)))
  | block {s : Span} {body : List Stmt} {ts : List Token} (h : Sequence Sentence body ts) :
      Sentence (.block s body) (inBraces ts)
  | empty {s : Span} : Sentence (.empty s) [.mark .semicolon]

end

end Staging
