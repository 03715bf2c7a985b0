import Staging.Source.Tree

/-!
The spans of a tree.

`Stmt.spanTree` and its companions keep the spans of a syntax tree and what lies in what. There is a node for each
statement, declaration, parameter and expression; the parts of a tree that carry no span of their own (keys, properties,
declarators, function bodies, catch clauses) pass on the nodes inside of them, in the order of the source.

`SpanTree.Nested` says that every span of such a tree covers tokens, that each lies in the one above it, and that those side
by side are apart and in order.
-/

namespace Staging

/-- A span, and the ones right inside of it in the order of the source. -/
inductive SpanTree where
  | node (span : Span) (children : List SpanTree)

def SpanTree.span : SpanTree → Span
  | node span _ => span

mutual

def Expr.spanTree : Expr → SpanTree
  | .literal s _ | .ident s _ => .node s []
  | .array s items => .node s (Expr.spanTrees items)
  | .object s props => .node s (Property.spanTrees props)
  | .function s f => .node s f.spanTrees
  | .unary s _ e | .update s _ _ e => .node s [e.spanTree]
  | .binary s _ a b | .assign s _ a b => .node s [a.spanTree, b.spanTree]
  | .cond s test yes no => .node s [test.spanTree, yes.spanTree, no.spanTree]
  | .member s o k _ => .node s (o.spanTree :: k.spanTrees)
  | .call s c args _ | .new s c args => .node s (c.spanTree :: Expr.spanTrees args)

def Key.spanTrees : Key → List SpanTree
  | .named _ => []
  | .computed e => [e.spanTree]

def Expr.spanTrees : List Expr → List SpanTree
  | [] => []
  | e :: es => e.spanTree :: Expr.spanTrees es

def Property.spanTrees : List Property → List SpanTree
  | [] => []
  | ⟨k, v⟩ :: ps => k.spanTrees ++ v.spanTree :: Property.spanTrees ps

def Expr.spanTreesOption : Option Expr → List SpanTree
  | none => []
  | some e => [e.spanTree]

def Param.spanTrees : List Param → List SpanTree
  | [] => []
  | ⟨s, _, default, _⟩ :: ps => .node s (Expr.spanTreesOption default) :: Param.spanTrees ps

def FuncBody.spanTrees : FuncBody → List SpanTree
  | .block body => Stmt.spanTrees body
  | .expr e => [e.spanTree]

def Func.spanTrees : Func → List SpanTree
  | ⟨_, params, body, _⟩ => Param.spanTrees params ++ body.spanTrees

def Declarator.spanTrees : List Declarator → List SpanTree
  | [] => []
  | ⟨_, init⟩ :: ds => Expr.spanTreesOption init ++ Declarator.spanTrees ds

def VarDecl.spanTree : VarDecl → SpanTree
  | ⟨s, _, ds⟩ => .node s (Declarator.spanTrees ds)

def ForInit.spanTreesOption : Option ForInit → List SpanTree
  | none => []
  | some (.decl d) => [d.spanTree]
  | some (.expr e) => [e.spanTree]

def CatchClause.spanTreesOption : Option CatchClause → List SpanTree
  | none => []
  | some ⟨_, body⟩ => Stmt.spanTrees body

def Stmt.spanTreesOption : Option Stmt → List SpanTree
  | none => []
  | some s => [s.spanTree]

def Stmt.spanTreesFinal : Option (List Stmt) → List SpanTree
  | none => []
  | some body => Stmt.spanTrees body

def Stmt.spanTrees : List Stmt → List SpanTree
  | [] => []
  | s :: ss => s.spanTree :: Stmt.spanTrees ss

def Stmt.spanTree : Stmt → SpanTree
  | .expr s e | .throw_ s e => .node s [e.spanTree]
  | .decl d => d.spanTree
  | .function s f => .node s f.spanTrees
  | .return_ s e => .node s (Expr.spanTreesOption e)
  | .if_ s test yes no => .node s (test.spanTree :: yes.spanTree :: Stmt.spanTreesOption no)
  | .for_ s init test update body =>
    .node s (ForInit.spanTreesOption init ++ (Expr.spanTreesOption test ++
      (Expr.spanTreesOption update ++ [body.spanTree])))
  | .forEach s _ _ _ source body => .node s [source.spanTree, body.spanTree]
  | .while_ s test body => .node s [test.spanTree, body.spanTree]
  | .break_ s _ | .continue_ s _ | .empty s => .node s []
  | .labeled s _ body => .node s [body.spanTree]
  | .try_ s body handler finalizer =>
    .node s (Stmt.spanTrees body ++ (CatchClause.spanTreesOption handler ++ Stmt.spanTreesFinal finalizer))
  | .block s body => .node s (Stmt.spanTrees body)

end

/-! ### Lists of trees -/

theorem Expr.spanTrees_eq (es : List Expr) : Expr.spanTrees es = es.flatMap fun e => [e.spanTree] := by
  induction es with
  | nil => rfl
  | cons e es ih => rw [Expr.spanTrees, ih, List.flatMap_cons, List.singleton_append]

theorem Stmt.spanTrees_eq (ss : List Stmt) : Stmt.spanTrees ss = ss.flatMap fun s => [s.spanTree] := by
  induction ss with
  | nil => rfl
  | cons s ss ih => rw [Stmt.spanTrees, ih, List.flatMap_cons, List.singleton_append]

theorem Property.spanTrees_eq (ps : List Property) :
    Property.spanTrees ps = ps.flatMap fun p => p.key.spanTrees ++ [p.value.spanTree] := by
  induction ps with
  | nil => rfl
  | cons p ps ih =>
    obtain ⟨key, value⟩ := p
    rw [Property.spanTrees, ih, List.flatMap_cons, List.append_assoc, List.singleton_append]

theorem Param.spanTrees_eq (ps : List Param) :
    Param.spanTrees ps = ps.flatMap fun p => [.node p.span (Expr.spanTreesOption p.default)] := by
  induction ps with
  | nil => rfl
  | cons p ps ih =>
    obtain ⟨span, pattern, default, rest⟩ := p
    rw [Param.spanTrees, ih, List.flatMap_cons, List.singleton_append]

theorem Declarator.spanTrees_eq (ds : List Declarator) :
    Declarator.spanTrees ds = ds.flatMap fun d => Expr.spanTreesOption d.init := by
  induction ds with
  | nil => rfl
  | cons d ds ih =>
    obtain ⟨pattern, init⟩ := d
    rw [Declarator.spanTrees, ih, List.flatMap_cons]

theorem Expr.spanTreesOption_eq (o : Option Expr) : Expr.spanTreesOption o = o.toList.flatMap fun e => [e.spanTree] := by
  cases o <;> rfl

theorem Stmt.spanTreesOption_eq (o : Option Stmt) : Stmt.spanTreesOption o = o.toList.flatMap fun s => [s.spanTree] := by
  cases o <;> rfl

theorem Stmt.spanTreesFinal_eq (o : Option (List Stmt)) : Stmt.spanTreesFinal o = o.toList.flatMap Stmt.spanTrees := by
  cases o with
  | none => rfl
  | some body => exact (List.append_nil _).symm

theorem CatchClause.spanTreesOption_eq (o : Option CatchClause) :
    CatchClause.spanTreesOption o = o.toList.flatMap fun c => Stmt.spanTrees c.body := by
  cases o with
  | none => rfl
  | some c =>
    obtain ⟨param, body⟩ := c
    exact (List.append_nil _).symm

/-- The tree of what a loop starts with. -/
def ForInit.spanTree : ForInit → SpanTree
  | .decl d => d.spanTree
  | .expr e => e.spanTree

theorem ForInit.spanTreesOption_eq (o : Option ForInit) :
    ForInit.spanTreesOption o = o.toList.flatMap fun i => [i.spanTree] := by
  cases o with
  | none => rfl
  | some i => cases i <;> rfl

theorem Expr.span_spanTree (e : Expr) : e.spanTree.span = e.span := by
  cases e <;> rfl

/-! ### Nesting -/

/-- A span of a source of some size reaches from the start of a token to the end of a token, and is not empty. -/
structure Span.OnTokens (lexemes : List Lexeme) (size : Nat) (span : Span) : Prop where
  nonempty : span.start < span.stop
  bounded : span.stop ≤ size
  starts : ∃ l ∈ lexemes, l.span.start = span.start
  ends : ∃ l ∈ lexemes, l.span.stop = span.stop

/-- The spans are apart, each one in front of those behind it. -/
def SpanTree.InOrder (ts : List SpanTree) : Prop := ts.Pairwise fun a b => a.span.stop ≤ b.span.start

/-- The spans of a tree are on tokens, lie in the one above, and are in order side by side. -/
inductive SpanTree.Nested (lexemes : List Lexeme) (size : Nat) : SpanTree → Prop
  | node {span : Span} {children : List SpanTree} (onTokens : span.OnTokens lexemes size)
      (inside : ∀ t ∈ children, span.start ≤ t.span.start ∧ t.span.stop ≤ span.stop)
      (ordered : SpanTree.InOrder children) (inner : ∀ t ∈ children, t.Nested lexemes size) :
      Nested lexemes size (.node span children)

end Staging
