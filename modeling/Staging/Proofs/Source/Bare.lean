import Staging.Source.Tree

/-!
Trees without their spans.

`Expr.bare`, `Stmt.bare` and their companions put one span in every place, so two trees are the same
program exactly when their bare trees are equal. Numbers are compared as numbers: both zeros become
one.
-/

namespace Staging

/-- The span that stands in every place of a bare tree. -/
def nowhere : Span := ⟨0, 0⟩

/-- A constant; of the two zeros the one without a sign stands for both. -/
def Literal.bare : Literal → Literal
  | number x => number (if x == 0.0 then 0.0 else x)
  | v => v

mutual

def Expr.bare : Expr → Expr
  | .literal _ v => .literal nowhere v.bare
  | .ident _ n => .ident nowhere n
  | .array _ items => .array nowhere (Expr.bareAll items)
  | .object _ props => .object nowhere (Property.bareAll props)
  | .function _ f => .function nowhere f.bare
  | .unary _ op e => .unary nowhere op e.bare
  | .update _ op before e => .update nowhere op before e.bare
  | .binary _ op a b => .binary nowhere op a.bare b.bare
  | .assign _ op a b => .assign nowhere op a.bare b.bare
  | .cond _ a b c => .cond nowhere a.bare b.bare c.bare
  | .member _ o k optional => .member nowhere o.bare k.bare optional
  | .call _ c args optional => .call nowhere c.bare (Expr.bareAll args) optional
  | .new _ c args => .new nowhere c.bare (Expr.bareAll args)

def Key.bare : Key → Key
  | .named n => .named n
  | .computed e => .computed e.bare

def Expr.bareAll : List Expr → List Expr
  | [] => []
  | e :: es => e.bare :: Expr.bareAll es

def Property.bareAll : List Property → List Property
  | [] => []
  | ⟨k, v⟩ :: ps => ⟨k.bare, v.bare⟩ :: Property.bareAll ps

def Expr.bareOption : Option Expr → Option Expr
  | none => none
  | some e => some e.bare

def Param.bareAll : List Param → List Param
  | [] => []
  | ⟨_, pattern, default, rest⟩ :: ps =>
    ⟨nowhere, pattern, Expr.bareOption default, rest⟩ :: Param.bareAll ps

def FuncBody.bare : FuncBody → FuncBody
  | .block body => .block (Stmt.bareAll body)
  | .expr e => .expr e.bare

def Func.bare : Func → Func
  | ⟨name, params, body, isArrow⟩ => ⟨name, Param.bareAll params, body.bare, isArrow⟩

def Declarator.bareAll : List Declarator → List Declarator
  | [] => []
  | ⟨pattern, init⟩ :: ds => ⟨pattern, Expr.bareOption init⟩ :: Declarator.bareAll ds

def VarDecl.bare : VarDecl → VarDecl
  | ⟨_, kind, ds⟩ => ⟨nowhere, kind, Declarator.bareAll ds⟩

def ForInit.bareOption : Option ForInit → Option ForInit
  | none => none
  | some (.decl d) => some (.decl d.bare)
  | some (.expr e) => some (.expr e.bare)

def CatchClause.bareOption : Option CatchClause → Option CatchClause
  | none => none
  | some ⟨param, body⟩ => some ⟨param, Stmt.bareAll body⟩

def Stmt.bareOption : Option Stmt → Option Stmt
  | none => none
  | some s => some s.bare

def Stmt.bareFinal : Option (List Stmt) → Option (List Stmt)
  | none => none
  | some body => some (Stmt.bareAll body)

def Stmt.bareAll : List Stmt → List Stmt
  | [] => []
  | s :: ss => s.bare :: Stmt.bareAll ss

def Stmt.bare : Stmt → Stmt
  | .expr _ e => .expr nowhere e.bare
  | .decl d => .decl d.bare
  | .function _ f => .function nowhere f.bare
  | .return_ _ e => .return_ nowhere (Expr.bareOption e)
  | .if_ _ test yes no => .if_ nowhere test.bare yes.bare (Stmt.bareOption no)
  | .for_ _ init test update body =>
    .for_ nowhere (ForInit.bareOption init) (Expr.bareOption test) (Expr.bareOption update) body.bare
  | .forEach _ kind decl pattern source body =>
    .forEach nowhere kind decl pattern source.bare body.bare
  | .while_ _ test body => .while_ nowhere test.bare body.bare
  | .break_ _ label => .break_ nowhere label
  | .continue_ _ label => .continue_ nowhere label
  | .labeled _ label body => .labeled nowhere label body.bare
  | .throw_ _ e => .throw_ nowhere e.bare
  | .try_ _ body handler finalizer =>
    .try_ nowhere (Stmt.bareAll body) (CatchClause.bareOption handler) (Stmt.bareFinal finalizer)
  | .block _ body => .block nowhere (Stmt.bareAll body)
  | .empty _ => .empty nowhere

end

@[simp] theorem Expr.bareAll_eq_map (es : List Expr) : Expr.bareAll es = es.map Expr.bare := by
  induction es with
  | nil => rfl
  | cons e es ih => simp [Expr.bareAll, ih]

@[simp] theorem Stmt.bare_expr (s : Span) (e : Expr) : (Stmt.expr s e).bare = .expr nowhere e.bare := by
  rw [Stmt.bare]

@[simp] theorem Stmt.bareAll_eq_map (ss : List Stmt) : Stmt.bareAll ss = ss.map Stmt.bare := by
  induction ss with
  | nil => rfl
  | cons s ss ih => simp [Stmt.bareAll, ih]

/-- A property without spans. -/
def Property.bare (p : Property) : Property := ⟨p.key.bare, p.value.bare⟩

/-- A parameter without spans. -/
def Param.bare (p : Param) : Param := ⟨nowhere, p.pattern, Expr.bareOption p.default, p.rest⟩

/-- A declarator without spans. -/
def Declarator.bare (d : Declarator) : Declarator := ⟨d.pattern, Expr.bareOption d.init⟩

@[simp] theorem Property.bareAll_eq_map (ps : List Property) :
    Property.bareAll ps = ps.map Property.bare := by
  induction ps with
  | nil => rfl
  | cons p ps ih =>
    cases p
    simp [Property.bareAll, Property.bare, ih]

@[simp] theorem Param.bareAll_eq_map (ps : List Param) : Param.bareAll ps = ps.map Param.bare := by
  induction ps with
  | nil => rfl
  | cons p ps ih =>
    cases p
    simp [Param.bareAll, Param.bare, ih]

@[simp] theorem Declarator.bareAll_eq_map (ds : List Declarator) :
    Declarator.bareAll ds = ds.map Declarator.bare := by
  induction ds with
  | nil => rfl
  | cons d ds ih =>
    cases d
    simp [Declarator.bareAll, Declarator.bare, ih]

@[simp] theorem Expr.bareOption_eq_map (e : Option Expr) : Expr.bareOption e = e.map Expr.bare := by
  cases e <;> rfl

@[simp] theorem Stmt.bareOption_eq_map (s : Option Stmt) : Stmt.bareOption s = s.map Stmt.bare := by
  cases s <;> rfl

theorem Expr.isPlainChain_bare : ∀ e : Expr, e.bare.isPlainChain = e.isPlainChain
  | .member _ o _ optional => by simp [Expr.bare, Expr.isPlainChain, Expr.isPlainChain_bare o]
  | .literal .. | .ident .. | .array .. | .object .. | .function .. | .unary .. | .update ..
  | .binary .. | .assign .. | .cond .. | .call .. | .new .. => by
    simp [Expr.bare, Expr.isPlainChain]

/-- What may be assigned to does not depend on spans. -/
theorem Expr.isAssignable_bare (e : Expr) : e.bare.isAssignable = e.isAssignable := by
  cases e with
  | member s o k optional =>
    simp [Expr.bare, Expr.isAssignable, Expr.isPlainChain, Expr.isPlainChain_bare o]
  | _ => simp [Expr.bare, Expr.isAssignable]

theorem Expr.isAssignable_of_bare_eq {e e' : Expr} (h : e'.bare = e.bare) :
    e'.isAssignable = e.isAssignable := by
  rw [← Expr.isAssignable_bare e', h, Expr.isAssignable_bare]

end Staging
