import Staging.Number.Binary
import Staging.Source.Layout

/-!
Trees whose text can be read back.

Not every tree is one that a source could have: names may have any text, a number may be infinite, an
assignment may have anything on its left. `Stmt.isPrintable` tells the trees whose text is a program.
Nearly all of it is about single nodes. Three conditions are about places where the text has no
parentheses: an `if` with an `else` after it, the body of an arrow, and what `new` is applied to.
-/

namespace Staging

/-- Whether a text is a name: it has the shape of one and is no keyword. -/
def isName (n : String) : Bool := isNameShaped n && (Keyword.ofText? n).isNone

/-- Whether a double is finite and not below zero. -/
def Number.isUnsigned (x : Float) : Bool :=
  match Number.view x with
  | .finite negative mant _ => !negative || mant == 0
  | _ => false

def Literal.isPrintable : Literal → Bool
  | number x => Number.isUnsigned x
  | _ => true

mutual

def Pattern.isPrintable : Pattern → Bool
  | .name n => isName n
  | .array items => Pattern.itemsPrintable items
  | .object props => Pattern.propsPrintable props

def Pattern.itemsPrintable : List Pattern → Bool
  | [] => true
  | p :: ps => p.isPrintable && Pattern.itemsPrintable ps

def Pattern.propsPrintable : List PatternProperty → Bool
  | [] => true
  | ⟨key, p⟩ :: ps => isNameShaped key && p.isPrintable && Pattern.propsPrintable ps

end

/-- A chain of member accesses with neither an optional link nor a construction at its root. -/
def Expr.isPlainCallee : Expr → Bool
  | .member _ o _ optional => !optional && o.isPlainCallee
  | .new _ _ _ => false
  | _ => true

/--
Whether `new` can be applied to an expression: a chain that contains a call is put in parentheses, any
other has to be plain.
-/
def Expr.isCallee (e : Expr) : Bool := e.containsCall || e.isPlainCallee

/-- The body of an arrow begins with a brace only if it is an object itself. -/
def Expr.isArrowBody (e : Expr) : Bool := e.isObject || !e.leftmost.isObject

mutual

def Expr.isPrintable : Expr → Bool
  | .literal _ v => v.isPrintable
  | .ident _ n => isName n
  | .array _ items => Expr.allPrintable items
  | .object _ props => Property.allPrintable props
  | .function _ f => f.isPrintable
  | .unary _ _ e => e.isPrintable
  | .update _ _ _ e => e.isPrintable
  | .binary _ _ a b => a.isPrintable && b.isPrintable
  | .assign _ _ a b => a.isAssignable && a.isPrintable && b.isPrintable
  | .cond _ a b c => a.isPrintable && b.isPrintable && c.isPrintable
  | .member _ o k _ => o.isPrintable && k.isPrintable
  | .call _ c args _ => c.isPrintable && Expr.allPrintable args
  | .new _ c args => c.isCallee && c.isPrintable && Expr.allPrintable args

/-- The key of a member access. -/
def Key.isPrintable : Key → Bool
  | .named n => isNameShaped n
  | .computed e => e.isPrintable

def Expr.allPrintable : List Expr → Bool
  | [] => true
  | e :: es => e.isPrintable && Expr.allPrintable es

/-- The name of a property is quoted if it has to be. -/
def Key.isPropertyKey : Key → Bool
  | .named _ => true
  | .computed e => e.isPrintable

def Property.allPrintable : List Property → Bool
  | [] => true
  | ⟨k, v⟩ :: ps => k.isPropertyKey && v.isPrintable && Property.allPrintable ps

def Expr.optionPrintable : Option Expr → Bool
  | none => true
  | some e => e.isPrintable

def Param.allPrintable : List Param → Bool
  | [] => true
  | ⟨_, pattern, default, _⟩ :: ps =>
    pattern.isPrintable && Expr.optionPrintable default && Param.allPrintable ps

def FuncBody.isPrintable : FuncBody → Bool
  | .block body => Stmt.allPrintable body
  | .expr e => e.isArrowBody && e.isPrintable

def Func.isPrintable : Func → Bool
  | ⟨name, params, body, isArrow⟩ =>
    name.all isName && Param.allPrintable params && body.isPrintable
      && (if isArrow then name.isNone else body matches .block _)

def Declarator.allPrintable : List Declarator → Bool
  | [] => true
  | ⟨pattern, init⟩ :: ds =>
    pattern.isPrintable && Expr.optionPrintable init && Declarator.allPrintable ds

def VarDecl.isPrintable : VarDecl → Bool
  | ⟨_, _, ds⟩ => !ds.isEmpty && Declarator.allPrintable ds

def ForInit.isPrintable : Option ForInit → Bool
  | none => true
  | some (.decl d) => d.isPrintable
  | some (.expr e) => e.isPrintable

def CatchClause.isPrintable : Option CatchClause → Bool
  | none => true
  | some ⟨param, body⟩ => param.all Pattern.isPrintable && Stmt.allPrintable body

def Stmt.optionPrintable : Option Stmt → Bool
  | none => true
  | some s => s.isPrintable

def Stmt.finalPrintable : Option (List Stmt) → Bool
  | none => true
  | some body => Stmt.allPrintable body

def Stmt.allPrintable : List Stmt → Bool
  | [] => true
  | s :: ss => s.isPrintable && Stmt.allPrintable ss

def Stmt.isPrintable : Stmt → Bool
  | .expr _ e => e.isPrintable
  | .decl d => d.isPrintable
  | .function _ f => f.name.isSome && f.isPrintable
  | .return_ _ e => Expr.optionPrintable e
  | .if_ _ test yes no =>
    test.isPrintable && yes.isPrintable && Stmt.optionPrintable no && !(no.isSome && yes.endsOpen)
  | .for_ _ init test update body =>
    ForInit.isPrintable init && Expr.optionPrintable test && Expr.optionPrintable update
      && body.isPrintable
  | .forEach _ _ _ pattern source body => pattern.isPrintable && source.isPrintable && body.isPrintable
  | .while_ _ test body => test.isPrintable && body.isPrintable
  | .break_ _ label => label.all isName
  | .continue_ _ label => label.all isName
  | .labeled _ label body => isName label && body.isPrintable
  | .throw_ _ e => e.isPrintable
  | .try_ _ body handler finalizer =>
    Stmt.allPrintable body && CatchClause.isPrintable handler && Stmt.finalPrintable finalizer
      && !(handler.isNone && finalizer.isNone)
  | .block _ body => Stmt.allPrintable body
  | .empty _ => true

end

@[simp] theorem Expr.isPrintable_ident (s : Span) (n : String) : (Expr.ident s n).isPrintable = isName n := by
  rw [Expr.isPrintable]

@[simp] theorem Stmt.isPrintable_function (s : Span) (f : Func) :
    (Stmt.function s f).isPrintable = (f.name.isSome && f.isPrintable) := by
  rw [Stmt.isPrintable]

/-! ### Names that patterns bind -/

mutual

/-- A printable pattern binds names only. -/
theorem Pattern.isName_of_mem : (p : Pattern) → p.isPrintable = true → ∀ n ∈ p.names, isName n = true
  | .name n, h => by simpa [Pattern.names, Pattern.isPrintable] using h
  | .array items, h => Pattern.isName_of_mem_items items h
  | .object props, h => Pattern.isName_of_mem_props props h

theorem Pattern.isName_of_mem_items : (ps : List Pattern) → Pattern.itemsPrintable ps = true →
    ∀ n ∈ Pattern.namesOfItems ps, isName n = true
  | [], _ => by simp [Pattern.namesOfItems]
  | p :: ps, h => by
    simp only [Pattern.itemsPrintable, Bool.and_eq_true] at h
    simp only [Pattern.namesOfItems, List.forall_mem_append]
    exact ⟨Pattern.isName_of_mem p h.1, Pattern.isName_of_mem_items ps h.2⟩

theorem Pattern.isName_of_mem_props : (ps : List PatternProperty) → Pattern.propsPrintable ps = true →
    ∀ n ∈ Pattern.namesOfProps ps, isName n = true
  | [], _ => by simp [Pattern.namesOfProps]
  | ⟨key, p⟩ :: ps, h => by
    simp only [Pattern.propsPrintable, Bool.and_eq_true] at h
    simp only [Pattern.namesOfProps, List.forall_mem_append]
    exact ⟨Pattern.isName_of_mem p h.1.2, Pattern.isName_of_mem_props ps h.2⟩

end

end Staging
