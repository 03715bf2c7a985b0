import Mathlib.Logic.Basic
import Staging.Proofs.Source.Bare

/-!
Jumps that have a target.

Within its function, a `break` or `continue` without label has to stand in the body of a loop, `break l` in a statement
with the label `l`, and `continue l` in the body of a loop that carries the label `l`: the label stands before the loop,
with other labels between them at most. `Stmt.jumpsScoped` says that all jumps in a statement do, those in the functions
inside it included, given what is around the statement. It does not depend on spans (`Stmt.allJumpsScoped_of_bare_eq`).
-/

namespace Staging

/-- What is around a statement within its function. -/
structure JumpScope where
  /-- The statement stands in the body of a loop. -/
  inLoop : Bool := false
  /-- The labels of the statements around it. -/
  labels : List String := []
  /-- The labels that the loops around it carry. -/
  loops : List String := []
deriving DecidableEq, Repr

namespace JumpScope

/-- Inside a statement that carries the given labels. -/
def labeled (sc : JumpScope) (own : List String) : JumpScope := { sc with labels := own ++ sc.labels }

/-- In the body of a loop that carries the given labels. -/
def loop (sc : JumpScope) (own : List String) : JumpScope := ⟨true, own ++ sc.labels, own ++ sc.loops⟩

/-- Whether a `break` has a target. -/
def canBreak (sc : JumpScope) : Option String → Bool
  | none => sc.inLoop
  | some label => sc.labels.contains label

/-- Whether a `continue` has a target. -/
def canContinue (sc : JumpScope) : Option String → Bool
  | none => sc.inLoop
  | some label => sc.loops.contains label

end JumpScope

mutual

/-- Whether the jumps in the functions of an expression have targets. -/
def Expr.jumpsScoped : Expr → Bool
  | .literal _ _ => true
  | .ident _ _ => true
  | .array _ items => Expr.allJumpsScoped items
  | .object _ props => Property.allJumpsScoped props
  | .function _ f => f.jumpsScoped
  | .unary _ _ e => e.jumpsScoped
  | .update _ _ _ e => e.jumpsScoped
  | .binary _ _ a b => a.jumpsScoped && b.jumpsScoped
  | .assign _ _ a b => a.jumpsScoped && b.jumpsScoped
  | .cond _ a b c => a.jumpsScoped && b.jumpsScoped && c.jumpsScoped
  | .member _ o k _ => o.jumpsScoped && k.jumpsScoped
  | .call _ c args _ => c.jumpsScoped && Expr.allJumpsScoped args
  | .new _ c args => c.jumpsScoped && Expr.allJumpsScoped args

def Key.jumpsScoped : Key → Bool
  | .named _ => true
  | .computed e => e.jumpsScoped

def Expr.allJumpsScoped : List Expr → Bool
  | [] => true
  | e :: es => e.jumpsScoped && Expr.allJumpsScoped es

def Property.allJumpsScoped : List Property → Bool
  | [] => true
  | ⟨k, v⟩ :: ps => k.jumpsScoped && v.jumpsScoped && Property.allJumpsScoped ps

def Expr.optionJumpsScoped : Option Expr → Bool
  | none => true
  | some e => e.jumpsScoped

def Param.allJumpsScoped : List Param → Bool
  | [] => true
  | ⟨_, _, default, _⟩ :: ps => Expr.optionJumpsScoped default && Param.allJumpsScoped ps

/-- A function's body has nothing around it. -/
def FuncBody.jumpsScoped : FuncBody → Bool
  | .block body => Stmt.allJumpsScoped {} body
  | .expr e => e.jumpsScoped

def Func.jumpsScoped : Func → Bool
  | ⟨_, params, body, _⟩ => Param.allJumpsScoped params && body.jumpsScoped

def Declarator.allJumpsScoped : List Declarator → Bool
  | [] => true
  | ⟨_, init⟩ :: ds => Expr.optionJumpsScoped init && Declarator.allJumpsScoped ds

def VarDecl.jumpsScoped : VarDecl → Bool
  | ⟨_, _, ds⟩ => Declarator.allJumpsScoped ds

def ForInit.jumpsScoped : Option ForInit → Bool
  | none => true
  | some (.decl d) => d.jumpsScoped
  | some (.expr e) => e.jumpsScoped

def CatchClause.jumpsScoped (sc : JumpScope) : Option CatchClause → Bool
  | none => true
  | some ⟨_, body⟩ => Stmt.allJumpsScoped sc body

def Stmt.optionJumpsScoped (sc : JumpScope) : Option Stmt → Bool
  | none => true
  | some s => s.jumpsScoped sc []

def Stmt.finalJumpsScoped (sc : JumpScope) : Option (List Stmt) → Bool
  | none => true
  | some body => Stmt.allJumpsScoped sc body

def Stmt.allJumpsScoped (sc : JumpScope) : List Stmt → Bool
  | [] => true
  | s :: ss => s.jumpsScoped sc [] && Stmt.allJumpsScoped sc ss

/-- Whether the jumps in a statement have targets; `own` are the labels that stand directly before it. -/
def Stmt.jumpsScoped (sc : JumpScope) (own : List String) : Stmt → Bool
  | .labeled _ label body => body.jumpsScoped sc (own ++ [label])
  | .while_ _ test body => test.jumpsScoped && body.jumpsScoped (sc.loop own) []
  | .for_ _ init test update body =>
    ForInit.jumpsScoped init && Expr.optionJumpsScoped test && Expr.optionJumpsScoped update
      && body.jumpsScoped (sc.loop own) []
  | .forEach _ _ _ _ source body => source.jumpsScoped && body.jumpsScoped (sc.loop own) []
  | .break_ _ label => (sc.labeled own).canBreak label
  | .continue_ _ label => (sc.labeled own).canContinue label
  | .if_ _ test yes no =>
    test.jumpsScoped && yes.jumpsScoped (sc.labeled own) [] && Stmt.optionJumpsScoped (sc.labeled own) no
  | .try_ _ body handler finalizer =>
    Stmt.allJumpsScoped (sc.labeled own) body && CatchClause.jumpsScoped (sc.labeled own) handler
      && Stmt.finalJumpsScoped (sc.labeled own) finalizer
  | .block _ body => Stmt.allJumpsScoped (sc.labeled own) body
  | .expr _ e => e.jumpsScoped
  | .decl d => d.jumpsScoped
  | .function _ f => f.jumpsScoped
  | .return_ _ e => Expr.optionJumpsScoped e
  | .throw_ _ e => e.jumpsScoped
  | .empty _ => true

end

example : Stmt.jumpsScoped {} [] (.labeled ⟨0, 0⟩ "l" (.break_ ⟨0, 0⟩ (some "l"))) = true := by decide

/-! ### Spans do not matter -/

mutual

theorem Expr.jumpsScoped_bare : (e : Expr) → e.bare.jumpsScoped = e.jumpsScoped
  | .literal _ _ | .ident _ _ => rfl
  | .array _ items => Expr.allJumpsScoped_bare items
  | .object _ props => Property.allJumpsScoped_bare props
  | .function _ f => Func.jumpsScoped_bare f
  | .unary _ _ e | .update _ _ _ e => Expr.jumpsScoped_bare e
  | .binary _ _ a b | .assign _ _ a b => congrArg₂ and (Expr.jumpsScoped_bare a) (Expr.jumpsScoped_bare b)
  | .cond _ a b c =>
    congrArg₂ and (congrArg₂ and (Expr.jumpsScoped_bare a) (Expr.jumpsScoped_bare b)) (Expr.jumpsScoped_bare c)
  | .member _ o k _ => congrArg₂ and (Expr.jumpsScoped_bare o) (Key.jumpsScoped_bare k)
  | .call _ c args _ | .new _ c args => congrArg₂ and (Expr.jumpsScoped_bare c) (Expr.allJumpsScoped_bare args)

theorem Key.jumpsScoped_bare : (k : Key) → k.bare.jumpsScoped = k.jumpsScoped
  | .named _ => rfl
  | .computed e => Expr.jumpsScoped_bare e

theorem Expr.allJumpsScoped_bare : (es : List Expr) →
    Expr.allJumpsScoped (Expr.bareAll es) = Expr.allJumpsScoped es
  | [] => rfl
  | e :: es => congrArg₂ and (Expr.jumpsScoped_bare e) (Expr.allJumpsScoped_bare es)

theorem Property.allJumpsScoped_bare : (ps : List Property) →
    Property.allJumpsScoped (Property.bareAll ps) = Property.allJumpsScoped ps
  | [] => rfl
  | ⟨k, v⟩ :: ps => congrArg₂ and (congrArg₂ and (Key.jumpsScoped_bare k) (Expr.jumpsScoped_bare v))
      (Property.allJumpsScoped_bare ps)

theorem Expr.optionJumpsScoped_bare : (e : Option Expr) →
    Expr.optionJumpsScoped (Expr.bareOption e) = Expr.optionJumpsScoped e
  | none => rfl
  | some e => Expr.jumpsScoped_bare e

theorem Param.allJumpsScoped_bare : (ps : List Param) →
    Param.allJumpsScoped (Param.bareAll ps) = Param.allJumpsScoped ps
  | [] => rfl
  | ⟨_, _, default, _⟩ :: ps => congrArg₂ and (Expr.optionJumpsScoped_bare default) (Param.allJumpsScoped_bare ps)

theorem FuncBody.jumpsScoped_bare : (b : FuncBody) → b.bare.jumpsScoped = b.jumpsScoped
  | .block body => Stmt.allJumpsScoped_bare {} body
  | .expr e => Expr.jumpsScoped_bare e

theorem Func.jumpsScoped_bare : (f : Func) → f.bare.jumpsScoped = f.jumpsScoped
  | ⟨_, params, body, _⟩ => congrArg₂ and (Param.allJumpsScoped_bare params) (FuncBody.jumpsScoped_bare body)

theorem Declarator.allJumpsScoped_bare : (ds : List Declarator) →
    Declarator.allJumpsScoped (Declarator.bareAll ds) = Declarator.allJumpsScoped ds
  | [] => rfl
  | ⟨_, init⟩ :: ds => congrArg₂ and (Expr.optionJumpsScoped_bare init) (Declarator.allJumpsScoped_bare ds)

theorem VarDecl.jumpsScoped_bare : (d : VarDecl) → d.bare.jumpsScoped = d.jumpsScoped
  | ⟨_, _, ds⟩ => Declarator.allJumpsScoped_bare ds

theorem ForInit.jumpsScoped_bare : (init : Option ForInit) →
    ForInit.jumpsScoped (ForInit.bareOption init) = ForInit.jumpsScoped init
  | none => rfl
  | some (.decl d) => VarDecl.jumpsScoped_bare d
  | some (.expr e) => Expr.jumpsScoped_bare e

theorem CatchClause.jumpsScoped_bare (sc : JumpScope) : (c : Option CatchClause) →
    CatchClause.jumpsScoped sc (CatchClause.bareOption c) = CatchClause.jumpsScoped sc c
  | none => rfl
  | some ⟨_, body⟩ => Stmt.allJumpsScoped_bare sc body

theorem Stmt.optionJumpsScoped_bare (sc : JumpScope) : (s : Option Stmt) →
    Stmt.optionJumpsScoped sc (Stmt.bareOption s) = Stmt.optionJumpsScoped sc s
  | none => rfl
  | some s => Stmt.jumpsScoped_bare sc [] s

theorem Stmt.finalJumpsScoped_bare (sc : JumpScope) : (body : Option (List Stmt)) →
    Stmt.finalJumpsScoped sc (Stmt.bareFinal body) = Stmt.finalJumpsScoped sc body
  | none => rfl
  | some body => Stmt.allJumpsScoped_bare sc body

theorem Stmt.allJumpsScoped_bare (sc : JumpScope) : (ss : List Stmt) →
    Stmt.allJumpsScoped sc (Stmt.bareAll ss) = Stmt.allJumpsScoped sc ss
  | [] => rfl
  | s :: ss => congrArg₂ and (Stmt.jumpsScoped_bare sc [] s) (Stmt.allJumpsScoped_bare sc ss)

theorem Stmt.jumpsScoped_bare (sc : JumpScope) (own : List String) : (s : Stmt) →
    s.bare.jumpsScoped sc own = s.jumpsScoped sc own
  | .labeled _ label body => Stmt.jumpsScoped_bare sc (own ++ [label]) body
  | .while_ _ test body => congrArg₂ and (Expr.jumpsScoped_bare test) (Stmt.jumpsScoped_bare (sc.loop own) [] body)
  | .for_ _ init test update body =>
    congrArg₂ and (congrArg₂ and (congrArg₂ and (ForInit.jumpsScoped_bare init) (Expr.optionJumpsScoped_bare test))
      (Expr.optionJumpsScoped_bare update)) (Stmt.jumpsScoped_bare (sc.loop own) [] body)
  | .forEach _ _ _ _ source body =>
    congrArg₂ and (Expr.jumpsScoped_bare source) (Stmt.jumpsScoped_bare (sc.loop own) [] body)
  | .if_ _ test yes no =>
    congrArg₂ and (congrArg₂ and (Expr.jumpsScoped_bare test) (Stmt.jumpsScoped_bare (sc.labeled own) [] yes))
      (Stmt.optionJumpsScoped_bare (sc.labeled own) no)
  | .try_ _ body handler finalizer =>
    congrArg₂ and (congrArg₂ and (Stmt.allJumpsScoped_bare (sc.labeled own) body)
      (CatchClause.jumpsScoped_bare (sc.labeled own) handler)) (Stmt.finalJumpsScoped_bare (sc.labeled own) finalizer)
  | .block _ body => Stmt.allJumpsScoped_bare (sc.labeled own) body
  | .expr _ e | .throw_ _ e => Expr.jumpsScoped_bare e
  | .decl d => VarDecl.jumpsScoped_bare d
  | .function _ f => Func.jumpsScoped_bare f
  | .return_ _ e => Expr.optionJumpsScoped_bare e
  | .break_ _ _ | .continue_ _ _ | .empty _ => rfl

end

theorem Stmt.allJumpsScoped_of_bare_eq {sc : JumpScope} {ss ts : List Stmt} (h : ss.map Stmt.bare = ts.map Stmt.bare) :
    Stmt.allJumpsScoped sc ss = Stmt.allJumpsScoped sc ts := by
  rw [← Stmt.allJumpsScoped_bare sc ss, ← Stmt.allJumpsScoped_bare sc ts, Stmt.bareAll_eq_map, Stmt.bareAll_eq_map, h]

end Staging
