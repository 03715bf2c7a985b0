import Staging.Proofs.Source.SameText

/-!
Trees in the form in which they are read back.

`Stmt.tidy` and its companions put one span in every place, and braces around a statement that would take
the `else` after it. The text stays the same (`Stmt.same_tidy`), because printing writes these braces
anyway, and spans play no part in it.
-/

namespace Staging

mutual

def Expr.tidy : Expr → Expr
  | .literal _ v => .literal nowhere v.bare
  | .ident _ n => .ident nowhere n
  | .array _ items => .array nowhere (Expr.tidyAll items)
  | .object _ props => .object nowhere (Property.tidyAll props)
  | .function _ f => .function nowhere f.tidy
  | .unary _ op e => .unary nowhere op e.tidy
  | .update _ op before e => .update nowhere op before e.tidy
  | .binary _ op a b => .binary nowhere op a.tidy b.tidy
  | .assign _ op a b => .assign nowhere op a.tidy b.tidy
  | .cond _ a b c => .cond nowhere a.tidy b.tidy c.tidy
  | .member _ o k optional => .member nowhere o.tidy k.tidy optional
  | .call _ c args optional => .call nowhere c.tidy (Expr.tidyAll args) optional
  | .new _ c args => .new nowhere c.tidy (Expr.tidyAll args)

def Key.tidy : Key → Key
  | .named n => .named n
  | .computed e => .computed e.tidy

def Expr.tidyAll : List Expr → List Expr
  | [] => []
  | e :: es => e.tidy :: Expr.tidyAll es

def Property.tidyAll : List Property → List Property
  | [] => []
  | ⟨k, v⟩ :: ps => ⟨k.tidy, v.tidy⟩ :: Property.tidyAll ps

def Expr.tidyOption : Option Expr → Option Expr
  | none => none
  | some e => some e.tidy

def Param.tidyAll : List Param → List Param
  | [] => []
  | ⟨_, pattern, default, rest⟩ :: ps =>
    ⟨nowhere, pattern, Expr.tidyOption default, rest⟩ :: Param.tidyAll ps

def FuncBody.tidy : FuncBody → FuncBody
  | .block body => .block (Stmt.tidyAll body)
  | .expr e => .expr e.tidy

def Func.tidy : Func → Func
  | ⟨name, params, body, isArrow⟩ => ⟨name, Param.tidyAll params, body.tidy, isArrow⟩

def Declarator.tidyAll : List Declarator → List Declarator
  | [] => []
  | ⟨pattern, init⟩ :: ds => ⟨pattern, Expr.tidyOption init⟩ :: Declarator.tidyAll ds

def VarDecl.tidy : VarDecl → VarDecl
  | ⟨_, kind, ds⟩ => ⟨nowhere, kind, Declarator.tidyAll ds⟩

def ForInit.tidyOption : Option ForInit → Option ForInit
  | none => none
  | some (.decl d) => some (.decl d.tidy)
  | some (.expr e) => some (.expr e.tidy)

def CatchClause.tidyOption : Option CatchClause → Option CatchClause
  | none => none
  | some ⟨param, body⟩ => some ⟨param, Stmt.tidyAll body⟩

def Stmt.tidyFinal : Option (List Stmt) → Option (List Stmt)
  | none => none
  | some body => some (Stmt.tidyAll body)

def Stmt.tidyAll : List Stmt → List Stmt
  | [] => []
  | s :: ss => s.tidy :: Stmt.tidyAll ss

def Stmt.tidy : Stmt → Stmt
  | .expr _ e => .expr nowhere e.tidy
  | .decl d => .decl d.tidy
  | .function _ f => .function nowhere f.tidy
  | .return_ _ e => .return_ nowhere (Expr.tidyOption e)
  | .if_ _ test yes none => .if_ nowhere test.tidy yes.tidy none
  | .if_ _ test yes (some no) =>
    .if_ nowhere test.tidy (if yes.endsOpen then .block nowhere [yes.tidy] else yes.tidy) (some no.tidy)
  | .for_ _ init test update body =>
    .for_ nowhere (ForInit.tidyOption init) (Expr.tidyOption test) (Expr.tidyOption update) body.tidy
  | .forEach _ kind decl pattern source body =>
    .forEach nowhere kind decl pattern source.tidy body.tidy
  | .while_ _ test body => .while_ nowhere test.tidy body.tidy
  | .break_ _ label => .break_ nowhere label
  | .continue_ _ label => .continue_ nowhere label
  | .labeled _ label body => .labeled nowhere label body.tidy
  | .throw_ _ e => .throw_ nowhere e.tidy
  | .try_ _ body handler finalizer =>
    .try_ nowhere (Stmt.tidyAll body) (CatchClause.tidyOption handler) (Stmt.tidyFinal finalizer)
  | .block _ body => .block nowhere (Stmt.tidyAll body)
  | .empty _ => .empty nowhere

end

@[simp] theorem Expr.tidy_ident (s : Span) (n : String) : (Expr.ident s n).tidy = .ident nowhere n := by
  rw [Expr.tidy]

@[simp] theorem Stmt.tidy_expr (s : Span) (e : Expr) : (Stmt.expr s e).tidy = .expr nowhere e.tidy := by
  rw [Stmt.tidy]

/-! ### The text stays the same -/

mutual

theorem Expr.same_tidy : ∀ e : Expr, e.Same e.tidy
  | .literal s v => v.same_bare s nowhere
  | .ident _ _ => by constructor <;> rfl
  | .array _ items => .array (Expr.texts_tidyAll items)
  | .object _ props => .object (Property.texts_tidyAll props)
  | .function _ ⟨_, params, body, _⟩ =>
    .function (render_func_eq (Param.texts_tidyAll params) (FuncBody.same_tidy body)) rfl
  | .unary _ op e => .unary op (Expr.same_tidy e)
  | .update _ op before e => .update op before (Expr.same_tidy e)
  | .binary _ op a b => .binary op (Expr.same_tidy a) (Expr.same_tidy b)
  | .assign _ op a b => .assign op (Expr.same_tidy a) (Expr.same_tidy b)
  | .cond _ a b c => .cond (Expr.same_tidy a) (Expr.same_tidy b) (Expr.same_tidy c)
  | .member _ o k optional => .member optional (Expr.same_tidy o) (Key.text_tidy optional k)
  | .call _ c args optional => .call optional (Expr.same_tidy c) (Expr.texts_tidyAll args)
  | .new _ c args => .new (Expr.same_tidy c) (Expr.texts_tidyAll args)

theorem Key.text_tidy (optional : Bool) : ∀ k : Key, render (k.tidy.layout optional) = render (k.layout optional)
  | .named _ => rfl
  | .computed e => render_key_eq optional (Expr.same_tidy e)

theorem Expr.texts_tidyAll : ∀ es : List Expr, itemTexts (Expr.tidyAll es) = itemTexts es
  | [] => rfl
  | e :: es => by
    have rest := Expr.texts_tidyAll es
    simp only [itemTexts, Expr.tidyAll, List.map_cons, (Expr.same_tidy e).place] at rest ⊢
    rw [rest]

theorem Property.texts_tidyAll : ∀ ps : List Property,
    (Property.tidyAll ps).map (fun q => render q.layout) = ps.map fun q => render q.layout
  | [] => rfl
  | ⟨.named n, v⟩ :: ps => by
    simp only [Property.tidyAll, Key.tidy, List.map_cons, render_property_eq (Expr.same_tidy v),
      Property.texts_tidyAll ps]
  | ⟨.computed k, v⟩ :: ps => by
    simp only [Property.tidyAll, Key.tidy, List.map_cons,
      render_computedProperty_eq (Expr.same_tidy k) (Expr.same_tidy v), Property.texts_tidyAll ps]

theorem Expr.text_tidyOption : ∀ e : Option Expr, optionText (Expr.tidyOption e) = optionText e
  | none => rfl
  | some e => by simp [optionText, Expr.tidyOption, (Expr.same_tidy e).place]

theorem Expr.clause_tidyOption : ∀ e : Option Expr, clauseText (Expr.tidyOption e) = clauseText e
  | none => rfl
  | some e => by simp [clauseText, Expr.tidyOption, (Expr.same_tidy e).place]

theorem Param.texts_tidyAll : ∀ ps : List Param,
    (Param.tidyAll ps).map (fun q => render q.layout) = ps.map fun q => render q.layout
  | [] => rfl
  | ⟨_, _, default, _⟩ :: ps => by
    simp only [Param.tidyAll, List.map_cons, Param.texts_tidyAll ps]
    rw [render_param_eq (Expr.text_tidyOption default)]

theorem FuncBody.same_tidy : ∀ b : FuncBody, b.Same b.tidy
  | .block body => .block (Stmt.texts_tidyAll body)
  | .expr e => .expr (Expr.same_tidy e)

theorem Declarator.texts_tidyAll : ∀ ds : List Declarator,
    (Declarator.tidyAll ds).map (fun d => render d.layout) = ds.map fun d => render d.layout
  | [] => rfl
  | ⟨_, init⟩ :: ds => by
    simp only [Declarator.tidyAll, List.map_cons, Declarator.texts_tidyAll ds]
    rw [render_declarator_eq (Expr.text_tidyOption init)]

theorem VarDecl.text_tidy : ∀ d : VarDecl, render d.tidy.layout = render d.layout
  | ⟨_, _, ds⟩ => render_varDecl_eq (Declarator.texts_tidyAll ds)

theorem ForInit.same_tidy : ∀ i : Option ForInit, ForInit.Same i (ForInit.tidyOption i)
  | none => .none
  | some (.decl d) => .decl (VarDecl.text_tidy d)
  | some (.expr e) => .expr (Expr.same_tidy e)

theorem CatchClause.same_tidy : ∀ c : Option CatchClause, CatchClause.Same c (CatchClause.tidyOption c)
  | none => .none
  | some ⟨_, body⟩ => .some (Stmt.texts_tidyAll body)

theorem Stmt.texts_tidyFinal : ∀ f : Option (List Stmt), (Stmt.tidyFinal f).map stmtTexts = f.map stmtTexts
  | none => rfl
  | some body => congrArg some (Stmt.texts_tidyAll body)

theorem Stmt.texts_tidyAll : ∀ ss : List Stmt, stmtTexts (Stmt.tidyAll ss) = stmtTexts ss
  | [] => rfl
  | s :: ss => by
    have rest := Stmt.texts_tidyAll ss
    simp only [stmtTexts, Stmt.tidyAll, List.map_cons, (Stmt.same_tidy s).place] at rest ⊢
    rw [rest]

theorem Stmt.same_tidy : ∀ s : Stmt, s.Same s.tidy
  | .expr _ e => .expr (Expr.same_tidy e)
  | .decl d => .decl (VarDecl.text_tidy d)
  | .function _ ⟨_, params, body, _⟩ =>
    .function (render_func_eq (Param.texts_tidyAll params) (FuncBody.same_tidy body))
  | .return_ _ none => .returnNothing
  | .return_ _ (some e) => .return_ (Expr.same_tidy e)
  | .if_ _ test yes none => .if_ (Expr.same_tidy test) (Stmt.same_tidy yes)
  | .if_ _ test yes (some no) => by
    rw [Stmt.tidy]
    split
    · exact .ifOpen (Expr.same_tidy test) (Stmt.same_tidy yes) ‹_› (Stmt.same_tidy no)
    · exact .ifElse (Expr.same_tidy test) (Stmt.same_tidy yes) (Stmt.same_tidy no)
  | .for_ _ init test update body =>
    .for_ (ForInit.same_tidy init) (Expr.clause_tidyOption test) (Expr.clause_tidyOption update)
      (Stmt.same_tidy body)
  | .forEach _ _ _ _ source body => .forEach (Expr.same_tidy source) (Stmt.same_tidy body)
  | .while_ _ test body => .while_ (Expr.same_tidy test) (Stmt.same_tidy body)
  | .break_ _ _ | .continue_ _ _ | .empty _ => ⟨rfl, rfl⟩
  | .labeled _ _ body => .labeled (Stmt.same_tidy body)
  | .throw_ _ e => .throw_ (Expr.same_tidy e)
  | .try_ _ body handler finalizer =>
    .try_ (Stmt.texts_tidyAll body) (CatchClause.same_tidy handler) (Stmt.texts_tidyFinal finalizer)
  | .block _ body => .block (Stmt.texts_tidyAll body)

end

/-! ### Spans make no difference -/

theorem Literal.bare_bare (v : Literal) : v.bare.bare = v.bare := by
  cases v with
  | number x =>
    simp only [Literal.bare]
    by_cases zero : (x == 0.0) = true
    · simp [zero]
    · simp [zero]
  | _ => rfl

theorem Stmt.endsOpen_bare : ∀ s : Stmt, s.bare.endsOpen = s.endsOpen
  | .if_ _ _ _ none => rfl
  | .if_ _ _ _ (some no) => Stmt.endsOpen_bare no
  | .for_ _ _ _ _ body => Stmt.endsOpen_bare body
  | .forEach _ _ _ _ _ body => Stmt.endsOpen_bare body
  | .while_ _ _ body => Stmt.endsOpen_bare body
  | .labeled _ _ body => Stmt.endsOpen_bare body
  | .expr .. | .decl .. | .function .. | .return_ .. | .break_ .. | .continue_ .. | .throw_ .. | .try_ ..
  | .block .. | .empty .. => rfl

mutual

theorem Expr.tidy_bare : ∀ e : Expr, e.bare.tidy = e.tidy
  | .literal _ v => by simp [Expr.bare, Expr.tidy, v.bare_bare]
  | .ident _ _ => rfl
  | .array _ items => by rw [Expr.bare, Expr.tidy, Expr.tidy, Expr.tidyAll_bare items]
  | .object _ props => by rw [Expr.bare, Expr.tidy, Expr.tidy, Property.tidyAll_bare props]
  | .function _ ⟨_, params, body, _⟩ => by
    simp only [Expr.bare, Func.bare, Expr.tidy, Func.tidy, Param.tidyAll_bare params, FuncBody.tidy_bare body]
  | .unary _ _ e => by simp only [Expr.bare, Expr.tidy, Expr.tidy_bare e]
  | .update _ _ _ e => by simp only [Expr.bare, Expr.tidy, Expr.tidy_bare e]
  | .binary _ _ a b => by simp only [Expr.bare, Expr.tidy, Expr.tidy_bare a, Expr.tidy_bare b]
  | .assign _ _ a b => by simp only [Expr.bare, Expr.tidy, Expr.tidy_bare a, Expr.tidy_bare b]
  | .cond _ a b c => by
    simp only [Expr.bare, Expr.tidy, Expr.tidy_bare a, Expr.tidy_bare b, Expr.tidy_bare c]
  | .member _ o k _ => by simp only [Expr.bare, Expr.tidy, Expr.tidy_bare o, Key.tidy_bare k]
  | .call _ c args _ => by rw [Expr.bare, Expr.tidy, Expr.tidy, Expr.tidy_bare c, Expr.tidyAll_bare args]
  | .new _ c args => by rw [Expr.bare, Expr.tidy, Expr.tidy, Expr.tidy_bare c, Expr.tidyAll_bare args]

theorem Key.tidy_bare : ∀ k : Key, k.bare.tidy = k.tidy
  | .named _ => rfl
  | .computed e => by simp only [Key.bare, Key.tidy, Expr.tidy_bare e]

theorem Expr.tidyAll_bare : ∀ es : List Expr, Expr.tidyAll (Expr.bareAll es) = Expr.tidyAll es
  | [] => rfl
  | e :: es => by simp only [Expr.bareAll, Expr.tidyAll, Expr.tidy_bare e, Expr.tidyAll_bare es]

theorem Property.tidyAll_bare : ∀ ps : List Property, Property.tidyAll (Property.bareAll ps) = Property.tidyAll ps
  | [] => rfl
  | ⟨k, v⟩ :: ps => by
    simp only [Property.bareAll, Property.tidyAll, Key.tidy_bare k, Expr.tidy_bare v, Property.tidyAll_bare ps]

theorem Expr.tidyOption_bare : ∀ e : Option Expr, Expr.tidyOption (Expr.bareOption e) = Expr.tidyOption e
  | none => rfl
  | some e => by simp only [Expr.bareOption, Expr.tidyOption, Expr.tidy_bare e]

theorem Param.tidyAll_bare : ∀ ps : List Param, Param.tidyAll (Param.bareAll ps) = Param.tidyAll ps
  | [] => rfl
  | ⟨_, _, default, _⟩ :: ps => by
    simp only [Param.bareAll, Param.tidyAll, Expr.tidyOption_bare default, Param.tidyAll_bare ps]

theorem FuncBody.tidy_bare : ∀ b : FuncBody, b.bare.tidy = b.tidy
  | .block body => by rw [FuncBody.bare, FuncBody.tidy, FuncBody.tidy, Stmt.tidyAll_bare body]
  | .expr e => by simp only [FuncBody.bare, FuncBody.tidy, Expr.tidy_bare e]

theorem Declarator.tidyAll_bare : ∀ ds : List Declarator,
    Declarator.tidyAll (Declarator.bareAll ds) = Declarator.tidyAll ds
  | [] => rfl
  | ⟨_, init⟩ :: ds => by
    simp only [Declarator.bareAll, Declarator.tidyAll, Expr.tidyOption_bare init, Declarator.tidyAll_bare ds]

theorem VarDecl.tidy_bare : ∀ d : VarDecl, d.bare.tidy = d.tidy
  | ⟨_, _, ds⟩ => by rw [VarDecl.bare, VarDecl.tidy, VarDecl.tidy, Declarator.tidyAll_bare ds]

theorem ForInit.tidyOption_bare : ∀ i : Option ForInit,
    ForInit.tidyOption (ForInit.bareOption i) = ForInit.tidyOption i
  | none => rfl
  | some (.decl d) => by simp only [ForInit.bareOption, ForInit.tidyOption, VarDecl.tidy_bare d]
  | some (.expr e) => by simp only [ForInit.bareOption, ForInit.tidyOption, Expr.tidy_bare e]

theorem CatchClause.tidyOption_bare : ∀ c : Option CatchClause,
    CatchClause.tidyOption (CatchClause.bareOption c) = CatchClause.tidyOption c
  | none => rfl
  | some ⟨_, body⟩ => by
    rw [CatchClause.bareOption, CatchClause.tidyOption, CatchClause.tidyOption, Stmt.tidyAll_bare body]

theorem Stmt.tidyFinal_bare : ∀ f : Option (List Stmt), Stmt.tidyFinal (Stmt.bareFinal f) = Stmt.tidyFinal f
  | none => rfl
  | some body => by rw [Stmt.bareFinal, Stmt.tidyFinal, Stmt.tidyFinal, Stmt.tidyAll_bare body]

theorem Stmt.tidyAll_bare : ∀ ss : List Stmt, Stmt.tidyAll (Stmt.bareAll ss) = Stmt.tidyAll ss
  | [] => rfl
  | s :: ss => by simp only [Stmt.bareAll, Stmt.tidyAll, Stmt.tidy_bare s, Stmt.tidyAll_bare ss]

theorem Stmt.tidy_bare : ∀ s : Stmt, s.bare.tidy = s.tidy
  | .expr _ e => by simp [Expr.tidy_bare e]
  | .decl d => by simp only [Stmt.bare, Stmt.tidy, VarDecl.tidy_bare d]
  | .function _ ⟨_, params, body, _⟩ => by
    simp only [Stmt.bare, Func.bare, Stmt.tidy, Func.tidy, Param.tidyAll_bare params, FuncBody.tidy_bare body]
  | .return_ _ e => by simp only [Stmt.bare, Stmt.tidy, Expr.tidyOption_bare e]
  | .if_ _ test yes none => by
    simp only [Stmt.bare, Stmt.bareOption, Stmt.tidy, Expr.tidy_bare test, Stmt.tidy_bare yes]
  | .if_ _ test yes (some no) => by
    simp only [Stmt.bare, Stmt.bareOption, Stmt.tidy, Expr.tidy_bare test, Stmt.tidy_bare yes,
      Stmt.tidy_bare no, yes.endsOpen_bare]
  | .for_ _ init test update body => by
    simp only [Stmt.bare, Stmt.tidy, ForInit.tidyOption_bare init, Expr.tidyOption_bare test,
      Expr.tidyOption_bare update, Stmt.tidy_bare body]
  | .forEach _ _ _ _ source body => by
    simp only [Stmt.bare, Stmt.tidy, Expr.tidy_bare source, Stmt.tidy_bare body]
  | .while_ _ test body => by simp only [Stmt.bare, Stmt.tidy, Expr.tidy_bare test, Stmt.tidy_bare body]
  | .break_ _ _ | .continue_ _ _ | .empty _ => rfl
  | .labeled _ _ body => by simp only [Stmt.bare, Stmt.tidy, Stmt.tidy_bare body]
  | .throw_ _ e => by simp only [Stmt.bare, Stmt.tidy, Expr.tidy_bare e]
  | .try_ _ body handler finalizer => by
    rw [Stmt.bare, Stmt.tidy, Stmt.tidy, Stmt.tidyAll_bare body, CatchClause.tidyOption_bare handler,
      Stmt.tidyFinal_bare finalizer]
  | .block _ body => by rw [Stmt.bare, Stmt.tidy, Stmt.tidy, Stmt.tidyAll_bare body]

end

/-- The text of a program is that of the program it is read back as. -/
theorem programText_tidyAll (body : List Stmt) : programText (Stmt.tidyAll body) = programText body :=
  congrArg String.join (Stmt.texts_tidyAll body)

/-- Programs that differ in spans only have the same text. -/
theorem programText_eq_of_bare {body body' : List Stmt} (h : body'.map Stmt.bare = body.map Stmt.bare) :
    programText body' = programText body := by
  rw [← Stmt.bareAll_eq_map, ← Stmt.bareAll_eq_map] at h
  rw [← programText_tidyAll body', ← Stmt.tidyAll_bare body', h, Stmt.tidyAll_bare, programText_tidyAll]

end Staging
