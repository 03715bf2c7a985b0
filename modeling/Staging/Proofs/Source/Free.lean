import Staging.Proofs.Source.Gather

/-!
Names that occur free.

A function declares its parameters and what its body declares in one scope; blocks, loops and the parts of a `try` have
scopes of their own. An identifier occurs free in a part if it stands there outside of all scopes inside of the part that
declare its name (`Free`). Parentheses and the strength a place asks for make no difference (`Free.place`).

What is evaluated together with an expression is what stands in it outside of functions (`Expr.Within`). No scope is
opened on the way there, so a name that is free in it is free in the whole (`Expr.Within.hasFree`).
-/

namespace Staging

/-! ### What scopes declare -/

def VarDecl.names (d : VarDecl) : List String := d.declarators.flatMap (·.pattern.names)

/-- The names that a statement declares in the scope it stands in. -/
def Stmt.declares : Stmt → List String
  | decl d => d.names
  | function _ func => func.name.toList
  | if_ _ _ yes none => yes.declares
  | if_ _ _ yes (some no) => yes.declares ++ no.declares
  | while_ _ _ body | labeled _ _ body => body.declares
  | _ => []

/-- The names that statements in a row declare. -/
def declaredBy (body : List Stmt) : List String := body.flatMap Stmt.declares

def ForInit.names : ForInit → List String
  | decl d => d.names
  | expr _ => []

/-- The names in the scope of a function. That of the function itself is declared around it, if anywhere. -/
def Func.locals (f : Func) : List String :=
  f.params.flatMap (·.pattern.names) ++ match f.body with
    | .block body => declaredBy body
    | .expr _ => []

/-- The names that are declared in the scope of what stands in an expression. -/
def Expr.locals : Expr → List String
  | function _ func => func.locals
  | _ => []

/-- What stands in a statement, scope by scope: the names that are declared there, and the parts. -/
def Stmt.scopes : Stmt → List (List String × List Part)
  | block _ body => [(declaredBy body, body.map .stmt)]
  | for_ span init test update body =>
    [((init.elim [] ForInit.names) ++ body.declares, (for_ span init test update body).layout)]
  | forEach _ _ declKind pattern source body =>
    [([], [.expr source .assignment]),
      ((if declKind.isSome then pattern.names else []) ++ body.declares, [.stmt body])]
  | try_ _ body handler finalizer =>
    (declaredBy body, body.map .stmt) ::
      (handler.toList.map fun c => (c.param.elim [] Pattern.names ++ declaredBy c.body, c.body.map .stmt))
      ++ finalizer.toList.map fun body => (declaredBy body, body.map .stmt)
  | s => [([], s.layout)]

/-! ### Free names -/

/-- The name stands in the part as an identifier, where no scope inside of the part declares it. -/
inductive Free (n : String) : Part → Prop
  | ident {span : Span} {min : Precedence} : Free n (.expr (.ident span n) min)
  | expr {e : Expr} {min : Precedence} {p : Part} (outside : n ∉ e.locals) (part : p ∈ e.inner) (h : Free n p) :
      Free n (.expr e min)
  | stmt {s : Stmt} {names : List String} {parts : List Part} {p : Part} (scope : (names, parts) ∈ s.scopes)
      (outside : n ∉ names) (part : p ∈ parts) (h : Free n p) : Free n (.stmt s)

/-- The name occurs free in the expression. -/
def Expr.HasFree (e : Expr) (n : String) : Prop := Free n (.expr e .lowest)

theorem Free.place {e : Expr} {m m' : Precedence} {n : String} (h : Free n (.expr e m)) : Free n (.expr e m') := by
  cases h with
  | ident => exact .ident
  | expr outside part h => exact .expr outside part h

/-- What stands in a scope of a statement stands in its layout. -/
theorem Stmt.mem_layout_of_scopes {s : Stmt} {names : List String} {parts : List Part} {p : Part}
    (scope : (names, parts) ∈ s.scopes) (part : p ∈ parts) : p ∈ s.layout := by
  have inBlock : ∀ body : List Stmt, p ∈ body.map .stmt → p ∈ blockLayout body := fun body inside =>
    List.mem_cons_of_mem _ (List.mem_append_left _ inside)
  cases s with
  | block span body =>
    cases List.mem_singleton.1 scope
    exact inBlock body part
  | for_ span init test update body =>
    cases List.mem_singleton.1 scope
    exact part
  | forEach span kind declKind pattern source body =>
    simp only [scopes, List.mem_cons, Prod.mk.injEq, List.not_mem_nil, or_false] at scope
    rcases scope with ⟨_, rfl⟩ | ⟨_, rfl⟩
    · simp [List.mem_singleton.1 part, layout]
    · simp [List.mem_singleton.1 part, layout]
  | try_ span body handler finalizer =>
    simp only [scopes, List.mem_cons, List.mem_append, List.mem_map, Option.mem_toList, Prod.mk.injEq] at scope
    simp only [layout, List.mem_cons, List.mem_append]
    rcases scope with (⟨_, rfl⟩ | ⟨⟨param, body⟩, rfl, _, rfl⟩) | ⟨body, rfl, _, rfl⟩
    · exact .inl (.inl (.inr (inBlock body part)))
    · cases param with
      | none => exact .inl (.inr (List.mem_cons_of_mem _ (inBlock body part)))
      | some p =>
        refine .inl (.inr ?_)
        exact List.mem_cons_of_mem _ (List.mem_cons_of_mem _ (List.mem_cons_of_mem _ (inBlock body part)))
    · exact .inr (List.mem_cons_of_mem _ (inBlock body part))
  | _ =>
    cases List.mem_singleton.1 scope
    exact part

theorem Free.mem_identsIn {n : String} {p : Part} (h : Free n p) : n ∈ identsIn p := by
  induction h with
  | ident =>
    rw [identsIn, gather_expr]
    exact List.mem_append_left _ List.mem_cons_self
  | expr _ part _ ih => exact mem_gather_of_inner part ih
  | stmt scope _ part _ ih => exact mem_gather_of_stmt (Stmt.mem_layout_of_scopes scope part) ih

/-! ### What is evaluated with an expression -/

def Key.children : Key → List Expr
  | named _ => []
  | computed e => [e]

/-- The expressions that stand directly in an expression. What stands in a function is not evaluated with it. -/
def Expr.children : Expr → List Expr
  | literal _ _ | ident _ _ | function _ _ => []
  | array _ items => items
  | object _ props => props.flatMap fun p => p.key.children ++ [p.value]
  | unary _ _ operand => [operand]
  | update _ _ _ target => [target]
  | binary _ _ left right => [left, right]
  | assign _ _ target value => [target, value]
  | cond _ test yes no => [test, yes, no]
  | member _ inner key _ => inner :: key.children
  | call _ callee args _ | new _ callee args => callee :: args

/-- A function is called. -/
def Expr.isCall : Expr → Bool
  | call _ _ _ _ | new _ _ _ => true
  | _ => false

/-- The expression stands in the other one, outside of functions. -/
inductive Expr.Within (x : Expr) : Expr → Prop
  | self : Within x x
  | inside {p e : Expr} (child : p ∈ e.children) (h : Within x p) : Within x e

theorem mem_separate_of_mem {sep : String} {g : List Part} {p : Part} (part : p ∈ g) :
    ∀ {groups : List (List Part)}, g ∈ groups → p ∈ separate sep groups
  | [g'], inside => by
    obtain rfl := List.mem_singleton.1 inside
    exact part
  | g' :: g'' :: rest, inside => by
    simp only [separate, List.mem_append, List.mem_cons]
    rcases List.mem_cons.1 inside with rfl | inside
    · exact .inl part
    · exact .inr (.inr (mem_separate_of_mem part inside))

/-- What stands directly in an expression is a part of it. -/
theorem Expr.exists_mem_inner {part e : Expr} (child : part ∈ e.children) : ∃ m, Part.expr part m ∈ e.inner := by
  have inArgs : ∀ args : List Expr, part ∈ args → Part.expr part .assignment ∈ argsLayout args := by
    intro args inside
    refine List.mem_cons_of_mem _ (List.mem_append_left _ ?_)
    exact mem_separate_of_mem List.mem_cons_self (List.mem_map_of_mem inside)
  cases e with
  | literal | ident | function => exact absurd child List.not_mem_nil
  | array span items =>
    refine ⟨.assignment, List.mem_append_left _ (List.mem_cons_of_mem _ ?_)⟩
    exact mem_separate_of_mem List.mem_cons_self (List.mem_map_of_mem child)
  | object span props =>
    obtain ⟨⟨key, value⟩, property, inside⟩ := List.mem_flatMap.1 child
    refine ⟨.assignment, List.mem_append_left _ (List.mem_cons_of_mem _ ?_)⟩
    refine mem_separate_of_mem ?_ (List.mem_map_of_mem property)
    cases key with
    | named name =>
      obtain rfl := List.mem_singleton.1 inside
      simp [Property.layout]
    | computed k =>
      simp only [Key.children, List.cons_append, List.nil_append, List.mem_cons, List.not_mem_nil, or_false] at inside
      rcases inside with rfl | rfl
      · simp [Property.layout]
      · simp [Property.layout]
  | unary span op operand =>
    obtain rfl := List.mem_singleton.1 child
    exact ⟨.unary, by simp [Expr.inner]⟩
  | update span op before target =>
    obtain rfl := List.mem_singleton.1 child
    cases before with
    | true => exact ⟨.unary, by simp [Expr.inner]⟩
    | false => exact ⟨.call, by simp [Expr.inner]⟩
  | binary span op left right =>
    simp only [children, List.mem_cons, List.not_mem_nil, or_false] at child
    rcases child with rfl | rfl
    · exact ⟨_, List.mem_cons_self⟩
    · exact ⟨_, List.mem_cons_of_mem _ (List.mem_cons_of_mem _ List.mem_cons_self)⟩
  | assign span op target value =>
    simp only [children, List.mem_cons, List.not_mem_nil, or_false] at child
    rcases child with rfl | rfl
    · exact ⟨_, List.mem_cons_self⟩
    · exact ⟨_, List.mem_cons_of_mem _ (List.mem_cons_of_mem _ List.mem_cons_self)⟩
  | cond span test yes no =>
    simp only [children, List.mem_cons, List.not_mem_nil, or_false] at child
    rcases child with rfl | rfl | rfl
    · exact ⟨.nullish, by simp [Expr.inner]⟩
    · exact ⟨.assignment, by simp [Expr.inner]⟩
    · exact ⟨.assignment, by simp [Expr.inner]⟩
  | member span object key optional =>
    rcases List.mem_cons.1 child with rfl | inKey
    · by_cases number : part.isNumber = true
      · exact ⟨.lowest, List.mem_append_left _ (by simp [number, parenthesized])⟩
      · exact ⟨.call, List.mem_append_left _ (by simp [number])⟩
    · cases key with
      | named name => exact absurd inKey List.not_mem_nil
      | computed k =>
        obtain rfl := List.mem_singleton.1 inKey
        exact ⟨.lowest, List.mem_append_right _ (by simp [Key.layout])⟩
  | call span callee args optional =>
    rcases List.mem_cons.1 child with rfl | inside
    · exact ⟨.call, List.mem_cons_self⟩
    · exact ⟨.assignment, List.mem_cons_of_mem _ (List.mem_cons_of_mem _ (inArgs args inside))⟩
  | new span callee args =>
    rcases List.mem_cons.1 child with rfl | inside
    · by_cases call : part.containsCall = true
      · exact ⟨.lowest, List.mem_append_left _ (by simp [call, parenthesized])⟩
      · exact ⟨.call, List.mem_append_left _ (by simp [call])⟩
    · exact ⟨.assignment, List.mem_append_right _ (inArgs args inside)⟩

/-- Only functions declare names for what stands in them. -/
theorem Expr.locals_of_children {part e : Expr} (child : part ∈ e.children) : e.locals = [] := by
  cases e with
  | function => exact absurd child List.not_mem_nil
  | _ => rfl

/-- **What is free in an expression that is evaluated with another one is free there.** -/
theorem Expr.Within.hasFree {x e : Expr} (h : x.Within e) {n : String} (free : x.HasFree n) : e.HasFree n := by
  induction h with
  | self => exact free
  | inside child _ ih =>
    obtain ⟨m, part⟩ := Expr.exists_mem_inner child
    exact .expr (by simp [Expr.locals_of_children child]) part ih.place

end Staging
