import Staging.Number.Shortest
import Staging.Source.Precedence
import Staging.Text.Quoted

/-!
The text of trees.

`Expr.layout` and `Stmt.layout` describe one level of the text: a list of fixed texts, of binding
patterns, and of places where a child stands, each expression place with the binding strength it asks
for. Printing fills every place with the child's own text; other walks over the same lists collect
names or put something else in a place. The text has no line ends and only the parentheses that are
needed. `weight_of_mem_layout` and `weight_of_mem_stmt` say that children are smaller, so walks over
layouts end.
-/

namespace Staging

/-- A part of a layout. -/
inductive Part where
  | text (s : String)
  | pattern (p : Pattern)
  | expr (e : Expr) (min : Precedence)
  | stmt (s : Stmt)

/-- The size of the tree that stands in a part. -/
noncomputable def Part.weight : Part → Nat
  | text _ | pattern _ => 0
  | expr e _ => sizeOf e
  | stmt s => sizeOf s

/-- Puts a text between neighbouring groups of parts. -/
def separate (sep : String) : List (List Part) → List Part
  | [] => []
  | [ps] => ps
  | ps :: rest => ps ++ .text sep :: separate sep rest

/-! ### Patterns and names -/

/-- A property name as it stands in an object: quoted unless it has the shape of a name. -/
def propertyName (name : String) : String :=
  if isNameShaped name then name else Text.Quoted.encode name

mutual

/-- The text of a pattern. -/
def Pattern.text : Pattern → String
  | name n => n
  | array items => "[" ++ ", ".intercalate (Pattern.itemTexts items) ++ "]"
  | object props => "\x7b" ++ ", ".intercalate (Pattern.propTexts props) ++ "\x7d"

def Pattern.itemTexts : List Pattern → List String
  | [] => []
  | p :: rest => p.text :: Pattern.itemTexts rest

def Pattern.propTexts : List PatternProperty → List String
  | [] => []
  | ⟨key, p⟩ :: rest => (propertyName key ++ ": " ++ p.text) :: Pattern.propTexts rest

end

def Literal.text : Literal → String
  | number x => Number.text x
  | string s => Text.Quoted.encode s
  | bool b => if b then "true" else "false"
  | null => "null"
  | undefined => "undefined"

/-! ### Where parentheses are needed -/

/-- The expression a text begins with. -/
def Expr.leftmost : Expr → Expr
  | binary _ _ left _ => left.leftmost
  | assign _ _ target _ => target.leftmost
  | cond _ test _ _ => test.leftmost
  | member _ inner _ _ => inner.leftmost
  | call _ callee _ _ => callee.leftmost
  | update _ _ false target => target.leftmost
  | e => e

/-- An expression statement that would be read as a block or as a function declaration. -/
def Expr.startsAmbiguously (e : Expr) : Bool :=
  match e.leftmost with
  | .object _ _ => true
  | .function _ func => !func.isArrow
  | _ => false

/-- Whether a chain of member accesses contains a call, which `new` would take as its own. -/
def Expr.containsCall : Expr → Bool
  | call _ _ _ _ => true
  | member _ inner _ _ => inner.containsCall
  | _ => false

/-- Whether a statement ends in an `if` that would take an `else` put after it. -/
def Stmt.endsOpen : Stmt → Bool
  | if_ _ _ _ none => true
  | if_ _ _ _ (some no) => no.endsOpen
  | for_ _ _ _ _ body => body.endsOpen
  | forEach _ _ _ _ _ body => body.endsOpen
  | while_ _ _ body => body.endsOpen
  | labeled _ _ body => body.endsOpen
  | _ => false

def Expr.isLogical : Expr → Bool
  | binary _ .and _ _ | binary _ .or _ _ => true
  | _ => false

def Expr.isObject : Expr → Bool
  | object _ _ => true
  | _ => false

def Expr.isNumber : Expr → Bool
  | literal _ (.number _) => true
  | _ => false

/-- The sign an expression begins with, if it is a signed number or begins with a sign operator. -/
def Expr.leadingSign? : Expr → Option UnaryOp
  | unary _ .neg _ => some .neg
  | unary _ .plus _ => some .plus
  | update _ .increment true _ => some .plus
  | update _ .decrement true _ => some .neg
  | literal _ value => if value.isSigned then some .neg else none
  | _ => none

/-- Two signs in a row need a space, or they would be read as one operator. -/
def needsSpace (op : UnaryOp) (operand : Expr) : Bool :=
  (op == .neg || op == .plus) && operand.leadingSign? == some op

/-! ### Layouts -/

/-- An expression in parentheses of its own. -/
def parenthesized (e : Expr) : List Part :=
  [.text "(", .expr e .lowest, .text ")"]

/-- Statements between braces. -/
def blockLayout (body : List Stmt) : List Part :=
  .text "\x7b" :: body.map .stmt ++ [.text "\x7d"]

def Declarator.layout (d : Declarator) : List Part :=
  match d.init with
  | some e => [.pattern d.pattern, .text " = ", .expr e .assignment]
  | none => [.pattern d.pattern]

def VarDecl.layout (d : VarDecl) : List Part :=
  .text (d.kind.text ++ " ") :: separate ", " (d.declarators.map Declarator.layout)

def Param.layout (p : Param) : List Part :=
  .text (if p.rest then "..." else "") :: .pattern p.pattern ::
    match p.default with
    | some e => [.text " = ", .expr e .assignment]
    | none => []

def paramsLayout (params : List Param) : List Part :=
  .text "(" :: separate ", " (params.map Param.layout) ++ [.text ")"]

def argsLayout (args : List Expr) : List Part :=
  .text "(" :: separate ", " (args.map fun a => [.expr a .assignment]) ++ [.text ")"]

/-- A member access without its object. -/
def Key.layout (key : Key) (optional : Bool) : List Part :=
  match key with
  | named name => [.text ((if optional then "?." else ".") ++ name)]
  | computed e => [.text (if optional then "?.[" else "["), .expr e .lowest, .text "]"]

def Property.layout (p : Property) : List Part :=
  (match p.key with
    | .named name => [.text (propertyName name)]
    | .computed e => [.text "[", .expr e .assignment, .text "]"])
    ++ [.text ": ", .expr p.value .assignment]

/--
A function. The body of an arrow is a place right after the arrow, where an object literal needs
parentheses; the arrow is a part of its own so that a walk can see this place coming.
-/
def Func.layout (f : Func) : List Part :=
  if f.isArrow then
    paramsLayout f.params ++ .text " => " ::
      match f.body with
      | .block body => blockLayout body
      | .expr e => if e.isObject then parenthesized e else [.expr e .assignment]
  else
    .text ("function" ++ (match f.name with | some n => " " ++ n | none => "")) ::
      paramsLayout f.params ++ .text " " ::
      match f.body with
      | .block body => blockLayout body
      | .expr e => [.text "\x7breturn ", .expr e .lowest, .text ";\x7d"]

/-- The strengths that the operands of a binary operator have to have. -/
def BinaryOp.operandLevels : BinaryOp → Precedence × Precedence
  | pow => (.postfix_, .exponent)
  | op => (op.precedence, op.precedence.next)

/-- `??` does not take a bare `&&` or `||` as operand. -/
def BinaryOp.guard (op : BinaryOp) (operand : Expr) (level : Precedence) : Precedence :=
  if op = .nullish ∧ operand.isLogical then .primary else level

/-- The text of an expression, one level deep and without parentheses around it. -/
def Expr.inner : Expr → List Part
  | literal _ value => [.text value.text]
  | ident _ name => [.text name]
  | array _ items => .text "[" :: separate ", " (items.map fun e => [.expr e .assignment]) ++ [.text "]"]
  | object _ props => .text "\x7b" :: separate ", " (props.map Property.layout) ++ [.text "\x7d"]
  | function _ func => func.layout
  | unary _ op operand =>
    [.text (op.text ++ (if op = .typeof ∨ needsSpace op operand then " " else "")),
      .expr operand .unary]
  | update _ op true target => [.text op.text, .expr target .unary]
  | update _ op false target => [.expr target .call, .text op.text]
  | binary _ op left right =>
    [.expr left (op.guard left op.operandLevels.1), .text (" " ++ op.text ++ " "),
      .expr right (op.guard right op.operandLevels.2)]
  | assign _ op target value =>
    [.expr target .call, .text (" " ++ op.text ++ " "), .expr value .assignment]
  | cond _ test yes no =>
    [.expr test .nullish, .text " ? ", .expr yes .assignment, .text " : ", .expr no .assignment]
  | member _ inner key optional =>
    (if inner.isNumber then parenthesized inner else [.expr inner .call]) ++ key.layout optional
  | call _ callee args optional =>
    .expr callee .call :: .text (if optional then "?." else "") :: argsLayout args
  | new _ callee args =>
    .text "new " ::
      (if callee.containsCall then parenthesized callee else [.expr callee .call]) ++ argsLayout args

/-- The text of an expression in a place that asks for the given strength, one level deep. -/
def Expr.layout (e : Expr) (min : Precedence) : List Part :=
  if e.precedence < min then .text "(" :: e.inner ++ [.text ")"] else e.inner

def jumpText (keyword : String) (label : Option String) : String :=
  keyword ++ (match label with | some l => " " ++ l | none => "") ++ ";"

def ForInit.layout : ForInit → List Part
  | decl d => d.layout
  | expr e => [.expr e .lowest]

/-- A clause of a `for` head that may be missing. -/
def clauseLayout : Option Expr → List Part
  | some e => [.text " ", .expr e .lowest]
  | none => []

/-- The text of a statement, one level deep. -/
def Stmt.layout : Stmt → List Part
  | expr _ e => (if e.startsAmbiguously then parenthesized e else [.expr e .lowest]) ++ [.text ";"]
  | decl d => d.layout ++ [.text ";"]
  | function _ func => func.layout
  | return_ _ (some e) => [.text "return ", .expr e .lowest, .text ";"]
  | return_ _ none => [.text "return;"]
  | if_ _ test yes none => [.text "if (", .expr test .lowest, .text ") ", .stmt yes]
  | if_ _ test yes (some no) =>
    [.text "if (", .expr test .lowest, .text ") "]
      ++ (if yes.endsOpen then blockLayout [yes] else [.stmt yes]) ++ [.text " else ", .stmt no]
  | for_ _ init test update body =>
    .text "for (" :: (match init with | some i => i.layout | none => [])
      ++ .text ";" :: clauseLayout test ++ .text ";" :: clauseLayout update ++ [.text ") ", .stmt body]
  | forEach _ kind declKind pattern source body =>
    [.text ("for (" ++ (match declKind with | some d => d.text ++ " " | none => "")),
      .pattern pattern, .text (" " ++ kind.text ++ " "), .expr source .assignment, .text ") ", .stmt body]
  | while_ _ test body => [.text "while (", .expr test .lowest, .text ") ", .stmt body]
  | break_ _ label => [.text (jumpText "break" label)]
  | continue_ _ label => [.text (jumpText "continue" label)]
  | labeled _ label body => [.text (label ++ ": "), .stmt body]
  | throw_ _ e => [.text "throw ", .expr e .lowest, .text ";"]
  | try_ _ body handler finalizer =>
    .text "try " :: blockLayout body
      ++ (match handler with
        | some ⟨some p, body⟩ => .text " catch (" :: .pattern p :: .text ") " :: blockLayout body
        | some ⟨none, body⟩ => .text " catch " :: blockLayout body
        | none => [])
      ++ (match finalizer with
        | some body => .text " finally " :: blockLayout body
        | none => [])
  | block _ body => blockLayout body
  | empty _ => [.text ";"]

/-! ### Children are smaller -/

theorem mem_separate {sep : String} {p : Part} :
    ∀ {groups : List (List Part)}, p ∈ separate sep groups →
      p = .text sep ∨ ∃ g ∈ groups, p ∈ g
  | [], h => by simp [separate] at h
  | [g], h => .inr ⟨g, by simp, by simpa [separate] using h⟩
  | g :: g' :: rest, h => by
    simp only [separate, List.mem_append, List.mem_cons] at h
    rcases h with h | rfl | h
    · exact .inr ⟨g, by simp, h⟩
    · exact .inl rfl
    · obtain rfl | ⟨k, hk, hp⟩ := mem_separate h
      · exact .inl rfl
      · exact .inr ⟨k, List.mem_cons_of_mem _ hk, hp⟩

theorem weight_of_mem_separate_map {α : Type} {f : α → List Part} {xs : List α} {sep : String}
    {p : Part} {n : Nat} (hn : 0 < n) (h : p ∈ separate sep (xs.map f))
    (hf : ∀ x ∈ xs, ∀ q ∈ f x, q.weight < n) : p.weight < n := by
  rcases mem_separate h with rfl | ⟨g, hg, hp⟩
  · exact hn
  · obtain ⟨x, hx, rfl⟩ := List.mem_map.1 hg
    exact hf x hx p hp

theorem sizeOf_list_pos {α : Type} [SizeOf α] (xs : List α) : 0 < sizeOf xs := by
  cases xs <;> simp only [List.nil.sizeOf_spec, List.cons.sizeOf_spec] <;> omega

theorem weight_of_mem_block {body : List Stmt} {p : Part} (h : p ∈ blockLayout body) :
    p.weight < sizeOf body := by
  simp only [blockLayout, List.mem_cons, List.mem_append, List.mem_map, List.not_mem_nil,
    or_false] at h
  rcases h with (rfl | ⟨s, hs, rfl⟩) | rfl
  · exact sizeOf_list_pos body
  · exact List.sizeOf_lt_of_mem hs
  · exact sizeOf_list_pos body

theorem weight_of_mem_exprs {es : List Expr} {sep : String} {p : Part}
    (h : p ∈ separate sep (es.map fun e => [.expr e .assignment])) : p.weight < sizeOf es := by
  refine weight_of_mem_separate_map (sizeOf_list_pos es) h fun e he q hq => ?_
  obtain rfl := List.mem_singleton.1 hq
  exact List.sizeOf_lt_of_mem he

theorem weight_of_mem_args {args : List Expr} {p : Part} (h : p ∈ argsLayout args) :
    p.weight < sizeOf args := by
  simp only [argsLayout, List.mem_cons, List.mem_append, List.not_mem_nil, or_false] at h
  rcases h with (rfl | h) | rfl
  · exact sizeOf_list_pos args
  · exact weight_of_mem_exprs h
  · exact sizeOf_list_pos args

theorem weight_of_mem_key {key : Key} {optional : Bool} {p : Part} (h : p ∈ key.layout optional) :
    p.weight < sizeOf key := by
  cases key <;> simp only [Key.layout, List.mem_cons, List.not_mem_nil, or_false] at h
  · subst h
    simp only [Part.weight, Key.named.sizeOf_spec]; omega
  · rcases h with rfl | rfl | rfl <;> simp only [Part.weight, Key.computed.sizeOf_spec] <;> omega

theorem weight_of_mem_property {prop : Property} {p : Part} (h : p ∈ prop.layout) :
    p.weight < sizeOf prop := by
  obtain ⟨key, value⟩ := prop
  cases key <;> simp only [Property.layout, List.mem_append, List.mem_cons, List.not_mem_nil,
    or_false] at h
  · rcases h with rfl | rfl | rfl <;> simp only [Part.weight, Property.mk.sizeOf_spec] <;> omega
  · rcases h with (rfl | rfl | rfl) | rfl | rfl <;>
      simp only [Part.weight, Property.mk.sizeOf_spec, Key.computed.sizeOf_spec] <;> omega

theorem weight_of_mem_param {param : Param} {p : Part} (h : p ∈ param.layout) :
    p.weight < sizeOf param := by
  obtain ⟨span, pattern, default, rest⟩ := param
  cases default <;> simp only [Param.layout, List.mem_cons, List.not_mem_nil, or_false] at h
  · rcases h with rfl | rfl <;> simp only [Part.weight, Param.mk.sizeOf_spec] <;> omega
  · rcases h with rfl | rfl | rfl | rfl <;>
      simp only [Part.weight, Param.mk.sizeOf_spec, Option.some.sizeOf_spec] <;> omega

theorem weight_of_mem_params {params : List Param} {p : Part} (h : p ∈ paramsLayout params) :
    p.weight < sizeOf params := by
  simp only [paramsLayout, List.mem_cons, List.mem_append, List.not_mem_nil, or_false] at h
  rcases h with (rfl | h) | rfl
  · exact sizeOf_list_pos params
  · refine weight_of_mem_separate_map (sizeOf_list_pos params) h fun a ha q hq => ?_
    exact Nat.lt_trans (weight_of_mem_param hq) (List.sizeOf_lt_of_mem ha)
  · exact sizeOf_list_pos params

theorem weight_of_mem_func {func : Func} {p : Part} (h : p ∈ func.layout) :
    p.weight < sizeOf func := by
  obtain ⟨name, params, body, isArrow⟩ := func
  have inParams : p ∈ paramsLayout params → p.weight < sizeOf params := weight_of_mem_params
  have inBlock : ∀ b, p ∈ blockLayout b → p.weight < sizeOf b := fun _ => weight_of_mem_block
  have isText : ∀ s, (Part.text s).weight = 0 := fun _ => rfl
  have isExpr : ∀ e m, (Part.expr e m).weight = sizeOf e := fun _ _ => rfl
  cases isArrow <;> cases body <;>
    simp only [Func.layout, parenthesized, Bool.false_eq_true, if_true, if_false, List.mem_append,
      List.mem_cons, List.not_mem_nil, or_false] at h <;>
    simp only [Func.mk.sizeOf_spec, FuncBody.block.sizeOf_spec, FuncBody.expr.sizeOf_spec] <;> grind

theorem weight_of_mem_varDecl {d : VarDecl} {p : Part} (h : p ∈ d.layout) :
    p.weight < sizeOf d := by
  obtain ⟨span, kind, declarators⟩ := d
  simp only [VarDecl.layout, List.mem_cons] at h
  rcases h with rfl | h
  · simp only [Part.weight, VarDecl.mk.sizeOf_spec]; omega
  · refine weight_of_mem_separate_map (by simp only [VarDecl.mk.sizeOf_spec]; omega) h
      fun d hd q hq => ?_
    have := List.sizeOf_lt_of_mem hd
    obtain ⟨pattern, init⟩ := d
    cases init <;> simp only [Declarator.layout, List.mem_cons, List.not_mem_nil, or_false] at hq
    · subst hq
      simp only [Part.weight, VarDecl.mk.sizeOf_spec]; omega
    · rcases hq with rfl | rfl | rfl <;>
        simp only [Part.weight, VarDecl.mk.sizeOf_spec, Declarator.mk.sizeOf_spec,
          Option.some.sizeOf_spec] at this ⊢ <;> omega

/-- What stands in a place of an expression's text is smaller than the expression. -/
theorem weight_of_mem_inner {e : Expr} {p : Part} (h : p ∈ e.inner) : p.weight < sizeOf e := by
  have isText : ∀ s, (Part.text s).weight = 0 := fun _ => rfl
  have isExpr : ∀ e m, (Part.expr e m).weight = sizeOf e := fun _ _ => rfl
  cases e with
  | literal | ident =>
    simp only [Expr.inner, List.mem_singleton] at h
    subst h
    simp only [Part.weight, Expr.literal.sizeOf_spec, Expr.ident.sizeOf_spec]; omega
  | array span items =>
    simp only [Expr.inner, List.mem_cons, List.mem_append, List.not_mem_nil, or_false] at h
    simp only [Expr.array.sizeOf_spec]
    rcases h with (rfl | h) | rfl
    · simp only [Part.weight]; omega
    · have := weight_of_mem_exprs h; omega
    · simp only [Part.weight]; omega
  | object span props =>
    simp only [Expr.inner, List.mem_cons, List.mem_append, List.not_mem_nil, or_false] at h
    simp only [Expr.object.sizeOf_spec]
    rcases h with (rfl | h) | rfl
    · simp only [Part.weight]; omega
    · have : p.weight < sizeOf props :=
        weight_of_mem_separate_map (sizeOf_list_pos props) h fun a ha q hq =>
          Nat.lt_trans (weight_of_mem_property hq) (List.sizeOf_lt_of_mem ha)
      omega
    · simp only [Part.weight]; omega
  | function span func =>
    have : p.weight < sizeOf func := weight_of_mem_func h
    simp only [Expr.function.sizeOf_spec]; omega
  | unary =>
    simp only [Expr.inner, List.mem_cons, List.not_mem_nil, or_false] at h
    rcases h with rfl | rfl <;> simp only [Part.weight, Expr.unary.sizeOf_spec] <;> omega
  | update span op before target =>
    cases before <;> simp only [Expr.inner, List.mem_cons, List.not_mem_nil, or_false] at h <;>
      rcases h with rfl | rfl <;> simp only [Part.weight, Expr.update.sizeOf_spec] <;> omega
  | binary | assign =>
    simp only [Expr.inner, List.mem_cons, List.not_mem_nil, or_false] at h
    rcases h with rfl | rfl | rfl <;>
      simp only [Part.weight, Expr.binary.sizeOf_spec, Expr.assign.sizeOf_spec] <;> omega
  | cond =>
    simp only [Expr.inner, List.mem_cons, List.not_mem_nil, or_false] at h
    rcases h with rfl | rfl | rfl | rfl | rfl <;>
      simp only [Part.weight, Expr.cond.sizeOf_spec] <;> omega
  | member span inner key optional =>
    simp only [Expr.inner, List.mem_append] at h
    simp only [Expr.member.sizeOf_spec]
    rcases h with h | h
    · split at h <;> simp only [parenthesized, List.mem_cons, List.not_mem_nil, or_false] at h <;>
        grind
    · have := weight_of_mem_key h; omega
  | call span callee args optional =>
    simp only [Expr.inner, List.mem_cons] at h
    simp only [Expr.call.sizeOf_spec]
    rcases h with rfl | rfl | h
    · simp only [Part.weight]; omega
    · simp only [Part.weight]; omega
    · have := weight_of_mem_args h; omega
  | new span callee args =>
    simp only [Expr.inner, List.mem_cons, List.mem_append] at h
    simp only [Expr.new.sizeOf_spec]
    rcases h with (rfl | h) | h
    · simp only [Part.weight]; omega
    · split at h <;> simp only [parenthesized, List.mem_cons, List.not_mem_nil, or_false] at h <;>
        grind
    · have := weight_of_mem_args h; omega

/-- What stands in a place of an expression's layout is smaller than the expression. -/
theorem weight_of_mem_layout {e : Expr} {min : Precedence} {p : Part} (h : p ∈ e.layout min) :
    p.weight < sizeOf e := by
  have pos : 0 < sizeOf e := by
    cases e <;> simp only [Expr.literal.sizeOf_spec, Expr.ident.sizeOf_spec, Expr.array.sizeOf_spec,
      Expr.object.sizeOf_spec, Expr.function.sizeOf_spec, Expr.unary.sizeOf_spec,
      Expr.update.sizeOf_spec, Expr.binary.sizeOf_spec, Expr.assign.sizeOf_spec,
      Expr.cond.sizeOf_spec, Expr.member.sizeOf_spec, Expr.call.sizeOf_spec,
      Expr.new.sizeOf_spec] <;> omega
  unfold Expr.layout at h
  split at h
  · simp only [List.mem_cons, List.mem_append, List.not_mem_nil, or_false] at h
    rcases h with (rfl | h) | rfl
    · exact pos
    · exact weight_of_mem_inner h
    · exact pos
  · exact weight_of_mem_inner h

/-- What stands in a place of a statement's layout is smaller than the statement. -/
theorem weight_of_mem_stmt {s : Stmt} {p : Part} (h : p ∈ s.layout) : p.weight < sizeOf s := by
  have isText : ∀ s, (Part.text s).weight = 0 := fun _ => rfl
  have isExpr : ∀ e m, (Part.expr e m).weight = sizeOf e := fun _ _ => rfl
  have isStmt : ∀ s, (Part.stmt s).weight = sizeOf s := fun _ => rfl
  have isPattern : ∀ q, (Part.pattern q).weight = 0 := fun _ => rfl
  have inBlock : ∀ b, p ∈ blockLayout b → p.weight < sizeOf b := fun _ => weight_of_mem_block
  cases s with
  | expr span e =>
    simp only [Stmt.layout, List.mem_append] at h
    simp only [Stmt.expr.sizeOf_spec]
    split at h <;> simp only [parenthesized, List.mem_cons, List.not_mem_nil, or_false] at h <;> grind
  | decl d =>
    simp only [Stmt.layout, List.mem_append, List.mem_cons, List.not_mem_nil, or_false] at h
    simp only [Stmt.decl.sizeOf_spec]
    rcases h with h | rfl
    · have := weight_of_mem_varDecl h; omega
    · simp only [isText]; omega
  | function span func =>
    have : p.weight < sizeOf func := weight_of_mem_func h
    simp only [Stmt.function.sizeOf_spec]; omega
  | return_ span value =>
    cases value <;> simp only [Stmt.layout, List.mem_cons, List.not_mem_nil, or_false] at h <;>
      simp only [Stmt.return_.sizeOf_spec, Option.some.sizeOf_spec] <;> grind
  | if_ span test yes no =>
    cases no with
    | none =>
      simp only [Stmt.layout, List.mem_cons, List.not_mem_nil, or_false] at h
      simp only [Stmt.if_.sizeOf_spec]; grind
    | some no =>
      have inYes := inBlock [yes]
      simp only [List.cons.sizeOf_spec, List.nil.sizeOf_spec] at inYes
      simp only [Stmt.layout, List.mem_append] at h
      simp only [Stmt.if_.sizeOf_spec, Option.some.sizeOf_spec]
      split at h <;> simp only [List.mem_cons, List.not_mem_nil, or_false] at h <;> grind
  | for_ span init test update body =>
    simp only [Stmt.layout, List.mem_append, List.mem_cons, List.not_mem_nil, or_false] at h
    simp only [Stmt.for_.sizeOf_spec]
    have inClause : ∀ c, p ∈ clauseLayout c → p.weight < sizeOf c := by
      intro c hc
      cases c <;> simp only [clauseLayout, List.mem_cons, List.not_mem_nil, or_false] at hc
      rcases hc with rfl | rfl <;> simp only [isText, isExpr, Option.some.sizeOf_spec] <;> omega
    have inInit : p ∈ (match init with | some i => i.layout | none => []) →
        p.weight < sizeOf init := by
      intro hi
      match init with
      | some (.decl d) =>
        have : p.weight < sizeOf d := weight_of_mem_varDecl hi
        simp only [Option.some.sizeOf_spec, ForInit.decl.sizeOf_spec]; omega
      | some (.expr e) =>
        simp only [ForInit.layout, List.mem_singleton] at hi
        subst hi
        simp only [isExpr, Option.some.sizeOf_spec, ForInit.expr.sizeOf_spec]; omega
      | none => simp at hi
    grind
  | forEach =>
    simp only [Stmt.layout, List.mem_cons, List.not_mem_nil, or_false] at h
    simp only [Stmt.forEach.sizeOf_spec]; grind
  | while_ =>
    simp only [Stmt.layout, List.mem_cons, List.not_mem_nil, or_false] at h
    simp only [Stmt.while_.sizeOf_spec]; grind
  | labeled =>
    simp only [Stmt.layout, List.mem_cons, List.not_mem_nil, or_false] at h
    simp only [Stmt.labeled.sizeOf_spec]; grind
  | throw_ =>
    simp only [Stmt.layout, List.mem_cons, List.not_mem_nil, or_false] at h
    simp only [Stmt.throw_.sizeOf_spec]; grind
  | try_ span body handler finalizer =>
    simp only [Stmt.layout, List.mem_append, List.mem_cons] at h
    simp only [Stmt.try_.sizeOf_spec]
    rcases h with ((rfl | h) | h) | h
    · simp only [isText]; omega
    · have := inBlock body h; omega
    · match handler with
      | some ⟨none, hbody⟩ =>
        simp only [List.mem_cons] at h
        simp only [Option.some.sizeOf_spec, CatchClause.mk.sizeOf_spec]
        rcases h with rfl | h
        · simp only [isText]; omega
        · have := inBlock hbody h; omega
      | some ⟨some q, hbody⟩ =>
        simp only [List.mem_cons] at h
        simp only [Option.some.sizeOf_spec, CatchClause.mk.sizeOf_spec]
        rcases h with rfl | rfl | rfl | h
        · simp only [isText]; omega
        · simp only [isPattern]; omega
        · simp only [isText]; omega
        · have := inBlock hbody h; omega
      | none => simp at h
    · match finalizer with
      | some fbody =>
        simp only [List.mem_cons] at h
        simp only [Option.some.sizeOf_spec]
        rcases h with rfl | h
        · simp only [isText]; omega
        · have := inBlock fbody h; omega
      | none => simp at h
  | block span body =>
    have := inBlock body h
    simp only [Stmt.block.sizeOf_spec]; omega
  | break_ | continue_ | empty =>
    simp only [Stmt.layout, List.mem_singleton] at h
    subst h
    simp only [isText, Stmt.break_.sizeOf_spec, Stmt.continue_.sizeOf_spec, Stmt.empty.sizeOf_spec]
    omega

/-! ### Printing -/

/-- The text of a part. -/
def Part.render : Part → String
  | text s => s
  | pattern p => p.text
  | expr e min => String.join ((e.layout min).attach.map fun ⟨p, _⟩ => p.render)
  | stmt s => String.join (s.layout.attach.map fun ⟨p, _⟩ => p.render)
termination_by p => p.weight
decreasing_by
  · exact weight_of_mem_layout ‹_›
  · exact weight_of_mem_stmt ‹_›

/-- The text of a layout. -/
def render (parts : List Part) : String := String.join (parts.map Part.render)

/-- The text of an expression that stands alone. -/
def Expr.text (e : Expr) : String := (Part.expr e .lowest).render

/-- The text of a statement. -/
def Stmt.text (s : Stmt) : String := (Part.stmt s).render

/-- The text of a program. -/
def programText (body : List Stmt) : String := String.join (body.map Stmt.text)

/-- The text of a function. -/
def Func.text (f : Func) : String := render f.layout

theorem Part.render_expr (e : Expr) (min : Precedence) :
    (Part.expr e min).render = Staging.render (e.layout min) := by
  rw [Part.render, Staging.render]
  exact congrArg String.join List.attach_map_val

theorem Part.render_stmt (s : Stmt) : (Part.stmt s).render = Staging.render s.layout := by
  rw [Part.render, Staging.render]
  exact congrArg String.join List.attach_map_val

@[simp] theorem render_nil : render [] = "" := rfl

@[simp] theorem render_cons (part : Part) (parts : List Part) :
    render (part :: parts) = part.render ++ render parts := by
  simp [render]

@[simp] theorem render_append (parts more : List Part) :
    render (parts ++ more) = render parts ++ render more := by
  simp [render]

@[simp] theorem Part.render_text (s : String) : (Part.text s).render = s := by
  rw [Part.render]

@[simp] theorem Part.render_pattern (p : Pattern) : (Part.pattern p).render = p.text := by
  rw [Part.render]

end Staging
