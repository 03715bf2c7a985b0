import Staging.Proofs.Number.ReadBack
import Staging.Proofs.Source.Bare
import Staging.Proofs.Source.Printable

/-!
Trees with the same text.

What a tree shows of itself where it stands is its text and a few facts that decide about parentheses and
spaces around it. `Expr.Same` and `Stmt.Same` collect them. A node is the same when its parts are, one
lemma for each kind of node.
-/

namespace Staging

/-- Two expressions that look the same in every place. -/
structure Expr.Same (e e' : Expr) : Prop where
  text : render e'.inner = render e.inner
  precedence : e'.precedence = e.precedence
  isObject : e'.isObject = e.isObject
  isLogical : e'.isLogical = e.isLogical
  leadingSign? : e'.leadingSign? = e.leadingSign?
  containsCall : e'.containsCall = e.containsCall
  isPlainCallee : e'.isPlainCallee = e.isPlainCallee
  isPlainChain : e'.isPlainChain = e.isPlainChain
  startsObject : e'.leftmost.isObject = e.leftmost.isObject
  startsAmbiguously : e'.startsAmbiguously = e.startsAmbiguously
  isNumber : e'.isNumber = e.isNumber
  isAssignable : e'.isAssignable = e.isAssignable

/-- Two statements that look the same in every place. -/
structure Stmt.Same (s s' : Stmt) : Prop where
  text : render s'.layout = render s.layout
  endsOpen : s'.endsOpen = s.endsOpen

theorem Expr.Same.place {e e' : Expr} (h : e.Same e') (min : Precedence) :
    (Part.expr e' min).render = (Part.expr e min).render := by
  rw [Part.render_expr, Part.render_expr, Expr.layout, Expr.layout, h.precedence]
  split
  · simp [h.text]
  · exact h.text

theorem Stmt.Same.place {s s' : Stmt} (h : s.Same s') : (Part.stmt s').render = (Part.stmt s).render := by
  rw [Part.render_stmt, Part.render_stmt, h.text]

/-- The text of a group of parts between separators depends on the texts of the groups only. -/
theorem render_separate_eq {groups groups' : List (List Part)} (sep : String)
    (h : groups'.map render = groups.map render) :
    render (separate sep groups') = render (separate sep groups) := by
  induction groups generalizing groups' with
  | nil =>
    obtain rfl : groups' = [] := by simpa using h
    rfl
  | cons ps rest ih =>
    obtain ⟨ps', rest', rfl⟩ : ∃ ps' rest', groups' = ps' :: rest' := by
      cases groups' with
      | nil => simp at h
      | cons ps' rest' => exact ⟨ps', rest', rfl⟩
    rw [List.map_cons, List.map_cons, List.cons.injEq] at h
    cases rest with
    | nil =>
      obtain rfl : rest' = [] := by simpa using h.2
      simp [separate, h.1]
    | cons qs rest =>
      obtain ⟨qs', rest', rfl⟩ : ∃ qs' rest'', rest' = qs' :: rest'' := by
        cases rest' with
        | nil => simp at h
        | cons qs' rest'' => exact ⟨qs', rest'', rfl⟩
      simp [separate, h.1, ih h.2]

/-- The texts of the items of a list. -/
def itemTexts (es : List Expr) : List String := es.map fun e => (Part.expr e .assignment).render

theorem render_items_eq {es es' : List Expr} (h : itemTexts es' = itemTexts es) :
    render (separate ", " (es'.map fun e => [.expr e .assignment]))
      = render (separate ", " (es.map fun e => [.expr e .assignment])) := by
  apply render_separate_eq
  simpa [itemTexts, List.map_map, Function.comp_def] using h

theorem render_args_eq {es es' : List Expr} (h : itemTexts es' = itemTexts es) :
    render (argsLayout es') = render (argsLayout es) := by
  simp [argsLayout, render_items_eq h]

/-- The texts of statements one after the other. -/
def stmtTexts (body : List Stmt) : List String := body.map fun s => (Part.stmt s).render

theorem render_body_eq {body body' : List Stmt} (h : stmtTexts body' = stmtTexts body) :
    render (body'.map .stmt) = render (body.map .stmt) := by
  simp only [render, List.map_map]
  exact congrArg String.join h

theorem render_block_eq {body body' : List Stmt} (h : stmtTexts body' = stmtTexts body) :
    render (blockLayout body') = render (blockLayout body) := by
  simp [blockLayout, render_body_eq h]

/-! ### Nodes of expressions -/

section Nodes

variable {s s' : Span} {a a' b b' c c' : Expr}

theorem Expr.Same.array {items items' : List Expr} (h : itemTexts items' = itemTexts items) :
    (Expr.array s items).Same (.array s' items') := by
  constructor <;> first | rfl | skip
  simp [Expr.inner, render_items_eq h]

theorem Expr.Same.object {props props' : List Property}
    (h : props'.map (fun q => render q.layout) = props.map fun q => render q.layout) :
    (Expr.object s props).Same (.object s' props') := by
  constructor <;> first | rfl | skip
  have : (props'.map Property.layout).map render = (props.map Property.layout).map render := by
    simpa [List.map_map, Function.comp_def] using h
  simp [Expr.inner, render_separate_eq ", " this]

theorem Expr.Same.function {f f' : Func} (htext : render f'.layout = render f.layout)
    (harrow : f'.isArrow = f.isArrow) : (Expr.function s f).Same (.function s' f') := by
  constructor <;> first | rfl | skip
  · exact htext
  · simp [Expr.precedence, harrow]
  · simp [Expr.startsAmbiguously, Expr.leftmost, harrow]

theorem Expr.Same.unary (op : UnaryOp) (h : a.Same a') : (Expr.unary s op a).Same (.unary s' op a') := by
  constructor <;> first | rfl | skip
  · simp [Expr.inner, needsSpace, h.leadingSign?, h.place]
  · cases op <;> rfl

theorem Expr.Same.update (op : UpdateOp) (before : Bool) (h : a.Same a') :
    (Expr.update s op before a).Same (.update s' op before a') := by
  cases before with
  | true =>
    constructor <;> first | rfl | skip
    · simp [Expr.inner, h.place]
    · cases op <;> rfl
  | false =>
    constructor <;> first | rfl | skip
    · simp [Expr.inner, h.place]
    · cases op <;> rfl
    · exact h.startsObject
    · exact h.startsAmbiguously

theorem Expr.Same.binary (op : BinaryOp) (ha : a.Same a') (hb : b.Same b') :
    (Expr.binary s op a b).Same (.binary s' op a' b') := by
  constructor <;> first | rfl | skip
  · simp [Expr.inner, BinaryOp.guard, ha.isLogical, hb.isLogical, ha.place, hb.place]
  · cases op <;> rfl
  · exact ha.startsObject
  · exact ha.startsAmbiguously

theorem Expr.Same.assign (op : AssignOp) (ha : a.Same a') (hb : b.Same b') :
    (Expr.assign s op a b).Same (.assign s' op a' b') := by
  constructor <;> first | rfl | skip
  · simp [Expr.inner, ha.place, hb.place]
  · exact ha.startsObject
  · exact ha.startsAmbiguously

theorem Expr.Same.cond (ha : a.Same a') (hb : b.Same b') (hc : c.Same c') :
    (Expr.cond s a b c).Same (.cond s' a' b' c') := by
  constructor <;> first | rfl | skip
  · simp [Expr.inner, ha.place, hb.place, hc.place]
  · exact ha.startsObject
  · exact ha.startsAmbiguously

theorem Expr.Same.member {k k' : Key} (optional : Bool) (ha : a.Same a')
    (hk : render (k'.layout optional) = render (k.layout optional)) :
    (Expr.member s a k optional).Same (.member s' a' k' optional) := by
  constructor <;> first | rfl | skip
  · cases h : a.isNumber <;> simp [Expr.inner, ha.isNumber, h, parenthesized, ha.place, hk]
  · exact ha.containsCall
  · simp [Expr.isPlainCallee, ha.isPlainCallee]
  · simp [Expr.isPlainChain, ha.isPlainChain]
  · exact ha.startsObject
  · exact ha.startsAmbiguously
  · simp [Expr.isAssignable, Expr.isPlainChain, ha.isPlainChain]

theorem Expr.Same.call {args args' : List Expr} (optional : Bool) (ha : a.Same a')
    (hargs : itemTexts args' = itemTexts args) :
    (Expr.call s a args optional).Same (.call s' a' args' optional) := by
  constructor <;> first | rfl | skip
  · simp [Expr.inner, ha.place, render_args_eq hargs]
  · exact ha.startsObject
  · exact ha.startsAmbiguously

theorem Expr.Same.new {args args' : List Expr} (ha : a.Same a') (hargs : itemTexts args' = itemTexts args) :
    (Expr.new s a args).Same (.new s' a' args') := by
  constructor <;> first | rfl | skip
  cases h : a.containsCall <;>
    simp [Expr.inner, ha.containsCall, h, parenthesized, ha.place, render_args_eq hargs]

end Nodes

/-! ### Keys, parameters and functions -/

theorem render_key_eq {e e' : Expr} (optional : Bool) (h : e.Same e') :
    render ((Key.computed e').layout optional) = render ((Key.computed e).layout optional) := by
  simp [Key.layout, h.place]

theorem render_property_eq {n : String} {e e' : Expr} (h : e.Same e') :
    render (Property.layout ⟨.named n, e'⟩) = render (Property.layout ⟨.named n, e⟩) := by
  simp [Property.layout, h.place]

theorem render_computedProperty_eq {a a' e e' : Expr} (ha : a.Same a') (h : e.Same e') :
    render (Property.layout ⟨.computed a', e'⟩) = render (Property.layout ⟨.computed a, e⟩) := by
  simp [Property.layout, h.place, ha.place]

/-- The text of an expression that may be missing. -/
def optionText (e : Option Expr) : Option String := e.map fun e => (Part.expr e .assignment).render

theorem render_param_eq {s s' : Span} {pattern : Pattern} {init init' : Option Expr} {rest : Bool}
    (h : optionText init' = optionText init) :
    render (Param.layout ⟨s', pattern, init', rest⟩) = render (Param.layout ⟨s, pattern, init, rest⟩) := by
  cases init <;> cases init' <;> simp_all [optionText, Param.layout]

theorem render_declarator_eq {pattern : Pattern} {init init' : Option Expr}
    (h : optionText init' = optionText init) :
    render (Declarator.layout ⟨pattern, init'⟩) = render (Declarator.layout ⟨pattern, init⟩) := by
  cases init <;> cases init' <;> simp_all [optionText, Declarator.layout]

/-- Two function bodies that look the same. -/
inductive FuncBody.Same : FuncBody → FuncBody → Prop
  | block {body body' : List Stmt} (h : stmtTexts body' = stmtTexts body) : Same (.block body) (.block body')
  | expr {e e' : Expr} (h : e.Same e') : Same (.expr e) (.expr e')

theorem render_func_eq {name : Option String} {params params' : List Param} {body body' : FuncBody}
    {isArrow : Bool}
    (hp : params'.map (fun q => render q.layout) = params.map fun q => render q.layout)
    (hb : body.Same body') :
    render (Func.layout ⟨name, params', body', isArrow⟩)
      = render (Func.layout ⟨name, params, body, isArrow⟩) := by
  have : (params'.map Param.layout).map render = (params.map Param.layout).map render := by
    simpa [List.map_map, Function.comp_def] using hp
  have hparams : render (paramsLayout params') = render (paramsLayout params) := by
    simp [paramsLayout, render_separate_eq ", " this]
  cases hb with
  | block h => cases isArrow <;> simp [Func.layout, hparams, render_block_eq h]
  | @expr e e' h =>
    cases isArrow
    · simp [Func.layout, hparams, h.place]
    · cases hobj : e.isObject <;> simp [Func.layout, hparams, h.isObject, hobj, parenthesized, h.place]

theorem render_varDecl_eq {s s' : Span} {kind : DeclKind} {ds ds' : List Declarator}
    (h : ds'.map (fun d => render d.layout) = ds.map fun d => render d.layout) :
    render (VarDecl.layout ⟨s', kind, ds'⟩) = render (VarDecl.layout ⟨s, kind, ds⟩) := by
  have : (ds'.map Declarator.layout).map render = (ds.map Declarator.layout).map render := by
    simpa [List.map_map, Function.comp_def] using h
  simp [VarDecl.layout, render_separate_eq ", " this]

/-! ### Nodes of statements -/

section Statements

variable {s s' : Span} {e e' : Expr} {a a' b b' : Stmt}

theorem Stmt.Same.expr (h : e.Same e') : (Stmt.expr s e).Same (.expr s' e') := by
  constructor
  · cases hst : e.startsAmbiguously <;>
      simp [Stmt.layout, h.startsAmbiguously, hst, parenthesized, h.place]
  · rfl

theorem Stmt.Same.decl {d d' : VarDecl} (h : render d'.layout = render d.layout) :
    (Stmt.decl d).Same (.decl d') :=
  ⟨by simp [Stmt.layout, h], rfl⟩

theorem Stmt.Same.function {f f' : Func} (h : render f'.layout = render f.layout) :
    (Stmt.function s f).Same (.function s' f') :=
  ⟨h, rfl⟩

theorem Stmt.Same.returnNothing : (Stmt.return_ s none).Same (.return_ s' none) := ⟨rfl, rfl⟩

theorem Stmt.Same.return_ (h : e.Same e') : (Stmt.return_ s (some e)).Same (.return_ s' (some e')) :=
  ⟨by simp [Stmt.layout, h.place], rfl⟩

theorem Stmt.Same.if_ (he : e.Same e') (ha : a.Same a') :
    (Stmt.if_ s e a none).Same (.if_ s' e' a' none) :=
  ⟨by simp [Stmt.layout, he.place, ha.place], rfl⟩

theorem Stmt.Same.ifElse (he : e.Same e') (ha : a.Same a') (hb : b.Same b') :
    (Stmt.if_ s e a (some b)).Same (.if_ s' e' a' (some b')) := by
  constructor
  · cases hopen : a.endsOpen <;>
      simp [Stmt.layout, ha.endsOpen, hopen, blockLayout, he.place, ha.place, hb.place]
  · exact hb.endsOpen

/-- Where an `else` would go to the wrong `if`, braces stand in the text. -/
theorem Stmt.Same.ifOpen (he : e.Same e') (ha : a.Same a') (hopen : a.endsOpen = true) (hb : b.Same b') :
    (Stmt.if_ s e a (some b)).Same (.if_ s' e' (.block s' [a']) (some b')) := by
  constructor
  · have block : (Part.stmt (.block s' [a'])).render = render (blockLayout [a']) := Part.render_stmt _
    have closed : (Stmt.block s' [a']).endsOpen = false := rfl
    simp [Stmt.layout, closed, hopen, block, blockLayout, he.place, ha.place, hb.place, String.append_assoc]
  · exact hb.endsOpen

/-- The text of a clause of a `for` head. -/
def clauseText (e : Option Expr) : Option String := e.map fun e => (Part.expr e .lowest).render

theorem render_clause_eq {c c' : Option Expr} (h : clauseText c' = clauseText c) :
    render (clauseLayout c') = render (clauseLayout c) := by
  cases c <;> cases c' <;> simp_all [clauseText, clauseLayout]

/-- The beginnings of two `for` heads that look the same. -/
inductive ForInit.Same : Option ForInit → Option ForInit → Prop
  | none : Same none none
  | decl {d d' : VarDecl} (h : render d'.layout = render d.layout) : Same (some (.decl d)) (some (.decl d'))
  | expr {e e' : Expr} (h : e.Same e') : Same (some (.expr e)) (some (.expr e'))

theorem Stmt.Same.for_ {init init' : Option ForInit} {test test' update update' : Option Expr}
    (hi : ForInit.Same init init') (ht : clauseText test' = clauseText test)
    (hu : clauseText update' = clauseText update) (ha : a.Same a') :
    (Stmt.for_ s init test update a).Same (.for_ s' init' test' update' a') := by
  constructor
  · cases hi with
    | none => simp [Stmt.layout, render_clause_eq ht, render_clause_eq hu, ha.place]
    | decl h => simp [Stmt.layout, ForInit.layout, h, render_clause_eq ht, render_clause_eq hu, ha.place]
    | expr h => simp [Stmt.layout, ForInit.layout, h.place, render_clause_eq ht, render_clause_eq hu, ha.place]
  · exact ha.endsOpen

theorem Stmt.Same.forEach {kind : IterKind} {decl : Option DeclKind} {pattern : Pattern} (he : e.Same e')
    (ha : a.Same a') :
    (Stmt.forEach s kind decl pattern e a).Same (.forEach s' kind decl pattern e' a') :=
  ⟨by simp [Stmt.layout, he.place, ha.place], ha.endsOpen⟩

theorem Stmt.Same.while_ (he : e.Same e') (ha : a.Same a') : (Stmt.while_ s e a).Same (.while_ s' e' a') :=
  ⟨by simp [Stmt.layout, he.place, ha.place], ha.endsOpen⟩

theorem Stmt.Same.labeled {label : String} (ha : a.Same a') :
    (Stmt.labeled s label a).Same (.labeled s' label a') :=
  ⟨by simp [Stmt.layout, ha.place], ha.endsOpen⟩

theorem Stmt.Same.throw_ (he : e.Same e') : (Stmt.throw_ s e).Same (.throw_ s' e') :=
  ⟨by simp [Stmt.layout, he.place], rfl⟩

theorem Stmt.Same.block {body body' : List Stmt} (h : stmtTexts body' = stmtTexts body) :
    (Stmt.block s body).Same (.block s' body') :=
  ⟨render_block_eq h, rfl⟩

/-- Two `catch` clauses that look the same. -/
inductive CatchClause.Same : Option CatchClause → Option CatchClause → Prop
  | none : Same none none
  | some {param : Option Pattern} {body body' : List Stmt} (h : stmtTexts body' = stmtTexts body) :
    Same (some ⟨param, body⟩) (some ⟨param, body'⟩)

theorem Stmt.Same.try_ {body body' : List Stmt} {handler handler' : Option CatchClause}
    {last last' : Option (List Stmt)} (hb : stmtTexts body' = stmtTexts body)
    (hh : CatchClause.Same handler handler') (hl : last'.map stmtTexts = last.map stmtTexts) :
    (Stmt.try_ s body handler last).Same (.try_ s' body' handler' last') := by
  constructor
  · match last, last', hl with
    | none, none, _ =>
      cases hh with
      | none => simp [Stmt.layout, render_block_eq hb]
      | @some param _ _ h => cases param <;> simp [Stmt.layout, render_block_eq hb, render_block_eq h]
    | some c, some c', hl =>
      have hlast : stmtTexts c' = stmtTexts c := by simpa using hl
      cases hh with
      | none => simp [Stmt.layout, render_block_eq hb, render_block_eq hlast]
      | @some param _ _ h => cases param <;> simp [Stmt.layout, render_block_eq hb, render_block_eq h, render_block_eq hlast]
  · rfl

end Statements

/-! ### Literals -/

/-- Both zeros have the same text. -/
theorem Literal.text_bare (v : Literal) : v.bare.text = v.text := by
  cases v with
  | number x =>
    simp only [Literal.bare, Literal.text]
    split
    · rename_i zero
      obtain ⟨negative, view⟩ := Number.view_of_beq_zero zero
      rw [Number.text_eq view (by simp), Number.text_eq Number.view_zero rfl]
    · rfl
  | _ => rfl

theorem Literal.isSigned_bare (v : Literal) : v.bare.isSigned = v.isSigned := by
  cases v with
  | number x =>
    simp only [Literal.bare, Literal.isSigned]
    split
    · rename_i zero
      simp [bne, zero, Number.zero_beq_zero]
    · rfl
  | _ => rfl

theorem Literal.same_bare (s s' : Span) (v : Literal) : (Expr.literal s v).Same (.literal s' v.bare) := by
  constructor <;> first | rfl | skip
  · simp [Expr.inner, v.text_bare]
  · simp [Expr.precedence, v.isSigned_bare]
  · simp [Expr.leadingSign?, v.isSigned_bare]
  · cases v <;> rfl

end Staging
