import Staging.Proofs.Template.Statements

/-!
Functions, declarations and kept statements, node by node.

As for expressions, there is a lemma for each kind of node that goes along its layout. Statements inside a
kept statement cannot jump out of it, and a staged statement that is its single body has got braces, so the
residual statement has the parts that the layout has.
-/

namespace Staging.Template

open Script

section

variable {ev : Evaluator} {env : Env} {pl : Place} {start : Bool}

/-! ### Initial values, parameters and declarators -/

/-- An initial value with the equals sign before it. -/
def initialLayout : Option Expr → List Part
  | some e => [.text " = ", .expr e .assignment]
  | none => []

theorem Renders.initial {init : Option Expr} (h : ∀ e ∈ init, Expr.Specialized ev e) (settled : pl.Settled) :
    Renders ev env pl start (initialLayout init) (residualOption ev pl.registry env init) InitialWrites := by
  cases init with
  | none => exact .nil .none
  | some e =>
    refine .text (.cons ((h e rfl).phrase settled nofun) fun e' cs _ phrase => .nil ?_)
    simpa using InitialWrites.some phrase

structure Param.Specialized (ev : Evaluator) (q : Param) : Prop where
  pattern : q.pattern.isPrintable = true
  default : ∀ e ∈ q.default, Expr.Specialized ev e

/-- What is left of a parameter. -/
def residualParam (ev : Evaluator) (r : Registry) (env : Env) (q : Param) : Specialize Param := do
  return ⟨q.span, q.pattern, ← residualOption ev r env q.default, q.rest⟩

theorem residualParams_eq (r : Registry) (env : Env) (ps : List Param) :
    residualParams ev r env ps = ps.mapM (residualParam ev r env) := by
  induction ps with
  | nil => rfl
  | cons q ps ih =>
    obtain ⟨s, pattern, default, rest⟩ := q
    simp only [residualParams, ih, List.mapM_cons, residualParam, bind_assoc, pure_bind]

theorem Param.Specialized.renders {q : Param} (h : Param.Specialized ev q) (settled : pl.Settled) :
    Renders ev env pl start q.layout (residualParam ev pl.registry env q) fun q' cs =>
      Writes (ParamPhrase q') cs := by
  obtain ⟨s, pattern, default, rest⟩ := q
  have layout : Param.layout ⟨s, pattern, default, rest⟩
      = .text (if rest then "..." else "") :: .pattern pattern :: (initialLayout default ++ []) := by
    cases default <;> rfl
  rw [layout]
  refine .text (.pattern (.append (.initial h.default settled) fun default' cs _ initial => .nil ?_))
  simpa using Writes.param (s := s) rest h.pattern initial

theorem Renders.params {params : List Param} (h : ∀ q ∈ params, Param.Specialized ev q) (settled : pl.Settled) :
    Renders ev env pl start (paramsLayout params) (residualParams ev pl.registry env params) fun params' cs =>
      ∃ ds, cs = '(' :: (ds ++ [')']) ∧ Writes (Items ParamPhrase params') ds := by
  refine .text ?_
  rw [residualParams_eq, ← bind_pure (params.mapM _)]
  refine .append (.separated fun q hq _ => (h q hq).renders settled) fun params' ds _ written => ?_
  exact .text (.nil ⟨ds, by simp, written.2⟩)

structure Declarator.Specialized (ev : Evaluator) (d : Declarator) : Prop where
  pattern : d.pattern.isPrintable = true
  init : ∀ e ∈ d.init, Expr.Specialized ev e

/-- What is left of a declarator. -/
def residualDeclarator (ev : Evaluator) (r : Registry) (env : Env) (d : Declarator) : Specialize Declarator := do
  return ⟨d.pattern, ← residualOption ev r env d.init⟩

theorem residualDeclarators_eq (r : Registry) (env : Env) (ds : List Declarator) :
    residualDeclarators ev r env ds = ds.mapM (residualDeclarator ev r env) := by
  induction ds with
  | nil => rfl
  | cons d ds ih =>
    obtain ⟨pattern, init⟩ := d
    simp only [residualDeclarators, ih, List.mapM_cons, residualDeclarator, bind_assoc, pure_bind]

theorem Declarator.Specialized.renders {d : Declarator} (h : Declarator.Specialized ev d) (settled : pl.Settled) :
    Renders ev env pl start d.layout (residualDeclarator ev pl.registry env d) fun d' cs =>
      Writes (DeclaratorPhrase d') cs := by
  obtain ⟨pattern, init⟩ := d
  have layout : Declarator.layout ⟨pattern, init⟩ = .pattern pattern :: (initialLayout init ++ []) := by
    cases init <;> rfl
  rw [layout]
  refine .pattern (.append (.initial h.init settled) fun init' cs _ initial => .nil ?_)
  simpa using Writes.declarator h.pattern initial

structure VarDecl.Specialized (ev : Evaluator) (d : VarDecl) : Prop where
  some : d.declarators ≠ []
  all : ∀ q ∈ d.declarators, Declarator.Specialized ev q

theorem VarDecl.Specialized.renders {d : VarDecl} (h : VarDecl.Specialized ev d) (settled : pl.Settled) :
    Renders ev env pl start d.layout (residualDecl ev pl.registry env d) fun d' cs => Writes (DeclPhrase d') cs := by
  obtain ⟨s, kind, decls⟩ := d
  refine .text ?_
  rw [residualDecl, residualDeclarators_eq, ← List.append_nil (separate _ _)]
  refine .append (.separated fun q hq _ => (h.all q hq).renders settled) ?_
  rintro decls' cs _ ⟨length, written⟩
  have some : decls' ≠ [] := by
    rintro rfl
    exact h.some (List.length_eq_zero_iff.1 length.symm)
  refine .nil ?_
  simpa using Writes.varDecl (s := s) kind some written

/-! ### Functions -/

def FuncBody.Specialized (ev : Evaluator) : FuncBody → Prop
  | .block body => ∀ s ∈ body, Stmt.Specialized ev s
  | .expr e => Expr.Specialized ev e

structure Func.Specialized (ev : Evaluator) (f : Func) : Prop where
  params : ∀ q ∈ f.params, Param.Specialized ev q
  body : FuncBody.Specialized ev f.body

/-- What is printed for a function with its keyword. -/
theorem Func.Specialized.function {f : Func} (h : Func.Specialized ev f) (hp : f.isPrintable = true)
    (ha : f.isArrow = false) (settled : pl.Settled) (alone : pl.inBody = false) :
    Renders ev env pl start f.layout (residualFunc ev pl.registry env f) fun f' cs =>
      Writes (FuncPhrase f') cs ∧ f'.name = f.name ∧ f'.isArrow = false ∧ Opens cs := by
  obtain ⟨name, params, body, isArrow⟩ := f
  cases ha
  simp only [Func.isPrintable, Bool.and_eq_true] at hp
  cases body with
  | expr e => simp at hp
  | block body =>
    refine .text (.append (.params h.params settled) ?_)
    rintro params' _ _ ⟨ds, rfl, params⟩
    simp only [residualBody, bind_assoc, pure_bind]
    refine .text ?_
    rw [← List.append_nil (blockLayout body)]
    refine .append (.block h.body settled alone) ?_
    rintro rest _ _ ⟨bs, rfl, statements⟩
    have := Writes.function hp.1.1.1 params statements
    refine .nil ⟨?_, rfl, rfl, ?_⟩
    · cases name <;> simpa [nameText] using this
    · rw [String.toList_append, List.append_assoc]
      exact .cons (by decide)

/-- The body of an arrow, right after it. -/
def arrowLayout : FuncBody → List Part
  | .block body => blockLayout body
  | .expr e => if e.isObject then parenthesized e else [.expr e .assignment]

theorem FuncBody.Specialized.renders {body : FuncBody} (h : FuncBody.Specialized ev body)
    (hp : body.isPrintable = true) (settled : pl.Settled) (alone : pl.inBody = false) :
    Renders ev env pl true (arrowLayout body) (residualBody ev pl.registry env body) fun body' cs =>
      Writes (ArrowBody body') cs := by
  cases body with
  | block body =>
    rw [residualBody]
    refine .map ((Renders.block h settled alone).mono ?_)
    rintro rest _ ⟨ds, rfl, statements⟩
    exact statements.blockBody
  | expr e =>
    have special : Expr.Specialized ev e := h
    simp only [FuncBody.isPrintable, Bool.and_eq_true, Expr.isArrowBody, Bool.or_eq_true, Bool.not_eq_true'] at hp
    rw [residualBody]
    refine .map ?_
    cases object : e.isObject with
    | true =>
      rw [arrowLayout, if_pos object]
      refine (special.parens settled).mono ?_
      rintro e' _ ⟨ds, rfl, placed⟩
      obtain ⟨ts, hl, hg⟩ := placed.phrase
      exact ⟨inParens ts, hl.inParens, .expr (.parens hg) (by rintro ⟨⟩)⟩
    | false =>
      have clear : e.leftmost.isObject = false := by simpa [object] using hp.1
      rw [arrowLayout, object]
      exact (special env pl true .assignment settled nofun).mono fun e' cs placed => placed.arrowBody clear

/-- What is printed for an arrow. -/
theorem Func.Specialized.arrow {f : Func} (h : Func.Specialized ev f) (hp : f.isPrintable = true)
    (ha : f.isArrow = true) (settled : pl.Settled) (alone : pl.inBody = false) :
    Renders ev env pl start f.layout (residualFunc ev pl.registry env f) fun f' cs =>
      (∀ s, Writes (Phrase .assignment (.function s f')) cs) ∧ f'.isArrow = true ∧ Opens cs := by
  obtain ⟨name, params, body, isArrow⟩ := f
  cases ha
  simp only [Func.isPrintable, Bool.and_eq_true, if_true, Option.isNone_iff_eq_none] at hp
  obtain ⟨⟨-, printable⟩, rfl⟩ := hp
  have layout : Func.layout ⟨none, params, body, true⟩ = paramsLayout params ++ .text " => " :: arrowLayout body := by
    cases body <;> rfl
  rw [residualFunc, layout]
  refine .append (.params h.params settled) ?_
  rintro params' _ _ ⟨ds, rfl, params⟩
  refine .text (.map ((h.body.renders printable settled alone).mono fun body' bs written => ?_))
  refine ⟨fun s => ?_, rfl, .cons (by decide)⟩
  simpa using Writes.arrow (s := s) (Precedence.le_refl _) params written

theorem Expr.Specialized.function {s : Span} {f : Func} (h : Func.Specialized ev f) (hp : f.isPrintable = true) :
    Expr.Specialized ev (.function s f) := by
  refine of_inner nofun fun env pl start settled alone kept => ?_
  unfold residualExpr
  simp only [kept]
  refine .map ?_
  cases ha : f.isArrow with
  | true =>
    refine (h.arrow hp ha settled alone).mono ?_
    rintro f' cs ⟨phrase, arrow, opens⟩
    refine .kept ?_ rfl rfl (fun _ _ => opens) ?_
    · simpa [Expr.precedence, ha] using phrase s
    · rintro _ _ ⟨⟩
      simp [arrow]
  | false =>
    refine (h.function hp ha settled alone).mono ?_
    rintro f' cs ⟨phrase, -, arrow, opens⟩
    refine .kept (phrase.mono fun _ => .function) rfl rfl (fun _ _ => opens) fun _ _ _ _ => ?_
    simp [Expr.startsAmbiguously, Expr.leftmost, ha]

end

/-! ### Statements -/

namespace Stmt.Specialized

variable {ev : Evaluator} {s : Span} {e : Expr} {body : Stmt}

theorem expr (h : Expr.Specialized ev e) : Stmt.Specialized ev (.expr s e) := by
  refine of_kept nofun (fun _ => rfl) fun env pl start settled _ => ?_
  rw [residualStmt_expr, Stmt.layout]
  have begins : Renders ev env pl true (if e.startsAmbiguously then parenthesized e else [.expr e .lowest])
      (residualExpr ev pl.registry env e) fun e' cs => Writes (StartPhrase e') cs := by
    split
    · refine (h.parens settled).mono ?_
      rintro e' _ ⟨ds, rfl, placed⟩
      exact placed.phrase.startParens
    · rename_i clear
      exact (h env pl true .lowest settled nofun).mono fun e' cs placed => placed.starts (by simpa using clear)
  refine .append begins fun e' cs _ written => .text (.nil ?_)
  exact ⟨_, rfl, by simpa using written.exprStmt (s := s), nofun⟩

theorem decl {d : VarDecl} (h : VarDecl.Specialized ev d) : Stmt.Specialized ev (.decl d) := by
  refine of_kept nofun (fun _ => rfl) fun env pl start settled _ => ?_
  rw [residualStmt_decl, Stmt.layout]
  refine .append (h.renders settled) fun d' cs _ written => .text (.nil ?_)
  exact ⟨_, rfl, by simpa using written.declStmt, nofun⟩

theorem function {f : Func} (h : Func.Specialized ev f) (hp : f.isPrintable = true) (named : f.name.isSome = true) :
    Stmt.Specialized ev (.function s f) := by
  refine of_kept nofun (fun _ => rfl) fun env pl start settled alone => ?_
  rw [residualStmt_function, Stmt.layout]
  refine .map ((h.function hp (Func.isArrow_eq_false hp named) settled alone).mono ?_)
  rintro f' cs ⟨phrase, name, -, -⟩
  exact ⟨_, rfl, phrase.mono fun _ => .function (by rw [name]; exact named), nofun⟩

theorem return_ {e : Option Expr} (h : ∀ a ∈ e, Expr.Specialized ev a) : Stmt.Specialized ev (.return_ s e) := by
  refine of_kept nofun (fun _ => rfl) fun env pl start settled _ => ?_
  rw [residualStmt_return]
  cases e with
  | none =>
    refine .text (.nil ⟨_, rfl, ?_, nofun⟩)
    simpa using Writes.returnNothing (s := s)
  | some e =>
    rw [residualOption]
    simp only [bind_assoc, pure_bind]
    refine .text (.cons ((h e rfl).phrase settled nofun) fun e' cs _ phrase => .text (.nil ⟨_, rfl, ?_, nofun⟩))
    simpa using phrase.return_ (s := s)

theorem throw_ (h : Expr.Specialized ev e) : Stmt.Specialized ev (.throw_ s e) := by
  refine of_kept nofun (fun _ => rfl) fun env pl start settled _ => ?_
  rw [residualStmt_throw]
  refine .text (.cons (h.phrase settled nofun) fun e' cs _ phrase => .text (.nil ⟨_, rfl, ?_, nofun⟩))
  simpa using phrase.throw_ (s := s)

theorem empty : Stmt.Specialized ev (.empty s) := by
  refine of_kept nofun (fun _ => rfl) fun env pl start _ _ => ?_
  refine .text (.nil ⟨_, rfl, ?_, nofun⟩)
  simpa using Writes.empty (s := s)

theorem block {body : List Stmt} (h : ∀ b ∈ body, Stmt.Specialized ev b) : Stmt.Specialized ev (.block s body) := by
  refine ⟨runs_of (fun env pl start bounded _ => ?_) nofun, fun env pl start bounded alone fs start' emits => ?_⟩
  · rw [residualStmt_block]
    refine .map ((Renders.block h (bounded.inside _) rfl).mono ?_)
    rintro rest _ ⟨ds, rfl, statements⟩
    exact ⟨_, rfl, statements.block, nofun⟩
  · exact Runs.statements h bounded alone emits

theorem while_ (ht : Expr.Specialized ev e) (hb : Stmt.Specialized ev body) :
    Stmt.Specialized ev (.while_ s e body) := by
  refine of_kept nofun (fun _ => rfl) fun env pl start settled inBody => ?_
  rw [residualStmt_while]
  refine .text (.cons (ht.phrase settled nofun) fun e' cs _ test => .text ?_)
  refine .cons (hb.single settled inBody) ?_
  rintro rest ds _ ⟨inner, ends⟩
  refine .nil ⟨_, rfl, ?_, ends⟩
  simpa using test.while_ (s := s) inner

end Stmt.Specialized

/-! ### Loops and handlers -/

section

variable {ev : Evaluator} {env : Env} {pl : Place} {start : Bool}

theorem Renders.clause {e : Option Expr} (h : ∀ a ∈ e, Expr.Specialized ev a) (settled : pl.Settled) :
    Renders ev env pl start (clauseLayout e) (residualOption ev pl.registry env e) fun e' cs =>
      Writes (ClausePhrase e') cs := by
  cases e with
  | none => exact .nil .noClause
  | some e =>
    refine .text (.cons ((h e rfl).phrase settled nofun) fun e' cs _ phrase => .nil ?_)
    simpa using phrase.clause.space

/-- The first clause of a loop's head. -/
def initLayout : Option ForInit → List Part
  | some i => i.layout
  | none => []

def ForInit.Specialized (ev : Evaluator) : Option ForInit → Prop
  | none => True
  | some (.decl d) => VarDecl.Specialized ev d
  | some (.expr e) => Expr.Specialized ev e

theorem ForInit.Specialized.renders {init : Option ForInit} (h : ForInit.Specialized ev init) (settled : pl.Settled) :
    Renders ev env pl start (initLayout init) (residualInit ev pl.registry env init) fun init' cs =>
      Writes (ForInitPhrase init') cs := by
  match init with
  | none => exact .nil ⟨[], .nil, .none⟩
  | some (.decl d) =>
    have special : VarDecl.Specialized ev d := h
    exact .map ((special.renders settled).mono fun d' cs phrase => phrase.mono fun _ => .decl)
  | some (.expr e) =>
    have special : Expr.Specialized ev e := h
    refine .map ((special env pl start .lowest settled nofun).mono fun e' cs placed => ?_)
    exact placed.phrase.mono fun _ => .expr

/-- The handler of a `try` statement. -/
def handlerLayout : Option CatchClause → List Part
  | some ⟨some p, body⟩ => .text " catch (" :: .pattern p :: .text ") " :: blockLayout body
  | some ⟨none, body⟩ => .text " catch " :: blockLayout body
  | none => []

structure CatchClause.Specialized (ev : Evaluator) (c : CatchClause) : Prop where
  param : c.param.all Pattern.isPrintable = true
  body : ∀ s ∈ c.body, Stmt.Specialized ev s

theorem Renders.handler {handler : Option CatchClause} (h : ∀ c ∈ handler, CatchClause.Specialized ev c)
    (settled : pl.Settled) (alone : pl.inBody = false) :
    Renders ev env pl start (handlerLayout handler) (residualHandler ev pl.registry env handler) fun handler' cs =>
      Writes (HandlerPhrase handler') cs ∧ handler'.isNone = handler.isNone := by
  match handler with
  | none => exact .nil ⟨.noHandler, rfl⟩
  | some ⟨none, body⟩ =>
    have special := h _ rfl
    rw [residualHandler]
    refine .text (.map ((Renders.block special.body settled alone).mono ?_))
    rintro rest _ ⟨ds, rfl, statements⟩
    exact ⟨by simpa using statements.handler, rfl⟩
  | some ⟨some p, body⟩ =>
    have special := h _ rfl
    have printable : p.isPrintable = true := by simpa using special.param
    rw [residualHandler]
    refine .text (.pattern (.text (.map ((Renders.block special.body settled alone).mono ?_))))
    rintro rest _ ⟨ds, rfl, statements⟩
    exact ⟨by simpa using statements.handlerBinding printable, rfl⟩

/-- The `finally` clause of a `try` statement. -/
def finalLayout : Option (List Stmt) → List Part
  | some body => .text " finally " :: blockLayout body
  | none => []

theorem Renders.final {finalizer : Option (List Stmt)} (h : ∀ body ∈ finalizer, ∀ s ∈ body, Stmt.Specialized ev s)
    (settled : pl.Settled) (alone : pl.inBody = false) :
    Renders ev env pl start (finalLayout finalizer) (residualFinal ev pl.registry env finalizer) fun finalizer' cs =>
      Writes (FinalPhrase finalizer') cs ∧ (∀ c, cs.head? = some c → isSeparator c = true)
        ∧ finalizer'.isNone = finalizer.isNone := by
  cases finalizer with
  | none => exact .nil ⟨.noFinalizer, nofun, rfl⟩
  | some body =>
    rw [residualFinal]
    refine .text (.map ((Renders.block (h body rfl) settled alone).mono ?_))
    rintro rest _ ⟨ds, rfl, statements⟩
    refine ⟨by simpa using statements.finalizer, ?_, rfl⟩
    rintro _ ⟨⟩
    rfl

end

namespace Stmt.Specialized

variable {ev : Evaluator} {s : Span} {e : Expr} {body : Stmt}

theorem for_ {init : Option ForInit} {test update : Option Expr} (hi : ForInit.Specialized ev init)
    (ht : ∀ a ∈ test, Expr.Specialized ev a) (hu : ∀ a ∈ update, Expr.Specialized ev a)
    (hb : Stmt.Specialized ev body) : Stmt.Specialized ev (.for_ s init test update body) := by
  refine of_kept nofun (fun _ => rfl) fun env pl start settled inBody => ?_
  have layout : (Stmt.for_ s init test update body).layout = .text "for (" :: (initLayout init
      ++ .text ";" :: (clauseLayout test ++ .text ";" :: (clauseLayout update ++ [.text ") ", .stmt body]))) := by
    cases init <;> simp [Stmt.layout, initLayout]
  rw [residualStmt_for, layout]
  refine .text (.append (hi.renders settled) fun init' is _ first => .text ?_)
  refine .append (.clause ht settled) fun test' ts _ second => .text ?_
  refine .append (.clause hu settled) fun update' us _ third => .text ?_
  refine .cons (hb.single settled inBody) ?_
  rintro rest bs _ ⟨inner, ends⟩
  refine .nil ⟨_, rfl, ?_, ends⟩
  simpa using Writes.for_ (s := s) first second third inner

theorem try_ {body : List Stmt} {handler : Option CatchClause} {finalizer : Option (List Stmt)}
    (hb : ∀ b ∈ body, Stmt.Specialized ev b) (hh : ∀ c ∈ handler, CatchClause.Specialized ev c)
    (hf : ∀ c ∈ finalizer, ∀ b ∈ c, Stmt.Specialized ev b)
    (clauses : (handler.isNone && finalizer.isNone) = false) :
    Stmt.Specialized ev (.try_ s body handler finalizer) := by
  refine of_kept nofun (fun _ => rfl) fun env pl start settled alone => ?_
  have layout : (Stmt.try_ s body handler finalizer).layout
      = .text "try " :: (blockLayout body ++ (handlerLayout handler ++ (finalLayout finalizer ++ []))) := by
    match handler with
    | none => cases finalizer <;> simp [Stmt.layout, handlerLayout, finalLayout]
    | some ⟨none, _⟩ => cases finalizer <;> simp [Stmt.layout, handlerLayout, finalLayout]
    | some ⟨some _, _⟩ => cases finalizer <;> simp [Stmt.layout, handlerLayout, finalLayout]
  rw [residualStmt_try, layout]
  refine .text (.append (.block hb settled alone) ?_)
  rintro rest _ _ ⟨bs, rfl, statements⟩
  refine .append (.handler hh settled alone) ?_
  rintro handler' hs _ ⟨handles, same⟩
  refine .append (.final hf settled alone) ?_
  rintro finalizer' fs _ ⟨ending, separates, same'⟩
  refine .nil ⟨_, rfl, ?_, by simp [Stmt.endsOpen]⟩
  simpa using Writes.try_ (s := s) statements handles ending (by rw [same, same', clauses]) separates

end Stmt.Specialized

/-! ### Statements that are kept only where they are not staged -/

section

variable {ev : Evaluator} {env : Env} {pl : Place} {start : Bool} {s : Span} {body : Stmt}

theorem Renders.if_ {test : Expr} {yes : Stmt} {no : Option Stmt} (ht : Expr.Specialized ev test)
    (hy : Stmt.Specialized ev yes) (hn : ∀ b ∈ no, Stmt.Specialized ev b)
    (closed : (no.isSome && yes.endsOpen) = false) (settled : pl.Settled) (inBody : pl.inBody = true) :
    Renders ev env pl start (Stmt.if_ s test yes no).layout
      (do
        let test ← residualExpr ev pl.registry env test
        let yes' ← residualStmt ev pl.registry env yes
        let no' ← residualSingle ev pl.registry env no
        return keeping (.if_ s test (single (isStaged pl.registry yes) yes') no'))
      (Kept (.if_ s test yes no)) := by
  cases no with
  | none =>
    refine .text (.cons (ht.phrase settled nofun) fun test' ts _ holds => .text ?_)
    refine .cons (hy.single settled inBody) ?_
    rintro rest ys _ ⟨inner, ends⟩
    refine .nil ⟨_, rfl, ?_, fun _ => rfl⟩
    simpa using holds.if_ (s := s) inner
  | some no =>
    have closed : yes.endsOpen = false := by simpa using closed
    have layout : (Stmt.if_ s test yes (some no)).layout
        = [.text "if (", .expr test .lowest, .text ") ", .stmt yes, .text " else ", .stmt no] := by
      simp [Stmt.layout, closed]
    rw [layout]
    refine .text (.cons (ht.phrase settled nofun) fun test' ts _ holds => .text ?_)
    refine .cons (hy.single settled inBody) ?_
    rintro rest ys _ ⟨inner, ends⟩
    rw [residualSingle]
    simp only [bind_assoc, pure_bind]
    refine .text (.cons ((hn no rfl).single settled inBody) ?_)
    rintro rest' ns _ ⟨inner', ends'⟩
    have closed' : (single (isStaged pl.registry yes) rest).endsOpen = false := by
      by_contra ends''
      simp [ends (by simpa using ends'')] at closed
    refine .nil ⟨_, rfl, ?_, ends'⟩
    simpa using holds.ifElse (s := s) inner closed' inner'

theorem Renders.forEach {kind : IterKind} {decl : Option DeclKind} {pattern : Pattern} {source : Expr}
    (hp : pattern.isPrintable = true) (hs : Expr.Specialized ev source) (hb : Stmt.Specialized ev body)
    (settled : pl.Settled) (inBody : pl.inBody = true) :
    Renders ev env pl start (Stmt.forEach s kind decl pattern source body).layout
      (do
        let source ← residualExpr ev pl.registry env source
        let body' ← residualStmt ev pl.registry env body
        return keeping (.forEach s kind decl pattern source (single (isStaged pl.registry body) body')))
      (Kept (.forEach s kind decl pattern source body)) := by
  refine .text (.pattern (.text (.cons (hs.phrase settled nofun) fun source' ss _ phrase => .text ?_)))
  refine .cons (hb.single settled inBody) ?_
  rintro rest bs _ ⟨inner, ends⟩
  refine .nil ⟨_, rfl, ?_, ends⟩
  have := Writes.forEach (s := s) kind decl hp phrase inner
  cases decl <;> simpa [declText] using this

theorem Renders.labeled {label : String} (hl : isName label = true) (hb : Stmt.Specialized ev body)
    (settled : pl.Settled) (inBody : pl.inBody = true) :
    Renders ev env pl start (Stmt.labeled s label body).layout
      (do
        let body' ← residualStmt ev pl.registry env body
        return keeping (.labeled s label (single (isStaged pl.registry body) body')))
      (Kept (.labeled s label body)) := by
  refine .text (.cons (hb.single settled inBody) ?_)
  rintro rest bs _ ⟨inner, ends⟩
  refine .nil ⟨_, rfl, ?_, ends⟩
  simpa using inner.labeled (s := s) hl

end

end Staging.Template
