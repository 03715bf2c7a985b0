import Staging.Proofs.Template.PassThrough
import Staging.Proofs.Template.StagedStmt

/-!
Generating text refines specialising trees.

`Stmt.specialized` says of every printable statement that what is compiled from it runs to its residual
statements; the argument follows the recursion of the tree and uses, at each node, the lemma for the node.
With the parameters and the declarations in front it gives `execute_refines`: where a template has a residual
tree, its program gives a text that is read as that tree.
-/

namespace Staging.Template

open Script

/-! ### Every printable tree -/

section

variable (ev : Evaluator)

mutual

/-- What is compiled from a printable expression prints its residual tree. -/
theorem Expr.specialized : (e : Expr) → e.isPrintable = true → Expr.Specialized ev e
  | .literal s v, h => .literal h
  | .ident s n, h => .ident h
  | .array s items, h => .array (Expr.all_specialized items h)
  | .object s props, h => .object (Property.all_specialized props h)
  | .function s f, h => .function (Func.specialized f h) h
  | .unary s op e, h => .unary (Expr.specialized e h)
  | .update s op before e, h => .update (Expr.specialized e h)
  | .binary s op a b, h => by
    simp only [Expr.isPrintable, Bool.and_eq_true] at h
    exact .binary (Expr.specialized a h.1) (Expr.specialized b h.2)
  | .assign s op a b, h => by
    simp only [Expr.isPrintable, Bool.and_eq_true] at h
    exact .assign (Expr.specialized a h.1.2) (Expr.specialized b h.2)
  | .cond s a b c, h => by
    simp only [Expr.isPrintable, Bool.and_eq_true] at h
    exact .cond (Expr.specialized a h.1.1) (Expr.specialized b h.1.2) (Expr.specialized c h.2)
  | .member s o k optional, h => by
    simp only [Expr.isPrintable, Bool.and_eq_true] at h
    exact .member (Expr.specialized o h.1) (Key.specialized k h.2)
  | .call s c args optional, h => by
    simp only [Expr.isPrintable, Bool.and_eq_true] at h
    exact .call (Expr.specialized c h.1) (Expr.link_specialized c h.1) (Expr.all_specialized args h.2)
  | .new s c args, h => by
    simp only [Expr.isPrintable, Bool.and_eq_true] at h
    exact .new (Expr.specialized c h.1.2) (Expr.all_specialized args h.2)

/-- The parts of an access, for a call of a method. -/
theorem Expr.link_specialized : (c : Expr) → c.isPrintable = true → ∀ t o k keyOptional,
    c = .member t o k keyOptional → Expr.Specialized ev o ∧ Key.Specialized ev k
  | .member t o k keyOptional, h => by
    simp only [Expr.isPrintable, Bool.and_eq_true] at h
    rintro _ _ _ _ ⟨⟩
    exact ⟨Expr.specialized o h.1, Key.specialized k h.2⟩
  | .literal .., _ | .ident .., _ | .array .., _ | .object .., _ | .function .., _ | .unary .., _ | .update .., _
  | .binary .., _ | .assign .., _ | .cond .., _ | .call .., _ | .new .., _ => nofun

theorem Key.specialized : (k : Key) → k.isPrintable = true → Key.Specialized ev k
  | .named _, h => .named h
  | .computed e, h => .computed (Expr.specialized e h)

theorem Expr.all_specialized : (es : List Expr) → Expr.allPrintable es = true → ∀ e ∈ es, Expr.Specialized ev e
  | [], _ => by simp
  | e :: es, h => by
    simp only [Expr.allPrintable, Bool.and_eq_true] at h
    exact List.forall_mem_cons.2 ⟨Expr.specialized e h.1, Expr.all_specialized es h.2⟩

theorem Key.specialized_property : (k : Key) → k.isPropertyKey = true → Key.SpecializedProperty ev k
  | .named _, _ => .named _
  | .computed e, h => .computed (Expr.specialized e h)

theorem Property.all_specialized : (ps : List Property) → Property.allPrintable ps = true →
    ∀ p ∈ ps, Property.Specialized ev p
  | [], _ => by simp
  | ⟨k, v⟩ :: ps, h => by
    simp only [Property.allPrintable, Bool.and_eq_true] at h
    have first : Property.Specialized ev ⟨k, v⟩ := ⟨Key.specialized_property k h.1.1, Expr.specialized v h.1.2⟩
    exact List.forall_mem_cons.2 ⟨first, Property.all_specialized ps h.2⟩

theorem Expr.option_specialized : (e : Option Expr) → Expr.optionPrintable e = true →
    ∀ a ∈ e, Expr.Specialized ev a
  | none, _ => by simp
  | some e, h => by
    rintro _ ⟨⟩
    exact Expr.specialized e h

theorem Param.all_specialized : (ps : List Param) → Param.allPrintable ps = true →
    ∀ q ∈ ps, Param.Specialized ev q
  | [], _ => by simp
  | ⟨s, pattern, default, rest⟩ :: ps, h => by
    simp only [Param.allPrintable, Bool.and_eq_true] at h
    have first : Param.Specialized ev ⟨s, pattern, default, rest⟩ := ⟨h.1.1, Expr.option_specialized default h.1.2⟩
    exact List.forall_mem_cons.2 ⟨first, Param.all_specialized ps h.2⟩

theorem FuncBody.specialized : (b : FuncBody) → b.isPrintable = true → FuncBody.Specialized ev b
  | .block body, h => Stmt.all_specialized body h
  | .expr e, h => by
    simp only [FuncBody.isPrintable, Bool.and_eq_true] at h
    exact Expr.specialized e h.2

theorem Func.specialized : (f : Func) → f.isPrintable = true → Func.Specialized ev f
  | ⟨name, params, body, isArrow⟩, h => by
    simp only [Func.isPrintable, Bool.and_eq_true] at h
    exact ⟨Param.all_specialized params h.1.1.2, FuncBody.specialized body h.1.2⟩

theorem Declarator.all_specialized : (ds : List Declarator) → Declarator.allPrintable ds = true →
    ∀ d ∈ ds, Declarator.Specialized ev d
  | [], _ => by simp
  | ⟨pattern, init⟩ :: ds, h => by
    simp only [Declarator.allPrintable, Bool.and_eq_true] at h
    have first : Declarator.Specialized ev ⟨pattern, init⟩ := ⟨h.1.1, Expr.option_specialized init h.1.2⟩
    exact List.forall_mem_cons.2 ⟨first, Declarator.all_specialized ds h.2⟩

theorem VarDecl.specialized : (d : VarDecl) → d.isPrintable = true → VarDecl.Specialized ev d
  | ⟨s, kind, ds⟩, h => by
    simp only [VarDecl.isPrintable, Bool.and_eq_true, Bool.not_eq_true', List.isEmpty_eq_false_iff] at h
    exact ⟨h.1, Declarator.all_specialized ds h.2⟩

theorem ForInit.specialized : (i : Option ForInit) → ForInit.isPrintable i = true → ForInit.Specialized ev i
  | none, _ => trivial
  | some (.decl d), h => VarDecl.specialized d h
  | some (.expr e), h => Expr.specialized e h

theorem CatchClause.specialized : (c : Option CatchClause) → CatchClause.isPrintable c = true →
    ∀ a ∈ c, CatchClause.Specialized ev a
  | none, _ => by simp
  | some ⟨param, body⟩, h => by
    simp only [CatchClause.isPrintable, Bool.and_eq_true] at h
    rintro _ ⟨⟩
    exact ⟨h.1, Stmt.all_specialized body h.2⟩

theorem Stmt.option_specialized : (s : Option Stmt) → Stmt.optionPrintable s = true →
    ∀ a ∈ s, Stmt.Specialized ev a
  | none, _ => by simp
  | some s, h => by
    rintro _ ⟨⟩
    exact Stmt.specialized s h

theorem Stmt.final_specialized : (body : Option (List Stmt)) → Stmt.finalPrintable body = true →
    ∀ c ∈ body, ∀ a ∈ c, Stmt.Specialized ev a
  | none, _ => by simp
  | some body, h => by
    rintro _ ⟨⟩
    exact Stmt.all_specialized body h

theorem Stmt.all_specialized : (ss : List Stmt) → Stmt.allPrintable ss = true → ∀ s ∈ ss, Stmt.Specialized ev s
  | [], _ => by simp
  | s :: ss, h => by
    simp only [Stmt.allPrintable, Bool.and_eq_true] at h
    exact List.forall_mem_cons.2 ⟨Stmt.specialized s h.1, Stmt.all_specialized ss h.2⟩

/-- The parts of a loop, for a label at it. -/
theorem Stmt.loop_specialized : (s : Stmt) → s.isPrintable = true → ∀ span kind decl pattern source inner,
    s = .forEach span kind decl pattern source inner → pattern.isPrintable = true ∧ Stmt.Specialized ev inner
  | .forEach span kind decl pattern source inner, h => by
    simp only [Stmt.isPrintable, Bool.and_eq_true] at h
    rintro _ _ _ _ _ _ ⟨⟩
    exact ⟨h.1.1, Stmt.specialized inner h.2⟩
  | .expr .., _ | .decl .., _ | .function .., _ | .return_ .., _ | .if_ .., _ | .for_ .., _ | .while_ .., _
  | .break_ .., _ | .continue_ .., _ | .labeled .., _ | .throw_ .., _ | .try_ .., _ | .block .., _
  | .empty .., _ => nofun

/-- What is compiled from a printable statement runs to what it leaves. -/
theorem Stmt.specialized : (s : Stmt) → s.isPrintable = true → Stmt.Specialized ev s
  | .expr s e, h => .expr (Expr.specialized e h)
  | .decl d, h => .decl (VarDecl.specialized d h)
  | .function s f, h => by
    simp only [Stmt.isPrintable, Bool.and_eq_true] at h
    exact .function (Func.specialized f h.2) h.2 h.1
  | .return_ s e, h => .return_ (Expr.option_specialized e h)
  | .if_ s test yes no, h => by
    simp only [Stmt.isPrintable, Bool.and_eq_true, Bool.not_eq_true'] at h
    exact .if_ (Expr.specialized test h.1.1.1) (Stmt.specialized yes h.1.1.2) (Stmt.option_specialized no h.1.2) h.2
  | .for_ s init test update body, h => by
    simp only [Stmt.isPrintable, Bool.and_eq_true] at h
    exact .for_ (ForInit.specialized init h.1.1.1) (Expr.option_specialized test h.1.1.2)
      (Expr.option_specialized update h.1.2) (Stmt.specialized body h.2)
  | .forEach s kind decl pattern source body, h => by
    simp only [Stmt.isPrintable, Bool.and_eq_true] at h
    exact .forEach h.1.1 (Expr.specialized source h.1.2) (Stmt.specialized body h.2)
  | .while_ s test body, h => by
    simp only [Stmt.isPrintable, Bool.and_eq_true] at h
    exact .while_ (Expr.specialized test h.1) (Stmt.specialized body h.2)
  | .break_ s label, h => .break_ h
  | .continue_ s label, h => .continue_ h
  | .labeled s label body, h => by
    simp only [Stmt.isPrintable, Bool.and_eq_true] at h
    exact .labeled h.1 (Stmt.specialized body h.2) (Stmt.loop_specialized body h.2)
  | .throw_ s e, h => .throw_ (Expr.specialized e h)
  | .try_ s body handler finalizer, h => by
    simp only [Stmt.isPrintable, Bool.and_eq_true, Bool.not_eq_true'] at h
    exact .try_ (Stmt.all_specialized body h.1.1.1) (CatchClause.specialized handler h.1.1.2)
      (Stmt.final_specialized finalizer h.1.2) h.2
  | .block s body, h => .block (Stmt.all_specialized body h)
  | .empty s, _ => .empty

end

end

/-! ### Programs -/

/-- A text of statements is read as these statements. -/
theorem parseProgram_of_writes {text : String} {tree : List Stmt} (h : Writes (Sequence Sentence tree) text.toList) :
    ∃ read, parseProgram text = .ok read ∧ read.map Stmt.bare = tree.map Stmt.bare := by
  obtain ⟨ts, hl, hg⟩ := h
  obtain ⟨ls, scanned, rfl⟩ := hl.scan
  obtain ⟨read, parsed, same⟩ := parseLexemes_eq_ok text.utf8ByteSize hg
  exact ⟨read, by simp only [parseProgram, scanned, parsed], same⟩

section

variable {ev : Evaluator}

/-- The declarations in front of the generated code. -/
theorem Runs.preamble {names : List String} (h : ∀ n ∈ names, isName n = true) (env : Env) :
    Prints ev env (names.flatMap declarationFragments)
      (residualDeclarations .const (fun name => ev.expr env (.ident nowhere name)) names) fun ds cs =>
        Writes (Sequence Sentence ds) cs := by
  induction names with
  | nil => exact .pure ⟨rfl, .noStatements⟩
  | cons n names ih =>
    rw [Prints, List.flatMap_cons, declarationFragments, residualDeclarations]
    simp only [List.cons_append, List.nil_append, runFragments, Fragment.run, runStep, bind_assoc, pure_bind,
      needsParens_lowest, parenthesize]
    refine .text _ (.after fun v => (Runs.written v).bind ?_)
    rintro e code _ ⟨spelled, -, rfl⟩
    refine .text _ (.text _ (.map ((ih fun m hm => h m (by simp [hm])).mono ?_)))
    rintro ds _ cs ⟨rfl, writes⟩
    have first := Writes.declaration .const (h n (by simp)) spelled.item
    exact ⟨rfl, by simpa [DeclKind.text] using first.oneStatement.statements_append writes⟩

theorem Runs.params {context : Context} {env : Env} (names : List String) :
    Runs (declareParams context env names) (bindParams context env names) fun _ _ cs => cs = [] := by
  induction names with
  | nil => exact .pure rfl
  | cons n names ih =>
    rw [declareParams, List.forM, bindParams]
    cases context.get? n with
    | some v => exact .after fun _ => ih
    | none =>
      rintro s _ ⟨⟩
      exact ⟨s.out, rfl⟩

/-- A run of the program beside what is left of the template. -/
theorem Runs.program (ev : Evaluator) {r : Registry} {body : List Stmt} {p : Program} (compiles : compile r body = .ok p)
    (printable : Stmt.allPrintable body = true) (names : ∀ n ∈ r.declared, isName n = true) (context : Context) :
    Runs (runMain ev p context) (residualProgram ev r body context) fun tree _ cs =>
      Writes (Sequence Sentence tree) cs := by
  obtain ⟨fs, start, emits, rfl⟩ := compile_ok_iff.1 compiles
  have bounded : (Place.top r).Bounded := nofun
  rw [runMain, residualProgram]
  refine .after fun globals => .after fun env => ?_
  refine (Runs.params r.staged).bind ?_
  rintro _ _ _ rfl
  simp only [runAll_eq, runFragments_append, bind_assoc]
  refine (Runs.preamble names env).bind ?_
  rintro declarations _ cs ⟨rfl, declared⟩
  refine (Runs.statements (Stmt.all_specialized ev body printable) bounded rfl emits).bind ?_
  rintro ⟨rest, _⟩ flow ds ⟨rfl, writes, -⟩
  exact .pure (by simpa using declared.statements_append writes)

end

/--
**Generating text refines specialising trees.** Where a template with a printable body has a residual tree, its
program gives a text that is read as that tree, up to spans, and the interpreter is left in the same state. Where
evaluating fails or a parameter has no value, the program halts for that reason.
-/
theorem execute_refines {r : Registry} {body : List Stmt} {p : Program} (compiles : compile r body = .ok p)
    (printable : Stmt.allPrintable body = true) (names : ∀ n ∈ r.declared, isName n = true) (host : Host)
    (fuel : Nat) (context : Context) (s : State) :
    (∀ tree s', residual host fuel r body context s = .ok tree s' →
      ∃ text read, execute host fuel p context s = .ok (.ok text) s'
        ∧ parseProgram text = .ok read ∧ read.map Stmt.bare = tree.map Stmt.bare)
    ∧ ∀ o s', residual host fuel r body context s = .error o s' →
      (∀ e, o.halt? = some (.refused e) → execute host fuel p context s = .ok (.error e) s')
        ∧ (o.halt? = some .outOfFuel → execute host fuel p context s = .error .outOfFuel s') := by
  have run := Runs.program (evaluator host fuel) compiles printable names context
    { toState := { s with depth := 0 }, out := "" }
  simp only [residual, execute]
  cases hr : residualProgram (evaluator host fuel) r body context { s with depth := 0 } with
  | ok tree st =>
    rw [hr] at run
    obtain ⟨_, text, runs, writes⟩ := run
    obtain ⟨read, parses, same⟩ := parseProgram_of_writes writes
    constructor
    · rintro _ _ ⟨⟩
      refine ⟨text, read, ?_, parses, same⟩
      simp only [runs, String.empty_append]
    · rintro _ _ ⟨⟩
  | error o st =>
    rw [hr] at run
    constructor
    · rintro _ _ ⟨⟩
    · rintro _ _ ⟨⟩
      constructor
      · intro e he
        obtain ⟨out, halts⟩ := run _ he
        simp only [halts]
      · intro he
        obtain ⟨out, halts⟩ := run _ he
        simp only [halts]

/-- The text that a run gives, if it gives one. -/
def textOf? : EStateM.Result Fault State (Except StagingError String) → Option String
  | .ok (.ok text) _ => some text
  | _ => none

theorem exists_of_textOf? {run : EStateM.Result Fault State (Except StagingError String)} {text : String}
    (h : textOf? run = some text) : ∃ s', run = .ok (.ok text) s' := by
  unfold textOf? at h
  split at h
  · cases h
    exact ⟨_, rfl⟩
  · cases h

/-- Two names whose values are written. -/
def flagAndObject : Registry := ⟨["$c", "$o"], ["$c", "$o"], [], true⟩

/-- The statement `$o == y;`. -/
def comparison : Stmt := .expr nowhere (.binary nowhere .eq (.ident nowhere "$o") (.ident nowhere "y"))

/-- The template `if ($c) $o == y;`. -/
def comparisonIf : Stmt := .if_ nowhere (.ident nowhere "$c") comparison none

/-- What is compiled from `comparisonIf`. -/
def comparisonProgram : Program :=
  ⟨["$c", "$o"], [.if_ (.ident nowhere "$c") [.inline (.ident nowhere "$o") .equality true, .literal " == y;"] none]⟩

theorem compile_comparisonIf : compile flagAndObject [comparisonIf] = .ok comparisonProgram := by
  have branch : (Place.top flagAndObject).plan comparisonIf = .branch (.ident nowhere "$c") comparison none := by cbv
  have object : planExpr flagAndObject (.ident nowhere "$o") .equality = .inline := by cbv
  have other : planExpr flagAndObject (.ident nowhere "y") .relational = .keep [.text "y"] := by cbv
  have inner : Emits (Place.top flagAndObject).aside false [.stmt comparison] _ _ :=
    .keepStmt rfl (.keepExpr rfl (.inline object (.text (.keepExpr other (.text .nil) .nil))) (.text .nil)) .nil
  exact compile_ok_iff.2 ⟨_, _, .branch branch inner .nil, by rfl⟩

/-- An object at the start of a statement gets parentheses, and is read as the object it was. -/
theorem execute_refines_comparison :
    compile flagAndObject [comparisonIf] = .ok comparisonProgram
    ∧ Stmt.allPrintable [comparisonIf] = true
    ∧ (∀ n ∈ flagAndObject.declared, isName n = true)
    ∧ ∀ host, ∃ s' read,
      residual host 1 flagAndObject [comparisonIf] [("$c", .bool true), ("$o", .object 0)] { objects := #[[]] }
        = .ok [.expr nowhere (.binary nowhere .eq (.object nowhere []) (.ident nowhere "y"))] s'
      ∧ execute host 1 comparisonProgram [("$c", .bool true), ("$o", .object 0)] { objects := #[[]] }
        = .ok (.ok "(\x7b\x7d) == y;") s'
      ∧ parseProgram "(\x7b\x7d) == y;" = .ok read
      ∧ read.map Stmt.bare
        = [.expr nowhere (.binary nowhere .eq (.object nowhere []) (.ident nowhere "y"))].map Stmt.bare := by
  have printable : Stmt.allPrintable [comparisonIf] = true := by decide
  have names : ∀ n ∈ flagAndObject.declared, isName n = true := by decide
  refine ⟨compile_comparisonIf, printable, names, fun host => ?_⟩
  have known : isDecidable flagAndObject (.ident nowhere "$c") = true := by cbv
  have inlined : fate flagAndObject (.ident nowhere "$o") = .inline := by cbv
  have kept : fate flagAndObject (.ident nowhere "y") = .keep := by cbv
  have whole : fate flagAndObject (.binary nowhere .eq (.ident nowhere "$o") (.ident nowhere "y")) = .keep := rfl
  obtain ⟨s', left⟩ : ∃ s', residual host 1 flagAndObject [comparisonIf] [("$c", .bool true), ("$o", .object 0)]
      { objects := #[[]] }
      = .ok [.expr nowhere (.binary nowhere .eq (.object nowhere []) (.ident nowhere "y"))] s' := by
    apply Exists.intro
    simp only [residual, residualProgram, comparisonIf, comparison, residualStmts, residualStmt_if, known,
      if_true, residualBranch, residualStmt_expr, residualExpr, inlined, kept, whole]
    rfl
  obtain ⟨t, written⟩ : ∃ t, execute host 1 comparisonProgram [("$c", .bool true), ("$o", .object 0)]
      { objects := #[[]] } = .ok (.ok "(\x7b\x7d) == y;") t := ⟨_, by with_unfolding_all rfl⟩
  obtain ⟨text, read, runs, parses, same⟩ := (execute_refines compile_comparisonIf printable names host 1
    [("$c", .bool true), ("$o", .object 0)] { objects := #[[]] }).1 _ s' left
  rw [runs] at written
  cases written
  exact ⟨s', read, left, runs, parses, same⟩

/-! ### A value where `new` is applied to it -/

/-- One name whose value is written. -/
def dateInlined : Registry := ⟨["$d"], ["$d"], [], true⟩

/-- The template `new $d(x);`. -/
def newOfDate : Stmt := .expr nowhere (.new nowhere (.ident nowhere "$d") [.ident nowhere "x"])

/-- What is compiled from `newOfDate`. -/
def newOfDateProgram : Program :=
  ⟨["$d"], [.literal "new ", .inline (.ident nowhere "$d") .call false, .literal "(x);"]⟩

theorem compile_newOfDate : compile dateInlined [newOfDate] = .ok newOfDateProgram := by
  have date : planExpr dateInlined (.ident nowhere "$d") .call = .inline := by cbv
  have other : planExpr dateInlined (.ident nowhere "x") .assignment = .keep [.text "x"] := by cbv
  have stmt : (Place.top dateInlined).plan newOfDate = .keep := by cbv
  have inner : Emits ((Place.top dateInlined).inside newOfDate).aside true
      (Expr.layout (.new nowhere (.ident nowhere "$d") [.ident nowhere "x"]) .lowest) _ _ :=
    .text (.inline date (.text (.keepExpr other (.text .nil) (.text .nil))))
  exact compile_ok_iff.2 ⟨_, _, .keepStmt stmt (.keepExpr rfl inner (.text .nil)) .nil, by rfl⟩

set_option maxRecDepth 4000 in
/--
A date is written without parentheses where `new` is applied to it, and the text is not one of the language. Its
residual tree, which would be `new (new Date(..))(x)`, is an `Obstacle.callee`.
-/
theorem newOfDate_unreadable :
    compile dateInlined [newOfDate] = .ok newOfDateProgram
    ∧ Stmt.allPrintable [newOfDate] = true
    ∧ ∀ host, (∃ s', residual host 1 dateInlined [newOfDate] [("$d", .date ⟨0, 0⟩)] {}
        = .error (.callee (dateTree ⟨0, 0⟩)) s')
      ∧ ∃ s' text, execute host 1 newOfDateProgram [("$d", .date ⟨0, 0⟩)] {} = .ok (.ok text) s'
      ∧ text = "new new Date(\"1970-01-01T00:00:00.000Z\")(x);"
      ∧ ∀ read, parseProgram text ≠ .ok read := by
  have printable : Stmt.allPrintable [newOfDate] = true := by decide
  have refused : (parseProgram "new new Date(\"1970-01-01T00:00:00.000Z\")(x);").toOption.isNone = true := by
    decide +kernel
  refine ⟨compile_newOfDate, printable, fun host => ⟨?_, ?_⟩⟩
  · have inlined : fate dateInlined (.ident nowhere "$d") = .inline := by cbv
    have kept : fate dateInlined (.ident nowhere "x") = .keep := by cbv
    have whole : fate dateInlined (.new nowhere (.ident nowhere "$d") [.ident nowhere "x"]) = .keep := rfl
    apply Exists.intro
    simp only [residual, residualProgram, newOfDate, residualStmts, residualStmt_expr, residualExprs, residualExpr,
      inlined, kept, whole]
    with_unfolding_all rfl
  obtain ⟨s', runs⟩ : ∃ s', execute host 1 newOfDateProgram [("$d", .date ⟨0, 0⟩)] {}
      = .ok (.ok "new new Date(\"1970-01-01T00:00:00.000Z\")(x);") s' := ⟨_, by with_unfolding_all rfl⟩
  refine ⟨s', _, runs, rfl, fun read h => ?_⟩
  simp [h, Except.toOption] at refused

end Staging.Template
