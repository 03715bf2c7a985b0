import Staging.Proofs.Template.KeptStmt

/-!
Statements that are executed during generation.

A conditional runs the branch that holds, a loop runs its body for each item and writes every round as a
block, and a jump ends the rounds of the loop it goes to. In each case what is run and what is left are made
from the parts in the same way; `Runs.rounds` is the induction over the items of a loop.
-/

namespace Staging.Template

open Script

/-! ### What is compiled from them -/

/-- What is compiled from a staged statement that stands on its own. -/
inductive Executes (pl : Place) (start : Bool) : Stmt → List Fragment → Bool → Prop
  | branch {span : Span} {test : Expr} {yes : Stmt} {fs : List Fragment} {start' : Bool}
      (inner : Emits pl.aside start (bodyParts yes) fs start') :
      Executes pl start (.if_ span test yes none)
        [.code (.if_ test (branchCode yes (codeOfFragments fs)) none)] start'
  | branchElse {span : Span} {test : Expr} {yes no : Stmt} {fs fs' : List Fragment} {mid start' : Bool}
      (inner : Emits pl.aside start (bodyParts yes) fs mid) (other : Emits pl.aside mid (bodyParts no) fs' start') :
      Executes pl start (.if_ span test yes (some no))
        [.code (.if_ test (branchCode yes (codeOfFragments fs)) (some (branchCode no (codeOfFragments fs'))))] start'
  | loop {span : Span} {kind : IterKind} {decl : Option DeclKind} {pattern : Pattern} {source : Expr} {body : Stmt}
      {fs : List Fragment} {start' : Bool} (inner : Emits (pl.inRound none pattern.names) start (bodyParts body) fs start') :
      Executes pl start (.forEach span kind decl pattern source body)
        [.code (.each none kind pattern source (declaredIn pl.registry pattern.names) (codeOfFragments fs))] start'
  | labeledLoop {span span' : Span} {label : String} {kind : IterKind} {decl : Option DeclKind} {pattern : Pattern}
      {source : Expr} {body : Stmt} {fs : List Fragment} {start' : Bool}
      (inner : Emits (pl.inRound (some label) pattern.names) start (bodyParts body) fs start') :
      Executes pl start (.labeled span label (.forEach span' kind decl pattern source body))
        [.code (.each (some label) kind pattern source (declaredIn pl.registry pattern.names) (codeOfFragments fs))] start'
  | break_ {span : Span} {label : String} (here : pl.labels.lookup label = some pl.plainDepth) :
      Executes pl start (.break_ span (some label)) [.code (.jump .break_ label)] start
  | continue_ {span : Span} {label : String} (here : pl.labels.lookup label = some pl.plainDepth) :
      Executes pl start (.continue_ span (some label)) [.code (.jump .continue_ label)] start

theorem Emits.executes {pl : Place} {start start' : Bool} {s : Stmt} {fs : List Fragment}
    (h : Emits pl start [.stmt s] fs start') (alone : pl.inBody = false) (staged : isStaged pl.registry s = true) :
    Executes pl start s fs start' := by
  have becomes := becomes_plan pl s
  have wrap : ∀ i, pl.wrap i = i := fun i => by simp [Place.wrap, alone]
  cases h with
  | keepStmt plan =>
    rw [plan] at becomes
    cases becomes with
    | keep plain => rw [staged] at plain; cases plain
  | branch plan inner rest =>
    cases rest
    rw [plan] at becomes
    rw [wrap]
    cases becomes
    exact .branch inner
  | branchElse plan inner other rest =>
    cases rest
    rw [plan] at becomes
    rw [wrap]
    cases becomes
    exact .branchElse inner other
  | unroll plan inner rest =>
    cases rest
    rw [plan] at becomes
    rw [wrap]
    cases becomes with
    | loop => exact .loop inner
    | labeledLoop => exact .labeledLoop inner
  | jump plan rest =>
    cases rest
    rw [plan] at becomes
    cases becomes with
    | break_ _ here => exact .break_ here
    | continue_ _ here => exact .continue_ here

section

variable {ev : Evaluator} {env : Env} {pl : Place} {start start' : Bool} {fs : List Fragment}

/-! ### Branches -/

theorem Runs.branch {s : Stmt} (h : Stmt.Specialized ev s) (bounded : pl.Bounded)
    (emits : Emits pl.aside start (bodyParts s) fs start') (scope : Env) :
    Runs (runAll ev (branchCode s (codeOfFragments fs)) scope) (residualBranch ev pl.registry scope s) (Left pl) := by
  have inner := h.inner scope pl.aside start bounded rfl fs start' emits
  cases s with
  | block span body =>
    have step : runAll ev [.block (codeOfFragments fs)] scope
        = do append "\x7b"; let flow ← runFragments ev scope fs; append "\x7d"; return flow := by
      rw [← runAll_eq fs scope, ← runStep, ← runFragments_single, ← runAll_eq]
      rfl
    rw [branchCode, residualBranch, step]
    refine .map (inner.braces.mono ?_)
    rintro rest flow _ ⟨ds, rfl, same, writes, catches⟩
    exact ⟨same, writes.block.oneStatement, catches⟩
  | _ =>
    rw [branchCode, runAll_eq]
    · exact inner.mono fun rest flow cs left => ⟨left.flow_eq, left.writes, left.catches⟩
    · exact nofun

/-- The branch that holds is run. -/
theorem Runs.decided {α : Type} {Q : α → Flow → List Char → Prop} {test : Expr} {yes : List Instruction}
    {no : Option (List Instruction)} {yes' : Env → Specialize α} {no' : Specialize α}
    (hy : ∀ scope, Runs (runAll ev yes scope) (yes' scope) Q) (hn : Runs (runElse ev no env) no' Q) :
    Runs (runStep ev (.if_ test yes no) env)
      (evaluating (ev.expr env test) >>= fun v => if v.truthy then evaluating (newScope env) >>= yes' else no') Q := by
  rw [runStep]
  refine .after fun v => ?_
  split
  · exact .after hy
  · exact hn

/-! ### Rounds -/

/-- A declaration with an initial value. -/
theorem Writes.declaration (kind : DeclKind) {n : String} {e : Expr} {cs : List Char} (hn : isName n = true)
    (h : Writes (Phrase .assignment e) cs) :
    Writes (Sentence (declarationTree kind n e)) (kind.text.toList ++ ' ' :: (n.toList ++ ' ' :: '=' :: ' ' :: (cs ++ [';']))) := by
  have declarator : Writes (DeclaratorPhrase ⟨.name n, some e⟩) (n.toList ++ ' ' :: '=' :: ' ' :: cs) :=
    Writes.declarator hn (.some h)
  have list : Writes (Items DeclaratorPhrase [⟨.name n, some e⟩]) ([','].intercalate [n.toList ++ ' ' :: '=' :: ' ' :: cs]) :=
    .items (.inl rfl) (.cons declarator .nil)
  have := (Writes.varDecl (s := nowhere) kind (by simp) list).declStmt
  simpa [declarationTree, List.intercalate] using this

theorem Runs.declarations {names : List String} (h : ∀ n ∈ names, isName n = true) (scope : Env) :
    Runs (names.forM (writeDeclaration scope)) (residualDeclarations .let_ (getVar scope) names) fun ds _ cs =>
      Writes (Sequence Sentence ds) cs := by
  induction names with
  | nil => exact .pure .noStatements
  | cons n names ih =>
    show Runs (writeDeclaration scope n >>= fun _ => names.forM (writeDeclaration scope)) _ _
    simp only [residualDeclarations, writeDeclaration, bind_assoc]
    refine .after fun v => (Runs.written v).bind ?_
    rintro e code _ ⟨spelled, -, rfl⟩
    refine .text _ (.map ((ih fun m hm => h m (by simp [hm])).mono fun ds _ cs writes => ?_))
    have first := Writes.declaration .let_ (h n (by simp)) spelled.item
    simpa [DeclKind.text] using first.oneStatement.statements_append writes

theorem Place.Catches.outOfRound {pl : Place} {label : Option String} {names : List String} {j : Jump} {l : String}
    (h : (pl.inRound label names).Catches (.jump j l)) (other : label ≠ some l) : pl.Catches (.jump j l) := by
  rintro _ _ ⟨⟩
  have found := h j l rfl
  cases label with
  | none => simpa [Place.inRound] using found
  | some label =>
    have ne : (l == label) = false := by
      rw [beq_eq_false_iff_ne]
      rintro rfl
      exact other rfl
    simpa [Place.inRound, List.lookup, ne] using found

/-- One round is a block that begins with the declarations of what is not inlined. -/
theorem Runs.round {pattern : Pattern} {declare : List String} (h : ∀ n ∈ declare, isName n = true)
    {body : Env → Generate Flow} {body' : Env → Specialize Residual}
    (hb : ∀ scope, Runs (body scope) (body' scope) (Left pl)) (item : Value) :
    Runs (runRound env pattern declare body item) (residualRound env pattern declare body' item) (Left pl) := by
  rw [runRound, residualRound]
  refine .after fun scope => .after fun _ => .text _ ?_
  refine (Runs.declarations h scope).bind fun decls _ cs declared => ?_
  refine (hb scope).bind ?_
  rintro ⟨rest, _⟩ flow ds ⟨rfl, writes, catches⟩
  refine .text _ (.pure ⟨rfl, ?_, catches⟩)
  simpa using (declared.statements_append writes).block.oneStatement

/-- The rounds of a loop. -/
theorem Runs.rounds {label : Option String} {names : List String} {round : Value → Generate Flow}
    {round' : Value → Specialize Residual}
    (h : ∀ item, Runs (round item) (round' item) (Left (pl.inRound label names))) (items : List Value) :
    Runs (runRounds label round items) (residualRounds label round' items) (Left pl) := by
  induction items with
  | nil => exact .pure ⟨rfl, .noStatements, .normal pl⟩
  | cons item items ih =>
    rw [runRounds, residualRounds]
    refine (h item).bind ?_
    rintro ⟨done, _⟩ flow cs ⟨rfl, writes, catches⟩
    have further : Runs (runRounds label round items)
        (residualRounds label round' items >>= fun rest => return (done ++ rest.1, rest.2))
        fun rest flow ds => Left pl rest flow (cs ++ ds) := by
      refine Runs.map (f := fun more : Residual => (done ++ more.1, more.2)) (ih.mono ?_)
      rintro ⟨more, _⟩ flow ds ⟨rfl, writes', catches'⟩
      exact ⟨rfl, writes.statements_append writes', catches'⟩
    cases flow with
    | normal => exact further
    | jump j l =>
      by_cases own : label = some l
      · simp only [own, if_true]
        cases j with
        | continue_ => simpa only [own] using further
        | break_ => exact .pure ⟨rfl, by simpa using writes, .normal pl⟩
      · simp only [own, if_false]
        exact .pure ⟨rfl, by simpa using writes, catches.outOfRound own⟩

/-- The code of a loop is run once for each item. -/
theorem Runs.unroll {label : Option String} {kind : IterKind} {pattern : Pattern} {source : Expr} {body : Stmt}
    (hp : pattern.isPrintable = true) (hb : Stmt.Specialized ev body) (bounded : pl.Bounded)
    (emits : Emits (pl.inRound label pattern.names) start (bodyParts body) fs start') :
    Runs (runStep ev (.each label kind pattern source (declaredIn pl.registry pattern.names) (codeOfFragments fs)) env)
      (residualLoop ev pl.registry env label kind pattern source body) (Left pl) := by
  have declared : ∀ n ∈ declaredIn pl.registry pattern.names, isName n = true := fun n hn =>
    pattern.isName_of_mem hp n (List.mem_of_mem_filter hn)
  have inner : ∀ scope, Runs (runAll ev (codeOfFragments fs) scope)
      (residualInner ev (pl.registry.bindNames pattern.names) scope body) (Left (pl.inRound label pattern.names)) := by
    intro scope
    rw [runAll_eq]
    exact hb.inner scope _ start (bounded.inRound label pattern.names) rfl fs start' emits
  rw [runStep]
  exact .after fun collection => .after fun items => .rounds (.round declared inner) items

/-! ### Labels and jumps -/

theorem residualStmt_jump {r : Registry} {s : Span} {label : Option String} (plain : label.any isStageName = false) :
    residualStmt ev r env (.break_ s label) = pure (keeping (.break_ s label))
      ∧ residualStmt ev r env (.continue_ s label) = pure (keeping (.continue_ s label)) := by
  have stays : label.filter isStageName = none := by
    cases label with
    | none => rfl
    | some l => simpa using plain
  rw [residualStmt_break, residualStmt_continue, stays]
  exact ⟨rfl, rfl⟩

/-- A jump to a loop that is executed leaves nothing. -/
theorem Runs.jump {label : String} {j : Jump} (here : pl.labels.lookup label = some pl.plainDepth) :
    Runs (runFragments ev env [.code (.jump j label)]) (Pure.pure ([], Flow.jump j label)) (Left pl) := by
  rw [runFragments_single, runStep]
  refine .pure ⟨rfl, .noStatements, ?_⟩
  rintro _ _ ⟨⟩
  exact here

end

/-! ### Statements -/

namespace Stmt.Specialized

variable {ev : Evaluator} {s : Span} {body : Stmt}

theorem if_ {test : Expr} {yes : Stmt} {no : Option Stmt} (ht : Expr.Specialized ev test)
    (hy : Stmt.Specialized ev yes) (hn : ∀ b ∈ no, Stmt.Specialized ev b)
    (closed : (no.isSome && yes.endsOpen) = false) : Stmt.Specialized ev (.if_ s test yes no) := by
  refine of_runs nofun ?_ ?_
  · intro env pl start bounded plain
    have undecided : ¬ isDecidable pl.registry test = true := by simpa [isStaged] using plain
    rw [residualStmt_if, if_neg undecided]
    exact Renders.if_ ht hy hn closed (bounded.inside _) rfl
  · intro env pl start bounded alone known fs start' emits
    rw [residualStmt_if, if_pos (show isDecidable pl.registry test = true from known)]
    cases emits.executes alone known with
    | branch inner =>
      have nothing : Runs (runElse ev none env) (residualElse ev pl.registry env none) (Left pl) :=
        .pure ⟨rfl, .noStatements, .normal pl⟩
      rw [runFragments_single]
      exact .decided (Runs.branch hy bounded inner) nothing
    | branchElse inner other =>
      rw [runFragments_single, residualElse_some]
      refine .decided (Runs.branch hy bounded inner) ?_
      rw [runElse]
      exact .after (Runs.branch (hn _ rfl) bounded other)

theorem forEach {kind : IterKind} {decl : Option DeclKind} {pattern : Pattern} {source : Expr}
    (hp : pattern.isPrintable = true) (hs : Expr.Specialized ev source) (hb : Stmt.Specialized ev body) :
    Stmt.Specialized ev (.forEach s kind decl pattern source body) := by
  refine of_runs nofun ?_ ?_
  · intro env pl start bounded plain
    have undecided : ¬ isDecidable pl.registry source = true := by simpa [isStaged] using plain
    rw [residualStmt_forEach, if_neg undecided]
    exact Renders.forEach hp hs hb (bounded.inside _) rfl
  · intro env pl start bounded alone known fs start' emits
    rw [residualStmt_forEach, if_pos (show isDecidable pl.registry source = true from known)]
    cases emits.executes alone known with
    | loop inner =>
      rw [runFragments_single]
      exact Runs.unroll hp hb bounded inner

theorem labeled {label : String} (hl : isName label = true) (hb : Stmt.Specialized ev body)
    (loop : ∀ span kind decl pattern source inner, body = .forEach span kind decl pattern source inner →
      pattern.isPrintable = true ∧ Stmt.Specialized ev inner) :
    Stmt.Specialized ev (.labeled s label body) := by
  refine of_runs nofun ?_ ?_
  · intro env pl start bounded plain
    rw [residualStmt_labeled plain]
    exact Renders.labeled hl hb (bounded.inside (.labeled s label body)) rfl
  · intro env pl start bounded alone staged fs start' emits
    cases emits.executes alone staged with
    | labeledLoop inner =>
      obtain ⟨hp, hb⟩ := loop _ _ _ _ _ _ rfl
      rw [runFragments_single, residualStmt_labeled_forEach staged]
      exact Runs.unroll hp hb bounded inner

theorem break_ {label : Option String} (h : label.all isName = true) : Stmt.Specialized ev (.break_ s label) := by
  refine of_runs nofun ?_ ?_
  · intro env pl start bounded plain
    rw [(residualStmt_jump plain).1]
    refine .text (.nil ⟨_, rfl, ?_, nofun⟩)
    have := Writes.break_ (s := s) h
    cases label <;> simpa [jumpText, nameText] using this
  · intro env pl start bounded alone staged fs start' emits
    cases emits.executes alone staged with
    | @break_ _ label here =>
      have target : (some label).filter isStageName = some label := by simpa [isStaged] using staged
      rw [residualStmt_break, target]
      exact .jump here

theorem continue_ {label : Option String} (h : label.all isName = true) : Stmt.Specialized ev (.continue_ s label) := by
  refine of_runs nofun ?_ ?_
  · intro env pl start bounded plain
    rw [(residualStmt_jump plain).2]
    refine .text (.nil ⟨_, rfl, ?_, nofun⟩)
    have := Writes.continue_ (s := s) h
    cases label <;> simpa [jumpText, nameText] using this
  · intro env pl start bounded alone staged fs start' emits
    cases emits.executes alone staged with
    | @continue_ _ label here =>
      have target : (some label).filter isStageName = some label := by simpa [isStaged] using staged
      rw [residualStmt_continue, target]
      exact .jump here

end Stmt.Specialized

end Staging.Template
