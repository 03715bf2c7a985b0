import Staging.Proofs.Template.KeptExpr

/-!
Statements and the residual statements that are printed for them.

A statement leaves a list of statements and ends normally or with a jump. `Left` relates both to a run: it
ends in the same way, the text it appends is a way to write the statements, and a jump goes to a loop that is
executed together with the statement, with no kept statement in between. So inside a kept statement
everything ends normally. `Stmt.Specialized` says of a statement that whatever is compiled from it runs to
what it leaves; the statement may also be the single body of a kept one (`Stmt.Specialized.single`) or one of
several (`Runs.statements`).
-/

namespace Staging.Template

open Script

/-! ### Places of statements -/

/-- The labels around stand at loops that are no deeper inside kept statements. -/
def Place.Bounded (pl : Place) : Prop := ∀ l ∈ pl.labels, l.2 ≤ pl.plainDepth

theorem Place.Settled.bounded {pl : Place} (h : pl.Settled) : pl.Bounded := fun l hl => Nat.le_of_lt (h l hl)

theorem Place.Bounded.inside {pl : Place} (h : pl.Bounded) (s : Stmt) : (pl.inside s).Settled := fun l hl =>
  Nat.lt_succ_of_le (h l hl)

theorem Place.Bounded.inRound {pl : Place} (h : pl.Bounded) (label : Option String) (names : List String) :
    (pl.inRound label names).Bounded := by
  intro l hl
  rcases List.mem_append.1 hl with here | around
  · obtain ⟨name, -, rfl⟩ := Option.map_eq_some_iff.1 (Option.mem_toList.1 here)
    exact Nat.le_refl _
  · exact h l around

/-- A jump to a label ends a loop that is executed with nothing kept around the jump. -/
def Place.Catches (pl : Place) (flow : Flow) : Prop :=
  ∀ j l, flow = .jump j l → pl.labels.lookup l = some pl.plainDepth

theorem Place.Catches.normal (pl : Place) : pl.Catches .normal := nofun

/-- Nothing inside a kept statement jumps out of it. -/
theorem Place.Settled.flow_eq {pl : Place} (h : pl.Settled) {flow : Flow} (hf : pl.Catches flow) :
    flow = .normal := by
  cases flow with
  | normal => rfl
  | jump j l =>
    obtain ⟨before, after, labels, -⟩ := List.lookup_eq_some_iff.1 (hf j l rfl)
    have bound := h (l, pl.plainDepth) (by simp [labels])
    exact absurd bound (Nat.lt_irrefl _)

/-! ### What becomes of statements -/

/-- What becomes of a statement in a place. -/
inductive Becomes (pl : Place) : Stmt → StmtPlan → Prop
  | keep {s : Stmt} (plain : isStaged pl.registry s = false) : Becomes pl s .keep
  | branch {span : Span} {test : Expr} {yes : Stmt} {no : Option Stmt}
      (known : isDecidable pl.registry test = true) : Becomes pl (.if_ span test yes no) (.branch test yes no)
  | loop {span : Span} {kind : IterKind} {decl : Option DeclKind} {pattern : Pattern} {source : Expr} {body : Stmt}
      (known : isDecidable pl.registry source = true) :
      Becomes pl (.forEach span kind decl pattern source body) (.unroll none kind pattern source body)
  | labeledLoop {span span' : Span} {label : String} {kind : IterKind} {decl : Option DeclKind} {pattern : Pattern}
      {source : Expr} {body : Stmt} (staged : isStageName label = true)
      (known : isDecidable pl.registry source = true) :
      Becomes pl (.labeled span label (.forEach span' kind decl pattern source body))
        (.unroll (some label) kind pattern source body)
  | break_ {span : Span} {label : String} (staged : isStageName label = true)
      (here : pl.labels.lookup label = some pl.plainDepth) :
      Becomes pl (.break_ span (some label)) (.jump .break_ label)
  | continue_ {span : Span} {label : String} (staged : isStageName label = true)
      (here : pl.labels.lookup label = some pl.plainDepth) :
      Becomes pl (.continue_ span (some label)) (.jump .continue_ label)
  | refuse {s : Stmt} {e : StagingError} : Becomes pl s (.refuse e)

/-- What the plan of a jump is. -/
theorem planJump_cases (pl : Place) (j : Jump) (span : Span) (label : Option String) :
    (planJump pl.toState j span label = .keep ∧ label.any isStageName = false)
      ∨ (∃ l, label = some l ∧ isStageName l = true ∧ pl.labels.lookup l = some pl.plainDepth
        ∧ planJump pl.toState j span label = .jump j l)
      ∨ ∃ e, planJump pl.toState j span label = .refuse e := by
  cases label with
  | none =>
    simp only [planJump]
    split
    · exact .inr (.inr ⟨_, rfl⟩)
    · exact .inl ⟨rfl, rfl⟩
  | some l =>
    simp only [planJump]
    split
    · rename_i staged
      split
      · exact .inr (.inr ⟨_, rfl⟩)
      · rename_i depth here
        split
        · rename_i same
          subst same
          exact .inr (.inl ⟨l, rfl, staged, here, rfl⟩)
        · exact .inr (.inr ⟨_, rfl⟩)
    · rename_i plain
      exact .inl ⟨rfl, by simpa using plain⟩

theorem becomes_planLoop {pl : Place} {s : Stmt} {label : Option String} {span : Span} {kind : IterKind}
    {pattern : Pattern} {source : Expr} {body : Stmt} (h : Becomes pl s (.unroll label kind pattern source body)) :
    Becomes pl s (planLoop label span kind pattern source body) := by
  unfold planLoop
  split
  · exact h
  · exact .refuse

theorem becomes_plan (pl : Place) (s : Stmt) : Becomes pl s (pl.plan s) := by
  have jump : ∀ (j : Jump) (span : Span) (label : Option String) {s : Stmt},
      (label.any isStageName = false → isStaged pl.registry s = false) →
      (∀ l, label = some l → isStageName l = true → pl.labels.lookup l = some pl.plainDepth →
        Becomes pl s (.jump j l)) →
      Becomes pl s (planJump pl.toState j span label) := by
    intro j span label s plain staged
    obtain ⟨keep, none⟩ | ⟨l, rfl, stage, here, jump⟩ | ⟨e, refuse⟩ := planJump_cases pl j span label
    · rw [keep]
      exact .keep (plain none)
    · rw [jump]
      exact staged l rfl stage here
    · rw [refuse]
      exact .refuse
  cases s with
  | if_ span test yes no =>
    simp only [Place.plan, planStmt, planIf]
    split
    · rename_i known
      repeat' split
      all_goals first | exact .branch known | exact .refuse
    · exact .keep (Bool.eq_false_iff.2 ‹_›)
  | labeled span label body =>
    simp only [Place.plan, planStmt, planLabeled]
    split
    · rename_i staged
      repeat' split
      all_goals first | exact becomes_planLoop (.labeledLoop staged ‹_›) | exact .refuse
    · exact .keep (Bool.eq_false_iff.2 ‹_›)
  | forEach span kind decl pattern source body =>
    simp only [Place.plan, planStmt]
    split
    · exact becomes_planLoop (.loop ‹_›)
    · exact .keep (Bool.eq_false_iff.2 ‹_›)
  | break_ span label =>
    refine jump .break_ span label id ?_
    rintro l rfl staged here
    exact .break_ staged here
  | continue_ span label =>
    refine jump .continue_ span label id ?_
    rintro l rfl staged here
    exact .continue_ staged here
  | _ => exact .keep rfl

/-! ### What is to be shown of statements -/

/-- The run ended like the specialisation, and the text is one of the statements that are left. -/
structure Left (pl : Place) (rest : Residual) (flow : Flow) (cs : List Char) : Prop where
  flow_eq : flow = rest.2
  writes : Writes (Sequence Sentence rest.1) cs
  catches : pl.Catches flow

/-- A kept statement leaves one statement, which does not end in an open `if` unless the statement does. -/
def Keeps (s : Stmt) (rest : Residual) : Prop :=
  ∃ s', rest = keeping s' ∧ (s'.endsOpen = true → s.endsOpen = true)

/-- What is compiled from the statement runs to what it leaves, also where it is a branch or a round. -/
structure Stmt.Specialized (ev : Evaluator) (s : Stmt) : Prop where
  runs : ∀ (env : Env) (pl : Place) (start : Bool), pl.Bounded → pl.inBody = false →
    ∀ fs start', Emits pl start [.stmt s] fs start' →
      Runs (runFragments ev env fs) (residualStmt ev pl.registry env s) fun rest flow cs =>
        Left pl rest flow cs ∧ (isStaged pl.registry s = false → Keeps s rest)
  inner : ∀ (env : Env) (pl : Place) (start : Bool), pl.Bounded → pl.inBody = false →
    ∀ fs start', Emits pl start (bodyParts s) fs start' →
      Runs (runFragments ev env fs) (residualInner ev pl.registry env s) (Left pl)

section

variable {ev : Evaluator}

/-- Statements in order. -/
theorem Runs.statements {body : List Stmt} (h : ∀ s ∈ body, Stmt.Specialized ev s) {env : Env} {pl : Place}
    {start start' : Bool} (bounded : pl.Bounded) (alone : pl.inBody = false) {fs : List Fragment}
    (emits : Emits pl start (body.map .stmt) fs start') :
    Runs (runFragments ev env fs) (residualStmts ev pl.registry env body) (Left pl) := by
  induction body generalizing start fs with
  | nil =>
    cases emits
    exact .pure ⟨rfl, .noStatements, .normal pl⟩
  | cons s body ih =>
    obtain ⟨fs₁, mid, fs₂, first, others, rfl⟩ := emits.cons_inv
    have here := (h s (by simp)).runs env pl start bounded alone fs₁ mid first
    have rest := ih (fun s' hs' => h s' (by simp [hs'])) others
    rw [runFragments_append, residualStmts]
    refine here.bind ?_
    rintro ⟨done, _⟩ flow cs ⟨⟨rfl, writes, catches⟩, -⟩
    cases flow with
    | jump j l => exact .pure ⟨rfl, by simpa using writes, catches⟩
    | normal =>
      refine Runs.map (f := fun more : Residual => (done ++ more.1, more.2)) (rest.mono ?_)
      rintro ⟨more, _⟩ flow ds ⟨rfl, writes', catches'⟩
      exact ⟨rfl, by simpa using writes.statements_append writes', catches'⟩

/-- Inside a kept statement a block ends normally. -/
theorem Renders.block {body : List Stmt} (h : ∀ s ∈ body, Stmt.Specialized ev s) {env : Env} {pl : Place}
    {start : Bool} (settled : pl.Settled) (alone : pl.inBody = false) :
    Renders ev env pl start (blockLayout body) (residualStmts ev pl.registry env body) fun rest cs =>
      ∃ ds, cs = '\x7b' :: (ds ++ ['\x7d']) ∧ Writes (Sequence Sentence rest.1) ds := by
  refine .text ?_
  rw [← bind_pure (residualStmts ev pl.registry env body)]
  have inside : ∀ start, Renders ev env pl start (body.map .stmt) (residualStmts ev pl.registry env body)
      fun rest cs => Writes (Sequence Sentence rest.1) cs := fun start fs start' emits =>
    (Runs.statements h settled.bounded alone emits).mono fun rest flow cs left =>
      ⟨settled.flow_eq left.catches, left.writes⟩
  exact .append (inside _) fun rest ds _ writes => .text (.nil ⟨ds, by simp, writes⟩)

/-! ### Single bodies -/

theorem Place.plan_aside (pl : Place) (s : Stmt) : pl.aside.plan s = pl.plan s := by cases s <;> rfl

/-- A jump is compiled only where its loop is executed around it. -/
theorem Place.Settled.plan_ne_jump {pl : Place} (h : pl.Settled) (s : Stmt) (j : Jump) (l : String) :
    pl.plan s ≠ .jump j l := by
  intro plan
  have becomes := becomes_plan pl s
  rw [plan] at becomes
  have catches : pl.Catches (.jump j l) := by
    rintro _ _ ⟨⟩
    cases becomes <;> assumption
  cases h.flow_eq catches

/-- Only what is kept is compiled to its own text. -/
theorem Emits.keep_inv {pl : Place} {start start' : Bool} {s : Stmt} {fs : List Fragment}
    (h : Emits pl start [.stmt s] fs start') (plain : isStaged pl.registry s = false) :
    Emits (pl.inside s) (isExprStmt s || start) s.layout fs start' := by
  have becomes := becomes_plan pl s
  cases h with
  | keepStmt plan inner rest =>
    cases rest
    simpa using inner
  | branch plan | branchElse plan | unroll plan | jump plan =>
    rw [plan] at becomes
    cases becomes <;> simp_all [isStaged]

/-- As a single body, what is staged gets braces. -/
theorem Emits.single_inv {pl : Place} {start start' : Bool} {s : Stmt} {fs : List Fragment}
    (h : Emits pl start [.stmt s] fs start') (settled : pl.Settled) (body : pl.inBody = true) :
    (isStaged pl.registry s = false ∧ Emits pl.aside start [.stmt s] fs start')
      ∨ (isStaged pl.registry s = true ∧ ∃ i, fs = [.code (.block [i])]
        ∧ Emits pl.aside start [.stmt s] [.code i] start') := by
  have becomes := becomes_plan pl s
  have aside := pl.plan_aside s
  have wrap : ∀ i, pl.wrap i = .block [i] := fun i => by simp [Place.wrap, body]
  cases h with
  | keepStmt plan inner rest =>
    cases rest
    rw [plan] at becomes aside
    cases becomes with
    | keep plain => exact .inl ⟨plain, .keepStmt aside inner .nil⟩
  | branch plan inner rest =>
    cases rest
    rw [plan] at becomes aside
    cases becomes with
    | branch known => exact .inr ⟨known, _, by rw [wrap]; rfl, .branch aside inner .nil⟩
  | branchElse plan inner other rest =>
    cases rest
    rw [plan] at becomes aside
    cases becomes with
    | branch known => exact .inr ⟨known, _, by rw [wrap]; rfl, .branchElse aside inner other .nil⟩
  | unroll plan inner rest =>
    cases rest
    rw [plan] at becomes aside
    cases becomes with
    | loop known => exact .inr ⟨known, _, by rw [wrap]; rfl, .unroll aside inner .nil⟩
    | labeledLoop staged => exact .inr ⟨staged, _, by rw [wrap]; rfl, .unroll aside inner .nil⟩
  | jump plan rest => exact absurd plan (settled.plan_ne_jump s _ _)

theorem runFragments_single (i : Instruction) (env : Env) : runFragments ev env [.code i] = runStep ev i env := by
  rw [runFragments, Fragment.run, ← bind_pure (runStep ev i env)]
  simp only [bind_assoc, pure_bind]
  congr 1
  funext flow
  cases flow <;> rfl

theorem runAll_eq (fs : List Fragment) (env : Env) : runAll ev (codeOfFragments fs) env = runFragments ev env fs :=
  funext (runAll_codeOfFragments fs)

/-- Braces around what is appended. -/
theorem Runs.braces {α : Type} {act : Generate Flow} {m : Specialize α} {Q : α → Flow → List Char → Prop}
    (h : Runs act m Q) :
    Runs (do append "\x7b"; let flow ← act; append "\x7d"; return flow) m fun a flow cs =>
      ∃ ds, cs = '\x7b' :: (ds ++ ['\x7d']) ∧ Q a flow ds := by
  refine .text _ ?_
  rw [← bind_pure m]
  exact h.bind fun a flow ds hq => .text _ (.pure ⟨ds, by simp, hq⟩)

theorem Stmt.Specialized.single {s : Stmt} (h : Stmt.Specialized ev s) {env : Env} {pl : Place} {start : Bool}
    (settled : pl.Settled) (body : pl.inBody = true) :
    Renders ev env pl start [.stmt s] (residualStmt ev pl.registry env s) fun rest cs =>
      Writes (Sentence (single (isStaged pl.registry s) rest)) cs
        ∧ ((Template.single (isStaged pl.registry s) rest).endsOpen = true → s.endsOpen = true) := by
  intro fs start' emits
  obtain ⟨plain, inner⟩ | ⟨staged, i, rfl, inner⟩ := emits.single_inv settled body
  · refine (h.runs env pl.aside start settled.bounded rfl fs start' inner).mono ?_
    rintro rest flow cs ⟨left, keeps⟩
    obtain ⟨s', rfl, ends⟩ := keeps plain
    rw [plain]
    exact ⟨settled.flow_eq left.catches, left.writes.theStatement, ends⟩
  · have step : runFragments ev env [.code (.block [i])]
        = do append "\x7b"; let flow ← runFragments ev env [.code i]; append "\x7d"; return flow := by
      rw [runFragments_single, runStep, ← runAll_eq]
      rfl
    rw [Prints, step]
    refine (h.runs env pl.aside start settled.bounded rfl _ start' inner).braces.mono ?_
    rintro rest flow _ ⟨ds, rfl, left, -⟩
    have braces : Template.single true rest = .block nowhere rest.1 := by
      obtain ⟨_ | ⟨s', _ | _⟩, _⟩ := rest <;> rfl
    rw [staged, braces]
    exact ⟨settled.flow_eq left.catches, left.writes.block, by simp [Stmt.endsOpen]⟩

/-! ### Kept and staged statements -/

/-- The text is one of the statement that a kept statement leaves. -/
def Kept (s : Stmt) (rest : Residual) (cs : List Char) : Prop :=
  ∃ s', rest = keeping s' ∧ Writes (Sentence s') cs ∧ (s'.endsOpen = true → s.endsOpen = true)

namespace Stmt.Specialized

variable {s : Stmt}

/-- A statement is kept, or executed to what it leaves. -/
theorem runs_of
    (kept : ∀ (env : Env) (pl : Place) (start : Bool), pl.Bounded → isStaged pl.registry s = false →
      Renders ev env (pl.inside s) (isExprStmt s || start) s.layout (residualStmt ev pl.registry env s) (Kept s))
    (staged : ∀ (env : Env) (pl : Place) (start : Bool), pl.Bounded → pl.inBody = false →
      isStaged pl.registry s = true → ∀ fs start', Emits pl start [.stmt s] fs start' →
      Runs (runFragments ev env fs) (residualStmt ev pl.registry env s) (Left pl))
    (env : Env) (pl : Place) (start : Bool) (bounded : pl.Bounded) (alone : pl.inBody = false)
    (fs : List Fragment) (start' : Bool) (emits : Emits pl start [.stmt s] fs start') :
    Runs (runFragments ev env fs) (residualStmt ev pl.registry env s) fun rest flow cs =>
      Left pl rest flow cs ∧ (isStaged pl.registry s = false → Keeps s rest) := by
  cases h : isStaged pl.registry s with
  | false =>
    refine (kept env pl start bounded h fs start' (emits.keep_inv h)).mono ?_
    rintro rest _ cs ⟨rfl, s', rfl, writes, ends⟩
    exact ⟨⟨rfl, writes.oneStatement, .normal pl⟩, fun _ => ⟨s', rfl, ends⟩⟩
  | true => exact (staged env pl start bounded alone h fs start' emits).mono fun _ _ _ left => ⟨left, nofun⟩

/-- Only a block is something else as a branch or a round. -/
theorem of_runs (plain : ∀ span body, s ≠ .block span body)
    (kept : ∀ (env : Env) (pl : Place) (start : Bool), pl.Bounded → isStaged pl.registry s = false →
      Renders ev env (pl.inside s) (isExprStmt s || start) s.layout (residualStmt ev pl.registry env s) (Kept s))
    (staged : ∀ (env : Env) (pl : Place) (start : Bool), pl.Bounded → pl.inBody = false →
      isStaged pl.registry s = true → ∀ fs start', Emits pl start [.stmt s] fs start' →
      Runs (runFragments ev env fs) (residualStmt ev pl.registry env s) (Left pl)) :
    Stmt.Specialized ev s := by
  refine ⟨runs_of kept staged, fun env pl start bounded alone fs start' emits => ?_⟩
  have same : bodyParts s = [.stmt s] ∧ residualInner ev pl.registry env s = residualStmt ev pl.registry env s := by
    cases s with
    | block span body => exact absurd rfl (plain span body)
    | _ => exact ⟨rfl, rfl⟩
  rw [same.1] at emits
  rw [same.2]
  exact (runs_of kept staged env pl start bounded alone fs start' emits).mono fun _ _ _ left => left.1

/-- A statement that is always kept. -/
theorem of_kept (plain : ∀ span body, s ≠ .block span body) (never : ∀ r, isStaged r s = false)
    (kept : ∀ (env : Env) (pl : Place) (start : Bool), pl.Settled → pl.inBody = hasBody s →
      Renders ev env pl (isExprStmt s || start) s.layout (residualStmt ev pl.registry env s) (Kept s)) :
    Stmt.Specialized ev s := by
  refine of_runs plain (fun env pl start bounded _ => kept env (pl.inside s) start (bounded.inside s) rfl) ?_
  intro _ pl _ _ _ staged
  rw [never] at staged
  cases staged

end Stmt.Specialized

end

end Staging.Template
