import Staging.Proofs.Template.Refinement
import Staging.Proofs.Template.ScopedStmt

/-!
Jumps that are kept.

A template with a place for each of its jumps gives code with a place for each of its jumps, but for one case: a
`continue` to a plain label whose loop is unrolled.

Main statement: `kept_jumps_scoped`. Where the jumps of a printable template have targets and its loops are kept in the
sense of `loopsKeptStmt`, the generated text is read as a program whose jumps have targets, if the template has a
residual tree at all. In the other case a `continue` can be left without loop (`continue_without_loop`).
-/

namespace Staging.Template

open Script

/-! ### Every tree -/

section

variable (ev : Evaluator)

mutual

/-- What is left of an expression has targets for its jumps. -/
theorem Expr.stays_scoped : (e : Expr) → Expr.StaysScoped ev e
  | .literal _ _ => .literal
  | .ident _ _ => .ident
  | .array _ items => .array (Expr.all_stay_scoped items)
  | .object _ props => .object (Property.all_stay_scoped props)
  | .function _ ⟨_, params, body, _⟩ => .function (Param.all_stay_scoped params) (FuncBody.stays_scoped body)
  | .unary _ _ e => .unary (Expr.stays_scoped e)
  | .update _ _ _ e => .update (Expr.stays_scoped e)
  | .binary _ _ a b => .binary (Expr.stays_scoped a) (Expr.stays_scoped b)
  | .assign _ _ a b => .assign (Expr.stays_scoped a) (Expr.stays_scoped b)
  | .cond _ a b c => .cond (Expr.stays_scoped a) (Expr.stays_scoped b) (Expr.stays_scoped c)
  | .member _ o k _ => .member (Expr.stays_scoped o) (Key.stays_scoped k)
  | .call _ c args _ => .call (Expr.stays_scoped c) (Expr.link_stays_scoped c) (Expr.all_stay_scoped args)
  | .new _ c args => .new (Expr.stays_scoped c) (Expr.all_stay_scoped args)

/-- The parts of an access, for a call of a method. -/
theorem Expr.link_stays_scoped : (c : Expr) → ∀ t o k keyOptional, c = .member t o k keyOptional →
    Expr.StaysScoped ev o ∧ ∀ a ∈ computed? k, Expr.StaysScoped ev a
  | .member t o k keyOptional => by
    rintro _ _ _ _ ⟨⟩
    exact ⟨Expr.stays_scoped o, Key.stays_scoped k⟩
  | .literal .. | .ident .. | .array .. | .object .. | .function .. | .unary .. | .update .. | .binary ..
  | .assign .. | .cond .. | .call .. | .new .. => nofun

theorem Key.stays_scoped : (k : Key) → ∀ e ∈ computed? k, Expr.StaysScoped ev e
  | .named _ => nofun
  | .computed e => by
    rintro _ ⟨⟩
    exact Expr.stays_scoped e

theorem Expr.all_stay_scoped : (es : List Expr) → ∀ e ∈ es, Expr.StaysScoped ev e
  | [] => nofun
  | e :: es => List.forall_mem_cons.2 ⟨Expr.stays_scoped e, Expr.all_stay_scoped es⟩

theorem Property.all_stay_scoped : (ps : List Property) →
    ∀ p ∈ ps, (∀ e ∈ computed? p.key, Expr.StaysScoped ev e) ∧ Expr.StaysScoped ev p.value
  | [] => nofun
  | ⟨k, v⟩ :: ps => List.forall_mem_cons.2 ⟨⟨Key.stays_scoped k, Expr.stays_scoped v⟩, Property.all_stay_scoped ps⟩

theorem Expr.option_stays_scoped : (e : Option Expr) → ∀ a ∈ e, Expr.StaysScoped ev a
  | none => nofun
  | some e => by
    rintro _ ⟨⟩
    exact Expr.stays_scoped e

theorem Param.all_stay_scoped : (ps : List Param) → ∀ q ∈ ps, ∀ e ∈ q.default, Expr.StaysScoped ev e
  | [] => nofun
  | ⟨_, _, default, _⟩ :: ps =>
    List.forall_mem_cons.2 ⟨Expr.option_stays_scoped default, Param.all_stay_scoped ps⟩

theorem FuncBody.stays_scoped : (b : FuncBody) → FuncBody.StaysScoped ev b
  | .block body => Stmt.all_stay_scoped body
  | .expr e => Expr.stays_scoped e

theorem Declarator.all_stay_scoped : (ds : List Declarator) → ∀ d ∈ ds, ∀ e ∈ d.init, Expr.StaysScoped ev e
  | [] => nofun
  | ⟨_, init⟩ :: ds => List.forall_mem_cons.2 ⟨Expr.option_stays_scoped init, Declarator.all_stay_scoped ds⟩

theorem ForInit.stays_scoped : (init : Option ForInit) → ∀ i ∈ init, ForInit.StaysScoped ev i
  | none => nofun
  | some (.decl ⟨_, _, ds⟩) => by
    rintro _ ⟨⟩
    exact Declarator.all_stay_scoped ds
  | some (.expr e) => by
    rintro _ ⟨⟩
    exact Expr.stays_scoped e

theorem CatchClause.stays_scoped : (c : Option CatchClause) → ∀ a ∈ c, ∀ s ∈ a.body, Stmt.StaysScoped ev s
  | none => nofun
  | some ⟨_, body⟩ => by
    rintro _ ⟨⟩
    exact Stmt.all_stay_scoped body

theorem Stmt.option_stays_scoped : (s : Option Stmt) → ∀ a ∈ s, Stmt.StaysScoped ev a
  | none => nofun
  | some s => by
    rintro _ ⟨⟩
    exact Stmt.stays_scoped s

theorem Stmt.final_stays_scoped : (body : Option (List Stmt)) → ∀ c ∈ body, ∀ s ∈ c, Stmt.StaysScoped ev s
  | none => nofun
  | some body => by
    rintro _ ⟨⟩
    exact Stmt.all_stay_scoped body

theorem Stmt.all_stay_scoped : (ss : List Stmt) → ∀ s ∈ ss, Stmt.StaysScoped ev s
  | [] => nofun
  | s :: ss => List.forall_mem_cons.2 ⟨Stmt.stays_scoped s, Stmt.all_stay_scoped ss⟩

/-- The body of a loop, for a label at it. -/
theorem Stmt.loop_stays_scoped : (s : Stmt) → ∀ span kind decl pattern source inner,
    s = .forEach span kind decl pattern source inner → Stmt.StaysScoped ev inner
  | .forEach span kind decl pattern source inner => by
    rintro _ _ _ _ _ _ ⟨⟩
    exact Stmt.stays_scoped inner
  | .expr .. | .decl .. | .function .. | .return_ .. | .if_ .. | .for_ .. | .while_ .. | .break_ .. | .continue_ ..
  | .labeled .. | .throw_ .. | .try_ .. | .block .. | .empty .. => nofun

/-- What is left of a statement has targets for its jumps. -/
theorem Stmt.stays_scoped : (s : Stmt) → Stmt.StaysScoped ev s
  | .expr _ e => .expr (Expr.stays_scoped e)
  | .decl ⟨_, _, ds⟩ => .decl (Declarator.all_stay_scoped ds)
  | .function _ ⟨_, params, body, _⟩ => .function (Param.all_stay_scoped params) (FuncBody.stays_scoped body)
  | .return_ _ e => .return_ (Expr.option_stays_scoped e)
  | .if_ _ test yes no => .if_ (Expr.stays_scoped test) (Stmt.stays_scoped yes) (Stmt.option_stays_scoped no)
  | .for_ _ init test update body => .for_ (ForInit.stays_scoped init) (Expr.option_stays_scoped test)
      (Expr.option_stays_scoped update) (Stmt.stays_scoped body)
  | .forEach _ _ _ _ source body => .forEach (Expr.stays_scoped source) (Stmt.stays_scoped body)
  | .while_ _ test body => .while_ (Expr.stays_scoped test) (Stmt.stays_scoped body)
  | .break_ _ _ => .break_
  | .continue_ _ _ => .continue_
  | .labeled _ _ body => .labeled (Stmt.stays_scoped body) (Stmt.loop_stays_scoped body)
  | .throw_ _ e => .throw_ (Expr.stays_scoped e)
  | .try_ _ body handler finalizer => .try_ (Stmt.all_stay_scoped body) (CatchClause.stays_scoped handler)
      (Stmt.final_stays_scoped finalizer)
  | .block _ body => .block (Stmt.all_stay_scoped body)
  | .empty _ => .empty

end

end

/-! ### Programs -/

/-- The residual tree of a template has targets for its jumps. -/
theorem residual_jumpsScoped {r : Registry} {body : List Stmt} {p : Program} (compiles : compile r body = .ok p)
    (jumps : Stmt.allJumpsScoped {} body = true) (kept : loopsKeptStmts r [] body = true) (host : Host) (fuel : Nat)
    (context : Context) :
    Ensures (fun tree => Stmt.allJumpsScoped {} tree = true) (residual host fuel r body context) := by
  obtain ⟨fs, start, emits, rfl⟩ := compile_ok_iff.1 compiles
  have met : ∀ s ∈ body, Visits (Place.top r) (.stmt s) := (visited_stmts body).1 emits.visited
  have program : Ensures (fun tree => Stmt.allJumpsScoped {} tree = true)
      (residualProgram (evaluator host fuel) r body context) := by
    refine .after fun globals => .after fun env => .after fun _ => ?_
    refine .bind (.declarations {} .const _ _) fun ds declared => ?_
    refine .bind (.stmts (Place.top r) (Stmt.all_stay_scoped _ body) met (.top _) jumps kept) fun rest left => .pure ?_
    rw [allJumpsScoped_append, declared, left]
    rfl
  intro s tree s' run
  unfold residual at run
  dsimp only at run
  split at run
  · rename_i there _ left
    cases run
    exact program _ _ _ left
  · cases run

/--
**Jumps that are kept keep their targets.** Where the jumps of a printable template have targets and each `continue` to
a plain label goes to a loop that is kept, the generated text is read as a program whose jumps have targets. Only where
the template has no residual tree, and no reason to halt, is there no such program: code is put in as it stands, or a
value comes to stand where the language has no place for it.
-/
theorem kept_jumps_scoped {r : Registry} {body : List Stmt} {p : Program} (compiles : compile r body = .ok p)
    (printable : Stmt.allPrintable body = true) (names : ∀ n ∈ r.declared, isName n = true)
    (jumps : Stmt.allJumpsScoped {} body = true) (kept : loopsKeptStmts r [] body = true) {host : Host} {fuel : Nat}
    {context : Context} {s s' : State} {text : String} (run : execute host fuel p context s = .ok (.ok text) s') :
    (∃ read, parseProgram text = .ok read ∧ Stmt.allJumpsScoped {} read = true)
      ∨ ∃ o t, residual host fuel r body context s = .error o t ∧ o.halt? = none := by
  obtain ⟨refines, halts⟩ := execute_refines compiles printable names host fuel context s
  cases left : residual host fuel r body context s with
  | ok tree t =>
    obtain ⟨text', read, runs, parses, same⟩ := refines tree t left
    rw [run] at runs
    cases runs
    refine .inl ⟨read, parses, ?_⟩
    rw [Stmt.allJumpsScoped_of_bare_eq same]
    exact residual_jumpsScoped compiles jumps kept host fuel context s tree s' left
  | error o t =>
    refine .inr ⟨o, t, rfl, ?_⟩
    obtain ⟨refused, ends⟩ := halts o t left
    cases why : o.halt? with
    | none => rfl
    | some halt =>
      cases halt with
      | refused e =>
        rw [refused e why] at run
        cases run
      | outOfFuel =>
        rw [ends why] at run
        cases run

/-! ### A loop that is kept, and one that is not -/

/-- A name whose value is a collection. -/
def arrayInlined : Registry := ⟨["$a"], ["$a"], [], true⟩

/-- The statement `for (const $i of $a) continue l;`. -/
def leavingRounds : Stmt :=
  .forEach nowhere .of (some .const) (.name "$i") (.ident nowhere "$a") (.continue_ nowhere (some "l"))

/-- The template `l: while (x) for (const $i of $a) continue l;`. -/
def labeledWhile : Stmt := .labeled nowhere "l" (.while_ nowhere (.ident nowhere "x") leavingRounds)

/-- What is compiled from `labeledWhile`. -/
def labeledWhileProgram : Program :=
  ⟨["$a"], [.literal "l: while (x) ", .block
    [.each none .of (.name "$i") (.ident nowhere "$a") [] [.literal "continue l;"]]]⟩

theorem compile_labeledWhile : compile arrayInlined [labeledWhile] = .ok labeledWhileProgram := by
  have label : (Place.top arrayInlined).plan labeledWhile = .keep := by cbv
  have loop : ((Place.top arrayInlined).inside labeledWhile).plan (.while_ nowhere (.ident nowhere "x") leavingRounds)
      = .keep := by cbv
  have test : planExpr arrayInlined (.ident nowhere "x") .lowest = .keep [.text "x"] := by cbv
  have rounds : (((Place.top arrayInlined).inside labeledWhile).inside
      (.while_ nowhere (.ident nowhere "x") leavingRounds)).plan leavingRounds
      = .unroll none .of (.name "$i") (.ident nowhere "$a") (.continue_ nowhere (some "l")) := by cbv
  have jump : ((((Place.top arrayInlined).inside labeledWhile).inside
      (.while_ nowhere (.ident nowhere "x") leavingRounds)).inRound none ["$i"]).plan
      (.continue_ nowhere (some "l")) = .keep := by cbv
  exact compile_ok_iff.2 ⟨_, _, .keepStmt label (.text (.keepStmt loop (.text (.keepExpr test (.text .nil)
    (.text (.unroll rounds (.keepStmt jump (.text .nil) .nil) .nil)))) .nil)) .nil, by rfl⟩

/-- The loop with the label is kept, and so are the jumps to it out of the rounds of the other. -/
theorem kept_jumps_scoped_while :
    compile arrayInlined [labeledWhile] = .ok labeledWhileProgram
    ∧ Stmt.allPrintable [labeledWhile] = true
    ∧ (∀ n ∈ arrayInlined.declared, isName n = true)
    ∧ Stmt.allJumpsScoped {} [labeledWhile] = true
    ∧ loopsKeptStmts arrayInlined [] [labeledWhile] = true
    ∧ ∃ s', execute Host.none 2 labeledWhileProgram [("$a", .array 0)] { arrays := #[#[.bool true, .null]] }
        = .ok (.ok "l: while (x) \x7b\x7bcontinue l;\x7d\x7bcontinue l;\x7d\x7d") s'
      ∧ ((∃ read, parseProgram "l: while (x) \x7b\x7bcontinue l;\x7d\x7bcontinue l;\x7d\x7d" = .ok read
          ∧ Stmt.allJumpsScoped {} read = true)
        ∨ ∃ o t, residual Host.none 2 arrayInlined [labeledWhile] [("$a", .array 0)]
            { arrays := #[#[.bool true, .null]] } = .error o t ∧ o.halt? = none) := by
  have printable : Stmt.allPrintable [labeledWhile] = true := by decide
  have names : ∀ n ∈ arrayInlined.declared, isName n = true := by decide
  have jumps : Stmt.allJumpsScoped {} [labeledWhile] = true := by decide
  have kept : loopsKeptStmts arrayInlined [] [labeledWhile] = true := by decide +kernel
  refine ⟨compile_labeledWhile, printable, names, jumps, kept, ?_⟩
  have text : textOf? (execute Host.none 2 labeledWhileProgram [("$a", .array 0)] { arrays := #[#[.bool true, .null]] })
      = some "l: while (x) \x7b\x7bcontinue l;\x7d\x7bcontinue l;\x7d\x7d" := by decide +kernel
  obtain ⟨s', written⟩ := exists_of_textOf? text
  exact ⟨s', written, kept_jumps_scoped compile_labeledWhile printable names jumps kept written⟩

/-- The template `l: for (const $i of $a) continue l;`. -/
def labeledRounds : Stmt := .labeled nowhere "l" leavingRounds

/-- What is compiled from `labeledRounds`. -/
def labeledRoundsProgram : Program :=
  ⟨["$a"], [.literal "l: ", .block [.each none .of (.name "$i") (.ident nowhere "$a") [] [.literal "continue l;"]]]⟩

theorem compile_labeledRounds : compile arrayInlined [labeledRounds] = .ok labeledRoundsProgram := by
  have label : (Place.top arrayInlined).plan labeledRounds = .keep := by cbv
  have rounds : ((Place.top arrayInlined).inside labeledRounds).plan leavingRounds
      = .unroll none .of (.name "$i") (.ident nowhere "$a") (.continue_ nowhere (some "l")) := by cbv
  have jump : (((Place.top arrayInlined).inside labeledRounds).inRound none ["$i"]).plan
      (.continue_ nowhere (some "l")) = .keep := by cbv
  exact compile_ok_iff.2 ⟨_, _, .keepStmt label (.text (.unroll rounds (.keepStmt jump (.text .nil) .nil) .nil)) .nil,
    by rfl⟩

/-- Where the loop with a plain label is unrolled, the label stays and `continue` to it is left without loop. -/
theorem continue_without_loop :
    compile arrayInlined [labeledRounds] = .ok labeledRoundsProgram
    ∧ Stmt.allPrintable [labeledRounds] = true
    ∧ Stmt.allJumpsScoped {} [labeledRounds] = true
    ∧ ∃ s' read,
      execute Host.none 2 labeledRoundsProgram [("$a", .array 0)] { arrays := #[#[.bool true, .null]] }
        = .ok (.ok "l: \x7b\x7bcontinue l;\x7d\x7bcontinue l;\x7d\x7d") s'
      ∧ parseProgram "l: \x7b\x7bcontinue l;\x7d\x7bcontinue l;\x7d\x7d" = .ok read
      ∧ Stmt.allJumpsScoped {} read = false := by
  have printable : Stmt.allPrintable [labeledRounds] = true := by decide
  have jumps : Stmt.allJumpsScoped {} [labeledRounds] = true := by decide
  have lost : (parseProgram "l: \x7b\x7bcontinue l;\x7d\x7bcontinue l;\x7d\x7d").toOption.map (Stmt.allJumpsScoped {})
      = some false := by decide +kernel
  refine ⟨compile_labeledRounds, printable, jumps, ?_⟩
  have text : textOf? (execute Host.none 2 labeledRoundsProgram [("$a", .array 0)]
      { arrays := #[#[.bool true, .null]] }) = some "l: \x7b\x7bcontinue l;\x7d\x7bcontinue l;\x7d\x7d" := by decide +kernel
  obtain ⟨s', written⟩ := exists_of_textOf? text
  cases parses : parseProgram "l: \x7b\x7bcontinue l;\x7d\x7bcontinue l;\x7d\x7d" with
  | ok read =>
    rw [parses] at lost
    exact ⟨s', read, written, rfl, Option.some.inj lost⟩
  | error e =>
    rw [parses] at lost
    cases lost

end Staging.Template
