import Staging.Proofs.Template.ScopedExpr

/-!
What is left of statements has targets for its jumps.

A kept loop is around what is left of its body. An unrolled loop leaves blocks, so its body is left in the scope of the
loop itself, without the loop: there is a lemma for each kind of node (`Stmt.StaysScoped`), and the one for rounds is
`Stmt.StaysScoped.loop`.
-/

namespace Staging.Template

open Script

/-! ### What is left of statements -/

section

variable {ev : Evaluator} {env : Env} {pl : Place} {sc out : JumpScope} {loops own own' : List String}

/-- As the single body of a kept statement. -/
theorem Stmt.StaysScoped.single (pl : Place) {s : Stmt} (h : Stmt.StaysScoped ev s) (met : Visits pl (.stmt s))
    (carries : Carries pl sc loops out) (hown : OwnKept own own') (jumps : s.jumpsScoped sc own = true)
    (kept : loopsKeptStmt pl.registry loops own s = true) :
    Ensures (fun rest => (single (isStaged pl.registry s) rest).jumpsScoped out own' = true)
      (residualStmt ev pl.registry env s) :=
  (h.stmt pl env sc out loops own own' met carries hown jumps kept).mono fun _ left => left.single

/-- A branch that is taken. -/
theorem Stmt.StaysScoped.branch (pl : Place) {s : Stmt} (h : Stmt.StaysScoped ev s) (met : Visited pl (bodyParts s))
    (carries : Carries pl sc loops out) (jumps : s.jumpsScoped sc [] = true)
    (kept : loopsKeptStmt pl.registry loops [] s = true) :
    Ensures (fun rest => Stmt.allJumpsScoped out rest.1 = true) (residualBranch ev pl.registry env s) := by
  have inner := h.inner pl env sc out loops met carries jumps kept
  cases s with
  | block span body =>
    refine .bind inner fun rest left => .pure ?_
    exact Bool.and_eq_true_iff.2 ⟨left, rfl⟩
  | _ => exact inner

theorem Ensures.declarations (out : JumpScope) (kind : DeclKind) (value : String → Eval Value) (names : List String) :
    Ensures (fun ds => Stmt.allJumpsScoped out ds = true) (residualDeclarations kind value names) := by
  induction names with
  | nil => exact .pure rfl
  | cons n names ih =>
    refine .after fun v => .bind (valueTree_jumpsScoped v) fun e left => .bind ih fun ds others => .pure ?_
    have declaration : (declarationTree kind n e).jumpsScoped out [] = true := Bool.and_eq_true_iff.2 ⟨left, rfl⟩
    exact Bool.and_eq_true_iff.2 ⟨declaration, others⟩

theorem Ensures.rounds {label : Option String} {round : Value → Specialize Residual}
    (h : ∀ v, Ensures (fun rest => Stmt.allJumpsScoped out rest.1 = true) (round v)) (items : List Value) :
    Ensures (fun rest => Stmt.allJumpsScoped out rest.1 = true) (residualRounds label round items) := by
  induction items with
  | nil => exact .pure rfl
  | cons item items ih =>
    have more : ∀ done : List Stmt, Stmt.allJumpsScoped out done = true →
        Ensures (fun rest => Stmt.allJumpsScoped out rest.1 = true)
          (residualRounds label round items >>= fun rest => return ((done ++ rest.1, rest.2) : Residual)) := by
      refine fun done first => .bind ih fun rest others => .pure ?_
      rw [allJumpsScoped_append, first, others]
      rfl
    refine .bind (h item) ?_
    rintro ⟨done, flow⟩ first
    cases flow with
    | normal => exact more done first
    | jump j target =>
      dsimp only
      split
      · cases j with
        | continue_ => exact more done first
        | break_ => exact .pure first
      · exact .pure first

/-- A loop that is unrolled: each round stands where the loop stood. -/
theorem Stmt.StaysScoped.loop (pl : Place) {label : Option String} {kind : IterKind} {pattern : Pattern} {source : Expr}
    {body : Stmt} (h : Stmt.StaysScoped ev body)
    (met : Visited (pl.inRound label pattern.names) (bodyParts body))
    (carries : Carries (pl.inRound label pattern.names) sc loops out) (jumps : body.jumpsScoped sc [] = true)
    (kept : loopsKeptStmt (pl.registry.bindNames pattern.names) loops [] body = true) :
    Ensures (fun rest => Stmt.allJumpsScoped out rest.1 = true)
      (residualLoop ev pl.registry env label kind pattern source body) := by
  refine .after fun collection => .after fun items => .rounds (fun item => ?_) items
  refine .after fun scope => .after fun _ => ?_
  refine .bind (.declarations out .let_ (getVar scope) _) fun ds declared => ?_
  refine .bind (h.inner _ scope sc out loops met carries jumps kept) fun rest left => .pure ?_
  have both : Stmt.allJumpsScoped out (ds ++ rest.1) = true := by
    rw [allJumpsScoped_append, declared, left]
    rfl
  exact Bool.and_eq_true_iff.2 ⟨both, rfl⟩

/-- What is left of the first clause of a loop's head has targets for its jumps. -/
def ForInit.StaysScoped (ev : Evaluator) : ForInit → Prop
  | .decl d => ∀ q ∈ d.declarators, ∀ e ∈ q.init, Expr.StaysScoped ev e
  | .expr e => Expr.StaysScoped ev e

theorem Ensures.init (pl : Place) {init : Option ForInit} (h : ∀ i ∈ init, ForInit.StaysScoped ev i)
    (met : ∀ i ∈ init, Visited pl i.layout) (jumps : ForInit.jumpsScoped init = true)
    (loops : loopsKeptInit pl.registry init = true) :
    Ensures (fun init' => ForInit.jumpsScoped init' = true) (residualInit ev pl.registry env init) := by
  match init with
  | none => exact .pure rfl
  | some (.decl d) => exact .bind (.decl pl (h _ rfl) (met _ rfl) jumps loops) fun d' left => .pure left
  | some (.expr e) =>
    have here := (visited_cons.1 (met _ rfl)).1
    exact .bind (h _ rfl pl env ⟨⟨_, here⟩, jumps, loops⟩) fun e' left => .pure left

theorem Ensures.handler (pl : Place) {handler : Option CatchClause}
    (h : ∀ c ∈ handler, ∀ s ∈ c.body, Stmt.StaysScoped ev s)
    (met : ∀ c ∈ handler, ∀ s ∈ c.body, Visits pl (.stmt s)) (carries : Carries pl sc loops out)
    (jumps : CatchClause.jumpsScoped sc handler = true) (kept : loopsKeptHandler pl.registry loops handler = true) :
    Ensures (fun handler' => CatchClause.jumpsScoped out handler' = true)
      (residualHandler ev pl.registry env handler) := by
  cases handler with
  | none => exact .pure rfl
  | some c =>
    obtain ⟨param, ss⟩ := c
    exact .bind (.stmts pl (h _ rfl) (met _ rfl) carries jumps kept) fun rest left => .pure left

theorem Ensures.final (pl : Place) {finalizer : Option (List Stmt)}
    (h : ∀ ss ∈ finalizer, ∀ s ∈ ss, Stmt.StaysScoped ev s)
    (met : ∀ ss ∈ finalizer, ∀ s ∈ ss, Visits pl (.stmt s)) (carries : Carries pl sc loops out)
    (jumps : Stmt.finalJumpsScoped sc finalizer = true) (kept : loopsKeptFinal pl.registry loops finalizer = true) :
    Ensures (fun finalizer' => Stmt.finalJumpsScoped out finalizer' = true)
      (residualFinal ev pl.registry env finalizer) := by
  cases finalizer with
  | none => exact .pure rfl
  | some ss => exact .bind (.stmts pl (h ss rfl) (met ss rfl) carries jumps kept) fun rest left => .pure left

theorem Ensures.single (pl : Place) {no : Option Stmt} (h : ∀ n ∈ no, Stmt.StaysScoped ev n)
    (met : ∀ n ∈ no, Visits pl (.stmt n)) (carries : Carries pl sc loops out)
    (jumps : Stmt.optionJumpsScoped sc no = true) (kept : loopsKeptElse pl.registry loops no = true) :
    Ensures (fun no' => Stmt.optionJumpsScoped out no' = true) (residualSingle ev pl.registry env no) := by
  cases no with
  | none => exact .pure rfl
  | some n => exact .bind ((h n rfl).single pl (met n rfl) carries .nil jumps kept) fun n' left => .pure left

end

namespace Stmt.StaysScoped

variable {ev : Evaluator} {s : Span} {e : Expr} {body : Stmt}

/-- Only a block is taken apart as a body. -/
theorem of_stmt {st : Stmt} (plain : ∀ span ss, st ≠ .block span ss)
    (h : ∀ (pl : Place) (env : Env) (sc out : JumpScope) (loops own own' : List String), Visits pl (.stmt st) →
      Carries pl sc loops out → OwnKept own own' → st.jumpsScoped sc own = true →
      loopsKeptStmt pl.registry loops own st = true →
      Ensures (fun rest => LeftScoped out own' (isStaged pl.registry st) rest.1) (residualStmt ev pl.registry env st)) :
    StaysScoped ev st := by
  refine ⟨h, fun pl env sc out loops met carries jumps kept => ?_⟩
  cases st with
  | block span ss => exact absurd rfl (plain span ss)
  | _ => exact (h pl env sc out loops [] [] (met _ (List.mem_singleton_self _)) carries .nil jumps kept).mono
          fun _ left => left.all

theorem expr (h : Expr.StaysScoped ev e) : StaysScoped ev (.expr s e) := by
  refine of_stmt nofun fun pl env sc out loops own own' met _ _ jumps kept => ?_
  have parts := met.kept rfl
  have here : ∃ min, Visits (pl.inside (.expr s e)) (.expr e min) := by
    rw [Stmt.layout] at parts
    split at parts <;> simp only [parenthesized, List.cons_append, List.nil_append, visited_cons] at parts
    · exact ⟨_, parts.2.1⟩
    · exact ⟨_, parts.1⟩
  exact .bind (h (pl.inside (.expr s e)) env ⟨here, jumps, kept⟩) fun e' left => .pure (.kept left)

theorem decl {d : VarDecl} (h : ∀ q ∈ d.declarators, ∀ e ∈ q.init, Expr.StaysScoped ev e) :
    StaysScoped ev (.decl d) := by
  refine of_stmt nofun fun pl env sc out loops own own' met _ _ jumps kept => ?_
  have parts := met.kept rfl
  simp only [Stmt.layout, visited_append] at parts
  exact .bind (.decl (pl.inside (.decl d)) h parts.1 jumps kept) fun d' left => .pure (.kept left)

theorem function {f : Func} (hp : ∀ q ∈ f.params, ∀ e ∈ q.default, Expr.StaysScoped ev e)
    (hb : FuncBody.StaysScoped ev f.body) : StaysScoped ev (.function s f) := by
  refine of_stmt nofun fun pl env sc out loops own own' met _ _ jumps kept => ?_
  exact .bind (.func (pl.inside (.function s f)) hp hb (met.kept rfl) jumps kept) fun f' left => .pure (.kept left)

theorem return_ {e : Option Expr} (h : ∀ a ∈ e, Expr.StaysScoped ev a) : StaysScoped ev (.return_ s e) := by
  refine of_stmt nofun fun pl env sc out loops own own' met _ _ jumps kept => ?_
  have parts := met.kept rfl
  have here : ∀ a ∈ e, ∃ min, Visits (pl.inside (.return_ s e)) (.expr a min) := by
    rintro a rfl
    simp only [Stmt.layout, visited_cons] at parts
    exact ⟨_, parts.2.1⟩
  exact .bind (.option (pl.inside (.return_ s e)) h here jumps kept) fun e' left => .pure (.kept left)

theorem throw_ (h : Expr.StaysScoped ev e) : StaysScoped ev (.throw_ s e) := by
  refine of_stmt nofun fun pl env sc out loops own own' met _ _ jumps kept => ?_
  have parts := met.kept rfl
  simp only [Stmt.layout, visited_cons] at parts
  exact .bind (h (pl.inside (.throw_ s e)) env ⟨⟨_, parts.2.1⟩, jumps, kept⟩) fun e' left => .pure (.kept left)

theorem empty : StaysScoped ev (.empty s) :=
  of_stmt nofun fun _ _ _ _ _ _ _ _ _ _ _ _ => .pure (.kept rfl)

theorem block {ss : List Stmt} (h : ∀ b ∈ ss, StaysScoped ev b) : StaysScoped ev (.block s ss) where
  stmt pl env sc out loops own own' met carries hown jumps kept := by
    have parts := (visited_block ss).1 (met.kept rfl)
    refine .bind (.stmts (pl.inside (.block s ss)) h parts ((carries.labeled hown).inside rfl) jumps kept) ?_
    exact fun rest left => .pure (.kept left)
  inner pl env sc out loops met carries jumps kept := .stmts pl h ((visited_stmts ss).1 met) carries jumps kept

theorem while_ (ht : Expr.StaysScoped ev e) (hb : StaysScoped ev body) : StaysScoped ev (.while_ s e body) := by
  refine of_stmt nofun fun pl env sc out loops own own' met carries hown jumps kept => ?_
  have parts := met.kept rfl
  simp only [Stmt.layout, visited_cons] at parts
  have jumps := Bool.and_eq_true_iff.1 jumps
  have kept := Bool.and_eq_true_iff.1 kept
  rw [residualStmt_while]
  refine .bind (ht (pl.inside (.while_ s e body)) env ⟨⟨_, parts.2.1⟩, jumps.1, kept.1⟩) fun e' test => ?_
  refine .bind (hb.single (pl.inside (.while_ s e body)) parts.2.2.2.1 (carries.loop hown _) .nil jumps.2 kept.2)
    fun rest inner => .pure (.kept ?_)
  exact Bool.and_eq_true_iff.2 ⟨test, inner⟩

theorem for_ {init : Option ForInit} {test update : Option Expr}
    (hi : ∀ i ∈ init, ForInit.StaysScoped ev i) (ht : ∀ a ∈ test, Expr.StaysScoped ev a)
    (hu : ∀ a ∈ update, Expr.StaysScoped ev a) (hb : StaysScoped ev body) :
    StaysScoped ev (.for_ s init test update body) := by
  refine of_stmt nofun fun pl env sc out loops own own' met carries hown jumps kept => ?_
  obtain ⟨inits, tests, updates, bodies⟩ := met_of_for (met.kept rfl)
  obtain ⟨jumps, bodyJumps⟩ := Bool.and_eq_true_iff.1 jumps
  obtain ⟨jumps, updateJumps⟩ := Bool.and_eq_true_iff.1 jumps
  obtain ⟨initJumps, testJumps⟩ := Bool.and_eq_true_iff.1 jumps
  obtain ⟨kept, bodyKept⟩ := Bool.and_eq_true_iff.1 kept
  obtain ⟨kept, updateKept⟩ := Bool.and_eq_true_iff.1 kept
  obtain ⟨initKept, testKept⟩ := Bool.and_eq_true_iff.1 kept
  let there := pl.inside (.for_ s init test update body)
  rw [residualStmt_for]
  refine .bind (.init there hi inits initJumps initKept) fun init' first => ?_
  refine .bind (.option there ht tests testJumps testKept) fun test' second => ?_
  refine .bind (.option there hu updates updateJumps updateKept) fun update' third => ?_
  refine .bind (hb.single there bodies (carries.loop hown _) .nil bodyJumps bodyKept) fun rest inner => .pure (.kept ?_)
  have head := Bool.and_eq_true_iff.2 ⟨Bool.and_eq_true_iff.2 ⟨first, second⟩, third⟩
  exact Bool.and_eq_true_iff.2 ⟨head, inner⟩

theorem try_ {ss : List Stmt} {handler : Option CatchClause} {finalizer : Option (List Stmt)}
    (hb : ∀ b ∈ ss, StaysScoped ev b) (hh : ∀ c ∈ handler, ∀ b ∈ c.body, StaysScoped ev b)
    (hf : ∀ c ∈ finalizer, ∀ b ∈ c, StaysScoped ev b) : StaysScoped ev (.try_ s ss handler finalizer) := by
  refine of_stmt nofun fun pl env sc out loops own own' met carries hown jumps kept => ?_
  obtain ⟨bodies, handlers, finals⟩ := met_of_try (met.kept rfl)
  obtain ⟨jumps, finalJumps⟩ := Bool.and_eq_true_iff.1 jumps
  obtain ⟨bodyJumps, handlerJumps⟩ := Bool.and_eq_true_iff.1 jumps
  obtain ⟨kept, finalKept⟩ := Bool.and_eq_true_iff.1 kept
  obtain ⟨bodyKept, handlerKept⟩ := Bool.and_eq_true_iff.1 kept
  let there := pl.inside (.try_ s ss handler finalizer)
  have inside : Carries there (sc.labeled own) loops (out.labeled own') := (carries.labeled hown).inside rfl
  rw [residualStmt_try]
  refine .bind (.stmts there hb bodies inside bodyJumps bodyKept) fun rest first => ?_
  refine .bind (.handler there hh handlers inside handlerJumps handlerKept) fun handler' second => ?_
  refine .bind (.final there hf finals inside finalJumps finalKept) fun finalizer' third => .pure (.kept ?_)
  exact Bool.and_eq_true_iff.2 ⟨Bool.and_eq_true_iff.2 ⟨first, second⟩, third⟩

/-- A conditional that is decided leaves the branch that is taken. -/
theorem if_ {test : Expr} {yes : Stmt} {no : Option Stmt} (ht : Expr.StaysScoped ev test) (hy : StaysScoped ev yes)
    (hn : ∀ n ∈ no, StaysScoped ev n) : StaysScoped ev (.if_ s test yes no) := by
  refine of_stmt nofun fun pl env sc out loops own own' met carries hown jumps kept => ?_
  obtain ⟨jumps, noJumps⟩ := Bool.and_eq_true_iff.1 jumps
  obtain ⟨testJumps, yesJumps⟩ := Bool.and_eq_true_iff.1 jumps
  rw [loopsKeptStmt_if] at kept
  obtain ⟨kept, noKept⟩ := Bool.and_eq_true_iff.1 kept
  obtain ⟨testKept, yesKept⟩ := Bool.and_eq_true_iff.1 kept
  rw [residualStmt_if]
  cases known : isDecidable pl.registry test with
  | true =>
    obtain ⟨yesMet, noMet⟩ := met.branches known
    have around : Carries pl.aside (sc.labeled own) loops (out.labeled own') := (carries.labeled hown).aside
    have staged : isStaged pl.registry (.if_ s test yes no) = true := known
    rw [staged, if_pos rfl]
    refine .after fun v => ?_
    split
    · refine .after fun scope => (hy.branch pl.aside yesMet around yesJumps yesKept).mono fun _ left => .staged left
    · cases no with
      | none => exact .pure (.staged rfl)
      | some n =>
        rw [residualElse_some]
        refine .after fun scope => ?_
        exact ((hn n rfl).branch pl.aside (noMet n rfl) around noJumps noKept).mono fun _ left => .staged left
  | false =>
    obtain ⟨tests, yesMet, noMet⟩ := met_of_if (met.kept known)
    have plain : isStaged pl.registry (.if_ s test yes no) = false := known
    have testLoops : loopsKeptExpr pl.registry test = true := by simpa only [known, Bool.false_or] using testKept
    let there := pl.inside (.if_ s test yes no)
    have inside : Carries there (sc.labeled own) loops (out.labeled own') := (carries.labeled hown).inside rfl
    rw [plain, if_neg Bool.false_ne_true]
    refine .bind (ht there env ⟨tests, testJumps, testLoops⟩) fun test' first => ?_
    refine .bind (hy.single there yesMet inside .nil yesJumps yesKept) fun yes' second => ?_
    refine .bind (.single there hn noMet inside noJumps noKept) fun no' third => .pure (.kept ?_)
    exact Bool.and_eq_true_iff.2 ⟨Bool.and_eq_true_iff.2 ⟨first, second⟩, third⟩

theorem forEach {kind : IterKind} {decl : Option DeclKind} {pattern : Pattern} {source : Expr}
    (hs : Expr.StaysScoped ev source) (hb : StaysScoped ev body) :
    StaysScoped ev (.forEach s kind decl pattern source body) := by
  refine of_stmt nofun fun pl env sc out loops own own' met carries hown jumps kept => ?_
  have jumps := Bool.and_eq_true_iff.1 jumps
  rw [loopsKeptStmt_forEach] at kept
  rw [residualStmt_forEach]
  cases known : isDecidable pl.registry source with
  | true =>
    rw [if_pos known] at kept
    have staged : isStaged pl.registry (.forEach s kind decl pattern source body) = true := known
    rw [staged, if_pos rfl]
    exact (hb.loop pl (met.round known) (carries.inRound hown none _) jumps.2 kept).mono fun _ left => .staged left
  | false =>
    have parts := met.kept known
    simp only [Stmt.layout, visited_cons] at parts
    rw [known, if_neg Bool.false_ne_true] at kept
    have kept := Bool.and_eq_true_iff.1 kept
    have plain : isStaged pl.registry (.forEach s kind decl pattern source body) = false := known
    let there := pl.inside (.forEach s kind decl pattern source body)
    rw [plain, if_neg Bool.false_ne_true]
    refine .bind (hs there env ⟨⟨_, parts.2.2.2.1⟩, jumps.1, kept.1⟩) fun source' first => ?_
    refine .bind (hb.single there parts.2.2.2.2.2.1 (carries.loop hown _) .nil jumps.2 kept.2) fun rest inner =>
      .pure (.kept ?_)
    exact Bool.and_eq_true_iff.2 ⟨first, inner⟩

/-- A staged label stands at a loop that is unrolled, and its jumps are executed. -/
theorem labeled {label : String} (hb : StaysScoped ev body)
    (loop : ∀ span kind decl pattern source inner, body = .forEach span kind decl pattern source inner →
      StaysScoped ev inner) : StaysScoped ev (.labeled s label body) := by
  refine of_stmt nofun fun pl env sc out loops own own' met carries hown jumps kept => ?_
  rw [loopsKeptStmt_labeled] at kept
  cases staged : isStageName label with
  | true =>
    obtain ⟨span, kind, decl, pattern, source, inner, rfl, known, round⟩ := met.labeledRound staged
    have jumps := Bool.and_eq_true_iff.1 jumps
    rw [loopsKeptStmt_forEach, if_pos known] at kept
    have executed : isStaged pl.registry (.labeled s label (.forEach span kind decl pattern source inner)) = true :=
      staged
    rw [residualStmt_labeled_forEach staged, executed]
    have around := carries.inRound (hown.staged staged) (some label) pattern.names
    exact ((loop _ _ _ _ _ _ rfl).loop pl round around jumps.2 kept).mono fun _ left => .staged left
  | false =>
    have parts := met.kept (s := .labeled s label body) staged
    simp only [Stmt.layout, visited_cons] at parts
    have plain : isStaged pl.registry (.labeled s label body) = false := staged
    let there := pl.inside (.labeled s label body)
    have inside : Carries there sc loops out := carries.inside rfl
    rw [residualStmt_labeled staged, plain]
    exact .bind (hb.single there parts.2.1 inside (hown.snoc label) jumps kept) fun rest inner => .pure (.kept inner)

theorem break_ {label : Option String} : StaysScoped ev (.break_ s label) := by
  refine of_stmt nofun fun pl env sc out loops own own' met carries hown jumps _ => ?_
  rw [residualStmt_break]
  cases label with
  | none => exact .pure (.kept (carries.inLoop jumps (met.free (.inl ⟨s, rfl⟩))))
  | some l =>
    cases staged : isStageName l with
    | true =>
      have executed : isStaged pl.registry (.break_ s (some l)) = true := staged
      rw [executed, Option.filter_some, if_pos staged]
      exact .pure (.staged rfl)
    | false =>
      have plain : isStaged pl.registry (.break_ s (some l)) = false := staged
      rw [plain, Option.filter_some, if_neg (by simp [staged])]
      have target : l ∈ own ++ sc.labels := List.contains_iff_mem.1 jumps
      have left := forall_mem_append_kept hown carries.labels l target staged
      exact .pure (.kept (List.contains_iff_mem.2 left))

theorem continue_ {label : Option String} : StaysScoped ev (.continue_ s label) := by
  refine of_stmt nofun fun pl env sc out loops own own' met carries hown jumps kept => ?_
  rw [residualStmt_continue]
  cases label with
  | none => exact .pure (.kept (carries.inLoop jumps (met.free (.inr ⟨s, rfl⟩))))
  | some l =>
    cases staged : isStageName l with
    | true =>
      have executed : isStaged pl.registry (.continue_ s (some l)) = true := staged
      rw [executed, Option.filter_some, if_pos staged]
      exact .pure (.staged rfl)
    | false =>
      have plain : isStaged pl.registry (.continue_ s (some l)) = false := staged
      rw [plain, Option.filter_some, if_neg (by simp [staged])]
      have keeps : (isStageName l || loops.contains l) = true := kept
      have target : l ∈ loops := by simpa [staged] using keeps
      exact .pure (.kept (List.contains_iff_mem.2 (carries.loops l target staged)))

end Stmt.StaysScoped

end Staging.Template
