import Staging.Proofs.Template.StagedStmt

/-!
What the walk goes through.

Where compiling succeeds, the walk has met each part of the template in some place. `Visits` and `Visited` say this of
one part and of several, whatever was appended for them. From an expression or a statement that is met follows that the
parts of its layout are met inside it, and so are the branches and rounds of what is staged (`Visits.branches`,
`Visits.round`). A jump without label is kept only where a kept loop is around it (`Visits.free`).
-/

namespace Staging.Template

/-- The walk goes through a part in a place. -/
def Visits (pl : Place) (p : Part) : Prop := ∃ start fs start', Emits pl start [p] fs start'

/-- The walk goes through all parts in a place. -/
def Visited (pl : Place) (parts : List Part) : Prop := ∀ p ∈ parts, Visits pl p

theorem Emits.visited {pl : Place} {start start' : Bool} {parts : List Part} {fs : List Fragment}
    (h : Emits pl start parts fs start') : Visited pl parts := by
  unfold Visited
  induction h with
  | nil => exact nofun
  | text _ ih => exact List.forall_mem_cons.2 ⟨⟨false, _, _, .text .nil⟩, ih⟩
  | pattern _ ih => exact List.forall_mem_cons.2 ⟨⟨false, _, _, .pattern .nil⟩, ih⟩
  | keepExpr plan inner _ _ ih => exact List.forall_mem_cons.2 ⟨⟨_, _, _, .keepExpr plan inner .nil⟩, ih⟩
  | inline plan _ ih => exact List.forall_mem_cons.2 ⟨⟨false, _, _, .inline plan .nil⟩, ih⟩
  | call plan _ ih => exact List.forall_mem_cons.2 ⟨⟨false, _, _, .call plan .nil⟩, ih⟩
  | keepStmt plan inner _ _ ih => exact List.forall_mem_cons.2 ⟨⟨_, _, _, .keepStmt plan inner .nil⟩, ih⟩
  | branch plan inner _ _ ih => exact List.forall_mem_cons.2 ⟨⟨_, _, _, .branch plan inner .nil⟩, ih⟩
  | branchElse plan inner other _ _ _ ih =>
    exact List.forall_mem_cons.2 ⟨⟨_, _, _, .branchElse plan inner other .nil⟩, ih⟩
  | unroll plan inner _ _ ih => exact List.forall_mem_cons.2 ⟨⟨_, _, _, .unroll plan inner .nil⟩, ih⟩
  | jump plan _ ih => exact List.forall_mem_cons.2 ⟨⟨false, _, _, .jump plan .nil⟩, ih⟩

section Visited

variable {pl : Place} {parts more : List Part} {p : Part}

@[simp] theorem visited_nil : Visited pl [] := nofun

@[simp] theorem visited_cons : Visited pl (p :: parts) ↔ Visits pl p ∧ Visited pl parts := List.forall_mem_cons

@[simp] theorem visited_append : Visited pl (parts ++ more) ↔ Visited pl parts ∧ Visited pl more :=
  List.forall_mem_append

@[simp] theorem visits_text (t : String) : Visits pl (.text t) := ⟨false, _, _, .text .nil⟩

@[simp] theorem visited_separate (sep : String) :
    ∀ groups : List (List Part), Visited pl (separate sep groups) ↔ ∀ g ∈ groups, Visited pl g
  | [] => ⟨fun _ => nofun, fun _ => nofun⟩
  | [ps] => by
    change Visited pl ps ↔ _
    simp
  | ps :: next :: rest => by
    change Visited pl (ps ++ .text sep :: separate sep (next :: rest)) ↔ _
    rw [visited_append, visited_cons, visited_separate sep (next :: rest), List.forall_mem_cons]
    simp

@[simp] theorem visited_stmts (body : List Stmt) :
    Visited pl (body.map .stmt) ↔ ∀ s ∈ body, Visits pl (.stmt s) := List.forall_mem_map

@[simp] theorem visited_block (body : List Stmt) :
    Visited pl (blockLayout body) ↔ ∀ s ∈ body, Visits pl (.stmt s) := by
  simp [blockLayout]

@[simp] theorem visited_args (args : List Expr) :
    Visited pl (argsLayout args) ↔ ∀ e ∈ args, Visits pl (.expr e .assignment) := by
  simp [argsLayout]

/-- The walk goes along the layout of an expression that is kept. -/
theorem Visits.keptAs {e : Expr} {min : Precedence} (h : Visits pl (.expr e min)) (kept : fate pl.registry e = .keep) :
    ∃ parts, KeptAs pl.registry e min parts ∧ Visited pl.aside parts := by
  obtain ⟨start, fs, start', emits⟩ := h
  rw [fate_eq _ _ min] at kept
  cases emits with
  | keepExpr plan inner => exact ⟨_, keptAs_of_plan plan, inner.visited⟩
  | inline plan | call plan =>
    rw [plan] at kept
    cases kept

theorem visited_layout {e : Expr} {min : Precedence} : Visited pl (e.layout min) ↔ Visited pl e.inner := by
  unfold Expr.layout
  split <;> simp

theorem Visits.inner {e : Expr} {min : Precedence} (h : Visits pl (.expr e min)) (kept : fate pl.registry e = .keep)
    (plain : ∀ s t o k keyOptional args optional, e ≠ .call s (.member t o k keyOptional) args optional) :
    Visited pl.aside e.inner := by
  obtain ⟨parts, as, visited⟩ := h.keptAs kept
  cases as with
  | layout => exact visited_layout.1 visited
  | method => exact absurd rfl (plain _ _ _ _ _ _ _)

/-- The object of an access that is kept, and its key. -/
theorem Visits.access {t : Span} {o : Expr} {k : Key} {optional : Bool} {min : Precedence}
    (h : Visits pl (.expr (.member t o k optional) min)) (kept : fate pl.registry (.member t o k optional) = .keep) :
    (∃ m, Visits pl.aside (.expr o m)) ∧ Visited pl.aside (k.layout optional) := by
  have visited := h.inner kept nofun
  simp only [Expr.inner, visited_append] at visited
  refine ⟨?_, visited.2⟩
  have object := visited.1
  split at object <;> simp only [parenthesized, visited_cons] at object
  · exact ⟨_, object.2.1⟩
  · exact ⟨_, object.1⟩

/-- The object, the key and the arguments of a method call that is kept. -/
theorem Visits.method {s t : Span} {o : Expr} {k : Key} {keyOptional : Bool} {args : List Expr} {optional : Bool}
    {min : Precedence} (h : Visits pl (.expr (.call s (.member t o k keyOptional) args optional) min))
    (kept : fate pl.registry (.call s (.member t o k keyOptional) args optional) = .keep) :
    (∃ m, Visits pl.aside (.expr o m)) ∧ Visited pl.aside (k.layout keyOptional)
      ∧ ∀ e ∈ args, Visits pl.aside (.expr e .assignment) := by
  obtain ⟨parts, as, visited⟩ := h.keptAs kept
  cases as with
  | layout plain =>
    rw [visited_layout] at visited
    simp only [Expr.inner, visited_cons, visited_args] at visited
    have keeps : fate pl.aside.registry (.member t o k keyOptional) = .keep := by
      have root : hasInlinedRoot pl.aside.registry (.member t o k keyOptional) = false :=
        plain _ _ _ _ _ _ _ rfl
      simp [fate, planExpr, root, ExprPlan.fate]
    obtain ⟨object, key⟩ := visited.1.access keeps
    exact ⟨object, key, visited.2.2⟩
  | method =>
    simp only [methodLayout, List.cons_append, visited_cons, visited_append, visited_args] at visited
    exact ⟨⟨_, visited.2.1⟩, visited.2.2.1.1, visited.2.2.1.2.2⟩

/-! ### Expressions and functions -/

/-- The expression of a computed key. -/
def computed? : Key → Option Expr
  | .named _ => none
  | .computed e => some e

theorem visited_params {params : List Param} :
    Visited pl (paramsLayout params) ↔ ∀ q ∈ params, Visited pl q.layout := by
  simp [paramsLayout]

theorem met_of_access {k : Key} {optional : Bool} (h : Visited pl (k.layout optional)) :
    ∀ e ∈ computed? k, ∃ min, Visits pl (.expr e min) := by
  cases k with
  | named => exact nofun
  | computed e =>
    simp only [Key.layout, visited_cons] at h
    rintro _ ⟨⟩
    exact ⟨_, h.2.1⟩

theorem met_of_func {f : Func} (h : Visited pl f.layout) : (∀ q ∈ f.params, Visited pl q.layout)
    ∧ (∀ ss, f.body = .block ss → ∀ s ∈ ss, Visits pl (.stmt s))
    ∧ ∀ e, f.body = .expr e → ∃ min, Visits pl (.expr e min) := by
  obtain ⟨name, params, body, isArrow⟩ := f
  cases isArrow with
  | true =>
    simp only [Func.layout, if_true, visited_append, visited_cons, visited_params] at h
    refine ⟨h.1, ?_, ?_⟩
    · rintro ss rfl
      exact (visited_block ss).1 h.2.2
    · rintro e rfl
      have body := h.2.2
      dsimp only at body
      split at body <;> simp only [parenthesized, visited_cons] at body
      · exact ⟨_, body.2.1⟩
      · exact ⟨_, body.1⟩
  | false =>
    simp only [Func.layout, Bool.false_eq_true, if_false, List.cons_append, visited_append, visited_cons,
      visited_params] at h
    refine ⟨h.2.1, ?_, ?_⟩
    · rintro ss rfl
      exact (visited_block ss).1 h.2.2.2
    · rintro e rfl
      have body := h.2.2.2
      simp only [visited_cons] at body
      exact ⟨_, body.2.1⟩

/-! ### Statements -/

/-- The walk goes along the layout of a statement that is kept. -/
theorem Visits.kept {s : Stmt} (h : Visits pl (.stmt s)) (plain : isStaged pl.registry s = false) :
    Visited (pl.inside s) s.layout := by
  obtain ⟨start, fs, start', emits⟩ := h
  exact (emits.keep_inv plain).visited

/-- The walk goes through the branches of a conditional that is decided. -/
theorem Visits.branches {span : Span} {test : Expr} {yes : Stmt} {no : Option Stmt}
    (h : Visits pl (.stmt (.if_ span test yes no))) (known : isDecidable pl.registry test = true) :
    Visited pl.aside (bodyParts yes) ∧ ∀ n ∈ no, Visited pl.aside (bodyParts n) := by
  obtain ⟨start, fs, start', emits⟩ := h
  have becomes := becomes_plan pl (.if_ span test yes no)
  cases emits with
  | keepStmt plan =>
    rw [plan] at becomes
    cases becomes with
    | keep plain => simp [isStaged, known] at plain
  | branch plan inner =>
    rw [plan] at becomes
    cases becomes
    refine ⟨inner.visited, ?_⟩
    rintro _ ⟨⟩
  | branchElse plan inner other =>
    rw [plan] at becomes
    cases becomes
    refine ⟨inner.visited, ?_⟩
    rintro _ ⟨⟩
    exact other.visited
  | unroll plan | jump plan =>
    rw [plan] at becomes
    cases becomes

/-- The walk goes through the body of a loop that is unrolled. -/
theorem Visits.round {span : Span} {kind : IterKind} {decl : Option DeclKind} {pattern : Pattern} {source : Expr}
    {body : Stmt} (h : Visits pl (.stmt (.forEach span kind decl pattern source body)))
    (known : isDecidable pl.registry source = true) : Visited (pl.inRound none pattern.names) (bodyParts body) := by
  obtain ⟨start, fs, start', emits⟩ := h
  have becomes := becomes_plan pl (.forEach span kind decl pattern source body)
  cases emits with
  | keepStmt plan =>
    rw [plan] at becomes
    cases becomes with
    | keep plain => simp [isStaged, known] at plain
  | unroll plan inner =>
    rw [plan] at becomes
    cases becomes
    exact inner.visited
  | branch plan | branchElse plan | jump plan =>
    rw [plan] at becomes
    cases becomes

/-- A staged label stands at a loop that is unrolled. -/
theorem Visits.labeledRound {span : Span} {label : String} {body : Stmt}
    (h : Visits pl (.stmt (.labeled span label body))) (staged : isStageName label = true) :
    ∃ span' kind decl pattern source inner, body = .forEach span' kind decl pattern source inner
      ∧ isDecidable pl.registry source = true
      ∧ Visited (pl.inRound (some label) pattern.names) (bodyParts inner) := by
  obtain ⟨start, fs, start', emits⟩ := h
  have becomes := becomes_plan pl (.labeled span label body)
  cases emits with
  | keepStmt plan =>
    rw [plan] at becomes
    cases becomes with
    | keep plain => simp [isStaged, staged] at plain
  | unroll plan inner =>
    rw [plan] at becomes
    cases becomes with
    | labeledLoop _ known => exact ⟨_, _, _, _, _, _, rfl, known, inner.visited⟩
  | branch plan | branchElse plan | jump plan =>
    rw [plan] at becomes
    cases becomes

/-- A jump without label is not kept directly in a round of an unrolled loop. -/
theorem stagedLoops_of_keep {j : Jump} {span : Span} (plan : planJump pl.toState j span none = .keep) :
    pl.stagedLoops.head? ≠ some pl.plainLoops := by
  intro round
  simp only [planJump, Place.toState, round, if_true] at plan
  cases plan

theorem Visits.free {s : Stmt} (h : Visits pl (.stmt s))
    (jump : (∃ span, s = .break_ span none) ∨ ∃ span, s = .continue_ span none) :
    pl.stagedLoops.head? ≠ some pl.plainLoops := by
  obtain ⟨start, fs, start', emits⟩ := h
  have becomes := becomes_plan pl s
  obtain ⟨span, rfl⟩ | ⟨span, rfl⟩ := jump <;> cases emits with
  | keepStmt plan => exact stagedLoops_of_keep plan
  | branch plan | branchElse plan | unroll plan | jump plan =>
    rw [plan] at becomes
    cases becomes

theorem visited_clause {e : Option Expr} : Visited pl (clauseLayout e) → ∀ a ∈ e, ∃ min, Visits pl (.expr a min) := by
  rintro h a rfl
  simp only [clauseLayout, visited_cons] at h
  exact ⟨_, h.2.1⟩

theorem met_of_for {s : Span} {init : Option ForInit} {test update : Option Expr} {body : Stmt}
    (h : Visited pl (Stmt.for_ s init test update body).layout) : (∀ i ∈ init, Visited pl i.layout)
      ∧ (∀ a ∈ test, ∃ min, Visits pl (.expr a min)) ∧ (∀ a ∈ update, ∃ min, Visits pl (.expr a min))
      ∧ Visits pl (.stmt body) := by
  simp only [Stmt.layout, List.cons_append, List.append_assoc, visited_append, visited_cons] at h
  obtain ⟨-, inits, -, tests, -, updates, -, bodies, -⟩ := h
  refine ⟨?_, visited_clause tests, visited_clause updates, bodies⟩
  rintro i rfl
  exact inits

theorem met_of_try {s : Span} {ss : List Stmt} {handler : Option CatchClause} {finalizer : Option (List Stmt)}
    (h : Visited pl (Stmt.try_ s ss handler finalizer).layout) : (∀ b ∈ ss, Visits pl (.stmt b))
      ∧ (∀ c ∈ handler, ∀ b ∈ c.body, Visits pl (.stmt b)) ∧ ∀ c ∈ finalizer, ∀ b ∈ c, Visits pl (.stmt b) := by
  simp only [Stmt.layout, List.cons_append, List.append_assoc, visited_append, visited_cons, visited_block] at h
  obtain ⟨-, bodies, handlers, finals⟩ := h
  refine ⟨bodies, ?_, ?_⟩
  · rintro ⟨_ | p, body⟩ rfl <;> simp only [visited_cons, visited_block] at handlers
    · exact handlers.2
    · exact handlers.2.2.2
  · rintro c rfl
    simp only [visited_cons, visited_block] at finals
    exact finals.2

theorem met_of_if {s : Span} {test : Expr} {yes : Stmt} {no : Option Stmt}
    (h : Visited pl (Stmt.if_ s test yes no).layout) :
    (∃ min, Visits pl (.expr test min)) ∧ Visits pl (.stmt yes) ∧ ∀ n ∈ no, Visits pl (.stmt n) := by
  cases no with
  | none =>
    simp only [Stmt.layout, visited_cons] at h
    exact ⟨⟨_, h.2.1⟩, h.2.2.2.1, nofun⟩
  | some n =>
    simp only [Stmt.layout, visited_append, visited_cons] at h
    refine ⟨⟨_, h.1.1.2.1⟩, ?_, ?_⟩
    · have branch := h.1.2
      split at branch <;> simpa using branch
    · rintro _ ⟨⟩
      exact h.2.2.1

end Visited

end Staging.Template
