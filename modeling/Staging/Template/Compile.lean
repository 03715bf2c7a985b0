import Staging.Template.Fragment
import Staging.Template.References

/-!
Compiling a template: what can be done during generation becomes instructions, the rest stays text.

A template is walked along its layout, as printing does. `planExpr` and `planStmt` say what becomes of
a node: its text is kept, with what stands in it compiled in turn, or it turns into an instruction, or
it is refused. Conditionals on staged values are decided and loops over staged collections unrolled
when the program runs.

The state knows where the walk is: the staged names, the unrolled loops around with their labels, and
how deep in kept text this place is. Every change to it is made by a combinator that takes it back
afterwards, also when compiling fails.
-/

namespace Staging.Template

/-- Where the walk is, and what it has produced. -/
structure CompileState where
  registry : Registry
  buffer : Buffer := #[]
  /-- The labels of the unrolled loops around, innermost first, and the depth at which they stand. -/
  labels : List (String × Nat) := []
  /-- How many kept statements are around this place. -/
  plainDepth : Nat := 0
  /-- How many kept loops are around this place. -/
  plainLoops : Nat := 0
  /-- For the unrolled loops around, innermost first, how many kept loops are around them. -/
  stagedLoops : List Nat := []
  /-- The next statement is the single body of a kept statement. -/
  inBody : Bool := false
  /-- The next text begins a statement or the body of an arrow. -/
  atStart : Bool := false

abbrev Compile := EStateM StagingError CompileState

/-! ### Output -/

/-- Appends text. -/
def write (text : String) : Compile Unit :=
  modify fun s =>
    { s with
      buffer := s.buffer.pushText text
      atStart := if text.isEmpty then s.atStart else text == " => " }

/-- Appends an instruction. -/
def push (i : Instruction) : Compile Unit :=
  modify fun s => { s with buffer := s.buffer.pushCode i }

/-- Appends the value of an expression. -/
def pushInline (e : Expr) (min : Precedence) : Compile Unit :=
  modify fun s =>
    { s with buffer := s.buffer.pushCode (.inline e min s.atStart), atStart := false }

/-- Appends what a call gives. -/
def pushCall (e : Expr) : Compile Unit :=
  modify fun s => { s with buffer := s.buffer.pushCode (.call e), atStart := false }

/--
Appends a staged construct, which may leave no text. As the single body of a kept statement it gets
braces, or the statement would take the next one as its body.
-/
def pushStaged (i : Instruction) (inBody : Bool) : Compile Unit :=
  push (if inBody then .block [i] else i)

/-! ### Places -/

/-- Runs in a changed state; the change is taken back afterwards. -/
def within {α : Type} (enter leave : CompileState → CompileState) (act : Compile α) :
    Compile α := fun s =>
  match act (enter s) with
  | .ok a s => .ok a (leave s)
  | .error e s => .error e (leave s)

/-- Runs where the next statement is, or is not, the single body of a kept statement. -/
def withBody {α : Type} (inBody : Bool) (act : Compile α) : Compile α := fun s =>
  let before := s.inBody
  within ({ · with inBody }) ({ · with inBody := before }) act s

/-- Runs inside a kept statement. -/
def inPlain {α : Type} (isLoop : Bool) (act : Compile α) : Compile α :=
  let loops := if isLoop then 1 else 0
  within
    (fun s => { s with plainDepth := s.plainDepth + 1, plainLoops := s.plainLoops + loops })
    (fun s => { s with plainDepth := s.plainDepth - 1, plainLoops := s.plainLoops - loops }) act

/-- Runs inside an unrolled loop that binds the given names. -/
def inStagedLoop {α : Type} (label : Option String) (names : List String) (act : Compile α) :
    Compile α := fun s =>
  let (scope, registry) := s.registry.bind names
  within
    (fun s => { s with
      registry
      labels := (label.map (·, s.plainDepth)).toList ++ s.labels
      stagedLoops := s.plainLoops :: s.stagedLoops })
    (fun s => { s with
      registry := s.registry.unbind scope
      labels := s.labels.drop label.toList.length
      stagedLoops := s.stagedLoops.tail }) act s

/-- Runs with a buffer of its own and gives the instructions. -/
def capture (act : Compile Unit) : Compile (List Instruction) := fun s =>
  let outer := s.buffer
  match act { s with buffer := #[] } with
  | .ok _ s => let code := s.buffer.finish; .ok code { s with buffer := outer }
  | .error e s => .error e { s with buffer := outer }

/-! ### Plans for expressions -/

/-- What becomes of an expression. -/
inductive ExprPlan where
  /-- Its text stays, as these parts. -/
  | keep (parts : List Part)
  /-- Its value is written. -/
  | inline
  /-- It is called, and what it gives is written. -/
  | call
  | refuse (e : StagingError)

/-- Whether a chain of accesses starts from a name whose value is written. -/
def hasInlinedRoot (r : Registry) (chain : Expr) : Bool :=
  match chain.chainRoot.name? with
  | some name => isStageName name && r.inlined.contains name && !r.raw.contains name
  | none => false

/-- Whether the keys of a chain of accesses refer to staged names only. -/
def keysStaged (r : Registry) : Expr → Bool
  | .member _ inner (.computed key) _ =>
    (references key).all r.staged.contains && keysStaged r inner
  | .member _ inner (.named _) _ => keysStaged r inner
  | _ => true

/-- A chain of accesses is evaluated as a whole, so its keys have to be known. -/
def planChain (r : Registry) (chain : Expr) : ExprPlan :=
  if keysStaged r chain then .inline else .refuse (.unresolvedChain chain.text chain.span)

/--
A call of a method, with the access to the method as a part of its own: the object may be inlined while
the method is left to the generated code.
-/
def methodLayout (object : Expr) (key : Key) (keyOptional : Bool) (args : List Expr)
    (optional : Bool) (min : Precedence) : List Part :=
  let parens := Precedence.call < min
  .text (if parens then "(" else "") :: .expr object .call :: key.layout keyOptional
    ++ .text (if optional then "?." else "") :: argsLayout args
    ++ [.text (if parens then ")" else "")]

/-- What becomes of an expression in a place that asks for the given strength. -/
def planExpr (r : Registry) (e : Expr) (min : Precedence) : ExprPlan :=
  match e with
  | .ident _ name =>
    if isStageName name && r.inlined.contains name then .inline else .keep (e.layout min)
  | .member _ _ _ _ => if hasInlinedRoot r e then planChain r e else .keep (e.layout min)
  | .call _ (.ident _ name) _ _ =>
    if isStageName name && r.staged.contains name then .call
    else if isDecidable r e then .inline
    else .keep (e.layout min)
  | .call _ callee@(.member _ object key keyOptional) args optional =>
    if isDecidable r e then planChain r callee
    else if hasInlinedRoot r callee then
      .keep (methodLayout object key keyOptional args optional min)
    else .keep (e.layout min)
  | .call _ _ _ _ => if isDecidable r e then .inline else .keep (e.layout min)
  | _ => .keep (e.layout min)

/-! ### Plans for statements -/

/-- What becomes of a statement. -/
inductive StmtPlan where
  /-- Its text stays. -/
  | keep
  /-- It is decided when the program runs. -/
  | branch (test : Expr) (yes : Stmt) (no : Option Stmt)
  /-- It is unrolled when the program runs. -/
  | unroll (label : Option String) (kind : IterKind) (pattern : Pattern) (source : Expr)
      (body : Stmt)
  /-- It leaves a round of an unrolled loop. -/
  | jump (jump : Jump) (label : String)
  | refuse (e : StagingError)

/-- A conditional on staged values; what follows `else if` has to be staged too. -/
def planIf (r : Registry) (test : Expr) (yes : Stmt) (no : Option Stmt) : StmtPlan :=
  if isDecidable r test then
    match no with
    | some (.if_ _ next _ _) =>
      if isDecidable r next then .branch test yes no
      else .refuse (.stagingMismatch next.text next.span)
    | _ => .branch test yes no
  else .keep

/-- A loop over a staged collection; it may bind staged names only. -/
def planLoop (label : Option String) (span : Span) (kind : IterKind) (pattern : Pattern)
    (source : Expr) (body : Stmt) : StmtPlan :=
  if pattern.names.all isStageName then .unroll label kind pattern source body
  else .refuse (.namingViolation pattern.text span)

/-- A staged label stands at a loop over a staged collection. -/
def planLabeled (r : Registry) (span : Span) (label : String) (body : Stmt) : StmtPlan :=
  if isStageName label then
    match body with
    | .forEach loopSpan kind _ pattern source inner =>
      if isDecidable r source then planLoop (some label) loopSpan kind pattern source inner
      else .refuse (.invalidLabel label .misplaced span)
    | _ => .refuse (.invalidLabel label .misplaced span)
  else .keep

/--
A jump to a staged label leaves an unrolled loop, with only staged constructs in between. Any other jump
stays, but without a label it must not leave an unrolled loop.
-/
def planJump (s : CompileState) (jump : Jump) (span : Span) : Option String → StmtPlan
  | none =>
    if s.stagedLoops.head? = some s.plainLoops then .refuse (.unlabeledJump jump span) else .keep
  | some label =>
    if isStageName label then
      match s.labels.lookup label with
      | none => .refuse (.invalidLabel label .unknown span)
      | some depth =>
        if depth = s.plainDepth then .jump jump label
        else .refuse (.invalidLabel label .crossesPlain span)
    else .keep

/-- What becomes of a statement. -/
def planStmt (s : CompileState) : Stmt → StmtPlan
  | .if_ _ test yes no => planIf s.registry test yes no
  | .labeled span label body => planLabeled s.registry span label body
  | .forEach span kind _ pattern source body =>
    if isDecidable s.registry source then planLoop none span kind pattern source body else .keep
  | .break_ span label => planJump s .break_ span label
  | .continue_ span label => planJump s .continue_ span label
  | _ => .keep

/-- Statements that have a single statement as body. -/
def hasBody : Stmt → Bool
  | .if_ _ _ _ _ | .for_ _ _ _ _ _ | .forEach _ _ _ _ _ _ | .while_ _ _ _ | .labeled _ _ _ => true
  | _ => false

def isLoop : Stmt → Bool
  | .for_ _ _ _ _ _ | .forEach _ _ _ _ _ _ | .while_ _ _ _ => true
  | _ => false

def isExprStmt : Stmt → Bool
  | .expr _ _ => true
  | _ => false

/-- The statements that a branch or a loop body consists of. -/
def bodyParts : Stmt → List Part
  | .block _ body => body.map .stmt
  | s => [.stmt s]

/-- The instructions of a branch: a block keeps its braces. -/
def branchCode : Stmt → List Instruction → List Instruction
  | .block _ _, code => [.block code]
  | _, code => code

/-! ### What is compiled in turn is smaller -/

theorem weight_of_mem_bodyParts {s : Stmt} {p : Part} (h : p ∈ bodyParts s) :
    p.weight ≤ sizeOf s := by
  unfold bodyParts at h
  split at h
  · obtain ⟨t, ht, rfl⟩ := List.mem_map.1 h
    have := List.sizeOf_lt_of_mem ht
    simp only [Part.weight, Stmt.block.sizeOf_spec]; omega
  · obtain rfl := List.mem_singleton.1 h
    exact Nat.le_refl _

theorem weight_of_mem_method {object : Expr} {key : Key} {keyOptional : Bool} {args : List Expr}
    {optional : Bool} {min : Precedence} {p : Part}
    (h : p ∈ methodLayout object key keyOptional args optional min) :
    p.weight < 1 + sizeOf object + sizeOf key + sizeOf args := by
  simp only [methodLayout, List.mem_cons, List.mem_append, List.not_mem_nil, or_false] at h
  rcases h with ((rfl | rfl | h) | rfl | h) | rfl
  · simp only [Part.weight]; omega
  · simp only [Part.weight]; omega
  · have := weight_of_mem_key h; omega
  · simp only [Part.weight]; omega
  · have := weight_of_mem_args h; omega
  · simp only [Part.weight]; omega

theorem planChain_ne_keep {r : Registry} {chain : Expr} {parts : List Part} :
    planChain r chain ≠ .keep parts := by
  unfold planChain
  split <;> simp

theorem weight_of_planExpr {r : Registry} {e : Expr} {min : Precedence} {parts : List Part}
    (h : planExpr r e min = .keep parts) {p : Part} (hp : p ∈ parts) : p.weight < sizeOf e := by
  have layout : ∀ e', ExprPlan.keep (Expr.layout e' min) = .keep parts → p.weight < sizeOf e' := by
    intro e' he
    injection he with he
    subst he
    exact weight_of_mem_layout hp
  unfold planExpr at h
  split at h
  · split at h
    · simp at h
    · exact layout _ h
  · split at h
    · exact absurd h planChain_ne_keep
    · exact layout _ h
  · repeat' split at h
    · simp at h
    · simp at h
    · exact layout _ h
  · split at h
    · exact absurd h planChain_ne_keep
    · split at h
      · injection h with h
        subst h
        have := weight_of_mem_method hp
        simp only [Expr.call.sizeOf_spec, Expr.member.sizeOf_spec]; omega
      · exact layout _ h
  · split at h
    · simp at h
    · exact layout _ h
  · exact layout _ h

theorem planIf_eq_branch {r : Registry} {t test : Expr} {y yes : Stmt} {n no : Option Stmt}
    (h : planIf r t y n = .branch test yes no) : yes = y ∧ no = n := by
  unfold planIf at h
  repeat' split at h
  all_goals simp_all

theorem planLoop_eq_unroll {l label : Option String} {span : Span} {k kind : IterKind}
    {p pattern : Pattern} {s source : Expr} {b body : Stmt}
    (h : planLoop l span k p s b = .unroll label kind pattern source body) : body = b := by
  unfold planLoop at h
  split at h <;> simp_all

theorem planJump_ne_branch {s : CompileState} {jump : Jump} {span : Span} {l : Option String}
    {test : Expr} {yes : Stmt} {no : Option Stmt} : planJump s jump span l ≠ .branch test yes no := by
  unfold planJump
  repeat' split
  all_goals simp

theorem planJump_ne_unroll {s : CompileState} {jump : Jump} {span : Span} {l : Option String}
    {label : Option String} {kind : IterKind} {pattern : Pattern} {source : Expr} {body : Stmt} :
    planJump s jump span l ≠ .unroll label kind pattern source body := by
  unfold planJump
  repeat' split
  all_goals simp

theorem planStmt_branch {s : CompileState} {stmt : Stmt} {test : Expr} {yes : Stmt}
    {no : Option Stmt} (h : planStmt s stmt = .branch test yes no) :
    sizeOf yes < sizeOf stmt ∧ ∀ n, no = some n → sizeOf n < sizeOf stmt := by
  unfold planStmt at h
  split at h
  · obtain ⟨rfl, rfl⟩ := planIf_eq_branch h
    refine ⟨by simp only [Stmt.if_.sizeOf_spec]; omega, fun n hn => ?_⟩
    subst hn
    simp only [Stmt.if_.sizeOf_spec, Option.some.sizeOf_spec]; omega
  · simp only [planLabeled, planLoop] at h
    repeat' split at h
    all_goals simp at h
  · simp only [planLoop] at h
    repeat' split at h
    all_goals simp at h
  · exact absurd h planJump_ne_branch
  · exact absurd h planJump_ne_branch
  · simp at h

theorem planStmt_unroll {s : CompileState} {stmt : Stmt} {label : Option String} {kind : IterKind}
    {pattern : Pattern} {source : Expr} {body : Stmt}
    (h : planStmt s stmt = .unroll label kind pattern source body) :
    sizeOf body < sizeOf stmt := by
  unfold planStmt at h
  split at h
  · simp only [planIf] at h
    repeat' split at h
    all_goals simp at h
  · simp only [planLabeled] at h
    repeat' split at h
    · obtain rfl := planLoop_eq_unroll h
      simp only [Stmt.labeled.sizeOf_spec, Stmt.forEach.sizeOf_spec]; omega
    all_goals simp at h
  · split at h
    · obtain rfl := planLoop_eq_unroll h
      simp only [Stmt.forEach.sizeOf_spec]; omega
    · simp at h
  · exact absurd h planJump_ne_unroll
  · exact absurd h planJump_ne_unroll
  · simp at h

/-! ### The walk -/

/-- Compiles a part. -/
def emit : Part → Compile Unit
  | .text s => write s
  | .pattern p => write p.text
  | .expr e min => withBody false do
    match _h : planExpr (← get).registry e min with
    | .keep parts => parts.attach.forM fun ⟨p, _⟩ => emit p
    | .inline => pushInline e min
    | .call => pushCall e
    | .refuse err => throw err
  | .stmt s => do
    let inBody := (← get).inBody
    withBody false do
      match _h : planStmt (← get) s with
      | .keep =>
        if isExprStmt s then modify ({ · with atStart := true })
        withBody (hasBody s) (inPlain (isLoop s) (s.layout.attach.forM fun ⟨p, _⟩ => emit p))
      | .branch test yes no =>
        let thenCode ← capture ((bodyParts yes).attach.forM fun ⟨p, _⟩ => emit p)
        let elseCode ← match _hn : no with
          | none => pure none
          | some n => do
            let code ← capture ((bodyParts n).attach.forM fun ⟨p, _⟩ => emit p)
            pure (some (branchCode n code))
        pushStaged (.if_ test (branchCode yes thenCode) elseCode) inBody
      | .unroll label kind pattern source body =>
        let names := pattern.names
        let registry := (← get).registry.bindNames names
        let code ← inStagedLoop label names
          (capture ((bodyParts body).attach.forM fun ⟨p, _⟩ => emit p))
        pushStaged (.each label kind pattern source (names.filter (· ∉ registry.inlined)) code) inBody
      | .jump j label => push (.jump j label)
      | .refuse err => throw err
termination_by p => p.weight
decreasing_by
  · exact weight_of_planExpr ‹_› ‹_›
  · exact weight_of_mem_stmt ‹_›
  · exact Nat.lt_of_le_of_lt (weight_of_mem_bodyParts ‹_›) (planStmt_branch ‹_›).1
  · exact Nat.lt_of_le_of_lt (weight_of_mem_bodyParts ‹_›) ((planStmt_branch ‹_›).2 _ ‹_›)
  · exact Nat.lt_of_le_of_lt (weight_of_mem_bodyParts ‹_›) (planStmt_unroll ‹_›)

/-- Compiles statements one after the other. -/
def emitBody (body : List Stmt) : Compile Unit := body.forM fun s => emit (.stmt s)

/-- Compiles the declarations of the staged names that are not inlined. -/
def emitPreamble (names : List String) : Compile Unit :=
  names.forM fun name => do
    write ("const " ++ name ++ " = ")
    push (.inline (.ident ⟨0, 0⟩ name) .lowest false)
    write ";"

/-- Compiles the declarations and the body of a template. -/
def emitTemplate (declared : List String) (body : List Stmt) : Compile Unit := do
  emitPreamble declared
  emitBody body

/-- Compiles a template. -/
def compile (registry : Registry) (body : List Stmt) : Except StagingError Program :=
  match emitTemplate registry.declared body { registry } with
  | .ok _ s => .ok ⟨registry.staged, s.buffer.finish⟩
  | .error e _ => .error e

end Staging.Template
