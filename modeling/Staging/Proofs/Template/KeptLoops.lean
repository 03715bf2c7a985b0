import Staging.Proofs.Source.Jumps
import Staging.Proofs.Template.Visits

/-!
Loops that are kept.

A loop that is unrolled leaves no loop. A `break` or `continue` without label that would lose its loop is refused, and
one to a staged label is executed. A plain label stays where it was, now in front of the rounds, so a `break` to it has
its target; but a `continue` has none. `loopsKeptStmt` says that this does not happen: each `continue` to a plain label
goes to a loop that is kept.

`Carries` relates what is around a statement of the template to what is around what is left of it.
-/

namespace Staging.Template

open Script

/-! ### Loops that are kept -/

mutual

/-- Whether in the functions of an expression each `continue` to a plain label goes to a loop that is kept. -/
def loopsKeptExpr (r : Registry) (e : Expr) : Bool :=
  match fate r e with
  | .inline | .call => true
  | .keep =>
    match e with
    | .literal _ _ | .ident _ _ => true
    | .array _ items => loopsKeptExprs r items
    | .object _ props => loopsKeptProps r props
    | .function _ f => loopsKeptFunc r f
    | .unary _ _ e => loopsKeptExpr r e
    | .update _ _ _ e => loopsKeptExpr r e
    | .binary _ _ a b => loopsKeptExpr r a && loopsKeptExpr r b
    | .assign _ _ a b => loopsKeptExpr r a && loopsKeptExpr r b
    | .cond _ a b c => loopsKeptExpr r a && loopsKeptExpr r b && loopsKeptExpr r c
    | .member _ o k _ => loopsKeptExpr r o && loopsKeptKey r k
    | .call _ (.member _ o k _) args _ => loopsKeptExpr r o && loopsKeptKey r k && loopsKeptExprs r args
    | .call _ c args _ => loopsKeptExpr r c && loopsKeptExprs r args
    | .new _ c args => loopsKeptExpr r c && loopsKeptExprs r args

def loopsKeptKey (r : Registry) : Key → Bool
  | .named _ => true
  | .computed e => loopsKeptExpr r e

def loopsKeptExprs (r : Registry) : List Expr → Bool
  | [] => true
  | e :: es => loopsKeptExpr r e && loopsKeptExprs r es

def loopsKeptProps (r : Registry) : List Property → Bool
  | [] => true
  | ⟨k, v⟩ :: ps => loopsKeptKey r k && loopsKeptExpr r v && loopsKeptProps r ps

def loopsKeptOption (r : Registry) : Option Expr → Bool
  | none => true
  | some e => loopsKeptExpr r e

def loopsKeptParams (r : Registry) : List Param → Bool
  | [] => true
  | ⟨_, _, default, _⟩ :: ps => loopsKeptOption r default && loopsKeptParams r ps

/-- A function's body has no loops around it. -/
def loopsKeptBody (r : Registry) : FuncBody → Bool
  | .block body => loopsKeptStmts r [] body
  | .expr e => loopsKeptExpr r e

def loopsKeptFunc (r : Registry) : Func → Bool
  | ⟨_, params, body, _⟩ => loopsKeptParams r params && loopsKeptBody r body

def loopsKeptDeclarators (r : Registry) : List Declarator → Bool
  | [] => true
  | ⟨_, init⟩ :: ds => loopsKeptOption r init && loopsKeptDeclarators r ds

def loopsKeptDecl (r : Registry) : VarDecl → Bool
  | ⟨_, _, ds⟩ => loopsKeptDeclarators r ds

def loopsKeptInit (r : Registry) : Option ForInit → Bool
  | none => true
  | some (.decl d) => loopsKeptDecl r d
  | some (.expr e) => loopsKeptExpr r e

def loopsKeptHandler (r : Registry) (loops : List String) : Option CatchClause → Bool
  | none => true
  | some ⟨_, body⟩ => loopsKeptStmts r loops body

def loopsKeptFinal (r : Registry) (loops : List String) : Option (List Stmt) → Bool
  | none => true
  | some body => loopsKeptStmts r loops body

def loopsKeptElse (r : Registry) (loops : List String) : Option Stmt → Bool
  | none => true
  | some s => loopsKeptStmt r loops [] s

def loopsKeptStmts (r : Registry) (loops : List String) : List Stmt → Bool
  | [] => true
  | s :: ss => loopsKeptStmt r loops [] s && loopsKeptStmts r loops ss

/--
Whether each `continue` to a plain label goes to a loop that is kept. The kept loops around carry the labels `loops`,
and `own` are the labels that stand directly before the statement.
-/
def loopsKeptStmt (r : Registry) (loops own : List String) : Stmt → Bool
  | .expr _ e => loopsKeptExpr r e
  | .decl d => loopsKeptDecl r d
  | .function _ f => loopsKeptFunc r f
  | .return_ _ e => loopsKeptOption r e
  | .if_ _ test yes no =>
    (isDecidable r test || loopsKeptExpr r test) && loopsKeptStmt r loops [] yes && loopsKeptElse r loops no
  | .for_ _ init test update body =>
    loopsKeptInit r init && loopsKeptOption r test && loopsKeptOption r update
      && loopsKeptStmt r (own ++ loops) [] body
  | .forEach _ _ _ pattern source body =>
    if isDecidable r source then loopsKeptStmt (r.bindNames pattern.names) loops [] body
    else loopsKeptExpr r source && loopsKeptStmt r (own ++ loops) [] body
  | .while_ _ test body => loopsKeptExpr r test && loopsKeptStmt r (own ++ loops) [] body
  | .break_ _ _ | .empty _ => true
  | .continue_ _ label => label.all fun l => isStageName l || loops.contains l
  | .labeled _ label body => loopsKeptStmt r loops (own ++ [label]) body
  | .throw_ _ e => loopsKeptExpr r e
  | .try_ _ body handler finalizer =>
    loopsKeptStmts r loops body && loopsKeptHandler r loops handler && loopsKeptFinal r loops finalizer
  | .block _ body => loopsKeptStmts r loops body

end

/-- Where an expression is kept. -/
theorem loopsKeptExpr_kept {r : Registry} {e : Expr} : fate r e = .keep →
    loopsKeptExpr r e = match e with
      | .literal _ _ | .ident _ _ => true
      | .array _ items => loopsKeptExprs r items
      | .object _ props => loopsKeptProps r props
      | .function _ f => loopsKeptFunc r f
      | .unary _ _ e => loopsKeptExpr r e
      | .update _ _ _ e => loopsKeptExpr r e
      | .binary _ _ a b => loopsKeptExpr r a && loopsKeptExpr r b
      | .assign _ _ a b => loopsKeptExpr r a && loopsKeptExpr r b
      | .cond _ a b c => loopsKeptExpr r a && loopsKeptExpr r b && loopsKeptExpr r c
      | .member _ o k _ => loopsKeptExpr r o && loopsKeptKey r k
      | .call _ (.member _ o k _) args _ => loopsKeptExpr r o && loopsKeptKey r k && loopsKeptExprs r args
      | .call _ c args _ => loopsKeptExpr r c && loopsKeptExprs r args
      | .new _ c args => loopsKeptExpr r c && loopsKeptExprs r args := by
  intro kept
  conv_lhs => unfold loopsKeptExpr
  rw [kept]

-- These hold by definition. The equations derived for the recursion take long to derive.

theorem loopsKeptStmt_if {r : Registry} {loops own : List String} {s : Span} {test : Expr} {yes : Stmt}
    {no : Option Stmt} : loopsKeptStmt r loops own (.if_ s test yes no) =
      ((isDecidable r test || loopsKeptExpr r test) && loopsKeptStmt r loops [] yes && loopsKeptElse r loops no) := rfl

theorem loopsKeptStmt_forEach {r : Registry} {loops own : List String} {s : Span} {kind : IterKind}
    {decl : Option DeclKind} {pattern : Pattern} {source : Expr} {body : Stmt} :
    loopsKeptStmt r loops own (.forEach s kind decl pattern source body) =
      if isDecidable r source then loopsKeptStmt (r.bindNames pattern.names) loops [] body
      else loopsKeptExpr r source && loopsKeptStmt r (own ++ loops) [] body := rfl

theorem loopsKeptStmt_labeled {r : Registry} {loops own : List String} {s : Span} {label : String} {body : Stmt} :
    loopsKeptStmt r loops own (.labeled s label body) = loopsKeptStmt r loops (own ++ [label]) body := rfl

/-! ### Where jumps are kept -/

/-- What is around a statement in the template, and what is around what is left of it. -/
structure Carries (pl : Place) (sc : JumpScope) (loops : List String) (out : JumpScope) : Prop where
  /-- A jump without label is kept only in a loop that is kept. -/
  inLoop : sc.inLoop = true → pl.stagedLoops.head? ≠ some pl.plainLoops → out.inLoop = true
  labels : ∀ l ∈ sc.labels, isStageName l = false → l ∈ out.labels
  loops : ∀ l ∈ loops, isStageName l = false → l ∈ out.loops

/-- Labels directly before a statement, as far as they are kept. -/
def OwnKept (own own' : List String) : Prop := ∀ l ∈ own, isStageName l = false → l ∈ own'

theorem OwnKept.nil : OwnKept [] [] := nofun

theorem OwnKept.snoc {own own' : List String} (h : OwnKept own own') (label : String) :
    OwnKept (own ++ [label]) (own' ++ [label]) := by
  intro l hl plain
  rcases List.mem_append.1 hl with hl | hl
  · exact List.mem_append_left _ (h l hl plain)
  · exact List.mem_append_right _ hl

theorem OwnKept.staged {own own' : List String} (h : OwnKept own own') {label : String}
    (staged : isStageName label = true) : OwnKept (own ++ [label]) own' := by
  intro l hl plain
  rcases List.mem_append.1 hl with hl | hl
  · exact h l hl plain
  · obtain rfl := List.mem_singleton.1 hl
    simp [staged] at plain

theorem forall_mem_append_kept {xs ys xs' ys' : List String} (hx : OwnKept xs xs')
    (hy : ∀ l ∈ ys, isStageName l = false → l ∈ ys') : ∀ l ∈ xs ++ ys, isStageName l = false → l ∈ xs' ++ ys' := by
  intro l hl plain
  rcases List.mem_append.1 hl with hl | hl
  · exact List.mem_append_left _ (hx l hl plain)
  · exact List.mem_append_right _ (hy l hl plain)

namespace Carries

variable {pl : Place} {sc out : JumpScope} {loops own own' : List String}

theorem top (pl : Place) : Carries pl {} [] {} := ⟨nofun, nofun, nofun⟩

theorem aside (c : Carries pl sc loops out) : Carries pl.aside sc loops out := ⟨c.inLoop, c.labels, c.loops⟩

theorem labeled (c : Carries pl sc loops out) (h : OwnKept own own') :
    Carries pl (sc.labeled own) loops (out.labeled own') :=
  ⟨c.inLoop, forall_mem_append_kept h c.labels, c.loops⟩

/-- Inside a kept statement that is no loop. -/
theorem inside (c : Carries pl sc loops out) {s : Stmt} (plain : isLoop s = false) :
    Carries (pl.inside s) sc loops out := by
  refine ⟨fun inLoop free => c.inLoop inLoop ?_, c.labels, c.loops⟩
  simpa [Place.inside, plain] using free

/-- In the body of a kept loop. -/
theorem loop (c : Carries pl sc loops out) (h : OwnKept own own') (s : Stmt) :
    Carries (pl.inside s) (sc.loop own) (own ++ loops) (out.loop own') :=
  ⟨fun _ _ => rfl, forall_mem_append_kept h c.labels, forall_mem_append_kept h c.loops⟩

/-- In a round of an unrolled loop there is no loop for jumps without label. -/
theorem inRound (c : Carries pl sc loops out) (h : OwnKept own own') (label : Option String) (names : List String) :
    Carries (pl.inRound label names) (sc.loop own) loops (out.labeled own') :=
  ⟨fun _ free => absurd rfl free, forall_mem_append_kept h c.labels, c.loops⟩

end Carries

/-- What is left of a statement that is kept or staged has jumps with targets; `own` are the labels before it. -/
inductive LeftScoped (out : JumpScope) (own : List String) : Bool → List Stmt → Prop
  | kept {s : Stmt} (h : s.jumpsScoped out own = true) : LeftScoped out own false [s]
  | staged {ss : List Stmt} (h : Stmt.allJumpsScoped (out.labeled own) ss = true) : LeftScoped out own true ss

theorem Stmt.allJumpsScoped_cons {sc : JumpScope} {s : Stmt} {ss : List Stmt} :
    Stmt.allJumpsScoped sc (s :: ss) = (s.jumpsScoped sc [] && Stmt.allJumpsScoped sc ss) := rfl

theorem allJumpsScoped_append {sc : JumpScope} {ss ts : List Stmt} :
    Stmt.allJumpsScoped sc (ss ++ ts) = (Stmt.allJumpsScoped sc ss && Stmt.allJumpsScoped sc ts) := by
  induction ss with
  | nil => rfl
  | cons s ss ih =>
    rw [List.cons_append, Stmt.allJumpsScoped_cons, ih, Stmt.allJumpsScoped_cons, Bool.and_assoc]

namespace LeftScoped

variable {out : JumpScope} {own : List String} {staged : Bool}

theorem all {ss : List Stmt} (h : LeftScoped out [] staged ss) : Stmt.allJumpsScoped out ss = true := by
  cases h with
  | kept h => exact Bool.and_eq_true_iff.2 ⟨h, rfl⟩
  | staged h => exact h

/-- As the single body of a kept statement. -/
theorem single {rest : Residual} (h : LeftScoped out own staged rest.1) :
    (single staged rest).jumpsScoped out own = true := by
  obtain ⟨ss, flow⟩ := rest
  cases h with
  | kept h => exact h
  | staged h =>
    have braces : Template.single true (ss, flow) = .block nowhere ss := by
      obtain _ | ⟨s, _ | _⟩ := ss <;> rfl
    rw [braces]
    exact h

end LeftScoped

end Staging.Template
