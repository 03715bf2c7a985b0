import Staging.Proofs.Template.KeptLoops
import Staging.Proofs.Template.Specialize

/-!
What is left of expressions has targets for its jumps.

Jumps are found in the functions of an expression. An expression whose value is written leaves none of them, because the
tree of a value has no functions (`valueTree_jumpsScoped`); one that is kept leaves the functions that are left of its
own. As for printing, there is a lemma for each kind of node; the statements in a function come in as a hypothesis.
-/

namespace Staging.Template

open Script

/-! ### Whatever a computation gives -/

/-- Whatever a computation gives has the property. -/
def Ensures {ε σ α : Type} (Q : α → Prop) (act : EStateM ε σ α) : Prop := ∀ s a t, act s = .ok a t → Q a

namespace Ensures

variable {ε σ α β : Type} {P : α → Prop} {Q : β → Prop}

theorem pure {b : β} (h : Q b) : Ensures Q (Pure.pure b : EStateM ε σ β) := by
  rintro s _ _ ⟨⟩
  exact h

theorem throw (e : ε) : Ensures Q (throw e : EStateM ε σ β) := nofun

theorem bind {x : EStateM ε σ α} {f : α → EStateM ε σ β} (hx : Ensures P x) (hf : ∀ a, P a → Ensures Q (f a)) :
    Ensures Q (x >>= f) := by
  intro s b t run
  obtain ⟨a, u, first, run⟩ := bind_eq_ok.1 run
  exact hf a (hx s a u first) u b t run

/-- Nothing is known of the first result. -/
theorem after {x : EStateM ε σ α} {f : α → EStateM ε σ β} (hf : ∀ a, Ensures Q (f a)) : Ensures Q (x >>= f) :=
  bind (P := fun _ => True) (fun _ _ _ _ => trivial) fun a _ => hf a

theorem mono {x : EStateM ε σ α} {P' : α → Prop} (h : Ensures P x) (weaker : ∀ a, P a → P' a) : Ensures P' x :=
  fun s a t run => weaker a (h s a t run)

end Ensures

/-! ### Trees of values -/

theorem forall_of_mapM_ok {ε α β : Type} {f : α → Except ε β} {P : β → Prop} (h : ∀ a b, f a = .ok b → P b) :
    ∀ {as : List α} {bs : List β}, as.mapM f = .ok bs → ∀ b ∈ bs, P b
  | [], bs, run => by
    obtain rfl : [] = bs := by simpa [pure, Except.pure] using run
    simp
  | a :: as, bs, run => by
    rw [List.mapM_cons] at run
    obtain ⟨b, first, run⟩ := ok_of_bind run
    obtain ⟨bs', others, run⟩ := ok_of_bind run
    cases run
    exact List.forall_mem_cons.2 ⟨h a b first, forall_of_mapM_ok h others⟩

theorem allJumpsScoped_iff {es : List Expr} : Expr.allJumpsScoped es = true ↔ ∀ e ∈ es, e.jumpsScoped = true := by
  induction es with
  | nil => exact ⟨fun _ => nofun, fun _ => rfl⟩
  | cons e es ih => rw [List.forall_mem_cons, ← ih]; exact Bool.and_eq_true_iff

theorem jumpsScoped_numberTree (x : Float) : (numberTree x).jumpsScoped = true := by
  unfold numberTree
  split <;> rfl

theorem jumpsScoped_objectTree {fields : List (String × Option Expr)}
    (h : ∀ f ∈ fields, ∀ e ∈ f.2, e.jumpsScoped = true) : (objectTree fields).jumpsScoped = true := by
  change Property.allJumpsScoped _ = true
  induction fields with
  | nil => rfl
  | cons f fields ih =>
    obtain ⟨key, e⟩ := f
    rw [List.forall_mem_cons] at h
    cases e with
    | none => exact ih h.2
    | some e => exact Bool.and_eq_true_iff.2 ⟨Bool.and_eq_true_iff.2 ⟨rfl, h.1 e rfl⟩, ih h.2⟩

theorem jumpsScoped_arrayTree {items : List (Option Expr)} (h : ∀ i ∈ items, ∀ e ∈ i, e.jumpsScoped = true) :
    (arrayTree items).jumpsScoped = true := by
  refine allJumpsScoped_iff.2 (List.forall_mem_map.2 ?_)
  intro i hi
  cases i with
  | none => rfl
  | some e => exact h _ hi e rfl

/-- The tree of a value has no functions. -/
theorem treeOf_jumpsScoped {h : Heap} : ∀ (fuel : Nat) (path : List Container) (v : Value) (e : Option Expr),
    treeOf h fuel path v = .ok e → ∀ a ∈ e, a.jumpsScoped = true
  | _, _, .undefined, e, run | _, _, .function _, e, run => by
    unfold treeOf at run
    cases run
    simp
  | _, _, .null, e, run | _, _, .bool _, e, run | _, _, .string _, e, run | _, _, .date _, e, run => by
    unfold treeOf at run
    cases run
    rintro _ ⟨⟩
    rfl
  | _, _, .number x, e, run => by
    unfold treeOf at run
    cases run
    rintro _ ⟨⟩
    split
    · exact jumpsScoped_numberTree x
    · rfl
  | _, _, .raw _, e, run => by
    unfold treeOf at run
    cases run
  | 0, _, .array _, e, run | 0, _, .object _, e, run => by
    unfold treeOf at run
    cases run
  | fuel + 1, path, .array ref, e, run => by
    unfold treeOf at run
    obtain ⟨path, -, run⟩ := ok_of_bind run
    obtain ⟨items, each, run⟩ := ok_of_bind run
    cases run
    rintro _ ⟨⟩
    exact jumpsScoped_arrayTree (forall_of_mapM_ok (treeOf_jumpsScoped fuel path) each)
  | fuel + 1, path, .object ref, e, run => by
    unfold treeOf at run
    obtain ⟨path, -, run⟩ := ok_of_bind run
    obtain ⟨fields, each, run⟩ := ok_of_bind run
    cases run
    rintro _ ⟨⟩
    refine jumpsScoped_objectTree (forall_of_mapM_ok ?_ each)
    rintro ⟨key, v⟩ f run
    obtain ⟨tree, here, run⟩ := ok_of_bind run
    cases run
    exact treeOf_jumpsScoped fuel path v tree here

theorem valueTree_jumpsScoped (v : Value) : Ensures (fun e => e.jumpsScoped = true) (valueTree v) := by
  intro s e t run
  unfold valueTree at run
  split at run
  · rename_i tree found
    cases run
    cases tree with
    | none => rfl
    | some e => exact treeOf_jumpsScoped _ _ _ _ found e rfl
  · cases run

/-! ### What is left of the parts of a tree -/

/-- An expression that is met in a place, with targets for its jumps and with its labeled loops kept. -/
structure Expr.Fits (pl : Place) (e : Expr) : Prop where
  met : ∃ min, Visits pl (.expr e min)
  jumps : e.jumpsScoped = true
  loops : loopsKeptExpr pl.registry e = true

/-- What is left of an expression has targets for its jumps. -/
def Expr.StaysScoped (ev : Evaluator) (e : Expr) : Prop :=
  ∀ (pl : Place) (env : Env), Expr.Fits pl e →
    Ensures (fun e' => e'.jumpsScoped = true) (residualExpr ev pl.registry env e)

/-- What is left of a statement has targets for its jumps. -/
structure Stmt.StaysScoped (ev : Evaluator) (s : Stmt) : Prop where
  stmt : ∀ (pl : Place) (env : Env) (sc out : JumpScope) (loops own own' : List String), Visits pl (.stmt s) →
    Carries pl sc loops out → OwnKept own own' → s.jumpsScoped sc own = true →
    loopsKeptStmt pl.registry loops own s = true →
    Ensures (fun rest => LeftScoped out own' (isStaged pl.registry s) rest.1) (residualStmt ev pl.registry env s)
  inner : ∀ (pl : Place) (env : Env) (sc out : JumpScope) (loops : List String), Visited pl (bodyParts s) →
    Carries pl sc loops out → s.jumpsScoped sc [] = true → loopsKeptStmt pl.registry loops [] s = true →
    Ensures (fun rest => Stmt.allJumpsScoped out rest.1 = true) (residualInner ev pl.registry env s)

section

variable {ev : Evaluator} {env : Env} (pl : Place)

theorem Ensures.exprs {es : List Expr} (h : ∀ e ∈ es, Expr.StaysScoped ev e)
    (met : ∀ e ∈ es, Visits pl (.expr e .assignment)) (jumps : Expr.allJumpsScoped es = true)
    (loops : loopsKeptExprs pl.registry es = true) :
    Ensures (fun es' => Expr.allJumpsScoped es' = true) (residualExprs ev pl.registry env es) := by
  induction es with
  | nil => exact .pure rfl
  | cons e es ih =>
    rw [List.forall_mem_cons] at h met
    obtain ⟨here, there⟩ := Bool.and_eq_true_iff.1 jumps
    obtain ⟨loops, more⟩ := Bool.and_eq_true_iff.1 loops
    refine .bind (h.1 pl env ⟨⟨_, met.1⟩, here, loops⟩) fun e' first => ?_
    exact .bind (ih h.2 met.2 there more) fun es' rest => .pure (Bool.and_eq_true_iff.2 ⟨first, rest⟩)

theorem Ensures.option {e : Option Expr} (h : ∀ a ∈ e, Expr.StaysScoped ev a)
    (met : ∀ a ∈ e, ∃ min, Visits pl (.expr a min)) (jumps : Expr.optionJumpsScoped e = true)
    (loops : loopsKeptOption pl.registry e = true) :
    Ensures (fun e' => Expr.optionJumpsScoped e' = true) (residualOption ev pl.registry env e) := by
  cases e with
  | none => exact .pure rfl
  | some e => exact .bind (h e rfl pl env ⟨met e rfl, jumps, loops⟩) fun e' left => .pure left

theorem Ensures.key {k : Key} (h : ∀ e ∈ computed? k, Expr.StaysScoped ev e)
    (met : ∀ e ∈ computed? k, ∃ min, Visits pl (.expr e min)) (jumps : k.jumpsScoped = true)
    (loops : loopsKeptKey pl.registry k = true) :
    Ensures (fun k' => k'.jumpsScoped = true) (residualKey ev pl.registry env k) := by
  cases k with
  | named => exact .pure rfl
  | computed e => exact .bind (h e rfl pl env ⟨met e rfl, jumps, loops⟩) fun e' left => .pure left

theorem Ensures.props {ps : List Property}
    (h : ∀ p ∈ ps, (∀ e ∈ computed? p.key, Expr.StaysScoped ev e) ∧ Expr.StaysScoped ev p.value)
    (met : ∀ p ∈ ps, Visited pl p.layout) (jumps : Property.allJumpsScoped ps = true)
    (loops : loopsKeptProps pl.registry ps = true) :
    Ensures (fun ps' => Property.allJumpsScoped ps' = true) (residualProps ev pl.registry env ps) := by
  induction ps with
  | nil => exact .pure rfl
  | cons p ps ih =>
    obtain ⟨k, v⟩ := p
    rw [List.forall_mem_cons] at h met
    obtain ⟨jumps, others⟩ := Bool.and_eq_true_iff.1 jumps
    obtain ⟨keyJumps, valueJumps⟩ := Bool.and_eq_true_iff.1 jumps
    obtain ⟨loops, more⟩ := Bool.and_eq_true_iff.1 loops
    obtain ⟨keyLoops, valueLoops⟩ := Bool.and_eq_true_iff.1 loops
    have here : (∀ e ∈ computed? k, ∃ min, Visits pl (.expr e min)) ∧ ∃ min, Visits pl (.expr v min) := by
      cases k with
      | named =>
        simp only [Property.layout, List.cons_append, List.nil_append, visited_cons] at met
        refine ⟨?_, _, met.1.2.2.1⟩
        rintro _ ⟨⟩
      | computed e =>
        simp only [Property.layout, List.cons_append, List.nil_append, visited_cons] at met
        refine ⟨?_, _, met.1.2.2.2.2.1⟩
        rintro _ ⟨⟩
        exact ⟨_, met.1.2.1⟩
    refine .bind (.key pl h.1.1 here.1 keyJumps keyLoops) fun k' key => ?_
    refine .bind (h.1.2 pl env ⟨here.2, valueJumps, valueLoops⟩) fun v' value => ?_
    refine .bind (ih h.2 met.2 others more) fun ps' rest => .pure ?_
    exact Bool.and_eq_true_iff.2 ⟨Bool.and_eq_true_iff.2 ⟨key, value⟩, rest⟩

theorem Ensures.params {ps : List Param} (h : ∀ q ∈ ps, ∀ e ∈ q.default, Expr.StaysScoped ev e)
    (met : ∀ q ∈ ps, Visited pl q.layout) (jumps : Param.allJumpsScoped ps = true)
    (loops : loopsKeptParams pl.registry ps = true) :
    Ensures (fun ps' => Param.allJumpsScoped ps' = true) (residualParams ev pl.registry env ps) := by
  induction ps with
  | nil => exact .pure rfl
  | cons q ps ih =>
    obtain ⟨s, pattern, default, rest⟩ := q
    rw [List.forall_mem_cons] at h met
    obtain ⟨jumps, others⟩ := Bool.and_eq_true_iff.1 jumps
    obtain ⟨loops, more⟩ := Bool.and_eq_true_iff.1 loops
    have here : ∀ e ∈ default, ∃ min, Visits pl (.expr e min) := by
      rintro e ⟨⟩
      simp only [Param.layout, visited_cons] at met
      exact ⟨_, met.1.2.2.2.1⟩
    refine .bind (.option pl h.1 here jumps loops) fun default' first => ?_
    exact .bind (ih h.2 met.2 others more) fun ps' rest => .pure (Bool.and_eq_true_iff.2 ⟨first, rest⟩)

theorem Ensures.declarators {ds : List Declarator} (h : ∀ d ∈ ds, ∀ e ∈ d.init, Expr.StaysScoped ev e)
    (met : ∀ d ∈ ds, Visited pl d.layout) (jumps : Declarator.allJumpsScoped ds = true)
    (loops : loopsKeptDeclarators pl.registry ds = true) :
    Ensures (fun ds' => Declarator.allJumpsScoped ds' = true) (residualDeclarators ev pl.registry env ds) := by
  induction ds with
  | nil => exact .pure rfl
  | cons d ds ih =>
    obtain ⟨pattern, init⟩ := d
    rw [List.forall_mem_cons] at h met
    obtain ⟨jumps, others⟩ := Bool.and_eq_true_iff.1 jumps
    obtain ⟨loops, more⟩ := Bool.and_eq_true_iff.1 loops
    have here : ∀ e ∈ init, ∃ min, Visits pl (.expr e min) := by
      rintro e ⟨⟩
      simp only [Declarator.layout, visited_cons] at met
      exact ⟨_, met.1.2.2.1⟩
    refine .bind (.option pl h.1 here jumps loops) fun init' first => ?_
    exact .bind (ih h.2 met.2 others more) fun ds' rest => .pure (Bool.and_eq_true_iff.2 ⟨first, rest⟩)

theorem Ensures.decl {d : VarDecl} (h : ∀ q ∈ d.declarators, ∀ e ∈ q.init, Expr.StaysScoped ev e)
    (met : Visited pl d.layout) (jumps : d.jumpsScoped = true) (loops : loopsKeptDecl pl.registry d = true) :
    Ensures (fun d' => d'.jumpsScoped = true) (residualDecl ev pl.registry env d) := by
  obtain ⟨s, kind, ds⟩ := d
  simp only [VarDecl.layout, visited_cons, visited_separate, List.forall_mem_map] at met
  exact .bind (.declarators pl h met.2 jumps loops) fun ds' left => .pure left

/-- Statements in order, up to a jump. -/
theorem Ensures.stmts {sc out : JumpScope} {loops : List String} {ss : List Stmt}
    (h : ∀ s ∈ ss, Stmt.StaysScoped ev s) (met : ∀ s ∈ ss, Visits pl (.stmt s)) (carries : Carries pl sc loops out)
    (jumps : Stmt.allJumpsScoped sc ss = true) (kept : loopsKeptStmts pl.registry loops ss = true) :
    Ensures (fun rest => Stmt.allJumpsScoped out rest.1 = true) (residualStmts ev pl.registry env ss) := by
  induction ss with
  | nil => exact .pure rfl
  | cons s ss ih =>
    rw [List.forall_mem_cons] at h met
    obtain ⟨jumps, others⟩ := Bool.and_eq_true_iff.1 jumps
    obtain ⟨kept, more⟩ := Bool.and_eq_true_iff.1 kept
    refine .bind (h.1.stmt pl env sc out loops [] [] met.1 carries .nil jumps kept) ?_
    rintro ⟨first, flow⟩ left
    cases flow with
    | normal =>
      refine .bind (ih h.2 met.2 others more) fun rest right => .pure ?_
      rw [allJumpsScoped_append, left.all, right]
      rfl
    | jump => exact .pure left.all

/-- What is left of the body of a function has targets for its jumps. -/
def FuncBody.StaysScoped (ev : Evaluator) : FuncBody → Prop
  | .block body => ∀ s ∈ body, Stmt.StaysScoped ev s
  | .expr e => Expr.StaysScoped ev e

/-- A function's body has nothing around it, and no loop for its jumps. -/
theorem Ensures.func {f : Func} (hp : ∀ q ∈ f.params, ∀ e ∈ q.default, Expr.StaysScoped ev e)
    (hb : FuncBody.StaysScoped ev f.body) (met : Visited pl f.layout) (jumps : f.jumpsScoped = true)
    (loops : loopsKeptFunc pl.registry f = true) :
    Ensures (fun f' => f'.jumpsScoped = true) (residualFunc ev pl.registry env f) := by
  obtain ⟨name, params, body, isArrow⟩ := f
  obtain ⟨paramJumps, bodyJumps⟩ := Bool.and_eq_true_iff.1 jumps
  obtain ⟨paramLoops, bodyLoops⟩ := Bool.and_eq_true_iff.1 loops
  obtain ⟨paramsMet, blockMet, exprMet⟩ := met_of_func met
  refine .bind (.params pl hp paramsMet paramJumps paramLoops) fun params' first => ?_
  refine .bind (P := fun body' => body'.jumpsScoped = true) ?_
    fun body' inner => .pure (Bool.and_eq_true_iff.2 ⟨first, inner⟩)
  cases body with
  | block ss => exact .bind (.stmts pl hb (blockMet ss rfl) (.top pl) bodyJumps bodyLoops) fun rest left => .pure left
  | expr e => exact .bind (hb pl env ⟨exprMet e rfl, bodyJumps, bodyLoops⟩) fun e' left => .pure left

end

/-! ### What is left of expressions -/

namespace Expr.StaysScoped

variable {ev : Evaluator} {s t : Span} {e a b c : Expr}

/-- An expression that is not kept leaves no functions. -/
theorem of_kept (h : ∀ (pl : Place) (env : Env) (min : Precedence), fate pl.registry e = .keep →
    Visits pl (.expr e min) → e.jumpsScoped = true → loopsKeptExpr pl.registry e = true →
    Ensures (fun e' => e'.jumpsScoped = true) (residualExpr ev pl.registry env e)) : StaysScoped ev e := by
  rintro pl env ⟨⟨min, met⟩, jumps, loops⟩
  cases becomes : fate pl.registry e with
  | keep => exact h pl env min becomes met jumps loops
  | inline =>
    rw [residualExpr_inline becomes]
    exact .after valueTree_jumpsScoped
  | call =>
    rw [residualExpr_call becomes]
    exact .throw _

theorem literal {v : Literal} : StaysScoped ev (.literal s v) := by
  refine of_kept fun pl env min kept _ _ _ => ?_
  unfold residualExpr
  simp only [kept]
  exact .pure rfl

theorem ident {n : String} : StaysScoped ev (.ident s n) := by
  refine of_kept fun pl env min kept _ _ _ => ?_
  unfold residualExpr
  simp only [kept]
  exact .pure rfl

theorem array {items : List Expr} (h : ∀ e ∈ items, StaysScoped ev e) : StaysScoped ev (.array s items) := by
  refine of_kept fun pl env min kept met jumps loops => ?_
  have inner := met.inner kept nofun
  simp only [Expr.inner, List.cons_append, visited_cons, visited_append, visited_separate, List.forall_mem_map] at inner
  rw [loopsKeptExpr_kept kept] at loops
  unfold residualExpr
  simp only [kept]
  exact .bind (.exprs pl.aside h (fun e he => (inner.2.1 e he).1) jumps loops) fun items' left => .pure left

theorem object {props : List Property}
    (h : ∀ p ∈ props, (∀ e ∈ computed? p.key, Expr.StaysScoped ev e) ∧ Expr.StaysScoped ev p.value) :
    StaysScoped ev (.object s props) := by
  refine of_kept fun pl env min kept met jumps loops => ?_
  have inner := met.inner kept nofun
  simp only [Expr.inner, List.cons_append, visited_cons, visited_append, visited_separate, List.forall_mem_map] at inner
  rw [loopsKeptExpr_kept kept] at loops
  unfold residualExpr
  simp only [kept]
  exact .bind (.props pl.aside h inner.2.1 jumps loops) fun props' left => .pure left

theorem function {f : Func} (hp : ∀ q ∈ f.params, ∀ e ∈ q.default, Expr.StaysScoped ev e)
    (hb : FuncBody.StaysScoped ev f.body) : StaysScoped ev (.function s f) := by
  refine of_kept fun pl env min kept met jumps loops => ?_
  have inner := met.inner kept nofun
  rw [loopsKeptExpr_kept kept] at loops
  unfold residualExpr
  simp only [kept]
  exact .bind (.func pl.aside hp hb inner jumps loops) fun f' left => .pure left

theorem unary {op : UnaryOp} (h : StaysScoped ev e) : StaysScoped ev (.unary s op e) := by
  refine of_kept fun pl env min kept met jumps loops => ?_
  have inner := met.inner kept nofun
  simp only [Expr.inner, visited_cons] at inner
  rw [loopsKeptExpr_kept kept] at loops
  unfold residualExpr
  simp only [kept]
  exact .bind (h pl.aside env ⟨⟨_, inner.2.1⟩, jumps, loops⟩) fun e' left => .pure left

theorem update {op : UpdateOp} {before : Bool} (h : StaysScoped ev e) : StaysScoped ev (.update s op before e) := by
  refine of_kept fun pl env min kept met jumps loops => ?_
  have inner := met.inner kept nofun
  have operand : ∃ min, Visits pl.aside (.expr e min) := by
    cases before <;> simp only [Expr.inner, visited_cons] at inner
    · exact ⟨_, inner.1⟩
    · exact ⟨_, inner.2.1⟩
  rw [loopsKeptExpr_kept kept] at loops
  unfold residualExpr
  simp only [kept]
  exact .bind (h pl.aside env ⟨operand, jumps, loops⟩) fun e' left => .pure left

theorem binary {op : BinaryOp} (ha : StaysScoped ev a) (hb : StaysScoped ev b) : StaysScoped ev (.binary s op a b) := by
  refine of_kept fun pl env min kept met jumps loops => ?_
  have inner := met.inner kept nofun
  simp only [Expr.inner, visited_cons] at inner
  rw [loopsKeptExpr_kept kept] at loops
  have jumps := Bool.and_eq_true_iff.1 jumps
  have loops := Bool.and_eq_true_iff.1 loops
  unfold residualExpr
  simp only [kept]
  refine .bind (ha pl.aside env ⟨⟨_, inner.1⟩, jumps.1, loops.1⟩) fun a' left => ?_
  refine .bind (hb pl.aside env ⟨⟨_, inner.2.2.1⟩, jumps.2, loops.2⟩) fun b' right => .pure ?_
  exact Bool.and_eq_true_iff.2 ⟨left, right⟩

theorem assign {op : AssignOp} (ha : StaysScoped ev a) (hb : StaysScoped ev b) : StaysScoped ev (.assign s op a b) := by
  refine of_kept fun pl env min kept met jumps loops => ?_
  have inner := met.inner kept nofun
  simp only [Expr.inner, visited_cons] at inner
  rw [loopsKeptExpr_kept kept] at loops
  have jumps := Bool.and_eq_true_iff.1 jumps
  have loops := Bool.and_eq_true_iff.1 loops
  unfold residualExpr
  simp only [kept]
  refine .bind (ha pl.aside env ⟨⟨_, inner.1⟩, jumps.1, loops.1⟩) fun a' left => ?_
  refine .bind (hb pl.aside env ⟨⟨_, inner.2.2.1⟩, jumps.2, loops.2⟩) fun b' right => ?_
  split
  · exact .pure (Bool.and_eq_true_iff.2 ⟨left, right⟩)
  · exact .throw _

theorem cond (ha : StaysScoped ev a) (hb : StaysScoped ev b) (hc : StaysScoped ev c) :
    StaysScoped ev (.cond s a b c) := by
  refine of_kept fun pl env min kept met jumps loops => ?_
  have inner := met.inner kept nofun
  simp only [Expr.inner, visited_cons] at inner
  rw [loopsKeptExpr_kept kept] at loops
  obtain ⟨jumps, noJumps⟩ := Bool.and_eq_true_iff.1 jumps
  obtain ⟨testJumps, yesJumps⟩ := Bool.and_eq_true_iff.1 jumps
  obtain ⟨loops, noLoops⟩ := Bool.and_eq_true_iff.1 loops
  obtain ⟨testLoops, yesLoops⟩ := Bool.and_eq_true_iff.1 loops
  unfold residualExpr
  simp only [kept]
  refine .bind (ha pl.aside env ⟨⟨_, inner.1⟩, testJumps, testLoops⟩) fun a' test => ?_
  refine .bind (hb pl.aside env ⟨⟨_, inner.2.2.1⟩, yesJumps, yesLoops⟩) fun b' yes => ?_
  refine .bind (hc pl.aside env ⟨⟨_, inner.2.2.2.2.1⟩, noJumps, noLoops⟩) fun c' no => .pure ?_
  exact Bool.and_eq_true_iff.2 ⟨Bool.and_eq_true_iff.2 ⟨test, yes⟩, no⟩

theorem member {k : Key} {optional : Bool} (he : StaysScoped ev e) (hk : ∀ a ∈ computed? k, StaysScoped ev a) :
    StaysScoped ev (.member s e k optional) := by
  refine of_kept fun pl env min kept met jumps loops => ?_
  obtain ⟨object, key⟩ := met.access kept
  rw [loopsKeptExpr_kept kept] at loops
  have jumps := Bool.and_eq_true_iff.1 jumps
  have loops := Bool.and_eq_true_iff.1 loops
  unfold residualExpr
  simp only [kept]
  refine .bind (he pl.aside env ⟨object, jumps.1, loops.1⟩) fun e' left => ?_
  refine .bind (.key pl.aside hk (met_of_access key) jumps.2 loops.2) fun k' right => .pure ?_
  exact Bool.and_eq_true_iff.2 ⟨left, right⟩

/-- A call; the parts of an access are met one by one. -/
theorem call {args : List Expr} {optional : Bool} (hc : StaysScoped ev c)
    (link : ∀ t o k keyOptional, c = .member t o k keyOptional →
      StaysScoped ev o ∧ ∀ a ∈ computed? k, StaysScoped ev a)
    (hargs : ∀ a ∈ args, StaysScoped ev a) : StaysScoped ev (.call s c args optional) := by
  refine of_kept fun pl env min kept met jumps loops => ?_
  rw [loopsKeptExpr_kept kept] at loops
  obtain ⟨calleeJumps, argJumps⟩ := Bool.and_eq_true_iff.1 jumps
  cases c with
  | member t o k keyOptional =>
    obtain ⟨object, key, values⟩ := met.method kept
    obtain ⟨ho, hk⟩ := link t o k keyOptional rfl
    have calleeJumps := Bool.and_eq_true_iff.1 calleeJumps
    obtain ⟨loops, argLoops⟩ := Bool.and_eq_true_iff.1 loops
    have loops := Bool.and_eq_true_iff.1 loops
    unfold residualExpr
    simp only [kept]
    refine .bind (ho pl.aside env ⟨object, calleeJumps.1, loops.1⟩) fun o' left => ?_
    refine .bind (.key pl.aside hk (met_of_access key) calleeJumps.2 loops.2) fun k' right => ?_
    refine .bind (.exprs pl.aside hargs values argJumps argLoops) fun args' rest => .pure ?_
    exact Bool.and_eq_true_iff.2 ⟨Bool.and_eq_true_iff.2 ⟨left, right⟩, rest⟩
  | _ =>
    have inner := met.inner kept (by rintro _ _ _ _ _ _ _ ⟨⟩)
    simp only [Expr.inner, visited_cons, visited_args] at inner
    have loops := Bool.and_eq_true_iff.1 loops
    unfold residualExpr
    simp only [kept]
    refine .bind (hc pl.aside env ⟨⟨_, inner.1⟩, calleeJumps, loops.1⟩) fun c' left => ?_
    refine .bind (.exprs pl.aside hargs inner.2.2 argJumps loops.2) fun args' rest => .pure ?_
    exact Bool.and_eq_true_iff.2 ⟨left, rest⟩

theorem new {args : List Expr} (hc : StaysScoped ev c) (hargs : ∀ a ∈ args, StaysScoped ev a) :
    StaysScoped ev (.new s c args) := by
  refine of_kept fun pl env min kept met jumps loops => ?_
  have inner := met.inner kept nofun
  simp only [Expr.inner, List.cons_append, visited_cons, visited_append, visited_args] at inner
  have callee : ∃ min, Visits pl.aside (.expr c min) := by
    have here := inner.2.1
    split at here <;> simp only [parenthesized, visited_cons] at here
    · exact ⟨_, here.2.1⟩
    · exact ⟨_, here.1⟩
  rw [loopsKeptExpr_kept kept] at loops
  have jumps := Bool.and_eq_true_iff.1 jumps
  have loops := Bool.and_eq_true_iff.1 loops
  unfold residualExpr
  simp only [kept]
  refine .bind (hc pl.aside env ⟨callee, jumps.1, loops.1⟩) fun c' left => ?_
  refine .bind (.exprs pl.aside hargs inner.2.2 jumps.2 loops.2) fun args' rest => ?_
  split
  · exact .pure (Bool.and_eq_true_iff.2 ⟨left, rest⟩)
  · exact .throw _

end Expr.StaysScoped

end Staging.Template
