import Staging.Proofs.Template.Placed

/-!
Expressions, node by node.

`Expr.Specialized` says of an expression that whatever is compiled from it, in any place of the template,
prints its residual tree as it has to stand there. A value that is written is placed by `needsParens`
(`Expr.Specialized.of_kept`); for an expression that is kept there is a lemma for each kind of node, which
goes along the node's layout.
-/

namespace Staging.Template

open Script

/-! ### What becomes of expressions -/

/-- All labels around belong to loops outside of the kept statement. -/
def Place.Settled (pl : Place) : Prop := ∀ l ∈ pl.labels, l.2 < pl.plainDepth

/-- The parts as which an expression is kept: its layout, but a method of something inlined stands apart. -/
inductive KeptAs (r : Registry) : Expr → Precedence → List Part → Prop
  | layout {e : Expr} {min : Precedence}
      (plain : ∀ s t o k keyOptional args optional, e = .call s (.member t o k keyOptional) args optional →
        hasInlinedRoot r (.member t o k keyOptional) = false) :
      KeptAs r e min (e.layout min)
  | method {s t : Span} {o : Expr} {k : Key} {keyOptional : Bool} {args : List Expr} {optional : Bool}
      {min : Precedence} (root : hasInlinedRoot r (.member t o k keyOptional) = true) :
      KeptAs r (.call s (.member t o k keyOptional) args optional) min
        (methodLayout o k keyOptional args optional min)

section Plans

variable {r : Registry} {e : Expr} {min : Precedence}

/-- What becomes of an expression does not depend on the strength that is asked for. -/
theorem fate_eq (r : Registry) (e : Expr) (min : Precedence) : fate r e = (planExpr r e min).fate := by
  unfold fate
  cases e with
  | ident => simp only [planExpr]; split <;> rfl
  | member => simp only [planExpr]; split <;> rfl
  | call s callee args optional =>
    cases callee with
    | ident => simp only [planExpr]; repeat' (split <;> try rfl)
    | member => simp only [planExpr]; repeat' (split <;> try rfl)
    | _ => simp only [planExpr]; split <;> rfl
  | _ => rfl

theorem isLogical_of_inline (h : planExpr r e min = .inline) : e.isLogical = false := by
  cases e with
  | binary s op a b => cases h
  | _ => rfl

theorem keptAs_of_plan {parts : List Part} (h : planExpr r e min = .keep parts) : KeptAs r e min parts := by
  have layout : (∀ s t o k keyOptional args optional, e ≠ .call s (.member t o k keyOptional) args optional) →
      parts = e.layout min → KeptAs r e min parts := by
    rintro plain rfl
    exact .layout fun s t o k keyOptional args optional call =>
      absurd call (plain s t o k keyOptional args optional)
  unfold planExpr at h
  split at h
  · refine layout nofun ?_
    split at h <;> cases h
    rfl
  · refine layout nofun ?_
    split at h
    · exact absurd h planChain_ne_keep
    · cases h
      rfl
  · refine layout nofun ?_
    repeat' split at h
    all_goals cases h
    rfl
  · split at h
    · exact absurd h planChain_ne_keep
    · split at h
      · cases h
        exact .method ‹_›
      · cases h
        refine .layout ?_
        rintro _ _ _ _ _ _ _ ⟨⟩
        exact Bool.eq_false_iff.2 ‹_›
  · rename_i other
    refine layout ?_ ?_
    · rintro s t o k keyOptional args optional ⟨⟩
      exact other _ _ _ _ rfl
    · split at h <;> cases h
      rfl
  · rename_i other
    refine layout ?_ ?_
    · rintro s t o k keyOptional args optional rfl
      exact other _ _ _ _ rfl
    · cases h
      rfl

/-- The object of a chain with an inlined root is no number. -/
theorem isNumber_of_hasInlinedRoot {t : Span} {o : Expr} {k : Key} {optional : Bool}
    (h : hasInlinedRoot r (.member t o k optional) = true) : o.isNumber = false := by
  cases o with
  | literal s v => simp [hasInlinedRoot, Expr.chainRoot, Expr.name?] at h
  | _ => rfl

end Plans

/-! ### Parts and lists of parts -/

section

variable {ev : Evaluator} {env : Env} {pl : Place} {start : Bool}

/-- Groups of parts with commas between them. -/
theorem Renders.separated {α β : Type} {f : α → List Part} {g : α → Specialize β} {G : β → List Token → Prop}
    {as : List α} (h : ∀ a ∈ as, ∀ start, Renders ev env pl start (f a) (g a) fun b cs => Writes (G b) cs) :
    Renders ev env pl start (separate ", " (as.map f)) (as.mapM g) fun bs cs =>
      bs.length = as.length ∧ Writes (Items G bs) cs := by
  suffices Renders ev env pl start (separate ", " (as.map f)) (as.mapM g) fun bs cs =>
      bs.length = as.length ∧ ∃ css, List.Forall₂ (fun b cs => Writes (G b) cs) bs css
        ∧ cs = [',', ' '].intercalate css by
    refine this.mono ?_
    rintro bs _ ⟨length, css, each, rfl⟩
    exact ⟨length, .items (.inr rfl) each⟩
  induction as generalizing start with
  | nil => exact .nil ⟨rfl, [], .nil, rfl⟩
  | cons a as ih =>
    have first := h a (by simp) start
    have tail : ∀ a' ∈ as, ∀ start, Renders ev env pl start (f a') (g a') fun b cs => Writes (G b) cs :=
      fun a' ha' => h a' (by simp [ha'])
    rw [List.mapM_cons]
    cases as with
    | nil =>
      rw [List.map_singleton, separate, ← List.append_nil (f a)]
      refine first.append fun b cs mid hb => ?_
      exact .nil ⟨rfl, [cs], .cons hb .nil, by simp [List.intercalate]⟩
    | cons a' as =>
      refine first.append fun b cs mid hb => .text ?_
      rw [← List.append_nil (separate _ _)]
      refine (ih tail).append ?_
      rintro bs _ _ ⟨length, css, each, rfl⟩
      refine .nil ⟨by simp [length], cs :: css, .cons hb each, ?_⟩
      cases each with
      | nil => simp at length
      | cons => simp [List.intercalate_cons_cons]

/-- An expression in the parentheses that its place asks for. -/
theorem Renders.layout {m : Specialize Expr} {e : Expr} {min : Precedence}
    (h : ∀ start, Renders ev env pl start e.inner m (Placed start e.precedence e)) :
    Renders ev env pl start (e.layout min) m (Placed start min e) := by
  unfold Expr.layout
  split
  · refine .text ?_
    rw [← bind_pure m]
    refine (h _).append fun e' cs mid placed => .text (.nil ?_)
    have : Placed false e.precedence e e' cs := placed
    simpa using this.parens
  · rename_i strong
    exact (h start).mono fun e' cs placed => placed.weaken (Nat.le_of_not_lt strong)

end

/-! ### What is to be shown of an expression -/

/-- Wherever the expression stands, what is compiled from it prints its residual tree in its place. -/
def Expr.Specialized (ev : Evaluator) (e : Expr) : Prop :=
  ∀ (env : Env) (pl : Place) (start : Bool) (min : Precedence), pl.Settled →
    (min = .primary → e.isLogical = true) →
    Renders ev env pl start [.expr e min] (residualExpr ev pl.registry env e) (Placed start min e)

namespace Expr.Specialized

variable {ev : Evaluator} {e : Expr}

theorem inlined {env : Env} {pl : Place} {start : Bool} {min : Precedence}
    (h : planExpr pl.registry e min = .inline) (hmin : min = .primary → e.isLogical = true) :
    Prints ev env [.code (.inline e min start)] (residualExpr ev pl.registry env e) (Placed start min e) := by
  have inlined : fate pl.registry e = .inline := by rw [fate_eq _ _ min, h, ExprPlan.fate]
  have fits : min ≤ .call := by
    have : min ≠ .primary := fun primary => by simp [isLogical_of_inline h, primary] at hmin
    revert this
    cases min <;> decide
  rw [residualExpr_inline inlined]
  simp only [Prints, runFragments, Fragment.run, runStep, bind_assoc, pure_bind]
  refine .after fun v => ?_
  rw [← bind_pure (valueTree v)]
  refine (Runs.written v).bind ?_
  rintro e' code _ ⟨spelled, cooked, rfl⟩
  exact .text _ (.pure ⟨rfl, by simpa using Placed.value spelled cooked fits⟩)

/-- Nothing is said of a value that is put in as it stands, and a written value has its place. -/
theorem of_kept
    (h : ∀ (env : Env) (pl : Place) (start : Bool) (min : Precedence) (parts : List Part), pl.Settled →
      pl.inBody = false → fate pl.registry e = .keep → KeptAs pl.registry e min parts →
      Renders ev env pl start parts (residualExpr ev pl.registry env e) (Placed start min e)) :
    Expr.Specialized ev e := by
  intro env pl start min settled hmin fs start' emits
  cases emits with
  | @keepExpr _ _ _ _ _ _ parts _ _ _ plan inner rest =>
    cases rest
    have kept : fate pl.registry e = .keep := by rw [fate_eq _ _ min, plan, ExprPlan.fate]
    rw [List.append_nil]
    exact h env pl.aside start min parts settled rfl kept (keptAs_of_plan plan) _ _ inner
  | inline plan rest =>
    cases rest
    exact inlined plan hmin
  | call plan rest =>
    have called : fate pl.registry e = .call := by rw [fate_eq _ _ min, plan, ExprPlan.fate]
    rw [residualExpr_call called]
    exact .obstacle rfl

/-- An expression that is always kept as its layout. -/
theorem of_inner (plain : ∀ s t o k keyOptional args optional, e ≠ .call s (.member t o k keyOptional) args optional)
    (h : ∀ (env : Env) (pl : Place) (start : Bool), pl.Settled → pl.inBody = false → fate pl.registry e = .keep →
      Renders ev env pl start e.inner (residualExpr ev pl.registry env e) (Placed start e.precedence e)) :
    Expr.Specialized ev e := by
  refine of_kept fun env pl start min parts settled alone kept as => ?_
  cases as with
  | method => exact (plain _ _ _ _ _ _ _ rfl).elim
  | layout => exact .layout fun start => h env pl start settled alone kept

/-- In most places all that counts is the phrase. -/
theorem phrase (h : Expr.Specialized ev e) {env : Env} {pl : Place} {start : Bool} {min : Precedence}
    (settled : pl.Settled) (hmin : min ≠ .primary) :
    Renders ev env pl start [.expr e min] (residualExpr ev pl.registry env e) fun e' cs =>
      Writes (Phrase min e') cs :=
  (h env pl start min settled fun primary => absurd primary hmin).mono fun _ _ placed => placed.phrase

/-- An expression in parentheses of its own. -/
theorem parens (h : Expr.Specialized ev e) {env : Env} {pl : Place} {start : Bool} (settled : pl.Settled) :
    Renders ev env pl start (parenthesized e) (residualExpr ev pl.registry env e) fun e' cs =>
      ∃ ds, cs = '(' :: (ds ++ [')']) ∧ Placed false .lowest e e' ds := by
  refine .text ?_
  rw [← bind_pure (residualExpr ev pl.registry env e)]
  refine .cons (h env pl _ .lowest settled nofun) fun e' ds mid placed => ?_
  exact .text (.nil ⟨ds, by simp, placed⟩)

/-! ### Nodes -/

theorem literal {s : Span} {v : Literal} (h : v.isPrintable = true) : Expr.Specialized ev (.literal s v) := by
  refine of_inner nofun fun env pl start _ _ kept => ?_
  unfold residualExpr
  simp only [kept]
  refine .text (.nil ?_)
  rw [List.append_nil]
  exact .kept (.literal h) rfl rfl (fun _ _ => .literal h) (by simp [Expr.leftmost])

theorem ident {s : Span} {n : String} (h : isName n = true) : Expr.Specialized ev (.ident s n) := by
  refine of_inner nofun fun env pl start _ _ kept => ?_
  unfold residualExpr
  simp only [kept]
  refine .text (.nil ?_)
  rw [List.append_nil]
  exact .kept (.ident h) rfl rfl (fun _ _ => .name (isNameShaped_of_isName h)) (by simp [Expr.leftmost])

theorem unary {s : Span} {op : UnaryOp} (h : Expr.Specialized ev e) : Expr.Specialized ev (.unary s op e) := by
  refine of_inner nofun fun env pl start settled _ kept => ?_
  unfold residualExpr
  simp only [kept]
  refine .text (.cons (h env pl _ .unary settled (by simp)) fun e' cs mid placed => .nil ?_)
  have opens : ∀ t : String, Opens ((op.text ++ t).toList ++ (cs ++ [])) := by
    intro t
    rw [String.toList_append, List.append_assoc]
    cases op <;> exact .cons (by decide)
  refine .kept ?_ (by cases op <;> rfl) rfl (fun _ _ => opens _) (by simp [Expr.leftmost])
  by_cases space : op = .typeof ∨ needsSpace op e
  · have meets : op.token.Meets (' ' :: cs) := .cons (Token.endsBefore_of_isSeparator _ rfl)
    have := Writes.unary (s := s) (Precedence.le_refl _) placed.phrase.space meets
    simpa [Expr.precedence, space] using this
  · rw [not_or] at space
    have meets := placed.meets (Precedence.le_refl _) op space.1 (by simpa using space.2)
    have := Writes.unary (s := s) (Precedence.le_refl _) placed.phrase meets
    simpa [Expr.precedence, space] using this

theorem update {s : Span} {op : UpdateOp} {before : Bool} (h : Expr.Specialized ev e) :
    Expr.Specialized ev (.update s op before e) := by
  refine of_inner nofun fun env pl start settled _ kept => ?_
  unfold residualExpr
  simp only [kept]
  cases before with
  | true =>
    refine .text (.cons (h.phrase settled (by simp)) fun e' cs mid phrase => .nil ?_)
    refine .kept ?_ (by cases op <;> rfl) rfl (fun _ _ => by cases op <;> exact .cons (by decide))
      (by simp [Expr.leftmost])
    simpa [Expr.precedence] using Writes.before (s := s) op (Precedence.le_refl _) phrase
  | false =>
    refine .cons (h env pl _ .call settled (by simp)) fun e' cs mid placed => .text (.nil ?_)
    refine .left placed ?_ (by cases op <;> rfl) rfl rfl rfl
    simpa [Expr.precedence] using Writes.after (s := s) op (Precedence.le_refl _) placed.phrase

/-- An operand in the place its operator asks for, also where `??` asks for more. -/
theorem operand (h : Expr.Specialized ev e) {env : Env} {pl : Place} {start : Bool} (settled : pl.Settled)
    (op : BinaryOp) {min level : Precedence} (hlevel : level ≠ .primary) (hmin : min ≤ level) :
    Renders ev env pl start [.expr e (op.guard e level)] (residualExpr ev pl.registry env e) (Placed start min e) := by
  have guard : min ≤ op.guard e level ∧ (op.guard e level = .primary → e.isLogical = true) := by
    unfold BinaryOp.guard
    split
    · exact ⟨Precedence.le_primary min, fun _ => (‹_ ∧ _›).2⟩
    · exact ⟨hmin, fun primary => absurd primary hlevel⟩
  exact (h env pl start _ settled guard.2).mono fun e' cs placed => placed.weaken guard.1

theorem binary {s : Span} {op : BinaryOp} {a b : Expr} (ha : Expr.Specialized ev a) (hb : Expr.Specialized ev b) :
    Expr.Specialized ev (.binary s op a b) := by
  refine of_inner nofun fun env pl start settled _ kept => ?_
  unfold residualExpr
  simp only [kept]
  by_cases power : op = .pow
  · subst power
    refine .cons (ha.operand settled .pow (by decide) (show Precedence.unary ≤ .postfix_ by decide)) fun a' as mid ha' => .text ?_
    refine .cons (hb.operand settled .pow (by decide) (Precedence.le_refl .exponent)) fun b' bs mid' hb' => .nil ?_
    refine .left ha' ?_ rfl rfl rfl rfl
    have := Writes.power (s := s) (Precedence.le_refl _) ha'.phrase hb'.phrase
    simpa [Expr.precedence, BinaryOp.precedence] using this
  · have levels : op.operandLevels = (op.precedence, op.precedence.next) := by
      cases op <;> first | rfl | exact absurd rfl power
    have tight : op.precedence ≠ .primary ∧ op.precedence.next ≠ .primary := by cases op <;> decide
    rw [Expr.inner, levels]
    refine .cons (ha.operand settled op tight.1 (Precedence.le_refl _)) fun a' as mid ha' => .text ?_
    refine .cons (hb.operand settled op tight.2 (Precedence.le_refl _)) fun b' bs mid' hb' => .nil ?_
    refine .left ha' ?_ rfl rfl rfl rfl
    have := Writes.binary (s := s) power (Precedence.le_refl _) ha'.phrase hb'.phrase
    simpa [Expr.precedence] using this

theorem assign {s : Span} {op : AssignOp} {a b : Expr} (ha : Expr.Specialized ev a) (hb : Expr.Specialized ev b) :
    Expr.Specialized ev (.assign s op a b) := by
  refine of_inner nofun fun env pl start settled _ kept => ?_
  unfold residualExpr
  simp only [kept]
  refine .cons (ha env pl _ .call settled (by simp)) fun a' as mid ha' => .text ?_
  refine .cons (hb.phrase settled (by simp)) fun b' bs mid' hb' => ?_
  split
  · rename_i assignable
    refine .nil (.left ha' ?_ rfl rfl rfl rfl)
    have := Writes.assign (s := s) op (Precedence.le_refl _) assignable ha'.phrase hb'
    simpa [Expr.precedence] using this
  · exact .obstacle rfl

theorem cond {s : Span} {a b c : Expr} (ha : Expr.Specialized ev a) (hb : Expr.Specialized ev b)
    (hc : Expr.Specialized ev c) : Expr.Specialized ev (.cond s a b c) := by
  refine of_inner nofun fun env pl start settled _ kept => ?_
  unfold residualExpr
  simp only [kept]
  refine .cons (ha env pl _ .nullish settled (by simp)) fun a' as _ ha' => .text ?_
  refine .cons (hb.phrase settled (by simp)) fun b' bs _ hb' => .text ?_
  refine .cons (hc.phrase settled (by simp)) fun c' cs _ hc' => .nil ?_
  refine .left ha' ?_ rfl rfl rfl rfl
  have := Writes.cond (s := s) (Precedence.le_refl _) ha'.phrase hb' hc'
  simpa [Expr.precedence] using this

end Expr.Specialized

/-! ### Accesses and calls -/

def Key.Specialized (ev : Evaluator) (k : Key) : Prop :=
  ∀ (env : Env) (pl : Place) (start optional : Bool), pl.Settled →
    Renders ev env pl start (k.layout optional) (residualKey ev pl.registry env k) fun k' cs =>
      Writes (LinkPhrase k' optional) cs

section Links

variable {ev : Evaluator}

theorem Key.Specialized.named {n : String} (h : isNameShaped n = true) : Key.Specialized ev (.named n) := by
  intro env pl start optional _
  refine .text (.nil ?_)
  simpa using Writes.namedLink optional h

theorem Key.Specialized.computed {e : Expr} (h : Expr.Specialized ev e) : Key.Specialized ev (.computed e) := by
  intro env pl start optional settled
  refine .text (.cons (h.phrase settled (by simp)) fun e' cs _ he => .text (.nil ?_))
  simpa using he.computedLink optional

theorem residualExprs_eq (r : Registry) (env : Env) (es : List Expr) :
    residualExprs ev r env es = es.mapM (residualExpr ev r env) := by
  induction es with
  | nil => rfl
  | cons e es ih => rw [residualExprs, ih, List.mapM_cons]

variable {env : Env} {pl : Place} {start : Bool}

theorem Renders.items {es : List Expr} (h : ∀ e ∈ es, Expr.Specialized ev e) (settled : pl.Settled) :
    Renders ev env pl start (separate ", " (es.map fun e => [.expr e .assignment]))
      (residualExprs ev pl.registry env es) fun es' cs => Writes (Items (Phrase .assignment) es') cs := by
  have each : ∀ e ∈ es, ∀ start, Renders ev env pl start [.expr e .assignment] (residualExpr ev pl.registry env e)
      fun e' cs => Writes (Phrase .assignment e') cs := fun e he start => (h e he).phrase settled (by simp)
  rw [residualExprs_eq]
  exact (Renders.separated each).mono fun _ _ written => written.2

theorem Renders.arguments {args : List Expr} (h : ∀ e ∈ args, Expr.Specialized ev e) (settled : pl.Settled) :
    Renders ev env pl start (argsLayout args) (residualExprs ev pl.registry env args) fun args' cs =>
      ∃ ds, cs = '(' :: (ds ++ [')']) ∧ Writes (Items (Phrase .assignment) args') ds := by
  refine .text ?_
  rw [← bind_pure (residualExprs ev pl.registry env args)]
  refine .append (.items h settled) fun args' ds _ written => ?_
  exact .text (.nil ⟨ds, by simp, written⟩)

/-- The object of an access. -/
theorem Renders.object {o : Expr} (h : Expr.Specialized ev o) (settled : pl.Settled) :
    Renders ev env pl start (if o.isNumber then parenthesized o else [.expr o .call])
      (residualExpr ev pl.registry env o) fun o' cs => Placed start .call o o' cs ∧ Writes (ObjectPhrase o') cs := by
  split
  · refine (h.parens settled).mono ?_
    rintro o' _ ⟨ds, rfl, placed⟩
    exact ⟨placed.parens, placed.phrase.objectParens⟩
  · rename_i number
    refine (h env pl start .call settled (by simp)).mono fun o' cs placed => ⟨placed, ?_⟩
    exact placed.object (Precedence.le_refl _) (by simpa using number)

end Links

namespace Expr.Specialized

variable {ev : Evaluator}

theorem member {s : Span} {o : Expr} {k : Key} {optional : Bool} (ho : Expr.Specialized ev o)
    (hk : Key.Specialized ev k) : Expr.Specialized ev (.member s o k optional) := by
  refine of_inner nofun fun env pl start settled _ kept => ?_
  unfold residualExpr
  simp only [kept]
  rw [Expr.inner]
  refine .append (.object ho settled) ?_
  rintro o' cs mid ⟨placed, object⟩
  rw [← List.append_nil (k.layout optional)]
  refine .append (hk env pl mid optional settled) fun k' ds _ link => .nil ?_
  rw [List.append_nil]
  exact .left placed (.member (Precedence.le_refl _) object link) rfl rfl rfl rfl

/-- The access to a method that stays belongs to what is called. -/
theorem residualExpr_call_kept {r : Registry} {env : Env} {s : Span} {c : Expr} {args : List Expr} {optional : Bool}
    (kept : fate r (.call s c args optional) = .keep)
    (plain : ∀ t o k keyOptional, c = .member t o k keyOptional → hasInlinedRoot r c = false) :
    residualExpr ev r env (.call s c args optional) = do
      let c' ← residualExpr ev r env c
      let args' ← residualExprs ev r env args
      return .call s c' args' optional := by
  conv_lhs => unfold residualExpr
  simp only [kept]
  cases c with
  | member t o k keyOptional =>
    have callee : fate r (.member t o k keyOptional) = .keep := by
      simp [fate, planExpr, plain t o k keyOptional rfl, ExprPlan.fate]
    conv_rhs => unfold residualExpr
    simp only [callee, bind_assoc, pure_bind]
  | _ => rfl

theorem calls {s : Span} {c : Expr} {args : List Expr} {optional : Bool} (hc : Expr.Specialized ev c)
    (ha : ∀ e ∈ args, Expr.Specialized ev e) {env : Env} {pl : Place} {start : Bool} (settled : pl.Settled) :
    Renders ev env pl start (Expr.call s c args optional).inner
      (do
        let c' ← residualExpr ev pl.registry env c
        let args' ← residualExprs ev pl.registry env args
        return .call s c' args' optional)
      (Placed start .call (.call s c args optional)) := by
  refine .cons (hc env pl _ .call settled (by simp)) fun c' cs _ placed => .text ?_
  rw [← List.append_nil (argsLayout args)]
  refine .append (.arguments ha settled) ?_
  rintro args' _ _ ⟨ds, rfl, written⟩
  refine .nil (.left placed ?_ rfl rfl rfl rfl)
  simpa using Writes.call (s := s) optional (Precedence.le_refl _) placed.phrase written

/-- The call of a method of something inlined. -/
theorem methods {s t : Span} {o : Expr} {k : Key} {keyOptional : Bool} {args : List Expr} {optional : Bool}
    {min : Precedence} (ho : Expr.Specialized ev o) (hk : Key.Specialized ev k)
    (ha : ∀ e ∈ args, Expr.Specialized ev e) (number : o.isNumber = false) {env : Env} {pl : Place} {start : Bool}
    (settled : pl.Settled) :
    Renders ev env pl start (methodLayout o k keyOptional args optional min)
      (do
        let o' ← residualExpr ev pl.registry env o
        let k' ← residualKey ev pl.registry env k
        let args' ← residualExprs ev pl.registry env args
        return .call s (.member t o' k' keyOptional) args' optional)
      (Placed start min (.call s (.member t o k keyOptional) args optional)) := by
  have inner : ∀ (start : Bool), Renders ev env pl start
      (.expr o .call :: (k.layout keyOptional ++ .text (if optional then "?." else "") :: argsLayout args))
      (do
        let o' ← residualExpr ev pl.registry env o
        let k' ← residualKey ev pl.registry env k
        let args' ← residualExprs ev pl.registry env args
        return .call s (.member t o' k' keyOptional) args' optional)
      (Placed start .call (.call s (.member t o k keyOptional) args optional)) := by
    intro start
    refine .cons (ho env pl _ .call settled (by simp)) fun o' cs _ placed => ?_
    refine .append (hk env pl _ keyOptional settled) fun k' ds _ link => .text ?_
    rw [← List.append_nil (argsLayout args)]
    refine .append (.arguments ha settled) ?_
    rintro args' _ _ ⟨as, rfl, written⟩
    refine .nil (.left placed ?_ rfl rfl rfl rfl)
    have callee := Writes.member (s := t) (Precedence.le_refl _) (placed.object (Precedence.le_refl _) number) link
    simpa using Writes.call (s := s) optional (Precedence.le_refl _) callee written
  by_cases parens : Precedence.call < min
  · have layout : methodLayout o k keyOptional args optional min = .text "(" ::
        ((.expr o .call :: (k.layout keyOptional ++ .text (if optional then "?." else "") :: argsLayout args))
          ++ [.text ")"]) := by simp [methodLayout, parens]
    rw [layout, ← bind_pure (residualExpr ev pl.registry env o >>= _)]
    refine .text (.append (inner _) fun e' cs mid placed => .text (.nil ?_))
    have : Placed false .call (.call s (.member t o k keyOptional) args optional) e' cs := placed
    simpa using this.parens
  · have layout : methodLayout o k keyOptional args optional min = .text "" ::
        ((.expr o .call :: (k.layout keyOptional ++ .text (if optional then "?." else "") :: argsLayout args))
          ++ [.text ""]) := by simp [methodLayout, parens]
    rw [layout, ← bind_pure (residualExpr ev pl.registry env o >>= _)]
    refine .text (.append (inner _) fun e' cs mid placed => .text (.nil ?_))
    have : Placed start .call (.call s (.member t o k keyOptional) args optional) e' cs := placed
    simpa using this.weaken (Nat.le_of_not_lt parens)

/-- What is called may be a method. -/
theorem call {s : Span} {c : Expr} {args : List Expr} {optional : Bool} (hc : Expr.Specialized ev c)
    (link : ∀ t o k keyOptional, c = .member t o k keyOptional → Expr.Specialized ev o ∧ Key.Specialized ev k)
    (ha : ∀ e ∈ args, Expr.Specialized ev e) : Expr.Specialized ev (.call s c args optional) := by
  refine of_kept fun env pl start min parts settled _ kept as => ?_
  cases as with
  | layout plain =>
    refine .layout fun start => ?_
    rw [residualExpr_call_kept kept]
    · exact calls hc ha settled
    · rintro t o k keyOptional rfl
      exact plain _ _ _ _ _ _ _ rfl
  | method root =>
    obtain ⟨ho, hk⟩ := link _ _ _ _ rfl
    unfold residualExpr
    simp only [kept]
    exact methods ho hk ha (isNumber_of_hasInlinedRoot root) settled

theorem new {s : Span} {c : Expr} {args : List Expr} (hc : Expr.Specialized ev c)
    (ha : ∀ e ∈ args, Expr.Specialized ev e) : Expr.Specialized ev (.new s c args) := by
  refine of_inner nofun fun env pl start settled _ kept => ?_
  unfold residualExpr
  simp only [kept]
  have callee : Renders ev env pl (startAfter "new " start)
      (if c.containsCall then parenthesized c else [.expr c .call]) (residualExpr ev pl.registry env c)
      fun c' cs => (c.containsCall || isBareCallee c') = true → Writes (CalleePhrase c') cs := by
    split
    · refine (hc.parens settled).mono ?_
      rintro c' _ ⟨ds, rfl, placed⟩ _
      exact placed.phrase.parens.mono fun _ => .root
    · rename_i bare
      refine (hc env pl _ .call settled (by simp)).mono fun c' cs placed plain => placed.phrase.mono fun ts hg => ?_
      simp only [bare, isBareCallee, Bool.false_or, Bool.and_eq_true, Bool.not_eq_true'] at plain
      exact hg.callee c' plain.1 plain.2
  refine .text (.append callee fun c' cs _ hc' => ?_)
  rw [← List.append_nil (argsLayout args)]
  refine .append (.arguments ha settled) ?_
  rintro args' _ _ ⟨ds, rfl, written⟩
  split
  · refine .nil (.kept ?_ rfl rfl (fun _ _ => .cons (by decide)) (by simp [Expr.leftmost]))
    simpa [Expr.precedence] using Writes.new (s := s) (Precedence.le_refl _) (hc' ‹_›) written
  · exact .obstacle rfl

/-! ### Collections -/

theorem array {s : Span} {items : List Expr} (h : ∀ e ∈ items, Expr.Specialized ev e) :
    Expr.Specialized ev (.array s items) := by
  refine of_inner nofun fun env pl start settled _ kept => ?_
  unfold residualExpr
  simp only [kept]
  refine .text (.append (.items h settled) fun items' cs _ written => .text (.nil ?_))
  refine .kept ?_ rfl rfl (fun _ _ => .cons (by decide)) (by simp [Expr.leftmost])
  simpa using written.array (s := s)

end Expr.Specialized

section Properties

variable {ev : Evaluator}

/-- The key of a property, as it stands before the colon. -/
def keyLayout : Key → List Part
  | .named name => [.text (propertyName name)]
  | .computed e => [.text "[", .expr e .assignment, .text "]"]

def Key.SpecializedProperty (ev : Evaluator) (k : Key) : Prop :=
  ∀ (env : Env) (pl : Place) (start : Bool), pl.Settled →
    Renders ev env pl start (keyLayout k) (residualKey ev pl.registry env k) fun k' cs => Writes (KeyPhrase k') cs

theorem Key.SpecializedProperty.named (n : String) : Key.SpecializedProperty ev (.named n) := by
  intro env pl start _
  refine .text (.nil ?_)
  simpa using Writes.namedKey (n := n)

theorem Key.SpecializedProperty.computed {e : Expr} (h : Expr.Specialized ev e) :
    Key.SpecializedProperty ev (.computed e) := by
  intro env pl start settled
  refine .text (.cons (h.phrase settled (by simp)) fun e' cs _ he => .text (.nil ?_))
  simpa using he.computedKey

def Property.Specialized (ev : Evaluator) (p : Property) : Prop :=
  Key.SpecializedProperty ev p.key ∧ Expr.Specialized ev p.value

/-- What is left of a property. -/
def residualProp (ev : Evaluator) (r : Registry) (env : Env) (p : Property) : Specialize Property := do
  return ⟨← residualKey ev r env p.key, ← residualExpr ev r env p.value⟩

theorem residualProps_eq (r : Registry) (env : Env) (ps : List Property) :
    residualProps ev r env ps = ps.mapM (residualProp ev r env) := by
  induction ps with
  | nil => rfl
  | cons p ps ih =>
    obtain ⟨k, v⟩ := p
    simp only [residualProps, ih, List.mapM_cons, residualProp, bind_assoc, pure_bind]

theorem Property.Specialized.renders {p : Property} (h : Property.Specialized ev p) {env : Env} {pl : Place}
    {start : Bool} (settled : pl.Settled) :
    Renders ev env pl start p.layout (residualProp ev pl.registry env p) fun p' cs =>
      Writes (PropertyPhrase p') cs := by
  have layout : p.layout = keyLayout p.key ++ [.text ": ", .expr p.value .assignment] := by
    obtain ⟨k, v⟩ := p
    cases k <;> rfl
  rw [layout, residualProp]
  refine .append (h.1 env pl start settled) fun k' cs _ key => .text ?_
  refine .cons (h.2.phrase settled (by simp)) fun v' ds _ value => .nil ?_
  simpa using key.property value.space

theorem Expr.Specialized.object {s : Span} {props : List Property}
    (h : ∀ p ∈ props, Property.Specialized ev p) : Expr.Specialized ev (.object s props) := by
  refine of_inner nofun fun env pl start settled _ kept => ?_
  unfold residualExpr
  simp only [kept, residualProps_eq]
  refine .text (.append (.separated fun p hp _ => (h p hp).renders settled) fun props' cs _ written => .text (.nil ?_))
  refine .kept ?_ rfl rfl (fun _ plain => by simp [Expr.leftmost, Expr.isObject] at plain) (by simp [Expr.leftmost])
  simpa using written.2.object (s := s)

end Properties

end Staging.Template
