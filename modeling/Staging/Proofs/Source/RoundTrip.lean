import Staging.Proofs.Grammar.Program
import Staging.Proofs.Source.StmtText

/-!
Printing and reading are inverse.

`Stmt.legible` says that the text of a printable statement is a way to write it; the argument follows the
recursion of the tree and uses, at each node, the lemma that puts the node's text together. With
`Lexes.scan` and `parseLexemes_eq_ok` it gives `parseProgram_programText`: the text of a printable program
is read as that program, up to spans.
-/

namespace Staging

/-! ### Texts of layouts -/

theorem toList_render_separate (groups : List (List Part)) :
    (render (separate ", " groups)).toList
      = [',', ' '].intercalate (groups.map fun ps => (render ps).toList) := by
  induction groups with
  | nil => rfl
  | cons ps rest ih =>
    cases rest with
    | nil => simp [separate]
    | cons qs rest => simp [separate, ih, List.intercalate_cons_cons]

/-- A list of parts is written with commas between them. -/
theorem Writes.separate {α : Type} {G : α → List Token → Prop} {f : α → List Part} {as : List α}
    (h : ∀ a ∈ as, Writes (G a) (render (f a)).toList) :
    Writes (Items G as) (render (separate ", " (as.map f))).toList := by
  rw [toList_render_separate, List.map_map]
  refine Writes.items (.inr rfl) ?_
  rw [List.forall₂_map_right_iff]
  exact List.forall₂_same.2 h

/-! ### What is to be shown of each kind of tree -/

/-- The text of the expression, without parentheses around it, is a way to write it. -/
def Expr.Legible (e : Expr) : Prop := Writes (Phrase e.precedence e) (render e.inner).toList

def Property.Legible (q : Property) : Prop := Writes (PropertyPhrase q) (render q.layout).toList

def Param.Legible (q : Param) : Prop := Writes (ParamPhrase q) (render q.layout).toList

def Declarator.Legible (d : Declarator) : Prop := Writes (DeclaratorPhrase d) (render d.layout).toList

def VarDecl.Legible (d : VarDecl) : Prop := Writes (DeclPhrase d) (render d.layout).toList

def Stmt.Legible (s : Stmt) : Prop := Writes (Sentence s) (render s.layout).toList

def FuncBody.Legible : FuncBody → Prop
  | .block body => ∀ s ∈ body, s.Legible
  | .expr e => e.Legible

/-- Wherever the expression stands, its text is a way to write it. -/
theorem Expr.Legible.place {e : Expr} (h : e.Legible) (min : Precedence) :
    Writes (Phrase min e) (Part.expr e min).render.toList := by
  rw [Part.render_expr, Expr.layout]
  split
  · have := (h.weaken (Precedence.lowest_le _)).parens (p := min)
    simpa using this
  · rename_i hlt
    exact h.weaken (Nat.le_of_not_lt hlt)

theorem Stmt.Legible.place {s : Stmt} (h : s.Legible) :
    Writes (Sentence s) (Part.stmt s).render.toList := by
  rw [Part.render_stmt]
  exact h

theorem Writes.statements {body : List Stmt} (h : ∀ s ∈ body, s.Legible) :
    Writes (Sequence Sentence body) (render (body.map .stmt)).toList := by
  induction body with
  | nil => exact .noStatements
  | cons s body ih =>
    have first := (h s (by simp)).place.oneStatement
    have rest := ih fun s' hs' => h s' (by simp [hs'])
    simpa using first.statements_append rest

theorem render_block {body : List Stmt} :
    (render (blockLayout body)).toList
      = '\x7b' :: ((render (body.map .stmt)).toList ++ ['\x7d']) := by
  simp [blockLayout]

theorem Writes.arguments {args : List Expr} (h : ∀ e ∈ args, e.Legible) :
    Writes (Items (Phrase .assignment) args)
      (render (Staging.separate ", " (args.map fun a => [.expr a .assignment]))).toList := by
  refine .separate fun e he => ?_
  simpa using (h e he).place .assignment

/-! ### How texts begin -/

/-- Only an object begins with a brace, and only a function with its keyword. -/
theorem Phrase.leftmost : ∀ (e : Expr) {p : Precedence} {ts : List Token}, Phrase p e ts →
    (ts.head? = some (.mark .leftBrace) → e.leftmost.isObject = true)
      ∧ (ts.head? = some (.keyword .function) →
          ∃ s f, e.leftmost = .function s f ∧ f.isArrow = false) := by
  intro e p ts h
  have other : ts.head? ≠ some (.mark .leftBrace) → ts.head? ≠ some (.keyword .function) →
      (ts.head? = some (.mark .leftBrace) → e.leftmost.isObject = true)
        ∧ (ts.head? = some (.keyword .function) →
            ∃ s f, e.leftmost = .function s f ∧ f.isArrow = false) :=
    fun h₁ h₂ => ⟨fun h => absurd h h₁, fun h => absurd h h₂⟩
  have append : ∀ {q : Precedence} {a : Expr} {us vs : List Token}, Phrase q a us →
      (us ++ vs).head? = us.head? := by
    intro q a us vs ha
    obtain ⟨t, ws, rfl, -⟩ := ha.head
    rfl
  cases h with
  | parens => exact other (by rintro ⟨⟩) (by rintro ⟨⟩)
  | literal ht => exact other (by rintro ⟨⟩; cases ht) (by rintro ⟨⟩; cases ht)
  | ident => exact other (by rintro ⟨⟩) (by rintro ⟨⟩)
  | array => exact other (by rintro ⟨⟩) (by rintro ⟨⟩)
  | object => exact ⟨fun _ => rfl, by rintro ⟨⟩⟩
  | function hf =>
    cases hf with
    | mk => exact ⟨by rintro ⟨⟩, fun _ => ⟨_, _, rfl, rfl⟩⟩
  | arrow => exact other (by rintro ⟨⟩) (by rintro ⟨⟩)
  | @unary _ s op => exact other (by cases op <;> rintro ⟨⟩) (by cases op <;> rintro ⟨⟩)
  | @before _ s op => exact other (by cases op <;> rintro ⟨⟩) (by cases op <;> rintro ⟨⟩)
  | @after _ s op a us hp ha => rw [append ha]; exact Phrase.leftmost a ha
  | @binary _ s op a b us vs hop hp ha => rw [append ha]; exact Phrase.leftmost a ha
  | @power _ s a b us vs hp ha => rw [append ha]; exact Phrase.leftmost a ha
  | @assign _ s op a b us vs hp hasg ha => rw [append ha]; exact Phrase.leftmost a ha
  | @cond _ s a b c us vs ws hp ha => rw [append ha]; exact Phrase.leftmost a ha
  | @member _ s a k optional us vs hp ha => rw [append ha]; exact Phrase.leftmost a ha
  | @call _ s a args optional us vs hp ha => rw [append ha]; exact Phrase.leftmost a ha
  | new => exact other (by rintro ⟨⟩) (by rintro ⟨⟩)

/-- An expression that does not start ambiguously does not begin like a statement. -/
theorem Phrase.beginsStatement {e : Expr} {p : Precedence} {ts : List Token} (h : Phrase p e ts)
    (he : e.startsAmbiguously = false) : beginsStatement ts.head? = false := by
  obtain ⟨hobj, hfun⟩ := Phrase.leftmost e h
  cases hb : Staging.beginsStatement ts.head? with
  | false => rfl
  | true =>
    exfalso
    unfold Staging.beginsStatement at hb
    split at hb
    · rename_i heq
      have := hobj heq
      unfold Expr.startsAmbiguously at he
      cases hl : e.leftmost <;> simp [hl, Expr.isObject] at this he
    · rename_i heq
      obtain ⟨s, f, hl, hf⟩ := hfun heq
      simp [Expr.startsAmbiguously, hl, hf] at he
    · cases hb

/-! ### Nodes -/

theorem Literal.precedence {s : Span} {v : Literal} (h : v.isPrintable = true) :
    (Expr.literal s v).precedence = .primary := by
  have : v.isSigned = false := by
    cases v with
    | number x => exact Number.isSigned_eq_false h
    | _ => rfl
  simp [Expr.precedence, this]

theorem Expr.Legible.unary {s : Span} {op : UnaryOp} {e : Expr} (h : e.Legible) :
    (Expr.unary s op e).Legible := by
  have operand := h.place .unary
  unfold Expr.Legible
  by_cases hsp : op = .typeof ∨ needsSpace op e
  · have meets : op.token.Meets (' ' :: (Part.expr e .unary).render.toList) :=
      .cons (Token.endsBefore_of_isSeparator _ rfl)
    have := Writes.unary (s := s) (Precedence.le_refl _) operand.space meets
    simpa [Expr.inner, Expr.precedence, hsp] using this
  · rw [not_or] at hsp
    have meets : op.token.Meets (Part.expr e .unary).render.toList := by
      obtain ⟨ts, hl, hg⟩ := operand
      exact hg.meets hl hsp.1 (by simpa using hsp.2)
    have := Writes.unary (s := s) (Precedence.le_refl _) operand meets
    simpa [Expr.inner, Expr.precedence, hsp] using this

theorem Expr.Legible.update {s : Span} {op : UpdateOp} {before : Bool} {e : Expr} (h : e.Legible) :
    (Expr.update s op before e).Legible := by
  unfold Expr.Legible
  cases before with
  | true =>
    have := Writes.before (s := s) op (Precedence.le_refl _) (h.place .unary)
    simpa [Expr.inner, Expr.precedence] using this
  | false =>
    have := Writes.after (s := s) op (Precedence.le_refl _) (h.place .call)
    simpa [Expr.inner, Expr.precedence] using this

/-- An operand is written in the place its operator asks for, also where `??` asks for more. -/
theorem Expr.Legible.operand {e : Expr} {min level : Precedence} (h : e.Legible) (op : BinaryOp)
    (hmin : min ≤ level) :
    Writes (Phrase min e) (Part.expr e (op.guard e level)).render.toList := by
  refine (h.place (op.guard e level)).weaken (Precedence.le_trans hmin ?_)
  unfold BinaryOp.guard
  split
  · exact Precedence.le_primary level
  · exact Precedence.le_refl level

theorem Expr.Legible.binary {s : Span} {op : BinaryOp} {a b : Expr} (ha : a.Legible) (hb : b.Legible) :
    (Expr.binary s op a b).Legible := by
  unfold Expr.Legible
  by_cases hop : op = .pow
  · subst hop
    have := Writes.power (s := s) (Precedence.le_refl _)
      (ha.operand .pow (by decide : Precedence.unary ≤ .postfix_))
      (hb.operand .pow (Precedence.le_refl .exponent))
    simpa [Expr.inner, Expr.precedence, BinaryOp.operandLevels, BinaryOp.precedence] using this
  · have levels : op.operandLevels = (op.precedence, op.precedence.next) := by
      cases op <;> first | rfl | exact absurd rfl hop
    have := Writes.binary (s := s) hop (Precedence.le_refl _)
      (ha.operand op (Precedence.le_refl op.precedence))
      (hb.operand op (Precedence.le_refl op.precedence.next))
    simpa [Expr.inner, Expr.precedence, levels] using this

theorem Expr.Legible.assign {s : Span} {op : AssignOp} {a b : Expr} (hasg : a.isAssignable = true)
    (ha : a.Legible) (hb : b.Legible) : (Expr.assign s op a b).Legible := by
  have := Writes.assign (s := s) op (Precedence.le_refl _) hasg (ha.place .call)
    (hb.place .assignment)
  simpa [Expr.Legible, Expr.inner, Expr.precedence] using this

theorem Expr.Legible.cond {s : Span} {a b c : Expr} (ha : a.Legible) (hb : b.Legible)
    (hc : c.Legible) : (Expr.cond s a b c).Legible := by
  have := Writes.cond (s := s) (Precedence.le_refl _) (ha.place .nullish) (hb.place .assignment)
    (hc.place .assignment)
  simpa [Expr.Legible, Expr.inner, Expr.precedence] using this

theorem Expr.Legible.member {s : Span} {o : Expr} {k : Key} {optional : Bool} (ho : o.Legible)
    (hk : Writes (LinkPhrase k optional) (render (k.layout optional)).toList) :
    (Expr.member s o k optional).Legible := by
  unfold Expr.Legible
  cases hnum : o.isNumber with
  | true =>
    have := Writes.member (s := s) (Precedence.le_refl _) (ho.place .lowest).objectParens hk
    simpa [Expr.inner, Expr.precedence, hnum, parenthesized] using this
  | false =>
    have := Writes.member (s := s) (Precedence.le_refl _) ((ho.place .call).objectOf hnum) hk
    simpa [Expr.inner, Expr.precedence, hnum] using this

theorem Expr.Legible.call {s : Span} {c : Expr} {args : List Expr} {optional : Bool} (hc : c.Legible)
    (ha : ∀ e ∈ args, e.Legible) : (Expr.call s c args optional).Legible := by
  have := Writes.call (s := s) optional (Precedence.le_refl _) (hc.place .call)
    (Writes.arguments ha)
  simpa [Expr.Legible, Expr.inner, Expr.precedence, argsLayout] using this

theorem Expr.Legible.new {s : Span} {c : Expr} {args : List Expr} (hcallee : c.isCallee = true)
    (hc : c.Legible) (ha : ∀ e ∈ args, e.Legible) : (Expr.new s c args).Legible := by
  unfold Expr.Legible
  simp only [Expr.isCallee, Bool.or_eq_true] at hcallee
  cases hcall : c.containsCall with
  | true =>
    have callee : Writes (CalleePhrase c) ('(' :: ((Part.expr c .lowest).render.toList ++ [')'])) :=
      (hc.place .lowest).parens.mono fun _ => .root
    have := Writes.new (s := s) (Precedence.le_refl _) callee (Writes.arguments ha)
    simpa [Expr.inner, Expr.precedence, hcall, parenthesized, argsLayout] using this
  | false =>
    have plain : c.isPlainCallee = true := by simpa [hcall] using hcallee
    have callee := (hc.place .call).mono fun _ hg => Phrase.callee c hg hcall plain
    have := Writes.new (s := s) (Precedence.le_refl _) callee (Writes.arguments ha)
    simpa [Expr.inner, Expr.precedence, hcall, argsLayout] using this

/-! ### Functions -/

theorem Writes.parameters {params : List Param} (h : ∀ q ∈ params, q.Legible) :
    Writes (Items ParamPhrase params)
      (render (Staging.separate ", " (params.map Param.layout))).toList :=
  .separate h

theorem initialWrites_of_legible {init : Option Expr} (h : ∀ e ∈ init, e.Legible) :
    InitialWrites init
      (render (match init with
        | some e => [.text " = ", .expr e .assignment]
        | none => [])).toList := by
  cases init with
  | none => exact .none
  | some e => simpa using InitialWrites.some ((h e rfl).place .assignment)

theorem Param.legible {q : Param} (hp : q.pattern.isPrintable = true) (hd : ∀ e ∈ q.default, e.Legible) :
    q.Legible := by
  obtain ⟨s, pattern, default, rest⟩ := q
  have := Writes.param (s := s) rest hp (initialWrites_of_legible hd)
  cases default <;> simpa [Param.Legible, Param.layout] using this

theorem Declarator.legible {d : Declarator} (hp : d.pattern.isPrintable = true)
    (hd : ∀ e ∈ d.init, e.Legible) : d.Legible := by
  obtain ⟨pattern, init⟩ := d
  have := Writes.declarator hp (initialWrites_of_legible hd)
  cases init <;> simpa [Declarator.Legible, Declarator.layout] using this

/-- The body of an arrow is an expression in parentheses or one that begins with no brace. -/
theorem Writes.arrowBody (body : FuncBody) : body.Legible →
    (∀ e, body = .expr e → e.isArrowBody = true) →
    Writes (ArrowBody body)
      (render (match body with
        | .block body => blockLayout body
        | .expr e => if e.isObject then parenthesized e else [.expr e .assignment])).toList := by
  intro h harrow
  cases body with
  | block body =>
    simp only [render_block]
    exact (Writes.statements h).blockBody
  | expr e =>
    have hbody := harrow e rfl
    simp only [Expr.isArrowBody, Bool.or_eq_true, Bool.not_eq_true'] at hbody
    have place : ∀ min, Writes (Phrase min e) (Part.expr e min).render.toList := Expr.Legible.place h
    cases hobj : e.isObject with
    | true =>
      obtain ⟨ts, hl, hg⟩ := place .lowest
      refine ⟨inParens ts, ?_, .expr (.parens hg) (by rintro ⟨⟩)⟩
      simpa [parenthesized, hobj] using hl.inParens
    | false =>
      obtain ⟨ts, hl, hg⟩ := place .assignment
      refine ⟨ts, by simpa [hobj] using hl, .expr hg fun hbrace => ?_⟩
      have := (Phrase.leftmost e hg).1 hbrace
      rw [hobj, this] at hbody
      simp at hbody

/-- The parts of a function are written as they should be. -/
structure Func.Legible (f : Func) : Prop where
  params : ∀ q ∈ f.params, q.Legible
  body : f.body.Legible

theorem Func.Legible.function {f : Func} (h : f.Legible) (hp : f.isPrintable = true)
    (ha : f.isArrow = false) : Writes (FuncPhrase f) (render f.layout).toList := by
  obtain ⟨name, params, body, isArrow⟩ := f
  cases ha
  simp only [Func.isPrintable, Bool.and_eq_true] at hp
  cases body with
  | expr e => simp at hp
  | block body =>
    have := Writes.function hp.1.1.1 (Writes.parameters h.params) (Writes.statements h.body)
    cases name <;> simpa [Func.layout, paramsLayout, render_block, nameText] using this

/-- Arrows have no names. -/
theorem Func.isArrow_eq_false {f : Func} (h : f.isPrintable = true) (hn : f.name.isSome = true) :
    f.isArrow = false := by
  obtain ⟨name, params, body, isArrow⟩ := f
  cases isArrow with
  | false => rfl
  | true =>
    simp only [Func.isPrintable, if_true, Bool.and_eq_true, Option.isNone_iff_eq_none] at h
    obtain ⟨-, rfl⟩ := h
    cases hn

theorem Func.Legible.arrow {s : Span} {f : Func} (h : f.Legible) (hp : f.isPrintable = true)
    (ha : f.isArrow = true) :
    Writes (Phrase .assignment (.function s f)) (render f.layout).toList := by
  obtain ⟨name, params, body, isArrow⟩ := f
  cases ha
  simp only [Func.isPrintable, Bool.and_eq_true, if_true, Option.isNone_iff_eq_none] at hp
  obtain ⟨⟨-, hbody⟩, rfl⟩ := hp
  have isBody : ∀ e, body = .expr e → e.isArrowBody = true := by
    rintro e rfl
    simp only [FuncBody.isPrintable, Bool.and_eq_true] at hbody
    exact hbody.1
  have := Writes.arrow (s := s) (Precedence.le_refl _) (Writes.parameters h.params)
    (Writes.arrowBody body h.body isBody)
  cases body <;> simpa [Func.layout, paramsLayout] using this

theorem Expr.Legible.ofFunction {s : Span} {f : Func} (h : f.Legible) (hp : f.isPrintable = true) :
    (Expr.function s f).Legible := by
  unfold Expr.Legible
  cases ha : f.isArrow with
  | true => simpa [Expr.precedence, ha, Expr.inner] using h.arrow (s := s) hp ha
  | false =>
    simpa [Expr.precedence, ha, Expr.inner] using (h.function hp ha).mono fun _ => Phrase.function

/-! ### Statements -/

theorem VarDecl.legible {d : VarDecl} (hne : d.declarators ≠ []) (h : ∀ q ∈ d.declarators, q.Legible) :
    d.Legible := by
  obtain ⟨s, kind, ds⟩ := d
  have := Writes.varDecl (s := s) kind hne (Writes.separate h)
  simpa [VarDecl.Legible, VarDecl.layout] using this

theorem Stmt.Legible.ofExpr {s : Span} {e : Expr} (h : e.Legible) : (Stmt.expr s e).Legible := by
  unfold Stmt.Legible
  cases ha : e.startsAmbiguously with
  | true => simpa [Stmt.layout, ha, parenthesized] using (h.place .lowest).startParens.exprStmt (s := s)
  | false =>
    have start : Writes (StartPhrase e) (Part.expr e .lowest).render.toList :=
      (h.place .lowest).mono fun ts hg => ⟨hg, hg.beginsStatement ha⟩
    simpa [Stmt.layout, ha] using start.exprStmt (s := s)

theorem Stmt.Legible.return_ {s : Span} {e : Option Expr} (h : ∀ a ∈ e, a.Legible) :
    (Stmt.return_ s e).Legible := by
  cases e with
  | none => simpa [Stmt.Legible, Stmt.layout] using Writes.returnNothing (s := s)
  | some a => simpa [Stmt.Legible, Stmt.layout] using ((h a rfl).place .lowest).return_ (s := s)

theorem Stmt.Legible.if_ {s : Span} {test : Expr} {yes : Stmt} {no : Option Stmt} (ht : test.Legible)
    (hy : yes.Legible) (hn : ∀ b ∈ no, b.Legible) (hopen : (no.isSome && yes.endsOpen) = false) :
    (Stmt.if_ s test yes no).Legible := by
  cases no with
  | none => simpa [Stmt.Legible, Stmt.layout] using Writes.if_ (s := s) (ht.place .lowest) hy.place
  | some b =>
    have closed : yes.endsOpen = false := by simpa using hopen
    have := Writes.ifElse (s := s) (ht.place .lowest) hy.place closed (hn b rfl).place
    simpa [Stmt.Legible, Stmt.layout, closed] using this

theorem Writes.clauseLayout {e : Option Expr} (h : ∀ a ∈ e, a.Legible) :
    Writes (ClausePhrase e) (render (clauseLayout e)).toList := by
  cases e with
  | none => exact .noClause
  | some a => simpa [Staging.clauseLayout] using ((h a rfl).place .lowest).clause.space

theorem Stmt.Legible.for_ {s : Span} {init : Option ForInit} {test update : Option Expr} {body : Stmt}
    (hi : Writes (ForInitPhrase init)
      (render (match init with | some i => i.layout | none => [])).toList)
    (ht : ∀ a ∈ test, a.Legible) (hu : ∀ a ∈ update, a.Legible) (hb : body.Legible) :
    (Stmt.for_ s init test update body).Legible := by
  have := Writes.for_ (s := s) hi (Writes.clauseLayout ht) (Writes.clauseLayout hu) hb.place
  cases init <;> simpa [Stmt.Legible, Stmt.layout] using this

theorem Stmt.Legible.forEach {s : Span} {kind : IterKind} {decl : Option DeclKind} {pattern : Pattern}
    {source : Expr} {body : Stmt} (hp : pattern.isPrintable = true) (hs : source.Legible)
    (hb : body.Legible) : (Stmt.forEach s kind decl pattern source body).Legible := by
  have := Writes.forEach (s := s) kind decl hp (hs.place .assignment) hb.place
  cases decl <;> simpa [Stmt.Legible, Stmt.layout, declText] using this

/-- The text of a `finally` clause, if there is one. -/
def finalText (finalizer : Option (List Stmt)) : List Char :=
  finalizer.elim [] fun body => " finally ".toList ++ (render (blockLayout body)).toList

theorem Writes.tryFinally {s : Span} {body : List Stmt} {handler : Option CatchClause}
    {finalizer : Option (List Stmt)} {cs : List Char} (hb : ∀ a ∈ body, a.Legible)
    (hh : Writes (HandlerPhrase handler) cs) (hf : ∀ c ∈ finalizer, ∀ a ∈ c, a.Legible)
    (hsome : (handler.isNone && finalizer.isNone) = false) :
    Writes (Sentence (.try_ s body handler finalizer))
      ("try ".toList ++ ((render (blockLayout body)).toList ++ (cs ++ finalText finalizer))) := by
  cases finalizer with
  | none =>
    have := Writes.try_ (s := s) (Writes.statements hb) hh .noFinalizer hsome (by rintro _ ⟨⟩)
    simpa [render_block, finalText] using this
  | some last =>
    have := Writes.try_ (s := s) (Writes.statements hb) hh (Writes.statements (hf last rfl)).finalizer
      hsome (by rintro _ ⟨⟩; rfl)
    simpa [render_block, finalText] using this

theorem Stmt.Legible.try_ {s : Span} {body : List Stmt} {handler : Option CatchClause}
    {finalizer : Option (List Stmt)} (hb : ∀ a ∈ body, a.Legible)
    (hh : ∀ c ∈ handler, c.param.all Pattern.isPrintable = true ∧ ∀ a ∈ c.body, a.Legible)
    (hf : ∀ c ∈ finalizer, ∀ a ∈ c, a.Legible)
    (hsome : (handler.isNone && finalizer.isNone) = false) :
    (Stmt.try_ s body handler finalizer).Legible := by
  unfold Stmt.Legible
  match handler with
  | none =>
    have := Writes.tryFinally (s := s) hb .noHandler hf hsome
    cases finalizer <;> simpa [Stmt.layout, finalText] using this
  | some ⟨none, caught⟩ =>
    have handler := (Writes.statements (hh _ rfl).2).handler
    have := Writes.tryFinally (s := s) hb handler hf hsome
    cases finalizer <;> simpa [Stmt.layout, finalText, render_block] using this
  | some ⟨some q, caught⟩ =>
    have hq : q.isPrintable = true := by simpa using (hh _ rfl).1
    have handler := (Writes.statements (hh _ rfl).2).handlerBinding hq
    have := Writes.tryFinally (s := s) hb handler hf hsome
    cases finalizer <;> simpa [Stmt.layout, finalText, render_block] using this

/-! ### Every printable tree -/

mutual

/-- The text of a printable expression is a way to write it. -/
theorem Expr.legible : (e : Expr) → e.isPrintable = true → e.Legible
  | .literal s v, h => by
    rw [Expr.Legible, Literal.precedence h]
    simpa [Expr.inner] using Writes.literal (s := s) h
  | .ident s n, h => by simpa [Expr.Legible, Expr.inner] using Writes.ident (s := s) h
  | .array s items, h => by
    have := (Writes.arguments (Expr.all_legible items h)).array (s := s) (p := .primary)
    simpa [Expr.Legible, Expr.inner, Expr.precedence] using this
  | .object s props, h => by
    have := (Writes.separate (Property.all_legible props h)).object (s := s) (p := .primary)
    simpa [Expr.Legible, Expr.inner, Expr.precedence] using this
  | .function s f, h => .ofFunction (Func.legible f h) h
  | .unary s op e, h => .unary (Expr.legible e h)
  | .update s op before e, h => .update (Expr.legible e h)
  | .binary s op a b, h => by
    simp only [Expr.isPrintable, Bool.and_eq_true] at h
    exact .binary (Expr.legible a h.1) (Expr.legible b h.2)
  | .assign s op a b, h => by
    simp only [Expr.isPrintable, Bool.and_eq_true] at h
    exact .assign h.1.1 (Expr.legible a h.1.2) (Expr.legible b h.2)
  | .cond s a b c, h => by
    simp only [Expr.isPrintable, Bool.and_eq_true] at h
    exact .cond (Expr.legible a h.1.1) (Expr.legible b h.1.2) (Expr.legible c h.2)
  | .member s o k optional, h => by
    simp only [Expr.isPrintable, Bool.and_eq_true] at h
    exact .member (Expr.legible o h.1) (Key.legible k h.2)
  | .call s c args optional, h => by
    simp only [Expr.isPrintable, Bool.and_eq_true] at h
    exact .call (Expr.legible c h.1) (Expr.all_legible args h.2)
  | .new s c args, h => by
    simp only [Expr.isPrintable, Bool.and_eq_true] at h
    exact .new h.1.1 (Expr.legible c h.1.2) (Expr.all_legible args h.2)

theorem Key.legible : (k : Key) → k.isPrintable = true → ∀ {optional : Bool},
    Writes (LinkPhrase k optional) (render (k.layout optional)).toList
  | .named n, h, optional => by simpa [Key.layout] using Writes.namedLink optional h
  | .computed e, h, optional => by
    have := ((Expr.legible e h).place .lowest).computedLink optional
    simpa [Key.layout] using this

theorem Expr.all_legible : (es : List Expr) → Expr.allPrintable es = true → ∀ e ∈ es, e.Legible
  | [], _ => by simp
  | e :: es, h => by
    simp only [Expr.allPrintable, Bool.and_eq_true] at h
    exact List.forall_mem_cons.2 ⟨Expr.legible e h.1, Expr.all_legible es h.2⟩

theorem Key.legible_property : (k : Key) → k.isPropertyKey = true →
    Writes (KeyPhrase k)
      (render (match k with
        | .named name => [.text (propertyName name)]
        | .computed e => [.text "[", .expr e .assignment, .text "]"])).toList
  | .named n, _ => by simpa using Writes.namedKey (n := n)
  | .computed e, h => by simpa using ((Expr.legible e h).place .assignment).computedKey

theorem Property.all_legible : (ps : List Property) → Property.allPrintable ps = true →
    ∀ q ∈ ps, q.Legible
  | [], _ => by simp
  | ⟨k, v⟩ :: ps, h => by
    simp only [Property.allPrintable, Bool.and_eq_true] at h
    have first := (Key.legible_property k h.1.1).property ((Expr.legible v h.1.2).place .assignment).space
    have : Property.Legible ⟨k, v⟩ := by
      cases k <;> simpa [Property.Legible, Property.layout] using first
    exact List.forall_mem_cons.2 ⟨this, Property.all_legible ps h.2⟩

theorem Expr.option_legible : (e : Option Expr) → Expr.optionPrintable e = true → ∀ a ∈ e, a.Legible
  | none, _ => by simp
  | some e, h => by
    rintro _ ⟨⟩
    exact Expr.legible e h

theorem Param.all_legible : (ps : List Param) → Param.allPrintable ps = true → ∀ q ∈ ps, q.Legible
  | [], _ => by simp
  | ⟨s, pattern, default, rest⟩ :: ps, h => by
    simp only [Param.allPrintable, Bool.and_eq_true] at h
    have first : Param.Legible ⟨s, pattern, default, rest⟩ :=
      Param.legible h.1.1 (Expr.option_legible default h.1.2)
    exact List.forall_mem_cons.2 ⟨first, Param.all_legible ps h.2⟩

theorem FuncBody.legible : (b : FuncBody) → b.isPrintable = true → b.Legible
  | .block body, h => Stmt.all_legible body h
  | .expr e, h => by
    simp only [FuncBody.isPrintable, Bool.and_eq_true] at h
    exact Expr.legible e h.2

theorem Func.legible : (f : Func) → f.isPrintable = true → f.Legible
  | ⟨name, params, body, isArrow⟩, h => by
    simp only [Func.isPrintable, Bool.and_eq_true] at h
    exact ⟨Param.all_legible params h.1.1.2, FuncBody.legible body h.1.2⟩

theorem Declarator.all_legible : (ds : List Declarator) → Declarator.allPrintable ds = true →
    ∀ d ∈ ds, d.Legible
  | [], _ => by simp
  | ⟨pattern, init⟩ :: ds, h => by
    simp only [Declarator.allPrintable, Bool.and_eq_true] at h
    have first : Declarator.Legible ⟨pattern, init⟩ :=
      Declarator.legible h.1.1 (Expr.option_legible init h.1.2)
    exact List.forall_mem_cons.2 ⟨first, Declarator.all_legible ds h.2⟩

theorem VarDecl.legible_of_isPrintable : (d : VarDecl) → d.isPrintable = true → d.Legible
  | ⟨s, kind, ds⟩, h => by
    simp only [VarDecl.isPrintable, Bool.and_eq_true, Bool.not_eq_true', List.isEmpty_eq_false_iff] at h
    exact VarDecl.legible h.1 (Declarator.all_legible ds h.2)

theorem ForInit.legible : (i : Option ForInit) → ForInit.isPrintable i = true →
    Writes (ForInitPhrase i) (render (match i with | some i => i.layout | none => [])).toList
  | none, _ => ⟨[], .nil, .none⟩
  | some (.decl d), h => (VarDecl.legible_of_isPrintable d h).mono fun _ => .decl
  | some (.expr e), h => by
    have := ((Expr.legible e h).place .lowest).mono fun _ => ForInitPhrase.expr
    simpa [ForInit.layout] using this

theorem CatchClause.legible : (c : Option CatchClause) → CatchClause.isPrintable c = true →
    ∀ a ∈ c, a.param.all Pattern.isPrintable = true ∧ ∀ b ∈ a.body, b.Legible
  | none, _ => by simp
  | some ⟨param, body⟩, h => by
    simp only [CatchClause.isPrintable, Bool.and_eq_true] at h
    rintro _ ⟨⟩
    exact ⟨h.1, Stmt.all_legible body h.2⟩

theorem Stmt.option_legible : (s : Option Stmt) → Stmt.optionPrintable s = true → ∀ a ∈ s, a.Legible
  | none, _ => by simp
  | some s, h => by
    rintro _ ⟨⟩
    exact Stmt.legible s h

theorem Stmt.final_legible : (body : Option (List Stmt)) → Stmt.finalPrintable body = true →
    ∀ c ∈ body, ∀ a ∈ c, a.Legible
  | none, _ => by simp
  | some body, h => by
    rintro _ ⟨⟩
    exact Stmt.all_legible body h

theorem Stmt.all_legible : (ss : List Stmt) → Stmt.allPrintable ss = true → ∀ s ∈ ss, s.Legible
  | [], _ => by simp
  | s :: ss, h => by
    simp only [Stmt.allPrintable, Bool.and_eq_true] at h
    exact List.forall_mem_cons.2 ⟨Stmt.legible s h.1, Stmt.all_legible ss h.2⟩

/-- The text of a printable statement is a way to write it. -/
theorem Stmt.legible : (s : Stmt) → s.isPrintable = true → s.Legible
  | .expr s e, h => .ofExpr (Expr.legible e h)
  | .decl d, h => by
    simpa [Stmt.Legible, Stmt.layout] using (VarDecl.legible_of_isPrintable d h).declStmt
  | .function s f, h => by
    simp only [Stmt.isPrintable, Bool.and_eq_true] at h
    exact ((Func.legible f h.2).function h.2 (Func.isArrow_eq_false h.2 h.1)).mono fun _ =>
      .function h.1
  | .return_ s e, h => .return_ (Expr.option_legible e h)
  | .if_ s test yes no, h => by
    simp only [Stmt.isPrintable, Bool.and_eq_true, Bool.not_eq_true'] at h
    exact .if_ (Expr.legible test h.1.1.1) (Stmt.legible yes h.1.1.2) (Stmt.option_legible no h.1.2) h.2
  | .for_ s init test update body, h => by
    simp only [Stmt.isPrintable, Bool.and_eq_true] at h
    exact .for_ (ForInit.legible init h.1.1.1) (Expr.option_legible test h.1.1.2)
      (Expr.option_legible update h.1.2) (Stmt.legible body h.2)
  | .forEach s kind decl pattern source body, h => by
    simp only [Stmt.isPrintable, Bool.and_eq_true] at h
    exact .forEach h.1.1 (Expr.legible source h.1.2) (Stmt.legible body h.2)
  | .while_ s test body, h => by
    simp only [Stmt.isPrintable, Bool.and_eq_true] at h
    have := Writes.while_ (s := s) ((Expr.legible test h.1).place .lowest) (Stmt.legible body h.2).place
    simpa [Stmt.Legible, Stmt.layout] using this
  | .break_ s label, h => by
    have := Writes.break_ (s := s) h
    cases label <;> simpa [Stmt.Legible, Stmt.layout, jumpText, nameText] using this
  | .continue_ s label, h => by
    have := Writes.continue_ (s := s) h
    cases label <;> simpa [Stmt.Legible, Stmt.layout, jumpText, nameText] using this
  | .labeled s label body, h => by
    simp only [Stmt.isPrintable, Bool.and_eq_true] at h
    have := Writes.labeled (s := s) h.1 (Stmt.legible body h.2).place
    simpa [Stmt.Legible, Stmt.layout] using this
  | .throw_ s e, h => by
    simpa [Stmt.Legible, Stmt.layout] using ((Expr.legible e h).place .lowest).throw_ (s := s)
  | .try_ s body handler finalizer, h => by
    simp only [Stmt.isPrintable, Bool.and_eq_true, Bool.not_eq_true'] at h
    exact .try_ (Stmt.all_legible body h.1.1.1) (CatchClause.legible handler h.1.1.2)
      (Stmt.final_legible finalizer h.1.2) h.2
  | .block s body, h => by
    have := (Writes.statements (Stmt.all_legible body h)).block (s := s)
    simpa [Stmt.Legible, Stmt.layout, render_block] using this
  | .empty s, _ => by simpa [Stmt.Legible, Stmt.layout] using Writes.empty (s := s)

end

/-! ### The round trip -/

theorem toList_programText (body : List Stmt) :
    (programText body).toList = (render (body.map .stmt)).toList := by
  simp only [programText, render, List.map_map, Function.comp_def]
  rfl

/--
**Printing and reading are inverse.** The text of a printable program is accepted, and what is read from it
is the program, up to spans.
-/
theorem parseProgram_programText {body : List Stmt} (h : Stmt.allPrintable body = true) :
    ∃ read, parseProgram (programText body) = .ok read ∧ read.map Stmt.bare = body.map Stmt.bare := by
  obtain ⟨ts, hl, hg⟩ := Writes.statements (Stmt.all_legible body h)
  rw [← toList_programText] at hl
  obtain ⟨ls, hscan, rfl⟩ := hl.scan
  obtain ⟨read, hparse, hbare⟩ := parseLexemes_eq_ok (programText body).utf8ByteSize hg
  exact ⟨read, by simp only [parseProgram, hscan, hparse], hbare⟩

/-- Two signs in a row, a power of a signed operand and an object at the start are read back. -/
theorem parseProgram_programText_signs :
    ∃ read,
      parseProgram (programText
        [.while_ nowhere (.ident nowhere "a")
          (.if_ nowhere
            (.binary nowhere .pow (.unary nowhere .neg (.unary nowhere .neg (.ident nowhere "b")))
              (.literal nowhere (.number 0.5)))
            (.expr nowhere (.call nowhere (.object nowhere [⟨.named "new", .ident nowhere "c"⟩]) [] true))
            none)]) = .ok read
      ∧ read.map Stmt.bare =
        ([.while_ nowhere (.ident nowhere "a")
          (.if_ nowhere
            (.binary nowhere .pow (.unary nowhere .neg (.unary nowhere .neg (.ident nowhere "b")))
              (.literal nowhere (.number 0.5)))
            (.expr nowhere (.call nowhere (.object nowhere [⟨.named "new", .ident nowhere "c"⟩]) [] true))
            none)] : List Stmt).map Stmt.bare :=
  parseProgram_programText (by decide +kernel)

end Staging
