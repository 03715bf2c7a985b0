import Staging.Proofs.Grammar.Expr

/-!
Sentences are read back.

`stmtRule_reads` says for statements what `exprRule_reads` says for expressions. The rules for statements
are tried one after the other; `stmtRules` lists them together with the tokens they can begin with, so
that for most statements the first token settles which rule reads it. Two pairs of rules begin alike: the
two kinds of `for`, and labels and expressions. There the unit after the first token decides.
-/

namespace Staging.Grammar

open Staging.Parser

variable {n : Nat} {expr : Parser Expr} {stmt : Parser Stmt} {pat : Parser Pattern}
  {ts us rest : List Token}

/-! ### The rules and their first tokens -/

def startsDecl : Token → Bool
  | .keyword .let_ | .keyword .const | .keyword .var => true
  | _ => false

def startsLabel : Token → Bool
  | .ident _ => true
  | _ => false

/-- The rules for statements, each with the tokens it can begin with. -/
def stmtRules (expr : Parser Expr) (stmt : Parser Stmt) (pat : Parser Pattern) :
    List ((Token → Bool) × Parser Stmt) :=
  [(startsDecl, varStmt expr pat),
    ((· == .keyword .function), functionDecl expr stmt pat),
    ((· == .mark .leftBrace), blockStmt stmt),
    ((· == .keyword .return_), returnStmt expr),
    ((· == .keyword .if_), ifStmt expr stmt),
    ((· == .keyword .for_), forEachStmt expr stmt pat),
    ((· == .keyword .for_), forStmt expr stmt pat),
    ((· == .keyword .while_), whileStmt expr stmt),
    ((· == .keyword .break_), do let (span, label) ← jump .break_; return .break_ span label),
    ((· == .keyword .continue_), do let (span, label) ← jump .continue_; return .continue_ span label),
    ((· == .keyword .throw_), throwStmt expr),
    ((· == .keyword .try_), tryStmt stmt pat),
    (startsLabel, labeledStmt stmt),
    ((· == .mark .semicolon), emptyStmt),
    (startsExpr, exprStmt expr)]

theorem stmtRule_eq_choice :
    stmtRule expr stmt pat = choice ((stmtRules expr stmt pat).map Prod.snd) := rfl

theorem declKindToken_eq_none {t : Token} (h : startsDecl t = false) : declKindToken t = none := by
  cases t with
  | keyword k => cases k <;> first | rfl | cases h
  | _ => rfl

/-- A rule refuses what does not begin with one of its tokens. -/
theorem stmtRules_refuse (hready : Ready n expr stmt pat) {r : (Token → Bool) × Parser Stmt}
    (hr : r ∈ stmtRules expr stmt pat) (hst : ∀ t, ts.head? = some t → r.1 t = false) :
    Refuses r.2 ts := by
  have ne : ∀ {t}, r.1 t = true → ts.head? ≠ some t := by
    intro t ht hts
    rw [hst t hts] at ht
    cases ht
  simp only [stmtRules, List.mem_cons, List.not_mem_nil, or_false] at hr
  rcases hr with rfl | rfl | rfl | rfl | rfl | rfl | rfl | rfl | rfl | rfl | rfl | rfl | rfl | rfl | rfl
  · exact Refuses.bind (Refuses.bind (Refuses.spanned (Refuses.bind (Refuses.accept fun t ht =>
      declKindToken_eq_none (hst t ht)))))
  · exact Refuses.bind (Refuses.spanned (Refuses.bind (Refuses.keyword (ne (by simp)))))
  · exact Refuses.bind (Refuses.spanned (Refuses.between (ne (by simp))))
  · exact Refuses.bind (Refuses.spanned (Refuses.bind (Refuses.keyword (ne (by simp)))))
  · exact Refuses.bind (Refuses.spanned (Refuses.bind (Refuses.keyword (ne (by simp)))))
  · exact Refuses.bind (Refuses.spanned (Refuses.bind (Refuses.keyword (ne (by simp)))))
  · exact Refuses.bind (Refuses.spanned (Refuses.bind (Refuses.keyword (ne (by simp)))))
  · exact Refuses.bind (Refuses.spanned (Refuses.bind (Refuses.keyword (ne (by simp)))))
  · exact Refuses.bind (Refuses.spanned (Refuses.bind (Refuses.keyword (ne (by simp)))))
  · exact Refuses.bind (Refuses.spanned (Refuses.bind (Refuses.keyword (ne (by simp)))))
  · exact Refuses.bind (Refuses.spanned (Refuses.bind (Refuses.keyword (ne (by simp)))))
  · show Refuses (tryStmt stmt pat) ts
    unfold tryStmt
    exact Refuses.check (Refuses.bind (Refuses.keyword (ne (by simp))))
  · exact Refuses.bind (Refuses.spanned (Refuses.bind (name_refuses fun m => ne rfl)))
  · exact Refuses.bind (Refuses.spanned (Refuses.mark (ne (by simp))))
  · exact Refuses.bind (Refuses.spanned (Refuses.bind (hready.refusesExpr hst)))

/-- A statement is read by the first rule that its first token leaves over. -/
theorem stmtRule_reads_at (hr : Ready n expr stmt pat) {i : Nat} {starts : Token → Bool}
    {p : Parser Stmt} {t : Token} {Q : Stmt → Prop}
    (hi : (stmtRules expr stmt pat)[i]? = some (starts, p))
    (hb : ∀ r ∈ (stmtRules expr stmt pat).take i, r.1 t = true → Refuses r.2 (t :: ts ++ rest))
    (h : Reads p (t :: ts) rest Q) : Reads (stmtRule expr stmt pat) (t :: ts) rest Q := by
  obtain ⟨hlt, hget⟩ := List.getElem?_eq_some_iff.1 hi
  have hsplit : stmtRules expr stmt pat
      = (stmtRules expr stmt pat).take i ++ (starts, p) :: (stmtRules expr stmt pat).drop (i + 1) := by
    rw [← hget, List.getElem_cons_drop, List.take_append_drop]
  rw [stmtRule_eq_choice, hsplit, List.map_append, List.map_cons]
  refine Reads.choice _ ?_ h
  intro q hq
  obtain ⟨r, hmem, rfl⟩ := List.mem_map.1 hq
  cases hst : r.1 t with
  | true => exact hb r hmem hst
  | false =>
    refine stmtRules_refuse hr (List.mem_of_mem_take hmem) fun t' ht' => ?_
    cases ht'
    exact hst

/-- Where no rule before it begins with the first token, a rule is reached. -/
theorem skip_rules {i : Nat} {t : Token}
    (h : ((stmtRules expr stmt pat).take i).all (fun r => !r.1 t) = true) :
    ∀ r ∈ (stmtRules expr stmt pat).take i, r.1 t = true → Refuses r.2 (t :: ts ++ rest) := by
  intro r hr ht
  have := List.all_eq_true.1 h r hr
  simp [ht] at this

theorem stmtRule_refuses (hr : Ready n expr stmt pat)
    (h : ∀ t, ts.head? = some t → startsStmt t = false) : Refuses (stmtRule expr stmt pat) ts := by
  rw [stmtRule_eq_choice]
  refine Refuses.choice fun q hq => ?_
  obtain ⟨r, hmem, rfl⟩ := List.mem_map.1 hq
  refine stmtRules_refuse hr hmem fun t ht => ?_
  have hno := h t ht
  simp only [stmtRules, List.mem_cons, List.not_mem_nil, or_false] at hmem
  -- a token that begins a rule begins a statement
  have key : ∀ {b : Bool}, (b = true → startsStmt t = true) → b = false := by
    intro b hb
    cases b with
    | false => rfl
    | true => rw [hb rfl] at hno; cases hno
  rcases hmem with rfl | rfl | rfl | rfl | rfl | rfl | rfl | rfl | rfl | rfl | rfl | rfl | rfl | rfl | rfl
  · refine key fun hd => ?_
    cases t with
    | keyword k => cases k <;> first | rfl | cases hd
    | _ => cases hd
  · exact key fun hd => by rw [eq_of_beq hd]; rfl
  · exact key fun hd => by rw [eq_of_beq hd]; rfl
  · exact key fun hd => by rw [eq_of_beq hd]; rfl
  · exact key fun hd => by rw [eq_of_beq hd]; rfl
  · exact key fun hd => by rw [eq_of_beq hd]; rfl
  · exact key fun hd => by rw [eq_of_beq hd]; rfl
  · exact key fun hd => by rw [eq_of_beq hd]; rfl
  · exact key fun hd => by rw [eq_of_beq hd]; rfl
  · exact key fun hd => by rw [eq_of_beq hd]; rfl
  · exact key fun hd => by rw [eq_of_beq hd]; rfl
  · exact key fun hd => by rw [eq_of_beq hd]; rfl
  · refine key fun hd => ?_
    cases t with
    | ident m => rfl
    | _ => cases hd
  · exact key fun hd => by rw [eq_of_beq hd]; rfl
  · exact key fun hd => by
      have hd : startsExpr t = true := hd
      simp [startsStmt, hd]

/-! ### Declarations and clauses -/

theorem semicolon_reads : Reads semicolon [.mark .semicolon] rest fun _ => True :=
  Reads.bind_last (Reads.maybe_some Reads.mark) fun _ _ => Reads.pure trivial

theorem varDecl_reads (hr : Ready n expr stmt pat) {d : VarDecl} (h : DeclPhrase d ts)
    (hn : ts.length ≤ n + 1) :
    Reads (varDecl expr pat) ts (.mark .semicolon :: rest) fun d' => d'.bare = d.bare := by
  cases h with
  | @mk s kind ds us hne h =>
    rw [List.length_cons] at hn
    have declarators : ReadsItems DeclaratorPhrase (declarator expr pat) Declarator.bare .semicolon n := by
      rintro d us m rest hd hlen hm
      have hreach : m.reach = none := by rcases hm with rfl | rfl <;> rfl
      cases hd with
      | @mk q init vs hi =>
        rw [List.length_append] at hlen
        refine Reads.bind (hr.readsPat (by omega)) ?_
        rintro _ rfl
        refine Reads.bind_last (initializer_reads hr hi (by omega) hreach) fun i hi => ?_
        exact Reads.pure (by simpa [Declarator.bare] using hi)
    refine Reads.spanned_bind (Q := fun r => r.1 = kind ∧ r.2.map Declarator.bare = ds.map Declarator.bare)
      (Reads.bind_cons (Q := (· = kind)) (Reads.accept (by cases kind <;> rfl) rfl) ?_) ?_
    · rintro _ rfl
      refine Reads.bind_last (Items.reads1 declarators (by decide) h hne (by omega)) fun ds' hds => ?_
      exact Reads.pure ⟨rfl, hds⟩
    · rintro s' ⟨_, ds'⟩ ⟨rfl, hds⟩
      exact Reads.pure (by simpa [VarDecl.bare] using hds)

theorem clause_reads (hr : Ready n expr stmt pat) {e : Option Expr} {m : Mark} (h : ClausePhrase e ts)
    (hn : ts.length ≤ n) (hm : m.reach = none) (hs : startsExpr (.mark m) = false) :
    Reads (maybe expr) ts (.mark m :: rest) fun o => o.map Expr.bare = e.map Expr.bare := by
  cases h with
  | none =>
    refine (Reads.maybe_none (hr.refusesMark hs)).mono ?_
    rintro _ rfl
    rfl
  | some h =>
    refine (Reads.maybe_some (hr.readsExpr h hn (Follows.of_end hm))).mono ?_
    rintro _ ⟨e', rfl, he⟩
    simp [he]

theorem startsDecl_eq_false {t : Token} (h : startsExpr t = true) : startsDecl t = false := by
  cases t with
  | keyword k => cases k <;> first | rfl | cases h
  | _ => rfl

theorem forInit_reads (hr : Ready n expr stmt pat) {i : Option ForInit} (h : ForInitPhrase i ts)
    (hn : ts.length ≤ n) :
    Reads (maybe (forInit expr pat)) ts (.mark .semicolon :: rest)
      fun i' => ForInit.bareOption i' = ForInit.bareOption i := by
  cases h with
  | none =>
    refine (Reads.maybe_none (Refuses.orElse (Refuses.map ?_) (Refuses.map (hr.refusesMark rfl)))).mono ?_
    · exact Refuses.bind (Refuses.spanned (Refuses.bind (Refuses.accept fun t ht => by cases ht; rfl)))
    · rintro _ rfl
      rfl
  | @decl d us h =>
    refine (Reads.maybe_some (Reads.orElse_left (Reads.map (R := fun i' => ∃ d', i' = .decl d'
      ∧ d'.bare = d.bare) (varDecl_reads hr h (by omega)) fun d' hd => ⟨d', rfl, hd⟩))).mono ?_
    rintro _ ⟨_, rfl, d', rfl, hd⟩
    simp [ForInit.bareOption, hd]
  | @expr e us h =>
    refine (Reads.maybe_some (Reads.orElse_right ?_ (Reads.map (R := fun i' => ∃ e', i' = .expr e'
      ∧ e'.bare = e.bare) (hr.readsExpr h hn (Follows.of_end rfl)) fun e' he => ⟨e', rfl, he⟩))).mono ?_
    · refine Refuses.map (Refuses.bind (Refuses.spanned (Refuses.bind (Refuses.accept fun t ht => ?_))))
      obtain ⟨t', us, rfl, ht'⟩ := h.head
      cases ht
      exact declKindToken_eq_none (startsDecl_eq_false ht'.1)
    · rintro _ ⟨_, rfl, e', rfl, he⟩
      simp [ForInit.bareOption, he]

theorem catchClause_reads (hr : Ready n expr stmt pat) {h : Option CatchClause} (hh : HandlerPhrase h ts)
    (hn : ts.length ≤ n) (hrest : rest.head? ≠ some (.keyword .catch_)) :
    Reads (maybe (catchClause stmt pat)) ts rest
      fun h' => CatchClause.bareOption h' = CatchClause.bareOption h := by
  cases hh with
  | none =>
    refine (Reads.maybe_none (Refuses.bind (Refuses.keyword hrest))).mono ?_
    rintro _ rfl
    rfl
  | @bare body us h =>
    simp only [enclosed, List.length_cons, List.length_append] at hn
    refine (Reads.maybe_some (Q := fun c : CatchClause => c.param = none
      ∧ c.body.map Stmt.bare = body.map Stmt.bare) (Reads.bind_cons Reads.keyword fun _ _ => ?_)).mono ?_
    · refine Reads.bind_nil (Reads.maybe_none (Refuses.between (by simp [enclosed]))) ?_
      rintro _ rfl
      exact Reads.bind_last (block_reads hr h (by omega)) fun b hb => Reads.pure ⟨rfl, hb⟩
    · rintro _ ⟨⟨q, b⟩, rfl, rfl, hb⟩
      simpa [CatchClause.bareOption] using hb
  | @binding q body us h =>
    simp only [enclosed, List.length_cons, List.length_append] at hn
    refine (Reads.maybe_some (Q := fun c : CatchClause => c.param = some q
      ∧ c.body.map Stmt.bare = body.map Stmt.bare) (Reads.bind_cons Reads.keyword fun _ _ => ?_)).mono ?_
    · refine Reads.bind (Reads.maybe_some (Reads.between (hr.readsPat (by omega)))) ?_
      rintro _ ⟨_, rfl, rfl⟩
      exact Reads.bind_last (block_reads hr h (by omega)) fun b hb => Reads.pure ⟨rfl, hb⟩
    · rintro _ ⟨⟨q, b⟩, rfl, rfl, hb⟩
      simpa [CatchClause.bareOption] using hb

theorem finalizer_reads (hr : Ready n expr stmt pat) {b : Option (List Stmt)} (h : FinalPhrase b ts)
    (hn : ts.length ≤ n) (hrest : rest.head? ≠ some (.keyword .finally_)) :
    Reads (maybe do keyword .finally_; block stmt) ts rest
      fun b' => Stmt.bareFinal b' = Stmt.bareFinal b := by
  cases h with
  | none =>
    refine (Reads.maybe_none (Refuses.bind (Refuses.keyword hrest))).mono ?_
    rintro _ rfl
    rfl
  | some h =>
    simp only [enclosed, List.length_cons, List.length_append] at hn
    refine (Reads.maybe_some (Reads.bind_cons Reads.keyword fun _ _ =>
      block_reads hr h (by omega))).mono ?_
    rintro _ ⟨b', rfl, hb⟩
    simpa [Stmt.bareFinal] using hb

/-! ### Statements with bodies -/

theorem ifStmt_reads (hr : Ready n expr stmt pat) {s : Span} {test : Expr} {yes : Stmt}
    (ht : Phrase .lowest test ts) (hy : Sentence yes us) (hn : ts.length + us.length ≤ n)
    (hrest : rest.head? ≠ some (.keyword .else_)) (he : Ends yes rest) :
    Reads (ifStmt expr stmt) (.keyword .if_ :: (inParens ts ++ us)) rest
      fun s' => s'.bare = (Stmt.if_ s test yes none).bare := by
  refine Reads.spanned_bind (Q := fun r => r.1.bare = test.bare ∧ r.2.1.bare = yes.bare ∧ r.2.2 = none)
    (Reads.bind_cons Reads.keyword fun _ _ => ?_) ?_
  · refine Reads.bind (parens_reads hr ht (by omega)) fun test' htest => ?_
    refine Reads.bind_last (hr.readsStmt hy (by omega) he) fun yes' hyes => ?_
    refine Reads.bind_last (Reads.maybe_none (Refuses.bind (Refuses.keyword hrest))) ?_
    rintro _ rfl
    exact Reads.pure ⟨htest, hyes, rfl⟩
  · rintro s' ⟨test', yes', _⟩ ⟨htest, hyes, rfl⟩
    simp only at htest hyes
    exact Reads.pure (by simp [Stmt.bare, htest, hyes])

theorem ifElseStmt_reads (hr : Ready n expr stmt pat) {s : Span} {test : Expr} {yes no : Stmt}
    {vs : List Token} (ht : Phrase .lowest test ts) (hy : Sentence yes us) (hc : yes.endsOpen = false)
    (hno : Sentence no vs) (hn : ts.length + us.length + vs.length ≤ n) (he : Ends no rest) :
    Reads (ifStmt expr stmt) (.keyword .if_ :: (inParens ts ++ (us ++ .keyword .else_ :: vs))) rest
      fun s' => s'.bare = (Stmt.if_ s test yes (some no)).bare := by
  refine Reads.spanned_bind (Q := fun r => r.1.bare = test.bare ∧ r.2.1.bare = yes.bare
    ∧ ∃ no', r.2.2 = some no' ∧ no'.bare = no.bare) (Reads.bind_cons Reads.keyword fun _ _ => ?_) ?_
  · refine Reads.bind (parens_reads hr ht (by omega)) fun test' htest => ?_
    refine Reads.bind (hr.readsStmt hy (by omega) ⟨by simp [hc], by simp, by simp⟩) fun yes' hyes => ?_
    refine Reads.bind_last (Reads.maybe_some (Reads.bind_cons Reads.keyword fun _ _ =>
      hr.readsStmt hno (by omega) he)) ?_
    rintro _ ⟨no', rfl, hno'⟩
    exact Reads.pure ⟨htest, hyes, no', rfl, hno'⟩
  · rintro s' ⟨test', yes', _⟩ ⟨htest, hyes, no', rfl, hno'⟩
    simp only at htest hyes
    exact Reads.pure (by simp [Stmt.bare, htest, hyes, hno'])

theorem iterKind_reads {kind : IterKind} : Reads iterKind [.keyword kind.keyword] rest (· = kind) := by
  cases kind with
  | of => exact Reads.orElse_left (Reads.bind_last Reads.keyword fun _ _ => Reads.pure rfl)
  | in_ =>
    refine Reads.orElse_right (Refuses.bind (Refuses.keyword (by simp [IterKind.keyword]))) ?_
    exact Reads.bind_last Reads.keyword fun _ _ => Reads.pure rfl

theorem iterKind_refuses (h : ∀ k, ts.head? ≠ some (.keyword k)) : Refuses iterKind ts :=
  Refuses.orElse (Refuses.bind (Refuses.keyword (h _))) (Refuses.bind (Refuses.keyword (h _)))

theorem declKind_reads {d : Option DeclKind} (h : ∀ t, ts.head? = some t → startsDecl t = false) :
    Reads (maybe (accept declKindToken)) (d.map fun k => Token.keyword k.keyword).toList ts (· = d) := by
  cases d with
  | none => exact Reads.maybe_none (Refuses.accept fun t ht => declKindToken_eq_none (h t ht))
  | some d =>
    refine (Reads.maybe_some (Q := (· = d)) (Reads.accept (by cases d <;> rfl) rfl)).mono ?_
    rintro _ ⟨_, rfl, rfl⟩
    rfl

theorem forEachStmt_reads (hr : Ready n expr stmt pat) {s : Span} {kind : IterKind}
    {decl : Option DeclKind} {q : Pattern} {source : Expr} {body : Stmt}
    (hs : Phrase .assignment source ts) (hb : Sentence body us)
    (hn : q.tokens.length + ts.length + us.length ≤ n) (he : Ends body rest) :
    Reads (forEachStmt expr stmt pat) (.keyword .for_ ::
      (inParens ((decl.map fun d => Token.keyword d.keyword).toList
        ++ (q.tokens ++ .keyword kind.keyword :: ts)) ++ us)) rest
      fun s' => s'.bare = (Stmt.forEach s kind decl q source body).bare := by
  refine Reads.spanned_bind (Q := fun r => r.1.1 = decl ∧ r.1.2.1 = q ∧ r.1.2.2.1 = kind
    ∧ r.1.2.2.2.bare = source.bare ∧ r.2.bare = body.bare) (Reads.bind_cons Reads.keyword fun _ _ => ?_) ?_
  · refine Reads.bind (Q := fun r => r.1 = decl ∧ r.2.1 = q ∧ r.2.2.1 = kind ∧ r.2.2.2.bare = source.bare)
      (Reads.between (Reads.bind (declKind_reads ?_) ?_)) ?_
    · obtain ⟨t, vs, hq, ht⟩ := Pattern.head_tokens q
      rw [hq]
      rintro _ ⟨⟩
      cases t <;> first | rfl | cases ht
    · rintro _ rfl
      refine Reads.bind (hr.readsPat (by omega)) ?_
      rintro _ rfl
      refine Reads.bind_cons iterKind_reads ?_
      rintro _ rfl
      refine Reads.bind_last (hr.readsAssignment hs (by omega) rfl) fun src hsrc => ?_
      exact Reads.pure ⟨rfl, rfl, rfl, hsrc⟩
    · rintro ⟨decl', q', kind', src⟩ ⟨h₁, h₂, h₃, h₄⟩
      refine Reads.bind_last (hr.readsStmt hb (by omega) he) fun body' hbody => ?_
      exact Reads.pure ⟨h₁, h₂, h₃, h₄, hbody⟩
  · rintro s' ⟨⟨decl', q', kind', src⟩, body'⟩ ⟨rfl, rfl, rfl, h₄, hbody⟩
    simp only at h₄ hbody
    exact Reads.pure (by simp [Stmt.bare, h₄, hbody])

theorem forStmt_reads (hr : Ready n expr stmt pat) {s : Span} {init : Option ForInit}
    {test update : Option Expr} {body : Stmt} {is bs : List Token} (hi : ForInitPhrase init is)
    (ht : ClausePhrase test ts) (hu : ClausePhrase update us) (hb : Sentence body bs)
    (hn : is.length + ts.length + us.length + bs.length ≤ n) (he : Ends body rest) :
    Reads (forStmt expr stmt pat) (.keyword .for_ ::
      (inParens (is ++ .mark .semicolon :: (ts ++ .mark .semicolon :: us)) ++ bs)) rest
      fun s' => s'.bare = (Stmt.for_ s init test update body).bare := by
  refine Reads.spanned_bind (Q := fun r => ForInit.bareOption r.1.1 = ForInit.bareOption init
    ∧ r.1.2.1.map Expr.bare = test.map Expr.bare ∧ r.1.2.2.map Expr.bare = update.map Expr.bare
    ∧ r.2.bare = body.bare) (Reads.bind_cons Reads.keyword fun _ _ => ?_) ?_
  · refine Reads.bind (Q := fun r => ForInit.bareOption r.1 = ForInit.bareOption init
      ∧ r.2.1.map Expr.bare = test.map Expr.bare ∧ r.2.2.map Expr.bare = update.map Expr.bare)
      (Reads.between (Reads.bind (forInit_reads hr hi (by omega)) fun init' hinit => ?_)) ?_
    · refine Reads.bind_cons Reads.mark fun _ _ => ?_
      refine Reads.bind (clause_reads hr ht (by omega) rfl rfl) fun test' htest => ?_
      refine Reads.bind_cons Reads.mark fun _ _ => ?_
      refine Reads.bind_last (clause_reads hr hu (by omega) rfl rfl) fun update' hupdate => ?_
      exact Reads.pure ⟨hinit, htest, hupdate⟩
    · rintro ⟨init', test', update'⟩ ⟨h₁, h₂, h₃⟩
      refine Reads.bind_last (hr.readsStmt hb (by omega) he) fun body' hbody => ?_
      exact Reads.pure ⟨h₁, h₂, h₃, hbody⟩
  · rintro s' ⟨⟨init', test', update'⟩, body'⟩ ⟨h₁, h₂, h₃, hbody⟩
    simp only at h₁ h₂ h₃ hbody
    exact Reads.pure (by simp [Stmt.bare, h₁, h₂, h₃, hbody])

theorem tryStmt_reads (hr : Ready n expr stmt pat) {s : Span} {body : List Stmt}
    {handler : Option CatchClause} {finalizer : Option (List Stmt)} {vs : List Token}
    (hb : Sequence Sentence body ts) (hh : HandlerPhrase handler us) (hf : FinalPhrase finalizer vs)
    (hsome : (handler.isNone && finalizer.isNone) = false)
    (hn : ts.length + us.length + vs.length ≤ n) (hcatch : rest.head? ≠ some (.keyword .catch_))
    (hfinally : rest.head? ≠ some (.keyword .finally_)) :
    Reads (tryStmt stmt pat) (.keyword .try_ :: (inBraces ts ++ (us ++ vs))) rest
      fun s' => s'.bare = (Stmt.try_ s body handler finalizer).bare := by
  have hnext : (vs ++ rest).head? ≠ some (.keyword .catch_) := by
    cases hf with
    | none => exact hcatch
    | some => simp
  unfold tryStmt
  refine Reads.check (Q := fun r => r.1.map Stmt.bare = body.map Stmt.bare
    ∧ CatchClause.bareOption r.2.1 = CatchClause.bareOption handler
    ∧ Stmt.bareFinal r.2.2 = Stmt.bareFinal finalizer) (Reads.bind_cons Reads.keyword fun _ _ => ?_) ?_
  · refine Reads.bind (block_reads hr hb (by omega)) fun body' hbody => ?_
    refine Reads.bind (catchClause_reads hr hh (by omega) hnext) fun handler' hhandler => ?_
    refine Reads.bind_last (finalizer_reads hr hf (by omega) hfinally) fun final' hfinal => ?_
    exact Reads.pure ⟨hbody, hhandler, hfinal⟩
  · rintro ⟨body', handler', final'⟩ s' ⟨hbody, hhandler, hfinal⟩
    simp only at hbody hhandler hfinal
    -- the parts that are there are those that were there
    have hnone : (handler'.isNone && final'.isNone) = false := by
      rw [← hsome]
      congr 1
      · cases handler' with
        | none => cases handler with
          | none => rfl
          | some c => cases c; cases hhandler
        | some c' => cases handler with
          | none => cases c'; cases hhandler
          | some c => rfl
      · cases final' <;> cases finalizer <;> first | rfl | cases hfinal
    refine ⟨.try_ s' body' handler' final', by simp [hnone], ?_⟩
    simp [Stmt.bare, hbody, hhandler, hfinal]

theorem jump_reads {k : Keyword} {label : Option String} :
    Reads (jump k) (.keyword k :: (nameTokens label ++ [.mark .semicolon])) rest fun r => r.2 = label := by
  refine Reads.spanned (Q := (· = label)) (Reads.bind_cons Reads.keyword fun _ _ => ?_)
  refine Reads.bind (maybe_name_reads (by simp)) ?_
  rintro _ rfl
  exact Reads.bind_last semicolon_reads fun _ _ => Reads.pure rfl

theorem functionDecl_reads (hr : Ready n expr stmt pat) {s : Span} {f : Func} (rest : List Token)
    (hname : f.name.isSome = true) (h : FuncPhrase f ts) (hn : ts.length ≤ n + 1) :
    Reads (functionDecl expr stmt pat) ts rest fun s' => s'.bare = (Stmt.function s f).bare := by
  cases h with
  | @mk m ps ss us vs hs hb =>
    obtain ⟨m, rfl⟩ := Option.isSome_iff_exists.1 hname
    simp only [enclosed, List.length_cons, List.length_append] at hn
    refine Reads.spanned_bind (Q := fun g => g.bare = (⟨some m, ps, .block ss, false⟩ : Func).bare)
      (Reads.bind_cons Reads.keyword fun _ _ => Reads.bind name_reads ?_) ?_
    · rintro _ rfl
      refine functionRest_reads hr hs hb (by omega) fun ps' ss' hps hss => ?_
      exact Reads.pure (by simp [Func.bare, FuncBody.bare, hps, hss])
    · intro s' g hg
      exact Reads.pure (by simp [Stmt.bare, hg])

theorem exprStmt_reads (hr : Ready n expr stmt pat) {s : Span} {e : Expr} (rest : List Token)
    (h : Phrase .lowest e ts) (hn : ts.length ≤ n) :
    Reads (exprStmt expr) (ts ++ [.mark .semicolon]) rest fun s' => s'.bare = (Stmt.expr s e).bare := by
  refine Reads.spanned_bind (Q := fun e' => e'.bare = e.bare)
    (Reads.bind (hr.readsExpr h hn (Follows.of_end rfl)) fun e' he => ?_) ?_
  · exact Reads.bind_last semicolon_reads fun _ _ => Reads.pure he
  · intro s' e' he
    exact Reads.pure (by simp [he])

/-! ### Rules that begin alike -/

/-- An expression statement is no labelled statement. -/
theorem labeledStmt_refuses (hr : Ready n expr stmt pat) {e : Expr} (rest : List Token)
    (h : Phrase .lowest e ts) (hn : ts.length ≤ n) (hcolon : rest.head? ≠ some (.mark .colon)) :
    Refuses (labeledStmt stmt) (ts ++ rest) := by
  refine Refuses.bind (Refuses.spanned ?_)
  rcases Phrase.lead_or_arrow hr h (by omega) with hl | hparen
  · refine Refuses.bind_unit name_unit hl fun _ ws hw => ?_
    exact Refuses.bind (Refuses.mark (hw.head_ne (by rintro m h; cases h; exact .inr rfl) hcolon))
  · refine Refuses.bind (name_refuses fun m hm => ?_)
    rw [List.head?_append, hparen] at hm
    cases hm

/-- The first declared pattern of a declaration, and a mark after it. -/
theorem DeclPhrase.split {d : VarDecl} (h : DeclPhrase d ts) (rest : List Token) :
    ∃ (kind : DeclKind) (q : Pattern) (us : List Token),
      ts = .keyword kind.keyword :: (q.tokens ++ us) ∧
        ∀ k, (us ++ .mark .semicolon :: rest).head? ≠ some (.keyword k) := by
  cases h with
  | @mk s kind ds us hne h =>
    cases h with
    | nil => exact absurd rfl hne
    | cons hd more =>
      cases hd with
      | @mk q init vs hi =>
        refine ⟨kind, q, _, by rw [List.append_assoc], ?_⟩
        intro k
        cases hi with
        | some => simp
        | none => cases more <;> simp

/-- A loop with three clauses is no loop over items. -/
theorem forEachStmt_refuses (hr : Ready n expr stmt pat) {init : Option ForInit}
    (hi : ForInitPhrase init ts) (hn : ts.length ≤ n) :
    Refuses (forEachStmt expr stmt pat)
      (.keyword .for_ :: .mark .leftParen :: (ts ++ .mark .semicolon :: rest)) := by
  refine Refuses.bind (Refuses.spanned (Refuses.bind_cons Reads.keyword fun _ _ => ?_))
  refine Refuses.bind (Refuses.bind_cons Reads.mark fun _ _ => Refuses.bind ?_)
  cases hi with
  | none =>
    refine Refuses.bind_nil (declKind_reads (d := none) (by simp [startsDecl])) fun _ _ => ?_
    exact Refuses.bind (hr.refusesPat (by simp [startsPattern]))
  | decl h =>
    obtain ⟨kind, q, us, rfl, hnext⟩ := DeclPhrase.split h rest
    simp only [List.length_cons, List.length_append] at hn
    rw [List.cons_append, List.append_assoc]
    refine Refuses.bind_cons (declKind_reads (d := some kind) ?_) fun _ _ => ?_
    · obtain ⟨t, vs, hq, ht⟩ := Pattern.head_tokens q
      rw [hq]
      rintro _ ⟨⟩
      cases t <;> first | rfl | cases ht
    · exact Refuses.bind_right (hr.readsPat (by omega)) fun _ _ => Refuses.bind (iterKind_refuses hnext)
  | expr h =>
    have hdecl : ∀ t, (ts ++ .mark .semicolon :: rest).head? = some t → startsDecl t = false := by
      obtain ⟨t, us, rfl, ht⟩ := h.head
      rintro _ ⟨⟩
      exact startsDecl_eq_false ht.1
    refine Refuses.bind_nil (declKind_reads (d := none) hdecl) fun _ _ => ?_
    rcases Phrase.lead_or_arrow hr h (by omega) with hl | hparen
    · refine Refuses.bind_unit hr.unitPat hl fun _ ws hw => Refuses.bind (iterKind_refuses fun k => ?_)
      exact hw.head_ne (by simp) (by simp)
    · refine Refuses.bind (hr.refusesPat fun t ht => ?_)
      rw [List.head?_append, hparen] at ht
      cases ht
      rfl

/-! ### All statements together -/

/-- **Every sentence is read back** as the statement it is, up to spans. -/
theorem stmtRule_reads (hr : Ready n expr stmt pat) {s : Stmt} (h : Sentence s ts)
    (hn : ts.length ≤ n + 1) (he : Ends s rest) :
    Reads (stmtRule expr stmt pat) ts rest fun s' => s'.bare = s.bare := by
  obtain ⟨helse, hcatch, hfinally⟩ := he
  -- a statement that ends another may be followed by what follows that
  have last : ∀ {body : Stmt}, (body.endsOpen = true → s.endsOpen = true) → Ends body rest :=
    fun h => ⟨fun hb => helse (h hb), hcatch, hfinally⟩
  cases h with
  | @expr sp e us h hb =>
    simp only [List.length_append, List.length_singleton] at hn
    have hlabel := labeledStmt_refuses hr (.mark .semicolon :: rest) h (by omega) (by simp)
    have hread := exprStmt_reads hr (s := sp) rest h (by omega)
    obtain ⟨t, vs, rfl, ht⟩ := h.head
    refine stmtRule_reads_at hr (i := 14) rfl ?_ hread
    -- only labels begin with tokens an expression statement begins with
    intro r hmem hst
    simp only [stmtRules, List.take_succ_cons, List.take_zero, List.mem_cons, List.not_mem_nil,
      or_false] at hmem
    rcases hmem with rfl | rfl | rfl | rfl | rfl | rfl | rfl | rfl | rfl | rfl | rfl | rfl | rfl | rfl
    · exact absurd ((startsDecl_eq_false ht.1).symm.trans hst) (by decide)
    · rw [eq_of_beq hst] at hb
      cases hb
    · rw [eq_of_beq hst] at hb
      cases hb
    all_goals first
      | (have hst := eq_of_beq hst; subst hst; cases ht.1)
      | simpa using hlabel
  | @decl d us h =>
    simp only [List.length_append, List.length_singleton] at hn
    have hread : Reads (varStmt expr pat) (us ++ [.mark .semicolon]) rest
        fun s' => s'.bare = (Stmt.decl d).bare := by
      refine Reads.bind (varDecl_reads hr h (by omega)) fun d' hd => ?_
      exact Reads.bind_last semicolon_reads fun _ _ => Reads.pure (by simp [Stmt.bare, hd])
    cases h with
    | mk hne h => exact stmtRule_reads_at hr (i := 0) rfl (by simp) hread
  | @function sp f us hname h =>
    have hread := functionDecl_reads hr (s := sp) rest hname h hn
    cases h with
    | mk => exact stmtRule_reads_at hr (i := 1) rfl (skip_rules rfl) hread
  | @return_ sp e us h =>
    simp only [List.length_cons, List.length_append] at hn
    refine stmtRule_reads_at hr (i := 3) rfl (skip_rules rfl) (Reads.spanned_bind
      (Q := fun o => o.map Expr.bare = e.map Expr.bare) (Reads.bind_cons Reads.keyword fun _ _ => ?_) ?_)
    · refine Reads.bind (clause_reads hr h (by omega) rfl rfl) fun e' he => ?_
      exact Reads.bind_last semicolon_reads fun _ _ => Reads.pure he
    · intro s' e' he
      exact Reads.pure (by simpa [Stmt.bare] using he)
  | if_ ht hy =>
    simp only [enclosed, List.length_cons, List.length_append] at hn
    exact stmtRule_reads_at hr (i := 4) rfl (skip_rules rfl)
      (ifStmt_reads hr ht hy (by omega) (helse rfl) (last fun _ => rfl))
  | ifElse ht hy hc hno =>
    simp only [enclosed, List.length_cons, List.length_append] at hn
    exact stmtRule_reads_at hr (i := 4) rfl (skip_rules rfl)
      (ifElseStmt_reads hr ht hy hc hno (by omega) (last fun h => h))
  | @for_ sp init test update body is ts us bs hi ht hu hb =>
    simp only [enclosed, List.length_cons, List.length_append] at hn
    refine stmtRule_reads_at hr (i := 6) rfl ?_
      (forStmt_reads hr hi ht hu hb (by omega) (last fun h => h))
    intro r hmem hst
    simp only [stmtRules, List.take_succ_cons, List.take_zero, List.mem_cons, List.not_mem_nil,
      or_false] at hmem
    rcases hmem with rfl | rfl | rfl | rfl | rfl | rfl
    case inr.inr.inr.inr.inr =>
      simpa [enclosed] using forEachStmt_refuses hr hi (by omega)
    all_goals cases hst
  | forEach hs hb =>
    simp only [enclosed, List.length_cons, List.length_append] at hn
    exact stmtRule_reads_at hr (i := 5) rfl (skip_rules rfl)
      (forEachStmt_reads hr hs hb (by omega) (last fun h => h))
  | @while_ sp test body us vs ht hb =>
    simp only [enclosed, List.length_cons, List.length_append] at hn
    refine stmtRule_reads_at hr (i := 7) rfl (skip_rules rfl) (Reads.spanned_bind
      (Q := fun r => r.1.bare = test.bare ∧ r.2.bare = body.bare)
      (Reads.bind_cons Reads.keyword fun _ _ => ?_) ?_)
    · refine Reads.bind (parens_reads hr ht (by omega)) fun test' htest => ?_
      refine Reads.bind_last (hr.readsStmt hb (by omega) (last fun h => h)) fun body' hbody => ?_
      exact Reads.pure ⟨htest, hbody⟩
    · rintro s' ⟨test', body'⟩ ⟨htest, hbody⟩
      simp only at htest hbody
      exact Reads.pure (by simp [Stmt.bare, htest, hbody])
  | break_ =>
    refine stmtRule_reads_at hr (i := 8) rfl (skip_rules rfl) (Reads.bind_last jump_reads ?_)
    rintro ⟨s', _⟩ rfl
    exact Reads.pure rfl
  | continue_ =>
    refine stmtRule_reads_at hr (i := 9) rfl (skip_rules rfl) (Reads.bind_last jump_reads ?_)
    rintro ⟨s', _⟩ rfl
    exact Reads.pure rfl
  | @labeled sp label body us hb =>
    simp only [List.length_cons] at hn
    refine stmtRule_reads_at hr (i := 12) rfl (skip_rules rfl) (Reads.spanned_bind
      (Q := fun r => r.1 = label ∧ r.2.bare = body.bare) (Reads.bind_cons name_reads ?_) ?_)
    · rintro _ rfl
      refine Reads.bind_cons Reads.mark fun _ _ => ?_
      refine Reads.bind_last (hr.readsStmt hb (by omega) (last fun h => h)) fun body' hbody => ?_
      exact Reads.pure ⟨rfl, hbody⟩
    · rintro s' ⟨_, body'⟩ ⟨rfl, hbody⟩
      simp only at hbody
      exact Reads.pure (by simp [Stmt.bare, hbody])
  | @throw_ sp e us h =>
    simp only [List.length_cons, List.length_append] at hn
    refine stmtRule_reads_at hr (i := 10) rfl (skip_rules rfl) (Reads.spanned_bind
      (Q := fun e' => e'.bare = e.bare) (Reads.bind_cons Reads.keyword fun _ _ => ?_) ?_)
    · refine Reads.bind (hr.readsExpr h (by omega) (Follows.of_end rfl)) fun e' he => ?_
      exact Reads.bind_last semicolon_reads fun _ _ => Reads.pure he
    · intro s' e' he
      exact Reads.pure (by simp [Stmt.bare, he])
  | try_ hb hh hf hsome =>
    simp only [enclosed, List.length_cons, List.length_append] at hn
    exact stmtRule_reads_at hr (i := 11) rfl (skip_rules rfl)
      (tryStmt_reads hr hb hh hf hsome (by omega) hcatch hfinally)
  | block h =>
    simp only [enclosed, List.length_cons, List.length_append] at hn
    refine stmtRule_reads_at hr (i := 2) rfl (skip_rules rfl)
      (Reads.spanned_bind (block_reads hr h (by omega)) fun s' ss hss => ?_)
    exact Reads.pure (by simp [Stmt.bare, hss])
  | empty =>
    exact stmtRule_reads_at hr (i := 13) rfl (skip_rules rfl)
      (Reads.spanned_bind Reads.mark fun s' _ _ => Reads.pure rfl)

end Staging.Grammar
