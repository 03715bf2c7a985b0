import Staging.Proofs.Grammar.Atoms

/-!
Phrases are read back at every level.

`Phrase.reads` says: if the parsers inside it read everything of up to `n` tokens, the rule for
expressions reads phrases of up to `n + 1` tokens, at every level of binding strength and before
everything that may follow at this level. The induction is on the number of tokens. Each kind of
expression is read at the level it belongs to, as an open reading; `OpenReads.lower` then takes it to the
level that was asked for. On this way lies the choice between arrows and everything else: `Phrase.lead`
says that no other phrase begins with a unit that an arrow follows.
-/

namespace Staging.Grammar

open Staging.Parser

variable {n : Nat} {expr : Parser Expr} {stmt : Parser Stmt} {pat : Parser Pattern}
  {ts us rest : List Token} {p q : Precedence} {e : Expr}

/-! ### No phrase but an arrow begins like one -/

theorem Continues.of_mark {m : Mark} (hm : m ≠ .arrow) (hr : m.reach.isSome = true) :
    Continues (.mark m :: ts) := by
  intro t ht
  cases ht
  exact ⟨m, rfl, hm, hr⟩

theorem Lead.of_unit (h : TokenUnit ts) : Lead ts := by
  have hl : Lead (ts ++ []) := Lead.unit h fun t ht => by cases ht
  rwa [List.append_nil] at hl

theorem continues_link {k : Key} {optional : Bool} (h : LinkPhrase k optional ts) :
    ts ≠ [] ∧ Continues ts := by
  cases h <;> exact ⟨by simp [enclosed], Continues.of_mark (by decide) rfl⟩

theorem continues_arguments {optional : Bool} :
    tokenIf optional (.mark .questionDot) ++ inParens ts ≠ []
      ∧ Continues (tokenIf optional (.mark .questionDot) ++ inParens ts) := by
  cases optional <;> exact ⟨by simp [enclosed], Continues.of_mark (by decide) rfl⟩

theorem Phrase.lead (hr : Ready n expr stmt pat) : ∀ (k : Nat) {p : Precedence} {e : Expr}
    {ts : List Token}, Phrase p e ts → .assignment < p → ts.length ≤ k → k ≤ n + 1 → Lead ts
  | k, p, e, ts, h, hp, hk, hkn => by
    -- the phrase on the left is shorter, and what follows it extends it
    have left : ∀ {q a us vs}, Phrase q a us → .assignment < q → vs ≠ [] ∧ Continues vs →
        (us ++ vs).length ≤ k → Lead (us ++ vs) := by
      rintro q a us vs ha hq ⟨hne, hv⟩ hlen
      have := List.length_pos_iff.2 hne
      rw [List.length_append] at hlen
      obtain ⟨m, rfl⟩ : ∃ m, k = m + 1 := ⟨k - 1, by omega⟩
      exact (Phrase.lead hr m ha hq (by omega) (by omega)).append hv
    have mark : ∀ {m : Mark} {us : List Token}, m ≠ .arrow → m.reach.isSome = true →
        Token.mark m :: us ≠ [] ∧ Continues (.mark m :: us) :=
      fun h₁ h₂ => ⟨by simp, Continues.of_mark h₁ h₂⟩
    cases h with
    | parens h =>
      simp only [enclosed, List.length_cons, List.length_append] at hk
      have inner := hr.readsExpr h (by omega) (Follows.of_end rfl : Follows .lowest [.mark .rightParen])
      exact Lead.of_unit (.group .paren (inner.balanced hr.evenExpr))
    | @literal _ s v v' t ht hv =>
      refine Lead.token ?_ ?_
      · rintro m rfl
        cases ht
      · cases t with
        | mark m => cases ht
        | _ => rfl
    | ident => exact Lead.of_unit .name
    | array h =>
      simp only [enclosed, List.length_cons, List.length_append] at hk
      have inner : Reads _ _ [.mark .rightBracket] _ :=
        exprItems_reads hr rfl rfl (by decide) h (by omega)
      exact Lead.of_unit (.group .square (inner.balanced hr.evenExpr.separatedTrailing))
    | object h =>
      simp only [enclosed, List.length_cons, List.length_append] at hk
      have inner : Reads _ _ [.mark .rightBrace] _ := properties_reads hr h (by omega)
      exact Lead.of_unit (.group .brace (inner.balanced (property_even hr.evenExpr).separatedTrailing))
    | function h =>
      cases h with
      | mk => exact Lead.token (by simp) rfl
    | arrow hp' => exact absurd hp (Nat.not_lt_of_le hp')
    | @unary _ s op => exact Lead.token (by cases op <;> simp [UnaryOp.token]) (by cases op <;> rfl)
    | @before _ s op => exact Lead.token (by simp) (by cases op <;> rfl)
    | @after _ s op e us hp' h =>
      exact left h (by decide) (mark (by cases op <;> decide) (by cases op <;> rfl)) hk
    | @binary _ s op a b us vs hop hp' ha hb =>
      exact left ha (Precedence.lt_of_lt_of_le hp hp')
        (mark (by cases op <;> decide) (by cases op <;> rfl)) hk
    | power hp' ha hb => exact left ha (by decide) (mark (by decide) rfl) hk
    | assign hp' => exact absurd hp (Nat.not_lt_of_le hp')
    | cond hp' ha hb hc => exact left ha (by decide) (mark (by decide) rfl) hk
    | member hp' ho hk' => exact left ho (by decide) (continues_link hk') hk
    | call hp' hc ha => exact left hc (by decide) continues_arguments hk
    | new => exact Lead.token (by simp) rfl

/-- A phrase in any place: an arrow, or something that does not begin like one. -/
theorem Phrase.lead_or_arrow (hr : Ready n expr stmt pat) (h : Phrase p e ts) (hn : ts.length ≤ n + 1) :
    Lead ts ∨ ts.head? = some (.mark .leftParen) := by
  have lead : ∀ {q}, Phrase q e ts → .assignment < q → Lead ts :=
    fun h hq => Phrase.lead hr _ h hq (Nat.le_refl _) hn
  cases h with
  | parens h => exact .inl (lead (.parens (p := .primary) h) (by decide))
  | literal ht hv => exact .inl (lead (.literal (p := .primary) ht hv) (by decide))
  | ident => exact .inl (Lead.of_unit .name)
  | array h => exact .inl (lead (.array (p := .primary) h) (by decide))
  | object h => exact .inl (lead (.object (p := .primary) h) (by decide))
  | function h => exact .inl (lead (.function (p := .primary) h) (by decide))
  | arrow => exact .inr rfl
  | unary hp h => exact .inl (lead (.unary (Precedence.le_refl _) h) (by decide))
  | before hp h => exact .inl (lead (.before (Precedence.le_refl _) h) (by decide))
  | after hp h => exact .inl (lead (.after (Precedence.le_refl _) h) (by decide))
  | @binary _ s op a b us vs hop hp ha hb =>
    exact .inl (lead (.binary hop (Precedence.le_refl _) ha hb) (by cases op <;> decide))
  | power hp ha hb => exact .inl (lead (.power (Precedence.le_refl _) ha hb) (by decide))
  | @assign _ s op a b us vs hp hasg ha hb =>
    rw [List.length_append] at hn
    refine .inl ((Phrase.lead hr _ ha (by decide) (Nat.le_refl _) (by omega)).append ?_)
    exact Continues.of_mark (by cases op <;> decide) (by cases op <;> rfl)
  | cond hp ha hb hc => exact .inl (lead (.cond (Precedence.le_refl _) ha hb hc) (by decide))
  | member hp ho hk => exact .inl (lead (.member (Precedence.le_refl _) ho hk) (by decide))
  | call hp hc ha => exact .inl (lead (.call (Precedence.le_refl _) hc ha) (by decide))
  | new hp hc ha => exact .inl (lead (.new (Precedence.le_refl _) hc ha) (by decide))

theorem parameters_unit (hr : Ready n expr stmt pat) :
    Gives (fun _ => True) (orElse
      (do let (span, n) ← spanned name; return [(⟨span, .name n, none, false⟩ : Param)])
      (params expr pat)) fun ts _ => TokenUnit ts := by
  refine Gives.orElse ?_ ?_
  · refine Gives.bind (P := fun ts _ => TokenUnit ts) (name_unit.spanned fun _ _ _ h => h) ?_
    exact fun ts r h => Gives.pure (by simpa using h)
  · refine Gives.between (Even.separatedTrailing ?_) fun ts _ h => .group .paren h
    refine Even.bind (Even.spanned ?_) fun _ => Even.pure
    exact (Even.mark rfl).maybe.bind fun _ => hr.evenPat.bind fun _ =>
      (initializer_even hr.evenExpr).bind fun _ => Even.pure

theorem arrow_refuses (hr : Ready n expr stmt pat) (hl : Lead ts)
    (hrest : rest.head? ≠ some (.mark .arrow)) : Refuses (arrow expr stmt pat) (ts ++ rest) := by
  refine Refuses.bind (Refuses.spanned (Refuses.bind_unit (parameters_unit hr) hl ?_))
  intro ps ws hw
  exact Refuses.bind (Refuses.mark (hw.head_ne (by rintro m h; cases h; exact .inl rfl) hrest))

/-! ### The levels one by one -/

theorem operator_reads {α : Type} {m : Mark} {op : α} : Reads (operator m op) [.mark m] rest (· = op) :=
  Reads.bind_last Reads.mark fun _ _ => Reads.pure rfl

theorem operatorsAt_reads {op : BinaryOp} (hop : op ≠ .pow) :
    Reads (operatorsAt op.precedence) [.mark op.mark] rest (· = op) := by
  have skip : ∀ {m m' : Mark} {o : BinaryOp}, m ≠ m' →
      Refuses (operator m o) ([.mark m'] ++ rest) := fun h => operator_refuses (by simpa using Ne.symm h)
  cases op with
  | pow => exact absurd rfl hop
  | and | or | nullish => exact operator_reads
  | add => exact Reads.orElse_left operator_reads
  | sub => exact Reads.orElse_right (skip (by decide)) operator_reads
  | mul | le | strictEq => exact Reads.choice [] (by simp) operator_reads
  | div | ge | strictNotEq =>
    refine Reads.choice [_] ?_ operator_reads
    intro r hr
    obtain rfl := List.mem_singleton.1 hr
    exact skip (by decide)
  | mod | lt | eq =>
    refine Reads.choice [_, _] ?_ operator_reads
    intro r hr
    simp only [List.mem_cons, List.not_mem_nil, or_false] at hr
    rcases hr with rfl | rfl <;> exact skip (by decide)
  | gt | notEq =>
    refine Reads.choice [_, _, _] ?_ operator_reads
    intro r hr
    simp only [List.mem_cons, List.not_mem_nil, or_false] at hr
    rcases hr with rfl | rfl | rfl <;> exact skip (by decide)

theorem sign_reads_unary {op : UnaryOp} : Reads sign [op.token] rest fun r => r.2 = .unary op := by
  have skip : ∀ {m : Mark} {t : Token} {o : Sign}, t ≠ .mark m → Refuses (operator m o) ([t] ++ rest) :=
    fun h => operator_refuses (by simpa using h)
  refine Reads.spanned (Q := (· = Sign.unary op)) ?_
  cases op with
  | not => exact Reads.choice [] (by simp) operator_reads
  | neg =>
    refine Reads.choice [_] ?_ operator_reads
    intro r hr
    obtain rfl := List.mem_singleton.1 hr
    exact skip (by decide)
  | plus =>
    refine Reads.choice [_, _] ?_ operator_reads
    intro r hr
    simp only [List.mem_cons, List.not_mem_nil, or_false] at hr
    rcases hr with rfl | rfl <;> exact skip (by decide)
  | typeof =>
    refine Reads.choice [_, _, _] ?_
      (Reads.bind_last Reads.keyword fun _ _ => Reads.pure rfl)
    intro r hr
    simp only [List.mem_cons, List.not_mem_nil, or_false] at hr
    rcases hr with rfl | rfl | rfl <;> exact skip (by decide)

theorem sign_reads_update {op : UpdateOp} :
    Reads sign [.mark op.mark] rest fun r => r.2 = .update op := by
  have skip : ∀ {m m' : Mark} {o : Sign}, m ≠ m' → Refuses (operator m o) ([.mark m'] ++ rest) :=
    fun h => operator_refuses (by simpa using Ne.symm h)
  refine Reads.spanned (Q := (· = Sign.update op)) ?_
  cases op with
  | increment =>
    refine Reads.choice [_, _, _, _] ?_ operator_reads
    intro r hr
    simp only [List.mem_cons, List.not_mem_nil, or_false] at hr
    rcases hr with rfl | rfl | rfl | rfl
    · exact skip (by decide)
    · exact skip (by decide)
    · exact skip (by decide)
    · exact Refuses.bind (Refuses.keyword (by simp))
  | decrement =>
    refine Reads.choice [_, _, _, _, _] ?_ operator_reads
    intro r hr
    simp only [List.mem_cons, List.not_mem_nil, or_false] at hr
    rcases hr with rfl | rfl | rfl | rfl | rfl
    · exact skip (by decide)
    · exact skip (by decide)
    · exact skip (by decide)
    · exact Refuses.bind (Refuses.keyword (by simp))
    · exact skip (by decide)

/-- One more sign before a signed operand. -/
theorem SignedReads.cons {operand : Parser Expr} {t : Token} {Q Q' : Expr → Prop}
    {S : Span × Sign → Prop} (hs : ∀ rest, Reads sign [t] rest S) (h : SignedReads operand ts rest Q)
    (hQ : ∀ s a, S s → Q a → Q' (applySign s a)) : SignedReads operand (t :: ts) rest Q' := by
  obtain ⟨us, vs, rfl, R, P, hsigns, hr, ho, hRP⟩ := h
  refine ⟨t :: us, vs, rfl, fun ss => ∀ a, P a → Q' (ss.foldr applySign a), P, ?_, hr, ho,
    fun ss a hss ha => hss a ha⟩
  refine Strides.cons (List.cons_ne_nil t []) (hs _) hsigns ?_
  intro s ss hs hss a ha
  exact hQ s _ hs (hRP ss a hss ha)

/-- At a level of operators that group to the left, an open reading is a row of operations. -/
theorem openReads_level {Q : Expr → Prop} (hp : .nullish ≤ p) (hp' : p ≤ .multiplicative) :
    OpenReads expr stmt pat p ts rest Q ↔
      Spread (parserAt expr stmt pat p.next) (operation (parserAt expr stmt pat p.next) (operatorsAt p))
        (fun first rest => rest.foldl (fun left r => binary r.1 left r.2) first) ts rest Q := by
  cases p with
  | nullish | logicalOr | logicalAnd | equality | relational | additive | multiplicative => exact Iff.rfl
  | lowest | assignment | conditional => exact absurd hp (by decide)
  | exponent | unary | postfix_ | call | primary => exact absurd hp' (by decide)

theorem openReads_exponent {Q : Expr → Prop} : OpenReads expr stmt pat .exponent ts rest Q ↔
    Spread (parserAt expr stmt pat .unary) (powerItem (parserAt expr stmt pat .unary)) powers ts rest Q :=
  Iff.rfl

theorem openReads_unary {Q : Expr → Prop} : OpenReads expr stmt pat .unary ts rest Q ↔
    SignedReads (parserAt expr stmt pat .postfix_) ts rest Q :=
  Iff.rfl

theorem openReads_call {Q : Expr → Prop} : OpenReads expr stmt pat .call ts rest Q ↔
    Spread (orElse (construction expr (parserAt expr stmt pat .primary)) (parserAt expr stmt pat .primary))
      (link expr) (fun root links => links.foldl applyLink root) ts rest Q :=
  Iff.rfl

theorem Follows.primary : Follows .primary rest := by
  intro m q _ hq
  cases m <;> cases hq <;> decide

theorem bare_binary {op : BinaryOp} {a b : Expr} :
    (binary op a b).bare = .binary nowhere op a.bare b.bare := by
  simp only [binary, Expr.bare]

theorem binary_spread {s : Span} {op : BinaryOp} {a b : Expr} (hop : op ≠ .pow)
    (ha : OpenReads expr stmt pat op.precedence ts (.mark op.mark :: us ++ rest) fun e => e.bare = a.bare)
    (hb : Reads (parserAt expr stmt pat op.precedence.next) us rest fun e => e.bare = b.bare) :
    OpenReads expr stmt pat op.precedence (ts ++ .mark op.mark :: us) rest
      fun e => e.bare = (Expr.binary s op a b).bare := by
  have hp : .nullish ≤ op.precedence ∧ op.precedence ≤ .multiplicative := by
    cases op <;> first | exact ⟨by decide, by decide⟩ | exact absurd rfl hop
  rw [openReads_level hp.1 hp.2] at ha ⊢
  refine Spread.extend (S := fun r => r.1 = op ∧ r.2.bare = b.bare) ha ?_ (by simp) ?_
  · refine Reads.bind_cons (operatorsAt_reads hop) ?_
    rintro _ rfl
    exact Reads.bind_last hb fun e he => Reads.pure ⟨rfl, he⟩
  · rintro first ⟨o, e⟩ row hrow ⟨rfl, he⟩
    rw [List.foldl_append]
    simp only [List.foldl_cons, List.foldl_nil, bare_binary, Expr.bare, hrow, he]

theorem power_spread {s : Span} {a b : Expr}
    (ha : Reads (parserAt expr stmt pat .unary) ts (.mark .starStar :: us ++ rest) fun e => e.bare = a.bare)
    (hb : OpenReads expr stmt pat .exponent us rest fun e => e.bare = b.bare) :
    OpenReads expr stmt pat .exponent (ts ++ .mark .starStar :: us) rest
      fun e => e.bare = (Expr.binary s .pow a b).bare := by
  rw [openReads_exponent] at hb ⊢
  refine Spread.prepend rfl ha hb ?_
  intro x y row hx hy
  simp only [powers, bare_binary, Expr.bare, hx, hy]

theorem afterUpdate_reads {s : Span} {op : UpdateOp}
    (h : Reads (parserAt expr stmt pat .call) ts (.mark op.mark :: rest) fun e' => e'.bare = e.bare) :
    Reads (parserAt expr stmt pat .postfix_) (ts ++ [.mark op.mark]) rest
      fun e' => e'.bare = (Expr.update s op false e).bare := by
  have update : Reads (orElse (operator .plusPlus .increment) (operator .minusMinus .decrement))
      [.mark op.mark] rest (· = op) := by
    cases op with
    | increment => exact Reads.orElse_left operator_reads
    | decrement => exact Reads.orElse_right (operator_refuses (by simp [UpdateOp.mark])) operator_reads
  rw [parserAt_eq_levelOver]
  refine Reads.bind h fun e' he => ?_
  refine Reads.bind_last (Reads.maybe_some update.spanned) ?_
  rintro _ ⟨⟨s', _⟩, rfl, rfl⟩
  exact Reads.pure (by simp [Expr.bare, he])

theorem cond_reads (hr : Ready n expr stmt pat) {s : Span} {a b c : Expr} {vs : List Token}
    (ha : Reads (parserAt expr stmt pat .nullish) ts
      (.mark .question :: (us ++ .mark .colon :: vs) ++ rest) fun e => e.bare = a.bare)
    (hb : Phrase .assignment b us) (hc : Phrase .assignment c vs)
    (hn : us.length + vs.length ≤ n) (hf : Follows .lowest rest) :
    Reads (parserAt expr stmt pat .conditional) (ts ++ .mark .question :: (us ++ .mark .colon :: vs)) rest
      fun e => e.bare = (Expr.cond s a b c).bare := by
  rw [parserAt_eq_levelOver]
  refine Reads.spanned_bind (Q := fun r => r.1.bare = a.bare ∧ ∃ yes no, r.2 = some (yes, no)
    ∧ yes.bare = b.bare ∧ no.bare = c.bare) (Reads.bind ha fun test htest => ?_) ?_
  · refine Reads.bind_last (Q := fun o => ∃ r, o = some r ∧ r.1.bare = b.bare ∧ r.2.bare = c.bare)
      (Reads.maybe_some (Reads.bind_cons Reads.mark fun _ _ => ?_)) ?_
    · refine Reads.bind (hr.readsAssignment hb (by omega) rfl) fun yes hyes => ?_
      refine Reads.bind_cons Reads.mark fun _ _ => ?_
      refine Reads.bind_last (hr.readsExpr (hc.weaken (by decide)) (by omega) hf) fun no hno => ?_
      exact Reads.pure ⟨hyes, hno⟩
    · rintro _ ⟨⟨yes, no⟩, rfl, hyes, hno⟩
      exact Reads.pure ⟨htest, yes, no, rfl, hyes, hno⟩
  · rintro s' ⟨test, _⟩ ⟨htest, yes, no, rfl, hyes, hno⟩
    exact Reads.pure (by simp only at htest; simp [Expr.bare, htest, hyes, hno])

theorem assign_reads (hr : Ready n expr stmt pat) {s : Span} {op : AssignOp} {a b : Expr}
    (hasg : a.isAssignable = true)
    (ha : Reads (parserAt expr stmt pat .nullish) ts (.mark op.mark :: us ++ rest) fun e => e.bare = a.bare)
    (hl : Lead ts) (hb : Phrase .assignment b us) (hn : us.length ≤ n) (hf : Follows .lowest rest) :
    Reads (parserAt expr stmt pat .assignment) (ts ++ .mark op.mark :: us) rest
      fun e => e.bare = (Expr.assign s op a b).bare := by
  have target : Reads (parserAt expr stmt pat .conditional) ts (.mark op.mark :: us ++ rest)
      fun e => e.bare = a.bare := by
    rw [parserAt_eq_levelOver]
    exact conditional_reads ha (by cases op <;> simp [AssignOp.mark])
  have lead : Lead (ts ++ .mark op.mark :: us) :=
    hl.append (Continues.of_mark (by cases op <;> decide) (by cases op <;> rfl))
  rw [parserAt_eq_levelOver]
  refine Reads.orElse_right (arrow_refuses hr lead (hf.head_ne rfl (by decide))) ?_
  refine Reads.check (Q := fun r => r.1.bare = a.bare ∧ ∃ v, r.2 = some (op, v) ∧ v.bare = b.bare)
    (Reads.bind target fun t ht => ?_) ?_
  · refine Reads.bind_last (Q := fun o => ∃ r, o = some r ∧ r.1 = op ∧ r.2.bare = b.bare)
      (Reads.maybe_some (Reads.bind_cons (Q := (· = op)) (Reads.accept (by cases op <;> rfl) rfl) ?_)) ?_
    · rintro _ rfl
      refine Reads.bind_last (hr.readsExpr (hb.weaken (by decide)) hn hf) fun v hv => ?_
      exact Reads.pure ⟨rfl, hv⟩
    · rintro _ ⟨⟨_, v⟩, rfl, rfl, hv⟩
      exact Reads.pure ⟨ht, v, rfl, hv⟩
  · rintro ⟨t, _⟩ s' ⟨ht, v, rfl, hv⟩
    have hta : t.isAssignable = true := (Expr.isAssignable_of_bare_eq ht).trans hasg
    refine ⟨.assign s' op t v, by simp [hta], ?_⟩
    simp only at ht
    simp [Expr.bare, ht, hv]

theorem arrowBody_reads (hr : Ready n expr stmt pat) {b : FuncBody} (h : ArrowBody b ts)
    (hn : ts.length ≤ n) (hf : Follows .lowest rest) :
    Reads (orElse (FuncBody.block <$> block stmt) (FuncBody.expr <$> expr)) ts rest
      fun b' => b'.bare = b.bare := by
  cases h with
  | block h =>
    simp only [enclosed, List.length_cons, List.length_append] at hn
    refine Reads.orElse_left (Reads.map (block_reads hr h (by omega)) fun ss hss => ?_)
    simp [FuncBody.bare, hss]
  | @expr e us h hne =>
    refine Reads.orElse_right (Refuses.map (Refuses.between ?_))
      (Reads.map (hr.readsExpr (h.weaken (by decide)) hn hf) fun e' he => ?_)
    · obtain ⟨t, vs, rfl, -⟩ := h.head
      exact hne
    · simp [FuncBody.bare, he]

theorem arrow_reads (hr : Ready n expr stmt pat) {s : Span} {ps : List Param} {b : FuncBody}
    (hs : Items ParamPhrase ps ts) (hb : ArrowBody b us) (hn : ts.length + us.length ≤ n)
    (hf : Follows .lowest rest) :
    Reads (parserAt expr stmt pat .assignment) (inParens ts ++ .mark .arrow :: us) rest
      fun e => e.bare = (Expr.function s ⟨none, ps, b, true⟩).bare := by
  rw [parserAt_eq_levelOver]
  refine Reads.orElse_left (Reads.spanned_bind
    (Q := fun g => g.bare = (⟨none, ps, b, true⟩ : Func).bare) ?_ ?_)
  · refine Reads.bind (Reads.orElse_right ?_ (params_reads hr hs (by omega))) fun ps' hps => ?_
    · exact Refuses.bind (Refuses.spanned (name_refuses (by simp [enclosed])))
    · refine Reads.bind_cons Reads.mark fun _ _ => ?_
      refine Reads.bind_last (arrowBody_reads hr hb (by omega) hf) fun b' hb' => ?_
      exact Reads.pure (by simp [Func.bare, hps, hb'])
  · intro s' g hg
    exact Reads.pure (by simp [Expr.bare, hg])

/-- What `new` is applied to, where its member accesses may still go on. -/
theorem callee_spread (hr : Ready n expr stmt pat) {k : Nat}
    (ih : ∀ {e : Expr} {us rest : List Token}, Phrase .primary e us → us.length ≤ k →
      Reads (parserAt expr stmt pat .primary) us rest fun e' => e'.bare = e.bare) (hkn : k ≤ n + 1) :
    ∀ (j : Nat) {c : Expr} {ts rest : List Token}, CalleePhrase c ts → ts.length ≤ j → j ≤ k →
      Spread (parserAt expr stmt pat .primary) (orElse dotLink (indexLink expr false))
        (fun root links => links.foldl applyLink root) ts rest fun e => e.bare = c.bare
  | j, c, ts, rest, h, hj, hjk => by
    cases h with
    | root h => exact Spread.start (ih h (by omega)) fun a ha => ha
    | @member s o key us vs ho hk =>
      have hpos := List.length_pos_iff.2 (continues_link hk).1
      rw [List.length_append] at hj
      obtain ⟨j, rfl⟩ : ∃ i, j = i + 1 := ⟨j - 1, by omega⟩
      refine Spread.extend (callee_spread hr ih hkn j ho (by omega) (by omega))
        (plainLink_reads hr hk (by omega)) (continues_link hk).1 ?_
      intro root l links hroot hl
      rw [List.foldl_append, List.foldl_cons, List.foldl_nil]
      exact hl.bare_applyLink hroot

theorem construction_reads (hr : Ready n expr stmt pat) {s : Span} {c : Expr} {args : List Expr}
    (hc : Spread (parserAt expr stmt pat .primary) (orElse dotLink (indexLink expr false))
      (fun root links => links.foldl applyLink root) ts (inParens us ++ rest) fun e => e.bare = c.bare)
    (ha : Items (Phrase .assignment) args us) (hn : us.length ≤ n) :
    Reads (construction expr (parserAt expr stmt pat .primary)) (.keyword .new :: (ts ++ inParens us)) rest
      fun e => e.bare = (Expr.new s c args).bare := by
  obtain ⟨vs, ws, rfl, P, R, hroot, hlinks, hPR⟩ := hc
  refine Reads.spanned_bind (Q := fun r => r.1.bare = c.bare ∧ ∃ as, r.2 = some as
    ∧ as.map Expr.bare = args.map Expr.bare) (Reads.bind_cons Reads.keyword fun _ _ => ?_) ?_
  · rw [← List.append_assoc] at hroot
    rw [List.append_assoc]
    refine Reads.bind hroot fun root hroot => ?_
    have stop : Refuses (orElse dotLink (indexLink expr false)) (inParens us ++ rest) :=
      Refuses.orElse (dotLink_refuses (by simp [enclosed])) (indexLink_refuses (by simp [enclosed]))
    refine Reads.bind (Reads.many hlinks stop) fun links hlinks => ?_
    refine Reads.bind_last (Reads.maybe_some (args_reads hr ha hn)) ?_
    rintro _ ⟨as, rfl, has⟩
    exact Reads.pure ⟨hPR root links hroot hlinks, as, rfl, has⟩
  · rintro s' ⟨c', _⟩ ⟨hc', as, rfl, has⟩
    exact Reads.pure (by simp only at hc'; simp [Expr.bare, hc', has])

/-! ### All levels together -/

/-- A phrase read at the level it belongs to is read at the looser level that is asked for. -/
theorem OpenReads.of_phrase (hr : Ready n expr stmt pat) (h : Phrase q e ts) (hn : ts.length ≤ n + 1)
    (hpq : p ≤ q) (hf : FollowsOpen p rest)
    (ho : FollowsOpen q rest → OpenReads expr stmt pat q ts rest fun e' => e'.bare = e.bare) :
    OpenReads expr stmt pat p ts rest fun e' => e'.bare = e.bare := by
  have follows : ∀ r, p ≤ r → FollowsOpen r rest := by
    intro r hpr
    rcases Nat.lt_or_eq_of_le hpr with hlt | heq
    · exact FollowsOpen.of_follows (hf.tighter hlt)
    · rwa [← Precedence.eq_of_rank heq]
  obtain ⟨t, us, rfl, ht⟩ := h.head
  refine OpenReads.lower hpq (fun r hpr hrq => ⟨follows r hpr, ?_, ?_, ?_⟩) (ho (follows q hpq))
  · rintro rfl t' ht'
    cases ht'
    exact ht.2.1 hrq
  · rintro rfl h
    exact ht.2.2 hrq (by simpa using h)
  · rintro rfl
    have hassign : Follows .assignment rest := follows .assignment hpr
    exact arrow_refuses hr (Phrase.lead hr _ h hrq (Nat.le_refl _) hn) (hassign.head_ne rfl (by decide))

theorem Phrase.openReads (hr : Ready n expr stmt pat) : ∀ (k : Nat) {p : Precedence} {e : Expr}
    {ts rest : List Token}, Phrase p e ts → ts.length ≤ k → k ≤ n + 1 → FollowsOpen p rest →
      OpenReads expr stmt pat p ts rest fun e' => e'.bare = e.bare
  | k, p, e, ts, rest, h, hk, hkn, hf => by
    have hn : ts.length ≤ n + 1 := Nat.le_trans hk hkn
    -- shorter phrases, as open readings and as closed ones
    have shorter : ∀ {q a us rest'}, Phrase q a us → us.length < k → FollowsOpen q rest' →
        OpenReads expr stmt pat q us rest' fun e' => e'.bare = a.bare := by
      intro q a us rest' ha hlt hf'
      obtain ⟨m, rfl⟩ : ∃ m, k = m + 1 := ⟨k - 1, by omega⟩
      exact Phrase.openReads hr m ha (by omega) (by omega) hf'
    have closed : ∀ {q a us rest'}, Phrase q a us → us.length < k → Follows q rest' →
        Reads (parserAt expr stmt pat q) us rest' fun e' => e'.bare = a.bare :=
      fun ha hlt hf' => (shorter ha hlt (FollowsOpen.of_follows hf')).close hf'
    have atom : ∀ {q : Precedence}, Phrase .primary e ts →
        Reads (Grammar.atom expr stmt pat) ts rest (fun e' => e'.bare = e.bare) →
        FollowsOpen q rest → OpenReads expr stmt pat q ts rest fun e' => e'.bare = e.bare := by
      intro q hprim hread hfq
      refine OpenReads.of_phrase hr hprim hn (Precedence.le_primary q) hfq fun _ => ?_
      show Reads (parserAt expr stmt pat .primary) ts rest _
      rw [parserAt_primary]
      exact hread
    cases h with
    | @parens _ _ us h =>
      simp only [enclosed, List.length_cons, List.length_append] at hk
      exact atom (.parens h) (atom_reads_parens (parens_reads hr h (by omega))) hf
    | literal ht hv => exact atom (.literal ht hv) (atom_reads_literal (literal_reads ht hv)) hf
    | ident => exact atom .ident (atom_reads_ident ident_reads) hf
    | array h =>
      simp only [enclosed, List.length_cons, List.length_append] at hk
      exact atom (.array h) (atom_reads_array (array_reads hr h (by omega))) hf
    | object h =>
      simp only [enclosed, List.length_cons, List.length_append] at hk
      exact atom (.object h) (atom_reads_object (object_reads hr h (by omega))) hf
    | function h =>
      refine atom (.function h) ?_ hf
      have : Reads _ _ rest _ := function_reads hr (s := nowhere) h hn
      cases h
      exact atom_reads_function (by simpa [Expr.bare] using this)
    | @arrow _ s ps b us vs hp hs hb =>
      refine OpenReads.of_phrase hr (.arrow (Precedence.le_refl _) hs hb) hn hp hf fun hfq => ?_
      simp only [enclosed, List.length_cons, List.length_append] at hk
      exact arrow_reads hr hs hb (by omega) (Follows.lowest (Follows.mono hfq (by decide)))
    | @unary _ s op a us hp ha =>
      refine OpenReads.of_phrase hr (.unary (Precedence.le_refl _) ha) hn hp hf fun hfq => ?_
      rw [openReads_unary]
      refine SignedReads.cons (fun _ => sign_reads_unary) (openReads_unary.1 (shorter ha hk hfq)) ?_
      rintro ⟨s', _⟩ e' rfl he
      simp only [applySign, Expr.bare, he]
    | @before _ s op a us hp ha =>
      refine OpenReads.of_phrase hr (.before (Precedence.le_refl _) ha) hn hp hf fun hfq => ?_
      rw [openReads_unary]
      refine SignedReads.cons (fun _ => sign_reads_update) (openReads_unary.1 (shorter ha hk hfq)) ?_
      rintro ⟨s', _⟩ e' rfl he
      simp only [applySign, Expr.bare, he]
    | @after _ s op a us hp ha =>
      refine OpenReads.of_phrase hr (.after (Precedence.le_refl _) ha) hn hp hf fun _ => ?_
      simp only [List.length_append, List.length_singleton] at hk
      exact afterUpdate_reads (closed ha (by omega)
        (Follows.of_mark fun q hq => by cases op <;> cases hq <;> decide))
    | @binary _ s op a b us vs hop hp ha hb =>
      refine OpenReads.of_phrase hr (.binary hop (Precedence.le_refl _) ha hb) hn hp hf fun hfq => ?_
      simp only [List.length_append, List.length_cons] at hk
      refine binary_spread hop (shorter ha (by omega) ?_) (closed hb (by omega) ?_)
      · cases op <;> first | exact absurd rfl hop | exact Follows.of_mark fun q hq => by cases hq; decide
      · cases op <;> first | exact absurd rfl hop | exact hfq
    | @power _ s a b us vs hp ha hb =>
      refine OpenReads.of_phrase hr (.power (Precedence.le_refl _) ha hb) hn hp hf fun hfq => ?_
      simp only [List.length_append, List.length_cons] at hk
      refine power_spread (closed ha (by omega) ?_) (shorter hb (by omega) hfq)
      exact Follows.of_mark fun q hq => by cases hq; decide
    | @assign _ s op a b us vs hp hasg ha hb =>
      refine OpenReads.of_phrase hr (.assign (Precedence.le_refl _) hasg ha hb) hn hp hf fun hfq => ?_
      simp only [List.length_append, List.length_cons] at hk
      refine assign_reads hr hasg (closed (ha.weaken (by decide)) (by omega) ?_)
        (Phrase.lead hr us.length ha (by decide) (Nat.le_refl _) (by omega)) hb (by omega)
        (Follows.lowest (Follows.mono hfq (by decide)))
      exact Follows.of_mark fun q hq => by cases op <;> cases hq <;> decide
    | @cond _ s a b c us vs ws hp ha hb hc =>
      refine OpenReads.of_phrase hr (.cond (Precedence.le_refl _) ha hb hc) hn hp hf fun hfq => ?_
      simp only [List.length_append, List.length_cons] at hk
      refine cond_reads hr (closed ha (by omega) ?_) hb hc (by omega) (Follows.lowest hfq)
      exact Follows.of_mark fun q hq => by cases hq; decide
    | @member _ s o key optional us vs hp ho hkey =>
      refine OpenReads.of_phrase hr (.member (Precedence.le_refl _) ho hkey) hn hp hf fun _ => ?_
      have hpos := List.length_pos_iff.2 (continues_link hkey).1
      rw [List.length_append] at hk
      rw [openReads_call]
      refine Spread.extend (openReads_call.1 (shorter ho (by omega) Follows.primary))
        (memberLink_reads hr hkey (by omega)) (continues_link hkey).1 ?_
      intro root l links hroot hl
      rw [List.foldl_append, List.foldl_cons, List.foldl_nil]
      exact hl.bare_applyLink hroot
    | @call _ s c args optional us vs hp hc ha =>
      refine OpenReads.of_phrase hr (.call (Precedence.le_refl _) hc ha) hn hp hf fun _ => ?_
      simp only [enclosed, List.length_append, List.length_cons] at hk
      rw [openReads_call]
      refine Spread.extend (openReads_call.1 (shorter hc (by omega) Follows.primary))
        (argumentsLink_reads hr ha (by omega)) continues_arguments.1 ?_
      rintro root l links hroot ⟨as, hl, has⟩
      rw [List.foldl_append, List.foldl_cons, List.foldl_nil]
      simp only [applyLink, hl, Expr.bare, hroot, has, Expr.bareAll_eq_map]
    | @new _ s c args us vs hp hc ha =>
      refine OpenReads.of_phrase hr (.new (Precedence.le_refl _) hc ha) hn hp hf fun _ => ?_
      simp only [enclosed, List.length_append, List.length_cons] at hk
      rw [openReads_call]
      refine Spread.start (Reads.orElse_left (construction_reads hr ?_ ha (by omega))) fun a ha => ha
      exact callee_spread hr (k := us.length)
        (fun ha hlt => closed ha (by omega) Follows.primary) (by omega) us.length hc (Nat.le_refl _)
        (Nat.le_refl _)

/-- **Every phrase is read back**: the parser of a level gives the tree again, up to spans. -/
theorem Phrase.reads (hr : Ready n expr stmt pat) (h : Phrase p e ts) (hn : ts.length ≤ n + 1)
    (hf : Follows p rest) : Reads (parserAt expr stmt pat p) ts rest fun e' => e'.bare = e.bare :=
  (Phrase.openReads hr ts.length h (Nat.le_refl _) hn (FollowsOpen.of_follows hf)).close hf

theorem exprRule_reads (hr : Ready n expr stmt pat) (h : Phrase .lowest e ts) (hn : ts.length ≤ n + 1)
    (hf : Follows .lowest rest) : Reads (exprRule expr stmt pat) ts rest fun e' => e'.bare = e.bare := by
  rw [← parserAt_lowest]
  exact Phrase.reads hr h hn hf

/-- Nothing is read where no expression begins. -/
theorem exprRule_refuses (h : ∀ t, ts.head? = some t → startsExpr t = false) :
    Refuses (exprRule expr stmt pat) ts := by
  have ne : ∀ {t}, startsExpr t = true → ts.head? ≠ some t := by
    intro t ht hts
    rw [h t hts] at ht
    cases ht
  have sign : Refuses sign ts := by
    refine sign_refuses fun t ht => ?_
    have := h t ht
    cases t with
    | keyword k => cases k <;> first | rfl | cases this
    | mark m => cases m <;> first | rfl | cases this
    | _ => rfl
  have atom : Refuses (atom expr stmt pat) ts := atom_refuses fun t ht => .inl (h t ht)
  have chain : Refuses (chain expr (Grammar.atom expr stmt pat)) ts :=
    Refuses.bind (Refuses.orElse
      (Refuses.bind (Refuses.spanned (Refuses.bind (Refuses.keyword (ne rfl))))) atom)
  have signed : Refuses (signed (postfixUpdate (Grammar.chain expr (Grammar.atom expr stmt pat)))) ts :=
    Refuses.bind_nil (Reads.many (Q := fun _ => True) (Strides.nil trivial) sign)
      fun _ _ => Refuses.bind (Refuses.bind chain)
  refine Refuses.orElse ?_ ?_
  · refine Refuses.bind (Refuses.spanned (Refuses.bind (Refuses.orElse ?_ ?_)))
    · exact Refuses.bind (Refuses.spanned (name_refuses fun m => ne rfl))
    · exact Refuses.between (ne rfl)
  · refine Refuses.check (Refuses.bind (Refuses.bind (Refuses.spanned (Refuses.bind ?_))))
    -- each level of operators begins with its first operand
    exact Refuses.bind (Refuses.bind (Refuses.bind (Refuses.bind (Refuses.bind (Refuses.bind
      (Refuses.bind (Refuses.bind signed)))))))

end Staging.Grammar
