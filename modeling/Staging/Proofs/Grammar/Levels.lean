import Staging.Proofs.Grammar.Follow

/-!
The levels of the expression grammar as one family.

`parserAt` gives the parser of every binding strength; each is built from the next tighter one, and the
loosest is the rule for expressions. Most levels read a first operand and then as many further items as
there are. `OpenReads` is a reading at such a level that may still go on: a phrase that is the left part of
a longer one has been read, but its level has not come to its end. `OpenReads.close` ends it where no
further item follows, and `OpenReads.lower` takes a reading at a tight level to all looser ones.
-/

namespace Staging

namespace Grammar

open Staging.Parser

/-- The operators of a level that groups to the left. -/
def operatorsAt : Precedence → Parser BinaryOp
  | .multiplicative => choice
    [operator .star .mul, operator .slash .div, operator .percent .mod]
  | .additive => orElse (operator .plus .add) (operator .minus .sub)
  | .relational => choice
    [operator .le .le, operator .ge .ge, operator .lt .lt, operator .gt .gt]
  | .equality => choice
    [operator .eqEqEq .strictEq, operator .notEqEq .strictNotEq, operator .eqEq .eq,
      operator .notEq .notEq]
  | .logicalAnd => operator .andAnd .and
  | .logicalOr => operator .orOr .or
  | _ => operator .questionQuestion .nullish

/-- What may follow the root of a chain. -/
def link (expr : Parser Expr) : Parser (Nat × Link) :=
  choice [dotLink, indexLink expr false, callLink expr false, optionalLink expr]

/-- An operator of a level and its right operand. -/
def operation (operand : Parser Expr) (op : Parser BinaryOp) : Parser (BinaryOp × Expr) := do
  let o ← op
  let e ← operand
  return (o, e)

/-- The operand of a power after its operator. -/
def powerItem (operand : Parser Expr) : Parser Expr := do
  mark .starStar
  operand

section Levels

variable (expr : Parser Expr) (stmt : Parser Stmt) (pat : Parser Pattern)

/-- The parser of a level, from that of the next tighter one. -/
def levelOver (p : Precedence) (operand : Parser Expr) : Parser Expr :=
  match p with
  | .lowest | .primary => operand
  | .assignment => orElse (arrow expr stmt pat) (assignment expr operand)
  | .conditional => conditional expr operand
  | .exponent => power operand
  | .unary => signed operand
  | .postfix_ => postfixUpdate operand
  | .call => chain expr operand
  | p => level operand (operatorsAt p)

/-- The parser of expressions that bind at least as tightly as the given level asks for. -/
def parserAt (p : Precedence) : Parser Expr :=
  (Precedence.all.drop p.rank).foldr (levelOver expr stmt pat) (atom expr stmt pat)

theorem parserAt_eq_levelOver (p : Precedence) :
    parserAt expr stmt pat p = levelOver expr stmt pat p (parserAt expr stmt pat p.next) := by
  cases p <;>
    simp only [parserAt, Precedence.all, Precedence.rank, Precedence.next, List.drop_zero,
      List.drop_succ_cons, List.foldr_cons, List.foldr_nil, levelOver]

theorem parserAt_primary : parserAt expr stmt pat .primary = atom expr stmt pat := by
  simp only [parserAt, Precedence.all, Precedence.rank, List.drop_zero, List.drop_succ_cons,
    List.foldr_cons, List.foldr_nil, levelOver]

theorem parserAt_lowest : parserAt expr stmt pat .lowest = exprRule expr stmt pat := by
  simp only [parserAt, Precedence.all, Precedence.rank, List.drop_zero, List.foldr_cons,
    List.foldr_nil, levelOver, exprRule, operators, operatorsAt]

attribute [irreducible] parserAt

end Levels

end Grammar

/-! ### Readings that may go on -/

section Spread

variable {α β γ : Type}

/-- A first reading and further items after it, where more items may be possible. -/
def Spread (first : Parser α) (item : Parser β) (fold : α → List β → γ) (ts rest : List Token)
    (Q : γ → Prop) : Prop :=
  ∃ us vs, ts = us ++ vs ∧ ∃ (P : α → Prop) (R : List β → Prop),
    Reads first us (vs ++ rest) P ∧ Strides item vs rest R ∧ ∀ a bs, P a → R bs → Q (fold a bs)

variable {first : Parser α} {item : Parser β} {fold : α → List β → γ} {ts us rest : List Token}
  {Q Q' : γ → Prop}

theorem Spread.start {P : α → Prop} (h : Reads first ts rest P) (hQ : ∀ a, P a → Q (fold a [])) :
    Spread first item fold ts rest Q := by
  refine ⟨ts, [], by simp, P, (· = []), h, Strides.nil rfl, ?_⟩
  rintro a _ ha rfl
  exact hQ a ha

/-- One more item at the end. -/
theorem Spread.extend {S : β → Prop} (h : Spread first item fold ts (us ++ rest) Q)
    (hi : Reads item us rest S) (hne : us ≠ [])
    (hQ : ∀ a b bs, Q (fold a bs) → S b → Q' (fold a (bs ++ [b]))) :
    Spread first item fold (ts ++ us) rest Q' := by
  obtain ⟨vs, ws, rfl, P, R, hf, hs, hPR⟩ := h
  refine ⟨vs, ws ++ us, by simp, P, fun cs => ∀ a, P a → Q' (fold a cs), by simpa using hf, ?_,
    fun a bs ha hbs => hbs a ha⟩
  refine Strides.snoc hne hs hi ?_
  intro b bs hbs hb a ha
  exact hQ a b bs (hPR a bs ha hbs) hb

/-- One more operand before what was read; the old first reading becomes an item. -/
theorem Spread.prepend {item : Parser α} {fold : α → List α → γ} {t : Token} {S : α → Prop}
    (hi : item = Parser.token t >>= fun _ => first) (hf : Reads first ts (t :: us ++ rest) S)
    (h : Spread first item fold us rest Q)
    (hQ : ∀ a b bs, S a → Q (fold b bs) → Q' (fold a (b :: bs))) :
    Spread first item fold (ts ++ t :: us) rest Q' := by
  obtain ⟨vs, ws, rfl, P, R, hr, hs, hPR⟩ := h
  refine ⟨ts, t :: (vs ++ ws), rfl, S, fun cs => ∀ a, S a → Q' (fold a cs), hf, ?_,
    fun a bs ha hbs => hbs a ha⟩
  have step : Reads item (t :: vs) (ws ++ rest) P := by
    rw [hi]
    exact Reads.bind_cons Reads.token fun _ _ => hr
  refine Strides.cons (List.cons_ne_nil t vs) step hs ?_
  intro b bs hb hbs a ha
  exact hQ a b bs ha (hPR b bs hb hbs)

/-- A repetition of items is over where the next item is refused. -/
theorem Spread.close (h : Spread first item fold ts rest Q) (hr : Refuses item rest) :
    Reads (first >>= fun a => Parser.many item >>= fun bs => pure (fold a bs)) ts rest Q := by
  obtain ⟨us, vs, rfl, P, R, hf, hs, hPR⟩ := h
  refine Reads.bind hf fun a ha => ?_
  refine Reads.bind_last (Reads.many hs hr) fun bs hbs => ?_
  exact Reads.pure (hPR a bs ha hbs)

end Spread

namespace Grammar

open Staging.Parser

section Open

variable {expr : Parser Expr} {stmt : Parser Stmt} {pat : Parser Pattern} {ts us rest : List Token}
  {p q : Precedence} {Q : Expr → Prop}

/-- Signs and then an operand that begins with none. -/
def SignedReads (operand : Parser Expr) (ts rest : List Token) (Q : Expr → Prop) : Prop :=
  ∃ us vs, ts = us ++ vs ∧ ∃ (R : List (Span × Sign) → Prop) (P : Expr → Prop),
    Strides sign us (vs ++ rest) R ∧ Refuses sign (vs ++ rest) ∧ Reads operand vs rest P
      ∧ ∀ ss a, R ss → P a → Q (ss.foldr applySign a)

variable (expr stmt pat) in
/-- A reading at a level that may still go on at this level. -/
def OpenReads (p : Precedence) (ts rest : List Token) (Q : Expr → Prop) : Prop :=
  let operand := parserAt expr stmt pat p.next
  match p with
  | .lowest | .assignment | .conditional | .postfix_ | .primary =>
    Reads (parserAt expr stmt pat p) ts rest Q
  | .unary => SignedReads operand ts rest Q
  | .call => Spread (orElse (construction expr operand) operand) (link expr)
      (fun root links => links.foldl applyLink root) ts rest Q
  | .exponent => Spread operand (powerItem operand) powers ts rest Q
  | p => Spread operand (operation operand (operatorsAt p))
      (fun first rest => rest.foldl (fun left r => binary r.1 left r.2) first) ts rest Q

/-- The tokens that may follow an open reading: those that may follow its last part. -/
def FollowsOpen (p : Precedence) (rest : List Token) : Prop :=
  match p with
  | .lowest | .assignment | .conditional | .postfix_ | .primary => Follows p rest
  | p => Follows p.next rest

theorem FollowsOpen.of_follows (h : Follows p rest) : FollowsOpen p rest := by
  cases p <;> first | exact h | exact h.mono (by decide)

/-- An open reading at a loose level ends where a tighter one does. -/
theorem FollowsOpen.tighter (h : FollowsOpen p rest) (hpq : p < q) : Follows q rest := by
  have hnext : Follows p.next rest := by
    cases p <;> first | exact h | exact Follows.mono h (by decide)
  exact hnext.mono (Precedence.next_le_of_lt hpq)

theorem operator_refuses {α : Type} {m : Mark} {op : α} (h : rest.head? ≠ some (.mark m)) :
    Refuses (operator m op) rest :=
  Refuses.bind (Refuses.mark h)

theorem operatorsAt_refuses (hp : .nullish ≤ p) (hp' : p ≤ .multiplicative) (h : Follows p rest) :
    Refuses (operatorsAt p) rest := by
  have key : ∀ {m : Mark} {op : BinaryOp}, m.reach = some p → Refuses (operator m op) rest :=
    fun hm => operator_refuses (h.head_ne hm (Nat.lt_irrefl _))
  cases p with
  | nullish | logicalOr | logicalAnd => exact key rfl
  | additive => exact Refuses.orElse (key rfl) (key rfl)
  | equality | relational | multiplicative =>
    refine Refuses.choice fun r hr => ?_
    simp only [List.mem_cons, List.not_mem_nil, or_false] at hr
    rcases hr with rfl | rfl | rfl | rfl <;> exact key rfl
  | lowest | assignment | conditional => exact absurd hp (by decide)
  | exponent | unary | postfix_ | call | primary => exact absurd hp' (by decide)

theorem link_refuses (h : Follows .call rest) : Refuses (link expr) rest := by
  have ne : ∀ {m : Mark}, m.reach = some .call → rest.head? ≠ some (.mark m) :=
    fun hm => h.head_ne hm (Nat.lt_irrefl _)
  refine Refuses.choice fun r hr => ?_
  simp only [List.mem_cons, List.not_mem_nil, or_false] at hr
  rcases hr with rfl | rfl | rfl | rfl
  · exact (Refuses.spanned (Refuses.bind (Refuses.mark (ne rfl)))).bind
  · exact (Refuses.spanned (Refuses.bind (Refuses.between (ne rfl)))).bind
  · exact (Refuses.spanned (Refuses.bind (Refuses.between (ne rfl)))).bind
  · exact Refuses.bind (Refuses.mark (ne rfl))

/-- A level is done where nothing of it follows. -/
theorem OpenReads.close (h : OpenReads expr stmt pat p ts rest Q) (hf : Follows p rest) :
    Reads (parserAt expr stmt pat p) ts rest Q := by
  have level : .nullish ≤ p → p ≤ .multiplicative → ∀ {operand : Parser Expr},
      Refuses (operation operand (operatorsAt p)) rest :=
    fun h₁ h₂ _ => Refuses.bind (operatorsAt_refuses h₁ h₂ hf)
  cases p with
  | lowest | assignment | conditional | postfix_ | primary => exact h
  | unary =>
    obtain ⟨us, vs, rfl, R, P, hs, hr, ho, hQ⟩ := h
    rw [parserAt_eq_levelOver]
    refine Reads.bind (Reads.many hs hr) fun ss hss => ?_
    exact Reads.bind_last ho fun a ha => Reads.pure (hQ ss a hss ha)
  | call =>
    rw [parserAt_eq_levelOver]
    exact Spread.close h (link_refuses hf)
  | exponent =>
    rw [parserAt_eq_levelOver]
    exact Spread.close h (Refuses.bind (Refuses.mark (hf.head_ne rfl (Nat.lt_irrefl _))))
  | nullish | logicalOr | logicalAnd | equality | relational | additive | multiplicative =>
    rw [parserAt_eq_levelOver]
    exact Spread.close h (level (by decide) (by decide))

/-! ### From a tight level to a loose one -/

theorem sign_refuses (h : ∀ t, rest.head? = some t → isSign t = false) : Refuses sign rest := by
  have ne : ∀ {t : Token}, isSign t = true → rest.head? ≠ some t := by
    intro t ht hr
    rw [h t hr] at ht
    cases ht
  refine Refuses.spanned (Refuses.choice fun r hr => ?_)
  simp only [List.mem_cons, List.not_mem_nil, or_false] at hr
  rcases hr with rfl | rfl | rfl | rfl | rfl | rfl
  · exact operator_refuses (ne rfl)
  · exact operator_refuses (ne rfl)
  · exact operator_refuses (ne rfl)
  · exact Refuses.bind (Refuses.keyword (ne rfl))
  · exact operator_refuses (ne rfl)
  · exact operator_refuses (ne rfl)

/-- A test without branches. -/
theorem conditional_reads {operand : Parser Expr} (h : Reads operand ts rest Q)
    (hq : rest.head? ≠ some (.mark .question)) : Reads (conditional expr operand) ts rest Q := by
  refine Reads.spanned_bind (Q := fun r => Q r.1 ∧ r.2 = none) (Reads.bind_last h fun a ha => ?_) ?_
  · refine Reads.bind_last (Reads.maybe_none (Refuses.bind (Refuses.mark hq))) ?_
    rintro _ rfl
    exact Reads.pure ⟨ha, rfl⟩
  · rintro span ⟨test, _⟩ ⟨ha, rfl⟩
    exact Reads.pure ha

theorem assignToken_eq_none {t : Token} (h : ∀ m, t = .mark m → m.reach ≠ some .conditional) :
    assignToken t = none := by
  cases t with
  | mark m => cases m <;> first | rfl | exact absurd rfl (h _ rfl)
  | _ => rfl

/-- What could be assigned to, without an assignment. -/
theorem assignment_reads {operand : Parser Expr} (h : Reads operand ts rest Q)
    (hf : Follows .conditional rest) : Reads (assignment expr operand) ts rest Q := by
  refine Reads.check (Q := fun r => Q r.1 ∧ r.2 = none) (Reads.bind_last h fun a ha => ?_) ?_
  · refine Reads.bind_last (Reads.maybe_none (Refuses.bind (Refuses.accept fun t ht => ?_))) ?_
    · apply assignToken_eq_none
      rintro m rfl hm
      exact absurd (hf m _ ht hm) (by decide)
    · rintro _ rfl
      exact Reads.pure ⟨ha, rfl⟩
  · rintro ⟨a, _⟩ span ⟨ha, rfl⟩
    exact ⟨a, rfl, ha⟩

/-- A target without an update after it. -/
theorem postfixUpdate_reads {operand : Parser Expr} (h : Reads operand ts rest Q)
    (hf : Follows .postfix_ rest) : Reads (postfixUpdate operand) ts rest Q := by
  refine Reads.bind_last h fun a ha => ?_
  refine Reads.bind_last (Q := (· = none)) (Reads.maybe_none (Refuses.spanned (Refuses.orElse ?_ ?_))) ?_
  · exact operator_refuses (hf.head_ne rfl (by decide))
  · exact operator_refuses (hf.head_ne rfl (by decide))
  · rintro _ rfl
    exact Reads.pure ha

/-- What a reading at one level needs to be one at the next looser level. -/
structure Lifts (expr : Parser Expr) (stmt : Parser Stmt) (pat : Parser Pattern) (p : Precedence)
    (ts rest : List Token) : Prop where
  follows : FollowsOpen p rest
  sign : p = .unary → ∀ t, (ts ++ rest).head? = some t → isSign t = false
  new : p = .call → (ts ++ rest).head? ≠ some (.keyword .new)
  arrow : p = .assignment → Refuses (arrow expr stmt pat) (ts ++ rest)

theorem OpenReads.lift (hl : Lifts expr stmt pat p ts rest) (hp : p ≠ .primary)
    (h : Reads (parserAt expr stmt pat p.next) ts rest Q) : OpenReads expr stmt pat p ts rest Q := by
  cases p with
  | primary => exact absurd rfl hp
  | lowest =>
    show Reads _ ts rest Q
    rw [parserAt_eq_levelOver]
    exact h
  | assignment =>
    show Reads _ ts rest Q
    rw [parserAt_eq_levelOver]
    exact Reads.orElse_right (hl.arrow rfl)
      (assignment_reads h (Follows.mono hl.follows (by decide)))
  | conditional =>
    show Reads _ ts rest Q
    rw [parserAt_eq_levelOver]
    exact conditional_reads h (hl.follows.head_ne rfl (by decide))
  | postfix_ =>
    show Reads _ ts rest Q
    rw [parserAt_eq_levelOver]
    exact postfixUpdate_reads h hl.follows
  | unary =>
    refine ⟨[], ts, rfl, (· = []), Q, Strides.nil rfl, sign_refuses (hl.sign rfl), h, ?_⟩
    rintro _ a rfl ha
    exact ha
  | call =>
    refine Spread.start (Reads.orElse_right ?_ h) fun a ha => ha
    exact Refuses.bind (Refuses.spanned (Refuses.bind (Refuses.keyword (hl.new rfl))))
  | exponent | nullish | logicalOr | logicalAnd | equality | relational | additive | multiplicative =>
    exact Spread.start h fun a ha => ha

/-- A reading at a tight level is one at every looser level. -/
theorem OpenReads.lower (hpq : p ≤ q)
    (hl : ∀ r, p ≤ r → r < q → Lifts expr stmt pat r ts rest)
    (h : OpenReads expr stmt pat q ts rest Q) : OpenReads expr stmt pat p ts rest Q := by
  -- by induction on how many levels lie between the two
  induction hd : q.rank - p.rank generalizing p with
  | zero =>
    have : p = q := Precedence.eq_of_rank (Nat.le_antisymm hpq (Nat.le_of_sub_eq_zero hd))
    exact this ▸ h
  | succ d ih =>
    have hlt : p < q := by
      rw [Precedence.lt_iff]
      omega
    have hp : p ≠ .primary := by
      rintro rfl
      exact absurd (Precedence.le_primary q) (Nat.not_le_of_lt hlt)
    have hrank := Precedence.rank_next hp
    have hnext := Precedence.next_le_of_lt hlt
    have inner := ih hnext (fun r hr => hl r (Precedence.le_trans (Precedence.le_next p) hr))
      (by omega)
    have lifts := hl p (Precedence.le_refl p) hlt
    have hpn : p < p.next := by
      rw [Precedence.lt_iff]
      omega
    exact OpenReads.lift lifts hp (inner.close (lifts.follows.tighter hpn))

end Open

end Grammar

end Staging
