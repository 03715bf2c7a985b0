import Staging.Proofs.Grammar.Gives
import Staging.Source.Grammar.Program

/-!
Brackets match in whatever a parser of the grammar takes.

`expr_even`, `stmt_even` and `pattern_even` say so for every fuel. With `Balanced.unique` this settles
how far a reading that begins with a bracket can go before it is done with that bracket: two readings
that begin at the same bracket close it at the same place.
-/

namespace Staging

/-- The pairs of brackets. -/
inductive Bracket : Mark → Mark → Prop
  | paren : Bracket .leftParen .rightParen
  | square : Bracket .leftBracket .rightBracket
  | brace : Bracket .leftBrace .rightBrace

/-- How deep tokens lead inside brackets of one kind; nothing if they close one not open. -/
def nest (o c : Mark) : List Token → Nat → Option Nat
  | [], d => some d
  | t :: ts, d =>
    if t = .mark o then nest o c ts (d + 1)
    else if t = .mark c then
      match d with
      | 0 => none
      | d + 1 => nest o c ts d
    else nest o c ts d

theorem nest_append (o c : Mark) :
    ∀ (ts us : List Token) (d : Nat), nest o c (ts ++ us) d = (nest o c ts d).bind (nest o c us)
  | [], us, d => rfl
  | t :: ts, us, d => by
    simp only [List.cons_append, nest]
    split
    · exact nest_append o c ts us (d + 1)
    · split
      · cases d with
        | zero => rfl
        | succ d => exact nest_append o c ts us d
      · exact nest_append o c ts us d

/-- Brackets of every kind match. -/
def Balanced (ts : List Token) : Prop := ∀ o c, Bracket o c → ∀ d, nest o c ts d = some d

theorem Balanced.nil : Balanced [] := fun _ _ _ _ => rfl

theorem Balanced.append {ts us : List Token} (ht : Balanced ts) (hu : Balanced us) :
    Balanced (ts ++ us) := by
  intro o c hb d
  rw [nest_append, ht o c hb d]
  exact hu o c hb d

/-- A token that is no bracket. -/
def Token.isPlain : Token → Bool
  | .mark .leftParen | .mark .rightParen | .mark .leftBracket | .mark .rightBracket
  | .mark .leftBrace | .mark .rightBrace => false
  | _ => true

theorem Balanced.singleton {t : Token} (h : t.isPlain = true) : Balanced [t] := by
  intro o c hb d
  have hne : t ≠ .mark o ∧ t ≠ .mark c := by
    constructor
    all_goals
      rintro rfl
      cases hb <;> simp [Token.isPlain] at h
  simp [nest, hne.1, hne.2]

theorem Balanced.enclosed {o c : Mark} {ts : List Token} (hb : Bracket o c) (h : Balanced ts) :
    Balanced (.mark o :: ts ++ [.mark c]) := by
  intro o' c' hb' d
  have inner := h o' c' hb'
  rw [List.cons_append]
  cases hb <;> cases hb' <;> simp [nest, nest_append, inner]

/-- A bracket is closed in one place only. -/
theorem Balanced.unique {o c : Mark} (hb : Bracket o c) {us vs ws xs : List Token}
    (hu : Balanced us) (hv : Balanced vs) (h : us ++ .mark c :: ws = vs ++ .mark c :: xs) :
    us = vs ∧ ws = xs := by
  have hoc : o ≠ c := by cases hb <;> decide
  -- going past the end of one of them would close a bracket that is not open
  have stuck : ∀ {as bs : List Token}, Balanced as → ¬ Balanced (as ++ .mark c :: bs) := by
    intro as bs ha hab
    have := hab o c hb 0
    rw [nest_append, ha o c hb 0] at this
    simp [nest, hoc.symm] at this
  rcases List.append_eq_append_iff.1 h with ⟨as, rfl, has⟩ | ⟨as, rfl, has⟩
  · cases as with
    | nil => simp at has ⊢; exact has
    | cons a as =>
      simp only [List.cons_append, List.cons.injEq] at has
      obtain ⟨rfl, -⟩ := has
      exact absurd hv (stuck hu)
  · cases as with
    | nil => simp at has ⊢; exact has.symm
    | cons a as =>
      simp only [List.cons_append, List.cons.injEq] at has
      obtain ⟨rfl, -⟩ := has
      exact absurd hu (stuck hv)

/-! ### Parsers that take balanced tokens -/

/-- Whatever the parser takes, its brackets match. -/
def Even {α : Type} (p : Parser α) : Prop := Gives (fun _ => True) p fun ts _ => Balanced ts

namespace Even

variable {α β : Type} {p q : Parser α}

theorem pure {a : α} : Even (Pure.pure a : Parser α) := Gives.pure Balanced.nil

theorem bind {f : α → Parser β} (hp : Even p) (hf : ∀ a, Even (f a)) : Even (p >>= f) :=
  Gives.bind hp fun _ a hts => (hf a).mono fun _ _ hus => hts.append hus

theorem map {f : α → β} (hp : Even p) : Even (f <$> p) := Gives.map hp fun _ _ h => h

theorem accept {f : Token → Option α} (h : ∀ t, t.isPlain = false → f t = none) :
    Even (Parser.accept f) := by
  refine Gives.accept fun t a _ ht => ?_
  cases hp : t.isPlain with
  | true => exact Balanced.singleton hp
  | false => simp [h t hp] at ht

theorem mark {m : Mark} (h : (Token.mark m).isPlain = true) : Even (Parser.mark m) :=
  Gives.token fun _ => Balanced.singleton h

theorem keyword {k : Keyword} : Even (Parser.keyword k) := Gives.token fun _ => Balanced.singleton rfl

theorem orElse (hp : Even p) (hq : Even q) : Even (Parser.orElse p q) := Gives.orElse hp hq

theorem choice {ps : List (Parser α)} (h : ∀ q ∈ ps, Even q) : Even (Parser.choice ps) :=
  Gives.choice h

theorem maybe (hp : Even p) : Even (Parser.maybe p) := Gives.maybe hp (fun _ _ h => h) Balanced.nil

theorem spanned (hp : Even p) : Even (Parser.spanned p) := Gives.spanned hp fun _ _ _ h => h

theorem check {f : α → Span → Except (String × Span) β} (hp : Even p) : Even (Parser.check p f) :=
  Gives.check hp fun _ _ _ _ h _ => h

theorem many (hp : Even p) : Even (Parser.many p) :=
  Gives.many hp Balanced.nil fun _ _ _ _ hts hus => hts.append hus

theorem comma : Gives (fun _ => True) Grammar.comma fun ts _ => ts = [.mark .comma] :=
  Gives.token fun _ => rfl

theorem separated1 (hp : Even p) : Even (Parser.separated1 p Grammar.comma) :=
  Gives.separated1 hp comma (fun _ _ h => h) fun _ _ _ _ hts hus =>
    hts.append ((Balanced.singleton rfl).append hus)

theorem separatedTrailing (hp : Even p) : Even (Parser.separatedTrailing p Grammar.comma) :=
  Gives.separatedTrailing hp comma Balanced.nil (fun _ _ h => h)
    (fun _ _ _ _ hts hus => hts.append ((Balanced.singleton rfl).append hus))
    fun _ _ hts => hts.append (Balanced.singleton rfl)

theorem between {o c : Mark} (hb : Bracket o c) (hp : Even p) : Even (Parser.between o c p) :=
  Gives.between hp fun _ _ h => h.enclosed hb

end Even

namespace Grammar

open Staging.Parser

/-! ### The rules of the grammar -/

theorem plain_of_ne {α : Type} {f : Token → Option α}
    (h : ∀ m, f (.mark m) = none) : ∀ t, t.isPlain = false → f t = none := by
  intro t ht
  cases t with
  | mark m => exact h m
  | _ => simp [Token.isPlain] at ht

theorem name_even : Even name := Even.accept (plain_of_ne fun _ => rfl)

theorem propertyName_even : Even propertyName := Even.accept (plain_of_ne fun _ => rfl)

theorem patternRule_even {pat : Parser Pattern} (hp : Even pat) : Even (patternRule pat) := by
  refine Even.choice fun q hq => ?_
  simp only [List.mem_cons, List.not_mem_nil, or_false] at hq
  rcases hq with rfl | rfl | rfl
  · exact name_even.map
  · exact (Even.between .square hp.separatedTrailing).map
  · refine (Even.between .brace (Even.separatedTrailing ?_)).map
    exact propertyName_even.bind fun _ => ((Even.mark rfl).bind fun _ => hp).maybe.bind fun _ => Even.pure

theorem pattern_even : ∀ fuel, Even (pattern fuel)
  | 0 => fun _ _ _ _ _ _ h => by simp [pattern] at h
  | fuel + 1 => patternRule_even (pattern_even fuel)

section Rules

variable {expr : Parser Expr} {stmt : Parser Stmt} {pat : Parser Pattern}

theorem initializer_even (he : Even expr) : Even (initializer expr) :=
  ((Even.mark rfl).bind fun _ => he).maybe

theorem params_even (he : Even expr) (hp : Even pat) : Even (params expr pat) := by
  refine Even.between .paren (Even.separatedTrailing ?_)
  refine Even.bind (Even.spanned ?_) fun _ => Even.pure
  exact (Even.mark rfl).maybe.bind fun _ => hp.bind fun _ => (initializer_even he).bind fun _ => Even.pure

theorem block_even (hs : Even stmt) : Even (block stmt) := Even.between .brace hs.many

theorem args_even (he : Even expr) : Even (args expr) := Even.between .paren he.separatedTrailing

theorem parens_even (he : Even expr) : Even (parens expr) := Even.between .paren he

theorem literal_even : Even literal :=
  (Even.accept (plain_of_ne fun _ => rfl)).spanned.bind fun _ => Even.pure

theorem function_even (he : Even expr) (hs : Even stmt) (hp : Even pat) :
    Even (function expr stmt pat) := by
  refine Even.bind (Even.spanned ?_) fun _ => Even.pure
  exact Even.keyword.bind fun _ => name_even.maybe.bind fun _ =>
    (params_even he hp).bind fun _ => (block_even hs).bind fun _ => Even.pure

theorem property_even (he : Even expr) :
    Even (orElse (namedProperty expr) (keyedProperty expr)) := by
  refine Even.orElse ?_ ?_
  · exact propertyName_even.spanned.bind fun _ =>
      ((Even.mark rfl).bind fun _ => he).maybe.bind fun _ => Even.pure
  · refine Even.bind (Even.orElse ?_ (Even.between .square he).map) fun _ =>
      (Even.mark rfl).bind fun _ => he.bind fun _ => Even.pure
    exact Even.accept (plain_of_ne fun _ => rfl)

theorem atom_even (he : Even expr) (hs : Even stmt) (hp : Even pat) : Even (atom expr stmt pat) := by
  refine Even.choice fun q hq => ?_
  simp only [List.mem_cons, List.not_mem_nil, or_false] at hq
  rcases hq with rfl | rfl | rfl | rfl | rfl | rfl
  · exact literal_even
  · exact function_even he hs hp
  · exact (Even.between .square he.separatedTrailing).spanned.bind fun _ => Even.pure
  · exact (Even.between .brace (property_even he).separatedTrailing).spanned.bind fun _ => Even.pure
  · exact name_even.spanned.bind fun _ => Even.pure
  · exact parens_even he

theorem located_even {p : Parser Link} (hp : Even p) : Even (located p) :=
  hp.spanned.bind fun _ => Even.pure

theorem dotLink_even : Even dotLink :=
  located_even ((Even.mark rfl).bind fun _ => propertyName_even.bind fun _ => Even.pure)

theorem indexLink_even (he : Even expr) (optional : Bool) : Even (indexLink expr optional) :=
  located_even ((Even.between .square he).bind fun _ => Even.pure)

theorem callLink_even (he : Even expr) (optional : Bool) : Even (callLink expr optional) :=
  located_even ((args_even he).bind fun _ => Even.pure)

theorem optionalLink_even (he : Even expr) : Even (optionalLink expr) := by
  refine (Even.mark rfl).bind fun _ => Even.choice fun q hq => ?_
  simp only [List.mem_cons, List.not_mem_nil, or_false] at hq
  rcases hq with rfl | rfl | rfl
  · exact indexLink_even he true
  · exact callLink_even he true
  · exact located_even (propertyName_even.bind fun _ => Even.pure)

theorem construction_even {atom : Parser Expr} (he : Even expr) (ha : Even atom) :
    Even (construction expr atom) := by
  refine Even.bind (Even.spanned ?_) fun _ => Even.pure
  exact Even.keyword.bind fun _ => ha.bind fun _ =>
    (dotLink_even.orElse (indexLink_even he false)).many.bind fun _ =>
      (args_even he).maybe.bind fun _ => Even.pure

theorem chain_even {atom : Parser Expr} (he : Even expr) (ha : Even atom) : Even (chain expr atom) := by
  refine Even.bind ((construction_even he ha).orElse ha) fun _ => Even.bind (Even.many ?_) fun _ => Even.pure
  refine Even.choice fun q hq => ?_
  simp only [List.mem_cons, List.not_mem_nil, or_false] at hq
  rcases hq with rfl | rfl | rfl | rfl
  · exact dotLink_even
  · exact indexLink_even he false
  · exact callLink_even he false
  · exact optionalLink_even he

theorem operator_even {α : Type} {m : Mark} {op : α} (h : (Token.mark m).isPlain = true) :
    Even (operator m op) :=
  (Even.mark h).bind fun _ => Even.pure

theorem postfixUpdate_even {c : Parser Expr} (hc : Even c) : Even (postfixUpdate c) := by
  refine hc.bind fun _ => Even.bind ((operator_even rfl).orElse (operator_even rfl)).spanned.maybe fun u => ?_
  cases u with
  | none => exact Even.pure
  | some u => exact Even.pure

theorem signed_even {p : Parser Expr} (hp : Even p) : Even (signed p) := by
  refine Even.bind (Even.many (Even.spanned (Even.choice fun q hq => ?_))) fun _ =>
    hp.bind fun _ => Even.pure
  simp only [List.mem_cons, List.not_mem_nil, or_false] at hq
  rcases hq with rfl | rfl | rfl | rfl | rfl | rfl
  · exact (operator_even rfl)
  · exact (operator_even rfl)
  · exact (operator_even rfl)
  · exact Even.keyword.bind fun _ => Even.pure
  · exact (operator_even rfl)
  · exact (operator_even rfl)

theorem level_even {p : Parser Expr} {op : Parser BinaryOp} (hp : Even p) (hop : Even op) :
    Even (level p op) :=
  hp.bind fun _ => (hop.bind fun _ => hp.bind fun _ => Even.pure).many.bind fun _ => Even.pure

theorem operators_even {p : Parser Expr} (hp : Even p) : Even (operators p) := by
  have power : Even (power p) := hp.bind fun _ => ((Even.mark rfl).bind fun _ => hp).many.bind fun _ => Even.pure
  have choice : ∀ {ops : List (Parser BinaryOp)}, (∀ q ∈ ops, Even q) → Even (Parser.choice ops) :=
    Even.choice
  refine level_even (level_even (level_even (level_even (level_even (level_even (level_even power
    (choice ?_)) ((operator_even rfl).orElse (operator_even rfl))) (choice ?_)) (choice ?_)) (operator_even rfl))
    (operator_even rfl)) (operator_even rfl)
  all_goals
    intro q hq
    simp only [List.mem_cons, List.not_mem_nil, or_false] at hq
  · rcases hq with rfl | rfl | rfl <;> exact (operator_even rfl)
  · rcases hq with rfl | rfl | rfl | rfl <;> exact (operator_even rfl)
  · rcases hq with rfl | rfl | rfl | rfl <;> exact (operator_even rfl)

theorem conditional_even {p : Parser Expr} (he : Even expr) (hp : Even p) :
    Even (conditional expr p) := by
  refine Even.bind (Even.spanned ?_) fun r => ?_
  · refine hp.bind fun _ => Even.bind (Even.maybe ?_) fun _ => Even.pure
    exact (Even.mark rfl).bind fun _ => he.bind fun _ => (Even.mark rfl).bind fun _ => he.bind fun _ => Even.pure
  · obtain ⟨span, test, branches⟩ := r
    cases branches with
    | none => exact Even.pure
    | some b => exact Even.pure

theorem assignment_even {p : Parser Expr} (he : Even expr) (hp : Even p) : Even (assignment expr p) := by
  refine Even.check (hp.bind fun _ => Even.bind (Even.maybe ?_) fun _ => Even.pure)
  refine Even.bind (Even.accept fun t ht => ?_) fun _ => he.bind fun _ => Even.pure
  cases t with
  | mark m => cases m <;> first | rfl | simp [Token.isPlain] at ht
  | _ => rfl

theorem arrow_even (he : Even expr) (hs : Even stmt) (hp : Even pat) : Even (arrow expr stmt pat) := by
  refine Even.bind (Even.spanned ?_) fun _ => Even.pure
  refine Even.bind (Even.orElse (name_even.spanned.bind fun _ => Even.pure) (params_even he hp))
    fun _ => (Even.mark rfl).bind fun _ => Even.bind ?_ fun _ => Even.pure
  exact (block_even hs).map.orElse he.map

theorem exprRule_even (he : Even expr) (hs : Even stmt) (hp : Even pat) :
    Even (exprRule expr stmt pat) :=
  (arrow_even he hs hp).orElse (assignment_even he (conditional_even he (operators_even
    (signed_even (postfixUpdate_even (chain_even he (atom_even he hs hp)))))))

theorem semicolon_even : Even semicolon := (Even.mark rfl).maybe.bind fun _ => Even.pure

theorem declKind_even : Even (accept declKindToken) := Even.accept (plain_of_ne fun _ => rfl)

theorem varDecl_even (he : Even expr) (hp : Even pat) : Even (varDecl expr pat) := by
  refine Even.bind (Even.spanned ?_) fun _ => Even.pure
  refine declKind_even.bind fun _ => Even.bind (Even.separated1 ?_) fun _ => Even.pure
  exact hp.bind fun _ => (initializer_even he).bind fun _ => Even.pure

theorem functionDecl_even (he : Even expr) (hs : Even stmt) (hp : Even pat) :
    Even (functionDecl expr stmt pat) := by
  refine Even.bind (Even.spanned ?_) fun _ => Even.pure
  exact Even.keyword.bind fun _ => name_even.bind fun _ => (params_even he hp).bind fun _ =>
    (block_even hs).bind fun _ => Even.pure

theorem ifStmt_even (he : Even expr) (hs : Even stmt) : Even (ifStmt expr stmt) := by
  refine Even.bind (Even.spanned ?_) fun _ => Even.pure
  exact Even.keyword.bind fun _ => (parens_even he).bind fun _ => hs.bind fun _ =>
    (Even.keyword.bind fun _ => hs).maybe.bind fun _ => Even.pure

theorem iterKind_even : Even iterKind :=
  (Even.keyword.bind fun _ => Even.pure).orElse (Even.keyword.bind fun _ => Even.pure)

theorem forEachStmt_even (he : Even expr) (hs : Even stmt) (hp : Even pat) :
    Even (forEachStmt expr stmt pat) := by
  refine Even.bind (Even.spanned ?_) fun _ => Even.pure
  refine Even.keyword.bind fun _ => Even.bind (Even.between .paren ?_) fun _ =>
    hs.bind fun _ => Even.pure
  exact declKind_even.maybe.bind fun _ => hp.bind fun _ => iterKind_even.bind fun _ =>
    he.bind fun _ => Even.pure

theorem forStmt_even (he : Even expr) (hs : Even stmt) (hp : Even pat) :
    Even (forStmt expr stmt pat) := by
  refine Even.bind (Even.spanned ?_) fun _ => Even.pure
  refine Even.keyword.bind fun _ => Even.bind (Even.between .paren ?_) fun _ =>
    hs.bind fun _ => Even.pure
  exact ((varDecl_even he hp).map.orElse he.map).maybe.bind fun _ => (Even.mark rfl).bind fun _ =>
    he.maybe.bind fun _ => (Even.mark rfl).bind fun _ => he.maybe.bind fun _ => Even.pure

theorem jump_even {k : Keyword} : Even (jump k) :=
  (Even.keyword.bind fun _ => name_even.maybe.bind fun _ => semicolon_even.bind fun _ => Even.pure).spanned

theorem tryStmt_even (hs : Even stmt) (hp : Even pat) : Even (tryStmt stmt pat) := by
  refine Even.check (Even.keyword.bind fun _ => (block_even hs).bind fun _ => ?_)
  refine Even.bind (Even.maybe ?_) fun _ =>
    (Even.keyword.bind fun _ => block_even hs).maybe.bind fun _ => Even.pure
  exact Even.keyword.bind fun _ => (Even.between .paren hp).maybe.bind fun _ =>
    (block_even hs).bind fun _ => Even.pure

theorem stmtRule_even (he : Even expr) (hs : Even stmt) (hp : Even pat) :
    Even (stmtRule expr stmt pat) := by
  refine Even.choice fun q hq => ?_
  simp only [List.mem_cons, List.not_mem_nil, or_false] at hq
  rcases hq with rfl | rfl | rfl | rfl | rfl | rfl | rfl | rfl | rfl | rfl | rfl | rfl | rfl | rfl | rfl
  · exact (varDecl_even he hp).bind fun _ => semicolon_even.bind fun _ => Even.pure
  · exact functionDecl_even he hs hp
  · exact (block_even hs).spanned.bind fun _ => Even.pure
  · exact (Even.keyword.bind fun _ => he.maybe.bind fun _ => semicolon_even.bind fun _ =>
      Even.pure).spanned.bind fun _ => Even.pure
  · exact ifStmt_even he hs
  · exact forEachStmt_even he hs hp
  · exact forStmt_even he hs hp
  · exact (Even.keyword.bind fun _ => (parens_even he).bind fun _ => hs.bind fun _ =>
      Even.pure).spanned.bind fun _ => Even.pure
  · exact jump_even.bind fun _ => Even.pure
  · exact jump_even.bind fun _ => Even.pure
  · exact (Even.keyword.bind fun _ => he.bind fun _ => semicolon_even.bind fun _ =>
      Even.pure).spanned.bind fun _ => Even.pure
  · exact tryStmt_even hs hp
  · exact (name_even.bind fun _ => (Even.mark rfl).bind fun _ => hs.bind fun _ =>
      Even.pure).spanned.bind fun _ => Even.pure
  · exact (Even.mark rfl).spanned.bind fun _ => Even.pure
  · exact (he.bind fun _ => semicolon_even.bind fun _ => Even.pure).spanned.bind fun _ => Even.pure

end Rules

mutual

theorem expr_even : ∀ fuel, Even (expr fuel)
  | 0 => fun _ _ _ _ _ _ h => by simp [expr] at h
  | fuel + 1 => by
    have h := exprRule_even (expr_even fuel) (stmt_even fuel) (pattern_even fuel)
    exact fun input pos a stop alt hV hp => h input pos a stop alt hV (by simpa [expr] using hp)

theorem stmt_even : ∀ fuel, Even (stmt fuel)
  | 0 => fun _ _ _ _ _ _ h => by simp [stmt] at h
  | fuel + 1 => by
    have h := stmtRule_even (expr_even fuel) (stmt_even fuel) (pattern_even fuel)
    exact fun input pos a stop alt hV hp => h input pos a stop alt hV (by simpa [stmt] using hp)

end

end Grammar

end Staging
