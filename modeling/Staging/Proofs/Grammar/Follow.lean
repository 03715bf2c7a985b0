import Staging.Proofs.Grammar.Balance
import Staging.Proofs.Grammar.Phrase

/-!
What may stand before, at the start of and after an expression.

`Mark.reach` says how tight a place a mark can still extend: after an expression in a place that asks
for more than that, the mark ends it (`Follows`). `Lead` says how a phrase begins: with one token or one
group in brackets, and if there is more then with a mark that extends it. Both together decide between
readings that begin alike (`Refuses.bind_unit`): a name or a group is an arrow's parameters, a label or a
loop's pattern only if the token after it says so.

`startsExpr` and `startsStmt` are the tokens an expression and a statement can begin with; the rules
refuse everything else.
-/

namespace Staging

namespace Precedence

theorem le_iff {p q : Precedence} : p ≤ q ↔ p.rank ≤ q.rank := Iff.rfl

theorem lt_iff {p q : Precedence} : p < q ↔ p.rank < q.rank := Iff.rfl

theorem le_refl (p : Precedence) : p ≤ p := Nat.le_refl p.rank

theorem le_trans {p q r : Precedence} (h : p ≤ q) (h' : q ≤ r) : p ≤ r := Nat.le_trans h h'

theorem lt_of_lt_of_le {p q r : Precedence} (h : p < q) (h' : q ≤ r) : p < r := Nat.lt_of_lt_of_le h h'

theorem le_primary (p : Precedence) : p ≤ primary := by cases p <;> decide

theorem lowest_le (p : Precedence) : lowest ≤ p := Nat.zero_le _

theorem le_next (p : Precedence) : p ≤ p.next := by cases p <;> decide

theorem next_le_of_lt {p q : Precedence} (h : p < q) : p.next ≤ q := by
  rw [lt_iff] at h
  rw [le_iff]
  cases p <;> simp only [next, rank] at h ⊢ <;> omega

theorem eq_of_rank {p q : Precedence} (h : p.rank = q.rank) : p = q := by
  cases p <;> cases q <;> first | rfl | cases h

theorem rank_next {p : Precedence} (h : p ≠ primary) : p.next.rank = p.rank + 1 := by
  cases p <;> first | rfl | exact absurd rfl h

end Precedence

/-! ### What follows -/

/-- The tightest place in which a mark goes on with the expression before it. -/
def Mark.reach : Mark → Option Precedence
  | dot | leftBracket | leftParen | questionDot => some .call
  | plusPlus | minusMinus => some .postfix_
  | starStar => some .exponent
  | star | slash | percent => some .multiplicative
  | plus | minus => some .additive
  | lt | gt | le | ge => some .relational
  | eqEq | notEq | eqEqEq | notEqEq => some .equality
  | andAnd => some .logicalAnd
  | orOr => some .logicalOr
  | questionQuestion => some .nullish
  | question | assign | plusAssign | minusAssign | starAssign | slashAssign | percentAssign
  | arrow => some .conditional
  | _ => none

/-- An expression in a place of the given strength ends before these tokens. -/
def Follows (p : Precedence) (rest : List Token) : Prop :=
  ∀ m q, rest.head? = some (.mark m) → m.reach = some q → q < p

theorem Follows.mono {p q : Precedence} {rest : List Token} (h : Follows p rest) (hpq : p ≤ q) :
    Follows q rest :=
  fun m r hm hr => Precedence.lt_of_lt_of_le (h m r hm hr) hpq

theorem Follows.of_mark {p : Precedence} {m : Mark} {rest : List Token}
    (h : ∀ q, m.reach = some q → q < p) : Follows p (.mark m :: rest) := by
  intro m' q hm
  cases hm
  exact h q

theorem Follows.of_end {p : Precedence} {m : Mark} {rest : List Token} (h : m.reach = none) :
    Follows p (.mark m :: rest) :=
  Follows.of_mark fun q hq => by simp [h] at hq

theorem Follows.head_ne {p q : Precedence} {m : Mark} {rest : List Token} (h : Follows p rest)
    (hm : m.reach = some q) (hq : ¬ q < p) : rest.head? ≠ some (.mark m) :=
  fun hr => hq (h m q hr hm)

/-- No mark reaches looser places than conditionals do, so those are ended by the same tokens. -/
theorem Follows.lowest {rest : List Token} (h : Follows .conditional rest) : Follows .lowest rest := by
  intro m q hm hr
  have := h m q hm hr
  cases m <;> cases hr <;> exact absurd this (by decide)

/-! ### How phrases begin -/

/-- Tokens an expression can begin with. -/
def startsExpr : Token → Bool
  | .ident _ | .number _ | .str _ => true
  | .keyword .true_ | .keyword .false_ | .keyword .null | .keyword .undefined
  | .keyword .function | .keyword .new | .keyword .typeof => true
  | .mark .leftParen | .mark .leftBracket | .mark .leftBrace | .mark .bang | .mark .minus
  | .mark .plus | .mark .plusPlus | .mark .minusMinus => true
  | _ => false

/-- Operators that stand before their operand. -/
def isSign : Token → Bool
  | .keyword .typeof | .mark .bang | .mark .minus | .mark .plus | .mark .plusPlus
  | .mark .minusMinus => true
  | _ => false

/-- Tokens a phrase of the given strength can begin with. -/
def startsAt (p : Precedence) (t : Token) : Prop :=
  startsExpr t = true ∧ (.unary < p → isSign t = false) ∧ (.call < p → t ≠ .keyword .new)

theorem startsAt.mono {p q : Precedence} {t : Token} (h : startsAt q t) (hpq : p ≤ q) : startsAt p t :=
  ⟨h.1, fun hp => h.2.1 (Precedence.lt_of_lt_of_le hp hpq),
    fun hp => h.2.2 (Precedence.lt_of_lt_of_le hp hpq)⟩

theorem Phrase.starts : ∀ (n : Nat) {p : Precedence} {e : Expr} {ts : List Token}, ts.length ≤ n →
    Phrase p e ts → ∃ t us, ts = t :: us ∧ startsAt p t
  | n, p, e, ts, hn, h => by
    have atom : ∀ {t}, startsExpr t = true → isSign t = false → t ≠ .keyword .new → startsAt p t :=
      fun h₁ h₂ h₃ => ⟨h₁, fun _ => h₂, fun _ => h₃⟩
    have sign : ∀ {t}, p ≤ .unary → startsExpr t = true → t ≠ .keyword .new → startsAt p t :=
      fun hp h₁ h₂ => ⟨h₁, fun hlt => absurd hp (Nat.not_le_of_lt hlt), fun _ => h₂⟩
    -- the phrase on the left is shorter and asks for at least as much
    have left : ∀ {q a us vs}, Phrase q a us → p ≤ q → 0 < vs.length → (us ++ vs).length ≤ n →
        ∃ t ws, us ++ vs = t :: ws ∧ startsAt p t := by
      intro q a us vs ha hpq hvs hlen
      rw [List.length_append] at hlen
      obtain ⟨m, rfl⟩ : ∃ m, n = m + 1 := ⟨n - 1, by omega⟩
      obtain ⟨t, ws, rfl, ht⟩ := Phrase.starts m (by omega) ha
      exact ⟨t, ws ++ vs, rfl, ht.mono hpq⟩
    cases h with
    | parens => exact ⟨_, _, rfl, atom rfl rfl (by simp)⟩
    | @literal _ s v v' t ht hv =>
      refine ⟨t, [], rfl, ?_⟩
      cases t with
      | keyword k => cases k <;> simp [Grammar.literalToken] at ht <;> exact atom rfl rfl (by simp)
      | mark m => simp [Grammar.literalToken] at ht
      | ident n => simp [Grammar.literalToken] at ht
      | number n => exact atom rfl rfl (by simp)
      | str n => exact atom rfl rfl (by simp)
    | ident => exact ⟨_, _, rfl, atom rfl rfl (by simp)⟩
    | array => exact ⟨_, _, rfl, atom rfl rfl (by simp)⟩
    | object => exact ⟨_, _, rfl, atom rfl rfl (by simp)⟩
    | function hf =>
      cases hf with
      | mk => exact ⟨_, _, rfl, atom rfl rfl (by simp)⟩
    | arrow => exact ⟨_, _, rfl, atom rfl rfl (by simp)⟩
    | @unary _ s op e us hp h =>
      exact ⟨op.token, us, rfl, by cases op <;> exact sign hp rfl (by simp [UnaryOp.token])⟩
    | @before _ s op e us hp h =>
      exact ⟨.mark op.mark, us, rfl, by cases op <;> exact sign hp rfl (by simp)⟩
    | after hp h => exact left h (Precedence.le_trans hp (by decide)) (by simp) hn
    | binary hop hp ha hb => exact left ha hp (by simp) hn
    | power hp ha hb => exact left ha (Precedence.le_trans hp (by decide)) (by simp) hn
    | assign hp _ ha hb => exact left ha (Precedence.le_trans hp (by decide)) (by simp) hn
    | cond hp ha hb hc => exact left ha (Precedence.le_trans hp (by decide)) (by simp) hn
    | member hp ho hk => exact left ho hp (by cases hk <;> simp [enclosed]) hn
    | call hp hc ha => exact left hc hp (by simp only [enclosed, List.length_append, List.length_cons]; omega) hn
    | new hp hc ha =>
      exact ⟨_, _, rfl, rfl, fun _ => rfl, fun hlt => absurd hp (Nat.not_le_of_lt hlt)⟩

theorem Phrase.head {p : Precedence} {e : Expr} {ts : List Token} (h : Phrase p e ts) :
    ∃ t us, ts = t :: us ∧ startsAt p t :=
  Phrase.starts ts.length (Nat.le_refl _) h

theorem Phrase.ne_nil {p : Precedence} {e : Expr} {ts : List Token} (h : Phrase p e ts) : ts ≠ [] := by
  obtain ⟨t, us, rfl, -⟩ := h.head
  simp

/-- A phrase for a tight place is one for a looser place. -/
theorem Phrase.weaken {p q : Precedence} {e : Expr} {ts : List Token} (hpq : p ≤ q)
    (h : Phrase q e ts) : Phrase p e ts := by
  cases h with
  | parens h => exact .parens h
  | literal ht hv => exact .literal ht hv
  | ident => exact .ident
  | array h => exact .array h
  | object h => exact .object h
  | function h => exact .function h
  | arrow hp hs hb => exact .arrow (Precedence.le_trans hpq hp) hs hb
  | unary hp h => exact .unary (Precedence.le_trans hpq hp) h
  | before hp h => exact .before (Precedence.le_trans hpq hp) h
  | after hp h => exact .after (Precedence.le_trans hpq hp) h
  | binary hop hp ha hb => exact .binary hop (Precedence.le_trans hpq hp) ha hb
  | power hp ha hb => exact .power (Precedence.le_trans hpq hp) ha hb
  | assign hp hasg ha hb => exact .assign (Precedence.le_trans hpq hp) hasg ha hb
  | cond hp ha hb hc => exact .cond (Precedence.le_trans hpq hp) ha hb hc
  | member hp ho hk => exact .member (Precedence.le_trans hpq hp) ho hk
  | call hp hc ha => exact .call (Precedence.le_trans hpq hp) hc ha
  | new hp hc ha => exact .new (Precedence.le_trans hpq hp) hc ha

/-- The tokens, if there are any, go on with the expression before them. -/
def Continues (ts : List Token) : Prop :=
  ∀ t, ts.head? = some t → ∃ m, t = .mark m ∧ m ≠ .arrow ∧ m.reach.isSome = true

/-- One name, or one group in brackets. -/
inductive TokenUnit : List Token → Prop
  | name {n : String} : TokenUnit [.ident n]
  | group {o c : Mark} {us : List Token} (hb : Bracket o c) (hu : Balanced us) :
      TokenUnit (enclosed o c us)

/-- A phrase begins with a unit, or with a token that begins no unit; the rest extends it. -/
inductive Lead : List Token → Prop
  | unit {us ws : List Token} (hu : TokenUnit us) (hw : Continues ws) : Lead (us ++ ws)
  | token {t : Token} {ws : List Token} (hi : ∀ n, t ≠ .ident n) (hp : t.isPlain = true) :
      Lead (t :: ws)

theorem Lead.append {ts us : List Token} (h : Lead ts) (hu : Continues us) : Lead (ts ++ us) := by
  cases h with
  | token hi hp => exact .token hi hp
  | @unit vs ws hv hw =>
    rw [List.append_assoc]
    refine .unit hv fun t ht => ?_
    cases ws with
    | nil => exact hu t ht
    | cons w ws => exact hw t ht

/-- Where a unit is read, the reading ends where the unit does. -/
theorem TokenUnit.eq {us vs ws xs : List Token} (hu : TokenUnit us) (hv : TokenUnit vs)
    (h : us ++ ws = vs ++ xs) : us = vs ∧ ws = xs := by
  cases hu with
  | name =>
    cases hv with
    | name => simpa using h
    | group hb hu => simp [enclosed] at h
  | @group o c us hb hu =>
    cases hv with
    | name => simp [enclosed] at h
    | @group o' c' vs hb' hv =>
      simp only [enclosed, List.cons_append, List.append_assoc, List.nil_append, List.cons.injEq,
        Token.mark.injEq] at h
      obtain ⟨rfl, h⟩ := h
      obtain rfl : c = c' := by cases hb <;> cases hb' <;> rfl
      obtain ⟨rfl, rfl⟩ := Balanced.unique hb hu hv h
      exact ⟨rfl, rfl⟩

/-- A parser of one unit and of something that cannot follow a phrase's first unit refuses the phrase. -/
theorem Refuses.bind_unit {α β : Type} {p : Parser α} {f : α → Parser β} {ts rest : List Token}
    (hp : Gives (fun _ => True) p fun us _ => TokenUnit us) (hl : Lead ts)
    (hf : ∀ a ws, Continues ws → Refuses (f a) (ws ++ rest)) : Refuses (p >>= f) (ts ++ rest) := by
  intro input pos hin
  show ∃ e, Parser.andThen p f input pos = _
  simp only [Parser.andThen]
  cases hpa : p input pos with
  | fail e => exact ⟨e, rfl⟩
  | ok a mid alt =>
    obtain ⟨us, rest', hin', rfl, hus⟩ := hp input pos a mid alt (fun _ _ => trivial) hpa
    cases hl with
    | token hi hplain =>
      -- no unit begins with this token
      exfalso
      rw [hin] at hin'
      cases hus with
      | name => simp at hin'; exact hi _ hin'.1
      | group hb hu =>
        simp only [enclosed, List.cons_append, List.cons.injEq] at hin'
        obtain ⟨rfl, -⟩ := hin'
        cases hb <;> simp [Token.isPlain] at hplain
    | @unit vs ws hv hw =>
      rw [hin, List.append_assoc] at hin'
      obtain ⟨rfl, rfl⟩ := TokenUnit.eq hv hus hin'
      rw [List.append_assoc] at hin
      obtain ⟨e, he⟩ := hf a ws hw input _ (Input.ahead_append hin)
      exact ⟨e.after alt, by simp only [he]⟩

/-- What follows the first unit of a phrase is not a token that ends expressions or that follows none. -/
theorem Continues.head_ne {t : Token} {ws rest : List Token} (hw : Continues ws)
    (ht : ∀ m, t = .mark m → m = .arrow ∨ m.reach = none) (hr : rest.head? ≠ some t) :
    (ws ++ rest).head? ≠ some t := by
  cases ws with
  | nil => exact hr
  | cons w ws =>
    intro h
    obtain ⟨m, rfl, hm, hreach⟩ := hw t h
    rcases ht m rfl with rfl | hnone
    · exact hm rfl
    · simp [hnone] at hreach

/-- Tokens a statement can begin with. -/
def startsStmt (t : Token) : Bool :=
  startsExpr t ||
    match t with
    | .mark .semicolon | .keyword .let_ | .keyword .const | .keyword .var | .keyword .return_
    | .keyword .if_ | .keyword .for_ | .keyword .while_ | .keyword .break_ | .keyword .continue_
    | .keyword .throw_ | .keyword .try_ => true
    | _ => false

theorem Sentence.head {s : Stmt} {ts : List Token} (h : Sentence s ts) :
    ∃ t us, ts = t :: us ∧ startsStmt t = true := by
  cases h with
  | expr h =>
    obtain ⟨t, us, rfl, ht⟩ := h.head
    exact ⟨t, us ++ [.mark .semicolon], rfl, by simp [startsStmt, ht.1]⟩
  | decl h =>
    cases h with
    | @mk _ kind => exact ⟨_, _, rfl, by cases kind <;> rfl⟩
  | function hn h =>
    cases h with
    | mk => exact ⟨_, _, rfl, rfl⟩
  | _ => exact ⟨_, _, rfl, rfl⟩

end Staging
