import Staging.Proofs.Number.ReadBack
import Staging.Proofs.Source.Writes

/-!
Texts of trees from texts of their parts.

For every kind of node there is a lemma that takes ways to write its parts and gives a way to write the
node. The texts of the parts are arbitrary: nothing is said here about how they came about, only that
they stand for the parts in the place they are put. Where an operator touches its operand the lemma asks
that it ends there; `Phrase.last` and `Phrase.leadingSign` say when it does.
-/

namespace Staging

open Precedence

/-! ### Operators and their marks -/

theorem BinaryOp.text_eq (op : BinaryOp) : op.text = op.mark.text := by cases op <;> rfl

theorem AssignOp.text_eq (op : AssignOp) : op.text = op.mark.text := by cases op <;> rfl

theorem UpdateOp.text_eq (op : UpdateOp) : op.text = op.mark.text := by cases op <;> rfl

theorem DeclKind.text_eq (k : DeclKind) : k.text = k.keyword.text := by cases k <;> rfl

theorem IterKind.text_eq (k : IterKind) : k.text = k.keyword.text := by cases k <;> rfl

/-! ### Names and literals -/

theorem word_of_isName {n : String} (h : isName n = true) : word n = .ident n := by
  simp only [isName, Bool.and_eq_true, Option.isNone_iff_eq_none] at h
  rcases wordToken_cases n.toList with ⟨k, hk, -⟩ | ⟨-, hw⟩
  · rw [String.ofList_toList, h.2] at hk
    cases hk
  · rw [word, hw, String.ofList_toList]

theorem isNameShaped_of_isName {n : String} (h : isName n = true) : isNameShaped n = true := by
  simp only [isName, Bool.and_eq_true] at h
  exact h.1

theorem Lexes.word {n : String} (h : isNameShaped n = true) : Lexes n.toList [word n] :=
  .alone (.word h)

theorem Lexes.name {n : String} (h : isName n = true) : Lexes n.toList [.ident n] := by
  have := Lexes.word (isNameShaped_of_isName h)
  rwa [word_of_isName h] at this

section

variable {p : Precedence} {s : Span} {cs ds : List Char}

theorem Writes.ident {n : String} (h : isName n = true) : Writes (Phrase p (.ident s n)) n.toList :=
  ⟨_, .name h, .ident⟩

theorem Writes.keywordLiteral {k : Keyword} {v : Literal}
    (h : Grammar.literalToken (.keyword k) = some v) :
    Writes (Phrase p (.literal s v)) k.text.toList := by
  have hw := Spelling.word (Keyword.isNameShaped_text k)
  rw [Keyword.wordToken_text] at hw
  exact .alone hw (.literal h rfl)

theorem Writes.numeral {n : String} {x : Float} (h : Numeral n.toList)
    (hx : (Literal.number (Number.ofNumeral n)).bare = (Literal.number x).bare) :
    Writes (Phrase p (.literal s (.number x))) n.toList :=
  .alone (.number h) (.literal rfl hx)

theorem Writes.quoted {t : String} :
    Writes (Phrase p (.literal s (.string t))) (Text.Quoted.encode t).toList := by
  rw [Text.Quoted.toList_encode]
  exact .alone .quoted (.literal rfl rfl)

/-- Printable constants are written by their text. -/
theorem Writes.literal {v : Literal} (h : v.isPrintable = true) :
    Writes (Phrase p (.literal s v)) v.text.toList := by
  cases v with
  | number x => exact .numeral (Number.numeral_text h) (Number.bare_ofNumeral_text h)
  | string t => exact .quoted
  | bool b =>
    cases b with
    | false => exact .keywordLiteral (k := .false_) rfl
    | true => exact .keywordLiteral (k := .true_) rfl
  | null => exact .keywordLiteral (k := .null) rfl
  | undefined => exact .keywordLiteral (k := .undefined) rfl

/-! ### Brackets -/

theorem Writes.weaken {q : Precedence} {e : Expr} (hpq : p ≤ q) (h : Writes (Phrase q e) cs) :
    Writes (Phrase p e) cs :=
  h.mono fun _ => Phrase.weaken hpq

theorem Writes.parens {e : Expr} (h : Writes (Phrase .lowest e) cs) :
    Writes (Phrase p e) ('(' :: (cs ++ [')'])) := by
  obtain ⟨ts, hl, hg⟩ := h
  exact ⟨_, hl.inParens, .parens hg⟩

theorem Writes.array {items : List Expr} (h : Writes (Items (Phrase .assignment) items) cs) :
    Writes (Phrase p (.array s items)) ('[' :: (cs ++ [']'])) := by
  obtain ⟨ts, hl, hg⟩ := h
  exact ⟨_, hl.brackets, .array hg⟩

theorem Writes.object {props : List Property} (h : Writes (Items PropertyPhrase props) cs) :
    Writes (Phrase p (.object s props)) ('\x7b' :: (cs ++ ['\x7d'])) := by
  obtain ⟨ts, hl, hg⟩ := h
  exact ⟨_, hl.inBraces, .object hg⟩

/-! ### Properties -/

theorem Writes.quotedKey {n : String} : Writes (KeyPhrase (.named n)) (Text.Quoted.encode n).toList := by
  rw [Text.Quoted.toList_encode]
  exact .alone .quoted .quoted

theorem Writes.namedKey {n : String} : Writes (KeyPhrase (.named n)) (propertyName n).toList := by
  unfold propertyName
  split
  · rename_i h
    exact ⟨_, .word h, .word⟩
  · exact .quotedKey

theorem Writes.computedKey {e : Expr} (h : Writes (Phrase .assignment e) cs) :
    Writes (KeyPhrase (.computed e)) ('[' :: (cs ++ [']'])) := by
  obtain ⟨ts, hl, hg⟩ := h
  exact ⟨_, hl.brackets, .computed hg⟩

theorem Writes.property {k : Key} {v : Expr} (hk : Writes (KeyPhrase k) cs)
    (hv : Writes (Phrase .assignment v) ds) : Writes (PropertyPhrase ⟨k, v⟩) (cs ++ ':' :: ds) := by
  obtain ⟨ts, hl, hg⟩ := hk
  obtain ⟨us, hl', hg'⟩ := hv
  exact ⟨_, hl.join hl'.colon rfl, .mk hg hg'⟩

/-! ### Operators -/

/-- An operator before its operand, which must not run into the operand. -/
theorem Writes.unary {op : UnaryOp} {e : Expr} (hp : p ≤ .unary) (h : Writes (Phrase .unary e) cs)
    (hm : op.token.Meets cs) : Writes (Phrase p (.unary s op e)) (op.text.toList ++ cs) := by
  obtain ⟨ts, hl, hg⟩ := h
  refine ⟨_, ?_, .unary hp hg⟩
  cases op with
  | neg => exact .token (.mark (m := .minus)) hm hl
  | plus => exact .token (.mark (m := .plus)) hm hl
  | not => exact .token (.mark (m := .bang)) hm hl
  | typeof => exact .token (.word (n := "typeof") rfl) hm hl

theorem Writes.before (op : UpdateOp) {e : Expr} (hp : p ≤ .unary) (h : Writes (Phrase .unary e) cs) :
    Writes (Phrase p (.update s op true e)) (op.text.toList ++ cs) := by
  obtain ⟨ts, hl, hg⟩ := h
  refine ⟨_, ?_, .before hp hg⟩
  rw [UpdateOp.text_eq]
  exact hl.solo op.mark (by cases op <;> rfl)

/-- The tokens that an expression can end with, where no operator reaches into it. -/
def Token.endsChain : Token → Bool
  | .ident _ | .keyword _ | .number _ | .str _ => true
  | .mark .rightParen | .mark .rightBracket | .mark .rightBrace => true
  | _ => false

theorem Token.endsChain.endsBefore {t : Token} (h : t.endsChain = true) {c : Char}
    (hc : c = '?' ∨ c = '+' ∨ c = '-') : t.endsBefore c = true := by
  have name : isNamePart c = false ∧ c ≠ '.' := by
    rcases hc with rfl | rfl | rfl <;> decide
  cases t with
  | keyword k => simp [Token.endsBefore, name.1]
  | ident n => simp [Token.endsBefore, name.1]
  | number n => simp [Token.endsBefore, name.1, name.2]
  | str s => rfl
  | mark m => exact Mark.isSolo.meets (by cases m <;> first | rfl | cases h) [c] c rfl

theorem Token.endsChain.endsBefore_dot {t : Token} (h : t.endsChain = true) (hn : ∀ n, t ≠ .number n) :
    t.endsBefore '.' = true := by
  cases t with
  | keyword k => rfl
  | ident n => rfl
  | number n => exact absurd rfl (hn n)
  | str s => rfl
  | mark m => exact Mark.isSolo.meets (by cases m <;> first | rfl | cases h) ['.'] '.' rfl

theorem getLast?_enclosed {o c : Mark} {ts : List Token} :
    (enclosed o c ts).getLast? = some (.mark c) := by
  rw [enclosed, List.getLast?_append]
  rfl

theorem endsChain_wordToken {w : List Char} : (wordToken w).endsChain = true := by
  rcases wordToken_cases w with ⟨k, -, hw⟩ | ⟨-, hw⟩ <;> rw [hw] <;> rfl

theorem wordToken_ne_number {w : List Char} (n : String) : wordToken w ≠ .number n := by
  rcases wordToken_cases w with ⟨k, -, hw⟩ | ⟨-, hw⟩ <;> rw [hw] <;> simp

theorem LinkPhrase.last {k : Key} {optional : Bool} {ts us : List Token} (h : LinkPhrase k optional us) :
    ∃ t, (ts ++ us).getLast? = some t ∧ t.endsChain = true ∧ ∀ n, t ≠ .number n := by
  have last : ∃ t, us.getLast? = some t ∧ t.endsChain = true ∧ ∀ n, t ≠ .number n := by
    cases h with
    | dot => exact ⟨_, rfl, endsChain_wordToken, wordToken_ne_number⟩
    | optionalDot => exact ⟨_, rfl, endsChain_wordToken, wordToken_ne_number⟩
    | index => exact ⟨_, getLast?_enclosed, rfl, by simp⟩
    | optionalIndex =>
      exact ⟨.mark .rightBracket, by rw [List.getLast?_cons, getLast?_enclosed]; rfl, rfl, by simp⟩
  obtain ⟨t, ht, hrest⟩ := last
  exact ⟨t, by rw [List.getLast?_append, ht]; rfl, hrest⟩

/-- Where a chain of accesses may go on, an expression ends in a token that is complete. -/
theorem Phrase.last {e : Expr} {ts : List Token} (hp : .call ≤ p) (h : Phrase p e ts) :
    ∃ t, ts.getLast? = some t ∧ t.endsChain = true ∧ (e.isNumber = false → ∀ n, t ≠ .number n) := by
  have loose : ∀ {q : Precedence}, q < .call → ¬ p ≤ q := fun hq hle =>
    absurd (Precedence.le_trans hp hle) (Nat.not_le_of_lt hq)
  have closed : ∀ {o c : Mark} (us vs : List Token), (Token.mark c).endsChain = true →
      ∃ t, (us ++ enclosed o c vs).getLast? = some t ∧ t.endsChain = true
        ∧ (e.isNumber = false → ∀ n, t ≠ .number n) := by
    intro o c us vs hc
    exact ⟨.mark c, by rw [List.getLast?_append, getLast?_enclosed]; rfl, hc, fun _ _ => by simp⟩
  cases h with
  | parens => exact closed [] _ rfl
  | @literal _ s v v' t ht hv =>
    refine ⟨t, rfl, ?_, ?_⟩
    · cases t with
      | mark m => cases ht
      | _ => rfl
    · intro hnum n hn
      subst hn
      obtain rfl := Option.some.inj ht
      cases v <;> simp [Literal.bare, Expr.isNumber] at hv hnum
  | ident => exact ⟨_, rfl, rfl, by simp⟩
  | array => exact closed [] _ rfl
  | object => exact closed [] _ rfl
  | function hf =>
    cases hf with
    | @mk name params body us vs =>
      have := closed (o := .leftBrace) (c := .rightBrace)
        (.keyword .function :: (nameTokens name ++ inParens us)) vs rfl
      rwa [List.cons_append, List.append_assoc] at this
  | arrow hp' => exact absurd hp' (loose (by decide))
  | unary hp' => exact absurd hp' (loose (by decide))
  | before hp' => exact absurd hp' (loose (by decide))
  | after hp' => exact absurd hp' (loose (by decide))
  | @binary _ _ op _ _ _ _ _ hp' => exact absurd hp' (loose (by cases op <;> decide))
  | power hp' => exact absurd hp' (loose (by decide))
  | assign hp' => exact absurd hp' (loose (by decide))
  | cond hp' => exact absurd hp' (loose (by decide))
  | member _ _ hk =>
    obtain ⟨t, ht, hc, hn⟩ := hk.last
    exact ⟨t, ht, hc, fun _ => hn⟩
  | @call _ _ _ _ optional us vs =>
    have := closed (o := .leftParen) (c := .rightParen)
      (us ++ tokenIf optional (.mark .questionDot)) vs rfl
    rwa [List.append_assoc] at this
  | @new _ _ _ _ us vs =>
    have := closed (o := .leftParen) (c := .rightParen) (.keyword .new :: us) vs rfl
    rwa [List.cons_append] at this

/-- A text may go on after an expression with a mark that no token begins with. -/
theorem Phrase.append {e : Expr} {ts us : List Token} {c : Char} (hl : Lexes cs ts)
    (h : Phrase .call e ts) (hc : c = '?' ∨ c = '+' ∨ c = '-') (hl' : Lexes (c :: ds) us) :
    Lexes (cs ++ c :: ds) (ts ++ us) := by
  obtain ⟨t, ht, hend, -⟩ := h.last (Precedence.le_refl _)
  refine hl.append hl' fun t' ht' => ?_
  obtain rfl := Option.some.inj (ht.symm.trans ht')
  exact .cons (Token.endsChain.endsBefore hend hc)

theorem Writes.after (op : UpdateOp) {e : Expr} (hp : p ≤ .postfix_) (h : Writes (Phrase .call e) cs) :
    Writes (Phrase p (.update s op false e)) (cs ++ op.text.toList) := by
  obtain ⟨ts, hl, hg⟩ := h
  refine ⟨_, ?_, .after hp hg⟩
  cases op with
  | increment => exact hg.append hl (.inr (.inl rfl)) (Lexes.alone (.mark (m := .plusPlus)))
  | decrement => exact hg.append hl (.inr (.inr rfl)) (Lexes.alone (.mark (m := .minusMinus)))

/-- A mark with spaces around it. -/
theorem Lexes.infixed {ts us : List Token} (m : Mark) (h : Lexes cs ts) (h' : Lexes ds us) :
    Lexes (cs ++ ' ' :: (m.text.toList ++ ' ' :: ds)) (ts ++ .mark m :: us) :=
  h.join (h'.spaced m).space rfl

theorem Writes.binary {op : BinaryOp} {a b : Expr} (hop : op ≠ .pow) (hp : p ≤ op.precedence)
    (ha : Writes (Phrase op.precedence a) cs) (hb : Writes (Phrase op.precedence.next b) ds) :
    Writes (Phrase p (.binary s op a b)) (cs ++ ' ' :: (op.text.toList ++ ' ' :: ds)) := by
  obtain ⟨ts, hl, hg⟩ := ha
  obtain ⟨us, hl', hg'⟩ := hb
  rw [BinaryOp.text_eq]
  exact ⟨_, hl.infixed op.mark hl', .binary hop hp hg hg'⟩

theorem Writes.power {a b : Expr} (hp : p ≤ .exponent) (ha : Writes (Phrase .unary a) cs)
    (hb : Writes (Phrase .exponent b) ds) :
    Writes (Phrase p (.binary s .pow a b)) (cs ++ ' ' :: (BinaryOp.pow.text.toList ++ ' ' :: ds)) := by
  obtain ⟨ts, hl, hg⟩ := ha
  obtain ⟨us, hl', hg'⟩ := hb
  exact ⟨_, hl.infixed .starStar hl', .power hp hg hg'⟩

theorem Writes.assign (op : AssignOp) {a b : Expr} (hp : p ≤ .assignment) (hasg : a.isAssignable = true)
    (ha : Writes (Phrase .call a) cs) (hb : Writes (Phrase .assignment b) ds) :
    Writes (Phrase p (.assign s op a b)) (cs ++ ' ' :: (op.text.toList ++ ' ' :: ds)) := by
  obtain ⟨ts, hl, hg⟩ := ha
  obtain ⟨us, hl', hg'⟩ := hb
  rw [AssignOp.text_eq]
  exact ⟨_, hl.infixed op.mark hl', .assign hp hasg hg hg'⟩

theorem Writes.cond {a b c : Expr} {es : List Char} (hp : p ≤ .conditional)
    (ha : Writes (Phrase .nullish a) cs) (hb : Writes (Phrase .assignment b) ds)
    (hc : Writes (Phrase .assignment c) es) :
    Writes (Phrase p (.cond s a b c)) (cs ++ ' ' :: '?' :: ' ' :: (ds ++ ' ' :: ':' :: ' ' :: es)) := by
  obtain ⟨ts, hl, hg⟩ := ha
  obtain ⟨us, hl', hg'⟩ := hb
  obtain ⟨vs, hl'', hg''⟩ := hc
  exact ⟨_, hl.infixed .question (hl'.infixed .colon hl''), .cond hp hg hg' hg''⟩

/-- The tokens of a text that begins with a minus or a plus are an operator with its operand. -/
theorem Phrase.leadingSign {e : Expr} {ts : List Token} (h : Phrase .unary e ts) :
    (ts.head? = some (.mark .minus) ∨ ts.head? = some (.mark .minusMinus) →
        e.leadingSign? = some .neg)
      ∧ (ts.head? = some (.mark .plus) ∨ ts.head? = some (.mark .plusPlus) →
        e.leadingSign? = some .plus) := by
  -- in a tighter place there is no sign at all
  have tight : ∀ {q : Precedence} {a : Expr} {us vs : List Token}, .unary < q → Phrase q a us →
      ∀ m, isSign (.mark m) = true → (us ++ vs).head? ≠ some (.mark m) := by
    intro q a us vs hq ha m hm heq
    obtain ⟨t, ws, rfl, ht⟩ := ha.head
    cases heq
    rw [ht.2.1 hq] at hm
    cases hm
  have none : (∀ m, isSign (.mark m) = true → ts.head? ≠ some (.mark m)) →
      (ts.head? = some (.mark .minus) ∨ ts.head? = some (.mark .minusMinus) →
          e.leadingSign? = some .neg)
        ∧ (ts.head? = some (.mark .plus) ∨ ts.head? = some (.mark .plusPlus) →
          e.leadingSign? = some .plus) := by
    intro hn
    constructor
    · rintro (h | h) <;> exact absurd h (hn _ rfl)
    · rintro (h | h) <;> exact absurd h (hn _ rfl)
  cases h with
  | parens => exact none (by rintro m hm ⟨⟩; cases hm)
  | literal ht => exact none (by rintro m hm ⟨⟩; cases ht)
  | ident => exact none (by rintro m hm ⟨⟩)
  | array => exact none (by rintro m hm ⟨⟩; cases hm)
  | object => exact none (by rintro m hm ⟨⟩; cases hm)
  | function hf =>
    cases hf with
    | mk => exact none (by rintro m hm ⟨⟩)
  | arrow hp => exact absurd hp (by decide)
  | @unary _ s op e us hp h => cases op <;> simp [UnaryOp.token, Expr.leadingSign?]
  | @before _ s op e us hp h => cases op <;> simp [UpdateOp.mark, Expr.leadingSign?]
  | after hp h => exact none (tight (by decide) h)
  | @binary _ s op _ _ _ _ hop hp =>
    exact absurd hp (by cases op <;> decide)
  | power hp => exact absurd hp (by decide)
  | assign hp => exact absurd hp (by decide)
  | cond hp => exact absurd hp (by decide)
  | member hp ho => exact none (tight (by decide) ho)
  | call hp hc => exact none (tight (by decide) hc)
  | new => exact none (by rintro m hm ⟨⟩)

/-- The sign operators end before everything but themselves and an equals sign. -/
theorem UnaryOp.endsBefore {op : UnaryOp} {c : Char} (hop : op ≠ .typeof) (heq : c ≠ '=')
    (hneg : op = .neg → c ≠ '-') (hplus : op = .plus → c ≠ '+') : op.token.endsBefore c = true := by
  have equals : (c == '=') = false := beq_false_of_ne heq
  cases op with
  | neg =>
    have minus : (c == '-') = false := beq_false_of_ne (hneg rfl)
    simp [UnaryOp.token, Token.endsBefore, Mark.endsBefore, Mark.all, Mark.text, List.isPrefixOf, equals,
      minus]
  | plus =>
    have plus : (c == '+') = false := beq_false_of_ne (hplus rfl)
    simp [UnaryOp.token, Token.endsBefore, Mark.endsBefore, Mark.all, Mark.text, List.isPrefixOf, equals,
      plus]
  | not =>
    simp [UnaryOp.token, Token.endsBefore, Mark.endsBefore, Mark.all, Mark.text, List.isPrefixOf, equals]
  | typeof => exact absurd rfl hop

/-- No expression begins with an equals sign, and one that begins with a sign begins with its mark. -/
theorem startsExpr.spelling {t : Token} {c : Char} {w : List Char} (ht : startsExpr t = true)
    (hw : Spelling t (c :: w)) :
    c ≠ '=' ∧ (c = '-' → t = .mark .minus ∨ t = .mark .minusMinus)
      ∧ (c = '+' → t = .mark .plus ∨ t = .mark .plusPlus) := by
  generalize hcs : c :: w = cs at hw
  cases hw with
  | @word n hn =>
    have start : isNameStart c = true := by
      simp only [isNameShaped, ← hcs, Bool.and_eq_true] at hn
      exact hn.1
    refine ⟨?_, ?_, ?_⟩ <;> rintro rfl <;> exact absurd start (by decide)
  | @number n hn =>
    obtain ⟨d, ds, hd, hdigit⟩ := hn.head
    obtain ⟨rfl, -⟩ := List.cons.inj (hcs.trans hd)
    refine ⟨?_, ?_, ?_⟩ <;> rintro rfl <;> exact absurd hdigit (by decide)
  | quoted =>
    obtain ⟨rfl, -⟩ := List.cons.inj hcs
    refine ⟨?_, ?_, ?_⟩ <;> intro h <;> exact absurd h (by decide)
  | @mark m =>
    cases m <;> first
      | exact absurd ht (by decide)
      | (obtain ⟨rfl, -⟩ := List.cons.inj hcs
         decide)

/-- A sign operator ends where its operand begins, unless a space is needed. -/
theorem Phrase.meets {op : UnaryOp} {e : Expr} {ts : List Token} (hl : Lexes cs ts)
    (h : Phrase .unary e ts) (hop : op ≠ .typeof) (hs : needsSpace op e = false) :
    op.token.Meets cs := by
  obtain ⟨hneg, hplus⟩ := h.leadingSign
  obtain ⟨t, us, rfl, ht⟩ := h.head
  obtain ⟨c, cs', rfl, hc⟩ := hl.head
  refine .cons ?_
  rcases hc with hgap | ⟨w, hw⟩
  · exact Token.endsBefore_of_isSeparator _ (by simp [isSeparator, hgap])
  obtain ⟨heq, hminus, hpluses⟩ := startsExpr.spelling ht.1 hw
  refine UnaryOp.endsBefore hop heq ?_ ?_
  · rintro rfl rfl
    have := hneg (by simpa using hminus rfl)
    simp [needsSpace, this] at hs
  · rintro rfl rfl
    have := hplus (by simpa using hpluses rfl)
    simp [needsSpace, this] at hs

/-! ### Chains -/

/-- An object whose text a point may follow: it does not end in a numeral. -/
def ObjectPhrase (o : Expr) (ts : List Token) : Prop :=
  Phrase .call o ts ∧ ∀ n, ts.getLast? ≠ some (.number n)

theorem Writes.objectOf {o : Expr} (h : Writes (Phrase .call o) cs) (hn : o.isNumber = false) :
    Writes (ObjectPhrase o) cs := by
  refine h.mono fun ts hg => ⟨hg, fun n hlast => ?_⟩
  obtain ⟨t, ht, -, hnum⟩ := hg.last (Precedence.le_refl _)
  exact hnum hn n (Option.some.inj (ht.symm.trans hlast))

theorem Writes.objectParens {o : Expr} (h : Writes (Phrase .lowest o) cs) :
    Writes (ObjectPhrase o) ('(' :: (cs ++ [')'])) := by
  obtain ⟨ts, hl, hg⟩ := h
  refine ⟨_, hl.inParens, .parens hg, fun n hlast => ?_⟩
  rw [getLast?_enclosed] at hlast
  cases hlast

theorem Writes.namedLink {n : String} (optional : Bool) (h : isNameShaped n = true) :
    Writes (LinkPhrase (.named n) optional) ((if optional then "?." else ".").toList ++ n.toList) := by
  cases optional with
  | true => exact ⟨_, (Lexes.word h).solo .questionDot rfl, .optionalDot⟩
  | false =>
    refine ⟨_, .token (.mark (m := .dot)) ?_ (Lexes.word h), .dot⟩
    -- a name does not begin with a point
    intro c hc
    have start : isNameStart c = true := by
      simp only [isNameShaped] at h
      cases hn : n.toList with
      | nil => simp [hn] at hc
      | cons d ds =>
        simp only [hn, Bool.and_eq_true] at h hc
        cases hc
        exact h.1
    have point : (c == '.') = false := by
      refine beq_false_of_ne ?_
      rintro rfl
      exact absurd start (by decide)
    simp [Token.endsBefore, Mark.endsBefore, Mark.all, Mark.text, List.isPrefixOf, point]

theorem Writes.computedLink {e : Expr} (optional : Bool) (h : Writes (Phrase .lowest e) cs) :
    Writes (LinkPhrase (.computed e) optional)
      ((if optional then "?.[" else "[").toList ++ (cs ++ [']'])) := by
  obtain ⟨ts, hl, hg⟩ := h
  cases optional with
  | true => exact ⟨_, hl.brackets.solo .questionDot rfl, .optionalIndex hg⟩
  | false => exact ⟨_, hl.brackets, .index hg⟩

/-- A mark is spelled by its text. -/
theorem Spelling.eq_mark {m : Mark} (h : Spelling (.mark m) cs) : cs = m.text.toList := by
  generalize hmark : Token.mark m = tok at h
  cases h with
  | @word n => rcases wordToken_cases n.toList with ⟨k, -, hw⟩ | ⟨-, hw⟩ <;> rw [hw] at hmark <;> cases hmark
  | number => cases hmark
  | quoted => cases hmark
  | mark =>
    cases hmark
    rfl

/-- An access begins with a character that ends what stands before it. -/
theorem LinkPhrase.meets {k : Key} {optional : Bool} {us : List Token} {t : Token}
    (hl : Lexes ds us) (h : LinkPhrase k optional us) (ht : t.endsChain = true)
    (hn : ∀ n, t ≠ .number n) : t.Meets ds := by
  have first : ∃ m us', us = .mark m :: us' ∧ (m = .dot ∨ m = .questionDot ∨ m = .leftBracket) := by
    cases h with
    | dot => exact ⟨_, _, rfl, .inl rfl⟩
    | optionalDot => exact ⟨_, _, rfl, .inr (.inl rfl)⟩
    | index => exact ⟨_, _, rfl, .inr (.inr rfl)⟩
    | optionalIndex => exact ⟨_, _, rfl, .inr (.inl rfl)⟩
  obtain ⟨m, us', rfl, hm⟩ := first
  obtain ⟨c, ds', rfl, hc⟩ := hl.head
  refine .cons ?_
  rcases hc with hgap | ⟨w, hw⟩
  · exact t.endsBefore_of_isSeparator (by simp [isSeparator, hgap])
  rcases hm with rfl | rfl | rfl <;> obtain ⟨rfl, -⟩ := List.cons.inj hw.eq_mark
  · exact Token.endsChain.endsBefore_dot ht hn
  · exact Token.endsChain.endsBefore ht (.inl rfl)
  · exact t.endsBefore_of_isSeparator rfl

theorem Writes.member {o : Expr} {k : Key} {optional : Bool} (hp : p ≤ .call)
    (ho : Writes (ObjectPhrase o) cs) (hk : Writes (LinkPhrase k optional) ds) :
    Writes (Phrase p (.member s o k optional)) (cs ++ ds) := by
  obtain ⟨ts, hl, hg, hnum⟩ := ho
  obtain ⟨us, hl', hg'⟩ := hk
  obtain ⟨t, ht, hend, -⟩ := hg.last (Precedence.le_refl _)
  refine ⟨_, hl.append hl' fun t' ht' => ?_, .member hp hg hg'⟩
  obtain rfl := Option.some.inj (ht.symm.trans ht')
  exact hg'.meets hl' hend fun n hn => hnum n (by rw [ht, hn])

theorem Writes.call {c : Expr} {args : List Expr} (optional : Bool) (hp : p ≤ .call)
    (hc : Writes (Phrase .call c) cs) (ha : Writes (Items (Phrase .assignment) args) ds) :
    Writes (Phrase p (.call s c args optional))
      (cs ++ ((if optional then "?." else "").toList ++ '(' :: (ds ++ [')']))) := by
  obtain ⟨ts, hl, hg⟩ := hc
  obtain ⟨us, hl', hg'⟩ := ha
  refine ⟨_, ?_, .call hp hg hg'⟩
  cases optional with
  | true => exact hg.append hl (.inl rfl) (hl'.inParens.solo .questionDot rfl)
  | false => exact hl.join hl'.inParens rfl

/-- A plain chain of accesses without a call in it may be what `new` is applied to. -/
theorem Phrase.callee : ∀ (e : Expr) {ts : List Token}, Phrase .call e ts → e.containsCall = false →
    e.isPlainCallee = true → CalleePhrase e ts := by
  intro e ts h hcall hplain
  cases h with
  | parens h => exact .root (.parens h)
  | literal ht hv => exact .root (.literal ht hv)
  | ident => exact .root .ident
  | array h => exact .root (.array h)
  | object h => exact .root (.object h)
  | function h => exact .root (.function h)
  | @member _ s o k optional us vs hp ho hk =>
    simp only [Expr.containsCall] at hcall
    simp only [Expr.isPlainCallee, Bool.and_eq_true, Bool.not_eq_true'] at hplain
    obtain ⟨rfl, hplain⟩ := hplain
    exact .member (Phrase.callee o ho hcall hplain) hk
  | call => simp [Expr.containsCall] at hcall
  | new => simp [Expr.isPlainCallee] at hplain
  | arrow hp => exact absurd hp (by decide)
  | unary hp => exact absurd hp (by decide)
  | before hp => exact absurd hp (by decide)
  | after hp => exact absurd hp (by decide)
  | @binary _ s op _ _ _ _ hop hp => exact absurd hp (by cases op <;> decide)
  | power hp => exact absurd hp (by decide)
  | assign hp => exact absurd hp (by decide)
  | cond hp => exact absurd hp (by decide)

theorem Writes.new {c : Expr} {args : List Expr} (hp : p ≤ .call) (hc : Writes (CalleePhrase c) cs)
    (ha : Writes (Items (Phrase .assignment) args) ds) :
    Writes (Phrase p (.new s c args)) ("new ".toList ++ (cs ++ '(' :: (ds ++ [')']))) := by
  obtain ⟨ts, hl, hg⟩ := hc
  obtain ⟨us, hl', hg'⟩ := ha
  exact ⟨_, .keyword .new rfl (hl.join hl'.inParens rfl).space, .new hp hg hg'⟩

end

end Staging
