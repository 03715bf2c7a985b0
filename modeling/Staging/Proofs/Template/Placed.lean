import Staging.Proofs.Source.RoundTrip
import Staging.Proofs.Template.Prints

/-!
Residual expressions in their places.

`Placed start min e e' cs` says that the text `cs`, which was printed for the expression `e`, is a phrase for
the residual tree `e'` where a strength of `min` is asked for, and that it does not run into what stands around
it: an operator before it, a point after it, a statement or an arrow that begins with it. A value that is
written is placed because `needsParens` puts it in parentheses where it has to be (`Placed.value`); a node that
is kept is placed when its text is a phrase for it (`Placed.kept`).
-/

namespace Staging.Template

open Script

/-- The text begins neither with a brace nor with a blank. -/
def Opens (cs : List Char) : Prop := ∀ c, cs.head? = some c → c ≠ '\x7b' ∧ isGap c = false

/-- The text for the expression `e` is a way to write the tree `e'` in its place. -/
structure Placed (start : Bool) (min : Precedence) (e e' : Expr) (cs : List Char) : Prop where
  phrase : Writes (Phrase min e') cs
  /-- Where a brace would begin a block, only an object of the template begins with one. -/
  opens : start = true → e.leftmost.isObject = false → Opens cs
  /-- Only a function of the template begins with its keyword. -/
  func : ∀ s f, e'.leftmost = .function s f → f.isArrow = false → e.startsAmbiguously = true
  /-- A sign before it ends where it begins. -/
  meets : .unary ≤ min → ∀ op : UnaryOp, op ≠ .typeof → needsSpace op e = false → op.token.Meets cs
  /-- A point may follow it. -/
  object : .call ≤ min → e.isNumber = false → Writes (ObjectPhrase e') cs

theorem Opens.append {cs ds : List Char} (h : Opens cs) (nonempty : cs ≠ []) : Opens (cs ++ ds) := by
  obtain ⟨c, cs, rfl⟩ := List.exists_cons_of_ne_nil nonempty
  exact fun d hd => h d hd

theorem Opens.cons {c : Char} {cs : List Char} (h : c ≠ '\x7b' ∧ isGap c = false) : Opens (c :: cs) := by
  rintro _ ⟨⟩
  exact h

theorem Opens.name {n : String} (h : isNameShaped n = true) : Opens n.toList := by
  intro c hc
  obtain ⟨cs, hn⟩ := List.head?_eq_some_iff.1 hc
  simp only [isNameShaped, hn, Bool.and_eq_true] at h
  refine ⟨?_, not_isGap_of_isNameStart h.1⟩
  rintro rfl
  exact absurd h.1 (by decide)

theorem Opens.literal {v : Literal} (h : v.isPrintable = true) : Opens v.text.toList := by
  cases v with
  | number x =>
    obtain ⟨d, ds, hd, digit⟩ := (Number.numeral_text h).head
    rw [Literal.text, hd]
    refine .cons ⟨?_, (not_isGap_of_isDigit digit).1⟩
    rintro rfl
    exact absurd digit (by decide)
  | string s =>
    rw [Literal.text, Text.Quoted.toList_encode]
    exact .cons (by decide)
  | bool b => cases b <;> exact .cons (by decide)
  | null => exact .cons (by decide)
  | undefined => exact .cons (by decide)

/-- A text that begins with neither is no block. -/
theorem Opens.head_ne {cs : List Char} {ts : List Token} (h : Opens cs) (hl : Lexes cs ts) :
    ts.head? ≠ some (.mark .leftBrace) := by
  intro brace
  obtain ⟨us, rfl⟩ := List.head?_eq_some_iff.1 brace
  obtain ⟨c, cs, rfl, hgap | ⟨w, hw⟩⟩ := hl.head
  · simp [(h c rfl).2] at hgap
  · obtain ⟨rfl, -⟩ := List.cons.inj hw.eq_mark
    exact (h _ rfl).1 rfl

/-- What is known of a code that is not put in parentheses. -/
theorem bare_of_needsParens {v : Value} {code : String} {min : Precedence} {start : Bool} (cooked : ∀ t, v ≠ .raw t)
    (h : needsParens v code min start = false) :
    (.unary ≤ min → code.startsWith "-" = false) ∧ (start = true → code.startsWith "\x7b" = false)
      ∧ (.call ≤ min → ∀ x, v ≠ .number x) := by
  have odd : needsParens.looksOdd code min start = false ∧ (.call ≤ min → ∀ x, v ≠ .number x) := by
    cases v with
    | raw t => exact absurd rfl (cooked t)
    | number x =>
      simp only [needsParens, Bool.or_eq_false_iff, decide_eq_false_iff_not] at h
      exact ⟨h.2, fun tight => absurd tight h.1⟩
    | _ => exact ⟨h, fun _ => nofun⟩
  simp only [needsParens.looksOdd, Bool.or_eq_false_iff, Bool.and_eq_false_iff, decide_eq_false_iff_not] at odd
  obtain ⟨⟨sign, brace⟩, number⟩ := odd
  exact ⟨fun tight => sign.resolve_left (not_not.2 tight), fun hs => brace.resolve_left (by simp [hs]), number⟩

namespace Placed

variable {start : Bool} {min p : Precedence} {e e' : Expr} {cs : List Char}

theorem nonempty (h : Placed start min e e' cs) : cs ≠ [] := by
  obtain ⟨ts, hl, hg⟩ := h.phrase
  rintro rfl
  exact hg.ne_nil hl.eq_nil

theorem weaken (h : Placed start p e e' cs) (le : min ≤ p) : Placed start min e e' cs where
  phrase := h.phrase.weaken le
  opens := h.opens
  func := h.func
  meets := fun tight => h.meets (Precedence.le_trans tight le)
  object := fun tight => h.object (Precedence.le_trans tight le)

/-- Parentheses put every expression in its place. -/
theorem parens (h : Placed false p e e' cs) : Placed start min e e' ('(' :: (cs ++ [')'])) where
  phrase := (h.phrase.weaken (Precedence.lowest_le p)).parens
  opens := fun _ _ => .cons (by decide)
  func := h.func
  meets := fun _ _ _ _ => .cons (Token.endsBefore_of_isSeparator _ rfl)
  object := fun _ _ => (h.phrase.weaken (Precedence.lowest_le p)).objectParens

/-- A node that is kept. -/
theorem kept (phrase : Writes (Phrase p e') cs) (sign : e'.leadingSign? = e.leadingSign?)
    (number : e'.isNumber = e.isNumber) (opens : start = true → e.leftmost.isObject = false → Opens cs)
    (func : ∀ s f, e'.leftmost = .function s f → f.isArrow = false → e.startsAmbiguously = true) :
    Placed start p e e' cs where
  phrase := phrase
  opens := opens
  func := func
  meets := by
    intro tight op hop space
    obtain ⟨ts, hl, hg⟩ := phrase
    refine Phrase.meets hl (hg.weaken tight) hop ?_
    simpa [needsSpace, sign] using space
  object := fun tight plain => (phrase.weaken tight).objectOf (number.trans plain)

/-- A kept node whose text begins with that of its first operand. -/
theorem left {a a' : Expr} {as ds : List Char} {q : Precedence} (ha : Placed start q a a' as)
    (phrase : Writes (Phrase p e') (as ++ ds)) (sign : e'.leadingSign? = e.leadingSign?)
    (number : e'.isNumber = e.isNumber) (first : e.leftmost = a.leftmost) (first' : e'.leftmost = a'.leftmost) :
    Placed start p e e' (as ++ ds) := by
  refine kept phrase sign number (fun hs ho => ?_) fun s f hl hf => ?_
  · rw [first] at ho
    exact (ha.opens hs ho).append ha.nonempty
  · rw [first'] at hl
    simpa [Expr.startsAmbiguously, first] using ha.func s f hl hf

/-- A statement may begin with it. -/
theorem starts (h : Placed true min e e' cs) (clear : e.startsAmbiguously = false) :
    Writes (StartPhrase e') cs := by
  have object : e.leftmost.isObject = false := by
    unfold Expr.startsAmbiguously at clear
    cases hl : e.leftmost <;> simp [hl, Expr.isObject] at clear ⊢
  obtain ⟨ts, hl, hg⟩ := h.phrase
  refine ⟨ts, hl, hg.weaken (Precedence.lowest_le min), ?_⟩
  cases hb : beginsStatement ts.head? with
  | false => rfl
  | true =>
    exfalso
    unfold beginsStatement at hb
    split at hb
    · exact (h.opens rfl object).head_ne hl ‹_›
    · rename_i function
      obtain ⟨s, f, hf, arrow⟩ := (Phrase.leftmost e' hg).2 function
      simp [h.func s f hf arrow] at clear
    · cases hb

/-- The body of an arrow may consist of it. -/
theorem arrowBody (h : Placed true .assignment e e' cs) (clear : e.leftmost.isObject = false) :
    Writes (ArrowBody (.expr e')) cs := by
  obtain ⟨ts, hl, hg⟩ := h.phrase
  exact ⟨ts, hl, .expr hg ((h.opens rfl clear).head_ne hl)⟩

/-- A value that is written. -/
theorem value {v : Value} {code : String} (h : Spelled v e' code) (cooked : ∀ t, v ≠ .raw t) (hmin : min ≤ .call) :
    Placed start min e e' (parenthesize (needsParens v code min start) code).toList := by
  cases parens : needsParens v code min start with
  | true =>
    have lowest := h.phrase.weaken (Precedence.lowest_le _)
    have text : (parenthesize true code).toList = '(' :: (code.toList ++ [')']) := by simp [parenthesize]
    rw [text]
    exact ⟨lowest.parens, fun _ _ => .cons (by decide), fun s f hl _ => absurd hl (h.leftmost s f),
      fun _ _ _ _ => .cons (Token.endsBefore_of_isSeparator _ rfl), fun _ _ => lowest.objectParens⟩
  | false =>
    obtain ⟨unsigned, braceless, number⟩ := bare_of_needsParens cooked parens
    -- where an access or a sign stands before it, there is no minus sign in front
    have strong : .unary ≤ min → .call ≤ e'.precedence ∧ e'.leadingSign? = none := fun tight =>
      h.strength.resolve_left fun signed => by simp [unsigned tight] at signed
    have phrase : Writes (Phrase min e') code.toList := by
      refine h.phrase.weaken ?_
      rcases h.strength with ⟨weak, minus⟩ | ⟨tight, -⟩
      · rw [weak]
        exact Nat.le_of_not_le fun tight => by simp [unsigned tight] at minus
      · exact Precedence.le_trans hmin tight
    refine ⟨phrase, fun hs _ c hc => ⟨?_, h.begins c hc⟩, fun s f hl _ => absurd hl (h.leftmost s f), ?_, ?_⟩
    · rintro rfl
      have begins : "\x7b".toList <+: code.toList := by
        obtain ⟨cs, hcs⟩ := List.head?_eq_some_iff.1 hc
        exact ⟨cs, hcs.symm⟩
      rw [← String.startsWith_string_iff, braceless hs] at begins
      cases begins
    · intro tight op hop _
      obtain ⟨ts, hl, hg⟩ := phrase
      exact Phrase.meets hl (hg.weaken tight) hop (by simp [needsSpace, (strong tight).2])
    · intro tight _
      refine (phrase.weaken tight).objectOf ?_
      cases hn : e'.isNumber with
      | false => rfl
      | true =>
        obtain ⟨x, hx⟩ := h.number hn
        exact absurd hx (number tight x)

end Placed

end Staging.Template
