import Staging.Proofs.Grammar.Levels
import Staging.Proofs.Grammar.Lists

/-!
Readings of patterns, atoms and links.

`Ready n` is what a rule of the grammar may expect of the parsers it is built from: that they read
phrases, sentences and patterns of up to `n` tokens, and refuse what begins none. Nothing but the length
of the tokens is counted, so a rule may pass its parsers a part of what it reads wherever something else
stands beside that part. The readings here are of the rules that brackets and names decide: no level of
binding strength plays a part in them.
-/

namespace Staging

/-- What may follow a statement: nothing that it would take as a part of itself. -/
def Ends (s : Stmt) (rest : List Token) : Prop :=
  (s.endsOpen = true → rest.head? ≠ some (.keyword .else_))
    ∧ rest.head? ≠ some (.keyword .catch_) ∧ rest.head? ≠ some (.keyword .finally_)

/-- Tokens a pattern can begin with. -/
def startsPattern : Token → Bool
  | .ident _ | .mark .leftBracket | .mark .leftBrace => true
  | _ => false

namespace Grammar

open Staging.Parser

/-- Parsers that read everything of up to `n` tokens. -/
structure Ready (n : Nat) (expr : Parser Expr) (stmt : Parser Stmt) (pat : Parser Pattern) : Prop where
  readsExpr {e : Expr} {ts rest : List Token} : Phrase .lowest e ts → ts.length ≤ n →
    Follows .lowest rest → Reads expr ts rest fun e' => e'.bare = e.bare
  readsStmt {s : Stmt} {ts rest : List Token} : Sentence s ts → ts.length ≤ n →
    Ends s rest → Reads stmt ts rest fun s' => s'.bare = s.bare
  readsPat {q : Pattern} {rest : List Token} : q.tokens.length ≤ n → Reads pat q.tokens rest (· = q)
  refusesExpr {ts : List Token} : (∀ t, ts.head? = some t → startsExpr t = false) → Refuses expr ts
  refusesStmt {ts : List Token} : (∀ t, ts.head? = some t → startsStmt t = false) → Refuses stmt ts
  refusesPat {ts : List Token} : (∀ t, ts.head? = some t → startsPattern t = false) → Refuses pat ts
  evenExpr : Even expr
  evenStmt : Even stmt
  unitPat : Gives (fun _ => True) pat fun ts _ => TokenUnit ts

theorem TokenUnit.balanced {ts : List Token} (h : TokenUnit ts) : Balanced ts := by
  cases h with
  | name => exact Balanced.singleton rfl
  | group hb hu => exact hu.enclosed hb

variable {n : Nat} {expr : Parser Expr} {stmt : Parser Stmt} {pat : Parser Pattern}
  {ts us rest : List Token}

theorem Ready.evenPat (hr : Ready n expr stmt pat) : Even pat :=
  hr.unitPat.mono fun _ _ h => TokenUnit.balanced h

/-! ### Names and patterns -/

theorem text_of_ofText? {s : String} {k : Keyword} (h : Keyword.ofText? s = some k) : k.text = s := by
  have := List.find?_some h
  simpa using this

theorem word_cases (m : String) :
    (∃ k, Keyword.ofText? m = some k ∧ word m = .keyword k)
      ∨ Keyword.ofText? m = none ∧ word m = .ident m := by
  simp only [word, wordToken, String.ofList_toList]
  cases h : Keyword.ofText? m with
  | none => exact .inr ⟨rfl, rfl⟩
  | some k => exact .inl ⟨k, rfl, rfl⟩

theorem propertyName_reads {m : String} : Reads propertyName [word m] rest (· = m) := by
  rcases word_cases m with ⟨k, hk, hm⟩ | ⟨-, hm⟩
  · rw [hm]
    exact Reads.accept rfl (text_of_ofText? hk)
  · rw [hm]
    exact Reads.accept rfl rfl

theorem name_reads {m : String} : Reads name [.ident m] rest (· = m) := Reads.accept rfl rfl

theorem name_refuses (h : ∀ m, ts.head? ≠ some (.ident m)) : Refuses name ts := by
  refine Refuses.accept fun t ht => ?_
  cases t with
  | ident m => exact absurd ht (h m)
  | _ => rfl

theorem Pattern.moreItems_tokens : ∀ items : List Pattern,
    MoreItems (fun (q : Pattern) ts => ts = q.tokens) items (Pattern.moreItemTokens items)
  | [] => .nil
  | _ :: qs => .cons rfl (Pattern.moreItems_tokens qs)

theorem Pattern.items_tokens : ∀ items : List Pattern,
    Items (fun (q : Pattern) ts => ts = q.tokens) items (Pattern.itemTokens items)
  | [] => .nil
  | _ :: qs => .cons rfl (Pattern.moreItems_tokens qs)

/-- The tokens of a keyed part of an object pattern. -/
def propTokens (q : PatternProperty) : List Token := word q.key :: .mark .colon :: q.value.tokens

theorem Pattern.moreItems_propTokens : ∀ props : List PatternProperty,
    MoreItems (fun q ts => ts = propTokens q) props (Pattern.morePropTokens props)
  | [] => .nil
  | ⟨_, _⟩ :: qs => .cons rfl (Pattern.moreItems_propTokens qs)

theorem Pattern.items_propTokens : ∀ props : List PatternProperty,
    Items (fun q ts => ts = propTokens q) props (Pattern.propTokens props)
  | [] => .nil
  | ⟨_, _⟩ :: qs => .cons rfl (Pattern.moreItems_propTokens qs)

theorem patternProperty_reads (hr : Ready n expr stmt pat) {q : PatternProperty}
    (hn : (propTokens q).length ≤ n) : Reads (patternProperty pat) (propTokens q) rest (· = q) := by
  simp only [propTokens, List.length_cons] at hn
  refine Reads.bind_cons propertyName_reads ?_
  rintro _ rfl
  refine Reads.bind_last (Reads.maybe_some (Reads.bind_cons Reads.mark fun _ _ => hr.readsPat (by omega))) ?_
  rintro _ ⟨v, rfl, hv⟩
  exact Reads.pure (by cases q; simp_all)

theorem map_id_eq {α : Type} {as bs : List α} (h : bs.map id = as.map id) : bs = as := by
  simpa using h

theorem patternRule_reads (hr : Ready n expr stmt pat) {q : Pattern} (hn : q.tokens.length ≤ n + 1) :
    Reads (patternRule pat) q.tokens rest (· = q) := by
  cases q with
  | name m =>
    refine Reads.choice [] (by simp) (Reads.map name_reads ?_)
    rintro _ rfl
    rfl
  | array items =>
    simp only [Pattern.tokens, enclosed, List.length_cons, List.length_append] at hn
    refine Reads.choice [_] ?_ (Reads.map (Q := (· = items)) (Reads.between ?_) ?_)
    · intro r hr
      obtain rfl := List.mem_singleton.1 hr
      exact Refuses.map (name_refuses (by simp [Pattern.tokens, enclosed]))
    · refine (Items.reads (f := id) (n := n) ?_ (by decide) ?_ (Pattern.items_tokens items) (by omega)).mono
        fun bs h => map_id_eq h
      · rintro q _ m rest rfl hlen -
        exact hr.readsPat hlen
      · exact fun rest => hr.refusesPat (by simp [startsPattern])
    · rintro _ rfl
      rfl
  | object props =>
    simp only [Pattern.tokens, enclosed, List.length_cons, List.length_append] at hn
    refine Reads.choice [_, _] ?_ (Reads.map (Q := (· = props)) (Reads.between ?_) ?_)
    · intro r hr
      simp only [List.mem_cons, List.not_mem_nil, or_false] at hr
      rcases hr with rfl | rfl
      · exact Refuses.map (name_refuses (by simp [Pattern.tokens, enclosed]))
      · exact Refuses.map (Refuses.between (by simp [Pattern.tokens, enclosed]))
    · refine (Items.reads (f := id) (n := n) ?_ (by decide) ?_ (Pattern.items_propTokens props)
        (by omega)).mono fun bs h => map_id_eq h
      · rintro q _ m rest rfl hlen -
        exact patternProperty_reads hr hlen
      · intro rest
        exact Refuses.bind (Refuses.accept fun t ht => by cases ht; rfl)
    · rintro _ rfl
      rfl

theorem patternRule_refuses (h : ∀ t, ts.head? = some t → startsPattern t = false) :
    Refuses (patternRule pat) ts := by
  have ne : ∀ {t}, startsPattern t = true → ts.head? ≠ some t := by
    intro t ht hts
    rw [h t hts] at ht
    cases ht
  refine Refuses.choice fun r hr => ?_
  simp only [List.mem_cons, List.not_mem_nil, or_false] at hr
  rcases hr with rfl | rfl | rfl
  · exact Refuses.map (name_refuses fun m => ne rfl)
  · exact Refuses.map (Refuses.between (ne rfl))
  · exact Refuses.map (Refuses.between (ne rfl))

theorem name_unit : Gives (fun _ => True) name fun ts _ => TokenUnit ts := by
  refine Gives.accept ?_
  intro t a _ ht
  cases t with
  | ident m => exact .name
  | _ => cases ht

theorem patternRule_unit (he : Even pat) : Gives (fun _ => True) (patternRule pat) fun ts _ => TokenUnit ts := by
  refine Gives.choice fun r hr => ?_
  simp only [List.mem_cons, List.not_mem_nil, or_false] at hr
  rcases hr with rfl | rfl | rfl
  · exact name_unit.map fun _ _ h => h
  · refine Gives.map (P := fun ts _ => TokenUnit ts) (Gives.between he.separatedTrailing ?_) fun _ _ h => h
    exact fun ts _ h => .group .square h
  · refine Gives.map (P := fun ts _ => TokenUnit ts) (Gives.between (Even.separatedTrailing ?_) ?_)
      fun _ _ h => h
    · exact propertyName_even.bind fun _ =>
        ((Even.mark rfl).bind fun _ => he).maybe.bind fun _ => Even.pure
    · exact fun ts _ h => .group .brace h

/-! ### Parameters, blocks and arguments -/

theorem Ready.readsAssignment (hr : Ready n expr stmt pat) {e : Expr} {m : Mark}
    (h : Phrase .assignment e ts) (hn : ts.length ≤ n) (hm : m.reach = none) :
    Reads expr ts (.mark m :: rest) fun e' => e'.bare = e.bare :=
  hr.readsExpr (h.weaken (by decide)) hn (Follows.of_end hm)

theorem Ready.refusesMark (hr : Ready n expr stmt pat) {m : Mark} (hm : startsExpr (.mark m) = false) :
    Refuses expr (.mark m :: rest) :=
  hr.refusesExpr fun t ht => by cases ht; exact hm

theorem initializer_reads (hr : Ready n expr stmt pat) {e : Option Expr} {m : Mark}
    (h : InitialPhrase e ts) (hn : ts.length ≤ n) (hm : m.reach = none) :
    Reads (initializer expr) ts (.mark m :: rest) fun o => o.map Expr.bare = e.map Expr.bare := by
  cases h with
  | none =>
    refine (Reads.maybe_none (Refuses.bind (Refuses.mark ?_))).mono ?_
    · rintro h
      cases h
      cases hm
    · rintro _ rfl
      rfl
  | some h =>
    rw [List.length_cons] at hn
    refine (Reads.maybe_some (Reads.bind_cons Reads.mark fun _ _ =>
      hr.readsAssignment h (by omega) hm)).mono ?_
    rintro _ ⟨e', rfl, he⟩
    simp [he]

theorem maybe_token_reads {b : Bool} {m : Mark} (hne : ts.head? ≠ some (.mark m)) :
    Reads (maybe (mark m)) (tokenIf b (.mark m)) ts fun o => o.isSome = b := by
  cases b with
  | true =>
    refine (Reads.maybe_some Reads.mark).mono ?_
    rintro _ ⟨_, rfl, -⟩
    rfl
  | false =>
    refine (Reads.maybe_none (Refuses.mark hne)).mono ?_
    rintro _ rfl
    rfl

theorem Pattern.head_tokens (q : Pattern) :
    ∃ t us, q.tokens = t :: us ∧ startsPattern t = true := by
  cases q <;> exact ⟨_, _, rfl, rfl⟩

theorem param_reads (hr : Ready n expr stmt pat) {q : Param} {m : Mark} (h : ParamPhrase q ts)
    (hn : ts.length ≤ n) (hm : m.reach = none) :
    Reads (param expr pat) ts (.mark m :: rest) fun q' => q'.bare = q.bare := by
  cases h with
  | @mk s q default more us h =>
    rw [List.length_append, List.length_append] at hn
    refine Reads.spanned_bind (Q := fun r => r.1 = more ∧ r.2.1 = q
      ∧ r.2.2.map Expr.bare = default.map Expr.bare) ?_ ?_
    · refine Reads.bind (maybe_token_reads ?_) fun o ho => ?_
      · obtain ⟨t, vs, hts, ht⟩ := Pattern.head_tokens q
        rw [hts]
        rintro h
        cases h
        cases ht
      · refine Reads.bind (hr.readsPat (by omega)) ?_
        rintro _ rfl
        refine Reads.bind_last (initializer_reads hr h (by omega) hm) fun d hd => ?_
        exact Reads.pure ⟨ho, rfl, hd⟩
    · rintro s' ⟨_, _, d⟩ ⟨rfl, rfl, hd⟩
      refine Reads.pure ?_
      simpa [Param.bare] using hd

theorem params_reads (hr : Ready n expr stmt pat) {ps : List Param} (h : Items ParamPhrase ps ts)
    (hn : ts.length ≤ n) :
    Reads (params expr pat) (inParens ts) rest fun qs => qs.map Param.bare = ps.map Param.bare := by
  refine Reads.between (Items.reads (n := n) ?_ (by decide) ?_ h hn)
  · rintro q us m rest hq hlen (rfl | rfl)
    · exact param_reads hr hq hlen rfl
    · exact param_reads hr hq hlen rfl
  · intro rest
    refine Refuses.bind (Refuses.spanned ?_)
    refine Refuses.bind_nil (Reads.maybe_none (Refuses.mark (by simp))) fun _ _ => ?_
    exact Refuses.bind (hr.refusesPat (by simp [startsPattern]))

/-- Expressions between commas, up to a mark that begins and extends none. -/
theorem exprItems_reads (hr : Ready n expr stmt pat) {es : List Expr} {c : Mark}
    (hc : c.reach = none) (hs : startsExpr (.mark c) = false) (hcomma : c ≠ .comma)
    (h : Items (Phrase .assignment) es ts) (hn : ts.length ≤ n) :
    Reads (separatedTrailing expr comma) ts (.mark c :: rest)
      fun es' => es'.map Expr.bare = es.map Expr.bare := by
  refine Items.reads (n := n) ?_ hcomma (fun rest => hr.refusesMark hs) h hn
  rintro e us m rest he hlen (rfl | rfl)
  · exact hr.readsAssignment he hlen rfl
  · exact hr.readsAssignment he hlen hc

theorem args_reads (hr : Ready n expr stmt pat) {es : List Expr}
    (h : Items (Phrase .assignment) es ts) (hn : ts.length ≤ n) :
    Reads (args expr) (inParens ts) rest fun es' => es'.map Expr.bare = es.map Expr.bare :=
  Reads.between (exprItems_reads hr rfl rfl (by decide) h hn)

theorem startsStmt_ne {t : Token} (h : startsStmt t = true) :
    t ≠ .keyword .else_ ∧ t ≠ .keyword .catch_ ∧ t ≠ .keyword .finally_ := by
  refine ⟨?_, ?_, ?_⟩ <;> (rintro rfl; cases h)

/-- Statements in a row are read up to a token that begins none. -/
theorem statements_reads (hr : Ready n expr stmt pat) {ss : List Stmt} (h : Sequence Sentence ss ts)
    (hn : ts.length ≤ n) (hend : ∀ t, rest.head? = some t → t = .mark .rightBrace) :
    Reads (many stmt) ts rest fun ss' => ss'.map Stmt.bare = ss.map Stmt.bare := by
  have ends : ∀ s, Ends s rest := by
    intro s
    refine ⟨fun _ h => ?_, fun h => ?_, fun h => ?_⟩ <;> cases hend _ h
  refine Sequence.reads (E := Ends) ?_ (fun h hn hs => hr.readsStmt h hn hs) ?_ ends ?_ h hn
  · intro s us hs
    obtain ⟨t, vs, rfl, -⟩ := hs.head
    simp
  · intro s s' us rest hs
    obtain ⟨t, vs, rfl, ht⟩ := hs.head
    obtain ⟨h₁, h₂, h₃⟩ := startsStmt_ne ht
    exact ⟨fun _ => by simpa using h₁, by simpa using h₂, by simpa using h₃⟩
  · refine hr.refusesStmt fun t ht => ?_
    rw [hend t ht]
    rfl

theorem block_reads (hr : Ready n expr stmt pat) {ss : List Stmt} (h : Sequence Sentence ss ts)
    (hn : ts.length ≤ n) :
    Reads (block stmt) (inBraces ts) rest fun ss' => ss'.map Stmt.bare = ss.map Stmt.bare :=
  Reads.between (statements_reads hr h hn (by simp))

/-! ### Atoms -/

theorem maybe_name_reads {m : Option String} (h : ∀ k, ts.head? ≠ some (.ident k)) :
    Reads (maybe name) (nameTokens m) ts (· = m) := by
  cases m with
  | none => exact Reads.maybe_none (name_refuses h)
  | some m =>
    refine (Reads.maybe_some name_reads).mono ?_
    rintro _ ⟨_, rfl, rfl⟩
    rfl

theorem literal_reads {t : Token} {s : Span} {v v' : Literal} (ht : literalToken t = some v')
    (hv : v'.bare = v.bare) :
    Reads literal [t] rest fun e => e.bare = (Expr.literal s v).bare := by
  refine Reads.spanned_bind (Q := (· = v')) (Reads.accept ht rfl) ?_
  rintro s' _ rfl
  exact Reads.pure (by simp [Expr.bare, hv])

theorem ident_reads {s : Span} {m : String} :
    Reads ident [.ident m] rest fun e => e.bare = (Expr.ident s m).bare := by
  refine Reads.spanned_bind name_reads ?_
  rintro s' _ rfl
  exact Reads.pure rfl

theorem array_reads (hr : Ready n expr stmt pat) {s : Span} {es : List Expr}
    (h : Items (Phrase .assignment) es ts) (hn : ts.length ≤ n) :
    Reads (array expr) (inBrackets ts) rest fun e => e.bare = (Expr.array s es).bare := by
  refine Reads.spanned_bind (Reads.between (exprItems_reads hr rfl rfl (by decide) h hn)) ?_
  intro s' es' hes
  exact Reads.pure (by simp [Expr.bare, hes])

theorem property_reads (hr : Ready n expr stmt pat) {q : Property} {m : Mark} (h : PropertyPhrase q ts)
    (hn : ts.length ≤ n) (hm : m.reach = none) :
    Reads (orElse (namedProperty expr) (keyedProperty expr)) ts (.mark m :: rest)
      fun q' => q'.bare = q.bare := by
  cases h with
  | @mk k v us vs hk hv =>
    rw [List.length_append, List.length_cons] at hn
    -- a value after its colon, whatever the key was
    have value : ∀ {k' : Key}, k'.bare = k.bare →
        Reads (do mark .colon; let v' ← expr; return (⟨k', v'⟩ : Property)) (.mark .colon :: vs)
          (.mark m :: rest) fun q' => q'.bare = (⟨k, v⟩ : Property).bare := by
      intro k' hk'
      refine Reads.bind_cons Reads.mark fun _ _ => ?_
      refine Reads.bind_last (hr.readsAssignment hv (by omega) hm) fun v' hv' => ?_
      exact Reads.pure (by simp [Property.bare, hk', hv'])
    cases hk with
    | @word x =>
      refine Reads.orElse_left (Reads.bind_cons (Reads.spanned propertyName_reads) ?_)
      rintro ⟨s, _⟩ rfl
      refine Reads.bind_last (Reads.maybe_some (Reads.bind_cons Reads.mark fun _ _ =>
        hr.readsAssignment hv (by omega) hm)) ?_
      rintro _ ⟨v', rfl, hv'⟩
      exact Reads.pure (by simp [Property.bare, Key.bare, hv'])
    | @quoted x =>
      refine Reads.orElse_right ?_ ?_
      · exact Refuses.bind (Refuses.spanned (Refuses.accept fun t ht => by cases ht; rfl))
      · refine Reads.bind_cons (Reads.orElse_left (Reads.accept (Q := (· = Key.named x)) rfl rfl)) ?_
        rintro _ rfl
        exact value rfl
    | @computed e ws he =>
      simp only [enclosed, List.length_cons, List.length_append] at hn
      refine Reads.orElse_right ?_ ?_
      · exact Refuses.bind (Refuses.spanned (Refuses.accept fun t ht => by cases ht; rfl))
      · refine Reads.bind (Reads.orElse_right (Q := fun k' => k'.bare = (Key.computed e).bare) ?_
          (Reads.map (Reads.between (hr.readsAssignment he (by omega) rfl)) ?_)) fun k' hk' => value hk'
        · exact Refuses.accept fun t ht => by cases ht; rfl
        · intro e' he'
          simp [Key.bare, he']

theorem properties_reads (hr : Ready n expr stmt pat) {ps : List Property}
    (h : Items PropertyPhrase ps ts) (hn : ts.length ≤ n) :
    Reads (separatedTrailing (orElse (namedProperty expr) (keyedProperty expr)) comma) ts
      (.mark .rightBrace :: rest) fun qs => qs.map Property.bare = ps.map Property.bare := by
  refine Items.reads (n := n) ?_ (by decide) ?_ h hn
  · rintro e us m rest he hlen (rfl | rfl)
    · exact property_reads hr he hlen rfl
    · exact property_reads hr he hlen rfl
  · intro rest
    refine Refuses.orElse (Refuses.bind (Refuses.spanned (Refuses.accept ?_))) (Refuses.bind (Refuses.orElse ?_ ?_))
    · exact fun t ht => by cases ht; rfl
    · exact Refuses.accept fun t ht => by cases ht; rfl
    · exact Refuses.map (Refuses.between (by simp))

theorem object_reads (hr : Ready n expr stmt pat) {s : Span} {ps : List Property}
    (h : Items PropertyPhrase ps ts) (hn : ts.length ≤ n) :
    Reads (object expr) (inBraces ts) rest fun e => e.bare = (Expr.object s ps).bare := by
  refine Reads.spanned_bind (Reads.between (properties_reads hr h hn)) ?_
  intro s' ps' hps
  exact Reads.pure (by simp [Expr.bare, hps])

/-- The parts of a function after its name. -/
theorem functionRest_reads {β : Type} (hr : Ready n expr stmt pat) {ps : List Param} {ss : List Stmt}
    {f : List Param → List Stmt → Parser β} {R : β → Prop} (hs : Items ParamPhrase ps ts)
    (hb : Sequence Sentence ss us) (hn : ts.length + us.length ≤ n)
    (hf : ∀ ps' ss', ps'.map Param.bare = ps.map Param.bare → ss'.map Stmt.bare = ss.map Stmt.bare →
      Reads (f ps' ss') [] rest R) :
    Reads (do let ps ← params expr pat; let body ← block stmt; f ps body)
      (inParens ts ++ inBraces us) rest R := by
  refine Reads.bind (params_reads hr hs (by omega)) fun ps' hps => ?_
  exact Reads.bind_last (block_reads hr hb (by omega)) fun ss' hss => hf ps' ss' hps hss

theorem function_reads (hr : Ready n expr stmt pat) {s : Span} {f : Func} (h : FuncPhrase f ts)
    (hn : ts.length ≤ n + 1) :
    Reads (function expr stmt pat) ts rest fun e => e.bare = (Expr.function s f).bare := by
  cases h with
  | @mk m ps ss us vs hs hb =>
    simp only [enclosed, List.length_cons, List.length_append] at hn
    refine Reads.spanned_bind (Q := fun g => g.bare = (⟨m, ps, .block ss, false⟩ : Func).bare) ?_ ?_
    · refine Reads.bind_cons Reads.keyword fun _ _ => ?_
      refine Reads.bind (maybe_name_reads (by simp [enclosed])) ?_
      rintro _ rfl
      refine functionRest_reads hr hs hb (by omega) fun ps' ss' hps hss => ?_
      exact Reads.pure (by simp [Func.bare, FuncBody.bare, hps, hss])
    · intro s' g hg
      exact Reads.pure (by simp [Expr.bare, hg])

theorem parens_reads (hr : Ready n expr stmt pat) {e : Expr} (h : Phrase .lowest e ts)
    (hn : ts.length ≤ n) : Reads (parens expr) (inParens ts) rest fun e' => e'.bare = e.bare :=
  Reads.between (hr.readsExpr h hn (Follows.of_end rfl))

section Choice

variable {Q : Expr → Prop}

theorem literal_refuses (h : ∀ t, ts.head? = some t → literalToken t = none) : Refuses literal ts :=
  Refuses.bind (Refuses.spanned (Refuses.accept h))

theorem function_refuses (h : ts.head? ≠ some (.keyword .function)) :
    Refuses (function expr stmt pat) ts :=
  Refuses.bind (Refuses.spanned (Refuses.bind (Refuses.keyword h)))

theorem array_refuses (h : ts.head? ≠ some (.mark .leftBracket)) : Refuses (array expr) ts :=
  Refuses.bind (Refuses.spanned (Refuses.between h))

theorem object_refuses (h : ts.head? ≠ some (.mark .leftBrace)) : Refuses (object expr) ts :=
  Refuses.bind (Refuses.spanned (Refuses.between h))

theorem ident_refuses (h : ∀ m, ts.head? ≠ some (.ident m)) : Refuses ident ts :=
  Refuses.bind (Refuses.spanned (name_refuses h))

/-- The atom a first token decides on. -/
theorem atom_reads_literal {t : Token} (h : Reads literal [t] rest Q) : Reads (atom expr stmt pat) [t] rest Q :=
  Reads.choice [] (by simp) h

theorem atom_reads_function (h : Reads (function expr stmt pat) (.keyword .function :: ts) rest Q) :
    Reads (atom expr stmt pat) (.keyword .function :: ts) rest Q := by
  refine Reads.choice [_] ?_ h
  intro r hr
  obtain rfl := List.mem_singleton.1 hr
  exact literal_refuses (by simp [literalToken])

theorem atom_reads_array (h : Reads (array expr) (inBrackets ts) rest Q) :
    Reads (atom expr stmt pat) (inBrackets ts) rest Q := by
  refine Reads.choice [_, _] ?_ h
  intro r hr
  simp only [List.mem_cons, List.not_mem_nil, or_false] at hr
  rcases hr with rfl | rfl
  · exact literal_refuses (by simp [enclosed, literalToken])
  · exact function_refuses (by simp [enclosed])

theorem atom_reads_object (h : Reads (object expr) (inBraces ts) rest Q) :
    Reads (atom expr stmt pat) (inBraces ts) rest Q := by
  refine Reads.choice [_, _, _] ?_ h
  intro r hr
  simp only [List.mem_cons, List.not_mem_nil, or_false] at hr
  rcases hr with rfl | rfl | rfl
  · exact literal_refuses (by simp [enclosed, literalToken])
  · exact function_refuses (by simp [enclosed])
  · exact array_refuses (by simp [enclosed])

theorem atom_reads_ident {m : String} (h : Reads ident [.ident m] rest Q) :
    Reads (atom expr stmt pat) [.ident m] rest Q := by
  refine Reads.choice [_, _, _, _] ?_ h
  intro r hr
  simp only [List.mem_cons, List.not_mem_nil, or_false] at hr
  rcases hr with rfl | rfl | rfl | rfl
  · exact literal_refuses (by simp [literalToken])
  · exact function_refuses (by simp)
  · exact array_refuses (by simp)
  · exact object_refuses (by simp)

theorem atom_reads_parens (h : Reads (parens expr) (inParens ts) rest Q) :
    Reads (atom expr stmt pat) (inParens ts) rest Q := by
  refine Reads.choice [_, _, _, _, _] ?_ h
  intro r hr
  simp only [List.mem_cons, List.not_mem_nil, or_false] at hr
  rcases hr with rfl | rfl | rfl | rfl | rfl
  · exact literal_refuses (by simp [enclosed, literalToken])
  · exact function_refuses (by simp [enclosed])
  · exact array_refuses (by simp [enclosed])
  · exact object_refuses (by simp [enclosed])
  · exact ident_refuses (by simp [enclosed])

theorem atom_refuses (h : ∀ t, ts.head? = some t → startsExpr t = false ∨ isSign t = true) :
    Refuses (atom expr stmt pat) ts := by
  have ne : ∀ {t}, startsExpr t = true → isSign t = false → ts.head? ≠ some t := by
    intro t h₁ h₂ ht
    rcases h t ht with h | h <;> simp_all
  refine Refuses.choice fun r hr => ?_
  simp only [List.mem_cons, List.not_mem_nil, or_false] at hr
  rcases hr with rfl | rfl | rfl | rfl | rfl | rfl
  · refine literal_refuses fun t ht => ?_
    rcases h t ht with h | h
    · cases t with
      | keyword k => cases k <;> first | rfl | cases h
      | mark m => rfl
      | ident m => rfl
      | number m => cases h
      | str m => cases h
    · cases t with
      | keyword k => cases k <;> first | rfl | cases h
      | mark m => rfl
      | ident m => rfl
      | number m => cases h
      | str m => cases h
  · exact function_refuses (ne rfl rfl)
  · exact array_refuses (ne rfl rfl)
  · exact object_refuses (ne rfl rfl)
  · exact ident_refuses fun m => ne rfl rfl
  · exact Refuses.between (ne rfl rfl)

end Choice

/-! ### Chains -/

/-- The link is a member access by the given key, up to spans. -/
def IsMember (k : Key) (optional : Bool) (l : Nat × Link) : Prop :=
  ∃ k' : Key, l.2 = .member k' optional ∧ k'.bare = k.bare

theorem IsMember.bare_applyLink {k : Key} {optional : Bool} {l : Nat × Link} {o e : Expr} {s : Span}
    (h : IsMember k optional l) (he : e.bare = o.bare) :
    (applyLink e l).bare = (Expr.member s o k optional).bare := by
  obtain ⟨k', hl, hk⟩ := h
  simp only [applyLink, hl, Expr.bare, he, hk]

theorem located_reads {p : Parser Link} {Q : Link → Prop} (h : Reads p ts rest Q) :
    Reads (located p) ts rest fun l => Q l.2 :=
  Reads.spanned_bind h fun _ _ hl => Reads.pure hl

theorem dotLink_reads {m : String} :
    Reads dotLink [.mark .dot, word m] rest (IsMember (.named m) false) := by
  refine located_reads (Q := fun l => ∃ k' : Key, l = .member k' false ∧ k'.bare = (Key.named m).bare) ?_
  refine Reads.bind_cons Reads.mark fun _ _ => Reads.bind_last propertyName_reads ?_
  rintro _ rfl
  exact Reads.pure ⟨_, rfl, rfl⟩

theorem indexLink_reads (hr : Ready n expr stmt pat) {e : Expr} {optional : Bool}
    (h : Phrase .lowest e ts) (hn : ts.length ≤ n) :
    Reads (indexLink expr optional) (inBrackets ts) rest (IsMember (.computed e) optional) := by
  refine located_reads (Q := fun l => ∃ k' : Key, l = .member k' optional ∧ k'.bare = (Key.computed e).bare) ?_
  refine Reads.bind_last (Reads.between (hr.readsExpr h hn (Follows.of_end rfl))) fun e' he => ?_
  exact Reads.pure ⟨_, rfl, by simp [Key.bare, he]⟩

theorem callLink_reads (hr : Ready n expr stmt pat) {es : List Expr} {optional : Bool}
    (h : Items (Phrase .assignment) es ts) (hn : ts.length ≤ n) :
    Reads (callLink expr optional) (inParens ts) rest fun l =>
      ∃ es', l.2 = .call es' optional ∧ es'.map Expr.bare = es.map Expr.bare := by
  refine located_reads (Q := fun l => ∃ es', l = .call es' optional ∧ es'.map Expr.bare = es.map Expr.bare) ?_
  refine Reads.bind_last (args_reads hr h hn) fun es' hes => ?_
  exact Reads.pure ⟨es', rfl, hes⟩

theorem dotLink_refuses (h : ts.head? ≠ some (.mark .dot)) : Refuses dotLink ts :=
  Refuses.bind (Refuses.spanned (Refuses.bind (Refuses.mark h)))

theorem indexLink_refuses {optional : Bool} (h : ts.head? ≠ some (.mark .leftBracket)) :
    Refuses (indexLink expr optional) ts :=
  Refuses.bind (Refuses.spanned (Refuses.bind (Refuses.between h)))

theorem callLink_refuses {optional : Bool} (h : ts.head? ≠ some (.mark .leftParen)) :
    Refuses (callLink expr optional) ts :=
  Refuses.bind (Refuses.spanned (Refuses.bind (Refuses.between h)))

theorem word_ne_mark {m : String} {k : Mark} : word m ≠ .mark k := by
  rcases word_cases m with ⟨k, -, hm⟩ | ⟨-, hm⟩ <;> simp [hm]

/-- A plain member access is read alike after `new` and elsewhere. -/
theorem plainLink_reads (hr : Ready n expr stmt pat) {k : Key} (h : LinkPhrase k false ts)
    (hn : ts.length ≤ n + 1) :
    Reads (orElse dotLink (indexLink expr false)) ts rest (IsMember k false) := by
  cases h with
  | dot => exact Reads.orElse_left dotLink_reads
  | index h =>
    simp only [enclosed, List.length_cons, List.length_append] at hn
    exact Reads.orElse_right (dotLink_refuses (by simp [enclosed])) (indexLink_reads hr h (by omega))

theorem memberLink_reads (hr : Ready n expr stmt pat) {k : Key} {optional : Bool}
    (h : LinkPhrase k optional ts) (hn : ts.length ≤ n + 1) :
    Reads (link expr) ts rest (IsMember k optional) := by
  cases h with
  | dot => exact Reads.choice [] (by simp) dotLink_reads
  | index h =>
    simp only [enclosed, List.length_cons, List.length_append] at hn
    refine Reads.choice [_] ?_ (indexLink_reads hr h (by omega))
    intro r hr
    obtain rfl := List.mem_singleton.1 hr
    exact dotLink_refuses (by simp [enclosed])
  | @optionalDot m =>
    refine Reads.choice [_, _, _] ?_ (Reads.bind_cons Reads.mark fun _ _ => ?_)
    · intro r hr
      simp only [List.mem_cons, List.not_mem_nil, or_false] at hr
      rcases hr with rfl | rfl | rfl
      · exact dotLink_refuses (by simp)
      · exact indexLink_refuses (by simp)
      · exact callLink_refuses (by simp)
    · refine Reads.choice [_, _] ?_ (located_reads (Q := fun l =>
        ∃ k' : Key, l = .member k' true ∧ k'.bare = (Key.named m).bare) ?_)
      · intro r hr
        simp only [List.mem_cons, List.not_mem_nil, or_false] at hr
        rcases hr with rfl | rfl
        · exact indexLink_refuses (by simpa using word_ne_mark)
        · exact callLink_refuses (by simpa using word_ne_mark)
      · refine Reads.bind_last propertyName_reads ?_
        rintro _ rfl
        exact Reads.pure ⟨_, rfl, rfl⟩
  | @optionalIndex e us h =>
    simp only [enclosed, List.length_cons, List.length_append] at hn
    refine Reads.choice [_, _, _] ?_ (Reads.bind_cons Reads.mark fun _ _ =>
      Reads.choice [] (by simp) (indexLink_reads hr h (by omega)))
    intro r hr
    simp only [List.mem_cons, List.not_mem_nil, or_false] at hr
    rcases hr with rfl | rfl | rfl
    · exact dotLink_refuses (by simp)
    · exact indexLink_refuses (by simp)
    · exact callLink_refuses (by simp)

theorem argumentsLink_reads (hr : Ready n expr stmt pat) {es : List Expr} {optional : Bool}
    (h : Items (Phrase .assignment) es ts) (hn : ts.length ≤ n) :
    Reads (link expr) (tokenIf optional (.mark .questionDot) ++ inParens ts) rest fun l =>
      ∃ es', l.2 = .call es' optional ∧ es'.map Expr.bare = es.map Expr.bare := by
  cases optional with
  | false =>
    refine Reads.choice [_, _] ?_ (callLink_reads hr h hn)
    intro r hr
    simp only [List.mem_cons, List.not_mem_nil, or_false] at hr
    rcases hr with rfl | rfl
    · exact dotLink_refuses (by simp [tokenIf, enclosed])
    · exact indexLink_refuses (by simp [tokenIf, enclosed])
  | true =>
    refine Reads.choice [_, _, _] ?_ (Reads.bind_cons Reads.mark fun _ _ =>
      Reads.choice [_] ?_ (callLink_reads hr h hn))
    · intro r hr
      simp only [List.mem_cons, List.not_mem_nil, or_false] at hr
      rcases hr with rfl | rfl | rfl
      · exact dotLink_refuses (by simp [tokenIf])
      · exact indexLink_refuses (by simp [tokenIf])
      · exact callLink_refuses (by simp [tokenIf])
    · intro r hr
      obtain rfl := List.mem_singleton.1 hr
      exact indexLink_refuses (by simp [enclosed])

end Grammar

end Staging
