import Staging.Proofs.Source.ExprText

/-!
Texts of patterns, functions and statements from texts of their parts.

A pattern has one text only. For the others there is again a lemma for each way to put a text together.
Statements end in a semicolon or a brace (`Sentence.last`), so they may be put one right after the other.
-/

namespace Staging

section

variable {p : Precedence} {s : Span} {cs ds es : List Char}

/-! ### Patterns -/

/-- A word that is followed by a separator. -/
theorem Lexes.wordBefore {n : String} {c : Char} {ts : List Token} (h : isNameShaped n = true)
    (hc : isSeparator c = true) (hl : Lexes (c :: cs) ts) :
    Lexes (n.toList ++ c :: cs) (Staging.word n :: ts) :=
  .token (.word h) (Token.Meets.cons (Token.endsBefore_of_isSeparator _ hc)) hl

/-- A comma and a space between two texts. -/
theorem Lexes.commaSpace {ts us : List Token} (h : Lexes cs ts) (h' : Lexes ds us) :
    Lexes (cs ++ (',' :: ' ' :: ds)) (ts ++ .mark .comma :: us) :=
  h.join h'.space.comma rfl

mutual

/-- A printable pattern is written by its text. -/
theorem Pattern.lexes : (q : Pattern) → q.isPrintable = true → Lexes q.text.toList q.tokens
  | .name n, h => Lexes.name h
  | .array items, h => by
    have := (Pattern.lexes_items items h).brackets
    simpa [Pattern.text, Pattern.tokens] using this
  | .object props, h => by
    have := (Pattern.lexes_props props h).inBraces
    simpa [Pattern.text, Pattern.tokens] using this

theorem Pattern.lexes_items : (ps : List Pattern) → Pattern.itemsPrintable ps = true →
    Lexes (", ".intercalate (Pattern.itemTexts ps)).toList (Pattern.itemTokens ps)
  | [], _ => .nil
  | [q], h => by
    have := Pattern.lexes q (by simpa [Pattern.itemsPrintable] using h)
    simpa [Pattern.itemTexts, Pattern.itemTokens, Pattern.moreItemTokens] using this
  | q :: r :: ps, h => by
    simp only [Pattern.itemsPrintable, Bool.and_eq_true] at h
    have first := Pattern.lexes q h.1
    have rest := Pattern.lexes_items (r :: ps) (by simpa [Pattern.itemsPrintable] using h.2)
    have := first.commaSpace rest
    simpa [Pattern.itemTexts, Pattern.itemTokens, Pattern.moreItemTokens, List.intercalate_cons_cons]
      using this

theorem Pattern.lexes_props : (ps : List PatternProperty) → Pattern.propsPrintable ps = true →
    Lexes (", ".intercalate (Pattern.propTexts ps)).toList (Pattern.propTokens ps)
  | [], _ => .nil
  | [⟨key, q⟩], h => by
    simp only [Pattern.propsPrintable, Bool.and_eq_true] at h
    have := ((Pattern.lexes q h.1.2).space.colon).wordBefore h.1.1 rfl
    simpa [Pattern.propTexts, Pattern.propTokens, Pattern.morePropTokens, propertyName, h.1.1] using this
  | ⟨key, q⟩ :: ⟨key', r⟩ :: ps, h => by
    simp only [Pattern.propsPrintable, Bool.and_eq_true] at h
    have first := ((Pattern.lexes q h.1.2).space.colon).wordBefore h.1.1 rfl
    have rest := Pattern.lexes_props (⟨key', r⟩ :: ps) (by simpa [Pattern.propsPrintable] using h.2)
    have := first.commaSpace rest
    simpa [Pattern.propTexts, Pattern.propTokens, Pattern.morePropTokens, List.intercalate_cons_cons,
      propertyName, h.1.1] using this

end

/-! ### Parameters and declarators -/

/-- An initial value: nothing, or an equals sign with spaces around it and the value. -/
def InitialWrites (init : Option Expr) (cs : List Char) : Prop :=
  Writes (InitialPhrase init) cs ∧ ∀ c, cs.head? = some c → isSeparator c = true

theorem InitialWrites.none : InitialWrites none [] :=
  ⟨⟨[], .nil, .none⟩, by rintro _ ⟨⟩⟩

theorem InitialWrites.some {e : Expr} (h : Writes (Phrase .assignment e) cs) :
    InitialWrites (some e) (' ' :: '=' :: ' ' :: cs) := by
  obtain ⟨ts, hl, hg⟩ := h
  refine ⟨⟨_, (hl.spaced .assign).space, .some hg⟩, ?_⟩
  rintro _ ⟨⟩
  rfl

theorem Writes.param {pattern : Pattern} {default : Option Expr} (rest : Bool)
    (hp : pattern.isPrintable = true) (h : InitialWrites default cs) :
    Writes (ParamPhrase ⟨s, pattern, default, rest⟩)
      ((if rest then "..." else "").toList ++ (pattern.text.toList ++ cs)) := by
  obtain ⟨⟨ts, hl, hg⟩, hsep⟩ := h
  have whole := (Pattern.lexes pattern hp).follow hl hsep
  refine ⟨_, ?_, .mk hg⟩
  cases rest with
  | true => exact whole.solo .ellipsis rfl
  | false => exact whole

theorem Writes.declarator {pattern : Pattern} {init : Option Expr} (hp : pattern.isPrintable = true)
    (h : InitialWrites init cs) :
    Writes (DeclaratorPhrase ⟨pattern, init⟩) (pattern.text.toList ++ cs) := by
  obtain ⟨⟨ts, hl, hg⟩, hsep⟩ := h
  exact ⟨_, (Pattern.lexes pattern hp).follow hl hsep, .mk hg⟩

theorem Writes.varDecl (kind : DeclKind) {decls : List Declarator} (hne : decls ≠ [])
    (h : Writes (Items DeclaratorPhrase decls) cs) :
    Writes (DeclPhrase ⟨s, kind, decls⟩) (kind.text.toList ++ ' ' :: cs) := by
  obtain ⟨ts, hl, hg⟩ := h
  rw [DeclKind.text_eq]
  exact ⟨_, hl.space.keyword kind.keyword rfl, .mk hne hg⟩

/-! ### Functions -/

/-- A name after a space, if there is one. -/
def nameText : Option String → List Char
  | none => []
  | some n => ' ' :: n.toList

theorem Lexes.nameBefore {name : Option String} {c : Char} {ts : List Token}
    (hname : name.all isName = true) (hc : isSeparator c = true) (h : Lexes (c :: cs) ts) :
    Lexes (nameText name ++ c :: cs) (nameTokens name ++ ts) := by
  cases name with
  | none => exact h
  | some n => exact ((Lexes.name (by simpa using hname)).join h hc).space

theorem nameText_append (name : Option String) (cs : List Char) {c : Char} (hc : isSeparator c = true) :
    ∃ d ds, nameText name ++ c :: cs = d :: ds ∧ isSeparator d = true := by
  cases name with
  | none => exact ⟨c, cs, rfl, hc⟩
  | some n => exact ⟨' ', _, rfl, rfl⟩

/-- A keyword, possibly a name, and a separator. -/
theorem Lexes.keywordName {name : Option String} {c : Char} {ts : List Token} (k : Keyword)
    (hname : name.all isName = true) (hc : isSeparator c = true) (h : Lexes (c :: cs) ts) :
    Lexes (k.text.toList ++ (nameText name ++ c :: cs)) (.keyword k :: (nameTokens name ++ ts)) := by
  have whole := h.nameBefore hname hc
  obtain ⟨d, ds, hd, hsep⟩ := nameText_append name cs hc
  rw [hd] at whole ⊢
  exact whole.keyword k hsep

theorem Writes.function {name : Option String} {params : List Param} {body : List Stmt}
    (hname : name.all isName = true) (hs : Writes (Items ParamPhrase params) cs)
    (hb : Writes (Sequence Sentence body) ds) :
    Writes (FuncPhrase ⟨name, params, .block body, false⟩)
      ("function".toList ++ (nameText name
        ++ '(' :: (cs ++ ')' :: ' ' :: '\x7b' :: (ds ++ ['\x7d'])))) := by
  obtain ⟨ts, hl, hg⟩ := hs
  obtain ⟨us, hl', hg'⟩ := hb
  exact ⟨_, (hl.parens hl'.inBraces.space).keywordName .function hname rfl, .mk hg hg'⟩

theorem Writes.arrow {params : List Param} {body : FuncBody} (hp : p ≤ .assignment)
    (hs : Writes (Items ParamPhrase params) cs) (hb : Writes (ArrowBody body) ds) :
    Writes (Phrase p (.function s ⟨none, params, body, true⟩))
      ('(' :: (cs ++ ')' :: (" => ".toList ++ ds))) := by
  obtain ⟨ts, hl, hg⟩ := hs
  obtain ⟨us, hl', hg'⟩ := hb
  exact ⟨_, hl.parens (hl'.spaced .arrow).space, .arrow hp hg hg'⟩

theorem Writes.blockBody {body : List Stmt} (h : Writes (Sequence Sentence body) cs) :
    Writes (ArrowBody (.block body)) ('\x7b' :: (cs ++ ['\x7d'])) := by
  obtain ⟨ts, hl, hg⟩ := h
  exact ⟨_, hl.inBraces, .block hg⟩

/-! ### Sequences of statements -/

/-- A statement ends in a semicolon or a brace. -/
theorem Sentence.last : ∀ (s : Stmt) {ts : List Token}, Sentence s ts →
    ∃ m, ts.getLast? = some (.mark m) ∧ m.isSolo = true := by
  intro s ts h
  have ends : ∀ us : List Token, ∃ m, (us ++ [Token.mark .semicolon]).getLast? = some (.mark m)
      ∧ m.isSolo = true := fun us => ⟨.semicolon, by simp, rfl⟩
  have closes : ∀ us vs : List Token, ∃ m, (us ++ inBraces vs).getLast? = some (.mark m)
      ∧ m.isSolo = true := fun us vs =>
    ⟨.rightBrace, by rw [List.getLast?_append, getLast?_enclosed]; rfl, rfl⟩
  have inside : ∀ (us : List Token) {vs : List Token}, (∃ m, vs.getLast? = some (.mark m) ∧ m.isSolo = true) →
      ∃ m, (us ++ vs).getLast? = some (.mark m) ∧ m.isSolo = true := by
    rintro us vs ⟨m, hm, hsolo⟩
    exact ⟨m, by rw [List.getLast?_append, hm]; rfl, hsolo⟩
  have ofFunc : ∀ {f : Func} {us : List Token}, FuncPhrase f us →
      ∃ m, us.getLast? = some (.mark m) ∧ m.isSolo = true := by
    rintro f us ⟨⟩
    rw [← List.singleton_append]
    exact inside _ (inside _ (inside _ (closes [] _)))
  cases h with
  | expr => exact ends _
  | decl => exact ends _
  | function _ h => exact ofFunc h
  | return_ => rw [← List.cons_append]; exact ends _
  | @if_ _ test yes us vs ht hy =>
    rw [← List.cons_append]
    exact inside _ (Sentence.last yes hy)
  | @ifElse _ test yes no us vs ws ht hy hc hn =>
    rw [← List.singleton_append, ← List.singleton_append (x := Token.keyword .else_)]
    exact inside _ (inside _ (inside _ (inside _ (Sentence.last no hn))))
  | @for_ _ init test update body is ts us bs hi ht hu hb =>
    rw [← List.cons_append]
    exact inside _ (Sentence.last body hb)
  | @forEach _ kind decl pattern source body us bs hs hb =>
    rw [← List.cons_append]
    exact inside _ (Sentence.last body hb)
  | @while_ _ test body us bs ht hb =>
    rw [← List.cons_append]
    exact inside _ (Sentence.last body hb)
  | break_ => rw [← List.cons_append]; exact ends _
  | continue_ => rw [← List.cons_append]; exact ends _
  | @labeled _ label body bs hb =>
    exact inside [.ident label, .mark .colon] (Sentence.last body hb)
  | throw_ => rw [← List.cons_append]; exact ends _
  | @try_ _ body handler finalizer us vs ws hb hh hf hsome =>
    rw [← List.singleton_append]
    refine inside _ (inside _ ?_)
    cases hf with
    | some h => exact inside _ (closes [.keyword .finally_] _)
    | none =>
      rw [List.append_nil]
      cases hh with
      | none => cases hsome
      | bare => exact closes [.keyword .catch_] _
      | binding => rw [← List.cons_append]; exact closes _ _
  | block => exact closes [] _
  | empty => exact ends []

theorem Sequence.last {body : List Stmt} {ts : List Token} (h : Sequence Sentence body ts) :
    ∀ t, ts.getLast? = some t → ∃ m, t = .mark m ∧ m.isSolo = true := by
  induction h with
  | nil => rintro t ⟨⟩
  | @cons stmt body ts us h _ ih =>
    intro t ht
    obtain ⟨m, hm, hsolo⟩ := Sentence.last stmt h
    rw [List.getLast?_append] at ht
    cases hus : us.getLast? with
    | none =>
      rw [hus, hm] at ht
      cases ht
      exact ⟨m, rfl, hsolo⟩
    | some t' =>
      rw [hus] at ht
      cases ht
      exact ih t hus

theorem Sequence.append {α : Type} {G : α → List Token → Prop} {as bs : List α} {ts us : List Token}
    (h : Sequence G as ts) (h' : Sequence G bs us) : Sequence G (as ++ bs) (ts ++ us) := by
  induction h with
  | nil => exact h'
  | cons ha _ ih =>
    rw [List.append_assoc]
    exact .cons ha ih

theorem Writes.noStatements : Writes (Sequence Sentence []) [] := ⟨[], .nil, .nil⟩

theorem Writes.oneStatement {stmt : Stmt} (h : Writes (Sentence stmt) cs) :
    Writes (Sequence Sentence [stmt]) cs :=
  h.mono fun ts hg => by
    rw [← List.append_nil ts]
    exact .cons hg .nil

theorem Writes.theStatement {stmt : Stmt} (h : Writes (Sequence Sentence [stmt]) cs) :
    Writes (Sentence stmt) cs :=
  h.mono fun ts hg => by
    cases hg with
    | cons first rest =>
      cases rest
      rwa [List.append_nil]

/-- Statements may be put right after others. -/
theorem Writes.statements_append {body more : List Stmt} (h : Writes (Sequence Sentence body) cs)
    (hs : Writes (Sequence Sentence more) ds) :
    Writes (Sequence Sentence (body ++ more)) (cs ++ ds) := by
  obtain ⟨ts, hl, hg⟩ := h
  obtain ⟨us, hl', hg'⟩ := hs
  refine ⟨_, hl.append hl' fun t ht => ?_, hg.append hg'⟩
  obtain ⟨m, rfl, hsolo⟩ := hg.last t ht
  exact Mark.isSolo.meets hsolo ds

/-! ### Statements -/

theorem Writes.block {body : List Stmt} (h : Writes (Sequence Sentence body) cs) :
    Writes (Sentence (.block s body)) ('\x7b' :: (cs ++ ['\x7d'])) := by
  obtain ⟨ts, hl, hg⟩ := h
  exact ⟨_, hl.inBraces, .block hg⟩

theorem Writes.empty : Writes (Sentence (.empty s)) [';'] := ⟨_, Lexes.nil.semicolon, .empty⟩

/-- An expression that does not begin like a block or a declaration. -/
def StartPhrase (e : Expr) (ts : List Token) : Prop :=
  Phrase .lowest e ts ∧ beginsStatement ts.head? = false

theorem Writes.startParens {e : Expr} (h : Writes (Phrase .lowest e) cs) :
    Writes (StartPhrase e) ('(' :: (cs ++ [')'])) := by
  obtain ⟨ts, hl, hg⟩ := h
  exact ⟨_, hl.inParens, .parens hg, rfl⟩

theorem Writes.exprStmt {e : Expr} (h : Writes (StartPhrase e) cs) :
    Writes (Sentence (.expr s e)) (cs ++ [';']) := by
  obtain ⟨ts, hl, hg, hb⟩ := h
  exact ⟨_, hl.join Lexes.nil.semicolon rfl, .expr hg hb⟩

theorem Writes.declStmt {d : VarDecl} (h : Writes (DeclPhrase d) cs) :
    Writes (Sentence (.decl d)) (cs ++ [';']) := by
  obtain ⟨ts, hl, hg⟩ := h
  exact ⟨_, hl.join Lexes.nil.semicolon rfl, .decl hg⟩

theorem Writes.return_ {e : Expr} (h : Writes (Phrase .lowest e) cs) :
    Writes (Sentence (.return_ s (some e))) ("return ".toList ++ (cs ++ [';'])) := by
  obtain ⟨ts, hl, hg⟩ := h
  exact ⟨_, (hl.join Lexes.nil.semicolon rfl).space.keyword .return_ rfl, .return_ (.some hg)⟩

theorem Writes.returnNothing : Writes (Sentence (.return_ s none)) "return;".toList :=
  ⟨_, Lexes.nil.semicolon.keyword .return_ rfl, .return_ .none⟩

theorem Writes.throw_ {e : Expr} (h : Writes (Phrase .lowest e) cs) :
    Writes (Sentence (.throw_ s e)) ("throw ".toList ++ (cs ++ [';'])) := by
  obtain ⟨ts, hl, hg⟩ := h
  exact ⟨_, (hl.join Lexes.nil.semicolon rfl).space.keyword .throw_ rfl, .throw_ hg⟩

theorem Writes.if_ {test : Expr} {yes : Stmt} (ht : Writes (Phrase .lowest test) cs)
    (hy : Writes (Sentence yes) ds) :
    Writes (Sentence (.if_ s test yes none)) ("if (".toList ++ (cs ++ ')' :: ' ' :: ds)) := by
  obtain ⟨ts, hl, hg⟩ := ht
  obtain ⟨us, hl', hg'⟩ := hy
  exact ⟨_, (hl.parens hl'.space).space.keyword .if_ rfl, .if_ hg hg'⟩

theorem Writes.ifElse {test : Expr} {yes no : Stmt} (ht : Writes (Phrase .lowest test) cs)
    (hy : Writes (Sentence yes) ds) (hc : yes.endsOpen = false) (hn : Writes (Sentence no) es) :
    Writes (Sentence (.if_ s test yes (some no)))
      ("if (".toList ++ (cs ++ ')' :: ' ' :: (ds ++ (" else ".toList ++ es)))) := by
  obtain ⟨ts, hl, hg⟩ := ht
  obtain ⟨us, hl', hg'⟩ := hy
  obtain ⟨vs, hl'', hg''⟩ := hn
  have last := (hl''.space.keyword .else_ rfl).space
  exact ⟨_, (hl.parens (hl'.join last rfl).space).space.keyword .if_ rfl, .ifElse hg hg' hc hg''⟩

theorem Writes.while_ {test : Expr} {body : Stmt} (ht : Writes (Phrase .lowest test) cs)
    (hb : Writes (Sentence body) ds) :
    Writes (Sentence (.while_ s test body)) ("while (".toList ++ (cs ++ ')' :: ' ' :: ds)) := by
  obtain ⟨ts, hl, hg⟩ := ht
  obtain ⟨us, hl', hg'⟩ := hb
  exact ⟨_, (hl.parens hl'.space).space.keyword .while_ rfl, .while_ hg hg'⟩

theorem Writes.noClause : Writes (ClausePhrase none) [] := ⟨[], .nil, .none⟩

theorem Writes.clause {e : Expr} (h : Writes (Phrase .lowest e) cs) :
    Writes (ClausePhrase (some e)) cs :=
  h.mono fun _ => .some

theorem Writes.for_ {init : Option ForInit} {test update : Option Expr} {body : Stmt} {bs : List Char}
    (hi : Writes (ForInitPhrase init) cs) (ht : Writes (ClausePhrase test) ds)
    (hu : Writes (ClausePhrase update) es) (hb : Writes (Sentence body) bs) :
    Writes (Sentence (.for_ s init test update body))
      ("for (".toList ++ ((cs ++ ';' :: (ds ++ ';' :: es)) ++ ')' :: ' ' :: bs)) := by
  obtain ⟨is, hli, hgi⟩ := hi
  obtain ⟨ts, hlt, hgt⟩ := ht
  obtain ⟨us, hlu, hgu⟩ := hu
  obtain ⟨vs, hlb, hgb⟩ := hb
  have head := hli.join (hlt.join hlu.semicolon rfl).semicolon rfl
  exact ⟨_, (head.parens hlb.space).space.keyword .for_ rfl, .for_ hgi hgt hgu hgb⟩

/-- The kind of a declaration with a space after it, if there is one. -/
def declText : Option DeclKind → List Char
  | none => []
  | some k => k.text.toList ++ [' ']

theorem Writes.forEach (kind : IterKind) (decl : Option DeclKind) {pattern : Pattern} {source : Expr}
    {body : Stmt} (hp : pattern.isPrintable = true) (hs : Writes (Phrase .assignment source) cs)
    (hb : Writes (Sentence body) ds) :
    Writes (Sentence (.forEach s kind decl pattern source body))
      ("for (".toList ++ ((declText decl ++ (pattern.text.toList
        ++ ' ' :: (kind.text.toList ++ ' ' :: cs))) ++ ')' :: ' ' :: ds)) := by
  obtain ⟨ts, hl, hg⟩ := hs
  obtain ⟨us, hl', hg'⟩ := hb
  have binding := (Pattern.lexes pattern hp).join (hl.space.keyword kind.keyword rfl).space rfl
  have head : Lexes (declText decl ++ (pattern.text.toList ++ ' ' :: (kind.text.toList ++ ' ' :: cs)))
      ((decl.map fun d => Token.keyword d.keyword).toList
        ++ (pattern.tokens ++ .keyword kind.keyword :: ts)) := by
    rw [IterKind.text_eq]
    cases decl with
    | none => exact binding
    | some d =>
      have := binding.space.keyword d.keyword rfl
      simpa [declText, DeclKind.text_eq] using this
  exact ⟨_, (head.parens hl'.space).space.keyword .for_ rfl, .forEach hg hg'⟩

theorem Writes.break_ {label : Option String} (h : label.all isName = true) :
    Writes (Sentence (.break_ s label)) ("break".toList ++ (nameText label ++ [';'])) :=
  ⟨_, Lexes.nil.semicolon.keywordName .break_ h rfl, .break_⟩

theorem Writes.continue_ {label : Option String} (h : label.all isName = true) :
    Writes (Sentence (.continue_ s label)) ("continue".toList ++ (nameText label ++ [';'])) :=
  ⟨_, Lexes.nil.semicolon.keywordName .continue_ h rfl, .continue_⟩

theorem Writes.labeled {label : String} {body : Stmt} (h : isName label = true)
    (hb : Writes (Sentence body) cs) :
    Writes (Sentence (.labeled s label body)) (label.toList ++ ':' :: ' ' :: cs) := by
  obtain ⟨ts, hl, hg⟩ := hb
  exact ⟨_, (Lexes.name h).join hl.space.colon rfl, .labeled hg⟩

theorem Writes.noHandler : Writes (HandlerPhrase none) [] := ⟨[], .nil, .none⟩

theorem Writes.handler {body : List Stmt} (h : Writes (Sequence Sentence body) cs) :
    Writes (HandlerPhrase (some ⟨none, body⟩)) (" catch ".toList ++ '\x7b' :: (cs ++ ['\x7d'])) := by
  obtain ⟨ts, hl, hg⟩ := h
  exact ⟨_, (hl.inBraces.space.keyword .catch_ rfl).space, .bare hg⟩

theorem Writes.handlerBinding {pattern : Pattern} {body : List Stmt} (hp : pattern.isPrintable = true)
    (h : Writes (Sequence Sentence body) cs) :
    Writes (HandlerPhrase (some ⟨some pattern, body⟩))
      (" catch (".toList ++ (pattern.text.toList ++ ')' :: ' ' :: '\x7b' :: (cs ++ ['\x7d']))) := by
  obtain ⟨ts, hl, hg⟩ := h
  exact ⟨_, (((Pattern.lexes pattern hp).parens hl.inBraces.space).space.keyword .catch_ rfl).space,
    .binding hg⟩

theorem Writes.noFinalizer : Writes (FinalPhrase none) [] := ⟨[], .nil, .none⟩

theorem Writes.finalizer {body : List Stmt} (h : Writes (Sequence Sentence body) cs) :
    Writes (FinalPhrase (some body)) (" finally ".toList ++ '\x7b' :: (cs ++ ['\x7d'])) := by
  obtain ⟨ts, hl, hg⟩ := h
  exact ⟨_, (hl.inBraces.space.keyword .finally_ rfl).space, .some hg⟩

theorem Writes.try_ {body : List Stmt} {handler : Option CatchClause} {finalizer : Option (List Stmt)}
    (hb : Writes (Sequence Sentence body) cs) (hh : Writes (HandlerPhrase handler) ds)
    (hf : Writes (FinalPhrase finalizer) es) (hsome : (handler.isNone && finalizer.isNone) = false)
    (he : ∀ c, es.head? = some c → isSeparator c = true) :
    Writes (Sentence (.try_ s body handler finalizer))
      ("try ".toList ++ '\x7b' :: (cs ++ '\x7d' :: (ds ++ es))) := by
  obtain ⟨ts, hl, hg⟩ := hb
  obtain ⟨us, hl', hg'⟩ := hh
  obtain ⟨vs, hl'', hg''⟩ := hf
  exact ⟨_, (hl.braces (hl'.follow hl'' he)).space.keyword .try_ rfl, .try_ hg hg' hg'' hsome⟩

end

end Staging
