import Staging.Proofs.Grammar.Program
import Staging.Proofs.Grammar.Rows

/-!
What the grammar reads is laid out in rows.

There is a step for each rule of the grammar: where the parsers that it takes lay out the spans of what they read, it lays
out the spans of what it builds. Most rules take the span of the tokens they read (`Lays.spanned`). Chains, signs, powers
and the levels of operators put a span together from those of their parts (`Row.join`), and a part in parentheses leaves
them to the tree above it. Main statement: `program_lays`.
-/

namespace Staging.Grammar

open Staging.Parser

/-- The parser lays out the expression it reads. -/
abbrev LaysExpr (p : Parser Expr) : Prop := Lays 1 p fun ts e => ts = [e.spanTree]

/-- The parser lays out the statement it reads. -/
abbrev LaysStmt (p : Parser Stmt) : Prop := Lays 1 p fun ts s => ts = [s.spanTree]

/-- The parser reads nothing that has a span. -/
abbrev Silent {α : Type} (n : Nat) (p : Parser α) : Prop := Lays n p fun ts _ => ts = []

theorem Silent.maybe {α : Type} {n : Nat} {p : Parser α} (hp : Silent n p) : Silent 0 (Parser.maybe p) :=
  (Lays.maybe hp).mono fun _ _ h => h.trans (by simp)

/-! ### Names and patterns -/

theorem mark_lays {m : Mark} : Silent 1 (mark m) := .token

theorem keyword_lays {k : Keyword} : Silent 1 (keyword k) := .token

theorem comma_lays : Silent 1 comma := .token

theorem name_lays : Silent 1 name := .accept fun _ _ _ => rfl

theorem propertyName_lays : Silent 1 propertyName := .accept fun _ _ _ => rfl

theorem patternRule_lays {pat : Parser Pattern} (hp : Silent 1 pat) : Silent 1 (patternRule pat) := by
  refine .choice fun q hq => ?_
  simp only [List.mem_cons, List.not_mem_nil, or_false] at hq
  rcases hq with rfl | rfl | rfl
  · exact name_lays.map fun _ => rfl
  · exact (Lays.between (hp.separatedTrailing comma_lays)).map fun _ => by simp
  · have property : Silent 1 (patternProperty pat) :=
      propertyName_lays.bind fun _ => (mark_lays.bind fun _ => hp).maybe.bind fun _ => .pure (by simp)
    exact (Lays.between (property.separatedTrailing comma_lays)).map fun _ => by simp

theorem pattern_lays (fuel : Nat) : Silent 1 (pattern fuel) := by
  induction fuel with
  | zero =>
    intro input pos p stop alt _ read
    simp [pattern] at read
  | succ fuel ih => exact patternRule_lays ih

section Rules

variable {expr : Parser Expr} {stmt : Parser Stmt} {pat : Parser Pattern}

/-! ### Parts of expressions -/

theorem initializer_lays (he : LaysExpr expr) : Lays 0 (initializer expr) fun ts o => ts = Expr.spanTreesOption o := by
  simp only [Expr.spanTreesOption_eq]
  exact (mark_lays.bind fun _ => he).maybe

theorem params_lays (he : LaysExpr expr) (hp : Silent 1 pat) :
    Lays 1 (params expr pat) fun ts ps => ts = Param.spanTrees ps := by
  have parts : Lays 1 (do
      let rest ← maybe (mark .ellipsis)
      let p ← pat
      let default ← initializer expr
      return (rest.isSome, p, default)) fun ts r => ts = Expr.spanTreesOption r.2.2 :=
    mark_lays.maybe.bind_right fun _ => hp.bind fun _ => (initializer_lays he).bind fun _ => .pure (by simp)
  have one : Lays 1 (param expr pat) fun ts p => ts = [.node p.span (Expr.spanTreesOption p.default)] :=
    parts.spanned.bind fun _ => .pure rfl
  simp only [Param.spanTrees_eq]
  exact .between (one.separatedTrailing comma_lays)

theorem block_lays (hs : LaysStmt stmt) : Lays 1 (block stmt) fun ts ss => ts = Stmt.spanTrees ss := by
  simp only [Stmt.spanTrees_eq]
  exact .between hs.many

theorem args_lays (he : LaysExpr expr) : Lays 1 (args expr) fun ts es => ts = Expr.spanTrees es := by
  simp only [Expr.spanTrees_eq]
  exact .between (he.separatedTrailing comma_lays)

theorem function_lays (he : LaysExpr expr) (hs : LaysStmt stmt) (hp : Silent 1 pat) :
    LaysExpr (function expr stmt pat) := by
  have parts : Lays 1 (do
      keyword .function
      let n ← maybe name
      let ps ← params expr pat
      let body ← block stmt
      return (⟨n, ps, .block body, false⟩ : Func)) fun ts f => ts = f.spanTrees :=
    keyword_lays.bind fun _ => name_lays.maybe.bind fun _ => (params_lays he hp).bind fun _ =>
      (block_lays hs).bind fun _ => .pure (by simp [Func.spanTrees, FuncBody.spanTrees])
  exact parts.spanned.bind fun _ => .pure rfl

/-- The tree of a name is dropped where it is only a key. -/
theorem property_lays (he : LaysExpr expr) : Lays 1 (orElse (namedProperty expr) (keyedProperty expr))
    fun ts p => ts = p.key.spanTrees ++ [p.value.spanTree] := by
  refine .orElse ?_ ?_
  · refine Lays.remake (propertyName_lays.spanned.bind fun r => (mark_lays.bind fun _ => he).maybe.bind fun value =>
      .pure fun row => ?_)
    cases value with
    | none => exact row
    | some e => exact row.unwrap
  · have key : Lays 1 (orElse (accept keyToken) (Key.computed <$> between .leftBracket .rightBracket expr))
        fun ts k => ts = k.spanTrees := by
      refine .orElse (.accept fun t k hk => ?_) ((Lays.between he).map fun _ => rfl)
      cases t <;> simp only [keyToken, Option.some.injEq, reduceCtorEq] at hk <;> (subst hk; rfl)
    exact key.bind fun _ => mark_lays.bind fun _ => he.bind fun _ => .pure (by simp)

theorem atom_lays (he : LaysExpr expr) (hs : LaysStmt stmt) (hp : Silent 1 pat) :
    LaysExpr (atom expr stmt pat) := by
  refine .choice fun q hq => ?_
  simp only [List.mem_cons, List.not_mem_nil, or_false] at hq
  rcases hq with rfl | rfl | rfl | rfl | rfl | rfl
  · have value : Silent 1 (accept literalToken) := .accept fun _ _ _ => rfl
    exact value.spanned.bind fun _ => .pure rfl
  · exact function_lays he hs hp
  · have items : Lays 1 (between .leftBracket .rightBracket (separatedTrailing expr comma))
        fun ts es => ts = Expr.spanTrees es := by
      simp only [Expr.spanTrees_eq]
      exact .between (he.separatedTrailing comma_lays)
    exact items.spanned.bind fun _ => .pure rfl
  · have props : Lays 1 (between .leftBrace .rightBrace
        (separatedTrailing (orElse (namedProperty expr) (keyedProperty expr)) comma))
        fun ts ps => ts = Property.spanTrees ps := by
      simp only [Property.spanTrees_eq]
      exact .between ((property_lays he).separatedTrailing comma_lays)
    exact props.spanned.bind fun _ => .pure rfl
  · exact name_lays.spanned.bind fun _ => .pure rfl
  · exact .between he

/-! ### Chains -/

/-- The trees inside of a link. -/
def Link.spanTrees : Link → List SpanTree
  | .member key _ => key.spanTrees
  | .call args _ => Expr.spanTrees args

/-- A link takes up tokens up to the byte where it ends. -/
def LinkTree (ts : List SpanTree) (link : Nat × Link) : Prop :=
  ∃ start, ts = [.node ⟨start, link.1⟩ link.2.spanTrees]

/-- The trees of links become parts of the chain that they extend. -/
def Extends (ts : List SpanTree) (links : List (Nat × Link)) : Prop :=
  ∀ (root : Expr) (us : List SpanTree),
    Makes (root.spanTree :: (ts ++ us)) ((links.foldl applyLink root).spanTree :: us)

theorem applyLink_makes (root : Expr) {ts us : List SpanTree} {link : Nat × Link} (h : LinkTree ts link) :
    Makes (root.spanTree :: (ts ++ us)) ((applyLink root link).spanTree :: us) := by
  obtain ⟨start, rfl⟩ := h
  obtain ⟨stop, link⟩ := link
  intro input lo hi row
  have whole : ∀ {children}, link.spanTrees = children →
      Row input lo hi (.node ⟨root.span.start, stop⟩ (root.spanTree :: children) :: us) := by
    rintro _ rfl
    rw [← root.span_spanTree]
    exact row.join fun both => by simpa using both.unwrap_second
  cases link <;> exact whole rfl

theorem links_lays {n : Nat} {p : Parser (Nat × Link)} (hp : Lays n p LinkTree) : Lays 0 (many p) Extends :=
  hp.many_of (fun _ _ _ _ _ row => row) fun ts links us link known one root rest input lo hi row => by
    rw [List.foldl_append]
    exact applyLink_makes _ one (known root (us ++ rest) (by simpa using row))

theorem located_lays {p : Parser Link} (hp : Lays 1 p fun ts l => ts = l.spanTrees) : Lays 1 (located p) LinkTree :=
  hp.spanned.bind fun r => .pure ⟨r.1.start, rfl⟩

theorem dotLink_lays : Lays 1 dotLink LinkTree :=
  located_lays (mark_lays.bind fun _ => propertyName_lays.bind fun _ => .pure rfl)

theorem indexLink_lays (he : LaysExpr expr) (optional : Bool) : Lays 1 (indexLink expr optional) LinkTree :=
  located_lays ((Lays.between he).bind fun _ => .pure rfl)

theorem callLink_lays (he : LaysExpr expr) (optional : Bool) : Lays 1 (callLink expr optional) LinkTree :=
  located_lays ((args_lays he).bind fun _ => .pure (List.append_nil _))

theorem optionalLink_lays (he : LaysExpr expr) : Lays 1 (optionalLink expr) LinkTree := by
  have link : Lays 1 (choice [indexLink expr true, callLink expr true,
      located do return .member (.named (← propertyName)) true]) LinkTree := by
    refine .choice fun q hq => ?_
    simp only [List.mem_cons, List.not_mem_nil, or_false] at hq
    rcases hq with rfl | rfl | rfl
    · exact indexLink_lays he true
    · exact callLink_lays he true
    · exact located_lays (propertyName_lays.bind fun _ => .pure rfl)
  exact mark_lays.bind fun _ => link

theorem construction_lays {atom : Parser Expr} (he : LaysExpr expr) (ha : LaysExpr atom) :
    LaysExpr (construction expr atom) := by
  have parts : Lays 1 (do
      keyword .new
      let root ← atom
      let links ← many (orElse dotLink (indexLink expr false))
      let arguments ← maybe (args expr)
      return (links.foldl applyLink root, arguments))
      fun ts r => ts = r.1.spanTree :: Expr.spanTrees (r.2.getD []) :=
    Lays.remake <| keyword_lays.bind fun _ => ha.bind fun root =>
      (links_lays (dotLink_lays.orElse (indexLink_lays he false))).andThen fun ts links chained =>
        (args_lays he).maybe.bind fun arguments => .pure fun row => by
          have trees : arguments.toList.flatMap Expr.spanTrees = Expr.spanTrees (arguments.getD []) := by
            cases arguments <;> simp [Expr.spanTrees]
          exact chained root _ (by simpa [trees] using row)
  exact parts.spanned.bind fun _ => .pure rfl

theorem chain_lays {atom : Parser Expr} (he : LaysExpr expr) (ha : LaysExpr atom) : LaysExpr (chain expr atom) := by
  have link : Lays 1 (choice [dotLink, indexLink expr false, callLink expr false, optionalLink expr]) LinkTree := by
    refine .choice fun q hq => ?_
    simp only [List.mem_cons, List.not_mem_nil, or_false] at hq
    rcases hq with rfl | rfl | rfl | rfl
    · exact dotLink_lays
    · exact indexLink_lays he false
    · exact callLink_lays he false
    · exact optionalLink_lays he
  exact Lays.remake <| ((construction_lays he ha).orElse ha).bind fun root =>
    (links_lays link).andThen fun _ _ chained => .pure fun row => chained root [] row

/-! ### Operators -/

theorem operator_lays {α : Type} {m : Mark} {op : α} : Silent 1 (operator m op) := mark_lays.bind fun _ => .pure rfl

/-- One of several operators. -/
theorem operators_silent (ops : List (Mark × BinaryOp)) : Silent 1 (choice (ops.map fun o => operator o.1 o.2)) := by
  refine .choice fun q hq => ?_
  obtain ⟨o, -, rfl⟩ := List.mem_map.1 hq
  exact operator_lays

theorem postfixUpdate_lays {c : Parser Expr} (hc : LaysExpr c) : LaysExpr (postfixUpdate c) := by
  have update : Lays 1 (spanned (orElse (operator .plusPlus UpdateOp.increment) (operator .minusMinus .decrement)))
      fun ts r => ts = [.node r.1 []] :=
    (operator_lays.orElse operator_lays).spanned
  refine Lays.remake (hc.bind fun target => Lays.bind (m := 0) update.maybe fun u => ?_)
  cases u with
  | none => exact .pure fun row => row
  | some u =>
    refine .pure fun row => ?_
    have joined := row.join fun both => both.unwrap_second
    rwa [target.span_spanTree] at joined

theorem sign_lays : Lays 1 sign fun ts r => ts = [.node r.1 []] := by
  refine Lays.spanned (Lays.choice (P := fun ts _ => ts = []) fun q hq => ?_)
  simp only [List.mem_cons, List.not_mem_nil, or_false] at hq
  rcases hq with rfl | rfl | rfl | rfl | rfl | rfl
  case inr.inr.inr.inl => exact keyword_lays.bind fun _ => .pure rfl
  all_goals exact operator_lays

theorem applySign_makes (s : Span × Sign) (operand : Expr) :
    Makes [.node s.1 [], operand.spanTree] [(applySign s operand).spanTree] := by
  obtain ⟨span, sign⟩ := s
  intro input lo hi row
  have joined := row.join fun both => both.unwrap
  rw [operand.span_spanTree] at joined
  cases sign <;> exact joined

theorem signs_make (signs : List (Span × Sign)) (operand : Expr) :
    Makes (signs.flatMap (fun s => [.node s.1 []]) ++ [operand.spanTree]) [(signs.foldr applySign operand).spanTree] := by
  induction signs with
  | nil => exact fun row => row
  | cons s rest ih => exact fun row => applySign_makes s _ (row.tail ih)

theorem signed_lays {p : Parser Expr} (hp : LaysExpr p) : LaysExpr (signed p) :=
  Lays.remake <| sign_lays.many.bind_right fun signs => hp.bind fun e => .pure fun row => signs_make signs e row

theorem binary_makes (op : BinaryOp) (left right : Expr) (rest : List SpanTree) :
    Makes (left.spanTree :: right.spanTree :: rest) ((binary op left right).spanTree :: rest) := by
  intro input lo hi row
  have joined := row.join fun both => both
  rwa [left.span_spanTree, right.span_spanTree] at joined

theorem powers_make (first : Expr) (rest : List Expr) :
    Makes (first.spanTree :: rest.flatMap fun e => [e.spanTree]) [(powers first rest).spanTree] := by
  induction rest generalizing first with
  | nil => exact fun row => row
  | cons e rest ih => exact fun row => binary_makes .pow first _ [] (row.tail (ih e))

theorem level_makes (first : Expr) (rest : List (BinaryOp × Expr)) :
    Makes (first.spanTree :: rest.flatMap fun r => [r.2.spanTree])
      [(rest.foldl (fun left r => binary r.1 left r.2) first).spanTree] := by
  induction rest generalizing first with
  | nil => exact fun row => row
  | cons r rest ih => exact fun row => ih _ (binary_makes r.1 first r.2 _ row)

theorem level_lays {p : Parser Expr} {op : Parser BinaryOp} (hp : LaysExpr p) (hop : Silent 1 op) :
    LaysExpr (level p op) := by
  have operand : Lays 1 (do let o ← op; let e ← p; return (o, e)) fun ts r => ts = [r.2.spanTree] :=
    hop.bind fun _ => hp.bind fun _ => .pure rfl
  exact Lays.remake <| hp.bind fun first => operand.many.bind fun rest => .pure fun row =>
    level_makes first rest (by simpa using row)

theorem operators_lays {p : Parser Expr} (hp : LaysExpr p) : LaysExpr (operators p) := by
  have power : LaysExpr (power p) := Lays.remake <| hp.bind fun first =>
    Lays.bind (Lays.many (mark_lays.bind fun _ => hp)) fun rest => .pure fun row =>
      powers_make first rest (by simpa using row)
  refine level_lays (level_lays (level_lays (level_lays (level_lays (level_lays (level_lays power
    ?product) (operator_lays.orElse operator_lays)) ?relation) ?equality) operator_lays) operator_lays) operator_lays
  case product => exact operators_silent [(.star, .mul), (.slash, .div), (.percent, .mod)]
  case relation => exact operators_silent [(.le, .le), (.ge, .ge), (.lt, .lt), (.gt, .gt)]
  case equality =>
    exact operators_silent [(.eqEqEq, .strictEq), (.notEqEq, .strictNotEq), (.eqEq, .eq), (.notEq, .notEq)]

/-- Without branches the span of what was read is not used. -/
theorem conditional_lays {p : Parser Expr} (he : LaysExpr expr) (hp : LaysExpr p) : LaysExpr (conditional expr p) := by
  have branches : Lays 1 (do
      mark .question
      let yes ← expr
      mark .colon
      let no ← expr
      return (yes, no)) fun ts b => ts = [b.1.spanTree, b.2.spanTree] :=
    mark_lays.bind fun _ => he.bind fun _ => mark_lays.bind fun _ => he.bind fun _ => .pure rfl
  have parts : Lays 1 (do
      let test ← p
      let branches ← maybe do
        mark .question
        let yes ← expr
        mark .colon
        let no ← expr
        return (yes, no)
      return (test, branches))
      fun ts r => ts = r.1.spanTree :: r.2.toList.flatMap fun b => [b.1.spanTree, b.2.spanTree] :=
    hp.bind fun _ => branches.maybe.bind fun _ => .pure (by simp)
  refine Lays.remake (Lays.bind (m := 0) parts.spanned fun r => ?_)
  obtain ⟨span, test, branches⟩ := r
  cases branches with
  | none => exact .pure fun row => row.unwrap
  | some b => exact .pure fun row => row

theorem assignment_lays {p : Parser Expr} (he : LaysExpr expr) (hp : LaysExpr p) : LaysExpr (assignment expr p) := by
  have value : Lays 1 (do let op ← accept assignToken; let value ← expr; return (op, value))
      fun ts b => ts = [b.2.spanTree] := by
    have op : Silent 1 (accept assignToken) := .accept fun _ _ _ => rfl
    exact op.bind fun _ => he.bind fun _ => .pure rfl
  have parts : Lays 1 (do
      let t ← p
      let right ← maybe do
        let op ← accept assignToken
        let value ← expr
        return (op, value)
      return (t, right)) fun ts r => ts = r.1.spanTree :: r.2.toList.flatMap fun b => [b.2.spanTree] :=
    hp.bind fun _ => value.maybe.bind fun _ => .pure (by simp)
  refine parts.check fun span r e checked => ?_
  obtain ⟨t, right⟩ := r
  cases right with
  | none =>
    obtain rfl : t = e := by simpa using checked
    exact .inr rfl
  | some b =>
    obtain ⟨op, value⟩ := b
    by_cases target : t.isAssignable = true
    · obtain rfl : Expr.assign span op t value = e := by simpa [target] using checked
      exact .inl rfl
    · simp [target] at checked

theorem arrow_lays (he : LaysExpr expr) (hs : LaysStmt stmt) (hp : Silent 1 pat) : LaysExpr (arrow expr stmt pat) := by
  have one : Lays 1 (spanned name >>= fun r => Pure.pure [(⟨r.1, .name r.2, none, false⟩ : Param)])
      fun ts ps => ts = Param.spanTrees ps :=
    name_lays.spanned.bind fun _ => .pure rfl
  have statements : Lays 1 (FuncBody.block <$> block stmt) fun ts b => ts = b.spanTrees :=
    (block_lays hs).map fun _ => rfl
  have value : Lays 1 (FuncBody.expr <$> expr) fun ts b => ts = b.spanTrees := he.map fun _ => rfl
  have parts : Lays 1 (do
      let ps ← orElse (spanned name >>= fun r => Pure.pure [⟨r.1, .name r.2, none, false⟩]) (params expr pat)
      mark .arrow
      let body ← orElse (FuncBody.block <$> block stmt) (FuncBody.expr <$> expr)
      return (⟨none, ps, body, true⟩ : Func)) fun ts f => ts = f.spanTrees :=
    (one.orElse (params_lays he hp)).bind fun _ => mark_lays.bind fun _ => (statements.orElse value).bind fun _ =>
      .pure (by simp [Func.spanTrees])
  exact parts.spanned.bind fun _ => .pure rfl

theorem exprRule_lays (he : LaysExpr expr) (hs : LaysStmt stmt) (hp : Silent 1 pat) :
    LaysExpr (exprRule expr stmt pat) :=
  (arrow_lays he hs hp).orElse (assignment_lays he (conditional_lays he (operators_lays
    (signed_lays (postfixUpdate_lays (chain_lays he (atom_lays he hs hp)))))))

/-! ### Statements -/

theorem semicolon_lays : Silent 0 semicolon := mark_lays.maybe.bind fun _ => .pure rfl

theorem declKind_lays : Silent 1 (accept declKindToken) := .accept fun _ _ _ => rfl

theorem varDecl_lays (he : LaysExpr expr) (hp : Silent 1 pat) :
    Lays 1 (varDecl expr pat) fun ts d => ts = [d.spanTree] := by
  have part : Lays 1 (declarator expr pat) fun ts d => ts = Expr.spanTreesOption d.init :=
    hp.bind fun _ => (initializer_lays he).bind fun _ => .pure (by simp)
  have parts : Lays 1 (do
      let kind ← accept declKindToken
      let ds ← separated1 (declarator expr pat) comma
      return (kind, ds)) fun ts r => ts = Declarator.spanTrees r.2 := by
    simp only [Declarator.spanTrees_eq]
    exact declKind_lays.bind fun _ => (part.separated1 comma_lays).bind fun _ => .pure (by simp)
  exact parts.spanned.bind fun _ => .pure rfl

theorem functionDecl_lays (he : LaysExpr expr) (hs : LaysStmt stmt) (hp : Silent 1 pat) :
    LaysStmt (functionDecl expr stmt pat) := by
  have parts : Lays 1 (do
      keyword .function
      let n ← name
      let ps ← params expr pat
      let body ← block stmt
      return (⟨some n, ps, .block body, false⟩ : Func)) fun ts f => ts = f.spanTrees :=
    keyword_lays.bind fun _ => name_lays.bind fun _ => (params_lays he hp).bind fun _ =>
      (block_lays hs).bind fun _ => .pure (by simp [Func.spanTrees, FuncBody.spanTrees])
  exact parts.spanned.bind fun _ => .pure rfl

theorem ifStmt_lays (he : LaysExpr expr) (hs : LaysStmt stmt) : LaysStmt (ifStmt expr stmt) := by
  have parts : Lays 1 (do
      keyword .if_
      let test ← parens expr
      let yes ← stmt
      let no ← maybe do
        keyword .else_
        stmt
      return (test, yes, no))
      fun ts r => ts = r.1.spanTree :: r.2.1.spanTree :: Stmt.spanTreesOption r.2.2 := by
    simp only [Stmt.spanTreesOption_eq]
    exact keyword_lays.bind fun _ => (Lays.between he).bind fun _ => hs.bind fun _ =>
      (keyword_lays.bind fun _ => hs).maybe.bind fun _ => .pure (by simp)
  exact parts.spanned.bind fun _ => .pure rfl

theorem iterKind_lays : Silent 1 iterKind := by
  refine .orElse ?_ ?_
  all_goals exact keyword_lays.bind fun _ => .pure rfl

theorem forEachStmt_lays (he : LaysExpr expr) (hs : LaysStmt stmt) (hp : Silent 1 pat) :
    LaysStmt (forEachStmt expr stmt pat) := by
  have head : Lays 1 (do
      let decl ← maybe (accept declKindToken)
      let p ← pat
      let kind ← iterKind
      let source ← expr
      return (decl, p, kind, source)) fun ts r => ts = [r.2.2.2.spanTree] :=
    declKind_lays.maybe.bind_right fun _ => hp.bind fun _ => iterKind_lays.bind fun _ => he.bind fun _ => .pure rfl
  have parts : Lays 1 (do
      keyword .for_
      let head ← between .leftParen .rightParen do
        let decl ← maybe (accept declKindToken)
        let p ← pat
        let kind ← iterKind
        let source ← expr
        return (decl, p, kind, source)
      let body ← stmt
      return (head, body)) fun ts r => ts = [r.1.2.2.2.spanTree, r.2.spanTree] :=
    keyword_lays.bind fun _ => (Lays.between head).bind fun _ => hs.bind fun _ => .pure rfl
  exact parts.spanned.bind fun _ => .pure rfl

theorem forInit_lays (he : LaysExpr expr) (hp : Silent 1 pat) :
    Lays 1 (forInit expr pat) fun ts i => ts = [i.spanTree] := by
  refine .orElse ?_ ?_
  · exact (varDecl_lays he hp).map fun _ => rfl
  · exact he.map fun _ => rfl

theorem forStmt_lays (he : LaysExpr expr) (hs : LaysStmt stmt) (hp : Silent 1 pat) :
    LaysStmt (forStmt expr stmt pat) := by
  have head : Lays 0 (do
      let init ← maybe (forInit expr pat)
      mark .semicolon
      let test ← maybe expr
      mark .semicolon
      let update ← maybe expr
      return (init, test, update)) fun ts r => ts = ForInit.spanTreesOption r.1 ++
        (Expr.spanTreesOption r.2.1 ++ Expr.spanTreesOption r.2.2) := by
    simp only [ForInit.spanTreesOption_eq, Expr.spanTreesOption_eq]
    exact (forInit_lays he hp).maybe.bind fun _ => mark_lays.bind fun _ => he.maybe.bind fun _ =>
      mark_lays.bind fun _ => he.maybe.bind fun _ => .pure (by simp)
  have parts : Lays 1 (do
      keyword .for_
      let head ← between .leftParen .rightParen do
        let init ← maybe (forInit expr pat)
        mark .semicolon
        let test ← maybe expr
        mark .semicolon
        let update ← maybe expr
        return (init, test, update)
      let body ← stmt
      return (head, body)) fun ts r => ts = ForInit.spanTreesOption r.1.1 ++
        (Expr.spanTreesOption r.1.2.1 ++ (Expr.spanTreesOption r.1.2.2 ++ [r.2.spanTree])) :=
    keyword_lays.bind fun _ => (Lays.between head).bind fun _ => hs.bind fun _ => .pure (by simp)
  exact parts.spanned.bind fun _ => .pure rfl

theorem jump_lays {k : Keyword} : Lays 1 (jump k) fun ts r => ts = [.node r.1 []] := by
  have parts : Silent 1 (do keyword k; let label ← maybe name; semicolon; return label) :=
    keyword_lays.bind fun _ => name_lays.maybe.bind fun _ => semicolon_lays.bind fun _ => .pure rfl
  exact parts.spanned

theorem catchClause_lays (hs : LaysStmt stmt) (hp : Silent 1 pat) :
    Lays 1 (catchClause stmt pat) fun ts c => ts = Stmt.spanTrees c.body :=
  have param : Silent 1 (between .leftParen .rightParen pat) := .between hp
  keyword_lays.bind fun _ => param.maybe.bind fun _ => (block_lays hs).bind fun _ => .pure (by simp)

theorem tryStmt_lays (hs : LaysStmt stmt) (hp : Silent 1 pat) : LaysStmt (tryStmt stmt pat) := by
  have parts : Lays 1 (do
      keyword .try_
      let body ← block stmt
      let handler ← maybe (catchClause stmt pat)
      let finalizer ← maybe do
        keyword .finally_
        block stmt
      return (body, handler, finalizer)) fun ts r =>
        ts = Stmt.spanTrees r.1 ++ (CatchClause.spanTreesOption r.2.1 ++ Stmt.spanTreesFinal r.2.2) := by
    simp only [CatchClause.spanTreesOption_eq, Stmt.spanTreesFinal_eq]
    exact keyword_lays.bind fun _ => (block_lays hs).bind fun _ => (catchClause_lays hs hp).maybe.bind fun _ =>
      (keyword_lays.bind fun _ => block_lays hs).maybe.bind fun _ => .pure (by simp)
  refine parts.check fun span r s checked => .inl ?_
  obtain ⟨body, handler, last⟩ := r
  by_cases complete : (handler.isNone && last.isNone) = true
  · simp [complete] at checked
  · obtain rfl : Stmt.try_ span body handler last = s := by simpa [complete] using checked
    rfl

theorem stmtRule_lays (he : LaysExpr expr) (hs : LaysStmt stmt) (hp : Silent 1 pat) :
    LaysStmt (stmtRule expr stmt pat) := by
  refine .choice fun q hq => ?_
  simp only [List.mem_cons, List.not_mem_nil, or_false] at hq
  rcases hq with rfl | rfl | rfl | rfl | rfl | rfl | rfl | rfl | rfl | rfl | rfl | rfl | rfl | rfl | rfl
  · exact (varDecl_lays he hp).bind fun _ => semicolon_lays.bind fun _ => .pure rfl
  · exact functionDecl_lays he hs hp
  · exact (block_lays hs).spanned.bind fun _ => .pure rfl
  · have value : Lays 1 (do keyword .return_; let value ← maybe expr; semicolon; return value)
        fun ts o => ts = Expr.spanTreesOption o := by
      simp only [Expr.spanTreesOption_eq]
      exact keyword_lays.bind fun _ => he.maybe.bind fun _ => semicolon_lays.bind fun _ => .pure (by simp)
    exact value.spanned.bind fun _ => .pure rfl
  · exact ifStmt_lays he hs
  · exact forEachStmt_lays he hs hp
  · exact forStmt_lays he hs hp
  · have parts : Lays 1 (do keyword .while_; let test ← parens expr; let body ← stmt; return (test, body))
        fun ts r => ts = [r.1.spanTree, r.2.spanTree] :=
      keyword_lays.bind fun _ => (Lays.between he).bind fun _ => hs.bind fun _ => .pure rfl
    exact parts.spanned.bind fun _ => .pure rfl
  · exact jump_lays.bind fun _ => .pure rfl
  · exact jump_lays.bind fun _ => .pure rfl
  · have value : Lays 1 (do keyword .throw_; let value ← expr; semicolon; return value) fun ts e => ts = [e.spanTree] :=
      keyword_lays.bind fun _ => he.bind fun _ => semicolon_lays.bind fun _ => .pure rfl
    exact value.spanned.bind fun _ => .pure rfl
  · exact tryStmt_lays hs hp
  · have parts : Lays 1 (do let label ← name; mark .colon; let body ← stmt; return (label, body))
        fun ts r => ts = [r.2.spanTree] :=
      name_lays.bind fun _ => mark_lays.bind fun _ => hs.bind fun _ => .pure rfl
    exact parts.spanned.bind fun _ => .pure rfl
  · exact mark_lays.spanned.bind fun _ => .pure rfl
  · have value : Lays 1 (do let e ← expr; semicolon; return e) fun ts e => ts = [e.spanTree] :=
      he.bind fun _ => semicolon_lays.bind fun _ => .pure rfl
    exact value.spanned.bind fun _ => .pure rfl

end Rules

/-! ### Programs -/

mutual

theorem expr_lays : ∀ fuel, LaysExpr (expr fuel)
  | 0 => fun _ _ _ _ _ _ h => by simp [expr] at h
  | fuel + 1 => by
    rw [expr_succ]
    exact exprRule_lays (expr_lays fuel) (stmt_lays fuel) (pattern_lays fuel)

theorem stmt_lays : ∀ fuel, LaysStmt (stmt fuel)
  | 0 => fun _ _ _ _ _ _ h => by simp [stmt] at h
  | fuel + 1 => by
    rw [stmt_succ]
    exact stmtRule_lays (expr_lays fuel) (stmt_lays fuel) (pattern_lays fuel)

end

theorem program_lays (fuel : Nat) : Lays 0 (program fuel) fun ts body => ts = Stmt.spanTrees body := by
  simp only [Stmt.spanTrees_eq]
  exact (stmt_lays fuel).many.bind fun _ => Lays.endOfInput.bind fun _ => .pure (by simp)

end Staging.Grammar
