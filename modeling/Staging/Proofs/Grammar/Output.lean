import Staging.Proofs.Grammar.Gives
import Staging.Proofs.Grammar.Program
import Staging.Proofs.Source.Readable
import Staging.Source.Grammar.Program

/-!
What the grammar produces.

`Yields p P` says that every value of the parser satisfies `P`, where tokens are what the scanner makes of a source. There
is a law for each combinator and a step for each rule of the grammar. What is said of trees is a parameter (`TreeKind`):
each step ends in the closure property for the node that the rule builds, so what is closed under all of them holds of
everything that is read (`TreeKind.Closed.of_parseProgram`). So it is with being readable: `readable_of_parseProgram`.
-/

namespace Staging

/-- A name token holds a name, and a numeral begins with a digit. -/
def Token.Proper : Token → Prop
  | .ident n => isName n = true
  | .number spelling => ∃ c cs, spelling = String.ofList (c :: cs) ∧ c.isDigit = true
  | _ => True

/-- Where tokens are proper, every value of the parser satisfies `P`. -/
def Yields {α : Type} (p : Parser α) (P : α → Prop) : Prop := Gives Token.Proper p fun _ a => P a

namespace Yields

variable {α β : Type} {p q : Parser α} {P : α → Prop} {R : β → Prop}

theorem pure {a : α} (h : P a) : Yields (Pure.pure a : Parser α) P := Gives.pure h

theorem bind {f : α → Parser β} (hp : Yields p P) (hf : ∀ a, P a → Yields (f a) R) : Yields (p >>= f) R :=
  Gives.bind hp fun _ a ha => hf a ha

theorem map {f : α → β} (hp : Yields p P) (hf : ∀ a, P a → R (f a)) : Yields (f <$> p) R :=
  Gives.map hp fun _ a ha => hf a ha

theorem accept {f : Token → Option α} (h : ∀ t a, t.Proper → f t = some a → P a) :
    Yields (Parser.accept f) P := Gives.accept h

theorem mark {m : Mark} : Yields (Parser.mark m) fun _ => True := Gives.token fun _ => trivial

theorem keyword {k : Keyword} : Yields (Parser.keyword k) fun _ => True := Gives.token fun _ => trivial

theorem orElse (hp : Yields p P) (hq : Yields q P) : Yields (Parser.orElse p q) P := Gives.orElse hp hq

theorem choice {ps : List (Parser α)} (h : ∀ q ∈ ps, Yields q P) : Yields (Parser.choice ps) P :=
  Gives.choice h

theorem maybe (hp : Yields p P) : Yields (Parser.maybe p) fun o => ∀ a ∈ o, P a :=
  Gives.maybe hp (fun _ a ha => by simpa using ha) (by simp)

theorem spanned (hp : Yields p P) : Yields (Parser.spanned p) fun r => P r.2 :=
  Gives.spanned hp fun _ _ _ ha => ha

theorem check {f : α → Span → Except (String × Span) β} (hp : Yields p P)
    (h : ∀ s a b, P a → f a s = .ok b → R b) : Yields (Parser.check p f) R :=
  Gives.check hp fun _ s a b ha hb => h s a b ha hb

theorem many (hp : Yields p P) : Yields (Parser.many p) fun as => ∀ a ∈ as, P a :=
  Gives.many hp (by simp) fun _ as _ a has ha => by
    simpa [or_imp, forall_and] using And.intro has ha

theorem comma : Gives Token.Proper Grammar.comma fun ts _ => ts = [.mark .comma] := Gives.token fun _ => rfl

theorem separated1 (hp : Yields p P) :
    Yields (Parser.separated1 p Grammar.comma) fun as => as ≠ [] ∧ ∀ a ∈ as, P a :=
  Gives.separated1 hp comma (fun _ a ha => by simpa using ha) fun _ as _ a has ha => by
    simpa [or_imp, forall_and] using And.intro has.2 ha

theorem separatedTrailing (hp : Yields p P) :
    Yields (Parser.separatedTrailing p Grammar.comma) fun as => ∀ a ∈ as, P a :=
  Gives.separatedTrailing hp comma (by simp) (fun _ a ha => by simpa using ha)
    (fun _ as _ a has ha => by simpa [or_imp, forall_and] using And.intro has ha) fun _ _ has => has

theorem between {o c : Mark} (hp : Yields p P) : Yields (Parser.between o c p) P :=
  Gives.between hp fun _ _ ha => ha

/-- A mark or a keyword in front of something. -/
theorem after {m : Parser Unit} (hm : Yields m fun _ => True) (hp : Yields p P) :
    Yields (m >>= fun _ => p) P :=
  hm.bind fun _ _ => hp

end Yields

/-! ### Kinds of trees -/

/-- What is said of expressions, of statements and of patterns. -/
structure TreeKind where
  expr : Expr → Prop
  stmt : Stmt → Prop
  pattern : Pattern → Prop

namespace TreeKind

variable (K : TreeKind)

/-- The key of an access: a name has the shape of one. -/
def key : Key → Prop
  | .named n => isNameShaped n = true
  | .computed e => K.expr e

def property (p : Property) : Prop := (∀ e, p.key = .computed e → K.expr e) ∧ K.expr p.value

def param (p : Param) : Prop := K.pattern p.pattern ∧ ∀ e ∈ p.default, K.expr e

def declarator (d : Declarator) : Prop := K.pattern d.pattern ∧ ∀ e ∈ d.init, K.expr e

def body : FuncBody → Prop
  | .block body => ∀ s ∈ body, K.stmt s
  | .expr e => K.expr e

/-- The beginning of a `for` head. -/
def init : ForInit → Prop
  | .decl ⟨_, _, ds⟩ => ds ≠ [] ∧ ∀ d ∈ ds, K.declarator d
  | .expr e => K.expr e

def handler (c : CatchClause) : Prop := (∀ p ∈ c.param, K.pattern p) ∧ ∀ s ∈ c.body, K.stmt s

/-- What extends a chain. -/
def link : Grammar.Link → Prop
  | .member key _ => K.key key
  | .call args _ => ∀ e ∈ args, K.expr e

/-- A tree that the grammar builds is of the kind, if its parts are. -/
structure Closed : Prop where
  literal {s t v} : t.Proper → Grammar.literalToken t = some v → K.expr (.literal s v)
  ident {s n} : K.expr (.ident s n)
  array {s items} : (∀ e ∈ items, K.expr e) → K.expr (.array s items)
  object {s props} : (∀ p ∈ props, K.property p) → K.expr (.object s props)
  function {s name params body} : (∀ n ∈ name, isName n = true) → (∀ p ∈ params, K.param p) → (∀ x ∈ body, K.stmt x) →
    K.expr (.function s ⟨name, params, .block body, false⟩)
  arrow {s params body} : (∀ p ∈ params, K.param p) → K.body body → K.expr (.function s ⟨none, params, body, true⟩)
  unary {s op e} : K.expr e → K.expr (.unary s op e)
  update {s op before e} : K.expr e → K.expr (.update s op before e)
  binary {s op a b} : K.expr a → K.expr b → K.expr (.binary s op a b)
  assign {s op a b} : a.isAssignable = true → K.expr a → K.expr b → K.expr (.assign s op a b)
  cond {s a b c} : K.expr a → K.expr b → K.expr c → K.expr (.cond s a b c)
  member {s e k optional} : K.expr e → K.key k → K.expr (.member s e k optional)
  call {s e args optional} : K.expr e → (∀ a ∈ args, K.expr a) → K.expr (.call s e args optional)
  new {s e args} : K.expr e → (∀ a ∈ args, K.expr a) → K.expr (.new s e args)
  namePattern {n} : K.pattern (.name n)
  arrayPattern {items} : (∀ p ∈ items, K.pattern p) → K.pattern (.array items)
  objectPattern {props} : (∀ p ∈ props, isNameShaped p.key = true ∧ K.pattern p.value) → K.pattern (.object props)
  exprStmt {s e} : K.expr e → K.stmt (.expr s e)
  decl {s kind ds} : ds ≠ [] → (∀ d ∈ ds, K.declarator d) → K.stmt (.decl ⟨s, kind, ds⟩)
  functionStmt {s name params body} : isName name = true → (∀ p ∈ params, K.param p) → (∀ x ∈ body, K.stmt x) →
    K.stmt (.function s ⟨some name, params, .block body, false⟩)
  return_ {s e} : (∀ x ∈ e, K.expr x) → K.stmt (.return_ s e)
  if_ {s e yes no} : K.expr e → K.stmt yes → (∀ x ∈ no, K.stmt x) → K.stmt (.if_ s e yes no)
  forEach {s kind decl p e a} : K.pattern p → K.expr e → K.stmt a → K.stmt (.forEach s kind decl p e a)
  for_ {s init test update a} : (∀ i ∈ init, K.init i) → (∀ x ∈ test, K.expr x) → (∀ x ∈ update, K.expr x) → K.stmt a →
    K.stmt (.for_ s init test update a)
  while_ {s e a} : K.expr e → K.stmt a → K.stmt (.while_ s e a)
  break_ {s label} : (∀ l ∈ label, isName l = true) → K.stmt (.break_ s label)
  continue_ {s label} : (∀ l ∈ label, isName l = true) → K.stmt (.continue_ s label)
  labeled {s label a} : isName label = true → K.stmt a → K.stmt (.labeled s label a)
  throw_ {s e} : K.expr e → K.stmt (.throw_ s e)
  try_ {s body handler last} : (handler.isNone && last.isNone) = false → (∀ x ∈ body, K.stmt x) →
    (∀ c ∈ handler, K.handler c) → (∀ b ∈ last, ∀ x ∈ b, K.stmt x) → K.stmt (.try_ s body handler last)
  block {s body} : (∀ x ∈ body, K.stmt x) → K.stmt (.block s body)
  empty {s} : K.stmt (.empty s)

end TreeKind

namespace Grammar

open Staging.Parser

variable {K : TreeKind} (closed : K.Closed)

/-! ### Names and patterns -/

theorem name_yields : Yields name fun n => isName n = true := by
  refine .accept fun t n proper ht => ?_
  cases t with
  | ident m =>
    obtain rfl : m = n := by simpa using ht
    exact proper
  | _ => cases ht

theorem isNameShaped_keyword (k : Keyword) : isNameShaped k.text = true := by
  cases k <;> decide +kernel

theorem propertyName_yields : Yields propertyName fun n => isNameShaped n = true := by
  refine .accept fun t n proper ht => ?_
  cases t with
  | ident m =>
    obtain rfl : m = n := by simpa using ht
    have : isName m = true := proper
    simp only [isName, Bool.and_eq_true] at this
    exact this.1
  | keyword k =>
    obtain rfl : k.text = n := by simpa using ht
    exact isNameShaped_keyword k
  | _ => cases ht

include closed in
theorem patternRule_yields {pat : Parser Pattern} (hp : Yields pat K.pattern) :
    Yields (patternRule pat) K.pattern := by
  refine .choice fun q hq => ?_
  simp only [List.mem_cons, List.not_mem_nil, or_false] at hq
  rcases hq with rfl | rfl | rfl
  · exact name_yields.map fun n _ => closed.namePattern
  · exact (Yields.between hp.separatedTrailing).map fun _ h => closed.arrayPattern h
  · refine (Yields.between (Yields.separatedTrailing ?_)).map fun _ h => closed.objectPattern h
    refine propertyName_yields.bind fun key hkey => (Yields.mark.after hp).maybe.bind fun value hvalue => ?_
    refine .pure ⟨hkey, ?_⟩
    cases value with
    | none => exact closed.namePattern
    | some p => exact hvalue p rfl

include closed in
theorem pattern_yields (fuel : Nat) : Yields (pattern fuel) K.pattern := by
  induction fuel with
  | zero =>
    intro input pos p stop alt _ read
    simp [pattern] at read
  | succ fuel ih => exact patternRule_yields closed ih

section Rules

variable {expr : Parser Expr} {stmt : Parser Stmt} {pat : Parser Pattern}

/-! ### Parts of expressions -/

theorem initializer_yields (he : Yields expr K.expr) :
    Yields (initializer expr) fun o => ∀ e ∈ o, K.expr e :=
  (Yields.mark.after he).maybe

theorem params_yields (he : Yields expr K.expr) (hp : Yields pat K.pattern) :
    Yields (params expr pat) fun ps => ∀ p ∈ ps, K.param p := by
  have parts : Yields (do
      let rest ← maybe (mark .ellipsis)
      let p ← pat
      let default ← initializer expr
      return (rest.isSome, p, default)) fun r => K.pattern r.2.1 ∧ ∀ e ∈ r.2.2, K.expr e :=
    Yields.mark.maybe.bind fun _ _ => hp.bind fun _ hpat => (initializer_yields he).bind fun _ hinit =>
      .pure ⟨hpat, hinit⟩
  exact .between (.separatedTrailing (parts.spanned.bind fun _ h => .pure h))

theorem block_yields (hs : Yields stmt K.stmt) : Yields (block stmt) fun ss => ∀ s ∈ ss, K.stmt s :=
  .between hs.many

theorem args_yields (he : Yields expr K.expr) : Yields (args expr) fun es => ∀ e ∈ es, K.expr e :=
  .between he.separatedTrailing

include closed in
theorem function_yields (he : Yields expr K.expr) (hs : Yields stmt K.stmt)
    (hp : Yields pat K.pattern) : Yields (function expr stmt pat) K.expr := by
  have parts : Yields (do
      keyword .function
      let n ← maybe name
      let ps ← params expr pat
      let body ← block stmt
      return (⟨n, ps, .block body, false⟩ : Func)) fun f => ∀ s, K.expr (Expr.function s f) :=
    Yields.keyword.after (name_yields.maybe.bind fun _ hn => (params_yields he hp).bind fun _ hps =>
      (block_yields hs).bind fun _ hb => .pure fun _ => closed.function hn hps hb)
  exact parts.spanned.bind fun r h => .pure (h r.1)

include closed in
theorem property_yields (he : Yields expr K.expr) :
    Yields (orElse (namedProperty expr) (keyedProperty expr)) K.property := by
  refine .orElse ?_ ?_
  · refine propertyName_yields.spanned.bind fun r _ => (Yields.mark.after he).maybe.bind fun value hvalue => ?_
    refine .pure ⟨nofun, ?_⟩
    cases value with
    | none => exact closed.ident
    | some e => exact hvalue e rfl
  · have key : Yields (orElse (accept keyToken) (Key.computed <$> between .leftBracket .rightBracket expr))
        fun k => ∀ e, k = .computed e → K.expr e := by
      refine .orElse (.accept fun t k _ hk => ?_) ((Yields.between he).map fun e h => ?_)
      · cases t <;> simp only [keyToken, Option.some.injEq, reduceCtorEq] at hk <;> (subst hk; nofun)
      · rintro _ ⟨⟩
        exact h
    exact key.bind fun _ hk => Yields.mark.after (he.bind fun _ hv => .pure ⟨hk, hv⟩)

include closed in
theorem atom_yields (he : Yields expr K.expr) (hs : Yields stmt K.stmt)
    (hp : Yields pat K.pattern) : Yields (atom expr stmt pat) K.expr := by
  refine .choice fun q hq => ?_
  simp only [List.mem_cons, List.not_mem_nil, or_false] at hq
  rcases hq with rfl | rfl | rfl | rfl | rfl | rfl
  · have literal : Yields (accept literalToken) fun v => ∀ s, K.expr (.literal s v) :=
      .accept fun t v proper is s => closed.literal proper is
    exact literal.spanned.bind fun r h => .pure (h r.1)
  · exact function_yields closed he hs hp
  · exact (Yields.between he.separatedTrailing).spanned.bind fun _ h => .pure (closed.array h)
  · exact (Yields.between (property_yields closed he).separatedTrailing).spanned.bind fun _ h => .pure (closed.object h)
  · exact name_yields.spanned.bind fun r _ => .pure closed.ident
  · exact .between he

/-! ### Chains -/

include closed in
theorem applyLink_of_closed {target : Expr} {link : Nat × Link} (ht : K.expr target) (hl : K.link link.2) :
    K.expr (applyLink target link) := by
  obtain ⟨stop, link⟩ := link
  cases link with
  | member key optional => exact closed.member ht hl
  | call args optional => exact closed.call ht hl

include closed in
theorem applyLinks_of_closed {links : List (Nat × Link)} {root : Expr} (hr : K.expr root)
    (hl : ∀ l ∈ links, K.link l.2) : K.expr (links.foldl applyLink root) := by
  induction links generalizing root with
  | nil => exact hr
  | cons link rest ih =>
    rw [List.forall_mem_cons] at hl
    exact ih (applyLink_of_closed closed hr hl.1) hl.2

theorem located_yields {p : Parser Link} (hp : Yields p K.link) :
    Yields (located p) fun l => K.link l.2 :=
  hp.spanned.bind fun _ h => .pure h

theorem dotLink_yields : Yields dotLink fun l => K.link l.2 :=
  located_yields (Yields.mark.after (propertyName_yields.bind fun _ h => .pure h))

theorem indexLink_yields (he : Yields expr K.expr) (optional : Bool) :
    Yields (indexLink expr optional) fun l => K.link l.2 :=
  located_yields ((Yields.between he).bind fun _ h => .pure h)

theorem callLink_yields (he : Yields expr K.expr) (optional : Bool) :
    Yields (callLink expr optional) fun l => K.link l.2 :=
  located_yields ((args_yields he).bind fun _ h => .pure h)

theorem optionalLink_yields (he : Yields expr K.expr) :
    Yields (optionalLink expr) fun l => K.link l.2 := by
  refine Yields.mark.after (.choice fun q hq => ?_)
  simp only [List.mem_cons, List.not_mem_nil, or_false] at hq
  rcases hq with rfl | rfl | rfl
  · exact indexLink_yields he true
  · exact callLink_yields he true
  · exact located_yields (propertyName_yields.bind fun _ h => .pure h)

include closed in
theorem construction_yields {atom : Parser Expr} (he : Yields expr K.expr)
    (ha : Yields atom K.expr) : Yields (construction expr atom) K.expr := by
  have parts : Yields (do
      keyword .new
      let root ← atom
      let links ← many (orElse dotLink (indexLink expr false))
      let arguments ← maybe (args expr)
      return (links.foldl applyLink root, arguments))
      fun r => K.expr r.1 ∧ ∀ es ∈ r.2, ∀ e ∈ es, K.expr e :=
    Yields.keyword.after (ha.bind fun _ hroot => (dotLink_yields.orElse (indexLink_yields he false)).many.bind
      fun _ hlinks => (args_yields he).maybe.bind fun _ hargs =>
        .pure ⟨applyLinks_of_closed closed hroot hlinks, hargs⟩)
  refine parts.spanned.bind fun r h => .pure ?_
  obtain ⟨span, callee, arguments⟩ := r
  refine closed.new h.1 ?_
  cases arguments with
  | none => simp
  | some es => exact h.2 es rfl

include closed in
theorem chain_yields {atom : Parser Expr} (he : Yields expr K.expr) (ha : Yields atom K.expr) :
    Yields (chain expr atom) K.expr := by
  have link : Yields (choice [dotLink, indexLink expr false, callLink expr false, optionalLink expr])
      fun l => K.link l.2 := by
    refine .choice fun q hq => ?_
    simp only [List.mem_cons, List.not_mem_nil, or_false] at hq
    rcases hq with rfl | rfl | rfl | rfl
    · exact dotLink_yields
    · exact indexLink_yields he false
    · exact callLink_yields he false
    · exact optionalLink_yields he
  exact ((construction_yields closed he ha).orElse ha).bind fun _ hroot => link.many.bind fun _ hlinks =>
    .pure (applyLinks_of_closed closed hroot hlinks)

/-! ### Operators -/

theorem operator_yields {α : Type} {m : Mark} {op : α} : Yields (operator m op) fun _ => True :=
  Yields.mark.bind fun _ _ => .pure trivial

/-- One of several operators. -/
theorem operators_choice (ops : List (Mark × BinaryOp)) :
    Yields (choice (ops.map fun o => operator o.1 o.2)) fun _ => True := by
  refine .choice fun q hq => ?_
  obtain ⟨o, -, rfl⟩ := List.mem_map.1 hq
  exact operator_yields

include closed in
theorem postfixUpdate_yields {c : Parser Expr} (hc : Yields c K.expr) :
    Yields (postfixUpdate c) K.expr := by
  refine hc.bind fun target ht => (operator_yields.orElse operator_yields).spanned.maybe.bind fun update _ => ?_
  cases update with
  | none => exact .pure ht
  | some u => exact .pure (closed.update ht)

include closed in
theorem signed_yields {p : Parser Expr} (hp : Yields p K.expr) : Yields (signed p) K.expr := by
  have sign : Yields sign fun _ => True := by
    refine Yields.spanned (P := fun _ => True) (.choice fun q hq => ?_)
    simp only [List.mem_cons, List.not_mem_nil, or_false] at hq
    rcases hq with rfl | rfl | rfl | rfl | rfl | rfl
    case inr.inr.inr.inl => exact Yields.keyword.bind fun _ _ => .pure trivial
    all_goals exact operator_yields
  refine sign.many.bind fun signs _ => hp.bind fun e he => .pure ?_
  clear * - he closed
  induction signs with
  | nil => exact he
  | cons s rest ih =>
    obtain ⟨span, sign⟩ := s
    cases sign with
    | unary op => exact closed.unary ih
    | update op => exact closed.update ih

include closed in
theorem powers_of_closed {first : Expr} {rest : List Expr} (hf : K.expr first) (hr : ∀ e ∈ rest, K.expr e) :
    K.expr (powers first rest) := by
  induction rest generalizing first with
  | nil => exact hf
  | cons e rest ih =>
    rw [List.forall_mem_cons] at hr
    exact closed.binary hf (ih hr.1 hr.2)

include closed in
theorem level_yields {p : Parser Expr} {op : Parser BinaryOp} (hp : Yields p K.expr)
    (hop : Yields op fun _ => True) : Yields (level p op) K.expr := by
  have operand : Yields (do let o ← op; let e ← p; return (o, e)) fun r => K.expr r.2 :=
    hop.bind fun _ _ => hp.bind fun _ h => .pure h
  refine hp.bind fun first hfirst => operand.many.bind fun rest hrest => .pure ?_
  induction rest generalizing first with
  | nil => exact hfirst
  | cons r rest ih =>
    rw [List.forall_mem_cons] at hrest
    exact ih _ (closed.binary hfirst hrest.1) hrest.2

include closed in
theorem operators_yields {p : Parser Expr} (hp : Yields p K.expr) : Yields (operators p) K.expr := by
  have power : Yields (power p) K.expr :=
    hp.bind fun _ hf => (Yields.mark.after hp).many.bind fun _ hr => .pure (powers_of_closed closed hf hr)
  have next {q : Parser Expr} {op : Parser BinaryOp} (hq : Yields q K.expr) (hop : Yields op fun _ => True) :
      Yields (level q op) K.expr := level_yields closed hq hop
  refine next (next (next (next (next (next (next power ?product) (operator_yields.orElse operator_yields)) ?relation)
    ?equality) operator_yields) operator_yields) operator_yields
  case product => exact operators_choice [(.star, .mul), (.slash, .div), (.percent, .mod)]
  case relation => exact operators_choice [(.le, .le), (.ge, .ge), (.lt, .lt), (.gt, .gt)]
  case equality =>
    exact operators_choice [(.eqEqEq, .strictEq), (.notEqEq, .strictNotEq), (.eqEq, .eq), (.notEq, .notEq)]

include closed in
theorem conditional_yields {p : Parser Expr} (he : Yields expr K.expr) (hp : Yields p K.expr) :
    Yields (conditional expr p) K.expr := by
  have parts : Yields (do
      let test ← p
      let branches ← maybe do
        mark .question
        let yes ← expr
        mark .colon
        let no ← expr
        return (yes, no)
      return (test, branches)) fun r => K.expr r.1 ∧ ∀ b ∈ r.2, K.expr b.1 ∧ K.expr b.2 := by
    refine hp.bind fun _ ht => Yields.bind (Yields.maybe (P := fun b => K.expr b.1 ∧ K.expr b.2) ?_)
      fun _ hb => .pure ⟨ht, hb⟩
    exact Yields.mark.after (he.bind fun _ hy => Yields.mark.after (he.bind fun _ hn => .pure ⟨hy, hn⟩))
  refine parts.spanned.bind fun r h => ?_
  obtain ⟨span, test, branches⟩ := r
  cases branches with
  | none => exact .pure h.1
  | some b => exact .pure (closed.cond h.1 (h.2 b rfl).1 (h.2 b rfl).2)

include closed in
theorem assignment_yields {p : Parser Expr} (he : Yields expr K.expr) (hp : Yields p K.expr) :
    Yields (assignment expr p) K.expr := by
  have parts : Yields (do
      let t ← p
      let right ← maybe do
        let op ← accept assignToken
        let value ← expr
        return (op, value)
      return (t, right)) fun r => K.expr r.1 ∧ ∀ b ∈ r.2, K.expr b.2 := by
    refine hp.bind fun _ ht => Yields.bind (Yields.maybe (P := fun b => K.expr b.2) ?_)
      fun _ hb => .pure ⟨ht, hb⟩
    exact (Yields.accept (P := fun _ => True) fun _ _ _ _ => trivial).bind fun _ _ => he.bind fun _ hv => .pure hv
  refine parts.check fun span r e h hr => ?_
  obtain ⟨t, right⟩ := r
  cases right with
  | none =>
    obtain rfl : t = e := by simpa using hr
    exact h.1
  | some b =>
    obtain ⟨op, value⟩ := b
    by_cases target : t.isAssignable = true
    · obtain rfl : Expr.assign span op t value = e := by simpa [target] using hr
      exact closed.assign target h.1 (h.2 _ rfl)
    · simp [target] at hr

include closed in
theorem arrow_yields (he : Yields expr K.expr) (hs : Yields stmt K.stmt)
    (hp : Yields pat K.pattern) : Yields (arrow expr stmt pat) K.expr := by
  have one : Yields (spanned name >>= fun r => Pure.pure [(⟨r.1, .name r.2, none, false⟩ : Param)])
      fun ps => ∀ p ∈ ps, K.param p :=
    name_yields.spanned.bind fun r _ => .pure (List.forall_mem_singleton.2 ⟨closed.namePattern, nofun⟩)
  have body : Yields (orElse (FuncBody.block <$> block stmt) (FuncBody.expr <$> expr)) K.body :=
    ((block_yields hs).map fun _ h => h).orElse (he.map fun _ h => h)
  have parts : Yields (do
      let ps ← orElse (spanned name >>= fun r => Pure.pure [⟨r.1, .name r.2, none, false⟩]) (params expr pat)
      mark .arrow
      let body ← orElse (FuncBody.block <$> block stmt) (FuncBody.expr <$> expr)
      return (⟨none, ps, body, true⟩ : Func)) fun f => ∀ s, K.expr (Expr.function s f) :=
    (one.orElse (params_yields he hp)).bind fun _ hps => Yields.mark.after (body.bind fun _ hb =>
      .pure fun _ => closed.arrow hps hb)
  exact parts.spanned.bind fun r h => .pure (h r.1)

include closed in
theorem exprRule_yields (he : Yields expr K.expr) (hs : Yields stmt K.stmt)
    (hp : Yields pat K.pattern) : Yields (exprRule expr stmt pat) K.expr :=
  (arrow_yields closed he hs hp).orElse (assignment_yields closed he (conditional_yields closed he
    (operators_yields closed (signed_yields closed (postfixUpdate_yields closed (chain_yields closed he
      (atom_yields closed he hs hp)))))))

/-! ### Statements -/

theorem semicolon_yields : Yields semicolon fun _ => True := Yields.mark.maybe.bind fun _ _ => .pure trivial

theorem declKind_yields : Yields (accept declKindToken) fun _ => True := .accept fun _ _ _ _ => trivial

/-- A declaration has at least one part. -/
theorem varDecl_yields (he : Yields expr K.expr) (hp : Yields pat K.pattern) :
    Yields (varDecl expr pat) fun d => d.declarators ≠ [] ∧ ∀ x ∈ d.declarators, K.declarator x := by
  have part : Yields (declarator expr pat) K.declarator :=
    hp.bind fun _ h => (initializer_yields he).bind fun _ hinit => .pure ⟨h, hinit⟩
  have parts : Yields (do
      let kind ← accept declKindToken
      let ds ← separated1 (declarator expr pat) comma
      return (kind, ds)) fun r => r.2 ≠ [] ∧ ∀ x ∈ r.2, K.declarator x :=
    declKind_yields.bind fun _ _ => part.separated1.bind fun _ h => .pure h
  exact parts.spanned.bind fun _ h => .pure h

include closed in
theorem functionDecl_yields (he : Yields expr K.expr) (hs : Yields stmt K.stmt)
    (hp : Yields pat K.pattern) : Yields (functionDecl expr stmt pat) K.stmt := by
  have parts : Yields (do
      keyword .function
      let n ← name
      let ps ← params expr pat
      let body ← block stmt
      return (⟨some n, ps, .block body, false⟩ : Func)) fun f => ∀ s, K.stmt (Stmt.function s f) :=
    Yields.keyword.after (name_yields.bind fun _ hn => (params_yields he hp).bind fun _ hps =>
      (block_yields hs).bind fun _ hb => .pure fun _ => closed.functionStmt hn hps hb)
  exact parts.spanned.bind fun r h => .pure (h r.1)

include closed in
theorem ifStmt_yields (he : Yields expr K.expr) (hs : Yields stmt K.stmt) :
    Yields (ifStmt expr stmt) K.stmt := by
  have parts : Yields (do
      keyword .if_
      let test ← parens expr
      let yes ← stmt
      let no ← maybe do
        keyword .else_
        stmt
      return (test, yes, no)) fun r => ∀ s, K.stmt (Stmt.if_ s r.1 r.2.1 r.2.2) :=
    Yields.keyword.after ((Yields.between he).bind fun _ ht => hs.bind fun _ hy =>
      (Yields.keyword.after hs).maybe.bind fun _ hn => .pure fun _ => closed.if_ ht hy hn)
  exact parts.spanned.bind fun r h => .pure (h r.1)

theorem iterKind_yields : Yields iterKind fun _ => True :=
  (Yields.keyword.after (.pure trivial)).orElse (Yields.keyword.after (.pure trivial))

include closed in
theorem forEachStmt_yields (he : Yields expr K.expr) (hs : Yields stmt K.stmt)
    (hp : Yields pat K.pattern) : Yields (forEachStmt expr stmt pat) K.stmt := by
  have head : Yields (do
      let decl ← maybe (accept declKindToken)
      let p ← pat
      let kind ← iterKind
      let source ← expr
      return (decl, p, kind, source)) fun r => K.pattern r.2.1 ∧ K.expr r.2.2.2 :=
    declKind_yields.maybe.bind fun _ _ => hp.bind fun _ hpat => iterKind_yields.bind fun _ _ =>
      he.bind fun _ hsource => .pure ⟨hpat, hsource⟩
  refine Yields.bind (Yields.spanned (P := fun r => K.pattern r.1.2.1 ∧ K.expr r.1.2.2.2 ∧ K.stmt r.2)
    (Yields.keyword.after ((Yields.between head).bind fun _ h => hs.bind fun _ hb => .pure ⟨h.1, h.2, hb⟩)))
    fun r h => .pure ?_
  exact closed.forEach h.1 h.2.1 h.2.2

theorem forInit_yields (he : Yields expr K.expr) (hp : Yields pat K.pattern) :
    Yields (forInit expr pat) K.init :=
  ((varDecl_yields he hp).map fun ⟨_, _, _⟩ h => h).orElse (he.map fun _ h => h)

include closed in
theorem forStmt_yields (he : Yields expr K.expr) (hs : Yields stmt K.stmt)
    (hp : Yields pat K.pattern) : Yields (forStmt expr stmt pat) K.stmt := by
  have head : Yields (do
      let init ← maybe (forInit expr pat)
      mark .semicolon
      let test ← maybe expr
      mark .semicolon
      let update ← maybe expr
      return (init, test, update)) fun r =>
        (∀ i ∈ r.1, K.init i) ∧ (∀ e ∈ r.2.1, K.expr e) ∧ ∀ e ∈ r.2.2, K.expr e :=
    (forInit_yields he hp).maybe.bind fun _ hi => Yields.mark.after (he.maybe.bind fun _ ht =>
      Yields.mark.after (he.maybe.bind fun _ hu => .pure ⟨hi, ht, hu⟩))
  refine Yields.bind (Yields.spanned (P := fun r => ∀ s, K.stmt (Stmt.for_ s r.1.1 r.1.2.1 r.1.2.2 r.2))
    (Yields.keyword.after ((Yields.between head).bind fun _ h => hs.bind fun _ hb =>
      .pure fun _ => closed.for_ h.1 h.2.1 h.2.2 hb))) fun r h => .pure (h r.1)

theorem jump_yields {k : Keyword} : Yields (jump k) fun r => ∀ l ∈ r.2, isName l = true :=
  Yields.spanned (P := fun label => ∀ l ∈ label, isName l = true)
    (Yields.keyword.after (name_yields.maybe.bind fun _ h => semicolon_yields.bind fun _ _ => .pure h))

include closed in
theorem tryStmt_yields (hs : Yields stmt K.stmt) (hp : Yields pat K.pattern) :
    Yields (tryStmt stmt pat) K.stmt := by
  have handler : Yields (catchClause stmt pat) K.handler :=
    Yields.keyword.after ((Yields.between hp).maybe.bind fun _ h => (block_yields hs).bind fun _ hb => .pure ⟨h, hb⟩)
  have parts : Yields (do
      keyword .try_
      let body ← block stmt
      let handler ← maybe (catchClause stmt pat)
      let finalizer ← maybe do
        keyword .finally_
        block stmt
      return (body, handler, finalizer)) fun r =>
        (∀ s ∈ r.1, K.stmt s) ∧ (∀ c ∈ r.2.1, K.handler c) ∧ ∀ b ∈ r.2.2, ∀ s ∈ b, K.stmt s :=
    Yields.keyword.after ((block_yields hs).bind fun _ hb => handler.maybe.bind fun _ hc =>
      (Yields.keyword.after (block_yields hs)).maybe.bind fun _ hf => .pure ⟨hb, hc, hf⟩)
  refine parts.check fun span r s h hr => ?_
  obtain ⟨body, handler, last⟩ := r
  by_cases complete : (handler.isNone && last.isNone) = true
  · simp [complete] at hr
  · obtain rfl : Stmt.try_ span body handler last = s := by simpa [complete] using hr
    exact closed.try_ (Bool.eq_false_iff.2 complete) h.1 h.2.1 h.2.2

include closed in
theorem stmtRule_yields (he : Yields expr K.expr) (hs : Yields stmt K.stmt)
    (hp : Yields pat K.pattern) : Yields (stmtRule expr stmt pat) K.stmt := by
  refine .choice fun q hq => ?_
  simp only [List.mem_cons, List.not_mem_nil, or_false] at hq
  rcases hq with rfl | rfl | rfl | rfl | rfl | rfl | rfl | rfl | rfl | rfl | rfl | rfl | rfl | rfl | rfl
  · exact (varDecl_yields he hp).bind fun ⟨_, _, _⟩ h => semicolon_yields.bind fun _ _ => .pure (closed.decl h.1 h.2)
  · exact functionDecl_yields closed he hs hp
  · exact (block_yields hs).spanned.bind fun _ h => .pure (closed.block h)
  · have value : Yields (do keyword .return_; let value ← maybe expr; semicolon; return value)
        fun o => ∀ e ∈ o, K.expr e :=
      Yields.keyword.after (he.maybe.bind fun _ h => semicolon_yields.bind fun _ _ => .pure h)
    exact value.spanned.bind fun _ h => .pure (closed.return_ h)
  · exact ifStmt_yields closed he hs
  · exact forEachStmt_yields closed he hs hp
  · exact forStmt_yields closed he hs hp
  · have parts : Yields (do keyword .while_; let test ← parens expr; let body ← stmt; return (test, body))
        fun r => K.expr r.1 ∧ K.stmt r.2 :=
      Yields.keyword.after ((Yields.between he).bind fun _ ht => hs.bind fun _ hb => .pure ⟨ht, hb⟩)
    exact parts.spanned.bind fun _ h => .pure (closed.while_ h.1 h.2)
  · exact jump_yields.bind fun _ h => .pure (closed.break_ h)
  · exact jump_yields.bind fun _ h => .pure (closed.continue_ h)
  · have value : Yields (do keyword .throw_; let value ← expr; semicolon; return value) K.expr :=
      Yields.keyword.after (he.bind fun _ h => semicolon_yields.bind fun _ _ => .pure h)
    exact value.spanned.bind fun _ h => .pure (closed.throw_ h)
  · exact tryStmt_yields closed hs hp
  · have parts : Yields (do let label ← name; mark .colon; let body ← stmt; return (label, body))
        fun r => isName r.1 = true ∧ K.stmt r.2 :=
      name_yields.bind fun _ hn => Yields.mark.after (hs.bind fun _ hb => .pure ⟨hn, hb⟩)
    exact parts.spanned.bind fun _ h => .pure (closed.labeled h.1 h.2)
  · exact Yields.mark.spanned.bind fun _ _ => .pure closed.empty
  · have value : Yields (do let e ← expr; semicolon; return e) K.expr :=
      he.bind fun _ h => semicolon_yields.bind fun _ _ => .pure h
    exact value.spanned.bind fun _ h => .pure (closed.exprStmt h)

end Rules

/-! ### Programs -/

mutual

theorem expr_yields (closed : K.Closed) : ∀ fuel, Yields (expr fuel) K.expr
  | 0 => fun _ _ _ _ _ _ h => by simp [expr] at h
  | fuel + 1 => by
    rw [expr_succ]
    exact exprRule_yields closed (expr_yields closed fuel) (stmt_yields closed fuel) (pattern_yields closed fuel)

theorem stmt_yields (closed : K.Closed) : ∀ fuel, Yields (stmt fuel) K.stmt
  | 0 => fun _ _ _ _ _ _ h => by simp [stmt] at h
  | fuel + 1 => by
    rw [stmt_succ]
    exact stmtRule_yields closed (expr_yields closed fuel) (stmt_yields closed fuel) (pattern_yields closed fuel)

end

theorem endOfInput_yields : Yields endOfInput fun _ => True := by
  intro input pos a stop alt _ h
  simp only [endOfInput] at h
  split at h
  · cases h
  · cases h
    exact ⟨[], input.ahead pos, rfl, rfl, trivial⟩

include closed in
theorem program_yields (fuel : Nat) : Yields (program fuel) fun body => ∀ s ∈ body, K.stmt s :=
  (stmt_yields closed fuel).many.bind fun _ h => endOfInput_yields.bind fun _ _ => .pure h

end Grammar

/-! ### Tokens of a source -/

theorem isNameShaped_word {c : Char} {w : List Char} (hc : isNameStart c = true) (hw : w.all isNamePart = true) :
    isNameShaped (String.ofList (c :: w)) = true := by
  simp [isNameShaped, hc, hw]

theorem wordToken_proper {c : Char} {w : List Char} (hc : isNameStart c = true) (hw : w.all isNamePart = true) :
    (wordToken (c :: w)).Proper := by
  rcases wordToken_cases (c :: w) with ⟨k, -, word⟩ | ⟨plain, word⟩ <;> rw [word]
  · exact True.intro
  · rw [Token.Proper, isName, isNameShaped_word hc hw, plain]
    rfl

theorem numeral_proper {c : Char} (rest : List Char) (digit : c.isDigit = true) :
    (Token.number (String.ofList (splitNumeral (c :: rest)).1)).Proper := by
  obtain ⟨more, same⟩ : ∃ more, (splitNumeral (c :: rest)).1 = c :: more := by
    simp only [splitNumeral, List.takeWhile_cons_of_pos digit, List.cons_append]
    exact ⟨_, rfl⟩
  exact ⟨c, more, congrArg String.ofList same, digit⟩

theorem piece_proper {c : Char} {rest : List Char} {t : Token} (h : (piece c rest).found = .ok (some t)) :
    t.Proper := by
  have mark : ∀ {c rest}, (markPiece c rest).found = .ok (some t) → t.Proper := by
    intro c rest h
    unfold markPiece at h
    split at h <;> cases h
    trivial
  unfold piece at h
  split at h
  · cases h
  split at h
  · rename_i hc
    cases h
    exact wordToken_proper hc (List.all_takeWhile ..)
  split at h
  · cases h
    exact numeral_proper rest ‹_›
  split at h
  · split at h <;> cases h
    trivial
  split at h
  · split at h
    · cases h
    · split at h
      · cases h
      · exact mark h
    · exact mark h
  · exact mark h

theorem scanFrom_proper {fuel offset : Nat} {cs : List Char} {ls : List Lexeme}
    (h : scanFrom fuel offset cs = .ok ls) : ∀ l ∈ ls, l.token.Proper := by
  induction fuel generalizing offset cs ls with
  | zero =>
    obtain rfl : [] = ls := by simpa [scanFrom] using h
    simp
  | succ fuel ih =>
    cases cs with
    | nil =>
      obtain rfl : [] = ls := by simpa [scanFrom] using h
      simp
    | cons c rest =>
      simp only [scanFrom] at h
      split at h
      · cases h
      · exact ih h
      · rename_i t found
        cases hmore : scanFrom fuel (offset + byteLength (piece c rest).taken) (piece c rest).rest with
        | error e => simp [hmore, Except.map] at h
        | ok more =>
          simp only [hmore, Except.map, Except.ok.injEq] at h
          subst h
          rw [List.forall_mem_cons]
          exact ⟨piece_proper found, ih hmore⟩

/-- **What is closed under the rules of the grammar holds of everything that is read.** -/
theorem TreeKind.Closed.of_parseProgram {K : TreeKind} (closed : K.Closed) {source : String} {body : List Stmt}
    (h : parseProgram source = .ok body) : ∀ s ∈ body, K.stmt s := by
  simp only [parseProgram] at h
  split at h
  · cases h
  · rename_i ls hls
    obtain ⟨stop, alt, hp⟩ := program_of_parseLexemes h
    have proper : ∀ t ∈ Input.ahead ⟨ls.toArray, ⟨source.utf8ByteSize, source.utf8ByteSize + 1⟩⟩ 0, t.Proper := by
      intro t ht
      obtain ⟨l, hl, rfl⟩ : ∃ l ∈ ls, l.token = t := by simpa [Input.ahead] using ht
      exact scanFrom_proper hls l hl
    obtain ⟨_, _, _, _, all⟩ := Grammar.program_yields closed _ _ _ _ _ _ proper hp
    exact all

/-! ### Readable trees -/

/-- The trees that are readable. -/
def readableTrees : TreeKind := ⟨Expr.Readable, Stmt.Readable, Pattern.Readable⟩

theorem readableTrees_closed : readableTrees.Closed where
  literal _ _ := .literal _
  ident := .ident _
  array := .array
  object := .object
  function := .function
  arrow hparams hbody := .arrow hparams (by cases ‹FuncBody› <;> exact hbody)
  unary := .unary _
  update := .update _ _
  binary := .binary _
  assign := .assign _
  cond := .cond
  member {_ _ k _} he hk := .member _ he (by cases k <;> exact hk)
  call := .call _
  new := .new
  namePattern := .name _
  arrayPattern := .array
  objectPattern := .object
  exprStmt := .expr
  decl := .decl
  functionStmt := .function
  return_ := .return_
  if_ := .if_
  forEach := .forEach _ _
  for_ hi := .for_ fun i there => by cases i <;> exact hi _ there
  while_ := .while_
  break_ := .break_
  continue_ := .continue_
  labeled := .labeled
  throw_ := .throw_
  try_ := .try_
  block := .block
  empty := .empty

/-- **What is read from a source is readable.** -/
theorem readable_of_parseProgram {source : String} {body : List Stmt} (h : parseProgram source = .ok body) :
    ∀ s ∈ body, s.Readable :=
  readableTrees_closed.of_parseProgram h

end Staging
