import Staging.Proofs.Source.Gather
import Staging.Proofs.Source.Printable
import Staging.Proofs.Source.Tidy

/-!
Trees that are read back.

A source can have things in it that their own text does not give back. `unreadableIn` finds them: numbers
that are out of range, keywords as names, an object at the start of the body of an arrow, and what `new` is
applied to. `Expr.Readable` and `Stmt.Readable` say that there is nothing else: without them the tidy tree
is printable. A node is readable when its parts are, one lemma for each kind of node; names, targets of
assignments and the like have to be as the grammar has them.
-/

namespace Staging

/-! ### What is not read back -/

/-- Something whose text is not read as what it is. -/
inductive Unreadable where
  | number (x : Float)
  | keyword (name : String)
  | arrowBody (e : Expr)
  | callee (e : Expr)

/-- What of an expression itself is not read back. -/
def Expr.unreadable : Expr → List Unreadable
  | .literal _ (.number x) => if Number.isUnsigned x then [] else [.number x]
  | .ident _ n => if isName n then [] else [.keyword n]
  | .function _ ⟨_, _, .expr e, _⟩ => if e.isArrowBody then [] else [.arrowBody e]
  | .new _ c _ => if c.isCallee then [] else [.callee c]
  | _ => []

/-- The names of a pattern that are not read back. -/
def Pattern.unreadable (p : Pattern) : List Unreadable := (p.names.filter (!isName ·)).map .keyword

/-- Everything in a part that is not read back. -/
def unreadableIn : Part → List Unreadable :=
  gather { pattern := Pattern.unreadable, expr := Expr.unreadable }

/-- There is nothing in an expression that is not read back. -/
def Expr.Clear (e : Expr) : Prop := unreadableIn (.expr e .lowest) = []

/-- There is nothing in a statement that is not read back. -/
def Stmt.Clear (s : Stmt) : Prop := unreadableIn (.stmt s) = []

/-- There is nothing in a pattern that is not read back. -/
def Pattern.Clear (p : Pattern) : Prop := p.unreadable = []

section Clear

@[simp] theorem unreadableIn_text (t : String) : unreadableIn (.text t) = [] := gather_text _ t

@[simp] theorem unreadableIn_pattern (p : Pattern) : unreadableIn (.pattern p) = [] ↔ p.Clear := by
  rw [unreadableIn, gather_pattern]
  rfl

@[simp] theorem unreadableIn_expr (e : Expr) (m : Precedence) : unreadableIn (.expr e m) = [] ↔ e.Clear := by
  rw [unreadableIn, gather_place _ e m .lowest]
  rfl

@[simp] theorem unreadableIn_stmt (s : Stmt) : unreadableIn (.stmt s) = [] ↔ s.Clear := .rfl

/-- What an expression is put together from is clear if the expression is. -/
theorem Expr.clear_iff (e : Expr) : e.Clear ↔ e.unreadable = [] ∧ ∀ p ∈ e.inner, unreadableIn p = [] := by
  rw [Expr.Clear, unreadableIn, gather_expr, List.append_eq_nil_iff, List.flatMap_eq_nil_iff]

/-- An expression that is read back itself is clear if all that it is put together from is. -/
theorem Expr.clear_iff_inner {e : Expr} (own : e.unreadable = []) : e.Clear ↔ ∀ p ∈ e.inner, unreadableIn p = [] :=
  (Expr.clear_iff e).trans (and_iff_right own)

theorem Stmt.clear_iff (s : Stmt) : s.Clear ↔ ∀ p ∈ s.layout, unreadableIn p = [] := by
  rw [Stmt.Clear, unreadableIn, gather_stmt, List.append_eq_nil_iff, List.flatMap_eq_nil_iff]
  simp

/-- The parts between separators. -/
@[simp] theorem forall_mem_separate {sep : String} {groups : List (List Part)} :
    (∀ p ∈ separate sep groups, unreadableIn p = []) ↔ ∀ g ∈ groups, ∀ p ∈ g, unreadableIn p = [] := by
  have := gather_separate { pattern := Pattern.unreadable, expr := Expr.unreadable } sep groups
  rw [← List.flatMap_eq_nil_iff, unreadableIn, this, List.flatMap_eq_nil_iff]
  simp [List.flatMap_eq_nil_iff]

@[simp] theorem forall_mem_block {body : List Stmt} :
    (∀ p ∈ blockLayout body, unreadableIn p = []) ↔ ∀ s ∈ body, s.Clear := by
  have := gather_block { pattern := Pattern.unreadable, expr := Expr.unreadable } body
  rw [← List.flatMap_eq_nil_iff, unreadableIn, this, List.flatMap_eq_nil_iff]
  rfl

@[simp] theorem forall_mem_args {args : List Expr} :
    (∀ p ∈ argsLayout args, unreadableIn p = []) ↔ ∀ e ∈ args, e.Clear := by
  simp [argsLayout, or_imp, forall_and]

end Clear

/-! ### Readable trees -/

/-- Without what is not read back, the tidy expression is printable. -/
def Expr.Readable (e : Expr) : Prop := e.Clear → e.tidy.isPrintable = true

def Stmt.Readable (s : Stmt) : Prop := s.Clear → s.tidy.isPrintable = true

def Pattern.Readable (p : Pattern) : Prop := p.Clear → p.isPrintable = true

/-- The key of an access: a name has to have the shape of one. -/
def Key.Readable : Key → Prop
  | .named n => isNameShaped n = true
  | .computed e => e.Readable

def Property.Readable (p : Property) : Prop := (∀ e, p.key = .computed e → e.Readable) ∧ p.value.Readable

def Param.Readable (p : Param) : Prop := p.pattern.Readable ∧ ∀ e ∈ p.default, e.Readable

def Declarator.Readable (d : Declarator) : Prop := d.pattern.Readable ∧ ∀ e ∈ d.init, e.Readable

def FuncBody.Readable : FuncBody → Prop
  | .block body => ∀ s ∈ body, s.Readable
  | .expr e => e.Readable

theorem Expr.allPrintable_tidyAll {es : List Expr} (h : ∀ e ∈ es, e.Readable) (clear : ∀ e ∈ es, e.Clear) :
    Expr.allPrintable (Expr.tidyAll es) = true := by
  induction es with
  | nil => rfl
  | cons e es ih =>
    simp only [List.forall_mem_cons] at h clear
    simp [Expr.tidyAll, Expr.allPrintable, h.1 clear.1, ih h.2 clear.2]

theorem Stmt.allPrintable_tidyAll {ss : List Stmt} (h : ∀ s ∈ ss, s.Readable) (clear : ∀ s ∈ ss, s.Clear) :
    Stmt.allPrintable (Stmt.tidyAll ss) = true := by
  induction ss with
  | nil => rfl
  | cons s ss ih =>
    simp only [List.forall_mem_cons] at h clear
    simp [Stmt.tidyAll, Stmt.allPrintable, h.1 clear.1, ih h.2 clear.2]

theorem Expr.optionPrintable_tidy {e : Option Expr} (h : ∀ x ∈ e, x.Readable) (clear : ∀ x ∈ e, x.Clear) :
    Expr.optionPrintable (Expr.tidyOption e) = true := by
  cases e with
  | none => rfl
  | some e => exact h e rfl (clear e rfl)

section Expressions

variable {s : Span} {a b c : Expr}

theorem Expr.Readable.literal (v : Literal) : (Expr.literal s v).Readable := by
  intro clear
  cases v with
  | number x =>
    have unsigned : Number.isUnsigned x = true := by
      by_contra h
      simp [Expr.clear_iff, Expr.unreadable, h] at clear
    simp only [Expr.tidy, Literal.bare, Expr.isPrintable, Literal.isPrintable]
    split
    · decide +kernel
    · exact unsigned
  | _ => rfl

theorem Expr.Readable.ident (n : String) : (Expr.ident s n).Readable := by
  intro clear
  by_contra h
  simp [Expr.clear_iff, Expr.unreadable, show isName n = false by simpa using h] at clear

theorem Expr.Readable.array {items : List Expr} (h : ∀ e ∈ items, e.Readable) : (Expr.array s items).Readable := by
  intro clear
  have items : ∀ e ∈ items, e.Clear := by
    simpa [Expr.clear_iff_inner (e := .array s items) rfl, Expr.inner, or_imp, forall_and] using clear
  exact Expr.allPrintable_tidyAll h items

theorem Expr.Readable.unary (op : UnaryOp) (h : a.Readable) : (Expr.unary s op a).Readable := by
  intro clear
  exact h (by simpa [Expr.clear_iff_inner (e := .unary s op a) rfl, Expr.inner] using clear)

theorem Expr.Readable.update (op : UpdateOp) (before : Bool) (h : a.Readable) :
    (Expr.update s op before a).Readable := by
  intro clear
  refine h ?_
  cases before <;> simpa [Expr.clear_iff_inner (e := .update ..) rfl, Expr.inner] using clear

theorem Expr.Readable.binary (op : BinaryOp) (ha : a.Readable) (hb : b.Readable) :
    (Expr.binary s op a b).Readable := by
  intro clear
  have parts : a.Clear ∧ b.Clear := by
    simpa [Expr.clear_iff_inner (e := .binary s op a b) rfl, Expr.inner] using clear
  simp [Expr.tidy, Expr.isPrintable, ha parts.1, hb parts.2]

theorem Expr.Readable.assign (op : AssignOp) (target : a.isAssignable = true) (ha : a.Readable) (hb : b.Readable) :
    (Expr.assign s op a b).Readable := by
  intro clear
  have parts : a.Clear ∧ b.Clear := by
    simpa [Expr.clear_iff_inner (e := .assign s op a b) rfl, Expr.inner] using clear
  simp [Expr.tidy, Expr.isPrintable, (Expr.same_tidy a).isAssignable, target, ha parts.1, hb parts.2]

theorem Expr.Readable.cond (ha : a.Readable) (hb : b.Readable) (hc : c.Readable) : (Expr.cond s a b c).Readable := by
  intro clear
  have parts : a.Clear ∧ b.Clear ∧ c.Clear := by
    simpa [Expr.clear_iff_inner (e := .cond s a b c) rfl, Expr.inner] using clear
  simp [Expr.tidy, Expr.isPrintable, ha parts.1, hb parts.2.1, hc parts.2.2]

theorem Expr.Readable.member {k : Key} (optional : Bool) (ha : a.Readable) (hk : k.Readable) :
    (Expr.member s a k optional).Readable := by
  intro clear
  rw [Expr.clear_iff, Expr.inner, List.forall_mem_append] at clear
  have object : a.Clear := by
    have := clear.2.1
    by_cases number : a.isNumber = true <;> simpa [number, parenthesized] using this
  have key : k.tidy.isPrintable = true := by
    cases k with
    | named n => exact hk
    | computed e => exact hk (by simpa [Key.layout] using clear.2.2)
  simp [Expr.tidy, Expr.isPrintable, ha object, key]

theorem Expr.Readable.call {args : List Expr} (optional : Bool) (ha : a.Readable) (h : ∀ e ∈ args, e.Readable) :
    (Expr.call s a args optional).Readable := by
  intro clear
  have parts : a.Clear ∧ ∀ e ∈ args, e.Clear := by
    simpa [Expr.clear_iff_inner (e := .call s a args optional) rfl, Expr.inner] using clear
  simp [Expr.tidy, Expr.isPrintable, ha parts.1, Expr.allPrintable_tidyAll h parts.2]

theorem Expr.Readable.new {args : List Expr} (ha : a.Readable) (h : ∀ e ∈ args, e.Readable) :
    (Expr.new s a args).Readable := by
  intro clear
  rw [Expr.clear_iff, Expr.inner, List.forall_mem_append, List.forall_mem_cons, forall_mem_args] at clear
  obtain ⟨own, ⟨-, callee⟩, arguments⟩ := clear
  have callee : a.Clear := by
    by_cases call : a.containsCall = true <;> simpa [call, parenthesized] using callee
  have applied : a.tidy.isCallee = true := by
    have same := Expr.same_tidy a
    have : a.isCallee = true := by
      by_contra no
      simp [Expr.unreadable, no] at own
    rwa [Expr.isCallee, same.containsCall, same.isPlainCallee]
  simp [Expr.tidy, Expr.isPrintable, applied, ha callee, Expr.allPrintable_tidyAll h arguments]

theorem Property.allPrintable_tidyAll {ps : List Property} (h : ∀ p ∈ ps, p.Readable)
    (clear : ∀ p ∈ ps, ∀ q ∈ p.layout, unreadableIn q = []) :
    Property.allPrintable (Property.tidyAll ps) = true := by
  induction ps with
  | nil => rfl
  | cons p ps ih =>
    obtain ⟨k, v⟩ := p
    rw [List.forall_mem_cons] at h clear
    obtain ⟨value, known⟩ : v.Clear ∧ ∀ e, k = .computed e → e.Clear := by
      have own := clear.1
      cases k with
      | named n => simpa [Property.layout] using own
      | computed e => simpa [Property.layout, and_comm] using own
    have key : k.tidy.isPropertyKey = true := by
      cases k with
      | named n => rfl
      | computed e => exact h.1.1 e rfl (known e rfl)
    simp [Property.tidyAll, Property.allPrintable, key, h.1.2 value, ih h.2 clear.2]

theorem Expr.Readable.object {props : List Property} (h : ∀ p ∈ props, p.Readable) :
    (Expr.object s props).Readable := by
  intro clear
  have parts : ∀ p ∈ props, ∀ q ∈ p.layout, unreadableIn q = [] := by
    simpa [Expr.clear_iff_inner (e := .object s props) rfl, Expr.inner, or_imp, forall_and] using clear
  exact Property.allPrintable_tidyAll h parts

theorem Param.allPrintable_tidyAll {ps : List Param} (h : ∀ p ∈ ps, p.Readable)
    (clear : ∀ p ∈ ps, ∀ q ∈ p.layout, unreadableIn q = []) :
    Param.allPrintable (Param.tidyAll ps) = true := by
  induction ps with
  | nil => rfl
  | cons p ps ih =>
    obtain ⟨span, pattern, default, rest⟩ := p
    rw [List.forall_mem_cons] at h clear
    obtain ⟨pat, init⟩ : pattern.Clear ∧ ∀ e ∈ default, e.Clear := by
      have own := clear.1
      cases default with
      | none => simpa [Param.layout] using own
      | some e => simpa [Param.layout] using own
    simp [Param.tidyAll, Param.allPrintable, h.1.1 pat, Expr.optionPrintable_tidy h.1.2 init, ih h.2 clear.2]

theorem forall_mem_params {ps : List Param} :
    (∀ p ∈ paramsLayout ps, unreadableIn p = []) ↔ ∀ p ∈ ps, ∀ q ∈ p.layout, unreadableIn q = [] := by
  simp [paramsLayout, or_imp, forall_and]

/-- A function that is not an arrow: it has a block, and its name, if there is one, is a name. -/
theorem Func.isPrintable_tidy {name : Option String} {params : List Param} {body : List Stmt}
    (hname : ∀ n ∈ name, isName n = true) (hparams : ∀ p ∈ params, p.Readable) (hbody : ∀ s ∈ body, s.Readable)
    (clear : ∀ p ∈ Func.layout ⟨name, params, .block body, false⟩, unreadableIn p = []) :
    (Func.tidy ⟨name, params, .block body, false⟩).isPrintable = true := by
  simp only [Func.layout, Bool.false_eq_true, if_false, List.forall_mem_append, List.forall_mem_cons,
    List.cons_append, forall_mem_params, forall_mem_block] at clear
  have named : name.all isName = true := by
    cases name with
    | none => rfl
    | some n => exact hname n rfl
  simp [Func.tidy, FuncBody.tidy, Func.isPrintable, FuncBody.isPrintable, named,
    Param.allPrintable_tidyAll hparams clear.2.1, Stmt.allPrintable_tidyAll hbody clear.2.2.2]

theorem Expr.Readable.function {name : Option String} {params : List Param} {body : List Stmt}
    (hname : ∀ n ∈ name, isName n = true) (hparams : ∀ p ∈ params, p.Readable)
    (hbody : ∀ s ∈ body, s.Readable) : (Expr.function s ⟨name, params, .block body, false⟩).Readable := by
  intro clear
  exact Func.isPrintable_tidy hname hparams hbody ((Expr.clear_iff _).1 clear).2

theorem Expr.Readable.arrow {params : List Param} {body : FuncBody} (hparams : ∀ p ∈ params, p.Readable)
    (hbody : body.Readable) : (Expr.function s ⟨none, params, body, true⟩).Readable := by
  intro clear
  rw [Expr.clear_iff] at clear
  obtain ⟨own, parts⟩ := clear
  simp only [Expr.inner, Func.layout, if_true, List.forall_mem_append, List.forall_mem_cons,
    forall_mem_params] at parts
  have body : body.tidy.isPrintable = true := by
    cases body with
    | block body =>
      exact Stmt.allPrintable_tidyAll hbody (by simpa using parts.2.2)
    | expr e =>
      have same := Expr.same_tidy e
      have start : e.isArrowBody = true := by
        by_contra no
        simp [Expr.unreadable, no] at own
      have inside : e.Clear := by
        have := parts.2.2
        by_cases object : e.isObject = true <;> simpa [object, parenthesized] using this
      have start' : e.tidy.isArrowBody = true := by
        rwa [Expr.isArrowBody, same.isObject, same.startsObject]
      simp [FuncBody.tidy, FuncBody.isPrintable, start', hbody inside]
  simp [Expr.tidy, Func.tidy, Expr.isPrintable, Func.isPrintable, Param.allPrintable_tidyAll hparams parts.1, body]

end Expressions

/-! ### Patterns -/

theorem Pattern.clear_iff (p : Pattern) : p.Clear ↔ ∀ n ∈ p.names, isName n = true := by
  simp [Pattern.Clear, Pattern.unreadable, List.filter_eq_nil_iff]

theorem Pattern.Readable.name (n : String) : (Pattern.name n).Readable := fun clear =>
  (Pattern.clear_iff _).1 clear n (by simp [Pattern.names])

theorem Pattern.Readable.array {items : List Pattern} (h : ∀ p ∈ items, p.Readable) :
    (Pattern.array items).Readable := by
  intro clear
  rw [Pattern.clear_iff, Pattern.names] at clear
  rw [Pattern.isPrintable]
  induction items with
  | nil => rfl
  | cons p ps ih =>
    rw [Pattern.namesOfItems, List.forall_mem_append] at clear
    rw [List.forall_mem_cons] at h
    simp [Pattern.itemsPrintable, h.1 ((Pattern.clear_iff p).2 clear.1), ih h.2 clear.2]

theorem Pattern.Readable.object {props : List PatternProperty}
    (h : ∀ p ∈ props, isNameShaped p.key = true ∧ p.value.Readable) : (Pattern.object props).Readable := by
  intro clear
  rw [Pattern.clear_iff, Pattern.names] at clear
  rw [Pattern.isPrintable]
  induction props with
  | nil => rfl
  | cons p ps ih =>
    obtain ⟨key, p⟩ := p
    rw [Pattern.namesOfProps, List.forall_mem_append] at clear
    rw [List.forall_mem_cons] at h
    simp [Pattern.propsPrintable, h.1.1, h.1.2 ((Pattern.clear_iff p).2 clear.1), ih h.2 clear.2]

/-! ### Statements -/

section Statements

variable {s : Span} {e : Expr} {a b : Stmt}

theorem Stmt.Readable.expr (h : e.Readable) : (Stmt.expr s e).Readable := by
  intro clear
  refine h ?_
  rw [Stmt.clear_iff, Stmt.layout, List.forall_mem_append] at clear
  have := clear.1
  by_cases start : e.startsAmbiguously = true <;> simpa [start, parenthesized] using this

theorem VarDecl.isPrintable_tidy {kind : DeclKind} {ds : List Declarator} (nonempty : ds ≠ [])
    (h : ∀ d ∈ ds, d.Readable) (clear : ∀ p ∈ VarDecl.layout ⟨s, kind, ds⟩, unreadableIn p = []) :
    (VarDecl.tidy ⟨s, kind, ds⟩).isPrintable = true := by
  simp only [VarDecl.layout, List.forall_mem_cons, forall_mem_separate, List.forall_mem_map] at clear
  have all : Declarator.allPrintable (Declarator.tidyAll ds) = true := by
    replace clear := clear.2
    clear nonempty
    induction ds with
    | nil => rfl
    | cons d ds ih =>
      obtain ⟨pattern, init⟩ := d
      rw [List.forall_mem_cons] at h clear
      obtain ⟨pat, value⟩ : pattern.Clear ∧ ∀ e ∈ init, e.Clear := by
        have own := clear.1
        cases init with
        | none => simpa [Declarator.layout] using own
        | some e => simpa [Declarator.layout] using own
      simp [Declarator.tidyAll, Declarator.allPrintable, h.1.1 pat, Expr.optionPrintable_tidy h.1.2 value,
        ih h.2 clear.2]
  cases ds with
  | nil => exact absurd rfl nonempty
  | cons d ds =>
    have more : (Declarator.tidyAll (d :: ds)).isEmpty = false := by
      obtain ⟨pattern, init⟩ := d
      rfl
    simp [VarDecl.tidy, VarDecl.isPrintable, more, all]

theorem Stmt.Readable.decl {kind : DeclKind} {ds : List Declarator} (nonempty : ds ≠ [])
    (h : ∀ d ∈ ds, d.Readable) : (Stmt.decl ⟨s, kind, ds⟩).Readable := by
  intro clear
  rw [Stmt.clear_iff, Stmt.layout, List.forall_mem_append] at clear
  exact VarDecl.isPrintable_tidy nonempty h clear.1

theorem Stmt.Readable.function {name : String} {params : List Param} {body : List Stmt}
    (hname : isName name = true) (hparams : ∀ p ∈ params, p.Readable) (hbody : ∀ s ∈ body, s.Readable) :
    (Stmt.function s ⟨some name, params, .block body, false⟩).Readable := by
  intro clear
  have named : ∀ n ∈ some name, isName n = true := by simpa using hname
  have := Func.isPrintable_tidy named hparams hbody ((Stmt.clear_iff _).1 clear)
  simpa [Stmt.tidy, Func.tidy] using this

theorem Stmt.Readable.return_ {e : Option Expr} (h : ∀ x ∈ e, x.Readable) : (Stmt.return_ s e).Readable := by
  intro clear
  refine Expr.optionPrintable_tidy h ?_
  cases e <;> simp_all [Stmt.clear_iff (.return_ ..), Stmt.layout]

/-- What takes the `else` after it gets braces. -/
theorem Stmt.Readable.if_ {no : Option Stmt} (he : e.Readable) (ha : a.Readable) (hno : ∀ x ∈ no, x.Readable) :
    (Stmt.if_ s e a no).Readable := by
  intro clear
  cases no with
  | none =>
    have parts : e.Clear ∧ a.Clear := by
      simpa [Stmt.clear_iff (.if_ ..), Stmt.layout] using clear
    simp [Stmt.tidy, Stmt.isPrintable, Stmt.optionPrintable, he parts.1, ha parts.2]
  | some no =>
    have parts : e.Clear ∧ a.Clear ∧ no.Clear := by
      rw [Stmt.clear_iff, Stmt.layout] at clear
      by_cases isOpen : a.endsOpen = true <;>
        simp_all [or_imp, forall_and]
    have yes := ha parts.2.1
    simp only [Stmt.tidy]
    split
    · simp [Stmt.isPrintable, Stmt.allPrintable, Stmt.optionPrintable, Stmt.endsOpen, he parts.1, yes,
        hno no rfl parts.2.2]
    · rename_i shut
      have shut : a.tidy.endsOpen = false := by
        rw [(Stmt.same_tidy a).endsOpen]
        simpa using shut
      simp [Stmt.isPrintable, Stmt.optionPrintable, shut, he parts.1, yes, hno no rfl parts.2.2]

theorem Stmt.Readable.forEach (kind : IterKind) (decl : Option DeclKind) {p : Pattern} (hp : p.Readable)
    (he : e.Readable) (ha : a.Readable) : (Stmt.forEach s kind decl p e a).Readable := by
  intro clear
  have parts : p.Clear ∧ e.Clear ∧ a.Clear := by
    simpa [Stmt.clear_iff (.forEach ..), Stmt.layout] using clear
  simp [Stmt.tidy, Stmt.isPrintable, hp parts.1, he parts.2.1, ha parts.2.2]

theorem Stmt.Readable.while_ (he : e.Readable) (ha : a.Readable) : (Stmt.while_ s e a).Readable := by
  intro clear
  have parts : e.Clear ∧ a.Clear := by
    simpa [Stmt.clear_iff (.while_ ..), Stmt.layout] using clear
  simp [Stmt.tidy, Stmt.isPrintable, he parts.1, ha parts.2]

theorem Stmt.Readable.break_ {label : Option String} (h : ∀ l ∈ label, isName l = true) :
    (Stmt.break_ s label).Readable := by
  intro _
  cases label with
  | none => rfl
  | some l => exact h l rfl

theorem Stmt.Readable.continue_ {label : Option String} (h : ∀ l ∈ label, isName l = true) :
    (Stmt.continue_ s label).Readable := by
  intro _
  cases label with
  | none => rfl
  | some l => exact h l rfl

theorem Stmt.Readable.labeled {label : String} (h : isName label = true) (ha : a.Readable) :
    (Stmt.labeled s label a).Readable := by
  intro clear
  have body : a.Clear := by simpa [Stmt.clear_iff (.labeled ..), Stmt.layout] using clear
  simp [Stmt.tidy, Stmt.isPrintable, h, ha body]

theorem Stmt.Readable.throw_ (he : e.Readable) : (Stmt.throw_ s e).Readable := by
  intro clear
  exact he (by simpa [Stmt.clear_iff (.throw_ ..), Stmt.layout] using clear)

theorem Stmt.Readable.block {body : List Stmt} (h : ∀ x ∈ body, x.Readable) : (Stmt.block s body).Readable := by
  intro clear
  exact Stmt.allPrintable_tidyAll h (by simpa [Stmt.clear_iff (.block ..), Stmt.layout] using clear)

theorem Stmt.Readable.empty : (Stmt.empty s).Readable := fun _ => rfl

/-- The beginning of a `for` head. -/
def ForInit.Readable : ForInit → Prop
  | .decl ⟨_, _, ds⟩ => ds ≠ [] ∧ ∀ d ∈ ds, d.Readable
  | .expr e => e.Readable

theorem Stmt.Readable.for_ {init : Option ForInit} {test update : Option Expr} (hi : ∀ i ∈ init, i.Readable)
    (ht : ∀ x ∈ test, x.Readable) (hu : ∀ x ∈ update, x.Readable) (ha : a.Readable) :
    (Stmt.for_ s init test update a).Readable := by
  intro clear
  rw [Stmt.clear_iff] at clear
  simp only [Stmt.layout, List.cons_append, List.append_assoc, List.forall_mem_cons, List.forall_mem_append,
    List.not_mem_nil, unreadableIn_stmt] at clear
  obtain ⟨-, begins, -, tests, -, updates, -, body, -⟩ := clear
  have clause : ∀ c : Option Expr, (∀ p ∈ clauseLayout c, unreadableIn p = []) → ∀ x ∈ c, x.Clear := by
    intro c hc
    cases c <;> simp_all [clauseLayout]
  have start : ForInit.isPrintable (ForInit.tidyOption init) = true := by
    cases init with
    | none => rfl
    | some i =>
      cases i with
      | decl d =>
        obtain ⟨_, _, ds⟩ := d
        exact VarDecl.isPrintable_tidy (hi _ rfl).1 (hi _ rfl).2 begins
      | expr e => exact hi (.expr e) rfl (by simpa [ForInit.layout] using begins)
  simp [Stmt.tidy, Stmt.isPrintable, start, Expr.optionPrintable_tidy ht (clause test tests),
    Expr.optionPrintable_tidy hu (clause update updates), ha body]

def CatchClause.Readable (c : CatchClause) : Prop := (∀ p ∈ c.param, p.Readable) ∧ ∀ s ∈ c.body, s.Readable

theorem Stmt.Readable.try_ {body : List Stmt} {handler : Option CatchClause} {last : Option (List Stmt)}
    (complete : (handler.isNone && last.isNone) = false) (hb : ∀ x ∈ body, x.Readable)
    (hh : ∀ c ∈ handler, c.Readable) (hl : ∀ b ∈ last, ∀ x ∈ b, x.Readable) :
    (Stmt.try_ s body handler last).Readable := by
  intro clear
  rw [Stmt.clear_iff] at clear
  simp only [Stmt.layout, List.cons_append, List.forall_mem_cons, List.forall_mem_append,
    forall_mem_block] at clear
  obtain ⟨-, ⟨first, second⟩, third⟩ := clear
  have caught : CatchClause.isPrintable (CatchClause.tidyOption handler) = true := by
    cases handler with
    | none => rfl
    | some c =>
      obtain ⟨param, b⟩ := c
      cases param with
      | none =>
        have inside : ∀ x ∈ b, x.Clear := by simpa using second
        exact Stmt.allPrintable_tidyAll (hh _ rfl).2 inside
      | some p =>
        have inside : p.Clear ∧ ∀ x ∈ b, x.Clear := by simpa using second
        simp [CatchClause.tidyOption, CatchClause.isPrintable, (hh _ rfl).1 p rfl inside.1,
          Stmt.allPrintable_tidyAll (hh _ rfl).2 inside.2]
  have ended : Stmt.finalPrintable (Stmt.tidyFinal last) = true := by
    cases last with
    | none => rfl
    | some b =>
      have inside : ∀ x ∈ b, x.Clear := by simpa using third
      exact Stmt.allPrintable_tidyAll (hl b rfl) inside
  have same : ((CatchClause.tidyOption handler).isNone && (Stmt.tidyFinal last).isNone)
      = (handler.isNone && last.isNone) := by
    rcases handler with _ | ⟨_, _⟩ <;> cases last <;> rfl
  simp only [Stmt.tidy, Stmt.isPrintable, Stmt.allPrintable_tidyAll hb first, caught, ended, same, complete]
  rfl

end Statements

end Staging
