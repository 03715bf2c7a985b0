import Staging.Source.Layout

/-!
What stands in a tree.

`gather` collects from a part and from everything inside it, along the layout. A `Reading` says what is
taken at each node. Nothing is taken from fixed texts, so the place an expression stands in makes no
difference (`gather_expr`).
-/

namespace Staging

/-- The label at a statement, or the one it jumps to. -/
def Stmt.label? : Stmt → Option String
  | labeled _ label _ => some label
  | break_ _ label | continue_ _ label => label
  | _ => none

/-- What is taken at a node. -/
structure Reading (α : Type) where
  pattern : Pattern → List α := fun _ => []
  expr : Expr → List α := fun _ => []
  stmt : Stmt → List α := fun _ => []

/-- What is taken at a part and at the parts inside it. -/
def gather {α : Type} (g : Reading α) : Part → List α
  | .text _ => []
  | .pattern p => g.pattern p
  | .expr e min => g.expr e ++ (e.layout min).attach.flatMap fun ⟨p, _⟩ => gather g p
  | .stmt s => g.stmt s ++ s.layout.attach.flatMap fun ⟨p, _⟩ => gather g p
termination_by p => p.weight
decreasing_by
  · exact weight_of_mem_layout ‹_›
  · exact weight_of_mem_stmt ‹_›

/-- The names of the identifiers in a part. -/
def identsIn : Part → List String := gather { expr := fun e => e.name?.toList }

/-- The names of the identifiers and of the patterns in a part, and the labels. -/
def mentionedIn : Part → List String :=
  gather { pattern := Pattern.names, expr := fun e => e.name?.toList, stmt := fun s => s.label?.toList }

section

variable {α : Type} (g : Reading α)

@[simp] theorem gather_text (t : String) : gather g (.text t) = [] := by
  rw [gather]

@[simp] theorem gather_pattern (p : Pattern) : gather g (.pattern p) = g.pattern p := by
  rw [gather]

theorem attach_flatMap {β γ : Type} (xs : List β) (f : β → List γ) :
    (xs.attach.flatMap fun x => f x.1) = xs.flatMap f := by
  rw [← List.flatMap_map, List.attach_map_subtype_val]

theorem gather_layout (e : Expr) (min : Precedence) :
    gather g (.expr e min) = g.expr e ++ (e.layout min).flatMap (gather g) := by
  rw [gather, attach_flatMap]

/-- What stands in an expression, whatever place it stands in. -/
theorem gather_expr (e : Expr) (min : Precedence) :
    gather g (.expr e min) = g.expr e ++ e.inner.flatMap (gather g) := by
  rw [gather_layout, Expr.layout]
  split <;> simp

theorem gather_stmt (s : Stmt) : gather g (.stmt s) = g.stmt s ++ s.layout.flatMap (gather g) := by
  rw [gather, attach_flatMap]

theorem gather_place (e : Expr) (m m' : Precedence) : gather g (.expr e m) = gather g (.expr e m') := by
  rw [gather_expr, gather_expr]

theorem gather_separate (sep : String) (groups : List (List Part)) :
    (separate sep groups).flatMap (gather g) = groups.flatMap fun ps => ps.flatMap (gather g) := by
  fun_induction separate sep groups with
  | case1 => rfl
  | case2 => simp
  | case3 ps rest _ ih => simp [ih]

theorem gather_block (body : List Stmt) :
    (blockLayout body).flatMap (gather g) = body.flatMap fun s => gather g (.stmt s) := by
  simp [blockLayout, List.flatMap_map]

variable {g}

theorem mem_gather_of_layout {e : Expr} {min : Precedence} {p : Part} (hp : p ∈ e.layout min) {n : α}
    (hn : n ∈ gather g p) : n ∈ gather g (.expr e min) := by
  rw [gather_layout]
  exact List.mem_append_right _ (List.mem_flatMap.2 ⟨p, hp, hn⟩)

theorem mem_gather_of_inner {e : Expr} {min : Precedence} {p : Part} (hp : p ∈ e.inner) {n : α}
    (hn : n ∈ gather g p) : n ∈ gather g (.expr e min) := by
  rw [gather_expr]
  exact List.mem_append_right _ (List.mem_flatMap.2 ⟨p, hp, hn⟩)

theorem mem_gather_of_stmt {s : Stmt} {p : Part} (hp : p ∈ s.layout) {n : α}
    (hn : n ∈ gather g p) : n ∈ gather g (.stmt s) := by
  rw [gather_stmt]
  exact List.mem_append_right _ (List.mem_flatMap.2 ⟨p, hp, hn⟩)

/-- The object of an access is a part of the access. -/
theorem mem_gather_of_object {span : Span} {inner : Expr} {key : Key} {optional : Bool} {m min : Precedence}
    {n : α} (hn : n ∈ gather g (.expr inner m)) :
    n ∈ gather g (.expr (.member span inner key optional) min) := by
  rw [gather_expr] at hn
  by_cases number : inner.isNumber
  · refine mem_gather_of_inner (p := .expr inner .lowest) (by simp [Expr.inner, number, parenthesized]) ?_
    rwa [gather_expr]
  · refine mem_gather_of_inner (p := .expr inner .call) (by simp [Expr.inner, number]) ?_
    rwa [gather_expr]

end

end Staging
