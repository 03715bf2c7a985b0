import Staging.Proofs.Template.Origin
import Staging.Proofs.Template.References

/-!
Names in inlined expressions.

An expression is inlined because of names it refers to (`inline_of_plan`). A chain of accesses refers to the name it
starts from, and the keys of the chain that is inlined as a whole are checked too; but keys inside these keys, or
chains that start from no name, are not looked into. `Legible` says that nothing is overlooked in this way. Then each
identifier in a chain is the name it starts from or staged (`LegibleChain.known`), and each one in a call is staged or
seen by its classification (`Legible.seen_of_call`). Inside of loops the names they bind are staged too
(`Reaches.registry`).
-/

namespace Staging.Template

/-! ### Chains of accesses -/

/-- The keys in brackets of a chain of accesses. -/
def chainKeys : Expr → List Expr
  | .member _ inner (.computed key) _ => key :: chainKeys inner
  | .member _ inner (.named _) _ => chainKeys inner
  | _ => []

theorem mem_idents_member {span : Span} {inner : Expr} {key : Key} {optional : Bool} {m : Precedence}
    {n : String} (hn : n ∈ identsIn (.expr (.member span inner key optional) m)) :
    n ∈ identsIn (.expr inner .lowest) ∨ ∃ k, key = .computed k ∧ n ∈ identsIn (.expr k .lowest) := by
  have parts : n ∈ (Expr.member span inner key optional).inner.flatMap identsIn := by
    rw [identsIn, gather_expr] at hn
    exact (List.mem_append.1 hn).resolve_left (by simp [Expr.name?])
  obtain ⟨p, hp, hn⟩ := List.mem_flatMap.1 parts
  simp only [Expr.inner, List.mem_append] at hp
  rcases hp with hp | hp
  · refine .inl ?_
    split at hp
    · simp only [parenthesized, List.mem_cons, List.not_mem_nil, or_false] at hp
      rcases hp with rfl | rfl | rfl
      · simp [identsIn] at hn
      · exact hn
      · simp [identsIn] at hn
    · obtain rfl := List.mem_singleton.1 hp
      rwa [identsIn, gather_place _ inner .call .lowest] at hn
  · cases key with
    | named name =>
      obtain rfl := List.mem_singleton.1 hp
      simp [identsIn] at hn
    | computed k =>
      simp only [Key.layout, List.mem_cons, List.not_mem_nil, or_false] at hp
      rcases hp with rfl | rfl | rfl
      · simp [identsIn] at hn
      · exact .inr ⟨k, rfl, hn⟩
      · simp [identsIn] at hn

/-- An identifier in a chain stands in a key, or in what the chain starts from. -/
theorem mem_idents_chain {c : Expr} {m : Precedence} {n : String} (hn : n ∈ identsIn (.expr c m)) :
    n ∈ identsIn (.expr c.chainRoot .lowest) ∨ ∃ key ∈ chainKeys c, n ∈ identsIn (.expr key .lowest) := by
  fun_induction chainKeys c generalizing m with
  | case1 span inner key optional ih =>
    rcases mem_idents_member hn with h | ⟨k, hk, h⟩
    · exact (ih h).imp_right fun ⟨k, hk, h⟩ => ⟨k, List.mem_cons_of_mem _ hk, h⟩
    · obtain ⟨⟩ := hk
      exact .inr ⟨key, List.mem_cons_self, h⟩
  | case2 span inner name optional ih =>
    rcases mem_idents_member hn with h | ⟨k, hk, h⟩
    · exact ih h
    · cases hk
  | case3 e notComputed notNamed =>
    have root : e.chainRoot = e := by
      cases e with
      | member span inner key optional =>
        cases key with
        | named name => exact absurd rfl (notNamed span inner name optional)
        | computed k => exact absurd rfl (notComputed span inner k optional)
      | _ => rfl
    rw [root, identsIn, gather_place _ e .lowest m]
    exact .inl hn

/-- The keys of a chain that passed the check refer to staged names. -/
theorem staged_of_keysStaged {r : Registry} {c : Expr} (h : keysStaged r c = true) {key : Expr}
    (hk : key ∈ chainKeys c) {n : String} (hn : n ∈ references key) : n ∈ r.staged := by
  fun_induction chainKeys c with
  | case1 span inner k optional ih =>
    simp only [keysStaged, Bool.and_eq_true] at h
    rcases List.mem_cons.1 hk with rfl | hk
    · simpa using List.all_eq_true.1 h.1 n hn
    · exact ih h.2 hk
  | case2 span inner name optional ih => exact ih (by simpa [keysStaged] using h) hk
  | case3 => simp at hk

/-- The name a chain starts from is seen. -/
theorem mem_namesIn_root {c : Expr} {m : Precedence} {n : String} (h : c.chainRoot.name? = some n) :
    n ∈ namesIn (.expr c m) := by
  cases c with
  | ident => simpa [namesIn, Expr.chainRoot, Expr.name?, eq_comm] using h
  | member => simpa [namesIn, Expr.chainRoot] using h
  | _ => cases h

/-! ### Expressions in which nothing is overlooked -/

/--
Nothing is overlooked in a chain that is inlined as a whole: its keys are transparent, and it starts from a
name or from something that mentions none.
-/
def LegibleChain (c : Expr) : Prop :=
  (∀ key ∈ chainKeys c, Transparent (.expr key .lowest))
    ∧ ∀ n ∈ identsIn (.expr c.chainRoot .lowest), c.chainRoot.name? = some n

/-- Nothing is overlooked in an expression that is inlined. -/
def Legible : Expr → Prop
  | .call _ callee args _ =>
    (LegibleChain callee ∨ Transparent (.expr callee .call)) ∧ ∀ a ∈ args, Transparent (.expr a .assignment)
  | e => LegibleChain e

theorem Legible.chain {e : Expr} (h : Legible e) {n : String} (root : e.chainRoot.name? = some n) :
    LegibleChain e := by
  cases e with
  | call => cases root
  | _ => exact h

/-- What stands in a chain that is legible and passed the check is staged, apart from where it starts. -/
theorem LegibleChain.known {r : Registry} {c : Expr} (legible : LegibleChain c) (keys : keysStaged r c = true)
    {m : Precedence} {n : String} (hn : n ∈ identsIn (.expr c m)) :
    c.chainRoot.name? = some n ∨ n ∈ r.staged := by
  rcases mem_idents_chain hn with root | ⟨key, hk, inKey⟩
  · exact .inl (legible.2 n root)
  · exact .inr (staged_of_keysStaged keys hk (mem_references.2 ((legible.1 key hk).mem_namesIn inKey)))

theorem mem_argsLayout {args : List Expr} {p : Part} (h : p ∈ argsLayout args) :
    (∃ t, p = .text t) ∨ ∃ a ∈ args, p = .expr a .assignment := by
  simp only [argsLayout, List.mem_cons, List.mem_append, List.not_mem_nil, or_false] at h
  rcases h with (rfl | h) | rfl
  · exact .inl ⟨_, rfl⟩
  · rcases mem_separate h with rfl | ⟨group, hg, hp⟩
    · exact .inl ⟨_, rfl⟩
    · obtain ⟨a, ha, rfl⟩ := List.mem_map.1 hg
      exact .inr ⟨a, ha, List.mem_singleton.1 hp⟩
  · exact .inl ⟨_, rfl⟩

/-- What is seen in a part of a call is seen in the call. -/
theorem mem_references_call {span : Span} {callee : Expr} {args : List Expr} {optional : Bool} {p : Part}
    (hp : p ∈ (Expr.call span callee args optional).inner) {n : String} (hn : n ∈ namesIn p) :
    n ∈ references (.call span callee args optional) := by
  have plain : (Expr.call span callee args optional).layout .lowest
      = (Expr.call span callee args optional).inner := rfl
  rw [mem_references, namesIn, attach_flatMap, plain]
  · exact List.mem_flatMap.2 ⟨p, hp, hn⟩
  · simp
  · simp

/-- What stands in a legible call of which the keys passed the check is staged, or seen when the call is classified. -/
theorem Legible.seen_of_call {r : Registry} {span : Span} {callee : Expr} {args : List Expr} {optional : Bool}
    (legible : Legible (.call span callee args optional)) (keys : keysStaged r callee = true) {m : Precedence}
    {n : String} (hn : n ∈ identsIn (.expr (.call span callee args optional) m)) :
    n ∈ r.staged ∨ n ∈ references (.call span callee args optional) := by
  have parts : n ∈ (Expr.call span callee args optional).inner.flatMap identsIn := by
    rw [identsIn, gather_expr] at hn
    exact (List.mem_append.1 hn).resolve_left (by simp [Expr.name?])
  obtain ⟨p, hp, hn⟩ := List.mem_flatMap.1 parts
  rcases List.mem_cons.1 hp with rfl | hp'
  · rcases legible.1 with chain | transparent
    · exact (chain.known keys hn).symm.imp_right fun root => mem_references_call hp (mem_namesIn_root root)
    · exact .inr (mem_references_call hp (transparent.mem_namesIn hn))
  · rcases List.mem_cons.1 hp' with rfl | hp'
    · simp [identsIn] at hn
    · rcases mem_argsLayout hp' with ⟨t, rfl⟩ | ⟨a, ha, rfl⟩
      · simp [identsIn] at hn
      · exact .inr (mem_references_call hp ((legible.2 a ha).mem_namesIn hn))

theorem keysStaged_of_planChain {r : Registry} {c : Expr} (h : planChain r c = .inline) :
    keysStaged r c = true := by
  unfold planChain at h
  split at h
  · assumption
  · cases h

/-- Why an expression is inlined. -/
theorem inline_of_plan {r : Registry} {e : Expr} {min : Precedence} (h : planExpr r e min = .inline) :
    (∃ n ∈ r.inlined, e.chainRoot.name? = some n ∧ keysStaged r e = true)
      ∨ ∃ span callee args optional, e = .call span callee args optional ∧ isDecidable r e = true
        ∧ keysStaged r callee = true := by
  unfold planExpr at h
  split at h
  · rename_i span name
    refine .inl ⟨name, ?_, rfl, rfl⟩
    split at h
    · simp_all
    · cases h
  · rename_i span inner key optional
    refine .inl ?_
    split at h
    · rename_i inlined
      unfold hasInlinedRoot at inlined
      split at inlined
      · rename_i name root
        exact ⟨name, by simp_all, root, keysStaged_of_planChain h⟩
      · cases inlined
    · cases h
  · rename_i span inner name args optional
    refine .inr ⟨span, _, args, optional, rfl, ?_, rfl⟩
    repeat' split at h
    all_goals first | assumption | cases h
  · rename_i span s object key keyOptional args optional
    split at h
    · exact .inr ⟨span, _, args, optional, rfl, ‹_›, keysStaged_of_planChain h⟩
    · split at h <;> cases h
  · rename_i span callee args optional notIdent notMember
    refine .inr ⟨span, callee, args, optional, rfl, ?_, ?_⟩
    · split at h
      · assumption
      · cases h
    · cases callee <;> first | rfl | exact absurd rfl (notMember _ _ _ _)
  · cases h

/-! ### Registries on the way -/

/-- The names that a loop binds in its rounds. -/
def Instruction.loopNames : Instruction → List String
  | .each _ _ pattern _ _ _ => pattern.names
  | _ => []

theorem Registry.bindNames_append (r : Registry) (names more : List String) :
    r.bindNames (names ++ more) = (r.bindNames names).bindNames more := List.foldl_append

/-- Inside of loops the names they bind are staged too. -/
theorem Reaches.registry {pl pl' : Place} {around : List Instruction} (h : Reaches pl around pl') :
    pl'.registry = pl.registry.bindNames (around.flatMap Instruction.loopNames) := by
  induction h with
  | refl => rfl
  | aside _ ih | inside _ _ ih => exact ih
  | branch _ ih | braces _ ih => exact ih
  | round _ ih => rw [List.flatMap_cons, Registry.bindNames_append, ih]; rfl

end Staging.Template
