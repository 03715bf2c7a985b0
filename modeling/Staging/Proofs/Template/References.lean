import Staging.Proofs.Source.Gather
import Staging.Template.References

/-!
What the classification of an expression sees.

All names that count for it stand in the expression (`mem_mentionedIn_of_namesIn`). The other way round it
looks at a chain of accesses only where the chain starts, so it may overlook names; in a part that is
`Transparent` it does not (`Transparent.mem_namesIn`).
-/

namespace Staging.Template

/-! ### Names that are seen stand there -/

/-- The name a chain of accesses starts from stands in the chain. -/
theorem mem_mentionedIn_root {e : Expr} {min : Precedence} {n : String} (h : e.chainRoot.name? = some n) :
    n ∈ mentionedIn (.expr e min) := by
  fun_induction Expr.chainRoot e with
  | case1 span inner key optional ih => exact mem_gather_of_object (m := min) (ih h)
  | case2 e => simp [mentionedIn, gather_expr, h]

/-- The names that count for the classification of an expression stand in it. -/
theorem mem_mentionedIn_of_namesIn {p : Part} {n : String} (h : n ∈ namesIn p) : n ∈ mentionedIn p := by
  fun_induction namesIn p with
  | case1 => simp at h
  | case2 p => simpa [mentionedIn] using h
  | case3 span name min =>
    rw [mentionedIn, gather_expr]
    exact List.mem_append_left _ h
  | case4 span inner key optional min =>
    exact mem_mentionedIn_root (e := .member span inner key optional) (by simpa [Expr.chainRoot] using h)
  | case5 e min _ _ ih =>
    obtain ⟨⟨p, hp⟩, _, hn⟩ := List.mem_flatMap.1 h
    exact mem_gather_of_layout hp (ih p hp hn)
  | case6 s ih =>
    obtain ⟨⟨p, hp⟩, _, hn⟩ := List.mem_flatMap.1 h
    exact mem_gather_of_stmt hp (ih p hp hn)

/-! ### Names that stand there are seen -/

/-- No chain of accesses in the part mentions another name than the one it starts from. -/
def Transparent : Part → Prop
  | .text _ | .pattern _ => True
  | .expr (.member span inner key optional) min =>
    ∀ n ∈ identsIn (.expr (.member span inner key optional) min), inner.chainRoot.name? = some n
  | .expr e min => ∀ p, (_ : p ∈ e.layout min) → Transparent p
  | .stmt s => ∀ p, (_ : p ∈ s.layout) → Transparent p
termination_by p => p.weight
decreasing_by
  · exact weight_of_mem_layout ‹_›
  · exact weight_of_mem_stmt ‹_›

/-- In a transparent part no identifier is overlooked. -/
theorem Transparent.mem_namesIn {p : Part} (h : Transparent p) {n : String} (hn : n ∈ identsIn p) :
    n ∈ namesIn p := by
  fun_induction namesIn p with
  | case1 | case2 => simp [identsIn] at hn
  | case3 span name min => simpa [identsIn, gather_expr, Expr.name?, Expr.inner] using hn
  | case4 span inner key optional min =>
    rw [Transparent] at h
    simp [h n hn]
  | case5 e min notIdent notMember ih =>
    have noName : e.name? = none := by
      cases e <;> first | rfl | exact absurd rfl (notIdent _ _)
    obtain ⟨p, hp, hn⟩ : ∃ p ∈ e.layout min, n ∈ identsIn p := by
      simpa [identsIn, gather_layout, noName] using hn
    have inside : Transparent p := by
      rw [Transparent] at h
      · exact h p hp
      · exact notMember
    exact List.mem_flatMap.2 ⟨⟨p, hp⟩, List.mem_attach _ _, ih p hp inside hn⟩
  | case6 s ih =>
    obtain ⟨p, hp, hn⟩ : ∃ p ∈ s.layout, n ∈ identsIn p := by
      simpa [identsIn, gather_stmt] using hn
    rw [Transparent] at h
    exact List.mem_flatMap.2 ⟨⟨p, hp⟩, List.mem_attach _ _, ih p hp (h p hp) hn⟩

theorem mem_references {e : Expr} {n : String} : n ∈ references e ↔ n ∈ namesIn (.expr e .lowest) := by
  simp [references, Names.ofList]

/-- Only staged names are seen in what is evaluated during generation, raw names aside. -/
theorem staged_of_isDecidable {r : Registry} {e : Expr} (h : isDecidable r e = true) {n : String}
    (hn : n ∈ references e) : n ∈ r.raw ∨ isStageName n = true := by
  unfold isDecidable at h
  split at h
  · simp at h
  · by_cases raw : n ∈ r.raw
    · exact .inl raw
    · exact .inr (List.all_eq_true.1 h n (List.mem_filter.2 ⟨hn, by simpa using raw⟩))

end Staging.Template
