import Staging.Proofs.Grammar.Nesting
import Staging.Proofs.Source.Tiling

/-!
The spans of a program are nested.

The parsers lay out what they read in rows of token positions (`Grammar.program_lays`), and the tokens tile the source
(`tiling_of_scan`). A row on tokens that tile a source is in order and nested in bytes too (`Row.nested`). Main statement:
`spans_nested`.
-/

namespace Staging

/-! ### Tokens by position -/

section

variable {source : String} {input : Input} {i j : Nat}

theorem Input.spanAt_eq (h : i < input.lexemes.size) : input.spanAt i = input.lexemes[i].span := by
  rw [Input.spanAt, Array.getElem?_eq_getElem h]

theorem Input.exists_lexeme (h : i < input.lexemes.size) : ∃ l ∈ input.lexemes.toList, l.span = input.spanAt i :=
  ⟨input.lexemes[i], Array.getElem_mem_toList h, (Input.spanAt_eq h).symm⟩

namespace Tiling

variable (tiling : Tiling source 0 input.lexemes.toList)
include tiling

theorem spanAt_nonempty (h : i < input.lexemes.size) : (input.spanAt i).start < (input.spanAt i).stop := by
  obtain ⟨l, hl, same⟩ := input.exists_lexeme h
  rw [← same]
  exact tiling.nonempty l hl

theorem spanAt_apart (h : i < j) (hj : j < input.lexemes.size) : (input.spanAt i).stop ≤ (input.spanAt j).start := by
  rw [Input.spanAt_eq (Nat.lt_trans h hj), Input.spanAt_eq hj]
  exact List.pairwise_iff_getElem.1 tiling.ordered i j (Nat.lt_trans h hj) hj h

theorem start_le (h : i ≤ j) (hj : j < input.lexemes.size) : (input.spanAt i).start ≤ (input.spanAt j).start := by
  rcases Nat.lt_or_eq_of_le h with before | rfl
  · have := tiling.spanAt_nonempty (Nat.lt_trans before hj)
    have := tiling.spanAt_apart before hj
    omega
  · exact Nat.le_refl _

theorem stop_le (h : i ≤ j) (hj : j < input.lexemes.size) : (input.spanAt i).stop ≤ (input.spanAt j).stop := by
  rcases Nat.lt_or_eq_of_le h with before | rfl
  · have := tiling.spanAt_nonempty hj
    have := tiling.spanAt_apart before hj
    omega
  · exact Nat.le_refl _

/-- The tokens between two positions make up a span. -/
theorem spanOf_onTokens (h : i < j) (hj : j ≤ input.lexemes.size) :
    (input.spanOf i j).OnTokens input.lexemes.toList source.utf8ByteSize := by
  obtain ⟨first, hfirst, start⟩ := input.exists_lexeme (Nat.lt_of_lt_of_le h hj)
  obtain ⟨last, hlast, stop⟩ := input.exists_lexeme (i := j - 1) (by omega)
  rw [input.spanOf_eq h, ← start, ← stop]
  refine ⟨?_, (tiling.inside last hlast).stop_le, ⟨first, hfirst, rfl⟩, ⟨last, hlast, rfl⟩⟩
  calc first.span.start ≤ last.span.start := by
        rw [start, stop]
        exact tiling.start_le (by omega) (by omega)
    _ < last.span.stop := tiling.nonempty last hlast

end Tiling

end

/-! ### Rows in bytes -/

namespace Row

variable {source : String} {input : Input} {lo hi : Nat} {ts : List SpanTree}

/-- Each tree of a row takes up tokens of the row. -/
theorem exists_spanOf (h : Row input lo hi ts) :
    ∀ t ∈ ts, ∃ i j, lo ≤ i ∧ i < j ∧ j ≤ hi ∧ t.span = input.spanOf i j := by
  induction h with
  | nil => nofun
  | @cons lo i j hi children rest after nonempty inner behind _ ih =>
    refine List.forall_mem_cons.2 ⟨⟨i, j, after, nonempty, behind.le, rfl⟩, fun t ht => ?_⟩
    obtain ⟨k, l, hk, hl, hhi, same⟩ := ih t ht
    exact ⟨k, l, by omega, hl, hhi, same⟩

variable (tiling : Tiling source 0 input.lexemes.toList)
include tiling

theorem inside (h : Row input lo hi ts) (some : lo < hi) :
    ∀ t ∈ ts, (input.spanOf lo hi).start ≤ t.span.start ∧ t.span.stop ≤ (input.spanOf lo hi).stop := by
  intro t ht
  obtain ⟨i, j, hi, hj, hhi, same⟩ := h.exists_spanOf t ht
  have bounded := h.le_size
  rw [same, input.spanOf_eq some, input.spanOf_eq hj]
  exact ⟨tiling.start_le hi (by omega), tiling.stop_le (by omega) (by omega)⟩

theorem inOrder (h : Row input lo hi ts) : SpanTree.InOrder ts := by
  induction h with
  | nil => exact .nil
  | @cons lo i j hi children rest after nonempty inner behind _ ih =>
    refine .cons (fun t ht => ?_) ih
    obtain ⟨k, l, hk, hl, hhi, same⟩ := behind.exists_spanOf t ht
    have bounded := behind.le_size
    rw [same, SpanTree.span, input.spanOf_eq nonempty, input.spanOf_eq hl]
    exact tiling.spanAt_apart (by omega) (by omega)

/-- **The trees of a row on tokens that tile a source are nested.** -/
theorem nested (h : Row input lo hi ts) : ∀ t ∈ ts, t.Nested input.lexemes.toList source.utf8ByteSize := by
  induction h with
  | nil => nofun
  | cons after nonempty inner behind children rest =>
    have onTokens := tiling.spanOf_onTokens nonempty inner.le_size
    exact List.forall_mem_cons.2 ⟨.node onTokens (inner.inside tiling nonempty) (inner.inOrder tiling) children, rest⟩

end Row

/-! ### Programs -/

/--
**The spans of a program are nested.**

The span of each statement, declaration, parameter and expression reaches from the start of a token to the end of a token
and is not empty. It lies in the span of what it is a part of, and the parts of one whole, like the statements of the
program, are apart and in the order of the source.
-/
theorem spans_nested (source : String) (body : List Stmt) (h : parseProgram source = .ok body) :
    ∃ lexemes, scan source = .ok lexemes ∧ SpanTree.InOrder (Stmt.spanTrees body) ∧
      ∀ t ∈ Stmt.spanTrees body, t.Nested lexemes source.utf8ByteSize := by
  simp only [parseProgram] at h
  split at h
  · cases h
  · rename_i lexemes scanned
    obtain ⟨stop, alt, read⟩ := program_of_parseLexemes h
    obtain ⟨-, _, row, rfl⟩ := Grammar.program_lays _ _ _ _ _ _ (Nat.zero_le _) read
    have tiling := tiling_of_scan scanned
    exact ⟨lexemes, scanned, row.inOrder tiling, row.nested tiling⟩

/-- The span of a sign in front of parentheses ends before the closing one. -/
theorem spans_nested_parentheses :
    ∃ body, parseProgram "-(a) * f(b, c);" = .ok body ∧
      Stmt.spanTrees body = [.node ⟨0, 15⟩ [.node ⟨0, 14⟩ [.node ⟨0, 3⟩ [.node ⟨2, 3⟩ []],
        .node ⟨7, 14⟩ [.node ⟨7, 8⟩ [], .node ⟨9, 10⟩ [], .node ⟨12, 13⟩ []]]]] ∧
      ∃ lexemes, scan "-(a) * f(b, c);" = .ok lexemes ∧ SpanTree.InOrder (Stmt.spanTrees body) ∧
        ∀ t ∈ Stmt.spanTrees body, t.Nested lexemes 15 := by
  have accepted : parseProgram "-(a) * f(b, c);" = .ok
      [.expr ⟨0, 15⟩ (.binary ⟨0, 14⟩ .mul (.unary ⟨0, 3⟩ .neg (.ident ⟨2, 3⟩ "a"))
        (.call ⟨7, 14⟩ (.ident ⟨7, 8⟩ "f") [.ident ⟨9, 10⟩ "b", .ident ⟨12, 13⟩ "c"] false))] := rfl
  exact ⟨_, accepted, rfl, spans_nested _ _ accepted⟩

end Staging
