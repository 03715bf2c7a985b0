import Staging.Proofs.Grammar.Stmt

/-!
Programs are read back.

The parsers of the grammar are tied together by fuel. `ready` says that fuel `n` is enough for everything
of up to `n` tokens, by induction on the fuel; `parseLexemes_eq_ok` says that tokens which are the
statements of a program, one after the other, are read as that program.
-/

namespace Staging

namespace Grammar

open Staging.Parser

theorem expr_succ (n : Nat) : expr (n + 1) = exprRule (expr n) (stmt n) (pattern n) := by
  funext input pos
  simp only [expr]

theorem stmt_succ (n : Nat) : stmt (n + 1) = stmtRule (expr n) (stmt n) (pattern n) := by
  funext input pos
  simp only [stmt]

/-- Fuel is enough for as many tokens. -/
theorem ready (n : Nat) : Ready n (expr n) (stmt n) (pattern n) := by
  induction n with
  | zero =>
    exact {
      readsExpr := fun h hn _ => absurd (List.eq_nil_of_length_eq_zero (Nat.le_zero.1 hn)) h.ne_nil
      readsStmt := fun h hn _ => by
        obtain ⟨t, us, rfl, -⟩ := h.head
        simp at hn
      readsPat := fun {q} {_} hn => by
        obtain ⟨t, us, hq, -⟩ := Pattern.head_tokens q
        simp [hq] at hn
      refusesExpr := fun _ input pos _ => ⟨input.unexpected pos [], by simp only [expr]⟩
      refusesStmt := fun _ input pos _ => ⟨input.unexpected pos [], by simp only [stmt]⟩
      refusesPat := fun _ input pos _ => ⟨input.unexpected pos [], rfl⟩
      evenExpr := expr_even 0
      evenStmt := stmt_even 0
      unitPat := fun _ _ _ _ _ _ h => by cases h }
  | succ n hr =>
    exact {
      readsExpr := fun h hn hf => by
        rw [expr_succ]
        exact exprRule_reads hr h hn hf
      readsStmt := fun h hn he => by
        rw [stmt_succ]
        exact stmtRule_reads hr h hn he
      readsPat := fun hn => patternRule_reads hr hn
      refusesExpr := fun h => by
        rw [expr_succ]
        exact exprRule_refuses h
      refusesStmt := fun h => by
        rw [stmt_succ]
        exact stmtRule_refuses hr h
      refusesPat := fun h => patternRule_refuses h
      evenExpr := expr_even (n + 1)
      evenStmt := stmt_even (n + 1)
      unitPat := patternRule_unit (pattern_even n) }

theorem program_reads {n : Nat} {ss : List Stmt} {ts : List Token} (h : Sequence Sentence ss ts)
    (hn : ts.length ≤ n) :
    Reads (program n) ts [] fun ss' => ss'.map Stmt.bare = ss.map Stmt.bare := by
  refine Reads.bind_last (statements_reads (ready n) h hn (by simp)) fun ss' hss => ?_
  refine Reads.bind_last (Q := fun _ => True) ?_ fun _ _ => Reads.pure hss
  intro input pos hin
  have hlen := Input.length_ahead input pos
  rw [hin, List.nil_append, List.length_nil] at hlen
  refine ⟨(), none, ?_, trivial⟩
  simp only [endOfInput, List.length_nil, Nat.add_zero]
  rw [if_neg (by omega)]

end Grammar

/-- **Tokens that are a program's statements are read as that program**, up to spans. -/
theorem parseLexemes_eq_ok {ss : List Stmt} {lexemes : List Lexeme} (size : Nat)
    (h : Sequence Sentence ss (lexemes.map (·.token))) :
    ∃ ss', parseLexemes lexemes size = .ok ss' ∧ ss'.map Stmt.bare = ss.map Stmt.bare := by
  have hn : (lexemes.map (·.token)).length
      ≤ Grammar.depthFor ⟨lexemes.toArray, ⟨size, size + 1⟩⟩ := by
    simp only [Grammar.depthFor, List.length_map, List.size_toArray]
    omega
  obtain ⟨ss', alt, hp, hss⟩ := Grammar.program_reads h hn ⟨lexemes.toArray, ⟨size, size + 1⟩⟩ 0
    (by simp [Input.ahead])
  refine ⟨ss', ?_, hss⟩
  unfold parseLexemes
  simp [hp]

/-- The grammar gives what tokens are read as. -/
theorem program_of_parseLexemes {lexemes : List Lexeme} {size : Nat} {body : List Stmt}
    (h : parseLexemes lexemes size = .ok body) :
    ∃ stop alt, Grammar.program (Grammar.depthFor ⟨lexemes.toArray, ⟨size, size + 1⟩⟩)
      ⟨lexemes.toArray, ⟨size, size + 1⟩⟩ 0 = .ok body stop alt := by
  unfold parseLexemes at h
  cases read : Grammar.program (Grammar.depthFor ⟨lexemes.toArray, ⟨size, size + 1⟩⟩)
      ⟨lexemes.toArray, ⟨size, size + 1⟩⟩ 0 with
  | ok body' stop alt =>
    simp only [read] at h
    cases h
    exact ⟨stop, alt, rfl⟩
  | fail e =>
    simp only [read] at h
    cases h

end Staging
