import Staging.Proofs.Grammar.Output
import Staging.Proofs.Source.RoundTrip

/-!
Printed programs are printed as they are.

What is read from a source is readable, so unless something in it is not read back, its text is accepted,
and what is read from the text has the same text. The way from one text to the other is the tidy tree: it is
printable, and it has the text of the tree it comes from.
-/

namespace Staging

/-- The text of a program is accepted if that of the tidy program is, and as the same program. -/
theorem parseProgram_of_tidyAll {body : List Stmt} (h : Stmt.allPrintable (Stmt.tidyAll body) = true) :
    ∃ read, parseProgram (programText body) = .ok read ∧ read.map Stmt.bare = (Stmt.tidyAll body).map Stmt.bare := by
  obtain ⟨ts, spelled, sentences⟩ := Writes.statements (Stmt.all_legible _ h)
  rw [← toList_programText, programText_tidyAll] at spelled
  obtain ⟨ls, scanned, rfl⟩ := spelled.scan
  obtain ⟨read, parsed, same⟩ := parseLexemes_eq_ok (programText body).utf8ByteSize sentences
  exact ⟨read, by simp only [parseProgram, scanned, parsed], same⟩

/--
**A printed program is a fixed point of reading and printing**, for every source in which there is nothing
that is not read back.
-/
theorem programText_fixed {source : String} {body : List Stmt} (accepted : parseProgram source = .ok body)
    (clear : ∀ s ∈ body, s.Clear) :
    ∃ again, parseProgram (programText body) = .ok again ∧ programText again = programText body := by
  have printable := Stmt.allPrintable_tidyAll (readable_of_parseProgram accepted) clear
  obtain ⟨again, parsed, same⟩ := parseProgram_of_tidyAll printable
  exact ⟨again, parsed, (programText_eq_of_bare same).trans (programText_tidyAll body)⟩

/-- A keyword as a key, an object as the body of an arrow, and a comment. -/
theorem programText_fixed_arrow :
    ∃ body, parseProgram "x = () => ({ new: y, }) // z" = .ok body
      ∧ ∃ again, parseProgram (programText body) = .ok again ∧ programText again = programText body := by
  have accepted : parseProgram "x = () => ({ new: y, }) // z" = .ok
      [.expr ⟨0, 23⟩ (.assign ⟨0, 23⟩ .plain (.ident ⟨0, 1⟩ "x")
        (.function ⟨4, 23⟩ ⟨none, [], .expr (.object ⟨11, 22⟩ [⟨.named "new", .ident ⟨18, 19⟩ "y"⟩]), true⟩))] := rfl
  refine ⟨_, accepted, programText_fixed accepted ?_⟩
  rw [List.forall_mem_singleton]
  exact List.isEmpty_iff.1 (by decide +kernel)

/-- The body of an arrow that begins with an object is printed without parentheses, which is not read back. -/
theorem arrowBody_not_fixed :
    ∃ body, parseProgram "x = () => ({}).a;" = .ok body ∧ programText body = "x = () => {}.a;"
      ∧ ∀ again, parseProgram (programText body) ≠ .ok again := by
  have accepted : parseProgram "x = () => ({}).a;" = .ok
      [.expr ⟨0, 17⟩ (.assign ⟨0, 16⟩ .plain (.ident ⟨0, 1⟩ "x")
        (.function ⟨4, 16⟩
          ⟨none, [], .expr (.member ⟨11, 16⟩ (.object ⟨11, 13⟩ []) (.named "a") false), true⟩))] := rfl
  have refused : (parseProgram "x = () => {}.a;").toOption.isNone = true := by decide +kernel
  have printed : programText
      [.expr ⟨0, 17⟩ (.assign ⟨0, 16⟩ .plain (.ident ⟨0, 1⟩ "x")
        (.function ⟨4, 16⟩
          ⟨none, [], .expr (.member ⟨11, 16⟩ (.object ⟨11, 13⟩ []) (.named "a") false), true⟩))]
      = "x = () => {}.a;" := by decide +kernel
  refine ⟨_, accepted, printed, fun again h => ?_⟩
  rw [printed] at h
  simp [h, Except.toOption] at refused

end Staging
