import Staging.Proofs.Grammar.Output
import Staging.Proofs.Source.Signless

/-!
Numbers in a source.

A source has numerals for its numbers, and these have no signs; a minus sign in front of one is an operator. So the
number in a literal that is read has no sign, also where it is zero (`signless_of_parseProgram`).
-/

namespace Staging

/-- Trees with no signs on the numbers outside of functions. Of statements, this is about those that are an expression. -/
def signlessTrees : TreeKind where
  expr e := e.isSignless = true
  stmt
    | .expr _ e => e.isSignless = true
    | _ => True
  pattern _ := True

theorem signless_of_token {t : Token} {v : Literal} (proper : t.Proper) (is : Grammar.literalToken t = some v) :
    v.isSignless = true := by
  cases t with
  | number spelling =>
    cases is
    obtain ⟨c, cs, rfl, digit⟩ := proper
    simp only [Literal.isSignless, Number.isNegative_ofNumeral cs digit, Bool.not_false]
  | str content =>
    cases is
    rfl
  | keyword k =>
    cases k <;> cases is <;> rfl
  | _ => cases is

theorem signlessTrees_closed : signlessTrees.Closed where
  literal proper is := signless_of_token proper is
  ident := rfl
  array h := Expr.allSignless_iff.2 h
  object h := Property.allSignless_iff.2 fun p there => by
    obtain ⟨key, value⟩ := h p there
    refine ⟨?_, value⟩
    cases is : p.key with
    | named _ => rfl
    | computed e => exact key e is
  function _ _ _ := rfl
  arrow _ _ := rfl
  unary h := h
  update h := h
  binary ha hb := Bool.and_eq_true_iff.2 ⟨ha, hb⟩
  assign _ ha hb := Bool.and_eq_true_iff.2 ⟨ha, hb⟩
  cond ha hb hc := Bool.and_eq_true_iff.2 ⟨ha, Bool.and_eq_true_iff.2 ⟨hb, hc⟩⟩
  member {_ _ k _} he hk := by
    refine Bool.and_eq_true_iff.2 ⟨he, ?_⟩
    cases k with
    | named _ => rfl
    | computed e => exact hk
  call he ha := Bool.and_eq_true_iff.2 ⟨he, Expr.allSignless_iff.2 ha⟩
  new he ha := Bool.and_eq_true_iff.2 ⟨he, Expr.allSignless_iff.2 ha⟩
  namePattern := trivial
  arrayPattern _ := trivial
  objectPattern _ := trivial
  exprStmt h := h
  decl _ _ := trivial
  functionStmt _ _ _ := trivial
  return_ _ := trivial
  if_ _ _ _ := trivial
  forEach _ _ _ := trivial
  for_ _ _ _ _ := trivial
  while_ _ _ := trivial
  break_ _ := trivial
  continue_ _ := trivial
  labeled _ _ := trivial
  throw_ _ := trivial
  try_ _ _ _ _ := trivial
  block _ := trivial
  empty := trivial

/-- **Literals that are read are numbers without signs.** -/
theorem signless_of_parseProgram {source : String} {span : Span} {e : Expr} {body : List Stmt}
    (h : parseProgram source = .ok body) (there : .expr span e ∈ body) : e.isSignless = true :=
  signlessTrees_closed.of_parseProgram h _ there

end Staging
