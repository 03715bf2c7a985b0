import Staging.Source.Layout
import Staging.Template.Registry

/-!
Which names an expression refers to, and whether it can be evaluated when code is generated.

A chain of member accesses refers to the name it starts from and to nothing else; keys do not count. A
function refers to the names its patterns bind as well.
-/

namespace Staging.Template

/-- The names that stand in a part, repetitions included. -/
def namesIn : Part → List String
  | .text _ => []
  | .pattern p => p.names
  | .expr (.ident _ name) _ => [name]
  | .expr (.member _ inner _ _) _ => inner.chainRoot.name?.toList
  | .expr e min => (e.layout min).attach.flatMap fun ⟨p, _⟩ => namesIn p
  | .stmt s => s.layout.attach.flatMap fun ⟨p, _⟩ => namesIn p
termination_by p => p.weight
decreasing_by
  · exact weight_of_mem_layout ‹_›
  · exact weight_of_mem_stmt ‹_›

/-- The names an expression refers to. -/
def references (e : Expr) : Names := Names.ofList (namesIn (.expr e .lowest))

/--
Whether an expression can be evaluated during generation: raw names aside, it refers to some name, and
to staged names only.
-/
def isDecidable (r : Registry) (e : Expr) : Bool :=
  match (references e).filter (· ∉ r.raw) with
  | [] => false
  | names => names.all isStageName

end Staging.Template
