import Staging.Names
import Staging.Template.Error

/-!
The names a template treats as known when code is generated.

Staged names have a value during generation. Some of them are inlined: where they occur, the value is
written. Some of the inlined ones are raw: their value is code and is written as it stands. A loop that
is unrolled makes the names it binds staged while its body is compiled; `Registry.bind` says which names
it added, and `Registry.unbind` takes just these away.
-/

namespace Staging.Template

/-- Staged names are told from others by their first character. -/
def isStageName (name : String) : Bool := name.startsWith "$"

/-- Which staged names are inlined. -/
inductive InlinePolicy where
  /-- All parameters, and the names that unrolled loops bind. -/
  | all
  | only (names : List String)
deriving DecidableEq, Repr

/-- How a template is made. -/
structure Options where
  inline : InlinePolicy := .only []
  /-- Parameters whose values are code. -/
  raw : List String := []
  /-- Compile when the code is first needed. -/
  deferred : Bool := false
deriving DecidableEq, Repr

/-- The names a template treats as known when code is generated. -/
structure Registry where
  staged : Names := []
  inlined : Names := []
  raw : Names := []
  /-- Whether the names that unrolled loops bind are inlined. -/
  inlineBinders : Bool := false
deriving DecidableEq, Repr

/-- The names that a binding added. -/
structure BindingScope where
  staged : List String := []
  inlined : List String := []
deriving DecidableEq, Repr

namespace Registry

/-- The names of parameters, all of which have to be bare names. -/
def paramNames : List Param → Except StagingError (List String)
  | [] => .ok []
  | p :: rest =>
    match p.simpleName? with
    | none => .error (.unsupportedParameter p.pattern.text p.span)
    | some name => (paramNames rest).map (name :: ·)

/-- Names given by an option, all of which have to be staged. -/
def optionNames (staged : Names) (names : List String) : Except StagingError Names :=
  match names.find? (· ∉ staged) with
  | some name => .error (.undeclaredOption name)
  | none => .ok (Names.ofList names)

/-- The registry of a function's parameters. -/
def ofParams (params : List Param) (options : Options) : Except StagingError Registry := do
  let names ← paramNames params
  let staged := Names.ofList (names.filter isStageName)
  let raw ← optionNames staged options.raw
  let inlined ← match options.inline with
    | .all => .ok staged
    | .only names => optionNames staged names
  return ⟨staged, inlined.addAll raw, raw, options.inline = .all⟩

/-- The staged names that are declared in the generated code, because they are not inlined. -/
def declared (r : Registry) : List String := r.staged.filter (· ∉ r.inlined)

/-- Makes a name staged, and inlined if that is the policy for bound names. -/
def bindOne (r : Registry) (name : String) : Registry :=
  { r with
    staged := r.staged.add name
    inlined := if r.inlineBinders then r.inlined.add name else r.inlined }

/-- Makes names staged, and inlined if that is the policy for bound names. -/
def bindNames (r : Registry) (names : List String) : Registry := names.foldl bindOne r

/-- The names that binding adds. -/
def added (r : Registry) (names : List String) : BindingScope :=
  let fresh := Names.ofList names
  ⟨fresh.filter (· ∉ r.staged), if r.inlineBinders then fresh.filter (· ∉ r.inlined) else []⟩

/-- Makes names staged and says which ones were not before. -/
def bind (r : Registry) (names : List String) : BindingScope × Registry :=
  (r.added names, r.bindNames names)

/-- Takes away the names that a binding added. -/
def unbind (r : Registry) (scope : BindingScope) : Registry :=
  { r with
    staged := scope.staged.foldl List.erase r.staged
    inlined := scope.inlined.foldl List.erase r.inlined }

/-- The names of both registries, those of the first one first. -/
def union (a b : Registry) : Registry :=
  ⟨a.staged.addAll b.staged, a.inlined.addAll b.inlined, a.raw.addAll b.raw,
    a.inlineBinders || b.inlineBinders⟩

end Registry

end Staging.Template
