import Staging.Diagnostic
import Staging.Script.Coerce
import Staging.Source.Grammar.Program

/-!
Why a template cannot be made or run.

A fault is a cause with the place it concerns; its wording is `StagingError.message`, and what the
user is told besides is `StagingError.toDiagnostic`.
-/

namespace Staging.Template

/-- The two ways to leave a round of a loop. -/
inductive Jump where
  | break_
  | continue_
deriving DecidableEq, Repr

def Jump.keyword : Jump → String
  | break_ => "break"
  | continue_ => "continue"

/-- What is wrong with a staged label. -/
inductive LabelFault where
  /-- It labels something else than a loop that is unrolled. -/
  | misplaced
  /-- A jump goes to it from outside of such a loop. -/
  | unknown
  /-- A jump goes to it from code that is not staged. -/
  | crossesPlain
deriving DecidableEq, Repr

def LabelFault.message : LabelFault → String
  | misplaced => "it does not annotate a `for ... of` or `for ... in` over a staged collection"
  | unknown => "no enclosing staged loop carries this label"
  | crossesPlain => "a staged jump may only be nested in staged constructs"

/-- Why a template cannot be made or run. -/
inductive StagingError where
  /-- A parameter is not a bare name. -/
  | unsupportedParameter (param : String) (span : Span)
  /-- An option names something that is not a staged parameter. -/
  | undeclaredOption (name : String)
  /-- A staged conditional goes on with one that is not staged. -/
  | stagingMismatch (test : String) (span : Span)
  | invalidLabel (label : String) (fault : LabelFault) (span : Span)
  /-- A jump without label would leave a loop that is unrolled. -/
  | unlabeledJump (jump : Jump) (span : Span)
  /-- An unrolled loop binds a name that is not staged. -/
  | namingViolation (binding : String) (span : Span)
  /-- An inlined access has a key that depends on names that are not staged. -/
  | unresolvedChain (chain : String) (span : Span)
  /-- A staged parameter has no value. -/
  | missingContext (name : String)
  /-- A staged call goes to something that is not a function. -/
  | notCallable (name found : String) (span : Span)
  | syntaxError (e : SyntaxError)
  | runtime (e : Script.RuntimeError)

namespace StagingError

/-- The wording of a fault. The heap holds the values that a script threw. -/
def message (h : Script.Heap) : StagingError → String
  | unsupportedParameter param _ => "parameter `" ++ param ++ "` is not a simple name"
  | undeclaredOption name => "option names `" ++ name ++ "`, which is not a staged parameter"
  | stagingMismatch test _ =>
    "else-if under a staged conditional must also be staged (condition: " ++ test ++ ")"
  | invalidLabel label fault _ => "invalid staged label `" ++ label ++ "`: " ++ fault.message
  | unlabeledJump jump _ => "unlabeled `" ++ jump.keyword ++ "` inside a staged loop"
  | namingViolation binding _ =>
    "all staged loop binders must start with `$` (binding: " ++ binding ++ ")"
  | unresolvedChain chain _ =>
    "inlined property chain `" ++ chain ++ "` has a key that is only known at run time"
  | missingContext name => "no value supplied for staged parameter `" ++ name ++ "`"
  | notCallable name found _ => "staged callee `" ++ name ++ "` is " ++ found ++ ", not a function"
  | syntaxError e => e.message
  | runtime e => e.message h

/-- The place in the template that a fault concerns. -/
def span? : StagingError → Option Span
  | unsupportedParameter _ span | stagingMismatch _ span | invalidLabel _ _ span
  | unlabeledJump _ span | namingViolation _ span | unresolvedChain _ span
  | notCallable _ _ span => some span
  | syntaxError e => some e.span
  | undeclaredOption _ | missingContext _ | runtime _ => none

/-- What to know about a fault. -/
def notes : StagingError → List String
  | undeclaredOption name => ["`" ++ name ++ "` must appear in the function's parameter list"]
  | stagingMismatch _ _ =>
    ["a conditional chain is either resolved entirely during generation or not at all"]
  | invalidLabel _ _ _ =>
    ["`$` labels may only annotate `for ... of` / `for ... in` over a staged collection"]
  | unlabeledJump _ _ => ["a staged loop is unrolled; it is not a loop in the produced program"]
  | notCallable _ _ _ => ["calls through a staged name run during generation"]
  | runtime _ => ["raised while evaluating a staged expression"]
  | unsupportedParameter _ _ | namingViolation _ _ | unresolvedChain _ _ | missingContext _
  | syntaxError _ => []

/-- What to do about a fault. -/
def help : StagingError → List String
  | unsupportedParameter _ _ => ["declare the parameter as a plain identifier"]
  | unlabeledJump _ _ => ["label the staged loop with a `$` label and jump to that label"]
  | namingViolation _ _ => ["prefix every name bound by the loop with `$`"]
  | unresolvedChain _ _ =>
    ["compute the key from staged values only, or do not inline the root"]
  | missingContext name => ["add a value for `" ++ name ++ "` to the context"]
  | undeclaredOption _ | stagingMismatch _ _ | invalidLabel _ _ _ | notCallable _ _ _
  | syntaxError _ | runtime _ => []

def toDiagnostic (h : Script.Heap) (e : StagingError) : Diagnostic :=
  ⟨.error, e.message h, e.span?, e.notes, e.help⟩

end StagingError

end Staging.Template
