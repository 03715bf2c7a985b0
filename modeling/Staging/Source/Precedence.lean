import Staging.Number.Binary
import Staging.Source.Tree

/-!
Binding strength of expressions, from loosest to tightest. An expression has to be put in parentheses
where it binds less tightly than its place asks for.
-/

namespace Staging

inductive Precedence where
  | lowest | assignment | conditional | nullish | logicalOr | logicalAnd | equality | relational
  | additive | multiplicative | exponent | unary | postfix_ | call | primary
deriving DecidableEq, Repr

namespace Precedence

/-- The levels from loosest to tightest. -/
def all : List Precedence :=
  [lowest, assignment, conditional, nullish, logicalOr, logicalAnd, equality, relational, additive,
    multiplicative, exponent, unary, postfix_, call, primary]

/-- The name of a level in listings. -/
def name : Precedence → String
  | lowest => "Lowest"
  | assignment => "Assignment"
  | conditional => "Conditional"
  | nullish => "Nullish"
  | logicalOr => "LogicalOr"
  | logicalAnd => "LogicalAnd"
  | equality => "Equality"
  | relational => "Relational"
  | additive => "Additive"
  | multiplicative => "Multiplicative"
  | exponent => "Exponent"
  | unary => "Unary"
  | postfix_ => "Postfix"
  | call => "Call"
  | primary => "Primary"

/-- The level with the given name. -/
def ofName? (s : String) : Option Precedence := all.find? (·.name == s)

/-- How tightly a level binds. -/
def rank : Precedence → Nat
  | lowest => 0
  | assignment => 1
  | conditional => 2
  | nullish => 3
  | logicalOr => 4
  | logicalAnd => 5
  | equality => 6
  | relational => 7
  | additive => 8
  | multiplicative => 9
  | exponent => 10
  | unary => 11
  | postfix_ => 12
  | call => 13
  | primary => 14

/-- The next tighter level; the tightest is its own successor. -/
def next : Precedence → Precedence
  | lowest => assignment
  | assignment => conditional
  | conditional => nullish
  | nullish => logicalOr
  | logicalOr => logicalAnd
  | logicalAnd => equality
  | equality => relational
  | relational => additive
  | additive => multiplicative
  | multiplicative => exponent
  | exponent => unary
  | unary => postfix_
  | postfix_ => call
  | call => primary
  | primary => primary

instance : LT Precedence := ⟨fun a b => a.rank < b.rank⟩

instance (a b : Precedence) : Decidable (a < b) := inferInstanceAs (Decidable (a.rank < b.rank))

instance : LE Precedence := ⟨fun a b => a.rank ≤ b.rank⟩

instance (a b : Precedence) : Decidable (a ≤ b) := inferInstanceAs (Decidable (a.rank ≤ b.rank))

end Precedence

def BinaryOp.precedence : BinaryOp → Precedence
  | nullish => .nullish
  | or => .logicalOr
  | and => .logicalAnd
  | eq | notEq | strictEq | strictNotEq => .equality
  | lt | gt | le | ge => .relational
  | add | sub => .additive
  | mul | div | mod => .multiplicative
  | pow => .exponent

/-- Whether a number is written with a leading minus sign. -/
def Literal.isSigned : Literal → Bool
  | number x => Number.isNegative x && x != 0.0
  | _ => false

/-- How tightly an expression binds. A number with a minus sign binds like a negation. -/
def Expr.precedence : Expr → Precedence
  | literal _ value => if value.isSigned then .unary else .primary
  | ident _ _ | array _ _ | object _ _ => .primary
  | function _ func => if func.isArrow then .assignment else .primary
  | unary _ _ _ => .unary
  | update _ _ before _ => if before then .unary else .postfix_
  | binary _ op _ _ => op.precedence
  | assign _ _ _ _ => .assignment
  | cond _ _ _ _ => .conditional
  | member _ _ _ _ | call _ _ _ _ | new _ _ _ => .call

end Staging
