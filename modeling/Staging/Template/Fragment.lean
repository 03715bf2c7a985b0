import Staging.Template.Program

/-!
Pieces of a program in the making.

Compiling appends text and instructions to a buffer. At the end, neighbouring texts become one
instruction.
-/

namespace Staging.Template

inductive Fragment where
  | text (s : String)
  | code (i : Instruction)

/-- What has been compiled so far. -/
abbrev Buffer := Array Fragment

namespace Buffer

/-- Appends a text; an empty one leaves no trace. -/
def pushText (b : Buffer) (s : String) : Buffer := if s.isEmpty then b else b.push (.text s)

def pushCode (b : Buffer) (i : Instruction) : Buffer := b.push (.code i)

/-- The instruction for a text, in front of others. An empty text needs none. -/
def flush (pending : String) (rest : List Instruction) : List Instruction :=
  if pending.isEmpty then rest else .literal pending :: rest

/-- The instructions of fragments that follow a text not yet written out. -/
def coalesce (pending : String) : List Fragment → List Instruction
  | [] => flush pending []
  | .text s :: rest => coalesce (pending ++ s) rest
  | .code i :: rest => flush pending (i :: coalesce "" rest)

/-- The instructions of a buffer. -/
def finish (b : Buffer) : List Instruction := coalesce "" b.toList

end Buffer

end Staging.Template
