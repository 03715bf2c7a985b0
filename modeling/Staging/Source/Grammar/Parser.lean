import Staging.Source.Token

/-!
Parsers over tokens that remember how far they came.

A parser either succeeds with a value, or fails. Both outcomes carry a failure: a success the one
that lies furthest ahead among those met on the way, so that a later failure can be reported together
with the alternatives that were open at the same place. `Failure.furthest` combines two failures and
is what all combinators are built from.
-/

namespace Staging

/-- Why and where a parser could not go on. -/
structure Failure where
  /-- The index of the token at which it stopped. -/
  pos : Nat
  /-- A message that replaces the list of expected tokens. -/
  custom : Option String
  span : Span
  /-- The token that stood there, nothing at the end of the input. -/
  found : Option Token
  /-- What would have been accepted; nothing stands for the end of the input. -/
  expected : List (Option Token)

namespace Failure

/-- The failure further ahead. At the same place the first one takes over what the second expects. -/
def furthest (a b : Failure) : Failure :=
  if a.pos < b.pos then b
  else if b.pos < a.pos then a
  else { a with expected := a.expected ++ b.expected }

/-- Adds a later failure to an earlier one; at the same place the later one is kept. -/
def merge : Option Failure → Option Failure → Option Failure
  | none, b => b
  | a, none => a
  | some a, some b => some (b.furthest a)

/-- A failure after an optional earlier one. -/
def after (earlier : Option Failure) (f : Failure) : Failure :=
  match earlier with
  | some e => f.furthest e
  | none => f

def describeToken : Option Token → String
  | some t => t.describe
  | none => "end of input"

/-- Puts a text into a list in ascending order, unless it is there. -/
def insertSorted (s : String) : List String → List String
  | [] => [s]
  | t :: rest => if s < t then s :: t :: rest else if s = t then t :: rest else t :: insertSorted s rest

/-- The message of a failure. -/
def message (f : Failure) : String :=
  match f.custom with
  | some text => text
  | none =>
    let expected := (f.expected.map describeToken).foldr insertSorted []
    let unexpected := "unexpected " ++ describeToken f.found
    if expected.isEmpty then unexpected
    else unexpected ++ ", expected " ++ ", ".intercalate expected

end Failure

/-- Tokens to parse, and the span that stands for the end of the input. -/
structure Input where
  lexemes : Array Lexeme
  endSpan : Span

namespace Input

/-- The span of the token at a position. -/
def spanAt (input : Input) (pos : Nat) : Span :=
  match input.lexemes[pos]? with
  | some l => l.span
  | none => input.endSpan

def tokenAt? (input : Input) (pos : Nat) : Option Token := input.lexemes[pos]?.map (·.token)

/-- The span of the tokens from `start` up to, not including, `stop`. -/
def spanOf (input : Input) (start stop : Nat) : Span :=
  ⟨(input.spanAt start).start, (input.spanAt (max (stop - 1) start)).stop⟩

/-- The failure of the token at a position to be what was expected. -/
def unexpected (input : Input) (pos : Nat) (expected : List (Option Token)) : Failure :=
  ⟨pos, none, input.spanAt pos, input.tokenAt? pos, expected⟩

end Input

/-- What a parser comes to: a value and the next position, or a failure. -/
inductive Outcome (α : Type) where
  | ok (value : α) (pos : Nat) (alt : Option Failure)
  | fail (failure : Failure)

/-- A parser reads tokens from a position on. -/
def Parser (α : Type) : Type := Input → Nat → Outcome α

namespace Parser

variable {α β : Type}

/-- Succeeds without reading. -/
def succeed (a : α) : Parser α := fun _ pos => .ok a pos none

/-- Reads one thing after the other. -/
def andThen (p : Parser α) (f : α → Parser β) : Parser β := fun input pos =>
  match p input pos with
  | .fail e => .fail e
  | .ok a mid alt =>
    match f a input mid with
    | .fail e => .fail (e.after alt)
    | .ok b stop alt' => .ok b stop (Failure.merge alt alt')

instance : Monad Parser where
  pure := succeed
  bind := andThen

/-- Reads a token that the function accepts. -/
def accept (f : Token → Option α) : Parser α := fun input pos =>
  match (input.tokenAt? pos).bind f with
  | some a => .ok a (pos + 1) none
  | none => .fail (input.unexpected pos [])

/-- Reads the given token. -/
def token (t : Token) : Parser Unit := fun input pos =>
  if input.tokenAt? pos = some t then .ok () (pos + 1) none
  else .fail (input.unexpected pos [some t])

def mark (m : Mark) : Parser Unit := token (.mark m)

def keyword (k : Keyword) : Parser Unit := token (.keyword k)

/-- Succeeds at the end of the input. -/
def endOfInput : Parser Unit := fun input pos =>
  if pos < input.lexemes.size then .fail (input.unexpected pos [none]) else .ok () pos none

/-- The first of two parsers that succeeds; its outcome alone counts. -/
def orElse (p q : Parser α) : Parser α := fun input pos =>
  match p input pos with
  | .ok a stop alt => .ok a stop alt
  | .fail e =>
    match q input pos with
    | .ok a stop alt => .ok a stop alt
    | .fail e' => .fail (e.furthest e')

/-- The first of several parsers that succeeds, after the failures of those before it. -/
def firstOf (failed : Option Failure) : List (Parser α) → Parser α
  | [], input, pos => .fail (failed.getD (input.unexpected pos []))
  | p :: rest, input, pos =>
    match p input pos with
    | .ok a stop alt => .ok a stop alt
    | .fail e => firstOf (Failure.merge failed (some e)) rest input pos

/-- The first of several parsers that succeeds; its outcome alone counts. -/
def choice (ps : List (Parser α)) : Parser α := firstOf none ps

/-- Reads something that may be missing. -/
def maybe (p : Parser α) : Parser (Option α) := fun input pos =>
  match p input pos with
  | .ok a stop alt => .ok (some a) stop alt
  | .fail e => .ok none pos (some e)

/-- Repeats a parser until it fails; `found` holds what was read, last first. -/
def repeatFrom (p : Parser α) (input : Input) :
    Nat → List α → Nat → Option Failure → Outcome (List α)
  | 0, found, pos, alt => .ok found.reverse pos alt
  | fuel + 1, found, pos, alt =>
    match p input pos with
    | .fail e => .ok found.reverse pos (Failure.merge alt (some e))
    | .ok a stop alt' => repeatFrom p input fuel (a :: found) stop (Failure.merge alt alt')

/-- Reads as many as there are. The parser has to read at least one token each time. -/
def many (p : Parser α) : Parser (List α) := fun input pos =>
  repeatFrom p input (input.lexemes.size + 1 - pos) [] pos none

/-- Reads further items after separators; gives the failure that ended the list. -/
def separatedFrom (p : Parser α) (sep : Parser Unit) (input : Input) :
    Nat → List α → Nat → Option Failure → List α × Nat × Option Failure × Failure
  | 0, found, pos, alt => (found, pos, alt, input.unexpected pos [])
  | fuel + 1, found, pos, alt =>
    match sep input pos with
    | .fail e => (found, pos, alt, e)
    | .ok _ mid sepAlt =>
      let alt := Failure.merge alt sepAlt
      match p input mid with
      | .fail e => (found, pos, alt, e)
      | .ok a stop itemAlt =>
        separatedFrom p sep input fuel (a :: found) stop (Failure.merge alt itemAlt)

/-- Reads at least one item, with separators between them. -/
def separated1 (p : Parser α) (sep : Parser Unit) : Parser (List α) := fun input pos =>
  match p input pos with
  | .fail e => .fail e
  | .ok a mid alt =>
    let (found, stop, alt, e) :=
      separatedFrom p sep input (input.lexemes.size + 1 - pos) [a] mid alt
    .ok found.reverse stop (Failure.merge alt (some e))

/-- Reads any number of items with separators between them and possibly one at the end. -/
def separatedTrailing (p : Parser α) (sep : Parser Unit) : Parser (List α) := fun input pos =>
  match p input pos with
  | .fail e => .ok [] pos (some e)
  | .ok a mid alt =>
    let (found, stop, alt, e) :=
      separatedFrom p sep input (input.lexemes.size + 1 - pos) [a] mid alt
    match sep input stop with
    | .ok _ stop' sepAlt =>
      .ok found.reverse stop' (Failure.merge (Failure.merge alt sepAlt) (some e))
    | .fail sepError =>
      .ok found.reverse stop (Failure.merge (Failure.merge alt (some sepError)) (some e))

/-- Gives the span of what was read. -/
def spanned (p : Parser α) : Parser (Span × α) := fun input pos =>
  match p input pos with
  | .ok a stop alt => .ok (input.spanOf pos stop, a) stop alt
  | .fail e => .fail e

/-- Checks what was read; a refusal is reported behind it, with a message and span of its own. -/
def check (p : Parser α) (f : α → Span → Except (String × Span) β) : Parser β := fun input pos =>
  match p input pos with
  | .fail e => .fail e
  | .ok a stop alt =>
    match f a (input.spanOf pos stop) with
    | .ok b => .ok b stop alt
    | .error (text, span) => .fail ⟨stop, some text, span, input.tokenAt? stop, []⟩

/-- Reads something between an opening and a closing mark. -/
def between (opening closing : Mark) (p : Parser α) : Parser α := do
  mark opening
  let a ← p
  mark closing
  return a

end Parser

end Staging
