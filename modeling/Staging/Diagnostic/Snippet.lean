import Staging.Diagnostic
import Staging.Text.Blank

/-!
Diagnostics drawn into the source.

The line that holds the start of the span is shown under its number, with the span underlined and the
message hung from the middle of the underline. The drawing is described column by column: a column is
as wide as the character that stands in it, which is one except for tabs.
-/

namespace Staging

/-- The part of a span that lies in a source of the given size. -/
def Span.clamp (s : Span) (size : Nat) : Span :=
  let start := min s.start size
  ⟨start, min (max s.stop start) size⟩

namespace Diagnostic

/-- The number of columns between tab stops. -/
def tabWidth : Nat := 4

/-- How wide a character is drawn in a column. -/
def charWidth (c : Char) (column : Nat) : Nat :=
  if c = '\t' then tabWidth - column % tabWidth else 1

/-- The lines of a text. A line end at the end of the text begins no further line. -/
def sourceLines (cs : List Char) : List (List Char) :=
  match cs with
  | [] => []
  | c :: rest =>
    if c = '\n' then [c] :: sourceLines rest
    else
      match sourceLines rest with
      | [] => [[c]]
      | line :: more => (c :: line) :: more

/-- The line that holds an offset, its number from zero, and the offset's column in it. -/
def locate (lines : List (List Char)) (offset : Nat) (number : Nat) :
    Option (List Char × Nat × Nat) :=
  match lines with
  | [] => none
  | [line] => some (line, number, offset)
  | line :: rest =>
    if offset < line.length then some (line, number, offset)
    else locate rest (offset - line.length) (number + 1)

/-- A line without the blanks at its end. -/
def trimLine (line : List Char) : List Char :=
  (line.reverse.dropWhile Text.isBlank).reverse

/-- A line as it is shown. -/
def shownLine (line : List Char) : String :=
  String.join ((trimLine line).mapIdx fun column c =>
    if c = '\t' then "".pushn ' ' (charWidth c column) else c.toString)

/--
Draws columns under a line. Each column has a character and, where the column is wider than one,
another that fills it up.
-/
def drawUnder (line : List Char) (columns : Nat) (at_ : Nat → Char × Char) : String :=
  let shown := trimLine line
  String.join ((List.range columns).map fun column =>
    let width := (shown[column]?).elim 1 (charWidth · column)
    let (c, tail) := at_ column
    c.toString.pushn tail (width - 1))

/-- The span underlined, with a mark at its middle. An empty span has the mark only. -/
def underline (start length : Nat) (column : Nat) : Char × Char :=
  if column = start + length / 2 then if length = 0 then ('│', ' ') else ('┬', '─')
  else if start ≤ column ∧ column < start + length then ('─', '─')
  else (' ', ' ')

/-- The arrow from the middle of the span to the message. -/
def arrow (middle : Nat) (column : Nat) : Char × Char :=
  if column = middle then ('╰', '─')
  else if middle < column then ('─', '─')
  else (' ', ' ')

def Level.heading : Level → String
  | .error => "Error"
  | .warning => "Warning"

/-- The snippet of one line, below the first line of the report. -/
def snippet (d : Diagnostic) (line : List Char) (number column length : Nat) : List String :=
  let label := toString (number + 1)
  let margin := "".pushn ' ' (label.length + 2)
  let columns := column + length + 2
  let remark (name : String) (texts : List String) : List String :=
    if texts.isEmpty then []
    else [margin ++ "│ ", margin ++ "│ " ++ name ++ ": " ++ "\n".intercalate texts]
  [margin ++ "╭─[<unknown>:" ++ label ++ ":" ++ toString (column + 1) ++ "]",
    margin ++ "│",
    " " ++ label ++ " │ " ++ shownLine line,
    margin ++ "│ " ++ drawUnder line columns (underline column length),
    margin ++ "│ " ++ drawUnder line columns (arrow (column + length / 2)) ++ " " ++ d.message]
    ++ remark "Help" d.help ++ remark "Note" d.notes
    ++ ["".pushn '─' (label.length + 2) ++ "╯"]

/-- The report of a diagnostic about a source. Without a span it is the plain text. -/
def report (d : Diagnostic) (source : String) : String :=
  match d.span with
  | none => d.plain
  | some span =>
    let span := span.clamp source.utf8ByteSize
    joinLines ((Level.heading d.level ++ ": " ++ d.message) ::
      match locate (sourceLines source.toList) span.start 0 with
      | none => []
      | some (line, number, column) => d.snippet line number column (span.stop - span.start))

end Diagnostic

end Staging
