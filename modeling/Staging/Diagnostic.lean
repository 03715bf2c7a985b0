import Staging.Source.Token

/-!
Messages to the user: what is wrong, where, what to know about it and what to do.
-/

namespace Staging

/-- Whether generation stops. -/
inductive Level where
  | error
  | warning
deriving DecidableEq, Repr

def Level.name : Level → String
  | error => "error"
  | warning => "warning"

/-- A message to the user. -/
structure Diagnostic where
  level : Level
  message : String
  span : Option Span := none
  notes : List String := []
  help : List String := []

namespace Diagnostic

/-! ### Lines of text -/

/-- The colours of a terminal. -/
inductive Color where
  | red | green | yellow | blue | gray
deriving DecidableEq, Repr

/-- The number that selects a colour. -/
def Color.code : Color → String
  | red => "31"
  | green => "32"
  | yellow => "33"
  | blue => "34"
  | gray => "90"

/-- A piece of text that may be shown in bold or in a colour. -/
structure Piece where
  text : String
  bold : Bool := false
  color : Option Color := none

def Piece.codes (p : Piece) : List String :=
  (if p.bold then ["1"] else []) ++ (p.color.map Color.code).toList

/-- The code that ends every style. -/
def styleEnd : String := "\x1b[0m"

/--
A piece between the codes that switch its style on and off. Where the text itself ends a style, the
style of the piece is switched on again.
-/
def Piece.styled (p : Piece) : String :=
  match p.codes with
  | [] => p.text
  | codes =>
    let start := "\x1b[" ++ ";".intercalate codes ++ "m"
    start ++ p.text.replace styleEnd (styleEnd ++ start) ++ styleEnd

def Level.color : Level → Color
  | .error => .red
  | .warning => .yellow

def spanText (s : Span) : String := toString s.start ++ ".." ++ toString s.stop

/-- A piece without style. -/
def Piece.unstyled (text : String) : Piece := { text }

/-- A line with a sign and a text, indented. -/
def remarkLine (sign : Piece) (text : Piece) : List Piece :=
  [.unstyled "  ", sign, .unstyled " ", text]

/-- The lines of a diagnostic: the message, the place, the notes and the help. -/
def lines (d : Diagnostic) : List (List Piece) :=
  [[⟨d.level.name, true, some (Level.color d.level)⟩, .unstyled ": ", ⟨d.message, true, none⟩]]
    ++ (d.span.map fun s => remarkLine ⟨"-->", true, some .blue⟩ (.unstyled (spanText s))).toList
    ++ d.notes.map (fun note =>
      remarkLine ⟨"=", true, some .blue⟩ ⟨"note: " ++ note, false, some .gray⟩)
    ++ d.help.map (fun help =>
      remarkLine ⟨"=", true, some .green⟩ ⟨"help: " ++ help, false, some .green⟩)

def joinLines (lines : List String) : String := String.join (lines.map (· ++ "\n"))

/-- The text of a diagnostic without colours. -/
def plain (d : Diagnostic) : String :=
  joinLines (d.lines.map fun pieces => String.join (pieces.map Piece.text))

/-- The text of a diagnostic with colours. -/
def colored (d : Diagnostic) : String :=
  joinLines (d.lines.map fun pieces => String.join (pieces.map Piece.styled))

end Diagnostic

end Staging
