import Staging.Text.Escaped

/-!
Tokens of the script language: keywords, symbols, names, numerals and strings, with the byte range
each takes up in its source.
-/

namespace Staging

/-- A range of bytes of a source text; `stop` is the first byte after it. -/
structure Span where
  start : Nat
  stop : Nat
deriving DecidableEq, Repr, Inhabited

/-- Words that cannot be used as names. -/
inductive Keyword where
  | function | return_ | if_ | else_ | for_ | of | in_ | while_ | break_ | continue_
  | let_ | const | var | new | typeof | throw_ | try_ | catch_ | finally_
  | true_ | false_ | null | undefined
deriving DecidableEq, Repr

namespace Keyword

/-- The spelling of a keyword. -/
def text : Keyword → String
  | function => "function"
  | return_ => "return"
  | if_ => "if"
  | else_ => "else"
  | for_ => "for"
  | of => "of"
  | in_ => "in"
  | while_ => "while"
  | break_ => "break"
  | continue_ => "continue"
  | let_ => "let"
  | const => "const"
  | var => "var"
  | new => "new"
  | typeof => "typeof"
  | throw_ => "throw"
  | try_ => "try"
  | catch_ => "catch"
  | finally_ => "finally"
  | true_ => "true"
  | false_ => "false"
  | null => "null"
  | undefined => "undefined"

/-- All keywords. -/
def all : List Keyword :=
  [function, return_, if_, else_, for_, of, in_, while_, break_, continue_, let_, const, var, new,
    typeof, throw_, try_, catch_, finally_, true_, false_, null, undefined]

/-- The keyword with the given spelling. -/
def ofText? (s : String) : Option Keyword := all.find? (·.text == s)

end Keyword

/-- Operators and punctuation. -/
inductive Mark where
  | plus | minus | star | starStar | slash | percent | plusPlus | minusMinus
  | assign | plusAssign | minusAssign | starAssign | slashAssign | percentAssign
  | eqEq | eqEqEq | notEq | notEqEq | lt | gt | le | ge | bang | andAnd | orOr
  | leftParen | rightParen | leftBrace | rightBrace | leftBracket | rightBracket
  | comma | dot | ellipsis | colon | semicolon | question | questionDot | questionQuestion | arrow
deriving DecidableEq, Repr

namespace Mark

/-- The spelling of a mark. -/
def text : Mark → String
  | plus => "+"
  | minus => "-"
  | star => "*"
  | starStar => "**"
  | slash => "/"
  | percent => "%"
  | plusPlus => "++"
  | minusMinus => "--"
  | assign => "="
  | plusAssign => "+="
  | minusAssign => "-="
  | starAssign => "*="
  | slashAssign => "/="
  | percentAssign => "%="
  | eqEq => "=="
  | eqEqEq => "==="
  | notEq => "!="
  | notEqEq => "!=="
  | lt => "<"
  | gt => ">"
  | le => "<="
  | ge => ">="
  | bang => "!"
  | andAnd => "&&"
  | orOr => "||"
  | leftParen => "("
  | rightParen => ")"
  | leftBrace => "\x7b"
  | rightBrace => "\x7d"
  | leftBracket => "["
  | rightBracket => "]"
  | comma => ","
  | dot => "."
  | ellipsis => "..."
  | colon => ":"
  | semicolon => ";"
  | question => "?"
  | questionDot => "?."
  | questionQuestion => "??"
  | arrow => "=>"

/-- All marks, those of three characters first and those of one character last. -/
def all : List Mark :=
  [eqEqEq, notEqEq, ellipsis,
    starStar, plusPlus, minusMinus, plusAssign, minusAssign, starAssign, slashAssign,
    percentAssign, eqEq, notEq, le, ge, andAnd, orOr, questionDot, questionQuestion, arrow,
    plus, minus, star, slash, percent, assign, lt, gt, bang, leftParen, rightParen, leftBrace,
    rightBrace, leftBracket, rightBracket, comma, dot, colon, semicolon, question]

/-- The longest mark a text begins with. -/
def longest? (cs : List Char) : Option Mark := all.find? fun m => m.text.toList.isPrefixOf cs

end Mark

/-- A token. A string token holds the text it denotes, a numeral its spelling. -/
inductive Token where
  | keyword (k : Keyword)
  | mark (m : Mark)
  | ident (name : String)
  | number (spelling : String)
  | str (content : String)
deriving DecidableEq, Repr

/-- How messages name a token. -/
def Token.describe : Token → String
  | .keyword k => "`" ++ k.text ++ "`"
  | .mark m => "`" ++ m.text ++ "`"
  | .ident name => "identifier `" ++ name ++ "`"
  | .number spelling => "number `" ++ spelling ++ "`"
  | .str content => "string " ++ Text.Escaped.encode content

/-- A token at its place in the source. -/
structure Lexeme where
  token : Token
  span : Span
deriving DecidableEq, Repr

/-- A character that may begin a name. -/
def isNameStart (c : Char) : Bool := c.isAlpha || c == '_' || c == '$'

/-- A character that may continue a name. -/
def isNamePart (c : Char) : Bool := c.isAlphanum || c == '_' || c == '$'

/-- Whether a text has the shape of a name; keywords have it too. -/
def isNameShaped (s : String) : Bool :=
  match s.toList with
  | c :: rest => isNameStart c && rest.all isNamePart
  | [] => false

end Staging
