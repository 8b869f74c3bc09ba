import CommandScript.Token

/-!
# Pieces of a source text

A source text falls into pieces from left to right. At each point the piece is the
longest one that some rule allows: a run of blanks, a line break, a comment up to the
end of its line, a number, a closed string, a word, an operator or bracket, a string
that is never closed, or else a single unexpected character.

* `extent`: the shape of the piece that starts with a character, and how many further
  characters it takes.
* `pieces`: all pieces of a text.
* `flatten_pieces`: the pieces put together are the text.
-/

namespace CommandScript

inductive PieceShape where
  | blank
  | lineBreak
  | comment
  | number
  | string
  | word
  | mark (kind : TokenKind)
  | unterminated
  | unexpected
  deriving DecidableEq

structure Piece where
  shape : PieceShape
  text : List Char
  deriving DecidableEq

namespace Piece

def isBlank (c : Char) : Bool := c = ' ' || c = '\t' || c = '\r' || c = '\x0c'

def isWordStart (c : Char) : Bool := c.isAlpha || c = '_'

def isWordPart (c : Char) : Bool := c.isAlphanum || c = '_'

/-- The kind of an operator or bracket of one character. -/
def singleMark? : Char → Option TokenKind
  | '(' => some .leftParen
  | ')' => some .rightParen
  | '{' => some .leftBrace
  | '}' => some .rightBrace
  | '[' => some .leftBracket
  | ']' => some .rightBracket
  | ',' => some .comma
  | '.' => some .dot
  | '-' => some .minus
  | '+' => some .plus
  | ';' => some .semicolon
  | '*' => some .star
  | '/' => some .slash
  | ':' => some .colon
  | '?' => some .question
  | '|' => some .pipe
  | '@' => some .atSign
  | '#' => some .hash
  | '$' => some .dollar
  | '%' => some .percent
  | '^' => some .caret
  | '&' => some .ampersand
  | '~' => some .tilde
  | '\x60' => some .backtick
  | '\x27' => some .quote
  | '\\' => some .backslash
  | '!' => some .bang
  | '=' => some .equal
  | '<' => some .less
  | '>' => some .greater
  | _ => none

/-- The kind of the operator made of a character and a following `=`. -/
def withEqual? : Char → Option TokenKind
  | '!' => some .bangEqual
  | '=' => some .equalEqual
  | '<' => some .lessEqual
  | '>' => some .greaterEqual
  | _ => none

/-- The length of the fraction of a number: a point counts only before a digit. -/
def fractionLength : List Char → Nat
  | '.' :: digit :: rest =>
    if digit.isDigit then 2 + (rest.takeWhile Char.isDigit).length else 0
  | _ => 0

/-- The shape of the piece that starts with `first` and the number of characters of
`rest` that belong to it. -/
def extent (first : Char) (rest : List Char) : PieceShape × Nat :=
  if isBlank first then (.blank, (rest.takeWhile isBlank).length)
  else if first = '\n' then (.lineBreak, 0)
  else if first = '/' && rest.head? = some '/' then
    (.comment, (rest.takeWhile (· ≠ '\n')).length)
  else if first = '"' then
    let body := (rest.takeWhile (· ≠ '"')).length
    if body < rest.length then (.string, body + 1) else (.unterminated, body)
  else if first.isDigit then
    (.number, (rest.takeWhile Char.isDigit).length +
      fractionLength (rest.dropWhile Char.isDigit))
  else if isWordStart first then (.word, (rest.takeWhile isWordPart).length)
  else
    match withEqual? first, rest.head?, singleMark? first with
    | some kind, some '=', _ => (.mark kind, 1)
    | _, _, some kind => (.mark kind, 0)
    | _, _, none => (.unexpected, 0)

/-- The pieces of a text in order. -/
def pieces : List Char → List Piece
  | [] => []
  | first :: rest =>
    let found := extent first rest
    ⟨found.1, first :: rest.take found.2⟩ :: pieces (rest.drop found.2)
termination_by text => text.length
decreasing_by
  simp only [List.length_drop, List.length_cons]
  omega

@[simp] theorem pieces_nil : pieces [] = [] := by
  rw [pieces]

theorem pieces_cons (first : Char) (rest : List Char) :
    pieces (first :: rest) =
      ⟨(extent first rest).1, first :: rest.take (extent first rest).2⟩ ::
        pieces (rest.drop (extent first rest).2) := by
  rw [pieces]

theorem flatten_pieces (text : List Char) : (pieces text).flatMap Piece.text = text := by
  fun_induction pieces text with
  | case1 => rfl
  | case2 first rest found ih => simp [ih, List.take_append_drop]

end Piece

end CommandScript
