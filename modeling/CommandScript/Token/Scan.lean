import CommandScript.Fault
import CommandScript.Number.Reading
import CommandScript.Token.CommandWords
import CommandScript.Token.Piece

/-!
# Scanning a source text

Scanning never stops early. Pieces that are tokens become tokens, unexpected characters
and unclosed strings are recorded, and everything else only moves the line counter,
which starts at one and counts every line break, those inside strings included. The
last token marks the end of the input.

* `wordToken`: exact literals first, then command words, then key words, then names.
* `scan`: the tokens and errors of a text.
-/

namespace CommandScript

structure Scanned where
  tokens : List Token
  errors : List (Located LexFault)
  deriving DecidableEq

/-- The token of a word. `true`, `false` and `null` are literals in exactly this
spelling; a command word takes precedence over a key word. -/
def wordToken (words : CommandWords) (word : String) (line : Nat) : Token :=
  if word = "true" then ⟨.trueWord, word, some (.bool true), line⟩
  else if word = "false" then ⟨.falseWord, word, some (.bool false), line⟩
  else if word = "null" then ⟨.nullWord, word, some .null, line⟩
  else if words.contains word then ⟨.command, word, none, line⟩
  else ⟨(TokenKind.keyword? word).getD .identifier, word, none, line⟩

namespace Piece

/-- The token that a piece ending on `line` stands for, if it is one. -/
def token? (words : CommandWords) (piece : Piece) (line : Nat) : Option Token :=
  let lexeme := String.ofList piece.text
  match piece.shape with
  | .number =>
    some ⟨.number, lexeme, some (.number ((Number.readPlain? piece.text).getD 0)), line⟩
  | .string =>
    some ⟨.string, lexeme, some (.string (String.ofList piece.text.tail.dropLast)), line⟩
  | .word => some (wordToken words lexeme line)
  | .mark kind => some ⟨kind, lexeme, none, line⟩
  | .blank | .lineBreak | .comment | .unterminated | .unexpected => none

/-- The error that a piece ending on `line` stands for, if it is one. -/
def error? (piece : Piece) (line : Nat) : Option (Located LexFault) :=
  match piece.shape, piece.text with
  | .unterminated, _ => some ⟨.unterminatedString, line⟩
  | .unexpected, character :: _ => some ⟨.unexpectedCharacter character, line⟩
  | _, _ => none

/-- The line on which a piece ends when it starts on `line`. -/
def lastLine (piece : Piece) (line : Nat) : Nat := line + piece.text.count '\n'

end Piece

namespace Scanned

/-- The tokens and errors of a list of pieces that starts on `line`. -/
def ofPieces (words : CommandWords) : Nat → List Piece → Scanned
  | line, [] => ⟨[.endOfInput line], []⟩
  | line, piece :: rest =>
    let last := piece.lastLine line
    let after := ofPieces words last rest
    ⟨(piece.token? words last).toList ++ after.tokens,
      (piece.error? last).toList ++ after.errors⟩

end Scanned

def scan (words : CommandWords) (source : String) : Scanned :=
  Scanned.ofPieces words 1 (Piece.pieces source.toList)

end CommandScript
