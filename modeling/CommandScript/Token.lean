import CommandScript.Number.Text
import CommandScript.Text.LetterCase

/-!
# Tokens

A token has a kind, the text it was read from, the line on which it ends and, for
literals, the constant it denotes.

* `Literal.text`: the text of a constant; a string stands for itself, without quotes.
* `TokenKind.keyword?`: the key words, in any letter case, several of them with synonyms.
-/

namespace CommandScript

inductive Literal where
  | null
  | bool (value : Bool)
  | number (value : Float)
  | string (value : String)
  deriving DecidableEq

def Literal.text : Literal → String
  | .null => "null"
  | .bool true => "true"
  | .bool false => "false"
  | .number value => Number.text value
  | .string value => value

inductive TokenKind where
  | leftParen | rightParen | leftBrace | rightBrace | leftBracket | rightBracket
  | comma | dot | minus | plus | semicolon | star | slash | colon | question | pipe
  | atSign | hash | dollar | percent | caret | ampersand | tilde | backtick | quote
  | backslash | bang | bangEqual | equal | equalEqual | less | lessEqual | greater
  | greaterEqual
  | string | number | trueWord | falseWord | nullWord | identifier
  | andWord | orWord | varWord | constWord | funWord | printWord | returnWord | ifWord
  | elseWord | whileWord | forWord
  | command
  | endOfInput
  deriving DecidableEq

/-- The kind of a key word, whatever the case of its letters. -/
def TokenKind.keyword? (word : String) : Option TokenKind :=
  match Text.lowered word with
  | "var" | "let" => some .varWord
  | "const" => some .constWord
  | "fun" | "func" | "def" => some .funWord
  | "print" | "echo" => some .printWord
  | "return" => some .returnWord
  | "if" => some .ifWord
  | "else" => some .elseWord
  | "while" => some .whileWord
  | "for" => some .forWord
  | "and" => some .andWord
  | "or" => some .orWord
  | _ => none

structure Token where
  kind : TokenKind
  lexeme : String
  literal : Option Literal
  line : Nat
  deriving DecidableEq

/-- The token after the last one. -/
def Token.endOfInput (line : Nat) : Token := ⟨.endOfInput, "", none, line⟩

end CommandScript
