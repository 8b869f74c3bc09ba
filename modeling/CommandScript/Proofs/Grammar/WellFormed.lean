import CommandScript.Proofs.Grammar.Sources
import CommandScript.Proofs.Syntax.Equality

/-!
# The shape of the programs that are read

What is read without a fault has the shape that the resolution of names and the machine rely
on. Variables and functions are declared among other statements, and not as a branch or as the
body of a loop. Calls and functions keep to the limit. Commands are known by their names in
lower case, and their arguments can be told from the values of a parameter.

* `Stmt.Parts.wellFormed`: what is asked of the parts of a program.
* `wellFormed_of_parse`: a program that was read is well-formed.
-/

namespace CommandScript

/-- The expressions in the argument are proper. -/
def ArgValue.Proper : ArgValue → Prop
  | .word _ => True
  | .expr value => value.Proper

def Arg.Proper : Arg → Prop
  | .positional value => value.Proper
  | .flag _ => True
  | .parameter _ values => ∀ value ∈ values, value.Proper

/-- A command is delivered by its name in lower case, which is not one of those that the
language answers itself, and a topic is asked for in lower case. -/
def Command.WellFormed : Command → Prop
  | .deliver name given _ =>
    Text.lowered name = name ∧ name ∉ ["help", "exit"] ∧ Arg.Canonical given ∧
      ∀ arg ∈ given, arg.Proper
  | .help topic _ => ∀ name ∈ topic, Text.lowered name = name
  | .exit _ => True

/-- No call has more arguments, and no function more parameters, than are allowed. -/
def Stmt.Parts.wellFormed : Stmt.Parts where
  expr := Expr.Proper
  name _ := True
  params params := params.length ≤ Grammar.maxArguments
  command := Command.WellFormed

variable {tokens : List Token}

theorem Expr.SpelledBy.proper {expr : Expr} (h : expr.SpelledBy tokens) : expr.Proper := by
  obtain ⟨_, -, -, hproper⟩ | ⟨line, rfl⟩ := h
  · exact hproper
  · trivial

theorem ArgValue.Within.proper {value : ArgValue} {levels : Nat} (h : value.Within levels) :
    value.Proper := by
  cases value with
  | word _ => trivial
  | expr _ => exact h.1

theorem Arg.Within.proper {arg : Arg} {levels : Nat} (h : arg.Within levels) : arg.Proper := by
  cases arg with
  | positional _ => exact ArgValue.Within.proper h
  | flag _ => trivial
  | parameter _ _ => exact fun value hvalue => (h value hvalue).proper

theorem Command.SpelledBy.wellFormed {action : Command} (h : action.SpelledBy tokens) :
    action.WellFormed := by
  cases h with
  | deliver _ hwritten =>
    cases hwritten with
    | deliver _ hname hargs =>
      exact ⟨Text.lowered_lowered _, hname, hargs.canonical,
        fun arg harg => (hargs.within arg harg).proper⟩
  | help htopic =>
    intro name hname
    obtain ⟨word, -, -, rfl⟩ := htopic name hname
    exact Text.lowered_lowered _
  | exit => trivial

theorem Stmt.Parts.spelledBy_wellFormed (tokens : List Token) :
    (Parts.spelledBy tokens).Implies .wellFormed where
  expr _ h := h.proper
  name _ _ := trivial
  params _ h := h.1
  command _ h := h.wellFormed

/-- **What is read is well-formed.** Every program that is read without a fault, in either
mode and from whatever tokens, declares variables and functions only at the top, in blocks and
in bodies of functions, keeps to the limit of arguments and parameters, and has commands and
topics in lower case, with no positional value directly after a parameter. -/
theorem wellFormed_of_parse {mode : InputMode} {nextId : NodeId} {program : List Stmt}
    (h : (parse mode tokens nextId).program = .ok program) :
    Stmt.StructuredAll program ∧ Stmt.MadeOfAll .wellFormed program :=
  ⟨(parse_spec h).1, (madeOf_of_parse h).mono (Stmt.Parts.spelledBy_wellFormed tokens)⟩

/-- `fun f(a) { HELP Open; } for (var b;;) f(b, true); OPEN -v --to x` at a prompt. -/
theorem wellFormed_of_parse_of_commands :
    let name (text : String) : Token := ⟨.identifier, text, none, 1⟩
    let mark (kind : TokenKind) (text : String) : Token := ⟨kind, text, none, 1⟩
    let tokens := [mark .funWord "fun", name "f", mark .leftParen "(", name "a",
      mark .rightParen ")", mark .leftBrace "\x7b", mark .command "HELP", mark .command "Open",
      mark .semicolon ";", mark .rightBrace "\x7d", mark .forWord "for", mark .leftParen "(",
      mark .varWord "var", name "b", mark .semicolon ";", mark .semicolon ";",
      mark .rightParen ")", name "f", mark .leftParen "(", name "b", mark .comma ",",
      ⟨.trueWord, "true", some (.bool true), 1⟩, mark .rightParen ")", mark .semicolon ";",
      mark .command "OPEN", mark .minus "-", name "v", mark .minus "-", mark .minus "-",
      name "to", name "x"]
    let program : List Stmt := [
      .function "f" [⟨"a", 1⟩] [.command (.help (some "open") 1)] 1,
      .block [.declare "b" none 1, .loop (.literal (.bool true) 1) (.expression
        (.call (.variable 7 "f" 1) [.variable 8 "b" 1, .literal (.bool true) 1] 1) 1) 1],
      .command (.deliver "open" [.flag "v", .parameter "to" [.word "x"]] 1)]
    (parse .command tokens 7).program = .ok program ∧ Stmt.StructuredAll program ∧
      Stmt.MadeOfAll .wellFormed program := by
  intro name mark tokens program
  have hparse : (parse .command tokens 7).program = .ok program := by decide +kernel
  exact ⟨hparse, wellFormed_of_parse hparse⟩

end CommandScript
