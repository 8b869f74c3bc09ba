import CommandScript.Syntax

/-!
# Listings of programs

A program is listed in prefix form, one top-level statement a line. Every compound node
is a parenthesis that starts with its head word; a head without parts stands alone.
Groupings are listed, so the nesting shows precedence without any further parenthesis.

* `Expr.listing`, `Command.listing`, `Stmt.listing`: the text of a node.
* `programListing`: the text of a program.
-/

namespace CommandScript

/-- A parenthesis around a head and its parts, with single spaces between them. -/
def parenthesized (head : String) (parts : List String) : String :=
  "(" ++ " ".intercalate (head :: parts) ++ ")"

mutual

def Expr.listing : Expr → String
  | .literal value _ => value.text
  | .grouping inner _ => parenthesized "group" [inner.listing]
  | .unary op operand _ => parenthesized op.text [operand.listing]
  | .binary op left right _ => parenthesized op.text [left.listing, right.listing]
  | .logical op left right _ => parenthesized op.text [left.listing, right.listing]
  | .variable _ name _ => name
  | .assign _ name value _ => parenthesized "=" [name, value.listing]
  | .call callee args _ => parenthesized "call" (callee.listing :: Expr.listings args)
  | .commandRef name _ => name

def Expr.listings : List Expr → List String
  | [] => []
  | expr :: rest => expr.listing :: Expr.listings rest

end

def ArgValue.listing : ArgValue → String
  | .word text => text
  | .expr value => value.listing

def Arg.listing : Arg → String
  | .positional value => value.listing
  | .flag name => "-" ++ name
  | .parameter name values => parenthesized ("--" ++ name) (values.map ArgValue.listing)

def Command.listing : Command → String
  | .deliver word args _ => parenthesized "command" (word :: args.map Arg.listing)
  | .help topic _ => parenthesized "help" topic.toList
  | .exit _ => parenthesized "exit" []

mutual

def Stmt.listing : Stmt → String
  | .block body => parenthesized "block" (Stmt.listings body)
  | .expression expr _ => parenthesized ";" [expr.listing]
  | .branch condition thenBranch none _ =>
    parenthesized "if" [condition.listing, thenBranch.listing]
  | .branch condition thenBranch (some elseBranch) _ =>
    parenthesized "if" [condition.listing, thenBranch.listing, elseBranch.listing]
  | .loop condition body _ => parenthesized "while" [condition.listing, body.listing]
  | .print expr _ => parenthesized "print" [expr.listing]
  | .return value _ => parenthesized "return" (value.map Expr.listing).toList
  | .declare name initializer _ =>
    parenthesized "var" (name :: (initializer.map Expr.listing).toList)
  | .function name params body _ =>
    parenthesized "fun" (name :: ("(" ++ " ".intercalate (params.map Parameter.name) ++ ")")
      :: Stmt.listings body)
  | .command action => action.listing

def Stmt.listings : List Stmt → List String
  | [] => []
  | stmt :: rest => stmt.listing :: Stmt.listings rest

end

theorem Expr.listings_eq_map (exprs : List Expr) :
    Expr.listings exprs = exprs.map Expr.listing := by
  induction exprs with
  | nil => simp [Expr.listings]
  | cons expr rest ih => simp [Expr.listings, ih]

theorem Stmt.listings_eq_map (stmts : List Stmt) :
    Stmt.listings stmts = stmts.map Stmt.listing := by
  induction stmts with
  | nil => simp [Stmt.listings]
  | cons stmt rest ih => simp [Stmt.listings, ih]

def programListing (program : List Stmt) : String :=
  "\n".intercalate (program.map Stmt.listing)

end CommandScript
