import CommandScript.Proofs.Syntax.SExpr
import CommandScript.Syntax.Listing

/-!
# The trees of listings

The listing of a program shows a tree for each of its statements. Literals, names and command
words are words of the tree; all other nodes are parentheses that start with the word for the
node.

* `Expr.tree`, `Stmt.tree`: the tree that is listed.
* `toList_programListing`: a listing is its trees, one a line.
-/

namespace CommandScript

open SExpr

mutual

def Expr.tree : Expr → SExpr
  | .literal value _ => .atom value.text
  | .grouping inner _ => .node "group" [inner.tree]
  | .unary op operand _ => .node op.text [operand.tree]
  | .binary op left right _ => .node op.text [left.tree, right.tree]
  | .logical op left right _ => .node op.text [left.tree, right.tree]
  | .variable _ name _ => .atom name
  | .assign _ name value _ => .node "=" [.atom name, value.tree]
  | .call callee args _ => .node "call" (callee.tree :: Expr.trees args)
  | .commandRef name _ => .atom name

def Expr.trees : List Expr → List SExpr
  | [] => []
  | expr :: rest => expr.tree :: Expr.trees rest

end

def ArgValue.tree : ArgValue → SExpr
  | .word text => .atom text
  | .expr value => value.tree

def Arg.tree : Arg → SExpr
  | .positional value => value.tree
  | .flag name => .atom ("-" ++ name)
  | .parameter name values => .node ("--" ++ name) (values.map ArgValue.tree)

def Command.tree : Command → SExpr
  | .deliver word args _ => .node "command" (.atom word :: args.map Arg.tree)
  | .help topic _ => .node "help" (topic.toList.map SExpr.atom)
  | .exit _ => .node "exit" []

mutual

def Stmt.tree : Stmt → SExpr
  | .block body => .node "block" (Stmt.trees body)
  | .expression expr _ => .node ";" [expr.tree]
  | .branch condition thenBranch none _ => .node "if" [condition.tree, thenBranch.tree]
  | .branch condition thenBranch (some elseBranch) _ =>
    .node "if" [condition.tree, thenBranch.tree, elseBranch.tree]
  | .loop condition body _ => .node "while" [condition.tree, body.tree]
  | .print expr _ => .node "print" [expr.tree]
  | .return value _ => .node "return" (value.map Expr.tree).toList
  | .declare name initializer _ => .node "var" (.atom name :: (initializer.map Expr.tree).toList)
  | .function name params body _ =>
    .node "fun" (.atom name :: .list (params.map (SExpr.atom ·.name)) :: Stmt.trees body)
  | .command action => action.tree

def Stmt.trees : List Stmt → List SExpr
  | [] => []
  | stmt :: rest => stmt.tree :: Stmt.trees rest

end

/-! ## Listings -/

theorem toList_parenthesized {head : String} {parts : List String} {trees : List SExpr}
    (h : parts.map String.toList = charsAll trees) :
    (parenthesized head parts).toList = (SExpr.node head trees).chars := by
  simp [parenthesized, String.toList_intercalate, h, intercalate_eq_joined, SExpr.node, chars,
    charsAll]

mutual

theorem Expr.toList_listing : ∀ expr : Expr, expr.listing.toList = expr.tree.chars
  | .literal _ _ | .variable _ _ _ | .commandRef _ _ => by simp [listing, tree, chars]
  | .grouping inner _ => by
    rw [listing, tree, toList_parenthesized]
    simp [charsAll, toList_listing inner]
  | .unary _ operand _ => by
    rw [listing, tree, toList_parenthesized]
    simp [charsAll, toList_listing operand]
  | .binary _ left right _ | .logical _ left right _ => by
    rw [listing, tree, toList_parenthesized]
    simp [charsAll, toList_listing left, toList_listing right]
  | .assign _ name value _ => by
    rw [listing, tree, toList_parenthesized]
    simp [charsAll, chars, toList_listing value]
  | .call callee args _ => by
    rw [listing, tree, toList_parenthesized]
    simp [charsAll, toList_listing callee, toList_listings args]

theorem Expr.toList_listings :
    ∀ exprs : List Expr, (Expr.listings exprs).map String.toList = charsAll (Expr.trees exprs)
  | [] => by simp [listings, trees, charsAll]
  | expr :: rest => by
    simp [listings, trees, charsAll, toList_listing expr, toList_listings rest]

end

theorem ArgValue.toList_listing (value : ArgValue) :
    value.listing.toList = value.tree.chars := by
  cases value with
  | word _ => simp [listing, tree, chars]
  | expr value => exact value.toList_listing

theorem Arg.toList_listing (arg : Arg) : arg.listing.toList = arg.tree.chars := by
  cases arg with
  | positional value => exact value.toList_listing
  | flag name => simp [listing, tree, chars]
  | parameter name values =>
    rw [listing, tree, toList_parenthesized]
    simp [charsAll_eq, ArgValue.toList_listing]

theorem Command.toList_listing (action : Command) :
    action.listing.toList = action.tree.chars := by
  cases action with
  | deliver word args _ =>
    rw [listing, tree, toList_parenthesized]
    simp [charsAll, charsAll_eq, chars, Arg.toList_listing]
  | help topic _ =>
    rw [listing, tree, toList_parenthesized]
    simp [charsAll_eq, chars]
  | exit _ =>
    rw [listing, tree, toList_parenthesized]
    simp [charsAll]

theorem toList_option (value : Option Expr) :
    (value.map Expr.listing).toList.map String.toList =
      charsAll (value.map Expr.tree).toList := by
  cases value with
  | none => rfl
  | some expr => simp [charsAll, expr.toList_listing]

theorem toList_parameters (params : List Parameter) :
    ("(" ++ " ".intercalate (params.map Parameter.name) ++ ")").toList =
      (SExpr.list (params.map (SExpr.atom ·.name))).chars := by
  simp [String.toList_intercalate, intercalate_eq_joined, chars, charsAll_eq, Function.comp_def]

mutual

theorem Stmt.toList_listing : ∀ stmt : Stmt, stmt.listing.toList = stmt.tree.chars
  | .block body => by
    rw [listing, tree, toList_parenthesized]
    exact toList_listings body
  | .expression expr _ | .print expr _ => by
    rw [listing, tree, toList_parenthesized]
    simp [charsAll, expr.toList_listing]
  | .branch condition thenBranch none _ => by
    rw [listing, tree, toList_parenthesized]
    simp [charsAll, condition.toList_listing, toList_listing thenBranch]
  | .branch condition thenBranch (some elseBranch) _ => by
    rw [listing, tree, toList_parenthesized]
    simp [charsAll, condition.toList_listing, toList_listing thenBranch, toList_listing elseBranch]
  | .loop condition body _ => by
    rw [listing, tree, toList_parenthesized]
    simp [charsAll, condition.toList_listing, toList_listing body]
  | .return value _ => by
    rw [listing, tree, toList_parenthesized]
    exact toList_option value
  | .declare name initializer _ => by
    rw [listing, tree, toList_parenthesized]
    rw [List.map_cons, toList_option initializer]
    rfl
  | .function name params body _ => by
    rw [listing, tree, toList_parenthesized]
    rw [List.map_cons, List.map_cons, toList_parameters, toList_listings body]
    rfl
  | .command action => action.toList_listing

theorem Stmt.toList_listings :
    ∀ body : List Stmt, (Stmt.listings body).map String.toList = charsAll (Stmt.trees body)
  | [] => by simp [listings, trees, charsAll]
  | stmt :: rest => by
    simp [listings, trees, charsAll, toList_listing stmt, toList_listings rest]

end

/-- A listing is its trees, one a line. -/
theorem toList_programListing (program : List Stmt) :
    (programListing program).toList = joined '\n' (charsAll (Stmt.trees program)) := by
  rw [programListing, ← Stmt.listings_eq_map, String.toList_intercalate, Stmt.toList_listings]
  exact intercalate_eq_joined _ _

end CommandScript
