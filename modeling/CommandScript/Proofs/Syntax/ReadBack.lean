import CommandScript.Proofs.Syntax.Legible
import CommandScript.Proofs.Syntax.Relabelling

/-!
# Reading listings back

A listing does not say which of its words are names, which are command words and which are
literals, and the same word stands at the head of a negation and of a subtraction. All of this
can be told: command words are known, literals are not written like names, and nodes with the
same head differ in the number of their parts. So a tree that is listed can be read back, up to
lines and ids, which are not listed.

* `SExpr.toExpr?`, `SExpr.toCommand?`, `SExpr.toStmt?`: the node with a tree.
* `toExpr?_tree`, `toCommand?_tree`, `toStmt?_tree`: reading the tree of what is legible.
-/

namespace CommandScript

/-- Without ids and lines. -/
def Relabelling.blank : Relabelling := ⟨fun _ => 0, fun _ => 0⟩

/-! ## The reader -/

namespace SExpr

/-- The literal that is listed as the word. -/
noncomputable def literal? (word : String) : Option Literal :=
  if word = "null" then some .null
  else if word = "true" then some (.bool true)
  else if word = "false" then some (.bool false)
  else (Number.ofText? word).map .number

/-- The atom that is listed as the word. -/
noncomputable def ofWord (words : CommandWords) (word : String) : Expr :=
  match literal? word with
  | some value => .literal value 0
  | none => if words.contains word then .commandRef word 0 else .variable 0 word 0

def unaryOp? (head : String) : Option UnaryOp := [.negate, .not].find? (·.text = head)

def binaryOp? (head : String) : Option BinaryOp :=
  [.add, .sub, .mul, .div, .less, .lessEqual, .greater, .greaterEqual, .equal, .notEqual].find?
    (·.text = head)

def logicalOp? (head : String) : Option LogicalOp := [.and, .or].find? (·.text = head)

/-- The node with a head and parts. -/
def assembled? : String → List Expr → Option Expr
  | "group", [inner] => some (.grouping inner 0)
  | "call", callee :: args => some (.call callee args 0)
  | "=", [.variable _ name _, value] => some (.assign 0 name value 0)
  | head, [operand] => (unaryOp? head).map fun op => .unary op operand 0
  | head, [left, right] =>
    match binaryOp? head, logicalOp? head with
    | some op, _ => some (.binary op left right 0)
    | none, some op => some (.logical op left right 0)
    | none, none => none
  | _, _ => none

mutual

noncomputable def toExpr? (words : CommandWords) : SExpr → Option Expr
  | .atom text => some (ofWord words text)
  | .list (.atom head :: parts) => (toExprs? words parts).bind (assembled? head)
  | .list _ => none

noncomputable def toExprs? (words : CommandWords) : List SExpr → Option (List Expr)
  | [] => some []
  | part :: rest => do return (← toExpr? words part) :: (← toExprs? words rest)

end

/-- A word among the arguments of a command stands for itself if it is no literal. -/
noncomputable def toArgValue? (words : CommandWords) : SExpr → Option ArgValue
  | .atom text =>
    match literal? text with
    | some value => some (.expr (.literal value 0))
    | none => some (.word text)
  | .list parts => .expr <$> toExpr? words (.list parts)

/-- A flag is told from a number with a sign by being no literal. -/
noncomputable def toArg? (words : CommandWords) : SExpr → Option Arg
  | .atom text =>
    match literal? text, text.toList with
    | none, '-' :: name => some (.flag (String.ofList name))
    | _, _ => .positional <$> toArgValue? words (.atom text)
  | .list (.atom head :: parts) =>
    match head.toList with
    | '-' :: '-' :: name =>
      .parameter (String.ofList name) <$> parts.mapM (toArgValue? words)
    | _ => .positional <$> toArgValue? words (.list (.atom head :: parts))
  | .list _ => none

noncomputable def toCommand? (words : CommandWords) : String → List SExpr → Option Command
  | "command", .atom word :: args => do return .deliver word (← args.mapM (toArg? words)) 0
  | "help", [] => some (.help none 0)
  | "help", [.atom topic] => some (.help (some topic) 0)
  | "exit", [] => some (.exit 0)
  | _, _ => none

def toParameter? : SExpr → Option Parameter
  | .atom name => some ⟨name, 0⟩
  | .list _ => none

mutual

noncomputable def toStmt? (words : CommandWords) : SExpr → Option Stmt
  | .list (.atom head :: parts) =>
    match head, parts with
    | "block", body => .block <$> toStmts? words body
    | ";", [expr] => do return .expression (← toExpr? words expr) 0
    | "if", [condition, thenBranch] => do
      return .branch (← toExpr? words condition) (← toStmt? words thenBranch) none 0
    | "if", [condition, thenBranch, elseBranch] => do
      let otherwise ← toStmt? words elseBranch
      return .branch (← toExpr? words condition) (← toStmt? words thenBranch) otherwise 0
    | "while", [condition, body] => do
      return .loop (← toExpr? words condition) (← toStmt? words body) 0
    | "print", [expr] => do return .print (← toExpr? words expr) 0
    | "return", [] => some (.return none 0)
    | "return", [value] => do return .return (← toExpr? words value) 0
    | "var", [.atom name] => some (.declare name none 0)
    | "var", [.atom name, value] => do return .declare name (← toExpr? words value) 0
    | "fun", .atom name :: .list params :: body => do
      return .function name (← params.mapM toParameter?) (← toStmts? words body) 0
    | head, parts => .command <$> toCommand? words head parts
  | _ => none

noncomputable def toStmts? (words : CommandWords) : List SExpr → Option (List Stmt)
  | [] => some []
  | part :: rest => do return (← toStmt? words part) :: (← toStmts? words rest)

end

end SExpr

variable {words : CommandWords}

open SExpr

/-! ## Words -/

/-- No numeral starts like a word, also behind a sign. -/
theorem not_isNumeral {mark more : List Char} {c : Char} (hmark : mark = [] ∨ mark = ['-'])
    (hc : Piece.isWordStart c = true) : ¬ Number.IsNumeral (mark ++ c :: more) := by
  have hdigit : ¬ c.isDigit = true := fun hdigit => by
    have hlow := Piece.toNat_of_isWordStart hc
    have hhigh := (Piece.toNat_of_isDigit hdigit).2
    omega
  rintro ⟨sign, d, rest, htext, hsign, hd, -⟩
  obtain rfl | rfl := hmark <;> obtain rfl | rfl := hsign <;> cases htext
  · exact hdigit hd
  · cases hc
  · cases hd
  · exact hdigit hd

theorem IsWord.not_isNumeral {text : String} (h : IsWord text) :
    ¬ Number.IsNumeral text.toList := by
  obtain ⟨c, more, hc, -, hchars⟩ := isWord_iff.mp h
  rw [hchars]
  exact CommandScript.not_isNumeral (.inl rfl) hc

theorem isWord_of_mem_literalWords {text : String} (h : text ∈ literalWords) : IsWord text := by
  simp only [literalWords, List.mem_cons, List.not_mem_nil, or_false] at h
  obtain rfl | rfl | rfl := h <;> decide

theorem literal?_eq_none {text : String} (hfree : text ∉ literalWords)
    (hnumeral : ¬ Number.IsNumeral text.toList) : literal? text = none := by
  simp only [literalWords, List.mem_cons, List.not_mem_nil, or_false, not_or] at hfree
  obtain ⟨htrue, hfalse, hnull⟩ := hfree
  rw [literal?, if_neg hnull, if_neg htrue, if_neg hfalse, Number.ofText?_eq_none hnumeral]
  rfl

theorem IsFreeWord.literal?_eq {text : String} (h : IsFreeWord text) : literal? text = none :=
  literal?_eq_none h.free h.word.not_isNumeral

/-- What is marked as a flag is no literal, even if its name is one. -/
theorem literal?_flag {name : String} (h : IsWord name) : literal? ("-" ++ name) = none := by
  obtain ⟨c, more, hc, -, hchars⟩ := isWord_iff.mp h
  have htext : ("-" ++ name).toList = ['-'] ++ c :: more := by
    rw [String.toList_append, hchars]
    rfl
  refine literal?_eq_none (fun hliteral => ?_) (htext ▸ not_isNumeral (.inr rfl) hc)
  have hstart : ∀ word ∈ literalWords, word.toList.head? ≠ some '-' := by decide
  exact hstart _ hliteral (by rw [htext]; rfl)

theorem Literal.Legible.literal?_text {value : Literal} (h : value.Legible) :
    literal? value.text = some value := by
  cases value with
  | null => rfl
  | bool value => cases value <;> rfl
  | number value =>
    have hne : ∀ word ∈ literalWords, Number.text value ≠ word := by
      rintro word hmem rfl
      exact (isWord_of_mem_literalWords hmem).not_isNumeral (Number.isNumeral_text h)
    simp only [literalWords, List.forall_mem_cons] at hne
    obtain ⟨htrue, hfalse, hnull, -⟩ := hne
    rw [text, literal?, if_neg hnull, if_neg htrue, if_neg hfalse, Number.ofText?_text h]
    rfl
  | string _ => exact absurd h not_false

theorem Literal.Legible.ofWord_text {value : Literal} (h : value.Legible) :
    ofWord words value.text = .literal value 0 := by
  rw [ofWord, h.literal?_text]

theorem IsFreeWord.ofWord_eq {text : String} (h : IsFreeWord text) :
    ofWord words text =
      if words.contains text then .commandRef text 0 else .variable 0 text 0 := by
  rw [ofWord, h.literal?_eq]

/-! ## Expressions -/

theorem assembled?_unary (op : UnaryOp) (operand : Expr) :
    assembled? op.text [operand] = some (.unary op operand 0) := by
  cases op <;> rfl

theorem assembled?_binary (op : BinaryOp) (left right : Expr) :
    assembled? op.text [left, right] = some (.binary op left right 0) := by
  cases op <;> rfl

theorem assembled?_logical (op : LogicalOp) (left right : Expr) :
    assembled? op.text [left, right] = some (.logical op left right 0) := by
  cases op <;> rfl

theorem toExpr?_node (head : String) (parts : List SExpr) :
    toExpr? words (.node head parts) = (toExprs? words parts).bind (assembled? head) := by
  rw [node, toExpr?]

mutual

/-- The tree of a legible expression is read as the expression. -/
theorem toExpr?_tree : ∀ {expr : Expr}, expr.Legible words →
    toExpr? words expr.tree = some (expr.relabel .blank)
  | .literal value _, h => by
    rw [Expr.tree, toExpr?, Literal.Legible.ofWord_text h]
    rfl
  | .grouping inner _, h => by
    have hinner := @toExpr?_tree inner h
    simp only [Expr.tree, toExpr?_node, toExprs?, hinner]
    rfl
  | .unary op operand _, h => by
    have hoperand := @toExpr?_tree operand h
    simp only [Expr.tree, toExpr?_node, toExprs?, hoperand]
    exact assembled?_unary op _
  | .binary op left right _, ⟨hleft, hright⟩ => by
    simp only [Expr.tree, toExpr?_node, toExprs?, toExpr?_tree hleft, toExpr?_tree hright]
    exact assembled?_binary op _ _
  | .logical op left right _, ⟨hleft, hright⟩ => by
    simp only [Expr.tree, toExpr?_node, toExprs?, toExpr?_tree hleft, toExpr?_tree hright]
    exact assembled?_logical op _ _
  | .variable _ name _, ⟨hname, hwords⟩ => by
    simp only [Expr.tree, toExpr?, hname.ofWord_eq, hwords]
    rfl
  | .assign _ name value _, ⟨⟨hname, hwords⟩, hvalue⟩ => by
    simp only [Expr.tree, toExpr?_node, toExprs?, toExpr?, hname.ofWord_eq, hwords,
      toExpr?_tree hvalue]
    rfl
  | .call callee args _, ⟨hcallee, hargs⟩ => by
    simp only [Expr.tree, toExpr?_node, toExprs?, toExpr?_tree hcallee, toExprs?_trees hargs]
    rfl
  | .commandRef name _, ⟨hname, hwords⟩ => by
    simp only [Expr.tree, toExpr?, hname.ofWord_eq, hwords]
    rfl

theorem toExprs?_trees : ∀ {exprs : List Expr}, Expr.LegibleAll words exprs →
    toExprs? words (Expr.trees exprs) = some (Expr.relabelAll .blank exprs)
  | [], _ => by rw [Expr.trees, toExprs?, Expr.relabelAll]
  | _ :: _, ⟨hexpr, hrest⟩ => by
    simp only [Expr.trees, toExprs?, toExpr?_tree hexpr, toExprs?_trees hrest]
    rfl

end

/-! ## Commands -/

/-- What is read of each part is read of all. -/
theorem mapM_map {α β : Type} {read : SExpr → Option β} {tree : α → SExpr} {f : α → β}
    {items : List α} (h : ∀ item ∈ items, read (tree item) = some (f item)) :
    (items.map tree).mapM read = some (items.map f) := by
  induction items with
  | nil => rfl
  | cons item rest ih =>
    obtain ⟨hitem, hrest⟩ := List.forall_mem_cons.mp h
    rw [List.map_cons, List.mapM_cons, hitem, ih hrest]
    rfl

theorem toArgValue?_tree {value : ArgValue} (h : value.Legible words) :
    toArgValue? words value.tree = some (value.relabel .blank) := by
  match value with
  | .word text =>
    rw [ArgValue.tree, toArgValue?, IsFreeWord.literal?_eq h]
    rfl
  | .expr (.literal value _) =>
    rw [ArgValue.tree, Expr.tree, toArgValue?, Literal.Legible.literal?_text h]
    rfl
  | .expr (.grouping inner line) =>
    have hread := toExpr?_tree (show (Expr.grouping inner line).Legible words from h)
    rw [Expr.tree] at hread
    rw [ArgValue.tree, Expr.tree, node, toArgValue?, ← node, hread]
    rfl

/-- A value does not look like a flag or a parameter. -/
theorem toArg?_value {value : ArgValue} (h : value.Legible words) :
    toArg? words value.tree = .positional <$> toArgValue? words value.tree := by
  match value with
  | .word text =>
    obtain ⟨c, more, hc, -, hchars⟩ := isWord_iff.mp (IsFreeWord.word h)
    have hmark : c ≠ '-' := by
      rintro rfl
      cases hc
    rw [ArgValue.tree, toArg?, IsFreeWord.literal?_eq h, hchars]
    split
    · simp_all
    · rfl
  | .expr (.literal value _) =>
    rw [ArgValue.tree, Expr.tree, toArg?, Literal.Legible.literal?_text h]
  | .expr (.grouping inner line) => rfl

theorem toArg?_tree {arg : Arg} (h : arg.Legible words) :
    toArg? words arg.tree = some (arg.relabel .blank) := by
  cases arg with
  | positional value =>
    rw [Arg.tree, toArg?_value h, toArgValue?_tree h]
    rfl
  | flag name =>
    have hchars : ("-" ++ name).toList = '-' :: name.toList := by
      rw [String.toList_append]
      rfl
    rw [Arg.tree, toArg?, literal?_flag h, hchars]
    simp [Arg.relabel]
  | parameter name values =>
    have hchars : ("--" ++ name).toList = '-' :: '-' :: name.toList := by
      rw [String.toList_append]
      rfl
    rw [Arg.tree, node, toArg?, hchars]
    change Arg.parameter (String.ofList name.toList) <$>
      (values.map ArgValue.tree).mapM (toArgValue? words) = _
    rw [mapM_map fun value hvalue => toArgValue?_tree (h.2 value hvalue), String.ofList_toList]
    rfl

theorem toCommand?_tree {action : Command} (h : action.Legible words) :
    ∃ head parts, action.tree = .node head parts ∧ head ∈ ["command", "help", "exit"] ∧
      toCommand? words head parts = some (action.relabel .blank) := by
  cases action with
  | deliver word args _ =>
    refine ⟨"command", _, rfl, by simp, ?_⟩
    rw [toCommand?, mapM_map fun arg harg => toArg?_tree (h.2 arg harg)]
    rfl
  | help topic _ =>
    refine ⟨"help", _, rfl, by simp, ?_⟩
    cases topic <;> rfl
  | exit _ => exact ⟨"exit", _, rfl, by simp, rfl⟩

/-! ## Statements -/

theorem toStmt?_command {head : String} {parts : List SExpr}
    (h : head ∈ ["command", "help", "exit"]) :
    toStmt? words (.node head parts) = .command <$> toCommand? words head parts := by
  simp only [List.mem_cons, List.not_mem_nil, or_false] at h
  obtain rfl | rfl | rfl := h <;> rfl

mutual

/-- The tree of a legible statement is read as the statement. -/
theorem toStmt?_tree : ∀ {stmt : Stmt}, stmt.MadeOf (.legible words) →
    toStmt? words stmt.tree = some (stmt.relabel .blank)
  | .block body, h => by
    have hbody := @toStmts?_trees body h
    simp only [Stmt.tree, node, toStmt?, hbody]
    rfl
  | .expression expr _, h => by
    have hexpr := @toExpr?_tree words expr h
    simp only [Stmt.tree, node, toStmt?, hexpr]
    rfl
  | .print expr _, h => by
    have hexpr := @toExpr?_tree words expr h
    simp only [Stmt.tree, node, toStmt?, hexpr]
    rfl
  | .branch condition thenBranch none _, ⟨hcondition, hthen⟩ => by
    simp only [Stmt.tree, node, toStmt?, toExpr?_tree hcondition, toStmt?_tree hthen]
    rfl
  | .branch condition thenBranch (some elseBranch) _, ⟨hcondition, hthen, helse⟩ => by
    simp only [Stmt.tree, node, toStmt?, toExpr?_tree hcondition, toStmt?_tree hthen,
      toStmt?_tree helse]
    rfl
  | .loop condition body _, ⟨hcondition, hbody⟩ => by
    simp only [Stmt.tree, node, toStmt?, toExpr?_tree hcondition, toStmt?_tree hbody]
    rfl
  | .return none _, h => by
    simp only [Stmt.tree, node, Option.map_none, Option.toList_none, toStmt?]
    rfl
  | .return (some value) _, h => by
    simp only [Stmt.tree, node, Option.map_some, Option.toList_some, toStmt?,
      toExpr?_tree (h value rfl)]
    rfl
  | .declare name none _, h => by
    simp only [Stmt.tree, node, Option.map_none, Option.toList_none, toStmt?]
    rfl
  | .declare name (some value) _, ⟨_, h⟩ => by
    simp only [Stmt.tree, node, Option.map_some, Option.toList_some, toStmt?,
      toExpr?_tree (h value rfl)]
    rfl
  | .function name params body _, ⟨_, _, hbody⟩ => by
    have hparams : (params.map (SExpr.atom ·.name)).mapM toParameter? =
        some (params.map (·.relabel .blank)) := mapM_map fun _ _ => rfl
    simp only [Stmt.tree, node, toStmt?, hparams, toStmts?_trees hbody]
    rfl
  | .command action, h => by
    obtain ⟨head, parts, htree, hhead, hread⟩ := toCommand?_tree h
    rw [Stmt.tree, htree, toStmt?_command hhead, hread]
    rfl

theorem toStmts?_trees : ∀ {body : List Stmt}, Stmt.MadeOfAll (.legible words) body →
    toStmts? words (Stmt.trees body) = some (Stmt.relabelAll .blank body)
  | [], _ => by rw [Stmt.trees, toStmts?, Stmt.relabelAll]
  | _ :: _, ⟨hstmt, hrest⟩ => by
    simp only [Stmt.trees, toStmts?, toStmt?_tree hstmt, toStmts?_trees hrest]
    rfl

end

end CommandScript
