import CommandScript.Grammar.Program
import CommandScript.Proofs.Grammar.Surroundings

/-!
# What the grammar looks at

No expression and no argument of a command contains a `;`. So in all surroundings these
rules do the same, with or without faults, and leave the `;` behind them. A statement reads
it at its end, and the only token that is looked at after that is an `else`. Blocks,
functions and `for` contain statements; they come into question only where their end can be
seen.

* `local_assignment`, `local_args`: the rules inside a statement.
* `Nested.Local`, `local_nested`: the rules of all levels of nesting.
* `local_declaration`: declarations, with the recovery from their faults.
-/

namespace CommandScript.Grammar

open Rule Surroundings

variable {around : Surroundings} {final : Bool}

/-! ## Expressions -/

section Expressions

variable {expression operand : Rule Expr}

theorem local_primary (h : Local around false expression) :
    Local around false (primary expression) := by
  refine local_peek_bind fun token => ?_
  split <;> rename_i hkind
  case h_6 =>
    exact localAt_skip_bind (by rw [hkind]; decide) (local_bind local_freshId fun _ => local_pure _)
  case h_8 =>
    refine localAt_skip_bind (by rw [hkind]; decide) (local_bind h fun inner => ?_)
    exact local_bind (local_require (by decide) _) fun _ => local_pure _
  case h_9 => exact (local_fail _).at token
  case h_10 => exact (local_fail _).at token
  all_goals exact localAt_skip_bind (by rw [hkind]; decide) (local_pure _)

theorem local_finishCall (h : Local around false expression) (callee : Expr) :
    Local around false (finishCall expression callee) := by
  have hrest : ∀ args : List Expr, Local around false (do
      let paren ← require .rightParen "')' after arguments"
      return Expr.call callee args paren.line) :=
    fun args => local_bind (local_require (by decide) _) fun _ => local_pure _
  refine local_bind (local_check _) fun empty => ?_
  dsimp only
  split
  · exact local_bind (local_pure _) hrest
  · exact local_bind (local_separated h _ _) hrest

theorem local_call (h : Local around false expression) : Local around false (call expression) := by
  refine local_bind (local_primary h) fun callee => local_repeated (fun callee => ?_) callee
  refine local_bind (local_accept (by decide)) fun paren => local_ite ?_ (local_pure _)
  exact local_bind (local_finishCall h callee) fun _ => local_pure _

theorem local_unary (h : Local around false expression) (hoperand : Local around false operand) :
    Local around false (unary expression operand) := by
  refine local_peek_bind fun token => ?_
  split
  · rename_i op hop
    refine localAt_skip_bind ?_ (local_bind hoperand fun _ => local_pure _)
    intro hkind
    rw [hkind] at hop
    cases hop
  · exact (local_call h).at token

theorem local_leftAssociative {ω : Type} {operator? : TokenKind → Option ω}
    (hnone : operator? .semicolon = none) (node : ω → Expr → Expr → Nat → Expr)
    (hoperand : Local around false operand) :
    Local around false (leftAssociative operator? node operand) := by
  refine local_bind hoperand fun first => local_repeated (fun left => ?_) first
  refine local_peek_bind fun token => ?_
  split
  · rename_i op hop
    refine localAt_skip_bind ?_ (local_bind hoperand fun _ => local_pure _)
    intro hkind
    rw [hkind, hnone] at hop
    cases hop
  · exact (local_pure _).at token

theorem local_logicalOr (h : Local around false expression)
    (hoperand : Local around false operand) :
    Local around false (logicalOr expression operand) :=
  local_leftAssociative rfl _ <| local_leftAssociative rfl _ <| local_leftAssociative rfl _ <|
    local_leftAssociative rfl _ <| local_leftAssociative rfl _ <| local_leftAssociative rfl _ <|
    local_unary h hoperand

theorem local_assignChain (links : List (Nat × Expr)) (target : Expr) :
    Local around false (assignChain target links) := by
  induction links generalizing target with
  | nil => exact local_pure _
  | cons link rest ih =>
    refine local_bind (ih link.2) fun value => ?_
    split
    · exact local_pure _
    · exact local_bind (local_record _) fun _ => local_pure _

theorem local_assignment (h : Local around false expression)
    (hoperand : Local around false operand) :
    Local around false (assignment expression operand) := by
  refine local_bind (local_logicalOr h hoperand) fun target => ?_
  refine local_bind (local_repeated (fun links => ?_) _) fun links => local_assignChain _ target
  refine local_bind (local_accept? (by decide)) fun token => ?_
  split
  · exact local_bind (local_logicalOr h hoperand) fun _ => local_pure _
  · exact local_pure _

end Expressions

/-! ## Commands -/

section Commands

variable {expression : Rule Expr}

theorem local_argValue (h : Local around false expression) :
    Local around false (argValue expression) := by
  have hexpr : Local around false (do return ArgValue.expr (← primary expression)) :=
    local_bind (local_primary h) fun _ => local_pure _
  refine local_peek_bind fun token => ?_
  split <;> rename_i hkind
  case h_1 => exact localAt_skip_bind (by rw [hkind]; decide) (local_pure _)
  case h_2 => exact localAt_skip_bind (by rw [hkind]; decide) (local_pure _)
  case h_9 => exact (local_fail _).at token
  all_goals exact hexpr.at token

theorem local_markerName (missing : String → ParseFault) :
    Local around false (markerName missing) := by
  refine local_bind (local_accept? (by decide)) fun token => ?_
  split
  · exact local_pure _
  · exact local_bind local_peek fun _ => local_fail _

theorem local_atCommandEnd : Local around false atCommandEnd :=
  local_bind (local_check _) fun _ => local_bind local_atEnd fun _ => local_pure _

theorem local_parameterValues (h : Local around false expression) :
    Local around false (parameterValues expression) := by
  refine local_bind (local_repeated (fun values => ?_) _) fun _ => local_pure _
  refine local_bind local_atCommandEnd fun ends => local_bind (local_check _) fun minus => ?_
  refine local_ite (local_pure _) ?_
  refine local_bind (local_accept (by decide)) fun comma => local_ite (local_pure _) ?_
  exact local_bind (local_argValue h) fun _ => local_pure _

theorem local_marked (h : Local around false expression) :
    Local around false (marked expression) := by
  refine local_bind (local_accept (by decide)) fun minus => local_ite ?_ ?_
  · refine local_bind (local_markerName _) fun name => ?_
    exact local_bind (local_parameterValues h) fun _ => local_pure _
  · exact local_bind (local_markerName _) fun _ => local_pure _

theorem local_args (h : Local around false expression) : Local around false (args expression) := by
  refine local_bind (local_repeated (fun args => ?_) _) fun _ => local_pure _
  refine local_bind local_atCommandEnd fun ends => local_ite (local_pure _) ?_
  refine local_bind (local_accept (by decide)) fun comma => local_ite (local_pure _) ?_
  refine local_bind (local_accept (by decide)) fun minus => local_ite ?_ ?_
  · exact local_bind (local_marked h) fun _ => local_pure _
  · exact local_bind (local_argValue h) fun _ => local_pure _

theorem local_helpTopic : Local around false helpTopic := by
  refine local_bind local_atCommandEnd fun ends => local_ite (local_pure _) ?_
  refine local_bind (local_accept? (by decide)) fun token => ?_
  split
  · exact local_pure _
  · exact local_bind local_peek fun _ => local_fail _

theorem local_endStatement (optional : Bool) : Local around true (endStatement optional) := by
  refine local_accept_last ⟨(), rfl⟩ (local_bind local_atEnd fun ends => ?_)
  exact local_ite (local_pure _) (local_expected _)

/-- What is read up to the end of a statement. -/
theorem local_ended {α : Type} (optional : Bool) (a : α) :
    Local around true (do endStatement optional; return a) :=
  local_then (local_endStatement optional) fun _ => ⟨a, rfl⟩

theorem local_command (h : Local around false expression) (word : Token) :
    Local around true (command expression word) := by
  refine local_ite ?_ (local_ite ?_ ?_)
  · exact local_bind local_helpTopic fun topic => local_ended _ _
  · exact local_ended _ _
  · exact local_bind (local_args h) fun given => local_ended _ _

end Commands

/-! ## Statements -/

/-- The rules of one level of nesting. Nothing may come behind a block, because it need not
end with a `;`. -/
structure Nested.Local (around : Surroundings) (inner : Nested) : Prop where
  expression : Rule.Local around false inner.expression
  operand : Rule.Local around false inner.operand
  statement : Rule.Local around true inner.statement
  block : around.tail = [] → Rule.Local around true inner.block

/-- What comes behind does not begin with `else`. -/
def Surroundings.NoElse (around : Surroundings) : Prop :=
  ∀ token ∈ around.tail.head?, token.kind ≠ .elseWord

section Statements

variable {inner : Nested} {mode : InputMode}

theorem local_variableDeclaration (h : inner.Local around) :
    Rule.Local around true (variableDeclaration inner) := by
  refine local_bind (local_require (by decide) _) fun name => ?_
  refine local_bind (local_accept (by decide)) fun equal => ?_
  dsimp only
  split
  · exact local_bind (local_map h.expression) fun _ => local_ended _ _
  · exact local_bind (local_pure _) fun _ => local_ended _ _

theorem local_parameter : Rule.Local around false parameter :=
  local_bind (local_require (by decide) _) fun _ => local_pure _

theorem local_functionDeclaration (h : inner.Local around) :
    Rule.Local around true (functionDeclaration inner) := by
  have hrest : ∀ (name : Token) (params : List Parameter), Rule.Local around true (do
      let _ ← require .rightParen "')' after parameters"
      let _ ← require .leftBrace "'\x7b' before function body"
      let body ← inner.block
      return Stmt.function name.lexeme params body name.line) := by
    intro name params
    refine local_bind (local_require (by decide) _) fun _ => ?_
    refine local_require_bind (by decide) (by decide) fun htail _ => ?_
    exact local_then (h.block htail) fun _ => ⟨_, rfl⟩
  refine local_bind (local_require (by decide) _) fun name => ?_
  refine local_bind (local_require (by decide) _) fun _ => ?_
  refine local_bind (local_check _) fun empty => ?_
  dsimp only
  split
  · exact local_bind (local_pure _) (hrest name)
  · exact local_bind (local_separated local_parameter _ _) (hrest name)

theorem local_expressionStatement (h : inner.Local around) :
    Rule.Local around true (expressionStatement inner) :=
  local_bind local_peek fun _ => local_bind h.expression fun _ => local_ended _ _

theorem local_forInitializer (h : inner.Local around) (htail : around.tail = []) :
    Rule.Local around false (forInitializer inner) := by
  refine (local_accept_last ⟨none, rfl⟩ ?_).inside htail
  refine local_bind (local_accept (by decide)) fun varWord => local_ite ?_ ?_
  · exact local_then (local_variableDeclaration h) fun _ => ⟨_, rfl⟩
  · exact local_then (local_expressionStatement h) fun _ => ⟨_, rfl⟩

theorem local_forStatement (h : inner.Local around) (htail : around.tail = []) (line : Nat) :
    Rule.Local around true (forStatement inner line) := by
  have hbody : ∀ (initializer : Option Stmt) (condition : Expr) (increment : Option Expr),
      Rule.Local around true (do
        let _ ← require .rightParen "')' after for clauses"
        let body ← inner.statement
        return forLoop initializer condition increment body line) :=
    fun _ _ _ => local_bind (local_require (by decide) _) fun _ =>
      local_then h.statement fun _ => ⟨_, rfl⟩
  have hcondition : ∀ (initializer : Option Stmt) (condition : Expr), Rule.Local around true (do
      let _ ← require .semicolon "';' after loop condition"
      let increment ← if ← check .rightParen then pure none else some <$> inner.expression
      let _ ← require .rightParen "')' after for clauses"
      let body ← inner.statement
      return forLoop initializer condition increment body line) := by
    intro initializer condition
    refine local_bind (local_require_of_nil htail _ _) fun _ => ?_
    refine local_bind (local_check _) fun absent => ?_
    dsimp only
    split
    · exact local_bind (local_pure _) (hbody initializer condition)
    · exact local_bind (local_map h.expression) (hbody initializer condition)
  refine local_bind (local_require (by decide) _) fun _ => ?_
  refine local_bind (local_forInitializer h htail) fun initializer => ?_
  refine local_bind (local_check _) fun absent => ?_
  dsimp only
  split
  · exact local_bind (local_pure _) (hcondition initializer)
  · exact local_bind h.expression (hcondition initializer)

theorem local_ifStatement (helse : around.NoElse) (h : inner.Local around) (line : Nat) :
    Rule.Local around true (ifStatement inner line) := by
  refine local_bind (local_require (by decide) _) fun _ => ?_
  refine local_bind h.expression fun condition => ?_
  refine local_bind (local_require (by decide) _) fun _ => ?_
  refine local_bind_accept (by decide) helse h.statement (fun thenBranch => ?_) fun _ => ⟨_, rfl⟩
  refine local_bind (local_accept (by decide)) fun elseWord => ?_
  dsimp only
  split
  · exact local_then (local_map h.statement) fun _ => ⟨_, rfl⟩
  · exact local_bind (local_pure _) fun _ => local_pure _

theorem local_whileStatement (h : inner.Local around) (line : Nat) :
    Rule.Local around true (whileStatement inner line) := by
  refine local_bind (local_require (by decide) _) fun _ => local_bind h.expression fun _ => ?_
  exact local_bind (local_require (by decide) _) fun _ => local_then h.statement fun _ => ⟨_, rfl⟩

theorem local_printStatement (h : inner.Local around) (line : Nat) :
    Rule.Local around true (printStatement inner mode line) :=
  local_bind h.expression fun _ => local_ended _ _

theorem local_returnStatement (h : inner.Local around) (line : Nat) :
    Rule.Local around true (returnStatement inner line) := by
  refine local_bind (local_check _) fun absent => ?_
  dsimp only
  split
  · exact local_bind (local_pure _) fun _ => local_ended _ _
  · exact local_bind (local_map h.expression) fun _ => local_ended _ _

theorem local_statement (helse : around.NoElse) (h : inner.Local around) :
    Rule.Local around true (statement inner mode) := by
  refine local_peek_bind fun token => ?_
  split <;> rename_i hkind
  case h_1 =>
    refine localAt_of_not_flat (by rw [hkind]; decide) fun htail => ?_
    exact localAt_skip_bind (by rw [hkind]; decide) (local_forStatement h htail _)
  case h_2 =>
    exact localAt_skip_bind (by rw [hkind]; decide) (local_ifStatement helse h _)
  case h_3 => exact localAt_skip_bind (by rw [hkind]; decide) (local_printStatement h _)
  case h_4 => exact localAt_skip_bind (by rw [hkind]; decide) (local_returnStatement h _)
  case h_5 => exact localAt_skip_bind (by rw [hkind]; decide) (local_whileStatement h _)
  case h_6 =>
    refine localAt_of_not_flat (by rw [hkind]; decide) fun htail => ?_
    exact localAt_skip_bind (by rw [hkind]; decide) (local_map (h.block htail))
  case h_7 =>
    exact localAt_skip_bind (by rw [hkind]; decide) (local_map (local_command h.expression token))
  case h_8 => exact (local_expressionStatement h).at token

theorem local_declaration (h : inner.Local around) :
    Rule.Local around true (declaration inner) := by
  refine local_recover (local_bind (local_accept (by decide)) fun funWord => ?_)
  refine local_ite (local_functionDeclaration h) ?_
  refine local_bind (local_accept (by decide)) fun varWord => ?_
  exact local_ite (local_variableDeclaration h) h.statement

theorem local_blockBody (h : inner.Local around) (htail : around.tail = []) :
    Rule.Local around true (blockBody inner) := by
  refine local_bind (local_repeated (fun body => ?_) _) fun body =>
    local_bind (local_require (by decide) _) fun _ => local_pure _
  refine local_bind (local_check _) fun brace => local_bind local_atEnd fun ends => ?_
  refine local_ite (local_pure _) (local_bind ((local_declaration h).inside htail) fun stmt => ?_)
  cases stmt with
  | none => exact local_pure _
  | some stmt => exact local_pure _

end Statements

theorem local_tooDeep {α : Type} : Rule.Local around final (tooDeep : Rule α) :=
  local_bind local_peek fun _ => local_fail _

theorem local_nested (helse : around.NoElse) (mode : InputMode) (levels : Nat) :
    (nested mode levels).Local around := by
  induction levels with
  | zero => exact ⟨local_tooDeep, local_tooDeep, local_tooDeep, fun _ => local_tooDeep⟩
  | succ levels ih =>
    exact ⟨local_assignment ih.expression ih.operand, local_unary ih.expression ih.operand,
      local_statement helse ih, local_blockBody ih⟩

end CommandScript.Grammar
