import CommandScript.Grammar.Expression

/-!
# The tokens of an expression

An expression is spelled by the tokens that stand for its nodes, from left to right. The
tokens alone do not say how an expression is grouped: that is settled by the strength of
operators. An expression is grouped if every operand is at least as strong as its operator
asks for, so that no parentheses are needed beyond those that it has.

* `Expr.Spelled`: an expression and its tokens.
* `Expr.strength`: how tightly an expression holds together.
* `Expr.Proper`: operands are strong enough, and calls have no more arguments than allowed.
* `Expr.depth`: how deep parentheses, arguments and operands of unary operators are nested.
* `Expr.ids`: the ids of the references in the order of their tokens.
-/

namespace CommandScript

/-! ## Tokens -/

def UnaryOp.kind : UnaryOp → TokenKind
  | .negate => .minus
  | .not => .bang

def BinaryOp.kind : BinaryOp → TokenKind
  | .add => .plus
  | .sub => .minus
  | .mul => .star
  | .div => .slash
  | .less => .less
  | .lessEqual => .lessEqual
  | .greater => .greater
  | .greaterEqual => .greaterEqual
  | .equal => .equalEqual
  | .notEqual => .bangEqual

def LogicalOp.kind : LogicalOp → TokenKind
  | .and => .andWord
  | .or => .orWord

/-- The token is a literal with the value. -/
def Token.Denotes (token : Token) (value : Literal) : Prop :=
  match token.kind with
  | .number | .string | .trueWord | .falseWord => value = token.literal.getD .null
  | .nullWord => value = .null
  | _ => False

/-- Items spelled one after the other, with commas between them. -/
inductive Separated {α : Type} (spelled : α → List Token → Prop) : List α → List Token → Prop where
  | none : Separated spelled [] []
  | one {item : α} {tokens : List Token} : spelled item tokens → Separated spelled [item] tokens
  | more {item next : α} {rest : List α} {comma : Token} {tokens others : List Token} :
      spelled item tokens → comma.kind = .comma → Separated spelled (next :: rest) others →
      Separated spelled (item :: next :: rest) (tokens ++ comma :: others)

namespace Expr

/-- The tokens of an expression from left to right. Of a parenthesis, a call or an
assignment only one token leaves its line in the expression. -/
inductive Spelled : Expr → List Token → Prop where
  | literal {token : Token} {value : Literal} : token.Denotes value →
      Spelled (.literal value token.line) [token]
  | grouping {opening closing : Token} {inner : Expr} {tokens : List Token} :
      opening.kind = .leftParen → Spelled inner tokens → closing.kind = .rightParen →
      Spelled (.grouping inner opening.line) (opening :: (tokens ++ [closing]))
  | unary {operator : Token} {op : UnaryOp} {operand : Expr} {tokens : List Token} :
      operator.kind = op.kind → Spelled operand tokens →
      Spelled (.unary op operand operator.line) (operator :: tokens)
  | binary {operator : Token} {op : BinaryOp} {left right : Expr} {before after : List Token} :
      Spelled left before → operator.kind = op.kind → Spelled right after →
      Spelled (.binary op left right operator.line) (before ++ operator :: after)
  | logical {operator : Token} {op : LogicalOp} {left right : Expr} {before after : List Token} :
      Spelled left before → operator.kind = op.kind → Spelled right after →
      Spelled (.logical op left right operator.line) (before ++ operator :: after)
  | variable {name : Token} {id : NodeId} : name.kind = .identifier →
      Spelled (.variable id name.lexeme name.line) [name]
  | assign {name equal : Token} {id : NodeId} {value : Expr} {tokens : List Token} :
      name.kind = .identifier → equal.kind = .equal → Spelled value tokens →
      Spelled (.assign id name.lexeme value name.line) (name :: equal :: tokens)
  | call {opening closing : Token} {callee : Expr} {args : List Expr} {before tokens : List Token} :
      Spelled callee before → opening.kind = .leftParen → Separated Spelled args tokens →
      closing.kind = .rightParen →
      Spelled (.call callee args closing.line) (before ++ opening :: (tokens ++ [closing]))
  | commandRef {word : Token} : word.kind = .command →
      Spelled (.commandRef word.lexeme word.line) [word]

end Expr

/-! ## Strength -/

def BinaryOp.strength : BinaryOp → Nat
  | .equal | .notEqual => 3
  | .less | .lessEqual | .greater | .greaterEqual => 4
  | .add | .sub => 5
  | .mul | .div => 6

def LogicalOp.strength : LogicalOp → Nat
  | .or => 1
  | .and => 2

theorem BinaryOp.strength_mem (op : BinaryOp) : 3 ≤ op.strength ∧ op.strength ≤ 6 := by
  cases op <;> decide

theorem LogicalOp.strength_mem (op : LogicalOp) : 1 ≤ op.strength ∧ op.strength ≤ 2 := by
  cases op <;> decide

namespace Expr

/-- Assignments are the weakest expressions, atoms and parentheses the strongest. -/
def strength : Expr → Nat
  | .assign .. => 0
  | .logical op .. => op.strength
  | .binary op .. => op.strength
  | .unary .. => 7
  | .call .. => 8
  | .literal .. | .grouping .. | .variable .. | .commandRef .. => 9

end Expr

mutual

/-- The right operand of a binary operator is stronger than its operator, so that operators
of equal strength group to the left; the right side of an assignment may be anything. -/
def Expr.Proper : Expr → Prop
  | .literal .. | .variable .. | .commandRef .. => True
  | .grouping inner _ => inner.Proper
  | .unary _ operand _ => 7 ≤ operand.strength ∧ operand.Proper
  | .binary op left right _ =>
    op.strength ≤ left.strength ∧ op.strength < right.strength ∧ left.Proper ∧ right.Proper
  | .logical op left right _ =>
    op.strength ≤ left.strength ∧ op.strength < right.strength ∧ left.Proper ∧ right.Proper
  | .assign _ _ value _ => value.Proper
  | .call callee args _ =>
    8 ≤ callee.strength ∧ callee.Proper ∧ args.length ≤ Grammar.maxArguments ∧
      Expr.ProperAll args

def Expr.ProperAll : List Expr → Prop
  | [] => True
  | expr :: rest => expr.Proper ∧ Expr.ProperAll rest

end

mutual

/-- What stands in parentheses, as an argument or after a unary operator is one level
deeper. -/
def Expr.depth : Expr → Nat
  | .literal .. | .variable .. | .commandRef .. => 0
  | .grouping inner _ => inner.depth + 1
  | .unary _ operand _ => operand.depth + 1
  | .binary _ left right _ => max left.depth right.depth
  | .logical _ left right _ => max left.depth right.depth
  | .assign _ _ value _ => value.depth
  | .call callee args _ => max callee.depth (Expr.depthAll args)

/-- The depth of an argument list, which is one level deeper than the call. -/
def Expr.depthAll : List Expr → Nat
  | [] => 0
  | expr :: rest => max (expr.depth + 1) (Expr.depthAll rest)

end

mutual

/-- The ids of the references of an expression in the order of their tokens. -/
def Expr.ids : Expr → List NodeId
  | .literal .. | .commandRef .. => []
  | .grouping inner _ => inner.ids
  | .unary _ operand _ => operand.ids
  | .binary _ left right _ => left.ids ++ right.ids
  | .logical _ left right _ => left.ids ++ right.ids
  | .variable id _ _ => [id]
  | .assign id _ value _ => id :: value.ids
  | .call callee args _ => callee.ids ++ Expr.idsAll args

def Expr.idsAll : List Expr → List NodeId
  | [] => []
  | expr :: rest => expr.ids ++ Expr.idsAll rest

end

theorem Expr.idsAll_eq (exprs : List Expr) : Expr.idsAll exprs = exprs.flatMap Expr.ids := by
  induction exprs with
  | nil => rfl
  | cons expr rest ih => rw [Expr.idsAll, ih, List.flatMap_cons]

theorem Expr.properAll_iff {exprs : List Expr} :
    Expr.ProperAll exprs ↔ ∀ expr ∈ exprs, expr.Proper := by
  induction exprs with
  | nil => simp [Expr.ProperAll]
  | cons expr rest ih => rw [Expr.ProperAll, ih, List.forall_mem_cons]

theorem Expr.depthAll_lt_iff {exprs : List Expr} {levels : Nat} :
    Expr.depthAll exprs < levels + 1 ↔ ∀ expr ∈ exprs, expr.depth < levels := by
  induction exprs with
  | nil => simp [Expr.depthAll]
  | cons expr rest ih => rw [Expr.depthAll, Nat.max_lt, ih, List.forall_mem_cons,
      Nat.add_lt_add_iff_right]

/-! ## First tokens -/

/-- The kinds of tokens with which an expression begins. -/
def TokenKind.BeginsExpr (kind : TokenKind) : Prop :=
  kind ∈ [.number, .string, .trueWord, .falseWord, .nullWord, .identifier, .command, .leftParen,
    .bang, .minus]

instance (kind : TokenKind) : Decidable kind.BeginsExpr := inferInstanceAs (Decidable (_ ∈ _))

theorem Token.Denotes.begins {token : Token} {value : Literal} (h : token.Denotes value) :
    token.kind.BeginsExpr := by
  unfold Token.Denotes at h
  split at h
  all_goals first | exact h.elim | (rename_i hkind; rw [hkind]; decide)

theorem UnaryOp.begins_kind (op : UnaryOp) : op.kind.BeginsExpr := by
  cases op <;> decide

theorem Expr.Spelled.begins {expr : Expr} {tokens : List Token} (h : expr.Spelled tokens) :
    ∃ first rest, tokens = first :: rest ∧ first.kind.BeginsExpr := by
  match expr, h with
  | .literal .., .literal hvalue => exact ⟨_, _, rfl, hvalue.begins⟩
  | .grouping .., .grouping hopening _ _ => exact ⟨_, _, rfl, hopening ▸ by decide⟩
  | .unary op .., .unary hoperator _ => exact ⟨_, _, rfl, hoperator ▸ op.begins_kind⟩
  | .binary _ left .., .binary hleft _ _ =>
    obtain ⟨first, rest, rfl, hfirst⟩ := begins hleft
    exact ⟨first, _, rfl, hfirst⟩
  | .logical _ left .., .logical hleft _ _ =>
    obtain ⟨first, rest, rfl, hfirst⟩ := begins hleft
    exact ⟨first, _, rfl, hfirst⟩
  | .variable .., .variable hname => exact ⟨_, _, rfl, hname ▸ by decide⟩
  | .assign .., .assign hname _ _ => exact ⟨_, _, rfl, hname ▸ by decide⟩
  | .call callee .., .call hcallee _ _ _ =>
    obtain ⟨first, rest, rfl, hfirst⟩ := begins hcallee
    exact ⟨first, _, rfl, hfirst⟩
  | .commandRef .., .commandRef hword => exact ⟨_, _, rfl, hword ▸ by decide⟩

end CommandScript
