import CommandScript.Proofs.Grammar.Structure
import CommandScript.Proofs.Syntax.Spelling

/-!
# How deep programs nest

Every rule of the grammar that may be used inside itself takes a level of nesting: an
expression in parentheses or as an argument, the operand of a unary operator, a statement
within another one, and a body in braces. So what is read with a number of levels left nests
no deeper than that. The values of nested assignments are read in a loop and take no level.

A `for` is one statement, although the loop that it abbreviates stands in blocks that nobody
wrote. This is why the levels of a statement are a relation: a loop in such blocks may be
taken for a `for`.

* `Stmt.Nests`: a statement nests within a number of levels.
* `nests_nested`: what the rules read nests within the levels that they have.
* `nests_program`: a program nests within the limit.
-/

namespace CommandScript

/-! ## Levels of statements -/

def ArgValue.Nests (levels : Nat) : ArgValue → Prop
  | .word _ => True
  | .expr value => value.depth < levels

def Arg.Nests (levels : Nat) : Arg → Prop
  | .positional value => value.Nests levels
  | .flag _ => True
  | .parameter _ values => ∀ value ∈ values, value.Nests levels

/-- The arguments nest within the levels; `help` and `exit` have none. -/
def Command.Nests (levels : Nat) : Command → Prop
  | .deliver _ args _ => ∀ arg ∈ args, arg.Nests levels
  | .help _ _ | .exit _ => True

/-- What stands before the condition of a `for` takes no level of its own. -/
def Stmt.ClauseNests (levels : Nat) : Stmt → Prop
  | .declare _ initializer _ => ∀ value ∈ initializer, value.depth < levels
  | .expression expr _ => expr.depth < levels
  | _ => False

/-- Every statement takes a level, a declared variable excepted, and so does every body in
braces. An expression takes a level, and one more for everything that is nested in it. -/
inductive Stmt.Nests : (levels : Nat) → Stmt → Prop where
  | block {levels : Nat} {body : List Stmt} :
      (∀ stmt ∈ body, Nests levels stmt) → Nests (levels + 1 + 1) (.block body)
  | expression {levels : Nat} {expr : Expr} {line : Nat} :
      expr.depth < levels → Nests (levels + 1) (.expression expr line)
  | branch {levels : Nat} {condition : Expr} {thenBranch : Stmt} {elseBranch : Option Stmt}
      {line : Nat} : condition.depth < levels → Nests levels thenBranch →
      (∀ stmt ∈ elseBranch, Nests levels stmt) →
      Nests (levels + 1) (.branch condition thenBranch elseBranch line)
  | loop {levels : Nat} {condition : Expr} {body : Stmt} {line : Nat} :
      condition.depth < levels → Nests levels body → Nests (levels + 1) (.loop condition body line)
  | iteration {levels : Nat} {initializer : Option Stmt} {condition increment : Option Expr}
      {body : Stmt} {line : Nat} :
      (∀ clause ∈ initializer, clause.ClauseNests levels) →
      (∀ test ∈ condition, test.depth < levels) →
      (∀ step ∈ increment, step.depth < levels) → Nests levels body →
      Nests (levels + 1) (Grammar.forLoop initializer
        (condition.getD (.literal (.bool true) line)) increment body line)
  | print {levels : Nat} {expr : Expr} {line : Nat} :
      expr.depth < levels → Nests (levels + 1) (.print expr line)
  | return {levels : Nat} {value : Option Expr} {line : Nat} :
      (∀ expr ∈ value, expr.depth < levels) → Nests (levels + 1) (.return value line)
  | declare {levels : Nat} {name : String} {initializer : Option Expr} {line : Nat} :
      (∀ value ∈ initializer, value.depth < levels) → Nests levels (.declare name initializer line)
  | function {levels : Nat} {name : String} {params : List Parameter} {body : List Stmt}
      {line : Nat} : (∀ stmt ∈ body, Nests levels stmt) →
      Nests (levels + 1) (.function name params body line)
  | command {levels : Nat} {action : Command} :
      action.Nests (levels + 1) → Nests (levels + 1) (.command action)

namespace Grammar

open Rule

/-! ## Expressions -/

section Expressions

variable {expression operand : Rule Expr} {levels : Nat}

/-- The expressions that a rule reads nest within fewer levels. -/
def Rule.Shallow (rule : Rule Expr) (levels : Nat) : Prop :=
  rule.Yields fun expr => expr.depth < levels

theorem shallow_atom {expr : Expr} (h : expr.depth = 0) :
    (pure expr : Rule Expr).Shallow (levels + 1) :=
  yields_pure (h ▸ Nat.succ_pos levels)

theorem shallow_primary (h : expression.Shallow levels) :
    (primary expression).Shallow (levels + 1) := by
  refine yields_after fun token => ?_
  split
  case h_6 => exact yields_after fun _ => yields_after fun _ => shallow_atom (by rw [Expr.depth])
  case h_8 =>
    refine yields_after fun _ => yields_bind h fun inner hinner => ?_
    exact yields_after fun _ => yields_pure (Nat.succ_lt_succ hinner)
  case h_9 | h_10 => exact ensures_fail _
  all_goals exact yields_after fun _ => shallow_atom (by rw [Expr.depth])

theorem forall_mem_push {α : Type} {property : α → Prop} {items : Array α} {last : α}
    (hitems : ∀ a ∈ items.toList, property a) (hlast : property last) :
    ∀ a ∈ (items.push last).toList, property a := by
  rw [Array.toList_push, List.forall_mem_append]
  exact ⟨hitems, List.forall_mem_singleton.mpr hlast⟩

theorem yields_separated {α : Type} {property : α → Prop} {item : Rule α}
    (h : item.Yields property) (maxItems : Nat) (tooMany : ParseFault) :
    (separated maxItems tooMany item).Yields fun items => ∀ a ∈ items, property a := by
  have hpush : ∀ items : Array α, (∀ a ∈ items.toList, property a) →
      (do return Pass.again (items.push (← item))).Yields
        fun result => ∀ a ∈ result.state.toList, property a := fun items hitems =>
    yields_bind h fun a ha => yields_pure (forall_mem_push hitems ha)
  refine yields_bind h fun first hfirst => ?_
  refine yields_bind (yields_repeated (fun items : Array α => ∀ a ∈ items.toList, property a)
    (fun items hitems => ?_) (List.forall_mem_singleton.mpr hfirst)) fun _ hitems =>
      yields_pure hitems
  refine yields_after fun comma => ?_
  split
  · dsimp only
    split
    · exact yields_after fun _ => yields_after fun _ => hpush items hitems
    · exact hpush items hitems
  · exact yields_pure hitems

theorem shallow_finishCall (h : expression.Shallow levels) {callee : Expr}
    (hcallee : callee.depth < levels + 1) :
    (finishCall expression callee).Shallow (levels + 1) := by
  have hrest : ∀ args : List Expr, (∀ arg ∈ args, arg.depth < levels) → (do
      let paren ← require .rightParen "')' after arguments"
      return Expr.call callee args paren.line).Shallow (levels + 1) := fun args hargs =>
    yields_after fun _ => yields_pure (Nat.max_lt.mpr ⟨hcallee, Expr.depthAll_lt_iff.mpr hargs⟩)
  refine yields_after fun empty => ?_
  dsimp only
  split
  · exact yields_bind (yields_pure (List.forall_mem_nil _)) hrest
  · exact yields_bind (yields_separated h _ _) hrest

theorem shallow_call (h : expression.Shallow levels) : (call expression).Shallow (levels + 1) := by
  refine yields_bind (shallow_primary h) fun callee hcallee =>
    yields_repeated (fun expr : Expr => expr.depth < levels + 1) (fun callee hcallee => ?_) hcallee
  refine yields_after fun opens => ?_
  split
  · exact yields_bind (shallow_finishCall h hcallee) fun _ hexpr => yields_pure hexpr
  · exact yields_pure hcallee

theorem shallow_unary (h : expression.Shallow levels) (hoperand : operand.Shallow levels) :
    (unary expression operand).Shallow (levels + 1) := by
  refine yields_after fun token => ?_
  split
  · refine yields_after fun _ => yields_bind hoperand fun expr hexpr => ?_
    exact yields_pure (Nat.succ_lt_succ hexpr)
  · exact shallow_call h

theorem shallow_leftAssociative {ω : Type} {operator? : TokenKind → Option ω}
    {node : ω → Expr → Expr → Nat → Expr}
    (hnode : ∀ op left right line, (node op left right line).depth = max left.depth right.depth)
    {rule : Rule Expr} (h : rule.Shallow levels) :
    (leftAssociative operator? node rule).Shallow levels := by
  refine yields_bind h fun first hfirst =>
    yields_repeated (fun expr : Expr => expr.depth < levels) (fun left hleft => ?_) hfirst
  refine yields_after fun token => ?_
  split
  · refine yields_after fun _ => yields_bind h fun right hright => yields_pure ?_
    rw [Pass.state, hnode]
    exact Nat.max_lt.mpr ⟨hleft, hright⟩
  · exact yields_pure hleft

theorem shallow_logicalOr (h : expression.Shallow levels) (hoperand : operand.Shallow levels) :
    (logicalOr expression operand).Shallow (levels + 1) := by
  have hlogical : ∀ (op : LogicalOp) (left right : Expr) line,
      (Expr.logical op left right line).depth = max left.depth right.depth :=
    fun _ _ _ _ => by rw [Expr.depth]
  have hbinary : ∀ (op : BinaryOp) (left right : Expr) line,
      (Expr.binary op left right line).depth = max left.depth right.depth :=
    fun _ _ _ _ => by rw [Expr.depth]
  exact shallow_leftAssociative hlogical <| shallow_leftAssociative hlogical <|
    shallow_leftAssociative hbinary <| shallow_leftAssociative hbinary <|
    shallow_leftAssociative hbinary <| shallow_leftAssociative hbinary <|
    shallow_unary h hoperand

/-- An assignment is as deep as its value, however many assignments that is. -/
theorem shallow_assignChain {target : Expr} {links : List (Nat × Expr)}
    (htarget : target.depth < levels) (hlinks : ∀ link ∈ links, link.2.depth < levels) :
    (assignChain target links).Shallow levels := by
  induction links generalizing target with
  | nil => exact yields_pure htarget
  | cons link rest ih =>
    obtain ⟨hnext, hrest⟩ := List.forall_mem_cons.mp hlinks
    refine yields_bind (ih hnext hrest) fun value hvalue => ?_
    split
    · exact yields_pure hvalue
    · exact yields_after fun _ => yields_pure htarget

theorem shallow_assignment (h : expression.Shallow levels) (hoperand : operand.Shallow levels) :
    (assignment expression operand).Shallow (levels + 1) := by
  have hvalue := shallow_logicalOr h hoperand
  refine yields_bind hvalue fun target htarget => yields_bind (yields_repeated
    (fun links : Array (Nat × Expr) => ∀ link ∈ links.toList, link.2.depth < levels + 1)
    (fun links hlinks => ?_) (List.forall_mem_nil _)) fun links => shallow_assignChain htarget
  refine yields_after fun equal => ?_
  split
  · refine yields_bind hvalue fun next hnext => yields_pure ?_
    exact @forall_mem_push (Nat × Expr) (·.2.depth < levels + 1) _ _ hlinks hnext
  · exact yields_pure hlinks

end Expressions

/-! ## Commands -/

section Commands

variable {expression : Rule Expr} {levels : Nat}

theorem nests_argValue (h : expression.Shallow levels) :
    (argValue expression).Yields fun value => value.Nests (levels + 1) := by
  refine yields_after fun token => ?_
  split
  case h_1 | h_2 => exact yields_after fun _ => yields_pure trivial
  case h_9 => exact ensures_fail _
  all_goals exact yields_bind (shallow_primary h) fun _ hexpr => yields_pure hexpr

theorem nests_parameterValues (h : expression.Shallow levels) :
    (parameterValues expression).Yields fun values =>
      ∀ value ∈ values, value.Nests (levels + 1) := by
  refine yields_bind (yields_repeated (fun values : Array ArgValue =>
    ∀ value ∈ values.toList, value.Nests (levels + 1)) (fun values hvalues => ?_)
    (List.forall_mem_nil _)) fun _ hvalues => yields_pure hvalues
  refine yields_after fun ends => yields_after fun minus => ?_
  split
  · exact yields_pure hvalues
  · refine yields_after fun comma => ?_
    split
    · exact yields_pure hvalues
    · exact yields_bind (nests_argValue h) fun value hvalue =>
        yields_pure (forall_mem_push hvalues hvalue)

theorem nests_marked (h : expression.Shallow levels) :
    (marked expression).Yields fun arg => arg.Nests (levels + 1) := by
  refine yields_after fun minus => ?_
  split
  · refine yields_after fun name => yields_bind (nests_parameterValues h) fun values hvalues => ?_
    exact yields_pure hvalues
  · exact yields_after fun name => yields_pure trivial

theorem nests_args (h : expression.Shallow levels) :
    (args expression).Yields fun given => ∀ arg ∈ given, arg.Nests (levels + 1) := by
  refine yields_bind (yields_repeated (fun given : Array Arg =>
    ∀ arg ∈ given.toList, arg.Nests (levels + 1)) (fun given hgiven => ?_)
    (List.forall_mem_nil _)) fun _ hgiven => yields_pure hgiven
  refine yields_after fun ends => ?_
  split
  · exact yields_pure hgiven
  refine yields_after fun comma => ?_
  split
  · exact yields_pure hgiven
  refine yields_after fun minus => ?_
  split
  · exact yields_bind (nests_marked h) fun arg harg =>
      yields_pure (forall_mem_push hgiven harg)
  · exact yields_bind (nests_argValue h) fun value hvalue =>
      yields_pure (@forall_mem_push Arg (·.Nests (levels + 1)) _ _ hgiven hvalue)

theorem nests_command (h : expression.Shallow levels) (word : Token) :
    (command expression word).Yields fun action => action.Nests (levels + 1) := by
  unfold command
  dsimp only
  split
  · exact yields_after fun _ => yields_after fun _ => yields_pure trivial
  · split
    · exact yields_after fun _ => yields_pure trivial
    · refine yields_bind (nests_args h) fun given hgiven => ?_
      exact yields_after fun _ => yields_pure hgiven

end Commands

/-! ## Statements -/

section Statements

variable {inner : Nested} {mode : InputMode} {levels : Nat}

/-- What the rules of one level read nests within the levels. A body in braces takes one of
them. -/
structure Nested.Nests (inner : Nested) (levels : Nat) : Prop where
  expression : inner.expression.Shallow levels
  operand : inner.operand.Shallow levels
  statement : inner.statement.Yields fun stmt => stmt.Nests levels
  block : inner.block.Yields fun body =>
    ∃ fewer, levels = fewer + 1 ∧ ∀ stmt ∈ body, stmt.Nests fewer

theorem forall_mem_some {α : Type} {property : α → Prop} {a : α} (h : property a) :
    ∀ b ∈ some a, property b :=
  fun _ hb => Option.some.inj hb ▸ h

theorem shallow_option (h : inner.expression.Shallow levels) :
    (some <$> inner.expression).Yields fun value => ∀ expr ∈ value, expr.depth < levels :=
  yields_map h fun _ hexpr => forall_mem_some hexpr

/-- A declared variable takes no level, so it is read as a clause is. -/
theorem clause_variableDeclaration (h : inner.expression.Shallow levels) :
    (variableDeclaration inner).Yields fun stmt =>
      stmt.ClauseNests levels ∧ stmt.Nests levels := by
  have hrest : ∀ (name : Token) (initializer : Option Expr),
      (∀ value ∈ initializer, value.depth < levels) → (do
        endStatement false
        return Stmt.declare name.lexeme initializer name.line).Yields fun stmt =>
          stmt.ClauseNests levels ∧ stmt.Nests levels := fun _ _ hvalue =>
    yields_after fun _ => yields_pure ⟨hvalue, .declare hvalue⟩
  refine yields_after fun name => yields_after fun equal => ?_
  dsimp only
  split
  · exact yields_bind (shallow_option h) (hrest name)
  · exact yields_bind (yields_pure fun _ hnone => nomatch hnone) (hrest name)

theorem nests_functionDeclaration (h : inner.Nests levels) :
    (functionDeclaration inner).Yields fun stmt => stmt.Nests levels := by
  have hrest : ∀ (name : Token) (params : List Parameter),
      (do
        let _ ← require .rightParen "')' after parameters"
        let _ ← require .leftBrace "'\x7b' before function body"
        let body ← inner.block
        return Stmt.function name.lexeme params body name.line).Yields
      fun stmt => stmt.Nests levels := by
    intro name params
    refine yields_after fun _ => yields_after fun _ => yields_bind h.block fun body hbody => ?_
    obtain ⟨fewer, rfl, hbody⟩ := hbody
    exact yields_pure (.function hbody)
  refine yields_after fun name => yields_after fun _ => yields_after fun empty => ?_
  dsimp only
  split
  · exact yields_after (hrest name)
  · exact yields_after (hrest name)

theorem clause_expressionStatement (h : inner.expression.Shallow levels) :
    (expressionStatement inner).Yields fun stmt =>
      stmt.ClauseNests levels ∧ stmt.Nests (levels + 1) :=
  yields_after fun _ => yields_bind h fun _ hexpr => yields_after fun _ =>
    yields_pure ⟨hexpr, .expression hexpr⟩

theorem clause_forInitializer (h : inner.expression.Shallow levels) :
    (forInitializer inner).Yields fun initializer =>
      ∀ clause ∈ initializer, clause.ClauseNests levels := by
  refine yields_after fun semicolon => ?_
  split
  · exact yields_pure fun _ hnone => nomatch hnone
  · refine yields_after fun varWord => ?_
    split
    · exact yields_bind (clause_variableDeclaration h) fun stmt hstmt =>
        yields_pure (forall_mem_some hstmt.1)
    · exact yields_bind (clause_expressionStatement h) fun stmt hstmt =>
        yields_pure (forall_mem_some hstmt.1)

theorem nests_forStatement (h : inner.Nests levels) (line : Nat) :
    (forStatement inner line).Yields fun stmt => stmt.Nests (levels + 1) := by
  refine yields_after fun _ => yields_bind (clause_forInitializer h.expression)
    fun initializer hinitializer => yields_after fun absent => ?_
  have hbody : ∀ condition : Option Expr, (∀ test ∈ condition, test.depth < levels) →
      ∀ increment : Option Expr, (∀ step ∈ increment, step.depth < levels) → (do
        let _ ← require .rightParen "')' after for clauses"
        let body ← inner.statement
        return forLoop initializer (condition.getD (.literal (.bool true) line)) increment body
          line).Yields fun stmt => stmt.Nests (levels + 1) := by
    intro condition hcondition increment hincrement
    refine yields_after fun _ => yields_bind h.statement fun body hbody => yields_pure ?_
    exact .iteration hinitializer hcondition hincrement hbody
  have hcondition : ∀ condition : Option Expr, (∀ test ∈ condition, test.depth < levels) → (do
      let _ ← require .semicolon "';' after loop condition"
      let increment ← if ← check .rightParen then pure none else some <$> inner.expression
      let _ ← require .rightParen "')' after for clauses"
      let body ← inner.statement
      return forLoop initializer (condition.getD (.literal (.bool true) line)) increment body
        line).Yields fun stmt => stmt.Nests (levels + 1) := by
    intro condition hcondition
    refine yields_after fun _ => yields_after fun absent => ?_
    dsimp only
    split
    · exact yields_bind (yields_pure fun _ hnone => nomatch hnone) (hbody condition hcondition)
    · exact yields_bind (shallow_option h.expression) (hbody condition hcondition)
  dsimp only
  split
  · exact hcondition none fun _ hnone => nomatch hnone
  · exact yields_bind h.expression fun test htest =>
      hcondition (some test) (forall_mem_some htest)

theorem nests_ifStatement (h : inner.Nests levels) (line : Nat) :
    (ifStatement inner line).Yields fun stmt => stmt.Nests (levels + 1) := by
  refine yields_after fun _ => yields_bind h.expression fun condition hcondition => ?_
  refine yields_after fun _ => yields_bind h.statement fun thenBranch hthen => ?_
  refine yields_after fun elseWord => ?_
  have hrest : ∀ elseBranch : Option Stmt, (∀ stmt ∈ elseBranch, stmt.Nests levels) →
      (pure (.branch condition thenBranch elseBranch line) : Rule Stmt).Yields
        fun stmt => stmt.Nests (levels + 1) :=
    fun _ helse => yields_pure (.branch hcondition hthen helse)
  dsimp only
  split
  · exact yields_bind (yields_map h.statement fun _ hstmt => forall_mem_some hstmt) hrest
  · exact yields_bind (yields_pure fun _ hnone => nomatch hnone) hrest

theorem nests_whileStatement (h : inner.Nests levels) (line : Nat) :
    (whileStatement inner line).Yields fun stmt => stmt.Nests (levels + 1) := by
  refine yields_after fun _ => yields_bind h.expression fun condition hcondition => ?_
  exact yields_after fun _ => yields_bind h.statement fun body hbody =>
    yields_pure (.loop hcondition hbody)

theorem nests_printStatement (h : inner.Nests levels) (line : Nat) :
    (printStatement inner mode line).Yields fun stmt => stmt.Nests (levels + 1) :=
  yields_bind h.expression fun _ hexpr => yields_after fun _ => yields_pure (.print hexpr)

theorem nests_returnStatement (h : inner.Nests levels) (line : Nat) :
    (returnStatement inner line).Yields fun stmt => stmt.Nests (levels + 1) := by
  have hrest : ∀ value : Option Expr, (∀ expr ∈ value, expr.depth < levels) → (do
      endStatement false
      return Stmt.return value line).Yields fun stmt => stmt.Nests (levels + 1) :=
    fun _ hvalue => yields_after fun _ => yields_pure (.return hvalue)
  refine yields_after fun absent => ?_
  dsimp only
  split
  · exact yields_bind (yields_pure fun _ hnone => nomatch hnone) hrest
  · exact yields_bind (shallow_option h.expression) hrest

theorem nests_statement (h : inner.Nests levels) :
    (statement inner mode).Yields fun stmt => stmt.Nests (levels + 1) := by
  refine yields_after fun token => ?_
  split
  case h_1 => exact yields_after fun _ => nests_forStatement h _
  case h_2 => exact yields_after fun _ => nests_ifStatement h _
  case h_3 => exact yields_after fun _ => nests_printStatement h _
  case h_4 => exact yields_after fun _ => nests_returnStatement h _
  case h_5 => exact yields_after fun _ => nests_whileStatement h _
  case h_6 =>
    refine yields_after fun _ => yields_map h.block fun body hbody => ?_
    obtain ⟨fewer, rfl, hbody⟩ := hbody
    exact .block hbody
  case h_7 =>
    exact yields_after fun _ => yields_map (nests_command h.expression _) fun _ haction =>
      .command haction
  case h_8 => exact ensures_mono (clause_expressionStatement h.expression) fun _ _ hstmt => hstmt.2

theorem nests_declaration (h : inner.Nests levels) :
    (declaration inner).Yields fun stmt => ∀ found ∈ stmt, found.Nests levels := by
  have hsome : ∀ rule : Rule Stmt, (rule.Yields fun stmt => stmt.Nests levels) →
      Ensures (fun _ => True) rule fun stmt _ => ∀ found ∈ some stmt, found.Nests levels :=
    fun rule hrule => ensures_mono hrule fun stmt _ hstmt => forall_mem_some hstmt
  refine ensures_recover (hsome _ ?_) fun _ _ _ _ _ hnone => nomatch hnone
  refine yields_after fun funWord => ?_
  split
  · exact nests_functionDeclaration h
  · refine yields_after fun varWord => ?_
    split
    · exact ensures_mono (clause_variableDeclaration h.expression) fun _ _ hstmt => hstmt.2
    · exact h.statement

theorem nests_pass (h : inner.Nests levels) {body : Array Stmt}
    (hbody : ∀ stmt ∈ body.toList, stmt.Nests levels) :
    (do
      match ← declaration inner with
      | some stmt => return Pass.again (body.push stmt)
      | none => return Pass.again body).Yields
    fun result => ∀ stmt ∈ result.state.toList, stmt.Nests levels := by
  refine yields_bind (nests_declaration h) fun stmt hstmt => ?_
  cases stmt with
  | none => exact yields_pure hbody
  | some stmt => exact yields_pure (forall_mem_push hbody (hstmt stmt rfl))

theorem nests_blockBody (h : inner.Nests levels) :
    (blockBody inner).Yields fun body => ∀ stmt ∈ body, stmt.Nests levels := by
  refine yields_bind (yields_repeated (fun body : Array Stmt =>
    ∀ stmt ∈ body.toList, stmt.Nests levels) (fun body hbody => ?_) (List.forall_mem_nil _))
    fun body hbody => yields_after fun _ => yields_pure hbody
  refine yields_after fun brace => yields_after fun atEnd => ?_
  split
  · exact yields_pure hbody
  · exact nests_pass h hbody

end Statements

theorem nests_nested (mode : InputMode) (levels : Nat) : (nested mode levels).Nests levels := by
  induction levels with
  | zero => exact ⟨yields_tooDeep _, yields_tooDeep _, yields_tooDeep _, yields_tooDeep _⟩
  | succ levels ih =>
    exact ⟨shallow_assignment ih.expression ih.operand, shallow_unary ih.expression ih.operand,
      nests_statement ih, ensures_mono (nests_blockBody ih) fun _ _ hbody => ⟨levels, rfl, hbody⟩⟩

theorem nests_program (mode : InputMode) :
    (program mode).Yields fun body => ∀ stmt ∈ body, stmt.Nests maxNesting := by
  refine yields_bind (yields_repeated (fun body : Array Stmt =>
    ∀ stmt ∈ body.toList, stmt.Nests maxNesting) (fun body hbody => ?_) (List.forall_mem_nil _))
    fun body hbody => yields_pure hbody
  refine yields_after fun atEnd => ?_
  split
  · exact yields_pure hbody
  · exact nests_pass (nests_nested mode maxNesting) hbody

end Grammar

end CommandScript
