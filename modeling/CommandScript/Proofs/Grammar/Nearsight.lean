import CommandScript.Proofs.Grammar.Postcondition
import CommandScript.Proofs.Grammar.Shadowing

/-!
# Rules that look at one token

A rule looks at the token that the cursor stands on, and at none behind it. So a rule that
leaves a token has not seen the end of the tokens: if there were more of them, it would do
the same, with or without a fault.

* `Cursor.extended`: a cursor with more tokens behind those that are left.
* `Rule.Nearsighted`: a rule that does the same there, if it leaves a token.
* `Nested.Nearsighted`, `nearsighted_nested`: the rules of all levels of nesting.
-/

namespace CommandScript.Grammar

open Rule

/-- More tokens come behind those that are left, and another one stands at the end. -/
def Cursor.extended (tail : List Token) (last : Token) (cursor : Cursor) : Cursor :=
  { cursor with rest := cursor.rest ++ tail, last }

theorem Cursor.LeadsTo.rest_ne_nil {cursor after : Cursor} (h : cursor.LeadsTo after)
    (hleft : after.rest ≠ []) : cursor.rest ≠ [] := by
  intro hnone
  exact hleft (List.suffix_nil.mp (hnone ▸ h.suffix))

theorem Cursor.peek_extended {cursor : Cursor} (h : cursor.rest ≠ []) (tail : List Token)
    (last : Token) : (cursor.extended tail last).peek = cursor.peek := by
  obtain ⟨token, rest, hrest⟩ := List.exists_cons_of_ne_nil h
  unfold peek extended
  rw [hrest]
  rfl

namespace Rule

variable {α β : Type} {rule : Rule α} {next : α → Rule β}

/-- A run that leaves a token is the same if more tokens come behind. -/
def Nearsighted (rule : Rule α) : Prop :=
  ∀ tail last cursor, (rule.run cursor).2.rest ≠ [] →
    rule.run (cursor.extended tail last) =
      ((rule.run cursor).1, (rule.run cursor).2.extended tail last)

/-! ## Sequences -/

theorem nearsighted_pure (a : α) : (pure a : Rule α).Nearsighted := fun _ _ _ _ => rfl

theorem nearsighted_fail (fault : Located ParseFault) : (fail fault : Rule α).Nearsighted :=
  fun _ _ _ _ => rfl

theorem nearsighted_bind (h : rule.Nearsighted) (hnext : ∀ a, (next a).Nearsighted) :
    (rule >>= next).Nearsighted := by
  intro tail last cursor hleft
  have hfirst := h tail last cursor
  rw [run_bind] at hleft
  rw [run_bind, run_bind]
  revert hfirst hleft
  generalize rule.run cursor = outcome
  obtain ⟨result, after⟩ := outcome
  intro hleft hfirst
  cases result with
  | ok a =>
    rw [hfirst (((next a).advances after).rest_ne_nil hleft)]
    exact hnext a tail last after hleft
  | error fault => rw [hfirst hleft]

theorem nearsighted_map {f : α → β} (h : rule.Nearsighted) : (f <$> rule).Nearsighted :=
  nearsighted_bind h fun a => nearsighted_pure (f a)

theorem nearsighted_ite {condition : Prop} [Decidable condition] {other : Rule α}
    (h : rule.Nearsighted) (hother : other.Nearsighted) :
    (if condition then rule else other).Nearsighted := by
  split
  · exact h
  · exact hother

theorem nearsighted_repeated {pass : α → Rule (Pass α)} (hpass : ∀ state, (pass state).Nearsighted)
    (state : α) : (repeated pass state).Nearsighted := by
  intro tail last cursor hleft
  induction hlength : cursor.rest.length using Nat.strongRecOn generalizing state cursor with
  | _ length ih =>
    subst hlength
    have hfirst := hpass state tail last cursor
    have hadvances := (pass state).advances cursor
    rw [run_repeated] at hleft
    rw [run_repeated, run_repeated]
    revert hfirst hadvances hleft
    generalize (pass state).run cursor = outcome
    obtain ⟨result, after⟩ := outcome
    intro hleft hfirst hadvances
    match result with
    | .error fault => rw [hfirst hleft]
    | .ok (.last final) => rw [hfirst hleft]
    | .ok (.again more) =>
      dsimp only at hleft hfirst ⊢
      by_cases hread : cursor.read < after.read
      · rw [if_pos hread] at hleft ⊢
        rw [hfirst (((repeated pass more).advances after).rest_ne_nil hleft)]
        exact (if_pos hread).trans (ih _ (hadvances.length_lt hread) more after hleft rfl)
      · rw [if_neg hread] at hleft ⊢
        rw [hfirst hleft]
        exact if_neg hread

/-- Recovery that leaves a token has found it among those that were left. -/
theorem resume_of_left {read : Nat} {rest : List Token} (h : (resume read rest).2 ≠ [])
    (tail : List Token) :
    resume read (rest ++ tail) = ((resume read rest).1, (resume read rest).2 ++ tail) := by
  fun_induction resume read rest with
  | case1 read => exact absurd rfl h
  | case2 read token => exact absurd rfl h
  | case3 read token next rest hstops =>
    rw [List.cons_append, List.cons_append, resume, if_pos hstops]
  | case4 read token next rest hgoes ih =>
    rw [List.cons_append, List.cons_append, resume, if_neg hgoes]
    exact ih h

theorem nearsighted_recover (h : rule.Nearsighted) : rule.recover.Nearsighted := by
  intro tail last cursor hleft
  have hfirst := h tail last cursor
  unfold recover at hleft ⊢
  dsimp only at hleft ⊢
  revert hfirst hleft
  generalize rule.run cursor = outcome
  obtain ⟨result, after⟩ := outcome
  intro hleft hfirst
  cases result with
  | ok a => rw [hfirst hleft]
  | error fault =>
    dsimp only at hleft hfirst ⊢
    have hrest : after.rest ≠ [] := by
      intro hnone
      rw [hnone] at hleft
      exact hleft rfl
    have hresume : resume (after.extended tail last).read (after.extended tail last).rest = _ :=
      resume_of_left hleft tail
    rw [hfirst hrest]
    dsimp only
    rw [hresume]
    rfl

/-! ## Single steps -/

theorem nearsighted_record (fault : Located ParseFault) : (record fault).Nearsighted :=
  fun _ _ _ _ => rfl

theorem nearsighted_freshId : freshId.Nearsighted := fun _ _ _ _ => rfl

theorem nearsighted_peek : peek.Nearsighted := fun tail last _ hleft =>
  congrArg (Except.ok ·, _) (Cursor.peek_extended hleft tail last)

theorem nearsighted_atEnd : atEnd.Nearsighted := by
  intro tail last cursor hleft
  obtain ⟨token, rest, hrest⟩ := List.exists_cons_of_ne_nil (l := cursor.rest) hleft
  refine Prod.ext (congrArg Except.ok ?_) rfl
  change (cursor.rest ++ tail).isEmpty = cursor.rest.isEmpty
  rw [hrest]
  rfl

theorem nearsighted_skip : skip.Nearsighted := by
  rintro tail last ⟨rest, read, final, firstId, drawn, faults⟩ hleft
  cases rest with
  | nil => exact absurd rfl hleft
  | cons token rest => rfl

theorem nearsighted_check (kind : TokenKind) : (check kind).Nearsighted :=
  nearsighted_bind nearsighted_peek fun _ => nearsighted_pure _

theorem nearsighted_accept? (kind : TokenKind) : (accept? kind).Nearsighted :=
  nearsighted_bind nearsighted_peek fun _ => nearsighted_ite
    (nearsighted_bind nearsighted_skip fun _ => nearsighted_pure _) (nearsighted_pure _)

theorem nearsighted_accept (kind : TokenKind) : (accept kind).Nearsighted :=
  nearsighted_bind (nearsighted_accept? kind) fun _ => nearsighted_pure _

theorem nearsighted_expected (what : String) : (expected what : Rule α).Nearsighted :=
  nearsighted_bind nearsighted_peek fun _ =>
    nearsighted_ite (nearsighted_fail _) (nearsighted_fail _)

theorem nearsighted_require (kind : TokenKind) (what : String) :
    (require kind what).Nearsighted := by
  refine nearsighted_bind (nearsighted_accept? kind) fun token => ?_
  cases token with
  | some token => exact nearsighted_pure _
  | none => exact nearsighted_expected what

theorem nearsighted_separated {item : Rule α} (h : item.Nearsighted) (maxItems : Nat)
    (tooMany : ParseFault) : (separated maxItems tooMany item).Nearsighted := by
  have hmore : ∀ items : Array α,
      (do return Pass.again (items.push (← item)) : Rule _).Nearsighted :=
    fun _ => nearsighted_bind h fun _ => nearsighted_pure _
  refine nearsighted_bind h fun first =>
    nearsighted_bind (nearsighted_repeated (fun items => ?_) _) fun _ => nearsighted_pure _
  refine nearsighted_bind (nearsighted_accept _) fun _ =>
    nearsighted_ite (nearsighted_ite ?_ (hmore items)) (nearsighted_pure _)
  exact nearsighted_bind nearsighted_peek fun _ =>
    nearsighted_bind (nearsighted_record _) fun _ => hmore items

end Rule

/-! ## Expressions -/

section Expressions

variable {expression operand : Rule Expr}

theorem nearsighted_primary (h : expression.Nearsighted) : (primary expression).Nearsighted := by
  refine nearsighted_bind nearsighted_peek fun token => ?_
  split
  case h_6 =>
    exact nearsighted_bind nearsighted_skip fun _ =>
      nearsighted_bind nearsighted_freshId fun _ => nearsighted_pure _
  case h_8 =>
    exact nearsighted_bind nearsighted_skip fun _ => nearsighted_bind h fun _ =>
      nearsighted_bind (nearsighted_require _ _) fun _ => nearsighted_pure _
  case h_9 | h_10 => exact nearsighted_fail _
  all_goals exact nearsighted_bind nearsighted_skip fun _ => nearsighted_pure _

theorem nearsighted_finishCall (h : expression.Nearsighted) (callee : Expr) :
    (finishCall expression callee).Nearsighted := by
  have hrest : ∀ args : List Expr, (do
      let paren ← require .rightParen "')' after arguments"
      return Expr.call callee args paren.line : Rule Expr).Nearsighted :=
    fun _ => nearsighted_bind (nearsighted_require _ _) fun _ => nearsighted_pure _
  exact nearsighted_bind (nearsighted_check _) fun _ => nearsighted_ite
    (nearsighted_bind (nearsighted_pure _) hrest)
    (nearsighted_bind (nearsighted_separated h _ _) hrest)

theorem nearsighted_call (h : expression.Nearsighted) : (call expression).Nearsighted := by
  refine nearsighted_bind (nearsighted_primary h) fun callee =>
    nearsighted_repeated (fun callee => ?_) callee
  exact nearsighted_bind (nearsighted_accept _) fun _ => nearsighted_ite
    (nearsighted_bind (nearsighted_finishCall h callee) fun _ => nearsighted_pure _)
    (nearsighted_pure _)

theorem nearsighted_unary (h : expression.Nearsighted) (hoperand : operand.Nearsighted) :
    (unary expression operand).Nearsighted := by
  refine nearsighted_bind nearsighted_peek fun token => ?_
  split
  · exact nearsighted_bind nearsighted_skip fun _ =>
      nearsighted_bind hoperand fun _ => nearsighted_pure _
  · exact nearsighted_call h

theorem nearsighted_leftAssociative {ω : Type} (operator? : TokenKind → Option ω)
    (node : ω → Expr → Expr → Nat → Expr) (hoperand : operand.Nearsighted) :
    (leftAssociative operator? node operand).Nearsighted := by
  refine nearsighted_bind hoperand fun first => nearsighted_repeated (fun left => ?_) first
  refine nearsighted_bind nearsighted_peek fun token => ?_
  split
  · exact nearsighted_bind nearsighted_skip fun _ =>
      nearsighted_bind hoperand fun _ => nearsighted_pure _
  · exact nearsighted_pure _

theorem nearsighted_logicalOr (h : expression.Nearsighted) (hoperand : operand.Nearsighted) :
    (logicalOr expression operand).Nearsighted :=
  nearsighted_leftAssociative _ _ <| nearsighted_leftAssociative _ _ <|
    nearsighted_leftAssociative _ _ <| nearsighted_leftAssociative _ _ <|
    nearsighted_leftAssociative _ _ <| nearsighted_leftAssociative _ _ <|
    nearsighted_unary h hoperand

theorem nearsighted_assignChain (links : List (Nat × Expr)) (target : Expr) :
    (assignChain target links).Nearsighted := by
  induction links generalizing target with
  | nil => exact nearsighted_pure _
  | cons link rest ih =>
    refine nearsighted_bind (ih link.2) fun value => ?_
    split
    · exact nearsighted_pure _
    · exact nearsighted_bind (nearsighted_record _) fun _ => nearsighted_pure _

theorem nearsighted_assignment (h : expression.Nearsighted) (hoperand : operand.Nearsighted) :
    (assignment expression operand).Nearsighted := by
  refine nearsighted_bind (nearsighted_logicalOr h hoperand) fun target =>
    nearsighted_bind (nearsighted_repeated (fun links => ?_) _) fun links =>
      nearsighted_assignChain _ target
  refine nearsighted_bind (nearsighted_accept? _) fun token => ?_
  split
  · exact nearsighted_bind (nearsighted_logicalOr h hoperand) fun _ => nearsighted_pure _
  · exact nearsighted_pure _

end Expressions

/-! ## Commands -/

section Commands

variable {expression : Rule Expr}

theorem nearsighted_endStatement (optional : Bool) : (endStatement optional).Nearsighted := by
  refine nearsighted_bind (nearsighted_accept _) fun _ => nearsighted_ite (nearsighted_pure _) ?_
  exact nearsighted_bind nearsighted_atEnd fun _ =>
    nearsighted_ite (nearsighted_pure _) (nearsighted_expected _)

theorem nearsighted_atCommandEnd : atCommandEnd.Nearsighted :=
  nearsighted_bind (nearsighted_check _) fun _ =>
    nearsighted_bind nearsighted_atEnd fun _ => nearsighted_pure _

theorem nearsighted_argValue (h : expression.Nearsighted) :
    (argValue expression).Nearsighted := by
  refine nearsighted_bind nearsighted_peek fun token => ?_
  split
  case h_1 | h_2 => exact nearsighted_bind nearsighted_skip fun _ => nearsighted_pure _
  case h_9 => exact nearsighted_fail _
  all_goals exact nearsighted_bind (nearsighted_primary h) fun _ => nearsighted_pure _

theorem nearsighted_markerName (missing : String → ParseFault) :
    (markerName missing).Nearsighted := by
  refine nearsighted_bind (nearsighted_accept? _) fun token => ?_
  split
  · exact nearsighted_pure _
  · exact nearsighted_bind nearsighted_peek fun _ => nearsighted_fail _

theorem nearsighted_parameterValues (h : expression.Nearsighted) :
    (parameterValues expression).Nearsighted := by
  refine nearsighted_bind (nearsighted_repeated (fun values => ?_) _) fun _ => nearsighted_pure _
  refine nearsighted_bind nearsighted_atCommandEnd fun _ =>
    nearsighted_bind (nearsighted_check _) fun _ => nearsighted_ite (nearsighted_pure _) ?_
  exact nearsighted_bind (nearsighted_accept _) fun _ => nearsighted_ite (nearsighted_pure _) <|
    nearsighted_bind (nearsighted_argValue h) fun _ => nearsighted_pure _

theorem nearsighted_marked (h : expression.Nearsighted) : (marked expression).Nearsighted := by
  refine nearsighted_bind (nearsighted_accept _) fun _ => nearsighted_ite ?_ ?_
  · exact nearsighted_bind (nearsighted_markerName _) fun _ =>
      nearsighted_bind (nearsighted_parameterValues h) fun _ => nearsighted_pure _
  · exact nearsighted_bind (nearsighted_markerName _) fun _ => nearsighted_pure _

theorem nearsighted_args (h : expression.Nearsighted) : (args expression).Nearsighted := by
  refine nearsighted_bind (nearsighted_repeated (fun given => ?_) _) fun _ => nearsighted_pure _
  refine nearsighted_bind nearsighted_atCommandEnd fun _ => nearsighted_ite (nearsighted_pure _) ?_
  refine nearsighted_bind (nearsighted_accept _) fun _ => nearsighted_ite (nearsighted_pure _) ?_
  refine nearsighted_bind (nearsighted_accept _) fun _ => nearsighted_ite ?_ ?_
  · exact nearsighted_bind (nearsighted_marked h) fun _ => nearsighted_pure _
  · exact nearsighted_bind (nearsighted_argValue h) fun _ => nearsighted_pure _

theorem nearsighted_helpTopic : helpTopic.Nearsighted := by
  refine nearsighted_bind nearsighted_atCommandEnd fun _ => nearsighted_ite (nearsighted_pure _) ?_
  refine nearsighted_bind (nearsighted_accept? _) fun token => ?_
  split
  · exact nearsighted_pure _
  · exact nearsighted_bind nearsighted_peek fun _ => nearsighted_fail _

theorem nearsighted_ended {α : Type} (optional : Bool) (a : α) :
    (do endStatement optional; return a : Rule α).Nearsighted :=
  nearsighted_bind (nearsighted_endStatement _) fun _ => nearsighted_pure _

theorem nearsighted_command (h : expression.Nearsighted) (word : Token) :
    (command expression word).Nearsighted := by
  refine nearsighted_ite ?_ (nearsighted_ite ?_ ?_)
  · exact nearsighted_bind nearsighted_helpTopic fun _ => nearsighted_ended _ _
  · exact nearsighted_ended _ _
  · exact nearsighted_bind (nearsighted_args h) fun _ => nearsighted_ended _ _

end Commands

/-! ## Statements -/

/-- The rules of one level of nesting look at one token. -/
structure Nested.Nearsighted (inner : Nested) : Prop where
  expression : Rule.Nearsighted inner.expression
  operand : Rule.Nearsighted inner.operand
  statement : Rule.Nearsighted inner.statement
  block : Rule.Nearsighted inner.block

section Statements

variable {inner : Nested} {mode : InputMode}

theorem nearsighted_variableDeclaration (h : inner.Nearsighted) :
    (variableDeclaration inner).Nearsighted := by
  refine nearsighted_bind (nearsighted_require _ _) fun _ =>
    nearsighted_bind (nearsighted_accept _) fun _ => ?_
  exact nearsighted_ite
    (nearsighted_bind (nearsighted_map h.expression) fun _ => nearsighted_ended _ _)
    (nearsighted_bind (nearsighted_pure _) fun _ => nearsighted_ended _ _)

theorem nearsighted_parameter : parameter.Nearsighted :=
  nearsighted_bind (nearsighted_require _ _) fun _ => nearsighted_pure _

theorem nearsighted_functionDeclaration (h : inner.Nearsighted) :
    (functionDeclaration inner).Nearsighted := by
  have hbody : ∀ (name : Token) (params : List Parameter), (do
      let _ ← require .rightParen "')' after parameters"
      let _ ← require .leftBrace "'\x7b' before function body"
      let body ← inner.block
      return Stmt.function name.lexeme params body name.line : Rule Stmt).Nearsighted :=
    fun _ _ => nearsighted_bind (nearsighted_require _ _) fun _ =>
      nearsighted_bind (nearsighted_require _ _) fun _ =>
        nearsighted_bind h.block fun _ => nearsighted_pure _
  refine nearsighted_bind (nearsighted_require _ _) fun name =>
    nearsighted_bind (nearsighted_require _ _) fun _ =>
      nearsighted_bind (nearsighted_check _) fun _ => ?_
  exact nearsighted_ite (nearsighted_bind (nearsighted_pure _) (hbody name))
    (nearsighted_bind (nearsighted_separated nearsighted_parameter _ _) (hbody name))

theorem nearsighted_expressionStatement (h : inner.expression.Nearsighted) :
    (expressionStatement inner).Nearsighted :=
  nearsighted_bind nearsighted_peek fun _ => nearsighted_bind h fun _ => nearsighted_ended _ _

theorem nearsighted_forInitializer (h : inner.Nearsighted) :
    (forInitializer inner).Nearsighted := by
  refine nearsighted_bind (nearsighted_accept _) fun _ => nearsighted_ite (nearsighted_pure _) ?_
  refine nearsighted_bind (nearsighted_accept _) fun _ => nearsighted_ite ?_ ?_
  · exact nearsighted_map (nearsighted_variableDeclaration h)
  · exact nearsighted_map (nearsighted_expressionStatement h.expression)

theorem nearsighted_forStatement (h : inner.Nearsighted) (line : Nat) :
    (forStatement inner line).Nearsighted := by
  have hbody : ∀ (initializer : Option Stmt) (condition : Expr) (increment : Option Expr), (do
      let _ ← require .rightParen "')' after for clauses"
      let body ← inner.statement
      return forLoop initializer condition increment body line : Rule Stmt).Nearsighted :=
    fun _ _ _ => nearsighted_bind (nearsighted_require _ _) fun _ =>
      nearsighted_bind h.statement fun _ => nearsighted_pure _
  have hcondition : ∀ (initializer : Option Stmt) (condition : Expr), (do
      let _ ← require .semicolon "';' after loop condition"
      let increment ← if ← check .rightParen then pure none else some <$> inner.expression
      let _ ← require .rightParen "')' after for clauses"
      let body ← inner.statement
      return forLoop initializer condition increment body line : Rule Stmt).Nearsighted := by
    intro initializer condition
    refine nearsighted_bind (nearsighted_require _ _) fun _ =>
      nearsighted_bind (nearsighted_check _) fun _ => ?_
    exact nearsighted_ite (nearsighted_bind (nearsighted_pure _) (hbody initializer condition))
      (nearsighted_bind (nearsighted_map h.expression) (hbody initializer condition))
  refine nearsighted_bind (nearsighted_require _ _) fun _ =>
    nearsighted_bind (nearsighted_forInitializer h) fun initializer =>
      nearsighted_bind (nearsighted_check _) fun _ => ?_
  exact nearsighted_ite (nearsighted_bind (nearsighted_pure _) (hcondition initializer))
    (nearsighted_bind h.expression (hcondition initializer))

theorem nearsighted_ifStatement (h : inner.Nearsighted) (line : Nat) :
    (ifStatement inner line).Nearsighted := by
  refine nearsighted_bind (nearsighted_require _ _) fun _ =>
    nearsighted_bind h.expression fun _ => nearsighted_bind (nearsighted_require _ _) fun _ =>
      nearsighted_bind h.statement fun _ => nearsighted_bind (nearsighted_accept _) fun _ => ?_
  exact nearsighted_ite
    (nearsighted_bind (nearsighted_map h.statement) fun _ => nearsighted_pure _)
    (nearsighted_bind (nearsighted_pure _) fun _ => nearsighted_pure _)

theorem nearsighted_whileStatement (h : inner.Nearsighted) (line : Nat) :
    (whileStatement inner line).Nearsighted :=
  nearsighted_bind (nearsighted_require _ _) fun _ => nearsighted_bind h.expression fun _ =>
    nearsighted_bind (nearsighted_require _ _) fun _ =>
      nearsighted_bind h.statement fun _ => nearsighted_pure _

theorem nearsighted_printStatement (h : inner.Nearsighted) (line : Nat) :
    (printStatement inner mode line).Nearsighted :=
  nearsighted_bind h.expression fun _ => nearsighted_ended _ _

theorem nearsighted_returnStatement (h : inner.Nearsighted) (line : Nat) :
    (returnStatement inner line).Nearsighted :=
  nearsighted_bind (nearsighted_check _) fun _ => nearsighted_ite
    (nearsighted_bind (nearsighted_pure _) fun _ => nearsighted_ended _ _)
    (nearsighted_bind (nearsighted_map h.expression) fun _ => nearsighted_ended _ _)

theorem nearsighted_statement (h : inner.Nearsighted) : (statement inner mode).Nearsighted := by
  refine nearsighted_bind nearsighted_peek fun token => ?_
  split
  case h_1 => exact nearsighted_bind nearsighted_skip fun _ => nearsighted_forStatement h _
  case h_2 => exact nearsighted_bind nearsighted_skip fun _ => nearsighted_ifStatement h _
  case h_3 => exact nearsighted_bind nearsighted_skip fun _ => nearsighted_printStatement h _
  case h_4 => exact nearsighted_bind nearsighted_skip fun _ => nearsighted_returnStatement h _
  case h_5 => exact nearsighted_bind nearsighted_skip fun _ => nearsighted_whileStatement h _
  case h_6 => exact nearsighted_bind nearsighted_skip fun _ => nearsighted_map h.block
  case h_7 =>
    exact nearsighted_bind nearsighted_skip fun _ =>
      nearsighted_map (nearsighted_command h.expression _)
  case h_8 => exact nearsighted_expressionStatement h.expression

theorem nearsighted_declared (h : inner.Nearsighted) : (declared inner).Nearsighted := by
  refine nearsighted_bind (nearsighted_accept _) fun _ => nearsighted_ite ?_ ?_
  · exact nearsighted_functionDeclaration h
  · exact nearsighted_bind (nearsighted_accept _) fun _ =>
      nearsighted_ite (nearsighted_variableDeclaration h) h.statement

theorem nearsighted_declaration (h : inner.Nearsighted) : (declaration inner).Nearsighted :=
  nearsighted_recover (nearsighted_declared h)

theorem nearsighted_bodyPass {test : Rule Bool} {item : Rule (Option Stmt)}
    (htest : test.Nearsighted) (hitem : item.Nearsighted) (body : Array Stmt) :
    (bodyPass test item body).Nearsighted := by
  refine nearsighted_bind htest fun _ => nearsighted_ite (nearsighted_pure _) ?_
  refine nearsighted_bind hitem fun found => ?_
  cases found <;> exact nearsighted_pure _

theorem nearsighted_atBlockEnd : atBlockEnd.Nearsighted :=
  nearsighted_bind (nearsighted_check _) fun _ =>
    nearsighted_bind nearsighted_atEnd fun _ => nearsighted_pure _

/-- The declarations of a block, up to its brace. -/
theorem nearsighted_block (h : inner.Nearsighted) (body : Array Stmt) :
    (repeated (bodyPass atBlockEnd (declaration inner)) body).Nearsighted :=
  nearsighted_repeated (nearsighted_bodyPass nearsighted_atBlockEnd (nearsighted_declaration h)) body

theorem nearsighted_blockBody (h : inner.Nearsighted) : (blockBody inner).Nearsighted :=
  nearsighted_bind (nearsighted_block h #[]) fun _ =>
    nearsighted_bind (nearsighted_require _ _) fun _ => nearsighted_pure _

end Statements

theorem nearsighted_tooDeep {α : Type} : (tooDeep : Rule α).Nearsighted :=
  nearsighted_bind nearsighted_peek fun _ => nearsighted_fail _

theorem nearsighted_nested (mode : InputMode) (levels : Nat) :
    (nested mode levels).Nearsighted := by
  induction levels with
  | zero =>
    exact ⟨nearsighted_tooDeep, nearsighted_tooDeep, nearsighted_tooDeep, nearsighted_tooDeep⟩
  | succ levels ih =>
    exact ⟨nearsighted_assignment ih.expression ih.operand,
      nearsighted_unary ih.expression ih.operand, nearsighted_statement ih,
      nearsighted_blockBody ih⟩

end CommandScript.Grammar
