import CommandScript.Grammar.Arguments
import CommandScript.Proofs.Grammar.Splicing

/-!
# Expressions and arguments on a part of the tokens

The rules of expressions and of arguments do the same on a part of the tokens as on all of
them, as long as this part goes on behind what they read. It does so always if the part
ends with a `;` or `}`: no expression and no argument contains one.

* `parallel_assignment`, `stays_assignment`: the rule of expressions.
* `parallel_args`, `stays_args`: the rule of the arguments of a command.
-/

namespace CommandScript.Grammar

open Rule Splice

/-! ## What expressions leave -/

section Stays

variable {expression operand : Rule Expr}

theorem stays_primary (h : expression.Stays) : (primary expression).Stays := by
  have hliteral : ∀ {token : Token}, ¬ Closes token.kind → ∀ expr : Expr,
      Ensures (fun cursor => cursor.peek = token ∧ cursor.Alive)
        (do skip; return expr) fun _ after => after.Alive :=
    fun hkind _ => alive_skip_bind hkind (stays_pure _)
  refine stays_peek_bind fun token => ?_
  split <;> rename_i hkind
  case h_6 =>
    exact alive_skip_bind (by rw [hkind]; decide) (stays_bind stays_freshId fun _ => stays_pure _)
  case h_8 =>
    refine alive_skip_bind (by rw [hkind]; decide) (stays_bind h fun inner => ?_)
    exact stays_bind (stays_require (by decide) _) fun _ => stays_pure _
  case h_9 => exact alive_of_stays (stays_fail _)
  case h_10 => exact alive_of_stays (stays_fail _)
  all_goals exact hliteral (by rw [hkind]; decide) _

theorem stays_finishCall (h : expression.Stays) (callee : Expr) :
    (finishCall expression callee).Stays := by
  have hrest : ∀ args : List Expr, (do
      let paren ← require .rightParen "')' after arguments"
      return Expr.call callee args paren.line : Rule Expr).Stays :=
    fun args => stays_bind (stays_require (by decide) _) fun _ => stays_pure _
  refine stays_bind (stays_check _) fun empty => ?_
  dsimp only
  split
  · exact stays_bind (stays_pure _) hrest
  · exact stays_bind (stays_separated h _ _) hrest

theorem stays_call (h : expression.Stays) : (call expression).Stays := by
  refine stays_bind (stays_primary h) fun callee => stays_repeated (fun callee => ?_) callee
  refine stays_bind (stays_accept (by decide)) fun paren => stays_ite ?_ (stays_pure _)
  exact stays_bind (stays_finishCall h callee) fun _ => stays_pure _

theorem not_closes_of_unaryOp? {kind : TokenKind} {op : UnaryOp} (h : unaryOp? kind = some op) :
    ¬ Closes kind := by
  rintro (rfl | rfl) <;> cases h

theorem stays_unary (h : expression.Stays) (hoperand : operand.Stays) :
    (unary expression operand).Stays := by
  refine stays_peek_bind fun token => ?_
  split
  · rename_i op hop
    exact alive_skip_bind (not_closes_of_unaryOp? hop) (stays_bind hoperand fun _ => stays_pure _)
  · exact alive_of_stays (stays_call h)

/-- Neither `;` nor `}` is an operator. -/
def NoneCloses {ω : Type} (operator? : TokenKind → Option ω) : Prop :=
  operator? .semicolon = none ∧ operator? .rightBrace = none

theorem stays_leftAssociative {ω : Type} {operator? : TokenKind → Option ω}
    (hnone : NoneCloses operator?) (node : ω → Expr → Expr → Nat → Expr)
    (hoperand : operand.Stays) : (leftAssociative operator? node operand).Stays := by
  refine stays_bind hoperand fun first => stays_repeated (fun left => ?_) first
  refine stays_peek_bind fun token => ?_
  split
  · rename_i op hop
    refine alive_skip_bind ?_ (stays_bind hoperand fun _ => stays_pure _)
    rintro (hkind | hkind)
    · rw [hkind, hnone.1] at hop
      cases hop
    · rw [hkind, hnone.2] at hop
      cases hop
  · exact alive_of_stays (stays_pure _)

theorem stays_logicalOr (h : expression.Stays) (hoperand : operand.Stays) :
    (logicalOr expression operand).Stays :=
  stays_leftAssociative ⟨rfl, rfl⟩ _ <| stays_leftAssociative ⟨rfl, rfl⟩ _ <|
    stays_leftAssociative ⟨rfl, rfl⟩ _ <| stays_leftAssociative ⟨rfl, rfl⟩ _ <|
    stays_leftAssociative ⟨rfl, rfl⟩ _ <| stays_leftAssociative ⟨rfl, rfl⟩ _ <|
    stays_unary h hoperand

theorem stays_assignChain (links : List (Nat × Expr)) (target : Expr) :
    (assignChain target links).Stays := by
  induction links generalizing target with
  | nil => exact stays_pure _
  | cons link rest ih =>
    refine stays_bind (ih link.2) fun value => ?_
    split
    · exact stays_pure _
    · exact stays_bind (stays_record _) fun _ => stays_pure _

theorem stays_assignment (h : expression.Stays) (hoperand : operand.Stays) :
    (assignment expression operand).Stays := by
  refine stays_bind (stays_logicalOr h hoperand) fun target => ?_
  refine stays_bind (stays_repeated (fun links => ?_) _) fun links => stays_assignChain _ target
  refine stays_bind (stays_accept? (by decide)) fun token => ?_
  split
  · exact stays_bind (stays_logicalOr h hoperand) fun _ => stays_pure _
  · exact stays_pure _

theorem stays_argValue (h : expression.Stays) : (argValue expression).Stays := by
  have hexpr : (do return ArgValue.expr (← primary expression) : Rule ArgValue).Stays :=
    stays_bind (stays_primary h) fun _ => stays_pure _
  refine stays_peek_bind fun token => ?_
  split <;> rename_i hkind
  case h_1 => exact alive_skip_bind (by rw [hkind]; decide) (stays_pure _)
  case h_2 => exact alive_skip_bind (by rw [hkind]; decide) (stays_pure _)
  case h_9 => exact alive_of_stays (stays_fail _)
  all_goals exact alive_of_stays hexpr

theorem stays_markerName (missing : String → ParseFault) : (markerName missing).Stays := by
  refine stays_bind (stays_accept? (by decide)) fun token => ?_
  split
  · exact stays_pure _
  · exact stays_bind stays_peek fun _ => stays_fail _

theorem stays_atCommandEnd : atCommandEnd.Stays :=
  stays_bind (stays_check _) fun _ => stays_bind stays_atEnd fun _ => stays_pure _

theorem stays_parameterValues (h : expression.Stays) : (parameterValues expression).Stays := by
  refine stays_bind (stays_repeated (fun values => ?_) _) fun _ => stays_pure _
  refine stays_bind stays_atCommandEnd fun ends => stays_bind (stays_check _) fun minus => ?_
  refine stays_ite (stays_pure _) ?_
  refine stays_bind (stays_accept (by decide)) fun comma => stays_ite (stays_pure _) ?_
  exact stays_bind (stays_argValue h) fun _ => stays_pure _

theorem stays_marked (h : expression.Stays) : (marked expression).Stays := by
  refine stays_bind (stays_accept (by decide)) fun minus => stays_ite ?_ ?_
  · refine stays_bind (stays_markerName _) fun name => ?_
    exact stays_bind (stays_parameterValues h) fun _ => stays_pure _
  · exact stays_bind (stays_markerName _) fun _ => stays_pure _

theorem stays_args (h : expression.Stays) : (args expression).Stays := by
  refine stays_bind (stays_repeated (fun args => ?_) _) fun _ => stays_pure _
  refine stays_bind stays_atCommandEnd fun ends => stays_ite (stays_pure _) ?_
  refine stays_bind (stays_accept (by decide)) fun comma => stays_ite (stays_pure _) ?_
  refine stays_bind (stays_accept (by decide)) fun minus => stays_ite ?_ ?_
  · exact stays_bind (stays_marked h) fun _ => stays_pure _
  · exact stays_bind (stays_argValue h) fun _ => stays_pure _

theorem stays_helpTopic : helpTopic.Stays := by
  refine stays_bind stays_atCommandEnd fun ends => stays_ite (stays_pure _) ?_
  refine stays_bind (stays_accept? (by decide)) fun token => ?_
  split
  · exact stays_pure _
  · exact stays_bind stays_peek fun _ => stays_fail _

end Stays

/-! ## What expressions are read as -/

section Parallel

variable {splice : Splice} {expression operand : Rule Expr}

theorem parallel_primary
    (h : splice.Parallel expression expression (·.mapLines splice.lines)) :
    splice.Parallel (primary expression) (primary expression) (·.mapLines splice.lines) := by
  refine parallel_bind parallel_peek fun token => ?_
  simp only [Token.kind_mapLines]
  split
  case h_6 =>
    refine parallel_bind mirrors_skip.parallel fun _ => ?_
    exact parallel_bind parallel_freshId fun id => parallel_pure rfl
  case h_8 =>
    refine parallel_bind mirrors_skip.parallel fun _ => parallel_bind h fun inner => ?_
    exact parallel_bind (parallel_require _ _) fun _ => parallel_pure rfl
  case h_9 => exact parallel_fail _ _ _
  case h_10 => exact parallel_fail _ _ _
  all_goals exact parallel_bind mirrors_skip.parallel fun _ => parallel_pure rfl

theorem parallel_finishCall
    (h : splice.Parallel expression expression (·.mapLines splice.lines)) (callee : Expr) :
    splice.Parallel (finishCall expression callee)
      (finishCall expression (callee.mapLines splice.lines)) (·.mapLines splice.lines) := by
  have hrest : ∀ args : List Expr, splice.Parallel
      (do
        let paren ← require .rightParen "')' after arguments"
        return Expr.call callee args paren.line)
      (do
        let paren ← require .rightParen "')' after arguments"
        return Expr.call (callee.mapLines splice.lines) (args.map (·.mapLines splice.lines))
          paren.line)
      (·.mapLines splice.lines) := by
    intro args
    refine parallel_bind (parallel_require _ _) fun paren => parallel_pure ?_
    simp only [Expr.mapLines, Expr.mapLinesAll_eq]
    rfl
  refine parallel_bind (parallel_check _) fun empty => ?_
  dsimp only [id_eq]
  split
  · exact parallel_bind (g := List.map (·.mapLines splice.lines)) (parallel_pure rfl) hrest
  · exact parallel_bind (parallel_separated h _ _) hrest

theorem parallel_call (h : splice.Parallel expression expression (·.mapLines splice.lines)) :
    splice.Parallel (call expression) (call expression) (·.mapLines splice.lines) := by
  refine parallel_bind (parallel_primary h) fun callee => parallel_repeated ?_ rfl
  rintro callee _ rfl
  refine parallel_bind (parallel_accept _) fun paren => parallel_ite ?_ (parallel_pure rfl)
  exact parallel_bind (parallel_finishCall h callee) fun _ => parallel_pure rfl

theorem parallel_unary (h : splice.Parallel expression expression (·.mapLines splice.lines))
    (hoperand : splice.Parallel operand operand (·.mapLines splice.lines)) :
    splice.Parallel (unary expression operand) (unary expression operand)
      (·.mapLines splice.lines) := by
  refine parallel_bind parallel_peek fun token => ?_
  simp only [Token.kind_mapLines]
  split
  · refine parallel_bind mirrors_skip.parallel fun _ => ?_
    exact parallel_bind hoperand fun _ => parallel_pure rfl
  · exact parallel_call h

theorem parallel_leftAssociative {ω : Type} {operator? : TokenKind → Option ω}
    {node : ω → Expr → Expr → Nat → Expr}
    (hnode : ∀ op left right line, (node op left right line).mapLines splice.lines =
      node op (left.mapLines splice.lines) (right.mapLines splice.lines) (splice.lines line))
    (hoperand : splice.Parallel operand operand (·.mapLines splice.lines)) :
    splice.Parallel (leftAssociative operator? node operand)
      (leftAssociative operator? node operand) (·.mapLines splice.lines) := by
  refine parallel_bind hoperand fun first => parallel_repeated ?_ rfl
  rintro left _ rfl
  refine parallel_bind parallel_peek fun token => ?_
  simp only [Token.kind_mapLines]
  split
  · refine parallel_bind mirrors_skip.parallel fun _ => ?_
    refine parallel_bind hoperand fun right => parallel_pure ?_
    rw [Pass.map, hnode]
    rfl
  · exact parallel_pure rfl

theorem parallel_logicalOr
    (h : splice.Parallel expression expression (·.mapLines splice.lines))
    (hoperand : splice.Parallel operand operand (·.mapLines splice.lines)) :
    splice.Parallel (logicalOr expression operand) (logicalOr expression operand)
      (·.mapLines splice.lines) :=
  have hbinary : ∀ op left right line, (Expr.binary op left right line).mapLines splice.lines =
      .binary op (left.mapLines splice.lines) (right.mapLines splice.lines)
        (splice.lines line) := fun _ _ _ _ => rfl
  have hlogical : ∀ op left right line, (Expr.logical op left right line).mapLines splice.lines =
      .logical op (left.mapLines splice.lines) (right.mapLines splice.lines)
        (splice.lines line) := fun _ _ _ _ => rfl
  parallel_leftAssociative hlogical <| parallel_leftAssociative hlogical <|
    parallel_leftAssociative hbinary <| parallel_leftAssociative hbinary <|
    parallel_leftAssociative hbinary <| parallel_leftAssociative hbinary <|
    parallel_unary h hoperand

/-- The links of a chain of assignments on other lines. -/
def mapLinks (f : Nat → Nat) (links : List (Nat × Expr)) : List (Nat × Expr) :=
  links.map fun link => (f link.1, link.2.mapLines f)

theorem parallel_assignChain (links : List (Nat × Expr)) (target : Expr) :
    splice.Parallel (assignChain target links)
      (assignChain (target.mapLines splice.lines) (mapLinks splice.lines links))
      (·.mapLines splice.lines) := by
  induction links generalizing target with
  | nil => exact parallel_pure rfl
  | cons link rest ih =>
    refine parallel_bind (ih link.2) fun value => ?_
    cases target with
    | «variable» id name nameLine => exact parallel_pure rfl
    | _ => exact parallel_record _ _ _

theorem parallel_assignment
    (h : splice.Parallel expression expression (·.mapLines splice.lines))
    (hoperand : splice.Parallel operand operand (·.mapLines splice.lines)) :
    splice.Parallel (assignment expression operand) (assignment expression operand)
      (·.mapLines splice.lines) := by
  refine parallel_bind (parallel_logicalOr h hoperand) fun target => ?_
  refine parallel_bind
    (g := Array.map fun link => (splice.lines link.1, link.2.mapLines splice.lines))
    (parallel_repeated ?_ (by simp)) fun links => ?_
  · rintro links _ rfl
    refine parallel_bind (parallel_accept? _) fun token => ?_
    cases token with
    | none => exact parallel_pure rfl
    | some token =>
      refine parallel_bind (parallel_logicalOr h hoperand) fun value => parallel_pure ?_
      simp [Pass.map, Token.mapLines]
  · rw [Array.toList_map]
    exact parallel_assignChain links.toList target

/-! ## What arguments are read as -/

theorem parallel_argValue (h : splice.Parallel expression expression (·.mapLines splice.lines)) :
    splice.Parallel (argValue expression) (argValue expression) (·.mapLines splice.lines) := by
  have hexpr : splice.Parallel (do return ArgValue.expr (← primary expression))
      (do return ArgValue.expr (← primary expression)) (·.mapLines splice.lines) :=
    parallel_bind (parallel_primary h) fun _ => parallel_pure rfl
  refine parallel_bind parallel_peek fun token => ?_
  simp only [Token.kind_mapLines]
  split
  case h_1 => exact parallel_bind mirrors_skip.parallel fun _ => parallel_pure rfl
  case h_2 => exact parallel_bind mirrors_skip.parallel fun _ => parallel_pure rfl
  case h_9 => exact parallel_fail _ _ _
  all_goals exact hexpr

theorem parallel_markerName (missing : String → ParseFault) :
    splice.Parallel (markerName missing) (markerName missing) id := by
  refine parallel_bind (parallel_accept? _) fun token => ?_
  cases token with
  | some token => exact parallel_pure rfl
  | none => exact parallel_bind parallel_peek fun _ => parallel_fail _ _ _

theorem parallel_atCommandEnd : splice.Parallel atCommandEnd atCommandEnd id :=
  parallel_bind (parallel_check _) fun _ => parallel_bind parallel_atEnd fun _ =>
    parallel_pure rfl

theorem parallel_parameterValues
    (h : splice.Parallel expression expression (·.mapLines splice.lines)) :
    splice.Parallel (parameterValues expression) (parameterValues expression)
      (List.map (·.mapLines splice.lines)) := by
  refine parallel_bind (g := Array.map (·.mapLines splice.lines))
    (parallel_repeated ?_ (by simp)) fun values => parallel_pure (by simp)
  rintro values _ rfl
  refine parallel_bind parallel_atCommandEnd fun ends => ?_
  refine parallel_bind (parallel_check _) fun minus => parallel_ite (parallel_pure rfl) ?_
  refine parallel_bind (parallel_accept _) fun comma => parallel_ite (parallel_pure rfl) ?_
  exact parallel_bind (parallel_argValue h) fun value => parallel_pure (by simp [Pass.map])

theorem parallel_marked (h : splice.Parallel expression expression (·.mapLines splice.lines)) :
    splice.Parallel (marked expression) (marked expression) (·.mapLines splice.lines) := by
  refine parallel_bind (parallel_accept _) fun minus => parallel_ite ?_ ?_
  · refine parallel_bind (parallel_markerName _) fun name => ?_
    exact parallel_bind (parallel_parameterValues h) fun values => parallel_pure rfl
  · exact parallel_bind (parallel_markerName _) fun name => parallel_pure rfl

theorem parallel_args (h : splice.Parallel expression expression (·.mapLines splice.lines)) :
    splice.Parallel (args expression) (args expression) (List.map (·.mapLines splice.lines)) := by
  refine parallel_bind (g := Array.map (·.mapLines splice.lines))
    (parallel_repeated ?_ (by simp)) fun args => parallel_pure (by simp)
  rintro args _ rfl
  refine parallel_bind parallel_atCommandEnd fun ends => parallel_ite (parallel_pure rfl) ?_
  refine parallel_bind (parallel_accept _) fun comma => parallel_ite (parallel_pure rfl) ?_
  refine parallel_bind (parallel_accept _) fun minus => parallel_ite ?_ ?_
  · exact parallel_bind (parallel_marked h) fun arg => parallel_pure (by simp [Pass.map])
  · exact parallel_bind (parallel_argValue h) fun value =>
      parallel_pure (by simp [Pass.map, Arg.mapLines])

theorem parallel_helpTopic : splice.Parallel helpTopic helpTopic id := by
  refine parallel_bind parallel_atCommandEnd fun ends => parallel_ite (parallel_pure rfl) ?_
  refine parallel_bind (parallel_accept? _) fun token => ?_
  cases token with
  | some token => exact parallel_pure rfl
  | none => exact parallel_bind parallel_peek fun _ => parallel_fail _ _ _

end Parallel

end CommandScript.Grammar
