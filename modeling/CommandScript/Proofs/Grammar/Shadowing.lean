import CommandScript.Grammar.Program

/-!
# Rules that do the same up to a fault

Two rules may differ only where one of them meets a fault of a certain kind: this stops the
rule, or it is recorded and stays recorded. Everything else that they do is the same. This
carries over from the rules that a rule is made of to the rule itself.

* `Rule.Meets`: a run with such a fault.
* `Rule.Shadows`: a rule does the same as another one, or it meets such a fault.
* `shadows_assignment`, `shadows_statement`: the rules of the grammar.
-/

namespace CommandScript.Grammar

open Rule

namespace Rule

variable {α β : Type} {kind : Located ParseFault → Prop}

/-- A fault of the kind has stopped the rule, or it was recorded. -/
def Meets (kind : Located ParseFault → Prop) (ended : Except (Located ParseFault) α × Cursor) :
    Prop :=
  ∃ fault, kind fault ∧ (ended.1 = .error fault ∨ fault ∈ ended.2.faults)

/-- The rule does the same as the other one, unless it meets a fault of the kind. -/
def Shadows (kind : Located ParseFault → Prop) (rule other : Rule α) : Prop :=
  ∀ cursor, rule.run cursor = other.run cursor ∨ Meets kind (rule.run cursor)

theorem shadows_refl (rule : Rule α) : rule.Shadows kind rule := fun _ => .inl rfl

/-- Recorded faults stay recorded. -/
theorem mem_faults_of_leadsTo {cursor after : Cursor} {fault : Located ParseFault}
    (hleads : cursor.LeadsTo after) (h : fault ∈ cursor.faults) : fault ∈ after.faults :=
  Array.mem_toList_iff.mp (hleads.faults.subset (Array.mem_toList_iff.mpr h))

theorem mem_faults_bind {rule : Rule α} {next : α → Rule β} {cursor : Cursor}
    {fault : Located ParseFault} (h : fault ∈ (rule.run cursor).2.faults) :
    fault ∈ ((rule >>= next).run cursor).2.faults := by
  rw [run_bind]
  revert h
  generalize rule.run cursor = ended
  obtain ⟨result, after⟩ := ended
  intro h
  cases result with
  | ok a => exact mem_faults_of_leadsTo ((next a).advances after) h
  | error _ => exact h

theorem shadows_bind {rule wider : Rule α} {next more : α → Rule β}
    (h : rule.Shadows kind wider) (hnext : ∀ a, (next a).Shadows kind (more a)) :
    (rule >>= next).Shadows kind (wider >>= more) := by
  intro cursor
  rcases h cursor with hsame | ⟨fault, hkind, hstopped | hrecorded⟩
  · rw [run_bind, run_bind, ← hsame]
    generalize rule.run cursor = ended
    obtain ⟨result, after⟩ := ended
    cases result with
    | ok a => exact hnext a after
    | error fault => exact .inl rfl
  · refine .inr ⟨fault, hkind, .inl ?_⟩
    rw [run_bind]
    revert hstopped
    generalize rule.run cursor = ended
    obtain ⟨result, after⟩ := ended
    rintro rfl
    rfl
  · exact .inr ⟨fault, hkind, .inr (mem_faults_bind hrecorded)⟩

theorem shadows_after {rule : Rule α} {next more : α → Rule β}
    (hnext : ∀ a, (next a).Shadows kind (more a)) :
    (rule >>= next).Shadows kind (rule >>= more) :=
  shadows_bind (shadows_refl rule) hnext

theorem shadows_then {rule wider : Rule α} (h : rule.Shadows kind wider) (next : α → Rule β) :
    (rule >>= next).Shadows kind (wider >>= next) :=
  shadows_bind h fun a => shadows_refl (next a)

theorem shadows_map {rule wider : Rule α} (h : rule.Shadows kind wider) (f : α → β) :
    (f <$> rule).Shadows kind (f <$> wider) :=
  shadows_then h fun a => pure (f a)

theorem shadows_ite {condition : Prop} [Decidable condition] {rule wider other more : Rule α}
    (h : rule.Shadows kind wider) (hother : other.Shadows kind more) :
    (if condition then rule else other).Shadows kind (if condition then wider else more) := by
  split
  · exact h
  · exact hother

/-- Two ways to go on that come together again. -/
theorem shadows_choice {condition : Prop} [Decidable condition] {rule wider other more : Rule α}
    {next last : α → Rule β} (h : rule.Shadows kind wider) (hother : other.Shadows kind more)
    (hnext : ∀ a, (next a).Shadows kind (last a)) :
    (if condition then rule >>= next else other >>= next).Shadows kind
      (if condition then wider >>= last else more >>= last) :=
  shadows_ite (shadows_bind h hnext) (shadows_bind hother hnext)

theorem mem_faults_repeated {pass : α → Rule (Pass α)} {state : α} {cursor : Cursor}
    {fault : Located ParseFault} (h : fault ∈ ((pass state).run cursor).2.faults) :
    fault ∈ ((repeated pass state).run cursor).2.faults := by
  rw [run_repeated]
  revert h
  generalize (pass state).run cursor = ended
  obtain ⟨result, after⟩ := ended
  intro h
  match result with
  | .error _ => exact h
  | .ok (.last last) => exact h
  | .ok (.again next) =>
    dsimp only
    split
    · exact mem_faults_of_leadsTo ((repeated pass next).advances after) h
    · exact h

theorem shadows_repeated {pass wide : α → Rule (Pass α)}
    (hpass : ∀ state, (pass state).Shadows kind (wide state)) (state : α) :
    (repeated pass state).Shadows kind (repeated wide state) := by
  intro cursor
  induction hlength : cursor.rest.length using Nat.strongRecOn generalizing state cursor with
  | _ length ih =>
    subst hlength
    have hadvances := (pass state).advances cursor
    rcases hpass state cursor with hsame | ⟨fault, hkind, hstopped | hrecorded⟩
    · rw [run_repeated, run_repeated, ← hsame]
      revert hadvances
      generalize (pass state).run cursor = ended
      obtain ⟨result, after⟩ := ended
      intro hadvances
      match result with
      | .error fault => exact .inl rfl
      | .ok (.last last) => exact .inl rfl
      | .ok (.again next) =>
        dsimp only
        split
        · rename_i hlt
          exact ih _ (hadvances.length_lt hlt) next after rfl
        · exact .inl rfl
    · refine .inr ⟨fault, hkind, .inl ?_⟩
      rw [run_repeated]
      revert hstopped
      generalize (pass state).run cursor = ended
      obtain ⟨result, after⟩ := ended
      rintro rfl
      rfl
    · exact .inr ⟨fault, hkind, .inr (mem_faults_repeated hrecorded)⟩

theorem shadows_recover {rule wider : Rule α} (h : rule.Shadows kind wider) :
    rule.recover.Shadows kind wider.recover := by
  intro cursor
  have hfirst := h cursor
  unfold recover
  dsimp only
  revert hfirst
  generalize rule.run cursor = ended
  obtain ⟨result, after⟩ := ended
  rintro (hsame | ⟨fault, hkind, hstopped | hrecorded⟩)
  · exact .inl (by rw [← hsame])
  · obtain rfl : result = _ := hstopped
    exact .inr ⟨fault, hkind, .inr (Array.mem_push_self ..)⟩
  · refine .inr ⟨fault, hkind, .inr ?_⟩
    cases result with
    | ok a => exact hrecorded
    | error _ => exact Array.mem_push_of_mem _ hrecorded

end Rule

/-! ## Expressions -/

section Expressions

variable {kind : Located ParseFault → Prop} {expression operand wider more : Rule Expr}

theorem shadows_primary (h : expression.Shadows kind wider) :
    (primary expression).Shadows kind (primary wider) := by
  refine shadows_after fun token => ?_
  split
  case h_8 => exact shadows_after fun _ => shadows_then h _
  all_goals exact shadows_refl _

theorem shadows_separated {α : Type} {item wider : Rule α} (h : item.Shadows kind wider)
    (maxItems : Nat) (tooMany : ParseFault) :
    (separated maxItems tooMany item).Shadows kind (separated maxItems tooMany wider) := by
  refine shadows_bind h fun first => shadows_then (shadows_repeated (fun items => ?_) _) _
  refine shadows_after fun _ => shadows_ite ?_ (shadows_refl _)
  exact shadows_ite (shadows_after fun _ => shadows_after fun _ => shadows_then h _)
    (shadows_then h _)

theorem shadows_finishCall (h : expression.Shadows kind wider) (callee : Expr) :
    (finishCall expression callee).Shadows kind (finishCall wider callee) :=
  shadows_after fun _ => shadows_ite (shadows_refl _) (shadows_then (shadows_separated h _ _) _)

theorem shadows_call (h : expression.Shadows kind wider) :
    (call expression).Shadows kind (call wider) := by
  refine shadows_bind (shadows_primary h) fun callee => shadows_repeated (fun callee => ?_) callee
  exact shadows_after fun _ =>
    shadows_ite (shadows_then (shadows_finishCall h callee) _) (shadows_refl _)

theorem shadows_unary (h : expression.Shadows kind wider) (hoperand : operand.Shadows kind more) :
    (unary expression operand).Shadows kind (unary wider more) := by
  refine shadows_after fun token => ?_
  split
  · exact shadows_after fun _ => shadows_then hoperand _
  · exact shadows_call h

theorem shadows_leftAssociative {ω : Type} (operator? : TokenKind → Option ω)
    (node : ω → Expr → Expr → Nat → Expr) (h : operand.Shadows kind more) :
    (leftAssociative operator? node operand).Shadows kind
      (leftAssociative operator? node more) := by
  refine shadows_bind h fun first =>
    shadows_repeated (fun left => shadows_after fun token => ?_) first
  split
  · exact shadows_after fun _ => shadows_then h _
  · exact shadows_refl _

theorem shadows_logicalOr (h : expression.Shadows kind wider)
    (hoperand : operand.Shadows kind more) :
    (logicalOr expression operand).Shadows kind (logicalOr wider more) :=
  shadows_leftAssociative _ _ <| shadows_leftAssociative _ _ <| shadows_leftAssociative _ _ <|
    shadows_leftAssociative _ _ <| shadows_leftAssociative _ _ <| shadows_leftAssociative _ _ <|
    shadows_unary h hoperand

theorem shadows_assignment (h : expression.Shadows kind wider)
    (hoperand : operand.Shadows kind more) :
    (assignment expression operand).Shadows kind (assignment wider more) := by
  refine shadows_bind (shadows_logicalOr h hoperand) fun target =>
    shadows_then (shadows_repeated (fun links => shadows_after fun _ => ?_) _) _
  split
  · exact shadows_then (shadows_logicalOr h hoperand) _
  · exact shadows_refl _

end Expressions

/-! ## Commands -/

section Commands

variable {kind : Located ParseFault → Prop} {expression wider : Rule Expr}

theorem shadows_argValue (h : expression.Shadows kind wider) :
    (argValue expression).Shadows kind (argValue wider) := by
  refine shadows_after fun token => ?_
  split
  case h_1 | h_2 | h_9 => exact shadows_refl _
  all_goals exact shadows_then (shadows_primary h) _

theorem shadows_parameterValues (h : expression.Shadows kind wider) :
    (parameterValues expression).Shadows kind (parameterValues wider) := by
  refine shadows_then (shadows_repeated (fun values => ?_) _) _
  refine shadows_after fun _ => shadows_after fun _ => shadows_ite (shadows_refl _) ?_
  exact shadows_after fun _ => shadows_ite (shadows_refl _) (shadows_then (shadows_argValue h) _)

theorem shadows_marked (h : expression.Shadows kind wider) :
    (marked expression).Shadows kind (marked wider) :=
  shadows_after fun _ => shadows_ite
    (shadows_after fun _ => shadows_then (shadows_parameterValues h) _) (shadows_refl _)

theorem shadows_args (h : expression.Shadows kind wider) :
    (args expression).Shadows kind (args wider) := by
  refine shadows_then (shadows_repeated (fun given => ?_) _) _
  refine shadows_after fun _ => shadows_ite (shadows_refl _) ?_
  refine shadows_after fun _ => shadows_ite (shadows_refl _) ?_
  exact shadows_after fun _ => shadows_ite (shadows_then (shadows_marked h) _)
    (shadows_then (shadows_argValue h) _)

theorem shadows_command (h : expression.Shadows kind wider) (word : Token) :
    (command expression word).Shadows kind (command wider word) :=
  shadows_ite (shadows_refl _) (shadows_ite (shadows_refl _) (shadows_then (shadows_args h) _))

end Commands

/-! ## Statements -/

section Statements

variable {kind : Located ParseFault → Prop} {inner more : Nested} {mode other : InputMode}

/-- The rules of one level do the same as others, unless one of them meets such a fault. -/
structure Nested.Shadows (kind : Located ParseFault → Prop) (inner more : Nested) : Prop where
  expression : inner.expression.Shadows kind more.expression
  operand : inner.operand.Shadows kind more.operand
  statement : inner.statement.Shadows kind more.statement
  block : inner.block.Shadows kind more.block

theorem shadows_variableDeclaration (h : inner.Shadows kind more) :
    (variableDeclaration inner).Shadows kind (variableDeclaration more) :=
  shadows_after fun _ => shadows_after fun _ =>
    shadows_ite (shadows_then (shadows_map h.expression _) _) (shadows_refl _)

theorem shadows_functionDeclaration (h : inner.Shadows kind more) :
    (functionDeclaration inner).Shadows kind (functionDeclaration more) :=
  shadows_after fun _ => shadows_after fun _ => shadows_after fun _ =>
    shadows_choice (shadows_refl _) (shadows_refl _) fun _ => shadows_after fun _ =>
      shadows_after fun _ => shadows_then h.block _

theorem shadows_expressionStatement (h : inner.Shadows kind more) :
    (expressionStatement inner).Shadows kind (expressionStatement more) :=
  shadows_after fun _ => shadows_then h.expression _

theorem shadows_forInitializer (h : inner.Shadows kind more) :
    (forInitializer inner).Shadows kind (forInitializer more) :=
  shadows_after fun _ => shadows_ite (shadows_refl _) <| shadows_after fun _ =>
    shadows_ite (shadows_then (shadows_variableDeclaration h) _)
      (shadows_then (shadows_expressionStatement h) _)

theorem shadows_forStatement (h : inner.Shadows kind more) (line : Nat) :
    (forStatement inner line).Shadows kind (forStatement more line) := by
  refine shadows_after fun _ => shadows_bind (shadows_forInitializer h) fun _ =>
    shadows_after fun _ => ?_
  refine shadows_choice (shadows_refl _) h.expression fun _ => ?_
  refine shadows_after fun _ => shadows_after fun _ => ?_
  refine shadows_choice (shadows_refl _) (shadows_map h.expression some) fun _ => ?_
  exact shadows_after fun _ => shadows_then h.statement _

theorem shadows_ifStatement (h : inner.Shadows kind more) (line : Nat) :
    (ifStatement inner line).Shadows kind (ifStatement more line) := by
  refine shadows_after fun _ => shadows_bind h.expression fun _ => shadows_after fun _ => ?_
  refine shadows_bind h.statement fun _ => shadows_after fun _ => ?_
  exact shadows_ite (shadows_then (shadows_map h.statement some) _) (shadows_refl _)

theorem shadows_whileStatement (h : inner.Shadows kind more) (line : Nat) :
    (whileStatement inner line).Shadows kind (whileStatement more line) :=
  shadows_after fun _ => shadows_bind h.expression fun _ => shadows_after fun _ =>
    shadows_then h.statement _

/-- Printing may end in two ways. -/
theorem shadows_printStatement (h : inner.Shadows kind more)
    (hend : (endStatement (mode = .command)).Shadows kind (endStatement (other = .command)))
    (line : Nat) : (printStatement inner mode line).Shadows kind (printStatement more other line) :=
  shadows_bind h.expression fun _ => shadows_then hend _

theorem shadows_returnStatement (h : inner.Shadows kind more) (line : Nat) :
    (returnStatement inner line).Shadows kind (returnStatement more line) :=
  shadows_after fun _ => shadows_ite (shadows_refl _)
    (shadows_then (shadows_map h.expression some) _)

theorem shadows_statement (h : inner.Shadows kind more)
    (hend : (endStatement (mode = .command)).Shadows kind (endStatement (other = .command))) :
    (statement inner mode).Shadows kind (statement more other) := by
  refine shadows_after fun token => ?_
  split
  case h_1 => exact shadows_after fun _ => shadows_forStatement h _
  case h_2 => exact shadows_after fun _ => shadows_ifStatement h _
  case h_3 => exact shadows_after fun _ => shadows_printStatement h hend _
  case h_4 => exact shadows_after fun _ => shadows_returnStatement h _
  case h_5 => exact shadows_after fun _ => shadows_whileStatement h _
  case h_6 => exact shadows_after fun _ => shadows_map h.block _
  case h_7 => exact shadows_after fun _ => shadows_map (shadows_command h.expression _) _
  case h_8 => exact shadows_expressionStatement h

/-- What a declaration is read by, faults apart. -/
def declared (inner : Nested) : Rule Stmt := do
  if ← accept .funWord then return ← functionDeclaration inner
  if ← accept .varWord then return ← variableDeclaration inner
  inner.statement

theorem shadows_declared (h : inner.Shadows kind more) :
    (declared inner).Shadows kind (declared more) :=
  shadows_after fun _ => shadows_ite (shadows_functionDeclaration h) <|
    shadows_after fun _ => shadows_ite (shadows_variableDeclaration h) h.statement

theorem shadows_declaration (h : inner.Shadows kind more) :
    (declaration inner).Shadows kind (declaration more) :=
  shadows_recover (shadows_declared h)

/-- A pass over the declarations of a body, read by the given rule. -/
def bodyPass (test : Rule Bool) (item : Rule (Option Stmt)) (body : Array Stmt) :
    Rule (Pass (Array Stmt)) := do
  if ← test then return .last body
  match ← item with
  | some stmt => return .again (body.push stmt)
  | none => return .again body

theorem shadows_bodyPass (test : Rule Bool) {item wider : Rule (Option Stmt)}
    (h : item.Shadows kind wider) (body : Array Stmt) :
    (bodyPass test item body).Shadows kind (bodyPass test wider body) :=
  shadows_after fun _ => shadows_ite (shadows_refl _) (shadows_then h _)

/-- Whether a block ends where the cursor stands. -/
def atBlockEnd : Rule Bool := do return (← check .rightBrace) || (← atEnd)

theorem shadows_blockBody (h : inner.Shadows kind more) :
    (blockBody inner).Shadows kind (blockBody more) :=
  shadows_then (shadows_repeated (shadows_bodyPass atBlockEnd (shadows_declaration h)) #[]) _

end Statements

end CommandScript.Grammar
