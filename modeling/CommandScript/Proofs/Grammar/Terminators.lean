import CommandScript.Proofs.Grammar.Arguments
import CommandScript.Proofs.Grammar.Composition
import CommandScript.Proofs.Grammar.Supplying
import CommandScript.Proofs.Syntax.Equality

/-!
# The end of a line that is typed

The two modes differ in the end of a `print`: at a prompt its `;` may be left out where the
tokens end. So a script without faults is read the same at a prompt, and what is read at a
prompt is read in a script, if need be with one more `;` at its end. Such a `print` may stand in
the branch of an `if` or in the body of a loop, but in no block, for which a brace would be
missing behind it.

* `shadows_modes`: at a prompt all is read as in a script, faults of the script apart.
* `followed_expression`: an expression is the same before a `;`.
* `supplies_nested`: a script accepts what is accepted at a prompt, with a `;` supplied.
* `parse_command_mode`: programs in the two modes.
-/

namespace CommandScript

open Grammar Rule

/-- The tokens with another one before the end of the input. -/
def suppliedWith (mark : Token) (tokens : List Token) : List Token :=
  tokens.takeWhile (·.kind ≠ .endOfInput) ++ mark :: tokens.dropWhile (·.kind ≠ .endOfInput)

namespace Grammar

/-! ## From a script to a prompt -/

/-- Any fault at all. -/
def AnyFault (_ : Located ParseFault) : Prop := True

/-- Without faults the other rule does the same. -/
theorem Rule.Shadows.run_eq {α : Type} {rule other : Rule α} (h : rule.Shadows AnyFault other)
    {cursor after : Cursor} {a : α} (hrun : rule.run cursor = (.ok a, after))
    (hfaults : after.faults = #[]) : rule.run cursor = other.run cursor := by
  rcases h cursor with hsame | ⟨fault, -, hstopped | hrecorded⟩
  · exact hsame
  · rw [hrun] at hstopped
    cases hstopped
  · rw [hrun, hfaults] at hrecorded
    exact absurd hrecorded (Array.not_mem_empty fault)

theorem shadows_endStatement : (endStatement false).Shadows AnyFault (endStatement true) := by
  refine shadows_after fun closed => shadows_ite (shadows_refl _) fun cursor => .inr ?_
  have hexpected : ∃ fault, ((expected "';'" : Rule Unit).run cursor).1 = .error fault := by
    unfold expected
    rw [run_bind]
    dsimp only [peek]
    split <;> exact ⟨_, rfl⟩
  obtain ⟨fault, hfault⟩ := hexpected
  exact ⟨fault, trivial, .inl hfault⟩

/-- At a prompt the rules do the same, unless they meet a fault in a script. -/
theorem shadows_modes (levels : Nat) :
    (nested .script levels).Shadows AnyFault (nested .command levels) := by
  induction levels with
  | zero => exact ⟨shadows_refl _, shadows_refl _, shadows_refl _, shadows_refl _⟩
  | succ levels ih =>
    exact ⟨shadows_assignment ih.expression ih.operand, shadows_unary ih.expression ih.operand,
      shadows_statement ih shadows_endStatement, shadows_blockBody ih⟩

theorem shadows_program : (program .script).Shadows AnyFault (program .command) := by
  have hdeclaration := shadows_declaration (shadows_modes maxNesting)
  exact shadows_then (shadows_repeated (shadows_bodyPass atEnd hdeclaration) #[]) _

/-! ## Expressions before a `;` -/

/-- Expressions do not depend on the mode. -/
theorem nested_expression (mode other : InputMode) (levels : Nat) :
    (nested mode levels).expression = (nested other levels).expression ∧
      (nested mode levels).operand = (nested other levels).operand := by
  induction levels with
  | zero => exact ⟨rfl, rfl⟩
  | succ levels ih =>
    simp [nested, ih.1, ih.2]

/-- An expression has a token, and a `;` behind the tokens does not go on with it. -/
theorem followed_expression {expression : Rule Expr} {levels : Nat}
    (h : expression.ReadsExpr 0 levels) {cursor after : Cursor} {expr : Expr} {mark : Token}
    (hmark : mark.kind = .semicolon) (hcursor : cursor.Bounded)
    (haccepts : expression.Accepts cursor expr after) :
    cursor.rest ≠ [] ∧ expression.Accepts (cursor.followed mark) expr (after.followed mark) := by
  obtain ⟨hexpr, hstops⟩ := (h cursor expr after hcursor).mp haccepts
  obtain ⟨tokens, hpasses, hspelled⟩ := hexpr.tokens
  have hpeek : (after.followed mark).peek.kind.Stops 0 := by
    by_cases hleft : after.rest = []
    · rw [(Cursor.passes_followed hleft mark).peek, hmark]
      exact TokenKind.stops_zero.mpr rfl
    · rw [Cursor.followed, Cursor.peek_extended hleft]
      exact hstops
  constructor
  · obtain ⟨first, rest, rfl, -⟩ := hspelled.begins
    rw [hpasses.rest]
    exact List.cons_ne_nil _ _
  · have hexpr' : expr.Between 0 levels (cursor.followed mark) (after.followed mark) :=
      { hexpr with tokens := ⟨tokens, hpasses.followed mark, hspelled⟩ }
    exact (h _ expr _ (hcursor.followed mark)).mpr ⟨hexpr', hpeek⟩

/-! ## From a prompt to a script -/

/-- The rules of one level accept the same as others, once the mark is supplied. -/
structure Nested.Supplies (mark : Token) (inner more : Nested) : Prop where
  expression : inner.expression = more.expression
  statement : inner.statement.Supplies mark more.statement
  block : inner.block.Supplies mark more.block
  nearsighted : more.Nearsighted

section Statements

variable {inner more : Nested} {mark : Token} {levels : Nat}

/-- The `;` behind a `print` is the one that is supplied. -/
theorem supplies_printStatement (h : inner.expression = more.expression)
    (hreads : more.expression.ReadsExpr 0 levels) (hmark : mark.kind = .semicolon) (line : Nat) :
    (printStatement inner .command line).Supplies mark (printStatement more .script line) := by
  intro cursor stmt after hcursor haccepts
  unfold printStatement at haccepts ⊢
  rw [h] at haccepts
  obtain ⟨expr, middle, hexpr, hrest⟩ := accepts_bind.mp haccepts
  obtain ⟨_, last, hended, hpure⟩ := accepts_bind.mp hrest
  obtain ⟨rfl, rfl⟩ := accepts_pure.mp hpure
  have hmiddle := hexpr.bounded hcursor
  obtain ⟨ending, hpasses, hends⟩ := (accepts_endCommand hmiddle).mp hended
  rcases hends with ⟨semicolon, hkind, rfl⟩ | ⟨rfl, hempty⟩
  · obtain ⟨_, hclosed⟩ :=
      (ends_endStatement middle after hmiddle).mpr ⟨semicolon, hkind, hpasses⟩
    exact .inl (accepts_bind.mpr ⟨expr, middle, hexpr,
      accepts_bind.mpr ⟨(), after, hclosed, accepts_pure.mpr ⟨rfl, rfl⟩⟩⟩)
  · obtain rfl := hpasses.eq_of_nil
    obtain ⟨hleft, hthere⟩ := followed_expression hreads hmark hcursor hexpr
    obtain ⟨_, hclosed⟩ := (ends_endStatement _ after.past (hmiddle.followed mark)).mpr
      ⟨mark, hmark, Cursor.passes_followed hempty mark⟩
    exact .inr ⟨hleft, hempty, accepts_bind.mpr ⟨expr, after.followed mark, hthere,
      accepts_bind.mpr ⟨(), after.past, hclosed, accepts_pure.mpr ⟨rfl, rfl⟩⟩⟩⟩

theorem variableDeclaration_eq (h : inner.expression = more.expression) :
    variableDeclaration inner = variableDeclaration more := by
  unfold variableDeclaration
  rw [h]

theorem expressionStatement_eq (h : inner.expression = more.expression) :
    expressionStatement inner = expressionStatement more := by
  unfold expressionStatement
  rw [h]

theorem forInitializer_eq (h : inner.expression = more.expression) :
    forInitializer inner = forInitializer more := by
  unfold forInitializer
  rw [variableDeclaration_eq h, expressionStatement_eq h]

theorem returnStatement_eq (h : inner.expression = more.expression) (line : Nat) :
    returnStatement inner line = returnStatement more line := by
  unfold returnStatement
  rw [h]

theorem supplies_functionDeclaration (h : inner.Supplies mark more) :
    (functionDeclaration inner).Supplies mark (functionDeclaration more) := by
  refine supplies_after (nearsighted_require _ _) fun name =>
    supplies_after (nearsighted_require _ _) fun _ =>
      supplies_after (nearsighted_check _) fun _ => ?_
  refine supplies_choice (nearsighted_pure _) (nearsighted_separated nearsighted_parameter _ _)
    fun params => ?_
  refine supplies_after (nearsighted_require _ _) fun _ =>
    supplies_after (nearsighted_require _ _) fun _ => ?_
  exact supplies_then h.block fun _ => ⟨_, rfl⟩

theorem supplies_forStatement (h : inner.Supplies mark more) (line : Nat) :
    (forStatement inner line).Supplies mark (forStatement more line) := by
  have hexpression := h.nearsighted.expression
  unfold forStatement
  rw [h.expression, forInitializer_eq h.expression]
  refine supplies_after (nearsighted_require _ _) fun _ =>
    supplies_after (nearsighted_forInitializer h.nearsighted) fun initializer =>
      supplies_after (nearsighted_check _) fun _ => ?_
  refine supplies_choice (nearsighted_pure _) hexpression fun condition => ?_
  refine supplies_after (nearsighted_require _ _) fun _ =>
    supplies_after (nearsighted_check _) fun _ => ?_
  refine supplies_choice (nearsighted_pure _) (nearsighted_map hexpression) fun increment => ?_
  refine supplies_after (nearsighted_require _ _) fun _ => ?_
  exact supplies_then h.statement fun _ => ⟨_, rfl⟩

theorem supplies_ifStatement (h : inner.Supplies mark more) (line : Nat) :
    (ifStatement inner line).Supplies mark (ifStatement more line) := by
  unfold ifStatement
  rw [h.expression]
  refine supplies_after (nearsighted_require _ _) fun _ =>
    supplies_after h.nearsighted.expression fun _ =>
      supplies_after (nearsighted_require _ _) fun _ => ?_
  -- no `else` comes behind a branch that misses its end
  refine supplies_bind h.statement h.nearsighted.statement (fun _ => ?_) fun _ => ?_
  · refine supplies_after (nearsighted_accept _) fun _ => supplies_ite ?_ (supplies_refl _)
    exact supplies_then (supplies_map h.statement some) fun _ => ⟨_, rfl⟩
  · exact rests_accept (by decide) (rests_pure _)

theorem supplies_whileStatement (h : inner.Supplies mark more) (line : Nat) :
    (whileStatement inner line).Supplies mark (whileStatement more line) := by
  unfold whileStatement
  rw [h.expression]
  refine supplies_after (nearsighted_require _ _) fun _ =>
    supplies_after h.nearsighted.expression fun condition =>
      supplies_after (nearsighted_require _ _) fun _ => ?_
  exact supplies_then h.statement fun _ => ⟨_, rfl⟩

theorem supplies_statement (h : inner.Supplies mark more)
    (hreads : more.expression.ReadsExpr 0 levels) (hmark : mark.kind = .semicolon) :
    (statement inner .command).Supplies mark (statement more .script) := by
  refine supplies_after nearsighted_peek fun token => ?_
  split
  case h_1 => exact supplies_after nearsighted_skip fun _ => supplies_forStatement h _
  case h_2 => exact supplies_after nearsighted_skip fun _ => supplies_ifStatement h _
  case h_3 =>
    exact supplies_after nearsighted_skip fun _ =>
      supplies_printStatement h.expression hreads hmark _
  case h_4 =>
    rw [returnStatement_eq h.expression]
    exact supplies_refl _
  case h_5 => exact supplies_after nearsighted_skip fun _ => supplies_whileStatement h _
  case h_6 => exact supplies_after nearsighted_skip fun _ => supplies_map h.block _
  case h_7 =>
    rw [h.expression]
    exact supplies_refl _
  case h_8 =>
    rw [expressionStatement_eq h.expression]
    exact supplies_refl _

theorem supplies_declared (h : inner.Supplies mark more) :
    (declared inner).Supplies mark (declared more) := by
  refine supplies_after (nearsighted_accept _) fun _ => ?_
  refine supplies_ite (supplies_functionDeclaration h) ?_
  refine supplies_after (nearsighted_accept _) fun _ => supplies_ite ?_ h.statement
  rw [variableDeclaration_eq h.expression]
  exact supplies_refl _

theorem supplies_declaration (h : inner.Supplies mark more) :
    (declaration inner).Supplies mark (declaration more) :=
  supplies_recover (supplies_declared h)

theorem supplies_body (h : inner.Supplies mark more) {test : Rule Bool} (htest : test.Nearsighted)
    (hends : EndsBody test) (body : Array Stmt) :
    (repeated (bodyPass test (declaration inner)) body).Supplies mark
      (repeated (bodyPass test (declaration more)) body) :=
  supplies_repeated (supplies_bodyPass htest (supplies_declaration h))
    (nearsighted_bodyPass htest (nearsighted_declaration h.nearsighted))
    (rests_bodyPass hends _ _) body

/-- A block misses no token, since its brace would come behind it. -/
theorem supplies_blockBody (h : inner.Supplies mark more) :
    (blockBody inner).Supplies mark (blockBody more) := by
  have hbody := supplies_body h nearsighted_atBlockEnd endsBody_atBlockEnd #[]
  exact supplies_bind hbody (nearsighted_block h.nearsighted #[]) (fun _ => supplies_refl _)
    fun _ => rests_require (by decide) _ _ _

end Statements

/-- A script accepts what is accepted at a prompt, once a `;` is supplied. -/
theorem supplies_nested {mark : Token} (hmark : mark.kind = .semicolon) (levels : Nat) :
    (nested .command levels).Supplies mark (nested .script levels) := by
  induction levels with
  | zero => exact ⟨rfl, supplies_refl _, supplies_refl _, nearsighted_nested .script 0⟩
  | succ levels ih =>
    exact ⟨(nested_expression .command .script (levels + 1)).1,
      supplies_statement ih (readsExpr_nested .script levels).1 hmark, supplies_blockBody ih,
      nearsighted_nested .script (levels + 1)⟩

theorem Cursor.ofTokens_suppliedWith {mark : Token} (hmark : mark.kind = .semicolon)
    (tokens : List Token) (nextId : NodeId) :
    Cursor.ofTokens (suppliedWith mark tokens) nextId =
      (Cursor.ofTokens tokens nextId).followed mark := by
  have hparts : (suppliedWith mark tokens).takeWhile (·.kind ≠ .endOfInput) =
        tokens.takeWhile (·.kind ≠ .endOfInput) ++ [mark] ∧
      (suppliedWith mark tokens).find? (·.kind = .endOfInput) =
        tokens.find? (·.kind = .endOfInput) := by
    unfold suppliedWith
    induction tokens with
    | nil => simp [hmark]
    | cons token rest ih =>
      by_cases hend : token.kind = .endOfInput
      · simp [hend, hmark]
      · simpa [hend] using ih
  unfold ofTokens
  rw [hparts.1, hparts.2]
  rfl

end Grammar

/-- **What is typed and what is written.** A script without faults is read the same when it is
typed at a prompt: it has the same statements and the same ids are drawn. What is typed without
faults is read the same as a script, or it is as soon as any `;` is put before the end of its
tokens. -/
theorem parse_command_mode (tokens : List Token) (nextId : NodeId) :
    (∀ program, (parse .script tokens nextId).program = .ok program →
      parse .command tokens nextId = parse .script tokens nextId) ∧
    ∀ program, (parse .command tokens nextId).program = .ok program →
      parse .script tokens nextId = parse .command tokens nextId ∨
        ∀ mark : Token, mark.kind = .semicolon →
          parse .script (suppliedWith mark tokens) nextId = parse .command tokens nextId := by
  constructor
  · intro program hscript
    obtain ⟨final, after, hrun, hfaults, -⟩ := exists_run_of_parse hscript
    have hprogram : (Grammar.program .script).run (Cursor.ofTokens tokens nextId) =
        (.ok final.toList, after) := run_bind_of_ok hrun
    unfold parse
    rw [shadows_program.run_eq hprogram hfaults]
  · intro program hcommand
    obtain ⟨final, after, hrun, hfaults, -⟩ := exists_run_of_parse hcommand
    have hcursor := Cursor.bounded_ofTokens tokens nextId
    have hparsed := parse_of_run hrun hfaults
    by_cases hsame : parse .script tokens nextId = parse .command tokens nextId
    · exact .inl hsame
    · refine .inr fun mark hmark => ?_
      have hbody := supplies_body (supplies_nested hmark maxNesting) nearsighted_atEnd
        endsBody_atEnd #[] _ final after hcursor ⟨hrun, hfaults⟩
      rcases hbody with hthere | ⟨-, -, hthere⟩
      · exact absurd ((parse_of_run hthere.1 hfaults).trans hparsed.symm) hsame
      · rw [← Cursor.ofTokens_suppliedWith hmark] at hthere
        exact (parse_of_run hthere.1 hfaults).trans hparsed.symm

/-- In `if (a) while (b) print c` the `;` is missing at the end of a loop in a branch. -/
theorem parse_command_mode_of_branch :
    let token (kind : TokenKind) (text : String) : Token := ⟨kind, text, none, 1⟩
    let typed := [token .ifWord "if", token .leftParen "(", token .identifier "a",
      token .rightParen ")", token .whileWord "while", token .leftParen "(",
      token .identifier "b", token .rightParen ")", token .printWord "print",
      token .identifier "c", .endOfInput 1]
    let stmt := Stmt.branch (.variable 7 "a" 1)
      (.loop (.variable 8 "b" 1) (.print (.variable 9 "c" 1) 1) 1) none 1
    (parse .command typed 7).program = .ok [stmt] ∧
      (parse .script typed 7).faults = [⟨.unexpectedEnd "';'", 1⟩] ∧
      parse .script (suppliedWith (token .semicolon ";") typed) 7 = parse .command typed 7 ∧
      parse .command (suppliedWith (token .semicolon ";") typed) 7 =
        parse .script (suppliedWith (token .semicolon ";") typed) 7 := by
  intro token typed stmt
  have htyped : (parse .command typed 7).program = .ok [stmt] := by decide +kernel
  have hfaults : (parse .script typed 7).faults = [⟨.unexpectedEnd "';'", 1⟩] := by
    decide +kernel
  have hother : parse .script typed 7 ≠ parse .command typed 7 := by
    intro hsame
    rw [hsame, Parsed.faults, htyped] at hfaults
    cases hfaults
  have hsupplied := ((parse_command_mode typed 7).2 [stmt] htyped).resolve_left hother
    (token .semicolon ";") rfl
  have hwritten : (parse .script (suppliedWith (token .semicolon ";") typed) 7).program =
      .ok [stmt] := by
    rw [hsupplied]
    exact htyped
  exact ⟨htyped, hfaults, hsupplied, (parse_command_mode _ 7).1 [stmt] hwritten⟩

end CommandScript
