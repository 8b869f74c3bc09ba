import CommandScript.Grammar.Statement
import CommandScript.Proofs.Grammar.ExpressionLines

/-!
# Statements on a part of the tokens

The rule of statements does the same on a part of the tokens as on all of them, even if
the statement ends with the last token of the part. There is one thing that it looks at
behind a statement: whether an `else` follows the first branch of an `if`. So the tokens
behind the part must not begin with `else`.

* `consumes_statement`, `consumes_declaration`: what statements read.
* `Nested.Continues`: the rules of one level do the same on all tokens as on a part.
* `continues_nested`: so do those of every level.
-/

namespace CommandScript.Grammar

open Rule Splice

/-! ## What statements read -/

section Consumes

theorem consumes_endStatement : (endStatement false).Consumes := by
  refine consumes_accept (by decide) (consumes_bind_right fun ends => ?_)
  rw [if_neg (by simp)]
  exact consumes_expected _

/-- A rule that skips a token it has looked at. -/
theorem read_skip_bind {α : Type} {next : Unit → Rule α} {cursor after : Cursor} {a : α}
    (hlast : cursor.last.kind = .endOfInput) (hkind : cursor.peek.kind ≠ .endOfInput)
    (hrun : (skip >>= next).run cursor = (.ok a, after)) : cursor.read < after.read := by
  obtain ⟨_, middle, hskip, hnext⟩ := run_bind_eq_ok hrun
  exact Nat.lt_of_lt_of_le (read_skip hlast hkind hskip) (read_le (leadsTo_of_run hnext))

variable (inner : Nested) (mode : InputMode)

theorem consumes_variableDeclaration : (variableDeclaration inner).Consumes :=
  consumes_bind_left (consumes_require (by decide) _)

theorem consumes_functionDeclaration : (functionDeclaration inner).Consumes :=
  consumes_bind_left (consumes_require (by decide) _)

theorem consumes_expressionStatement : (expressionStatement inner).Consumes :=
  consumes_bind_right fun _ => consumes_bind_right fun _ =>
    consumes_bind_left consumes_endStatement

theorem consumes_statement : (statement inner mode).Consumes := by
  intro cursor stmt after hlast hrun
  obtain ⟨token, same, hpeek, hrest⟩ := run_bind_eq_ok hrun
  obtain ⟨htoken, rfl⟩ := Prod.mk.inj hpeek
  obtain rfl := Except.ok.inj htoken
  split at hrest <;> rename_i hkind
  case h_8 => exact consumes_expressionStatement inner cursor stmt after hlast hrest
  all_goals exact read_skip_bind hlast (by rw [hkind]; decide) hrest

/-- What a declaration is read by, faults apart. -/
theorem consumes_declared {inner : Nested} (h : inner.statement.Consumes) : Rule.Consumes (do
    if ← accept .funWord then return ← functionDeclaration inner
    if ← accept .varWord then return ← variableDeclaration inner
    inner.statement) := by
  refine consumes_bind_right fun funWord => consumes_ite ?_ ?_
  · exact consumes_functionDeclaration inner
  · refine consumes_bind_right fun varWord => consumes_ite ?_ h
    exact consumes_variableDeclaration inner

end Consumes

/-! ## What statements are read as -/

section Mirrors

variable {splice : Splice} {inner : Nested} {mode : InputMode}

theorem mirrors_endStatement (optional : Bool) :
    splice.Mirrors splice.Live (endStatement optional) (endStatement optional) id := by
  refine mirrors_accept_bind (mirrors_pure rfl) ?_
  refine mirrors_bind_stays parallel_atEnd stays_atEnd fun ends => ?_
  exact mirrors_ite (mirrors_pure rfl) (mirrors_expected _ _ _)

theorem mirrors_command {expression : Rule Expr}
    (h : splice.Parallel expression expression (·.mapLines splice.lines))
    (hstays : expression.Stays) (word : Token) :
    splice.Mirrors splice.Live (command expression word)
      (command expression (word.mapLines splice.lines)) (·.mapLines splice.lines) := by
  unfold command
  dsimp only [Token.mapLines]
  refine mirrors_ite ?_ (mirrors_ite ?_ ?_)
  · refine mirrors_bind_stays parallel_helpTopic stays_helpTopic fun topic => ?_
    exact mirrors_bind (mirrors_endStatement _) fun _ => mirrors_pure rfl
  · exact mirrors_bind (mirrors_endStatement _) fun _ => mirrors_pure rfl
  · refine mirrors_bind_stays (parallel_args h) (stays_args hstays) fun given => ?_
    exact mirrors_bind (mirrors_endStatement _) fun _ => mirrors_pure rfl

/-- The rules of one level of nesting do the same on all tokens as on a part. -/
structure Nested.Continues (inner : Nested) (splice : Splice) : Prop where
  expression : splice.Parallel inner.expression inner.expression (·.mapLines splice.lines)
  operand : splice.Parallel inner.operand inner.operand (·.mapLines splice.lines)
  expressionStays : inner.expression.Stays
  operandStays : inner.operand.Stays
  statement : splice.Mirrors splice.Live inner.statement inner.statement
    (·.mapLines splice.lines)
  block : splice.Mirrors splice.Live inner.block inner.block (Stmt.mapLinesAll splice.lines)

theorem mirrors_variableDeclaration (h : inner.Continues splice) :
    splice.Mirrors splice.Live (variableDeclaration inner) (variableDeclaration inner)
      (·.mapLines splice.lines) := by
  have hrest : ∀ (name : Token) (initializer : Option Expr), splice.Mirrors splice.Live
      (do
        endStatement false
        return Stmt.declare name.lexeme initializer name.line)
      (do
        endStatement false
        return Stmt.declare name.lexeme (initializer.map (·.mapLines splice.lines))
          (splice.lines name.line))
      (·.mapLines splice.lines) :=
    fun name initializer => mirrors_bind (mirrors_endStatement _) fun _ => mirrors_pure rfl
  refine mirrors_bind_stays (parallel_require _ _) (stays_require (by decide) _) fun name => ?_
  refine mirrors_bind_stays (parallel_accept _) (stays_accept (by decide)) fun equal => ?_
  dsimp only [id_eq]
  split
  · exact mirrors_bind_stays (parallel_map (k := Option.map _) h.expression fun _ => rfl)
      (stays_map h.expressionStays) (hrest name)
  · exact mirrors_bind_stays (g := Option.map _) (parallel_pure rfl) (stays_pure _) (hrest name)

theorem parallel_parameter :
    splice.Parallel parameter parameter (·.mapLines splice.lines) :=
  parallel_bind (parallel_require _ _) fun _ => parallel_pure rfl

theorem stays_parameter : parameter.Stays :=
  stays_bind (stays_require (by decide) _) fun _ => stays_pure _

theorem mirrors_functionDeclaration (h : inner.Continues splice) :
    splice.Mirrors splice.Live (functionDeclaration inner) (functionDeclaration inner)
      (·.mapLines splice.lines) := by
  have hrest : ∀ (name : Token) (params : List Parameter), splice.Mirrors splice.Live
      (do
        let _ ← require .rightParen "')' after parameters"
        let _ ← require .leftBrace "'\x7b' before function body"
        let body ← inner.block
        return Stmt.function name.lexeme params body name.line)
      (do
        let _ ← require .rightParen "')' after parameters"
        let _ ← require .leftBrace "'\x7b' before function body"
        let body ← inner.block
        return Stmt.function name.lexeme (params.map (·.mapLines splice.lines)) body
          (splice.lines name.line))
      (·.mapLines splice.lines) := by
    intro name params
    refine mirrors_bind_stays (parallel_require _ _) (stays_require (by decide) _) fun _ => ?_
    refine mirrors_bind_stays (parallel_require _ _) (stays_require (by decide) _) fun _ => ?_
    exact mirrors_bind h.block fun body => mirrors_pure rfl
  refine mirrors_bind_stays (parallel_require _ _) (stays_require (by decide) _) fun name => ?_
  refine mirrors_bind_stays (parallel_require _ _) (stays_require (by decide) _) fun _ => ?_
  refine mirrors_bind_stays (parallel_check _) (stays_check _) fun empty => ?_
  dsimp only [id_eq]
  split
  · exact mirrors_bind_stays (g := List.map _) (parallel_pure rfl) (stays_pure _) (hrest name)
  · exact mirrors_bind_stays (parallel_separated parallel_parameter _ _)
      (stays_separated stays_parameter _ _) (hrest name)

theorem mirrors_expressionStatement (h : inner.Continues splice) :
    splice.Mirrors splice.Live (expressionStatement inner) (expressionStatement inner)
      (·.mapLines splice.lines) := by
  refine mirrors_bind_stays parallel_peek stays_peek fun token => ?_
  refine mirrors_bind_stays h.expression h.expressionStays fun expr => ?_
  exact mirrors_bind (mirrors_endStatement _) fun _ => mirrors_pure rfl

theorem parallel_forInitializer (h : inner.Continues splice) :
    splice.Parallel (forInitializer inner) (forInitializer inner)
      (Option.map (·.mapLines splice.lines)) := by
  refine parallel_bind (parallel_accept _) fun semicolon => parallel_ite (parallel_pure rfl) ?_
  refine parallel_bind (parallel_accept _) fun varWord => parallel_ite ?_ ?_
  · exact parallel_bind (mirrors_variableDeclaration h).parallel fun _ => parallel_pure rfl
  · exact parallel_bind (mirrors_expressionStatement h).parallel fun _ => parallel_pure rfl

theorem mapLines_forLoop (f : Nat → Nat) (initializer : Option Stmt) (condition : Expr)
    (increment : Option Expr) (body : Stmt) (line : Nat) :
    (forLoop initializer condition increment body line).mapLines f =
      forLoop (initializer.map (·.mapLines f)) (condition.mapLines f)
        (increment.map (·.mapLines f)) (body.mapLines f) (f line) := by
  cases initializer <;> cases increment <;>
    simp [forLoop, Stmt.mapLines, Stmt.mapLinesAll, Expr.line_mapLines]

theorem mirrors_forStatement (h : inner.Continues splice) (line : Nat) :
    splice.Mirrors splice.Live (forStatement inner line)
      (forStatement inner (splice.lines line)) (·.mapLines splice.lines) := by
  have hbody : ∀ (initializer : Option Stmt) (condition : Expr) (increment : Option Expr),
      splice.Mirrors splice.Live
        (do
          let _ ← require .rightParen "')' after for clauses"
          let body ← inner.statement
          return forLoop initializer condition increment body line)
        (do
          let _ ← require .rightParen "')' after for clauses"
          let body ← inner.statement
          return forLoop (initializer.map (·.mapLines splice.lines))
            (condition.mapLines splice.lines) (increment.map (·.mapLines splice.lines)) body
            (splice.lines line))
        (·.mapLines splice.lines) := by
    intro initializer condition increment
    refine mirrors_bind_stays (parallel_require _ _) (stays_require (by decide) _) fun _ => ?_
    exact mirrors_bind h.statement fun body => mirrors_pure (mapLines_forLoop ..).symm
  have hincrement : ∀ (initializer : Option Stmt) (condition : Expr),
      splice.Mirrors splice.Live
        (do
          let _ ← require .semicolon "';' after loop condition"
          let increment ← if ← check .rightParen then pure none else some <$> inner.expression
          let _ ← require .rightParen "')' after for clauses"
          let body ← inner.statement
          return forLoop initializer condition increment body line)
        (do
          let _ ← require .semicolon "';' after loop condition"
          let increment ← if ← check .rightParen then pure none else some <$> inner.expression
          let _ ← require .rightParen "')' after for clauses"
          let body ← inner.statement
          return forLoop (initializer.map (·.mapLines splice.lines))
            (condition.mapLines splice.lines) increment body (splice.lines line))
        (·.mapLines splice.lines) := by
    intro initializer condition
    have hconsumes : ∀ increment : Option Expr, Rule.Consumes (do
        let _ ← require .rightParen "')' after for clauses"
        let body ← inner.statement
        return forLoop initializer condition increment body line) :=
      fun increment => consumes_bind_left (consumes_require (by decide) _)
    refine mirrors_bind_consumes (parallel_require _ _) (fun _ => ?_) fun _ => ?_
    · refine consumes_bind_right fun absent => ?_
      dsimp only
      exact consumes_ite (consumes_bind_right hconsumes) (consumes_bind_right hconsumes)
    · refine mirrors_bind_stays (parallel_check _) (stays_check _) fun absent => ?_
      dsimp only [id_eq]
      split
      · exact mirrors_bind_stays (g := Option.map _) (parallel_pure rfl) (stays_pure _)
          (hbody initializer condition)
      · exact mirrors_bind_stays (parallel_map (k := Option.map _) h.expression fun _ => rfl)
          (stays_map h.expressionStays) (hbody initializer condition)
  have hconsumes : ∀ (initializer : Option Stmt) (condition : Expr), Rule.Consumes (do
      let _ ← require .semicolon "';' after loop condition"
      let increment ← if ← check .rightParen then pure none else some <$> inner.expression
      let _ ← require .rightParen "')' after for clauses"
      let body ← inner.statement
      return forLoop initializer condition increment body line) :=
    fun initializer condition => consumes_bind_left (consumes_require (by decide) _)
  refine mirrors_bind_stays (parallel_require _ _) (stays_require (by decide) _) fun _ => ?_
  refine mirrors_bind_consumes (parallel_forInitializer h) (fun initializer => ?_)
    fun initializer => ?_
  · refine consumes_bind_right fun absent => ?_
    dsimp only
    exact consumes_ite (consumes_bind_right (hconsumes initializer))
      (consumes_bind_right (hconsumes initializer))
  · refine mirrors_bind_stays (parallel_check _) (stays_check _) fun absent => ?_
    dsimp only [id_eq]
    split
    · exact mirrors_bind_stays (g := Expr.mapLines splice.lines) (parallel_pure rfl)
        (stays_pure _) (hincrement initializer)
    · exact mirrors_bind_stays h.expression h.expressionStays (hincrement initializer)

/-- The tokens behind the part do not continue an `if`. -/
def NoElse (splice : Splice) : Prop := ∀ token ∈ splice.tail.head?, token.kind ≠ .elseWord

theorem mirrors_ifStatement (h : inner.Continues splice) (helse : NoElse splice) (line : Nat) :
    splice.Mirrors splice.Live (ifStatement inner line)
      (ifStatement inner (splice.lines line)) (·.mapLines splice.lines) := by
  refine mirrors_bind_stays (parallel_require _ _) (stays_require (by decide) _) fun _ => ?_
  refine mirrors_bind_stays h.expression h.expressionStays fun condition => ?_
  refine mirrors_bind_stays (parallel_require _ _) (stays_require (by decide) _) fun _ => ?_
  refine mirrors_bind h.statement fun thenBranch => ?_
  have hrest : ∀ elseBranch : Option Stmt, splice.Mirrors (fun _ => True)
      (return Stmt.branch condition thenBranch elseBranch line)
      (return Stmt.branch (condition.mapLines splice.lines) (thenBranch.mapLines splice.lines)
        (elseBranch.map (·.mapLines splice.lines)) (splice.lines line))
      (·.mapLines splice.lines) :=
    fun elseBranch => mirrors_pure (Stmt.mapLines_branch ..).symm
  refine mirrors_accept_anywhere (by decide) (by decide) helse ?_ ?_
  · exact mirrors_bind (mirrors_map (k := Option.map _) h.statement fun _ => rfl) hrest
  · exact mirrors_bind (g := Option.map _) (mirrors_pure rfl) hrest

theorem mirrors_whileStatement (h : inner.Continues splice) (line : Nat) :
    splice.Mirrors splice.Live (whileStatement inner line)
      (whileStatement inner (splice.lines line)) (·.mapLines splice.lines) := by
  refine mirrors_bind_stays (parallel_require _ _) (stays_require (by decide) _) fun _ => ?_
  refine mirrors_bind_stays h.expression h.expressionStays fun condition => ?_
  refine mirrors_bind_stays (parallel_require _ _) (stays_require (by decide) _) fun _ => ?_
  exact mirrors_bind h.statement fun body => mirrors_pure rfl

theorem mirrors_printStatement (h : inner.Continues splice) (line : Nat) :
    splice.Mirrors splice.Live (printStatement inner mode line)
      (printStatement inner mode (splice.lines line)) (·.mapLines splice.lines) := by
  refine mirrors_bind_stays h.expression h.expressionStays fun expr => ?_
  exact mirrors_bind (mirrors_endStatement _) fun _ => mirrors_pure rfl

theorem mirrors_returnStatement (h : inner.Continues splice) (line : Nat) :
    splice.Mirrors splice.Live (returnStatement inner line)
      (returnStatement inner (splice.lines line)) (·.mapLines splice.lines) := by
  have hrest : ∀ value : Option Expr, splice.Mirrors splice.Live
      (do
        endStatement false
        return Stmt.return value line)
      (do
        endStatement false
        return Stmt.return (value.map (·.mapLines splice.lines)) (splice.lines line))
      (·.mapLines splice.lines) :=
    fun value => mirrors_bind (mirrors_endStatement _) fun _ => mirrors_pure rfl
  refine mirrors_bind_stays (parallel_check _) (stays_check _) fun absent => ?_
  dsimp only [id_eq]
  split
  · exact mirrors_bind_stays (g := Option.map _) (parallel_pure rfl) (stays_pure _) hrest
  · exact mirrors_bind_stays (parallel_map (k := Option.map _) h.expression fun _ => rfl)
      (stays_map h.expressionStays) hrest

theorem mirrors_statement (h : inner.Continues splice) (helse : NoElse splice) :
    splice.Mirrors splice.Live (statement inner mode) (statement inner mode)
      (·.mapLines splice.lines) := by
  refine mirrors_peek fun token => ?_
  simp only [Token.kind_mapLines]
  split <;> rename_i hkind
  case h_1 => exact mirrors_skip_bind (by rw [hkind]; decide) (mirrors_forStatement h _)
  case h_2 => exact mirrors_skip_bind (by rw [hkind]; decide) (mirrors_ifStatement h helse _)
  case h_3 => exact mirrors_skip_bind (by rw [hkind]; decide) (mirrors_printStatement h _)
  case h_4 => exact mirrors_skip_bind (by rw [hkind]; decide) (mirrors_returnStatement h _)
  case h_5 => exact mirrors_skip_bind (by rw [hkind]; decide) (mirrors_whileStatement h _)
  case h_6 =>
    exact mirrors_skip_bind (by rw [hkind]; decide) (mirrors_map h.block fun _ => rfl)
  case h_7 =>
    exact mirrors_skip_bind (by rw [hkind]; decide)
      (mirrors_map (mirrors_command h.expression h.expressionStays token) fun _ => rfl)
  case h_8 => exact (mirrors_expressionStatement h).mono fun _ hcursor => hcursor.1

theorem mirrors_declaration (h : inner.Continues splice) :
    splice.Mirrors splice.Live (declaration inner) (declaration inner)
      (Option.map (·.mapLines splice.lines)) := by
  refine mirrors_recover ?_
  refine mirrors_bind_stays (parallel_accept _) (stays_accept (by decide)) fun funWord => ?_
  refine mirrors_ite ?_ ?_
  · exact mirrors_functionDeclaration h
  · refine mirrors_bind_stays (parallel_accept _) (stays_accept (by decide)) fun varWord => ?_
    exact mirrors_ite (mirrors_variableDeclaration h) h.statement

/-- A pass that adds a declaration to those before it, whatever stands before them. -/
theorem parallel_pass (h : inner.Continues splice) {g : Array Stmt → Array Stmt}
    (hg : ∀ body stmt, g (body.push stmt) = (g body).push (stmt.mapLines splice.lines))
    (body : Array Stmt) :
    splice.Parallel
      (do
        match ← declaration inner with
        | some stmt => return Pass.again (body.push stmt)
        | none => return Pass.again body)
      (do
        match ← declaration inner with
        | some stmt => return Pass.again ((g body).push stmt)
        | none => return Pass.again (g body))
      (Pass.map g) := by
  refine parallel_bind (mirrors_declaration h).parallel fun stmt => ?_
  cases stmt with
  | none => exact parallel_pure rfl
  | some stmt => exact parallel_pure (congrArg Pass.again (hg body stmt).symm)

theorem mirrors_blockBody (h : inner.Continues splice) :
    splice.Mirrors splice.Live (blockBody inner) (blockBody inner)
      (Stmt.mapLinesAll splice.lines) := by
  refine mirrors_bind_consumes (g := Array.map (·.mapLines splice.lines))
    (parallel_repeated ?_ (by simp)) (fun body => ?_) fun body => ?_
  · rintro body _ rfl
    refine parallel_bind (parallel_check _) fun brace => parallel_bind parallel_atEnd fun ends => ?_
    refine parallel_ite (parallel_pure rfl) ?_
    exact parallel_pass h (g := Array.map (·.mapLines splice.lines)) (by simp) body
  · exact consumes_bind_left (consumes_require (by decide) _)
  · exact mirrors_bind (mirrors_require _ _) fun _ =>
      mirrors_pure (by rw [Stmt.mapLinesAll_eq, Array.toList_map])

end Mirrors

theorem fails_tooDeep {α : Type} {cursor after : Cursor} {a : α} :
    (tooDeep : Rule α).run cursor ≠ (.ok a, after) := by
  intro hrun
  obtain ⟨token, middle, -, hfail⟩ := run_bind_eq_ok hrun
  cases hfail

theorem continues_nested {splice : Splice} (helse : NoElse splice) (mode : InputMode)
    (levels : Nat) : (nested mode levels).Continues splice := by
  induction levels with
  | zero =>
    refine ⟨?_, ?_, ?_, ?_, ?_, ?_⟩
    · exact fun _ _ _ _ _ hrun => absurd hrun fails_tooDeep
    · exact fun _ _ _ _ _ hrun => absurd hrun fails_tooDeep
    · exact fun _ _ _ _ hrun => absurd hrun fails_tooDeep
    · exact fun _ _ _ _ hrun => absurd hrun fails_tooDeep
    · exact fun _ _ _ _ _ _ hrun => absurd hrun fails_tooDeep
    · exact fun _ _ _ _ _ _ hrun => absurd hrun fails_tooDeep
  | succ levels ih =>
    exact {
      expression := parallel_assignment ih.expression ih.operand
      operand := parallel_unary ih.expression ih.operand
      expressionStays := stays_assignment ih.expressionStays ih.operandStays
      operandStays := stays_unary ih.expressionStays ih.operandStays
      statement := mirrors_statement ih helse
      block := mirrors_blockBody ih }

end CommandScript.Grammar
