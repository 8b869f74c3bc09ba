import CommandScript.Proofs.Grammar.Expressions
import CommandScript.Proofs.Syntax.Surface

/-!
# The parts of statements

Every rule of statements is a sequence of tokens, expressions and smaller statements. What a
rule accepts is the same sequence: its tokens, the expressions with their tokens, and what
the rules of one level less accept. Expressions end where a `;` or `)` stands.

* `Rule.Ends`: a rule reads one token of a kind and gives nothing.
* `accepts_expression_bind`, `accepts_option_bind`: an expression up to such a token.
* `accepts_forStatement`, `accepts_ifStatement`, ...: each kind of statement.
-/

namespace CommandScript

/-- An expression with its tokens, as it is read with some levels of nesting left. -/
structure Expr.Written (levels : Nat) (expr : Expr) (tokens : List Token) : Prop where
  spelled : expr.Spelled tokens
  proper : expr.Proper
  depth : expr.depth < levels

structure OptionWritten (levels : Nat) (value : Option Expr) (tokens : List Token) : Prop where
  spelled : SpelledOption value tokens
  proper : optionProper value
  levels : optionLevels value ≤ levels

structure VariableDecl.Written (levels : Nat) (decl : VariableDecl) (tokens : List Token) :
    Prop where
  spelled : decl.Spelled tokens
  proper : optionProper decl.initializer
  levels : optionLevels decl.initializer ≤ levels

structure ForStart.Written (levels : Nat) (start : ForStart) (tokens : List Token) : Prop where
  spelled : start.Spelled tokens
  proper : start.Proper
  levels : start.levels ≤ levels

namespace Grammar

open Rule

/-- The rule reads one token of the kind; its result does not matter. -/
def Rule.Ends {γ : Type} (rule : Rule γ) (kind : TokenKind) : Prop :=
  ∀ cursor after, cursor.Bounded →
    ((∃ c, rule.Accepts cursor c after) ↔
      ∃ token, token.kind = kind ∧ cursor.Passes after [token] [])

theorem ends_require {kind : TokenKind} (hne : kind ≠ .endOfInput) (what : String) :
    (require kind what).Ends kind :=
  fun _ _ hcursor => exists_congr fun _ => accepts_require hcursor hne

theorem ends_endStatement : (endStatement false).Ends .semicolon := by
  intro cursor after hcursor
  unfold endStatement
  simp only [accepts_accept_bind hcursor (show TokenKind.semicolon ≠ .endOfInput by decide)]
  constructor
  · rintro ⟨_, ⟨token, middle, -, hkind, hpasses, hrest⟩ | ⟨-, hrest⟩⟩
    · obtain ⟨-, rfl⟩ := accepts_pure.mp hrest
      exact ⟨token, hkind, hpasses⟩
    · exact absurd (accepts_atEnd_bind.mp hrest) not_accepts_expected
  · rintro ⟨token, hkind, hpasses⟩
    exact ⟨(), .inl ⟨token, after, hpasses.bounded hcursor, hkind, hpasses,
      accepts_pure.mpr ⟨rfl, rfl⟩⟩⟩

section Parts

variable {α β γ : Type} {cursor after : Cursor} {result : β} {kind : TokenKind}

theorem accepts_ends_bind {finish : Rule γ} (h : finish.Ends kind) (hcursor : cursor.Bounded)
    {rest : Rule β} :
    (finish >>= fun _ => rest).Accepts cursor result after ↔
      ∃ token middle, middle.Bounded ∧ token.kind = kind ∧ cursor.Passes middle [token] [] ∧
        rest.Accepts middle result after := by
  rw [accepts_bind]
  constructor
  · rintro ⟨c, middle, hfinish, hrest⟩
    obtain ⟨token, hkind, hpasses⟩ := (h _ _ hcursor).mp ⟨c, hfinish⟩
    exact ⟨token, middle, hpasses.bounded hcursor, hkind, hpasses, hrest⟩
  · rintro ⟨token, middle, -, hkind, hpasses, hrest⟩
    obtain ⟨c, hfinish⟩ := (h _ _ hcursor).mpr ⟨token, hkind, hpasses⟩
    exact ⟨c, middle, hfinish, hrest⟩

variable {expression : Rule Expr} {levels : Nat}

/-- An expression up to a token that does not go on with it. -/
theorem accepts_expression_bind (h : expression.ReadsExpr 0 levels) {finish : Rule γ}
    (hfinish : finish.Ends kind) (hkind : kind.joins? = none) (hcursor : cursor.Bounded)
    {rest : Expr → Rule β} :
    (do
      let expr ← expression
      let _ ← finish
      rest expr).Accepts cursor result after ↔
      ∃ expr tokens closing behind, behind.Bounded ∧ expr.Written levels tokens ∧
        closing.kind = kind ∧ cursor.Passes behind (tokens ++ [closing]) expr.ids ∧
        (rest expr).Accepts behind result after := by
  rw [accepts_bind]
  constructor
  · rintro ⟨expr, middle, hexpr, hrest⟩
    obtain ⟨⟨⟨tokens, hpasses, hspelled⟩, -, hproper, hdepth⟩, -⟩ := (h _ _ _ hcursor).mp hexpr
    obtain ⟨closing, behind, hbehind, hclosing, htoken, hrest⟩ :=
      (accepts_ends_bind hfinish (hpasses.bounded hcursor)).mp hrest
    have hboth := hpasses.trans htoken
    rw [List.append_nil] at hboth
    exact ⟨expr, tokens, closing, behind, hbehind, ⟨hspelled, hproper, hdepth⟩, hclosing, hboth,
      hrest⟩
  · rintro ⟨expr, tokens, closing, behind, hbehind, ⟨hspelled, hproper, hdepth⟩, hclosing, hpasses,
      hrest⟩
    obtain ⟨middle, hexpr, htoken⟩ := hpasses.split_last
    have hstops : middle.peek.kind.Stops 0 := by
      rw [htoken.peek, hclosing]
      exact TokenKind.stops_zero.mpr hkind
    exact ⟨expr, middle, (h _ _ _ hcursor).mpr ⟨⟨⟨tokens, hexpr, hspelled⟩, Nat.zero_le _,
      hproper, hdepth⟩, hstops⟩, (accepts_ends_bind hfinish (hexpr.bounded hcursor)).mpr
        ⟨closing, behind, hbehind, hclosing, htoken, hrest⟩⟩

/-- An expression that may be absent, up to a token that does not go on with it. The token
tells whether there is one, because no expression begins with it. -/
theorem accepts_option_bind (h : expression.ReadsExpr 0 levels) {finish : Rule γ}
    (hfinish : finish.Ends kind) (hkind : kind.joins? = none) (hbegins : ¬ kind.BeginsExpr)
    (hcursor : cursor.Bounded) {absent : α} {present : Rule α} (found : Expr → α)
    (hpresent : ∀ {next : α → Rule β}, (present >>= next).Accepts cursor result after ↔
      (expression >>= fun expr => next (found expr)).Accepts cursor result after)
    {rest : α → Rule β} :
    (do
      let ends ← check kind
      let value ← if ends then pure absent else present
      let _ ← finish
      rest value).Accepts cursor result after ↔
      ∃ value tokens closing behind, behind.Bounded ∧ OptionWritten levels value tokens ∧
        closing.kind = kind ∧ cursor.Passes behind (tokens ++ [closing]) (optionIds value) ∧
        (rest (value.elim absent found)).Accepts behind result after := by
  rw [accepts_check_bind]
  dsimp only
  by_cases hempty : cursor.peek.kind = kind
  · rw [if_pos (by simpa using hempty), accepts_pure_bind, accepts_ends_bind hfinish hcursor]
    constructor
    · rintro ⟨closing, behind, hbehind, hclosing, hpasses, hrest⟩
      exact ⟨none, [], closing, behind, hbehind, ⟨rfl, trivial, Nat.zero_le _⟩, hclosing, hpasses,
        hrest⟩
    · rintro ⟨value, tokens, closing, behind, hbehind, hwritten, hclosing, hpasses, hrest⟩
      cases value with
      | none =>
        obtain rfl := hwritten.spelled
        exact ⟨closing, behind, hbehind, hclosing, hpasses, hrest⟩
      | some expr =>
        have hspelled : expr.Spelled tokens := hwritten.spelled
        obtain ⟨first, more, rfl, hfirst⟩ := hspelled.begins
        rw [hpasses.peek] at hempty
        exact absurd (hempty ▸ hfirst) hbegins
  · rw [if_neg (by simpa using hempty), hpresent, accepts_expression_bind h hfinish hkind hcursor]
    constructor
    · rintro ⟨expr, tokens, closing, behind, hbehind, ⟨hspelled, hproper, hdepth⟩, hrest⟩
      exact ⟨some expr, tokens, closing, behind, hbehind, ⟨hspelled, hproper, hdepth⟩, hrest⟩
    · rintro ⟨value, tokens, closing, behind, hbehind, hwritten, hclosing, hpasses, hrest⟩
      cases value with
      | none =>
        obtain rfl := hwritten.spelled
        exact absurd (hpasses.peek ▸ hclosing) hempty
      | some expr =>
        exact ⟨expr, tokens, closing, behind, hbehind,
          ⟨hwritten.spelled, hwritten.proper, hwritten.levels⟩, hclosing, hpasses, hrest⟩

/-- An expression in parentheses. -/
theorem accepts_condition_bind (h : expression.ReadsExpr 0 levels) (hcursor : cursor.Bounded)
    {before behind : String} {rest : Expr → Rule β} :
    (do
      let _ ← require .leftParen before
      let condition ← expression
      let _ ← require .rightParen behind
      rest condition).Accepts cursor result after ↔
      ∃ condition tokens opening closing middle, middle.Bounded ∧ opening.kind = .leftParen ∧
        condition.Written levels tokens ∧ closing.kind = .rightParen ∧
        cursor.Passes middle (opening :: (tokens ++ [closing])) condition.ids ∧
        (rest condition).Accepts middle result after := by
  rw [accepts_require_bind hcursor (by decide)]
  constructor
  · rintro ⟨opening, start, hstart, hopening, htoken, hrest⟩
    obtain ⟨condition, tokens, closing, middle, hmiddle, hwritten, hclosing, hpasses, hrest⟩ :=
      (accepts_expression_bind h (ends_require (by decide) _) rfl hstart).mp hrest
    exact ⟨condition, tokens, opening, closing, middle, hmiddle, hopening, hwritten, hclosing,
      htoken.trans hpasses, hrest⟩
  · rintro ⟨condition, tokens, opening, closing, middle, hmiddle, hopening, hwritten, hclosing,
      hpasses, hrest⟩
    obtain ⟨start, htoken, hpasses⟩ := hpasses.uncons
    have hstart := htoken.bounded hcursor
    exact ⟨opening, start, hstart, hopening, htoken,
      (accepts_expression_bind h (ends_require (by decide) _) rfl hstart).mpr
        ⟨condition, tokens, closing, middle, hmiddle, hwritten, hclosing, hpasses, hrest⟩⟩

end Parts

/-! ## Each kind of statement -/

section Kinds

variable {inner : Nested} {levels : Nat} {cursor after : Cursor} {stmt : Stmt} {line : Nat}

theorem accepts_variableDeclaration (h : inner.expression.ReadsExpr 0 levels)
    (hcursor : cursor.Bounded) :
    (variableDeclaration inner).Accepts cursor stmt after ↔
      ∃ decl tokens, VariableDecl.Written levels decl tokens ∧
        cursor.Passes after tokens (optionIds decl.initializer) ∧ stmt = decl.lowered := by
  unfold variableDeclaration
  rw [accepts_require_bind hcursor (by decide)]
  constructor
  · rintro ⟨name, middle, hmiddle, hname, hfirst, hrest⟩
    rcases (accepts_accept_bind hmiddle (by decide)).mp hrest with
      ⟨equal, between, hbetween, hequal, htoken, hrest⟩ | ⟨-, hrest⟩
    · dsimp only at hrest
      rw [if_pos rfl, accepts_map_bind] at hrest
      obtain ⟨expr, tokens, closing, behind, -, ⟨hspelled, hproper, hdepth⟩, hclosing, hpasses,
        hpure⟩ := (accepts_expression_bind h ends_endStatement rfl hbetween).mp hrest
      obtain ⟨rfl, rfl⟩ := accepts_pure.mp hpure
      exact ⟨⟨_, some expr, _⟩, _, ⟨.initialized hname hequal hspelled hclosing, hproper, hdepth⟩,
        hfirst.trans (htoken.trans hpasses), rfl⟩
    · obtain ⟨closing, behind, -, hclosing, hpasses, hpure⟩ :=
        (accepts_ends_bind ends_endStatement hmiddle).mp hrest
      obtain ⟨rfl, rfl⟩ := accepts_pure.mp hpure
      exact ⟨⟨_, none, _⟩, _, ⟨.bare hname hclosing, trivial, Nat.zero_le _⟩,
        hfirst.trans hpasses, rfl⟩
  · rintro ⟨decl, tokens, ⟨hspelled, hproper, hdepth⟩, hpasses, rfl⟩
    cases hspelled with
    | @bare name closing hname hclosing =>
      obtain ⟨middle, hfirst, hrest⟩ := hpasses.uncons
      have hmiddle := hfirst.bounded hcursor
      refine ⟨name, middle, hmiddle, hname, hfirst, (accepts_accept_bind hmiddle (by decide)).mpr
        (.inr ⟨?_, (accepts_ends_bind ends_endStatement hmiddle).mpr
          ⟨closing, after, hrest.bounded hmiddle, hclosing, hrest, accepts_pure.mpr ⟨rfl, rfl⟩⟩⟩)⟩
      rw [hrest.peek, hclosing]
      decide
    | @initialized name equal closing value tokens hname hequal hspelled hclosing =>
      obtain ⟨middle, hfirst, hrest⟩ := hpasses.uncons
      have hmiddle := hfirst.bounded hcursor
      obtain ⟨between, htoken, hrest⟩ := hrest.uncons
      have hbetween := htoken.bounded hmiddle
      refine ⟨name, middle, hmiddle, hname, hfirst, (accepts_accept_bind hmiddle (by decide)).mpr
        (.inl ⟨equal, between, hbetween, hequal, htoken, accepts_map_bind.mpr ?_⟩)⟩
      exact (accepts_expression_bind h ends_endStatement rfl hbetween).mpr
        ⟨value, tokens, closing, after, hrest.bounded hbetween, ⟨hspelled, hproper, hdepth⟩,
          hclosing, hrest, accepts_pure.mpr ⟨rfl, rfl⟩⟩

theorem accepts_expressionStatement (h : inner.expression.ReadsExpr 0 levels)
    (hcursor : cursor.Bounded) :
    (expressionStatement inner).Accepts cursor stmt after ↔
      ∃ expr line tokens, Expr.Closed expr line tokens ∧ expr.Proper ∧ expr.depth < levels ∧
        cursor.Passes after tokens expr.ids ∧ stmt = .expression expr line := by
  unfold expressionStatement
  rw [accepts_peek_bind, accepts_expression_bind h ends_endStatement rfl hcursor]
  constructor
  · rintro ⟨expr, tokens, closing, behind, -, ⟨hspelled, hproper, hdepth⟩, hclosing, hpasses, hpure⟩
    obtain ⟨rfl, rfl⟩ := accepts_pure.mp hpure
    obtain ⟨first, rest, rfl, -⟩ := hspelled.begins
    exact ⟨expr, _, _, .intro hspelled hclosing, hproper, hdepth, hpasses, by rw [hpasses.peek]⟩
  · rintro ⟨expr, line, tokens, hclosed, hproper, hdepth, hpasses, rfl⟩
    cases hclosed with
    | @intro first closing rest hspelled hclosing =>
      exact ⟨expr, first :: rest, closing, after, hpasses.bounded hcursor,
        ⟨hspelled, hproper, hdepth⟩, hclosing, hpasses,
        accepts_pure.mpr ⟨by rw [hpasses.peek], rfl⟩⟩

theorem begins_closed {expr : Expr} {tokens : List Token} (h : expr.Closed line tokens) :
    ∃ first rest, tokens = first :: rest ∧ first.kind.BeginsExpr := by
  cases h with
  | intro hspelled _ =>
    obtain ⟨first, rest, heq, hfirst⟩ := hspelled.begins
    obtain ⟨rfl, -⟩ := List.cons.inj heq
    exact ⟨_, _, rfl, hfirst⟩

theorem accepts_forInitializer (h : inner.expression.ReadsExpr 0 levels)
    (hcursor : cursor.Bounded) {initializer : Option Stmt} :
    (forInitializer inner).Accepts cursor initializer after ↔
      ∃ start tokens, ForStart.Written levels start tokens ∧
        cursor.Passes after tokens start.ids ∧ initializer = start.lowered? := by
  unfold forInitializer
  rw [accepts_accept_bind hcursor (by decide)]
  constructor
  · rintro (⟨closing, middle, -, hclosing, hpasses, hpure⟩ | ⟨-, hrest⟩)
    · obtain ⟨rfl, rfl⟩ := accepts_pure.mp hpure
      exact ⟨.absent, _, ⟨.absent hclosing, trivial, Nat.zero_le _⟩, hpasses, rfl⟩
    · rcases (accepts_accept_bind hcursor (by decide)).mp hrest with
        ⟨word, middle, hmiddle, hword, htoken, hrest⟩ | ⟨-, hrest⟩
      · obtain ⟨stmt, _, hdeclare, hpure⟩ := accepts_bind.mp hrest
        obtain ⟨rfl, rfl⟩ := accepts_pure.mp hpure
        obtain ⟨decl, tokens, ⟨hspelled, hproper, hlevels⟩, hpasses, rfl⟩ :=
          (accepts_variableDeclaration h hmiddle).mp hdeclare
        exact ⟨.declared decl, _, ⟨.declared hword hspelled, hproper, hlevels⟩,
          htoken.trans hpasses, rfl⟩
      · obtain ⟨stmt, _, hexpr, hpure⟩ := accepts_bind.mp hrest
        obtain ⟨rfl, rfl⟩ := accepts_pure.mp hpure
        obtain ⟨expr, line, tokens, hclosed, hproper, hdepth, hpasses, rfl⟩ :=
          (accepts_expressionStatement h hcursor).mp hexpr
        exact ⟨.expression expr line, tokens, ⟨.expression hclosed, hproper, hdepth⟩, hpasses, rfl⟩
  · rintro ⟨start, tokens, ⟨hspelled, hproper, hlevels⟩, hpasses, rfl⟩
    cases hspelled with
    | @absent closing hclosing =>
      exact .inl ⟨closing, after, hpasses.bounded hcursor, hclosing, hpasses,
        accepts_pure.mpr ⟨rfl, rfl⟩⟩
    | @declared word decl tokens hword hspelled =>
      obtain ⟨middle, htoken, hrest⟩ := hpasses.uncons
      have hmiddle := htoken.bounded hcursor
      refine .inr ⟨by rw [htoken.peek, hword]; decide, (accepts_accept_bind hcursor (by decide)).mpr
        (.inl ⟨word, middle, hmiddle, hword, htoken, accepts_bind.mpr ⟨_, after, ?_,
          accepts_pure.mpr ⟨rfl, rfl⟩⟩⟩)⟩
      exact (accepts_variableDeclaration h hmiddle).mpr
        ⟨decl, tokens, ⟨hspelled, hproper, hlevels⟩, hrest, rfl⟩
    | @expression expr line tokens hclosed =>
      obtain ⟨first, rest, rfl, hfirst⟩ := begins_closed hclosed
      have hne {kind : TokenKind} (hkind : ¬ kind.BeginsExpr) : cursor.peek.kind ≠ kind := by
        rw [hpasses.peek]
        rintro rfl
        exact hkind hfirst
      refine .inr ⟨hne (by decide), (accepts_accept_bind hcursor (by decide)).mpr
        (.inr ⟨hne (by decide), accepts_bind.mpr ⟨_, after, ?_, accepts_pure.mpr ⟨rfl, rfl⟩⟩⟩)⟩
      exact (accepts_expressionStatement h hcursor).mpr
        ⟨expr, line, _, hclosed, hproper, hlevels, hpasses, rfl⟩

theorem accepts_forStatement (h : inner.expression.ReadsExpr 0 levels) (hcursor : cursor.Bounded) :
    (forStatement inner line).Accepts cursor stmt after ↔
      ∃ start condition increment first second third opening semicolon closing middle body,
        middle.Bounded ∧ opening.kind = .leftParen ∧ ForStart.Written levels start first ∧
        OptionWritten levels condition second ∧ semicolon.kind = .semicolon ∧
        OptionWritten levels increment third ∧ closing.kind = .rightParen ∧
        cursor.Passes middle
          (opening :: (first ++ ((second ++ [semicolon]) ++ (third ++ [closing]))))
          (start.ids ++ (optionIds condition ++ optionIds increment)) ∧
        inner.statement.Accepts middle body after ∧
        stmt = forLoop start.lowered? (condition.getD (.literal (.bool true) line)) increment body
          line := by
  unfold forStatement
  rw [accepts_require_bind hcursor (by decide)]
  have hsemicolon := ends_require (show TokenKind.semicolon ≠ .endOfInput by decide)
    "';' after loop condition"
  have hparen := ends_require (show TokenKind.rightParen ≠ .endOfInput by decide)
    "')' after for clauses"
  constructor
  · rintro ⟨opening, begins, hbegins, hopening, htoken, hrest⟩
    obtain ⟨initializer, second, hstart, hrest⟩ := accepts_bind.mp hrest
    obtain ⟨start, first, hfirst, hpasses, rfl⟩ := (accepts_forInitializer h hbegins).mp hstart
    obtain ⟨condition, second, semicolon, between, hbetween, hsecond, hclosing, hpasses', hrest⟩ :=
      (accepts_option_bind h hsemicolon rfl (by decide) (hpasses.bounded hbegins) id
        Iff.rfl).mp hrest
    obtain ⟨increment, third, closing, middle, hmiddle, hthird, hends, hpasses'', hrest⟩ :=
      (accepts_option_bind h hparen rfl (by decide) hbetween some accepts_map_bind).mp hrest
    obtain ⟨body, _, hbody, hpure⟩ := accepts_bind.mp hrest
    obtain ⟨rfl, rfl⟩ := accepts_pure.mp hpure
    refine ⟨start, condition, increment, first, second, third, opening, semicolon, closing, middle,
      body, hmiddle, hopening, hfirst, hsecond, hclosing, hthird, hends, ?_, hbody, ?_⟩
    · exact htoken.trans (hpasses.trans (hpasses'.trans hpasses''))
    · cases condition <;> cases increment <;> rfl
  · rintro ⟨start, condition, increment, first, second, third, opening, semicolon, closing, middle,
      body, hmiddle, hopening, hfirst, hsecond, hclosing, hthird, hends, hpasses, hbody, rfl⟩
    obtain ⟨begins, htoken, hrest⟩ := hpasses.uncons
    obtain ⟨start', hstart, hrest⟩ := hrest.split
    obtain ⟨between, hcondition, hincrement⟩ := hrest.split
    have hbegins := htoken.bounded hcursor
    have hbetween := hcondition.bounded (hstart.bounded hbegins)
    refine ⟨opening, begins, hbegins, hopening, htoken, accepts_bind.mpr ⟨start.lowered?, start',
      (accepts_forInitializer h hbegins).mpr ⟨start, first, hfirst, hstart, rfl⟩, ?_⟩⟩
    refine (accepts_option_bind h hsemicolon rfl (by decide) (hstart.bounded hbegins) id
      Iff.rfl).mpr ⟨condition, second, semicolon, between, hbetween, hsecond, hclosing,
        hcondition, ?_⟩
    refine (accepts_option_bind h hparen rfl (by decide) hbetween some accepts_map_bind).mpr
      ⟨increment, third, closing, middle, hmiddle, hthird, hends, hincrement, ?_⟩
    refine accepts_bind.mpr ⟨body, after, hbody, accepts_pure.mpr ⟨?_, rfl⟩⟩
    cases condition <;> cases increment <;> rfl

theorem accepts_whileStatement (h : inner.expression.ReadsExpr 0 levels)
    (hcursor : cursor.Bounded) :
    (whileStatement inner line).Accepts cursor stmt after ↔
      ∃ condition tokens opening closing middle body, middle.Bounded ∧ opening.kind = .leftParen ∧
        Expr.Written levels condition tokens ∧ closing.kind = .rightParen ∧
        cursor.Passes middle (opening :: (tokens ++ [closing])) condition.ids ∧
        inner.statement.Accepts middle body after ∧ stmt = .loop condition body line := by
  refine (accepts_condition_bind h hcursor).trans ?_
  constructor
  · rintro ⟨condition, tokens, opening, closing, middle, hmiddle, hopening, hwritten, hclosing,
      hpasses, hrest⟩
    obtain ⟨body, _, hbody, hpure⟩ := accepts_bind.mp hrest
    obtain ⟨rfl, rfl⟩ := accepts_pure.mp hpure
    exact ⟨condition, tokens, opening, closing, middle, body, hmiddle, hopening, hwritten, hclosing,
      hpasses, hbody, rfl⟩
  · rintro ⟨condition, tokens, opening, closing, middle, body, hmiddle, hopening, hwritten,
      hclosing, hpasses, hbody, rfl⟩
    exact ⟨condition, tokens, opening, closing, middle, hmiddle, hopening, hwritten, hclosing,
      hpasses, accepts_bind.mpr ⟨body, after, hbody, accepts_pure.mpr ⟨rfl, rfl⟩⟩⟩

/-- An `else` that follows the first branch belongs to it. -/
theorem accepts_ifStatement (h : inner.expression.ReadsExpr 0 levels)
    (hcursor : cursor.Bounded) :
    (ifStatement inner line).Accepts cursor stmt after ↔
      ∃ condition tokens opening closing middle body behind, middle.Bounded ∧
        opening.kind = .leftParen ∧ Expr.Written levels condition tokens ∧
        closing.kind = .rightParen ∧
        cursor.Passes middle (opening :: (tokens ++ [closing])) condition.ids ∧
        inner.statement.Accepts middle body behind ∧
        ((behind.peek.kind ≠ .elseWord ∧ after = behind ∧
            stmt = .branch condition body none line) ∨
          ∃ other start elseBranch, other.kind = .elseWord ∧ behind.Passes start [other] [] ∧
            inner.statement.Accepts start elseBranch after ∧
            stmt = .branch condition body (some elseBranch) line) := by
  refine (accepts_condition_bind h hcursor).trans ?_
  constructor
  · rintro ⟨condition, tokens, opening, closing, middle, hmiddle, hopening, hwritten, hclosing,
      hpasses, hrest⟩
    obtain ⟨body, behind, hbody, hrest⟩ := accepts_bind.mp hrest
    refine ⟨condition, tokens, opening, closing, middle, body, behind, hmiddle, hopening, hwritten,
      hclosing, hpasses, hbody, ?_⟩
    rcases (accepts_accept_bind (hbody.bounded hmiddle) (by decide)).mp hrest with
      ⟨other, start, -, hother, htoken, hrest⟩ | ⟨hne, hpure⟩
    · dsimp only at hrest
      rw [if_pos rfl, accepts_map_bind] at hrest
      obtain ⟨elseBranch, _, helse, hpure⟩ := accepts_bind.mp hrest
      obtain ⟨rfl, rfl⟩ := accepts_pure.mp hpure
      exact .inr ⟨other, start, elseBranch, hother, htoken, helse, rfl⟩
    · obtain ⟨rfl, rfl⟩ := accepts_pure.mp hpure
      exact .inl ⟨hne, rfl, rfl⟩
  · rintro ⟨condition, tokens, opening, closing, middle, body, behind, hmiddle, hopening, hwritten,
      hclosing, hpasses, hbody, hend⟩
    refine ⟨condition, tokens, opening, closing, middle, hmiddle, hopening, hwritten, hclosing,
      hpasses, accepts_bind.mpr ⟨body, behind, hbody, ?_⟩⟩
    have hbehind := hbody.bounded hmiddle
    rw [accepts_accept_bind hbehind (by decide)]
    rcases hend with ⟨hne, rfl, rfl⟩ | ⟨other, start, elseBranch, hother, htoken, helse, rfl⟩
    · exact .inr ⟨hne, accepts_pure.mpr ⟨rfl, rfl⟩⟩
    · refine .inl ⟨other, start, htoken.bounded hbehind, hother, htoken, accepts_map_bind.mpr ?_⟩
      exact accepts_bind.mpr ⟨elseBranch, after, helse, accepts_pure.mpr ⟨rfl, rfl⟩⟩

theorem accepts_printStatement (h : inner.expression.ReadsExpr 0 levels)
    (hcursor : cursor.Bounded) :
    (printStatement inner .script line).Accepts cursor stmt after ↔
      ∃ expr tokens closing, Expr.Written levels expr tokens ∧ closing.kind = .semicolon ∧
        cursor.Passes after (tokens ++ [closing]) expr.ids ∧ stmt = .print expr line := by
  refine (accepts_expression_bind h ends_endStatement rfl hcursor).trans ?_
  constructor
  · rintro ⟨expr, tokens, closing, behind, -, hwritten, hclosing, hpasses, hpure⟩
    obtain ⟨rfl, rfl⟩ := accepts_pure.mp hpure
    exact ⟨expr, tokens, closing, hwritten, hclosing, hpasses, rfl⟩
  · rintro ⟨expr, tokens, closing, hwritten, hclosing, hpasses, rfl⟩
    exact ⟨expr, tokens, closing, after, hpasses.bounded hcursor, hwritten, hclosing, hpasses,
      accepts_pure.mpr ⟨rfl, rfl⟩⟩

theorem accepts_returnStatement (h : inner.expression.ReadsExpr 0 levels)
    (hcursor : cursor.Bounded) :
    (returnStatement inner line).Accepts cursor stmt after ↔
      ∃ value tokens closing, OptionWritten levels value tokens ∧ closing.kind = .semicolon ∧
        cursor.Passes after (tokens ++ [closing]) (optionIds value) ∧
        stmt = .return value line := by
  refine (accepts_option_bind h ends_endStatement rfl (by decide) hcursor some
    accepts_map_bind).trans ?_
  have hsame (value : Option Expr) : value.elim none some = value := by cases value <;> rfl
  simp only [hsame]
  constructor
  · rintro ⟨value, tokens, closing, behind, -, hwritten, hclosing, hpasses, hpure⟩
    obtain ⟨rfl, rfl⟩ := accepts_pure.mp hpure
    exact ⟨value, tokens, closing, hwritten, hclosing, hpasses, rfl⟩
  · rintro ⟨value, tokens, closing, hwritten, hclosing, hpasses, rfl⟩
    exact ⟨value, tokens, closing, after, hpasses.bounded hcursor, hwritten, hclosing, hpasses,
      accepts_pure.mpr ⟨rfl, rfl⟩⟩

theorem reads_parameter :
    parameter.Reads Parameter.Spelled (fun _ => []) (fun _ => True) (fun _ => True) := by
  intro cursor param after hcursor
  unfold parameter
  rw [accepts_require_bind hcursor (by decide)]
  constructor
  · rintro ⟨name, middle, -, hname, hpasses, hpure⟩
    obtain ⟨rfl, rfl⟩ := accepts_pure.mp hpure
    exact ⟨⟨[name], hpasses, name, hname, rfl, rfl⟩, trivial, trivial⟩
  · rintro ⟨⟨tokens, hpasses, name, hname, rfl, rfl⟩, -, -⟩
    exact ⟨name, after, hpasses.bounded hcursor, hname, hpasses, accepts_pure.mpr ⟨rfl, rfl⟩⟩

theorem accepts_functionDeclaration (hcursor : cursor.Bounded) :
    (functionDeclaration inner).Accepts cursor stmt after ↔
      ∃ name opening params heads closing brace middle body, middle.Bounded ∧
        name.kind = .identifier ∧ opening.kind = .leftParen ∧
        Separated Parameter.Spelled params heads ∧ params.length ≤ maxArguments ∧
        closing.kind = .rightParen ∧ brace.kind = .leftBrace ∧
        cursor.Passes middle (name :: opening :: ((heads ++ [closing]) ++ [brace])) [] ∧
        inner.block.Accepts middle body after ∧
        stmt = .function name.lexeme params body name.line := by
  have hbegins : ∀ (param : Parameter) tokens, param.Spelled tokens → ∃ first rest,
      tokens = first :: rest ∧ first.kind ≠ .rightParen := by
    rintro param tokens ⟨name, hname, rfl, -⟩
    exact ⟨name, [], rfl, by rw [hname]; decide⟩
  have hids (params : List Parameter) : params.flatMap (fun _ => ([] : List NodeId)) = [] := by
    simp
  unfold functionDeclaration
  rw [accepts_require_bind hcursor (by decide)]
  constructor
  · rintro ⟨name, named, hnamed, hname, hfirst, hrest⟩
    obtain ⟨opening, start, hstart, hopening, htoken, hrest⟩ :=
      (accepts_require_bind hnamed (by decide)).mp hrest
    obtain ⟨params, heads, closing, behind, hbehind, hparams, hclosing, hlength, -,
        hpasses, hrest⟩ :=
      (accepts_list_bind reads_parameter trivial trivial (by decide) hbegins hstart).mp hrest
    obtain ⟨brace, middle, hmiddle, hbrace, hend, hrest⟩ :=
      (accepts_require_bind hbehind (by decide)).mp hrest
    obtain ⟨body, _, hbody, hpure⟩ := accepts_bind.mp hrest
    obtain ⟨rfl, rfl⟩ := accepts_pure.mp hpure
    rw [hids] at hpasses
    exact ⟨name, opening, params, heads, closing, brace, middle, body, hmiddle, hname, hopening,
      hparams, hlength, hclosing, hbrace, (hfirst.trans htoken).trans (hpasses.trans hend),
      hbody, rfl⟩
  · rintro ⟨name, opening, params, heads, closing, brace, middle, body, hmiddle, hname, hopening,
      hparams, hlength, hclosing, hbrace, hpasses, hbody, rfl⟩
    obtain ⟨named, hfirst, hpasses⟩ := hpasses.uncons
    obtain ⟨start, htoken, hpasses⟩ := hpasses.uncons
    obtain ⟨behind, hpasses, hend⟩ := hpasses.split_last
    have hnamed := hfirst.bounded hcursor
    have hstart := htoken.bounded hnamed
    have hbehind := hpasses.bounded hstart
    refine ⟨name, named, hnamed, hname, hfirst,
      (accepts_require_bind hnamed (by decide)).mpr ⟨opening, start, hstart, hopening, htoken,
        (accepts_list_bind reads_parameter trivial trivial (by decide) hbegins hstart).mpr ?_⟩⟩
    rw [← hids params] at hpasses
    exact ⟨params, heads, closing, behind, hbehind, hparams, hclosing, hlength,
      fun _ _ => trivial, hpasses, (accepts_require_bind hbehind (by decide)).mpr
        ⟨brace, middle, hmiddle, hbrace, hend, accepts_bind.mpr ⟨body, after, hbody,
          accepts_pure.mpr ⟨rfl, rfl⟩⟩⟩⟩

/-- A declaration is never dropped without a fault. -/
theorem accepts_declaration (hcursor : cursor.Bounded) {found : Option Stmt} :
    (declaration inner).Accepts cursor found after ↔
      ∃ stmt, found = some stmt ∧
        ((∃ word middle, middle.Bounded ∧ word.kind = .funWord ∧ cursor.Passes middle [word] [] ∧
            (functionDeclaration inner).Accepts middle stmt after) ∨
          (∃ word middle, middle.Bounded ∧ word.kind = .varWord ∧ cursor.Passes middle [word] [] ∧
            (variableDeclaration inner).Accepts middle stmt after) ∨
          (cursor.peek.kind ≠ .funWord ∧ cursor.peek.kind ≠ .varWord ∧
            inner.statement.Accepts cursor stmt after)) := by
  refine accepts_recover.trans (exists_congr fun stmt => and_congr_right fun _ => ?_)
  rw [accepts_accept_bind hcursor (by decide)]
  constructor
  · rintro (⟨word, middle, hmiddle, hword, htoken, hrest⟩ | ⟨hne, hrest⟩)
    · exact .inl ⟨word, middle, hmiddle, hword, htoken, hrest⟩
    · rcases (accepts_accept_bind hcursor (by decide)).mp hrest with
        ⟨word, middle, hmiddle, hword, htoken, hrest⟩ | ⟨hne', hrest⟩
      · exact .inr (.inl ⟨word, middle, hmiddle, hword, htoken, hrest⟩)
      · exact .inr (.inr ⟨hne, hne', hrest⟩)
  · rintro (⟨word, middle, hmiddle, hword, htoken, hrest⟩ |
      ⟨word, middle, hmiddle, hword, htoken, hrest⟩ | ⟨hne, hne', hrest⟩)
    · exact .inl ⟨word, middle, hmiddle, hword, htoken, hrest⟩
    · refine .inr ⟨by rw [htoken.peek, hword]; decide, ?_⟩
      exact (accepts_accept_bind hcursor (by decide)).mpr
        (.inl ⟨word, middle, hmiddle, hword, htoken, hrest⟩)
    · exact .inr ⟨hne, (accepts_accept_bind hcursor (by decide)).mpr (.inr ⟨hne', hrest⟩)⟩

end Kinds

end Grammar

end CommandScript
