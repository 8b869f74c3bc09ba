import CommandScript.Proofs.Grammar.Infix
import CommandScript.Proofs.Grammar.Lists

/-!
# Operands

What stands between operators: atoms and parentheses, calls of them and unary operators in
front of calls. A call leans to the left as operators of one level do, so calls of calls are
read by the same kind of loop.

* `readsExpr_primary`: atoms and parentheses.
* `readsExpr_call`: calls.
* `readsExpr_unary`: operands.
-/

namespace CommandScript.Grammar

open Rule

section Operands

variable {expression operand : Rule Expr} {levels : Nat} {cursor after : Cursor}

/-- What the rule of atoms finds at a literal. -/
theorem accepts_primary_literal {value : Literal} (hcursor : cursor.Bounded)
    (h : cursor.peek.Denotes value) {expr : Expr} :
    (primary expression).Accepts cursor expr after ↔
      cursor.Passes after [cursor.peek] [] ∧ expr = .literal value cursor.peek.line := by
  unfold primary
  rw [accepts_peek_bind]
  unfold Token.Denotes at h
  split at h
  case h_6 => exact h.elim
  all_goals
    rename_i hkind
    subst h
    simp only [hkind]
    exact accepts_skip_pure hcursor (by rw [hkind]; decide)

theorem accepts_primary_variable (hcursor : cursor.Bounded)
    (h : cursor.peek.kind = .identifier) {expr : Expr} :
    (primary expression).Accepts cursor expr after ↔
      cursor.Passes after [cursor.peek] [cursor.nextId] ∧
        expr = .variable cursor.nextId cursor.peek.lexeme cursor.peek.line := by
  have hne : cursor.peek.kind ≠ .endOfInput := by rw [h]; decide
  unfold primary
  rw [accepts_peek_bind]
  simp only [h]
  rw [accepts_skip_bind hcursor hne]
  constructor
  · rintro ⟨middle, -, hpasses, hrest⟩
    obtain ⟨id, _, hid, hpure⟩ := accepts_bind.mp hrest
    obtain ⟨rfl, hdrawn⟩ := accepts_freshId.mp hid
    obtain ⟨rfl, rfl⟩ := accepts_pure.mp hpure
    rw [hpasses.nextId_token] at hdrawn
    exact ⟨hpasses.trans hdrawn, by rw [hpasses.nextId_token]⟩
  · rintro ⟨hpasses, rfl⟩
    obtain ⟨middle, htoken, hdrawn⟩ := hpasses.uncons
    exact ⟨middle, htoken.bounded hcursor, htoken, accepts_bind.mpr
      ⟨cursor.nextId, after, accepts_freshId.mpr ⟨htoken.nextId_token.symm, hdrawn⟩,
        accepts_pure.mpr ⟨rfl, rfl⟩⟩⟩

theorem accepts_primary_commandRef (hcursor : cursor.Bounded) (h : cursor.peek.kind = .command)
    {expr : Expr} :
    (primary expression).Accepts cursor expr after ↔
      cursor.Passes after [cursor.peek] [] ∧
        expr = .commandRef cursor.peek.lexeme cursor.peek.line := by
  have hne : cursor.peek.kind ≠ .endOfInput := by rw [h]; decide
  unfold primary
  rw [accepts_peek_bind]
  simp only [h]
  exact accepts_skip_pure hcursor hne

theorem accepts_primary_grouping (hcursor : cursor.Bounded) (h : cursor.peek.kind = .leftParen)
    {expr : Expr} :
    (primary expression).Accepts cursor expr after ↔
      ∃ inner opening closing middle, opening.Bounded ∧ cursor.Passes opening [cursor.peek] [] ∧
        expression.Accepts opening inner middle ∧ closing.kind = .rightParen ∧
        middle.Passes after [closing] [] ∧ expr = .grouping inner cursor.peek.line := by
  have hne : cursor.peek.kind ≠ .endOfInput := by rw [h]; decide
  unfold primary
  rw [accepts_peek_bind]
  simp only [h]
  rw [accepts_skip_bind hcursor hne]
  constructor
  · rintro ⟨opening, hopening, hpasses, hrest⟩
    obtain ⟨inner, middle, hinner, hrest⟩ := accepts_bind.mp hrest
    obtain ⟨closing, _, -, hkind, hclosing, hpure⟩ :=
      (accepts_require_bind (hinner.bounded hopening) (by decide)).mp hrest
    obtain ⟨rfl, rfl⟩ := accepts_pure.mp hpure
    exact ⟨inner, opening, closing, middle, hopening, hpasses, hinner, hkind, hclosing, rfl⟩
  · rintro ⟨inner, opening, closing, middle, hopening, hpasses, hinner, hkind, hclosing, rfl⟩
    have hmiddle := hinner.bounded hopening
    refine ⟨opening, hopening, hpasses, accepts_bind.mpr ⟨inner, middle, hinner, ?_⟩⟩
    exact (accepts_require_bind hmiddle (by decide)).mpr
      ⟨closing, after, hclosing.bounded hmiddle, hkind, hclosing, accepts_pure.mpr ⟨rfl, rfl⟩⟩

/-- The tokens with which an atom or a parenthesis begins. -/
theorem kind_of_accepts_primary {expr : Expr}
    (h : (primary expression).Accepts cursor expr after) :
    (∃ value, cursor.peek.Denotes value) ∨ cursor.peek.kind = .identifier ∨
      cursor.peek.kind = .command ∨ cursor.peek.kind = .leftParen := by
  have hliteral (kind : TokenKind) (hkind : cursor.peek.kind = kind)
      (hmem : kind ∈ [TokenKind.number, .string, .trueWord, .falseWord, .nullWord]) :
      ∃ value, cursor.peek.Denotes value := by
    unfold Token.Denotes
    rw [hkind]
    simp only [List.mem_cons, List.not_mem_nil, or_false] at hmem
    rcases hmem with rfl | rfl | rfl | rfl | rfl <;> exact ⟨_, rfl⟩
  unfold primary at h
  rw [accepts_peek_bind] at h
  split at h
  case h_6 hkind => exact .inr (.inl hkind)
  case h_7 hkind => exact .inr (.inr (.inl hkind))
  case h_8 hkind => exact .inr (.inr (.inr hkind))
  case h_9 => exact absurd h not_accepts_fail
  case h_10 => exact absurd h not_accepts_fail
  all_goals
    rename_i hkind
    exact .inl (hliteral _ hkind (by decide))

/-- Atoms, and any expression in parentheses. -/
theorem readsExpr_primary (h : expression.ReadsExpr 0 levels) :
    (primary expression).ReadsExpr 9 (levels + 1) := by
  intro cursor expr after hcursor
  constructor
  · intro hrun
    refine ⟨?_, TokenKind.stops_nine _⟩
    rcases kind_of_accepts_primary hrun with ⟨value, hvalue⟩ | hkind | hkind | hkind
    · obtain ⟨hpasses, rfl⟩ := (accepts_primary_literal hcursor hvalue).mp hrun
      exact ⟨⟨_, hpasses, .literal hvalue⟩, Nat.le_refl 9, trivial, Nat.succ_pos _⟩
    · obtain ⟨hpasses, rfl⟩ := (accepts_primary_variable hcursor hkind).mp hrun
      exact ⟨⟨_, hpasses, .variable hkind⟩, Nat.le_refl 9, trivial, Nat.succ_pos _⟩
    · obtain ⟨hpasses, rfl⟩ := (accepts_primary_commandRef hcursor hkind).mp hrun
      exact ⟨⟨_, hpasses, .commandRef hkind⟩, Nat.le_refl 9, trivial, Nat.succ_pos _⟩
    · obtain ⟨inner, opening, closing, middle, hopening, hpasses, hinner, hclosing, hend, rfl⟩ :=
        (accepts_primary_grouping hcursor hkind).mp hrun
      obtain ⟨⟨⟨tokens, htokens, hspelled⟩, -, hproper, hdepth⟩, -⟩ := (h _ _ _ hopening).mp hinner
      refine ⟨⟨_, ?_, .grouping hkind hspelled hclosing⟩, Nat.le_refl 9, hproper,
        Nat.succ_lt_succ hdepth⟩
      simpa [Expr.ids] using hpasses.trans (htokens.trans hend)
  · rintro ⟨⟨⟨tokens, hpasses, hspelled⟩, hstrength, hproper, hdepth⟩, -⟩
    match expr, hspelled with
    | .literal .., .literal hvalue =>
      obtain rfl := hpasses.peek
      exact (accepts_primary_literal hcursor hvalue).mpr ⟨hpasses, rfl⟩
    | .variable .., .variable hname =>
      obtain rfl := hpasses.peek
      obtain rfl := Cursor.Passes.first_id hpasses
      exact (accepts_primary_variable hcursor hname).mpr ⟨hpasses, rfl⟩
    | .commandRef .., .commandRef hword =>
      obtain rfl := hpasses.peek
      exact (accepts_primary_commandRef hcursor hword).mpr ⟨hpasses, rfl⟩
    | .grouping inner _, .grouping hopening hinner hclosing =>
      obtain rfl := hpasses.peek
      obtain ⟨opening, hfirst, hrest⟩ := hpasses.uncons
      obtain ⟨middle, hpart, hend⟩ := hrest.split_last
      have hcloses : middle.peek.kind.Stops 0 := by
        rw [hend.peek, hclosing]
        exact fun found hfound => nomatch hfound
      have hbounded := hfirst.bounded hcursor
      exact (accepts_primary_grouping hcursor hopening).mpr
        ⟨inner, opening, _, middle, hbounded, hfirst, (h _ _ _ hbounded).mpr
          ⟨⟨⟨_, hpart, hinner⟩, Nat.zero_le _, hproper, Nat.lt_of_succ_lt_succ hdepth⟩, hcloses⟩,
          hclosing, hend, rfl⟩
    | .unary .., _ | .assign .., _ | .call .., _ => simp [Expr.strength] at hstrength
    | .binary op .., _ => exact absurd (Nat.le_trans hstrength op.strength_mem.2) (by decide)
    | .logical op .., _ => exact absurd (Nat.le_trans hstrength op.strength_mem.2) (by decide)

/-! ## Calls -/

theorem reads_argument (h : expression.ReadsExpr 0 levels) :
    expression.Reads Expr.Spelled Expr.ids (fun expr => expr.Proper ∧ expr.depth < levels)
      (·.Stops 0) := by
  intro cursor expr after hcursor
  rw [h cursor expr after hcursor]
  constructor
  · rintro ⟨⟨htokens, -, hproper, hdepth⟩, hstops⟩
    exact ⟨htokens, ⟨hproper, hdepth⟩, hstops⟩
  · rintro ⟨htokens, ⟨hproper, hdepth⟩, hstops⟩
    exact ⟨⟨htokens, Nat.zero_le _, hproper, hdepth⟩, hstops⟩

variable {callee expr : Expr}

theorem accepts_finishCall (h : expression.ReadsExpr 0 levels) (hcursor : cursor.Bounded) :
    (finishCall expression callee).Accepts cursor expr after ↔
      ∃ args tokens closing, Separated Expr.Spelled args tokens ∧ closing.kind = .rightParen ∧
        args.length ≤ maxArguments ∧ Expr.ProperAll args ∧ Expr.depthAll args < levels + 1 ∧
        cursor.Passes after (tokens ++ [closing]) (Expr.idsAll args) ∧
        expr = .call callee args closing.line := by
  have hbegins : ∀ (arg : Expr) tokens, arg.Spelled tokens → ∃ first rest,
      tokens = first :: rest ∧ first.kind ≠ .rightParen := by
    intro arg tokens hspelled
    obtain ⟨first, rest, rfl, hfirst⟩ := hspelled.begins
    exact ⟨first, rest, rfl, fun hkind => absurd (hkind ▸ hfirst) (by decide)⟩
  refine (accepts_list_bind (reads_argument h) (fun found hfound => nomatch hfound)
    (fun found hfound => nomatch hfound) (by decide) hbegins hcursor).trans ?_
  simp only [Expr.properAll_iff, Expr.depthAll_lt_iff, Expr.idsAll_eq]
  constructor
  · rintro ⟨args, tokens, closing, behind, -, hspelled, hkind, hlength, hvalid, hpasses, hpure⟩
    obtain ⟨rfl, rfl⟩ := accepts_pure.mp hpure
    exact ⟨args, tokens, closing, hspelled, hkind, hlength, fun arg harg => (hvalid arg harg).1,
      fun arg harg => (hvalid arg harg).2, hpasses, rfl⟩
  · rintro ⟨args, tokens, closing, hspelled, hkind, hlength, hproper, hdepth, hpasses, rfl⟩
    exact ⟨args, tokens, closing, after, hpasses.bounded hcursor, hspelled, hkind, hlength,
      fun arg harg => ⟨hproper arg harg, hdepth arg harg⟩, hpasses, accepts_pure.mpr ⟨rfl, rfl⟩⟩

/-- One more argument list, after a callee. -/
def callPass (expression : Rule Expr) (callee : Expr) : Rule (Pass Expr) := do
  if ← accept .leftParen then return .again (← finishCall expression callee)
  else return .last callee

theorem goesOn_callPass (h : expression.ReadsExpr 0 levels) :
    GoesOn 8 (levels + 1) (callPass expression) where
  last callee next cursor middle hcursor := by
    unfold callPass
    rw [accepts_accept_bind hcursor (by decide)]
    have hjoins : cursor.peek.kind.joins? ≠ some 8 ↔ cursor.peek.kind ≠ .leftParen := by
      cases cursor.peek.kind <;> simp [TokenKind.joins?]
    rw [hjoins]
    constructor
    · rintro (⟨_, _, -, -, -, hrest⟩ | ⟨hne, hrest⟩)
      · obtain ⟨_, _, -, hpure⟩ := accepts_bind.mp hrest
        cases (accepts_pure.mp hpure).1
      · obtain ⟨hnext, rfl⟩ := accepts_pure.mp hrest
        exact ⟨hne, Pass.last.inj hnext, rfl⟩
    · rintro ⟨hne, rfl, rfl⟩
      exact .inr ⟨hne, accepts_pure.mpr ⟨rfl, rfl⟩⟩
  again callee next start cursor middle hstart hcallee hagain := by
    obtain ⟨before, hbefore, hspelled⟩ := hcallee.tokens
    unfold callPass at hagain
    rcases (accepts_accept_bind (hbefore.bounded hstart) (by decide)).mp hagain with
      ⟨opening, between, hbetween, hopening, htoken, hrest⟩ | ⟨-, hrest⟩
    · obtain ⟨expr, _, hfinish, hpure⟩ := accepts_bind.mp hrest
      obtain ⟨hnext, rfl⟩ := accepts_pure.mp hpure
      obtain rfl := Pass.again.inj hnext
      obtain ⟨args, tokens, closing, hargs, hclosing, hlength, hproper, hdepth, hpasses, rfl⟩ :=
        (accepts_finishCall h hbetween).mp hfinish
      have hboth := htoken.trans hpasses
      refine ⟨hboth.length_lt (by simp), ⟨⟨_, ?_, .call hspelled hopening hargs hclosing⟩,
        Nat.le_refl 8, ⟨hcallee.strength, hcallee.proper, hlength, hproper⟩,
        Nat.max_lt.mpr ⟨hcallee.depth, hdepth⟩⟩, TokenKind.stops_nine _⟩
      exact hbefore.trans hboth
    · cases (accepts_pure.mp hrest).1
  parts next start middle hstart hnext hstrength hstops := by
    obtain ⟨⟨tokens, hpasses, hspelled⟩, -, hproper, hdepth⟩ := hnext
    match next, hspelled with
    | .call callee args _, .call hcallee hopening hargs hclosing =>
      obtain ⟨cursor, hbefore, hbehind⟩ := Cursor.Passes.split hpasses
      obtain ⟨between, htoken, hrest⟩ := hbehind.uncons
      obtain ⟨hcalleeStrength, hcalleeProper, hlength, hargsProper⟩ := hproper
      obtain ⟨hcalleeDepth, hargsDepth⟩ := Nat.max_lt.mp hdepth
      have hcursor := hbefore.bounded hstart
      have hbetween := htoken.bounded hcursor
      refine ⟨callee, cursor, ⟨⟨_, hbefore, hcallee⟩, hcalleeStrength, hcalleeProper, hcalleeDepth⟩,
        TokenKind.stops_nine _, hbehind.length_lt (List.cons_ne_nil _ _), ?_⟩
      unfold callPass
      refine (accepts_accept_bind hcursor (by decide)).mpr
        (.inl ⟨_, between, hbetween, hopening, htoken, ?_⟩)
      exact accepts_bind.mpr ⟨_, middle, (accepts_finishCall h hbetween).mpr ⟨args, _, _, hargs,
        hclosing, hlength, hargsProper, hargsDepth, hrest, rfl⟩, accepts_pure.mpr ⟨rfl, rfl⟩⟩
    | .binary op .., _ =>
      have hle : op.strength ≤ 6 := op.strength_mem.2
      simp only [Expr.strength] at hstrength
      omega
    | .logical op .., _ =>
      have hle : op.strength ≤ 2 := op.strength_mem.2
      simp only [Expr.strength] at hstrength
      omega
    | .unary .., _ | .assign .., _ | .literal .., _ | .variable .., _ | .commandRef .., _
    | .grouping .., _ => simp [Expr.strength] at hstrength

/-- Calls of calls, and what can be called. -/
theorem readsExpr_call (h : expression.ReadsExpr 0 levels) :
    (call expression).ReadsExpr 8 (levels + 1) :=
  readsExpr_leaning (goesOn_callPass h) (readsExpr_primary h)

/-! ## Unary operators -/

theorem unaryOp?_eq_some {kind : TokenKind} {op : UnaryOp} :
    unaryOp? kind = some op ↔ kind = op.kind := by
  cases op <;> cases kind <;> simp [unaryOp?, UnaryOp.kind]

/-- What is stronger than a unary operator does not begin with one. -/
theorem begins_call {expr : Expr} {tokens : List Token} (h : expr.Spelled tokens)
    (hstrength : 8 ≤ expr.strength) (hproper : expr.Proper) :
    ∃ first rest, tokens = first :: rest ∧ unaryOp? first.kind = none := by
  match expr, h with
  | .literal .., .literal hvalue =>
    refine ⟨_, _, rfl, ?_⟩
    unfold Token.Denotes at hvalue
    split at hvalue
    case h_6 => exact hvalue.elim
    all_goals
      rename_i hkind
      rw [hkind]
      rfl
  | .grouping .., .grouping hopening _ _ => exact ⟨_, _, rfl, hopening ▸ rfl⟩
  | .variable .., .variable hname => exact ⟨_, _, rfl, hname ▸ rfl⟩
  | .commandRef .., .commandRef hword => exact ⟨_, _, rfl, hword ▸ rfl⟩
  | .call callee .., .call hcallee _ _ _ =>
    obtain ⟨first, rest, rfl, hfirst⟩ := begins_call hcallee hproper.1 hproper.2.1
    exact ⟨first, _, rfl, hfirst⟩
  | .binary op .., _ => exact absurd (Nat.le_trans hstrength op.strength_mem.2) (by decide)
  | .logical op .., _ => exact absurd (Nat.le_trans hstrength op.strength_mem.2) (by decide)
  | .unary .., _ | .assign .., _ => simp [Expr.strength] at hstrength

theorem unary_of_strength {expr : Expr} {tokens : List Token} (h : expr.Spelled tokens)
    (hstrength : expr.strength = 7) :
    ∃ operator op inner rest, expr = .unary op inner operator.line ∧ tokens = operator :: rest ∧
      operator.kind = op.kind ∧ inner.Spelled rest := by
  match expr, h with
  | .unary .., .unary hoperator hinner => exact ⟨_, _, _, _, rfl, rfl, hoperator, hinner⟩
  | .binary op .., _ =>
    have hle : op.strength ≤ 6 := op.strength_mem.2
    simp only [Expr.strength] at hstrength
    omega
  | .logical op .., _ =>
    have hle : op.strength ≤ 2 := op.strength_mem.2
    simp only [Expr.strength] at hstrength
    omega
  | .call .., _ | .assign .., _ | .literal .., _ | .variable .., _ | .commandRef .., _
  | .grouping .., _ => simp [Expr.strength] at hstrength

/-- Operands of products: calls, behind any number of unary operators. -/
theorem readsExpr_unary (h : expression.ReadsExpr 0 levels)
    (hoperand : operand.ReadsExpr 7 levels) :
    (unary expression operand).ReadsExpr 7 (levels + 1) := by
  intro cursor expr after hcursor
  unfold unary
  rw [accepts_peek_bind]
  cases hop : unaryOp? cursor.peek.kind with
  | some op =>
    have hkind := unaryOp?_eq_some.mp hop
    dsimp only
    rw [accepts_skip_bind hcursor (by rw [hkind]; cases op <;> decide)]
    constructor
    · rintro ⟨middle, hmiddle, hpasses, hrest⟩
      obtain ⟨inner, _, hinner, hpure⟩ := accepts_bind.mp hrest
      obtain ⟨rfl, rfl⟩ := accepts_pure.mp hpure
      obtain ⟨⟨⟨tokens, htokens, hspelled⟩, hstrength, hproper, hdepth⟩, hstops⟩ :=
        (hoperand _ _ _ hmiddle).mp hinner
      exact ⟨⟨⟨_, hpasses.trans htokens, .unary hkind hspelled⟩, Nat.le_refl 7,
        ⟨hstrength, hproper⟩, Nat.succ_lt_succ hdepth⟩, hstops⟩
    · rintro ⟨⟨⟨tokens, hpasses, hspelled⟩, hstrength, hproper, hdepth⟩, hstops⟩
      rcases Nat.lt_or_eq_of_le hstrength with hlt | heq
      · obtain ⟨first, rest, rfl, hfirst⟩ := begins_call hspelled hlt hproper
        rw [hpasses.peek, hfirst] at hop
        cases hop
      · obtain ⟨operator, found, inner, rest, rfl, rfl, hoperator, hinner⟩ :=
          unary_of_strength hspelled heq.symm
        obtain rfl := hpasses.peek
        rw [unaryOp?_eq_some.mpr hoperator] at hop
        obtain rfl := Option.some.inj hop
        obtain ⟨middle, htoken, hrest⟩ := hpasses.uncons
        have hmiddle := htoken.bounded hcursor
        exact ⟨middle, hmiddle, htoken, accepts_bind.mpr ⟨inner, after,
          (hoperand _ _ _ hmiddle).mpr ⟨⟨⟨_, hrest, hinner⟩, hproper.1, hproper.2,
            Nat.lt_of_succ_lt_succ hdepth⟩, hstops⟩, accepts_pure.mpr ⟨rfl, rfl⟩⟩⟩
  | none =>
    dsimp only
    rw [readsExpr_call h cursor expr after hcursor]
    constructor
    · rintro ⟨hexpr, hstops⟩
      exact ⟨{ hexpr with strength := Nat.le_of_succ_le hexpr.strength },
        hstops.pred fun hjoins => (TokenKind.joins?_le hjoins).2 rfl⟩
    · rintro ⟨hexpr, hstops⟩
      refine ⟨{ hexpr with strength := Nat.lt_of_le_of_ne hexpr.strength fun heq => ?_ },
        hstops.mono (by decide)⟩
      obtain ⟨tokens, hpasses, hspelled⟩ := hexpr.tokens
      obtain ⟨operator, op, inner, rest, rfl, rfl, hoperator, -⟩ :=
        unary_of_strength hspelled heq.symm
      rw [hpasses.peek, unaryOp?_eq_some.mpr hoperator] at hop
      cases hop

end Operands

end CommandScript.Grammar
