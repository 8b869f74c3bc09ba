import CommandScript.Proofs.Grammar.Commands
import CommandScript.Proofs.Syntax.Parts

/-!
# The tokens that a program is made of

Whatever stands in a program that was read without a fault was read from tokens: names are
lexemes, expressions and commands are spelled by tokens that follow each other. The condition
of a `for` that has none is the only part without a token.

Limits are reported and do not stop a rule, so only runs without faults keep them. This is
why the rules are judged by what they accept.

* `Stmt.Parts.spelledBy`: parts that are spelled by some of the tokens.
* `Rule.Builds`: what a rule accepts has a property.
* `madeOf_of_parse`: the parts of a program are spelled by its tokens.
-/

namespace CommandScript

variable {tokens part : List Token}

/-- The name is that of a token. -/
def Named (tokens : List Token) (name : String) : Prop :=
  ∃ token ∈ tokens, token.kind = .identifier ∧ token.lexeme = name

/-- The expression is spelled by some of the tokens, or is the condition of a `for` without one. -/
def Expr.SpelledBy (tokens : List Token) (expr : Expr) : Prop :=
  (∃ part, part ⊆ tokens ∧ expr.Spelled part ∧ expr.Proper) ∨
    ∃ line, expr = .literal (.bool true) line

/-- The command is spelled by some of the tokens. -/
inductive Command.SpelledBy (tokens : List Token) : Command → Prop where
  | deliver {levels : Nat} {name : String} {given : List Arg} {line : Nat} {part : List Token} :
      part ⊆ tokens → Command.Written levels (.deliver name given line) part →
      SpelledBy tokens (.deliver name given line)
  | help {topic : Option String} {line : Nat} :
      (∀ name ∈ topic, ∃ word ∈ tokens, word.kind = .command ∧ name = Text.lowered word.lexeme) →
      SpelledBy tokens (.help topic line)
  | exit {line : Nat} : SpelledBy tokens (.exit line)

/-- Parts that are spelled by some of the tokens, with as many parameters as are allowed. -/
def Stmt.Parts.spelledBy (tokens : List Token) : Stmt.Parts where
  expr := Expr.SpelledBy tokens
  name := Named tokens
  params params :=
    params.length ≤ Grammar.maxArguments ∧ ∀ param ∈ params, Named tokens param.name
  command := Command.SpelledBy tokens

namespace Grammar

open Rule

theorem Cursor.Passes.subset {before after : Cursor} {ids : List NodeId}
    (h : before.Passes after part ids) (hrest : before.rest ⊆ tokens) :
    part ⊆ tokens ∧ after.rest ⊆ tokens := by
  rw [h.rest, List.append_subset] at hrest
  exact hrest

/-! ## Rules by what they accept -/

namespace Rule

variable {α β : Type}

/-- What the rule accepts before some of the tokens has the property. -/
def Builds (tokens : List Token) (rule : Rule α) (property : α → Prop) : Prop :=
  ∀ cursor a after, cursor.Bounded → cursor.rest ⊆ tokens → rule.Accepts cursor a after →
    property a

variable {rule : Rule α} {property : α → Prop}

/-- What is left behind a rule is some of the tokens. -/
theorem Accepts.subset {cursor after : Cursor} {a : α} (h : rule.Accepts cursor a after)
    (hrest : cursor.rest ⊆ tokens) : after.rest ⊆ tokens :=
  List.Subset.trans (leadsTo_of_run h.1).suffix.subset hrest

theorem builds_true (rule : Rule α) : rule.Builds tokens fun _ => True :=
  fun _ _ _ _ _ _ => trivial

theorem builds_pure {a : α} (h : property a) : (pure a : Rule α).Builds tokens property := by
  intro cursor b after _ _ haccepts
  obtain ⟨rfl, -⟩ := accepts_pure.mp haccepts
  exact h

theorem builds_bind {next : α → Rule β} {last : β → Prop} (h : rule.Builds tokens property)
    (hnext : ∀ a, property a → (next a).Builds tokens last) :
    (rule >>= next).Builds tokens last := by
  intro cursor b after hcursor hrest haccepts
  obtain ⟨a, middle, hfirst, hsecond⟩ := accepts_bind.mp haccepts
  exact hnext a (h _ _ _ hcursor hrest hfirst) _ _ _ (hfirst.bounded hcursor)
    (hfirst.subset hrest) hsecond

/-- What comes before does not matter. -/
theorem builds_after {next : α → Rule β} {last : β → Prop}
    (hnext : ∀ a, (next a).Builds tokens last) : (rule >>= next).Builds tokens last :=
  builds_bind (builds_true rule) fun a _ => hnext a

theorem builds_map {f : α → β} {last : β → Prop} (h : rule.Builds tokens property)
    (hf : ∀ a, property a → last (f a)) : (f <$> rule).Builds tokens last :=
  builds_bind h fun a ha => builds_pure (hf a ha)

theorem builds_repeated {pass : α → Rule (Pass α)}
    (hpass : ∀ state, property state → (pass state).Builds tokens fun result =>
      property result.state) {state : α} (h : property state) :
    (repeated pass state).Builds tokens property := by
  intro cursor final after hcursor hrest haccepts
  induction hlength : cursor.rest.length using Nat.strongRecOn generalizing state cursor with
  | _ length ih =>
    subst hlength
    obtain hlast | ⟨next, middle, hagain, hmore⟩ := accepts_repeated.mp haccepts
    · exact hpass state h _ _ _ hcursor hrest hlast
    · have hnext : property next := hpass state h _ _ _ hcursor hrest hagain
      split at hmore
      · rename_i hread
        exact ih _ ((leadsTo_of_run hagain.1).length_lt hread) hnext middle
          (hagain.bounded hcursor) (hagain.subset hrest) hmore rfl
      · obtain ⟨rfl, -⟩ := hmore
        exact hnext

end Rule

/-! ## Expressions with their tokens -/

variable {levels : Nat} {inner : Nested} {mode : InputMode} {line : Nat}

theorem spelledBy_of_written {expr : Expr} (h : Expr.Written levels expr part)
    (hpart : part ⊆ tokens) : expr.SpelledBy tokens :=
  .inl ⟨part, hpart, h.spelled, h.proper⟩

theorem spelledBy_of_option {value : Option Expr} (h : OptionWritten levels value part)
    (hpart : part ⊆ tokens) : ∀ expr ∈ value, expr.SpelledBy tokens := by
  rintro expr rfl
  exact .inl ⟨part, hpart, h.spelled, h.proper⟩

theorem builds_expression {expression : Rule Expr} (h : expression.ReadsExpr 0 levels) :
    expression.Builds tokens (Expr.SpelledBy tokens) := by
  intro cursor expr after hcursor hrest haccepts
  obtain ⟨⟨⟨part, hpasses, hspelled⟩, -, hproper, -⟩, -⟩ := (h _ _ _ hcursor).mp haccepts
  exact .inl ⟨part, (hpasses.subset hrest).1, hspelled, hproper⟩

/-! ## Statements -/

/-- What the rules of one level read is spelled by the tokens. -/
structure Nested.Builds (tokens : List Token) (levels : Nat) (inner : Nested) : Prop where
  expression : inner.expression.ReadsExpr 0 levels
  statement : inner.statement.Builds tokens (Stmt.MadeOf (.spelledBy tokens))
  block : inner.block.Builds tokens (Stmt.MadeOfAll (.spelledBy tokens))

theorem madeOf_of_decl {decl : VariableDecl} (h : decl.Written levels part)
    (hpart : part ⊆ tokens) : decl.lowered.MadeOf (.spelledBy tokens) := by
  obtain ⟨hspelled, hproper, -⟩ := h
  cases hspelled with
  | @bare name _ hname _ =>
    exact ⟨⟨name, hpart List.mem_cons_self, hname, rfl⟩, fun _ hnone => nomatch hnone⟩
  | @initialized name equal closing value within hname _ hvalue _ =>
    have hwithin : within ⊆ tokens := fun token htoken =>
      hpart (List.mem_cons_of_mem _ (List.mem_cons_of_mem _ (List.mem_append_left _ htoken)))
    refine ⟨⟨name, hpart List.mem_cons_self, hname, rfl⟩, ?_⟩
    rintro expr ⟨⟩
    exact .inl ⟨within, hwithin, hvalue, hproper⟩

theorem spelledBy_of_closed {expr : Expr} (h : expr.Closed line part) (hproper : expr.Proper)
    (hpart : part ⊆ tokens) : expr.SpelledBy tokens := by
  cases h with
  | @intro first _ rest hspelled _ =>
    refine .inl ⟨first :: rest, ?_, hspelled, hproper⟩
    exact List.Subset.trans (List.cons_subset_cons _ (List.subset_append_left _ _)) hpart

theorem builds_variableDeclaration (h : inner.expression.ReadsExpr 0 levels) :
    (variableDeclaration inner).Builds tokens (Stmt.MadeOf (.spelledBy tokens)) := by
  intro cursor stmt after hcursor hrest haccepts
  obtain ⟨decl, part, hwritten, hpasses, rfl⟩ :=
    (accepts_variableDeclaration h hcursor).mp haccepts
  exact madeOf_of_decl hwritten (hpasses.subset hrest).1

theorem builds_expressionStatement (h : inner.expression.ReadsExpr 0 levels) :
    (expressionStatement inner).Builds tokens (Stmt.MadeOf (.spelledBy tokens)) := by
  intro cursor stmt after hcursor hrest haccepts
  obtain ⟨expr, line, part, hclosed, hproper, -, hpasses, rfl⟩ :=
    (accepts_expressionStatement h hcursor).mp haccepts
  exact spelledBy_of_closed hclosed hproper (hpasses.subset hrest).1

theorem madeOf_of_start {start : ForStart} (h : start.Written levels part)
    (hpart : part ⊆ tokens) : ∀ clause ∈ start.lowered?, clause.MadeOf (.spelledBy tokens) := by
  obtain ⟨hspelled, hproper, hlevels⟩ := h
  cases hspelled with
  | absent _ => exact fun _ hnone => nomatch hnone
  | declared _ hdecl =>
    rintro clause ⟨⟩
    exact madeOf_of_decl ⟨hdecl, hproper, hlevels⟩ (List.subset_of_cons_subset hpart)
  | expression hclosed =>
    rintro clause ⟨⟩
    exact spelledBy_of_closed hclosed hproper hpart

/-- The loop that a `for` abbreviates is made of the parts of the `for`. -/
theorem madeOf_forLoop {parts : Stmt.Parts} {initializer : Option Stmt} {condition : Expr}
    {increment : Option Expr} {body : Stmt}
    (hinitializer : ∀ clause ∈ initializer, clause.MadeOf parts) (hcondition : parts.expr condition)
    (hincrement : ∀ step ∈ increment, parts.expr step) (hbody : body.MadeOf parts) :
    (forLoop initializer condition increment body line).MadeOf parts := by
  have hstepped : ∀ step ∈ increment,
      (Stmt.block [body, .expression step step.line]).MadeOf parts :=
    fun step hstep => ⟨hbody, hincrement step hstep, trivial⟩
  cases initializer with
  | none =>
    cases increment with
    | none => exact ⟨hcondition, hbody⟩
    | some step => exact ⟨hcondition, hstepped step rfl⟩
  | some start =>
    cases increment with
    | none => exact ⟨hinitializer start rfl, ⟨hcondition, hbody⟩, trivial⟩
    | some step => exact ⟨hinitializer start rfl, ⟨hcondition, hstepped step rfl⟩, trivial⟩

theorem builds_forStatement (h : inner.Builds tokens levels) :
    (forStatement inner line).Builds tokens (Stmt.MadeOf (.spelledBy tokens)) := by
  intro cursor stmt after hcursor hrest haccepts
  obtain ⟨start, condition, increment, first, second, third, opening, semicolon, closing, middle,
    body, hmiddle, -, hstart, hcondition, -, hincrement, -, hpasses, hbody, rfl⟩ :=
    (accepts_forStatement h.expression hcursor).mp haccepts
  obtain ⟨hpart, hbehind⟩ := hpasses.subset hrest
  simp only [List.cons_subset, List.append_subset] at hpart
  obtain ⟨-, hfirst, ⟨hsecond, -⟩, hthird, -⟩ := hpart
  refine madeOf_forLoop (madeOf_of_start hstart hfirst) ?_ (spelledBy_of_option hincrement hthird)
    (h.statement _ _ _ hmiddle hbehind hbody)
  cases condition with
  | none => exact .inr ⟨line, rfl⟩
  | some test => exact spelledBy_of_option hcondition hsecond test rfl

theorem builds_ifStatement (h : inner.Builds tokens levels) :
    (ifStatement inner line).Builds tokens (Stmt.MadeOf (.spelledBy tokens)) := by
  intro cursor stmt after hcursor hrest haccepts
  obtain ⟨condition, part, opening, closing, middle, body, behind, hmiddle, -, hwritten, -,
    hpasses, hbody, hend⟩ := (accepts_ifStatement h.expression hcursor).mp haccepts
  obtain ⟨hpart, hleft⟩ := hpasses.subset hrest
  simp only [List.cons_subset, List.append_subset] at hpart
  have hcondition := spelledBy_of_written hwritten hpart.2.1
  have hthen := h.statement _ _ _ hmiddle hleft hbody
  obtain ⟨-, -, rfl⟩ | ⟨other, start, elseBranch, -, htoken, helse, rfl⟩ := hend
  · exact ⟨hcondition, hthen⟩
  · have hbehind := htoken.bounded (hbody.bounded hmiddle)
    have hlast := (htoken.subset (hbody.subset hleft)).2
    exact ⟨hcondition, hthen, h.statement _ _ _ hbehind hlast helse⟩

theorem builds_whileStatement (h : inner.Builds tokens levels) :
    (whileStatement inner line).Builds tokens (Stmt.MadeOf (.spelledBy tokens)) := by
  intro cursor stmt after hcursor hrest haccepts
  obtain ⟨condition, part, opening, closing, middle, body, hmiddle, -, hwritten, -, hpasses, hbody,
    rfl⟩ := (accepts_whileStatement h.expression hcursor).mp haccepts
  obtain ⟨hpart, hleft⟩ := hpasses.subset hrest
  simp only [List.cons_subset, List.append_subset] at hpart
  exact ⟨spelledBy_of_written hwritten hpart.2.1, h.statement _ _ _ hmiddle hleft hbody⟩

theorem builds_printStatement (h : inner.expression.ReadsExpr 0 levels) :
    (printStatement inner mode line).Builds tokens (Stmt.MadeOf (.spelledBy tokens)) :=
  builds_bind (builds_expression h) fun _ hexpr => builds_after fun _ => builds_pure hexpr

theorem builds_returnStatement (h : inner.expression.ReadsExpr 0 levels) :
    (returnStatement inner line).Builds tokens (Stmt.MadeOf (.spelledBy tokens)) := by
  intro cursor stmt after hcursor hrest haccepts
  obtain ⟨value, part, closing, hwritten, -, hpasses, rfl⟩ :=
    (accepts_returnStatement h hcursor).mp haccepts
  exact spelledBy_of_option hwritten (List.append_subset.mp (hpasses.subset hrest).1).1

theorem named_of_separated {params : List Parameter}
    (h : Separated Parameter.Spelled params part) (hpart : part ⊆ tokens) :
    ∀ param ∈ params, Named tokens param.name := by
  have hone {param : Parameter} {own : List Token} (hspelled : param.Spelled own)
      (hown : own ⊆ tokens) : Named tokens param.name := by
    obtain ⟨name, hname, rfl, rfl⟩ := hspelled
    exact ⟨name, hown List.mem_cons_self, hname, rfl⟩
  induction h with
  | none => exact List.forall_mem_nil _
  | one hspelled => exact List.forall_mem_singleton.mpr (hone hspelled hpart)
  | more hspelled _ _ ih =>
    obtain ⟨hfirst, hbehind⟩ := List.append_subset.mp hpart
    exact List.forall_mem_cons.mpr
      ⟨hone hspelled hfirst, ih (List.subset_of_cons_subset hbehind)⟩

theorem builds_functionDeclaration (h : inner.Builds tokens levels) :
    (functionDeclaration inner).Builds tokens (Stmt.MadeOf (.spelledBy tokens)) := by
  intro cursor stmt after hcursor hrest haccepts
  obtain ⟨name, opening, params, heads, closing, brace, middle, body, hmiddle, hname, -, hparams,
    hlength, -, -, hpasses, hbody, rfl⟩ := (accepts_functionDeclaration hcursor).mp haccepts
  obtain ⟨hpart, hleft⟩ := hpasses.subset hrest
  simp only [List.cons_subset, List.append_subset] at hpart
  obtain ⟨hmem, -, ⟨hheads, -⟩, -⟩ := hpart
  exact ⟨⟨name, hmem, hname, rfl⟩, ⟨hlength, named_of_separated hparams hheads⟩,
    h.block _ _ _ hmiddle hleft hbody⟩

/-! ## Commands -/

theorem builds_helpTopic : helpTopic.Builds tokens fun topic => ∀ name ∈ topic,
    ∃ word ∈ tokens, word.kind = .command ∧ name = Text.lowered word.lexeme := by
  refine builds_after fun ends => ?_
  split
  · exact builds_pure fun _ hnone => nomatch hnone
  · intro cursor topic after hcursor hrest haccepts
    obtain ⟨word, middle, -, hword, hpasses, hpure⟩ | ⟨-, hfail⟩ :=
      (accepts_accept?_bind hcursor (by decide)).mp haccepts
    · obtain ⟨rfl, rfl⟩ := accepts_pure.mp hpure
      rintro name ⟨⟩
      exact ⟨word, (hpasses.subset hrest).1 List.mem_cons_self, hword, rfl⟩
    · exact absurd (accepts_peek_bind.mp hfail) not_accepts_fail

/-- A command behind its word. -/
theorem builds_command {expression : Rule Expr} (h : expression.ReadsExpr 0 levels) {word : Token}
    (hword : word.kind = .command) (hmem : word ∈ tokens) :
    (command expression word).Builds tokens (Command.SpelledBy tokens) := by
  by_cases hname : Text.lowered word.lexeme ∈ ["help", "exit"]
  · unfold command
    dsimp only
    split
    · exact builds_bind builds_helpTopic fun topic htopic => builds_after fun _ =>
        builds_pure (.help htopic)
    · have hexit : Text.lowered word.lexeme = "exit" := by
        simp_all
      rw [if_pos hexit]
      exact builds_after fun _ => builds_pure .exit
  · intro cursor action after hcursor hrest haccepts
    obtain ⟨given, part, ending, rfl, hwritten, hpasses, -⟩ :=
      (accepts_deliver h hcursor hname).mp haccepts
    have hpart := (List.append_subset.mp (hpasses.subset hrest).1).1
    exact .deliver (List.cons_subset.mpr ⟨hmem, hpart⟩) (.deliver hword hname hwritten)

/-! ## All levels -/

/-- What stands behind a token that was looked at. -/
theorem builds_skip {kind : TokenKind} (hkind : kind ≠ .endOfInput) {α : Type} {rest : Rule α}
    {property : α → Prop} {cursor after : Cursor} {a : α} (hcursor : cursor.Bounded)
    (htokens : cursor.rest ⊆ tokens) (hpeek : cursor.peek.kind = kind)
    (h : (do skip; rest).Accepts cursor a after)
    (hrest : cursor.peek ∈ tokens → rest.Builds tokens property) : property a := by
  obtain ⟨middle, hmiddle, hpasses, haccepts⟩ :=
    (accepts_skip_bind hcursor (hpeek ▸ hkind)).mp h
  obtain ⟨hpart, hleft⟩ := hpasses.subset htokens
  exact hrest (hpart List.mem_cons_self) _ _ _ hmiddle hleft haccepts

theorem builds_statement (h : inner.Builds tokens levels) :
    (statement inner mode).Builds tokens (Stmt.MadeOf (.spelledBy tokens)) := by
  intro cursor stmt after hcursor hrest haccepts
  rw [statement, accepts_peek_bind] at haccepts
  split at haccepts
  case h_1 hkind =>
    exact builds_skip (by decide) hcursor hrest hkind haccepts fun _ => builds_forStatement h
  case h_2 hkind =>
    exact builds_skip (by decide) hcursor hrest hkind haccepts fun _ => builds_ifStatement h
  case h_3 hkind =>
    exact builds_skip (by decide) hcursor hrest hkind haccepts fun _ =>
      builds_printStatement h.expression
  case h_4 hkind =>
    exact builds_skip (by decide) hcursor hrest hkind haccepts fun _ =>
      builds_returnStatement h.expression
  case h_5 hkind =>
    exact builds_skip (by decide) hcursor hrest hkind haccepts fun _ => builds_whileStatement h
  case h_6 hkind =>
    exact builds_skip (by decide) hcursor hrest hkind haccepts fun _ =>
      builds_map h.block fun _ => id
  case h_7 hkind =>
    exact builds_skip (by decide) hcursor hrest hkind haccepts fun hmem =>
      builds_map (builds_command h.expression hkind hmem) fun _ => id
  case h_8 => exact builds_expressionStatement h.expression _ _ _ hcursor hrest haccepts

theorem builds_declaration (h : inner.Builds tokens levels) :
    (declaration inner).Builds tokens fun found =>
      ∀ stmt ∈ found, stmt.MadeOf (.spelledBy tokens) := by
  intro cursor found after hcursor hrest haccepts
  obtain ⟨stmt, rfl, hstmt⟩ := (accepts_declaration hcursor).mp haccepts
  rintro stmt ⟨⟩
  obtain ⟨word, middle, hmiddle, -, htoken, hfunction⟩ |
    ⟨word, middle, hmiddle, -, htoken, hvariable⟩ | ⟨-, -, hstatement⟩ := hstmt
  · exact builds_functionDeclaration h _ _ _ hmiddle (htoken.subset hrest).2 hfunction
  · exact builds_variableDeclaration h.expression _ _ _ hmiddle (htoken.subset hrest).2 hvariable
  · exact h.statement _ _ _ hcursor hrest hstatement

/-- All declarations up to some place. -/
theorem builds_gathered (h : inner.Builds tokens levels) (test : Rule Bool) :
    (repeated (gatherPass test inner) #[]).Builds tokens fun body =>
      Stmt.MadeOfAll (.spelledBy tokens) body.toList := by
  refine builds_repeated (fun body hbody => ?_) trivial
  refine builds_after fun ends => ?_
  split
  · exact builds_pure hbody
  · refine builds_bind (builds_declaration h) fun found hfound => ?_
    cases found with
    | none => exact builds_pure hbody
    | some stmt =>
      refine builds_pure ?_
      rw [Pass.state, Array.toList_push, Stmt.madeOfAll_iff]
      rw [Stmt.madeOfAll_iff] at hbody
      exact List.forall_mem_append.mpr ⟨hbody, List.forall_mem_singleton.mpr (hfound stmt rfl)⟩

theorem builds_blockBody (h : inner.Builds tokens levels) :
    (blockBody inner).Builds tokens (Stmt.MadeOfAll (.spelledBy tokens)) := by
  rw [blockBody_eq]
  exact builds_bind (builds_gathered h _) fun _ hbody => builds_after fun _ => builds_pure hbody

theorem builds_nested (tokens : List Token) (mode : InputMode) (levels : Nat) :
    (nested mode levels).Builds tokens levels := by
  induction levels with
  | zero =>
    exact ⟨(readsExpr_nested mode 0).1, fun _ _ _ _ _ h => absurd h not_accepts_tooDeep,
      fun _ _ _ _ _ h => absurd h not_accepts_tooDeep⟩
  | succ levels ih =>
    exact ⟨(readsExpr_nested mode (levels + 1)).1, builds_statement ih, builds_blockBody ih⟩

end Grammar

open Grammar Rule

variable {mode : InputMode} {nextId : NodeId} {program : List Stmt}

/-- The parts of a program that was read are spelled by its tokens. -/
theorem madeOf_of_parse (h : (parse mode tokens nextId).program = .ok program) :
    Stmt.MadeOfAll (.spelledBy tokens) program := by
  obtain ⟨final, after, hrun, hfaults, rfl, -⟩ := exists_run_of_parse h
  exact builds_gathered (builds_nested tokens mode maxNesting) atEnd _ _ _
    (Cursor.bounded_ofTokens tokens nextId) (List.takeWhile_prefix _).subset ⟨hrun, hfaults⟩

end CommandScript
