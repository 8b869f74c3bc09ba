import CommandScript.Proofs.Grammar.Arguments
import CommandScript.Proofs.Grammar.Programs
import CommandScript.Proofs.Grammar.Structure

/-!
# The commands of a program

A command that is written down is read as it was written, and every command of a program
that was read without faults had been written down: its word, what it is given and its end
stand somewhere among the tokens, and those of the next command come behind them. Only the
rule of commands makes commands; the other rules put the commands of their parts together in
the order in which they were read.

* `Stmt.delivered`: the commands of a statement that are delivered to the host.
* `CommandsBetween`: commands written down one behind the other.
* `Rule.Issues`: the commands of a result were written down where the rule has read.
* `parse_deliver`: reading a command, and the commands of a program.
-/

namespace CommandScript

def Command.delivered : Command → List Command
  | .deliver word given line => [.deliver word given line]
  | .help _ _ => []
  | .exit _ => []

mutual

/-- The commands other than `help` and `exit` in a statement, in the order of their tokens. -/
def Stmt.delivered : Stmt → List Command
  | .block body => Stmt.deliveredAll body
  | .expression _ _ => []
  | .branch _ thenBranch none _ => thenBranch.delivered
  | .branch _ thenBranch (some elseBranch) _ => thenBranch.delivered ++ elseBranch.delivered
  | .loop _ body _ => body.delivered
  | .print _ _ => []
  | .return _ _ => []
  | .declare _ _ _ => []
  | .function _ _ body _ => Stmt.deliveredAll body
  | .command action => action.delivered

def Stmt.deliveredAll : List Stmt → List Command
  | [] => []
  | stmt :: rest => stmt.delivered ++ Stmt.deliveredAll rest

end

theorem Stmt.deliveredAll_append (body rest : List Stmt) :
    Stmt.deliveredAll (body ++ rest) = Stmt.deliveredAll body ++ Stmt.deliveredAll rest := by
  induction body with
  | nil => rfl
  | cons stmt body ih => simp only [List.cons_append, deliveredAll, ih, List.append_assoc]

/-- The commands are written down one behind the other in the tokens of one list that are not
in the other, which is its end. -/
inductive CommandsBetween (levels : Nat) : List Token → List Command → List Token → Prop where
  | none {before after : List Token} : after <:+ before → CommandsBetween levels before [] after
  | command {skipped written ending rest after : List Token} {action : Command}
      {commands : List Command} : action.Written levels written → EndsCommand ending rest →
      CommandsBetween levels rest commands after →
      CommandsBetween levels (skipped ++ (written ++ (ending ++ rest))) (action :: commands) after

namespace CommandsBetween

variable {levels : Nat} {before middle after : List Token} {commands more : List Command}

theorem suffix_left (h : CommandsBetween levels middle commands after)
    (hmiddle : middle <:+ before) : CommandsBetween levels before commands after := by
  obtain ⟨passed, rfl⟩ := hmiddle
  cases h with
  | none hafter => exact .none (hafter.trans (List.suffix_append _ _))
  | command hwritten hends hrest =>
    rw [← List.append_assoc]
    exact .command hwritten hends hrest

theorem trans (h : CommandsBetween levels before commands middle)
    (hnext : CommandsBetween levels middle more after) :
    CommandsBetween levels before (commands ++ more) after := by
  induction h with
  | none hmiddle => exact hnext.suffix_left hmiddle
  | command hwritten hends _ ih => exact .command hwritten hends (ih hnext)

end CommandsBetween

namespace Grammar

open Rule

/-- On the way from one cursor to the other the commands were read. -/
structure Cursor.Issued (levels : Nat) (start : Cursor) (commands : List Command)
    (cursor : Cursor) : Prop where
  bounded : start.Bounded
  leadsTo : start.LeadsTo cursor
  between : cursor.faults = start.faults → CommandsBetween levels start.rest commands cursor.rest

namespace Cursor.Issued

variable {levels : Nat} {start cursor after : Cursor} {held : List Command}

theorem atLast (h : start.Issued levels held cursor) : cursor.Bounded := by
  rw [Cursor.Bounded, h.leadsTo.last]
  exact h.bounded

/-- What is read without faults behind a cursor is added to what was read before it. -/
theorem add (h : start.Issued levels held cursor) (hleads : cursor.LeadsTo after)
    {commands : List Command} (hread : after.faults = cursor.faults →
      CommandsBetween levels cursor.rest commands after.rest) :
    start.Issued levels (held ++ commands) after := by
  refine ⟨h.bounded, h.leadsTo.trans hleads, fun hfaults => ?_⟩
  have hcursor := faults_between h.leadsTo hleads hfaults
  exact (h.between hcursor).trans (hread (hfaults.trans hcursor.symm))

theorem advance (h : start.Issued levels held cursor) (hleads : cursor.LeadsTo after) :
    start.Issued levels held after := by
  have hadded := h.add hleads fun _ => .none hleads.suffix
  rwa [List.append_nil] at hadded

end Cursor.Issued

namespace Rule

variable {α β : Type} {levels : Nat}

/-- The commands of the result were read by the rule. -/
def Issues (levels : Nat) (rule : Rule α) (commands : α → List Command) : Prop :=
  ∀ start held, Ensures (Cursor.Issued levels start held) rule fun a after =>
    Cursor.Issued levels start (held ++ commands a) after

variable {start : Cursor} {held : List Command} {rule : Rule α}

/-- Whatever a rule does, commands that were read before remain so. -/
theorem ensures_issued (rule : Rule α) :
    Ensures (start.Issued levels held) rule fun _ after => start.Issued levels held after := by
  intro cursor hissued a after hrun
  exact hissued.advance (leadsTo_of_run hrun)

theorem ensures_issued_pure {a : α} {commands : α → List Command} {before : List Command}
    (h : before ++ commands a = held) :
    Ensures (start.Issued levels held) (pure a) fun a after =>
      start.Issued levels (before ++ commands a) after :=
  ensures_pure fun _ hissued => h ▸ hissued

theorem ensures_issued_and {property : α → Prop} (h : rule.Yields property) :
    Ensures (start.Issued levels held) rule fun a after =>
      start.Issued levels held after ∧ property a := by
  intro cursor hissued a after hrun
  exact ⟨hissued.advance (leadsTo_of_run hrun), h cursor trivial a after hrun⟩

/-- Results without commands. -/
theorem issues_of_yields {commands : α → List Command}
    (h : rule.Yields fun a => commands a = []) : rule.Issues levels commands := by
  intro start held cursor hissued a after hrun
  have hnone : commands a = [] := h cursor trivial a after hrun
  rw [hnone, List.append_nil]
  exact hissued.advance (leadsTo_of_run hrun)

theorem issues_repeated (commands : α → List Command) {pass : α → Rule (Pass α)}
    (hpass : ∀ before state, Ensures (start.Issued levels (before ++ commands state)) (pass state)
      fun result after => start.Issued levels (before ++ commands result.state) after)
    {state : α} (hstate : commands state = []) :
    Ensures (start.Issued levels held) (repeated pass state) fun final after =>
      start.Issued levels (held ++ commands final) after := by
  have hrepeated := ensures_repeated
    (fun state after => start.Issued levels (held ++ commands state) after) (hpass held) state
  rwa [hstate, List.append_nil] at hrepeated

end Rule

/-! ## Statements -/

section Statements

variable {inner : Nested} {mode : InputMode} {levels : Nat}

/-- The rules of one level of nesting have read the commands of their results. -/
structure Nested.Issues (levels : Nat) (inner : Nested) : Prop where
  statement : inner.statement.Issues levels Stmt.delivered
  block : inner.block.Issues levels Stmt.deliveredAll

theorem silent_variableDeclaration :
    (variableDeclaration inner).Yields fun stmt => stmt.delivered = [] := by
  refine yields_after fun name => yields_after fun equal => ?_
  dsimp only
  split
  · exact yields_after fun _ => yields_after fun _ => yields_pure rfl
  · exact yields_after fun _ => yields_after fun _ => yields_pure rfl

theorem silent_expressionStatement :
    (expressionStatement inner).Yields fun stmt => stmt.delivered = [] :=
  yields_after fun _ => yields_after fun _ => yields_after fun _ => yields_pure rfl

theorem silent_forInitializer :
    (forInitializer inner).Yields fun initializer => ∀ stmt ∈ initializer, stmt.delivered = [] := by
  have hsome : ∀ stmt : Stmt, stmt.delivered = [] → ∀ other ∈ some stmt, other.delivered = [] :=
    fun stmt hstmt other hother => Option.some.inj hother ▸ hstmt
  refine yields_after fun semicolon => ?_
  split
  · exact yields_pure fun _ hnone => by cases hnone
  · refine yields_after fun varWord => ?_
    split
    · exact yields_bind silent_variableDeclaration fun stmt hstmt => yields_pure (hsome stmt hstmt)
    · exact yields_bind silent_expressionStatement fun stmt hstmt => yields_pure (hsome stmt hstmt)

theorem silent_printStatement (line : Nat) :
    (printStatement inner mode line).Yields fun stmt => stmt.delivered = [] :=
  yields_after fun _ => yields_after fun _ => yields_pure rfl

theorem silent_returnStatement (line : Nat) :
    (returnStatement inner line).Yields fun stmt => stmt.delivered = [] := by
  refine yields_after fun absent => ?_
  dsimp only
  split
  · exact yields_after fun _ => yields_after fun _ => yields_pure rfl
  · exact yields_after fun _ => yields_after fun _ => yields_pure rfl

theorem issues_functionDeclaration (h : inner.Issues levels) :
    (functionDeclaration inner).Issues levels Stmt.delivered := by
  intro start held
  have hrest : ∀ (name : Token) (params : List Parameter), Ensures (start.Issued levels held)
      (do
        let _ ← require .rightParen "')' after parameters"
        let _ ← require .leftBrace "'\x7b' before function body"
        let body ← inner.block
        return Stmt.function name.lexeme params body name.line)
      fun stmt after => start.Issued levels (held ++ stmt.delivered) after := by
    intro name params
    refine ensures_bind (ensures_issued _) fun _ => ensures_bind (ensures_issued _) fun _ => ?_
    exact ensures_bind (h.block start held) fun body => ensures_issued_pure rfl
  unfold functionDeclaration
  refine ensures_bind (ensures_issued _) fun name => ensures_bind (ensures_issued _) fun _ => ?_
  refine ensures_bind (ensures_issued _) fun empty => ?_
  dsimp only
  split
  · exact ensures_bind (ensures_issued _) (hrest name)
  · exact ensures_bind (ensures_issued _) (hrest name)

theorem delivered_forLoop {initializer : Option Stmt}
    (hinitializer : ∀ stmt ∈ initializer, stmt.delivered = []) (condition : Expr)
    (increment : Option Expr) (body : Stmt) (line : Nat) :
    (forLoop initializer condition increment body line).delivered = body.delivered := by
  cases initializer with
  | none => cases increment <;> simp [forLoop, Stmt.delivered, Stmt.deliveredAll]
  | some first =>
    have hfirst := hinitializer first rfl
    cases increment <;> simp [forLoop, Stmt.delivered, Stmt.deliveredAll, hfirst]

theorem issues_forStatement (h : inner.Issues levels) (line : Nat) :
    (forStatement inner line).Issues levels Stmt.delivered := by
  intro start held
  have hbody : ∀ (initializer : Option Stmt) (condition : Expr) (increment : Option Expr),
      (∀ stmt ∈ initializer, stmt.delivered = []) → Ensures (start.Issued levels held)
        (do
          let _ ← require .rightParen "')' after for clauses"
          let body ← inner.statement
          return forLoop initializer condition increment body line)
        fun stmt after => start.Issued levels (held ++ stmt.delivered) after := by
    intro initializer condition increment hinitializer
    refine ensures_bind (ensures_issued _) fun _ => ?_
    refine ensures_bind (h.statement start held) fun body => ensures_issued_pure ?_
    rw [delivered_forLoop hinitializer]
  have hcondition : ∀ (initializer : Option Stmt) (condition : Expr),
      (∀ stmt ∈ initializer, stmt.delivered = []) → Ensures (start.Issued levels held)
        (do
          let _ ← require .semicolon "';' after loop condition"
          let increment ← if ← check .rightParen then pure none else some <$> inner.expression
          let _ ← require .rightParen "')' after for clauses"
          let body ← inner.statement
          return forLoop initializer condition increment body line)
        fun stmt after => start.Issued levels (held ++ stmt.delivered) after := by
    intro initializer condition hinitializer
    refine ensures_bind (ensures_issued _) fun _ => ensures_bind (ensures_issued _) fun absent => ?_
    dsimp only
    split
    · exact ensures_bind (ensures_issued _) fun increment => hbody _ _ increment hinitializer
    · exact ensures_bind (ensures_issued _) fun increment => hbody _ _ increment hinitializer
  unfold forStatement
  refine ensures_bind (ensures_issued _) fun _ => ?_
  refine ensures_bind (ensures_issued_and silent_forInitializer) fun initializer => ?_
  rintro cursor ⟨hissued, hinitializer⟩
  refine ensures_bind (ensures_issued _) (fun absent => ?_) cursor hissued
  dsimp only
  split
  · exact ensures_bind (ensures_issued _) fun condition => hcondition _ condition hinitializer
  · exact ensures_bind (ensures_issued _) fun condition => hcondition _ condition hinitializer

theorem issues_ifStatement (h : inner.Issues levels) (line : Nat) :
    (ifStatement inner line).Issues levels Stmt.delivered := by
  intro start held
  refine ensures_bind (ensures_issued _) fun _ => ?_
  refine ensures_bind (ensures_issued _) fun condition => ensures_bind (ensures_issued _) fun _ => ?_
  refine ensures_bind (h.statement start _) fun thenBranch => ?_
  have hrest : ∀ elseBranch : Option Stmt,
      Ensures (start.Issued levels (held ++ thenBranch.delivered ++
          elseBranch.elim [] Stmt.delivered))
        (return Stmt.branch condition thenBranch elseBranch line)
        fun stmt after => start.Issued levels (held ++ stmt.delivered) after := by
    intro elseBranch
    refine ensures_issued_pure ?_
    cases elseBranch <;> simp [Stmt.delivered]
  refine ensures_bind (ensures_issued _) fun elseWord => ?_
  dsimp only
  split
  · exact ensures_bind (ensures_map (h.statement start _)) hrest
  · refine ensures_bind ?_ hrest
    exact ensures_issued_pure (List.append_nil _)

theorem issues_whileStatement (h : inner.Issues levels) (line : Nat) :
    (whileStatement inner line).Issues levels Stmt.delivered := by
  intro start held
  refine ensures_bind (ensures_issued _) fun _ => ?_
  refine ensures_bind (ensures_issued _) fun condition => ensures_bind (ensures_issued _) fun _ => ?_
  exact ensures_bind (h.statement start _) fun body => ensures_issued_pure rfl

theorem delivered_of_command {expression : Rule Expr} {word : Token}
    (hword : Text.lowered word.lexeme ∈ ["help", "exit"]) :
    (command expression word).Yields fun action => action.delivered = [] := by
  obtain hhelp | hexit : Text.lowered word.lexeme = "help" ∨ Text.lowered word.lexeme = "exit" := by
    simpa using hword
  · unfold command
    dsimp only
    rw [if_pos hhelp]
    exact yields_after fun _ => yields_after fun _ => yields_pure rfl
  · unfold command
    dsimp only
    rw [hexit, if_neg (by decide), if_pos rfl]
    exact yields_after fun _ => yields_pure rfl

/-- A command with its word. -/
theorem issued_command {expression : Rule Expr} {inside : Nat}
    (h : expression.ReadsExpr 0 inside) (hinside : inside < levels)
    {start cursor after : Cursor} {held : List Command} {stmt : Stmt}
    (hissued : start.Issued levels held cursor) (hkind : cursor.peek.kind = .command)
    (hrun : (do
      skip
      .command <$> command expression cursor.peek : Rule Stmt).run cursor = (.ok stmt, after)) :
    start.Issued levels (held ++ stmt.delivered) after := by
  by_cases hword : Text.lowered cursor.peek.lexeme ∈ ["help", "exit"]
  · have hsilent : (do
        skip
        .command <$> command expression cursor.peek : Rule Stmt).Yields
          fun stmt => stmt.delivered = [] :=
      yields_after fun _ => yields_map (delivered_of_command hword) fun _ => id
    exact issues_of_yields hsilent start held cursor hissued stmt after hrun
  · refine hissued.add (leadsTo_of_run hrun) fun hfaults => ?_
    obtain ⟨middle, hmiddle, hfirst, hrest⟩ :=
      (accepts_skip_bind hissued.atLast (by rw [hkind]; decide)).mp ⟨hrun, hfaults⟩
    obtain ⟨action, haction, rfl⟩ := accepts_map.mp hrest
    obtain ⟨given, tokens, ending, rfl, hwritten, hpasses, hends⟩ :=
      (accepts_deliver h hmiddle hword).mp haction
    have hrest : cursor.rest = [] ++ ((cursor.peek :: tokens) ++ (ending ++ after.rest)) := by
      simpa using (hfirst.trans hpasses).rest
    rw [hrest]
    exact .command (.deliver hkind hword (hwritten.mono hinside)) hends (.none List.suffix_rfl)

theorem issues_statement {inside : Nat} (hexpression : inner.expression.ReadsExpr 0 inside)
    (hinside : inside < levels) (h : inner.Issues levels) :
    (statement inner mode).Issues levels Stmt.delivered := by
  intro start held cursor hissued stmt after hrun
  have hpeek : peek.run cursor = (.ok cursor.peek, cursor) := rfl
  rw [statement, run_bind_of_ok hpeek] at hrun
  split at hrun
  case h_1 =>
    exact ensures_bind (ensures_issued _) (fun _ => issues_forStatement h _ start held) cursor
      hissued stmt after hrun
  case h_2 =>
    exact ensures_bind (ensures_issued _) (fun _ => issues_ifStatement h _ start held) cursor
      hissued stmt after hrun
  case h_3 =>
    exact ensures_bind (ensures_issued _) (fun _ => issues_of_yields (silent_printStatement _)
      start held) cursor hissued stmt after hrun
  case h_4 =>
    exact ensures_bind (ensures_issued _) (fun _ => issues_of_yields (silent_returnStatement _)
      start held) cursor hissued stmt after hrun
  case h_5 =>
    exact ensures_bind (ensures_issued _) (fun _ => issues_whileStatement h _ start held) cursor
      hissued stmt after hrun
  case h_6 =>
    have hblock : Ensures (start.Issued levels held) (Stmt.block <$> inner.block) fun stmt after =>
        start.Issued levels (held ++ stmt.delivered) after := ensures_map (h.block start held)
    exact ensures_bind (ensures_issued _) (fun _ => hblock) cursor hissued stmt after hrun
  case h_7 hkind => exact issued_command hexpression hinside hissued hkind hrun
  case h_8 =>
    exact issues_of_yields silent_expressionStatement start held cursor hissued stmt after hrun

theorem issues_declaration (h : inner.Issues levels) :
    (declaration inner).Issues levels fun stmt => stmt.elim [] Stmt.delivered := by
  intro start held
  refine ensures_recover ?_ fun cursor after hissued hadvances => ?_
  · refine ensures_bind (ensures_issued _) fun funWord => ?_
    split
    · exact issues_functionDeclaration h start held
    · refine ensures_bind (ensures_issued _) fun varWord => ?_
      split
      · exact issues_of_yields silent_variableDeclaration start held
      · exact h.statement start held
  · simpa using hissued.advance hadvances

/-- A pass that adds a declaration to those before it. -/
theorem issues_pass (h : inner.Issues levels) (start : Cursor) (held : List Command)
    (body : Array Stmt) :
    Ensures (start.Issued levels (held ++ Stmt.deliveredAll body.toList))
      (do
        match ← declaration inner with
        | some stmt => return Pass.again (body.push stmt)
        | none => return Pass.again body)
      fun result after =>
        start.Issued levels (held ++ Stmt.deliveredAll result.state.toList) after := by
  refine ensures_bind (issues_declaration h start _) fun stmt => ?_
  cases stmt with
  | none => exact ensures_issued_pure (List.append_nil _).symm
  | some stmt =>
    refine ensures_issued_pure ?_
    simp [Pass.state, Stmt.deliveredAll_append, Stmt.deliveredAll]

theorem issues_blockBody (h : inner.Issues levels) :
    (blockBody inner).Issues levels Stmt.deliveredAll := by
  intro start held
  refine ensures_bind (issues_repeated (fun body : Array Stmt => Stmt.deliveredAll body.toList)
    (fun held body => ?_) rfl) fun body =>
      ensures_bind (ensures_issued _) fun _ => ensures_issued_pure rfl
  refine ensures_bind (ensures_issued _) fun brace => ?_
  refine ensures_bind (ensures_issued _) fun atEnd => ?_
  split
  · exact ensures_issued_pure rfl
  · exact issues_pass h start held body

end Statements

theorem issues_tooDeep {α : Type} {levels : Nat} (commands : α → List Command) :
    (tooDeep : Rule α).Issues levels commands :=
  fun _ _ => ensures_bind (ensures_issued _) fun _ => ensures_fail _

theorem issues_nested (mode : InputMode) {inside levels : Nat} (h : inside ≤ levels) :
    (nested mode inside).Issues levels := by
  induction inside with
  | zero => exact ⟨issues_tooDeep _, issues_tooDeep _⟩
  | succ inside ih =>
    have hinner := ih (Nat.le_of_succ_le h)
    exact ⟨issues_statement (readsExpr_nested mode inside).1 h hinner, issues_blockBody hinner⟩

/-- The statements of a program, one after the other. -/
theorem issues_program (mode : InputMode) (start : Cursor) (held : List Command) :
    Ensures (start.Issued maxNesting held) (repeated (pass (nested mode maxNesting)) #[])
      fun final after => start.Issued maxNesting (held ++ Stmt.deliveredAll final.toList) after := by
  refine issues_repeated (fun body : Array Stmt => Stmt.deliveredAll body.toList)
    (fun held body => ?_) rfl
  refine ensures_bind (ensures_issued _) fun atEnd => ?_
  split
  · exact ensures_issued_pure rfl
  · exact issues_pass (issues_nested mode (Nat.le_refl _)) start held body

/-! ## One command -/

section Single

variable {inner : Nested} {mode : InputMode} {levels : Nat} {cursor after : Cursor}
  {name : String} {given : List Arg} {line : Nat}

def IsDelivery : Stmt → Prop
  | .command (.deliver _ _ _) => True
  | _ => False

theorem not_delivery_of_silent {stmt : Stmt} (h : stmt.delivered = []) : ¬IsDelivery stmt := by
  intro hdelivery
  unfold IsDelivery at hdelivery
  split at hdelivery
  · cases h
  · exact hdelivery

theorem no_delivery_functionDeclaration :
    (functionDeclaration inner).Yields fun stmt => ¬IsDelivery stmt := by
  refine yields_after fun name => yields_after fun _ => yields_after fun empty => ?_
  dsimp only
  split
  · exact yields_after fun _ => yields_after fun _ => yields_after fun _ =>
      yields_after fun _ => yields_pure id
  · exact yields_after fun _ => yields_after fun _ => yields_after fun _ =>
      yields_after fun _ => yields_pure id

theorem no_delivery_forStatement (line : Nat) :
    (forStatement inner line).Yields fun stmt => ¬IsDelivery stmt := by
  have hbody (initializer : Option Stmt) (condition : Expr) : (do
      let _ ← require .semicolon "';' after loop condition"
      let increment ← if ← check .rightParen then pure none else some <$> inner.expression
      let _ ← require .rightParen "')' after for clauses"
      let body ← inner.statement
      return forLoop initializer condition increment body line).Yields
        fun stmt => ¬IsDelivery stmt := by
    have hloop (increment : Option Expr) (body : Stmt) :
        ¬IsDelivery (forLoop initializer condition increment body line) := by
      cases initializer <;> exact id
    refine yields_after fun _ => yields_after fun absent => ?_
    dsimp only
    split
    · exact yields_after fun increment => yields_after fun _ => yields_after fun body =>
        yields_pure (hloop increment body)
    · exact yields_after fun increment => yields_after fun _ => yields_after fun body =>
        yields_pure (hloop increment body)
  refine yields_after fun _ => yields_after fun initializer => yields_after fun absent => ?_
  dsimp only
  split
  · exact yields_after (hbody initializer)
  · exact yields_after (hbody initializer)

theorem no_delivery_ifStatement (line : Nat) :
    (ifStatement inner line).Yields fun stmt => ¬IsDelivery stmt := by
  refine yields_after fun _ => yields_after fun _ => yields_after fun _ => ?_
  refine yields_after fun _ => yields_after fun elseWord => ?_
  dsimp only
  split
  · exact yields_after fun _ => yields_pure id
  · exact yields_after fun _ => yields_pure id

theorem no_delivery_whileStatement (line : Nat) :
    (whileStatement inner line).Yields fun stmt => ¬IsDelivery stmt :=
  yields_after fun _ => yields_after fun _ => yields_after fun _ => yields_after fun _ =>
    yields_pure id

/-- Only a command word makes a command. -/
theorem kind_of_accepts_delivery
    (h : (statement inner mode).Accepts cursor (.command (.deliver name given line)) after) :
    cursor.peek.kind = .command := by
  have hnot {rule : Rule Stmt} (hyields : rule.Yields fun stmt => ¬IsDelivery stmt) :
      ¬(do skip; rule : Rule Stmt).Accepts cursor (.command (.deliver name given line)) after :=
    fun haccepts => yields_after (fun _ => hyields) cursor trivial _ _ haccepts.1 trivial
  have hsilent {rule : Rule Stmt} (hyields : rule.Yields fun stmt => stmt.delivered = []) :
      rule.Yields fun stmt => ¬IsDelivery stmt :=
    ensures_mono hyields fun _ _ => not_delivery_of_silent
  unfold statement at h
  rw [accepts_peek_bind] at h
  split at h
  case h_1 => exact absurd h (hnot (no_delivery_forStatement _))
  case h_2 => exact absurd h (hnot (no_delivery_ifStatement _))
  case h_3 => exact absurd h (hnot (hsilent (silent_printStatement _)))
  case h_4 => exact absurd h (hnot (hsilent (silent_returnStatement _)))
  case h_5 => exact absurd h (hnot (no_delivery_whileStatement _))
  case h_6 => exact absurd h (hnot (yields_map (yields_true _) fun _ _ => id))
  case h_7 hkind => exact hkind
  case h_8 => exact (hsilent silent_expressionStatement cursor trivial _ _ h.1 trivial).elim

/-- A command is read from its word to its end. -/
theorem accepts_statement_deliver (h : inner.expression.ReadsExpr 0 levels)
    (hcursor : cursor.Bounded) :
    (statement inner mode).Accepts cursor (.command (.deliver name given line)) after ↔
      ∃ written ending, Command.Written (levels + 1) (.deliver name given line) written ∧
        cursor.Passes after (written ++ ending) (given.flatMap Arg.ids) ∧
        EndsCommand ending after.rest := by
  have hword (hkind : cursor.peek.kind = .command) {stmt : Stmt} :
      (statement inner mode).Accepts cursor stmt after ↔
        ∃ middle, middle.Bounded ∧ cursor.Passes middle [cursor.peek] [] ∧ ∃ action,
          (command inner.expression cursor.peek).Accepts middle action after ∧
          stmt = .command action := by
    unfold statement
    rw [accepts_peek_bind]
    simp only [hkind]
    rw [accepts_skip_bind hcursor (by rw [hkind]; decide)]
    simp only [accepts_map]
  constructor
  · intro hrun
    have hkind := kind_of_accepts_delivery hrun
    obtain ⟨middle, hmiddle, hfirst, action, haction, heq⟩ := (hword hkind).mp hrun
    obtain rfl := Stmt.command.inj heq
    have hname : Text.lowered cursor.peek.lexeme ∉ ["help", "exit"] := by
      intro hsilent
      cases delivered_of_command hsilent middle trivial _ _ haction.1
    obtain ⟨_, tokens, ending, heq, hwritten, hpasses, hends⟩ :=
      (accepts_deliver h hmiddle hname).mp haction
    obtain ⟨rfl, rfl, rfl⟩ := Command.deliver.inj heq
    exact ⟨_, ending, .deliver hkind hname hwritten, hfirst.trans hpasses, hends⟩
  · rintro ⟨written, ending, hwritten, hpasses, hends⟩
    cases hwritten with
    | @deliver word _ tokens hkind hname hwritten =>
      obtain ⟨middle, hfirst, hrest⟩ := hpasses.uncons
      obtain rfl := hfirst.peek
      exact (hword hkind).mpr ⟨middle, hfirst.bounded hcursor, hfirst, _,
        (accepts_deliver h (hfirst.bounded hcursor) hname).mpr
          ⟨given, tokens, ending, rfl, hwritten, hrest, hends⟩, rfl⟩

theorem accepts_declaration_deliver (mode : InputMode) (levels : Nat) (hcursor : cursor.Bounded) :
    (declaration (nested mode (levels + 1))).Accepts cursor
        (some (.command (.deliver name given line))) after ↔
      ∃ written ending, Command.Written (levels + 1) (.deliver name given line) written ∧
        cursor.Passes after (written ++ ending) (given.flatMap Arg.ids) ∧
        EndsCommand ending after.rest := by
  have hstatement : (statement (nested mode levels) mode).Accepts cursor
      (.command (.deliver name given line)) after ↔ _ :=
    accepts_statement_deliver (readsExpr_nested mode levels).1 hcursor
  refine (accepts_declaration hcursor).trans (Iff.trans ?_ hstatement)
  constructor
  · rintro ⟨stmt, heq, ⟨word, middle, -, -, -, hfunction⟩ | ⟨word, middle, -, -, -, hvariable⟩ |
      ⟨-, -, hrun⟩⟩
    · obtain rfl := Option.some.inj heq
      exact (no_delivery_functionDeclaration middle trivial _ _ hfunction.1 trivial).elim
    · obtain rfl := Option.some.inj heq
      cases silent_variableDeclaration middle trivial _ _ hvariable.1
    · obtain rfl := Option.some.inj heq
      exact hrun
  · intro hrun
    have hkind := kind_of_accepts_delivery hrun
    exact ⟨_, rfl, .inr (.inr ⟨by rw [hkind]; decide, by rw [hkind]; decide, hrun⟩)⟩

theorem yields_extension (body : Array Stmt) :
    (repeated (gatherPass atEnd inner) body).Yields fun final => body.toList <+: final.toList := by
  refine yields_repeated (fun state : Array Stmt => body.toList <+: state.toList)
    (fun state hstate => ?_) List.prefix_rfl
  refine yields_after fun ends => ?_
  split
  · exact yields_pure hstate
  · refine yields_after fun found => ?_
    cases found with
    | none => exact yields_pure hstate
    | some stmt =>
      refine yields_pure (hstate.trans ?_)
      rw [Pass.state, Array.toList_push]
      exact List.prefix_append _ _

/-- Statements only come behind those that were read. -/
theorem prefix_of_again {body final : Array Stmt} {middle : Cursor}
    (h : if cursor.read < middle.read then
      (repeated (gatherPass atEnd inner) body).Accepts middle final after
      else final = body ∧ after = middle) : body.toList <+: final.toList := by
  split at h
  · exact yields_extension body middle trivial _ _ h.1
  · obtain ⟨rfl, -⟩ := h
    exact List.prefix_rfl

/-- A program with a single statement has a single declaration. -/
theorem accepts_program_single (hcursor : cursor.Bounded) {stmt : Stmt}
    (hreads : ∀ {after}, (declaration inner).Accepts cursor (some stmt) after →
      cursor.read < after.read) :
    (∃ final, final.toList = [stmt] ∧
        (repeated (gatherPass atEnd inner) #[]).Accepts cursor final after) ↔
      cursor.rest ≠ [] ∧ (declaration inner).Accepts cursor (some stmt) after ∧
        after.rest = [] := by
  constructor
  · rintro ⟨final, hfinal, hrun⟩
    obtain hlast | ⟨next, middle, hagain, hrest⟩ := accepts_repeated.mp hrun
    · obtain ⟨-, rfl, -⟩ := (gathers_program.last hcursor).mp hlast
      cases hfinal
    · obtain ⟨hgoes, found, hfound, rfl⟩ := (gathers_program.again hcursor).mp hagain
      -- whatever is read behind the first declaration would be one statement too many
      have hfirst : found = stmt := by
        have hshort : [found] <+: [stmt] := hfinal ▸ prefix_of_again hrest
        exact (List.cons.inj (hshort.eq_of_length rfl)).1
      subst hfirst
      rw [if_pos (hreads hfound)] at hrest
      obtain hlast | ⟨longer, last, hmore, hend⟩ := accepts_repeated.mp hrest
      · obtain ⟨hends, -, rfl⟩ := (gathers_program.last (hfound.bounded hcursor)).mp hlast
        rw [List.isEmpty_iff] at hgoes hends
        exact ⟨hgoes, hfound, hends⟩
      · obtain ⟨-, other, -, rfl⟩ := (gathers_program.again (hfound.bounded hcursor)).mp hmore
        have hshort : [found, other] <+: [found] := hfinal ▸ prefix_of_again hend
        exact absurd hshort.length_le (Nat.not_succ_le_self 1)
  · rintro ⟨hgoes, hdeclaration, hempty⟩
    have hagain : (gatherPass atEnd inner #[]).Accepts cursor (.again #[stmt]) after := by
      refine (gathers_program.again hcursor).mpr ⟨?_, stmt, hdeclaration, rfl⟩
      rwa [List.isEmpty_iff]
    have hlast : (gatherPass atEnd inner #[stmt]).Accepts after (.last #[stmt]) after :=
      (gathers_program.last (hdeclaration.bounded hcursor)).mpr
        ⟨List.isEmpty_iff.mpr hempty, rfl, rfl⟩
    exact ⟨#[stmt], rfl, accepts_again hagain (hreads hdeclaration)
      (accepts_repeated.mpr (.inl hlast))⟩

end Single

end Grammar

open Grammar Rule

variable {mode : InputMode} {tokens : List Token} {nextId : NodeId}

/-- A program is a single command exactly if its tokens are those of the command. -/
theorem parse_eq_deliver_iff {name : String} {given : List Arg} {line : Nat} :
    (parse mode tokens nextId).program = .ok [.command (.deliver name given line)] ↔
      ∃ written ending, Command.Written maxNesting (.deliver name given line) written ∧
        EndsCommand ending [] ∧
        tokens.takeWhile (·.kind ≠ .endOfInput) = written ++ ending ∧
        given.flatMap Arg.ids = Cursor.idsFrom nextId (given.flatMap Arg.ids).length := by
  let cursor := Cursor.ofTokens tokens nextId
  have hcursor : cursor.Bounded := Cursor.bounded_ofTokens tokens nextId
  have hdeclaration {after : Cursor} : (declaration (nested mode maxNesting)).Accepts cursor
      (some (.command (.deliver name given line))) after ↔ _ :=
    accepts_declaration_deliver mode 1023 hcursor
  have hreads {after : Cursor} (h : (declaration (nested mode maxNesting)).Accepts cursor
      (some (.command (.deliver name given line))) after) : cursor.read < after.read := by
    obtain ⟨written, ending, hwritten, hpasses, -⟩ := hdeclaration.mp h
    cases hwritten
    exact hpasses.length_lt (List.cons_ne_nil _ _)
  constructor
  · intro h
    obtain ⟨final, after, hrun, hfaults, hfinal, -⟩ := exists_run_of_parse h
    obtain ⟨-, hread, hempty⟩ :=
      (accepts_program_single hcursor hreads).mp ⟨final, hfinal.symm, hrun, hfaults⟩
    obtain ⟨written, ending, hwritten, hpasses, hends⟩ := hdeclaration.mp hread
    rw [hempty] at hends
    have hrest := hpasses.rest
    rw [hempty, List.append_nil] at hrest
    have hids := hpasses.ids
    rw [Cursor.nextId_ofTokens] at hids
    exact ⟨written, ending, hwritten, hends, hrest, hids⟩
  · rintro ⟨written, ending, hwritten, hends, htokens, hids⟩
    let after : Cursor := { cursor with
      rest := []
      read := cursor.read + (written ++ ending).length
      drawn := cursor.drawn + (given.flatMap Arg.ids).length }
    have hpasses : cursor.Passes after (written ++ ending) (given.flatMap Arg.ids) := by
      refine ⟨htokens.trans (List.append_nil _).symm, rfl, ?_⟩
      rw [Cursor.nextId_ofTokens]
      exact hids
    have hgoes : cursor.rest ≠ [] := by
      have hrest : cursor.rest = written ++ ending := htokens
      cases hwritten
      rw [hrest]
      exact List.cons_ne_nil _ _
    obtain ⟨final, hfinal, hrun, hfaults⟩ := (accepts_program_single hcursor hreads).mpr
      ⟨hgoes, hdeclaration.mpr ⟨written, ending, hwritten, hpasses, hends⟩, rfl⟩
    rw [parse_of_run hrun hfaults, hfinal]

/-- The commands of a program that was read. -/
theorem commandsBetween_of_parse {program : List Stmt}
    (h : (parse mode tokens nextId).program = .ok program) :
    CommandsBetween maxNesting (tokens.takeWhile (·.kind ≠ .endOfInput))
      (Stmt.deliveredAll program) [] := by
  obtain ⟨final, after, hrun, hfaults, rfl, -⟩ := exists_run_of_parse h
  have hstart : (Cursor.ofTokens tokens nextId).Issued maxNesting []
      (Cursor.ofTokens tokens nextId) :=
    ⟨Cursor.bounded_ofTokens tokens nextId, .refl _, fun _ => .none List.suffix_rfl⟩
  have hbetween := (issues_program mode _ [] _ hstart final after hrun).between hfaults
  have hall := hbetween.trans (.none List.nil_suffix)
  rwa [List.append_nil] at hall

/-! ## Deep parentheses -/

/-- An expression in some pairs of parentheses. -/
def Expr.wrapped (inner : Expr) : (pairs : Nat) → Expr
  | 0 => inner
  | pairs + 1 => .grouping (inner.wrapped pairs) 1

theorem Expr.wrapped_spelled {inner : Expr} {tokens : List Token} (h : inner.Spelled tokens)
    (pairs : Nat) :
    (inner.wrapped pairs).Spelled (List.replicate pairs ⟨.leftParen, "(", none, 1⟩ ++
      (tokens ++ List.replicate pairs ⟨.rightParen, ")", none, 1⟩)) := by
  induction pairs with
  | zero =>
    rw [List.replicate_zero, List.replicate_zero, List.append_nil]
    exact h
  | succ pairs ih =>
    rw [List.replicate_succ, List.replicate_succ', ← List.append_assoc tokens, List.cons_append,
      ← List.append_assoc]
    exact @Spelled.grouping ⟨.leftParen, "(", none, 1⟩ ⟨.rightParen, ")", none, 1⟩ _ _ rfl ih rfl

theorem Expr.depth_wrapped (inner : Expr) (pairs : Nat) :
    (inner.wrapped pairs).depth = inner.depth + pairs := by
  induction pairs with
  | zero => rfl
  | succ pairs ih => rw [wrapped, depth, ih, Nat.add_assoc]

theorem Expr.proper_wrapped (inner : Expr) (pairs : Nat) :
    (inner.wrapped pairs).Proper ↔ inner.Proper := by
  induction pairs with
  | zero => exact Iff.rfl
  | succ pairs ih => exact ih

/-- An argument in so many parentheses is none that could be read. -/
theorem wrapped_argument_refused {pairs : Nat} (h : maxNesting ≤ pairs) {inner : Expr}
    {tokens : List Token} (hinner : inner.Spelled tokens) (hproper : inner.Proper)
    (mode : InputMode) (input : List Token) (nextId : NodeId) (name : String) (line : Nat) :
    Strewn Arg.Spelled [.positional (.expr (inner.wrapped pairs))]
        (List.replicate pairs ⟨.leftParen, "(", none, 1⟩ ++
          (tokens ++ List.replicate pairs ⟨.rightParen, ")", none, 1⟩)) ∧
      Arg.Canonical [.positional (.expr (inner.wrapped pairs))] ∧
      (inner.wrapped pairs).Proper ∧
      (parse mode input nextId).program ≠
        .ok [.command (.deliver name [.positional (.expr (inner.wrapped pairs))] line)] := by
  have hvalue : (ArgValue.expr (inner.wrapped pairs)).Spelled
      (List.replicate pairs ⟨.leftParen, "(", none, 1⟩ ++
        (tokens ++ List.replicate pairs ⟨.rightParen, ")", none, 1⟩)) := by
    have hspelled := Expr.wrapped_spelled hinner pairs
    obtain ⟨more, rfl⟩ := Nat.exists_eq_succ_of_ne_zero (Nat.ne_of_gt (Nat.lt_of_lt_of_le
      (by decide) h))
    exact .grouping hspelled
  have hgiven : Strewn Arg.Spelled [.positional (.expr (inner.wrapped pairs))] (_ ++ []) :=
    .item (.positional hvalue) .none
  rw [List.append_nil] at hgiven
  refine ⟨hgiven, .singleton _, (Expr.proper_wrapped inner pairs).mpr hproper, fun hparse => ?_⟩
  obtain ⟨written, ending, hwritten, -⟩ := parse_eq_deliver_iff.mp hparse
  obtain ⟨tokens, hargs⟩ := hwritten.args
  have hdepth : (inner.wrapped pairs).depth < maxNesting := (hargs.within _ List.mem_cons_self).2
  rw [Expr.depth_wrapped] at hdepth
  omega

/-- **A command is read as it is written, and commas are noise.** A program is the single
command `name` with what it is given exactly if its tokens are a word for it, the arguments
with commas strewn between them, and a `;` that may be left out. No positional value comes
directly after a parameter then, and nothing is nested too deep. And in every program that
is read, the commands have been written so, one behind the other. -/
theorem parse_deliver (mode : InputMode) (tokens : List Token) (nextId : NodeId) :
    (∀ name given line,
      (parse mode tokens nextId).program = .ok [.command (.deliver name given line)] ↔
        ∃ written ending, Command.Written maxNesting (.deliver name given line) written ∧
          EndsCommand ending [] ∧
          tokens.takeWhile (·.kind ≠ .endOfInput) = written ++ ending ∧
          given.flatMap Arg.ids = Cursor.idsFrom nextId (given.flatMap Arg.ids).length) ∧
    ∀ program, (parse mode tokens nextId).program = .ok program →
      CommandsBetween maxNesting (tokens.takeWhile (·.kind ≠ .endOfInput))
        (Stmt.deliveredAll program) [] :=
  ⟨fun _ _ _ => parse_eq_deliver_iff, fun _ => commandsBetween_of_parse⟩

/-- `OPEN x, -f --p a, (y);` has two arguments and a parameter with two values. -/
theorem parse_deliver_of_commas :
    let name (text : String) : Token := ⟨.identifier, text, none, 1⟩
    let mark (kind : TokenKind) (text : String) : Token := ⟨kind, text, none, 1⟩
    let tokens := [mark .command "OPEN", name "x", mark .comma ",", mark .minus "-", name "f",
      mark .minus "-", mark .minus "-", name "p", name "a", mark .comma ",",
      mark .leftParen "(", name "y", mark .rightParen ")", mark .semicolon ";"]
    let action : Command := .deliver "open" [.positional (.word "x"), .flag "f",
      .parameter "p" [.word "a", .expr (.grouping (.variable 7 "y" 1) 1)]] 1
    (parse .script tokens 7).program = .ok [.command action] ∧
      CommandsBetween maxNesting tokens [action] [] := by
  intro name mark tokens action
  have hlowered : Text.lowered "OPEN" = "open" := by decide
  have hvalue : (ArgValue.expr (.grouping (.variable 7 "y" 1) 1)).Spelled
      [mark .leftParen "(", name "y", mark .rightParen ")"] :=
    .grouping (@Expr.Spelled.grouping (mark .leftParen "(") (mark .rightParen ")") _ _ rfl
      (@Expr.Spelled.variable (name "y") 7 rfl) rfl)
  have hvalues : Strewn ArgValue.Spelled [.word "a", .expr (.grouping (.variable 7 "y" 1) 1)]
      [name "a", mark .comma ",", mark .leftParen "(", name "y", mark .rightParen ")"] :=
    .item (@ArgValue.Spelled.word (name "a") (.inl rfl)) (.comma rfl (.item hvalue .none))
  have hstrewn : Strewn Arg.Spelled [.positional (.word "x"), .flag "f",
      .parameter "p" [.word "a", .expr (.grouping (.variable 7 "y" 1) 1)]] (tokens.tail.dropLast) :=
    .item (.positional (@ArgValue.Spelled.word (name "x") (.inl rfl))) <| .comma rfl <|
      .item (@Arg.Spelled.flag (mark .minus "-") (name "f") rfl rfl) <|
      .item (@Arg.Spelled.parameter (mark .minus "-") (mark .minus "-") (name "p") _ _ rfl rfl rfl
        hvalues) .none
  have hargs : WrittenArgs maxNesting _ _ := ⟨hstrewn, by simp [Arg.Canonical, Arg.IsParameter], by
    simp [Arg.Within, ArgValue.Within, Expr.Proper, Expr.depth, maxNesting]⟩
  have hwritten := @Command.Written.deliver maxNesting (mark .command "OPEN") _ _ rfl
    (by rw [hlowered]; decide) hargs
  rw [hlowered] at hwritten
  have hparse := ((parse_deliver .script tokens 7).1 _ _ _).mpr
    ⟨_, [mark .semicolon ";"], hwritten, .inl ⟨_, rfl, rfl⟩, rfl, rfl⟩
  exact ⟨hparse, (parse_deliver .script tokens 7).2 _ hparse⟩

/-- An argument in 1024 pairs of parentheses is too deep. -/
theorem deep_argument_refused :
    let mark (kind : TokenKind) (text : String) : Token := ⟨kind, text, none, 1⟩
    let value : Expr := (Expr.literal .null 1).wrapped 1024
    let given : List Arg := [.positional (.expr value)]
    let body := List.replicate 1024 (mark .leftParen "(") ++
      ([mark .nullWord "null"] ++ List.replicate 1024 (mark .rightParen ")"))
    Strewn Arg.Spelled given body ∧ Arg.Canonical given ∧ value.Proper ∧
      (parse .script (mark .command "open" :: (body ++ [mark .semicolon ";"])) 0).program ≠
        .ok [.command (.deliver "open" given 1)] :=
  wrapped_argument_refused (Nat.le_refl _)
    (@Expr.Spelled.literal ⟨.nullWord, "null", none, 1⟩ .null rfl) trivial _ _ _ _ _

end CommandScript
