import CommandScript.Proofs.Grammar.Postcondition
import CommandScript.Proofs.Resolution.Context
import Mathlib.Data.List.Perm.Subperm

/-!
# The node ids of what is read

Each id that a rule draws goes to at most one reference of its result, and all references
of the result have ids that were drawn for it. So the references of a program have distinct
ids as long as the counter does not come round.

* `Cursor.Drawn`: the ids of some references were drawn on the way from one cursor to
  another, each for one of them.
* `Rule.Draws`: a rule draws ids for its result.
* `draws_program`: so does the rule of programs.
-/

namespace CommandScript.Grammar

open Rule

/-- The id that is drawn after the given number of others. -/
def Cursor.idAt (cursor : Cursor) (drawn : Nat) : NodeId := cursor.firstId + UInt32.ofNat drawn

structure Cursor.Drawn (start : Cursor) (references : List Reference) (cursor : Cursor) :
    Prop where
  leadsTo : start.LeadsTo cursor
  ids : (references.map Reference.id).Subperm
    ((List.range' start.drawn (cursor.drawn - start.drawn)).map start.idAt)

namespace Cursor.Drawn

variable {start cursor after : Cursor} {references : List Reference}

theorem refl (cursor : Cursor) : cursor.Drawn [] cursor := ⟨.refl cursor, List.nil_subperm⟩

theorem subperm (h : start.Drawn references cursor) {fewer : List Reference}
    (hfewer : (fewer.map Reference.id).Subperm (references.map Reference.id)) :
    start.Drawn fewer cursor :=
  ⟨h.leadsTo, hfewer.trans h.ids⟩

theorem advance (h : start.Drawn references cursor) (hadvances : cursor.LeadsTo after) :
    start.Drawn references after := by
  refine ⟨h.leadsTo.trans hadvances, h.ids.trans (List.Sublist.subperm (.map _ ?_))⟩
  exact List.range'_sublist_right.mpr (Nat.sub_le_sub_right hadvances.drawn _)

/-- The id that is drawn next is a further one. -/
theorem fresh (h : start.Drawn references cursor) (name : String) (access : Access) :
    start.Drawn (references ++ [⟨cursor.nextId, name, access⟩])
      { cursor with drawn := cursor.drawn + 1 } := by
  have hstart := h.leadsTo.drawn
  refine ⟨h.leadsTo.trans { Cursor.LeadsTo.refl cursor with drawn := Nat.le_succ _ }, ?_⟩
  have hsplit : cursor.drawn + 1 - start.drawn = (cursor.drawn - start.drawn) + 1 := by
    omega
  have hlast : start.drawn + (cursor.drawn - start.drawn) = cursor.drawn := by
    omega
  have hid : cursor.nextId = start.idAt cursor.drawn := by
    rw [Cursor.nextId, Cursor.idAt, h.leadsTo.firstId]
  rw [hsplit, List.range'_concat, Nat.one_mul, hlast, List.map_append, List.map_append,
    List.map_singleton, List.map_singleton, hid]
  exact (List.subperm_append_right _).mpr h.ids

end Cursor.Drawn

namespace Rule

variable {α β : Type}

/-- The references of the result have ids that were drawn for it. -/
def Draws (rule : Rule α) (references : α → List Reference) : Prop :=
  ∀ start held, Ensures (Cursor.Drawn start held) rule fun a after =>
    Cursor.Drawn start (held ++ references a) after

variable {start : Cursor} {held : List Reference} {rule : Rule α}

/-- Whatever a rule does, ids that were drawn before remain so. -/
theorem ensures_drawn (rule : Rule α) :
    Ensures (start.Drawn held) rule fun _ after => start.Drawn held after := by
  intro cursor hdrawn a after hrun
  have hadvances := rule.advances cursor
  rw [hrun] at hadvances
  exact hdrawn.advance hadvances

/-- A result whose references are those that were held and drawn. -/
theorem ensures_drawn_pure {a : α} {references : α → List Reference} {before : List Reference}
    (h : before ++ references a = held) :
    Ensures (start.Drawn held) (pure a) fun a after => start.Drawn (before ++ references a) after :=
  ensures_pure fun _ hdrawn => h ▸ hdrawn

/-- Passes that add the references of what they read to those of the accumulator. -/
theorem draws_repeated (before : List Reference) (references : α → List Reference)
    {pass : α → Rule (Pass α)}
    (hpass : ∀ state, Ensures (start.Drawn (before ++ references state)) (pass state)
      fun result after => start.Drawn (before ++ references result.state) after)
    (state : α) (hstate : before ++ references state = held) :
    Ensures (start.Drawn held) (repeated pass state) fun final after =>
      start.Drawn (before ++ references final) after := by
  rw [← hstate]
  exact ensures_repeated (fun state => start.Drawn (before ++ references state)) hpass state

theorem ensures_freshId (name : String) (access : Access) :
    Ensures (start.Drawn held) freshId fun id after =>
      start.Drawn (held ++ [⟨id, name, access⟩]) after := by
  intro cursor hdrawn id after hrun
  obtain ⟨hid, rfl⟩ := Prod.mk.inj hrun
  obtain rfl := Except.ok.inj hid
  exact hdrawn.fresh name access

end Rule

/-! ## Expressions -/

section Expressions

variable {expression operand : Rule Expr}

theorem draws_primary (h : expression.Draws Expr.references) :
    (primary expression).Draws Expr.references := by
  intro start held
  refine ensures_bind (ensures_drawn _) fun token => ?_
  split
  case h_6 =>
    refine ensures_bind (ensures_drawn _) fun _ => ?_
    exact ensures_bind (ensures_freshId token.lexeme .read) fun id => ensures_drawn_pure rfl
  case h_8 =>
    refine ensures_bind (ensures_drawn _) fun _ => ?_
    refine ensures_bind (h start held) fun inner => ?_
    exact ensures_bind (ensures_drawn _) fun _ => ensures_drawn_pure rfl
  case h_9 => exact ensures_fail _
  case h_10 => exact ensures_fail _
  all_goals
    exact ensures_bind (ensures_drawn _) fun _ => ensures_drawn_pure (List.append_nil held)

theorem draws_separated {α : Type} {references : α → List Reference} {item : Rule α}
    (h : item.Draws references) (maxItems : Nat) (tooMany : ParseFault) :
    (separated maxItems tooMany item).Draws fun items => items.flatMap references := by
  intro start held
  unfold separated
  refine ensures_bind (h start held) fun first => ?_
  refine ensures_bind (draws_repeated held (fun items : Array α => items.toList.flatMap references)
    (fun items => ?_) #[first] (by simp)) fun items => ensures_drawn_pure rfl
  have hnext : Ensures (start.Drawn (held ++ items.toList.flatMap references))
      (do return Pass.again (items.push (← item))) fun result after =>
        start.Drawn (held ++ result.state.toList.flatMap references) after :=
    ensures_bind (h start _) fun next => ensures_drawn_pure (by simp [Pass.state])
  refine ensures_bind (ensures_drawn _) fun comma => ?_
  dsimp only
  split
  · split
    · refine ensures_bind (ensures_drawn _) fun token => ?_
      exact ensures_bind (ensures_drawn _) fun _ => hnext
    · exact hnext
  · exact ensures_drawn_pure rfl

theorem draws_finishCall (h : expression.Draws Expr.references) (callee : Expr) (start : Cursor)
    (held : List Reference) :
    Ensures (start.Drawn (held ++ callee.references)) (finishCall expression callee)
      fun expr after => start.Drawn (held ++ expr.references) after := by
  have hrest : ∀ args : List Expr,
      Ensures (start.Drawn (held ++ callee.references ++ args.flatMap Expr.references))
        (do
          let paren ← require .rightParen "')' after arguments"
          return Expr.call callee args paren.line)
        fun expr after => start.Drawn (held ++ expr.references) after :=
    fun args => ensures_bind (ensures_drawn _) fun paren => ensures_drawn_pure (by
      simp [Expr.references, Expr.referencesAll_eq])
  unfold finishCall
  refine ensures_bind (ensures_drawn _) fun empty => ?_
  dsimp only
  split
  · refine ensures_bind ?_ hrest
    exact ensures_drawn_pure (List.append_nil _)
  · exact ensures_bind (draws_separated h _ _ start _) hrest

theorem draws_call (h : expression.Draws Expr.references) :
    (call expression).Draws Expr.references := by
  intro start held
  refine ensures_bind (draws_primary h start held) fun callee => ?_
  refine draws_repeated held Expr.references (fun callee => ?_) callee rfl
  refine ensures_bind (ensures_drawn _) fun paren => ?_
  split
  · exact ensures_bind (draws_finishCall h callee start held) fun expr => ensures_drawn_pure rfl
  · exact ensures_drawn_pure rfl

theorem draws_unary (h : expression.Draws Expr.references)
    (hoperand : operand.Draws Expr.references) :
    (unary expression operand).Draws Expr.references := by
  intro start held
  refine ensures_bind (ensures_drawn _) fun token => ?_
  split
  · refine ensures_bind (ensures_drawn _) fun _ => ?_
    exact ensures_bind (hoperand start held) fun expr => ensures_drawn_pure rfl
  · exact draws_call h start held

theorem draws_leftAssociative {ω : Type} {operator? : TokenKind → Option ω}
    {node : ω → Expr → Expr → Nat → Expr}
    (hnode : ∀ op left right line,
      (node op left right line).references = left.references ++ right.references)
    (hoperand : operand.Draws Expr.references) :
    (leftAssociative operator? node operand).Draws Expr.references := by
  intro start held
  refine ensures_bind (hoperand start held) fun first => ?_
  refine draws_repeated held Expr.references (fun left => ?_) first rfl
  refine ensures_bind (ensures_drawn _) fun token => ?_
  split
  · refine ensures_bind (ensures_drawn _) fun _ => ?_
    refine ensures_bind (hoperand start _) fun right => ensures_drawn_pure ?_
    rw [Pass.state, hnode, List.append_assoc]
  · exact ensures_drawn_pure rfl

theorem draws_logicalOr (h : expression.Draws Expr.references)
    (hoperand : operand.Draws Expr.references) :
    (logicalOr expression operand).Draws Expr.references :=
  have hbinary : ∀ op left right line,
      (Expr.binary op left right line).references = left.references ++ right.references :=
    fun _ _ _ _ => rfl
  have hlogical : ∀ op left right line,
      (Expr.logical op left right line).references = left.references ++ right.references :=
    fun _ _ _ _ => rfl
  draws_leftAssociative hlogical <| draws_leftAssociative hlogical <|
    draws_leftAssociative hbinary <| draws_leftAssociative hbinary <|
    draws_leftAssociative hbinary <| draws_leftAssociative hbinary <| draws_unary h hoperand

theorem draws_assignChain (links : List (Nat × Expr)) (target : Expr) (start : Cursor)
    (held : List Reference) :
    Ensures (start.Drawn (held ++ target.references ++ links.flatMap fun link => link.2.references))
      (assignChain target links) fun expr after => start.Drawn (held ++ expr.references) after := by
  induction links generalizing target held with
  | nil => exact ensures_drawn_pure (List.append_nil _).symm
  | cons link rest ih =>
    obtain ⟨line, next⟩ := link
    rw [List.flatMap_cons, ← List.append_assoc]
    refine ensures_bind (ih next (held ++ target.references)) fun value => ?_
    have hdropped : Ensures (start.Drawn (held ++ target.references ++ value.references))
        (do
          record ⟨.invalidAssignmentTarget, line⟩
          return target) fun expr after => start.Drawn (held ++ expr.references) after := by
      refine ensures_bind (ensures_drawn _) fun _ => ensures_pure fun _ hdrawn => ?_
      refine hdrawn.subperm (List.Sublist.subperm (.map _ ?_))
      exact List.sublist_append_left _ _
    split
    · rename_i id name nameLine
      -- the id of the target is drawn first, but it is used after the value
      refine ensures_pure fun _ hdrawn => hdrawn.subperm (List.Perm.subperm ?_)
      simp only [List.map_append, Expr.references, List.append_assoc]
      exact List.perm_append_comm.append_left _
    · exact hdropped

theorem draws_assignment (h : expression.Draws Expr.references)
    (hoperand : operand.Draws Expr.references) :
    (assignment expression operand).Draws Expr.references := by
  intro start held
  refine ensures_bind (draws_logicalOr h hoperand start held) fun target => ?_
  refine ensures_bind (draws_repeated (held ++ target.references)
    (fun links : Array (Nat × Expr) => links.toList.flatMap fun link => link.2.references)
    (fun links => ?_) #[] (by simp)) fun links => draws_assignChain links.toList target start held
  refine ensures_bind (ensures_drawn _) fun token => ?_
  split
  · exact ensures_bind (draws_logicalOr h hoperand start _) fun value =>
      ensures_drawn_pure (by simp [Pass.state])
  · exact ensures_drawn_pure rfl

end Expressions

/-! ## Commands -/

section Commands

variable {expression : Rule Expr}

theorem draws_argValue (h : expression.Draws Expr.references) :
    (argValue expression).Draws ArgValue.references := by
  intro start held
  have hexpr : Ensures (start.Drawn held) (do return ArgValue.expr (← primary expression))
      fun value after => start.Drawn (held ++ value.references) after :=
    ensures_bind (draws_primary h start held) fun expr => ensures_drawn_pure rfl
  have hword : ∀ text, Ensures (start.Drawn held) (do skip; return ArgValue.word text)
      fun value after => start.Drawn (held ++ value.references) after :=
    fun text => ensures_bind (ensures_drawn _) fun _ => ensures_drawn_pure (List.append_nil held)
  refine ensures_bind (ensures_drawn _) fun token => ?_
  split
  case h_1 => exact hword _
  case h_2 => exact hword _
  case h_9 => exact ensures_fail _
  all_goals exact hexpr

theorem draws_parameterValues (h : expression.Draws Expr.references) :
    (parameterValues expression).Draws fun values => values.flatMap ArgValue.references := by
  intro start held
  refine ensures_bind (draws_repeated held
    (fun values : Array ArgValue => values.toList.flatMap ArgValue.references)
    (fun values => ?_) #[] (by simp)) fun values => ensures_drawn_pure rfl
  refine ensures_bind (ensures_drawn _) fun atEnd => ensures_bind (ensures_drawn _) fun minus => ?_
  split
  · exact ensures_drawn_pure rfl
  · refine ensures_bind (ensures_drawn _) fun comma => ?_
    split
    · exact ensures_drawn_pure rfl
    · exact ensures_bind (draws_argValue h start _) fun value =>
        ensures_drawn_pure (by simp [Pass.state])

theorem draws_marked (h : expression.Draws Expr.references) :
    (marked expression).Draws Arg.references := by
  intro start held
  refine ensures_bind (ensures_drawn _) fun minus => ?_
  split
  · refine ensures_bind (ensures_drawn _) fun name => ?_
    exact ensures_bind (draws_parameterValues h start held) fun values => ensures_drawn_pure rfl
  · exact ensures_bind (ensures_drawn _) fun name => ensures_drawn_pure (List.append_nil held)

theorem draws_args (h : expression.Draws Expr.references) :
    (args expression).Draws fun args => args.flatMap Arg.references := by
  intro start held
  refine ensures_bind (draws_repeated held
    (fun args : Array Arg => args.toList.flatMap Arg.references)
    (fun args => ?_) #[] (by simp)) fun args => ensures_drawn_pure rfl
  refine ensures_bind (ensures_drawn _) fun atEnd => ?_
  split
  · exact ensures_drawn_pure rfl
  · refine ensures_bind (ensures_drawn _) fun comma => ?_
    split
    · exact ensures_drawn_pure rfl
    · refine ensures_bind (ensures_drawn _) fun minus => ?_
      split
      · exact ensures_bind (draws_marked h start _) fun arg =>
          ensures_drawn_pure (by simp [Pass.state])
      · exact ensures_bind (draws_argValue h start _) fun value =>
          ensures_drawn_pure (by simp [Pass.state, Arg.references])

theorem draws_command (h : expression.Draws Expr.references) (word : Token) :
    (command expression word).Draws Command.references := by
  intro start held
  unfold command
  dsimp only
  split
  · exact ensures_bind (ensures_drawn _) fun topic => ensures_bind (ensures_drawn _) fun _ =>
      ensures_drawn_pure (List.append_nil held)
  · split
    · exact ensures_bind (ensures_drawn _) fun _ => ensures_drawn_pure (List.append_nil held)
    · exact ensures_bind (draws_args h start held) fun args =>
        ensures_bind (ensures_drawn _) fun _ => ensures_drawn_pure rfl

end Commands

/-! ## Statements -/

/-- The rules of one level of nesting draw ids for their results. -/
structure Nested.Draws (inner : Nested) : Prop where
  expression : inner.expression.Draws Expr.references
  operand : inner.operand.Draws Expr.references
  statement : inner.statement.Draws Stmt.references
  block : inner.block.Draws Stmt.referencesAll

section Statements

variable {inner : Nested} {mode : InputMode}

theorem draws_option {α : Type} {references : α → List Reference}
    {all : Option α → List Reference} {rule : Rule α} (h : rule.Draws references)
    (hall : ∀ a, all (some a) = references a) : (some <$> rule).Draws all := by
  intro start held
  refine ensures_map (ensures_mono (h start held) fun a after hdrawn => ?_)
  rwa [hall]

/-- The references of the parts of a `for`, in the order in which they are read. -/
theorem drawn_forLoop {start cursor : Cursor} {held : List Reference}
    (initializer : Option Stmt) (condition : Expr) (increment : Option Expr) (body : Stmt)
    (line : Nat)
    (h : start.Drawn (held ++ (initializer.elim [] Stmt.references) ++ condition.references ++
      Expr.referencesOption increment ++ body.references) cursor) :
    start.Drawn (held ++ (forLoop initializer condition increment body line).references)
      cursor := by
  refine h.subperm (List.Perm.subperm (List.Perm.map _ ?_))
  -- the increment is read before the body and stands behind it
  have hswap : ∀ step : Expr, (body.references ++ step.references).Perm
      (step.references ++ body.references) := fun _ => List.perm_append_comm
  cases initializer with
  | none =>
    cases increment with
    | none => simp [forLoop, Stmt.references, Expr.referencesOption]
    | some step =>
      simpa [forLoop, Stmt.references, Stmt.referencesAll, Expr.referencesOption]
        using ((hswap step).append_left condition.references).append_left held
  | some first =>
    cases increment with
    | none => simp [forLoop, Stmt.references, Stmt.referencesAll, Expr.referencesOption]
    | some step =>
      simpa [forLoop, Stmt.references, Stmt.referencesAll, Expr.referencesOption]
        using (((hswap step).append_left condition.references).append_left
          first.references).append_left held

theorem draws_variableDeclaration (h : inner.Draws) :
    (variableDeclaration inner).Draws Stmt.references := by
  intro start held
  have hrest : ∀ name : Token, ∀ initializer : Option Expr,
      Ensures (start.Drawn (held ++ Expr.referencesOption initializer))
        (do
          endStatement false
          return Stmt.declare name.lexeme initializer name.line)
        fun stmt after => start.Drawn (held ++ stmt.references) after :=
    fun name initializer => ensures_bind (ensures_drawn _) fun _ => ensures_drawn_pure rfl
  unfold variableDeclaration
  refine ensures_bind (ensures_drawn _) fun name => ensures_bind (ensures_drawn _) fun equal => ?_
  dsimp only
  split
  · exact ensures_bind (draws_option h.expression (fun _ => rfl) start held) (hrest name)
  · refine ensures_bind ?_ (hrest name)
    exact ensures_drawn_pure (List.append_nil held)

theorem draws_functionDeclaration (h : inner.Draws) :
    (functionDeclaration inner).Draws Stmt.references := by
  intro start held
  have hrest : ∀ (name : Token) (params : List Parameter), Ensures (start.Drawn held)
      (do
        let _ ← require .rightParen "')' after parameters"
        let _ ← require .leftBrace "'\x7b' before function body"
        let body ← inner.block
        return Stmt.function name.lexeme params body name.line)
      fun stmt after => start.Drawn (held ++ stmt.references) after := by
    intro name params
    refine ensures_bind (ensures_drawn _) fun _ => ensures_bind (ensures_drawn _) fun _ => ?_
    exact ensures_bind (h.block start held) fun body => ensures_drawn_pure rfl
  unfold functionDeclaration
  refine ensures_bind (ensures_drawn _) fun name => ensures_bind (ensures_drawn _) fun _ => ?_
  refine ensures_bind (ensures_drawn _) fun empty => ?_
  dsimp only
  split
  · exact ensures_bind (ensures_drawn _) (hrest name)
  · exact ensures_bind (ensures_drawn _) (hrest name)

theorem draws_expressionStatement (h : inner.Draws) :
    (expressionStatement inner).Draws Stmt.references := by
  intro start held
  refine ensures_bind (ensures_drawn _) fun token => ?_
  refine ensures_bind (h.expression start held) fun expr => ?_
  exact ensures_bind (ensures_drawn _) fun _ => ensures_drawn_pure rfl

theorem draws_forInitializer (h : inner.Draws) :
    (forInitializer inner).Draws fun initializer => initializer.elim [] Stmt.references := by
  intro start held
  refine ensures_bind (ensures_drawn _) fun semicolon => ?_
  split
  · exact ensures_drawn_pure (List.append_nil held)
  · refine ensures_bind (ensures_drawn _) fun varWord => ?_
    split
    · exact ensures_bind (draws_variableDeclaration h start held) fun stmt =>
        ensures_drawn_pure rfl
    · exact ensures_bind (draws_expressionStatement h start held) fun stmt =>
        ensures_drawn_pure rfl

theorem draws_forStatement (h : inner.Draws) (line : Nat) :
    (forStatement inner line).Draws Stmt.references := by
  intro start held
  have hbody : ∀ (initializer : Option Stmt) (condition : Expr) (increment : Option Expr),
      Ensures (start.Drawn (held ++ initializer.elim [] Stmt.references ++ condition.references ++
          Expr.referencesOption increment))
        (do
          let _ ← require .rightParen "')' after for clauses"
          let body ← inner.statement
          return forLoop initializer condition increment body line)
        fun stmt after => start.Drawn (held ++ stmt.references) after := by
    intro initializer condition increment
    refine ensures_bind (ensures_drawn _) fun _ => ?_
    refine ensures_bind (h.statement start _) fun body => ensures_pure fun _ hdrawn => ?_
    exact drawn_forLoop initializer condition increment body line hdrawn
  have hincrement : ∀ (initializer : Option Stmt) (condition : Expr),
      Ensures (start.Drawn (held ++ initializer.elim [] Stmt.references ++ condition.references))
        (do
          let _ ← require .semicolon "';' after loop condition"
          let increment ← if ← check .rightParen then pure none else some <$> inner.expression
          let _ ← require .rightParen "')' after for clauses"
          let body ← inner.statement
          return forLoop initializer condition increment body line)
        fun stmt after => start.Drawn (held ++ stmt.references) after := by
    intro initializer condition
    refine ensures_bind (ensures_drawn _) fun _ => ensures_bind (ensures_drawn _) fun absent => ?_
    dsimp only
    split
    · refine ensures_bind ?_ (hbody initializer condition)
      exact ensures_drawn_pure (List.append_nil _)
    · exact ensures_bind (draws_option h.expression (fun _ => rfl) start _)
        (hbody initializer condition)
  unfold forStatement
  refine ensures_bind (ensures_drawn _) fun _ => ?_
  refine ensures_bind (draws_forInitializer h start held) fun initializer => ?_
  refine ensures_bind (ensures_drawn _) fun absent => ?_
  dsimp only
  split
  · refine ensures_bind ?_ (hincrement initializer)
    exact ensures_drawn_pure (List.append_nil _)
  · exact ensures_bind (h.expression start _) (hincrement initializer)

theorem draws_ifStatement (h : inner.Draws) (line : Nat) :
    (ifStatement inner line).Draws Stmt.references := by
  intro start held
  refine ensures_bind (ensures_drawn _) fun _ => ?_
  refine ensures_bind (h.expression start held) fun condition => ?_
  refine ensures_bind (ensures_drawn _) fun _ => ?_
  refine ensures_bind (h.statement start _) fun thenBranch => ?_
  have hrest : ∀ elseBranch : Option Stmt,
      Ensures (start.Drawn (held ++ condition.references ++ thenBranch.references ++
          elseBranch.elim [] Stmt.references))
        (return Stmt.branch condition thenBranch elseBranch line)
        fun stmt after => start.Drawn (held ++ stmt.references) after := by
    intro elseBranch
    refine ensures_drawn_pure ?_
    cases elseBranch <;> simp [Stmt.references]
  refine ensures_bind (ensures_drawn _) fun elseWord => ?_
  dsimp only
  split
  · exact ensures_bind (draws_option h.statement (fun _ => rfl) start _) hrest
  · refine ensures_bind ?_ hrest
    exact ensures_drawn_pure (List.append_nil _)

theorem draws_whileStatement (h : inner.Draws) (line : Nat) :
    (whileStatement inner line).Draws Stmt.references := by
  intro start held
  refine ensures_bind (ensures_drawn _) fun _ => ?_
  refine ensures_bind (h.expression start held) fun condition => ?_
  refine ensures_bind (ensures_drawn _) fun _ => ?_
  exact ensures_bind (h.statement start _) fun body =>
    ensures_drawn_pure (by simp [Stmt.references])

theorem draws_printStatement (h : inner.Draws) (line : Nat) :
    (printStatement inner mode line).Draws Stmt.references := by
  intro start held
  refine ensures_bind (h.expression start held) fun expr => ?_
  exact ensures_bind (ensures_drawn _) fun _ => ensures_drawn_pure rfl

theorem draws_returnStatement (h : inner.Draws) (line : Nat) :
    (returnStatement inner line).Draws Stmt.references := by
  intro start held
  have hrest : ∀ value : Option Expr,
      Ensures (start.Drawn (held ++ Expr.referencesOption value))
        (do
          endStatement false
          return Stmt.return value line)
        fun stmt after => start.Drawn (held ++ stmt.references) after :=
    fun value => ensures_bind (ensures_drawn _) fun _ => ensures_drawn_pure rfl
  unfold returnStatement
  refine ensures_bind (ensures_drawn _) fun absent => ?_
  dsimp only
  split
  · refine ensures_bind ?_ hrest
    exact ensures_drawn_pure (List.append_nil held)
  · exact ensures_bind (draws_option h.expression (fun _ => rfl) start held) hrest

theorem draws_statement (h : inner.Draws) : (statement inner mode).Draws Stmt.references := by
  intro start held
  refine ensures_bind (ensures_drawn _) fun token => ?_
  split
  case h_1 => exact ensures_bind (ensures_drawn _) fun _ => draws_forStatement h _ start held
  case h_2 => exact ensures_bind (ensures_drawn _) fun _ => draws_ifStatement h _ start held
  case h_3 => exact ensures_bind (ensures_drawn _) fun _ => draws_printStatement h _ start held
  case h_4 => exact ensures_bind (ensures_drawn _) fun _ => draws_returnStatement h _ start held
  case h_5 => exact ensures_bind (ensures_drawn _) fun _ => draws_whileStatement h _ start held
  case h_6 => exact ensures_bind (ensures_drawn _) fun _ => ensures_map (h.block start held)
  case h_7 =>
    exact ensures_bind (ensures_drawn _) fun _ =>
      ensures_map (draws_command h.expression token start held)
  case h_8 => exact draws_expressionStatement h start held

theorem draws_declaration (h : inner.Draws) :
    (declaration inner).Draws fun stmt => stmt.elim [] Stmt.references := by
  intro start held
  refine ensures_recover ?_ fun cursor after hdrawn hadvances => ?_
  · refine ensures_bind (ensures_drawn _) fun funWord => ?_
    split
    · exact draws_functionDeclaration h start held
    · refine ensures_bind (ensures_drawn _) fun varWord => ?_
      split
      · exact draws_variableDeclaration h start held
      · exact h.statement start held
  · simpa using hdrawn.advance hadvances

/-- A pass that adds a declaration to those before it. -/
theorem draws_pass (h : inner.Draws) (start : Cursor) (held : List Reference)
    (body : Array Stmt) :
    Ensures (start.Drawn (held ++ Stmt.referencesAll body.toList))
      (do
        match ← declaration inner with
        | some stmt => return Pass.again (body.push stmt)
        | none => return Pass.again body)
      fun result after => start.Drawn (held ++ Stmt.referencesAll result.state.toList) after := by
  refine ensures_bind (draws_declaration h start _) fun stmt => ?_
  cases stmt with
  | none => exact ensures_drawn_pure (List.append_nil _).symm
  | some stmt => exact ensures_drawn_pure (by simp [Pass.state, Stmt.referencesAll_eq])

theorem draws_blockBody (h : inner.Draws) : (blockBody inner).Draws Stmt.referencesAll := by
  intro start held
  refine ensures_bind (draws_repeated held (fun body : Array Stmt => Stmt.referencesAll body.toList)
    (fun body => ?_) #[] (List.append_nil held)) fun body =>
      ensures_bind (ensures_drawn _) fun _ => ensures_drawn_pure rfl
  refine ensures_bind (ensures_drawn _) fun brace => ensures_bind (ensures_drawn _) fun atEnd => ?_
  split
  · exact ensures_drawn_pure rfl
  · exact draws_pass h start held body

end Statements

theorem draws_tooDeep {α : Type} (references : α → List Reference) :
    (tooDeep : Rule α).Draws references :=
  fun _ _ => ensures_bind (ensures_drawn _) fun _ => ensures_fail _

theorem draws_nested (mode : InputMode) (levels : Nat) : (nested mode levels).Draws := by
  induction levels with
  | zero => exact ⟨draws_tooDeep _, draws_tooDeep _, draws_tooDeep _, draws_tooDeep _⟩
  | succ levels ih =>
    exact ⟨draws_assignment ih.expression ih.operand, draws_unary ih.expression ih.operand,
      draws_statement ih, draws_blockBody ih⟩

theorem draws_program (mode : InputMode) : (program mode).Draws Stmt.referencesAll := by
  intro start held
  refine ensures_bind (draws_repeated held (fun body : Array Stmt => Stmt.referencesAll body.toList)
    (fun body => ?_) #[] (List.append_nil held)) fun body => ensures_drawn_pure rfl
  refine ensures_bind (ensures_drawn _) fun atEnd => ?_
  split
  · exact ensures_drawn_pure rfl
  · exact draws_pass (draws_nested mode maxNesting) start held body

end CommandScript.Grammar
