import CommandScript.Proofs.Grammar.Splicing
import CommandScript.Proofs.Syntax.Relabelling

/-!
# Reading with another counter

The ids of a program are counted from a number that the caller gives, and no rule looks at
them. So from a counter that stands further on, the same tokens are read as the same
program, or with the same faults, and every id is as much further on.

* `Cursor.shifted`: a cursor whose counter stands further on.
* `Rule.Shifts`: a rule does the same from such a cursor.
* `shifts_nested`, `shifts_program`: all rules of the grammar do.
* `parse_add`: so does the reading of a program.
-/

namespace CommandScript

namespace Grammar

open Rule Splice

def Cursor.shifted (further : NodeId) (cursor : Cursor) : Cursor :=
  { cursor with firstId := cursor.firstId + further }

theorem Cursor.nextId_shifted (cursor : Cursor) (further : NodeId) :
    (cursor.shifted further).nextId = cursor.nextId + further := by
  unfold nextId shifted
  rw [UInt32.add_assoc, UInt32.add_comm further, ← UInt32.add_assoc]

namespace Rule

variable {α β γ δ : Type} {further : NodeId}

/-- From a cursor whose counter stands further on, the second rule does what the first does. -/
def Shifts (further : NodeId) (rule : Rule α) (other : Rule β) (g : α → β) : Prop :=
  ∀ cursor, other.run (cursor.shifted further) =
    ((rule.run cursor).1.map g, (rule.run cursor).2.shifted further)

/-! ## Sequences -/

theorem shifts_pure {a : α} {b : β} {g : α → β} (h : b = g a) :
    Shifts further (pure a) (pure b) g := by
  intro cursor
  rw [h]
  rfl

theorem shifts_bind {rule : Rule α} {other : Rule β} {next : α → Rule γ} {next' : β → Rule δ}
    {g : α → β} {k : γ → δ} (h : Shifts further rule other g)
    (hnext : ∀ a, Shifts further (next a) (next' (g a)) k) :
    Shifts further (rule >>= next) (other >>= next') k := by
  intro cursor
  rw [run_bind, run_bind, h cursor]
  obtain ⟨outcome, after⟩ := rule.run cursor
  cases outcome with
  | ok a => exact hnext a after
  | error fault => rfl

theorem shifts_map {rule : Rule α} {other : Rule β} {g : α → β} {f : α → γ} {f' : β → δ}
    {k : γ → δ} (h : Shifts further rule other g) (hf : ∀ a, f' (g a) = k (f a)) :
    Shifts further (f <$> rule) (f' <$> other) k :=
  shifts_bind h fun a => shifts_pure (hf a)

theorem shifts_ite {condition : Prop} [Decidable condition] {rule rule' : Rule α}
    {other other' : Rule β} {g : α → β} (hthen : Shifts further rule other g)
    (helse : Shifts further rule' other' g) :
    Shifts further (if condition then rule else rule') (if condition then other else other')
      g := by
  split
  · exact hthen
  · exact helse

theorem shifts_repeated {pass : α → Rule (Pass α)} {pass' : β → Rule (Pass β)} {g : α → β}
    (hpass : ∀ state, Shifts further (pass state) (pass' (g state)) (Pass.map g))
    {state : α} {state' : β} (hstate : state' = g state) :
    Shifts further (repeated pass state) (repeated pass' state') g := by
  subst hstate
  intro cursor
  induction hlength : cursor.rest.length using Nat.strongRecOn generalizing state cursor with
  | _ length ih =>
    subst hlength
    have hadvances := (pass state).advances cursor
    rw [run_repeated, run_repeated, hpass state cursor]
    revert hadvances
    obtain ⟨outcome, after⟩ := (pass state).run cursor
    intro hadvances
    match outcome with
    | .error fault => rfl
    | .ok (.last final) => rfl
    | .ok (.again next) =>
      dsimp only [Except.map, Pass.map]
      by_cases hread : cursor.read < after.read
      · have hread' : (cursor.shifted further).read < (after.shifted further).read := hread
        rw [if_pos hread, if_pos hread']
        exact ih _ (hadvances.length_lt hread) after rfl
      · have hread' : ¬ (cursor.shifted further).read < (after.shifted further).read := hread
        rw [if_neg hread, if_neg hread']

theorem shifts_recover {rule : Rule α} {other : Rule β} {g : α → β}
    (h : Shifts further rule other g) :
    Shifts further rule.recover other.recover (Option.map g) := by
  intro cursor
  simp only [recover, h cursor]
  obtain ⟨outcome, after⟩ := rule.run cursor
  cases outcome <;> rfl

/-! ## Single steps -/

theorem shifts_fail (fault : Located ParseFault) (g : α → β) :
    Shifts further (fail fault) (fail fault) g :=
  fun _ => rfl

theorem shifts_record (fault : Located ParseFault) :
    Shifts further (record fault) (record fault) id :=
  fun _ => rfl

theorem shifts_peek : Shifts further peek peek id := fun _ => rfl

theorem shifts_skip : Shifts further skip skip id := by
  rintro ⟨rest, read, last, firstId, drawn, faults⟩
  cases rest <;> rfl

theorem shifts_atEnd : Shifts further atEnd atEnd id := fun _ => rfl

theorem shifts_freshId : Shifts further freshId freshId (· + further) := by
  intro cursor
  exact Prod.ext (congrArg Except.ok (cursor.nextId_shifted further)) rfl

theorem shifts_check (kind : TokenKind) : Shifts further (check kind) (check kind) id :=
  shifts_bind shifts_peek fun _ => shifts_pure rfl

theorem shifts_accept? (kind : TokenKind) : Shifts further (accept? kind) (accept? kind) id := by
  refine shifts_bind shifts_peek fun token => shifts_ite ?_ (shifts_pure rfl)
  exact shifts_bind shifts_skip fun _ => shifts_pure rfl

theorem shifts_accept (kind : TokenKind) : Shifts further (accept kind) (accept kind) id :=
  shifts_bind (shifts_accept? kind) fun _ => shifts_pure rfl

theorem shifts_expected (what : String) (g : α → β) :
    Shifts further (expected what) (expected what) g :=
  shifts_bind shifts_peek fun _ => shifts_ite (shifts_fail _ _) (shifts_fail _ _)

theorem shifts_require (kind : TokenKind) (what : String) :
    Shifts further (require kind what) (require kind what) id := by
  refine shifts_bind (shifts_accept? kind) fun token => ?_
  cases token with
  | some token => exact shifts_pure rfl
  | none => exact shifts_expected what _

theorem shifts_separated {item : Rule α} {other : Rule β} {g : α → β}
    (h : Shifts further item other g) (maxItems : Nat) (tooMany : ParseFault) :
    Shifts further (separated maxItems tooMany item) (separated maxItems tooMany other)
      (List.map g) := by
  have hnext : ∀ items : Array α, Shifts further (do return Pass.again (items.push (← item)))
      (do return Pass.again ((items.map g).push (← other))) (Pass.map (Array.map g)) :=
    fun items => shifts_bind h fun next => shifts_pure (by simp [Pass.map])
  refine shifts_bind h fun first => ?_
  refine shifts_bind (g := Array.map g) (shifts_repeated (fun items => ?_) (by simp)) fun items =>
    shifts_pure (by simp)
  refine shifts_bind (shifts_accept .comma) fun comma => ?_
  rw [Array.size_map]
  refine shifts_ite (shifts_ite ?_ (hnext items)) (shifts_pure rfl)
  exact shifts_bind shifts_peek fun token => shifts_bind (shifts_record _) fun _ => hnext items

end Rule

/-- All ids are further on. -/
def shift (further : NodeId) : Relabelling := .ofIds (· + further)

/-! ## Expressions -/

section Expressions

variable {further : NodeId} {expression operand : Rule Expr}

theorem shifts_primary (h : Shifts further expression expression (·.relabel (shift further))) :
    Shifts further (primary expression) (primary expression) (·.relabel (shift further)) := by
  refine shifts_bind shifts_peek fun token => ?_
  dsimp only [id_eq]
  split
  case h_6 =>
    exact shifts_bind shifts_skip fun _ => shifts_bind shifts_freshId fun id => shifts_pure rfl
  case h_8 =>
    refine shifts_bind shifts_skip fun _ => shifts_bind h fun inner => ?_
    exact shifts_bind (shifts_require _ _) fun _ => shifts_pure rfl
  case h_9 => exact shifts_fail _ _
  case h_10 => exact shifts_fail _ _
  all_goals exact shifts_bind shifts_skip fun _ => shifts_pure rfl

theorem shifts_finishCall (h : Shifts further expression expression (·.relabel (shift further)))
    (callee : Expr) :
    Shifts further (finishCall expression callee)
      (finishCall expression (callee.relabel (shift further))) (·.relabel (shift further)) := by
  have hrest : ∀ args : List Expr, Shifts further
      (do
        let paren ← require .rightParen "')' after arguments"
        return Expr.call callee args paren.line)
      (do
        let paren ← require .rightParen "')' after arguments"
        return Expr.call (callee.relabel (shift further))
          (args.map (·.relabel (shift further))) paren.line)
      (·.relabel (shift further)) := by
    intro args
    refine shifts_bind (shifts_require _ _) fun paren => shifts_pure ?_
    simp only [Expr.relabel, Expr.relabelAll_eq]
    rfl
  refine shifts_bind (shifts_check _) fun empty => ?_
  dsimp only [id_eq]
  split
  · exact shifts_bind (g := List.map (·.relabel (shift further))) (shifts_pure rfl) hrest
  · exact shifts_bind (shifts_separated h _ _) hrest

theorem shifts_call (h : Shifts further expression expression (·.relabel (shift further))) :
    Shifts further (call expression) (call expression) (·.relabel (shift further)) := by
  refine shifts_bind (shifts_primary h) fun callee => shifts_repeated (fun callee => ?_) rfl
  refine shifts_bind (shifts_accept _) fun paren => shifts_ite ?_ (shifts_pure rfl)
  exact shifts_bind (shifts_finishCall h callee) fun _ => shifts_pure rfl

theorem shifts_unary (h : Shifts further expression expression (·.relabel (shift further)))
    (hoperand : Shifts further operand operand (·.relabel (shift further))) :
    Shifts further (unary expression operand) (unary expression operand)
      (·.relabel (shift further)) := by
  refine shifts_bind shifts_peek fun token => ?_
  dsimp only [id_eq]
  split
  · refine shifts_bind shifts_skip fun _ => ?_
    exact shifts_bind hoperand fun _ => shifts_pure rfl
  · exact shifts_call h

theorem shifts_leftAssociative {ω : Type} {operator? : TokenKind → Option ω}
    {node : ω → Expr → Expr → Nat → Expr}
    (hnode : ∀ op left right line, (node op left right line).relabel (shift further) =
      node op (left.relabel (shift further)) (right.relabel (shift further)) line)
    (hoperand : Shifts further operand operand (·.relabel (shift further))) :
    Shifts further (leftAssociative operator? node operand)
      (leftAssociative operator? node operand) (·.relabel (shift further)) := by
  refine shifts_bind hoperand fun first => shifts_repeated (fun left => ?_) rfl
  refine shifts_bind shifts_peek fun token => ?_
  dsimp only [id_eq]
  split
  · refine shifts_bind shifts_skip fun _ => shifts_bind hoperand fun right => shifts_pure ?_
    rw [Pass.map, hnode]
  · exact shifts_pure rfl

theorem shifts_logicalOr (h : Shifts further expression expression (·.relabel (shift further)))
    (hoperand : Shifts further operand operand (·.relabel (shift further))) :
    Shifts further (logicalOr expression operand) (logicalOr expression operand)
      (·.relabel (shift further)) :=
  have hbinary : ∀ op left right line, (Expr.binary op left right line).relabel (shift further) =
      .binary op (left.relabel (shift further)) (right.relabel (shift further)) line :=
    fun _ _ _ _ => rfl
  have hlogical : ∀ op left right line,
      (Expr.logical op left right line).relabel (shift further) =
        .logical op (left.relabel (shift further)) (right.relabel (shift further)) line :=
    fun _ _ _ _ => rfl
  shifts_leftAssociative hlogical <| shifts_leftAssociative hlogical <|
    shifts_leftAssociative hbinary <| shifts_leftAssociative hbinary <|
    shifts_leftAssociative hbinary <| shifts_leftAssociative hbinary <|
    shifts_unary h hoperand

/-- The links of a chain of assignments with ids further on. -/
def shiftLink (further : NodeId) (link : Nat × Expr) : Nat × Expr :=
  (link.1, link.2.relabel (shift further))

theorem shifts_assignChain (links : List (Nat × Expr)) (target : Expr) :
    Shifts further (assignChain target links)
      (assignChain (target.relabel (shift further)) (links.map (shiftLink further)))
      (·.relabel (shift further)) := by
  induction links generalizing target with
  | nil => exact shifts_pure rfl
  | cons link rest ih =>
    refine shifts_bind (ih link.2) fun value => ?_
    cases target with
    | «variable» id name nameLine => exact shifts_pure rfl
    | _ => exact shifts_bind (shifts_record _) fun _ => shifts_pure rfl

theorem shifts_assignment (h : Shifts further expression expression (·.relabel (shift further)))
    (hoperand : Shifts further operand operand (·.relabel (shift further))) :
    Shifts further (assignment expression operand) (assignment expression operand)
      (·.relabel (shift further)) := by
  refine shifts_bind (shifts_logicalOr h hoperand) fun target => ?_
  refine shifts_bind (g := Array.map (shiftLink further))
    (shifts_repeated (fun links => ?_) (by simp)) fun links => ?_
  · refine shifts_bind (shifts_accept? _) fun token => ?_
    cases token with
    | none => exact shifts_pure rfl
    | some token =>
      refine shifts_bind (shifts_logicalOr h hoperand) fun value => shifts_pure ?_
      simp [Pass.map, shiftLink]
  · rw [Array.toList_map]
    exact shifts_assignChain links.toList target

end Expressions

/-! ## Arguments of commands -/

section Arguments

variable {further : NodeId} {expression : Rule Expr}

theorem shifts_endStatement (optional : Bool) :
    Shifts further (endStatement optional) (endStatement optional) id := by
  refine shifts_bind (shifts_accept _) fun semicolon => shifts_ite (shifts_pure rfl) ?_
  refine shifts_bind shifts_atEnd fun ends => ?_
  exact shifts_ite (shifts_pure rfl) (shifts_expected _ _)

theorem shifts_atCommandEnd : Shifts further atCommandEnd atCommandEnd id :=
  shifts_bind (shifts_check _) fun _ => shifts_bind shifts_atEnd fun _ => shifts_pure rfl

theorem shifts_argValue (h : Shifts further expression expression (·.relabel (shift further))) :
    Shifts further (argValue expression) (argValue expression) (·.relabel (shift further)) := by
  have hexpr : Shifts further (do return ArgValue.expr (← primary expression))
      (do return ArgValue.expr (← primary expression)) (·.relabel (shift further)) :=
    shifts_bind (shifts_primary h) fun _ => shifts_pure rfl
  refine shifts_bind shifts_peek fun token => ?_
  dsimp only [id_eq]
  split
  case h_1 => exact shifts_bind shifts_skip fun _ => shifts_pure rfl
  case h_2 => exact shifts_bind shifts_skip fun _ => shifts_pure rfl
  case h_9 => exact shifts_fail _ _
  all_goals exact hexpr

theorem shifts_markerName (missing : String → ParseFault) :
    Shifts further (markerName missing) (markerName missing) id := by
  refine shifts_bind (shifts_accept? _) fun token => ?_
  cases token with
  | some token => exact shifts_pure rfl
  | none => exact shifts_bind shifts_peek fun _ => shifts_fail _ _

theorem shifts_parameterValues
    (h : Shifts further expression expression (·.relabel (shift further))) :
    Shifts further (parameterValues expression) (parameterValues expression)
      (List.map (·.relabel (shift further))) := by
  refine shifts_bind (g := Array.map (·.relabel (shift further)))
    (shifts_repeated (fun values => ?_) (by simp)) fun values => shifts_pure (by simp)
  refine shifts_bind shifts_atCommandEnd fun ends => ?_
  refine shifts_bind (shifts_check _) fun minus => shifts_ite (shifts_pure rfl) ?_
  refine shifts_bind (shifts_accept _) fun comma => shifts_ite (shifts_pure rfl) ?_
  exact shifts_bind (shifts_argValue h) fun value => shifts_pure (by simp [Pass.map])

theorem shifts_marked (h : Shifts further expression expression (·.relabel (shift further))) :
    Shifts further (marked expression) (marked expression) (·.relabel (shift further)) := by
  refine shifts_bind (shifts_accept _) fun minus => shifts_ite ?_ ?_
  · refine shifts_bind (shifts_markerName _) fun name => ?_
    exact shifts_bind (shifts_parameterValues h) fun values => shifts_pure rfl
  · exact shifts_bind (shifts_markerName _) fun name => shifts_pure rfl

theorem shifts_args (h : Shifts further expression expression (·.relabel (shift further))) :
    Shifts further (args expression) (args expression)
      (List.map (·.relabel (shift further))) := by
  refine shifts_bind (g := Array.map (·.relabel (shift further)))
    (shifts_repeated (fun args => ?_) (by simp)) fun args => shifts_pure (by simp)
  refine shifts_bind shifts_atCommandEnd fun ends => shifts_ite (shifts_pure rfl) ?_
  refine shifts_bind (shifts_accept _) fun comma => shifts_ite (shifts_pure rfl) ?_
  refine shifts_bind (shifts_accept _) fun minus => shifts_ite ?_ ?_
  · exact shifts_bind (shifts_marked h) fun arg => shifts_pure (by simp [Pass.map])
  · exact shifts_bind (shifts_argValue h) fun value =>
      shifts_pure (by simp [Pass.map, Arg.relabel])

theorem shifts_helpTopic : Shifts further helpTopic helpTopic id := by
  refine shifts_bind shifts_atCommandEnd fun ends => shifts_ite (shifts_pure rfl) ?_
  refine shifts_bind (shifts_accept? _) fun token => ?_
  cases token with
  | some token => exact shifts_pure rfl
  | none => exact shifts_bind shifts_peek fun _ => shifts_fail _ _

theorem shifts_command (h : Shifts further expression expression (·.relabel (shift further)))
    (word : Token) :
    Shifts further (command expression word) (command expression word)
      (·.relabel (shift further)) := by
  refine shifts_ite ?_ (shifts_ite ?_ ?_)
  · refine shifts_bind shifts_helpTopic fun topic => ?_
    exact shifts_bind (shifts_endStatement _) fun _ => shifts_pure rfl
  · exact shifts_bind (shifts_endStatement _) fun _ => shifts_pure rfl
  · refine shifts_bind (shifts_args h) fun given => ?_
    exact shifts_bind (shifts_endStatement _) fun _ => shifts_pure rfl

end Arguments

/-! ## Statements -/

structure Nested.Shifts (further : NodeId) (inner : Nested) : Prop where
  expression : Rule.Shifts further inner.expression inner.expression (·.relabel (shift further))
  operand : Rule.Shifts further inner.operand inner.operand (·.relabel (shift further))
  statement : Rule.Shifts further inner.statement inner.statement (·.relabel (shift further))
  block : Rule.Shifts further inner.block inner.block (Stmt.relabelAll (shift further))

section Statements

variable {further : NodeId} {inner : Nested} {mode : InputMode}

theorem shifts_variableDeclaration (h : inner.Shifts further) :
    Shifts further (variableDeclaration inner) (variableDeclaration inner)
      (·.relabel (shift further)) := by
  have hrest : ∀ (name : Token) (initializer : Option Expr), Shifts further
      (do
        endStatement false
        return Stmt.declare name.lexeme initializer name.line)
      (do
        endStatement false
        return Stmt.declare name.lexeme (initializer.map (·.relabel (shift further))) name.line)
      (·.relabel (shift further)) :=
    fun _ _ => shifts_bind (shifts_endStatement _) fun _ => shifts_pure rfl
  refine shifts_bind (shifts_require _ _) fun name => ?_
  refine shifts_bind (shifts_accept _) fun equal => ?_
  dsimp only [id_eq]
  split
  · exact shifts_bind (shifts_map (k := Option.map _) h.expression fun _ => rfl) (hrest name)
  · exact shifts_bind (g := Option.map _) (shifts_pure rfl) (hrest name)

theorem shifts_parameter : Shifts further parameter parameter (·.relabel (shift further)) :=
  shifts_bind (shifts_require _ _) fun _ => shifts_pure rfl

theorem shifts_functionDeclaration (h : inner.Shifts further) :
    Shifts further (functionDeclaration inner) (functionDeclaration inner)
      (·.relabel (shift further)) := by
  have hrest : ∀ (name : Token) (params : List Parameter), Shifts further
      (do
        let _ ← require .rightParen "')' after parameters"
        let _ ← require .leftBrace "'\x7b' before function body"
        let body ← inner.block
        return Stmt.function name.lexeme params body name.line)
      (do
        let _ ← require .rightParen "')' after parameters"
        let _ ← require .leftBrace "'\x7b' before function body"
        let body ← inner.block
        return Stmt.function name.lexeme (params.map (·.relabel (shift further))) body name.line)
      (·.relabel (shift further)) := by
    intro name params
    refine shifts_bind (shifts_require _ _) fun _ => shifts_bind (shifts_require _ _) fun _ => ?_
    exact shifts_bind h.block fun body => shifts_pure rfl
  refine shifts_bind (shifts_require _ _) fun name => shifts_bind (shifts_require _ _) fun _ => ?_
  refine shifts_bind (shifts_check _) fun empty => ?_
  dsimp only [id_eq]
  split
  · exact shifts_bind (g := List.map _) (shifts_pure rfl) (hrest name)
  · exact shifts_bind (shifts_separated shifts_parameter _ _) (hrest name)

theorem shifts_expressionStatement (h : inner.Shifts further) :
    Shifts further (expressionStatement inner) (expressionStatement inner)
      (·.relabel (shift further)) := by
  refine shifts_bind shifts_peek fun token => shifts_bind h.expression fun expr => ?_
  exact shifts_bind (shifts_endStatement _) fun _ => shifts_pure rfl

theorem shifts_forInitializer (h : inner.Shifts further) :
    Shifts further (forInitializer inner) (forInitializer inner)
      (Option.map (·.relabel (shift further))) := by
  refine shifts_bind (shifts_accept _) fun semicolon => shifts_ite (shifts_pure rfl) ?_
  refine shifts_bind (shifts_accept _) fun varWord => shifts_ite ?_ ?_
  · exact shifts_bind (shifts_variableDeclaration h) fun _ => shifts_pure rfl
  · exact shifts_bind (shifts_expressionStatement h) fun _ => shifts_pure rfl

theorem relabel_forLoop (r : Relabelling) (initializer : Option Stmt) (condition : Expr)
    (increment : Option Expr) (body : Stmt) (line : Nat) :
    (forLoop initializer condition increment body line).relabel r =
      forLoop (initializer.map (·.relabel r)) (condition.relabel r)
        (increment.map (·.relabel r)) (body.relabel r) (r.lines line) := by
  cases initializer <;> cases increment <;>
    simp [forLoop, Stmt.relabel, Stmt.relabelAll, Expr.line_relabel]

theorem shifts_forStatement (h : inner.Shifts further) (line : Nat) :
    Shifts further (forStatement inner line) (forStatement inner line)
      (·.relabel (shift further)) := by
  have hbody : ∀ (initializer : Option Stmt) (condition : Expr) (increment : Option Expr),
      Shifts further
        (do
          let _ ← require .rightParen "')' after for clauses"
          let body ← inner.statement
          return forLoop initializer condition increment body line)
        (do
          let _ ← require .rightParen "')' after for clauses"
          let body ← inner.statement
          return forLoop (initializer.map (·.relabel (shift further)))
            (condition.relabel (shift further)) (increment.map (·.relabel (shift further))) body
            line)
        (·.relabel (shift further)) := by
    intro initializer condition increment
    refine shifts_bind (shifts_require _ _) fun _ => ?_
    exact shifts_bind h.statement fun body => shifts_pure (relabel_forLoop ..).symm
  have hincrement : ∀ (initializer : Option Stmt) (condition : Expr), Shifts further
      (do
        let _ ← require .semicolon "';' after loop condition"
        let increment ← if ← check .rightParen then pure none else some <$> inner.expression
        let _ ← require .rightParen "')' after for clauses"
        let body ← inner.statement
        return forLoop initializer condition increment body line)
      (do
        let _ ← require .semicolon "';' after loop condition"
        let increment ← if ← check .rightParen then pure none else some <$> inner.expression
        let _ ← require .rightParen "')' after for clauses"
        let body ← inner.statement
        return forLoop (initializer.map (·.relabel (shift further)))
          (condition.relabel (shift further)) increment body line)
      (·.relabel (shift further)) := by
    intro initializer condition
    refine shifts_bind (shifts_require _ _) fun _ => shifts_bind (shifts_check _) fun absent => ?_
    dsimp only [id_eq]
    split
    · exact shifts_bind (g := Option.map _) (shifts_pure rfl) (hbody initializer condition)
    · exact shifts_bind (shifts_map (k := Option.map _) h.expression fun _ => rfl)
        (hbody initializer condition)
  refine shifts_bind (shifts_require _ _) fun _ => ?_
  refine shifts_bind (shifts_forInitializer h) fun initializer => ?_
  refine shifts_bind (shifts_check _) fun absent => ?_
  dsimp only [id_eq]
  split
  · exact shifts_bind (g := Expr.relabel (shift further)) (shifts_pure rfl)
      (hincrement initializer)
  · exact shifts_bind h.expression (hincrement initializer)

theorem shifts_ifStatement (h : inner.Shifts further) (line : Nat) :
    Shifts further (ifStatement inner line) (ifStatement inner line)
      (·.relabel (shift further)) := by
  have hrest : ∀ (condition : Expr) (thenBranch : Stmt) (elseBranch : Option Stmt),
      Shifts further (pure (Stmt.branch condition thenBranch elseBranch line))
        (pure (Stmt.branch (condition.relabel (shift further)) (thenBranch.relabel (shift further))
          (elseBranch.map (·.relabel (shift further))) line))
        (·.relabel (shift further)) :=
    fun _ _ _ => shifts_pure (Stmt.relabel_branch ..).symm
  refine shifts_bind (shifts_require _ _) fun _ => shifts_bind h.expression fun condition => ?_
  refine shifts_bind (shifts_require _ _) fun _ => shifts_bind h.statement fun thenBranch => ?_
  refine shifts_bind (shifts_accept _) fun elseWord => ?_
  dsimp only [id_eq]
  split
  · exact shifts_bind (shifts_map (k := Option.map _) h.statement fun _ => rfl)
      (hrest condition thenBranch)
  · exact shifts_bind (g := Option.map _) (shifts_pure rfl) (hrest condition thenBranch)

theorem shifts_whileStatement (h : inner.Shifts further) (line : Nat) :
    Shifts further (whileStatement inner line) (whileStatement inner line)
      (·.relabel (shift further)) := by
  refine shifts_bind (shifts_require _ _) fun _ => shifts_bind h.expression fun condition => ?_
  refine shifts_bind (shifts_require _ _) fun _ => ?_
  exact shifts_bind h.statement fun body => shifts_pure rfl

theorem shifts_printStatement (h : inner.Shifts further) (line : Nat) :
    Shifts further (printStatement inner mode line) (printStatement inner mode line)
      (·.relabel (shift further)) := by
  refine shifts_bind h.expression fun expr => ?_
  exact shifts_bind (shifts_endStatement _) fun _ => shifts_pure rfl

theorem shifts_returnStatement (h : inner.Shifts further) (line : Nat) :
    Shifts further (returnStatement inner line) (returnStatement inner line)
      (·.relabel (shift further)) := by
  have hrest : ∀ value : Option Expr, Shifts further
      (do
        endStatement false
        return Stmt.return value line)
      (do
        endStatement false
        return Stmt.return (value.map (·.relabel (shift further))) line)
      (·.relabel (shift further)) :=
    fun _ => shifts_bind (shifts_endStatement _) fun _ => shifts_pure rfl
  refine shifts_bind (shifts_check _) fun absent => ?_
  dsimp only [id_eq]
  split
  · exact shifts_bind (g := Option.map _) (shifts_pure rfl) hrest
  · exact shifts_bind (shifts_map (k := Option.map _) h.expression fun _ => rfl) hrest

theorem shifts_statement (h : inner.Shifts further) :
    Shifts further (statement inner mode) (statement inner mode) (·.relabel (shift further)) := by
  refine shifts_bind shifts_peek fun token => ?_
  dsimp only [id_eq]
  split
  case h_1 => exact shifts_bind shifts_skip fun _ => shifts_forStatement h _
  case h_2 => exact shifts_bind shifts_skip fun _ => shifts_ifStatement h _
  case h_3 => exact shifts_bind shifts_skip fun _ => shifts_printStatement h _
  case h_4 => exact shifts_bind shifts_skip fun _ => shifts_returnStatement h _
  case h_5 => exact shifts_bind shifts_skip fun _ => shifts_whileStatement h _
  case h_6 => exact shifts_bind shifts_skip fun _ => shifts_map h.block fun _ => rfl
  case h_7 =>
    exact shifts_bind shifts_skip fun _ => shifts_map (shifts_command h.expression token)
      fun _ => rfl
  case h_8 => exact shifts_expressionStatement h

theorem shifts_declaration (h : inner.Shifts further) :
    Shifts further (declaration inner) (declaration inner)
      (Option.map (·.relabel (shift further))) := by
  refine shifts_recover (shifts_bind (shifts_accept _) fun funWord => ?_)
  refine shifts_ite ?_ (shifts_bind (shifts_accept _) fun varWord => ?_)
  · exact shifts_functionDeclaration h
  · exact shifts_ite (shifts_variableDeclaration h) h.statement

/-- A pass that adds a declaration to those before it. -/
theorem shifts_pass (h : inner.Shifts further) (body : Array Stmt) :
    Shifts further
      (do
        match ← declaration inner with
        | some stmt => return Pass.again (body.push stmt)
        | none => return Pass.again body)
      (do
        match ← declaration inner with
        | some stmt => return Pass.again ((body.map (·.relabel (shift further))).push stmt)
        | none => return Pass.again (body.map (·.relabel (shift further))))
      (Pass.map (Array.map (·.relabel (shift further)))) := by
  refine shifts_bind (shifts_declaration h) fun stmt => ?_
  cases stmt with
  | none => exact shifts_pure rfl
  | some stmt => exact shifts_pure (by simp [Pass.map])

theorem shifts_blockBody (h : inner.Shifts further) :
    Shifts further (blockBody inner) (blockBody inner) (Stmt.relabelAll (shift further)) := by
  refine shifts_bind (g := Array.map (·.relabel (shift further)))
    (shifts_repeated (fun body => ?_) (by simp)) fun body => ?_
  · refine shifts_bind (shifts_check _) fun brace => shifts_bind shifts_atEnd fun ends => ?_
    exact shifts_ite (shifts_pure rfl) (shifts_pass h body)
  · exact shifts_bind (shifts_require _ _) fun _ =>
      shifts_pure (by rw [Stmt.relabelAll_eq, Array.toList_map])

end Statements

theorem shifts_tooDeep {α β : Type} {further : NodeId} (g : α → β) :
    Shifts further tooDeep tooDeep g :=
  shifts_bind shifts_peek fun _ => shifts_fail _ _

theorem shifts_nested (further : NodeId) (mode : InputMode) (levels : Nat) :
    (nested mode levels).Shifts further := by
  induction levels with
  | zero => exact ⟨shifts_tooDeep _, shifts_tooDeep _, shifts_tooDeep _, shifts_tooDeep _⟩
  | succ levels ih =>
    exact ⟨shifts_assignment ih.expression ih.operand, shifts_unary ih.expression ih.operand,
      shifts_statement ih, shifts_blockBody ih⟩

theorem shifts_program (further : NodeId) (mode : InputMode) :
    Shifts further (program mode) (program mode) (Stmt.relabelAll (shift further)) := by
  refine shifts_bind (g := Array.map (·.relabel (shift further)))
    (shifts_repeated (fun body => ?_) (by simp)) fun body => ?_
  · refine shifts_bind shifts_atEnd fun ends => shifts_ite (shifts_pure rfl) ?_
    exact shifts_pass (shifts_nested further mode maxNesting) body
  · exact shifts_pure (by rw [Stmt.relabelAll_eq, Array.toList_map])

end Grammar

open Grammar

/-- A program that is read with a counter further on has ids that are as much further on. -/
theorem parse_add (mode : InputMode) (tokens : List Token) (nextId further : NodeId) :
    CommandScript.parse mode tokens (nextId + further) =
      { program := (CommandScript.parse mode tokens nextId).program.map
          (Stmt.relabelAll (shift further))
        nextId := (CommandScript.parse mode tokens nextId).nextId + further
        drawn := (CommandScript.parse mode tokens nextId).drawn } := by
  have hstart : Cursor.ofTokens tokens (nextId + further) =
      (Cursor.ofTokens tokens nextId).shifted further := rfl
  unfold CommandScript.parse
  rw [hstart, shifts_program further mode]
  obtain ⟨outcome, after⟩ := (Grammar.program mode).run (Cursor.ofTokens tokens nextId)
  cases outcome with
  | error fault =>
    simp only [Except.map, Cursor.nextId_shifted]
    rfl
  | ok program =>
    have hfaults : (after.shifted further).faults = after.faults := rfl
    simp only [Except.map, Cursor.nextId_shifted, hfaults]
    cases after.faults.isEmpty <;> rfl

end CommandScript
