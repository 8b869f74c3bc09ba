import CommandScript.Proofs.Grammar.Ids

/-!
# The programs that are read

Only the rule of declarations reads declarations; what stands behind `if`, `else`, `while`
and `for` is read by the rule of statements. So every program that is read is structured.

* `ensures_structured`: rules with structured results.
* `parse_spec`: what is known of a program that was read.
-/

namespace CommandScript.Grammar

open Rule

/-- A statement that declares nothing. -/
structure Plain (stmt : Stmt) : Prop where
  declared : stmt.declared? = none
  structured : stmt.Structured

namespace Rule

variable {α β : Type}

/-- All results have the property. -/
def Yields (rule : Rule α) (property : α → Prop) : Prop :=
  Ensures (fun _ => True) rule fun a _ => property a

theorem yields_true (rule : Rule α) : rule.Yields fun _ => True := fun _ _ _ _ _ => trivial

theorem yields_pure {property : α → Prop} {a : α} (h : property a) :
    (pure a : Rule α).Yields property :=
  ensures_pure fun _ _ => h

theorem yields_bind {rule : Rule α} {next : α → Rule β} {property : α → Prop}
    {last : β → Prop} (h : rule.Yields property) (hnext : ∀ a, property a → (next a).Yields last) :
    (rule >>= next).Yields last :=
  ensures_bind h fun a cursor ha b after hrun => hnext a ha cursor trivial b after hrun

/-- What comes before does not matter. -/
theorem yields_after {rule : Rule α} {next : α → Rule β} {last : β → Prop}
    (hnext : ∀ a, (next a).Yields last) : (rule >>= next).Yields last :=
  yields_bind (yields_true rule) fun a _ => hnext a

theorem yields_map {rule : Rule α} {f : α → β} {property : α → Prop} {last : β → Prop}
    (h : rule.Yields property) (hf : ∀ a, property a → last (f a)) : (f <$> rule).Yields last :=
  ensures_map (ensures_mono h fun a _ => hf a)

theorem yields_repeated (property : α → Prop) {pass : α → Rule (Pass α)}
    (hpass : ∀ state, property state → (pass state).Yields fun result => property result.state)
    {state : α} (h : property state) : (repeated pass state).Yields property :=
  fun cursor _ => ensures_repeated (fun state _ => property state)
    (fun state cursor hstate => hpass state hstate cursor trivial) state cursor h

end Rule

section Statements

variable {inner : Nested} {mode : InputMode}

/-- The rules of one level of nesting have structured results. -/
structure Nested.Structured (inner : Nested) : Prop where
  statement : inner.statement.Yields Plain
  block : inner.block.Yields Stmt.StructuredAll

theorem plain_forLoop {initializer : Option Stmt} {body : Stmt}
    (hinitializer : ∀ stmt ∈ initializer, stmt.Structured) (hbody : Plain body)
    (condition : Expr) (increment : Option Expr) (line : Nat) :
    Plain (forLoop initializer condition increment body line) := by
  have hloop : ∀ whole : Stmt, Plain whole → Plain (.loop condition whole line) :=
    fun whole hwhole => ⟨rfl, hwhole.declared, hwhole.structured⟩
  have hwhole : ∀ whole : Stmt, Plain whole → Plain (initializer.elim (.loop condition whole line)
      fun first => .block [first, .loop condition whole line]) := by
    intro whole hwhole
    cases initializer with
    | none => exact hloop whole hwhole
    | some first => exact ⟨rfl, hinitializer first rfl, (hloop whole hwhole).structured, trivial⟩
  have hstep (step : Expr) : Plain (.block [body, .expression step step.line]) :=
    ⟨rfl, hbody.structured, trivial, trivial⟩
  cases increment with
  | none => cases initializer <;> exact hwhole body hbody
  | some step => cases initializer <;> exact hwhole _ (hstep step)

theorem structured_variableDeclaration :
    (variableDeclaration inner).Yields fun stmt => stmt.Structured := by
  refine yields_after fun name => yields_after fun equal => ?_
  dsimp only
  split
  · exact yields_after fun _ => yields_after fun _ => yields_pure trivial
  · exact yields_after fun _ => yields_after fun _ => yields_pure trivial

theorem structured_functionDeclaration (h : inner.Structured) :
    (functionDeclaration inner).Yields fun stmt => stmt.Structured := by
  have hrest : ∀ (name : Token) (params : List Parameter),
      (do
        let _ ← require .rightParen "')' after parameters"
        let _ ← require .leftBrace "'\x7b' before function body"
        let body ← inner.block
        return Stmt.function name.lexeme params body name.line).Yields
      fun stmt => stmt.Structured := by
    intro name params
    refine yields_after fun _ => yields_after fun _ => ?_
    exact yields_bind h.block fun body hbody => yields_pure hbody
  refine yields_after fun name => yields_after fun _ => yields_after fun empty => ?_
  dsimp only
  split
  · exact yields_after (hrest name)
  · exact yields_after (hrest name)

theorem plain_expressionStatement : (expressionStatement inner).Yields Plain :=
  yields_after fun _ => yields_after fun _ => yields_after fun _ => yields_pure ⟨rfl, trivial⟩

theorem structured_forInitializer :
    (forInitializer inner).Yields fun initializer => ∀ stmt ∈ initializer, stmt.Structured := by
  have hsome : ∀ stmt : Stmt, stmt.Structured → ∀ other ∈ some stmt, other.Structured :=
    fun stmt hstmt other hother => Option.some.inj hother ▸ hstmt
  refine yields_after fun semicolon => ?_
  split
  · exact yields_pure fun _ hnone => by cases hnone
  · refine yields_after fun varWord => ?_
    split
    · exact yields_bind structured_variableDeclaration fun stmt hstmt =>
        yields_pure (hsome stmt hstmt)
    · exact yields_bind plain_expressionStatement fun stmt hstmt =>
        yields_pure (hsome stmt hstmt.structured)

theorem plain_forStatement (h : inner.Structured) (line : Nat) :
    (forStatement inner line).Yields Plain := by
  have hbody : ∀ (initializer : Option Stmt) (condition : Expr) (increment : Option Expr),
      (∀ stmt ∈ initializer, stmt.Structured) →
      (do
        let _ ← require .rightParen "')' after for clauses"
        let body ← inner.statement
        return forLoop initializer condition increment body line).Yields Plain := by
    intro initializer condition increment hinitializer
    refine yields_after fun _ => yields_bind h.statement fun body hbody => yields_pure ?_
    exact plain_forLoop hinitializer hbody condition increment line
  refine yields_after fun _ => yields_bind structured_forInitializer fun initializer hstart => ?_
  refine yields_after fun absent => ?_
  have hcondition : ∀ condition : Expr, (do
      let _ ← require .semicolon "';' after loop condition"
      let increment ← if ← check .rightParen then pure none else some <$> inner.expression
      let _ ← require .rightParen "')' after for clauses"
      let body ← inner.statement
      return forLoop initializer condition increment body line).Yields Plain := by
    intro condition
    refine yields_after fun _ => yields_after fun absent => ?_
    dsimp only
    split
    · exact yields_after fun increment => hbody initializer condition increment hstart
    · exact yields_after fun increment => hbody initializer condition increment hstart
  dsimp only
  split
  · exact yields_after hcondition
  · exact yields_after hcondition

theorem plain_ifStatement (h : inner.Structured) (line : Nat) :
    (ifStatement inner line).Yields Plain := by
  refine yields_after fun _ => yields_after fun condition => yields_after fun _ => ?_
  refine yields_bind h.statement fun thenBranch hthen => yields_after fun elseWord => ?_
  dsimp only
  split
  · have hsome : (some <$> inner.statement).Yields fun branch => ∀ stmt ∈ branch, Plain stmt :=
      yields_map h.statement fun stmt hstmt other hother => Option.some.inj hother ▸ hstmt
    refine yields_bind hsome fun elseBranch helse => yields_pure ?_
    cases elseBranch with
    | none => exact ⟨rfl, hthen.declared, hthen.structured⟩
    | some other =>
      have hother := helse other rfl
      exact ⟨rfl, ⟨hthen.declared, hthen.structured⟩, hother.declared, hother.structured⟩
  · refine yields_bind (yields_pure (rfl : (none : Option Stmt) = none)) fun elseBranch hnone => ?_
    subst hnone
    exact yields_pure ⟨rfl, hthen.declared, hthen.structured⟩

theorem plain_whileStatement (h : inner.Structured) (line : Nat) :
    (whileStatement inner line).Yields Plain := by
  refine yields_after fun _ => yields_after fun condition => yields_after fun _ => ?_
  exact yields_bind h.statement fun body hbody =>
    yields_pure ⟨rfl, hbody.declared, hbody.structured⟩

theorem plain_printStatement (line : Nat) : (printStatement inner mode line).Yields Plain :=
  yields_after fun _ => yields_after fun _ => yields_pure ⟨rfl, trivial⟩

theorem plain_returnStatement (line : Nat) : (returnStatement inner line).Yields Plain := by
  refine yields_after fun absent => ?_
  dsimp only
  split
  · exact yields_after fun _ => yields_after fun _ => yields_pure ⟨rfl, trivial⟩
  · exact yields_after fun _ => yields_after fun _ => yields_pure ⟨rfl, trivial⟩

theorem plain_statement (h : inner.Structured) : (statement inner mode).Yields Plain := by
  refine yields_after fun token => ?_
  split
  case h_1 => exact yields_after fun _ => plain_forStatement h _
  case h_2 => exact yields_after fun _ => plain_ifStatement h _
  case h_3 => exact yields_after fun _ => plain_printStatement _
  case h_4 => exact yields_after fun _ => plain_returnStatement _
  case h_5 => exact yields_after fun _ => plain_whileStatement h _
  case h_6 => exact yields_after fun _ => yields_map h.block fun body hbody => ⟨rfl, hbody⟩
  case h_7 => exact yields_after fun _ => yields_map (yields_true _) fun _ _ => ⟨rfl, trivial⟩
  case h_8 => exact plain_expressionStatement

theorem structured_declaration (h : inner.Structured) :
    (declaration inner).Yields fun stmt => ∀ found ∈ stmt, found.Structured := by
  have hsome : ∀ rule : Rule Stmt, (rule.Yields fun stmt => stmt.Structured) →
      Ensures (fun _ => True) rule fun stmt _ => ∀ found ∈ some stmt, found.Structured :=
    fun rule hrule => ensures_mono hrule fun stmt _ hstmt found hfound =>
      Option.some.inj hfound ▸ hstmt
  refine ensures_recover (hsome _ ?_) fun _ _ _ _ _ hnone => by cases hnone
  refine yields_after fun funWord => ?_
  split
  · exact structured_functionDeclaration h
  · refine yields_after fun varWord => ?_
    split
    · exact structured_variableDeclaration
    · exact ensures_mono h.statement fun stmt _ hstmt => hstmt.structured

theorem structured_pass (h : inner.Structured) {body : Array Stmt}
    (hbody : Stmt.StructuredAll body.toList) :
    (do
      match ← declaration inner with
      | some stmt => return Pass.again (body.push stmt)
      | none => return Pass.again body).Yields
    fun result => Stmt.StructuredAll result.state.toList := by
  refine yields_bind (structured_declaration h) fun stmt hstmt => ?_
  cases stmt with
  | none => exact yields_pure hbody
  | some stmt =>
    refine yields_pure ?_
    rw [Pass.state, Array.toList_push]
    exact Stmt.structuredAll_append.mpr ⟨hbody, hstmt stmt rfl, trivial⟩

theorem structured_blockBody (h : inner.Structured) :
    (blockBody inner).Yields Stmt.StructuredAll := by
  refine yields_bind (yields_repeated (fun body : Array Stmt =>
    Stmt.StructuredAll body.toList) (fun body hbody => ?_) trivial) fun body hbody =>
      yields_after fun _ => yields_pure hbody
  refine yields_after fun brace => yields_after fun atEnd => ?_
  split
  · exact yields_pure hbody
  · exact structured_pass h hbody

end Statements

theorem yields_tooDeep {α : Type} (property : α → Prop) : (tooDeep : Rule α).Yields property :=
  yields_after fun _ => ensures_fail _

theorem structured_nested (mode : InputMode) (levels : Nat) :
    (nested mode levels).Structured := by
  induction levels with
  | zero => exact ⟨yields_tooDeep _, yields_tooDeep _⟩
  | succ levels ih => exact ⟨plain_statement ih, structured_blockBody ih⟩

theorem structured_program (mode : InputMode) : (program mode).Yields Stmt.StructuredAll := by
  refine yields_bind (yields_repeated (fun body : Array Stmt =>
    Stmt.StructuredAll body.toList) (fun body hbody => ?_) trivial) fun body hbody =>
      yields_pure hbody
  refine yields_after fun atEnd => ?_
  split
  · exact yields_pure hbody
  · exact structured_pass (structured_nested mode maxNesting) hbody

end CommandScript.Grammar

namespace CommandScript

open Grammar

theorem parse_nextId (mode : InputMode) (tokens : List Token) (nextId : NodeId) :
    (parse mode tokens nextId).nextId =
      nextId + UInt32.ofNat (parse mode tokens nextId).drawn := by
  have hadvances := (program mode).advances (Cursor.ofTokens tokens nextId)
  unfold parse
  split
  all_goals
    rename_i hrun
    rw [hrun] at hadvances
    have hfirst := hadvances.firstId
  · split <;> exact congrArg (· + _) hfirst
  · exact congrArg (· + _) hfirst

/-- A program that was read is structured, and the ids of its references were drawn for
it, each for one of them. -/
theorem parse_spec {mode : InputMode} {tokens : List Token} {nextId : NodeId}
    {read : List Stmt} (h : (parse mode tokens nextId).program = .ok read) :
    Stmt.StructuredAll read ∧
      ((Stmt.referencesAll read).map Reference.id).Subperm
        ((List.range (parse mode tokens nextId).drawn).map fun drawn =>
          nextId + UInt32.ofNat drawn) := by
  have hstructured := structured_program mode (Cursor.ofTokens tokens nextId) trivial
  have hdraws := draws_program mode (Cursor.ofTokens tokens nextId) [] _ (.refl _)
  unfold parse at h ⊢
  split at h
  · rename_i found after hrun
    split at h
    · rename_i hempty
      obtain rfl := Except.ok.inj h
      refine ⟨hstructured _ _ hrun, ?_⟩
      have hids := (hdraws _ _ hrun).ids
      simp only [hempty, if_true]
      rw [List.range_eq_range']
      exact hids
    · cases h
  · cases h

end CommandScript
