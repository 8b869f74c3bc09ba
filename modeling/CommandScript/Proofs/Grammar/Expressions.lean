import CommandScript.Grammar.Statement
import CommandScript.Proofs.Grammar.Calls

/-!
# The grammar of expressions

From the operands upwards every level of operators reads exactly the expressions of its
strength. An assignment reads a chain of such expressions first and checks its targets
afterwards: the chain is an assignment if all but its last link are names. Since what nests
is read by the rules of one level less, the rule of expressions reads exactly the
expressions that are not nested too deep.

* `readsExpr_logicalOr`: all levels of operators between operands.
* `Assigns`: the assignment that a chain stands for.
* `accepts_expression_iff`: the rule of expressions and the grammar.
-/

namespace CommandScript.Grammar

open Rule

/-! ## The operators of each level -/

/-- A table of the binary operators of one strength. -/
theorem infix_binary {operator? : TokenKind → Option BinaryOp} {level : Nat}
    (hlevel : 2 < level ∧ level < 7)
    (hsome : ∀ kind op, operator? kind = some op ↔ kind = op.kind ∧ op.strength = level)
    (hjoins : ∀ kind, kind.joins? = some level ↔ (operator? kind).isSome) :
    Infix operator? .binary level where
  joins := hjoins
  ids _ _ _ _ := rfl
  depth _ _ _ _ := rfl
  strength kind op _ _ _ hop := ((hsome kind op).mp hop).2
  proper kind op left right line hop := by
    rw [Expr.Proper, ((hsome kind op).mp hop).2]
  spelled token op left right before after hop hleft hright :=
    .binary hleft ((hsome token.kind op).mp hop).1 hright
  parts expr tokens hspelled hstrength := by
    match expr, hspelled with
    | .binary op left right _, .binary hleft hoperator hright =>
      exact ⟨_, op, left, right, _, _, rfl, rfl, (hsome _ _).mpr ⟨hoperator, hstrength⟩, hleft,
        hright⟩
    | .logical op .., _ =>
      have hle : op.strength ≤ 2 := op.strength_mem.2
      simp only [Expr.strength] at hstrength
      omega
    | .unary .., _ | .call .., _ | .assign .., _ | .literal .., _ | .variable .., _
    | .commandRef .., _ | .grouping .., _ =>
      simp only [Expr.strength] at hstrength
      omega

/-- A table of the logical operators of one strength. -/
theorem infix_logical {operator? : TokenKind → Option LogicalOp} {level : Nat}
    (hlevel : 0 < level ∧ level < 3)
    (hsome : ∀ kind op, operator? kind = some op ↔ kind = op.kind ∧ op.strength = level)
    (hjoins : ∀ kind, kind.joins? = some level ↔ (operator? kind).isSome) :
    Infix operator? .logical level where
  joins := hjoins
  ids _ _ _ _ := rfl
  depth _ _ _ _ := rfl
  strength kind op _ _ _ hop := ((hsome kind op).mp hop).2
  proper kind op left right line hop := by
    rw [Expr.Proper, ((hsome kind op).mp hop).2]
  spelled token op left right before after hop hleft hright :=
    .logical hleft ((hsome token.kind op).mp hop).1 hright
  parts expr tokens hspelled hstrength := by
    match expr, hspelled with
    | .logical op left right _, .logical hleft hoperator hright =>
      exact ⟨_, op, left, right, _, _, rfl, rfl, (hsome _ _).mpr ⟨hoperator, hstrength⟩, hleft,
        hright⟩
    | .binary op .., _ =>
      have hle : 3 ≤ op.strength := op.strength_mem.1
      simp only [Expr.strength] at hstrength
      omega
    | .unary .., _ | .call .., _ | .assign .., _ | .literal .., _ | .variable .., _
    | .commandRef .., _ | .grouping .., _ =>
      simp only [Expr.strength] at hstrength
      omega

theorem infix_product : Infix productOp? .binary 6 :=
  infix_binary (by decide)
    (fun kind op => by cases op <;> cases kind <;> decide)
    (fun kind => by cases kind <;> decide)

theorem infix_sum : Infix sumOp? .binary 5 :=
  infix_binary (by decide)
    (fun kind op => by cases op <;> cases kind <;> decide)
    (fun kind => by cases kind <;> decide)

theorem infix_comparison : Infix comparisonOp? .binary 4 :=
  infix_binary (by decide)
    (fun kind op => by cases op <;> cases kind <;> decide)
    (fun kind => by cases kind <;> decide)

theorem infix_equality : Infix equalityOp? .binary 3 :=
  infix_binary (by decide)
    (fun kind op => by cases op <;> cases kind <;> decide)
    (fun kind => by cases kind <;> decide)

theorem infix_and : Infix andOp? .logical 2 :=
  infix_logical (by decide)
    (fun kind op => by cases op <;> cases kind <;> decide)
    (fun kind => by cases kind <;> decide)

theorem infix_or : Infix orOp? .logical 1 :=
  infix_logical (by decide)
    (fun kind op => by cases op <;> cases kind <;> decide)
    (fun kind => by cases kind <;> decide)

section Levels

variable {expression operand : Rule Expr} {levels : Nat}

/-- Every expression but an assignment. -/
theorem readsExpr_logicalOr (h : expression.ReadsExpr 0 levels)
    (hoperand : operand.ReadsExpr 7 levels) :
    (logicalOr expression operand).ReadsExpr 1 (levels + 1) :=
  readsExpr_leftAssociative infix_or <|
  readsExpr_leftAssociative infix_and <|
  readsExpr_leftAssociative infix_equality <|
  readsExpr_leftAssociative infix_comparison <|
  readsExpr_leftAssociative infix_sum <|
  readsExpr_leftAssociative infix_product <|
  readsExpr_unary h hoperand

/-! ## Assignments -/

/-- A chain of targets, each followed by what is assigned to it, and the assignment that it
stands for. Only names can be assigned to. -/
inductive Assigns : Expr → List (Nat × Expr) → Expr → Prop where
  | value {value : Expr} : Assigns value [] value
  | link {id : NodeId} {name : String} {line equalLine : Nat} {next value : Expr}
      {rest : List (Nat × Expr)} : Assigns next rest value →
      Assigns (.variable id name line) ((equalLine, next) :: rest) (.assign id name value line)

variable {cursor after : Cursor}

theorem accepts_assignChain {target expr : Expr} {links : List (Nat × Expr)} :
    (assignChain target links).Accepts cursor expr after ↔
      Assigns target links expr ∧ after = cursor := by
  induction links generalizing target expr after with
  | nil =>
    rw [assignChain, accepts_pure]
    constructor
    · rintro ⟨rfl, rfl⟩
      exact ⟨.value, rfl⟩
    · rintro ⟨hassigns, rfl⟩
      cases hassigns
      exact ⟨rfl, rfl⟩
  | cons link rest ih =>
    obtain ⟨line, next⟩ := link
    rw [assignChain, accepts_bind]
    constructor
    · rintro ⟨value, middle, hvalue, hrest⟩
      obtain ⟨hassigns, rfl⟩ := ih.mp hvalue
      split at hrest
      · obtain ⟨rfl, rfl⟩ := accepts_pure.mp hrest
        exact ⟨.link hassigns, rfl⟩
      · obtain ⟨_, _, hrecord, -⟩ := accepts_bind.mp hrest
        exact absurd hrecord not_accepts_record
    · rintro ⟨hassigns, rfl⟩
      cases hassigns with
      | link hassigns => exact ⟨_, _, ih.mpr ⟨hassigns, rfl⟩, accepts_pure.mpr ⟨rfl, rfl⟩⟩

/-- One more `=` and expression. -/
def linkPass (value : Rule Expr) (links : Array (Nat × Expr)) :
    Rule (Pass (Array (Nat × Expr))) := do
  match ← accept? .equal with
  | some token => return .again (links.push (token.line, ← value))
  | none => return .last links

theorem assignment_eq : assignment expression operand = (do
    let target ← logicalOr expression operand
    let links ← repeated (linkPass (logicalOr expression operand)) #[]
    assignChain target links.toList) :=
  rfl

variable {value : Rule Expr} {links final : Array (Nat × Expr)}

theorem accepts_linkPass_last (hcursor : cursor.Bounded) :
    (linkPass value links).Accepts cursor (.last final) after ↔
      cursor.peek.kind ≠ .equal ∧ final = links ∧ after = cursor := by
  unfold linkPass
  rw [accepts_accept?_bind hcursor (by decide)]
  constructor
  · rintro (⟨_, _, -, -, -, hrest⟩ | ⟨hne, hrest⟩)
    · obtain ⟨_, _, -, hpure⟩ := accepts_bind.mp hrest
      cases (accepts_pure.mp hpure).1
    · obtain ⟨hfinal, rfl⟩ := accepts_pure.mp hrest
      exact ⟨hne, Pass.last.inj hfinal, rfl⟩
  · rintro ⟨hne, rfl, rfl⟩
    exact .inr ⟨hne, accepts_pure.mpr ⟨rfl, rfl⟩⟩

theorem accepts_linkPass_again (hcursor : cursor.Bounded) :
    (linkPass value links).Accepts cursor (.again final) after ↔
      ∃ equal next middle, equal.kind = .equal ∧ cursor.Passes middle [equal] [] ∧
        value.Accepts middle next after ∧ final = links.push (equal.line, next) := by
  unfold linkPass
  rw [accepts_accept?_bind hcursor (by decide)]
  constructor
  · rintro (⟨equal, middle, -, hkind, hpasses, hrest⟩ | ⟨-, hrest⟩)
    · obtain ⟨next, _, hnext, hpure⟩ := accepts_bind.mp hrest
      obtain ⟨hfinal, rfl⟩ := accepts_pure.mp hpure
      exact ⟨equal, next, middle, hkind, hpasses, hnext, Pass.again.inj hfinal⟩
    · cases (accepts_pure.mp hrest).1
  · rintro ⟨equal, next, middle, hkind, hpasses, hnext, rfl⟩
    exact .inl ⟨equal, middle, hpasses.bounded hcursor, hkind, hpasses,
      accepts_bind.mpr ⟨next, after, hnext, accepts_pure.mpr ⟨rfl, rfl⟩⟩⟩

/-- A target, an `=` and what is assigned. -/
theorem between_assign {id : NodeId} {name : String} {line : Nat} {equal : Token} {expr : Expr}
    {start middle between : Cursor}
    (htarget : Expr.Between 1 levels (.variable id name line) start cursor)
    (hequal : equal.kind = .equal) (htoken : cursor.Passes between [equal] [])
    (hvalue : expr.Between 0 levels between middle) :
    Expr.Between 0 levels (.assign id name expr line) start middle := by
  obtain ⟨tokens, hpasses, hspelled⟩ := htarget.tokens
  obtain ⟨others, hothers, hspelled'⟩ := hvalue.tokens
  match hspelled with
  | .variable hname =>
    exact ⟨⟨_, hpasses.trans (htoken.trans hothers), .assign hname hequal hspelled'⟩,
      Nat.zero_le _, hvalue.proper, hvalue.depth⟩

/-- What a chain stands for, read after its first target. -/
theorem between_of_links (h : value.ReadsExpr 1 levels) {start : Cursor} {target : Expr}
    (hstart : start.Bounded) (htarget : target.Between 1 levels start cursor)
    (hcursor : cursor.peek.kind.Stops 1)
    (hrest : (repeated (linkPass value) links).Accepts cursor final after) :
    ∃ more, final.toList = links.toList ++ more ∧ after.peek.kind.Stops 0 ∧
      ∀ expr, Assigns target more expr → expr.Between 0 levels start after := by
  induction hlength : cursor.rest.length using Nat.strongRecOn
    generalizing start target cursor links with
  | _ length ih =>
    subst hlength
    obtain ⟨tokens, hpasses, hspelled⟩ := htarget.tokens
    have hbounded := hpasses.bounded hstart
    rcases accepts_repeated.mp hrest with hlast | ⟨next, middle, hagain, hrest⟩
    · obtain ⟨hne, rfl, rfl⟩ := (accepts_linkPass_last hbounded).mp hlast
      refine ⟨[], (List.append_nil _).symm, hcursor.pred ?_, fun expr hassigns => ?_⟩
      · intro hjoins
        refine hne ?_
        revert hjoins
        cases after.peek.kind <;> decide
      · cases hassigns
        exact { htarget with strength := Nat.zero_le _ }
    · obtain ⟨equal, right, between, hequal, htoken, hright, rfl⟩ :=
        (accepts_linkPass_again hbounded).mp hagain
      have hbetween := htoken.bounded hbounded
      obtain ⟨hright', hmiddle⟩ := (h _ _ _ hbetween).mp hright
      obtain ⟨others, hothers, -⟩ := hright'.tokens
      have hread := (htoken.trans hothers).length_lt (by simp)
      rw [if_pos hread] at hrest
      obtain ⟨more, hmore, hstops, hall⟩ :=
        ih _ ((leadsTo_of_run hagain.1).length_lt hread) hbetween hright' hmiddle hrest rfl
      refine ⟨(equal.line, right) :: more, ?_, hstops, fun expr hassigns => ?_⟩
      · rw [hmore, Array.toList_push, List.append_assoc]
        rfl
      · cases hassigns with
        | link hassigns => exact between_assign htarget hequal htoken (hall _ hassigns)

theorem assign_of_strength {expr : Expr} {tokens : List Token} (h : expr.Spelled tokens)
    (hstrength : ¬ 1 ≤ expr.strength) :
    ∃ (name equal : Token) (id : NodeId) (inner : Expr) (rest : List Token),
      expr = .assign id name.lexeme inner name.line ∧ tokens = name :: equal :: rest ∧
      name.kind = .identifier ∧ equal.kind = .equal ∧ inner.Spelled rest := by
  match expr, h with
  | .assign .., .assign hname hequal hinner =>
    exact ⟨_, _, _, _, _, rfl, rfl, hname, hequal, hinner⟩
  | .logical op .., _ => exact absurd op.strength_mem.1 hstrength
  | .binary op .., _ => exact absurd (Nat.le_trans (by decide) op.strength_mem.1) hstrength
  | .unary .., _ | .call .., _ | .literal .., _ | .variable .., _ | .commandRef .., _
  | .grouping .., _ => simp [Expr.strength] at hstrength

/-- Every expression is what some chain stands for, and the chain is read. -/
theorem links_of_between (h : value.ReadsExpr 1 levels) {start : Cursor} {expr : Expr}
    (hstart : start.Bounded) (hexpr : expr.Between 0 levels start after)
    (hafter : after.peek.kind.Stops 0) :
    ∃ target more cursor, value.Accepts start target cursor ∧ Assigns target more expr ∧
      ∀ links, ∃ final, final.toList = links.toList ++ more ∧
        (repeated (linkPass value) links).Accepts cursor final after := by
  obtain ⟨⟨tokens, hpasses, hspelled⟩, -, hproper, hdepth⟩ := hexpr
  induction hlength : tokens.length using Nat.strongRecOn generalizing start expr tokens with
  | _ length ih =>
    subst hlength
    by_cases hstrength : 1 ≤ expr.strength
    · refine ⟨expr, [], after, (h _ _ _ hstart).mpr ⟨⟨⟨tokens, hpasses, hspelled⟩, hstrength,
        hproper, hdepth⟩, hafter.mono (by decide)⟩, .value, fun links => ?_⟩
      refine ⟨links, (List.append_nil _).symm, accepts_repeated.mpr (.inl ?_)⟩
      refine (accepts_linkPass_last (hpasses.bounded hstart)).mpr ⟨fun hequal => ?_, rfl, rfl⟩
      exact absurd (hafter 0 (by rw [hequal]; rfl)) (Nat.lt_irrefl 0)
    · obtain ⟨name, equal, id, inner, rest, rfl, rfl, hname, hequal, hinner⟩ :=
        assign_of_strength hspelled hstrength
      have hparts : start.Passes after ([name] ++ equal :: rest) ([id] ++ inner.ids) := hpasses
      obtain ⟨cursor, htarget, hbehind⟩ := hparts.split
      have hcursor := htarget.bounded hstart
      obtain ⟨between, htoken, hvalue⟩ := hbehind.uncons
      have hinnerProper : inner.Proper := hproper
      have hinnerDepth : inner.depth < levels := hdepth
      obtain ⟨next, more, middle, hnext, hassigns, hgoes⟩ :=
        ih rest.length (by simp only [List.length_cons]; omega) (htoken.bounded hcursor)
          hinnerProper hinnerDepth rest hvalue hinner rfl
      have htarget' : Expr.Between 1 levels (.variable id name.lexeme name.line) start cursor :=
        ⟨⟨_, htarget, .variable hname⟩, Nat.le_add_left 1 8, trivial, Nat.zero_lt_of_lt hdepth⟩
      have hstops : cursor.peek.kind.Stops 1 := by
        rw [hbehind.peek, hequal]
        exact fun found hfound => Option.some.inj hfound ▸ Nat.zero_lt_one
      refine ⟨_, (equal.line, next) :: more, cursor, (h _ _ _ hstart).mpr ⟨htarget', hstops⟩,
        .link hassigns, fun links => ?_⟩
      obtain ⟨final, hfinal, hrest⟩ := hgoes (links.push (equal.line, next))
      refine ⟨final, by rw [hfinal, Array.toList_push, List.append_assoc]; rfl, ?_⟩
      have hagain : (linkPass value links).Accepts cursor (.again (links.push (equal.line, next)))
          middle :=
        (accepts_linkPass_again hcursor).mpr ⟨equal, next, between, hequal, htoken, hnext, rfl⟩
      obtain ⟨others, hothers, -⟩ := ((h _ _ _ (htoken.bounded hcursor)).mp hnext).1.tokens
      exact accepts_again hagain ((htoken.trans hothers).length_lt (by simp)) hrest

/-- Any expression. -/
theorem readsExpr_assignment (h : expression.ReadsExpr 0 levels)
    (hoperand : operand.ReadsExpr 7 levels) :
    (assignment expression operand).ReadsExpr 0 (levels + 1) := by
  have hvalue := readsExpr_logicalOr h hoperand
  intro cursor expr after hcursor
  rw [assignment_eq, accepts_bind]
  constructor
  · rintro ⟨target, middle, htarget, hrest⟩
    obtain ⟨links, behind, hlinks, hchain⟩ := accepts_bind.mp hrest
    obtain ⟨hassigns, rfl⟩ := accepts_assignChain.mp hchain
    obtain ⟨htarget, hmiddle⟩ := (hvalue _ _ _ hcursor).mp htarget
    obtain ⟨more, hmore, hstops, hall⟩ := between_of_links hvalue hcursor htarget hmiddle hlinks
    rw [hmore] at hassigns
    exact ⟨hall _ hassigns, hstops⟩
  · rintro ⟨hexpr, hstops⟩
    obtain ⟨target, more, middle, htarget, hassigns, hgoes⟩ :=
      links_of_between hvalue hcursor hexpr hstops
    obtain ⟨final, hfinal, hlinks⟩ := hgoes #[]
    refine ⟨target, middle, htarget, accepts_bind.mpr ⟨final, after, hlinks, ?_⟩⟩
    rw [hfinal]
    exact accepts_assignChain.mpr ⟨hassigns, rfl⟩

end Levels

/-! ## All levels of nesting -/

theorem not_accepts_tooDeep {α : Type} {cursor after : Cursor} {a : α} :
    ¬ (tooDeep : Rule α).Accepts cursor a after := by
  intro h
  exact not_accepts_fail (accepts_peek_bind.mp h)

theorem readsExpr_tooDeep (strength : Nat) : Rule.ReadsExpr strength 0 tooDeep := by
  intro cursor expr after _
  constructor
  · intro h
    exact absurd h not_accepts_tooDeep
  · rintro ⟨hexpr, -⟩
    exact absurd hexpr.depth (Nat.not_lt_zero _)

theorem readsExpr_nested (mode : InputMode) (levels : Nat) :
    (nested mode levels).expression.ReadsExpr 0 levels ∧
      (nested mode levels).operand.ReadsExpr 7 levels := by
  induction levels with
  | zero => exact ⟨readsExpr_tooDeep 0, readsExpr_tooDeep 7⟩
  | succ levels ih => exact ⟨readsExpr_assignment ih.1 ih.2, readsExpr_unary ih.1 ih.2⟩

/-- **The rule of expressions accepts exactly the grammar.** It reads an expression without a
fault if and only if the tokens up to where it stops spell that expression, the expression is
grouped as its operators ask for, has no call with too many arguments and is not nested too
deep, its ids are drawn in the order of its tokens, and the next token does not go on with an
expression. -/
theorem accepts_expression_iff (mode : InputMode) (levels : Nat) {cursor after : Cursor}
    {expr : Expr} (hcursor : cursor.Bounded) :
    (nested mode levels).expression.Accepts cursor expr after ↔
      ∃ tokens, cursor.Passes after tokens expr.ids ∧ expr.Spelled tokens ∧ expr.Proper ∧
        expr.depth < levels ∧ after.peek.kind.joins? = none := by
  rw [(readsExpr_nested mode levels).1 cursor expr after hcursor, TokenKind.stops_zero]
  constructor
  · rintro ⟨⟨⟨tokens, hpasses, hspelled⟩, -, hproper, hdepth⟩, hstops⟩
    exact ⟨tokens, hpasses, hspelled, hproper, hdepth, hstops⟩
  · rintro ⟨tokens, hpasses, hspelled, hproper, hdepth, hstops⟩
    exact ⟨⟨⟨tokens, hpasses, hspelled⟩, Nat.zero_le _, hproper, hdepth⟩, hstops⟩

/-- `x = -a * (b);` is read as a product that is assigned. -/
theorem accepts_expression_iff_of_product :
    let name (text : String) : Token := ⟨.identifier, text, none, 1⟩
    let mark (kind : TokenKind) (text : String) : Token := ⟨kind, text, none, 1⟩
    let spelled := [name "x", mark .equal "=", mark .minus "-", name "a", mark .star "*",
      mark .leftParen "(", name "b", mark .rightParen ")"]
    let cursor := Cursor.ofTokens (spelled ++ [mark .semicolon ";", Token.endOfInput 1]) 7
    let after := { cursor with rest := [mark .semicolon ";"], read := 8, drawn := 3 }
    cursor.Bounded ∧ (nested .script 2).expression.Accepts cursor
      (.assign 7 "x" (.binary .mul (.unary .negate (.variable 8 "a" 1) 1)
        (.grouping (.variable 9 "b" 1) 1) 1) 1) after := by
  intro name mark spelled cursor after
  have hcursor : cursor.Bounded := rfl
  have hvariable (text : String) (id : NodeId) : (Expr.variable id text 1).Spelled [name text] :=
    @Expr.Spelled.variable (name text) id rfl
  have hnegated : (Expr.unary .negate (.variable 8 "a" 1) 1).Spelled [mark .minus "-", name "a"] :=
    @Expr.Spelled.unary (mark .minus "-") _ _ _ rfl (hvariable "a" 8)
  have hgrouped : (Expr.grouping (.variable 9 "b" 1) 1).Spelled
      [mark .leftParen "(", name "b", mark .rightParen ")"] :=
    @Expr.Spelled.grouping (mark .leftParen "(") (mark .rightParen ")") _ _ rfl
      (hvariable "b" 9) rfl
  have hspelled := @Expr.Spelled.assign (name "x") (mark .equal "=") 7 _ _ rfl rfl
    (@Expr.Spelled.binary (mark .star "*") .mul _ _ _ _ hnegated rfl hgrouped)
  refine ⟨hcursor, (accepts_expression_iff .script 2 hcursor).mpr
    ⟨spelled, ⟨rfl, rfl, rfl⟩, hspelled, ?_, by decide, rfl⟩⟩
  simp [Expr.Proper, Expr.strength, BinaryOp.strength]

end CommandScript.Grammar
