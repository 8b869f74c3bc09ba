import CommandScript.Proofs.Grammar.Acceptance
import CommandScript.Proofs.Syntax.Spelling

/-!
# Operators between operands

A rule of expressions reads expressions of some strength. It stops where no token goes on
with such an expression. A level of operators reads its operands by the rule of the next
level; so the operators that it meets after an operand are its own or weaker ones, and it
builds a tree that leans to the left.

* `Expr.Between`: an expression stands between two cursors.
* `Rule.ReadsExpr`: a rule reads exactly the expressions of a strength.
* `readsExpr_leaning`: a loop that goes on with what it has read so far.
* `readsExpr_leftAssociative`: one level of operators.
-/

namespace CommandScript

/-- The strength of an expression with which a token goes on. -/
def TokenKind.joins? : TokenKind → Option Nat
  | .equal => some 0
  | .orWord => some 1
  | .andWord => some 2
  | .equalEqual | .bangEqual => some 3
  | .less | .lessEqual | .greater | .greaterEqual => some 4
  | .plus | .minus => some 5
  | .star | .slash => some 6
  | .leftParen => some 8
  | _ => none

/-- The token goes on with weaker expressions only, if with any. -/
def TokenKind.Stops (strength : Nat) (kind : TokenKind) : Prop :=
  ∀ found, kind.joins? = some found → found < strength

theorem TokenKind.joins?_le {kind : TokenKind} {found : Nat} (h : kind.joins? = some found) :
    found ≤ 8 ∧ found ≠ 7 := by
  unfold joins? at h
  split at h <;> cases h <;> decide

theorem TokenKind.stops_nine (kind : TokenKind) : kind.Stops 9 :=
  fun _ h => Nat.lt_succ_of_le (joins?_le h).1

theorem TokenKind.stops_zero {kind : TokenKind} : kind.Stops 0 ↔ kind.joins? = none := by
  constructor
  · intro h
    exact Option.eq_none_iff_forall_ne_some.mpr fun found hfound =>
      Nat.not_lt_zero _ (h found hfound)
  · intro h found hfound
    rw [h] at hfound
    cases hfound

theorem TokenKind.Stops.mono {strength stronger : Nat} {kind : TokenKind} (h : kind.Stops strength)
    (hle : strength ≤ stronger) : kind.Stops stronger :=
  fun found hfound => Nat.lt_of_lt_of_le (h found hfound) hle

theorem TokenKind.Stops.pred {strength : Nat} {kind : TokenKind} (h : kind.Stops (strength + 1))
    (hne : kind.joins? ≠ some strength) : kind.Stops strength := by
  intro found hfound
  refine Nat.lt_of_le_of_ne (Nat.le_of_lt_succ (h found hfound)) ?_
  rintro rfl
  exact hne hfound

open Grammar Rule

/-- A proper expression of at least some strength, nested less than some levels deep, stands
between the cursors. -/
structure Expr.Between (strength levels : Nat) (expr : Expr) (before after : Cursor) : Prop where
  tokens : ∃ tokens, before.Passes after tokens expr.ids ∧ expr.Spelled tokens
  strength : strength ≤ expr.strength
  proper : expr.Proper
  depth : expr.depth < levels

namespace Grammar

/-- The rule reads exactly the expressions of at least some strength, nested less than some
levels deep, up to a token that does not go on with one. -/
def Rule.ReadsExpr (strength levels : Nat) (rule : Rule Expr) : Prop :=
  ∀ cursor expr after, cursor.Bounded →
    (rule.Accepts cursor expr after ↔
      expr.Between strength levels cursor after ∧ after.peek.kind.Stops strength)

/-! ## Expressions that lean to the left -/

/-- A pass goes on with expressions of one strength: what was read so far becomes the left
part of the next expression. -/
structure GoesOn (strength levels : Nat) (pass : Expr → Rule (Pass Expr)) : Prop where
  last : ∀ left next cursor middle, cursor.Bounded →
    ((pass left).Accepts cursor (.last next) middle ↔
      cursor.peek.kind.joins? ≠ some strength ∧ next = left ∧ middle = cursor)
  again : ∀ left next start cursor middle, start.Bounded →
    left.Between strength levels start cursor → (pass left).Accepts cursor (.again next) middle →
    cursor.read < middle.read ∧ next.Between strength levels start middle ∧
      middle.peek.kind.Stops (strength + 1)
  parts : ∀ next start middle, start.Bounded → next.Between strength levels start middle →
    next.strength = strength → middle.peek.kind.Stops (strength + 1) →
    ∃ left cursor, left.Between strength levels start cursor ∧
      cursor.peek.kind.Stops (strength + 1) ∧ cursor.read < middle.read ∧
      (pass left).Accepts cursor (.again next) middle

section Leaning

variable {strength levels : Nat} {operand : Rule Expr} {pass : Expr → Rule (Pass Expr)}

/-- The loop goes on after an expression as it does after the first operand of it. -/
theorem GoesOn.exists_first (h : GoesOn strength levels pass)
    (hoperand : operand.ReadsExpr (strength + 1) levels) {start middle : Cursor}
    (hstart : start.Bounded) {expr : Expr} (hexpr : expr.Between strength levels start middle)
    (hstops : middle.peek.kind.Stops (strength + 1)) :
    ∃ first between, operand.Accepts start first between ∧ ∀ final after,
      (repeated pass expr).Accepts middle final after →
      (repeated pass first).Accepts between final after := by
  induction hread : middle.read using Nat.strongRecOn generalizing expr middle with
  | _ read ih =>
    subst hread
    rcases Nat.lt_or_eq_of_le hexpr.strength with hlt | heq
    · exact ⟨expr, middle, (hoperand start expr middle hstart).mpr
        ⟨{ hexpr with strength := hlt }, hstops⟩, fun _ _ hrest => hrest⟩
    · obtain ⟨left, cursor, hleft, hcursor, hread, hpass⟩ :=
        h.parts expr start middle hstart hexpr heq.symm hstops
      obtain ⟨first, between, hfirst, hgoes⟩ := ih cursor.read hread hleft hcursor rfl
      exact ⟨first, between, hfirst, fun final after hrest =>
        hgoes final after (accepts_again hpass hread hrest)⟩

/-- An operand and a loop that goes on with it. -/
theorem readsExpr_leaning (h : GoesOn strength levels pass)
    (hoperand : operand.ReadsExpr (strength + 1) levels) :
    Rule.ReadsExpr strength levels (do
      let first ← operand
      repeated pass first) := by
  intro cursor expr after hcursor
  rw [accepts_bind]
  constructor
  · rintro ⟨first, middle, hfirst, hrest⟩
    obtain ⟨hfirst, hmiddle⟩ := (hoperand cursor first middle hcursor).mp hfirst
    -- before each pass, what was read so far is an expression of the level
    obtain ⟨last, before, ⟨hlast, hstops⟩, hpass⟩ := Accepts.last_pass
      (fun state place => state.Between strength levels cursor place ∧
        place.peek.kind.Stops (strength + 1))
      (fun state place next middle hstate =>
        h.again state next cursor place middle hcursor hstate.1)
      ⟨{ hfirst with strength := Nat.le_of_succ_le hfirst.strength }, hmiddle⟩ hrest
    obtain ⟨tokens, hpasses, -⟩ := hlast.tokens
    obtain ⟨hends, rfl, rfl⟩ := (h.last _ _ _ _ (hpasses.bounded hcursor)).mp hpass
    exact ⟨hlast, hstops.pred hends⟩
  · rintro ⟨hexpr, hstops⟩
    obtain ⟨tokens, hpasses, -⟩ := hexpr.tokens
    obtain ⟨first, middle, hfirst, hgoes⟩ :=
      h.exists_first hoperand hcursor hexpr (hstops.mono (Nat.le_succ strength))
    refine ⟨first, middle, hfirst, hgoes expr after (accepts_repeated.mpr (.inl ?_))⟩
    refine (h.last _ _ _ _ (hpasses.bounded hcursor)).mpr ⟨fun hjoins => ?_, rfl, rfl⟩
    exact Nat.lt_irrefl _ (hstops _ hjoins)

end Leaning

/-! ## Operators of one strength -/

/-- What joins the operands of one level: `operator?` knows the operators, `node` makes the
expression. -/
structure Infix {ω : Type} (operator? : TokenKind → Option ω)
    (node : ω → Expr → Expr → Nat → Expr) (level : Nat) : Prop where
  joins : ∀ kind, kind.joins? = some level ↔ (operator? kind).isSome
  ids : ∀ op left right line, (node op left right line).ids = left.ids ++ right.ids
  depth : ∀ op left right line, (node op left right line).depth = max left.depth right.depth
  strength : ∀ kind op left right line, operator? kind = some op →
    (node op left right line).strength = level
  proper : ∀ kind op left right line, operator? kind = some op →
    ((node op left right line).Proper ↔
      level ≤ left.strength ∧ level < right.strength ∧ left.Proper ∧ right.Proper)
  spelled : ∀ (token : Token) op left right before after, operator? token.kind = some op →
    left.Spelled before → right.Spelled after →
    (node op left right token.line).Spelled (before ++ token :: after)
  parts : ∀ expr tokens, expr.Spelled tokens → expr.strength = level →
    ∃ (token : Token) (op : ω) (left right : Expr) (before after : List Token),
      expr = node op left right token.line ∧ tokens = before ++ token :: after ∧
      operator? token.kind = some op ∧ left.Spelled before ∧ right.Spelled after

section LeftAssociative

variable {ω : Type} {operator? : TokenKind → Option ω} {node : ω → Expr → Expr → Nat → Expr}
  {strength levels : Nat} {operand : Rule Expr}

/-- One more operator and operand, after a left operand. -/
def joinPass (operator? : TokenKind → Option ω) (node : ω → Expr → Expr → Nat → Expr)
    (operand : Rule Expr) (left : Expr) : Rule (Pass Expr) := do
  let token ← peek
  match operator? token.kind with
  | some op =>
    skip
    return .again (node op left (← operand) token.line)
  | none => return .last left

variable {left next : Expr} {cursor middle : Cursor}

theorem accepts_joinPass_last :
    (joinPass operator? node operand left).Accepts cursor (.last next) middle ↔
      operator? cursor.peek.kind = none ∧ next = left ∧ middle = cursor := by
  unfold joinPass
  rw [accepts_bind]
  constructor
  · rintro ⟨token, same, hpeek, hrest⟩
    obtain ⟨rfl, rfl⟩ := accepts_peek.mp hpeek
    split at hrest
    · obtain ⟨_, _, -, hrest⟩ := accepts_bind.mp hrest
      obtain ⟨_, _, -, hpure⟩ := accepts_bind.mp hrest
      cases (accepts_pure.mp hpure).1
    · rename_i hnone
      obtain ⟨hlast, rfl⟩ := accepts_pure.mp hrest
      exact ⟨hnone, Pass.last.inj hlast, rfl⟩
  · rintro ⟨hnone, rfl, rfl⟩
    refine ⟨_, _, accepts_peek.mpr ⟨rfl, rfl⟩, ?_⟩
    rw [hnone]
    exact accepts_pure.mpr ⟨rfl, rfl⟩

theorem accepts_joinPass_again (h : Infix operator? node strength) (hcursor : cursor.Bounded) :
    (joinPass operator? node operand left).Accepts cursor (.again next) middle ↔
      ∃ (token : Token) (op : ω) (right : Expr) (between : Cursor),
        operator? token.kind = some op ∧ cursor.Passes between [token] [] ∧
        operand.Accepts between right middle ∧ next = node op left right token.line := by
  have hne (op : ω) (hop : operator? cursor.peek.kind = some op) :
      cursor.peek.kind ≠ .endOfInput := by
    intro hend
    have hjoins := (h.joins cursor.peek.kind).mpr (by rw [hop]; rfl)
    rw [hend] at hjoins
    cases hjoins
  unfold joinPass
  rw [accepts_bind]
  constructor
  · rintro ⟨token, same, hpeek, hrest⟩
    obtain ⟨rfl, rfl⟩ := accepts_peek.mp hpeek
    split at hrest
    · rename_i op hop
      obtain ⟨_, between, hskip, hrest⟩ := accepts_bind.mp hrest
      obtain ⟨right, _, hright, hpure⟩ := accepts_bind.mp hrest
      obtain ⟨hnext, rfl⟩ := accepts_pure.mp hpure
      exact ⟨_, op, right, _, hop, (accepts_skip_peek hcursor (hne op hop)).mp hskip, hright,
        Pass.again.inj hnext⟩
    · cases (accepts_pure.mp hrest).1
  · rintro ⟨token, op, right, between, hop, hpasses, hright, rfl⟩
    obtain rfl := hpasses.peek
    refine ⟨_, cursor, accepts_peek.mpr ⟨rfl, rfl⟩, ?_⟩
    rw [hop]
    exact accepts_bind.mpr ⟨(), _, (accepts_skip_peek hcursor (hne op hop)).mpr hpasses,
      accepts_bind.mpr ⟨right, middle, hright, accepts_pure.mpr ⟨rfl, rfl⟩⟩⟩

theorem goesOn_joinPass (h : Infix operator? node strength)
    (hoperand : operand.ReadsExpr (strength + 1) levels) :
    GoesOn strength levels (joinPass operator? node operand) where
  last left next cursor middle _ := by
    rw [accepts_joinPass_last, ne_eq, h.joins, Option.not_isSome_iff_eq_none]
  again left next start cursor middle hstart hleft hagain := by
    obtain ⟨tokens, hpasses, hspelled⟩ := hleft.tokens
    have hcursor := hpasses.bounded hstart
    obtain ⟨token, op, right, between, hop, htoken, hright, rfl⟩ :=
      (accepts_joinPass_again h hcursor).mp hagain
    obtain ⟨hright, hmiddle⟩ := (hoperand _ right middle (htoken.bounded hcursor)).mp hright
    obtain ⟨others, hothers, hspelled'⟩ := hright.tokens
    have hboth := htoken.trans hothers
    refine ⟨hboth.length_lt (by simp), ⟨⟨tokens ++ token :: others, ?_, ?_⟩, ?_, ?_, ?_⟩, hmiddle⟩
    · rw [h.ids]
      exact hpasses.trans hboth
    · exact h.spelled token op left right tokens others hop hspelled hspelled'
    · exact Nat.le_of_eq (h.strength _ op _ _ _ hop).symm
    · exact (h.proper _ op _ _ _ hop).mpr
        ⟨hleft.strength, hright.strength, hleft.proper, hright.proper⟩
    · rw [h.depth]
      exact Nat.max_lt.mpr ⟨hleft.depth, hright.depth⟩
  parts next start middle hstart hnext hstrength hstops := by
    obtain ⟨⟨tokens, hpasses, hspelled⟩, -, hproper, hdepth⟩ := hnext
    obtain ⟨token, op, left, right, before, behind, rfl, rfl, hop, hleft, hright⟩ :=
      h.parts next tokens hspelled hstrength
    obtain ⟨hleftStrength, hrightStrength, hleftProper, hrightProper⟩ :=
      (h.proper _ op left right token.line hop).mp hproper
    rw [h.depth, Nat.max_lt] at hdepth
    rw [h.ids] at hpasses
    obtain ⟨cursor, hbefore, hbehind⟩ := hpasses.split
    have hcursor := hbefore.bounded hstart
    refine ⟨left, cursor, ⟨⟨before, hbefore, hleft⟩, hleftStrength, hleftProper, hdepth.1⟩, ?_,
      hbehind.length_lt (List.cons_ne_nil _ _), ?_⟩
    · intro found hfound
      have hjoins : token.kind.joins? = some strength := (h.joins _).mpr (by rw [hop]; rfl)
      rw [hbehind.peek, hjoins] at hfound
      exact Option.some.inj hfound ▸ Nat.lt_succ_self strength
    · obtain ⟨between, htoken, hbehind⟩ := hbehind.uncons
      exact (accepts_joinPass_again h hcursor).mpr ⟨token, op, right, _, hop, htoken,
        (hoperand _ right middle (htoken.bounded hcursor)).mpr ⟨⟨⟨behind, hbehind, hright⟩,
          hrightStrength, hrightProper, hdepth.2⟩, hstops⟩, rfl⟩

/-- One level of operators, given the rule of its operands. -/
theorem readsExpr_leftAssociative (h : Infix operator? node strength)
    (hoperand : operand.ReadsExpr (strength + 1) levels) :
    (leftAssociative operator? node operand).ReadsExpr strength levels :=
  readsExpr_leaning (goesOn_joinPass h hoperand) hoperand

end LeftAssociative

end Grammar

end CommandScript
