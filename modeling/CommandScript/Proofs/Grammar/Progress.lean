import CommandScript.Proofs.Grammar.Arguments
import CommandScript.Proofs.Grammar.Composition
import CommandScript.Proofs.Grammar.Shadowing

/-!
# Reading comes to an end

A repetition stops by itself as soon as a pass asks for another one without having read a
token. No loop of the grammar needs this: every pass that asks for another one has read a
token, whatever the tokens are and however deep it is nested. So the loops end as they are,
without a guard, and with the same outcome. For programs and blocks this holds also of passes
with a fault, because recovery drops a token if none has been read.

The cursor stands at an index of the list of tokens, and never behind the first end-of-input
token. What comes behind that one does not matter.

* `Rule.LoopEnds`: a loop without a guard comes to an end.
* `Rule.ReadsOn`: a pass asks for another one only after it has read a token.
* `Grammar.Loop`: the loops of the grammar.
* `Loop.readsOn`: all of them read on.
* `Paces`: what a pass over the declarations of a program or block does.
* `AlwaysReads`: what a declaration with its recovery does.
* `Cursor.position`: where the cursor stands.
* `parse_comes_to_end`: all of this for any list of tokens.
-/

namespace CommandScript

namespace Grammar

open Rule

theorem Cursor.LeadsTo.bounded {before after : Cursor} (h : before.LeadsTo after)
    (hbefore : before.Bounded) : after.Bounded := by
  rw [Cursor.Bounded, h.last]
  exact hbefore

namespace Rule

variable {α β : Type}

/-! ## Loops without a guard -/

/-- Run again and again, as long as it asks for another pass, the loop ends with the outcome. -/
inductive LoopEnds (pass : α → Rule (Pass α)) :
    α → Cursor → Except (Located ParseFault) α × Cursor → Prop where
  | fault {state : α} {cursor after : Cursor} {fault : Located ParseFault} :
      (pass state).run cursor = (.error fault, after) →
      LoopEnds pass state cursor (.error fault, after)
  | last {state final : α} {cursor after : Cursor} :
      (pass state).run cursor = (.ok (.last final), after) →
      LoopEnds pass state cursor (.ok final, after)
  | again {state next : α} {cursor middle : Cursor}
      {outcome : Except (Located ParseFault) α × Cursor} :
      (pass state).run cursor = (.ok (.again next), middle) →
      LoopEnds pass next middle outcome → LoopEnds pass state cursor outcome

/-- A loop has one outcome at most. -/
theorem LoopEnds.unique {pass : α → Rule (Pass α)} {state : α} {cursor : Cursor}
    {outcome other : Except (Located ParseFault) α × Cursor}
    (h : LoopEnds pass state cursor outcome) (hother : LoopEnds pass state cursor other) :
    outcome = other := by
  induction h with
  | fault hrun =>
    cases hother with
    | fault hsame =>
      cases hrun.symm.trans hsame
      rfl
    | last hsame | again hsame _ => cases hrun.symm.trans hsame
  | last hrun =>
    cases hother with
    | last hsame =>
      cases hrun.symm.trans hsame
      rfl
    | fault hsame | again hsame _ => cases hrun.symm.trans hsame
  | again hrun _ ih =>
    cases hother with
    | again hsame hrest =>
      cases hrun.symm.trans hsame
      exact ih hrest
    | fault hsame | last hsame => cases hrun.symm.trans hsame

/-- The pass asks for another one only if it has read a token. -/
def ReadsOn (rule : Rule (Pass α)) : Prop :=
  ∀ cursor next after, cursor.Bounded → rule.run cursor = (.ok (.again next), after) →
    cursor.read < after.read

/-- If every pass reads on, the repetition needs no guard. -/
theorem loopEnds_of_readsOn {pass : α → Rule (Pass α)} (h : ∀ state, (pass state).ReadsOn)
    (state : α) {cursor : Cursor} (hcursor : cursor.Bounded) :
    LoopEnds pass state cursor ((repeated pass state).run cursor) := by
  induction hlength : cursor.rest.length using Nat.strongRecOn generalizing state cursor with
  | _ length ih =>
    subst hlength
    rw [run_repeated]
    generalize hrun : (pass state).run cursor = outcome
    have hleads := leadsTo_of_run hrun
    obtain ⟨result, after⟩ := outcome
    match result with
    | .error fault => exact .fault hrun
    | .ok (.last final) => exact .last hrun
    | .ok (.again next) =>
      have hread := h state cursor next after hcursor hrun
      dsimp only
      rw [if_pos hread]
      exact .again hrun (ih _ (hleads.length_lt hread) next (hleads.bounded hcursor) rfl)

/-! ## Passes that read on -/

theorem readsOn_of_consumes {rule : Rule (Pass α)} (h : rule.Consumes) : rule.ReadsOn :=
  fun cursor _ after hcursor hrun => h cursor _ after hcursor hrun

theorem readsOn_last (state : α) : (pure (.last state) : Rule (Pass α)).ReadsOn := by
  intro cursor next after _ hrun
  cases hrun

theorem readsOn_bind {rule : Rule β} {next : β → Rule (Pass α)} (h : ∀ b, (next b).ReadsOn) :
    (rule >>= next).ReadsOn := by
  intro cursor again after hcursor hrun
  obtain ⟨b, middle, hfirst, hsecond⟩ := run_bind_eq_ok hrun
  have hleads := leadsTo_of_run hfirst
  exact Nat.lt_of_le_of_lt (read_le hleads)
    (h b middle again after (hleads.bounded hcursor) hsecond)

theorem readsOn_ite {condition : Prop} [Decidable condition] {rule other : Rule (Pass α)}
    (h : rule.ReadsOn) (hother : other.ReadsOn) :
    (if condition then rule else other).ReadsOn := by
  split
  · exact h
  · exact hother

theorem read_accept? {kind : TokenKind} (hkind : kind ≠ .endOfInput) {cursor after : Cursor}
    {token : Token} (hcursor : cursor.Bounded)
    (hrun : (accept? kind).run cursor = (.ok (some token), after)) : cursor.read < after.read := by
  obtain ⟨peeked, same, hpeek, hrest⟩ := run_bind_eq_ok hrun
  obtain ⟨hpeeked, rfl⟩ := Prod.mk.inj hpeek
  obtain rfl := Except.ok.inj hpeeked
  split at hrest
  · rename_i hsame
    exact read_skip_bind hcursor (hsame ▸ hkind) hrest
  · cases hrest

/-- A pass that begins with a certain token, or goes on without it. -/
theorem readsOn_accept? {kind : TokenKind} (hkind : kind ≠ .endOfInput)
    {next : Option Token → Rule (Pass α)} (hnone : (next none).ReadsOn) :
    (accept? kind >>= next).ReadsOn := by
  intro cursor again after hcursor hrun
  obtain ⟨found, middle, hfirst, hsecond⟩ := run_bind_eq_ok hrun
  cases found with
  | some token =>
    have hread := read_accept? hkind hcursor hfirst
    exact Nat.lt_of_lt_of_le hread (read_le (leadsTo_of_run hsecond))
  | none =>
    have hleads := leadsTo_of_run hfirst
    exact Nat.lt_of_le_of_lt (read_le hleads)
      (hnone middle again after (hleads.bounded hcursor) hsecond)

theorem readsOn_accept {kind : TokenKind} (hkind : kind ≠ .endOfInput)
    {next : Bool → Rule (Pass α)} (hfalse : (next false).ReadsOn) :
    (accept kind >>= next).ReadsOn := by
  have h : (accept? kind >>= fun token => next token.isSome).ReadsOn :=
    readsOn_accept? hkind hfalse
  intro cursor again after hcursor hrun
  obtain ⟨found, middle, hfirst, hsecond⟩ := run_bind_eq_ok hrun
  obtain ⟨token, same, haccept, hpure⟩ := run_bind_eq_ok hfirst
  obtain ⟨hfound, rfl⟩ := Prod.mk.inj hpure
  obtain rfl := Except.ok.inj hfound
  exact h cursor again after hcursor ((run_bind_of_ok haccept).trans hsecond)

end Rule

/-! ## The loops of the grammar -/

section Loops

variable {α : Type}

theorem consumes_primary (expression : Rule Expr) : (primary expression).Consumes := by
  intro cursor expr after hcursor hrun
  obtain ⟨token, same, hpeek, hrest⟩ := run_bind_eq_ok hrun
  obtain ⟨htoken, rfl⟩ := Prod.mk.inj hpeek
  obtain rfl := Except.ok.inj htoken
  split at hrest <;> rename_i hkind
  case h_9 => cases hrest
  case h_10 => cases hrest
  all_goals exact read_skip_bind hcursor (by rw [hkind]; decide) hrest

theorem consumes_argValue (expression : Rule Expr) : (argValue expression).Consumes := by
  intro cursor value after hcursor hrun
  obtain ⟨token, same, hpeek, hrest⟩ := run_bind_eq_ok hrun
  obtain ⟨htoken, rfl⟩ := Prod.mk.inj hpeek
  obtain rfl := Except.ok.inj htoken
  split at hrest <;> rename_i hkind
  case h_1 | h_2 => exact read_skip_bind hcursor (by rw [hkind]; decide) hrest
  case h_9 => cases hrest
  all_goals exact consumes_bind_left (consumes_primary expression) cursor value after hcursor hrest

theorem readsOn_itemPass (maxItems : Nat) (tooMany : ParseFault) (item : Rule α)
    (items : Array α) : (itemPass maxItems tooMany item items).ReadsOn :=
  readsOn_accept (by decide) (readsOn_last items)

theorem readsOn_callPass (expression : Rule Expr) (callee : Expr) :
    (callPass expression callee).ReadsOn :=
  readsOn_accept (by decide) (readsOn_last callee)

theorem readsOn_joinPass {ω : Type} {operator? : TokenKind → Option ω}
    (hend : operator? .endOfInput = none) (node : ω → Expr → Expr → Nat → Expr)
    (operand : Rule Expr) (left : Expr) : (joinPass operator? node operand left).ReadsOn := by
  intro cursor next after hcursor hrun
  obtain ⟨token, same, hpeek, hrest⟩ := run_bind_eq_ok hrun
  obtain ⟨htoken, rfl⟩ := Prod.mk.inj hpeek
  obtain rfl := Except.ok.inj htoken
  split at hrest
  · rename_i op hop
    apply read_skip_bind hcursor _ hrest
    intro hkind
    rw [hkind, hend] at hop
    cases hop
  · cases hrest

theorem readsOn_linkPass (value : Rule Expr) (links : Array (Nat × Expr)) :
    (linkPass value links).ReadsOn :=
  readsOn_accept? (by decide) (readsOn_last links)

theorem readsOn_valuesPass (expression : Rule Expr) (values : Array ArgValue) :
    (valuesPass expression values).ReadsOn := by
  apply readsOn_bind
  intro atEnd
  apply readsOn_bind
  intro minus
  apply readsOn_ite (readsOn_last values)
  apply readsOn_accept (by decide)
  exact readsOn_of_consumes (consumes_bind_left (consumes_argValue expression))

theorem readsOn_argsPass (expression : Rule Expr) (args : Array Arg) :
    (argsPass expression args).ReadsOn := by
  apply readsOn_bind
  intro atEnd
  apply readsOn_ite (readsOn_last args)
  apply readsOn_accept (by decide)
  apply readsOn_accept (by decide)
  exact readsOn_of_consumes (consumes_bind_left (consumes_argValue expression))

end Loops

section Bodies

variable {cursor : Cursor}

/-- What a pass over the declarations of a body does: it is the last one at the end of the
body, and otherwise it reads a token and asks for another one. It has no fault. -/
def Paces (pass : Array Stmt → Rule (Pass (Array Stmt))) (ends : Prop) (cursor : Cursor) : Prop :=
  ∀ body, (ends ∧ (pass body).run cursor = (.ok (.last body), cursor)) ∨
    (¬ ends ∧ ∃ next after, (pass body).run cursor = (.ok (.again next), after) ∧
      cursor.read < after.read)

theorem paces_bodyPass {test : Rule Bool} {item : Rule (Option Stmt)} {ends : Prop}
    [Decidable ends] (htest : test.run cursor = (.ok (decide ends), cursor))
    (hitem : ¬ ends → ∃ found after, item.run cursor = (.ok found, after) ∧
      cursor.read < after.read) :
    Paces (bodyPass test item) ends cursor := by
  intro body
  rw [bodyPass, run_bind_of_ok htest]
  by_cases hstop : ends
  · rw [decide_eq_true hstop]
    exact .inl ⟨hstop, rfl⟩
  · obtain ⟨found, after, hrun, hread⟩ := hitem hstop
    rw [decide_eq_false hstop]
    refine .inr ⟨hstop, found.elim body body.push, after, ?_, hread⟩
    change (item >>= _).run cursor = _
    rw [run_bind_of_ok hrun]
    cases found <;> rfl

theorem Paces.readsOn {pass : Array Stmt → Rule (Pass (Array Stmt))} {ends : Cursor → Prop}
    (h : ∀ cursor, cursor.Bounded → Paces pass (ends cursor) cursor) (body : Array Stmt) :
    (pass body).ReadsOn := by
  intro cursor next after hcursor hrun
  obtain ⟨-, hlast⟩ | ⟨-, other, middle, hagain, hread⟩ := h cursor hcursor body
  · cases hrun.symm.trans hlast
  · cases hrun.symm.trans hagain
    exact hread

/-- A repetition of such passes comes to the end of the body. -/
theorem Paces.exists_run {pass : Array Stmt → Rule (Pass (Array Stmt))} {ends : Cursor → Prop}
    (h : ∀ cursor, cursor.Bounded → Paces pass (ends cursor) cursor) (body : Array Stmt)
    (hcursor : cursor.Bounded) :
    ∃ final after, (repeated pass body).run cursor = (.ok final, after) ∧ ends after := by
  induction hlength : cursor.rest.length using Nat.strongRecOn generalizing body cursor with
  | _ length ih =>
    subst hlength
    rw [run_repeated]
    obtain ⟨hends, hlast⟩ | ⟨-, next, middle, hagain, hread⟩ := h cursor hcursor body
    · rw [hlast]
      exact ⟨body, cursor, rfl, hends⟩
    · have hleads := leadsTo_of_run hagain
      rw [hagain]
      dsimp only
      rw [if_pos hread]
      exact ih _ (hleads.length_lt hread) next (hleads.bounded hcursor) rfl

theorem run_atEnd (cursor : Cursor) :
    atEnd.run cursor = (.ok (decide (cursor.rest = [])), cursor) := by
  have hends : cursor.rest.isEmpty = decide (cursor.rest = []) := by
    rw [Bool.eq_iff_iff]
    simp
  rw [← hends]
  rfl

theorem run_atBlockEnd (cursor : Cursor) :
    atBlockEnd.run cursor = (.ok (decide (EndsBlock cursor)), cursor) := by
  have hends : (decide (cursor.peek.kind = .rightBrace) || cursor.rest.isEmpty) =
      decide (EndsBlock cursor) := by
    rw [Bool.eq_iff_iff]
    simp [EndsBlock]
  rw [← hends]
  rfl

theorem rest_ne_nil_of_not_endsBlock (h : ¬ EndsBlock cursor) : cursor.rest ≠ [] :=
  fun hrest => h (.inr (List.isEmpty_iff.mpr hrest))

/-- The rule never fails, and it reads a token if one is left. -/
def AlwaysReads (item : Rule (Option Stmt)) : Prop :=
  ∀ cursor, cursor.Bounded → cursor.rest ≠ [] →
    ∃ found after, item.run cursor = (.ok found, after) ∧ cursor.read < after.read

theorem AlwaysReads.program {item : Rule (Option Stmt)} (h : AlwaysReads item)
    (hcursor : cursor.Bounded) : Paces (bodyPass atEnd item) (cursor.rest = []) cursor :=
  paces_bodyPass (run_atEnd cursor) (h cursor hcursor)

theorem AlwaysReads.block {item : Rule (Option Stmt)} (h : AlwaysReads item)
    (hcursor : cursor.Bounded) : Paces (bodyPass atBlockEnd item) (EndsBlock cursor) cursor :=
  paces_bodyPass (run_atBlockEnd cursor) fun hgoes =>
    h cursor hcursor (rest_ne_nil_of_not_endsBlock hgoes)

theorem consumes_nested (mode : InputMode) (levels : Nat) :
    (nested mode levels).statement.Consumes := by
  cases levels with
  | zero => exact consumes_bind_right fun _ => consumes_fail _
  | succ levels => exact consumes_statement _ _

theorem alwaysReads_declaration (mode : InputMode) (levels : Nat) :
    AlwaysReads (declaration (nested mode levels)) :=
  fun _ => exists_declaration (consumes_nested mode levels)

end Bodies

/-- The loops of the grammar: over the items of a list, the argument lists behind a callee,
the operators of one level, the values of a chain of assignments, the values of a parameter,
the arguments of a command, and the declarations of a block or a program. The rules of the
grammar repeat nothing else (`separated_eq`, `assignment_eq`, `parameterValues_eq`, `args_eq`,
`blockBody_eq`). -/
inductive Loop (mode : InputMode) : {α : Type} → (α → Rule (Pass α)) → Prop where
  | items {α : Type} (maxItems : Nat) (tooMany : ParseFault) (item : Rule α) :
      Loop mode (itemPass maxItems tooMany item)
  | calls (expression : Rule Expr) : Loop mode (callPass expression)
  | joins {ω : Type} {operator? : TokenKind → Option ω} (hend : operator? .endOfInput = none)
      (node : ω → Expr → Expr → Nat → Expr) (operand : Rule Expr) :
      Loop mode (joinPass operator? node operand)
  | links (value : Rule Expr) : Loop mode (linkPass value)
  | values (expression : Rule Expr) : Loop mode (valuesPass expression)
  | arguments (expression : Rule Expr) : Loop mode (argsPass expression)
  | block (levels : Nat) : Loop mode (bodyPass atBlockEnd (declaration (nested mode levels)))
  | program (levels : Nat) : Loop mode (bodyPass atEnd (declaration (nested mode levels)))

theorem Loop.readsOn {mode : InputMode} {α : Type} {pass : α → Rule (Pass α)}
    (h : Loop mode pass) (state : α) : (pass state).ReadsOn := by
  cases h with
  | items maxItems tooMany item => exact readsOn_itemPass maxItems tooMany item state
  | calls expression => exact readsOn_callPass expression state
  | joins hend node operand => exact readsOn_joinPass hend node operand state
  | links value => exact readsOn_linkPass value state
  | values expression => exact readsOn_valuesPass expression state
  | arguments expression => exact readsOn_argsPass expression state
  | block levels => exact Paces.readsOn (fun _ => (alwaysReads_declaration mode levels).block) state
  | program levels =>
    exact Paces.readsOn (fun _ => (alwaysReads_declaration mode levels).program) state

/-! ## Where the cursor stands -/

/-- The index of the first end-of-input token, or the length of the list if there is none. -/
def stopIndex (tokens : List Token) : Nat := tokens.findIdx (·.kind = .endOfInput)

theorem rest_ofTokens (tokens : List Token) (nextId : NodeId) :
    (Cursor.ofTokens tokens nextId).rest = tokens.take (stopIndex tokens) := by
  rw [Cursor.ofTokens, List.takeWhile_eq_take_findIdx_not]
  simp [stopIndex]

theorem last_ofTokens (tokens : List Token) (nextId : NodeId) :
    (Cursor.ofTokens tokens nextId).last =
      tokens[stopIndex tokens]?.getD (Token.endOfInput 0) := by
  rw [Cursor.ofTokens, List.find?_eq_getElem?_findIdx, stopIndex]

/-- The cursor stands at an index of the list, and never behind the first end-of-input token. -/
theorem Cursor.position {tokens : List Token} {nextId : NodeId} {cursor : Cursor}
    (h : (Cursor.ofTokens tokens nextId).LeadsTo cursor) :
    cursor.read ≤ stopIndex tokens ∧ (cursor.rest = [] ↔ cursor.read = stopIndex tokens) ∧
      cursor.peek = tokens[cursor.read]?.getD (Token.endOfInput 0) := by
  obtain ⟨taken, htaken, hread⟩ := h.taken
  have hstop : stopIndex tokens ≤ tokens.length := List.findIdx_le_length
  rw [rest_ofTokens] at htaken
  have hlength : stopIndex tokens = taken.length + cursor.rest.length := by
    rw [← List.length_append, ← htaken, List.length_take, Nat.min_eq_left hstop]
  have hindex : cursor.read = taken.length := hread.trans (Nat.zero_add _)
  refine ⟨by omega, ?_, ?_⟩
  · rw [← List.length_eq_zero_iff]
    omega
  cases hrest : cursor.rest with
  | nil =>
    rw [hrest, List.length_nil] at hlength
    rw [Cursor.peek, hrest, List.headD_nil, h.last, last_ofTokens, hindex, hlength]
    rfl
  | cons token rest =>
    have hall : tokens = taken ++ token :: (rest ++ tokens.drop (stopIndex tokens)) := by
      rw [← List.cons_append, ← List.append_assoc, ← hrest, ← htaken, List.take_append_drop]
    rw [Cursor.peek, hrest, List.headD_cons, hall, hindex,
      List.getElem?_append_right (Nat.le_refl _), Nat.sub_self]
    rfl

/-- What comes behind an end-of-input token is not seen. -/
theorem ofTokens_behind (before behind : List Token) {stop : Token}
    (hstop : stop.kind = .endOfInput) (nextId : NodeId) :
    Cursor.ofTokens (before ++ stop :: behind) nextId =
      Cursor.ofTokens (before ++ [stop]) nextId := by
  simp [Cursor.ofTokens, List.takeWhile_append, List.find?_append, hstop]

end Grammar

open Grammar Rule

/-- **Reading comes to an end.** Let any tokens be read, with any number of end-of-input tokens
at any places. Every loop of the grammar ends wherever it may be entered, without a guard
against passes that read nothing, and a program is read to the end of the input. A pass over
the declarations of a program or of a block is the last one, or it reads a token; it never
fails. The cursor stands at an index of the list, which is never behind the first end-of-input
token, and sees the token there; the tokens behind that one make no difference. -/
theorem parse_comes_to_end (mode : InputMode) (tokens : List Token) (nextId : NodeId) :
    let start := Cursor.ofTokens tokens nextId
    (∀ (α : Type) (pass : α → Rule (Pass α)), Loop mode pass → ∀ state cursor,
      start.LeadsTo cursor → ∀ outcome,
        LoopEnds pass state cursor outcome ↔ outcome = (repeated pass state).run cursor) ∧
    (∃ final after,
      LoopEnds (bodyPass atEnd (declaration (nested mode maxNesting))) #[] start
        (.ok final, after) ∧
      after.rest = [] ∧
      parse mode tokens nextId = ⟨if after.faults.isEmpty then .ok final.toList
        else .error after.faults.toList, after.nextId, after.drawn⟩) ∧
    (∀ levels cursor, start.LeadsTo cursor →
      Paces (bodyPass atEnd (declaration (nested mode levels))) (cursor.rest = []) cursor ∧
      Paces (bodyPass atBlockEnd (declaration (nested mode levels))) (EndsBlock cursor) cursor) ∧
    (∀ cursor, start.LeadsTo cursor →
      cursor.read ≤ stopIndex tokens ∧ (cursor.rest = [] ↔ cursor.read = stopIndex tokens) ∧
      cursor.peek = tokens[cursor.read]?.getD (Token.endOfInput 0)) ∧
    ∀ before stop behind, tokens = before ++ stop :: behind → stop.kind = .endOfInput →
      parse mode tokens nextId = parse mode (before ++ [stop]) nextId := by
  intro start
  have hstart : start.Bounded := Cursor.bounded_ofTokens tokens nextId
  refine ⟨?_, ?_, ?_, fun cursor => Cursor.position, ?_⟩
  · intro α pass hloop state cursor hleads outcome
    have hends := loopEnds_of_readsOn hloop.readsOn state (hleads.bounded hstart)
    constructor
    · intro hother
      exact hother.unique hends
    · rintro rfl
      exact hends
  · obtain ⟨final, after, hrun, hempty⟩ :=
      Paces.exists_run (fun _ => (alwaysReads_declaration mode maxNesting).program) #[] hstart
    refine ⟨final, after, ?_, hempty, parse_eq_of_run hrun⟩
    rw [← hrun]
    exact loopEnds_of_readsOn (Loop.program maxNesting).readsOn #[] hstart
  · intro levels cursor hleads
    have hcursor := hleads.bounded hstart
    exact ⟨(alwaysReads_declaration mode levels).program hcursor,
      (alwaysReads_declaration mode levels).block hcursor⟩
  · rintro before stop behind rfl hstop
    unfold parse
    rw [ofTokens_behind before behind hstop]

/-- A block that is left open before the first of two ends of the input. -/
theorem parse_comes_to_end_of_two_ends :
    let first : List Token :=
      [⟨.leftBrace, "\x7b", none, 1⟩, ⟨.rightParen, ")", none, 1⟩, .endOfInput 1]
    let behind : List Token := [⟨.rightBrace, "\x7d", none, 1⟩, .endOfInput 1]
    parse .script (first ++ behind) 0 = parse .script first 0 ∧
      ∀ cursor, (Cursor.ofTokens (first ++ behind) 0).LeadsTo cursor → cursor.read ≤ 2 := by
  intro first behind
  obtain ⟨-, -, -, hposition, hbehind⟩ := parse_comes_to_end .script (first ++ behind) 0
  refine ⟨hbehind (first.take 2) (.endOfInput 1) behind rfl rfl, fun cursor hleads => ?_⟩
  exact (hposition cursor hleads).1

end CommandScript
