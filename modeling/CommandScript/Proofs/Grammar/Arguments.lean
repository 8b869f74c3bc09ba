import CommandScript.Proofs.Grammar.Statements
import CommandScript.Proofs.Syntax.Arguments

/-!
# Reading the arguments of a command

Both loops that read what a command is given go on until something stops them, pass over
commas, and else take one more item. A run of such a loop without faults is a course of
passes, whatever the items are. A parameter takes all values up to a `-` or the end of the
command, so what follows it is no positional value.

* `Course`, `accepts_strewn`: the passes of such a loop.
* `accepts_argValue`, `accepts_parameterValues`: values.
* `accepts_args`: the arguments of a command.
* `accepts_deliver`: a command other than `help` and `exit`.
-/

namespace CommandScript.Grammar

open Rule

/-! ## Loops that pass over commas -/

section Courses

variable {α : Type} {stops : Cursor → Prop} {item : Rule α} {cursor after : Cursor}

/-- The passes of a loop from one cursor to another, and the items that they take. -/
inductive Course (stops : Cursor → Prop) (item : Rule α) : Cursor → List α → Cursor → Prop where
  | last {cursor : Cursor} : stops cursor → Course stops item cursor [] cursor
  | comma {cursor middle after : Cursor} {items : List α} {comma : Token} :
      ¬stops cursor → comma.kind = .comma → cursor.Passes middle [comma] [] →
      Course stops item middle items after → Course stops item cursor items after
  | item {cursor middle after : Cursor} {a : α} {items : List α} :
      ¬stops cursor → cursor.peek.kind ≠ .comma → item.Accepts cursor a middle →
      Course stops item middle items after → Course stops item cursor (a :: items) after

/-- A pass stops, or passes over a comma, or takes an item, which has at least one token. -/
structure Strews (stops : Cursor → Prop) (item : Rule α)
    (pass : Array α → Rule (Pass (Array α))) : Prop where
  last : ∀ {items final cursor after}, cursor.Bounded →
    ((pass items).Accepts cursor (.last final) after ↔
      stops cursor ∧ final = items ∧ after = cursor)
  again : ∀ {items final cursor after}, cursor.Bounded →
    ((pass items).Accepts cursor (.again final) after ↔ ¬stops cursor ∧
      ((∃ comma : Token, comma.kind = .comma ∧ cursor.Passes after [comma] [] ∧ final = items) ∨
        cursor.peek.kind ≠ .comma ∧ ∃ a, item.Accepts cursor a after ∧ final = items.push a))
  reads : ∀ {cursor a after}, cursor.Bounded → item.Accepts cursor a after →
    cursor.read < after.read

/-- What a loop accepts is a course of its passes. -/
theorem accepts_strewn {pass : Array α → Rule (Pass (Array α))} (h : Strews stops item pass)
    (hcursor : cursor.Bounded) {items final : Array α} :
    (repeated pass items).Accepts cursor final after ↔
      ∃ more, final.toList = items.toList ++ more ∧ Course stops item cursor more after := by
  constructor
  · intro hrun
    induction hlength : cursor.rest.length using Nat.strongRecOn generalizing cursor items with
    | _ length ih =>
      subst hlength
      obtain hlast | ⟨next, middle, hagain, hrest⟩ := accepts_repeated.mp hrun
      · obtain ⟨hstops, rfl, rfl⟩ := (h.last hcursor).mp hlast
        exact ⟨[], (List.append_nil _).symm, .last hstops⟩
      · obtain ⟨hgoes, ⟨comma, hcomma, hpasses, rfl⟩ | ⟨hne, a, ha, rfl⟩⟩ :=
          (h.again hcursor).mp hagain
        · have hread := hpasses.length_lt (List.cons_ne_nil _ _)
          rw [if_pos hread] at hrest
          obtain ⟨more, hmore, hcourse⟩ := ih _ ((leadsTo_of_run hagain.1).length_lt hread)
            (hpasses.bounded hcursor) hrest rfl
          exact ⟨more, hmore, .comma hgoes hcomma hpasses hcourse⟩
        · have hread := h.reads hcursor ha
          rw [if_pos hread] at hrest
          obtain ⟨more, hmore, hcourse⟩ := ih _ ((leadsTo_of_run hagain.1).length_lt hread)
            (ha.bounded hcursor) hrest rfl
          refine ⟨a :: more, ?_, .item hgoes hne ha hcourse⟩
          rw [hmore, Array.toList_push, List.append_assoc]
          rfl
  · rintro ⟨more, hmore, hcourse⟩
    induction hcourse generalizing items with
    | last hstops =>
      rw [List.append_nil] at hmore
      exact accepts_repeated.mpr
        (.inl ((h.last hcursor).mpr ⟨hstops, Array.toList_inj.mp hmore, rfl⟩))
    | @comma cursor middle _ _ comma hgoes hcomma hpasses _ ih =>
      have hagain : (pass items).Accepts cursor (.again items) middle :=
        (h.again hcursor).mpr ⟨hgoes, .inl ⟨comma, hcomma, hpasses, rfl⟩⟩
      exact accepts_again hagain (hpasses.length_lt (List.cons_ne_nil _ _))
        (ih (hpasses.bounded hcursor) hmore)
    | @item cursor middle _ a _ hgoes hne ha _ ih =>
      have hagain : (pass items).Accepts cursor (.again (items.push a)) middle :=
        (h.again hcursor).mpr ⟨hgoes, .inr ⟨hne, a, ha, rfl⟩⟩
      refine accepts_again hagain (h.reads hcursor ha) (ih (ha.bounded hcursor) ?_)
      rw [hmore, Array.toList_push, List.append_assoc]
      rfl

theorem Course.bounded {items : List α} (h : Course stops item cursor items after)
    (hcursor : cursor.Bounded) : after.Bounded := by
  induction h with
  | last _ => exact hcursor
  | comma _ _ hpasses _ ih => exact ih (hpasses.bounded hcursor)
  | item _ _ ha _ ih => exact ih (ha.bounded hcursor)

variable {spelled : α → List Token → Prop} {ids : α → List NodeId} {valid : α → Prop}

/-- The tokens of a course, if each item is spelled by its tokens. -/
theorem Course.strewn
    (hitem : ∀ {cursor a after}, cursor.Bounded → item.Accepts cursor a after →
      (∃ tokens, cursor.Passes after tokens (ids a) ∧ spelled a tokens) ∧ valid a)
    {items : List α} (h : Course stops item cursor items after) (hcursor : cursor.Bounded) :
    (∃ tokens, cursor.Passes after tokens (items.flatMap ids) ∧ Strewn spelled items tokens) ∧
      (∀ a ∈ items, valid a) ∧ stops after := by
  induction h with
  | last hstops => exact ⟨⟨[], .refl _, .none⟩, by simp, hstops⟩
  | comma _ hcomma hpasses _ ih =>
    obtain ⟨⟨tokens, hrest, hstrewn⟩, hvalid⟩ := ih (hpasses.bounded hcursor)
    exact ⟨⟨_, hpasses.trans hrest, .comma hcomma hstrewn⟩, hvalid⟩
  | item _ _ ha _ ih =>
    obtain ⟨⟨before, hbefore, hspelled⟩, hfirst⟩ := hitem hcursor ha
    obtain ⟨⟨tokens, hrest, hstrewn⟩, hvalid, hstops⟩ := ih (ha.bounded hcursor)
    exact ⟨⟨_, hbefore.trans hrest, .item hspelled hstrewn⟩,
      List.forall_mem_cons.mpr ⟨hfirst, hvalid⟩, hstops⟩

/-- Commas at the start of a course. -/
theorem Course.of_commas
    (hgoes : ∀ {cursor : Cursor}, cursor.Bounded → cursor.peek.kind = .comma → ¬stops cursor)
    {commas : List Token} (hcommas : ∀ token ∈ commas, token.kind = .comma)
    (hcursor : cursor.Bounded) {middle : Cursor} (hpasses : cursor.Passes middle commas [])
    {items : List α} (h : Course stops item middle items after) :
    Course stops item cursor items after := by
  induction commas generalizing cursor with
  | nil =>
    obtain rfl := hpasses.eq_of_nil
    exact h
  | cons comma commas ih =>
    obtain ⟨hcomma, hcommas⟩ := List.forall_mem_cons.mp hcommas
    obtain ⟨next, hfirst, hrest⟩ := hpasses.uncons
    exact .comma (hgoes hcursor (by rw [hpasses.peek, hcomma])) hcomma hfirst
      (ih hcommas (hfirst.bounded hcursor) hrest)

end Courses

/-! ## Values -/

section Values

variable {expression : Rule Expr} {levels : Nat} {cursor after : Cursor}

/-- A token that begins a value and is no word begins an expression. -/
theorem accepts_argValue_expr (hbegins : cursor.peek.kind.BeginsValue)
    (hname : cursor.peek.kind ≠ .identifier) (hword : cursor.peek.kind ≠ .command)
    {value : ArgValue} :
    (argValue expression).Accepts cursor value after ↔
      ∃ expr, (primary expression).Accepts cursor expr after ∧ value = .expr expr := by
  have hmap : (argValue expression).Accepts cursor value after ↔
      (ArgValue.expr <$> primary expression).Accepts cursor value after := by
    unfold argValue
    rw [accepts_peek_bind]
    simp only [TokenKind.BeginsValue, List.mem_cons, List.not_mem_nil, or_false] at hbegins
    obtain hkind | hkind | hkind | hkind | hkind | hkind | hkind | hkind := hbegins
    case inr.inr.inr.inr.inr.inl => exact absurd hkind hname
    case inr.inr.inr.inr.inr.inr.inl => exact absurd hkind hword
    all_goals
      simp only [hkind]
      exact Iff.rfl
  exact hmap.trans accepts_map

theorem spelled_of_strength {expr : Expr} {tokens : List Token} (h : expr.Spelled tokens)
    (hstrength : 9 ≤ expr.strength)
    (hfirst : ∀ token ∈ tokens.head?, token.kind ≠ .identifier ∧ token.kind ≠ .command) :
    (ArgValue.expr expr).Spelled tokens := by
  match expr, h with
  | .literal .., .literal hvalue => exact .literal hvalue
  | .grouping .., h => exact .grouping h
  | .variable .., .variable hname => exact absurd hname (hfirst _ rfl).1
  | .commandRef .., .commandRef hword => exact absurd hword (hfirst _ rfl).2
  | .unary .., _ | .assign .., _ | .call .., _ => simp [Expr.strength] at hstrength
  | .binary op .., _ => exact absurd (Nat.le_trans hstrength op.strength_mem.2) (by decide)
  | .logical op .., _ => exact absurd (Nat.le_trans hstrength op.strength_mem.2) (by decide)

theorem begins_of_accepts_argValue {value : ArgValue}
    (h : (argValue expression).Accepts cursor value after) : cursor.peek.kind.BeginsValue := by
  unfold argValue at h
  rw [accepts_peek_bind] at h
  split at h
  case h_9 => exact absurd h not_accepts_fail
  all_goals
    rename_i hkind
    rw [hkind]
    decide

/-- A word, a literal or an expression in parentheses. -/
theorem accepts_argValue (h : expression.ReadsExpr 0 levels) (hcursor : cursor.Bounded)
    {value : ArgValue} :
    (argValue expression).Accepts cursor value after ↔
      (∃ tokens, cursor.Passes after tokens value.ids ∧ value.Spelled tokens) ∧
        value.Within (levels + 1) := by
  have hprimary := readsExpr_primary h
  have hword (hkind : cursor.peek.kind = .identifier ∨ cursor.peek.kind = .command) :
      (argValue expression).Accepts cursor value after ↔
        cursor.Passes after [cursor.peek] [] ∧ value = .word cursor.peek.lexeme := by
    unfold argValue
    rw [accepts_peek_bind]
    obtain hkind | hkind := hkind
    all_goals
      simp only [hkind]
      exact accepts_skip_pure hcursor (by rw [hkind]; decide)
  constructor
  · intro hrun
    by_cases hkind : cursor.peek.kind = .identifier ∨ cursor.peek.kind = .command
    · obtain ⟨hpasses, rfl⟩ := (hword hkind).mp hrun
      exact ⟨⟨_, hpasses, .word hkind⟩, trivial⟩
    · obtain ⟨hname, hcommand⟩ := not_or.mp hkind
      obtain ⟨expr, hexpr, rfl⟩ :=
        (accepts_argValue_expr (begins_of_accepts_argValue hrun) hname hcommand).mp hrun
      obtain ⟨⟨⟨tokens, hpasses, hspelled⟩, hstrength, hproper, hdepth⟩, -⟩ :=
        (hprimary _ _ _ hcursor).mp hexpr
      refine ⟨⟨tokens, hpasses, spelled_of_strength hspelled hstrength ?_⟩, hproper, hdepth⟩
      obtain ⟨first, rest, rfl, -⟩ := hspelled.begins
      intro token htoken
      obtain rfl := Option.some.inj (Option.mem_def.mp htoken)
      rw [hpasses.peek] at hname hcommand
      exact ⟨hname, hcommand⟩
  · rintro ⟨⟨tokens, hpasses, hspelled⟩, hwithin⟩
    cases hspelled with
    | word hkind =>
      obtain rfl := hpasses.peek
      exact (hword hkind).mpr ⟨hpasses, rfl⟩
    | @literal token value hvalue =>
      obtain rfl := hpasses.peek
      have hbegins := hvalue.beginsValue
      have hname : cursor.peek.kind ≠ .identifier := by
        intro hkind
        simp [Token.Denotes, hkind] at hvalue
      have hcommand : cursor.peek.kind ≠ .command := by
        intro hkind
        simp [Token.Denotes, hkind] at hvalue
      exact (accepts_argValue_expr hbegins hname hcommand).mpr
        ⟨_, (accepts_primary_literal hcursor hvalue).mpr ⟨hpasses, rfl⟩, rfl⟩
    | @grouping inner line _ hgrouping =>
      obtain ⟨hproper, hdepth⟩ := hwithin
      have hkind : cursor.peek.kind = .leftParen := by
        cases hgrouping with
        | grouping hopening _ _ =>
          rw [hpasses.peek]
          exact hopening
      have hexpr : (primary expression).Accepts cursor (.grouping inner line) after :=
        (hprimary _ _ _ hcursor).mpr ⟨⟨⟨tokens, hpasses, hgrouping⟩, Nat.le_refl 9, hproper,
          hdepth⟩, TokenKind.stops_nine _⟩
      exact (accepts_argValue_expr (by rw [hkind]; decide) (by rw [hkind]; decide)
        (by rw [hkind]; decide)).mpr ⟨_, hexpr, rfl⟩

/-- The values of a parameter end at a `-` or where the command ends. -/
def AtValuesEnd (cursor : Cursor) : Prop :=
  (cursor.peek.kind = .semicolon ∨ cursor.rest = []) ∨ cursor.peek.kind = .minus

/-- A command ends at a `;` or where the input does. -/
def AtArgsEnd (cursor : Cursor) : Prop := cursor.peek.kind = .semicolon ∨ cursor.rest = []

theorem AtValuesEnd.not_comma (h : AtValuesEnd cursor) (hcursor : cursor.Bounded) :
    cursor.peek.kind ≠ .comma := by
  intro hcomma
  obtain (hkind | hempty) | hkind := h
  · exact absurd (hcomma.symm.trans hkind) (by decide)
  · obtain ⟨rest, hrest⟩ := Cursor.exists_rest_of_peek hcursor hcomma (by decide)
    rw [hempty] at hrest
    cases hrest
  · exact absurd (hcomma.symm.trans hkind) (by decide)

/-- No value of a parameter begins where the values end. -/
theorem AtValuesEnd.not_begins (h : AtValuesEnd cursor) {token : Token} {rest : List Token}
    (hrest : cursor.rest = token :: rest) : ¬token.kind.BeginsValue := by
  have hpeek : cursor.peek = token := by
    rw [Cursor.peek, hrest]
    rfl
  intro hbegins
  obtain (hkind | hempty) | hkind := h
  · rw [← hpeek, hkind] at hbegins
    exact absurd hbegins (by decide)
  · rw [hempty] at hrest
    cases hrest
  · rw [← hpeek, hkind] at hbegins
    exact absurd hbegins (by decide)

/-- What a loop does where it has not stopped: it passes over a comma or takes an item. -/
theorem accepts_comma_or {α : Type} {item : Rule α} {items : Array α} {state : Pass (Array α)}
    (hcursor : cursor.Bounded) :
    (do
      if ← accept .comma then return .again items
      return .again (items.push (← item)) : Rule (Pass (Array α))).Accepts cursor state after ↔
      ∃ final, state = .again final ∧
        ((∃ comma : Token, comma.kind = .comma ∧ cursor.Passes after [comma] [] ∧ final = items) ∨
          cursor.peek.kind ≠ .comma ∧ ∃ a, item.Accepts cursor a after ∧ final = items.push a) := by
  rw [accepts_accept_bind hcursor (by decide)]
  constructor
  · rintro (⟨comma, middle, -, hcomma, hpasses, hpure⟩ | ⟨hne, hrest⟩)
    · obtain ⟨rfl, rfl⟩ := accepts_pure.mp hpure
      exact ⟨items, rfl, .inl ⟨comma, hcomma, hpasses, rfl⟩⟩
    · obtain ⟨a, middle, ha, hpure⟩ := accepts_bind.mp hrest
      obtain ⟨rfl, rfl⟩ := accepts_pure.mp hpure
      exact ⟨_, rfl, .inr ⟨hne, a, ha, rfl⟩⟩
  · rintro ⟨final, rfl, ⟨comma, hcomma, hpasses, rfl⟩ | ⟨hne, a, ha, rfl⟩⟩
    · exact .inl ⟨comma, after, hpasses.bounded hcursor, hcomma, hpasses,
        accepts_pure.mpr ⟨rfl, rfl⟩⟩
    · exact .inr ⟨hne, accepts_bind.mpr ⟨a, after, ha, accepts_pure.mpr ⟨rfl, rfl⟩⟩⟩

/-- A loop that tests first whether it has to stop. -/
theorem strews_of_test {α : Type} {stops : Cursor → Prop} {item : Rule α}
    {pass : Array α → Rule (Pass (Array α))} (test : Cursor → Bool)
    (htest : ∀ cursor, test cursor = true ↔ stops cursor)
    (hpass : ∀ {items state cursor after}, (pass items).Accepts cursor state after ↔
      (if test cursor then pure (.last items) else do
        if ← accept .comma then return .again items
        return .again (items.push (← item)) : Rule (Pass (Array α))).Accepts cursor state after)
    (hreads : ∀ {cursor a after}, cursor.Bounded → item.Accepts cursor a after →
      cursor.read < after.read) : Strews stops item pass where
  last := by
    intro items final cursor after hcursor
    rw [hpass, ← htest]
    constructor
    · intro h
      split at h
      · rename_i hstops
        obtain ⟨hlast, rfl⟩ := accepts_pure.mp h
        exact ⟨hstops, Pass.last.inj hlast, rfl⟩
      · obtain ⟨final, heq, -⟩ := (accepts_comma_or hcursor).mp h
        cases heq
    · rintro ⟨hstops, rfl, rfl⟩
      rw [if_pos hstops]
      exact accepts_pure.mpr ⟨rfl, rfl⟩
  again := by
    intro items final cursor after hcursor
    rw [hpass, ← htest]
    constructor
    · intro h
      split at h
      · cases (accepts_pure.mp h).1
      · rename_i hgoes
        obtain ⟨final, heq, hrest⟩ := (accepts_comma_or hcursor).mp h
        obtain rfl := Pass.again.inj heq
        exact ⟨hgoes, hrest⟩
    · rintro ⟨hgoes, hrest⟩
      rw [if_neg hgoes]
      exact (accepts_comma_or hcursor).mpr ⟨final, rfl, hrest⟩
  reads := hreads

/-- One pass over the values of a parameter. -/
def valuesPass (expression : Rule Expr) (values : Array ArgValue) :
    Rule (Pass (Array ArgValue)) := do
  if (← atCommandEnd) || (← check .minus) then return .last values
  if ← accept .comma then return .again values
  return .again (values.push (← argValue expression))

theorem parameterValues_eq (expression : Rule Expr) :
    parameterValues expression = Array.toList <$> repeated (valuesPass expression) #[] := rfl

theorem reads_of_spelled {value : ArgValue} {tokens : List Token} {ids : List NodeId}
    (hspelled : value.Spelled tokens) (hpasses : cursor.Passes after tokens ids) :
    cursor.read < after.read := by
  obtain ⟨first, rest, rfl, -⟩ := hspelled.begins
  exact hpasses.length_lt (List.cons_ne_nil _ _)

theorem strews_valuesPass (h : expression.ReadsExpr 0 levels) :
    Strews AtValuesEnd (argValue expression) (valuesPass expression) := by
  refine strews_of_test (fun cursor => (decide (cursor.peek.kind = .semicolon) ||
    cursor.rest.isEmpty) || decide (cursor.peek.kind = .minus)) ?_ Iff.rfl ?_
  · intro cursor
    simp [AtValuesEnd]
  · intro cursor value after hcursor hvalue
    obtain ⟨⟨tokens, hpasses, hspelled⟩, -⟩ := (accepts_argValue h hcursor).mp hvalue
    exact reads_of_spelled hspelled hpasses

/-- The values of a parameter, up to a `-` or the end of the command. -/
theorem accepts_parameterValues (h : expression.ReadsExpr 0 levels) (hcursor : cursor.Bounded)
    {values : List ArgValue} :
    (parameterValues expression).Accepts cursor values after ↔
      (∃ tokens, cursor.Passes after tokens (values.flatMap ArgValue.ids) ∧
        Strewn ArgValue.Spelled values tokens) ∧
      (∀ value ∈ values, value.Within (levels + 1)) ∧ AtValuesEnd after := by
  rw [parameterValues_eq, accepts_map]
  constructor
  · rintro ⟨final, hrun, rfl⟩
    obtain ⟨more, hmore, hcourse⟩ := (accepts_strewn (strews_valuesPass h) hcursor).mp hrun
    rw [hmore]
    exact hcourse.strewn (fun hcursor hvalue => (accepts_argValue h hcursor).mp hvalue) hcursor
  · rintro ⟨⟨tokens, hpasses, hstrewn⟩, hwithin, hend⟩
    refine ⟨values.toArray, (accepts_strewn (strews_valuesPass h) hcursor).mpr
      ⟨values, by simp, ?_⟩, by simp⟩
    induction hstrewn generalizing cursor with
    | none =>
      obtain rfl := hpasses.eq_of_nil
      exact .last hend
    | comma hcomma _ ih =>
      obtain ⟨middle, hfirst, hrest⟩ := hpasses.uncons
      refine .comma (fun hstops => ?_) hcomma hfirst (ih (hfirst.bounded hcursor) hrest hwithin)
      exact hstops.not_comma hcursor (by rw [hpasses.peek, hcomma])
    | @item value rest before behind hspelled hstrewn ih =>
      rw [List.flatMap_cons] at hpasses
      obtain ⟨middle, hfirst, hrest⟩ := hpasses.split
      obtain ⟨hvalue, hwithin⟩ := List.forall_mem_cons.mp hwithin
      have haccepts := (accepts_argValue h hcursor).mpr ⟨⟨before, hfirst, hspelled⟩, hvalue⟩
      obtain ⟨token, more, rfl, hbegins⟩ := hspelled.begins
      refine .item (fun hstops => hstops.not_begins hfirst.rest hbegins) ?_ haccepts
        (ih (hfirst.bounded hcursor) hrest hwithin)
      rw [hfirst.peek]
      intro hcomma
      rw [hcomma] at hbegins
      exact absurd hbegins (by decide)

/-! ## Arguments -/

/-- A flag or parameter after a `-`, or else a positional value. -/
def argument (expression : Rule Expr) : Rule Arg := do
  if ← accept .minus then marked expression else .positional <$> argValue expression

theorem accepts_markerName (hcursor : cursor.Bounded) {missing : String → ParseFault}
    {name : String} :
    (markerName missing).Accepts cursor name after ↔
      ∃ token : Token, token.kind = .identifier ∧ token.lexeme = name ∧
        cursor.Passes after [token] [] := by
  unfold markerName
  rw [accepts_accept?_bind hcursor (by decide)]
  constructor
  · rintro (⟨token, middle, -, hkind, hpasses, hpure⟩ | ⟨-, hrest⟩)
    · obtain ⟨rfl, rfl⟩ := accepts_pure.mp hpure
      exact ⟨token, hkind, rfl, hpasses⟩
    · exact absurd (accepts_peek_bind.mp hrest) not_accepts_fail
  · rintro ⟨token, hkind, rfl, hpasses⟩
    exact .inl ⟨token, after, hpasses.bounded hcursor, hkind, hpasses, accepts_pure.mpr ⟨rfl, rfl⟩⟩

/-- One argument. What follows a parameter is none of its values. -/
theorem accepts_argument (h : expression.ReadsExpr 0 levels) (hcursor : cursor.Bounded)
    {arg : Arg} :
    (argument expression).Accepts cursor arg after ↔
      (∃ tokens, cursor.Passes after tokens arg.ids ∧ arg.Spelled tokens) ∧
        arg.Within (levels + 1) ∧ (arg.IsParameter → AtValuesEnd after) := by
  unfold argument marked
  rw [accepts_accept_bind hcursor (by decide)]
  constructor
  · rintro (⟨first, middle, hmiddle, hfirst, hpasses, hrest⟩ | ⟨-, hrest⟩)
    · obtain ⟨second, behind, hbehind, hsecond, hnext, hrest⟩ | ⟨-, hrest⟩ :=
        (accepts_accept_bind hmiddle (by decide)).mp hrest
      · obtain ⟨name, last, hname, hrest⟩ := accepts_bind.mp hrest
        obtain ⟨token, hkind, rfl, hlast⟩ := (accepts_markerName hbehind).mp hname
        obtain ⟨values, _, hvalues, hpure⟩ := accepts_bind.mp hrest
        obtain ⟨rfl, rfl⟩ := accepts_pure.mp hpure
        obtain ⟨⟨tokens, htokens, hstrewn⟩, hwithin, hend⟩ :=
          (accepts_parameterValues h (hlast.bounded hbehind)).mp hvalues
        exact ⟨⟨_, hpasses.trans (hnext.trans (hlast.trans htokens)),
          .parameter hfirst hsecond hkind hstrewn⟩, hwithin, fun _ => hend⟩
      · obtain ⟨name, _, hname, hpure⟩ := accepts_bind.mp hrest
        obtain ⟨rfl, rfl⟩ := accepts_pure.mp hpure
        obtain ⟨token, hkind, rfl, hlast⟩ := (accepts_markerName hmiddle).mp hname
        exact ⟨⟨_, hpasses.trans hlast, .flag hfirst hkind⟩, trivial, False.elim⟩
    · obtain ⟨value, hvalue, rfl⟩ := accepts_map.mp hrest
      obtain ⟨⟨tokens, hpasses, hspelled⟩, hwithin⟩ := (accepts_argValue h hcursor).mp hvalue
      exact ⟨⟨tokens, hpasses, .positional hspelled⟩, hwithin, False.elim⟩
  · rintro ⟨⟨tokens, hpasses, hspelled⟩, hwithin, hend⟩
    cases hspelled with
    | positional hspelled =>
      refine .inr ⟨?_, accepts_map.mpr ⟨_, (accepts_argValue h hcursor).mpr
        ⟨⟨tokens, hpasses, hspelled⟩, hwithin⟩, rfl⟩⟩
      obtain ⟨token, rest, rfl, hbegins⟩ := hspelled.begins
      rw [hpasses.peek]
      intro hminus
      rw [hminus] at hbegins
      exact absurd hbegins (by decide)
    | @flag marker name hmarker hname =>
      obtain ⟨middle, hfirst, hlast⟩ := hpasses.uncons
      have hmiddle := hfirst.bounded hcursor
      refine .inl ⟨marker, middle, hmiddle, hmarker, hfirst,
        (accepts_accept_bind hmiddle (by decide)).mpr (.inr ⟨?_, ?_⟩)⟩
      · rw [hlast.peek, hname]
        decide
      · exact accepts_bind.mpr ⟨_, after, (accepts_markerName hmiddle).mpr
          ⟨name, hname, rfl, hlast⟩, accepts_pure.mpr ⟨rfl, rfl⟩⟩
    | @parameter first second name values tokens hfirst hsecond hname hstrewn =>
      obtain ⟨middle, hone, hpasses⟩ := hpasses.uncons
      have hmiddle := hone.bounded hcursor
      obtain ⟨behind, htwo, hpasses⟩ := hpasses.uncons
      have hbehind := htwo.bounded hmiddle
      obtain ⟨last, hthree, hvalues⟩ := hpasses.uncons
      have haccepts := (accepts_parameterValues h (hthree.bounded hbehind)).mpr
        ⟨⟨tokens, hvalues, hstrewn⟩, hwithin, hend trivial⟩
      refine .inl ⟨first, middle, hmiddle, hfirst, hone,
        (accepts_accept_bind hmiddle (by decide)).mpr
          (.inl ⟨second, behind, hbehind, hsecond, htwo, ?_⟩)⟩
      exact accepts_bind.mpr ⟨_, last, (accepts_markerName hbehind).mpr
        ⟨name, hname, rfl, hthree⟩, accepts_bind.mpr ⟨values, after, haccepts,
          accepts_pure.mpr ⟨rfl, rfl⟩⟩⟩

/-- One pass over the arguments of a command. -/
def argsPass (expression : Rule Expr) (args : Array Arg) : Rule (Pass (Array Arg)) := do
  if ← atCommandEnd then return .last args
  if ← accept .comma then return .again args
  if ← accept .minus then return .again (args.push (← marked expression))
  return .again (args.push (.positional (← argValue expression)))

theorem args_eq (expression : Rule Expr) :
    args expression = Array.toList <$> repeated (argsPass expression) #[] := rfl

theorem accepts_argument_bind {β : Type} {result : β} {rest : Arg → Rule β} :
    (argument expression >>= rest).Accepts cursor result after ↔
      (do
        if ← accept .minus then marked expression >>= rest
        else argValue expression >>= fun value => rest (.positional value) : Rule β).Accepts
          cursor result after := by
  unfold argument
  rw [accepts_bind, accepts_bind]
  constructor
  · rintro ⟨arg, middle, harg, hrest⟩
    obtain ⟨isMarked, start, hmarker, harg⟩ := accepts_bind.mp harg
    refine ⟨isMarked, start, hmarker, ?_⟩
    cases isMarked with
    | true => exact accepts_bind.mpr ⟨arg, middle, harg, hrest⟩
    | false => exact accepts_map_bind.mp (accepts_bind.mpr ⟨arg, middle, harg, hrest⟩)
  · rintro ⟨isMarked, start, hmarker, hrest⟩
    cases isMarked with
    | true =>
      obtain ⟨arg, middle, harg, hrest⟩ := accepts_bind.mp hrest
      exact ⟨arg, middle, accepts_bind.mpr ⟨true, start, hmarker, harg⟩, hrest⟩
    | false =>
      obtain ⟨arg, middle, harg, hrest⟩ := accepts_bind.mp (accepts_map_bind.mpr hrest)
      exact ⟨arg, middle, accepts_bind.mpr ⟨false, start, hmarker, harg⟩, hrest⟩

theorem strews_argsPass (h : expression.ReadsExpr 0 levels) :
    Strews AtArgsEnd (argument expression) (argsPass expression) := by
  refine strews_of_test (fun cursor => decide (cursor.peek.kind = .semicolon) ||
    cursor.rest.isEmpty) ?_ ?_ ?_
  · intro cursor
    simp [AtArgsEnd]
  · intro given state cursor after
    change (if _ then _ else (_ : Rule _)).Accepts cursor state after ↔ _
    split
    · exact Iff.rfl
    · rw [accepts_bind, accepts_bind]
      refine exists_congr fun isComma => exists_congr fun middle => and_congr_right fun _ => ?_
      cases isComma with
      | true => exact Iff.rfl
      | false => exact accepts_argument_bind.symm
  · intro cursor arg after hcursor harg
    obtain ⟨⟨tokens, hpasses, hspelled⟩, -⟩ := (accepts_argument h hcursor).mp harg
    obtain ⟨first, rest, rfl, -⟩ := hspelled.begins
    exact hpasses.length_lt (List.cons_ne_nil _ _)

/-- A positional value does not begin where the values of a parameter end. -/
theorem AtValuesEnd.not_positional (h : AtValuesEnd cursor) {arg : Arg} {tokens : List Token}
    {ids : List NodeId} (hpasses : cursor.Passes after tokens ids) (hspelled : arg.Spelled tokens) :
    ¬arg.IsPositional := by
  obtain ⟨first, rest, rfl, ⟨-, hbegins⟩ | ⟨hnot, -⟩⟩ := hspelled.begins
  · exact absurd hbegins (h.not_begins hpasses.rest)
  · exact hnot

/-- Whatever comes directly after a parameter is no positional value. -/
theorem Course.canonical (h : expression.ReadsExpr 0 levels) {given : List Arg}
    (hcourse : Course AtArgsEnd (argument expression) cursor given after)
    (hcursor : cursor.Bounded) :
    Arg.Canonical given ∧
      (AtValuesEnd cursor → ∀ arg ∈ given.head?, ¬arg.IsPositional) := by
  induction hcourse with
  | last _ => exact ⟨.nil, by simp⟩
  | comma _ hcomma hpasses _ ih =>
    refine ⟨(ih (hpasses.bounded hcursor)).1, fun hend => ?_⟩
    exact absurd (hpasses.peek ▸ hcomma) (hend.not_comma hcursor)
  | @item cursor middle after arg given _ _ harg _ ih =>
    obtain ⟨hcanonical, hhead⟩ := ih (harg.bounded hcursor)
    obtain ⟨⟨tokens, hpasses, hspelled⟩, -, hend⟩ := (accepts_argument h hcursor).mp harg
    refine ⟨List.isChain_cons.mpr ⟨fun next hnext hparameter => hhead (hend hparameter) next hnext,
      hcanonical⟩, fun hstart first hfirst => ?_⟩
    obtain rfl := Option.some.inj (Option.mem_def.mp hfirst)
    exact hstart.not_positional hpasses hspelled

/-- The loop finds the arguments that the tokens were written for. Commas behind a parameter
it takes for commas among the values. -/
theorem course_of_strewn (h : expression.ReadsExpr 0 levels) {given : List Arg}
    {tokens : List Token} (hwritten : WrittenArgs (levels + 1) given tokens)
    (hcursor : cursor.Bounded) (hpasses : cursor.Passes after tokens (given.flatMap Arg.ids))
    (hend : AtArgsEnd after) : Course AtArgsEnd (argument expression) cursor given after := by
  have hgoes {cursor : Cursor} (hcursor : cursor.Bounded) (hcomma : cursor.peek.kind = .comma) :
      ¬AtArgsEnd cursor := fun hend => AtValuesEnd.not_comma (.inl hend) hcursor hcomma
  induction hlength : tokens.length using Nat.strongRecOn generalizing tokens cursor given with
  | _ length ih =>
    subst hlength
    obtain ⟨hstrewn, hcanonical, hwithin⟩ := hwritten
    obtain ⟨commas, rest, rfl, hcommas, hrest⟩ := hstrewn.split_commas
    obtain ⟨start, hskipped, hpasses⟩ := hpasses.split_first
    have hstart := hskipped.bounded hcursor
    refine .of_commas hgoes hcommas hcursor hskipped ?_
    obtain ⟨rfl, rfl⟩ | ⟨arg, later, before, behind, rfl, rfl, hspelled, hlater⟩ := hrest
    · obtain rfl := hpasses.eq_of_nil
      exact .last hend
    · obtain ⟨hfirst, hwithin⟩ := List.forall_mem_cons.mp hwithin
      obtain ⟨near, far, heq, hnear, hfar, hreach⟩ := hspelled.reach hlater hcanonical
      rw [heq, List.flatMap_cons] at hpasses
      obtain ⟨middle, hone, hothers⟩ := hpasses.split
      have harg : (argument expression).Accepts start arg middle := by
        refine (accepts_argument h hstart).mpr ⟨⟨near, hone, hnear⟩, hfirst, fun hparameter => ?_⟩
        obtain ⟨rfl, rfl⟩ | ⟨first, more, rfl, hminus⟩ := hreach hparameter
        · obtain rfl := hothers.eq_of_nil
          exact .inl hend
        · exact .inr (hothers.peek ▸ hminus)
      obtain ⟨first, more, rfl, hbegins⟩ := hnear.begins
      have hkind : first.kind ≠ .semicolon ∧ first.kind ≠ .comma := by
        obtain ⟨-, hvalue⟩ | ⟨-, hminus⟩ := hbegins
        · constructor <;> exact fun hkind => absurd (hkind ▸ hvalue) (by decide)
        · rw [hminus]
          decide
      have hlength := congrArg List.length heq
      refine .item ?_ (hone.peek ▸ hkind.2) harg (ih far.length ?_ ⟨hfar, hcanonical.tail, hwithin⟩
        (hone.bounded hstart) hothers rfl)
      · rintro (hsemicolon | hempty)
        · exact hkind.1 (hone.peek ▸ hsemicolon)
        · rw [hone.rest] at hempty
          cases hempty
      · simp only [List.length_append, List.length_cons] at hlength ⊢
        omega

/-- The arguments of a command up to its end. -/
theorem accepts_args (h : expression.ReadsExpr 0 levels) (hcursor : cursor.Bounded)
    {given : List Arg} :
    (args expression).Accepts cursor given after ↔
      (∃ tokens, cursor.Passes after tokens (given.flatMap Arg.ids) ∧
        WrittenArgs (levels + 1) given tokens) ∧ AtArgsEnd after := by
  rw [args_eq, accepts_map]
  constructor
  · rintro ⟨final, hrun, rfl⟩
    obtain ⟨more, hmore, hcourse⟩ := (accepts_strewn (strews_argsPass h) hcursor).mp hrun
    obtain ⟨⟨tokens, hpasses, hstrewn⟩, hwithin, hend⟩ := hcourse.strewn (fun hcursor harg =>
      have hread := (accepts_argument h hcursor).mp harg
      ⟨hread.1, hread.2.1⟩) hcursor
    rw [hmore]
    exact ⟨⟨tokens, hpasses, hstrewn, (hcourse.canonical h hcursor).1, hwithin⟩, hend⟩
  · rintro ⟨⟨tokens, hpasses, hwritten⟩, hend⟩
    refine ⟨given.toArray, (accepts_strewn (strews_argsPass h) hcursor).mpr
      ⟨given, by simp, course_of_strewn h hwritten hcursor hpasses hend⟩, by simp⟩

end Values

/-! ## Commands -/

section Commands

variable {expression : Rule Expr} {levels : Nat} {cursor after : Cursor}

/-- The end of a command, whose `;` may be left out at the end of the input. -/
theorem accepts_endCommand (hcursor : cursor.Bounded) {result : Unit} :
    (endStatement true).Accepts cursor result after ↔
      ∃ ending, cursor.Passes after ending [] ∧ EndsCommand ending after.rest := by
  unfold endStatement
  rw [accepts_accept_bind hcursor (by decide)]
  constructor
  · rintro (⟨semicolon, middle, -, hkind, hpasses, hpure⟩ | ⟨-, hrest⟩)
    · obtain ⟨-, rfl⟩ := accepts_pure.mp hpure
      exact ⟨[semicolon], hpasses, .inl ⟨semicolon, hkind, rfl⟩⟩
    · change (if cursor.rest.isEmpty = true then _ else (_ : Rule Unit)).Accepts _ _ _ at hrest
      split at hrest
      · rename_i hempty
        obtain ⟨-, rfl⟩ := accepts_pure.mp hrest
        exact ⟨[], .refl _, .inr ⟨rfl, List.isEmpty_iff.mp hempty⟩⟩
      · exact absurd hrest not_accepts_expected
  · rintro ⟨ending, hpasses, ⟨semicolon, hkind, rfl⟩ | ⟨rfl, hempty⟩⟩
    · exact .inl ⟨semicolon, after, hpasses.bounded hcursor, hkind, hpasses,
        accepts_pure.mpr ⟨rfl, rfl⟩⟩
    · obtain rfl := hpasses.eq_of_nil
      have hpeek : after.peek.kind = .endOfInput := by
        rw [Cursor.peek, hempty]
        exact hcursor
      refine .inr ⟨by rw [hpeek]; decide, ?_⟩
      change (if after.rest.isEmpty = true then _ else (_ : Rule Unit)).Accepts _ _ _
      rw [if_pos (List.isEmpty_iff.mpr hempty)]
      exact accepts_pure.mpr ⟨rfl, rfl⟩

theorem AtArgsEnd.of_ends {ending : List Token} (h : EndsCommand ending after.rest)
    (hpasses : cursor.Passes after ending []) : AtArgsEnd cursor := by
  obtain ⟨semicolon, hkind, rfl⟩ | ⟨rfl, hempty⟩ := h
  · exact .inl (hpasses.peek ▸ hkind)
  · exact .inr (hpasses.rest.trans hempty)

/-- A command other than `help` and `exit`, behind its word. -/
theorem accepts_deliver (h : expression.ReadsExpr 0 levels) (hcursor : cursor.Bounded)
    {word : Token} (hword : Text.lowered word.lexeme ∉ ["help", "exit"]) {action : Command} :
    (command expression word).Accepts cursor action after ↔
      ∃ given tokens ending, action = .deliver (Text.lowered word.lexeme) given word.line ∧
        WrittenArgs (levels + 1) given tokens ∧
        cursor.Passes after (tokens ++ ending) (given.flatMap Arg.ids) ∧
        EndsCommand ending after.rest := by
  have hnames : Text.lowered word.lexeme ≠ "help" ∧ Text.lowered word.lexeme ≠ "exit" := by
    simpa using hword
  unfold command
  dsimp only
  rw [if_neg hnames.1, if_neg hnames.2, accepts_bind]
  constructor
  · rintro ⟨given, middle, hgiven, hrest⟩
    obtain ⟨⟨tokens, hpasses, hwritten⟩, -⟩ := (accepts_args h hcursor).mp hgiven
    obtain ⟨_, last, hend, hpure⟩ := accepts_bind.mp hrest
    obtain ⟨rfl, rfl⟩ := accepts_pure.mp hpure
    obtain ⟨ending, hlast, hends⟩ := (accepts_endCommand (hpasses.bounded hcursor)).mp hend
    have hboth := hpasses.trans hlast
    rw [List.append_nil] at hboth
    exact ⟨given, tokens, ending, rfl, hwritten, hboth, hends⟩
  · rintro ⟨given, tokens, ending, rfl, hwritten, hpasses, hends⟩
    obtain ⟨middle, hfirst, hlast⟩ := hpasses.split_last
    refine ⟨given, middle, (accepts_args h hcursor).mpr
      ⟨⟨tokens, hfirst, hwritten⟩, .of_ends hends hlast⟩, accepts_bind.mpr ⟨(), after, ?_,
        accepts_pure.mpr ⟨rfl, rfl⟩⟩⟩
    exact (accepts_endCommand (hfirst.bounded hcursor)).mpr ⟨ending, hlast, hends⟩

end Commands

end CommandScript.Grammar
