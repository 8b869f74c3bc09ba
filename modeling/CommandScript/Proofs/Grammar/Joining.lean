import CommandScript.Grammar.Program
import CommandScript.Proofs.Grammar.StatementLines

/-!
# Reading a program in two pieces

The tokens of two programs, one after the other, are read as the two programs, one after
the other, if the first one ends with a `;` or `}`. For as long as tokens of the first
program are left, all is read as if there were no others. When none is left, the rest is
read as the second program, with the statements of the first already at hand.

* `run_joined`: reading the tokens of the first program when others follow.
* `parse_append`: reading both.
-/

namespace CommandScript.Grammar

open Rule Splice

/-! ## What cannot begin with `else` -/

namespace Rule

variable {α β : Type}

/-- The rule does not succeed on a token of the kind. -/
def Refuses (rule : Rule α) (kind : TokenKind) : Prop :=
  ∀ cursor, cursor.peek.kind = kind → ∀ a after, rule.run cursor ≠ (.ok a, after)

theorem refuses_bind {rule : Rule α} {next : α → Rule β} {kind : TokenKind}
    (h : rule.Refuses kind) : (rule >>= next).Refuses kind := by
  intro cursor hkind b after hrun
  obtain ⟨a, middle, hfirst, -⟩ := run_bind_eq_ok hrun
  exact h cursor hkind a middle hfirst

/-- What is chosen by the token must not succeed on the token. -/
theorem refuses_peek {next : Token → Rule β} {kind : TokenKind}
    (hnext : ∀ token, token.kind = kind → (next token).Refuses kind) :
    (peek >>= next).Refuses kind := by
  intro cursor hkind b after hrun
  obtain ⟨token, same, hpeek, hrest⟩ := run_bind_eq_ok hrun
  obtain ⟨htoken, rfl⟩ := Prod.mk.inj hpeek
  obtain rfl := Except.ok.inj htoken
  exact hnext cursor.peek hkind cursor hkind b after hrest

theorem refuses_accept {kind other : TokenKind} (hne : kind ≠ other) {next : Bool → Rule β}
    (hnext : (next false).Refuses kind) : (accept other >>= next).Refuses kind := by
  intro cursor hkind b after hrun
  have hnone : (accept other).run cursor = (.ok false, cursor) :=
    run_accept_of_ne (hkind.symm ▸ hne)
  rw [run_bind_of_ok hnone] at hrun
  exact hnext cursor hkind b after hrun

end Rule

section Else

variable (expression operand : Rule Expr)

theorem refuses_primary : (primary expression).Refuses .elseWord := by
  refine refuses_peek fun token hkind => ?_
  rw [hkind]
  exact fun cursor _ expr after hrun => nomatch hrun

theorem refuses_unary : (unary expression operand).Refuses .elseWord := by
  refine refuses_peek fun token hkind => ?_
  rw [hkind]
  exact refuses_bind (refuses_primary expression)

theorem refuses_assignment : (assignment expression operand).Refuses .elseWord :=
  refuses_bind <| refuses_bind <| refuses_bind <| refuses_bind <| refuses_bind <|
    refuses_bind <| refuses_bind <| refuses_unary expression operand

theorem refuses_expression (mode : InputMode) (levels : Nat) :
    (nested mode levels).expression.Refuses .elseWord := by
  cases levels with
  | zero => exact fun _ _ _ _ hrun => fails_tooDeep hrun
  | succ levels => exact refuses_assignment _ _

theorem refuses_statement (mode : InputMode) (levels : Nat) :
    (nested mode levels).statement.Refuses .elseWord := by
  cases levels with
  | zero => exact fun _ _ _ _ hrun => fails_tooDeep hrun
  | succ levels =>
    refine refuses_peek fun token hkind => ?_
    rw [hkind]
    exact refuses_peek fun _ _ => refuses_bind (refuses_expression mode levels)

end Else

/-! ## Declaration by declaration -/

/-- A program takes one declaration after the other. -/
def pass (inner : Nested) (body : Array Stmt) : Rule (Pass (Array Stmt)) := do
  if ← atEnd then return .last body
  match ← declaration inner with
  | some stmt => return .again (body.push stmt)
  | none => return .again body

section Passes

variable {inner : Nested} {body : Array Stmt} {cursor after : Cursor}

theorem run_pass_of_nil (h : cursor.rest = []) :
    (pass inner body).run cursor = (.ok (.last body), cursor) := by
  have hatEnd : atEnd.run cursor = (.ok true, cursor) := by
    change (Except.ok cursor.rest.isEmpty, cursor) = _
    rw [h]
    rfl
  rw [pass, run_bind_of_ok hatEnd]
  rfl

theorem run_pass_of_ne_nil (h : cursor.rest ≠ []) :
    (pass inner body).run cursor = (do
      match ← declaration inner with
      | some stmt => return .again (body.push stmt)
      | none => return .again body : Rule _).run cursor := by
  have hatEnd : atEnd.run cursor = (.ok false, cursor) := by
    obtain ⟨token, rest, hrest⟩ := List.exists_cons_of_ne_nil h
    change (Except.ok cursor.rest.isEmpty, cursor) = _
    rw [hrest]
    rfl
  rw [pass, run_bind_of_ok hatEnd]
  rfl

theorem run_pass_of_declaration (h : cursor.rest ≠ []) {stmt : Stmt}
    (hrun : (declaration inner).run cursor = (.ok (some stmt), after)) :
    (pass inner body).run cursor = (.ok (.again (body.push stmt)), after) := by
  rw [run_pass_of_ne_nil h, run_bind_of_ok hrun]
  rfl

/-- Without faults a declaration is read at every token. -/
theorem exists_declaration_of_pass (h : cursor.rest ≠ [])
    {outcome : Except (Located ParseFault) (Pass (Array Stmt))}
    (hrun : (pass inner body).run cursor = (outcome, after)) (hfaults : after.faults = #[]) :
    ∃ stmt, (declaration inner).run cursor = (.ok (some stmt), after) := by
  rw [run_pass_of_ne_nil h] at hrun
  unfold declaration at hrun ⊢
  rw [run_bind] at hrun
  unfold recover at hrun ⊢
  dsimp only at hrun ⊢
  split at hrun
  · rename_i found middle hfound
    split at hfound
    · rename_i stmt later hdeclared
      obtain ⟨hsome, rfl⟩ := Prod.mk.inj hfound
      obtain rfl := Except.ok.inj hsome
      obtain ⟨-, rfl⟩ := Prod.mk.inj hrun
      exact ⟨stmt, rfl⟩
    · obtain ⟨hnone, rfl⟩ := Prod.mk.inj hfound
      obtain rfl := Except.ok.inj hnone
      obtain ⟨-, rfl⟩ := Prod.mk.inj hrun
      exact absurd hfaults Array.push_ne_empty
  · rename_i fault middle hfound
    split at hfound <;> cases hfound

theorem read_declaration (h : inner.statement.Consumes) (hlast : cursor.last.kind = .endOfInput)
    {stmt : Stmt} (hrun : (declaration inner).run cursor = (.ok (some stmt), after)) :
    cursor.read < after.read := by
  unfold declaration recover at hrun
  dsimp only at hrun
  split at hrun
  · rename_i found middle hdeclared
    obtain ⟨-, rfl⟩ := Prod.mk.inj hrun
    exact consumes_declared h cursor found middle hlast hdeclared
  · cases Except.ok.inj (Prod.mk.inj hrun).1

theorem run_repeated_of_nil (h : cursor.rest = []) :
    (repeated (pass inner) body).run cursor = (.ok body, cursor) := by
  rw [run_repeated, run_pass_of_nil h]

theorem run_repeated_of_declaration (h : cursor.rest ≠ []) {stmt : Stmt}
    (hrun : (declaration inner).run cursor = (.ok (some stmt), after))
    (hread : cursor.read < after.read) :
    (repeated (pass inner) body).run cursor =
      (repeated (pass inner) (body.push stmt)).run after := by
  rw [run_repeated, run_pass_of_declaration h hrun]
  exact if_pos hread

/-- A program without faults begins with a declaration, if it has a token at all. -/
theorem exists_first_declaration (h : cursor.rest ≠ []) {final : Array Stmt}
    (hrun : (repeated (pass inner) body).run cursor = (.ok final, after))
    (hfaults : after.faults = #[]) :
    ∃ stmt middle, (declaration inner).run cursor = (.ok (some stmt), middle) ∧
      middle.faults = #[] := by
  rw [run_repeated] at hrun
  generalize houtcome : (pass inner body).run cursor = outcome at hrun
  obtain ⟨found, middle⟩ := outcome
  have hmiddle : middle.faults = #[] := by
    match found with
    | .error fault => cases hrun
    | .ok (.last state) =>
      obtain ⟨-, rfl⟩ := Prod.mk.inj hrun
      exact hfaults
    | .ok (.again state) =>
      dsimp only at hrun
      split at hrun
      · exact faults_before hfaults (leadsTo_of_run hrun)
      · obtain ⟨-, rfl⟩ := Prod.mk.inj hrun
        exact hfaults
  obtain ⟨stmt, hdeclaration⟩ := exists_declaration_of_pass h houtcome hmiddle
  exact ⟨stmt, middle, hdeclaration, hmiddle⟩

end Passes

/-! ## Two programs -/

/-- A program without faults does not begin with `else`. -/
theorem kind_ne_else {mode : InputMode} {body final : Array Stmt} {cursor after : Cursor}
    (hrun : (repeated (pass (nested mode maxNesting)) body).run cursor = (.ok final, after))
    (hfaults : after.faults = #[]) : ∀ token ∈ cursor.rest.head?, token.kind ≠ .elseWord := by
  intro token htoken hkind
  obtain ⟨rest, hrest⟩ := List.head?_eq_some_iff.mp (Option.mem_def.mp htoken)
  have hpeek : cursor.peek.kind = .elseWord := by
    rw [Cursor.peek, hrest]
    exact hkind
  obtain ⟨stmt, middle, hdeclaration, -⟩ :=
    exists_first_declaration (hrest ▸ List.cons_ne_nil _ _) hrun hfaults
  unfold declaration recover at hdeclaration
  dsimp only at hdeclaration
  split at hdeclaration
  · rename_i found later hdeclared
    refine refuses_accept (by decide) ?_ cursor hpeek found later hdeclared
    exact refuses_accept (by decide) (refuses_statement mode maxNesting)
  · cases Except.ok.inj (Prod.mk.inj hdeclaration).1

/-- What is read of the first program when the tokens of the second follow. -/
theorem run_joined {mode : InputMode} {splice : Splice} (hlines : splice.lines = id)
    (helse : NoElse splice) {body final : Array Stmt} {cursor twin after : Cursor}
    (hfollows : splice.Follows cursor twin)
    (hrun : (repeated (pass (nested mode maxNesting)) body).run cursor = (.ok final, after))
    (hfaults : after.faults = #[]) :
    ∃ middle, splice.Follows after middle ∧ after.rest = [] ∧ twin.LeadsTo middle ∧
      (repeated (pass (nested mode maxNesting)) body).run twin =
        (repeated (pass (nested mode maxNesting)) final).run middle := by
  have hconsumes : (nested mode maxNesting).statement.Consumes := consumes_statement _ _
  induction hlength : cursor.rest.length using Nat.strongRecOn generalizing body cursor twin with
  | _ length ih =>
    subst hlength
    by_cases hnil : cursor.rest = []
    · rw [run_repeated_of_nil hnil] at hrun
      obtain ⟨hfinal, rfl⟩ := Prod.mk.inj hrun
      obtain rfl := Except.ok.inj hfinal
      exact ⟨twin, hfollows, hnil, .refl twin, rfl⟩
    · obtain ⟨stmt, middle, hdeclaration, hmiddle⟩ := exists_first_declaration hnil hrun hfaults
      have hread := read_declaration hconsumes hfollows.atLast hdeclaration
      rw [run_repeated_of_declaration hnil hdeclaration hread] at hrun
      -- the declaration is the same in the twin, because the lines are
      obtain ⟨next, hnext, hthere⟩ := mirrors_declaration (continues_nested helse mode maxNesting)
        cursor twin hfollows (.inr hnil) _ middle hdeclaration hmiddle
      rw [hlines, Option.map_some, Stmt.mapLines_id] at hnext
      have hread' : twin.read < next.read := by
        rw [hfollows.read, hthere.read]
        omega
      have hnil' : twin.rest ≠ [] := by
        rw [hfollows.rest]
        simp [hnil]
      rw [run_repeated_of_declaration hnil' hnext hread']
      have hshorter := (leadsTo_of_run hdeclaration).length_lt hread
      obtain ⟨last, hlast, hempty, hleads, hrest⟩ := ih _ hshorter hthere hrun rfl
      exact ⟨last, hlast, hempty, (leadsTo_of_run hnext).trans hleads, hrest⟩

/-- The declarations that come after others are read as they are read alone. -/
theorem run_moved {mode : InputMode} {splice : Splice} (hwhole : splice.whole)
    {before final : Array Stmt} {cursor twin after : Cursor}
    (hfollows : splice.Follows cursor twin)
    (hrun : (repeated (pass (nested mode maxNesting)) #[]).run cursor = (.ok final, after))
    (hfaults : after.faults = #[]) :
    ∃ last, (repeated (pass (nested mode maxNesting)) before).run twin =
        (.ok (before ++ final.map (·.mapLines splice.lines)), last) ∧
      splice.Follows after last := by
  have helse : NoElse splice := by
    intro token htoken
    rw [(hfollows.last hwhole).1] at htoken
    cases htoken
  have hcontinues := continues_nested helse mode maxNesting
  have hparallel : splice.Parallel (repeated (pass (nested mode maxNesting)) #[])
      (repeated (pass (nested mode maxNesting)) before)
      fun body => before ++ body.map (·.mapLines splice.lines) := by
    refine parallel_repeated ?_ (by simp)
    rintro body _ rfl
    refine parallel_bind parallel_atEnd fun ends => parallel_ite (parallel_pure rfl) ?_
    exact parallel_pass hcontinues (g := fun body => before ++ body.map (·.mapLines splice.lines))
      (by simp) body
  exact hparallel cursor twin hfollows final after hrun hfaults (.inl hwhole)

end CommandScript.Grammar

namespace CommandScript

open Grammar Rule Splice

variable {mode : InputMode} {nextId : NodeId}

theorem Grammar.Cursor.ofTokens_append {tokens : List Token}
    (hkinds : ∀ token ∈ tokens, token.kind ≠ .endOfInput) (line : Nat) (nextId : NodeId) :
    Cursor.ofTokens (tokens ++ [.endOfInput line]) nextId =
      ⟨tokens, 0, .endOfInput line, nextId, 0, #[]⟩ := by
  have htake : (tokens ++ [Token.endOfInput line]).takeWhile (·.kind ≠ .endOfInput) = tokens := by
    rw [List.takeWhile_append_of_pos (by simpa using hkinds)]
    simp [Token.endOfInput]
  have hfind : (tokens ++ [Token.endOfInput line]).find? (·.kind = .endOfInput) =
      some (.endOfInput line) := by
    rw [List.find?_append, List.find?_eq_none.mpr (by simpa using hkinds)]
    simp [Token.endOfInput]
  simp only [Cursor.ofTokens, htake, hfind, Option.getD_some]

/-- How a program without faults was read. -/
theorem exists_run_of_parse {tokens : List Token} {program : List Stmt}
    (h : (parse mode tokens nextId).program = .ok program) :
    ∃ final after, (repeated (pass (nested mode maxNesting)) #[]).run
        (Cursor.ofTokens tokens nextId) = (.ok final, after) ∧
      after.faults = #[] ∧ program = final.toList ∧
      (parse mode tokens nextId).drawn = after.drawn ∧
      (parse mode tokens nextId).nextId = after.nextId := by
  unfold parse at h ⊢
  split at h
  · rename_i found after hrun
    split at h
    · rename_i hempty
      obtain rfl := Except.ok.inj h
      obtain ⟨final, middle, hfirst, hsecond⟩ := run_bind_eq_ok hrun
      obtain ⟨hfound, rfl⟩ := Prod.mk.inj hsecond
      obtain rfl := Except.ok.inj hfound
      refine ⟨final, middle, hfirst, Array.isEmpty_iff.mp hempty, rfl, ?_, ?_⟩
      · simp only [hempty, if_true]
      · simp only [hempty, if_true]
    · cases h
  · cases h

theorem parse_of_run {tokens : List Token} {final : Array Stmt} {after : Cursor}
    (h : (repeated (pass (nested mode maxNesting)) #[]).run (Cursor.ofTokens tokens nextId) =
      (.ok final, after))
    (hfaults : after.faults = #[]) :
    parse mode tokens nextId = ⟨.ok final.toList, after.nextId, after.drawn⟩ := by
  have hprogram : (program mode).run (Cursor.ofTokens tokens nextId) =
      (.ok final.toList, after) := run_bind_of_ok h
  unfold parse
  rw [hprogram]
  simp [hfaults]

/-- Two programs after one another, the first of which ends with a `;` or `}`. -/
theorem parse_append {first second : List Token} {line line' : Nat} {down : Nat}
    {program program' : List Stmt}
    (hfirst : ∀ token ∈ first, token.kind ≠ .endOfInput)
    (hsecond : ∀ token ∈ second, token.kind ≠ .endOfInput)
    (hcloses : ∀ token ∈ first.getLast?, Closes token.kind)
    (h : (parse mode (first ++ [.endOfInput line]) nextId).program = .ok program)
    (h' : (parse mode (second ++ [.endOfInput line'])
      (parse mode (first ++ [.endOfInput line]) nextId).nextId).program = .ok program') :
    let drawn := (parse mode (first ++ [.endOfInput line]) nextId).drawn
    let drawn' := (parse mode (second ++ [.endOfInput line'])
      (parse mode (first ++ [.endOfInput line]) nextId).nextId).drawn
    parse mode (first ++ second.map (·.mapLines (· + down)) ++ [.endOfInput (line' + down)])
        nextId =
      ⟨.ok (program ++ Stmt.mapLinesAll (· + down) program'),
        nextId + UInt32.ofNat (drawn + drawn'), drawn + drawn'⟩ := by
  intro drawn drawn'
  obtain ⟨final, after, hrun, hfaults, rfl, hdrawn, hnext⟩ := exists_run_of_parse h
  obtain ⟨final', after', hrun', hfaults', rfl, hdrawn', -⟩ := exists_run_of_parse h'
  have hmoved : ∀ token ∈ second.map (·.mapLines (· + down)), token.kind ≠ .endOfInput := by
    simpa using hsecond
  rw [Cursor.ofTokens_append hfirst] at hrun
  rw [Cursor.ofTokens_append hsecond] at hrun'
  -- while the first program is read
  let joined : Splice := ⟨id, second.map (·.mapLines (· + down)), False, 0, 0⟩
  have hfollows : joined.Follows ⟨first, 0, .endOfInput line, nextId, 0, #[]⟩
      ⟨first ++ second.map (·.mapLines (· + down)), 0, .endOfInput (line' + down), nextId, 0,
        #[]⟩ := by
    refine ⟨?_, False.elim, rfl, rfl, rfl, rfl, rfl, rfl, fun _ => hcloses⟩
    exact congrArg (· ++ _) (List.map_id first).symm
  have helse : NoElse joined := by
    intro token htoken
    obtain ⟨found, hfound, rfl⟩ := Option.map_eq_some_iff.mp
      ((List.head?_map ..).symm.trans (Option.mem_def.mp htoken))
    exact kind_ne_else hrun' hfaults' found (Option.mem_def.mpr hfound)
  obtain ⟨middle, hmiddle, hempty, hleads, hjoined⟩ :=
    run_joined rfl helse hfollows hrun hfaults
  -- from there on
  let moved : Splice := ⟨(· + down), [], True, after.read, after.drawn⟩
  have hthere : moved.Follows ⟨second, 0, .endOfInput line',
      (parse mode (first ++ [.endOfInput line]) nextId).nextId, 0, #[]⟩ middle := by
    refine ⟨?_, fun _ => ⟨rfl, hleads.last⟩, ?_, ?_, ?_, hmiddle.faults, rfl, hmiddle.atLast',
      fun hopen => absurd trivial hopen⟩
    · rw [hmiddle.rest, hempty]
      exact (List.append_nil _).symm
    · exact hmiddle.read.trans (Nat.zero_add _).symm
    · exact hmiddle.drawn.trans (Nat.zero_add _).symm
    · rw [hmiddle.nextId, ← hnext]
      exact (UInt32.add_zero _).symm
  obtain ⟨last, hlast, hend⟩ := run_moved trivial hthere hrun' hfaults'
  rw [hlast] at hjoined
  have hrunBoth : (repeated (pass (nested mode maxNesting)) #[]).run
      (Cursor.ofTokens (first ++ second.map (·.mapLines (· + down)) ++
        [.endOfInput (line' + down)]) nextId) =
      (.ok (final ++ final'.map (·.mapLines (· + down))), last) := by
    rw [Cursor.ofTokens_append (List.forall_mem_append.mpr ⟨hfirst, hmoved⟩)]
    exact hjoined
  have hdrawnBoth : last.drawn = drawn + drawn' := by
    have hcount : last.drawn = after'.drawn + after.drawn := hend.drawn
    omega
  rw [parse_of_run hrunBoth hend.faults, Cursor.nextId, (leadsTo_of_run hrunBoth).firstId,
    hdrawnBoth, Stmt.mapLinesAll_eq, Array.toList_append, Array.toList_map]
  rfl

end CommandScript
