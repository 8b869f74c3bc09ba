import CommandScript.Proofs.Grammar.Capping
import CommandScript.Proofs.Grammar.Programs
import Mathlib.Data.List.TakeWhile

/-!
# The limit of nesting

A program that is read nests within the limit. The limit shows in no other way than by the
fault that something nests too deep: a program without this fault is read as it would be
with any number of levels. So what would be read as a deeper program has this fault.

Nested assignments are read in a loop, so there is no limit for them.

* `programWithin`: the rule of programs with any number of levels.
* `parse_nests`: the limit for programs.
* `assignments_nest_beyond`: the limit is none for assignments.
-/

namespace CommandScript

open Grammar Rule

namespace Grammar

/-- The rule of programs that has some number of levels of nesting. -/
def programWithin (mode : InputMode) (levels : Nat) : Rule (List Stmt) := do
  return (← repeated (pass (nested mode levels)) #[]).toList

theorem caps_programWithin (mode : InputMode) {levels more : Nat} (hle : levels ≤ more) :
    (programWithin mode levels).Caps (programWithin mode more) := by
  have hpass : ∀ body : Array Stmt,
      (pass (nested mode levels) body).Shadows NestsTooDeep (pass (nested mode more) body) :=
    shadows_bodyPass atEnd (shadows_declaration (shadows_nested mode hle))
  exact (shadows_then (shadows_repeated hpass _) _).caps

end Grammar

/-- The fault that something nests too deep is reported. -/
def Parsed.TooDeep (parsed : Parsed) : Prop :=
  ∃ faults line, parsed.program = .error faults ∧ ⟨.tooDeeplyNested, line⟩ ∈ faults

section Programs

variable {mode : InputMode} {tokens : List Token} {nextId : NodeId}

theorem tooDeep_parse (h : TooDeep ((program mode).run (Cursor.ofTokens tokens nextId))) :
    (parse mode tokens nextId).TooDeep := by
  obtain ⟨line, h⟩ := h
  unfold parse
  split
  · rename_i read after hrun
    rw [hrun] at h
    have hrecorded := h.resolve_left nofun
    have hfaults : ¬ after.faults.isEmpty = true := by
      intro hempty
      rw [Array.isEmpty_iff.mp hempty] at hrecorded
      exact Array.not_mem_empty _ hrecorded
    rw [if_neg hfaults]
    exact ⟨_, line, rfl, Array.mem_toList_iff.mpr hrecorded⟩
  · rename_i fault after hrun
    rw [hrun] at h
    refine ⟨_, line, rfl, Array.mem_toList_iff.mpr ?_⟩
    rcases h with hstopped | hrecorded
    · obtain rfl := Except.error.inj hstopped
      exact Array.mem_push_self ..
    · exact Array.mem_push_of_mem _ hrecorded

/-- With enough levels the tokens of a proper form are read as what it abbreviates. -/
theorem accepts_form {form : Form} {levels : Nat}
    (hkinds : ∀ token ∈ tokens, token.kind ≠ .endOfInput) (hspelled : form.Spelled tokens)
    (hproper : form.Proper) (hlevels : form.levels ≤ levels)
    (hids : form.ids = Cursor.idsFrom nextId form.ids.length) :
    ∃ after, (programWithin .script levels).Accepts (Cursor.ofTokens tokens nextId)
      [form.lowered] after := by
  let cursor := Cursor.ofTokens tokens nextId
  let after : Cursor := { cursor with
    rest := []
    read := cursor.read + cursor.rest.length
    drawn := cursor.drawn + form.ids.length }
  have hrest : cursor.rest = tokens ++ [] := by
    rw [List.append_nil]
    exact List.takeWhile_eq_self_iff.mpr (by simpa using hkinds)
  have hpasses : cursor.Passes after cursor.rest (Form.idsAll [form]) := by
    rw [Form.idsAll, Form.idsAll, List.append_nil]
    exact ⟨(List.append_nil _).symm, rfl, by rw [Cursor.nextId_ofTokens]; exact hids⟩
  obtain ⟨final, hfinal, hrun⟩ := gathers_program.complete (reads_nested levels)
    (Cursor.bounded_ofTokens tokens nextId)
    ⟨⟨_, hpasses, hrest ▸ .more hspelled .none⟩, ⟨hproper, trivial⟩,
      Nat.max_le.mpr ⟨hlevels, Nat.zero_le _⟩⟩ rfl #[]
  exact ⟨after, accepts_bind.mpr ⟨final, after, hrun, accepts_pure.mpr ⟨hfinal.symm, rfl⟩⟩⟩

theorem parse_of_accepts {read : List Stmt} {after : Cursor}
    (h : (program mode).Accepts (Cursor.ofTokens tokens nextId) read after) :
    (parse mode tokens nextId).program = .ok read := by
  unfold parse
  rw [h.1]
  dsimp only
  rw [if_pos (Array.isEmpty_iff.mpr h.2)]

/-- **Programs nest within the limit.** A program that is read nests within the limit, values of
assignments apart. Unless the fault is reported that something nests too deep, the program is
read as it would be with more levels. So where some number of levels has tokens read as a
program that nests beyond the limit, this fault is reported. -/
theorem parse_nests (mode : InputMode) (tokens : List Token) (nextId : NodeId) :
    (∀ program, (parse mode tokens nextId).program = .ok program →
      ∀ stmt ∈ program, stmt.Nests maxNesting) ∧
    (∀ levels, maxNesting ≤ levels →
      (program mode).run (Cursor.ofTokens tokens nextId) =
          (programWithin mode levels).run (Cursor.ofTokens tokens nextId) ∨
        (parse mode tokens nextId).TooDeep) ∧
    ∀ levels program after,
      (programWithin mode levels).Accepts (Cursor.ofTokens tokens nextId) program after →
      (∃ stmt ∈ program, ¬ stmt.Nests maxNesting) → (parse mode tokens nextId).TooDeep := by
  have hwider : ∀ levels, maxNesting ≤ levels →
      (program mode).run (Cursor.ofTokens tokens nextId) =
          (programWithin mode levels).run (Cursor.ofTokens tokens nextId) ∨
        (parse mode tokens nextId).TooDeep :=
    fun levels hle => (caps_programWithin mode hle _).imp_right tooDeep_parse
  refine ⟨fun read h => ?_, hwider, fun levels read after haccepts hdeep => ?_⟩
  · obtain ⟨final, after, hrun, -, rfl, -⟩ := exists_run_of_parse h
    have hprogram : (program mode).run (Cursor.ofTokens tokens nextId) =
        (.ok final.toList, after) := run_bind_of_ok hrun
    exact nests_program mode _ trivial _ _ hprogram
  · obtain ⟨stmt, hstmt, hdeep⟩ := hdeep
    have hdiffers : (program mode).run (Cursor.ofTokens tokens nextId) ≠
        (programWithin mode levels).run (Cursor.ofTokens tokens nextId) := by
      intro hsame
      rw [haccepts.1] at hsame
      exact hdeep (nests_program mode _ trivial _ _ hsame stmt hstmt)
    rcases Nat.le_total maxNesting levels with hle | hle
    · exact (hwider levels hle).resolve_left hdiffers
    · -- with fewer levels nothing was too deep, so the limit does not matter
      rcases caps_programWithin mode hle (Cursor.ofTokens tokens nextId) with hsame | ⟨line, h⟩
      · exact absurd hsame.symm hdiffers
      · rw [haccepts.1] at h
        have hrecorded := h.resolve_left nofun
        rw [haccepts.2] at hrecorded
        exact absurd hrecorded (Array.not_mem_empty _)

end Programs

/-! ## Beyond the limit -/

section Beyond

/-- A token without a value on the first line. -/
def Token.plain (kind : TokenKind) (text : String) : Token := ⟨kind, text, none, 1⟩

/-- `null` in so many parentheses. -/
def inParentheses : Nat → Expr
  | 0 => .literal .null 1
  | count + 1 => .grouping (inParentheses count) 1

/-- The tokens of `print` and `null` in so many parentheses. -/
def parenthesesTokens (count : Nat) : List Token :=
  [.plain .printWord "print"] ++ ((List.replicate count (.plain .leftParen "(") ++
    .plain .nullWord "null" :: List.replicate count (.plain .rightParen ")")) ++
    [.plain .semicolon ";"])

theorem spelled_inParentheses (count : Nat) :
    (inParentheses count).Spelled (List.replicate count (.plain .leftParen "(") ++
      .plain .nullWord "null" :: List.replicate count (.plain .rightParen ")")) := by
  induction count with
  | zero => exact @Expr.Spelled.literal (.plain .nullWord "null") .null rfl
  | succ count ih =>
    have h := @Expr.Spelled.grouping (.plain .leftParen "(") (.plain .rightParen ")") _ _ rfl ih rfl
    rw [List.append_assoc, List.cons_append] at h
    rw [List.replicate_succ, List.replicate_succ', List.cons_append]
    exact h

theorem inParentheses_spec (count : Nat) :
    (inParentheses count).Proper ∧ (inParentheses count).depth = count ∧
      (inParentheses count).ids = [] := by
  induction count with
  | zero => exact ⟨trivial, rfl, rfl⟩
  | succ count ih => exact ⟨ih.1, congrArg (· + 1) ih.2.1, ih.2.2⟩

theorem accepts_inParentheses (count : Nat) :
    ∃ after, (programWithin .script (count + 2)).Accepts
      (Cursor.ofTokens (parenthesesTokens count) 0) [.print (inParentheses count) 1] after := by
  obtain ⟨hproper, hdepth, hids⟩ := inParentheses_spec count
  have hprint := @Form.Spelled.print (.plain .printWord "print") (.plain .semicolon ";") _ _ rfl
    (spelled_inParentheses count) rfl
  refine accepts_form ?_ hprint hproper (Nat.le_of_eq (congrArg (· + 1 + 1) hdepth)) ?_
  · intro token htoken
    simp only [List.mem_append, List.mem_cons, List.mem_replicate, List.not_mem_nil,
      or_false] at htoken
    rcases htoken with rfl | ((⟨-, rfl⟩ | rfl | ⟨-, rfl⟩) | rfl) <;> decide
  · rw [Form.ids, hids]
    rfl

theorem depth_of_nests_print {levels : Nat} {expr : Expr} {line : Nat}
    (h : (Stmt.print expr line).Nests levels) : expr.depth + 1 < levels := by
  generalize hstmt : Stmt.print expr line = stmt at h
  cases h with
  | print hdepth =>
    obtain ⟨rfl, -⟩ := Stmt.print.inj hstmt
    exact Nat.succ_lt_succ hdepth
  | @iteration _ initializer _ increment =>
    cases initializer <;> cases increment <;> cases hstmt
  | _ => cases hstmt

theorem not_nests_inParentheses (levels : Nat) :
    ¬ (Stmt.print (inParentheses levels) 1).Nests levels := by
  intro h
  have hlt := depth_of_nests_print h
  rw [(inParentheses_spec levels).2.1] at hlt
  exact absurd hlt (Nat.not_lt.mpr (Nat.le_succ _))

/-- `print null;` is within the limit. In as many parentheses as the limit has levels, `null` is
printed only by a program that nests beyond it. -/
theorem parse_nests_of_parentheses :
    (∃ program, (parse .script (parenthesesTokens 0) 0).program = .ok program ∧
      ∀ stmt ∈ program, stmt.Nests maxNesting) ∧
    ∃ program after, (programWithin .script (maxNesting + 2)).Accepts
        (Cursor.ofTokens (parenthesesTokens maxNesting) 0) program after ∧
      (∃ stmt ∈ program, ¬ stmt.Nests maxNesting) ∧
      (parse .script (parenthesesTokens maxNesting) 0).TooDeep := by
  have hshallow : (parse .script (parenthesesTokens 0) 0).program =
      .ok [.print (.literal .null 1) 1] := by with_unfolding_all rfl
  obtain ⟨after, haccepts⟩ := accepts_inParentheses maxNesting
  have hdeep : ∃ stmt ∈ [Stmt.print (inParentheses maxNesting) 1], ¬ stmt.Nests maxNesting :=
    ⟨_, List.mem_singleton_self _, not_nests_inParentheses maxNesting⟩
  exact ⟨⟨_, hshallow, (parse_nests .script _ 0).1 _ hshallow⟩, _, after, haccepts, hdeep,
    (parse_nests .script _ 0).2.2 _ _ after haccepts hdeep⟩

/-- A chain of so many assignments, with ids from the first one on. -/
def assignments (first : NodeId) : Nat → Expr
  | 0 => .literal .null 1
  | count + 1 => .assign first "a" (assignments (first + 1) count) 1

def assignmentTokens (count : Nat) : List Token :=
  (List.replicate count [.plain .identifier "a", .plain .equal "="]).flatten ++
    [.plain .nullWord "null"]

/-- The number of assignments that stand in one another as values. -/
def Expr.assigned : Expr → Nat
  | .assign _ _ value _ => value.assigned + 1
  | _ => 0

theorem spelled_assignments (first : NodeId) (count : Nat) :
    (assignments first count).Spelled (assignmentTokens count) := by
  induction count generalizing first with
  | zero => exact @Expr.Spelled.literal (.plain .nullWord "null") .null rfl
  | succ count ih =>
    exact @Expr.Spelled.assign (.plain .identifier "a") (.plain .equal "=") first _ _ rfl rfl (ih _)

theorem assignments_spec (first : NodeId) (count : Nat) :
    (assignments first count).Proper ∧ (assignments first count).depth = 0 ∧
      (assignments first count).ids = Cursor.idsFrom first count ∧
      (assignments first count).assigned = count := by
  induction count generalizing first with
  | zero => exact ⟨trivial, rfl, rfl, rfl⟩
  | succ count ih =>
    obtain ⟨hproper, hdepth, hids, hassigned⟩ := ih (first + 1)
    have hfirst : Cursor.idsFrom first (count + 1) = first :: Cursor.idsFrom (first + 1) count := by
      have hone : Cursor.idsFrom first 1 = [first] :=
        congrArg (fun id => [id]) (UInt32.add_zero first)
      rw [Nat.add_comm, Cursor.idsFrom_add, hone]
      rfl
    exact ⟨hproper, hdepth, hfirst ▸ congrArg (first :: ·) hids, congrArg (· + 1) hassigned⟩

/-- As many assignments as are written are read as values of one another. -/
theorem parse_assignments (count : Nat) :
    (parse .script (assignmentTokens (count + 1) ++ [.plain .semicolon ";"]) 0).program =
      .ok [.expression (assignments 0 (count + 1)) 1] := by
  obtain ⟨hproper, hdepth, hids, -⟩ := assignments_spec 0 (count + 1)
  have hclosed : (assignments 0 (count + 1)).Closed 1
      (assignmentTokens (count + 1) ++ [.plain .semicolon ";"]) :=
    @Expr.Closed.intro _ (.plain .identifier "a") (.plain .semicolon ";") _
      (spelled_assignments 0 (count + 1)) rfl
  have hform := Form.Spelled.expression hclosed
    (fun first hfirst => Option.some.inj hfirst ▸ by decide)
  have hlevels : (Form.expression (assignments 0 (count + 1)) 1).levels ≤ maxNesting := by
    rw [Form.levels, hdepth]
    decide
  have hlength : (assignments 0 (count + 1)).ids.length = count + 1 := by
    rw [hids, Cursor.length_idsFrom]
  have hkinds : ∀ token ∈ assignmentTokens (count + 1) ++ [.plain .semicolon ";"],
      token.kind ≠ .endOfInput := by
    intro token htoken
    simp only [assignmentTokens, List.mem_append, List.mem_flatten, List.mem_replicate,
      List.mem_singleton] at htoken
    rcases htoken with (⟨pair, ⟨-, rfl⟩, htoken⟩ | rfl) | rfl
    · simp only [List.mem_cons, List.not_mem_nil, or_false] at htoken
      rcases htoken with rfl | rfl <;> decide
    all_goals decide
  obtain ⟨after, haccepts⟩ := accepts_form hkinds hform hproper hlevels
    (by rw [Form.ids, hlength]; exact hids)
  exact parse_of_accepts haccepts

/-- A chain of assignments can be longer than the limit has levels. -/
theorem assignments_nest_beyond :
    ∃ tokens expr line, (parse .script tokens 0).program = .ok [.expression expr line] ∧
      maxNesting < expr.assigned := by
  refine ⟨_, _, _, parse_assignments 1099, ?_⟩
  rw [(assignments_spec 0 (1099 + 1)).2.2.2]
  decide

end Beyond

end CommandScript
