import CommandScript.Proofs.Grammar.Forms
import CommandScript.Proofs.Grammar.Joining

/-!
# The grammar of programs

A script is a list of declarations and statements up to the end of the input. Reading it
undoes spelling it: the tokens of a proper program are read as what the program abbreviates.
The other way round, a script that is read without faults is spelled by a proper program,
unless some statement in it begins with a command word.

* `WrittenProgram`: a proper program, its tokens and its ids.
* `parse_script_forms`: scripts and programs.
-/

namespace CommandScript

open Grammar Rule

/-- A proper program within the limit of nesting, spelled by the tokens. Its references are
numbered in the order of their tokens. -/
structure WrittenProgram (forms : List Form) (tokens : List Token) (nextId : NodeId) : Prop where
  spelled : Listed Form.Spelled forms tokens
  proper : Form.ProperAll forms
  levels : Form.levelsAll forms ≤ maxNesting
  ids : Form.idsAll forms = Cursor.idsFrom nextId (Form.idsAll forms).length

namespace Grammar

theorem Cursor.bounded_ofTokens (tokens : List Token) (nextId : NodeId) :
    (Cursor.ofTokens tokens nextId).Bounded := by
  unfold Cursor.Bounded Cursor.ofTokens
  cases hfind : tokens.find? (·.kind = .endOfInput) with
  | none => rfl
  | some token => simpa using List.find?_some hfind

theorem Cursor.nextId_ofTokens (tokens : List Token) (nextId : NodeId) :
    (Cursor.ofTokens tokens nextId).nextId = nextId :=
  UInt32.add_zero nextId

theorem gathers_program {inner : Nested} :
    Gathers inner (fun cursor => cursor.rest.isEmpty) (gatherPass atEnd inner) := by
  refine gathers_gatherPass ?_ ?_
  · intro found cursor after
    rw [accepts_atEnd, Bool.decide_eq_true]
  · intro cursor hcursor hempty
    rw [peek_of_isEmpty hcursor hempty]
    decide

end Grammar

variable {tokens : List Token} {nextId : NodeId}

theorem parse_of_written {forms : List Form}
    (h : WrittenProgram forms (tokens.takeWhile (·.kind ≠ .endOfInput)) nextId) :
    (parse .script tokens nextId).program = .ok (Form.loweredAll forms) := by
  let cursor := Cursor.ofTokens tokens nextId
  let after : Cursor := { cursor with
    rest := []
    read := cursor.read + cursor.rest.length
    drawn := cursor.drawn + (Form.idsAll forms).length }
  have hpasses : cursor.Passes after cursor.rest (Form.idsAll forms) := by
    refine ⟨(List.append_nil _).symm, rfl, ?_⟩
    rw [Cursor.nextId_ofTokens]
    exact h.ids
  obtain ⟨final, hfinal, hrun, hfaults⟩ := gathers_program.complete (reads_nested maxNesting)
    (Cursor.bounded_ofTokens tokens nextId) ⟨⟨_, hpasses, h.spelled⟩, h.proper, h.levels⟩ rfl #[]
  rw [parse_of_run hrun hfaults, hfinal]
  rfl

theorem written_of_parse {program : List Stmt}
    (hquiet : ¬ StartsCommand (tokens.takeWhile (·.kind ≠ .endOfInput)))
    (h : (parse .script tokens nextId).program = .ok program) :
    ∃ forms, WrittenProgram forms (tokens.takeWhile (·.kind ≠ .endOfInput)) nextId ∧
      program = Form.loweredAll forms := by
  obtain ⟨final, after, hrun, hfaults, rfl, -⟩ := exists_run_of_parse h
  have hbegins : Quiet [] (Cursor.ofTokens tokens nextId) :=
    ⟨balanced_nil, fun _ hlast => (nomatch hlast), hquiet⟩
  obtain ⟨forms, ⟨⟨body, hpasses, hlisted⟩, hproper, hlevels⟩, hends, hfinal⟩ :=
    gathers_program.sound (reads_nested maxNesting) (Cursor.bounded_ofTokens tokens nextId) hbegins
      ⟨hrun, hfaults⟩
  have hbody : tokens.takeWhile (·.kind ≠ .endOfInput) = body := by
    have hrest := hpasses.rest
    rw [List.isEmpty_iff.mp hends, List.append_nil] at hrest
    exact hrest
  have hids := hpasses.ids
  rw [Cursor.nextId_ofTokens] at hids
  exact ⟨forms, ⟨hbody ▸ hlisted, hproper, hlevels, hids⟩, hfinal⟩

/-- **The statement grammar is read exactly, and `for` is lowered.** The tokens of every proper
program are read as the statements that the program abbreviates, without a fault. And if no
statement begins with a command word, then every script that is read without a fault is
spelled by a proper program that abbreviates the result. -/
theorem parse_script_forms (tokens : List Token) (nextId : NodeId) :
    (∀ forms, WrittenProgram forms (tokens.takeWhile (·.kind ≠ .endOfInput)) nextId →
      (parse .script tokens nextId).program = .ok (Form.loweredAll forms)) ∧
    (¬ StartsCommand (tokens.takeWhile (·.kind ≠ .endOfInput)) →
      ∀ program, (parse .script tokens nextId).program = .ok program →
        ∃ forms, WrittenProgram forms (tokens.takeWhile (·.kind ≠ .endOfInput)) nextId ∧
          program = Form.loweredAll forms) :=
  ⟨fun _ => parse_of_written, fun hquiet _ => written_of_parse hquiet⟩

/-- `if (a) for (;; b) c; else { var d; }` has its `for` lowered, and only this program is
spelled so. -/
theorem parse_script_forms_of_for :
    let name (text : String) : Token := ⟨.identifier, text, none, 1⟩
    let mark (kind : TokenKind) (text : String) : Token := ⟨kind, text, none, 1⟩
    let body := [mark .ifWord "if", mark .leftParen "(", name "a", mark .rightParen ")",
      mark .forWord "for", mark .leftParen "(", mark .semicolon ";", mark .semicolon ";", name "b",
      mark .rightParen ")", name "c", mark .semicolon ";", mark .elseWord "else",
      mark .leftBrace "\x7b", mark .varWord "var", name "d", mark .semicolon ";",
      mark .rightBrace "\x7d"]
    let tokens := body ++ [Token.endOfInput 1]
    let forms : List Form := [.choice (.variable 7 "a" 1)
      (.iteration .absent none (some (.variable 8 "b" 1)) (.expression (.variable 9 "c" 1) 1) 1)
      (.block [.declared ⟨"d", none, 1⟩]) 1]
    let program : List Stmt := [.branch (.variable 7 "a" 1)
      (.loop (.literal (.bool true) 1)
        (.block [.expression (.variable 9 "c" 1) 1, .expression (.variable 8 "b" 1) 1]) 1)
      (some (.block [.declare "d" none 1])) 1]
    WrittenProgram forms (tokens.takeWhile (·.kind ≠ .endOfInput)) 7 ∧
      (parse .script tokens 7).program = .ok program ∧
      ¬ StartsCommand (tokens.takeWhile (·.kind ≠ .endOfInput)) ∧
      ∃ forms, WrittenProgram forms (tokens.takeWhile (·.kind ≠ .endOfInput)) 7 ∧
        program = Form.loweredAll forms := by
  intro name mark body tokens forms program
  have hvariable (text : String) (id : NodeId) : (Expr.variable id text 1).Spelled [name text] :=
    @Expr.Spelled.variable (name text) id rfl
  have hstatement : (Form.expression (.variable 9 "c" 1) 1).Spelled
      [name "c", mark .semicolon ";"] :=
    .expression (@Expr.Closed.intro _ (name "c") (mark .semicolon ";") [] (hvariable "c" 9) rfl)
      (fun first hfirst => Option.some.inj hfirst ▸ by decide)
  have hfor := @Form.Spelled.iteration (mark .forWord "for") (mark .leftParen "(")
    (mark .semicolon ";") (mark .rightParen ")") .absent none (some (.variable 8 "b" 1)) _ _ _ _ _
    rfl rfl (@ForStart.Spelled.absent (mark .semicolon ";") rfl) rfl rfl (hvariable "b" 8) rfl
    hstatement
  have hdeclared := @Form.Spelled.declared (mark .varWord "var") _ _ rfl
    (@VariableDecl.Spelled.bare (name "d") (mark .semicolon ";") rfl rfl)
  have hblock := @Form.Spelled.block (mark .leftBrace "\x7b") (mark .rightBrace "\x7d") _ _ rfl
    (.more hdeclared .none) rfl
  have hchoice := @Form.Spelled.choice (mark .ifWord "if") (mark .leftParen "(")
    (mark .rightParen ")") (mark .elseWord "else") _ _ _ _ _ _ rfl rfl (hvariable "a" 7) rfl hfor
    rfl hblock
  have hwritten : WrittenProgram forms (tokens.takeWhile (·.kind ≠ .endOfInput)) 7 :=
    ⟨.more hchoice .none,
      by simp [forms, Form.ProperAll, Form.Proper, Form.IsDeclaration, Form.Open,
        ForStart.Proper, optionProper, Expr.Proper], by decide, rfl⟩
  have hprogram := (parse_script_forms tokens 7).1 forms hwritten
  have hquiet : ¬ StartsCommand (tokens.takeWhile (·.kind ≠ .endOfInput)) := by
    rintro ⟨before, word, after, heq, hword, -⟩
    have hnone : ∀ token ∈ tokens.takeWhile (·.kind ≠ .endOfInput), token.kind ≠ .command := by
      decide
    exact hnone word (heq ▸ List.mem_append_right _ List.mem_cons_self) hword
  exact ⟨hwritten, hprogram, hquiet, (parse_script_forms tokens 7).2 hquiet program hprogram⟩

end CommandScript
