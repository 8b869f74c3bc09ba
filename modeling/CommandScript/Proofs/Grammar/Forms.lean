import CommandScript.Grammar.Program
import CommandScript.Proofs.Grammar.Statements
import CommandScript.Proofs.Syntax.Balance

/-!
# The grammar of statements

With some levels of nesting left, the rules of statements and blocks read exactly the proper
forms that need no more levels, and give what the forms abbreviate. Each rule reads its
smaller statements by the rules of one level less, so the proof goes by induction on the
levels. A form that is open towards an `else` is read only where no `else` follows.

Commands are statements too, but no forms: a rule reads a form for sure only where no command
word stands at the beginning of a statement. To know this inside of a statement, the tokens
before it are kept along.

* `Form.Stands`: a form stands between two cursors.
* `Quiet`: a statement begins here, and from here on no statement begins with a command word.
* `ReadsStatement`, `ReadsBlock`: a rule reads exactly the forms.
* `reads_nested`: all levels.
-/

namespace CommandScript

open Grammar Rule

/-- A proper form that needs at most some levels stands between the cursors. -/
structure Form.Stands (levels : Nat) (form : Form) (before after : Cursor) : Prop where
  tokens : ∃ tokens, before.Passes after tokens form.ids ∧ form.Spelled tokens
  proper : form.Proper
  levels : form.levels ≤ levels
  closed : form.Open → after.peek.kind ≠ .elseWord

structure Form.ListStands (levels : Nat) (forms : List Form) (before after : Cursor) : Prop where
  tokens : ∃ tokens, before.Passes after tokens (Form.idsAll forms) ∧
    Listed Form.Spelled forms tokens
  proper : Form.ProperAll forms
  levels : Form.levelsAll forms ≤ levels

/-- After these tokens a statement begins at the cursor, and no statement begins with a
command word. -/
structure Quiet (tokens : List Token) (cursor : Cursor) : Prop where
  balanced : Balanced tokens
  opens : ∀ last ∈ tokens.getLast?, OpensStatement last.kind
  starts : ¬ StartsCommand (tokens ++ cursor.rest)

namespace Quiet

variable {tokens others : List Token} {cursor after : Cursor}

theorem not_command (h : Quiet tokens cursor) (hcursor : cursor.Bounded) :
    cursor.peek.kind ≠ .command := by
  intro hkind
  obtain ⟨rest, hrest⟩ := Cursor.exists_rest_of_peek hcursor hkind (by decide)
  exact h.starts ⟨tokens, _, rest, by rw [hrest], hkind, h.balanced, h.opens⟩

theorem next (h : Quiet tokens cursor) {ids : List NodeId}
    (hpasses : cursor.Passes after others ids)
    (hothers : Opening others) : Quiet (tokens ++ others) after where
  balanced := h.balanced.append hothers.balanced
  opens := by
    obtain ⟨first, last, rfl, hlast⟩ := hothers.last
    intro found hfound
    rw [← List.append_assoc, List.getLast?_concat] at hfound
    exact Option.some.inj hfound ▸ hlast
  starts := by
    rw [List.append_assoc, ← hpasses.rest]
    exact h.starts

end Quiet

namespace Grammar

/-- The rule reads exactly the forms that are no declarations. -/
structure ReadsStatement (levels : Nat) (rule : Rule Stmt) : Prop where
  sound : ∀ {tokens cursor stmt after}, cursor.Bounded → Quiet tokens cursor →
    rule.Accepts cursor stmt after →
    ∃ form, Form.Stands levels form cursor after ∧ ¬ form.IsDeclaration ∧ stmt = form.lowered
  complete : ∀ {form cursor after}, cursor.Bounded → Form.Stands levels form cursor after →
    ¬ form.IsDeclaration → rule.Accepts cursor form.lowered after

/-- The rule reads exactly the forms up to a closing brace. -/
structure ReadsBlock (levels : Nat) (rule : Rule (List Stmt)) : Prop where
  sound : ∀ {tokens cursor body after}, cursor.Bounded → Quiet tokens cursor →
    rule.Accepts cursor body after →
    ∃ forms closing middle inside, levels = inside + 1 ∧
      Form.ListStands inside forms cursor middle ∧ closing.kind = .rightBrace ∧
      middle.Passes after [closing] [] ∧ body = Form.loweredAll forms
  complete : ∀ {forms closing cursor middle after inside}, levels = inside + 1 → cursor.Bounded →
    Form.ListStands inside forms cursor middle → closing.kind = .rightBrace →
    middle.Passes after [closing] [] → rule.Accepts cursor (Form.loweredAll forms) after

/-- The rules of one level. -/
structure ReadsForms (levels : Nat) (rules : Nested) : Prop where
  expression : rules.expression.ReadsExpr 0 levels
  statement : ReadsStatement levels rules.statement
  block : ReadsBlock levels rules.block

section Level

variable {inner : Nested} {levels : Nat} {cursor after : Cursor} {stmt : Stmt}
  {tokens : List Token}

/-! ## Declarations -/

theorem form_of_function (h : ReadsForms levels inner) (hcursor : cursor.Bounded)
    (hquiet : Quiet tokens cursor) {word : Token} {middle : Cursor} (hword : word.kind = .funWord)
    (htoken : cursor.Passes middle [word] [])
    (hrun : (functionDeclaration inner).Accepts middle stmt after) :
    ∃ form, Form.Stands levels form cursor after ∧ stmt = form.lowered := by
  obtain ⟨name, opening, params, heads, closing, brace, start, body, hstart, hname, hopening,
    hparams, hlength, hclosing, hbrace, hpasses, hbody, rfl⟩ :=
    (accepts_functionDeclaration (htoken.bounded hcursor)).mp hrun
  have hheader := opening_header hword hname hopening hparams hclosing
  have hbegins : cursor.Passes start ([word, name, opening] ++ (heads ++ [closing]) ++ [brace])
      [] := by
    simpa using htoken.trans hpasses
  obtain ⟨forms, last, ends, inside, rfl, ⟨⟨others, hothers, hlisted⟩, hproper, hlevels⟩, hlast,
    hend, rfl⟩ := h.block.sound hstart
      (hquiet.next hbegins (.ended hheader.balanced (by rw [hbrace]; decide))) hbody
  refine ⟨.function name.lexeme params forms name.line, ⟨⟨_, ?_, .function hword hname hopening
    hparams hclosing hbrace hlisted hlast⟩, ⟨hlength, hproper⟩, Nat.succ_le_succ hlevels,
    False.elim⟩, rfl⟩
  simpa [Form.ids] using hbegins.trans (hothers.trans hend)

theorem form_of_declaration (h : ReadsForms levels inner) (hcursor : cursor.Bounded)
    (hquiet : Quiet tokens cursor) (hrun : (declaration inner).Accepts cursor (some stmt) after) :
    ∃ form, Form.Stands levels form cursor after ∧ stmt = form.lowered := by
  obtain ⟨found, hfound, hcases⟩ := (accepts_declaration hcursor).mp hrun
  obtain rfl := Option.some.inj hfound
  rcases hcases with ⟨word, middle, -, hword, htoken, hrest⟩ |
    ⟨word, middle, hmiddle, hword, htoken, hrest⟩ | ⟨-, -, hrest⟩
  · exact form_of_function h hcursor hquiet hword htoken hrest
  · obtain ⟨decl, others, ⟨hspelled, hproper, hlevels⟩, hpasses, rfl⟩ :=
      (accepts_variableDeclaration h.expression hmiddle).mp hrest
    exact ⟨.declared decl, ⟨⟨_, htoken.trans hpasses, .declared hword hspelled⟩, hproper, hlevels,
      False.elim⟩, rfl⟩
  · obtain ⟨form, hform, -, rfl⟩ := h.statement.sound hcursor hquiet hrest
    exact ⟨form, hform, rfl⟩

theorem accepts_declaration_of_form (h : ReadsForms levels inner) (hcursor : cursor.Bounded)
    {form : Form} (hform : Form.Stands levels form cursor after) :
    (declaration inner).Accepts cursor (some form.lowered) after := by
  refine (accepts_declaration hcursor).mpr ⟨_, rfl, ?_⟩
  by_cases hdeclaration : form.IsDeclaration
  · obtain ⟨⟨others, hpasses, hspelled⟩, hproper, hlevels, -⟩ := hform
    cases hspelled with
    | @function word name opening closing brace last params body heads inside hword hname hopening
        hparams hclosing hbrace hbody hlast =>
      have hparts : cursor.Passes after (word :: ((name :: opening :: ((heads ++ [closing]) ++
          [brace])) ++ (inside ++ [last]))) (Form.idsAll body) := by
        simpa [Form.ids] using hpasses
      obtain ⟨middle, htoken, hparts⟩ := hparts.uncons
      obtain ⟨start, hheader, hparts⟩ := hparts.split_first
      obtain ⟨ends, hinside, hend⟩ := hparts.split_last
      have hmiddle := htoken.bounded hcursor
      have hstart := hheader.bounded hmiddle
      obtain ⟨hlength, hproper⟩ := hproper
      obtain ⟨depth, rfl⟩ := Nat.exists_eq_add_one_of_ne_zero (Nat.ne_zero_of_lt hlevels)
      have hblock := h.block.complete rfl hstart ⟨⟨inside, hinside, hbody⟩, hproper,
        Nat.le_of_succ_le_succ hlevels⟩ hlast hend
      exact .inl ⟨word, middle, hmiddle, hword, htoken, (accepts_functionDeclaration hmiddle).mpr
        ⟨name, opening, params, heads, closing, brace, start, _, hstart, hname, hopening, hparams,
          hlength, hclosing, hbrace, hheader, hblock, rfl⟩⟩
    | @declared word decl others hword hspelled =>
      obtain ⟨middle, htoken, hpasses⟩ := hpasses.uncons
      have hmiddle := htoken.bounded hcursor
      exact .inr (.inl ⟨word, middle, hmiddle, hword, htoken,
        (accepts_variableDeclaration h.expression hmiddle).mpr
          ⟨decl, others, ⟨hspelled, hproper, hlevels⟩, hpasses, rfl⟩⟩)
    | _ => exact hdeclaration.elim
  · obtain ⟨others, hpasses, hspelled⟩ := hform.tokens
    obtain ⟨first, rest, rfl, -, hfirst⟩ := hspelled.begins
    rw [hpasses.peek]
    refine .inr (.inr ⟨?_, ?_, h.statement.complete hcursor hform hdeclaration⟩)
    all_goals
      intro hkind
      exact hdeclaration (hfirst (by rw [hkind]; decide))

/-! ## Lists of declarations -/

/-- An `else` stands before a list of forms only if the list is empty. -/
theorem not_else_of_listed {forms : List Form}
    (hpasses : cursor.Passes after tokens (Form.idsAll forms))
    (hlisted : Listed Form.Spelled forms tokens) (hafter : after.peek.kind ≠ .elseWord) :
    cursor.peek.kind ≠ .elseWord := by
  cases hlisted with
  | none =>
    obtain rfl := hpasses.eq_of_nil
    exact hafter
  | more hspelled _ =>
    obtain ⟨first, rest, rfl, hkinds, -⟩ := hspelled.begins
    rw [hpasses.peek]
    exact fun hkind => hkinds (by rw [hkind]; decide)

/-- A pass reads one more declaration, or the list ends. -/
structure Gathers (inner : Nested) (ends : Cursor → Prop)
    (pass : Array Stmt → Rule (Pass (Array Stmt))) : Prop where
  kind : ∀ cursor, cursor.Bounded → ends cursor →
    cursor.peek.kind ∈ [TokenKind.rightBrace, .endOfInput]
  last : ∀ {body final cursor after}, cursor.Bounded →
    ((pass body).Accepts cursor (.last final) after ↔
      ends cursor ∧ final = body ∧ after = cursor)
  again : ∀ {body next cursor after}, cursor.Bounded →
    ((pass body).Accepts cursor (.again next) after ↔
      ¬ ends cursor ∧ ∃ stmt, (declaration inner).Accepts cursor (some stmt) after ∧
        next = body.push stmt)

section Lists

variable {ends : Cursor → Prop} {pass : Array Stmt → Rule (Pass (Array Stmt))}
  {body final : Array Stmt}

theorem Gathers.sound (hpass : Gathers inner ends pass) (h : ReadsForms levels inner)
    (hcursor : cursor.Bounded) (hquiet : Quiet tokens cursor)
    (hrun : (repeated pass body).Accepts cursor final after) :
    ∃ forms, Form.ListStands levels forms cursor after ∧ ends after ∧
      final.toList = body.toList ++ Form.loweredAll forms := by
  induction hlength : cursor.rest.length using Nat.strongRecOn generalizing cursor body tokens with
  | _ length ih =>
    subst hlength
    rcases accepts_repeated.mp hrun with hlast | ⟨next, middle, hagain, hrest⟩
    · obtain ⟨hends, rfl, rfl⟩ := (hpass.last hcursor).mp hlast
      exact ⟨[], ⟨⟨[], .refl _, .none⟩, trivial, Nat.zero_le _⟩, hends, (List.append_nil _).symm⟩
    · obtain ⟨-, stmt, hstmt, rfl⟩ := (hpass.again hcursor).mp hagain
      obtain ⟨form, hform, rfl⟩ := form_of_declaration h hcursor hquiet hstmt
      obtain ⟨others, hpasses, hspelled⟩ := hform.tokens
      obtain ⟨first, rest, rfl, -⟩ := hspelled.begins
      have hread := hpasses.length_lt (List.cons_ne_nil _ _)
      rw [if_pos hread] at hrest
      obtain ⟨forms, ⟨⟨more, hmore, hlisted⟩, hproper, hlevels⟩, hends, hfinal⟩ :=
        ih _ ((leadsTo_of_run hagain.1).length_lt hread) (hpasses.bounded hcursor)
          (hquiet.next hpasses hspelled.opening) hrest rfl
      refine ⟨form :: forms, ⟨⟨_, hpasses.trans hmore, .more hspelled hlisted⟩,
        ⟨hform.proper, hproper⟩, Nat.max_le.mpr ⟨hform.levels, hlevels⟩⟩, hends, ?_⟩
      rw [hfinal, Array.toList_push, List.append_assoc]
      rfl

theorem Gathers.complete (hpass : Gathers inner ends pass) (h : ReadsForms levels inner)
    (hcursor : cursor.Bounded) {forms : List Form}
    (hforms : Form.ListStands levels forms cursor after) (hends : ends after)
    (body : Array Stmt) :
    ∃ final, final.toList = body.toList ++ Form.loweredAll forms ∧
      (repeated pass body).Accepts cursor final after := by
  obtain ⟨⟨tokens, hpasses, hlisted⟩, hproper, hlevels⟩ := hforms
  induction forms generalizing cursor body tokens with
  | nil =>
    cases hlisted
    obtain rfl := hpasses.eq_of_nil
    exact ⟨body, (List.append_nil _).symm,
      accepts_repeated.mpr (.inl ((hpass.last hcursor).mpr ⟨hends, rfl, rfl⟩))⟩
  | cons form forms ih =>
    cases hlisted with
    | @more _ _ tokens others hspelled hlisted =>
      obtain ⟨middle, hfirst, hrest⟩ := Cursor.Passes.split hpasses
      have hmiddle := hfirst.bounded hcursor
      obtain ⟨hformLevels, hlevels⟩ := Nat.max_le.mp hlevels
      have hnext : middle.peek.kind ≠ .elseWord := by
        refine not_else_of_listed hrest hlisted fun hkind => ?_
        have hmem := hpass.kind after (hrest.bounded hmiddle) hends
        rw [hkind] at hmem
        exact absurd hmem (by decide)
      have hform : Form.Stands levels form cursor middle :=
        ⟨⟨tokens, hfirst, hspelled⟩, hproper.1, hformLevels, fun _ => hnext⟩
      obtain ⟨final, hfinal, hrun⟩ := ih hmiddle (body.push form.lowered) hproper.2 hlevels others
        hrest hlisted
      obtain ⟨first, rest, rfl, hkinds, -⟩ := hspelled.begins
      have hgoes : ¬ ends cursor := fun hstop => by
        have hmem := hpass.kind cursor hcursor hstop
        rw [hfirst.peek] at hmem
        exact hkinds (List.mem_cons_of_mem _ hmem)
      refine ⟨final, by rw [hfinal, Array.toList_push, List.append_assoc]; rfl, ?_⟩
      exact accepts_again ((hpass.again hcursor).mpr ⟨hgoes, _,
        accepts_declaration_of_form h hcursor hform, rfl⟩)
        (hfirst.length_lt (List.cons_ne_nil _ _)) hrun

/-- A test whether the list ends, and a declaration if it does not. -/
def gatherPass (test : Rule Bool) (inner : Nested) (body : Array Stmt) :
    Rule (Pass (Array Stmt)) := do
  if ← test then return .last body
  match ← declaration inner with
  | some stmt => return .again (body.push stmt)
  | none => return .again body

theorem gathers_gatherPass [DecidablePred ends] {test : Rule Bool}
    (htest : ∀ {found cursor after}, test.Accepts cursor found after ↔
      found = decide (ends cursor) ∧ after = cursor)
    (hkind : ∀ cursor, cursor.Bounded → ends cursor →
      cursor.peek.kind ∈ [TokenKind.rightBrace, .endOfInput]) :
    Gathers inner ends (gatherPass test inner) where
  kind := hkind
  last {body final cursor after} hcursor := by
    unfold gatherPass
    rw [accepts_bind]
    constructor
    · rintro ⟨found, middle, hfound, hrest⟩
      obtain ⟨rfl, rfl⟩ := htest.mp hfound
      split at hrest
      · rename_i hends
        obtain ⟨hfinal, rfl⟩ := accepts_pure.mp hrest
        exact ⟨of_decide_eq_true hends, Pass.last.inj hfinal, rfl⟩
      · obtain ⟨found, middle, -, hrest⟩ := accepts_bind.mp hrest
        split at hrest <;> cases (accepts_pure.mp hrest).1
    · rintro ⟨hends, rfl, rfl⟩
      refine ⟨true, after, htest.mpr ⟨(decide_eq_true hends).symm, rfl⟩, ?_⟩
      exact accepts_pure.mpr ⟨rfl, rfl⟩
  again {body next cursor after} hcursor := by
    unfold gatherPass
    rw [accepts_bind]
    constructor
    · rintro ⟨found, middle, hfound, hrest⟩
      obtain ⟨rfl, rfl⟩ := htest.mp hfound
      split at hrest
      · cases (accepts_pure.mp hrest).1
      · rename_i hends
        obtain ⟨found, middle, hstmt, hrest⟩ := accepts_bind.mp hrest
        obtain ⟨stmt, rfl, -⟩ := (accepts_declaration hcursor).mp hstmt
        obtain ⟨hnext, rfl⟩ := accepts_pure.mp hrest
        exact ⟨fun hstop => hends (decide_eq_true hstop), stmt, hstmt, Pass.again.inj hnext⟩
    · rintro ⟨hends, stmt, hstmt, rfl⟩
      refine ⟨false, cursor, htest.mpr ⟨(decide_eq_false hends).symm, rfl⟩, ?_⟩
      exact accepts_bind.mpr ⟨some stmt, after, hstmt, accepts_pure.mpr ⟨rfl, rfl⟩⟩

end Lists

/-! ## Blocks -/

/-- A block ends before a closing brace or at the end of the tokens. -/
def EndsBlock (cursor : Cursor) : Prop := cursor.peek.kind = .rightBrace ∨ cursor.rest.isEmpty

instance : DecidablePred EndsBlock := fun _ => inferInstanceAs (Decidable (_ ∨ _))

theorem peek_of_isEmpty (hcursor : cursor.Bounded) (h : cursor.rest.isEmpty) :
    cursor.peek.kind = .endOfInput := by
  rw [Cursor.peek, List.isEmpty_iff.mp h]
  exact hcursor

theorem blockBody_eq : blockBody inner = (do
    let body ← repeated
      (gatherPass (do return (← check .rightBrace) || (← atEnd)) inner) #[]
    let _ ← require .rightBrace "'\x7d' after block"
    return body.toList) :=
  rfl

theorem gathers_block : Gathers inner EndsBlock
    (gatherPass (do return (← check .rightBrace) || (← atEnd)) inner) := by
  refine gathers_gatherPass ?_ ?_
  · intro found cursor after
    have hends : decide (EndsBlock cursor) =
        (decide (cursor.peek.kind = .rightBrace) || cursor.rest.isEmpty) := by
      rw [Bool.eq_iff_iff]
      simp [EndsBlock]
    rw [accepts_check_bind, accepts_atEnd_bind, accepts_pure, hends]
  · rintro cursor hcursor (hkind | hempty)
    · rw [hkind]
      decide
    · rw [peek_of_isEmpty hcursor hempty]
      decide

theorem readsBlock_blockBody (h : ReadsForms levels inner) :
    ReadsBlock (levels + 1) (blockBody inner) where
  sound {tokens cursor body after} hcursor hquiet hrun := by
    rw [blockBody_eq] at hrun
    obtain ⟨final, middle, hrest, hrun⟩ := accepts_bind.mp hrun
    obtain ⟨closing, _, -, hclosing, hend, hpure⟩ :=
      (accepts_require_bind (hrest.bounded hcursor) (by decide)).mp hrun
    obtain ⟨rfl, rfl⟩ := accepts_pure.mp hpure
    obtain ⟨forms, hforms, -, hfinal⟩ := gathers_block.sound h hcursor hquiet hrest
    exact ⟨forms, closing, middle, levels, rfl, hforms, hclosing, hend, hfinal⟩
  complete {forms closing cursor middle after inside} hinside hcursor hforms hclosing hend := by
    obtain rfl := Nat.succ.inj hinside
    have hends : EndsBlock middle := .inl (by rw [hend.peek, hclosing])
    obtain ⟨final, hfinal, hrest⟩ := gathers_block.complete h hcursor hforms hends #[]
    rw [blockBody_eq]
    refine accepts_bind.mpr ⟨final, middle, hrest, ?_⟩
    refine (accepts_require_bind (hrest.bounded hcursor) (by decide)).mpr
      ⟨closing, after, hend.bounded (hrest.bounded hcursor), hclosing, hend, ?_⟩
    exact accepts_pure.mpr ⟨hfinal.symm, rfl⟩

/-! ## Statements -/

/-- The rest of a statement after the word that tells its kind. -/
def afterWord (inner : Nested) (word : Token) : Option (Rule Stmt) :=
  match word.kind with
  | .forWord => some (forStatement inner word.line)
  | .ifWord => some (ifStatement inner word.line)
  | .printWord => some (printStatement inner .script word.line)
  | .returnWord => some (returnStatement inner word.line)
  | .whileWord => some (whileStatement inner word.line)
  | .leftBrace => some (.block <$> inner.block)
  | .command => some (.command <$> command inner.expression word)
  | _ => none

theorem statement_eq : statement inner .script = (do
    let token ← peek
    match afterWord inner token with
    | some rest =>
      skip
      rest
    | none => expressionStatement inner) := by
  unfold statement afterWord
  congr 1
  funext token
  cases token.kind <;> rfl

theorem accepts_statement_word (hcursor : cursor.Bounded) {rest : Rule Stmt}
    (hrest : afterWord inner cursor.peek = some rest) :
    (statement inner .script).Accepts cursor stmt after ↔
      ∃ middle, middle.Bounded ∧ cursor.Passes middle [cursor.peek] [] ∧
        rest.Accepts middle stmt after := by
  have hne : cursor.peek.kind ≠ .endOfInput := by
    intro hkind
    unfold afterWord at hrest
    rw [hkind] at hrest
    cases hrest
  rw [statement_eq, accepts_peek_bind, hrest]
  exact accepts_skip_bind hcursor hne

theorem accepts_statement_none (hnone : afterWord inner cursor.peek = none) :
    (statement inner .script).Accepts cursor stmt after ↔
      (expressionStatement inner).Accepts cursor stmt after := by
  rw [statement_eq, accepts_peek_bind, hnone]

theorem forLoop_eq {start : ForStart} {condition increment : Option Expr} {body : Form}
    {line : Nat} :
    forLoop start.lowered? (condition.getD (.literal (.bool true) line)) increment body.lowered
      line = (Form.iteration start condition increment body line).lowered := by
  simp only [forLoop, Form.lowered]
  cases start.lowered? <;> cases increment <;> rfl

section Words

variable {middle : Cursor} {word : Token}

theorem form_of_for (h : ReadsForms levels inner) (hquiet : Quiet tokens cursor)
    (hword : word.kind = .forWord) (htoken : cursor.Passes middle [word] [])
    (hmiddle : middle.Bounded) (hrun : (forStatement inner word.line).Accepts middle stmt after) :
    ∃ form, Form.Stands (levels + 1) form cursor after ∧ ¬ form.IsDeclaration ∧
      stmt = form.lowered := by
  obtain ⟨start, condition, increment, first, second, third, opening, semicolon, closing, behind,
    body, hbehind, hopening, hstart, hcondition, hsemicolon, hincrement, hclosing, hpasses, hbody,
    rfl⟩ := (accepts_forStatement h.expression hmiddle).mp hrun
  have hclauses : cursor.Passes behind
      ([word, opening] ++ (first ++ (second ++ [semicolon]) ++ (third ++ [closing])))
      (start.ids ++ (optionIds condition ++ optionIds increment)) := by
    simpa using htoken.trans hpasses
  obtain ⟨form, hform, hstatement, rfl⟩ := h.statement.sound hbehind
    (hquiet.next hclauses (opening_clauses hword hopening hstart.spelled hcondition.spelled
      hsemicolon hincrement.spelled hclosing)) hbody
  obtain ⟨others, hothers, hspelled⟩ := hform.tokens
  refine ⟨.iteration start condition increment form word.line, ⟨⟨_, ?_, .iteration hword hopening
    hstart.spelled hcondition.spelled hsemicolon hincrement.spelled hclosing hspelled⟩,
    ⟨hstart.proper, hcondition.proper, hincrement.proper, hstatement, hform.proper⟩,
    Nat.succ_le_succ ?_, hform.closed⟩, id, forLoop_eq⟩
  · simpa [Form.ids] using hclauses.trans hothers
  · exact Nat.max_le.mpr ⟨hstart.levels, Nat.max_le.mpr ⟨hcondition.levels,
      Nat.max_le.mpr ⟨hincrement.levels, hform.levels⟩⟩⟩

theorem form_of_if (h : ReadsForms levels inner) (hquiet : Quiet tokens cursor)
    (hword : word.kind = .ifWord) (htoken : cursor.Passes middle [word] [])
    (hmiddle : middle.Bounded) (hrun : (ifStatement inner word.line).Accepts middle stmt after) :
    ∃ form, Form.Stands (levels + 1) form cursor after ∧ ¬ form.IsDeclaration ∧
      stmt = form.lowered := by
  obtain ⟨condition, head, opening, closing, start, body, behind, hstart, hopening, hcondition,
    hclosing, hpasses, hbody, hend⟩ := (accepts_ifStatement h.expression hmiddle).mp hrun
  have hhead : cursor.Passes start ([word, opening] ++ (head ++ [closing])) condition.ids := by
    simpa using htoken.trans hpasses
  have hquiet' := hquiet.next hhead
    (.parens hcondition.spelled.balanced (by rw [hword]; decide) hopening hclosing)
  obtain ⟨form, hform, hstatement, rfl⟩ := h.statement.sound hstart hquiet' hbody
  obtain ⟨others, hothers, hspelled⟩ := hform.tokens
  rcases hend with ⟨hne, rfl, rfl⟩ | ⟨other, between, elseBranch, hother, htoken', helse, rfl⟩
  · refine ⟨.branch condition form word.line, ⟨⟨_, ?_, .branch hword hopening hcondition.spelled
      hclosing hspelled⟩, ⟨hcondition.proper, hstatement, hform.proper⟩, Nat.succ_le_succ
      (Nat.max_le.mpr ⟨hcondition.depth, hform.levels⟩), fun _ => hne⟩, id, rfl⟩
    exact hhead.trans hothers
  · have hbehind := hothers.bounded hstart
    have hopened : ¬ form.Open := fun hopen => hform.closed hopen (by rw [htoken'.peek, hother])
    obtain ⟨elseForm, helseForm, helseStatement, rfl⟩ := h.statement.sound
      (htoken'.bounded hbehind) ((hquiet'.next hothers hspelled.opening).next htoken'
        (.ended balanced_nil (by rw [hother]; decide))) helse
    obtain ⟨more, hmore, hspelled'⟩ := helseForm.tokens
    refine ⟨.choice condition form elseForm word.line, ⟨⟨_, ?_, .choice hword hopening
      hcondition.spelled hclosing hspelled hother hspelled'⟩, ⟨hcondition.proper,
      ⟨hstatement, hopened, hform.proper⟩, helseStatement, helseForm.proper⟩, Nat.succ_le_succ
      (Nat.max_le.mpr ⟨hcondition.depth, Nat.max_le.mpr ⟨hform.levels, helseForm.levels⟩⟩),
      helseForm.closed⟩, id, rfl⟩
    exact hhead.trans (hothers.trans (htoken'.trans hmore))

theorem form_of_while (h : ReadsForms levels inner) (hquiet : Quiet tokens cursor)
    (hword : word.kind = .whileWord) (htoken : cursor.Passes middle [word] [])
    (hmiddle : middle.Bounded) (hrun : (whileStatement inner word.line).Accepts middle stmt after) :
    ∃ form, Form.Stands (levels + 1) form cursor after ∧ ¬ form.IsDeclaration ∧
      stmt = form.lowered := by
  obtain ⟨condition, head, opening, closing, start, body, hstart, hopening, hcondition, hclosing,
    hpasses, hbody, rfl⟩ := (accepts_whileStatement h.expression hmiddle).mp hrun
  have hhead : cursor.Passes start ([word, opening] ++ (head ++ [closing])) condition.ids := by
    simpa using htoken.trans hpasses
  obtain ⟨form, hform, hstatement, rfl⟩ := h.statement.sound hstart (hquiet.next hhead
    (.parens hcondition.spelled.balanced (by rw [hword]; decide) hopening hclosing)) hbody
  obtain ⟨others, hothers, hspelled⟩ := hform.tokens
  exact ⟨.loop condition form word.line, ⟨⟨_, hhead.trans hothers, .loop hword hopening
    hcondition.spelled hclosing hspelled⟩, ⟨hcondition.proper, hstatement, hform.proper⟩,
    Nat.succ_le_succ (Nat.max_le.mpr ⟨hcondition.depth, hform.levels⟩), hform.closed⟩, id, rfl⟩

theorem form_of_block (h : ReadsForms levels inner) (hquiet : Quiet tokens cursor)
    (hword : word.kind = .leftBrace) (htoken : cursor.Passes middle [word] [])
    (hmiddle : middle.Bounded) {body : List Stmt} (hrun : inner.block.Accepts middle body after) :
    ∃ form, Form.Stands (levels + 1) form cursor after ∧ ¬ form.IsDeclaration ∧
      .block body = form.lowered := by
  obtain ⟨forms, closing, behind, inside, rfl, ⟨⟨others, hothers, hlisted⟩, hproper, hlevels⟩,
    hclosing, hend, rfl⟩ := h.block.sound hmiddle
      (hquiet.next htoken (.ended balanced_nil (by rw [hword]; decide))) hrun
  refine ⟨.block forms, ⟨⟨_, ?_, .block hword hlisted hclosing⟩, hproper,
    Nat.succ_le_succ (Nat.succ_le_succ hlevels), False.elim⟩, id, rfl⟩
  simpa [Form.ids] using htoken.trans (hothers.trans hend)

end Words

theorem form_of_statement (h : ReadsForms levels inner) (hcursor : cursor.Bounded)
    (hquiet : Quiet tokens cursor) (hrun : (statement inner .script).Accepts cursor stmt after) :
    ∃ form, Form.Stands (levels + 1) form cursor after ∧ ¬ form.IsDeclaration ∧
      stmt = form.lowered := by
  cases hrest : afterWord inner cursor.peek with
  | none =>
    obtain ⟨expr, line, others, hclosed, hproper, hdepth, hpasses, rfl⟩ :=
      (accepts_expressionStatement h.expression hcursor).mp ((accepts_statement_none hrest).mp hrun)
    refine ⟨.expression expr line, ⟨⟨others, hpasses, .expression hclosed fun first hfirst => ?_⟩,
      hproper, Nat.succ_le_succ hdepth, False.elim⟩, id, rfl⟩
    obtain ⟨found, rest, rfl, -⟩ := begins_closed hclosed
    obtain rfl := Option.some.inj hfirst
    exact hpasses.peek ▸ hquiet.not_command hcursor
  | some rest =>
    obtain ⟨middle, hmiddle, htoken, hrun⟩ := (accepts_statement_word hcursor hrest).mp hrun
    unfold afterWord at hrest
    split at hrest <;> cases hrest
    case h_1 hword => exact form_of_for h hquiet hword htoken hmiddle hrun
    case h_2 hword => exact form_of_if h hquiet hword htoken hmiddle hrun
    case h_3 hword =>
      obtain ⟨expr, others, closing, hwritten, hclosing, hpasses, rfl⟩ :=
        (accepts_printStatement h.expression hmiddle).mp hrun
      exact ⟨.print expr _, ⟨⟨_, htoken.trans hpasses, .print hword hwritten.spelled hclosing⟩,
        hwritten.proper, Nat.succ_le_succ hwritten.depth, False.elim⟩, id, rfl⟩
    case h_4 hword =>
      obtain ⟨value, others, closing, hwritten, hclosing, hpasses, rfl⟩ :=
        (accepts_returnStatement h.expression hmiddle).mp hrun
      exact ⟨.return value _, ⟨⟨_, htoken.trans hpasses, .return hword hwritten.spelled hclosing⟩,
        hwritten.proper, Nat.succ_le_succ hwritten.levels, False.elim⟩, id, rfl⟩
    case h_5 hword => exact form_of_while h hquiet hword htoken hmiddle hrun
    case h_6 hword =>
      obtain ⟨body, hbody, rfl⟩ := accepts_map.mp hrun
      exact form_of_block h hquiet hword htoken hmiddle hbody
    case h_7 hword => exact absurd hword (hquiet.not_command hcursor)

theorem afterWord_of_begins {word : Token} (hbegins : word.kind.BeginsExpr)
    (hcommand : word.kind ≠ .command) : afterWord inner word = none := by
  unfold afterWord
  split
  case h_7 hkind => exact absurd hkind hcommand
  case h_8 => rfl
  all_goals
    rename_i hkind
    exact absurd (hkind ▸ hbegins) (by decide)

/-- The first word of a statement has been read. -/
theorem accepts_statement_of_rest (hcursor : cursor.Bounded) {word : Token} {rest : Rule Stmt}
    {others : List Token} {ids : List NodeId}
    (hpasses : cursor.Passes after (word :: others) ids)
    (hword : afterWord inner word = some rest)
    (hrest : ∀ middle, middle.Bounded → middle.Passes after others ids →
      rest.Accepts middle stmt after) :
    (statement inner .script).Accepts cursor stmt after := by
  obtain rfl := hpasses.peek
  obtain ⟨middle, htoken, hpasses⟩ := hpasses.uncons
  have hmiddle := htoken.bounded hcursor
  exact (accepts_statement_word hcursor hword).mpr
    ⟨middle, hmiddle, htoken, hrest middle hmiddle hpasses⟩

theorem accepts_branch (h : ReadsForms levels inner) (hcursor : cursor.Bounded)
    {condition : Expr} {body : Form} {line : Nat}
    (hform : Form.Stands (levels + 1) (.branch condition body line) cursor after) :
    (statement inner .script).Accepts cursor (Form.branch condition body line).lowered after := by
  obtain ⟨⟨tokens, hpasses, hspelled⟩, hproper, hlevels, hclosed⟩ := hform
  cases hspelled with
  | @branch word opening closing condition body head others hword hopening hcondition hclosing
      hbody =>
    refine accepts_statement_of_rest hcursor hpasses (by unfold afterWord; rw [hword])
      fun middle hmiddle hrest => ?_
    have hparts : middle.Passes after ((opening :: (head ++ [closing])) ++ others)
        (condition.ids ++ body.ids) := hrest
    obtain ⟨start, hhead, hothers⟩ := hparts.split
    have hstart := hhead.bounded hmiddle
    obtain ⟨hconditionLevels, hbodyLevels⟩ := Nat.max_le.mp (Nat.le_of_succ_le_succ hlevels)
    have hnext : after.peek.kind ≠ .elseWord := hclosed trivial
    have hrun := h.statement.complete hstart
      ⟨⟨others, hothers, hbody⟩, hproper.2.2, hbodyLevels, fun _ => hnext⟩ hproper.2.1
    exact (accepts_ifStatement h.expression hmiddle).mpr ⟨condition, head, opening, closing, start,
      _, after, hstart, hopening, ⟨hcondition, hproper.1, hconditionLevels⟩, hclosing, hhead, hrun,
      .inl ⟨hnext, rfl, rfl⟩⟩

theorem accepts_choice (h : ReadsForms levels inner) (hcursor : cursor.Bounded)
    {condition : Expr} {body elseBody : Form} {line : Nat}
    (hform : Form.Stands (levels + 1) (.choice condition body elseBody line) cursor after) :
    (statement inner .script).Accepts cursor
      (Form.choice condition body elseBody line).lowered after := by
  obtain ⟨⟨tokens, hpasses, hspelled⟩, hproper, hlevels, hclosed⟩ := hform
  cases hspelled with
  | @choice word opening closing other condition body elseBody head others more hword hopening
      hcondition hclosing hbody hother helse =>
    refine accepts_statement_of_rest hcursor hpasses (by unfold afterWord; rw [hword])
      fun middle hmiddle hrest => ?_
    have hparts :
      middle.Passes after ((opening :: (head ++ [closing])) ++ (others ++ other :: more))
        (condition.ids ++ (body.ids ++ elseBody.ids)) := hrest
    obtain ⟨start, hhead, hparts⟩ := hparts.split
    obtain ⟨behind, hothers, hparts⟩ := hparts.split
    obtain ⟨between, htoken, hmore⟩ := hparts.uncons
    have hstart := hhead.bounded hmiddle
    have hbehind := hothers.bounded hstart
    obtain ⟨hconditionLevels, hlevels⟩ := Nat.max_le.mp (Nat.le_of_succ_le_succ hlevels)
    obtain ⟨hbodyLevels, helseLevels⟩ := Nat.max_le.mp hlevels
    obtain ⟨hconditionProper, ⟨hbodyStatement, hopened, hbodyProper⟩,
      helseStatement, helseProper⟩ := hproper
    have hrun := h.statement.complete hstart
      ⟨⟨others, hothers, hbody⟩, hbodyProper, hbodyLevels, fun hopen => absurd hopen hopened⟩
      hbodyStatement
    have helseRun := h.statement.complete (htoken.bounded hbehind)
      ⟨⟨more, hmore, helse⟩, helseProper, helseLevels, hclosed⟩ helseStatement
    exact (accepts_ifStatement h.expression hmiddle).mpr ⟨condition, head, opening, closing, start,
      _, behind, hstart, hopening, ⟨hcondition, hconditionProper, hconditionLevels⟩, hclosing,
      hhead, hrun, .inr ⟨other, between, _, hother, htoken, helseRun, rfl⟩⟩

theorem accepts_loop (h : ReadsForms levels inner) (hcursor : cursor.Bounded)
    {condition : Expr} {body : Form} {line : Nat}
    (hform : Form.Stands (levels + 1) (.loop condition body line) cursor after) :
    (statement inner .script).Accepts cursor (Form.loop condition body line).lowered after := by
  obtain ⟨⟨tokens, hpasses, hspelled⟩, hproper, hlevels, hclosed⟩ := hform
  cases hspelled with
  | @loop word opening closing condition body head others hword hopening hcondition hclosing
      hbody =>
    refine accepts_statement_of_rest hcursor hpasses (by unfold afterWord; rw [hword])
      fun middle hmiddle hrest => ?_
    have hparts : middle.Passes after ((opening :: (head ++ [closing])) ++ others)
        (condition.ids ++ body.ids) := hrest
    obtain ⟨start, hhead, hothers⟩ := hparts.split
    have hstart := hhead.bounded hmiddle
    obtain ⟨hconditionLevels, hbodyLevels⟩ := Nat.max_le.mp (Nat.le_of_succ_le_succ hlevels)
    have hrun := h.statement.complete hstart
      ⟨⟨others, hothers, hbody⟩, hproper.2.2, hbodyLevels, hclosed⟩ hproper.2.1
    exact (accepts_whileStatement h.expression hmiddle).mpr ⟨condition, head, opening, closing,
      start, _, hstart, hopening, ⟨hcondition, hproper.1, hconditionLevels⟩, hclosing, hhead,
      hrun, rfl⟩

theorem accepts_iteration (h : ReadsForms levels inner) (hcursor : cursor.Bounded)
    {begin : ForStart} {condition increment : Option Expr} {body : Form} {line : Nat}
    (hform : Form.Stands (levels + 1)
      (.iteration begin condition increment body line) cursor after) :
    (statement inner .script).Accepts cursor
      (Form.iteration begin condition increment body line).lowered after := by
  obtain ⟨⟨tokens, hpasses, hspelled⟩, hproper, hlevels, hclosed⟩ := hform
  cases hspelled with
  | @iteration word opening semicolon closing begin condition increment body first second third
      others hword hopening hbegin hcondition hsemicolon hincrement hclosing hbody =>
    refine accepts_statement_of_rest hcursor hpasses (by unfold afterWord; rw [hword])
      fun middle hmiddle hrest => ?_
    have hparts : middle.Passes after
        ((opening :: (first ++ ((second ++ [semicolon]) ++ (third ++ [closing])))) ++ others)
        ((begin.ids ++ (optionIds condition ++ optionIds increment)) ++ body.ids) := by
      simpa [Form.ids] using hrest
    obtain ⟨start, hhead, hothers⟩ := hparts.split
    have hstart := hhead.bounded hmiddle
    obtain ⟨hbeginLevels, hlevels⟩ := Nat.max_le.mp (Nat.le_of_succ_le_succ hlevels)
    obtain ⟨hconditionLevels, hlevels⟩ := Nat.max_le.mp hlevels
    obtain ⟨hincrementLevels, hbodyLevels⟩ := Nat.max_le.mp hlevels
    obtain ⟨hbeginProper, hconditionProper, hincrementProper,
      hbodyStatement, hbodyProper⟩ := hproper
    have hrun := h.statement.complete hstart
      ⟨⟨others, hothers, hbody⟩, hbodyProper, hbodyLevels, hclosed⟩ hbodyStatement
    exact (accepts_forStatement h.expression hmiddle).mpr ⟨begin, condition, increment, first,
      second, third, opening, semicolon, closing, start, _, hstart, hopening,
      ⟨hbegin, hbeginProper, hbeginLevels⟩, ⟨hcondition, hconditionProper, hconditionLevels⟩,
      hsemicolon, ⟨hincrement, hincrementProper, hincrementLevels⟩, hclosing, hhead, hrun,
      forLoop_eq.symm⟩

theorem accepts_statement_of_form (h : ReadsForms levels inner) (hcursor : cursor.Bounded)
    {form : Form} (hform : Form.Stands (levels + 1) form cursor after)
    (hstatement : ¬ form.IsDeclaration) :
    (statement inner .script).Accepts cursor form.lowered after := by
  cases form with
  | function | declared => exact absurd trivial hstatement
  | branch => exact accepts_branch h hcursor hform
  | choice => exact accepts_choice h hcursor hform
  | loop => exact accepts_loop h hcursor hform
  | iteration => exact accepts_iteration h hcursor hform
  | expression expr line =>
    obtain ⟨⟨tokens, hpasses, hspelled⟩, hproper, hlevels, -⟩ := hform
    cases hspelled with
    | expression hclosed hcommand =>
      obtain ⟨first, rest, rfl, hfirst⟩ := begins_closed hclosed
      have hnone : afterWord inner cursor.peek = none := by
        rw [hpasses.peek]
        exact afterWord_of_begins hfirst (hcommand first rfl)
      have hread := (accepts_expressionStatement h.expression hcursor).mpr
        ⟨expr, line, _, hclosed, hproper, Nat.le_of_succ_le_succ hlevels, hpasses, rfl⟩
      exact (accepts_statement_none hnone).mpr hread
  | print expr line =>
    obtain ⟨⟨tokens, hpasses, hspelled⟩, hproper, hlevels, -⟩ := hform
    cases hspelled with
    | @print word closing _ others hword hexpr hclosing =>
      refine accepts_statement_of_rest hcursor hpasses (by unfold afterWord; rw [hword])
        fun middle hmiddle hrest => ?_
      exact (accepts_printStatement h.expression hmiddle).mpr ⟨expr, others, closing,
        ⟨hexpr, hproper, Nat.le_of_succ_le_succ hlevels⟩, hclosing, hrest, rfl⟩
  | «return» value line =>
    obtain ⟨⟨tokens, hpasses, hspelled⟩, hproper, hlevels, -⟩ := hform
    cases hspelled with
    | @«return» word closing _ others hword hvalue hclosing =>
      refine accepts_statement_of_rest hcursor hpasses (by unfold afterWord; rw [hword])
        fun middle hmiddle hrest => ?_
      exact (accepts_returnStatement h.expression hmiddle).mpr ⟨value, others, closing,
        ⟨hvalue, hproper, Nat.le_of_succ_le_succ hlevels⟩, hclosing, hrest, rfl⟩
  | block body =>
    obtain ⟨⟨tokens, hpasses, hspelled⟩, hproper, hlevels, -⟩ := hform
    cases hspelled with
    | @block opening closing _ others hopening hbody hclosing =>
      refine accepts_statement_of_rest hcursor hpasses (by unfold afterWord; rw [hopening])
        fun middle hmiddle hrest => ?_
      have hparts : middle.Passes after (others ++ [closing]) (Form.idsAll body) := hrest
      obtain ⟨behind, hothers, hend⟩ := hparts.split_last
      obtain ⟨inside, rfl⟩ := Nat.exists_eq_add_one_of_ne_zero
        (Nat.ne_zero_of_lt (Nat.le_of_succ_le_succ hlevels))
      exact accepts_map.mpr ⟨_, h.block.complete rfl hmiddle ⟨⟨others, hothers, hbody⟩, hproper,
        Nat.le_of_succ_le_succ (Nat.le_of_succ_le_succ hlevels)⟩ hclosing hend, rfl⟩

theorem readsStatement_statement (h : ReadsForms levels inner) :
    ReadsStatement (levels + 1) (statement inner .script) :=
  ⟨form_of_statement h, fun hcursor hform => accepts_statement_of_form h hcursor hform⟩

end Level

/-! ## All levels of nesting -/

theorem reads_nested (levels : Nat) : ReadsForms levels (nested .script levels) := by
  induction levels with
  | zero =>
    refine ⟨(readsExpr_nested .script 0).1, ⟨fun _ _ hrun => absurd hrun not_accepts_tooDeep, ?_⟩,
      ⟨fun _ _ hrun => absurd hrun not_accepts_tooDeep, ?_⟩⟩
    · intro form cursor after _ hform hstatement
      have hlevels := hform.levels
      cases form with
      | function | declared => exact absurd trivial hstatement
      | _ => exact absurd hlevels (Nat.not_succ_le_zero _)
    · intro forms closing cursor middle after inside hinside
      cases hinside
  | succ levels ih =>
    exact ⟨(readsExpr_nested .script (levels + 1)).1, readsStatement_statement ih,
      readsBlock_blockBody ih⟩

end Grammar

end CommandScript
