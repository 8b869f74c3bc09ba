import CommandScript.Proofs.Grammar.Sources
import CommandScript.Proofs.Number.Bits
import CommandScript.Proofs.Syntax.Equality
import CommandScript.Proofs.Syntax.ReadBack

/-!
# Listings of programs that were read

The tokens of a text without strings and without numbers that overflow can all be told from
each other. So the program that they make can be told from its listing, up to what is not
listed: the lines of the nodes and the ids of the references.

* `Token.Legible`: names, command words and literals that can be told apart.
* `legible_of_scan`: the tokens of a text.
* `legible_of_parse`: the program that legible tokens make.
* `relabelAll_eq_of_programListing_eq`: programs with the same listing.
-/

namespace CommandScript

/-- The token can be told from others by its text alone. -/
structure Token.Legible (words : CommandWords) (token : Token) : Prop where
  name : token.kind = .identifier →
    IsFreeWord token.lexeme ∧ words.contains token.lexeme = false
  command : token.kind = .command →
    IsFreeWord token.lexeme ∧ words.contains token.lexeme = true
  literal : ∀ value, token.Denotes value → value.Legible

variable {words : CommandWords} {source : String} {token : Token} {tokens part : List Token}

/-! ## Tokens -/

/-- The kinds of the tokens whose texts are listed: names, command words and literals. -/
def TokenKind.listedKinds : List TokenKind :=
  [.identifier, .command, .number, .string, .trueWord, .falseWord, .nullWord]

theorem not_mem_of_keyword? {word : String} {kind : TokenKind}
    (h : TokenKind.keyword? word = some kind) : kind ∉ TokenKind.listedKinds := by
  unfold TokenKind.keyword? at h
  split at h <;> cases h <;> decide

theorem not_mem_of_markText? {kind : TokenKind} {text : List Char}
    (h : kind.markText? = some text) : kind ∉ TokenKind.listedKinds := by
  simp only [TokenKind.listedKinds, List.mem_cons, List.not_mem_nil, or_false, not_or]
  refine ⟨?_, ?_, ?_, ?_, ?_, ?_, ?_⟩ <;> rintro rfl <;> cases h

theorem Token.Denotes.mem {value : Literal} (h : token.Denotes value) :
    token.kind ∈ TokenKind.listedKinds := by
  unfold Token.Denotes at h
  split at h
  all_goals first | exact h.elim | simp_all [TokenKind.listedKinds]

/-- Of a token of another kind there is nothing to be told. -/
theorem legible_of_kind (h : token.kind ∉ TokenKind.listedKinds) : token.Legible words where
  name hkind := absurd (hkind ▸ by decide) h
  command hkind := absurd (hkind ▸ by decide) h
  literal _ hdenotes := absurd hdenotes.mem h

theorem legible_name (hkind : token.kind = .identifier) (hfree : IsFreeWord token.lexeme)
    (hwords : words.contains token.lexeme = false) : token.Legible words where
  name _ := ⟨hfree, hwords⟩
  command hcommand := by cases hkind.symm.trans hcommand
  literal _ hdenotes := by simp [Token.Denotes, hkind] at hdenotes

theorem legible_command (hkind : token.kind = .command) (hfree : IsFreeWord token.lexeme)
    (hwords : words.contains token.lexeme = true) : token.Legible words where
  name hname := by cases hkind.symm.trans hname
  command _ := ⟨hfree, hwords⟩
  literal _ hdenotes := by simp [Token.Denotes, hkind] at hdenotes

theorem legible_literal (hkind : token.kind ∉ [.identifier, .command])
    (hvalue : ∀ value, token.Denotes value → value.Legible) : token.Legible words where
  name hname := absurd (by simp [hname]) hkind
  command hcommand := absurd (by simp [hcommand]) hkind
  literal := hvalue

theorem legible_wordToken {word : String} {line : Nat} (h : IsWord word) :
    (wordToken words word line).Legible words := by
  by_cases hliteral : word ∈ literalWords
  · simp only [literalWords, List.mem_cons, List.not_mem_nil, or_false] at hliteral
    obtain rfl | rfl | rfl := hliteral
    · refine legible_literal (by simp [wordToken]) fun value (hvalue : value = .bool true) => ?_
      exact hvalue ▸ trivial
    · refine legible_literal (by simp [wordToken]) fun value (hvalue : value = .bool false) => ?_
      exact hvalue ▸ trivial
    · refine legible_literal (by simp [wordToken]) fun value (hvalue : value = .null) => ?_
      exact hvalue ▸ trivial
  · have hkind := @kind_wordToken words _ line hliteral
    have hlexeme := @lexeme_wordToken words word line
    have hfree : IsFreeWord (wordToken words word line).lexeme := hlexeme.symm ▸ ⟨h, hliteral⟩
    cases hwords : words.contains word with
    | true =>
      rw [hwords, if_pos rfl] at hkind
      exact legible_command hkind hfree (by rw [hlexeme, hwords])
    | false =>
      rw [hwords, if_neg Bool.false_ne_true] at hkind
      cases hword : TokenKind.keyword? word with
      | some kind =>
        rw [hword, Option.getD_some] at hkind
        exact legible_of_kind (hkind ▸ not_mem_of_keyword? hword)
      | none =>
        rw [hword, Option.getD_none] at hkind
        exact legible_name hkind hfree (by rw [hlexeme, hwords])

theorem legible_number {lexeme : String} {line : Nat} {text : List Char}
    (h : (Number.readPlain? text).getD 0 ≠ Number.infinity) :
    (⟨.number, lexeme, some (.number ((Number.readPlain? text).getD 0)), line⟩ : Token).Legible
      words := by
  refine legible_literal (by simp) fun value hvalue => ?_
  obtain rfl : value = _ := hvalue
  change ((Number.readPlain? text).getD 0).isFinite = true
  cases hread : Number.readPlain? text with
  | none => exact Number.isFinite_zero
  | some x =>
    rw [hread] at h
    exact (Number.readPlain_cases hread).resolve_right h

/-- No string, and no number that overflows. -/
def Token.Plain (token : Token) : Prop :=
  token.kind ≠ .string ∧ token.literal ≠ some (.number Number.infinity)

instance (token : Token) : Decidable token.Plain := inferInstanceAs (Decidable (_ ∧ _))

/-- The plain tokens of a text can be told apart. -/
theorem legible_of_scan (hplain : ∀ token ∈ (scan words source).tokens, token.Plain)
    (h : token ∈ (scan words source).tokens) : token.Legible words := by
  obtain ⟨hstring, hnumber⟩ := hplain token h
  obtain ⟨⟨shape, text⟩, hpiece, line, htoken⟩ | rfl := exists_piece h
  · have hpattern := Piece.mem_pattern hpiece htoken
    cases shape with
    | number =>
      obtain rfl := Option.some.inj htoken
      refine legible_number fun hinfinity => hnumber ?_
      exact congrArg (fun x => some (Literal.number x)) hinfinity
    | string =>
      obtain rfl := Option.some.inj htoken
      exact absurd rfl hstring
    | word =>
      obtain rfl := Option.some.inj htoken
      refine legible_wordToken ?_
      rwa [IsWord, String.toList_ofList]
    | mark kind =>
      obtain rfl := Option.some.inj htoken
      exact legible_of_kind (not_mem_of_markText? hpattern)
    | blank | lineBreak | comment | unterminated | unexpected => cases htoken
  · have hend : TokenKind.endOfInput ∉ TokenKind.listedKinds := by decide
    exact legible_of_kind hend

/-! ## Expressions -/

mutual

theorem Expr.Spelled.legible : ∀ {expr : Expr} {part : List Token}, expr.Spelled part →
    (∀ token ∈ part, token.Legible words) → expr.Legible words
  | .literal _ _, _, .literal hdenotes, hpart =>
    (hpart _ List.mem_cons_self).literal _ hdenotes
  | .grouping _ _, _, .grouping _ hinner _, hpart =>
    hinner.legible fun token htoken => hpart token (by simp [htoken])
  | .unary _ _ _, _, .unary _ hoperand, hpart =>
    hoperand.legible fun token htoken => hpart token (by simp [htoken])
  | .binary _ _ _ _, _, .binary hleft _ hright, hpart =>
    ⟨hleft.legible fun token htoken => hpart token (by simp [htoken]),
      hright.legible fun token htoken => hpart token (by simp [htoken])⟩
  | .logical _ _ _ _, _, .logical hleft _ hright, hpart =>
    ⟨hleft.legible fun token htoken => hpart token (by simp [htoken]),
      hright.legible fun token htoken => hpart token (by simp [htoken])⟩
  | .variable _ _ _, _, .variable hname, hpart => (hpart _ List.mem_cons_self).name hname
  | .assign _ _ _ _, _, .assign hname _ hvalue, hpart =>
    ⟨(hpart _ List.mem_cons_self).name hname,
      hvalue.legible fun token htoken => hpart token (by simp [htoken])⟩
  | .call _ _ _, _, .call hcallee _ hargs _, hpart =>
    ⟨hcallee.legible fun token htoken => hpart token (by simp [htoken]),
      legibleAll_of_separated hargs fun token htoken => hpart token (by simp [htoken])⟩
  | .commandRef _ _, _, .commandRef hword, hpart => (hpart _ List.mem_cons_self).command hword

theorem legibleAll_of_separated : ∀ {exprs : List Expr} {part : List Token},
    Separated Expr.Spelled exprs part → (∀ token ∈ part, token.Legible words) →
    Expr.LegibleAll words exprs
  | [], _, _, _ => trivial
  | [_], _, .one hexpr, hpart => ⟨hexpr.legible hpart, trivial⟩
  | _ :: _ :: _, _, .more hexpr _ hrest, hpart =>
    ⟨hexpr.legible fun token htoken => hpart token (by simp [htoken]),
      legibleAll_of_separated hrest fun token htoken => hpart token (by simp [htoken])⟩

end

theorem Expr.SpelledBy.legible {expr : Expr} (h : expr.SpelledBy tokens)
    (htokens : ∀ token ∈ tokens, token.Legible words) : expr.Legible words := by
  obtain ⟨part, hpart, hspelled, -⟩ | ⟨line, rfl⟩ := h
  · exact hspelled.legible fun token htoken => htokens token (hpart htoken)
  · trivial

/-! ## Commands -/

/-- What follows for every item from its tokens. -/
theorem Strewn.forall_of {α : Type} {spelled : α → List Token → Prop} {property : α → Prop}
    {good : Token → Prop} {items : List α} (h : Strewn spelled items part)
    (hitem : ∀ item own, spelled item own → (∀ token ∈ own, good token) → property item)
    (hpart : ∀ token ∈ part, good token) : ∀ item ∈ items, property item := by
  induction h with
  | none => exact List.forall_mem_nil _
  | comma _ _ ih => exact ih (List.forall_mem_cons.mp hpart).2
  | item hspelled _ ih =>
    obtain ⟨hown, hrest⟩ := List.forall_mem_append.mp hpart
    exact List.forall_mem_cons.mpr ⟨hitem _ _ hspelled hown, ih hrest⟩

theorem ArgValue.Spelled.legible {value : ArgValue} (h : value.Spelled part)
    (hpart : ∀ token ∈ part, token.Legible words) : value.Legible words := by
  cases h with
  | word hkind =>
    have htoken := hpart _ List.mem_cons_self
    obtain hname | hcommand := hkind
    · exact (htoken.name hname).1
    · exact (htoken.command hcommand).1
  | literal hdenotes => exact (hpart _ List.mem_cons_self).literal _ hdenotes
  | grouping hspelled =>
    have hgrouping := hspelled.legible hpart
    exact hgrouping

theorem Arg.Spelled.legible {arg : Arg} (h : arg.Spelled part)
    (hpart : ∀ token ∈ part, token.Legible words) : arg.Legible words := by
  cases h with
  | positional hvalue => exact ArgValue.Spelled.legible hvalue hpart
  | @flag _ name _ hname => exact ((hpart name (by simp)).name hname).1.word
  | @parameter _ _ name _ _ _ _ hname hvalues =>
    refine ⟨((hpart name (by simp)).name hname).1.word, ?_⟩
    refine hvalues.forall_of (fun _ _ hvalue => hvalue.legible) fun token htoken => ?_
    exact hpart token (by simp [htoken])

theorem Command.SpelledBy.legible {action : Command} (h : action.SpelledBy tokens)
    (htokens : ∀ token ∈ tokens, token.Legible words) : action.Legible words := by
  cases h with
  | deliver hpart hwritten =>
    cases hwritten with
    | deliver hword _ hargs =>
      obtain ⟨hmem, hpart⟩ := List.cons_subset.mp hpart
      refine ⟨((htokens _ hmem).command hword).1.word.lowered, ?_⟩
      exact hargs.strewn.forall_of (fun _ _ harg => harg.legible) fun token htoken =>
        htokens token (hpart htoken)
  | help htopic =>
    intro topic hname
    obtain ⟨word, hmem, hword, rfl⟩ := htopic topic hname
    exact ((htokens word hmem).command hword).1.word.lowered
  | exit => trivial

/-! ## Programs -/

theorem Named.isWord {name : String} (h : Named tokens name)
    (htokens : ∀ token ∈ tokens, token.Legible words) : IsWord name := by
  obtain ⟨token, hmem, hkind, rfl⟩ := h
  exact ((htokens token hmem).name hkind).1.word

theorem Stmt.Parts.spelledBy_legible (htokens : ∀ token ∈ tokens, token.Legible words) :
    (Parts.spelledBy tokens).Implies (.legible words) where
  expr _ h := h.legible htokens
  name _ h := h.isWord htokens
  params _ h param hparam := (h.2 param hparam).isWord htokens
  command _ h := h.legible htokens

variable {mode : InputMode} {nextId : NodeId} {program : List Stmt}

/-- What legible tokens make is legible. -/
theorem legible_of_parse (h : (parse mode tokens nextId).program = .ok program)
    (htokens : ∀ token ∈ tokens, token.Legible words) :
    Stmt.MadeOfAll (.legible words) program :=
  (madeOf_of_parse h).mono (Stmt.Parts.spelledBy_legible htokens)

/-- Legible programs with the same listing are the same up to lines and ids. -/
theorem relabelAll_eq_of_legible {program other : List Stmt}
    (hprogram : Stmt.MadeOfAll (.legible words) program)
    (hother : Stmt.MadeOfAll (.legible words) other)
    (h : programListing program = programListing other) :
    Stmt.relabelAll .blank program = Stmt.relabelAll .blank other := by
  have hchars := congrArg String.toList h
  rw [toList_programListing, toList_programListing] at hchars
  have htrees := SExpr.joined_inj (by decide) (Stmt.readable_trees hprogram)
    (Stmt.readable_trees hother) hchars
  have hread := congrArg (SExpr.toStmts? words) htrees
  rw [toStmts?_trees hprogram, toStmts?_trees hother] at hread
  exact Option.some.inj hread

/-- **A program is known from its listing.** Two texts without strings and without numbers that
overflow are read with the same command words, in either mode and with whatever ids. If both
can be read and the programs have the same listing, then the programs are the same but for the
lines of their nodes and the ids of their references. -/
theorem relabelAll_eq_of_programListing_eq {source other : String} {mode otherMode : InputMode}
    {nextId otherId : NodeId} {program others : List Stmt}
    (hsource : ∀ token ∈ (scan words source).tokens, token.Plain)
    (hother : ∀ token ∈ (scan words other).tokens, token.Plain)
    (hprogram : (parse mode (scan words source).tokens nextId).program = .ok program)
    (hothers : (parse otherMode (scan words other).tokens otherId).program = .ok others)
    (h : programListing program = programListing others) :
    Stmt.relabelAll .blank program = Stmt.relabelAll .blank others :=
  relabelAll_eq_of_legible (legible_of_parse hprogram fun _ => legible_of_scan hsource)
    (legible_of_parse hothers fun _ => legible_of_scan hother) h

/-- A function and a command, on other lines and with other ids in a second text. -/
theorem relabelAll_eq_of_programListing_eq_of_commands :
    let words : CommandWords := ⟨["open"]⟩
    let source := "fun f(a) \x7b return -a - 0.5; \x7d OPEN x, -v --to null (f(true and y));"
    let other :=
      "FUN f(a)\n\x7b return - a - 0.50; \x7d\n\nopen x -v, --to null (f(true AND y))"
    let program (first second third : NodeId) (body last : Nat) : List Stmt := [
      .function "f" [⟨"a", 1⟩] [.return (some (.binary .sub
        (.unary .negate (.variable first "a" body) body) (.literal (.number 0.5) body) body))
        body] 1,
      .command (.deliver "open" [.positional (.word "x"), .flag "v",
        .parameter "to" [.expr (.literal .null last),
          .expr (.grouping (.call (.variable second "f" last)
            [.logical .and (.literal (.bool true) last) (.variable third "y" last) last] last)
            last)]] last)]
    (parse .script (scan words source).tokens 0).program = .ok (program 0 1 2 1 1) ∧
      (parse .command (scan words other).tokens 7).program = .ok (program 7 8 9 2 4) ∧
      programListing (program 0 1 2 1 1) = programListing (program 7 8 9 2 4) ∧
      Stmt.relabelAll .blank (program 0 1 2 1 1) = Stmt.relabelAll .blank (program 7 8 9 2 4) := by
  intro words source other program
  have hsource : (parse .script (scan words source).tokens 0).program =
      .ok (program 0 1 2 1 1) := by decide +kernel
  have hother : (parse .command (scan words other).tokens 7).program =
      .ok (program 7 8 9 2 4) := by decide +kernel
  have hlisting : programListing (program 0 1 2 1 1) = programListing (program 7 8 9 2 4) := by
    decide +kernel
  exact ⟨hsource, hother, hlisting, relabelAll_eq_of_programListing_eq (by decide +kernel)
    (by decide +kernel) hsource hother hlisting⟩

end CommandScript
