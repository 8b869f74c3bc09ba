import CommandScript.Proofs.Syntax.Surface

/-!
# Parentheses and beginnings

Within an expression, a list or a form as many parentheses are closed as are opened. So the
parentheses that are open at a token are those of the statement that it stands in, and a
statement begins outside of all of them.

* `Expr.Spelled.balanced`, `Form.Spelled.balanced`: parentheses are balanced.
* `Form.Spelled.begins`, `Form.Spelled.opens`: the first and the last token of a form.
-/

namespace CommandScript

/-! ## Balanced parentheses -/

theorem balanced_nil : Balanced [] := rfl

theorem Balanced.append {tokens others : List Token} (h : Balanced tokens)
    (hothers : Balanced others) :
    Balanced (tokens ++ others) := by
  unfold Balanced at *
  rw [List.countP_append, List.countP_append, h, hothers]

/-- Tokens that are no parentheses do not matter. -/
theorem Balanced.cons {token : Token} {tokens : List Token} (hopening : token.kind ≠ .leftParen)
    (hclosing : token.kind ≠ .rightParen) (h : Balanced tokens) : Balanced (token :: tokens) := by
  unfold Balanced at *
  rw [List.countP_cons_of_neg (by simpa using hopening),
    List.countP_cons_of_neg (by simpa using hclosing), h]

theorem Balanced.one {token : Token} (hopening : token.kind ≠ .leftParen)
    (hclosing : token.kind ≠ .rightParen) : Balanced [token] :=
  balanced_nil.cons hopening hclosing

theorem Balanced.parens {opening closing : Token} {tokens : List Token} (h : Balanced tokens)
    (hopening : opening.kind = .leftParen) (hclosing : closing.kind = .rightParen) :
    Balanced (opening :: (tokens ++ [closing])) := by
  unfold Balanced at *
  simp [List.countP_append, hopening, hclosing, h]

theorem Separated.balanced {α : Type} {spelled : α → List Token → Prop}
    {items : List α} {tokens : List Token} (h : Separated spelled items tokens)
    (hitem : ∀ item ∈ items, ∀ tokens, spelled item tokens → Balanced tokens) :
    Balanced tokens := by
  induction h with
  | none => exact balanced_nil
  | one hspelled => exact hitem _ List.mem_cons_self _ hspelled
  | more hspelled hcomma _ ih =>
    refine (hitem _ List.mem_cons_self _ hspelled).append (.cons ?_ ?_ (ih fun item hmem =>
      hitem item (List.mem_cons_of_mem _ hmem)))
    all_goals
      rw [hcomma]
      decide

namespace Expr

mutual

theorem Spelled.balanced {expr : Expr} {tokens : List Token} (h : expr.Spelled tokens) :
    Balanced tokens := by
  match expr, h with
  | .literal .., .literal hvalue =>
    refine .one ?_ ?_
    all_goals
      intro hkind
      unfold Token.Denotes at hvalue
      rw [hkind] at hvalue
      exact hvalue
  | .grouping .., .grouping hopening hinner hclosing =>
    exact hinner.balanced.parens hopening hclosing
  | .unary op .., .unary hoperator hoperand =>
    refine hoperand.balanced.cons ?_ ?_
    all_goals
      rw [hoperator]
      cases op <;> decide
  | .binary op .., .binary hleft hoperator hright =>
    refine hleft.balanced.append (hright.balanced.cons ?_ ?_)
    all_goals
      rw [hoperator]
      cases op <;> decide
  | .logical op .., .logical hleft hoperator hright =>
    refine hleft.balanced.append (hright.balanced.cons ?_ ?_)
    all_goals
      rw [hoperator]
      cases op <;> decide
  | .variable .., .variable hname => exact .one (by rw [hname]; decide) (by rw [hname]; decide)
  | .assign .., .assign hname hequal hvalue =>
    refine .cons ?_ ?_ (hvalue.balanced.cons ?_ ?_)
    all_goals first | rw [hname]; decide | rw [hequal]; decide
  | .call _ args _, .call hcallee hopening hargs hclosing =>
    exact hcallee.balanced.append ((hargs.balanced (balanced_all args)).parens hopening hclosing)
  | .commandRef .., .commandRef hword => exact .one (by rw [hword]; decide) (by rw [hword]; decide)

theorem balanced_all (exprs : List Expr) :
    ∀ expr ∈ exprs, ∀ tokens, expr.Spelled tokens → Balanced tokens := by
  match exprs with
  | [] => exact fun _ hmem => nomatch hmem
  | first :: rest =>
    intro expr hmem tokens h
    rcases List.mem_cons.mp hmem with heq | hmem
    · have hfirst : first.Spelled tokens := heq ▸ h
      exact hfirst.balanced
    · exact balanced_all rest expr hmem tokens h

end

theorem balanced_option {value : Option Expr} {tokens : List Token}
    (h : SpelledOption value tokens) :
    Balanced tokens := by
  cases value with
  | none =>
    obtain rfl : tokens = [] := h
    exact balanced_nil
  | some expr =>
    have hspelled : expr.Spelled tokens := h
    exact hspelled.balanced

/-- The `;` that ends an expression is no parenthesis. -/
theorem balanced_ended {closing : Token} {tokens : List Token} (h : Balanced tokens)
    (hclosing : closing.kind = .semicolon) : Balanced (tokens ++ [closing]) :=
  h.append (.one (by rw [hclosing]; decide) (by rw [hclosing]; decide))

theorem Closed.balanced {expr : Expr} {line : Nat} {tokens : List Token}
    (h : expr.Closed line tokens) :
    Balanced tokens := by
  cases h with
  | intro hspelled hclosing => exact balanced_ended hspelled.balanced hclosing

end Expr

theorem VariableDecl.Spelled.balanced {decl : VariableDecl} {tokens : List Token}
    (h : decl.Spelled tokens) : Balanced tokens := by
  cases h with
  | bare hname hclosing =>
    exact .cons (by rw [hname]; decide) (by rw [hname]; decide)
      (Expr.balanced_ended balanced_nil hclosing)
  | initialized hname hequal hvalue hclosing =>
    exact .cons (by rw [hname]; decide) (by rw [hname]; decide) <|
      .cons (by rw [hequal]; decide) (by rw [hequal]; decide) <|
      Expr.balanced_ended hvalue.balanced hclosing

theorem ForStart.Spelled.balanced {start : ForStart} {tokens : List Token}
    (h : start.Spelled tokens) :
    Balanced tokens := by
  cases h with
  | absent hclosing => exact Expr.balanced_ended balanced_nil hclosing
  | declared hword hdecl =>
    exact .cons (by rw [hword]; decide) (by rw [hword]; decide) hdecl.balanced
  | expression hclosed => exact hclosed.balanced

/-! ## Where a statement can begin -/

/-- Parentheses are balanced, and a statement can begin after the last token. -/
structure Opening (tokens : List Token) : Prop where
  balanced : Balanced tokens
  last : ∃ first last, tokens = first ++ [last] ∧ OpensStatement last.kind

theorem Opening.after {tokens others : List Token} (hothers : Opening others)
    (h : Balanced tokens) :
    Opening (tokens ++ others) := by
  obtain ⟨first, last, rfl, hlast⟩ := hothers.last
  exact ⟨h.append hothers.balanced, tokens ++ first, last, (List.append_assoc ..).symm, hlast⟩

theorem Opening.cons {token : Token} {tokens : List Token} (h : Opening tokens)
    (htoken : token.kind ≠ .leftParen ∧ token.kind ≠ .rightParen) : Opening (token :: tokens) :=
  h.after (Balanced.one htoken.1 htoken.2)

/-- A last token that is no parenthesis. -/
theorem Opening.ended {closing : Token} {tokens : List Token} (h : Balanced tokens)
    (hclosing : closing.kind ∈ [TokenKind.semicolon, .leftBrace, .rightBrace, .elseWord]) :
    Opening (tokens ++ [closing]) := by
  refine ⟨h.append (.one ?_ ?_), tokens, closing, rfl, ?_⟩
  all_goals
    simp only [List.mem_cons, List.not_mem_nil, or_false] at hclosing
    rcases hclosing with hkind | hkind | hkind | hkind <;> rw [hkind] <;> decide

/-- A keyword and what stands in the parentheses after it. -/
theorem Opening.parens {word opening closing : Token} {tokens : List Token} (h : Balanced tokens)
    (hword : word.kind ≠ .leftParen ∧ word.kind ≠ .rightParen)
    (hopening : opening.kind = .leftParen)
    (hclosing : closing.kind = .rightParen) :
    Opening ([word, opening] ++ (tokens ++ [closing])) where
  balanced := .cons hword.1 hword.2 (h.parens hopening hclosing)
  last := ⟨word :: opening :: tokens, closing, rfl, by rw [hclosing]; decide⟩

/-! ## Forms -/

theorem Opening.of_closed {expr : Expr} {line : Nat} {tokens : List Token}
    (h : expr.Closed line tokens) : Opening tokens := by
  cases h with
  | @intro first closing rest hspelled hclosing =>
    exact .ended hspelled.balanced (by rw [hclosing]; decide)

theorem Opening.of_variable {decl : VariableDecl} {tokens : List Token} (h : decl.Spelled tokens) :
    Opening tokens := by
  cases h with
  | @bare name closing hname hclosing =>
    have hbalanced : Balanced [name] := .one (by rw [hname]; decide) (by rw [hname]; decide)
    exact .ended hbalanced (by rw [hclosing]; decide)
  | @initialized name equal closing value tokens hname hequal hvalue hclosing =>
    have hbalanced : Balanced [name, equal] :=
      .cons (by rw [hname]; decide) (by rw [hname]; decide) <|
      .one (by rw [hequal]; decide) (by rw [hequal]; decide)
    exact .after (.ended hvalue.balanced (by rw [hclosing]; decide)) hbalanced

theorem balanced_params {params : List Parameter} {tokens : List Token}
    (h : Separated Parameter.Spelled params tokens) : Balanced tokens := by
  refine h.balanced fun param _ tokens => ?_
  rintro ⟨name, hname, rfl, -⟩
  exact .one (by rw [hname]; decide) (by rw [hname]; decide)

/-- The header of a function is a keyword, a name and parentheses. -/
theorem opening_header {word name opening closing : Token} {params : List Parameter}
    {heads : List Token} (hword : word.kind = .funWord) (hname : name.kind = .identifier)
    (hopening : opening.kind = .leftParen) (hparams : Separated Parameter.Spelled params heads)
    (hclosing : closing.kind = .rightParen) :
    Opening ([word, name, opening] ++ (heads ++ [closing])) := by
  have hname' : name.kind ≠ .leftParen ∧ name.kind ≠ .rightParen := by rw [hname]; decide
  exact (Opening.parens (balanced_params hparams) hname' hopening hclosing).cons
    (by rw [hword]; decide)

/-- The clauses of a `for` in their parentheses. -/
theorem opening_clauses {word opening semicolon closing : Token} {start : ForStart}
    {condition increment : Option Expr} {first second third : List Token}
    (hword : word.kind = .forWord) (hopening : opening.kind = .leftParen)
    (hstart : start.Spelled first) (hcondition : SpelledOption condition second)
    (hsemicolon : semicolon.kind = .semicolon) (hincrement : SpelledOption increment third)
    (hclosing : closing.kind = .rightParen) :
    Opening ([word, opening] ++ (first ++ (second ++ [semicolon]) ++ (third ++ [closing]))) := by
  have hbalanced : Balanced (first ++ (second ++ [semicolon]) ++ third) :=
    (hstart.balanced.append
      (Expr.balanced_ended (Expr.balanced_option hcondition) hsemicolon)).append
      (Expr.balanced_option hincrement)
  rw [← List.append_assoc _ third]
  exact .parens hbalanced (by rw [hword]; decide) hopening hclosing

namespace Form

mutual

/-- A statement can begin after a form. -/
theorem Spelled.opening {form : Form} {tokens : List Token} (h : form.Spelled tokens) :
    Opening tokens := by
  match form, h with
  | .function _ _ body _, .function hword hname hopening hparams hclosing hbrace hbody hlast =>
    have hend := Opening.ended (listed_balanced body hbody) (by rw [hlast]; decide)
    exact .after (hend.cons (by rw [hbrace]; decide))
      (opening_header hword hname hopening hparams hclosing).balanced
  | .declared .., .declared hword hdecl =>
    exact .cons (.of_variable hdecl) (by rw [hword]; decide)
  | .expression .., .expression hclosed _ => exact .of_closed hclosed
  | .branch .., .branch hword hopening hcondition hclosing hbody =>
    exact hbody.opening.after
      (Opening.parens hcondition.balanced (by rw [hword]; decide) hopening hclosing).balanced
  | .choice .., .choice hword hopening hcondition hclosing hbody hother helse =>
    exact .after (.after (helse.opening.cons (by rw [hother]; decide)) hbody.opening.balanced)
      (Opening.parens hcondition.balanced (by rw [hword]; decide) hopening hclosing).balanced
  | .loop .., .loop hword hopening hcondition hclosing hbody =>
    exact hbody.opening.after
      (Opening.parens hcondition.balanced (by rw [hword]; decide) hopening hclosing).balanced
  | .iteration .., .iteration hword hopening hstart hcondition hsemicolon hincrement hclosing
      hbody =>
    exact hbody.opening.after (opening_clauses hword hopening hstart hcondition hsemicolon
      hincrement hclosing).balanced
  | .print .., .print hword hexpr hclosing =>
    exact .cons (.ended hexpr.balanced (by rw [hclosing]; decide)) (by rw [hword]; decide)
  | .return .., .return hword hvalue hclosing =>
    exact .cons (.ended (Expr.balanced_option hvalue) (by rw [hclosing]; decide))
      (by rw [hword]; decide)
  | .block body, .block hopening hbody hclosing =>
    exact .cons (.ended (listed_balanced body hbody) (by rw [hclosing]; decide))
      (by rw [hopening]; decide)

theorem listed_balanced (forms : List Form) {tokens : List Token}
    (h : Listed Spelled forms tokens) :
    Balanced tokens := by
  match forms, h with
  | [], .none => exact balanced_nil
  | _ :: rest, .more hfirst hrest =>
    exact hfirst.opening.balanced.append (listed_balanced rest hrest)

end

/-- No form begins with an `else` or a `}`, and no statement with a keyword of declarations. -/
theorem Spelled.begins {form : Form} {tokens : List Token} (h : form.Spelled tokens) :
    ∃ first rest, tokens = first :: rest ∧
      first.kind ∉ [TokenKind.elseWord, .rightBrace, .endOfInput] ∧
      (first.kind ∈ [TokenKind.funWord, .varWord] → form.IsDeclaration) := by
  have hkeyword {kind : TokenKind} {word : Token} (hword : word.kind = kind)
      (hkind : kind ∉ [TokenKind.elseWord, .rightBrace, .endOfInput]) :
      word.kind ∉ [TokenKind.elseWord, .rightBrace, .endOfInput] := hword ▸ hkind
  cases h with
  | function hword | declared hword =>
    exact ⟨_, _, rfl, hkeyword hword (by decide), fun _ => trivial⟩
  | branch hword | choice hword | loop hword | iteration hword | print hword | «return» hword
  | block hword =>
    exact ⟨_, _, rfl, hkeyword hword (by decide),
      fun hmem => absurd (hword ▸ hmem) (by decide)⟩
  | expression hclosed hcommand =>
    cases hclosed with
    | intro hspelled hclosing =>
      obtain ⟨first, rest, heq, hfirst⟩ := hspelled.begins
      obtain ⟨rfl, -⟩ := List.cons.inj heq
      refine ⟨_, _, rfl, fun hmem => ?_, fun hmem => ?_⟩
      all_goals
        simp only [List.mem_cons, List.not_mem_nil, or_false] at hmem
      · rcases hmem with hkind | hkind | hkind <;> exact absurd (hkind ▸ hfirst) (by decide)
      · rcases hmem with hkind | hkind <;> exact absurd (hkind ▸ hfirst) (by decide)

end Form

end CommandScript
