import CommandScript.Proofs.Grammar.Composition
import CommandScript.Proofs.Grammar.Nearsight

/-!
# Going on behind a statement without an end

A statement that lacks its `;` ends with a fault. If the fault is noticed at one of its own
tokens, recovery drops those that are left and stops before the next token that starts a
statement. So what stands there is read as it is alone, and none of its faults is hidden.

A statement that has come to the end of its tokens without a fault goes on with what comes
behind, as far as the grammar allows: a command word is also an operand.

* `TokenKind.Inner`: what a statement without blocks may contain before its `;`.
* `Breaks`: a statement with a fault that is noticed at one of its own tokens.
* `parse_behind_break`: reading what stands behind such a statement.
* `word_read_as_operand`: a command word that belongs to the statement before it.
-/

namespace CommandScript

open Grammar Rule

/-- No token of this kind ends a statement, starts one, or belongs to a block or a branch. -/
def TokenKind.Inner (kind : TokenKind) : Prop :=
  kind ∉ [.endOfInput, .semicolon, .leftBrace, .rightBrace, .elseWord] ∧
    startsStatement kind = false

instance (kind : TokenKind) : Decidable kind.Inner := inferInstanceAs (Decidable (_ ∧ _))

theorem TokenKind.Inner.ne {kind other : TokenKind} (h : kind.Inner) (hother : ¬ other.Inner) :
    kind ≠ other :=
  fun hkind => hother (hkind ▸ h)

namespace Grammar

/-! ## Recovery -/

/-- Inner tokens are dropped up to the next statement. -/
theorem resume_inner {rest tail : List Token} (hleft : rest ≠ [])
    (hinner : ∀ token ∈ rest, token.kind.Inner)
    (htail : ∀ token ∈ tail.head?, startsStatement token.kind) (read : Nat) :
    resume read (rest ++ tail) = (read + rest.length, tail) := by
  induction rest generalizing read with
  | nil => exact absurd rfl hleft
  | cons token rest ih =>
    cases rest with
    | nil =>
      cases tail with
      | nil => rfl
      | cons next tail =>
        have hstarts : startsStatement next.kind := htail next rfl
        rw [List.singleton_append, resume, hstarts, Bool.or_true]
        rfl
    | cons next rest =>
      obtain ⟨htoken, hrest⟩ := List.forall_mem_cons.mp hinner
      have hends : decide (token.kind = .semicolon) = false :=
        decide_eq_false (htoken.ne (by decide))
      have hstarts := (hrest next List.mem_cons_self).2
      rw [List.cons_append, List.cons_append, resume, hends, hstarts, Bool.or_false,
        if_neg Bool.false_ne_true, ← List.cons_append, ih (List.cons_ne_nil _ _) hrest,
        @List.length_cons _ token, Nat.add_right_comm, Nat.add_assoc]

/-- The cursor behind the tokens that were left, once they have been dropped after a fault. -/
def Cursor.recovered (fault : Located ParseFault) (tail : List Token) (last : Token)
    (cursor : Cursor) : Cursor :=
  { cursor with
    rest := tail
    last
    read := cursor.read + cursor.rest.length
    faults := cursor.faults.push fault }

theorem run_recover_of_inner {α : Type} {rule : Rule α} (h : rule.Nearsighted)
    {cursor after : Cursor} {fault : Located ParseFault}
    (hrun : rule.run cursor = (.error fault, after)) (hleft : after.rest ≠ [])
    (hinner : ∀ token ∈ after.rest, token.kind.Inner) {tail : List Token}
    (htail : ∀ token ∈ tail.head?, startsStatement token.kind) (last : Token) :
    rule.recover.run (cursor.extended tail last) =
      (.ok none, after.recovered fault tail last) := by
  have hthere := h tail last cursor
  rw [hrun] at hthere
  have hresume : resume (after.extended tail last).read (after.extended tail last).rest = _ :=
    resume_inner hleft hinner htail after.read
  unfold recover
  dsimp only
  rw [hthere hleft]
  dsimp only
  rw [hresume]
  rfl

/-! ## Statements without a word of their own -/

section Statements

variable {mode : InputMode} {levels : Nat} {cursor : Cursor}

theorem run_statement_of_inner (h : cursor.peek.kind.Inner) :
    (nested mode (levels + 1)).statement.run cursor =
      (expressionStatement (nested mode levels)).run cursor := by
  have hpeek : peek.run cursor = (.ok cursor.peek, cursor) := rfl
  change (statement (nested mode levels) mode).run cursor = _
  rw [statement, run_bind_of_ok hpeek]
  split <;> rename_i hkind
  case h_8 => rfl
  all_goals exact absurd hkind (h.ne (by decide))

theorem run_declaration_of_inner (h : cursor.peek.kind.Inner) :
    (declaration (nested mode (levels + 1))).run cursor =
      (expressionStatement (nested mode levels)).recover.run cursor := by
  have hfun : cursor.peek.kind ≠ .funWord := h.ne (by decide)
  have hvar : cursor.peek.kind ≠ .varWord := h.ne (by decide)
  unfold declaration recover
  dsimp only
  rw [run_bind_of_ok (run_accept_of_ne hfun), if_neg Bool.false_ne_true,
    run_bind_of_ok (run_accept_of_ne hvar), if_neg Bool.false_ne_true, run_statement_of_inner h]

end Statements

theorem Cursor.ofTokens_extended {first : List Token}
    (hfirst : ∀ token ∈ first, token.kind ≠ .endOfInput) (second : List Token)
    (nextId : NodeId) :
    Cursor.ofTokens (first ++ second) nextId =
      (Cursor.ofTokens first nextId).extended (Cursor.ofTokens second nextId).rest
        (Cursor.ofTokens second nextId).last := by
  have htake : (first ++ second).takeWhile (·.kind ≠ .endOfInput) =
      first ++ second.takeWhile (·.kind ≠ .endOfInput) :=
    List.takeWhile_append_of_pos (by simpa using hfirst)
  have hfind : first.find? (·.kind = .endOfInput) = none :=
    List.find?_eq_none.mpr (by simpa using hfirst)
  rw [Cursor.ofTokens_eq hfirst]
  unfold Cursor.ofTokens Cursor.extended
  rw [htake, List.find?_append, hfind]
  rfl

end Grammar

section Programs

variable {mode : InputMode} {first second : List Token} {nextId : NodeId}

/-- The statement at the front of the tokens has a fault that is noticed at one of them. -/
def Breaks (mode : InputMode) (tokens : List Token) : Prop :=
  ∃ nextId fault after, (nested mode maxNesting).statement.run (Cursor.ofTokens tokens nextId) =
    (.error fault, after) ∧ after.rest ≠ []

/-- A program goes on with what stands behind its first statement if that breaks. -/
theorem run_program_of_break (hinner : ∀ token ∈ first, token.kind.Inner)
    {fault : Located ParseFault} {after : Cursor}
    (hrun : (nested mode maxNesting).statement.run (Cursor.ofTokens first nextId) =
      (.error fault, after)) (hleft : after.rest ≠ []) {tail : List Token}
    (htail : ∀ token ∈ tail.head?, startsStatement token.kind) (last : Token) :
    (repeated (pass (nested mode maxNesting)) #[]).run
        ((Cursor.ofTokens first nextId).extended tail last) =
      (repeated (pass (nested mode maxNesting)) #[]).run (after.recovered fault tail last) := by
  let cursor := Cursor.ofTokens first nextId
  have hkinds : ∀ token ∈ first, token.kind ≠ .endOfInput := fun token htoken =>
    (hinner token htoken).ne (by decide)
  have hrest : cursor.rest = first := congrArg Cursor.rest (Cursor.ofTokens_eq hkinds nextId)
  have hleads : cursor.LeadsTo after := leadsTo_of_run hrun
  have hne : cursor.rest ≠ [] := hleads.rest_ne_nil hleft
  have hpeek : cursor.peek.kind.Inner := by
    obtain ⟨token, rest, hcons⟩ := List.exists_cons_of_ne_nil hne
    rw [Cursor.peek, hcons]
    exact hinner token (hrest ▸ hcons ▸ List.mem_cons_self)
  have hinner' : ∀ token ∈ after.rest, token.kind.Inner := fun token htoken =>
    hinner token (hrest ▸ hleads.suffix.mem htoken)
  have hstatement : (expressionStatement (nested mode 1023)).run cursor = (.error fault, after) :=
    (run_statement_of_inner hpeek).symm.trans hrun
  have hdeclaration : (declaration (nested mode maxNesting)).run (cursor.extended tail last) =
      (.ok none, after.recovered fault tail last) := by
    rw [← Cursor.peek_extended hne tail last] at hpeek
    exact (run_declaration_of_inner hpeek).trans <| run_recover_of_inner
      (nearsighted_expressionStatement (nearsighted_nested mode 1023).expression) hstatement hleft hinner'
      htail last
  have hread : cursor.read < (after.recovered fault tail last).read := by
    obtain ⟨taken, -, hread⟩ := hleads.taken
    have hpos := List.length_pos_iff.mpr hleft
    change cursor.read < after.read + after.rest.length
    omega
  exact run_repeated_of_found (List.append_ne_nil_of_left_ne_nil hne _) hdeclaration hread

end Programs

end CommandScript
