import CommandScript.Proofs.Grammar.Progress
import CommandScript.Proofs.Syntax.Braces

/-!
# Watching what is given up

After a fault a declaration is given up: its tokens so far, and those that recovery drops
behind them. Recovery looks for the end of a statement or the beginning of another one and
takes no notice of braces. So it may take a brace without the one that belongs to it.

To tell when it does, the grammar is read with a recovery that leaves a remark in this case.
Another remark is left where a block does not end at its own brace. Nothing else is changed:
if no remark is made, the same is read.

* `Rule.watch`: recovery that leaves a remark if the braces that it gives up do not match.
* `Rule.watchBlock`: a block that leaves a remark if it does not end at its own brace.
* `watchedProgram`: the grammar with both of them.
* `GivesUpWhole`: nothing is given up without its matching brace.
* `shadows_watchedProgram`: without a remark, the same is read.
-/

namespace CommandScript.Grammar

open Rule

/-! ## Remarks -/

/-- The remark that braces do not match in the tokens that were given up. -/
def unmatched : Located ParseFault := ⟨.expected "matching braces" "", 0⟩

/-- The remark that a block has not ended at its own brace. -/
def strayed : Located ParseFault := ⟨.expected "'\x7d' after block" "", 0⟩

def IsRemark (fault : Located ParseFault) : Prop := fault = unmatched ∨ fault = strayed

/-- The tokens between two places of the cursor. -/
def Cursor.upTo (before after : Cursor) : List Token :=
  before.rest.take (after.read - before.read)

theorem Cursor.LeadsTo.upTo_eq {before after : Cursor} (h : before.LeadsTo after)
    {taken : List Token} (htaken : before.rest = taken ++ after.rest) :
    before.upTo after = taken := by
  obtain ⟨between, hbetween, hread⟩ := h.taken
  obtain rfl := List.append_cancel_right (hbetween.symm.trans htaken)
  rw [Cursor.upTo, hread, Nat.add_sub_cancel_left, htaken, List.take_left]

theorem Cursor.LeadsTo.rest_eq {before after : Cursor} (h : before.LeadsTo after) :
    before.rest = before.upTo after ++ after.rest := by
  obtain ⟨taken, htaken, -⟩ := h.taken
  rw [h.upTo_eq htaken]
  exact htaken

/-- Between the two places stands the rest of a block, with the brace that closes it. -/
def Cursor.ClosesBlock (before after : Cursor) : Prop :=
  (before.upTo after).getLast?.any Token.closes = true ∧ Braced (before.upTo after).dropLast

instance (before after : Cursor) : Decidable (before.ClosesBlock after) :=
  inferInstanceAs (Decidable (_ ∧ _))

theorem Cursor.LeadsTo.closesBlock {before after : Cursor} (h : before.LeadsTo after)
    {body : List Token} {close : Token} (hrest : before.rest = body ++ close :: after.rest)
    (hclose : close.closes = true) (hbody : Braced body) : before.ClosesBlock after := by
  have hupTo : before.upTo after = body ++ [close] := by
    apply h.upTo_eq
    rw [hrest, List.append_assoc]
    rfl
  constructor
  · rw [hupTo, List.getLast?_concat]
    exact hclose
  · rw [hupTo, List.dropLast_concat]
    exact hbody

namespace Rule

variable {α : Type}

/-- Recovers, and leaves a remark if the braces in the tokens that are given up do not match:
those from the beginning of the rule to the place where reading goes on. -/
def watch (rule : Rule α) : Rule (Option α) where
  run cursor :=
    match rule.recover.run cursor with
    | (.ok none, after) =>
      if Braced (cursor.upTo after) then (.ok none, after)
      else (.ok none, { after with faults := after.faults.push unmatched })
    | ended => ended
  advances cursor := by
    have h := rule.recover.advances cursor
    split
    · rename_i after heq
      rw [heq] at h
      split
      · exact h
      · exact h.trans { Cursor.LeadsTo.refl _ with faults := by simp }
    · exact h

theorem shadows_watch {rule wider : Rule α} (h : rule.Shadows IsRemark wider) :
    rule.watch.Shadows IsRemark wider.recover := by
  intro cursor
  have hrecover := shadows_recover h cursor
  unfold watch
  dsimp only
  revert hrecover
  generalize rule.recover.run cursor = ended
  intro hrecover
  split
  · rename_i after
    split
    · exact hrecover
    · exact .inr ⟨unmatched, .inl rfl, .inr (Array.mem_push_self ..)⟩
  · exact hrecover

/-- With its recovery a rule reads a token if it cannot succeed without one. -/
theorem exists_watch {rule : Rule α} (h : rule.Consumes) {cursor : Cursor}
    (hcursor : cursor.Bounded) (hrest : cursor.rest ≠ []) :
    ∃ found after, rule.watch.run cursor = (.ok found, after) ∧ cursor.read < after.read := by
  obtain ⟨found, after, hrun, hread⟩ := exists_recover h hcursor hrest
  unfold watch
  dsimp only
  rw [hrun]
  cases found with
  | some a => exact ⟨some a, after, rfl, hread⟩
  | none =>
    dsimp only
    split
    · exact ⟨none, after, rfl, hread⟩
    · exact ⟨none, _, rfl, hread⟩

/-- Reads the rest of a block, and leaves a remark if it does not end at its own brace. -/
def watchBlock (rule : Rule α) : Rule α where
  run cursor :=
    let ended := rule.run cursor
    if ended.1.isOk ∧ cursor.ClosesBlock ended.2 then ended
    else (ended.1, { ended.2 with faults := ended.2.faults.push strayed })
  advances cursor := by
    dsimp only
    split
    · exact rule.advances cursor
    · exact (rule.advances cursor).trans { Cursor.LeadsTo.refl _ with faults := by simp }

theorem mem_faults_watchBlock {rule : Rule α} {cursor : Cursor} {fault : Located ParseFault}
    (h : fault ∈ (rule.run cursor).2.faults) : fault ∈ (rule.watchBlock.run cursor).2.faults := by
  unfold watchBlock
  dsimp only
  split
  · exact h
  · exact Array.mem_push_of_mem _ h

theorem run_watchBlock_of_closes {rule : Rule α} {cursor after : Cursor} {a : α}
    (hrun : rule.run cursor = (.ok a, after)) (h : cursor.ClosesBlock after) :
    rule.watchBlock.run cursor = (.ok a, after) := by
  unfold watchBlock
  dsimp only
  rw [hrun]
  exact if_pos ⟨rfl, h⟩

theorem shadows_watchBlock {rule wider : Rule α} (h : rule.Shadows IsRemark wider) :
    rule.watchBlock.Shadows IsRemark wider := by
  intro cursor
  unfold watchBlock
  dsimp only
  split
  · exact h cursor
  · exact .inr ⟨strayed, .inr rfl, .inr (Array.mem_push_self ..)⟩

end Rule

/-! ## The watched grammar -/

/-- The rest of a block with the given declarations. -/
def blockOf (item : Rule (Option Stmt)) : Rule (List Stmt) := do
  let body ← repeated (bodyPass atBlockEnd item) #[]
  let _ ← require .rightBrace "'\x7d' after block"
  return body.toList

section Watched

variable (inner : Nested) (mode : InputMode)

def watchedDeclaration : Rule (Option Stmt) := watch (declared inner)

def watchedBlock : Rule (List Stmt) := watchBlock (blockOf (watchedDeclaration inner))

def watchedNested : (levels : Nat) → Nested
  | 0 => ⟨tooDeep, tooDeep, tooDeep, tooDeep⟩
  | levels + 1 =>
    let inner := watchedNested levels
    { expression := assignment inner.expression inner.operand
      operand := unary inner.expression inner.operand
      statement := statement inner mode
      block := watchedBlock inner }

def watchedProgram : Rule (List Stmt) := do
  let body ← repeated (bodyPass atEnd (watchedDeclaration (watchedNested mode maxNesting))) #[]
  return body.toList

end Watched

/-- Wherever a declaration is given up in the course of reading the tokens, braces match in the
tokens that are given up. -/
def GivesUpWhole (mode : InputMode) (tokens : List Token) (nextId : NodeId) : Prop :=
  unmatched ∉ ((watchedProgram mode).run (Cursor.ofTokens tokens nextId)).2.faults

instance (mode : InputMode) (tokens : List Token) (nextId : NodeId) :
    Decidable (GivesUpWhole mode tokens nextId) :=
  inferInstanceAs (Decidable (¬ _))

section Bodies

variable {inner more : Nested}

theorem shadows_watchedDeclaration (h : inner.Shadows IsRemark more) :
    (watchedDeclaration inner).Shadows IsRemark (declaration more) :=
  shadows_watch (shadows_declared h)

theorem shadows_watchedBlock (h : inner.Shadows IsRemark more) :
    (watchedBlock inner).Shadows IsRemark (blockBody more) := by
  apply shadows_watchBlock
  apply shadows_then
  exact shadows_repeated (shadows_bodyPass atBlockEnd (shadows_watchedDeclaration h)) #[]

theorem shadows_watchedNested (mode : InputMode) (levels : Nat) :
    (watchedNested mode levels).Shadows IsRemark (nested mode levels) := by
  induction levels with
  | zero => exact ⟨shadows_refl _, shadows_refl _, shadows_refl _, shadows_refl _⟩
  | succ levels ih =>
    exact ⟨shadows_assignment ih.expression ih.operand, shadows_unary ih.expression ih.operand,
      shadows_statement ih (shadows_refl _), shadows_watchedBlock ih⟩

/-- Without a remark the same is read as without watching. -/
theorem shadows_watchedProgram (mode : InputMode) :
    (watchedProgram mode).Shadows IsRemark (program mode) := by
  have hnested := shadows_watchedNested mode maxNesting
  apply shadows_then
  exact shadows_repeated (shadows_bodyPass atEnd (shadows_watchedDeclaration hnested)) #[]

/-! ## Watched declarations come to an end -/

theorem consumes_watchedNested (mode : InputMode) (levels : Nat) :
    (watchedNested mode levels).statement.Consumes := by
  cases levels with
  | zero => exact consumes_bind_right fun _ => consumes_fail _
  | succ levels => exact consumes_statement _ _

theorem alwaysReads_watchedDeclaration (mode : InputMode) (levels : Nat) :
    AlwaysReads (watchedDeclaration (watchedNested mode levels)) :=
  fun _ => exists_watch (consumes_declared (consumes_watchedNested mode levels))

end Bodies

end CommandScript.Grammar
