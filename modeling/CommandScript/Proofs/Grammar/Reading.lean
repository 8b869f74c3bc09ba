import CommandScript.Proofs.Grammar.Postcondition

/-!
# What rules read

Statements and blocks end with a `;` or `}`, and rules of expressions never read these. So
if the tokens end with one of them, the rules of expressions leave it to the rules that
come after them. A rule that begins or ends by requiring a token cannot succeed without
reading one.

* `Rule.Stays`: a rule leaves a token as long as the last one closes something.
* `Rule.Consumes`: a rule reads a token.
-/

namespace CommandScript.Grammar

open Rule

/-- Statements and blocks end with these tokens. -/
def Closes (kind : TokenKind) : Prop := kind = .semicolon ∨ kind = .rightBrace

instance (kind : TokenKind) : Decidable (Closes kind) :=
  inferInstanceAs (Decidable (_ ∨ _))

/-! ## Rules that read no last token -/

/-- A token is left, and the last one closes a statement or block. -/
def Cursor.Alive (cursor : Cursor) : Prop :=
  ∃ token, cursor.rest.getLast? = some token ∧ Closes token.kind

namespace Rule

variable {α β : Type}

/-- As long as the last token closes something, the rule leaves a token. -/
def Stays (rule : Rule α) : Prop := Ensures Cursor.Alive rule fun _ after => after.Alive

theorem stays_pure (a : α) : (pure a : Rule α).Stays := ensures_pure fun _ h => h

theorem stays_fail (fault : Located ParseFault) : (fail fault : Rule α).Stays := ensures_fail fault

theorem stays_bind {rule : Rule α} {next : α → Rule β} (h : rule.Stays)
    (hnext : ∀ a, (next a).Stays) : (rule >>= next).Stays :=
  ensures_bind h hnext

theorem stays_map {rule : Rule α} {f : α → β} (h : rule.Stays) : (f <$> rule).Stays :=
  stays_bind h fun _ => stays_pure _

theorem stays_ite {condition : Prop} [Decidable condition] {rule other : Rule α} (h : rule.Stays)
    (hother : other.Stays) : (if condition then rule else other).Stays := by
  split
  · exact h
  · exact hother

theorem stays_peek : peek.Stays := by
  intro cursor halive token after hrun
  obtain ⟨-, rfl⟩ := Prod.mk.inj hrun
  exact halive

theorem stays_atEnd : atEnd.Stays := by
  intro cursor halive token after hrun
  obtain ⟨-, rfl⟩ := Prod.mk.inj hrun
  exact halive

theorem stays_freshId : freshId.Stays := by
  intro cursor halive id after hrun
  obtain ⟨-, rfl⟩ := Prod.mk.inj hrun
  exact halive

theorem stays_record (fault : Located ParseFault) : (record fault).Stays := by
  intro cursor halive a after hrun
  obtain ⟨-, rfl⟩ := Prod.mk.inj hrun
  exact halive

theorem stays_check (kind : TokenKind) : (check kind).Stays :=
  stays_bind stays_peek fun _ => stays_pure _

/-- The token that the cursor stands on is known after it was looked at. -/
theorem ensures_peek (pre : Cursor → Prop) :
    Ensures pre peek fun token after => after.peek = token ∧ pre after := by
  intro cursor hpre token after hrun
  obtain ⟨htoken, rfl⟩ := Prod.mk.inj hrun
  exact ⟨Except.ok.inj htoken, hpre⟩

theorem alive_skip {token : Token} (h : ¬ Closes token.kind) :
    Ensures (fun cursor => cursor.peek = token ∧ cursor.Alive) skip
      fun _ after => after.Alive := by
  rintro cursor ⟨hpeek, last, hlast, hcloses⟩ a after hrun
  unfold skip at hrun
  dsimp only at hrun
  cases hrest : cursor.rest with
  | nil =>
    rw [hrest] at hlast
    cases hlast
  | cons first rest =>
    rw [hrest] at hrun hlast
    obtain ⟨-, rfl⟩ := Prod.mk.inj hrun
    cases rest with
    | nil =>
      obtain rfl := Option.some.inj hlast
      rw [Cursor.peek, hrest] at hpeek
      exact absurd (hpeek ▸ hcloses) h
    | cons second rest =>
      rw [List.getLast?_cons_cons] at hlast
      exact ⟨last, hlast, hcloses⟩

/-- A rule that skips the token it has looked at. -/
theorem stays_peek_bind {next : Token → Rule α}
    (hnext : ∀ token, Ensures (fun cursor => cursor.peek = token ∧ cursor.Alive) (next token)
      fun _ after => after.Alive) : (peek >>= next).Stays :=
  ensures_bind (ensures_peek Cursor.Alive) hnext

theorem alive_of_stays {rule : Rule α} {token : Token} (h : rule.Stays) :
    Ensures (fun cursor => cursor.peek = token ∧ cursor.Alive) rule fun _ after => after.Alive :=
  fun cursor hpre a after hrun => h cursor hpre.2 a after hrun

theorem alive_skip_bind {token : Token} (h : ¬ Closes token.kind) {next : Unit → Rule α}
    (hnext : (next ()).Stays) :
    Ensures (fun cursor => cursor.peek = token ∧ cursor.Alive) (skip >>= next)
      fun _ after => after.Alive :=
  ensures_bind (alive_skip h) fun _ => hnext

theorem stays_accept? {kind : TokenKind} (h : ¬ Closes kind) : (accept? kind).Stays := by
  refine stays_peek_bind fun token => ?_
  split
  · rename_i hkind
    exact alive_skip_bind (hkind ▸ h) (stays_pure _)
  · exact alive_of_stays (stays_pure _)

/-- The cursor has not moved if there was nothing to accept. -/
theorem eq_of_accept_false {kind : TokenKind} {cursor after : Cursor}
    (h : (accept kind).run cursor = (.ok false, after)) : after = cursor := by
  obtain ⟨found, middle, haccept, hpure⟩ := run_bind_eq_ok h
  obtain ⟨hfound, rfl⟩ := Prod.mk.inj hpure
  obtain ⟨token, same, hpeek, hrest⟩ := run_bind_eq_ok haccept
  obtain ⟨-, rfl⟩ := Prod.mk.inj hpeek
  split at hrest
  · obtain ⟨_, later, -, hlater⟩ := run_bind_eq_ok hrest
    obtain ⟨hsome, -⟩ := Prod.mk.inj hlater
    obtain rfl := Except.ok.inj hsome
    cases hfound
  · exact (Prod.mk.inj hrest).2.symm

theorem run_accept_of_ne {kind : TokenKind} {cursor : Cursor} (h : cursor.peek.kind ≠ kind) :
    (accept kind).run cursor = (.ok false, cursor) := by
  have hnone : (accept? kind).run cursor = (.ok none, cursor) := by
    have hpeek : peek.run cursor = (.ok cursor.peek, cursor) := rfl
    unfold accept?
    rw [run_bind_of_ok hpeek, if_neg h]
    rfl
  exact run_bind_of_ok hnone

theorem stays_accept {kind : TokenKind} (h : ¬ Closes kind) : (accept kind).Stays :=
  stays_bind (stays_accept? h) fun _ => stays_pure _

theorem stays_expected (what : String) : (expected what : Rule α).Stays :=
  stays_bind stays_peek fun _ => stays_ite (stays_fail _) (stays_fail _)

theorem stays_require {kind : TokenKind} (h : ¬ Closes kind) (what : String) :
    (require kind what).Stays := by
  refine stays_bind (stays_accept? h) fun token => ?_
  cases token with
  | some token => exact stays_pure _
  | none => exact stays_expected what

theorem stays_repeated {pass : α → Rule (Pass α)} (hpass : ∀ state, (pass state).Stays)
    (state : α) : (repeated pass state).Stays :=
  ensures_repeated (fun _ cursor => cursor.Alive) hpass state

theorem stays_separated {item : Rule α} (h : item.Stays) (maxItems : Nat) (tooMany : ParseFault) :
    (separated maxItems tooMany item).Stays := by
  have hnext : ∀ items : Array α, (do return Pass.again (items.push (← item)) : Rule _).Stays :=
    fun items => stays_bind h fun _ => stays_pure _
  refine stays_bind h fun first => stays_bind (stays_repeated (fun items => ?_) _) fun _ =>
    stays_pure _
  refine stays_bind (stays_accept (by decide)) fun comma => stays_ite ?_ (stays_pure _)
  exact stays_ite (stays_bind stays_peek fun _ => stays_bind (stays_record _) fun _ => hnext items)
    (hnext items)

/-! ## Rules that read a token -/

/-- The rule cannot succeed without reading a token. -/
def Consumes (rule : Rule α) : Prop :=
  ∀ cursor a after, cursor.last.kind = .endOfInput → rule.run cursor = (.ok a, after) →
    cursor.read < after.read

theorem read_le {before after : Cursor} (h : before.LeadsTo after) : before.read ≤ after.read := by
  obtain ⟨taken, -, hread⟩ := h.taken
  omega

theorem Consumes.rest_ne_nil {rule : Rule α} (h : rule.Consumes) {cursor after : Cursor} {a : α}
    (hlast : cursor.last.kind = .endOfInput) (hrun : rule.run cursor = (.ok a, after)) :
    cursor.rest ≠ [] := by
  intro hnone
  have hlt := (leadsTo_of_run hrun).length_lt (h cursor a after hlast hrun)
  rw [hnone] at hlt
  exact absurd hlt (Nat.not_lt_zero _)

theorem consumes_bind_left {rule : Rule α} {next : α → Rule β} (h : rule.Consumes) :
    (rule >>= next).Consumes := by
  intro cursor b after hlast hrun
  obtain ⟨a, middle, hfirst, hsecond⟩ := run_bind_eq_ok hrun
  exact Nat.lt_of_lt_of_le (h cursor a middle hlast hfirst)
    (read_le (leadsTo_of_run hsecond))

theorem consumes_bind_right {rule : Rule α} {next : α → Rule β}
    (hnext : ∀ a, (next a).Consumes) : (rule >>= next).Consumes := by
  intro cursor b after hlast hrun
  obtain ⟨a, middle, hfirst, hsecond⟩ := run_bind_eq_ok hrun
  have hleads := leadsTo_of_run hfirst
  exact Nat.lt_of_le_of_lt (read_le hleads)
    (hnext a middle b after (hleads.last ▸ hlast) hsecond)

theorem consumes_fail (fault : Located ParseFault) : (fail fault : Rule α).Consumes := by
  intro cursor a after _ hrun
  cases hrun

theorem consumes_ite {condition : Prop} [Decidable condition] {rule other : Rule α}
    (h : rule.Consumes) (hother : other.Consumes) :
    (if condition then rule else other).Consumes := by
  split
  · exact h
  · exact hother

theorem consumes_expected (what : String) : (expected what : Rule α).Consumes :=
  consumes_bind_right fun _ => consumes_ite (consumes_fail _) (consumes_fail _)

/-- Skipping reads a token unless the cursor stands at the end. -/
theorem read_skip {cursor after : Cursor} (hlast : cursor.last.kind = .endOfInput)
    (hkind : cursor.peek.kind ≠ .endOfInput) {a : Unit} (hrun : skip.run cursor = (.ok a, after)) :
    cursor.read < after.read := by
  unfold skip at hrun
  unfold Cursor.peek at hkind
  dsimp only at hrun
  cases hrest : cursor.rest with
  | nil =>
    rw [hrest] at hkind
    exact absurd hlast hkind
  | cons token rest =>
    rw [hrest] at hrun
    obtain ⟨-, rfl⟩ := Prod.mk.inj hrun
    exact Nat.lt_succ_self _

theorem consumes_accept? {kind : TokenKind} (hkind : kind ≠ .endOfInput)
    {next : Option Token → Rule α}
    (hnone : (next none).Consumes) : (accept? kind >>= next).Consumes := by
  intro cursor a after hlast hrun
  obtain ⟨found, middle, hfirst, hsecond⟩ := run_bind_eq_ok hrun
  obtain ⟨token, same, hpeek, haccept⟩ := run_bind_eq_ok hfirst
  obtain ⟨htoken, rfl⟩ := Prod.mk.inj hpeek
  obtain rfl := Except.ok.inj htoken
  split at haccept
  · rename_i hsame
    obtain ⟨_, later, hskip, hpure⟩ := run_bind_eq_ok haccept
    obtain ⟨-, rfl⟩ := Prod.mk.inj hpure
    exact Nat.lt_of_lt_of_le (read_skip hlast (hsame ▸ hkind) hskip)
      (read_le (leadsTo_of_run hsecond))
  · obtain ⟨hfound, rfl⟩ := Prod.mk.inj haccept
    obtain rfl := Except.ok.inj hfound
    exact hnone cursor a after hlast hsecond

theorem consumes_accept {kind : TokenKind} (hkind : kind ≠ .endOfInput) {next : Bool → Rule α}
    (hfalse : (next false).Consumes) : (accept kind >>= next).Consumes := by
  have h : (accept? kind >>= fun token => next token.isSome).Consumes :=
    consumes_accept? hkind hfalse
  intro cursor a after hlast hrun
  obtain ⟨found, middle, hfirst, hsecond⟩ := run_bind_eq_ok hrun
  obtain ⟨token, same, haccept, hpure⟩ := run_bind_eq_ok hfirst
  obtain ⟨hfound, rfl⟩ := Prod.mk.inj hpure
  obtain rfl := Except.ok.inj hfound
  exact h cursor a after hlast ((run_bind_of_ok haccept).trans hsecond)

theorem consumes_require {kind : TokenKind} (hkind : kind ≠ .endOfInput) (what : String) :
    (require kind what).Consumes :=
  consumes_accept? hkind (consumes_expected what)

end Rule

end CommandScript.Grammar
