import CommandScript.Proofs.Grammar.Acceptance
import CommandScript.Proofs.Grammar.Reading

/-!
# Rules in other surroundings

A cursor can stand at the same place in other surroundings: more tokens come behind those
that are left, and others have been read before, with their ids and faults. A rule does the
same there, with or without faults, as long as it does not come to the end of the tokens
that are left. If those end with a `;`, only the end of a statement reads the last one, and
no fault comes after that.

* `Surroundings`: what comes before and behind; `Cursor.within`: a cursor in surroundings.
* `Surroundings.Agrees`: a run in them does the same.
* `Rule.Local`: a rule does the same, and leaves a token unless it may read the last.
* `agrees_bind`, `local_repeated`, `local_recover`: how rules are put together.
-/

namespace CommandScript

/-- Statements without these are no loops with clauses, no blocks and no functions. -/
def TokenKind.Flat (kind : TokenKind) : Prop := kind ∉ [.leftBrace, .rightBrace, .forWord]

instance (kind : TokenKind) : Decidable kind.Flat := inferInstanceAs (Decidable (¬_))

namespace Grammar

open Rule

structure Surroundings where
  /-- The tokens behind those that are left. -/
  tail : List Token
  /-- The number of tokens that were read before. -/
  read : Nat
  /-- The number of ids that were drawn before. -/
  drawn : Nat
  /-- The faults that were recorded before. -/
  faults : Array (Located ParseFault)

/-- Nothing has been read before, and some tokens come behind. -/
def Surroundings.followedBy (tokens : List Token) : Surroundings := ⟨tokens, 0, 0, #[]⟩

def Cursor.within (around : Surroundings) (cursor : Cursor) : Cursor where
  rest := cursor.rest ++ around.tail
  read := cursor.read + around.read
  last := cursor.last
  firstId := cursor.firstId - UInt32.ofNat around.drawn
  drawn := cursor.drawn + around.drawn
  faults := around.faults ++ cursor.faults

theorem Cursor.nextId_within (around : Surroundings) (cursor : Cursor) :
    (cursor.within around).nextId = cursor.nextId := by
  unfold nextId within
  rw [UInt32.ofNat_add, UInt32.add_comm (UInt32.ofNat cursor.drawn), ← UInt32.add_assoc,
    UInt32.sub_add_cancel]

namespace Surroundings

variable {around : Surroundings} {cursor after : Cursor}

/-- Nothing comes behind, or the tokens are flat and end with a `;`. -/
structure Admits (around : Surroundings) (cursor : Cursor) : Prop where
  bounded : cursor.Bounded
  flat : around.tail = [] ∨ ∀ token ∈ cursor.rest, token.kind.Flat
  closed : around.tail = [] ∨ ∀ token ∈ cursor.rest.getLast?, token.kind = .semicolon

/-- The cursor stands on the same token there. -/
def Sees (around : Surroundings) (cursor : Cursor) : Prop := around.tail = [] ∨ cursor.rest ≠ []

theorem Admits.later (h : around.Admits cursor) (hleads : cursor.LeadsTo after) :
    around.Admits after where
  bounded := by
    rw [Cursor.Bounded, hleads.last]
    exact h.bounded
  flat := h.flat.imp_right fun hflat token htoken => hflat token (hleads.suffix.mem htoken)
  closed := by
    refine h.closed.imp_right fun hclosed token htoken => hclosed token ?_
    obtain ⟨taken, htaken, -⟩ := hleads.taken
    rw [htaken, List.getLast?_append, Option.mem_def.mp htoken]
    rfl

theorem Sees.peek (h : around.Sees cursor) : (cursor.within around).peek = cursor.peek := by
  unfold Cursor.peek Cursor.within
  cases hrest : cursor.rest with
  | cons token rest => rfl
  | nil =>
    rw [h.resolve_right (not_not_intro hrest)]
    rfl

theorem Sees.isEmpty (h : around.Sees cursor) :
    (cursor.within around).rest.isEmpty = cursor.rest.isEmpty := by
  unfold Cursor.within
  cases hrest : cursor.rest with
  | cons token rest => rfl
  | nil =>
    rw [h.resolve_right (not_not_intro hrest)]
    rfl

/-- The run there has the same result. The cursor behind it still sees what it would see
alone; a run without a fault may have read the last token, if it is allowed to. -/
structure Agrees {α : Type} (around : Surroundings) (final : Bool)
    (outcome there : Except (Located ParseFault) α × Cursor) : Prop where
  there : there = (outcome.1, outcome.2.within around)
  sees : around.Sees outcome.2 ∨ final = true ∧ ∃ a, outcome.1 = .ok a

theorem Agrees.sees_of_inside {α : Type} {outcome there : Except (Located ParseFault) α × Cursor}
    (h : around.Agrees false outcome there) : around.Sees outcome.2 :=
  h.sees.resolve_right fun hfinal => absurd hfinal.1 (by decide)

theorem Agrees.sees_of_error {α : Type} {final : Bool} {fault : Located ParseFault}
    {there : Except (Located ParseFault) α × Cursor}
    (h : around.Agrees final (.error fault, after) there) : around.Sees after :=
  h.sees.resolve_right fun hfinal => nomatch hfinal.2

end Surroundings

namespace Rule

open Surroundings

variable {α β : Type} {around : Surroundings} {final : Bool} {rule : Rule α} {next : α → Rule β}

/-- The rule does the same in the surroundings. It leaves a token, unless it may succeed with
the last. -/
def Local (around : Surroundings) (final : Bool) (rule : Rule α) : Prop :=
  ∀ cursor, around.Admits cursor → around.Sees cursor →
    around.Agrees final (rule.run cursor) (rule.run (cursor.within around))

/-- The same for a cursor that stands on the token. -/
def LocalAt (around : Surroundings) (token : Token) (final : Bool) (rule : Rule α) : Prop :=
  ∀ cursor, cursor.peek = token → around.Admits cursor → around.Sees cursor →
    around.Agrees final (rule.run cursor) (rule.run (cursor.within around))

theorem Local.at (h : Local around final rule) (token : Token) :
    LocalAt around token final rule :=
  fun cursor _ => h cursor

/-- Where nothing comes behind, no rule reads too much. -/
theorem Local.inside (h : Local around final rule) (htail : around.tail = []) :
    Local around false rule :=
  fun cursor hadmits hsees => ⟨(h cursor hadmits hsees).there, .inl (.inl htail)⟩

/-! ## Sequences -/

theorem local_pure (a : α) : Local around final (pure a) := fun _ _ hsees => ⟨rfl, .inl hsees⟩

theorem local_fail (fault : Located ParseFault) : Local around final (fail fault : Rule α) :=
  fun _ _ hsees => ⟨rfl, .inl hsees⟩

/-- A sequence does the same if its second rule does the same where the first one ends. -/
theorem agrees_bind {cursor : Cursor} {last : Bool}
    (h : around.Agrees last (rule.run cursor) (rule.run (cursor.within around)))
    (hnext : ∀ a after, rule.run cursor = (.ok a, after) → around.Sees after ∨ last = true →
      around.Agrees final ((next a).run after) ((next a).run (after.within around))) :
    around.Agrees final ((rule >>= next).run cursor)
      ((rule >>= next).run (cursor.within around)) := by
  rw [run_bind, run_bind, h.there]
  generalize houtcome : rule.run cursor = outcome at h hnext
  obtain ⟨result, after⟩ := outcome
  cases result with
  | ok a => exact hnext a after rfl (h.sees.imp_right And.left)
  | error fault => exact ⟨rfl, .inl h.sees_of_error⟩

theorem localAt_bind {token : Token} (h : LocalAt around token false rule)
    (hnext : ∀ a, Local around final (next a)) : LocalAt around token final (rule >>= next) := by
  intro cursor hpeek hadmits hsees
  refine agrees_bind (h cursor hpeek hadmits hsees) fun a after hrun hafter => ?_
  exact hnext a after (hadmits.later (leadsTo_of_run hrun)) (hafter.resolve_right (by decide))

theorem local_bind (h : Local around false rule) (hnext : ∀ a, Local around final (next a)) :
    Local around final (rule >>= next) :=
  fun cursor => localAt_bind (h.at cursor.peek) hnext cursor rfl

/-- What comes behind the last token must not look at anything. -/
theorem local_then (h : Local around final rule) (hnext : ∀ a, ∃ b, next a = pure b) :
    Local around final (rule >>= next) := by
  intro cursor hadmits hsees
  refine agrees_bind (h cursor hadmits hsees) fun a after _ hafter => ?_
  obtain ⟨b, hb⟩ := hnext a
  rw [hb]
  exact ⟨rfl, hafter.imp_right fun hfinal => ⟨hfinal, b, rfl⟩⟩

theorem local_map {f : α → β} (h : Local around final rule) : Local around final (f <$> rule) :=
  local_then h fun a => ⟨f a, rfl⟩

theorem local_ite {condition : Prop} [Decidable condition] {other : Rule α}
    (h : Local around final rule) (hother : Local around final other) :
    Local around final (if condition then rule else other) := by
  split
  · exact h
  · exact hother

theorem local_repeated {pass : α → Rule (Pass α)} (hpass : ∀ state, Local around false (pass state))
    (state : α) : Local around false (repeated pass state) := by
  intro cursor hadmits hsees
  induction hlength : cursor.rest.length using Nat.strongRecOn generalizing state cursor with
  | _ length ih =>
    subst hlength
    have hfirst := hpass state cursor hadmits hsees
    have hadvances := (pass state).advances cursor
    rw [run_repeated, run_repeated, hfirst.there]
    revert hfirst hadvances
    generalize (pass state).run cursor = outcome
    intro hfirst hadvances
    obtain ⟨result, after⟩ := outcome
    have hafter := hfirst.sees_of_inside
    match result with
    | .error fault => exact ⟨rfl, .inl hafter⟩
    | .ok (.last last) => exact ⟨rfl, .inl hafter⟩
    | .ok (.again next) =>
      dsimp only
      have hread : (cursor.within around).read < (after.within around).read ↔
          cursor.read < after.read := Nat.add_lt_add_iff_right
      simp only [hread]
      split
      · rename_i hlt
        exact ih _ (hadvances.length_lt hlt) next after (hadmits.later hadvances) hafter rfl
      · exact ⟨rfl, .inl hafter⟩

/-! ## Single steps -/

theorem local_record (fault : Located ParseFault) : Local around final (record fault) := by
  intro cursor _ hsees
  refine ⟨?_, .inl hsees⟩
  simp [record, Cursor.within]

theorem local_freshId : Local around final freshId := by
  intro cursor _ hsees
  refine ⟨?_, .inl hsees⟩
  refine Prod.ext (congrArg Except.ok (cursor.nextId_within around)) ?_
  change Cursor.mk _ _ _ _ (cursor.drawn + around.drawn + 1) _ = Cursor.mk _ _ _ _ _ _
  rw [Nat.add_right_comm]
  rfl

theorem local_peek : Local around final peek :=
  fun _ _ hsees => ⟨congrArg (Except.ok · , _) hsees.peek, .inl hsees⟩

theorem local_atEnd : Local around final atEnd :=
  fun _ _ hsees => ⟨congrArg (Except.ok · , _) hsees.isEmpty, .inl hsees⟩

/-- The token that the cursor stands on is known after it was looked at. -/
theorem local_peek_bind {next : Token → Rule α}
    (hnext : ∀ token, LocalAt around token final (next token)) :
    Local around final (peek >>= next) := by
  intro cursor hadmits hsees
  have hthere : (peek >>= next).run (cursor.within around) =
      (next cursor.peek).run (cursor.within around) := by
    rw [← hsees.peek]
    rfl
  rw [hthere]
  exact hnext cursor.peek cursor rfl hadmits hsees

theorem local_check (kind : TokenKind) : Local around final (check kind) :=
  local_then local_peek fun _ => ⟨_, rfl⟩

theorem local_skip : Local around true skip := by
  intro cursor _ hsees
  unfold skip
  dsimp only
  cases hrest : cursor.rest with
  | nil =>
    have htail := hsees.resolve_right (not_not_intro hrest)
    have hthere : (cursor.within around).rest = [] := by
      rw [Cursor.within, hrest, htail]
      rfl
    rw [hthere]
    exact ⟨rfl, .inl (.inl htail)⟩
  | cons token rest =>
    have hthere : (cursor.within around).rest = token :: (rest ++ around.tail) := by
      rw [Cursor.within, hrest]
      rfl
    have hread : (cursor.within around).read + 1 = cursor.read + 1 + around.read :=
      Nat.add_right_comm ..
    rw [hthere]
    dsimp only
    rw [hread]
    exact ⟨rfl, .inr ⟨rfl, (), rfl⟩⟩

/-- Reading a token that does not end a statement. -/
theorem localAt_skip {token : Token} (hkind : token.kind ≠ .semicolon) :
    LocalAt around token false skip := by
  intro cursor hpeek hadmits hsees
  refine ⟨(local_skip cursor hadmits hsees).there, .inl ?_⟩
  by_cases htail : around.tail = []
  · exact .inl htail
  · obtain ⟨first, rest, hrest⟩ := List.exists_cons_of_ne_nil (hsees.resolve_left htail)
    have hskip : (skip.run cursor).2.rest = rest := by
      unfold skip
      dsimp only
      rw [hrest]
    have hfirst : first = token := by
      rw [← hpeek, Cursor.peek, hrest]
      rfl
    -- a last token would be a `;`
    refine .inr fun hnone => hkind ?_
    rw [← hfirst]
    refine hadmits.closed.resolve_left htail first ?_
    rw [hrest, hskip.symm.trans hnone]
    rfl

theorem localAt_skip_bind {token : Token} (hkind : token.kind ≠ .semicolon) {next : Unit → Rule α}
    (hnext : Local around final (next ())) : LocalAt around token final (skip >>= next) :=
  localAt_bind (localAt_skip hkind) fun _ => hnext

theorem local_accept? {kind : TokenKind} (hkind : kind ≠ .semicolon) :
    Local around final (accept? kind) := by
  refine local_peek_bind fun token => ?_
  split
  · rename_i hsame
    exact localAt_skip_bind (hsame ▸ hkind) (local_pure _)
  · exact (local_pure _).at token

theorem local_accept {kind : TokenKind} (hkind : kind ≠ .semicolon) :
    Local around final (accept kind) :=
  local_then (local_accept? hkind) fun _ => ⟨_, rfl⟩

theorem local_expected (what : String) : Local around final (expected what : Rule α) :=
  local_bind local_peek fun _ => local_ite (local_fail _) (local_fail _)

theorem local_require {kind : TokenKind} (hkind : kind ≠ .semicolon) (what : String) :
    Local around final (require kind what) := by
  refine local_bind (local_accept? hkind) fun token => ?_
  cases token with
  | some token => exact local_pure _
  | none => exact local_expected what

theorem local_separated {item : Rule α} (h : Local around false item) (maxItems : Nat)
    (tooMany : ParseFault) : Local around false (separated maxItems tooMany item) := by
  have hnext : ∀ items : Array α,
      Local around false (do return Pass.again (items.push (← item))) :=
    fun items => local_bind h fun _ => local_pure _
  refine local_bind h fun first => local_bind (local_repeated (fun items => ?_) _) fun items =>
    local_pure _
  refine local_bind (local_accept (by decide)) fun comma => local_ite ?_ (local_pure _)
  exact local_ite (local_bind local_peek fun _ => local_bind (local_record _) fun _ => hnext items)
    (hnext items)

/-! ## The last token -/

theorem local_accept?_last (kind : TokenKind) : Local around true (accept? kind) := by
  refine local_peek_bind fun token => ?_
  split
  · exact (local_then local_skip fun _ => ⟨_, rfl⟩).at token
  · exact (local_pure _).at token

/-- Behind a token that the rule may read nothing else is looked at. -/
theorem local_accept_last {kind : TokenKind} {next : Bool → Rule α}
    (htrue : ∃ a, next true = pure a) (hfalse : Local around true (next false)) :
    Local around true (accept kind >>= next) := by
  have haccept : Local around true (accept kind) :=
    local_then (local_accept?_last kind) fun _ => ⟨_, rfl⟩
  intro cursor hadmits hsees
  refine agrees_bind (haccept cursor hadmits hsees) fun accepted after hrun _ => ?_
  cases accepted with
  | true =>
    obtain ⟨a, ha⟩ := htrue
    rw [ha]
    exact ⟨rfl, .inr ⟨rfl, a, rfl⟩⟩
  | false =>
    obtain rfl := eq_of_accept_false hrun
    exact hfalse _ hadmits hsees

/-- What is optional behind the last token is not there: no token is left, and what comes
behind begins otherwise. -/
theorem local_bind_accept {kind : TokenKind} {next : α → Bool → Rule β} (hkind : kind ≠ .endOfInput)
    (htail : ∀ token ∈ around.tail.head?, token.kind ≠ kind) (h : Local around true rule)
    (hnext : ∀ a, Local around true (accept kind >>= next a))
    (hfalse : ∀ a, ∃ b, next a false = pure b) :
    Local around true (rule >>= fun a => accept kind >>= next a) := by
  intro cursor hadmits hsees
  refine agrees_bind (h cursor hadmits hsees) fun a after hrun _ => ?_
  have hafter := hadmits.later (leadsTo_of_run hrun)
  by_cases hlater : around.Sees after
  · exact hnext a after hafter hlater
  · obtain ⟨htail', hempty⟩ := not_or.mp hlater
    have hnone := Decidable.of_not_not hempty
    obtain ⟨token, tokens, htokens⟩ := List.exists_cons_of_ne_nil htail'
    have hhere : after.peek.kind ≠ kind := by
      rw [Cursor.peek, hnone]
      exact hafter.bounded.symm ▸ hkind.symm
    have hthere : (after.within around).peek.kind ≠ kind := by
      rw [Cursor.peek, Cursor.within, hnone, htokens]
      exact htail token (by rw [htokens]; rfl)
    obtain ⟨b, hb⟩ := hfalse a
    rw [run_bind_of_ok (run_accept_of_ne hhere), run_bind_of_ok (run_accept_of_ne hthere), hb]
    exact ⟨rfl, .inr ⟨rfl, b, rfl⟩⟩

theorem local_require_of_nil (htail : around.tail = []) (kind : TokenKind) (what : String) :
    Local around false (require kind what) := by
  refine local_bind ((local_accept?_last kind).inside htail) fun token => ?_
  cases token with
  | some token => exact local_pure _
  | none => exact local_expected what

/-! ## Tokens that are not flat -/

theorem flat_of_sees {cursor : Cursor} (hadmits : around.Admits cursor)
    (hsees : around.Sees cursor) : around.tail = [] ∨ cursor.peek.kind.Flat := by
  by_cases htail : around.tail = []
  · exact .inl htail
  · obtain ⟨token, rest, hrest⟩ := List.exists_cons_of_ne_nil (hsees.resolve_left htail)
    refine .inr (hadmits.flat.resolve_left htail _ ?_)
    rw [Cursor.peek, hrest]
    exact List.mem_cons_self

/-- Only where nothing comes behind there are other tokens than flat ones. -/
theorem localAt_of_not_flat {token : Token} (hkind : ¬token.kind.Flat)
    (h : around.tail = [] → LocalAt around token final rule) :
    LocalAt around token final rule := by
  intro cursor hpeek hadmits hsees
  have htail := (flat_of_sees hadmits hsees).resolve_right (hpeek ▸ hkind)
  exact h htail cursor hpeek hadmits hsees

theorem kind_of_require {kind : TokenKind} {what : String} {cursor after : Cursor} {token : Token}
    (h : (require kind what).run cursor = (.ok token, after)) : cursor.peek.kind = kind := by
  refine Decidable.byContradiction fun hkind => ?_
  have hnone : (accept? kind).run cursor = (.ok none, cursor) := by
    have hpeek : peek.run cursor = (.ok cursor.peek, cursor) := rfl
    rw [accept?, run_bind_of_ok hpeek, if_neg hkind]
    rfl
  rw [require, run_bind_of_ok hnone] at h
  dsimp only at h
  obtain ⟨_, _, -, hrest⟩ := run_bind_eq_ok h
  split at hrest <;> cases hrest

theorem local_require_bind {kind : TokenKind} {what : String} {next : Token → Rule α}
    (hkind : ¬kind.Flat) (hne : kind ≠ .semicolon)
    (hnext : around.tail = [] → ∀ token, Local around final (next token)) :
    Local around final (require kind what >>= next) := by
  intro cursor hadmits hsees
  obtain htail | hflat := flat_of_sees hadmits hsees
  · exact local_bind (local_require hne what) (hnext htail) cursor hadmits hsees
  · have hrequire : Local around false (require kind what) := local_require hne what
    refine agrees_bind (hrequire cursor hadmits hsees) fun token after hrun _ => ?_
    exact absurd (kind_of_require hrun ▸ hflat) hkind

/-! ## Recovery -/

/-- Dropping tokens comes to the same end, if the last one is a `;`. -/
theorem resume_append {read more : Nat} {rest tail : List Token}
    (h : tail = [] ∨ rest ≠ [] ∧ ∀ token ∈ rest.getLast?, token.kind = .semicolon) :
    resume (read + more) (rest ++ tail) =
      ((resume read rest).1 + more, (resume read rest).2 ++ tail) := by
  fun_induction resume read rest with
  | case1 read =>
    obtain rfl := h.resolve_right fun hrest => hrest.1 rfl
    rfl
  | case2 read token =>
    cases tail with
    | nil =>
      rw [List.append_nil, List.append_nil, resume, Nat.add_right_comm]
    | cons next tail =>
      have hkind := (h.resolve_left (List.cons_ne_nil _ _)).2 token rfl
      rw [List.singleton_append, resume, hkind, Nat.add_right_comm]
      rfl
  | case3 read token next rest hstops =>
    rw [List.cons_append, List.cons_append, resume, if_pos hstops, Nat.add_right_comm]
  | case4 read token next rest hgoes ih =>
    rw [List.cons_append, List.cons_append, resume, if_neg hgoes, Nat.add_right_comm]
    refine ih (h.imp_right fun hrest => ⟨List.cons_ne_nil _ _, ?_⟩)
    simpa using hrest.2

theorem local_recover (h : Local around true rule) : Local around true rule.recover := by
  intro cursor hadmits hsees
  have hfirst := h cursor hadmits hsees
  have hadvances := rule.advances cursor
  unfold recover
  dsimp only
  rw [hfirst.there]
  revert hfirst hadvances
  generalize rule.run cursor = outcome
  intro hfirst hadvances
  obtain ⟨result, after⟩ := outcome
  cases result with
  | ok a => exact ⟨rfl, hfirst.sees.imp_right fun hfinal => ⟨rfl, some a, rfl⟩⟩
  | error fault =>
    have hafter := hadmits.later hadvances
    have hleft : around.tail = [] ∨ after.rest ≠ [] ∧
        ∀ token ∈ after.rest.getLast?, token.kind = .semicolon :=
      hfirst.sees_of_error.elim .inl fun hrest => hafter.closed.imp_right (.intro hrest)
    have hresume : resume (after.within around).read (after.within around).rest = _ :=
      resume_append hleft
    refine ⟨?_, .inr ⟨rfl, none, rfl⟩⟩
    dsimp only
    rw [hresume]
    simp [Cursor.within]

end Rule

end Grammar

end CommandScript
