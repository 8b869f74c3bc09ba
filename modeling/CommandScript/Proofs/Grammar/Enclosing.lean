import CommandScript.Proofs.Grammar.Watching

/-!
# Standing in a block

If braces match in a program, the cursor always stands in a block, or outside of all, with
matching braces up to its end. A rule keeps it there if it reads no brace. It reads an opening
brace only together with the block, and a closing one only where the block ends. Recovery
keeps the cursor there if it gives up nothing but matching braces; if not, it leaves a remark.

* `MissesBrace`: the fault that the end of a block is missing.
* `Cursor.Inside`: how the cursor stands in a block.
* `Rule.Safe`: what a rule does, up to a remark.
* `Rule.Keeps`: the cursor stays in its block, and no fault is that a brace is missing.
* `keeps_watch`: so it does with recovery.
-/

namespace CommandScript

/-- What was asked for where a fault was met, if something was. -/
def ParseFault.awaited : ParseFault → Option String
  | .unexpectedEnd what | .expected what _ => some what
  | _ => none

/-- The fault that a block is not closed. -/
def MissesBrace (fault : Located ParseFault) : Prop :=
  fault.cause.awaited = some "'\x7d' after block"

instance : DecidablePred MissesBrace := fun _ => inferInstanceAs (Decidable (_ = _))

/-- Tokens other than braces. -/
def TokenKind.NoBrace (kind : TokenKind) : Prop := kind ∉ [.leftBrace, .rightBrace]

instance (kind : TokenKind) : Decidable kind.NoBrace := inferInstanceAs (Decidable (¬_))

/-- What braces do not stand for is not read from one. -/
theorem TokenKind.noBrace_of_some {ω : Type} {meaning? : TokenKind → Option ω} {kind : TokenKind}
    {found : ω} (h : meaning? kind = some found) (hleft : meaning? .leftBrace = none)
    (hright : meaning? .rightBrace = none) : kind.NoBrace := by
  intro hkind
  rcases List.mem_pair.mp hkind with rfl | rfl
  · cases h.symm.trans hleft
  · cases h.symm.trans hright

namespace Grammar

open Rule

namespace Cursor

/-- No fault so far is that a brace is missing. -/
structure Sound (cursor : Cursor) : Prop where
  bounded : cursor.Bounded
  faults : ∀ fault ∈ cursor.faults, ¬ MissesBrace fault

/-- The cursor stands in a block that ends where the tail begins, or outside of all blocks. -/
structure Inside (tail : List Token) (cursor : Cursor) : Prop extends cursor.Sound where
  enclosed : Enclosed tail cursor.rest

/-- The cursor stands there on the token. -/
def StandsOn (tail : List Token) (token : Token) (cursor : Cursor) : Prop :=
  cursor.Inside tail ∧ cursor.peek = token

/-- The cursor stands in a block of the block that ends where the tail begins. -/
def Opened (tail : List Token) (cursor : Cursor) : Prop :=
  ∃ close behind, close.closes = true ∧ Enclosed tail behind ∧ cursor.Inside (close :: behind)

/-- A block ends where the cursor has come to its end. -/
theorem Inside.rest_eq {close : Token} {behind : List Token} {cursor : Cursor}
    (h : cursor.Inside (close :: behind)) (hends : EndsBlock cursor) :
    cursor.rest = close :: behind := by
  obtain ⟨body, hbody, -⟩ := h.enclosed.body
  obtain ⟨first, rest, hrest⟩ := List.exists_cons_of_ne_nil
    (hbody ▸ List.append_ne_nil_of_right_ne_nil body (List.cons_ne_nil close behind))
  have henclosed := h.enclosed
  rw [hrest] at henclosed
  rcases hends with hkind | hempty
  · rw [Cursor.peek, hrest, List.headD_cons] at hkind
    exact hrest.trans (henclosed.eq_tail (decide_eq_true hkind)).symm
  · rw [hrest] at hempty
    cases hempty

theorem Sound.record {cursor : Cursor} {fault : Located ParseFault} (h : cursor.Sound)
    (hfault : ¬ MissesBrace fault) :
    Sound { cursor with faults := cursor.faults.push fault } := by
  refine ⟨h.bounded, ?_⟩
  intro other hother
  rcases Array.mem_push.mp hother with hbefore | rfl
  · exact h.faults other hbefore
  · exact hfault

end Cursor

open Cursor

namespace Rule

variable {α β : Type} {pre : Cursor → Prop} {post : α → Cursor → Prop} {rule : Rule α}
  {tail : List Token} {token : Token}

/-! ## Rules that are safe -/

/-- How a safe rule ends: with the property, or with a fault that says nothing of a brace. -/
def EndsSafely (post : α → Cursor → Prop) : Except (Located ParseFault) α × Cursor → Prop
  | (.ok a, after) => post a after
  | (.error fault, after) => after.Sound ∧ ¬ MissesBrace fault

/-- From a cursor with the first property the rule ends safely, if no remark is made. -/
def Safe (pre : Cursor → Prop) (rule : Rule α) (post : α → Cursor → Prop) : Prop :=
  ∀ cursor, pre cursor →
    unmatched ∈ (rule.run cursor).2.faults ∨ EndsSafely post (rule.run cursor)

/-- In every block the cursor stays there. -/
def Keeps (rule : Rule α) : Prop := ∀ tail, rule.Safe (Inside tail) fun _ => Inside tail

/-- The same for a cursor that stands on the token. -/
def KeepsAt (token : Token) (rule : Rule α) : Prop :=
  ∀ tail, rule.Safe (StandsOn tail token) fun _ => Inside tail

theorem Keeps.at (h : rule.Keeps) (token : Token) : rule.KeepsAt token :=
  fun tail cursor hcursor => h tail cursor hcursor.1

theorem safe_pure {a : α} (h : ∀ cursor, pre cursor → post a cursor) :
    (pure a : Rule α).Safe pre post :=
  fun cursor hcursor => .inr (h cursor hcursor)

theorem safe_bind {next : α → Rule β} {last : β → Cursor → Prop} (h : rule.Safe pre post)
    (hnext : ∀ a, (next a).Safe (post a) last) : (rule >>= next).Safe pre last := by
  intro cursor hcursor
  rcases h cursor hcursor with hrecorded | hends
  · exact .inl (mem_faults_bind hrecorded)
  · rw [run_bind]
    revert hends
    generalize rule.run cursor = ended
    obtain ⟨result, after⟩ := ended
    intro hends
    cases result with
    | ok a => exact hnext a after hends
    | error fault => exact .inr hends

/-- The token that the cursor stands on is known after it was looked at. -/
theorem safe_peek_bind {next : Token → Rule α}
    (hnext : ∀ token, (next token).Safe (StandsOn tail token) post) :
    (peek >>= next).Safe (Inside tail) post :=
  fun cursor hcursor => hnext cursor.peek cursor ⟨hcursor, rfl⟩

theorem keeps_pure (a : α) : (pure a : Rule α).Keeps := fun _ => safe_pure fun _ h => h

theorem safe_fail {fault : Located ParseFault} (h : ¬ MissesBrace fault) :
    (fail fault : Rule α).Safe (Inside tail) post :=
  fun _ hcursor => .inr ⟨hcursor.toSound, h⟩

theorem keeps_fail {fault : Located ParseFault} (h : ¬ MissesBrace fault) :
    (fail fault : Rule α).Keeps :=
  fun _ => safe_fail h

theorem keeps_bind {next : α → Rule β} (h : rule.Keeps) (hnext : ∀ a, (next a).Keeps) :
    (rule >>= next).Keeps :=
  fun tail => safe_bind (h tail) fun a => hnext a tail

theorem keeps_peek_bind {next : Token → Rule α} (hnext : ∀ token, (next token).KeepsAt token) :
    (peek >>= next).Keeps :=
  fun tail => safe_peek_bind fun token => hnext token tail

theorem keeps_map {f : α → β} (h : rule.Keeps) : (f <$> rule).Keeps :=
  keeps_bind h fun a => keeps_pure (f a)

theorem keeps_ite {condition : Prop} [Decidable condition] {other : Rule α} (h : rule.Keeps)
    (hother : other.Keeps) : (if condition then rule else other).Keeps := by
  split
  · exact h
  · exact hother

theorem keeps_record {fault : Located ParseFault} (h : ¬ MissesBrace fault) :
    (record fault).Keeps :=
  fun _ _ hcursor => .inr ⟨hcursor.toSound.record h, hcursor.enclosed⟩

theorem keeps_freshId : freshId.Keeps :=
  fun _ _ hcursor => .inr ⟨⟨hcursor.bounded, hcursor.faults⟩, hcursor.enclosed⟩

theorem keeps_peek : peek.Keeps := fun _ _ hcursor => .inr hcursor

theorem keeps_atEnd : atEnd.Keeps := fun _ _ hcursor => .inr hcursor

theorem keeps_check (kind : TokenKind) : (check kind).Keeps :=
  keeps_bind keeps_peek fun _ => keeps_pure _

theorem keeps_repeated {pass : α → Rule (Pass α)} (hpass : ∀ state, (pass state).Keeps)
    (state : α) : (repeated pass state).Keeps := by
  intro tail cursor hcursor
  induction hlength : cursor.rest.length using Nat.strongRecOn generalizing state cursor with
  | _ length ih =>
    subst hlength
    have hadvances := (pass state).advances cursor
    rcases hpass state tail cursor hcursor with hrecorded | hends
    · exact .inl (mem_faults_repeated hrecorded)
    · rw [run_repeated]
      revert hends hadvances
      generalize (pass state).run cursor = ended
      obtain ⟨result, after⟩ := ended
      intro hadvances hends
      match result with
      | .error fault => exact .inr hends
      | .ok (.last last) => exact .inr hends
      | .ok (.again next) =>
        dsimp only
        split
        · rename_i hread
          exact ih _ (hadvances.length_lt hread) next after hends rfl
        · exact .inr hends

/-! ## Tokens -/

/-- What is left when the token on which the cursor stands is read. -/
theorem run_skip_of_cons {cursor : Cursor} {first : Token} {rest : List Token}
    (h : cursor.rest = first :: rest) : skip.run cursor = (.ok (), cursor.next rest) := by
  unfold skip
  dsimp only
  rw [h]
  rfl

theorem keepsAt_skip (h : token.kind.NoBrace) : skip.KeepsAt token := by
  rintro tail cursor ⟨hcursor, rfl⟩
  right
  cases hrest : cursor.rest with
  | nil =>
    unfold skip
    dsimp only
    rw [hrest]
    exact hcursor
  | cons first rest =>
    rw [run_skip_of_cons hrest]
    rw [Cursor.peek, hrest, List.headD_cons] at h
    refine ⟨⟨hcursor.bounded, hcursor.faults⟩, ?_⟩
    apply (hrest ▸ hcursor.enclosed).of_cons
    · exact decide_eq_false fun hkind => h (by rw [hkind]; decide)
    · exact decide_eq_false fun hkind => h (by rw [hkind]; decide)

/-- An opening brace is read only where a block begins. -/
theorem safe_skip_leftBrace (h : token.kind = .leftBrace) :
    skip.Safe (StandsOn tail token) fun _ => Opened tail := by
  rintro cursor ⟨hcursor, rfl⟩
  right
  obtain ⟨rest, hrest⟩ := exists_rest_of_peek hcursor.bounded h (by decide)
  rw [run_skip_of_cons hrest]
  obtain ⟨inside, close, behind, rfl, hclose, hinside, hbehind⟩ :=
    (hrest ▸ hcursor.enclosed).exists_closing (decide_eq_true h)
  refine ⟨close, behind, hclose, hbehind, ⟨hcursor.bounded, hcursor.faults⟩, ?_, ?_⟩
  · intro first hfirst
    obtain rfl := Option.some.inj hfirst
    exact hclose
  · exact ⟨inside, rfl, hinside⟩

theorem keepsAt_skip_bind (h : token.kind.NoBrace) {next : Unit → Rule α}
    (hnext : (next ()).Keeps) : (skip >>= next).KeepsAt token :=
  fun tail => safe_bind (keepsAt_skip h tail) fun _ => hnext tail

/-- Behind a token of the kind the property holds, and without it the cursor stays. -/
theorem safe_accept? {kind : TokenKind} {read : Cursor → Prop}
    (h : ∀ token : Token, token.kind = kind → skip.Safe (StandsOn tail token) fun _ => read) :
    (accept? kind).Safe (Inside tail) fun found => found.elim (Inside tail) fun _ => read := by
  apply safe_peek_bind
  intro token
  split
  · rename_i hkind
    exact safe_bind (h token hkind) fun _ => safe_pure fun _ hread => hread
  · exact safe_pure fun _ hcursor => hcursor.1

theorem keeps_accept? {kind : TokenKind} (h : kind.NoBrace) : (accept? kind).Keeps := by
  apply keeps_peek_bind
  intro token
  split
  · rename_i hkind
    exact keepsAt_skip_bind (hkind ▸ h) (keeps_pure _)
  · exact (keeps_pure _).at token

theorem keeps_accept {kind : TokenKind} (h : kind.NoBrace) : (accept kind).Keeps :=
  keeps_map (keeps_accept? h)

theorem safe_expected {what : String} (h : what ≠ "'\x7d' after block") :
    (expected what : Rule α).Safe (Inside tail) post := by
  have hfault : some what ≠ some "'\x7d' after block" := fun hwhat => h (Option.some.inj hwhat)
  apply safe_bind (keeps_peek tail)
  intro token
  split
  · exact safe_fail hfault
  · exact safe_fail hfault

theorem keeps_expected {what : String} (h : what ≠ "'\x7d' after block") :
    (expected what : Rule α).Keeps :=
  fun _ => safe_expected h

theorem safe_require {kind : TokenKind} {read : Cursor → Prop} {what : String}
    (hwhat : what ≠ "'\x7d' after block")
    (h : ∀ token : Token, token.kind = kind → skip.Safe (StandsOn tail token) fun _ => read) :
    (require kind what).Safe (Inside tail) fun _ => read := by
  apply safe_bind (safe_accept? h)
  intro found
  cases found with
  | some token => exact safe_pure fun _ hread => hread
  | none => exact safe_expected hwhat

theorem keeps_require {kind : TokenKind} (h : kind.NoBrace) {what : String}
    (hwhat : what ≠ "'\x7d' after block") : (require kind what).Keeps :=
  fun tail => safe_require hwhat fun _ hkind => keepsAt_skip (hkind ▸ h) tail

theorem keeps_separated {item : Rule α} (h : item.Keeps) (maxItems : Nat) {tooMany : ParseFault}
    (hfault : tooMany.awaited ≠ some "'\x7d' after block") :
    (separated maxItems tooMany item).Keeps := by
  have hnext (items : Array α) : Keeps (do return Pass.again (items.push (← item))) :=
    keeps_bind h fun _ => keeps_pure _
  apply keeps_bind h
  intro first
  apply keeps_bind (keeps_repeated (fun items => ?_) _) fun _ => keeps_pure _
  apply keeps_bind (keeps_accept (by decide))
  intro comma
  apply keeps_ite _ (keeps_pure _)
  apply keeps_ite _ (hnext items)
  exact keeps_bind keeps_peek fun _ => keeps_bind (keeps_record hfault) fun _ => hnext items

/-! ## Recovery -/

/-- Up to a remark the same block goes on behind what is given up. -/
theorem keeps_watch (h : rule.Keeps) : rule.watch.Keeps := by
  intro tail cursor hcursor
  have hfirst := h tail cursor hcursor
  have hleads := rule.recover.advances cursor
  unfold watch
  unfold recover at hleads ⊢
  dsimp only at hleads ⊢
  revert hfirst hleads
  generalize rule.run cursor = ended
  obtain ⟨result, after⟩ := ended
  intro hfirst hleads
  cases result with
  | ok a => exact hfirst
  | error fault =>
    dsimp only at hleads ⊢
    split
    · rename_i hbraced
      obtain hrecorded | ⟨hsound, hfault⟩ := hfirst
      · exact .inl (Array.mem_push_of_mem _ hrecorded)
      · right
        have hrecord := hsound.record hfault
        refine ⟨⟨hrecord.bounded, hrecord.faults⟩, ?_⟩
        exact (hleads.rest_eq ▸ hcursor.enclosed).of_append hbraced
    · exact .inl (Array.mem_push_self ..)

end Rule

end Grammar

end CommandScript
